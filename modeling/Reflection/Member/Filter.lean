import Reflection.Member.Visibility

/-!
# Member/Filter — which members a listing selects

A filter has six independent flags.  Two of them speak of visibility, two of static and instance
members, and a member is selected when one flag of each pair covers it (`MemberFilter.selects`).
The last two say how far a listing climbs: not at all, or for static members too.
-/

namespace Reflection

/-- A set of flags that selects members. -/
structure MemberFilter where
  /-- Members visible to everyone. -/
  publics : Bool := false
  /-- Private, protected and internal members. -/
  nonPublics : Bool := false
  /-- Instance members. -/
  instances : Bool := false
  /-- Static members. -/
  statics : Bool := false
  /-- Members declared on the type itself, none inherited. -/
  declaredOnly : Bool := false
  /-- Static members of ancestor types too. -/
  flatten : Bool := false
deriving DecidableEq, Repr, Inhabited

namespace MemberFilter

/-- The filter without any flag. -/
def none : MemberFilter := {}

/-- Public instance and static members. -/
def standard : MemberFilter := { publics := true, instances := true, statics := true }

/-- Every visibility, instance and static. -/
def all : MemberFilter := { standard with nonPublics := true }

/-- Public instance members. -/
def publicInstance : MemberFilter := { publics := true, instances := true }

/-- The flags of either filter. -/
def union (f g : MemberFilter) : MemberFilter where
  publics := f.publics || g.publics
  nonPublics := f.nonPublics || g.nonPublics
  instances := f.instances || g.instances
  statics := f.statics || g.statics
  declaredOnly := f.declaredOnly || g.declaredOnly
  flatten := f.flatten || g.flatten

instance : OrOp MemberFilter := ⟨union⟩

/-- The flags of all the filters of a list. -/
def unions (fs : List MemberFilter) : MemberFilter := fs.foldl union none

/-- Whether a filter admits members of a visibility. -/
def admits (f : MemberFilter) (v : Visibility) : Bool :=
  if v.isPublic then f.publics else f.nonPublics

/-- Whether a filter admits static members, or instance members. -/
def admitsBinding (f : MemberFilter) (isStatic : Bool) : Bool :=
  if isStatic then f.statics else f.instances

/-- Whether a member of this visibility and binding passes the filter. -/
def selects (f : MemberFilter) (v : Visibility) (isStatic : Bool) : Bool :=
  f.admits v && f.admitsBinding isStatic

/-! ## Bit sets -/

/-- The flags as a number, one bit each, in the order of the fields. -/
def bits (f : MemberFilter) : Nat :=
  f.publics.toNat + 2 * f.nonPublics.toNat + 4 * f.instances.toNat + 8 * f.statics.toNat +
    16 * f.declaredOnly.toNat + 32 * f.flatten.toNat

/-- The filter whose flags are the six low bits of a number. -/
def ofBits (n : Nat) : MemberFilter where
  publics := n.testBit 0
  nonPublics := n.testBit 1
  instances := n.testBit 2
  statics := n.testBit 3
  declaredOnly := n.testBit 4
  flatten := n.testBit 5

theorem ofBits_bits (f : MemberFilter) : ofBits f.bits = f := by
  rcases f with ⟨a, b, c, d, e, g⟩
  revert a b c d e g
  decide

/-! ## Selection -/

theorem union_comm (f g : MemberFilter) : f.union g = g.union f := by
  simp [union, Bool.or_comm]

theorem union_assoc (f g h : MemberFilter) : (f.union g).union h = f.union (g.union h) := by
  simp [union, Bool.or_assoc]

@[simp] theorem union_self (f : MemberFilter) : f.union f = f := by
  simp [union]

@[simp] theorem none_union (f : MemberFilter) : none.union f = f := by
  simp [union, none]

@[simp] theorem union_none (f : MemberFilter) : f.union none = f := by
  simp [union, none]

end MemberFilter

end Reflection
