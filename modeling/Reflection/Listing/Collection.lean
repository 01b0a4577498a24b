import Reflection.Member.Accessor
import Reflection.Universe.Subtyping

/-!
# Listing/Collection — one member for each name

A collection keeps one accessor per name, in the order in which the names first came.  When a name
comes again, the accessor of the more derived type is kept, in the place of the first.
-/

namespace Reflection

/-- Accessors with distinct names. -/
structure MemberCollection (β : Type) where
  members : List (Accessor β)

namespace MemberCollection

variable {β : Type}

/-- Whether a member hides another of its name: its type derives from the other's. -/
def hides (u : Universe β) (a b : Accessor β) : Bool :=
  a.declaring ≠ b.declaring && u.isSubtype a.declaring b.declaring

/-- One more member: it takes the place of the one of its name if it hides it, is dropped if it does
not, and comes last if its name is new. -/
def insert (u : Universe β) (a : Accessor β) : List (Accessor β) → List (Accessor β)
  | [] => [a]
  | b :: bs => if b.name = a.name then (if hides u a b then a else b) :: bs else b :: insert u a bs

/-- The collection of a list of members. -/
def build (u : Universe β) (as : List (Accessor β)) : MemberCollection β :=
  ⟨as.foldl (fun kept a => insert u a kept) []⟩

/-- The member of a name. -/
def get? (c : MemberCollection β) (name : String) : Option (Accessor β) :=
  c.members.find? fun a => a.name = name

def contains (c : MemberCollection β) (name : String) : Bool := (c.get? name).isSome

def size (c : MemberCollection β) : Nat := c.members.length

def isEmpty (c : MemberCollection β) : Bool := c.members.isEmpty

/-- The names, in order. -/
def names (c : MemberCollection β) : List String := c.members.map Accessor.name

/-- Whether two collections bind the same names to the same members, in whatever order. -/
def same (c d : MemberCollection β) : Bool :=
  c.size == d.size && c.members.all fun a => (d.get? a.name).any a.same

end MemberCollection

end Reflection
