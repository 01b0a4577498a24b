import Reflection.Attribute.Target
import Reflection.Member.Filter

/-!
# Listing/Provider — where members are listed from

Everything that enumerates members does so through a provider, a record of five listings.  The
reflector lists what the definitions hold: the members of the type and of its ancestors, most
derived first (`collect`).
-/

namespace Reflection

/-- A source of members and attributes. -/
structure Provider (β : Type) where
  /-- The fields that a filter selects, most derived first. -/
  fields : Universe β → TypeRef → MemberFilter → List Field
  /-- The properties that a filter selects, most derived first. -/
  properties : Universe β → TypeRef → MemberFilter → List (Property β)
  /-- The methods that a filter selects, most derived first. -/
  methods : Universe β → TypeRef → MemberFilter → List (Method β)
  /-- The constructors of a type, whatever their visibility. -/
  constructors : Universe β → TypeRef → List (Constructor β)
  /-- The attributes put on one declaration. -/
  attributes : Universe β → AttributeTarget β → List Attribute

/-! ## The reflector -/

section Collect

variable {μ : Type} [Member μ]

/-- Whether a listing takes a member of the type itself. -/
def MemberFilter.takesOwn (f : MemberFilter) (m : μ) : Bool :=
  f.selects (Member.visibility m) (Member.isStatic m)

/-- Whether a listing takes a member of a proper ancestor: private members stay with their type, and
static ones are taken only when the hierarchy is flattened. -/
def MemberFilter.takesInherited (f : MemberFilter) (m : μ) : Bool :=
  Member.visibility m ≠ .ownType && (!Member.isStatic m || f.flatten) && f.takesOwn m

/-- The members that a filter selects from those declared along a line of types. -/
def MemberFilter.collect (f : MemberFilter) (declared : TypeRef → List μ) :
    List TypeRef → List μ
  | [] => []
  | t :: bases =>
    (declared t).filter f.takesOwn ++
      if f.declaredOnly then []
      else bases.flatMap fun b => (declared b).filter f.takesInherited

end Collect

namespace Provider

variable {β : Type}

/-- The provider that lists what the definitions hold. -/
def reflector : Provider β where
  fields u t f := f.collect u.fields (u.ancestors t)
  properties u t f := f.collect u.properties (u.ancestors t)
  methods u t f := f.collect u.methods (u.ancestors t)
  constructors u t := u.constructors t
  attributes u target := target.declared u

/-- The provider that gives every listing of another one backwards. -/
def reversed (p : Provider β) : Provider β where
  fields u t f := (p.fields u t f).reverse
  properties u t f := (p.properties u t f).reverse
  methods u t f := (p.methods u t f).reverse
  constructors u t := (p.constructors u t).reverse
  attributes u target := (p.attributes u target).reverse

end Provider

end Reflection
