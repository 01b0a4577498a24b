import Reflection.Attribute.Query
import Reflection.Listing.Collection
import Reflection.Listing.MethodTable

/-!
# Snapshot/Basic — the members of a type under a filter

A snapshot lists a type once and keeps what it found: fields and properties with hiding resolved,
the method table, the constructors and the attributes along the line of bases.  It does not change
when the type is defined later.
-/

namespace Reflection

/-- The members of one type under one filter, as a provider listed them. -/
structure Snapshot (β : Type) where
  type : TypeRef
  filter : MemberFilter
  provider : Provider β
  fields : MemberCollection β
  properties : MemberCollection β
  methods : MethodTable β
  constructors : List (Constructor β)
  attributes : AttributeQuery

namespace Snapshot

variable {β : Type}

/-- The snapshot of a type at this point. -/
def build (provider : Provider β) (u : Universe β) (t : TypeRef) (f : MemberFilter) :
    Snapshot β where
  type := t
  filter := f
  provider := provider
  fields := .build u ((provider.fields u t f).map .field)
  properties := .build u ((provider.properties u t f).map .property)
  methods := .build (provider.methods u t f)
  constructors := (provider.constructors u t).filter fun c => f.admits c.visibility
  attributes := .ofTarget provider u (.type t)

/-- The attributes of a field. -/
def fieldAttributes? (s : Snapshot β) (u : Universe β) (name : String) : Option AttributeQuery :=
  (s.fields.get? name).map fun a => .ofTarget s.provider u a.attributeTarget

/-- The attributes of a property. -/
def propertyAttributes? (s : Snapshot β) (u : Universe β) (name : String) : Option AttributeQuery :=
  (s.properties.get? name).map fun a => .ofTarget s.provider u a.attributeTarget

/-- The attributes of an overload of a method. -/
def methodAttributes? (s : Snapshot β) (u : Universe β) (name : String) (arity : Nat) :
    Option AttributeQuery :=
  (s.methods.find? name arity).map fun m => .ofTarget s.provider u (.method m)

end Snapshot

end Reflection
