import Reflection.Member.Accessor
import Reflection.Universe.Basic

/-!
# Attribute/Target — declarations that carry attributes

A target inherits attributes along its lineage: a type from its base types, a property or method
from the declarations it overrides; fields and constructors inherit none.
-/

namespace Reflection

/-- A declaration that can carry attributes. -/
inductive AttributeTarget (β : Type) where
  | type (t : TypeRef)
  | field (f : Field)
  | property (p : Property β)
  | method (m : Method β)
  | constructor (c : Constructor β)

namespace AttributeTarget

variable {β : Type}

/-- The attributes put on the declaration itself. -/
def declared (u : Universe β) : AttributeTarget β → List Attribute
  | type t => u.attributes t
  | field f => f.attributes
  | property p => p.attributes
  | method m => m.attributes
  | constructor c => c.attributes

/-- A chain of overridden methods, each with the rest of the chain as what it overrides. -/
def ofMethodChain : List (MethodDecl β) → List (AttributeTarget β)
  | [] => []
  | d :: ds => method { d with overridden := ds } :: ofMethodChain ds

/-- A chain of overridden properties, each with the rest of the chain as what it overrides. -/
def ofPropertyChain : List (PropertyDecl β) → List (AttributeTarget β)
  | [] => []
  | d :: ds => property { d with overridden := ds } :: ofPropertyChain ds

/-- The declaration and those it inherits attributes from, nearest first. -/
def lineage (u : Universe β) : AttributeTarget β → List (AttributeTarget β)
  | type t => (u.ancestors t).map type
  | field f => [field f]
  | property p => property p :: ofPropertyChain p.overridden
  | method m => method m :: ofMethodChain m.overridden
  | constructor c => [constructor c]

end AttributeTarget

/-- The member of an accessor as a declaration that carries attributes. -/
def Accessor.attributeTarget {β : Type} : Accessor β → AttributeTarget β
  | field f => .field f
  | property p => .property p

end Reflection
