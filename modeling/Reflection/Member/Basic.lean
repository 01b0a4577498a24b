import Reflection.Member.Parameter
import Reflection.Member.Visibility
import Reflection.Value.Basic

/-!
# Member/Basic — fields, methods, properties and constructors

A member is identified by the type that declares it, its role there and its place among the
declared members of that role (`MemberId`); two members are the same exactly when these agree.  A
method or property carries the declarations it overrides, nearest first, so the chain is part of
the member and following it always ends.

The code of methods and constructors has an arbitrary type `β`: nothing in this module runs it.
-/

namespace Reflection

/-- What a declared member is to its type. -/
inductive MemberRole where
  | field
  | property
  | method
  | getter
  | setter
  | constructor
deriving DecidableEq, Repr

/-- The identity of a member. -/
structure MemberId where
  /-- The declaring type. -/
  declaring : TypeRef
  role : MemberRole
  /-- Place among the declared members of this role; an accessor has the place of its property. -/
  index : Nat
deriving DecidableEq, Repr

/-- What listings and collections ask of a member. -/
class Member (μ : Type) where
  id : μ → MemberId
  name : μ → String
  visibility : μ → Visibility
  isStatic : μ → Bool

/-- The type that declares a member. -/
def Member.declaring {μ : Type} [Member μ] (m : μ) : TypeRef := (Member.id m).declaring

/-- An attribute put on a declaration. -/
structure Attribute where
  type : TypeRef
  arguments : List Value
deriving Repr

/-! ## Fields -/

/-- A field. -/
structure Field where
  id : MemberId
  name : String
  type : TypeRef
  visibility : Visibility
  isStatic : Bool
  /-- The value of a compile-time constant. -/
  constant? : Option Value
  /-- Place in the instance layout, or among the static slots of the declaring type. -/
  slot : Nat
  attributes : List Attribute

namespace Field

/-- The type that declares the field. -/
def declaring (f : Field) : TypeRef := f.id.declaring

/-- Whether the field is a compile-time constant, hence read-only. -/
def isLiteral (f : Field) : Bool := f.constant?.isSome

end Field

instance : Member Field where
  id := Field.id
  name := Field.name
  visibility := Field.visibility
  isStatic := Field.isStatic

/-! ## Methods -/

/-- What a method declares by itself. -/
structure MethodDecl (β : Type) where
  id : MemberId
  name : String
  parameters : List Parameter
  returns? : Option TypeRef
  visibility : Visibility
  isStatic : Bool
  isVirtual : Bool
  attributes : List Attribute
  body : β

/-- A method or accessor: a declaration and the declarations it overrides, nearest first. -/
structure Method (β : Type) extends MethodDecl β where
  overridden : List (MethodDecl β)

namespace Method

variable {β : Type}

/-- The type that declares the method. -/
def declaring (m : Method β) : TypeRef := m.id.declaring

/-- Number of formal parameters; a variadic tail counts as one. -/
def arity (m : Method β) : Nat := m.parameters.length

/-- Whether two methods have one name and the same parameter types and modes. -/
def sameSignature (m n : Method β) : Bool :=
  m.name == n.name && Parameter.sameShape m.parameters n.parameters

/-- Whether a method overrides another, directly or through others. -/
def overrides (m n : Method β) : Bool := m.overridden.any fun d => d.id = n.id

/-- The declaration that a method overrides directly. -/
def parent? (m : Method β) : Option (Method β) :=
  match m.overridden with
  | [] => none
  | d :: ds => some { d with overridden := ds }

end Method

instance {β : Type} : Member (Method β) where
  id m := m.id
  name m := m.name
  visibility m := m.visibility
  isStatic m := m.isStatic

/-! ## Properties -/

/-- What a property declares by itself. -/
structure PropertyDecl (β : Type) where
  id : MemberId
  name : String
  type : TypeRef
  visibility : Visibility
  isStatic : Bool
  isVirtual : Bool
  /-- The accessor that reads; it may be inherited from the overridden property. -/
  getter? : Option (Method β)
  /-- The accessor that writes; it may be inherited from the overridden property. -/
  setter? : Option (Method β)
  attributes : List Attribute

/-- A property: a declaration and the declarations it overrides, nearest first. -/
structure Property (β : Type) extends PropertyDecl β where
  overridden : List (PropertyDecl β)

namespace Property

variable {β : Type}

/-- The type that declares the property. -/
def declaring (p : Property β) : TypeRef := p.id.declaring

/-- The accessors of a property, the reading one first. -/
def accessors (p : Property β) : List (Method β) := p.getter?.toList ++ p.setter?.toList

end Property

instance {β : Type} : Member (Property β) where
  id p := p.id
  name p := p.name
  visibility p := p.visibility
  isStatic p := p.isStatic

/-! ## Constructors -/

/-- A constructor. -/
structure Constructor (β : Type) where
  id : MemberId
  parameters : List Parameter
  visibility : Visibility
  attributes : List Attribute
  /-- The code; a constructor synthesized for a type that declares none has nothing to run. -/
  body? : Option β

namespace Constructor

variable {β : Type}

/-- The type that declares the constructor, and that it produces. -/
def declaring (c : Constructor β) : TypeRef := c.id.declaring

/-- Number of formal parameters; a variadic tail counts as one. -/
def arity (c : Constructor β) : Nat := c.parameters.length

/-- The number of parameters before a variadic tail. -/
def fixedArity (c : Constructor β) : Nat := Parameter.fixedCount c.parameters

def isVariadic (c : Constructor β) : Bool := Parameter.endsVariadic c.parameters

/-- Whether the constructor stands in for a type that declares none. -/
def isSynthesized (c : Constructor β) : Bool := c.body?.isNone

/-- The parameterless constructor of a type that declares none. -/
def synthesized (declaring : TypeRef) (visibility : Visibility) : Constructor β where
  id := ⟨declaring, .constructor, 0⟩
  parameters := []
  visibility := visibility
  attributes := []
  body? := none

end Constructor

end Reflection
