import Reflection.Member.Basic

/-!
# Member/Accessor — fields and properties alike

An accessor reads and writes a field or a property in one way.  Two accessors are the same when
their members are.  `Call/Access` says what reading and writing do.
-/

namespace Reflection

/-- A field or a property. -/
inductive Accessor (β : Type) where
  | field (f : Field)
  | property (p : Property β)

namespace Accessor

variable {β : Type}

def id : Accessor β → MemberId
  | field f => f.id
  | property p => p.id

def name : Accessor β → String
  | field f => f.name
  | property p => p.name

/-- The declared type. -/
def type : Accessor β → TypeRef
  | field f => f.type
  | property p => p.type

def visibility : Accessor β → Visibility
  | field f => f.visibility
  | property p => p.visibility

def isStatic : Accessor β → Bool
  | field f => f.isStatic
  | property p => p.isStatic

/-- The type that declares the member. -/
def declaring (a : Accessor β) : TypeRef := a.id.declaring

/-- Whether reading can succeed. -/
def canRead : Accessor β → Bool
  | field _ => true
  | property p => p.getter?.isSome

/-- Whether writing can succeed. -/
def canWrite : Accessor β → Bool
  | field f => !f.isLiteral
  | property p => p.setter?.isSome

/-- Whether two accessors are of one member. -/
def same (a b : Accessor β) : Bool := a.id = b.id

end Accessor

instance {β : Type} : Member (Accessor β) where
  id := Accessor.id
  name := Accessor.name
  visibility := Accessor.visibility
  isStatic := Accessor.isStatic

end Reflection
