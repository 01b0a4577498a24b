/-!
# Type/Basic — references to types

A reference to a declared type carries what is fixed when the type is declared: its number in the
order of declaration, its kind and its name.  Array and nullable types are built from references,
so two of them are equal exactly when their parts are.  What a reference alone decides — the kind,
whether values are copied or shared, whether null is among them — is therefore settled before the
type is defined, and no later definition changes it.
-/

namespace Reflection

/-- The built-in types that cannot be derived from. -/
inductive Primitive where
  | bool
  | i32
  | i64
  | f64
  | string
deriving DecidableEq, Repr

/-- The name of a primitive. -/
def Primitive.name : Primitive → String
  | .bool => "bool"
  | .i32 => "i32"
  | .i64 => "i64"
  | .f64 => "f64"
  | .string => "string"

/-- The kinds of type that can be declared. -/
inductive DeclaredKind where
  /-- A reference type with a single line of bases. -/
  | classType
  /-- A mutable value type. -/
  | structType
  /-- Named values over a 64-bit number. -/
  | enumType
  /-- A contract; it has no instances of its own. -/
  | interfaceType
deriving DecidableEq, Repr

/-- The word for a kind. -/
def DeclaredKind.name : DeclaredKind → String
  | .classType => "class"
  | .structType => "struct"
  | .enumType => "enum"
  | .interfaceType => "interface"

/-- The kind that a word stands for. -/
def DeclaredKind.ofName? (word : String) : Option DeclaredKind :=
  [classType, structType, enumType, interfaceType].find? fun k => k.name = word

theorem DeclaredKind.ofName?_name (k : DeclaredKind) : ofName? k.name = some k := by
  cases k <;> decide

/-- A declared type, before and after its definition. -/
structure Declaration where
  /-- Position in the order of declaration: the identity of the type. -/
  index : Nat
  kind : DeclaredKind
  name : String
deriving DecidableEq, Repr

/-- A reference to a type. -/
inductive TypeRef where
  /-- The root of every type. -/
  | object
  | primitive (p : Primitive)
  /-- The abstract root of every attribute type. -/
  | attributeRoot
  /-- The type of types themselves. -/
  | metadata
  | declared (d : Declaration)
  | array (element : TypeRef)
  /-- The values of a type, and null. -/
  | nullable (inner : TypeRef)
deriving DecidableEq, Repr

namespace TypeRef

/-- The name shown for a type; distinct types may share one. -/
def name : TypeRef → String
  | object => "object"
  | primitive p => p.name
  | attributeRoot => "Attribute"
  | metadata => "Type"
  | declared d => d.name
  | array t => t.name ++ "[]"
  | nullable t => t.name ++ "?"

/-! ## Kinds -/

/-- The kind of a type in words, with the type that a built-in or composed kind is about. -/
def kindName : TypeRef → String
  | object => "primitive:object"
  | primitive p => "primitive:" ++ p.name
  | attributeRoot => DeclaredKind.classType.name
  | metadata => "metadata"
  | declared d => d.kind.name
  | array t => "array:" ++ t.name
  | nullable t => "nullable:" ++ t.name

/-- Whether a type is declared with the given kind. -/
def hasKind (k : DeclaredKind) : TypeRef → Bool
  | declared d => d.kind = k
  | _ => false

/-- Whether a type is a class; the root and the attribute root are. -/
def isClass : TypeRef → Bool
  | object | attributeRoot => true
  | t => t.hasKind .classType

def isObject : TypeRef → Bool
  | object => true
  | _ => false

def isStruct (t : TypeRef) : Bool := t.hasKind .structType

def isEnum (t : TypeRef) : Bool := t.hasKind .enumType

def isInterface (t : TypeRef) : Bool := t.hasKind .interfaceType

def isArray : TypeRef → Bool
  | array _ => true
  | _ => false

def isNullable : TypeRef → Bool
  | nullable _ => true
  | _ => false

def isMetadata : TypeRef → Bool
  | metadata => true
  | _ => false

/-- Whether a type is a primitive; the root counts as one. -/
def isPrimitive : TypeRef → Bool
  | object | primitive _ => true
  | _ => false

/-- The element type of an array type. -/
def element? : TypeRef → Option TypeRef
  | array t => some t
  | _ => none

/-- The type that a nullable type wraps. -/
def inner? : TypeRef → Option TypeRef
  | nullable t => some t
  | _ => none

/-! ## Values of a type -/

/-- Whether assignment copies the values of a type. -/
def isValueType : TypeRef → Bool
  | primitive .string => false
  | primitive _ => true
  | nullable _ => true
  | t => t.isStruct || t.isEnum

/-- Whether values of a type are shared references. -/
def isReferenceType (t : TypeRef) : Bool := !t.isValueType

/-- Whether null may be stored where a type is declared. -/
def acceptsNull (t : TypeRef) : Bool := t.isReferenceType || t.isNullable

@[simp] theorem isObject_iff {t : TypeRef} : t.isObject = true ↔ t = .object := by
  cases t <;> simp [isObject]

@[simp] theorem acceptsNull_nullable (t : TypeRef) : (nullable t).acceptsNull = true := by
  simp [acceptsNull, isNullable]

@[simp] theorem acceptsNull_array (t : TypeRef) : (array t).acceptsNull = true := rfl

end TypeRef

end Reflection
