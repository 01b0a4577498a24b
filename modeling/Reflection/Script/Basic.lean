import Reflection.Member.Basic

/-!
# Script/Basic — a small language for bodies

A script is a list of statements over expressions.  Types and variables are written by name and
looked up in a scope when the script runs, so a script may name a type that is not there yet.
-/

namespace Reflection.Script

/-- A type as written in a script. -/
inductive TypeName where
  | name (s : String)
  | array (element : TypeName)
  | nullable (inner : TypeName)
deriving Repr, Inhabited

/-- An expression. -/
inductive Expr where
  | null
  | bool (b : Bool)
  | i32 (n : Int32)
  | i64 (n : Int64)
  | f64 (x : Double)
  | str (s : String)
  | enum (type : TypeName) (raw : Int64)
  | struct (type : TypeName) (slots : List Expr)
  /-- A new object with these slots; no constructor runs. -/
  | object (type : TypeName) (slots : List Expr)
  /-- A new array. -/
  | array (element : TypeName) (items : List Expr)
  | typeOf (type : TypeName)
  | defaultOf (type : TypeName)
  /-- An instance with default slots; no constructor runs. -/
  | instanceOf (type : TypeName)
  | variable (name : String)
  /-- A new instance by the constructor that matches the arguments best. -/
  | construct (type : TypeName) (arguments : List Expr)
  /-- A call, on a copy of the target, of a method found by name and arity on the target's type. -/
  | call (method : String) (arity : Nat) (target : Expr) (arguments : List Expr)
  | staticSlot (type : TypeName) (slot : Nat)
  /-- A slot of an object or structure. -/
  | slot (index : Nat) (of : Expr)
  | item (index : Nat) (of : Expr)
  | length (of : Expr)
  /-- The first value unless it is null, then the second. -/
  | orElse (first second : Expr)
  | add (left right : Expr)
  | self
  | argument (index : Nat)
deriving Inhabited

/-- A statement. -/
inductive Statement where
  | raise (text : String)
  | return (value : Expr)
  | evaluate (value : Expr)
  /-- Writes a slot of the target. -/
  | setOwnSlot (index : Nat) (value : Expr)
  /-- Writes a slot of an object. -/
  | setSlot (index : Nat) (value target : Expr)
  | setArgument (index : Nat) (value : Expr)
  | setSelf (value : Expr)
  | setItem (index : Nat) (value target : Expr)
  | setStatic (type : TypeName) (slot : Nat) (value : Expr)

end Reflection.Script

namespace Reflection

/-- A body: statements run in order. -/
abbrev Script : Type := List Script.Statement

namespace Script

/-- What the names in a script stand for. -/
structure Scope where
  /-- The types bound by name; a later binding comes first. -/
  types : List (String × TypeRef) := []
  /-- The variables bound by name; a later binding comes first. -/
  values : List (String × Value) := []

/-- The built-in types by name. -/
def builtinTypes : List (String × TypeRef) :=
  ([.object, .primitive .bool, .primitive .i32, .primitive .i64, .primitive .f64,
    .primitive .string, .attributeRoot, .metadata] : List TypeRef).map fun t => (t.name, t)

namespace Scope

/-- The type that a name stands for: a bound one, or else a built-in one. -/
def typeNamed? (s : Scope) (name : String) : Option TypeRef :=
  (s.types.lookup name).orElse fun _ => builtinTypes.lookup name

/-- The type that a written type stands for. -/
def resolve? (s : Scope) : TypeName → Option TypeRef
  | .name n => s.typeNamed? n
  | .array t => (s.resolve? t).map .array
  | .nullable t => (s.resolve? t).map .nullable

def bindType (s : Scope) (name : String) (t : TypeRef) : Scope :=
  { s with types := (name, t) :: s.types }

def bindVariable (s : Scope) (name : String) (v : Value) : Scope :=
  { s with values := (name, v) :: s.values }

end Scope

end Script

end Reflection
