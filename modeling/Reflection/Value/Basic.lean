import Reflection.Type.Basic
import Reflection.Value.Double

/-!
# Value/Basic — dynamic values

A value is a tree, except that objects and arrays are references into a store (`World/Store`).
Copying a value copies the tree and shares what the references reach.  A reference carries the type
of what it refers to, which never changes; so the type of a value is read off the value alone.
-/

namespace Reflection

/-- A reference to a cell of the store. -/
structure Ref where
  /-- The type of the object, or the element type of the array, in the cell. -/
  type : TypeRef
  /-- The number of the cell. -/
  cell : Nat
deriving DecidableEq, Repr

/-- A dynamic value. -/
inductive Value where
  | null
  | bool (b : Bool)
  | i32 (n : Int32)
  | i64 (n : Int64)
  | f64 (x : Double)
  | str (s : String)
  /-- A value of an enumeration, named or not. -/
  | enum (type : TypeRef) (raw : Int64)
  /-- A structure with its slots. -/
  | struct (type : TypeRef) (slots : List Value)
  /-- A shared instance of a class. -/
  | object (ref : Ref)
  /-- A shared array. -/
  | array (ref : Ref)
  /-- A type as a value. -/
  | type (t : TypeRef)
deriving Repr, Inhabited

namespace Value

def isNull : Value → Bool
  | null => true
  | _ => false

@[simp] theorem isNull_iff {v : Value} : v.isNull = true ↔ v = .null := by
  cases v <;> simp [isNull]

/-- The type of a value; null has none. -/
def runtimeType? : Value → Option TypeRef
  | null => none
  | bool _ => some (.primitive .bool)
  | i32 _ => some (.primitive .i32)
  | i64 _ => some (.primitive .i64)
  | f64 _ => some (.primitive .f64)
  | str _ => some (.primitive .string)
  | enum t _ => some t
  | struct t _ => some t
  | object r => some r.type
  | array r => some (.array r.type)
  | type _ => some .metadata

theorem runtimeType?_eq_none {v : Value} : v.runtimeType? = none ↔ v = .null := by
  cases v <;> simp [runtimeType?]

/-- The name of the type of a value, as messages show it. -/
def typeName (v : Value) : String :=
  match v.runtimeType? with
  | some t => t.name
  | none => "null"

/-! ## Comparison -/

mutual

/-- Equality of values: objects and arrays are equal when they are the same cell, structures when
they have one type and equal slots, numbers as arithmetic compares them. -/
def same : Value → Value → Bool
  | null, null => true
  | bool a, bool b => a == b
  | i32 a, i32 b => a == b
  | i64 a, i64 b => a == b
  | f64 a, f64 b => a.same b
  | str a, str b => a == b
  | enum t a, enum u b => t = u && a == b
  | struct t a, struct u b => t = u && sameAll a b
  | object a, object b => a.cell == b.cell
  | array a, array b => a.cell == b.cell
  | type t, type u => t = u
  | _, _ => false

/-- Equality of lists of values, slot by slot. -/
def sameAll : List Value → List Value → Bool
  | [], [] => true
  | a :: as, b :: bs => same a b && sameAll as bs
  | _, _ => false

end

end Value

end Reflection
