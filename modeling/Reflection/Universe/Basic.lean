import Reflection.Member.Basic

/-!
# Universe/Basic — declared and defined types

A universe lists the declared types in the order of declaration, each with its definition once it
has one.  Declaring a type changes no definition (`definition?_declare`), and defining one changes
no other (`definition?_define_of_ne`).  Built-in, array and nullable types have fixed definitions
(`builtin?`).

A definition keeps the whole line of base types, nearest first.  A base must be defined before it is
derived from, so its line is complete at that point and ancestors need no search.
-/

namespace Reflection

/-- Modifiers of a type. -/
structure TypeFlags where
  /-- The type has no direct instances. -/
  isAbstract : Bool := false
  /-- The type holds static members only. -/
  isStatic : Bool := false
  /-- The type cannot be derived from. -/
  isSealed : Bool := false
  /-- The type is an open generic definition, with unbound parameters. -/
  isGeneric : Bool := false
deriving DecidableEq, Repr, Inhabited

/-- The words for the modifiers that a type has. -/
def TypeFlags.names (f : TypeFlags) : List String :=
  (if f.isAbstract then ["ABSTRACT"] else []) ++ (if f.isStatic then ["STATIC"] else []) ++
    (if f.isSealed then ["SEALED"] else []) ++ (if f.isGeneric then ["GENERIC_DEFINITION"] else [])

/-- How attributes of a type may be used. -/
structure AttributeUsage where
  /-- Whether one declaration may carry several of them. -/
  allowMultiple : Bool := false
  /-- Whether they apply to derived declarations too. -/
  inherited : Bool := true
deriving DecidableEq, Repr, Inhabited

/-- What defining a type fixes. -/
structure Definition (β : Type) where
  flags : TypeFlags := {}
  /-- The base types, nearest first. -/
  bases : List TypeRef := []
  /-- The interfaces that the type names itself. -/
  interfaces : List TypeRef := []
  /-- The usage that an attribute type declares itself. -/
  usage? : Option AttributeUsage := none
  fields : List Field := []
  properties : List (Property β) := []
  methods : List (Method β) := []
  constructors : List (Constructor β) := []
  attributes : List Attribute := []
  /-- The types of the instance slots, inherited ones first. -/
  layout : List TypeRef := []

/-- A declared type and, once it is defined, its definition. -/
structure Entry (β : Type) where
  kind : DeclaredKind
  name : String
  definition? : Option (Definition β)

/-- The declared types, in the order of declaration. -/
structure Universe (β : Type) where
  entries : Array (Entry β)

namespace Universe

variable {β : Type}

/-- The universe without declared types. -/
def empty : Universe β := ⟨#[]⟩

/-- The number of declared types. -/
def size (u : Universe β) : Nat := u.entries.size

/-! ## Declaring and defining -/

/-- The reference to the type declared next under a kind and a name. -/
def fresh (u : Universe β) (kind : DeclaredKind) (name : String) : Declaration :=
  ⟨u.size, kind, name⟩

/-- The universe with one more type, not yet defined. -/
def declare (u : Universe β) (kind : DeclaredKind) (name : String) : Universe β :=
  ⟨u.entries.push ⟨kind, name, none⟩⟩

/-- The universe in which a declared type has a definition. -/
def define (u : Universe β) (d : Declaration) (definition : Definition β) : Universe β :=
  ⟨u.entries.modify d.index fun e => { e with definition? := some definition }⟩

/-- Whether a declaration is one of this universe. -/
def Declares (u : Universe β) (d : Declaration) : Prop :=
  ∃ e, u.entries[d.index]? = some e ∧ e.kind = d.kind ∧ e.name = d.name

/-! ## Definitions -/

/-- The fixed definition of a type that is not declared. -/
def builtin? : TypeRef → Option (Definition β)
  | .object => some { constructors := [.synthesized .object .everyone] }
  | .primitive .string => some { flags := { isSealed := true }, bases := [.object] }
  | .primitive _ => some { flags := { isSealed := true } }
  | .attributeRoot => some {
      flags := { isAbstract := true }
      bases := [.object]
      usage? := some {}
      constructors := [.synthesized .attributeRoot .family] }
  | .metadata => some { flags := { isAbstract := true }, bases := [.object] }
  | .array _ => some { flags := { isSealed := true }, bases := [.object] }
  | .nullable _ => some { flags := { isSealed := true } }
  | .declared _ => none

/-- The definition of a type, if it has one yet. -/
def definition? (u : Universe β) : TypeRef → Option (Definition β)
  | .declared d => u.entries[d.index]?.bind Entry.definition?
  | t => builtin? t

/-- The definition of a type; a type without one has no members, base or flags. -/
def definition (u : Universe β) (t : TypeRef) : Definition β := (u.definition? t).getD {}

/-- Whether a type is defined. -/
def isDefined (u : Universe β) (t : TypeRef) : Bool := (u.definition? t).isSome

def flags (u : Universe β) (t : TypeRef) : TypeFlags := (u.definition t).flags

/-- The direct base type. -/
def base? (u : Universe β) (t : TypeRef) : Option TypeRef := (u.definition t).bases.head?

/-- A type followed by its base types, nearest first. -/
def ancestors (u : Universe β) (t : TypeRef) : List TypeRef := t :: (u.definition t).bases

def interfaces (u : Universe β) (t : TypeRef) : List TypeRef := (u.definition t).interfaces

def fields (u : Universe β) (t : TypeRef) : List Field := (u.definition t).fields

def properties (u : Universe β) (t : TypeRef) : List (Property β) := (u.definition t).properties

def methods (u : Universe β) (t : TypeRef) : List (Method β) := (u.definition t).methods

def constructors (u : Universe β) (t : TypeRef) : List (Constructor β) :=
  (u.definition t).constructors

def attributes (u : Universe β) (t : TypeRef) : List Attribute := (u.definition t).attributes

/-- The types of the instance slots, inherited ones first. -/
def layout (u : Universe β) (t : TypeRef) : List TypeRef := (u.definition t).layout

/-- The usage of an attribute type: its own, or that of the nearest ancestor that declares one. -/
def effectiveUsage (u : Universe β) (t : TypeRef) : AttributeUsage :=
  ((u.ancestors t).findSome? fun a => (u.definition a).usage?).getD {}

/-- Whether a type cannot have direct instances. -/
def isUninstantiable (u : Universe β) (t : TypeRef) : Bool :=
  (u.flags t).isAbstract || t.isInterface || (u.flags t).isStatic

/-! ## Growth -/

@[simp] theorem size_declare (u : Universe β) (k : DeclaredKind) (n : String) :
    (u.declare k n).size = u.size + 1 := by
  simp [size, declare]

@[simp] theorem size_define (u : Universe β) (d : Declaration) (x : Definition β) :
    (u.define d x).size = u.size := by
  simp [size, define]

/-- Declaring a type gives no other type a definition and takes none away. -/
@[simp] theorem definition?_declare (u : Universe β) (k : DeclaredKind) (n : String)
    (t : TypeRef) : (u.declare k n).definition? t = u.definition? t := by
  cases t <;> try rfl
  next d =>
    simp only [definition?, declare, Array.getElem?_push]
    split
    · next h => simp [h]
    · rfl

/-- Defining a type changes the definition of no other one. -/
theorem definition?_define_of_ne (u : Universe β) {d e : Declaration} (x : Definition β)
    (h : e.index ≠ d.index) :
    (u.define d x).definition? (.declared e) = u.definition? (.declared e) := by
  simp only [definition?, define, Array.getElem?_modify]
  rw [if_neg (Ne.symm h)]

/-- A type has the definition it was given. -/
theorem definition?_define_self (u : Universe β) {d : Declaration} (x : Definition β)
    (h : u.Declares d) : (u.define d x).definition? (.declared d) = some x := by
  obtain ⟨e, he, -, -⟩ := h
  simp [definition?, define, Array.getElem?_modify, he]

end Universe

end Reflection
