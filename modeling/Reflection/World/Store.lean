import Reflection.Value.Basic

/-!
# World/Store — the contents of objects, arrays and static slots

Objects and arrays live in numbered cells, each a list of slots; new cells come after the old ones
and none is ever removed.  The static slots of a declared type are kept by the number of its
declaration.
-/

namespace Reflection

/-- The mutable contents of a world. -/
structure Store where
  /-- The slots of each object and the items of each array. -/
  cells : Array (List Value)
  /-- The static slots of each declared type. -/
  statics : Array (List Value)

namespace Store

def empty : Store := ⟨#[], #[]⟩

/-! ## Cells -/

/-- The contents of a cell. -/
def contents (s : Store) (cell : Nat) : List Value := (s.cells[cell]?).getD []

/-- A slot of a cell. -/
def read? (s : Store) (cell slot : Nat) : Option Value := (s.contents cell)[slot]?

/-- The store in which a slot of a cell holds a value; without such a slot nothing changes. -/
def write (s : Store) (cell slot : Nat) (v : Value) : Store :=
  { s with cells := s.cells.modify cell fun slots => slots.set slot v }

/-- A new cell with its contents. -/
def allocate (s : Store) (slots : List Value) : Nat × Store :=
  (s.cells.size, { s with cells := s.cells.push slots })

/-- A new object. -/
def newObject (s : Store) (t : TypeRef) (slots : List Value) : Value × Store :=
  let (cell, s) := s.allocate slots
  (.object ⟨t, cell⟩, s)

/-- A new array. -/
def newArray (s : Store) (element : TypeRef) (items : List Value) : Value × Store :=
  let (cell, s) := s.allocate items
  (.array ⟨element, cell⟩, s)

/-- A slot of an object or a structure. -/
def slot? (s : Store) (v : Value) (slot : Nat) : Option Value :=
  match v with
  | .object r => s.read? r.cell slot
  | .struct _ slots => slots[slot]?
  | _ => none

/-- An object or a structure whose slot holds a value: an object is the same and the store changes,
a structure is a changed copy.  Without such a slot nothing changes. -/
def setSlot (s : Store) (target : Value) (slot : Nat) (v : Value) : Value × Store :=
  match target with
  | .object r => (target, s.write r.cell slot v)
  | .struct t slots => (.struct t (slots.set slot v), s)
  | _ => (target, s)

/-- The items of an array. -/
def items? (s : Store) : Value → Option (List Value)
  | .array r => some (s.contents r.cell)
  | _ => none

/-- The store in which an item of an array holds a value; without such an item nothing changes. -/
def setItem (s : Store) (target : Value) (index : Nat) (v : Value) : Store :=
  match target with
  | .array r => s.write r.cell index v
  | _ => s

/-! ## Static slots -/

/-- A static slot of a type. -/
def readStatic? (s : Store) : TypeRef → Nat → Option Value
  | .declared d, slot => (s.statics[d.index]?).bind fun slots => slots[slot]?
  | _, _ => none

/-- The store in which a static slot of a type holds a value; without such a slot nothing
changes. -/
def writeStatic (s : Store) (t : TypeRef) (slot : Nat) (v : Value) : Store :=
  match t with
  | .declared d => { s with statics := s.statics.modify d.index fun slots => slots.set slot v }
  | _ => s

/-- The store in which a declared type has the static slots it starts with. -/
def setStatics (s : Store) (d : Declaration) (slots : List Value) : Store :=
  { s with statics := s.statics.modify d.index fun _ => slots }

/-! ## What operations do to slots -/

theorem read?_write_self (s : Store) {cell slot : Nat} (v : Value)
    (h : (s.read? cell slot).isSome) : (s.write cell slot v).read? cell slot = some v := by
  unfold read? contents write at *
  simp only [Array.getElem?_modify, if_true]
  cases hc : s.cells[cell]? with
  | none => simp [hc] at h
  | some slots =>
    simp only [hc, Option.getD_some, Option.isSome_iff_exists] at h
    obtain ⟨w, hw⟩ := h
    have := (List.getElem?_eq_some_iff.mp hw).1
    simp [this]

theorem read?_write_of_ne (s : Store) {cell slot cell' slot' : Nat} (v : Value)
    (h : cell' ≠ cell ∨ slot' ≠ slot) :
    (s.write cell slot v).read? cell' slot' = s.read? cell' slot' := by
  unfold read? contents write
  simp only [Array.getElem?_modify]
  by_cases hc : cell = cell'
  · subst hc
    have hs : slot ≠ slot' := fun e => h.elim (fun g => g rfl) (fun g => g e.symm)
    cases s.cells[cell]? with
    | none => simp
    | some slots => simp [List.getElem?_set_ne hs]
  · simp [hc]

theorem readStatic?_write (s : Store) (cell slot : Nat) (v : Value) (t : TypeRef) (k : Nat) :
    (s.write cell slot v).readStatic? t k = s.readStatic? t k := by
  cases t <;> rfl

end Store

end Reflection
