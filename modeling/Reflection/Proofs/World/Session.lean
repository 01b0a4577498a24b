import Reflection.Call.Access
import Reflection.Proofs.World.Typing

/-!
# Proofs/World/Session — reading fields along a whole session

A session declares and defines types, makes default values and instances, and reads and writes
fields, in any order; it holds every value that it has come by.  Each step keeps the values typed
(`Sound`), so a field reads as a value of its type wherever it has a slot.

It has none in an instance that is older than the definition of its type (`Store.isHollow`): there
it reads as null, whatever its type.
-/

namespace Reflection

open Relation

variable {β : Type}

/-! ## What reading and writing have checked -/

namespace Field

variable {f : Field} {u : Universe β} {target v : Value}

theorem checkTarget_eq_ok (h : f.checkTarget u target = .ok ()) : f.ownedBy u target = true := by
  unfold checkTarget at h
  split_ifs at h with _ hown
  exact hown

theorem checkValue_eq_ok (h : f.checkValue u v = .ok ()) : u.accepts f.type v = true := by
  unfold checkValue at h
  split_ifs at h with hacc
  exact hacc

theorem checkWrite_eq_ok (h : f.checkWrite u target v = .ok ()) :
    (f.isStatic = false → f.ownedBy u target = true) ∧ u.accepts f.type v = true := by
  unfold checkWrite at h
  dsimp only at h
  by_cases hl : f.isLiteral = true
  · rw [if_pos hl] at h
    obtain ⟨_, he, -⟩ := bind_eq_ok.mp h
    simp at he
  · rw [if_neg hl] at h
    cases hs : f.isStatic with
    | true =>
      simp only [hs, Bool.not_true, Bool.false_eq_true, if_false] at h
      exact ⟨by simp, checkValue_eq_ok h⟩
    | false =>
      simp only [hs, Bool.not_false, if_true] at h
      obtain ⟨_, ht, hv⟩ := bind_eq_ok.mp h
      exact ⟨fun _ => checkTarget_eq_ok ht, checkValue_eq_ok hv⟩

end Field

/-- Whether an instance has no slots at all: the type of one that is older than the definition of
its type had no layout yet. -/
def Store.isHollow (s : Store) : Value → Bool
  | .object r => (s.contents r.cell).isEmpty
  | .struct _ slots => slots.isEmpty
  | _ => false

/-! ## Sessions -/

/-- A world, and the values that a session has come by. -/
structure Session (β : Type) where
  world : World β
  held : List Value

namespace Session

/-- The session that has done nothing yet. -/
def start : Session β := ⟨.empty, []⟩

/-- The values at hand: those held, and all that have no slots. -/
def Has (s : Session β) (v : Value) : Prop := v.isLeaf = true ∨ v ∈ s.held

/-- **One step of a session.**  A step that fails changes nothing, and a step that does not end
leads nowhere; so neither is one. -/
inductive Step (s : Session β) : Session β → Prop
  | declare (k : DeclaredKind) (n : String) : Step s ⟨(s.world.declare k n).2, s.held⟩
  | define {b : Blueprint β} {w : World β} (hd : s.world.types.Declares b.target)
      (hn : s.world.types.isDefined b.self = false) (hs : s.world.types.Scopes b)
      (hi : ∀ f ∈ b.fields, ∀ v, f.initial? = some v → s.Has v)
      (h : s.world.define? b = some (.ok w)) : Step s ⟨w, s.held⟩
  | default {t : TypeRef} {v : Value} (ht : s.world.types.Knows t)
      (h : s.world.types.default? t = some v) : Step s ⟨s.world, v :: s.held⟩
  | instantiate {t : TypeRef} {v : Value} {w : World β} (ht : s.world.types.Knows t)
      (h : s.world.instantiate? t = some (v, w)) : Step s ⟨w, v :: s.held⟩
  | get {t : TypeRef} {f : Field} {target v : Value} (hf : f ∈ s.world.types.fields t)
      (ht : s.Has target) (h : f.read s.world target = .ok v) : Step s ⟨s.world, v :: s.held⟩
  | set {t : TypeRef} {f : Field} {target v : Value} (hf : f ∈ s.world.types.fields t)
      (ht : s.Has target) (hv : s.Has v) (h : (f.write s.world target v).result = .ok ()) :
      Step s ⟨(f.write s.world target v).world, (f.write s.world target v).target :: s.held⟩

/-- The sessions that steps lead to. -/
def Reachable (s : Session β) : Prop := ReflTransGen Step start s

/-! ## What every session keeps to -/

variable {s : Session β} {cells : List TypeRef} {t : TypeRef} {f : Field} {v target : Value}

/-- **What a session keeps to**, with the types of its cells: store, constants and held values are
typed. -/
structure Sound (s : Session β) (cells : List TypeRef) : Prop where
  types : s.world.types.Reachable
  store : s.world.types.StoreTyped cells s.world.store
  constants : ∀ {t f v}, f ∈ s.world.types.fields t → f.constant? = some v →
    s.world.types.accepts f.type v = true ∧ s.world.types.Typed cells v
  held : ∀ v ∈ s.held, s.world.types.Typed cells v

theorem Sound.typed (hs : s.Sound cells) (hv : s.Has v) : s.world.types.Typed cells v :=
  hv.elim .leaf (hs.held v)

theorem Sound.hold (hs : s.Sound cells) (hv : s.world.types.Typed cells v) :
    Sound ⟨s.world, v :: s.held⟩ cells :=
  { hs with held := List.forall_mem_cons.mpr ⟨hv, hs.held⟩ }

theorem sound_start : (start : Session β).Sound [] where
  types := .empty
  store := {
    size := rfl
    shapes := fun h => by simp at h
    contents := fun i v h => by simp [start, World.empty, Store.empty, Store.contents] at h
    sizeStatics := rfl
    statics := fun h => by simp [start, World.empty, Store.empty] at h }
  constants := fun {t f v} hf => by
    obtain ⟨_, _, _, ho, -⟩ := Universe.Reachable.exists_origin_of_field .empty hf
    obtain ⟨e, he, -⟩ := ho.grown.declares ho.declares
    simp [Universe.empty] at he
  held := fun v h => by simp [start] at h

/-! ## Reading -/

/-- **A shared field always has its slot**, with a typed value of its type. -/
theorem Sound.readStatic? (hs : s.Sound cells) (hf : f ∈ s.world.types.fields t)
    (hstatic : f.isStatic = true) :
    ∃ v, s.world.store.readStatic? f.declaring f.slot = some v ∧
      s.world.types.accepts f.type v = true ∧ s.world.types.Typed cells v := by
  have hslot := hs.types.slot_shared hf hstatic
  obtain ⟨_, b, c, ho, -, -, hd⟩ := hs.types.exists_origin_of_field hf
  have hlt : b.target.index < s.world.store.statics.size := by
    rw [hs.store.sizeStatics]
    exact Universe.lt_size_of_definition? ho.definition?
  have hvs := Array.getElem?_eq_getElem hlt
  obtain ⟨hfills, htyped⟩ := hs.store.statics hvs
  rw [hd] at hslot
  obtain ⟨v, hv, hacc⟩ := hfills.exists_getElem? hslot
  refine ⟨v, ?_, hacc, htyped v (List.mem_of_getElem? hv)⟩
  rw [hd]
  simp only [Store.readStatic?, Blueprint.self, hvs, Option.bind_some, hv]

/-- An instance of a type that has the field lacks every slot, or has a typed value of the field's
type in the slot of the field. -/
theorem Sound.slot_cases (hs : s.Sound cells) (hf : f ∈ s.world.types.fields t)
    (hstatic : f.isStatic = false) (hown : f.ownedBy s.world.types target = true)
    (ht : s.world.types.Typed cells target) :
    (s.world.store.isHollow target = true ∧ s.world.store.slot? target f.slot = none) ∨
      (s.world.store.isHollow target = false ∧
        ∃ v, s.world.store.slot? target f.slot = some v ∧
          s.world.types.accepts f.type v = true ∧ s.world.types.Typed cells v) := by
  -- the same for the slots of an object and those of a structure
  have cases {r : TypeRef} {slots : List Value} (hshape : s.world.types.Shapes r slots)
      (htyped : ∀ v ∈ slots, s.world.types.Typed cells v)
      (hr : (s.world.types.layout r)[f.slot]? = some f.type) :
      (slots.isEmpty = true ∧ slots[f.slot]? = none) ∨ (slots.isEmpty = false ∧
        ∃ v, slots[f.slot]? = some v ∧ s.world.types.accepts f.type v = true ∧
          s.world.types.Typed cells v) := by
    rcases hshape with rfl | hfills
    · exact .inl ⟨rfl, rfl⟩
    · obtain ⟨v, hv, hacc⟩ := hfills.exists_getElem? hr
      have hmem := List.mem_of_getElem? hv
      exact .inr ⟨List.isEmpty_eq_false_iff.mpr (List.ne_nil_of_mem hmem), v, hv, hacc,
        htyped v hmem⟩
  cases ht with
  | leaf hleaf => cases target <;> simp_all [Value.isLeaf, Field.ownedBy]
  | @object r hr =>
    exact cases (hs.store.shapes hr) (hs.store.contents _) (hs.types.layout_slot hf hstatic hown)
  | @struct r slots shape typed =>
    obtain rfl : r = f.declaring := by simpa [Field.ownedBy] using hown
    exact cases shape typed (hs.types.slot_declaring hf hstatic)

/-- What a field reads as: a typed value of its type, or null where there is no slot for it. -/
theorem Sound.read_cases (hs : s.Sound cells) (hf : f ∈ s.world.types.fields t)
    (ht : s.Has target) (h : f.read s.world target = .ok v) :
    ((f.isStatic = true ∨ s.world.store.isHollow target = false) ∧
        s.world.types.accepts f.type v = true ∧ s.world.types.Typed cells v) ∨
      (f.isStatic = false ∧ s.world.store.isHollow target = true ∧ v = .null) := by
  unfold Field.read at h
  cases hc : f.constant? with
  | some c =>
    rw [hc] at h
    obtain rfl : c = v := Except.ok.inj h
    exact .inl ⟨.inl (hs.types.isStatic_of_constant hf hc), hs.constants hf hc⟩
  | none =>
    rw [hc] at h
    cases hstatic : f.isStatic with
    | true =>
      obtain ⟨x, hx, hacc⟩ := hs.readStatic? hf hstatic
      simp only [hstatic, if_true, hx, Option.getD_some] at h
      obtain rfl := Except.ok.inj h
      exact .inl ⟨.inl rfl, hacc⟩
    | false =>
      simp only [hstatic, Bool.false_eq_true, if_false] at h
      obtain ⟨⟨⟩, hcheck, h⟩ := bind_eq_ok.mp h
      have hv := Except.ok.inj h
      rcases hs.slot_cases hf hstatic (Field.checkTarget_eq_ok hcheck) (hs.typed ht) with
        ⟨hhollow, hx⟩ | ⟨hhollow, x, hx, hacc⟩
      · rw [hx, Option.getD_none] at hv
        exact .inr ⟨rfl, hhollow, hv.symm⟩
      · rw [hx, Option.getD_some] at hv
        subst hv
        exact .inl ⟨.inr hhollow, hacc⟩

theorem Sound.typed_read (hs : s.Sound cells) (hf : f ∈ s.world.types.fields t)
    (ht : s.Has target) (h : f.read s.world target = .ok v) :
    s.world.types.Typed cells v := by
  rcases hs.read_cases hf ht h with ⟨-, -, hv⟩ | ⟨-, -, rfl⟩
  · exact hv
  · exact Universe.typed_null

/-! ## Writing -/

/-- Setting the slot of a field of an instance. -/
theorem Sound.setSlot (hs : s.Sound cells) (hf : f ∈ s.world.types.fields t)
    (hstatic : f.isStatic = false) (hown : f.ownedBy s.world.types target = true)
    (ht : s.world.types.Typed cells target) (hacc : s.world.types.accepts f.type v = true)
    (hv : s.world.types.Typed cells v) :
    Sound ⟨{ s.world with store := (s.world.store.setSlot target f.slot v).2 },
      (s.world.store.setSlot target f.slot v).1 :: s.held⟩ cells := by
  cases ht with
  | leaf hleaf => cases target <;> simp_all [Value.isLeaf, Field.ownedBy]
  | @object r hr =>
    have hslot := hs.types.layout_slot hf hstatic hown
    exact {
      types := hs.types
      store := hs.store.write hr hslot hacc hv
      constants := hs.constants
      held := List.forall_mem_cons.mpr ⟨.object hr, hs.held⟩ }
  | @struct r slots shape typed =>
    obtain rfl : r = f.declaring := by simpa [Field.ownedBy] using hown
    have hslot := hs.types.slot_declaring hf hstatic
    exact hs.hold (.struct (shape.set hslot hacc) (Universe.typed_set typed hv))

theorem Sound.write (hs : s.Sound cells) (hf : f ∈ s.world.types.fields t) (ht : s.Has target)
    (hv : s.Has v) (h : (f.write s.world target v).result = .ok ()) :
    Sound ⟨(f.write s.world target v).world, (f.write s.world target v).target :: s.held⟩
      cells := by
  have htarget := hs.typed ht
  have hvalue := hs.typed hv
  unfold Field.write at h ⊢
  cases hcheck : f.checkWrite s.world.types target v with
  | error e => simp [hcheck] at h
  | ok checked =>
    obtain ⟨hown, hacc⟩ := Field.checkWrite_eq_ok hcheck
    cases checked
    dsimp only
    cases hstatic : f.isStatic with
    | true =>
      have hslot := hs.types.slot_shared hf hstatic
      exact {
        types := hs.types
        store := hs.store.writeStatic hslot hacc hvalue
        constants := hs.constants
        held := List.forall_mem_cons.mpr ⟨htarget, hs.held⟩ }
    | false => exact hs.setSlot hf hstatic (hown hstatic) htarget hacc hvalue

end Session

end Reflection
