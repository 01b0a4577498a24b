import Mathlib.Logic.Relation
import Reflection.Proofs.Universe.Layouts
import Reflection.Proofs.Universe.Lines
import Reflection.World.Basic

/-!
# Proofs/World/Hosted — worlds in which types come about

    empty  ──Evolves──▸ ⋯ ──Evolves──▸  w        w.Hosted

A hosted world has come about by declaring types, by defining them, by writing static slots, and by
anything that leaves types and static slots alone.  However that went, its types are a reachable
universe, and every declared type has one static slot for each of its shared fields
(`Hosted.tallies`): the slots come with the definition, and writing one adds none.
-/

namespace Reflection

open Relation

variable {β : Type}

/-! ## Static slots -/

namespace Store

/-- The static slots of a type. -/
def staticSlots (s : Store) : TypeRef → List Value
  | .declared d => (s.statics[d.index]?).getD []
  | _ => []

theorem readStatic?_eq (s : Store) (t : TypeRef) (k : ℕ) :
    s.readStatic? t k = (s.staticSlots t)[k]? := by
  cases t with
  | declared d => cases h : s.statics[d.index]? <;> simp [readStatic?, staticSlots, h]
  | _ => rfl

/-- Writing adds no slot and takes none away. -/
@[simp] theorem length_staticSlots_writeStatic (s : Store) (r t : TypeRef) (k : ℕ) (v : Value) :
    ((s.writeStatic r k v).staticSlots t).length = (s.staticSlots t).length := by
  cases r with
  | declared d =>
    cases t with
    | declared e =>
      simp only [writeStatic, staticSlots, Array.getElem?_modify]
      by_cases h : d.index = e.index
      · cases he : s.statics[e.index]? <;> simp [h]
      · rw [if_neg h]
    | _ => rfl
  | _ => rfl

theorem staticSlots_setStatics_of_ne (s : Store) {d e : Declaration} (slots : List Value)
    (h : e.index ≠ d.index) :
    (s.setStatics d slots).staticSlots (.declared e) = s.staticSlots (.declared e) := by
  simp only [setStatics, staticSlots, Array.getElem?_modify]
  rw [if_neg (Ne.symm h)]

theorem staticSlots_setStatics_of_eq (s : Store) {d e : Declaration} (slots : List Value)
    (h : e.index = d.index) (hd : d.index < s.statics.size) :
    (s.setStatics d slots).staticSlots (.declared e) = slots := by
  simp only [setStatics, staticSlots, Array.getElem?_modify, h, if_true,
    Array.getElem?_eq_getElem hd, Option.map_some, Option.getD_some]

end Store

/-! ## Hosted worlds -/

namespace World

variable {w w' : World β} {b : Blueprint β} {t : TypeRef}

/-- **One step in the life of a world**, as far as types and static slots go. -/
inductive Evolves (w : World β) : World β → Prop
  | declare (k : DeclaredKind) (n : String) : Evolves w (w.declare k n).2
  | define {b : Blueprint β} {w' : World β} (hd : w.types.Declares b.target)
      (hn : w.types.isDefined b.self = false) (hs : w.types.Scopes b)
      (h : w.define? b = some (.ok w')) : Evolves w w'
  | write (t : TypeRef) (k : ℕ) (v : Value) :
      Evolves w { w with store := w.store.writeStatic t k v }
  | rest {w' : World β} (htypes : w'.types = w.types)
      (hstatics : w'.store.statics = w.store.statics) : Evolves w w'

/-- The worlds that come about. -/
def Hosted (w : World β) : Prop := ReflTransGen Evolves empty w

/-- **What is kept count of**: the types are reachable, and each has a static slot for every one of
its shared fields. -/
structure Tallies (w : World β) : Prop where
  types : w.types.Reachable
  size : w.store.statics.size = w.types.size
  slots : ∀ t, (w.store.staticSlots t).length = (w.types.sharedTypes t).length

/-- What defining does, when it succeeds. -/
theorem define?_eq_ok (h : w.define? b = some (.ok w')) :
    ∃ c, b.halts w.types = true ∧ b.compile w.types = .ok c ∧
      w' = { w with
        types := w.types.define b.target c.definition
        store := w.store.setStatics b.target c.statics } := by
  rw [define?] at h
  split_ifs at h with hh
  obtain ⟨c, hc, h⟩ := bind_eq_ok.mp (Option.some.inj h)
  exact ⟨c, hh, hc, (Except.ok.inj h).symm⟩

theorem tallies_empty : (empty : World β).Tallies where
  types := .empty
  size := rfl
  slots t := by
    cases t with
    | primitive p => cases p <;> rfl
    | _ => rfl

theorem Tallies.declare (hw : w.Tallies) (k : DeclaredKind) (n : String) :
    (w.declare k n).2.Tallies where
  types := .declare k n hw.types
  size := by simp [World.declare, hw.size]
  slots t := by
    have hshared : (w.declare k n).2.types.sharedTypes t = w.types.sharedTypes t := by
      rw [Universe.sharedTypes, Universe.fields, World.declare, Universe.definition_declare]
      rfl
    rw [hshared, ← hw.slots]
    cases t with
    | declared d =>
      simp only [Store.staticSlots, World.declare, Array.getElem?_push]
      by_cases h : d.index = w.store.statics.size
      · simp [h]
      · rw [if_neg h]
    | _ => rfl

theorem Tallies.define (hw : w.Tallies) (hd : w.types.Declares b.target)
    (hn : w.types.isDefined b.self = false) (hs : w.types.Scopes b)
    (h : w.define? b = some (.ok w')) : w'.Tallies := by
  obtain ⟨c, hh, hc, rfl⟩ := define?_eq_ok h
  refine ⟨.define hw.types hd hn hs hh hc, by simp [Store.setStatics, hw.size], fun t => ?_⟩
  rw [Universe.sharedTypes, Universe.fields]
  rcases Universe.definition_define_cases hd c.definition t with ⟨e, rfl, he, hx⟩ | ⟨hne, hx⟩
  · have hlt : b.target.index < w.store.statics.size := by
      obtain ⟨e, he, -⟩ := hd
      rw [hw.size]
      exact (Array.getElem?_eq_some_iff.mp he).1
    obtain ⟨base?, hp⟩ := Blueprint.exists_passes hc
    rw [hx, Store.staticSlots_setStatics_of_eq _ _ he hlt, hp.statics, hp.fields,
      Blueprint.sharedTypes_placeFields]
    simp [Blueprint.staticValues, Blueprint.sharedTypes]
  · rw [hx]
    refine Eq.trans (congrArg List.length ?_) (hw.slots t)
    cases t with
    | declared e => exact Store.staticSlots_setStatics_of_ne _ _ (hne e rfl)
    | _ => rfl

/-- **One step keeps count.** -/
theorem Evolves.tallies (h : w.Evolves w') (hw : w.Tallies) : w'.Tallies := by
  cases h with
  | declare k n => exact hw.declare k n
  | define hd hn hs h => exact hw.define hd hn hs h
  | write t k v =>
    refine ⟨hw.types, ?_, fun r => by simp [hw.slots]⟩
    cases t <;> simp [Store.writeStatic, hw.size]
  | rest htypes hstatics =>
    refine ⟨htypes ▸ hw.types, by rw [hstatics, htypes, hw.size], fun t => ?_⟩
    rw [htypes, ← hw.slots t]
    cases t <;> simp [Store.staticSlots, hstatics]

/-- **Every hosted world keeps count.** -/
theorem Hosted.tallies (h : w.Hosted) : w.Tallies := by
  induction h with
  | refl => exact tallies_empty
  | tail _ h ih => exact h.tallies ih

theorem Hosted.declare (h : w.Hosted) (k : DeclaredKind) (n : String) :
    (w.declare k n).2.Hosted :=
  h.tail (.declare k n)

/-! ## Trying to define -/

/-- The world after an attempt to define the target of a blueprint: as it was, if that fails. -/
def attempt (w : World β) (b : Blueprint β) : World β :=
  match w.define b with
  | .ok w' => w'
  | .error _ => w

/-- An attempt leads from a hosted world to a hosted world. -/
theorem Hosted.attempt (h : w.Hosted) (hd : w.types.Declares b.target)
    (hn : w.types.isDefined b.self = false) (hs : w.types.Scopes b)
    (hh : b.halts w.types = true) : (w.attempt b).Hosted := by
  unfold World.attempt
  cases hw : w.define b with
  | ok w' => exact h.tail (.define hd hn hs (by rw [define?, if_pos hh, hw]))
  | error e => exact h

end World

end Reflection
