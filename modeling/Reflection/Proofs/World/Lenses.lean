import Reflection.Proofs.Call.OwnMembers
import Reflection.Proofs.World.Session
import Reflection.Proofs.World.Slots

/-!
# Proofs/World/Lenses — fields as lenses that do not interfere

    v, w  ── put f x ──▸  v', w'         f reads x there, every other field what it read in v, w
      │                     │
      └────── put f y ──────┴── put f y ──▸  the same target in the same world

A field has a place (`Field.place?`): a slot of its target, or a static slot of the type that
declares it.  Reading and writing go to that place alone, and by the way slots are shared out
(`Proofs/World/Slots`) no two fields have one place.  So on any instance with all its slots a field
is a lens (`Hosted.field_lens`), whatever other fields there are, of one name with it or inherited.
-/

namespace Reflection

variable {β : Type}

/-! ## Slots of a store -/

namespace Store

variable {s : Store} {v : Value} {t : TypeRef} {i k l : ℕ}

/-- Of two writes to one slot, the second stays. -/
theorem modify_set_set (a : Array (List Value)) (i k : ℕ) (x y : Value) :
    (a.modify i fun slots => slots.set k x).modify i (fun slots => slots.set k y) =
      a.modify i fun slots => slots.set k y := by
  refine Array.ext_getElem? fun j => ?_
  simp only [Array.getElem?_modify]
  by_cases hj : i = j
  · cases a[j]? <;> simp [hj, List.set_set]
  · simp [hj]

/-- Writing what a slot holds changes nothing. -/
theorem modify_set_eq_self {a : Array (List Value)} {slots : List Value} {x : Value}
    (hi : a[i]? = some slots) (hk : slots[k]? = some x) :
    (a.modify i fun slots => slots.set k x) = a := by
  refine Array.ext_getElem? fun j => ?_
  rw [Array.getElem?_modify]
  by_cases hj : i = j
  · obtain ⟨hlt, rfl⟩ := List.getElem?_eq_some_iff.mp hk
    rw [if_pos hj, ← hj, hi, Option.map_some, List.set_getElem_self]
  · rw [if_neg hj]

theorem read?_eq_some {x : Value} (h : s.read? i k = some x) :
    ∃ slots, s.cells[i]? = some slots ∧ slots[k]? = some x := by
  rw [read?, contents] at h
  cases hc : s.cells[i]? with
  | none => simp [hc] at h
  | some slots => exact ⟨slots, rfl, by simpa [hc] using h⟩

theorem write_write (s : Store) (i k : ℕ) (x y : Value) :
    (s.write i k x).write i k y = s.write i k y :=
  congrArg (Store.mk · s.statics) (modify_set_set s.cells i k x y)

theorem write_eq_self {x : Value} (h : s.read? i k = some x) : s.write i k x = s := by
  obtain ⟨slots, hi, hk⟩ := read?_eq_some h
  exact congrArg (Store.mk · s.statics) (modify_set_eq_self hi hk)

/-! ### Slots of objects and structures -/

theorem slot?_setSlot_self {x : Value} (h : (s.slot? v k).isSome = true) :
    (s.setSlot v k x).2.slot? (s.setSlot v k x).1 k = some x := by
  cases v with
  | object r => exact read?_write_self s x h
  | struct t slots =>
    have hlt : k < slots.length := by simpa [slot?] using h
    simp [slot?, setSlot, hlt]
  | _ => cases h

theorem slot?_setSlot_of_ne (s : Store) (v x : Value) (h : l ≠ k) :
    (s.setSlot v k x).2.slot? (s.setSlot v k x).1 l = s.slot? v l := by
  cases v with
  | object r => exact read?_write_of_ne s x (.inr h)
  | struct t slots => exact List.getElem?_set_ne h.symm
  | _ => rfl

theorem setSlot_setSlot (s : Store) (v : Value) (k : ℕ) (x y : Value) :
    (s.setSlot v k x).2.setSlot (s.setSlot v k x).1 k y = s.setSlot v k y := by
  cases v with
  | object r => exact congrArg (Prod.mk (Value.object r)) (write_write s r.cell k x y)
  | struct t slots => simp [setSlot, List.set_set]
  | _ => rfl

theorem setSlot_eq_self {x : Value} (h : s.slot? v k = some x) : s.setSlot v k x = (v, s) := by
  cases v with
  | object r => exact congrArg (Prod.mk (Value.object r)) (write_eq_self h)
  | struct t slots =>
    obtain ⟨hlt, rfl⟩ := List.getElem?_eq_some_iff.mp h
    simp [setSlot]
  | _ => rfl

theorem readStatic?_setSlot (s : Store) (v x : Value) (k l : ℕ) (t : TypeRef) :
    (s.setSlot v k x).2.readStatic? t l = s.readStatic? t l := by
  cases v with
  | object r => exact readStatic?_write s r.cell k x t l
  | _ => rfl

/-! ### Static slots -/

theorem slot?_writeStatic (s : Store) (t : TypeRef) (k : ℕ) (x v : Value) (l : ℕ) :
    (s.writeStatic t k x).slot? v l = s.slot? v l := by
  cases t <;> cases v <;> rfl

theorem readStatic?_eq_some {x : Value} (h : s.readStatic? t k = some x) :
    ∃ d slots, t = .declared d ∧ s.statics[d.index]? = some slots ∧ slots[k]? = some x := by
  cases t with
  | declared d =>
    obtain ⟨slots, hd, hk⟩ := Option.bind_eq_some_iff.mp h
    exact ⟨d, slots, rfl, hd, hk⟩
  | _ => cases h

theorem readStatic?_writeStatic_self (x : Value) (h : (s.readStatic? t k).isSome = true) :
    (s.writeStatic t k x).readStatic? t k = some x := by
  obtain ⟨y, hy⟩ := Option.isSome_iff_exists.mp h
  obtain ⟨d, slots, rfl, hd, hk⟩ := readStatic?_eq_some hy
  have hlt := (List.getElem?_eq_some_iff.mp hk).1
  simp [readStatic?, writeStatic, Array.getElem?_modify, hd, hlt]

theorem readStatic?_writeStatic_of_ne (s : Store) {d e : Declaration} (x : Value)
    (h : e.index ≠ d.index ∨ l ≠ k) :
    (s.writeStatic (.declared d) k x).readStatic? (.declared e) l =
      s.readStatic? (.declared e) l := by
  simp only [readStatic?, writeStatic, Array.getElem?_modify]
  by_cases hd : d.index = e.index
  · have hk : k ≠ l := fun hk => h.elim (fun h => h hd.symm) fun h => h hk.symm
    cases s.statics[e.index]? <;> simp [hd, List.getElem?_set_ne hk]
  · rw [if_neg hd]

theorem writeStatic_writeStatic (s : Store) (t : TypeRef) (k : ℕ) (x y : Value) :
    (s.writeStatic t k x).writeStatic t k y = s.writeStatic t k y := by
  cases t with
  | declared d => exact congrArg (Store.mk s.cells) (modify_set_set s.statics d.index k x y)
  | _ => rfl

theorem writeStatic_eq_self {x : Value} (h : s.readStatic? t k = some x) :
    s.writeStatic t k x = s := by
  obtain ⟨d, slots, rfl, hd, hk⟩ := readStatic?_eq_some h
  exact congrArg (Store.mk s.cells) (modify_set_eq_self hd hk)

end Store

/-! ## The place of a field -/

namespace Field

variable {f g : Field} {w w' : World β} {v v' x : Value}

/-- What the place of a field holds: its slot of the target, or its static slot. -/
def place? (f : Field) (s : Store) (v : Value) : Option Value :=
  if f.isStatic then s.readStatic? f.declaring f.slot else s.slot? v f.slot

/-- The target and the store after a value is put in the place of a field. -/
def put (f : Field) (s : Store) (v x : Value) : Value × Store :=
  if f.isStatic then (v, s.writeStatic f.declaring f.slot x) else s.setSlot v f.slot x

/-- Whether a field gets at its place: it is no constant, and shared or held by the target. -/
structure Opens (f : Field) (u : Universe β) (v : Value) : Prop where
  isLiteral : f.isLiteral = false
  target : f.isStatic = false → f.ownedBy u v = true

theorem Opens.read_eq (h : f.Opens w.types v) :
    f.read w v = .ok ((f.place? w.store v).getD .null) := by
  have hc : f.constant? = none := by simpa [Field.isLiteral] using h.isLiteral
  rw [read, place?, hc]
  cases hs : f.isStatic with
  | true => rfl
  | false =>
    rw [checkTarget_of_ownedBy (h.target hs)]
    rfl

/-- **What is written**, if the field takes the value. -/
theorem Opens.write_eq (h : f.Opens w.types v) (hx : w.types.accepts f.type x = true) :
    f.write w v x =
      ⟨.ok (), (f.put w.store v x).1, { w with store := (f.put w.store v x).2 }⟩ := by
  have hcheck : f.checkWrite w.types v x = .ok () := by
    rw [checkWrite, checkValue, h.isLiteral, if_pos hx]
    cases hs : f.isStatic with
    | true => rfl
    | false =>
      rw [checkTarget_of_ownedBy (h.target hs)]
      rfl
  rw [write, hcheck, put]
  cases f.isStatic <;> rfl

/-- A changed slot makes no target out of what was none. -/
theorem ownedBy_put (f g : Field) (u : Universe β) (s : Store) (v x : Value) :
    g.ownedBy u (f.put s v x).1 = g.ownedBy u v := by
  rw [put]
  cases f.isStatic <;> cases v <;> rfl

theorem checkTarget_put (f g : Field) (u : Universe β) (s : Store) (v x : Value) :
    g.checkTarget u (f.put s v x).1 = g.checkTarget u v := by
  rw [put]
  cases f.isStatic <;> cases v <;> rfl

theorem Opens.put {u : Universe β} (h : f.Opens u v) (s : Store) (x : Value) :
    f.Opens u (f.put s v x).1 where
  isLiteral := h.isLiteral
  target hs := by rw [ownedBy_put, h.target hs]

/-! ### Laws of a place -/

theorem place?_put_self {s : Store} (h : (f.place? s v).isSome = true) :
    f.place? (f.put s v x).2 (f.put s v x).1 = some x := by
  unfold place? put at *
  cases hs : f.isStatic with
  | true => exact Store.readStatic?_writeStatic_self x (by simpa [hs] using h)
  | false => exact Store.slot?_setSlot_self (by simpa [hs] using h)

theorem put_put (f : Field) (s : Store) (v x y : Value) :
    f.put (f.put s v x).2 (f.put s v x).1 y = f.put s v y := by
  unfold put
  cases f.isStatic with
  | true => exact congrArg (Prod.mk v) (Store.writeStatic_writeStatic ..)
  | false => exact Store.setSlot_setSlot ..

theorem put_eq_self {s : Store} (h : f.place? s v = some x) : f.put s v x = (v, s) := by
  unfold place? put at *
  cases hs : f.isStatic with
  | true => exact congrArg (Prod.mk v) (Store.writeStatic_eq_self (by simpa [hs] using h))
  | false => exact Store.setSlot_eq_self (by simpa [hs] using h)

/-- Reading goes to the place alone. -/
theorem read_congr (htarget : g.checkTarget w'.types v' = g.checkTarget w.types v)
    (hplace : (g.isStatic = false → g.ownedBy w.types v = true) →
      g.place? w'.store v' = g.place? w.store v) : g.read w' v' = g.read w v := by
  rw [read, read]
  cases hc : g.constant? with
  | some x => rfl
  | none =>
    cases hs : g.isStatic with
    | true =>
      have h := hplace fun h => absurd (hs.symm.trans h) (by decide)
      simp only [place?, hs, if_true] at h
      simp [h]
    | false =>
      simp only [Bool.false_eq_true, if_false, htarget]
      cases ht : g.checkTarget w.types v with
      | error e => rfl
      | ok _ =>
        have h := hplace fun _ => checkTarget_eq_ok ht
        simp only [place?, hs, Bool.false_eq_true, if_false] at h
        rw [h]

end Field

/-! ## Places apart -/

namespace Universe

variable {u : Universe β} {r t : TypeRef} {f g : Field} {v : Value}

theorem exists_of_mem_slotFields (h : f ∈ u.slotFields t) :
    ∃ a, a ∈ u.ancestors t ∧ f ∈ u.fields a ∧ f.isStatic = false := by
  obtain ⟨a, ha, hf⟩ := List.mem_flatMap.mp h
  obtain ⟨hf, hs⟩ := List.mem_filter.mp hf
  exact ⟨a, ha, hf, by simpa using hs⟩

/-- Two fields down one line of bases have two slots, whatever their names. -/
theorem Reachable.slot_ne (hu : u.Reachable) (hf : f ∈ u.slotFields t) (hg : g ∈ u.slotFields t)
    (h : g ≠ f) : g.slot ≠ f.slot := fun hslot =>
  have hnodup := (hu.slots_perm_range t).nodup_iff.mpr List.nodup_range
  h (List.inj_on_of_nodup_map hnodup hg hf hslot)

/-- Two shared fields of a type have two static slots. -/
theorem Reachable.sharedSlot_ne (hu : u.Reachable) (hf : f ∈ u.sharedFields t)
    (hg : g ∈ u.sharedFields t) (h : g ≠ f) : g.slot ≠ f.slot := fun hslot =>
  have hnodup := hu.sharedSlots t ▸ List.nodup_range
  h (List.inj_on_of_nodup_map hnodup hg hf hslot)

/-- A field that a target holds is among those of its type. -/
theorem Reachable.mem_slotFields (hu : u.Reachable) (hk : u.Knows t) (hf : f ∈ u.fields t)
    (hs : f.isStatic = false) (hr : v.runtimeType? = some r) (ho : f.ownedBy u v = true) :
    f ∈ u.slotFields r := by
  have hd := hu.declaring_of_mem_fields hk hf
  have hline : t ∈ u.ancestors r := by
    rw [← hd]
    cases v with
    | object o =>
      obtain rfl := Option.some.inj hr
      exact hu.declaring_mem_ancestors hf hs ho
    | struct s slots =>
      obtain rfl := Option.some.inj hr
      exact mem_ancestors_iff.mpr (.inl (of_decide_eq_true ho).symm)
    | _ => cases ho
  exact List.mem_flatMap.mpr ⟨t, hline, List.mem_filter.mpr ⟨hf, by simpa using hs⟩⟩

end Universe

namespace World

variable {w : World β} {t : TypeRef} {f g : Field} {v x : Value}

/-- **An instance with all its slots**: an object over a class or a structure over a structure type,
with one slot for each entry of the layout of its type. -/
inductive FullInstance (w : World β) : TypeRef → Value → Prop
  | object {r : Ref} (known : w.types.Knows r.type) (isClass : r.type.isClass = true)
      (slots : (w.store.contents r.cell).length = (w.types.layout r.type).length) :
      FullInstance w r.type (.object r)
  | struct {t : TypeRef} {slots : List Value} (known : w.types.Knows t)
      (isStruct : t.isStruct = true) (length : slots.length = (w.types.layout t).length) :
      FullInstance w t (.struct t slots)

/-- **The fields to be written on a value**: the shared ones of any type that are no constants, on
whatever value, and on an instance with all its slots those of its type and of the bases. -/
inductive Offers (w : World β) (f : Field) (v : Value) : Prop
  | shared {t : TypeRef} (known : w.types.Knows t) (mem : f ∈ w.types.sharedFields t)
      (isLiteral : f.isLiteral = false)
  | slot {t : TypeRef} (full : w.FullInstance t v) (mem : f ∈ w.types.slotFields t)

namespace FullInstance

theorem runtimeType? (h : w.FullInstance t v) : v.runtimeType? = some t := by
  cases h <;> rfl

theorem wellFormed (h : w.FullInstance t v) : v.WellFormed w.types where
  knows r hr := by
    obtain rfl := Option.some.inj (h.runtimeType?.symm.trans hr)
    cases h <;> assumption
  object r hr := by
    subst hr
    cases h
    assumption
  struct s slots hs := by
    subst hs
    cases h
    assumption
  enum s raw hs := by
    subst hs
    cases h

theorem isSome_slot? (h : w.FullInstance t v) {k : ℕ} (hk : k < (w.types.layout t).length) :
    (w.store.slot? v k).isSome = true := by
  cases h with
  | object _ _ hlen => simpa [Store.slot?, Store.read?, hlen] using hk
  | struct _ _ hlen => simpa [Store.slot?, hlen] using hk

end FullInstance

/-- A field on offer gets at its place, -/
theorem Hosted.opens (hw : w.Hosted) (h : w.Offers f v) : f.Opens w.types v := by
  have hu := hw.tallies.types
  cases h with
  | shared known mem isLiteral =>
    have hs := (List.mem_filter.mp mem).2
    exact ⟨isLiteral, fun h => absurd (h.symm.trans hs) Bool.false_ne_true⟩
  | @slot t full mem =>
    obtain ⟨a, ha, hf, hs⟩ := Universe.exists_of_mem_slotFields mem
    have hr := full.runtimeType?
    have hform := full.wellFormed
    refine ⟨?_, fun _ => hu.ownedBy (hform.knows t hr) ha hf hs ?_ hform
      (Universe.accepts_own hform hr)⟩
    · by_contra hl
      obtain ⟨c, hc⟩ := Option.isSome_iff_exists.mp ((Bool.not_eq_false _).mp hl)
      simp [hu.isStatic_of_constant hf hc] at hs
    · rintro rfl
      cases hr

/-- and there is something at it. -/
theorem Hosted.isSome_place? (hw : w.Hosted) (h : w.Offers f v) :
    (f.place? w.store v).isSome = true := by
  have hu := hw.tallies.types
  rw [Field.place?]
  cases h with
  | @shared t known mem isLiteral =>
    obtain ⟨hf, hs⟩ := List.mem_filter.mp mem
    have hlen : (w.store.staticSlots t).length = (w.types.sharedFields t).length :=
      (hw.tallies.slots t).trans (List.length_map _)
    have hslot : f.slot ∈ (w.types.sharedFields t).map Field.slot := List.mem_map_of_mem mem
    rw [hu.sharedSlots, List.mem_range, ← hlen] at hslot
    rw [if_pos hs, hu.declaring_of_mem_fields known hf, Store.readStatic?_eq]
    simpa using hslot
  | @slot t full mem =>
    obtain ⟨a, ha, hf, hs⟩ := Universe.exists_of_mem_slotFields mem
    have hslot := hu.slot_of_mem_ancestors ha hf hs
    rw [hs, if_neg Bool.false_ne_true]
    exact full.isSome_slot? (List.getElem?_eq_some_iff.mp hslot).1

/-- **No two fields have one place.** -/
theorem Hosted.place?_put_of_ne (hw : w.Hosted) (h : w.Offers f v) (hk : w.types.Knows t)
    (hg : g ∈ w.types.fields t) (hne : g ≠ f)
    (ho : g.isStatic = false → g.ownedBy w.types v = true) (x : Value) :
    g.place? (f.put w.store v x).2 (f.put w.store v x).1 = g.place? w.store v := by
  have hu := hw.tallies.types
  cases h with
  | @shared s known mem isLiteral =>
    obtain ⟨hf, hs⟩ := List.mem_filter.mp mem
    rw [Field.put, if_pos hs, Field.place?, Field.place?]
    cases hgs : g.isStatic with
    | false => exact Store.slot?_writeStatic ..
    | true =>
      obtain ⟨d, hd⟩ := hu.exists_declaration hf
      obtain ⟨e, he⟩ := hu.exists_declaration hg
      have hs : s = .declared d := by rw [← hd, hu.declaring_of_mem_fields known hf]
      have ht : t = .declared e := by rw [← he, hu.declaring_of_mem_fields hk hg]
      subst hs ht
      rw [hd, he]
      refine Store.readStatic?_writeStatic_of_ne _ _ ?_
      by_cases hindex : e.index = d.index
      · -- one declaration, so the two are among its shared fields
        obtain rfl := Universe.Declares.eq_of_index hk known hindex
        exact .inr (hu.sharedSlot_ne mem (List.mem_filter.mpr ⟨hg, hgs⟩) hne)
      · exact .inl hindex
  | @slot s full mem =>
    obtain ⟨-, -, -, hs⟩ := Universe.exists_of_mem_slotFields mem
    rw [Field.put, hs, Field.place?, Field.place?]
    cases hgs : g.isStatic with
    | true => exact Store.readStatic?_setSlot ..
    | false =>
      have hmem := hu.mem_slotFields hk hg hgs full.runtimeType? (ho hgs)
      exact Store.slot?_setSlot_of_ne _ _ _ (hu.slot_ne mem hmem hne)

end World

/-! ## The lens -/

namespace Field

variable {f : Field} {w : World β} {v x : Value}

/-- **What a write leaves alone.** -/
structure Confined (f : Field) (w : World β) (v x : Value) (after : Written β) : Prop where
  /-- Types and snapshots are untouched. -/
  rest : after.world = { w with store := after.world.store }
  /-- A shared field changes neither its target nor any object or array. -/
  shared : f.isStatic = true → after.target = v ∧ after.world.store.cells = w.store.cells
  /-- An instance field changes one slot of its object, and no other object or array. -/
  object : ∀ r, v = .object r → f.isStatic = false → after.target = v ∧
    after.world.store.contents r.cell = (w.store.contents r.cell).set f.slot x ∧
    ∀ i ≠ r.cell, after.world.store.cells[i]? = w.store.cells[i]?
  /-- It changes one slot of its structure, and nothing in the world. -/
  struct : ∀ t slots, v = .struct t slots → f.isStatic = false →
    after.target = .struct t (slots.set f.slot x) ∧ after.world = w
  /-- No static slot changes but that of a shared field. -/
  statics : ∀ t k, w.types.Knows t → (f.isStatic = true → (t, k) ≠ (f.declaring, f.slot)) →
    after.world.store.readStatic? t k = w.store.readStatic? t k

/-- **A field that is a lens** on a value, independent of all other fields. -/
structure Lens (f : Field) (w : World β) (v : Value) : Prop where
  /-- It takes whatever its type accepts. -/
  succeeds : ∀ x, w.types.accepts f.type x = true → (f.write w v x).result = .ok ()
  /-- It then reads as what was written. -/
  read_self : ∀ x, w.types.accepts f.type x = true →
    f.read (f.write w v x).world (f.write w v x).target = .ok x
  /-- Any other field of any type reads as before. -/
  read_other : ∀ x, w.types.accepts f.type x = true → ∀ t g, w.types.Knows t →
    g ∈ w.types.fields t → g ≠ f →
      g.read (f.write w v x).world (f.write w v x).target = g.read w v
  /-- Nothing else changes. -/
  confined : ∀ x, w.types.accepts f.type x = true → f.Confined w v x (f.write w v x)
  /-- Of two writes the second stays. -/
  write_again : ∀ x y, w.types.accepts f.type x = true → w.types.accepts f.type y = true →
    f.write (f.write w v x).world (f.write w v x).target y = f.write w v y
  /-- Writing what was read changes nothing. -/
  write_back : ∀ x, f.read w v = .ok x → w.types.accepts f.type x = true →
    f.write w v x = ⟨.ok (), v, w⟩

theorem Opens.confined (h : f.Opens w.types v)
    (hknown : f.isStatic = true → w.types.Knows f.declaring)
    (hx : w.types.accepts f.type x = true) : f.Confined w v x (f.write w v x) := by
  rw [h.write_eq hx]
  cases hs : f.isStatic with
  | true =>
    rw [Field.put, if_pos hs]
    refine ⟨rfl, fun _ => ⟨rfl, ?_⟩, fun r _ h => ?_, fun t slots _ h => ?_, fun t k ht hne => ?_⟩
    · cases f.declaring <;> rfl
    · simp [hs] at h
    · simp [hs] at h
    · have hne := hne hs
      have hknown := hknown hs
      cases hd : f.declaring with
      | declared d =>
        cases t with
        | declared e =>
          rw [hd] at hknown hne
          refine Store.readStatic?_writeStatic_of_ne _ _ ?_
          by_cases hindex : e.index = d.index
          · obtain rfl := Universe.Declares.eq_of_index ht hknown hindex
            exact .inr fun hk => hne (by rw [hk])
          · exact .inl hindex
        | _ => rfl
      | _ => rfl
  | false =>
    rw [Field.put, hs]
    refine ⟨rfl, fun h => ?_, ?_, ?_, fun t k _ _ => Store.readStatic?_setSlot ..⟩
    · simp [hs] at h
    · rintro r rfl -
      refine ⟨rfl, ?_, fun i hi => ?_⟩
      · exact (Store.contents_write ..).trans (if_pos rfl)
      · exact (Array.getElem?_modify ..).trans (if_neg (Ne.symm hi))
    · rintro t slots rfl -
      exact ⟨rfl, rfl⟩

end Field

/-- **Fields are independent lenses**: in every hosted world, each field on offer. -/
theorem World.Hosted.field_lens {w : World β} {f : Field} {v : Value} (hw : w.Hosted)
    (h : w.Offers f v) : f.Lens w v := by
  have ho := hw.opens h
  have hplace := hw.isSome_place? h
  constructor
  case succeeds =>
    intro x hx
    rw [ho.write_eq hx]
  case read_self =>
    intro x hx
    rw [ho.write_eq hx]
    have hread := (ho.put w.store x).read_eq
      (w := { w with store := (f.put w.store v x).2 })
    rw [hread, Field.place?_put_self hplace, Option.getD_some]
  case read_other =>
    intro x hx t g hk hg hne
    rw [ho.write_eq hx]
    exact Field.read_congr (Field.checkTarget_put f g w.types w.store v x) fun hown =>
      hw.place?_put_of_ne h hk hg hne hown x
  case confined =>
    intro x hx
    refine ho.confined (fun hs => ?_) hx
    cases h with
    | shared known mem _ =>
      rwa [hw.tallies.types.declaring_of_mem_fields known (List.mem_filter.mp mem).1]
    | slot _ mem =>
      obtain ⟨-, -, -, h⟩ := Universe.exists_of_mem_slotFields mem
      simp [hs] at h
  case write_again =>
    intro x y hx hy
    have hagain := (ho.put w.store x).write_eq
      (w := { w with store := (f.put w.store v x).2 }) hy
    rw [ho.write_eq hx, hagain, ho.write_eq hy, Field.put_put]
  case write_back =>
    intro x hread hx
    obtain ⟨y, hy⟩ := Option.isSome_iff_exists.mp hplace
    rw [ho.read_eq, hy, Option.getD_some] at hread
    obtain rfl := Except.ok.inj hread
    rw [ho.write_eq hx, Field.put_eq_self hy]

/-- An object of the lower class of `hidingWorld`, in the world in which it is the only one. -/
def hidingObject : Value × World Unit :=
  let (v, store) := hidingWorld.store.newObject (.declared ⟨1, .classType, "B"⟩) [.i32 0, .null]
  (v, { hidingWorld with store := store })

/-- The field `x` of the upper class of `hidingWorld`, which the lower one hides. -/
def hiddenField : Field where
  id := ⟨.declared ⟨0, .classType, "A"⟩, .field, 0⟩
  name := "x"
  type := .primitive .i32
  visibility := .everyone
  isStatic := false
  constant? := none
  slot := 0
  attributes := []

/-- The field `x` of the lower class. -/
def hidingField : Field :=
  { hiddenField with
    id := ⟨.declared ⟨1, .classType, "B"⟩, .field, 1⟩
    type := .primitive .string
    slot := 1 }

theorem slotFields_hidingObject :
    hidingObject.2.types.slotFields (.declared ⟨1, .classType, "B"⟩) =
      [hidingField, hiddenField] := rfl

theorem hosted_hidingObject : hidingObject.2.Hosted := hosted_hidingWorld.tail (.rest rfl rfl)

/-- The shared field of the upper class. -/
def totalField : Field :=
  { hiddenField with
    id := ⟨.declared ⟨0, .classType, "A"⟩, .field, 1⟩
    name := "total"
    type := .primitive .i64
    isStatic := true }

/-- On one object the hidden field is a lens and so is the one that hides it; the shared field of the
upper class is one without any target. -/
theorem field_lens_hidingObject :
    hiddenField.Lens hidingObject.2 hidingObject.1 ∧
      hidingField.Lens hidingObject.2 hidingObject.1 ∧ totalField.Lens hidingObject.2 .null := by
  have hA : hidingObject.2.types.Knows (.declared ⟨0, .classType, "A"⟩) := ⟨_, rfl, rfl, rfl⟩
  have hB : hidingObject.2.types.Knows (.declared ⟨1, .classType, "B"⟩) := ⟨_, rfl, rfl, rfl⟩
  have hfull : hidingObject.2.FullInstance (.declared ⟨1, .classType, "B"⟩) hidingObject.1 :=
    .object (r := ⟨.declared ⟨1, .classType, "B"⟩, 0⟩) hB rfl rfl
  refine ⟨hosted_hidingObject.field_lens (.slot hfull ?_),
    hosted_hidingObject.field_lens (.slot hfull ?_),
    hosted_hidingObject.field_lens (.shared hA ?_ rfl)⟩
  · simp [slotFields_hidingObject]
  · simp [slotFields_hidingObject]
  · exact List.mem_singleton.mpr rfl

end Reflection
