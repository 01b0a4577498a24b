import Reflection.Proofs.Universe.DefaultEnds

/-!
# Proofs/World/Typing — values whose slots hold what their types ask for

A cell never changes its type, so a store is typed by the list of the types of its cells.  A slot
holds a value that its type accepts; but an instance may be older than the definition of its type,
and then it has no slots at all (`Shapes`).  Both survive every declaration and every definition
(`Typed.mono`): acceptance only grows, and a layout that is there does not change.
-/

namespace Reflection

/-- Whether a value has no slots that reading a field could reach. -/
def Value.isLeaf : Value → Bool
  | .object _ => false
  | .struct _ _ => false
  | _ => true

namespace Universe

variable {β : Type} {u w : Universe β} {s t : TypeRef} {v : Value} {ts cells cells' : List TypeRef}
  {vs slots : List Value} {n k : ℕ}

/-! ## Acceptance grows -/

theorem Conforms.mono (hw : u.Extends w) (h : u.Conforms s t) : w.Conforms s t := by
  induction h with
  | refl t => exact .refl t
  | trans _ _ ihrs ihst => exact ihrs.trans ihst
  | base h =>
    obtain ⟨as, has⟩ := base?_eq_some h
    refine .base ?_
    rw [base?, hw.definition_of_mem Definition.bases rfl (has ▸ List.mem_cons_self)]
    exact h
  | interface h =>
    refine .interface ?_
    rw [interfaces, hw.definition_of_mem Definition.interfaces rfl h]
    exact h
  | object t => exact .object t
  | array hs _ ih => exact .array hs ih

/-- What a type accepts once it accepts for good. -/
theorem accepts_mono (hu : u.Reachable) (hw : w.Reachable) (h : u.Extends w)
    (hv : u.accepts t v = true) : w.accepts t v = true := by
  induction t with
  | nullable t ih =>
    rw [accepts_nullable, Bool.or_eq_true] at hv ⊢
    exact hv.imp_right ih
  | _ =>
    cases v with
    | null =>
      rw [accepts_null] at hv ⊢
      exact hv
    | _ =>
      simp only [accepts, Value.runtimeType?, Option.any_some] at hv ⊢
      rw [isSubtype_iff_conforms hu] at hv
      rw [isSubtype_iff_conforms hw]
      exact hv.mono h

/-! ## Slots -/

/-- Whether slots hold one value each for a list of types. -/
def Fills (u : Universe β) (ts : List TypeRef) (vs : List Value) : Prop :=
  List.Forall₂ (fun t v => u.accepts t v = true) ts vs

/-- **The shape of an instance**: its slots are those of the layout, or it has none because it is
older than the definition of its type. -/
def Shapes (u : Universe β) (t : TypeRef) (slots : List Value) : Prop :=
  slots = [] ∨ u.Fills (u.layout t) slots

theorem Fills.mono (hu : u.Reachable) (hw : w.Reachable) (h : u.Extends w) (hf : u.Fills ts vs) :
    w.Fills ts vs :=
  List.Forall₂.imp (fun _ _ hv => accepts_mono hu hw h hv) hf

theorem Fills.exists_getElem? (hf : u.Fills ts vs) (ht : ts[k]? = some t) :
    ∃ v, vs[k]? = some v ∧ u.accepts t v = true := by
  induction hf generalizing k with
  | nil => simp at ht
  | cons hv _ ih =>
    cases k with
    | zero =>
      obtain rfl := Option.some.inj ht
      exact ⟨_, rfl, hv⟩
    | succ k => simpa using ih (by simpa using ht)

/-- Writing an accepted value keeps the slots filled. -/
theorem Fills.set (hf : u.Fills ts vs) (ht : ts[k]? = some t) (hv : u.accepts t v = true) :
    u.Fills ts (vs.set k v) := by
  induction hf generalizing k with
  | nil => simp at ht
  | cons ha hs ih =>
    cases k with
    | zero =>
      obtain rfl := Option.some.inj ht
      exact .cons hv hs
    | succ k => exact .cons ha (ih (by simpa using ht))

theorem Shapes.mono (hu : u.Reachable) (hw : w.Reachable) (h : u.Extends w)
    (hs : u.Shapes t slots) : w.Shapes t slots := by
  rcases hs with rfl | hf
  · exact .inl rfl
  · cases slots with
    | nil => exact .inl rfl
    | cons v slots =>
      -- there is a slot, so the type is defined and keeps its layout
      obtain ⟨r, hr⟩ : ∃ r, r ∈ u.layout t := by
        cases hl : u.layout t with
        | nil => simp [hl, Fills] at hf
        | cons r _ => exact ⟨r, List.mem_cons_self⟩
      refine .inr ?_
      rw [layout, h.definition_of_mem Definition.layout rfl hr]
      exact hf.mono hu hw h

theorem Shapes.set (hs : u.Shapes t slots) {r : TypeRef} (hr : (u.layout t)[k]? = some r)
    (hv : u.accepts r v = true) : u.Shapes t (slots.set k v) := by
  rcases hs with rfl | hf
  · exact .inl List.set_nil
  · exact .inr (hf.set hr hv)

/-! ## Values -/

/-- **A value is typed** when objects are in cells of their type, and the slots of structures are
filled, all the way down. -/
inductive Typed (u : Universe β) (cells : List TypeRef) : Value → Prop
  | leaf {v : Value} (h : v.isLeaf = true) : Typed u cells v
  | object {r : Ref} (h : cells[r.cell]? = some r.type) : Typed u cells (.object r)
  | struct {t : TypeRef} {slots : List Value} (shape : u.Shapes t slots)
      (typed : ∀ v ∈ slots, Typed u cells v) : Typed u cells (.struct t slots)

theorem typed_null : Typed u cells .null := .leaf rfl

theorem Typed.mono (hu : u.Reachable) (hw : w.Reachable) (h : u.Extends w)
    (hcells : cells <+: cells') (hv : Typed u cells v) : Typed w cells' v := by
  induction hv with
  | leaf hv => exact .leaf hv
  | object hr =>
    obtain ⟨l, rfl⟩ := hcells
    refine .object ?_
    rw [List.getElem?_append_left (List.getElem?_eq_some_iff.mp hr).1]
    exact hr
  | struct shape _ ih => exact .struct (shape.mono hu hw h) ih

theorem typed_set (hs : ∀ x ∈ slots, Typed u cells x) (hv : Typed u cells v) :
    ∀ x ∈ slots.set k v, Typed u cells x := by
  intro x hx
  rcases List.mem_or_eq_of_mem_set hx with hx | rfl
  · exact hs x hx
  · exact hv

/-! ## Default values -/

theorem accepts_plainDefault (u : Universe β) (ht : t.isStruct = false) :
    u.accepts t (plainDefault t) = true := by
  cases t with
  | primitive p =>
    cases p <;> simp [plainDefault, accepts, Value.runtimeType?, TypeRef.acceptsNull,
      TypeRef.isReferenceType, TypeRef.isValueType]
  | declared d =>
    obtain ⟨i, k, name⟩ := d
    cases k <;> simp_all [plainDefault, accepts, Value.runtimeType?, TypeRef.acceptsNull,
      TypeRef.isReferenceType, TypeRef.isValueType, TypeRef.isStruct, TypeRef.isEnum,
      TypeRef.hasKind]
  | _ => rfl

theorem isLeaf_plainDefault (t : TypeRef) : (plainDefault t).isLeaf = true := by
  cases t with
  | primitive p => cases p <;> rfl
  | declared d =>
    rw [plainDefault]
    split <;> rfl
  | _ => rfl

theorem typed_plainDefault (u : Universe β) (cells : List TypeRef) (ht : t.isStruct = false) :
    u.accepts t (plainDefault t) = true ∧ Typed u cells (plainDefault t) :=
  ⟨accepts_plainDefault u ht, .leaf (isLeaf_plainDefault t)⟩

/-- Values found one by one fill the slots, if each is right for its own. -/
theorem fills_of_mapM {f : TypeRef → Option Value}
    (hf : ∀ {t v}, f t = some v → u.accepts t v = true ∧ Typed u cells v)
    (h : ts.mapM f = some vs) : u.Fills ts vs ∧ ∀ v ∈ vs, Typed u cells v := by
  induction ts generalizing vs with
  | nil =>
    obtain rfl : [] = vs := by simpa using h
    exact ⟨.nil, by simp⟩
  | cons t ts ih =>
    rw [List.mapM_cons] at h
    obtain ⟨v, hv, h⟩ := Option.bind_eq_some_iff.mp h
    obtain ⟨vs', hvs, h⟩ := Option.bind_eq_some_iff.mp h
    obtain rfl := Option.some.inj h
    obtain ⟨hfills, htyped⟩ := ih hvs
    exact ⟨.cons (hf hv).1 hfills, List.forall_mem_cons.mpr ⟨(hf hv).2, htyped⟩⟩

/-- **A default value is typed and accepted.** -/
theorem typed_defaultWithin (h : u.defaultWithin n t = some v) :
    u.accepts t v = true ∧ Typed u cells v := by
  induction n generalizing t v with
  | zero =>
    cases ht : t.isStruct with
    | false =>
      rw [defaultWithin_of_not_isStruct u ht] at h
      obtain rfl := Option.some.inj h
      exact typed_plainDefault u cells ht
    | true => simp [defaultWithin_zero u ht] at h
  | succ n ih =>
    cases ht : t.isStruct with
    | false =>
      rw [defaultWithin_of_not_isStruct u ht] at h
      obtain rfl := Option.some.inj h
      exact typed_plainDefault u cells ht
    | true =>
      rw [defaultWithin_succ u ht] at h
      obtain ⟨vs, hvs, rfl⟩ := Option.map_eq_some_iff.mp h
      obtain ⟨hfills, htyped⟩ := fills_of_mapM ih hvs
      refine ⟨?_, .struct (.inr hfills) htyped⟩
      cases t with
      | declared d => simp [accepts, Value.runtimeType?]
      | _ => simp [TypeRef.isStruct, TypeRef.hasKind] at ht

theorem typed_default? (h : u.default? t = some v) : u.accepts t v = true ∧ Typed u cells v :=
  typed_defaultWithin h

/-! ## Stores -/

/-- **A store is typed** by the types of its cells: what is in a cell has the shape of an instance
of the type of the cell, and the shared slots of every type are filled. -/
structure StoreTyped (u : Universe β) (cells : List TypeRef) (store : Store) : Prop where
  size : store.cells.size = cells.length
  shapes : ∀ {i t}, cells[i]? = some t → u.Shapes t (store.contents i)
  contents : ∀ i, ∀ v ∈ store.contents i, Typed u cells v
  sizeStatics : store.statics.size = u.size
  statics : ∀ {d : Declaration} {vs}, store.statics[d.index]? = some vs →
    u.Fills (u.sharedTypes (.declared d)) vs ∧ ∀ v ∈ vs, Typed u cells v

end Universe

/-! ## What operations do to contents -/

namespace Store

theorem contents_allocate (s : Store) (slots : List Value) (i : ℕ) :
    (s.allocate slots).2.contents i = if i = s.cells.size then slots else s.contents i := by
  unfold contents allocate
  rw [Array.getElem?_push]
  split <;> rfl

theorem contents_write (s : Store) (cell k i : ℕ) (v : Value) :
    (s.write cell k v).contents i =
      if i = cell then (s.contents i).set k v else s.contents i := by
  unfold contents write
  rw [Array.getElem?_modify]
  by_cases h : i = cell
  · subst h
    cases s.cells[i]? <;> simp
  · simp [h, Ne.symm h]

end Store

namespace Universe

variable {β : Type} {u w : Universe β} {cells : List TypeRef} {store : Store}
  {t r : TypeRef} {v : Value} {k cell : ℕ}

/-- Growing keeps a store typed, as long as the shared slots do. -/
theorem StoreTyped.mono (h : StoreTyped u cells store) (hu : u.Reachable) (hw : w.Reachable)
    (hgrown : u.Extends w) {store' : Store} (hcells : store'.cells = store.cells)
    (hsize : store'.statics.size = w.size)
    (hstatics : ∀ {d : Declaration} {vs}, store'.statics[d.index]? = some vs →
      w.Fills (w.sharedTypes (.declared d)) vs ∧ ∀ v ∈ vs, Typed w cells v) :
    StoreTyped w cells store' := by
  have hcontents : ∀ i, store'.contents i = store.contents i := fun i => by
    rw [Store.contents, Store.contents, hcells]
  refine ⟨hcells ▸ h.size, fun ht => ?_, fun i v hv => ?_, hsize, hstatics⟩
  · rw [hcontents]
    exact (h.shapes ht).mono hu hw hgrown
  · exact (h.contents i v (hcontents i ▸ hv)).mono hu hw hgrown (List.prefix_refl cells)

/-- A new cell with the slots of its type. -/
theorem StoreTyped.allocate (h : StoreTyped u cells store) (hu : u.Reachable) {slots : List Value}
    (hshape : u.Shapes t slots) (hslots : ∀ v ∈ slots, Typed u cells v) :
    StoreTyped u (cells ++ [t]) (store.allocate slots).2 := by
  have grown {v : Value} (hv : Typed u cells v) : Typed u (cells ++ [t]) v :=
    hv.mono hu hu (.refl u) (List.prefix_append cells [t])
  refine ⟨by simp [Store.allocate, h.size], fun {i r} hr => ?_, fun i v hv => ?_, h.sizeStatics,
    fun hd => ?_⟩
  · rw [Store.contents_allocate]
    by_cases hi : i = store.cells.size
    · rw [if_pos hi]
      rw [hi, h.size, List.getElem?_concat_length] at hr
      exact Option.some.inj hr ▸ hshape
    · rw [if_neg hi]
      rw [h.size] at hi
      have hlt := (List.getElem?_eq_some_iff.mp hr).1
      rw [List.length_append, List.length_singleton] at hlt
      rw [List.getElem?_append_left (by omega)] at hr
      exact h.shapes hr
  · rw [Store.contents_allocate] at hv
    split at hv
    · exact grown (hslots v hv)
    · exact grown (h.contents i v hv)
  · obtain ⟨hfills, htyped⟩ := h.statics hd
    exact ⟨hfills, fun v hv => grown (htyped v hv)⟩

/-- Writing an accepted value to a slot of a cell. -/
theorem StoreTyped.write (h : StoreTyped u cells store) (ht : cells[cell]? = some t)
    (hr : (u.layout t)[k]? = some r) (hv : u.accepts r v = true) (hvt : Typed u cells v) :
    StoreTyped u cells (store.write cell k v) := by
  refine ⟨by simp [Store.write, h.size], fun {i s} hs => ?_, fun i x hx => ?_, h.sizeStatics,
    h.statics⟩
  · rw [Store.contents_write]
    by_cases hi : i = cell
    · subst hi
      obtain rfl := Option.some.inj (ht.symm.trans hs)
      rw [if_pos rfl]
      exact (h.shapes ht).set hr hv
    · rw [if_neg hi]
      exact h.shapes hs
  · rw [Store.contents_write] at hx
    split at hx
    · exact typed_set (h.contents i) hvt x hx
    · exact h.contents i x hx

/-- Writing an accepted value to a shared slot. -/
theorem StoreTyped.writeStatic (h : StoreTyped u cells store) (hr : (u.sharedTypes t)[k]? = some r)
    (hv : u.accepts r v = true) (hvt : Typed u cells v) :
    StoreTyped u cells (store.writeStatic t k v) := by
  cases t with
  | declared d =>
    refine ⟨h.size, h.shapes, h.contents, by simp [Store.writeStatic, h.sizeStatics], ?_⟩
    intro e vs hvs
    simp only [Store.writeStatic, Array.getElem?_modify] at hvs
    by_cases hd : d.index = e.index
    · rw [if_pos hd] at hvs
      obtain ⟨before, hbefore, rfl⟩ := Option.map_eq_some_iff.mp hvs
      obtain ⟨hfills, htyped⟩ := h.statics hbefore
      have hsame : u.sharedTypes (.declared e) = u.sharedTypes (.declared d) := by
        simp only [sharedTypes, fields, definition, definition?, hd]
      exact ⟨hfills.set (hsame ▸ hr) hv, typed_set htyped hvt⟩
    · rw [if_neg hd] at hvs
      exact h.statics hvs
  | _ => exact h

end Universe

end Reflection
