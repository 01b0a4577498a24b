import Mathlib.Data.List.Range
import Reflection.Proofs.World.Hosted

/-!
# Proofs/World/Slots — one slot for every field

    layout of the base │ own instance fields        static slots: own shared fields
    0 ⋯ n-1            │ n ⋯ n+k-1                  0 ⋯ m-1

The instance fields of a type take the slots behind those of its base, in the order in which they
are declared, so going down a line of bases the slots are handed out one after another
(`Reachable.slots_perm_range`).  Names play no part in it: a field that hides another one has a slot
of its own.
-/

namespace Reflection

variable {β : Type}

/-! ## Placing fields -/

namespace Blueprint

variable {self : TypeRef} {fs : List FieldSpec} {n : ℕ}

theorem instanceTypes_placeFields (is ss : ℕ) :
    ((placeFields self n is ss fs).filter fun f => !f.isStatic).map Field.type =
      instanceTypes fs := by
  induction fs generalizing n is ss with
  | nil => rfl
  | cons g fs ih =>
    rw [placeFields, instanceTypes_cons]
    cases hg : g.isStatic <;> simp [ih]

/-- Instance fields take the instance slots one after another. -/
theorem instanceSlots_placeFields (is ss : ℕ) :
    ((placeFields self n is ss fs).filter fun f => !f.isStatic).map Field.slot =
      List.range' is (instanceTypes fs).length := by
  induction fs generalizing n is ss with
  | nil => rfl
  | cons g fs ih =>
    rw [placeFields, instanceTypes_cons]
    cases hg : g.isStatic <;> simp [ih, List.range'_succ]

/-- Shared fields take the static slots one after another. -/
theorem sharedSlots_placeFields (is ss : ℕ) :
    ((placeFields self n is ss fs).filter Field.isStatic).map Field.slot =
      List.range' ss (sharedTypes fs).length := by
  induction fs generalizing n is ss with
  | nil => rfl
  | cons g fs ih =>
    rw [placeFields, sharedTypes_cons]
    cases hg : g.isStatic <;> simp [ih, List.range'_succ]

end Blueprint

/-! ## The slots of a type -/

namespace Universe

variable {u : Universe β} {t a : TypeRef} {f : Field}

/-- The fields that a type declares for its instances. -/
def instanceFields (u : Universe β) (t : TypeRef) : List Field :=
  (u.fields t).filter fun f => !f.isStatic

/-- The fields that a type declares for itself. -/
def sharedFields (u : Universe β) (t : TypeRef) : List Field := (u.fields t).filter Field.isStatic

/-- The layout that a type takes over from its base. -/
def baseLayout (u : Universe β) (t : TypeRef) : List TypeRef :=
  ((u.base? t).map u.layout).getD []

/-- The fields that every instance of a type has a slot for. -/
def slotFields (u : Universe β) (t : TypeRef) : List Field :=
  (u.ancestors t).flatMap u.instanceFields

/-- **The fields of a type are placed behind the layout of its base.** -/
theorem Reachable.exists_placed (hu : u.Reachable) (t : TypeRef) :
    ∃ self fs, u.fields t = Blueprint.placeFields self 0 (u.baseLayout t).length 0 fs ∧
      u.layout t = u.baseLayout t ++ Blueprint.instanceTypes fs := by
  rw [fields, layout]
  rcases hu.definition_cases t with hx | hx | ⟨v, b, c, ho, hx, -⟩
  · refine ⟨t, [], ?_⟩
    simp [hx, baseLayout, base?, Blueprint.placeFields, Blueprint.instanceTypes]
  · obtain ⟨-, hfields, hlayout⟩ := members_of_builtin? hx
    refine ⟨t, [], hfields, ?_⟩
    rcases bases_of_builtin? hx with hb | hb
    · simp [hlayout, baseLayout, base?, hb, Blueprint.instanceTypes]
    · simp only [hlayout, baseLayout, base?, hb]
      rfl
  · obtain ⟨base?, hp⟩ := ho.exists_passes
    have hbase : u.baseLayout t = (base?.map v.layout).getD [] := by
      rw [baseLayout, Universe.base?, hx, hp.bases]
      cases base? with
      | none => rfl
      | some a =>
        exact congrArg Definition.layout
          (ho.grown.definition_eq (Blueprint.mayDerive_of_resolveBase hp.resolve).isDefined)
    refine ⟨b.self, b.allFields, by rw [hx, hbase, hp.fields], ?_⟩
    rw [hx, hbase, hp.layout]
    rfl

/-- The own instance fields come behind the base. -/
theorem Reachable.layout_eq (hu : u.Reachable) (t : TypeRef) :
    u.layout t = u.baseLayout t ++ (u.instanceFields t).map Field.type := by
  obtain ⟨self, fs, hfields, hlayout⟩ := hu.exists_placed t
  rw [hlayout, instanceFields, hfields, Blueprint.instanceTypes_placeFields]

theorem Reachable.slot_own (hu : u.Reachable) (hf : f ∈ u.fields t) (hs : f.isStatic = false) :
    (u.layout t)[f.slot]? = some f.type := by
  obtain ⟨self, fs, hfields, hlayout⟩ := hu.exists_placed t
  rw [hlayout]
  exact (Blueprint.getElem?_slot _ [] (hfields ▸ hf)).1 hs

/-- An inherited field keeps its slot. -/
theorem Reachable.slot_of_mem_ancestors (hu : u.Reachable) (ha : a ∈ u.ancestors t)
    (hf : f ∈ u.fields a) (hs : f.isStatic = false) : (u.layout t)[f.slot]? = some f.type := by
  have hslot := hu.slot_own hf hs
  rcases mem_ancestors_iff.mp ha with rfl | ha
  · exact hslot
  · obtain ⟨l, hl⟩ := hu.layout_prefix_of_mem ha
    rw [← hl, List.getElem?_append_left (List.getElem?_eq_some_iff.mp hslot).1]
    exact hslot

/-- The own instance fields take the slots behind the base. -/
theorem Reachable.instanceSlots (hu : u.Reachable) (t : TypeRef) :
    (u.instanceFields t).map Field.slot =
      List.range' (u.baseLayout t).length (u.instanceFields t).length := by
  obtain ⟨self, fs, hfields, -⟩ := hu.exists_placed t
  rw [instanceFields, hfields, Blueprint.instanceSlots_placeFields,
    ← Blueprint.instanceTypes_placeFields, List.length_map]

theorem Reachable.sharedSlots (hu : u.Reachable) (t : TypeRef) :
    (u.sharedFields t).map Field.slot = List.range (u.sharedFields t).length := by
  obtain ⟨self, fs, hfields, -⟩ := hu.exists_placed t
  rw [sharedFields, hfields, Blueprint.sharedSlots_placeFields, List.range_eq_range',
    ← Blueprint.sharedTypes_placeFields, List.length_map]

/-- **Down a line of bases, every slot is handed out once.** -/
theorem Reachable.slots_perm_range (hu : u.Reachable) (t : TypeRef) :
    ((u.slotFields t).map Field.slot).Perm (List.range (u.layout t).length) := by
  induction t using hu.base_induction with
  | step t ih =>
    rw [slotFields, ancestors, List.flatMap_cons, List.map_append, hu.instanceSlots, hu.layout_eq,
      List.length_append, List.length_map]
    cases hb : u.base? t with
    | none => simp [baseLayout, hb, bases_eq_nil hb, List.range_eq_range']
    | some a =>
      rw [hu.bases_eq hb, baseLayout, hb]
      have hrest := (ih a hb).append_left
        (List.range' (u.layout a).length (u.instanceFields t).length)
      refine (hrest.trans List.perm_append_comm).trans (.of_eq ?_)
      rw [List.range_eq_range', List.range_eq_range']
      simpa using @List.range'_append_1 0 (u.layout a).length (u.instanceFields t).length

/-- Every slot belongs to exactly one field. -/
theorem Reachable.existsUnique_slotField (hu : u.Reachable) {k : ℕ}
    (hk : k < (u.layout t).length) : ∃! f, f ∈ u.slotFields t ∧ f.slot = k := by
  have hperm := hu.slots_perm_range t
  have hnodup : ((u.slotFields t).map Field.slot).Nodup :=
    hperm.nodup_iff.mpr List.nodup_range
  obtain ⟨f, hf, rfl⟩ := List.mem_map.mp (hperm.mem_iff.mpr (List.mem_range.mpr hk))
  refine ⟨f, ⟨hf, rfl⟩, fun g ⟨hg, hslot⟩ => List.inj_on_of_nodup_map hnodup hg hf hslot⟩

end Universe

/-! ## The slots of a hosted world -/

/-- **How the slots of a type are shared out** in a world. -/
structure World.SharesOut (w : World β) (t : TypeRef) : Prop where
  /-- The layout is that of the base, followed by the types of the own instance fields. -/
  layout_eq : w.types.layout t = w.types.baseLayout t ++ (w.types.instanceFields t).map Field.type
  /-- The slot of every instance field, inherited ones included, is of the type of the field. -/
  slot_type : ∀ f ∈ w.types.slotFields t, (w.types.layout t)[f.slot]? = some f.type
  /-- No two instance fields along the line of bases have one slot, and no slot is left over. -/
  slots_perm : ((w.types.slotFields t).map Field.slot).Perm
    (List.range (w.types.layout t).length)
  /-- Every slot belongs to exactly one instance field. -/
  slot_unique : ∀ k < (w.types.layout t).length, ∃! f, f ∈ w.types.slotFields t ∧ f.slot = k
  /-- The shared fields are numbered in the order of declaration. -/
  static_slots : (w.types.sharedFields t).map Field.slot =
    List.range (w.types.sharedFields t).length
  /-- There is a static slot for each of these numbers and for no other one. -/
  static_iff : ∀ k, (w.store.readStatic? t k).isSome = true ↔ k < (w.types.sharedFields t).length

/-- **Every slot has one field, and every field one slot**, in every hosted world. -/
theorem World.Hosted.sharesOut {w : World β} (h : w.Hosted) (t : TypeRef) : w.SharesOut t where
  layout_eq := h.tallies.types.layout_eq t
  slot_type f hf := by
    obtain ⟨a, ha, hf⟩ := List.mem_flatMap.mp hf
    obtain ⟨hf, hs⟩ := List.mem_filter.mp hf
    exact h.tallies.types.slot_of_mem_ancestors ha hf (by simpa using hs)
  slots_perm := h.tallies.types.slots_perm_range t
  slot_unique _ hk := h.tallies.types.existsUnique_slotField hk
  static_slots := h.tallies.types.sharedSlots t
  static_iff k := by
    have hlen : (w.store.staticSlots t).length = (w.types.sharedFields t).length := by
      rw [h.tallies.slots t, Universe.sharedTypes, List.length_map]
      rfl
    simp [Store.readStatic?_eq, hlen]

/-- A world with a class `A` and a class `B` below it, whose instance field hides that of `A`; each
has a shared field too. -/
def hidingWorld : World Unit :=
  (((World.empty.declare .classType "A").2.attempt
    { Blueprint.start ⟨0, .classType, "A"⟩ with
      fields := [{ name := "x", type := .primitive .i32 },
        { name := "total", type := .primitive .i64, storage := .shared }] }).declare
    .classType "B").2.attempt
    { Blueprint.start ⟨1, .classType, "B"⟩ with
      extends? := some (.declared ⟨0, .classType, "A"⟩)
      fields := [
        { name := "limit", type := .primitive .i32, storage := .constant, initial? := some (.i32 3) },
        { name := "x", type := .primitive .string }] }

theorem hosted_hidingWorld : hidingWorld.Hosted :=
  .attempt (.declare (.attempt (.declare .refl _ _) (by decide) rfl (by decide) rfl) _ _)
    (by decide) rfl (by decide) rfl

/-- The field that hides and the one that is hidden have two slots, and the constant has a third one,
with the type. -/
theorem sharesOut_hidingWorld :
    ((hidingWorld.types.slotFields (.declared ⟨1, .classType, "B"⟩)).map Field.slot).Perm [0, 1] ∧
      (hidingWorld.store.readStatic? (.declared ⟨1, .classType, "B"⟩) 0).isSome = true :=
  ⟨(hosted_hidingWorld.sharesOut _).slots_perm,
    ((hosted_hidingWorld.sharesOut _).static_iff 0).mpr (by decide)⟩

end Reflection
