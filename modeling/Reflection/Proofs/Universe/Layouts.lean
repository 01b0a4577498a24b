import Reflection.Proofs.Universe.Conforms

/-!
# Proofs/Universe/Layouts — where the fields of a type have their slots

A field is placed when its type is defined: an instance field after the slots of the base, a shared
one after the shared fields before it.  Its number keeps leading to a slot of its type in every type
below (`layout_slot`), because layouts only continue those of their bases.
-/

namespace Reflection

/-! ## Placing fields -/

namespace Blueprint

variable {self : TypeRef} {f : Field} {fs : List FieldSpec} {n : ℕ}

/-- The types of the slots that every instance has for some fields. -/
def instanceTypes (fs : List FieldSpec) : List TypeRef :=
  (fs.filter fun f => !f.isStatic).map FieldSpec.type

/-- The types of the slots that are shared for some fields. -/
def sharedTypes (fs : List FieldSpec) : List TypeRef :=
  (fs.filter FieldSpec.isStatic).map FieldSpec.type

theorem instanceTypes_cons (g : FieldSpec) (fs : List FieldSpec) :
    instanceTypes (g :: fs) = (if g.isStatic then [] else [g.type]) ++ instanceTypes fs := by
  cases h : g.isStatic <;> simp [instanceTypes, h]

theorem sharedTypes_cons (g : FieldSpec) (fs : List FieldSpec) :
    sharedTypes (g :: fs) = (if g.isStatic then [g.type] else []) ++ sharedTypes fs := by
  cases h : g.isStatic <;> simp [sharedTypes, h]

/-- **A placed field has a slot of its type**, behind whatever slots there were before. -/
theorem getElem?_slot (is ss : List TypeRef)
    (hf : f ∈ placeFields self n is.length ss.length fs) :
    (f.isStatic = false → (is ++ instanceTypes fs)[f.slot]? = some f.type) ∧
      (f.isStatic = true → (ss ++ sharedTypes fs)[f.slot]? = some f.type) := by
  induction fs generalizing n is ss with
  | nil => simp [placeFields] at hf
  | cons g fs ih =>
    rw [instanceTypes_cons, sharedTypes_cons]
    rw [placeFields] at hf
    cases hg : g.isStatic with
    | false =>
      simp only [hg, Bool.false_eq_true, if_false, List.mem_cons] at hf
      rcases hf with rfl | hf
      · simp
      · simpa using ih (is ++ [g.type]) ss (by simpa using hf)
    | true =>
      simp only [hg, if_true, List.mem_cons] at hf
      rcases hf with rfl | hf
      · simp
      · simpa using ih is (ss ++ [g.type]) (by simpa using hf)

/-- What a placed field takes over from the field asked for. -/
theorem exists_spec (is ss : ℕ) (hf : f ∈ placeFields self n is ss fs) :
    ∃ g ∈ fs, f.declaring = self ∧ f.type = g.type ∧ f.isStatic = g.isStatic ∧
      f.constant? = if g.storage = .constant then g.initial? else none := by
  induction fs generalizing n is ss with
  | nil => simp [placeFields] at hf
  | cons g fs ih =>
    rw [placeFields] at hf
    rcases List.mem_cons.mp hf with rfl | hf
    · exact ⟨g, List.mem_cons_self, rfl, rfl, rfl, rfl⟩
    · have rest : ∃ m is ss, f ∈ placeFields self m is ss fs := by
        split at hf
        · exact ⟨_, _, _, hf⟩
        · exact ⟨_, _, _, hf⟩
      obtain ⟨m, is, ss, hf⟩ := rest
      obtain ⟨g', hg', h⟩ := ih is ss hf
      exact ⟨g', List.mem_cons_of_mem _ hg', h⟩

theorem sharedTypes_placeFields (is ss : ℕ) :
    ((placeFields self n is ss fs).filter Field.isStatic).map Field.type = sharedTypes fs := by
  induction fs generalizing n is ss with
  | nil => rfl
  | cons g fs ih =>
    rw [placeFields, sharedTypes_cons]
    cases hg : g.isStatic <;> simp [ih]

end Blueprint

/-! ## Fields of a reachable universe -/

namespace Universe

variable {β : Type} {u w : Universe β} {s t r : TypeRef} {f : Field}

/-- The types of the shared slots of a type. -/
def sharedTypes (u : Universe β) (t : TypeRef) : List TypeRef :=
  ((u.fields t).filter Field.isStatic).map Field.type

/-- Where a field comes from: the blueprint of the type that declares it. -/
theorem Reachable.exists_origin_of_field (hu : u.Reachable) (hf : f ∈ u.fields t) :
    ∃ v b c, Origin u v b c ∧ u.definition t = c.definition ∧ f ∈ c.definition.fields ∧
      f.declaring = b.self := by
  rw [fields] at hf
  rcases hu.definition_cases t with hx | hx | ⟨v, b, c, ho, hx, -⟩
  · simp [hx] at hf
  · simp [(members_of_builtin? hx).2.1] at hf
  · rw [hx] at hf
    refine ⟨v, b, c, ho, hx, hf, ?_⟩
    obtain ⟨base?, hp⟩ := ho.exists_passes
    obtain ⟨_, -, hd, -⟩ := Blueprint.exists_spec _ _ (hp.fields ▸ hf)
    exact hd

/-- Fields are declared by declared types. -/
theorem Reachable.exists_declaration (hu : u.Reachable) (hf : f ∈ u.fields t) :
    ∃ d, f.declaring = .declared d := by
  obtain ⟨v, b, c, -, -, -, hd⟩ := hu.exists_origin_of_field hf
  exact ⟨b.target, hd⟩

/-- A constant is shared. -/
theorem Reachable.isStatic_of_constant (hu : u.Reachable) {v : Value} (hf : f ∈ u.fields t)
    (h : f.constant? = some v) : f.isStatic = true := by
  obtain ⟨_, b, c, ho, -, hf, -⟩ := hu.exists_origin_of_field hf
  obtain ⟨base?, hp⟩ := ho.exists_passes
  obtain ⟨g, -, -, -, hg, hc⟩ := Blueprint.exists_spec _ _ (hp.fields ▸ hf)
  rw [hg]
  by_cases hk : g.storage = .constant
  · simp [FieldSpec.isStatic, hk]
  · simp [hc, hk] at h

/-- A slot is the base's, or was asked for with the type. -/
theorem Reachable.mem_layout (hu : u.Reachable) (h : r ∈ u.layout t) :
    (∃ a, u.base? t = some a ∧ r ∈ u.layout a) ∨
      ∃ v b c, Origin u v b c ∧ r ∈ b.ownLayout := by
  rw [layout] at h
  rcases hu.definition_cases t with hx | hx | ⟨v, b, c, ho, hx, -⟩
  · simp [hx] at h
  · simp [(members_of_builtin? hx).2.2] at h
  · obtain ⟨base?, hp⟩ := ho.exists_passes
    rw [hx, hp.layout] at h
    rcases List.mem_append.mp h with h | h
    · cases base? with
      | none => simp at h
      | some a =>
        have ha := (Blueprint.mayDerive_of_resolveBase hp.resolve).isDefined
        refine .inl ⟨a, by simp [base?, hx, hp.bases, Blueprint.lineOf, ancestors], ?_⟩
        rw [layout, ho.grown.definition_eq ha]
        exact h
    · exact .inr ⟨v, b, _, ho, h⟩

/-- Slots are of known types. -/
theorem Reachable.knows_of_mem_layout (hu : u.Reachable) : r ∈ u.layout t → u.Knows r := by
  induction t using hu.base_induction with
  | step t ih =>
    intro h
    rcases hu.mem_layout h with ⟨a, ha, hr⟩ | ⟨v, b, c, ho, hr⟩
    · exact ih a ha hr
    · obtain ⟨g, hg, rfl⟩ := List.mem_map.mp hr
      obtain ⟨hg, hs⟩ := List.mem_filter.mp hg
      rcases Blueprint.mem_allFields hg with hg | ⟨x, rfl⟩
      · exact ho.grown.knows (ho.scopes.knows_type hg)
      · -- the named values of an enumeration are shared
        simp [Blueprint.valueField, FieldSpec.isStatic] at hs

/-- A layout continues the layout of every base. -/
theorem Reachable.layout_prefix_of_mem (hu : u.Reachable) {a : TypeRef} :
    a ∈ (u.definition t).bases → u.layout a <+: u.layout t := by
  induction t using hu.base_induction with
  | step t ih =>
    intro h
    obtain ⟨b, hb, -, rfl | ha⟩ := hu.mem_bases h
    · exact hu.layout_prefix hb
    · exact (ih b hb ha).trans (hu.layout_prefix hb)

/-- The slot of an instance field, in the type that declares it. -/
theorem Reachable.slot_declaring (hu : u.Reachable) (hf : f ∈ u.fields t)
    (hs : f.isStatic = false) : (u.layout f.declaring)[f.slot]? = some f.type := by
  obtain ⟨v, b, c, ho, -, hf, hd⟩ := hu.exists_origin_of_field hf
  obtain ⟨base?, hp⟩ := ho.exists_passes
  rw [hd, layout, ho.definition_eq, hp.layout]
  exact (Blueprint.getElem?_slot _ [] (hp.fields ▸ hf)).1 hs

/-- The slot of a shared field. -/
theorem Reachable.slot_shared (hu : u.Reachable) (hf : f ∈ u.fields t) (hs : f.isStatic = true) :
    (u.sharedTypes f.declaring)[f.slot]? = some f.type := by
  obtain ⟨v, b, c, ho, -, hf, hd⟩ := hu.exists_origin_of_field hf
  obtain ⟨base?, hp⟩ := ho.exists_passes
  rw [hd, sharedTypes, fields, ho.definition_eq, hp.fields, Blueprint.sharedTypes_placeFields]
  simpa using (Blueprint.getElem?_slot _ [] (hp.fields ▸ hf)).2 hs

/-- Only types with instances have instance fields. -/
theorem Reachable.not_isInterface_of_field (hu : u.Reachable) (hf : f ∈ u.fields t)
    (hs : f.isStatic = false) : f.declaring.isInterface = false := by
  obtain ⟨v, b, c, ho, -, hf, hd⟩ := hu.exists_origin_of_field hf
  obtain ⟨base?, hp⟩ := ho.exists_passes
  obtain ⟨g, hg, -, -, hgs, -⟩ := Blueprint.exists_spec _ _ (hp.fields ▸ hf)
  obtain ⟨taken, hc⟩ := Blueprint.exists_checkField hp.checked hg
  have hw := (Blueprint.checkField_eq_ok hc).2.2.2 (hgs ▸ hs)
  simp only [Blueprint.isWithoutInstances, Bool.or_eq_false_iff] at hw
  rw [hd, hw.1.1]

/-- A type below the one that declares an instance field has that one on its line of bases. -/
theorem Reachable.declaring_mem_ancestors (hu : u.Reachable) (hf : f ∈ u.fields t)
    (hs : f.isStatic = false) (h : u.isSubtype s f.declaring = true) :
    f.declaring ∈ u.ancestors s := by
  have hi := hu.not_isInterface_of_field hf hs
  -- a declared type is neither the root nor an array
  obtain ⟨d, hd⟩ := hu.exists_declaration hf
  rw [isSubtype_iff_reaches hu, reaches_iff_climbs (by rintro _ _ - ha; simp [hd] at ha)] at h
  rcases h with rfl | h | h | ⟨a, -, h⟩
  · exact List.mem_cons_self
  · simp [hd] at h
  · exact List.mem_cons_of_mem _ h
  · simp [(hu.isInterface_of_names h).1] at hi

/-- **Below the declaring type a field keeps its slot.** -/
theorem Reachable.layout_slot (hu : u.Reachable) (hf : f ∈ u.fields t) (hs : f.isStatic = false)
    (h : u.isSubtype s f.declaring = true) : (u.layout s)[f.slot]? = some f.type := by
  have hslot := hu.slot_declaring hf hs
  rcases List.mem_cons.mp (hu.declaring_mem_ancestors hf hs h) with rfl | h
  · exact hslot
  · obtain ⟨l, hl⟩ := hu.layout_prefix_of_mem h
    rw [← hl, List.getElem?_append_left (List.getElem?_eq_some_iff.mp hslot).1]
    exact hslot

end Universe

end Reflection
