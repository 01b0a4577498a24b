import Reflection.Proofs.Attribute.Gather
import Reflection.Proofs.Universe.Links

/-!
# Proofs/Attribute/PassThrough — attributes through a declaration that adds none

    base   own attributes  ──ofKind──▸  own     ++  rest
                                         │ inheritedOf, Thins
                                         ▾
    heir   none                         passed  ++  rest

A declaration that carries no attributes reports what its base reports, one level further up.  What
the levels above the base add is the same, since only types that are passed on can be in the way
there, and those are found in both reports (`passedOn_congr`).  But the attributes of the base
itself are no longer the first level.  Of them, the heir reports the inherited ones, each type once
that does not allow several (`thins_passedOn`); so all of them, exactly if no such type is there
twice (`Thins.eq_iff`).
-/

namespace Reflection

variable {β : Type}

/-! ## Thinning -/

namespace Universe

variable {u : Universe β}

/-- **A list of which repeated instances are left out**, of the types that do not allow several: of
these the first one stays. -/
structure Thins (u : Universe β) (as bs : List Attribute) : Prop where
  sublist : bs.Sublist as
  filter_eq : ∀ t, bs.filter (fun a => a.type = t) =
    if (u.effectiveUsage t).allowMultiple then as.filter fun a => a.type = t
    else (as.filter fun a => a.type = t).take 1

variable {as bs : List Attribute}

/-- A part of a list that has all instances of every type is the whole list. -/
theorem eq_of_sublist_of_filter_eq (hsub : bs.Sublist as)
    (h : ∀ t, bs.filter (fun a => a.type = t) = as.filter fun a => a.type = t) : bs = as := by
  induction hsub with
  | slnil => rfl
  | cons a hsub _ =>
    have hlength := congrArg List.length (h a.type)
    have hle := (hsub.filter fun b => b.type = a.type).length_le
    rw [List.filter_cons_of_pos (by simp), List.length_cons] at hlength
    omega
  | cons_cons a _ ih =>
    refine congrArg (a :: ·) (ih fun t => ?_)
    have ht := h t
    by_cases hat : a.type = t
    · simpa [hat] using ht
    · simpa [hat] using ht

/-- **Nothing is left out exactly if nothing is repeated.** -/
theorem Thins.eq_iff (h : u.Thins as bs) : bs = as ↔ u.AtMostOnce as := by
  constructor
  · rintro rfl t hm
    have hlength := congrArg List.length (h.filter_eq t)
    rw [if_neg (by simp [hm]), List.length_take] at hlength
    rw [List.countP_eq_length_filter]
    omega
  · intro hone
    refine eq_of_sublist_of_filter_eq h.sublist fun t => ?_
    rw [h.filter_eq]
    split
    · rfl
    · next hm =>
      have hle := hone t (by simpa using hm)
      rw [List.countP_eq_length_filter] at hle
      exact List.take_of_length_le hle

/-- The same types are there. -/
theorem Thins.any_eq (h : u.Thins as bs) (t : TypeRef) :
    (bs.any fun a => a.type = t) = as.any fun a => a.type = t := by
  have hfirst : bs.find? (fun a => a.type = t) = as.find? fun a => a.type = t := by
    rw [← List.head?_filter, ← List.head?_filter, h.filter_eq]
    split <;> simp [List.head?_take]
  rw [Bool.eq_iff_iff, List.any_eq_true, List.any_eq_true, ← List.find?_isSome, hfirst,
    List.find?_isSome]

end Universe

namespace AttributeQuery

variable {u : Universe β} {kind t : TypeRef} {found found' as : List Attribute} {a : Attribute}

/-- The inherited ones of some attributes. -/
def inheritedOf (u : Universe β) (as : List Attribute) : List Attribute :=
  as.filter fun a => (u.effectiveUsage a.type).inherited

theorem inheritedOf_ofKind_cons (a : Attribute) (as : List Attribute) :
    inheritedOf u (ofKind u kind (a :: as)) =
      if u.isSubtype a.type kind && (u.effectiveUsage a.type).inherited then
        a :: inheritedOf u (ofKind u kind as)
      else inheritedOf u (ofKind u kind as) := by
  rw [inheritedOf, inheritedOf, ofKind, ofKind, List.filter_filter, List.filter_filter,
    List.filter_cons]
  simp only [Bool.and_comm]

theorem filter_inheritedOf_ofKind (hs : u.isSubtype t kind = true)
    (hi : (u.effectiveUsage t).inherited = true) (as : List Attribute) :
    (inheritedOf u (ofKind u kind as)).filter (fun a => a.type = t) =
      as.filter fun a => a.type = t := by
  simp only [inheritedOf, ofKind, List.filter_filter]
  refine List.filter_congr fun a _ => ?_
  by_cases ht : a.type = t
  · simp [ht, hs, hi]
  · simp [ht]

/-! ## The attributes of the base -/

theorem passedOn_sublist (u : Universe β) (kind : TypeRef) (found as : List Attribute) :
    (passedOn u kind found as).Sublist (inheritedOf u (ofKind u kind as)) := by
  induction as generalizing found with
  | nil => exact List.Sublist.refl _
  | cons a as ih =>
    rw [passedOn, inheritedOf_ofKind_cons]
    split
    · next h =>
      have hi : (u.isSubtype a.type kind && (u.effectiveUsage a.type).inherited) = true := by
        simp only [passesOn_eq, Bool.and_eq_true] at h ⊢
        exact ⟨h.1, h.2.1⟩
      rw [if_pos hi]
      exact (ih _).cons_cons a
    · split
      · exact (ih _).cons a
      · exact ih _

/-- **What passes on of one level alone**: the inherited ones of the kind, each once that does not
allow several. -/
theorem thins_passedOn (as : List Attribute) :
    u.Thins (inheritedOf u (ofKind u kind as)) (passedOn u kind [] as) where
  sublist := passedOn_sublist u kind [] as
  filter_eq t := by
    by_cases ht : u.isSubtype t kind = true ∧ (u.effectiveUsage t).inherited = true
    · rw [filter_passedOn ht.1 ht.2, filter_inheritedOf_ofKind ht.1 ht.2]
      simp
    · have hnone : (inheritedOf u (ofKind u kind as)).filter (fun a => a.type = t) = [] := by
        rw [List.filter_eq_nil_iff]
        intro a ha hat
        obtain rfl := of_decide_eq_true hat
        obtain ⟨hkind, hi⟩ := List.mem_filter.mp ha
        exact ht ⟨(List.mem_filter.mp hkind).2, hi⟩
      have hsub := (passedOn_sublist u kind [] as).filter fun a => a.type = t
      rw [hnone, List.sublist_nil] at hsub
      rw [hnone, hsub, List.take_nil, ite_self]

/-! ## What is above the base -/

/-- **Lists that no inherited attribute can tell apart**: the types that can be passed on are found
in both or in none. -/
def FoundAlike (u : Universe β) (kind : TypeRef) (found found' : List Attribute) : Prop :=
  ∀ t, u.isSubtype t kind = true → (u.effectiveUsage t).inherited = true →
    (found.any fun a => a.type = t) = found'.any fun a => a.type = t

theorem FoundAlike.append (h : FoundAlike u kind found found') (as : List Attribute) :
    FoundAlike u kind (found ++ as) (found' ++ as) := by
  intro t hs hi
  rw [List.any_append, List.any_append, h t hs hi]

theorem FoundAlike.passesOn_eq (h : FoundAlike u kind found found') (a : Attribute) :
    (u.isSubtype a.type kind && passesOn u found a) =
      (u.isSubtype a.type kind && passesOn u found' a) := by
  by_cases hs : u.isSubtype a.type kind = true
  · by_cases hi : (u.effectiveUsage a.type).inherited = true
    · rw [AttributeQuery.passesOn_eq, AttributeQuery.passesOn_eq, h a.type hs hi]
    · simp [AttributeQuery.passesOn_eq, hi]
  · simp [hs]

/-- **What is passed on depends on the types found before only**, of those that can be passed on. -/
theorem passedOn_congr (h : FoundAlike u kind found found') (as : List Attribute) :
    passedOn u kind found as = passedOn u kind found' as := by
  induction as generalizing found found' with
  | nil => rfl
  | cons a as ih => rw [passedOn, passedOn, h.passesOn_eq, ih h, ih (h.append [a])]

/-- Types are found alike in what a level reports itself and in what it passes on. -/
theorem foundAlike_passedOn (as : List Attribute) :
    FoundAlike u kind (passedOn u kind [] as) (ofKind u kind as) := by
  intro t _ hi
  rw [(thins_passedOn as).any_eq, inheritedOf, List.any_filter]
  refine congrArg (ofKind u kind as).any (funext fun a => ?_)
  by_cases ht : a.type = t
  · simp [ht, hi]
  · simp [ht]

end AttributeQuery

/-! ## Heirs -/

open AttributeQuery

namespace Universe

variable {u v : Universe β} {p : Provider β} {d b : AttributeTarget β} {kind : TypeRef}

theorem Reachable.passedFrom_eq (hu : u.Reachable) (hb : d.parent? u = some b) :
    passedFrom p u d = p.attributes u b ++ passedFrom p u b := by
  rw [passedFrom, passedFrom, hu.unfolds_lineage d, hb, List.tail_cons, Option.map_some,
    Option.getD_some, b.lineage_eq_cons]
  rfl

/-- **Attributes pass through a declaration that adds none**, but for repetitions: a type, property or
method that carries no attributes reports what its base or the declaration that it overrides reports,
of whose own attributes it leaves out those that are not inherited, and of a type that does not allow
several all instances but the first.  So it leaves out no more than those that are not inherited
exactly if no such type comes twice among the others. -/
theorem Reachable.passed_through_iff (hu : u.Reachable) (hb : d.parent? u = some b)
    (hd : p.attributes u d = []) (hk : v.isAttribute kind = true) :
    ∃ passed rest,
      (ofTarget p u b).getAll v kind true = .ok (ofKind v kind (p.attributes u b) ++ rest) ∧
      (ofTarget p u d).getAll v kind true = .ok (passed ++ rest) ∧
      (∀ a ∈ rest, (v.effectiveUsage a.type).inherited = true) ∧
      v.Thins (inheritedOf v (ofKind v kind (p.attributes u b))) passed ∧
      ((ofTarget p u d).getAll v kind true =
          .ok (inheritedOf v (ofKind v kind (p.attributes u b)) ++ rest) ↔
        v.AtMostOnce (inheritedOf v (ofKind v kind (p.attributes u b)))) := by
  have hbase := getAll_ofTarget (p := p) (u := u) hk b
  have hheir := getAll_ofTarget (p := p) (u := u) hk d
  rw [hd, hu.passedFrom_eq hb, ofKind, List.filter_nil, List.nil_append, passedOn_append,
    List.nil_append, passedOn_congr (foundAlike_passedOn _)] at hheir
  refine ⟨_, _, hbase, hheir, fun a ha => (of_mem_passedOn ha).2, thins_passedOn _, ?_⟩
  rw [hheir, Except.ok.injEq, List.append_left_inj, (thins_passedOn _).eq_iff]

/-- Of a type that allows several, the class that carries none reports all instances that its base
reports. -/
theorem passed_through_iff_markedClasses :
    ∃ rest,
      (ofTarget .reflector markedClasses (.type (.declared ⟨3, .classType, "A"⟩))).getAll
        markedClasses (.declared ⟨1, .classType, "Many"⟩) true =
          .ok (ofKind markedClasses (.declared ⟨1, .classType, "Many"⟩)
            (markedClasses.attributes (.declared ⟨3, .classType, "A"⟩)) ++ rest) ∧
      (ofTarget .reflector markedClasses (.type (.declared ⟨4, .classType, "B"⟩))).getAll
        markedClasses (.declared ⟨1, .classType, "Many"⟩) true =
          .ok (inheritedOf markedClasses (ofKind markedClasses (.declared ⟨1, .classType, "Many"⟩)
            (markedClasses.attributes (.declared ⟨3, .classType, "A"⟩))) ++ rest) := by
  have hb : (AttributeTarget.type (.declared ⟨4, .classType, "B"⟩)).parent? markedClasses =
      some (.type (.declared ⟨3, .classType, "A"⟩)) := rfl
  have hk : markedClasses.isAttribute (.declared ⟨1, .classType, "Many"⟩) = true := by decide
  obtain ⟨_, rest, hbase, -, -, -, hheir⟩ :=
    reachable_markedClasses.passed_through_iff (p := .reflector) hb rfl hk
  exact ⟨rest, hbase, hheir.mpr (by decide)⟩

/-- **Not every attribute passes through**: of a type that does not allow several and that the base
carries twice, the heir reports the first instance only. -/
theorem not_every_attribute_passes :
    ¬ ∀ (u : Universe Unit) (d b : AttributeTarget Unit) (kind : TypeRef) (rest : List Attribute),
      u.Reachable → d.parent? u = some b → d.declared u = [] →
      (ofTarget .reflector u b).getAll u kind true = .ok (ofKind u kind (b.declared u) ++ rest) →
      (ofTarget .reflector u d).getAll u kind true =
        .ok (inheritedOf u (ofKind u kind (b.declared u)) ++ rest) := by
  intro h
  have hheir := h markedClasses (.type (.declared ⟨4, .classType, "B"⟩))
    (.type (.declared ⟨3, .classType, "A"⟩)) (.declared ⟨0, .classType, "Single"⟩) []
    reachable_markedClasses rfl rfl rfl
  exact absurd (congrArg (fun r => r.toOption.map List.length) hheir) (by decide)

end Universe

end Reflection
