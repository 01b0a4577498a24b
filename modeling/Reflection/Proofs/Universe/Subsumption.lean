import Reflection.Proofs.Universe.Final

/-!
# Proofs/Universe/Subsumption — what a subtype accepts, the type accepts

    a accepts v   ──▸  the type of v is below a.core  ─┐
                                                       ├─Conforms.trans──▸  b accepts v
    a is below b  ──▸  a.core is below b.core  ────────┘

Acceptance opens nullable types and asks for the type of a value; null it judges by the kind of the
type alone.  Subtyping passes both on, since only a reference type has anything below it but itself.
The answer is another matter: from the type of the value, the search for the upper type may run into
a circle of interfaces that neither of the two answers has come near.
-/

namespace Reflection

theorem TypeRef.core_of_isReferenceType {t : TypeRef} (h : t.isReferenceType = true) :
    t.core = t := by
  cases t with
  | nullable t => cases h
  | _ => rfl

namespace Universe

open Relation

variable {β : Type} {u : Universe β} {s t a b r : TypeRef} {v : Value} {c : Bool}

/-! ## Acceptance and the search -/

/-- **Whether the search for acceptance never ends**: that from the type of the value runs into a
circle of interfaces. -/
def AcceptanceLoops (u : Universe β) (t : TypeRef) (v : Value) : Prop :=
  ∃ r, v.runtimeType? = some r ∧ u.Loops r t.core

theorem not_acceptanceLoops_null (t : TypeRef) : ¬ u.AcceptanceLoops t .null := by
  rintro ⟨r, hr, -⟩
  cases hr

theorem acceptanceLoops_iff (hr : v.runtimeType? = some r) :
    u.AcceptanceLoops t v ↔ u.Loops r t.core := by
  simp [AcceptanceLoops, hr]

/-- Whether a value is accepted is a question about its type, also for the bounded search. -/
theorem accepts_eq_isSubtype (hr : v.runtimeType? = some r) (t : TypeRef) :
    u.accepts t v = u.isSubtype r t.core := by
  induction t with
  | nullable t ih => cases v <;> first | exact ih | simp [Value.runtimeType?] at hr
  | _ => cases v <;> simp_all [accepts, TypeRef.core, Value.runtimeType?]

/-- **Acceptance has an answer unless its search never ends**, and then the right one. -/
theorem accepts?_eq_some_iff (hu : u.Reachable) :
    u.accepts? t v = some c ↔ ¬ u.AcceptanceLoops t v ∧ u.accepts t v = c := by
  cases hr : v.runtimeType? with
  | none =>
    obtain rfl := Value.runtimeType?_eq_none.mp hr
    have hnull : u.accepts? t .null = some t.acceptsNull := by cases t <;> rfl
    simp [hnull, not_acceptanceLoops_null]
  | some r =>
    rw [accepts?_eq_isSubtype? hr, isSubtype?_eq_some_iff hu, acceptanceLoops_iff hr,
      accepts_eq_isSubtype hr, ← isSubtype_iff_conforms hu]
    refine and_congr_right fun _ => ?_
    rw [← Bool.eq_iff_iff, eq_comm]

theorem accepts?_eq_none_iff (hu : u.Reachable) :
    u.accepts? t v = none ↔ u.AcceptanceLoops t v := by
  cases h : u.accepts? t v with
  | none =>
    refine iff_of_true rfl (by_contra fun hloops => ?_)
    simp [(accepts?_eq_some_iff hu).mpr ⟨hloops, rfl⟩] at h
  | some c => simp [((accepts?_eq_some_iff hu).mp h).1]

/-- Without circles of interfaces no search for acceptance is endless. -/
theorem not_acceptanceLoops_of_acyclic (hu : u.Reachable)
    (hacyclic : ∀ i, ¬ TransGen u.Names i i) (t : TypeRef) (v : Value) :
    ¬ u.AcceptanceLoops t v := by
  rintro ⟨r, -, hloops⟩
  obtain ⟨c, hc⟩ := search_ends_of_acyclic hu hacyclic r t.core
  exact ((isSubtype?_eq_some_iff hu).mp hc).1 hloops

/-! ## What subtyping passes on -/

/-- Only a reference type has anything below it but itself. -/
theorem Conforms.eq_or_isReferenceType (hu : u.Reachable) (h : u.Conforms s t) :
    s = t ∨ t.isReferenceType = true := by
  have of_isClass {a : TypeRef} (ha : a.isClass = true) : a.isReferenceType = true := by
    cases a <;> simp_all [TypeRef.isReferenceType, TypeRef.isValueType, TypeRef.isClass,
      TypeRef.isStruct, TypeRef.isEnum, TypeRef.hasKind]
  have of_isInterface {i : TypeRef} (hi : i.isInterface = true) : i.isReferenceType = true := by
    cases i <;> simp_all [TypeRef.isReferenceType, TypeRef.isValueType, TypeRef.isInterface,
      TypeRef.isStruct, TypeRef.isEnum, TypeRef.hasKind]
  rw [conforms_iff_reaches hu] at h
  cases h with
  | array => exact .inr rfl
  | climb h =>
    rcases h with h | rfl | h | ⟨x, -, h⟩
    · exact .inl h
    · exact .inr rfl
    · exact .inr (of_isClass (hu.isClass_of_mem_bases h))
    · exact .inr (of_isInterface (hu.isInterface_of_names h).1)

/-- A nullable type has nothing above it but itself and the root. -/
theorem Conforms.of_nullable (hu : u.Reachable) (h : u.Conforms (.nullable s) t) :
    t = .nullable s ∨ t = .object := by
  rw [conforms_iff_reaches hu, reaches_iff_climbs (by simp)] at h
  rcases h with h | h | h | ⟨x, hx, h⟩
  · exact .inl h.symm
  · exact .inr h
  · cases h
  · obtain rfl := List.mem_singleton.mp hx
    obtain ⟨j, hj, -⟩ := transGen_names_iff.mp h
    cases hj

/-- Subtyping is kept where nullable types are opened. -/
theorem Conforms.core (hu : u.Reachable) (h : u.Conforms a b) : u.Conforms a.core b.core := by
  rcases h.eq_or_isReferenceType hu with rfl | hb
  · exact .refl _
  rw [TypeRef.core_of_isReferenceType hb]
  cases a with
  | nullable s =>
    rcases h.of_nullable hu with rfl | rfl
    · cases hb
    · exact .object _
  | _ => exact h

/-- Null is passed on to what is above. -/
theorem Conforms.acceptsNull (hu : u.Reachable) (h : u.Conforms a b)
    (ha : a.acceptsNull = true) : b.acceptsNull = true := by
  rcases h.eq_or_isReferenceType hu with rfl | hb
  · exact ha
  · rw [TypeRef.acceptsNull, hb, Bool.true_or]

/-- **What a type accepts, every type above it accepts**: null, and every value of a type below. -/
theorem Conforms.accepts (hu : u.Reachable) (h : u.Conforms a b) (hv : u.accepts a v = true) :
    u.accepts b v = true := by
  cases hr : v.runtimeType? with
  | none =>
    obtain rfl := Value.runtimeType?_eq_none.mp hr
    rw [accepts_null] at hv ⊢
    exact h.acceptsNull hu hv
  | some r =>
    rw [accepts_eq_isSubtype hr, isSubtype_iff_conforms hu] at hv ⊢
    exact hv.trans (h.core hu)

/-- **Acceptance follows subtyping as far as it has an answer**: where a value is accepted by a type
below, the answer is `true`, unless the search for it runs into a circle of interfaces.  Without
such circles it always has one. -/
theorem subsumption_iff (hu : u.Reachable) (hab : u.isSubtype? a b = some true)
    (hv : u.accepts? a v = some true) :
    (u.accepts? b v = some true ↔ ¬ u.AcceptanceLoops b v) ∧
      (u.accepts? b v = none ↔ u.AcceptanceLoops b v) ∧
      ((∀ i, ¬ TransGen u.Names i i) → u.accepts? b v = some true) := by
  have hconforms : u.Conforms a b := ((isSubtype?_eq_some_iff hu).mp hab).2.mp rfl
  have hacc : u.accepts b v = true := hconforms.accepts hu ((accepts?_eq_some_iff hu).mp hv).2
  have hiff : u.accepts? b v = some true ↔ ¬ u.AcceptanceLoops b v :=
    (accepts?_eq_some_iff hu).trans (and_iff_left hacc)
  exact ⟨hiff, accepts?_eq_none_iff hu,
    fun hacyclic => hiff.mpr (not_acceptanceLoops_of_acyclic hu hacyclic b v)⟩

/-! ### A circle below -/

/-- A class `A` that names `K`, and a class `R` below it that names `I`, which names itself. -/
def circleBelow : Universe Unit :=
  ((((((((empty.declare .interfaceType "I").defineBy
    (outline ⟨0, .interfaceType, "I"⟩ none [.declared ⟨0, .interfaceType, "I"⟩])).declare
    .interfaceType "K").defineBy (outline ⟨1, .interfaceType, "K"⟩ none [])).declare
    .classType "A").defineBy
    (outline ⟨2, .classType, "A"⟩ none [.declared ⟨1, .interfaceType, "K"⟩])).declare
    .classType "R").defineBy
      (outline ⟨3, .classType, "R"⟩ (some (.declared ⟨2, .classType, "A"⟩))
        [.declared ⟨0, .interfaceType, "I"⟩]))

theorem reachable_circleBelow : circleBelow.Reachable :=
  .defineBy (.declare _ _ (.defineBy (.declare _ _ (.defineBy (.declare _ _ (.defineBy
    (.declare _ _ .empty) (by decide) rfl (by decide) rfl)) (by decide) rfl (by decide) rfl))
    (by decide) rfl (by decide) rfl)) (by decide) rfl (by decide) rfl

/-- An instance of `A` is a `K`, and the search says so. -/
theorem subsumption_iff_circleBelow :
    ¬ circleBelow.AcceptanceLoops (.declared ⟨1, .interfaceType, "K"⟩)
      (.object ⟨.declared ⟨2, .classType, "A"⟩, 0⟩) :=
  (subsumption_iff (a := .declared ⟨2, .classType, "A"⟩) reachable_circleBelow (by decide)
    (by decide)).1.mp (by decide)

/-- **Not everything that is accepted below is accepted above**: an instance of `R` is an `A`, and
every `A` is a `K`, but whether the instance is a `K` has no answer at any depth. -/
theorem not_every_value_subsumed :
    circleBelow.Reachable ∧
      circleBelow.isSubtype? (.declared ⟨2, .classType, "A"⟩) (.declared ⟨1, .interfaceType, "K"⟩) =
        some true ∧
      circleBelow.accepts? (.declared ⟨2, .classType, "A"⟩)
        (.object ⟨.declared ⟨3, .classType, "R"⟩, 0⟩) = some true ∧
      circleBelow.accepts? (.declared ⟨1, .interfaceType, "K"⟩)
        (.object ⟨.declared ⟨3, .classType, "R"⟩, 0⟩) = none ∧
      ∀ n, circleBelow.searchSubtype n (.declared ⟨3, .classType, "R"⟩)
        (.declared ⟨1, .interfaceType, "K"⟩) = none :=
  ⟨reachable_circleBelow, by decide, by decide, by decide,
    searchSubtype_eq_none_of_loops reachable_circleBelow
      (loops_of_isSubtype?_eq_none reachable_circleBelow (by decide))⟩

end Universe
end Reflection
