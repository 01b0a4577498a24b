import Reflection.Proofs.Construction.Resolution

/-!
# Proofs/Construction/Assignable — the constructor whose parameters go for all others

    Conforms    ⊆   Assignable          a type also goes for the nullable types around it
        │               │
    Narrower    ⊆   AssignableTo        one constructor against another
        │               │
    CalledFor       Favoured            one constructor against all that apply

Arguments are accepted with a nullable type opened, while constructors are compared by subtyping
alone, under which nothing but itself is below a nullable type.  So a constructor that is favoured
may not be the one called for: exactly if some parameter goes for another one only because the
latter is nullable, wherever choosing comes to an end (`Reachable.resolve_favoured_iff`).
-/

namespace Reflection

variable {β : Type} {u : Universe β} {t : TypeRef} {c d : Constructor β} {args : List Value}
  {r : Resolver β}

/-! ## Assignable types -/

/-- **Whether a type goes for another one**: it is a subtype, or the other one is a nullable type
around one that it goes for. -/
inductive Universe.Assignable (u : Universe β) (s : TypeRef) : TypeRef → Prop
  | subtype {t : TypeRef} (h : u.Conforms s t) : Assignable u s t
  | nullable {t : TypeRef} (h : Assignable u s t) : Assignable u s (.nullable t)

/-- For what is not nullable, only subtypes go. -/
theorem Universe.Assignable.conforms {s : TypeRef} (h : u.Assignable s t)
    (ht : t.isNullable = false) : u.Conforms s t := by
  cases h with
  | subtype h => exact h
  | nullable h => cases ht

namespace Resolver

/-! ## Comparing constructors -/

/-- Whether every parameter of a constructor goes for the matching one of another. -/
def AssignableTo (u : Universe β) (c d : Constructor β) : Prop :=
  List.Forall₂ (fun p q : Parameter => u.Assignable p.type q.type) c.parameters d.parameters

/-- Whether some parameter meets a nullable one without being a subtype of it. -/
def Overlooks (u : Universe β) (c d : Constructor β) : Prop :=
  ∃ p ∈ c.parameters.zip d.parameters,
    p.2.type.isNullable = true ∧ ¬ u.Conforms p.1.type p.2.type

theorem Narrower.assignableTo (h : Narrower u c d) : AssignableTo u c d :=
  h.imp fun _ _ => .subtype

/-- **Subtyping falls short of assignability at nullable types only.** -/
theorem AssignableTo.narrower_iff (h : AssignableTo u c d) :
    Narrower u c d ↔ ¬ Overlooks u c d := by
  obtain ⟨hlen, hall⟩ := List.forall₂_iff_zip.mp h
  rw [Narrower, List.forall₂_iff_zip]
  constructor
  · rintro ⟨-, hsub⟩ ⟨p, hp, -, hnot⟩
    exact hnot (hsub hp)
  · intro hnone
    refine ⟨hlen, fun {p q} hpq => ?_⟩
    cases hq : q.type.isNullable with
    | false => exact (hall hpq).conforms hq
    | true =>
      by_contra hsub
      exact hnone ⟨(p, q), hpq, hq, hsub⟩

/-- **A favoured constructor**: it applies without a tail, and its parameters go for those of every
other one that does. -/
structure Favoured (r : Resolver β) (u : Universe β) (t : TypeRef) (args : List Value)
    (c : Constructor β) : Prop where
  applies : r.Applies u t args c
  exact : c.isVariadic = false
  assignable : ∀ d, r.Applies u t args d → d.isVariadic = false → d ≠ c → AssignableTo u c d

/-- Where anything applies without a tail, what is called for is favoured. -/
theorem CalledFor.favoured (h : r.CalledFor u t args c)
    (hexact : ∃ d, r.Applies u t args d ∧ d.isVariadic = false) : r.Favoured u t args c where
  applies := h.applies
  exact := (h.exact hexact).1
  assignable d hd hdv hne := ((h.exact hexact).2 d hd hdv hne).assignableTo

/-- A favoured constructor is called for if it overlooks none of the others. -/
theorem Favoured.calledFor_iff (h : r.Favoured u t args c) :
    r.CalledFor u t args c ↔
      ∀ d, r.Applies u t args d → d.isVariadic = false → d ≠ c → ¬ Overlooks u c d := by
  refine ⟨fun hcalled d hd hdv hne => ?_, fun hnone => ⟨h.applies, fun _ => ⟨h.exact, ?_⟩, ?_⟩⟩
  · exact (h.assignable d hd hdv hne).narrower_iff.mp
      ((hcalled.exact ⟨c, h.applies, h.exact⟩).2 d hd hdv hne)
  · exact fun d hd hdv hne => (h.assignable d hd hdv hne).narrower_iff.mpr (hnone d hd hdv hne)
  · exact fun hall => absurd (h.exact.symm.trans (hall c h.applies)) Bool.false_ne_true

end Resolver

namespace Universe

/-- **When the only favoured constructor is picked.**  Of a type that may have instances it is
picked exactly if choosing comes to an end and it overlooks no other one that applies without a
tail; if it overlooks one, the match is ambiguous instead. -/
theorem Reachable.resolve_favoured_iff (hu : u.Reachable) (hk : u.Knows t)
    (hi : u.Instantiates t) (hr : r.provider.ListsConstructors)
    (hc : ∀ d, r.Favoured u t args d ↔ d = c) :
    (r.resolve? u t args = some (.ok c) ↔ ¬ r.Endless u t args ∧
      ∀ d, r.Applies u t args d → d.isVariadic = false → d ≠ c → ¬ Resolver.Overlooks u c d) ∧
    ((∃ n, r.resolve? u t args = some (.error (.ambiguousMatch t.name n))) ↔
      ¬ r.Endless u t args ∧
        ∃ d, r.Applies u t args d ∧ d.isVariadic = false ∧ d ≠ c ∧ Resolver.Overlooks u c d) ∧
    (r.resolve? u t args = none ↔ r.Endless u t args) := by
  have hfavoured : r.Favoured u t args c := (hc c).mpr rfl
  have hexact : ∃ d, r.Applies u t args d ∧ d.isVariadic = false :=
    ⟨c, hfavoured.applies, hfavoured.exact⟩
  have honly (d : Constructor β) (hd : r.CalledFor u t args d) : d = c :=
    (hc d).mp (hd.favoured hexact)
  have hoverlooks : (∃ d, r.Applies u t args d ∧ d.isVariadic = false ∧ d ≠ c ∧
      Resolver.Overlooks u c d) ↔ ¬ r.CalledFor u t args c := by
    rw [hfavoured.calledFor_iff]
    push Not
    rfl
  rw [← hfavoured.calledFor_iff, hoverlooks]
  rcases hu.resolve?_cases hk hi hr args with
    ⟨h, hendless⟩ | ⟨hends, ⟨d, h, hd⟩ | ⟨-, hnone⟩ | ⟨⟨n, h⟩, -, hnot⟩⟩
  · simp [h, hendless]
  · obtain rfl := honly d hd
    simp [h, hends, hd]
  · exact absurd ⟨c, hfavoured.applies⟩ hnone
  · have hnot : ¬ r.CalledFor u t args c := fun hd => hnot ⟨c, hd⟩
    simp [h, hends, hnot]

/-! ### A number, and what else it goes for -/

/-- A constructor from a number, and one from another type. -/
def numberOr (t : TypeRef) : List (ConstructorSpec ℕ) :=
  [{ parameters := [{ name := "x", type := .primitive .i32 }], body := 1 },
    { parameters := [{ name := "x", type := t }], body := 2 }]

/-- The constructor of the class that stands at a place and takes one argument of a type. -/
def takes (index : ℕ) (t : TypeRef) : Constructor ℕ where
  id := ⟨declaredClass, .constructor, index⟩
  parameters := [⟨"x", t, .plain⟩]
  visibility := .everyone
  attributes := []
  body? := some (index + 1)

/-- If numbers go for the other type and not the other way round, the constructor from numbers is
the only favoured one. -/
theorem favoured_numberOr {u : Universe ℕ} {t : TypeRef}
    (hcs : u.constructors declaredClass = [takes 0 (.primitive .i32), takes 1 t])
    (hgoes : u.Assignable (.primitive .i32) t) (hback : ¬ u.Assignable t (.primitive .i32))
    (d : Constructor ℕ) :
    Resolver.standard.Favoured u declaredClass [.i32 1] d ↔ d = takes 0 (.primitive .i32) := by
  have happlies : Resolver.standard.Applies u declaredClass [.i32 1] (takes 0 (.primitive .i32)) :=
    ⟨⟨by simp [hcs], .inr rfl⟩, Binding.binds_iff_fits.mp rfl⟩
  have hpair {d : Constructor ℕ} (hd : Resolver.standard.Applies u declaredClass [.i32 1] d) :
      d = takes 0 (.primitive .i32) ∨ d = takes 1 t := by
    simpa [hcs] using hd.declared
  constructor
  · intro hd
    refine (hpair hd.applies).resolve_right ?_
    rintro rfl
    have hgoesBack := hd.assignable _ happlies rfl (by simp [takes])
    exact hback (List.forall₂_cons.mp hgoesBack).1
  · rintro rfl
    refine ⟨happlies, rfl, fun e he _ hne => ?_⟩
    obtain rfl := (hpair he).resolve_left hne
    exact .cons hgoes .nil

/-- A number goes to the constructor from numbers, though the one from anything applies too. -/
theorem resolve_favoured_iff_numberOr_object :
    Resolver.standard.resolve? (oneClass (numberOr .object)) declaredClass [.i32 1] =
      some (.ok (takes 0 (.primitive .i32))) := by
  obtain ⟨hu, -⟩ := reordering_oneClass (numberOr .object) (by decide) (by decide)
  have hcs : (oneClass (numberOr .object)).constructors declaredClass =
      [takes 0 (.primitive .i32), takes 1 .object] := rfl
  have hfavoured := favoured_numberOr hcs (.subtype (.object _)) (by
    rintro (h | _)
    rw [← isSubtype_iff_conforms hu] at h
    revert h
    decide)
  obtain ⟨picked_iff, -, endless_iff⟩ := hu.resolve_favoured_iff (t := declaredClass) (by decide)
    ⟨rfl, rfl⟩ Provider.listsConstructors_reflector hfavoured
  refine picked_iff.mpr ⟨fun h => (nomatch endless_iff.mpr h), fun d hd _ hne => ?_⟩
  obtain rfl : d = takes 1 .object := by simpa [hcs, hne] using hd.declared
  rintro ⟨p, hp, hnullable, -⟩
  obtain rfl := List.mem_singleton.mp hp
  cases hnullable

/-- **Not every favoured constructor is picked**: a number is ambiguous between numbers, and numbers
or null. -/
theorem not_every_favoured_resolves :
    (oneClass (numberOr (.nullable (.primitive .i32)))).Reachable ∧
    (oneClass (numberOr (.nullable (.primitive .i32)))).Knows declaredClass ∧
    (oneClass (numberOr (.nullable (.primitive .i32)))).Instantiates declaredClass ∧
    (∀ d, Resolver.standard.Favoured (oneClass (numberOr (.nullable (.primitive .i32))))
      declaredClass [.i32 1] d ↔ d = takes 0 (.primitive .i32)) ∧
    Resolver.standard.resolve? (oneClass (numberOr (.nullable (.primitive .i32)))) declaredClass
      [.i32 1] = some (.error (.ambiguousMatch "A" 2)) := by
  obtain ⟨hu, -⟩ := reordering_oneClass (numberOr (.nullable (.primitive .i32)))
    (by decide) (by decide)
  refine ⟨hu, by decide, ⟨rfl, rfl⟩,
    favoured_numberOr rfl (.nullable (.subtype (.refl _))) ?_, rfl⟩
  rintro (h | _)
  rw [← isSubtype_iff_conforms hu] at h
  revert h
  decide

end Universe

end Reflection
