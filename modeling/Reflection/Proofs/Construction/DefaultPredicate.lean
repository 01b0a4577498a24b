import Reflection.Proofs.Construction.Parameterless
import Reflection.Proofs.Universe.DefaultEnds

/-!
# Proofs/Construction/DefaultPredicate — what the predicate for parameterless construction promises

    hasDefault = true     ──▸  an instance, or the failure of a body of a constructor …
                               … if making the instance comes to an end
    hasDefault = false    ──▸  refused, and no body runs:

        an open generic definition, or the type of types     ──▸  notConstructible
        no constructor without parameters, several with
        nothing but a tail, and the type has instances       ──▸  ambiguousMatch
        anything else                                        ──▸  noDefaultConstructor

The predicate goes by the choice alone (`resolveDefault_cases`).  What is chosen is looked at once
more when it is run and is not refused then; but a type may hold a structure that contains itself,
and making an instance of it goes on for ever.
-/

namespace Reflection

variable {β : Type} {u : Universe β} {w : World β} {t : TypeRef} {c : Constructor β}
  {r : Resolver β} {run : Evaluator β}

/-! ## Types that are never constructed -/

theorem Universe.checkConstructible_eq_ok_iff :
    u.checkConstructible t = .ok () ↔ (u.flags t).isGeneric = false ∧ t.isMetadata = false := by
  rw [checkConstructible, ← Bool.or_eq_false_iff]
  cases (u.flags t).isGeneric || t.isMetadata <;> simp

theorem Universe.checkConstructible_eq_error {e : EngineError}
    (h : u.checkConstructible t = .error e) : e = .notConstructible t.name := by
  unfold checkConstructible at h
  split_ifs at h
  exact (Except.error.inj h).symm

/-- Classes and structures are no interfaces. -/
theorem TypeRef.isInterface_eq_false (h : t.isClass = true ∨ t.isStruct = true) :
    t.isInterface = false := by
  cases t with
  | declared d =>
    rcases h with h | h <;> simp [isInterface, hasKind, of_decide_eq_true h]
  | _ => rfl

/-- Instances of classes are references. -/
theorem TypeRef.isClass_eq_false_of_isValueType (h : t.isValueType = true) :
    t.isClass = false := by
  cases t with
  | declared d =>
    rcases Bool.or_eq_true_iff.mp h with h | h <;> simp [isClass, hasKind, of_decide_eq_true h]
  | object | attributeRoot => cases h
  | _ => rfl

namespace Resolver

/-! ## The choice without arguments -/

/-- **Whether parameterless construction is torn** between constructors: the type may have
instances, which are references, none of its constructors is without parameters, and several have
nothing but a variadic tail. -/
structure Torn (r : Resolver β) (u : Universe β) (t : TypeRef) : Prop where
  isAbstract : (u.flags t).isAbstract = false
  isStatic : (u.flags t).isStatic = false
  isReferenceType : t.isReferenceType = true
  noneWithout : ∀ c, r.Sees u t c → c.arity ≠ 0
  several : ∃ c d, c ≠ d ∧ (r.Sees u t c ∧ c.arity = 1 ∧ c.isVariadic = true) ∧
    r.Sees u t d ∧ d.arity = 1 ∧ d.isVariadic = true

theorem exactCandidates_nil_eq_nil_iff (hr : r.provider.ListsConstructors) :
    r.exactCandidates u t [] = [] ↔ ∀ c, r.Sees u t c → c.arity ≠ 0 := by
  rw [exactCandidates_nil, List.filter_eq_nil_iff]
  simp only [mem_candidates hr, decide_eq_true_eq, ne_eq]

theorem mem_variadicCandidates_nil (hr : r.provider.ListsConstructors) :
    c ∈ r.variadicCandidates u t [] ↔ r.Sees u t c ∧ c.arity = 1 ∧ c.isVariadic = true := by
  rw [variadicCandidates_nil, List.mem_filter, mem_candidates hr, Bool.and_eq_true,
    decide_eq_true_eq]

/-- A list without repetitions has two entries if it has two different ones. -/
theorem two_le_length_iff {α : Type} {l : List α} (h : l.Nodup) :
    2 ≤ l.length ↔ ∃ a b, a ≠ b ∧ a ∈ l ∧ b ∈ l := by
  match l with
  | [] => simp
  | [a] => simp
  | a :: b :: l =>
    refine iff_of_true (by simp) ⟨a, b, ?_, by simp, by simp⟩
    rintro rfl
    simp at h

/-- Being torn, in terms of what binds no arguments. -/
theorem torn_iff (hu : u.Reachable) (hk : u.Knows t) (hr : r.provider.ListsConstructors) :
    r.Torn u t ↔ u.isUninstantiable t = false ∧ t.isValueType = false ∧
      r.exactCandidates u t [] = [] ∧ 2 ≤ (r.variadicCandidates u t []).length := by
  rw [exactCandidates_nil_eq_nil_iff hr,
    two_le_length_iff (hu.nodup_variadicCandidates hk hr), Universe.isUninstantiable,
    Bool.or_eq_false_iff, Bool.or_eq_false_iff]
  simp only [mem_variadicCandidates_nil hr]
  constructor
  · intro h
    have hinterface : t.isInterface = false := by
      obtain ⟨c, -, -, hc, -⟩ := h.several
      exact TypeRef.isInterface_eq_false
        (hu.isClass_or_isStruct_of_mem_constructors hk hc.1.declared)
    have hv : t.isValueType = false := by simpa [TypeRef.isReferenceType] using h.isReferenceType
    exact ⟨⟨⟨h.isAbstract, hinterface⟩, h.isStatic⟩, hv, h.noneWithout, h.several⟩
  · rintro ⟨⟨⟨habstract, -⟩, hstatic⟩, hv, hnone, hseveral⟩
    exact ⟨habstract, hstatic, by simp [TypeRef.isReferenceType, hv], hnone, hseveral⟩

theorem hasDefault_of_eq_ok {chosen? : Option (Constructor β)}
    (h : r.resolveDefault u t = .ok chosen?) : r.hasDefault u t = true := by
  rw [hasDefault, h]
  rfl

theorem hasDefault_of_eq_error {e : EngineError} (h : r.resolveDefault u t = .error e) :
    r.hasDefault u t = false := by
  rw [hasDefault, h]
  rfl

/-- **What the choice without arguments comes to.** -/
theorem resolveDefault_cases (hu : u.Reachable) (hk : u.Knows t)
    (hr : r.provider.ListsConstructors) :
    (u.checkConstructible t ≠ .ok () ∧
      r.resolveDefault u t = .error (.notConstructible t.name)) ∨
    (u.checkConstructible t = .ok () ∧ r.Torn u t ∧
      ∃ n, r.resolveDefault u t = .error (.ambiguousMatch t.name n)) ∨
    (u.checkConstructible t = .ok () ∧ ¬ r.Torn u t ∧
      r.resolveDefault u t = .error (.noDefaultConstructor t.name)) ∨
    (u.Instantiates t ∧ t.isValueType = true ∧ r.resolveDefault u t = .ok none) ∨
    (u.Instantiates t ∧ ∃ c, r.resolveDefault u t = .ok (some c) ∧ r.Applies u t [] c) := by
  rw [torn_iff hu hk hr]
  cases hc : u.checkConstructible t with
  | error e =>
    refine .inl ⟨nofun, ?_⟩
    rw [resolveDefault, hc, Universe.checkConstructible_eq_error hc]
    rfl
  | ok _ =>
    cases hi : u.isUninstantiable t with
    | true =>
      refine .inr (.inr (.inl ⟨rfl, by simp, ?_⟩))
      rw [resolveDefault, hc, hi]
      rfl
    | false =>
      cases hv : t.isValueType with
      | true =>
        refine .inr (.inr (.inr (.inl ⟨⟨hc, hi⟩, rfl, ?_⟩)))
        rw [resolveDefault, hc, hi, hv]
        rfl
      | false =>
        rw [resolveDefault_eq hc hi hv]
        have hexact {c : Constructor β} (h : c ∈ r.exactCandidates u t []) :
            r.Applies u t [] c := ((mem_exactCandidates hr).mp h).1
        have hvariadic {c : Constructor β} (h : c ∈ r.variadicCandidates u t []) :
            r.Applies u t [] c := ((mem_variadicCandidates hr).mp h).1
        rcases hes : r.exactCandidates u t [] with _ | ⟨c, cs⟩
        · rcases hvs : r.variadicCandidates u t [] with _ | ⟨d, _ | ⟨e, ds⟩⟩
          · exact .inr (.inr (.inl ⟨rfl, by simp, rfl⟩))
          · refine .inr (.inr (.inr (.inr ⟨⟨hc, hi⟩, d, rfl, ?_⟩)))
            exact hvariadic (hvs ▸ List.mem_cons_self)
          · exact .inr (.inl ⟨rfl, by simp, _, rfl⟩)
        · refine .inr (.inr (.inr (.inr ⟨⟨hc, hi⟩, c, rfl, ?_⟩)))
          exact hexact (hes ▸ List.mem_cons_self)

/-! ## The predicate and the construction -/

/-- **Why parameterless construction is refused**, told from the type and its constructors. -/
inductive RefusedWith (r : Resolver β) (u : Universe β) (t : TypeRef) : EngineError → Prop
  /-- Open generic definitions and the type of types are never constructed. -/
  | notConstructible (h : (u.flags t).isGeneric = true ∨ t.isMetadata = true) :
      RefusedWith r u t (.notConstructible t.name)
  | ambiguous (h : (u.flags t).isGeneric = false ∧ t.isMetadata = false) (torn : r.Torn u t)
      (n : ℕ) : RefusedWith r u t (.ambiguousMatch t.name n)
  | noDefault (h : (u.flags t).isGeneric = false ∧ t.isMetadata = false) (torn : ¬ r.Torn u t) :
      RefusedWith r u t (.noDefaultConstructor t.name)

theorem RefusedWith.not_raised {e : EngineError} (h : r.RefusedWith u t e) :
    ¬ MadeOrRaised t (.error e) := by
  intro hraised
  obtain ⟨cause, he⟩ := hraised e rfl
  cases h <;> cases he

/-- **Whether the predicate for parameterless construction is exact**: where it holds, construction
comes back with an instance or the failure of a body, and only there; where it does not hold,
construction is refused for one reason, whatever the world and the code, and activates nothing. -/
structure DefaultExact (r : Resolver β) (u : Universe β) (t : TypeRef) : Prop where
  exact : ∀ (run : Evaluator β) (w : World β), w.types = u → (r.hasDefault u t = true ↔
    ∃ x, r.construct? run t w = some x ∧ MadeOrRaised t x.1)
  refuses : r.hasDefault u t = false → ∃ e, r.RefusedWith u t e ∧
    ∀ w : World β, w.types = u → (Request.construct r t).activation? w = none ∧
      ∀ run, r.construct? run t w = some (.error e, w)

/-- **A false answer is a refusal**, for the reason that the choice gives. -/
theorem refuses_of_hasDefault_eq_false (hu : u.Reachable) (hk : u.Knows t)
    (hr : r.provider.ListsConstructors) (h : r.hasDefault u t = false) :
    ∃ e, r.RefusedWith u t e ∧ ∀ w : World β, w.types = u →
      (Request.construct r t).activation? w = none ∧
      ∀ run, r.construct? run t w = some (.error e, w) := by
  have hrefused {e : EngineError} (he : r.resolveDefault u t = .error e) (w : World β)
      (hw : w.types = u) : (Request.construct r t).activation? w = none ∧
        ∀ run, r.construct? run t w = some (.error e, w) := by
    subst hw
    refine ⟨?_, fun run => by rw [construct?, he]⟩
    rw [Request.activation?, Request.call?, chooseDefault, he]
    rfl
  rcases resolveDefault_cases hu hk hr with
    ⟨hc, he⟩ | ⟨hc, htorn, n, he⟩ | ⟨hc, htorn, he⟩ | ⟨-, -, he⟩ | ⟨-, c, he, -⟩
  · refine ⟨_, .notConstructible ?_, hrefused he⟩
    by_contra hnone
    exact hc (Universe.checkConstructible_eq_ok_iff.mpr (by simpa using hnone))
  · exact ⟨_, .ambiguous (Universe.checkConstructible_eq_ok_iff.mp hc) htorn n, hrefused he⟩
  · exact ⟨_, .noDefault (Universe.checkConstructible_eq_ok_iff.mp hc) htorn, hrefused he⟩
  · simp [hasDefault_of_eq_ok he] at h
  · simp [hasDefault_of_eq_ok he] at h

/-- **A true answer leads to an instance**, or to the failure of a body, unless making the instance
goes on for ever. -/
theorem construct?_of_hasDefault (run : Evaluator β) (hw : w.types.Reachable) (hk : w.types.Knows t)
    (hr : r.provider.ListsConstructors) (h : r.hasDefault w.types t = true) :
    (r.construct? run t w = none ↔
      (t.isClass = true ∨ t.isStruct = true) ∧ CycleAhead w.types.Holds t) ∧
    ∀ x, r.construct? run t w = some x → MadeOrRaised t x.1 := by
  rcases resolveDefault_cases hw hk hr with
    ⟨-, he⟩ | ⟨-, -, n, he⟩ | ⟨-, -, he⟩ | ⟨-, hv, hchosen⟩ | ⟨hi, c, hchosen, hc⟩
  · simp [hasDefault_of_eq_error he] at h
  · simp [hasDefault_of_eq_error he] at h
  · simp [hasDefault_of_eq_error he] at h
  · rw [construct?, hchosen]
    have hclass := TypeRef.isClass_eq_false_of_isValueType hv
    refine ⟨?_, fun x hx e he => ?_⟩
    · rw [Option.map_eq_none_iff, Universe.default?_eq_none_iff hw hk, hclass]
      simp
    · obtain ⟨v, -, rfl⟩ := Option.map_eq_some_iff.mp hx
      cases he
  · rw [construct?, hchosen]
    exact hw.create?_of_applies hk hi run hc Binding.not_stuck_nil

/-- **Where the predicate is exact**: for every type but those that may be made without arguments
and then, for a structure that contains itself, never are. -/
theorem defaultExact_iff (hu : u.Reachable) (hk : u.Knows t) (hr : r.provider.ListsConstructors) :
    r.DefaultExact u t ↔ ¬ (r.hasDefault u t = true ∧
      (t.isClass = true ∨ t.isStruct = true) ∧ CycleAhead u.Holds t) := by
  constructor
  · rintro h ⟨hhas, hcycle⟩
    obtain ⟨x, hx, -⟩ := (h.exact .idle { World.empty with types := u } rfl).mp hhas
    have hnone := (construct?_of_hasDefault .idle
      (w := { World.empty with types := u }) hu hk hr hhas).1.mpr hcycle
    simp [hnone] at hx
  · intro hends
    refine ⟨fun run w hw => ?_, refuses_of_hasDefault_eq_false hu hk hr⟩
    subst hw
    cases hhas : r.hasDefault w.types t with
    | true =>
      obtain ⟨hnone, hmade⟩ := construct?_of_hasDefault run hu hk hr hhas
      obtain ⟨x, hx⟩ := Option.ne_none_iff_exists'.mp fun h => hends ⟨hhas, hnone.mp h⟩
      exact iff_of_true rfl ⟨x, hx, hmade x hx⟩
    | false =>
      obtain ⟨e, he, hrefused⟩ := refuses_of_hasDefault_eq_false hu hk hr hhas
      refine iff_of_false nofun ?_
      rintro ⟨x, hx, hmade⟩
      rw [(hrefused w rfl).2 run] at hx
      obtain rfl := Option.some.inj hx
      exact he.not_raised hmade

end Resolver

/-! ### Two tails, and a structure inside itself -/

/-- Two constructors that take any number of numbers, or of texts. -/
def twoTails : List (ConstructorSpec ℕ) :=
  [{ parameters := [{ name := "xs", type := .array (.primitive .i32), variadic := true }]
     body := 1 },
    { parameters := [{ name := "xs", type := .array (.primitive .string), variadic := true }]
      body := 2 }]

/-- A class that is torn between two tails has no default, says the predicate, exactly. -/
theorem defaultExact_iff_twoTails :
    Resolver.standard.hasDefault (Universe.oneClass twoTails) Universe.declaredClass = false ∧
    Resolver.standard.DefaultExact (Universe.oneClass twoTails) Universe.declaredClass := by
  obtain ⟨hu, -⟩ := Universe.reordering_oneClass twoTails (by decide) (by decide)
  have hnone : Resolver.standard.hasDefault (Universe.oneClass twoTails)
    Universe.declaredClass = false := rfl
  refine ⟨hnone, (Resolver.defaultExact_iff hu (by decide)
    Provider.listsConstructors_reflector).mpr ?_⟩
  simp [hnone]

/-- **The predicate is not exact everywhere**: of a structure that contains itself an instance can
be made without arguments, it says, and making one goes on for ever. -/
theorem not_every_default_exact :
    World.selfContaining.types.Reachable ∧
    World.selfContaining.types.Knows (.declared ⟨0, .structType, "S"⟩) ∧
    Resolver.standard.hasDefault World.selfContaining.types (.declared ⟨0, .structType, "S"⟩) =
      true ∧
    (∀ run, Resolver.standard.construct? run (.declared ⟨0, .structType, "S"⟩)
      World.selfContaining = none) ∧
    ¬ Resolver.standard.DefaultExact World.selfContaining.types
      (.declared ⟨0, .structType, "S"⟩) := by
  refine ⟨World.reachable_selfContaining, ⟨_, rfl, rfl, rfl⟩, rfl, fun run => rfl, fun h => ?_⟩
  obtain ⟨x, hx, -⟩ := (h.exact .idle World.selfContaining rfl).mp rfl
  cases hx

end Reflection
