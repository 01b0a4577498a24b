import Reflection.Proofs.Call.StaticTarget
import Reflection.Proofs.Construction.Selection

/-!
# Proofs/Construction/Resolution — the constructor that arguments call for

    Applies              accessible constructors of the type that the arguments fit
      ├─ some are exact    ──▸  one that is narrower than every other exact one
      └─ all have tails    ──▸  the one with more fixed parameters than every other
    CalledFor            ──resolve?──▸  picked, unless choosing is Endless
                         ──create?───▸  not refused, unless making an instance never ends

What is picked and what is not is told without lists, orders, counts and searches: by the
constructors that a type declares, what fits them and what they are to each other.  The arguments
are bound once more when the picked constructor is run, in the same way, so that nothing can fail
any more but its body.
-/

namespace Reflection

variable {β : Type} {u : Universe β} {w : World β} {t : TypeRef} {c d : Constructor β}
  {cs : List (Constructor β)} {args : List Value} {r : Resolver β}

/-! ## Running what was picked -/

/-- Whether arguments bind does not depend on the member: its name is for the error. -/
theorem Binding.exists_plan?_of_binds? {ps : List Parameter} (h : binds? u ps args = some true)
    (member : String) : ∃ pl, (plan? u member ps args).run = some (.ok pl) := by
  obtain ⟨x, hx, hok⟩ := Option.map_eq_some_iff.mp h
  by_cases hcount : Counts ps args.length
  · cases x with
    | error e => cases hok
    | ok pl =>
      refine ⟨pl, ?_⟩
      rw [plan?_of_counts hcount] at hx ⊢
      exact hx
  · rw [plan?_of_not_counts hcount] at hx
    obtain rfl := Option.some.inj hx
    cases hok

/-- Whether an outcome is an instance of a type, or the failure of a body of its constructors. -/
def Resolver.MadeOrRaised (t : TypeRef) (x : Except EngineError Value) : Prop :=
  ∀ e, x = .error e → ∃ cause, e = .constructionRaised t.name cause

/-- What is not refused fails with its body only. -/
theorem Constructor.madeOrRaised_of_prepare {run : Evaluator β} {plan : Plan}
    (hplan : c.prepare w.types args = .ok plan) :
    Resolver.MadeOrRaised c.declaring (c.create run args w).1 := by
  intro e he
  simp only [create, construct, hplan] at he
  revert he
  cases (activateConstructor run c _ _ _).result with
  | error cause =>
    rintro ⟨⟩
    exact ⟨cause, rfl⟩
  | ok v => rintro ⟨⟩

/-- **A constructor that binds the arguments is not refused**, if its type has instances: it fails
to come back only if making the instance does, and it fails with its body only. -/
theorem Constructor.create?_of_binds? (run : Evaluator β) (hw : w.types.Reachable)
    (hi : w.types.Instantiates c.declaring)
    (h : Binding.binds? w.types c.parameters args = some true) :
    (c.create? run args w = none ↔ w.instantiate? c.declaring = none) ∧
      ∀ x, c.create? run args w = some x → Resolver.MadeOrRaised c.declaring x.1 := by
  obtain ⟨plan, hplan⟩ :=
    Binding.exists_plan?_of_binds? h (Blueprint.constructorName c.declaring.name)
  have hprepare : c.prepare w.types args = .ok plan := by
    rw [prepare, hi.constructible, hi.instantiable]
    exact Binding.answers_plan hw _ _ _ _ hplan
  have hbinding : c.bindingHalts w.types args = true := by
    simp [bindingHalts, hi.constructible, hplan]
  have hcreate : c.create? run args w =
      if (w.instantiate? c.declaring).isSome then some (c.create run args w) else none := by
    rw [create?, hbinding, halts, hprepare]
    rfl
  rw [hcreate]
  refine ⟨by cases w.instantiate? c.declaring <;> simp, fun x hx => ?_⟩
  split_ifs at hx
  obtain rfl := Option.some.inj hx
  exact madeOrRaised_of_prepare hprepare

theorem Constructor.create_of_create? {run : Evaluator β} {x : Except EngineError Value × World β}
    (h : c.create? run args w = some x) : c.create run args w = x := by
  rw [create?] at h
  split_ifs at h
  exact Option.some.inj h

theorem World.default_of_default? {x : Except EngineError Value × World β}
    (h : (w.types.default? t).map (fun v => (.ok v, w)) = some x) :
    (.ok (w.types.default t), w) = x := by
  obtain ⟨v, hv, rfl⟩ := Option.map_eq_some_iff.mp h
  rw [Universe.default, hv]

namespace Resolver

variable {run : Evaluator β} {x : Except EngineError Value × World β}

theorem construct_of_construct? (h : r.construct? run t w = some x) :
    r.construct run t w = x := by
  unfold construct? at h
  unfold construct
  split at h
  · exact Option.some.inj h
  · exact World.default_of_default? h
  · exact Constructor.create_of_create? h

theorem constructWith_of_constructWith? (hw : w.types.Reachable) {args? : Option (List Value)}
    (h : r.constructWith? run t args? w = some x) : r.constructWith run t args? w = x := by
  unfold constructWith? at h
  unfold constructWith
  split at h
  · exact Option.some.inj h
  · split_ifs at h with hnone
    · rw [if_pos hnone]
      split at h
      · exact Option.some.inj h
      · exact World.default_of_default? h
    · obtain ⟨chosen, hchosen, h⟩ := Option.bind_eq_some_iff.mp h
      rw [if_neg hnone, hw.resolve_of_resolve? hchosen]
      cases chosen with
      | error e => exact Option.some.inj h
      | ok c => exact Constructor.create_of_create? h

theorem copy_of_copy? (hw : w.types.Reachable) {v : Value} (h : r.copy? run t v w = some x) :
    r.copy run t v w = x := by
  rw [copy?] at h
  rw [copy]
  by_cases hnull : v.isNull = true
  · rw [if_pos hnull] at h ⊢
    exact Option.some.inj h
  · rw [if_neg hnull] at h ⊢
    obtain ⟨b, hb, h⟩ := Option.bind_eq_some_iff.mp h
    rw [((Universe.accepts?_eq_some_iff hw).mp hb).2]
    split_ifs at h ⊢
    · exact Option.some.inj h
    · exact Option.some.inj h
    · split at h
      · exact Option.some.inj h
      · exact Constructor.create_of_create? h

/-- **Where construction comes to an end, the bounded questions make the same**: without arguments,
from arguments, and as a copy. -/
theorem construction_of_ends (r : Resolver β) (run : Evaluator β) (hw : w.types.Reachable)
    (t : TypeRef) :
    (∀ x, r.construct? run t w = some x → r.construct run t w = x) ∧
    (∀ args? x, r.constructWith? run t args? w = some x → r.constructWith run t args? w = x) ∧
    ∀ v x, r.copy? run t v w = some x → r.copy run t v w = x :=
  ⟨fun _ => construct_of_construct?, fun _ _ => constructWith_of_constructWith? hw,
    fun _ _ => copy_of_copy? hw⟩

/-! ## What applies and what is called for -/

/-- **Whether arguments call for a constructor**: it applies; if anything without a tail applies, it
has none and is narrower than every other one without; if not, it has more fixed parameters than
every other one. -/
structure CalledFor (r : Resolver β) (u : Universe β) (t : TypeRef) (args : List Value)
    (c : Constructor β) : Prop where
  applies : r.Applies u t args c
  exact : (∃ d, r.Applies u t args d ∧ d.isVariadic = false) → c.isVariadic = false ∧
    ∀ d, r.Applies u t args d → d.isVariadic = false → d ≠ c → Narrower u c d
  widest : (∀ d, r.Applies u t args d → d.isVariadic = true) →
    ∀ d, r.Applies u t args d → d ≠ c → d.fixedArity < c.fixedArity

/-! ## The only widest one -/

/-- The greatest number of fixed parameters is that of some of the constructors. -/
theorem widest_spec (hne : cs ≠ []) :
    (∃ c ∈ cs, c.fixedArity = widest cs) ∧ ∀ c ∈ cs, c.fixedArity ≤ widest cs := by
  obtain ⟨n, hn⟩ : ∃ n, (cs.map Constructor.fixedArity).max? = some n :=
    Option.isSome_iff_exists.mp (List.isSome_max?_of_ne_nil (mt List.map_eq_nil_iff.mp hne))
  obtain ⟨hmem, hle⟩ := List.max?_eq_some_iff.mp hn
  have hwidest : widest cs = n := by
    rw [widest, List.foldl_max, hn]
    exact Nat.zero_max n
  rw [hwidest]
  exact ⟨List.mem_map.mp hmem, fun c hc => hle _ (List.mem_map_of_mem hc)⟩

/-- **The only widest one** of several is wider than every other. -/
theorem filter_widest_eq_singleton_iff (hcs : cs.Nodup) :
    (cs.filter fun c => c.fixedArity = widest cs) = [c] ↔
      c ∈ cs ∧ ∀ d ∈ cs, d ≠ c → d.fixedArity < c.fixedArity := by
  refine ⟨fun h => ?_, fun ⟨hc, hwider⟩ => ?_⟩
  · have hmem (d : Constructor β) : d ∈ cs ∧ d.fixedArity = widest cs ↔ d = c := by
      rw [← List.mem_singleton (a := d), ← h, List.mem_filter, decide_eq_true_eq]
    obtain ⟨hc, hwidest⟩ := (hmem c).mpr rfl
    refine ⟨hc, fun d hd hdc => ?_⟩
    have hle := (widest_spec (List.ne_nil_of_mem hc)).2 d hd
    have hne : d.fixedArity ≠ widest cs := fun heq => hdc ((hmem d).mp ⟨hd, heq⟩)
    omega
  · obtain ⟨⟨e, he, hwidest⟩, hle⟩ := widest_spec (List.ne_nil_of_mem hc)
    obtain rfl : e = c := by
      by_contra hec
      have hlt := hwider e he hec
      have hcle := hle c hc
      omega
    refine List.perm_singleton.mp ((List.perm_ext_iff_of_nodup (hcs.filter _)
      (List.nodup_singleton e)).mpr fun d => ?_)
    rw [List.mem_filter, List.mem_singleton, decide_eq_true_eq]
    refine ⟨fun ⟨hd, heq⟩ => ?_, fun hd => hd ▸ ⟨he, hwidest⟩⟩
    by_contra hde
    have hlt := hwider d hd hde
    omega

/-! ## What is best is called for -/

section Candidates

variable (hr : r.provider.ListsConstructors)

/-- Where something applies without a tail, the narrowest constructors are called for. -/
theorem calledFor_iff_narrowest (hexact : ∃ d, r.Applies u t args d ∧ d.isVariadic = false) :
    r.CalledFor u t args c ↔ r.Narrowest u t args c := by
  refine ⟨fun h => ⟨h.applies, (h.exact hexact).1, fun d hd hdv => ?_⟩,
    fun h => ⟨h.applies, fun _ => ⟨h.exact, fun d hd hdv _ => h.narrower d hd hdv⟩, fun hall => ?_⟩⟩
  · by_cases hdc : d = c
    · exact hdc ▸ .refl u d
    · exact (h.exact hexact).2 d hd hdv hdc
  · exact absurd (h.exact.symm.trans (hall c h.applies)) Bool.false_ne_true

include hr

/-- **Among exact constructors the most specific are called for.** -/
theorem calledFor_iff_isMostSpecific (hu : u.Reachable) (hne : r.exactCandidates u t args ≠ []) :
    r.CalledFor u t args c ↔ IsMostSpecific u (r.exactCandidates u t args) c := by
  obtain ⟨e, he⟩ := List.exists_mem_of_ne_nil _ hne
  rw [calledFor_iff_narrowest ⟨e, (mem_exactCandidates hr).mp he⟩, narrowest_iff hu hr]

/-- **Among constructors with tails the one with the most fixed parameters is called for.** -/
theorem calledFor_iff_filter_widest (hnone : r.exactCandidates u t args = [])
    (hnodup : (r.variadicCandidates u t args).Nodup) :
    r.CalledFor u t args c ↔ ((r.variadicCandidates u t args).filter fun d =>
      d.fixedArity = widest (r.variadicCandidates u t args)) = [c] := by
  have htail (d : Constructor β) (hd : r.Applies u t args d) : d.isVariadic = true := by
    by_contra hdv
    have hmem := (mem_exactCandidates hr).mpr ⟨hd, Bool.not_eq_true _ ▸ hdv⟩
    simp [hnone] at hmem
  have hmem {d : Constructor β} : d ∈ r.variadicCandidates u t args ↔ r.Applies u t args d :=
    (mem_variadicCandidates hr).trans (and_iff_left_of_imp (htail d))
  rw [filter_widest_eq_singleton_iff hnodup]
  simp only [hmem]
  refine ⟨fun h => ⟨h.applies, h.widest htail⟩, fun ⟨hc, hwider⟩ => ⟨hc, ?_, fun _ => hwider⟩⟩
  rintro ⟨d, hd, hdv⟩
  simp [htail d hd] at hdv

end Candidates

theorem onlyOne_cases (t : TypeRef) (cs : List (Constructor β)) :
    (∃ c, cs = [c] ∧ onlyOne t cs = .ok c) ∨
      (∀ c, cs ≠ [c]) ∧ onlyOne t cs = .error (.ambiguousMatch t.name cs.length) := by
  match cs with
  | [] => exact .inr ⟨by simp, rfl⟩
  | [c] => exact .inl ⟨c, rfl, rfl⟩
  | c :: d :: cs => exact .inr ⟨by simp, rfl⟩

end Resolver

/-- Constructors are built one by one, each of another shape than those before. -/
theorem Blueprint.nodup_of_grown (h : Grown (NextConstructor t) cs) : cs.Nodup :=
  h.pairwise fun hc d hd hdc => by
    have hdistinct := hc.distinct d hd
    rw [hdc, Parameter.sameShape_iff.mpr rfl] at hdistinct
    cases hdistinct

namespace Universe

/-! ## What comes of resolving -/

theorem Reachable.nodup_variadicCandidates (hu : u.Reachable) (hk : u.Knows t)
    (hr : r.provider.ListsConstructors) : (r.variadicCandidates u t args).Nodup := by
  have hnodup := (hr u t).nodup_iff.mpr (Blueprint.nodup_of_grown (hu.grown_constructors hk))
  exact ((hnodup.filter _).filter _).filter _

section Applying

variable (hu : u.Reachable) (hk : u.Knows t) (hi : u.Instantiates t)
  (hr : r.provider.ListsConstructors)

include hu hk hi hr

/-- Of constructors without a tail the narrowest is picked, or the match is ambiguous. -/
theorem Reachable.resolve_of_exact (hexact : r.exactCandidates u t args ≠ []) :
    (∃ c, r.resolve u t args = .ok c ∧ r.CalledFor u t args c) ∨
      (∃ n, r.resolve u t args = .error (.ambiguousMatch t.name n)) ∧
        (∃ c, r.Applies u t args c) ∧ ¬ ∃ c, r.CalledFor u t args c := by
  have hcalled (c : Constructor β) :=
    Resolver.calledFor_iff_isMostSpecific (c := c) hr hu hexact
  rw [Resolver.resolve_eq_best hi.constructible hi.instantiable, Resolver.best_of_ne_nil hexact]
  cases hmost : Resolver.mostSpecific? u (r.exactCandidates u t args) with
  | some c =>
    have hspecific := Resolver.isMostSpecific_of_eq_some (hu.distinct_exactCandidates hk hr) hmost
    exact .inl ⟨c, rfl, (hcalled c).mpr hspecific⟩
  | none =>
    obtain ⟨e, he⟩ := List.exists_mem_of_ne_nil _ hexact
    refine .inr ⟨⟨_, rfl⟩, ⟨e, ((Resolver.mem_exactCandidates hr).mp he).1⟩, ?_⟩
    exact fun ⟨c, hc⟩ => Resolver.not_isMostSpecific_of_eq_none hmost ((hcalled c).mp hc)

/-- Of constructors with tails the only widest is picked, or the match is ambiguous. -/
theorem Reachable.resolve_of_variadic (hexact : r.exactCandidates u t args = [])
    (hvariadic : r.variadicCandidates u t args ≠ []) :
    (∃ c, r.resolve u t args = .ok c ∧ r.CalledFor u t args c) ∨
      (∃ n, r.resolve u t args = .error (.ambiguousMatch t.name n)) ∧
        (∃ c, r.Applies u t args c) ∧ ¬ ∃ c, r.CalledFor u t args c := by
  have hcalled (c : Constructor β) := Resolver.calledFor_iff_filter_widest (c := c) hr hexact
    (hu.nodup_variadicCandidates hk hr)
  rw [Resolver.resolve_eq_best hi.constructible hi.instantiable, hexact,
    Resolver.best_nil hvariadic]
  rcases Resolver.onlyOne_cases t ((r.variadicCandidates u t args).filter fun c =>
    c.fixedArity = Resolver.widest (r.variadicCandidates u t args)) with
    ⟨c, hone, h⟩ | ⟨hnot, h⟩
  · exact .inl ⟨c, h, (hcalled c).mpr hone⟩
  · obtain ⟨e, he⟩ := List.exists_mem_of_ne_nil _ hvariadic
    refine .inr ⟨⟨_, h⟩, ⟨e, ((Resolver.mem_variadicCandidates hr).mp he).1⟩, ?_⟩
    exact fun ⟨c, hc⟩ => hnot c ((hcalled c).mp hc)

omit hu hk in
/-- Where nothing applies, nothing matches. -/
theorem resolve_of_none (hexact : r.exactCandidates u t args = [])
    (hvariadic : r.variadicCandidates u t args = []) :
    r.resolve u t args = .error (.noMatchingConstructor t.name) ∧
      ¬ ∃ c, r.Applies u t args c := by
  rw [Resolver.resolve_eq_best hi.constructible hi.instantiable, hexact, hvariadic]
  refine ⟨rfl, fun ⟨c, hc⟩ => ?_⟩
  cases hcv : c.isVariadic with
  | false => simpa [hexact] using (Resolver.mem_exactCandidates hr).mpr ⟨hc, hcv⟩
  | true => simpa [hvariadic] using (Resolver.mem_variadicCandidates hr).mpr ⟨hc, hcv⟩

/-- **What resolving comes to**: nothing if it never ends, and otherwise what is called for, or one
of two errors. -/
theorem Reachable.resolve?_cases (args : List Value) :
    (r.resolve? u t args = none ∧ r.Endless u t args) ∨ ¬ r.Endless u t args ∧
      ((∃ c, r.resolve? u t args = some (.ok c) ∧ r.CalledFor u t args c) ∨
      (r.resolve? u t args = some (.error (.noMatchingConstructor t.name)) ∧
        ¬ ∃ c, r.Applies u t args c) ∨
      (∃ n, r.resolve? u t args = some (.error (.ambiguousMatch t.name n))) ∧
        (∃ c, r.Applies u t args c) ∧ ¬ ∃ c, r.CalledFor u t args c) := by
  by_cases hendless : r.Endless u t args
  · exact .inl ⟨(hu.resolve?_eq_none_iff hk hi hr).mpr hendless, hendless⟩
  simp only [hu.resolve?_eq_some_iff hk hi hr, hendless, not_false_eq_true, true_and]
  refine .inr ?_
  by_cases hexact : r.exactCandidates u t args = []
  · by_cases hvariadic : r.variadicCandidates u t args = []
    · exact .inr (.inl (resolve_of_none hi hr hexact hvariadic))
    · exact (hu.resolve_of_variadic hk hi hr hexact hvariadic).imp_right .inr
  · exact (hu.resolve_of_exact hk hi hr hexact).imp_right .inr

end Applying

theorem Reachable.declaring_of_mem_constructors (hu : u.Reachable) (hk : u.Knows t)
    (hc : c ∈ u.constructors t) : c.declaring = t := by
  obtain ⟨_, -, hnext⟩ := (hu.grown_constructors hk).exists_next hc
  rw [Constructor.declaring, hnext.id]

/-- Making an instance with a constructor of a type that may have some. -/
theorem Reachable.create?_of_applies (hw : w.types.Reachable) (hk : w.types.Knows t)
    (hi : w.types.Instantiates t) (run : Evaluator β) (hc : r.Applies w.types t args c)
    (hends : ¬ Binding.Stuck w.types c.parameters args) :
    (c.create? run args w = none ↔
      (t.isClass = true ∨ t.isStruct = true) ∧ CycleAhead w.types.Holds t) ∧
      ∀ x, c.create? run args w = some x → Resolver.MadeOrRaised t x.1 := by
  obtain rfl := hw.declaring_of_mem_constructors hk hc.declared
  rw [← World.instantiate?_eq_none_iff hw hk]
  exact Constructor.create?_of_binds? run hw hi (Binding.binds?_of_fits hw
    (fun _ => hw.knows_of_mem_constructors hc.declared) hends hc.fits)

end Universe

/-! ## Resolving exactly -/

/-- **Whether resolving is exact**: it picks only what the arguments call for, and something if they
call for anything; if not, no constructor applies, or the match is ambiguous; and running what it
picked comes back, with an instance or the failure of the body. -/
structure Resolver.ResolvesExactly (r : Resolver β) (u : Universe β) (t : TypeRef)
    (args : List Value) : Prop where
  sound : ∀ c, r.resolve? u t args = some (.ok c) → r.CalledFor u t args c
  complete : (∃ c, r.CalledFor u t args c) → ∃ c, r.resolve? u t args = some (.ok c)
  noMatching_iff : r.resolve? u t args = some (.error (.noMatchingConstructor t.name)) ↔
    ¬ ∃ c, r.Applies u t args c
  ambiguous_iff : (∃ n, r.resolve? u t args = some (.error (.ambiguousMatch t.name n))) ↔
    (∃ c, r.Applies u t args c) ∧ ¬ ∃ c, r.CalledFor u t args c
  creates : ∀ c, r.resolve? u t args = some (.ok c) → ∀ (run : Evaluator β) (w : World β),
    w.types = u → ∃ x, c.create? run args w = some x ∧ MadeOrRaised t x.1

namespace Universe

theorem resolvesExactly_of_not_endless (hu : u.Reachable) (hk : u.Knows t) (hi : u.Instantiates t)
    (hr : r.provider.ListsConstructors) (hends : ¬ r.Endless u t args)
    (hmakes : (∃ c, r.CalledFor u t args c) →
      ¬ ((t.isClass = true ∨ t.isStruct = true) ∧ CycleAhead u.Holds t)) :
    r.ResolvesExactly u t args := by
  have happlies : (∃ c, r.CalledFor u t args c) → ∃ c, r.Applies u t args c :=
    fun ⟨c, hc⟩ => ⟨c, hc.applies⟩
  obtain ⟨c, h, hc⟩ | ⟨h, hnone⟩ | ⟨⟨n, h⟩, hany, hnot⟩ :=
    (hu.resolve?_cases hk hi hr args).resolve_left (fun h => hends h.2) |>.2
  · refine ⟨?_, fun _ => ⟨c, h⟩, ?_, ?_, ?_⟩
    · intro d hd
      obtain rfl : c = d := by simpa [h] using hd
      exact hc
    · exact iff_of_false (by simp [h]) fun hnone => hnone ⟨c, hc.applies⟩
    · exact iff_of_false (by simp [h]) fun hno => hno.2 ⟨c, hc⟩
    · intro d hd run w hw
      obtain rfl : c = d := by simpa [h] using hd
      subst hw
      obtain ⟨hnone, hmade⟩ := hu.create?_of_applies hk hi run hc.applies
        fun hstuck => hends (.inl ⟨c, hc.applies.toSees, hstuck⟩)
      obtain ⟨x, hx⟩ := Option.ne_none_iff_exists'.mp (mt hnone.mp (hmakes ⟨c, hc⟩))
      exact ⟨x, hx, hmade x hx⟩
  · refine ⟨by simp [h], fun hc => absurd (happlies hc) hnone, ?_, ?_, by simp [h]⟩
    · exact iff_of_true h hnone
    · exact iff_of_false (by simp [h]) fun hany => hnone hany.1
  · refine ⟨by simp [h], fun hc => absurd hc hnot, ?_, ?_, by simp [h]⟩
    · exact iff_of_false (by simp [h]) fun hnone => hnone hany
    · exact iff_of_true ⟨n, h⟩ ⟨hany, hnot⟩

theorem not_endless_of_resolvesExactly (hu : u.Reachable) (hk : u.Knows t) (hi : u.Instantiates t)
    (hr : r.provider.ListsConstructors) (h : r.ResolvesExactly u t args) :
    ¬ r.Endless u t args := by
  intro hendless
  have hnone := (hu.resolve?_eq_none_iff hk hi hr).mpr hendless
  by_cases hcalled : ∃ c, r.CalledFor u t args c
  · obtain ⟨c, hc⟩ := h.complete hcalled
    simp [hnone] at hc
  by_cases happlies : ∃ c, r.Applies u t args c
  · obtain ⟨n, hn⟩ := h.ambiguous_iff.mpr ⟨happlies, hcalled⟩
    simp [hnone] at hn
  · have herror := h.noMatching_iff.mpr happlies
    simp [hnone] at herror

/-- **Where resolving is exact**: among the constructors of a type that may have instances, exactly
where choosing comes to an end and, if the arguments call for a constructor, so does making the
instance; choosing goes on for ever exactly if it is endless.  Wherever choosing and construction
from the arguments come to an end, they come to what the bounded questions say. -/
theorem resolve_iff_calledFor (hu : u.Reachable) (hk : u.Knows t) (hi : u.Instantiates t)
    (hr : r.provider.ListsConstructors) (args : List Value) :
    (r.ResolvesExactly u t args ↔ ¬ r.Endless u t args ∧ ((∃ c, r.CalledFor u t args c) →
      ¬ ((t.isClass = true ∨ t.isStruct = true) ∧ CycleAhead u.Holds t))) ∧
    (r.resolve? u t args = none ↔ r.Endless u t args) ∧
    (∀ x, r.resolve? u t args = some x → r.resolve u t args = x) ∧
    ∀ (run : Evaluator β) (w : World β), w.types = u → ∀ x,
      r.constructWith? run t (some args) w = some x → r.constructWith run t (some args) w = x := by
  refine ⟨⟨fun h => ⟨not_endless_of_resolvesExactly hu hk hi hr h, fun hcalled hcycle => ?_⟩,
    fun h => resolvesExactly_of_not_endless hu hk hi hr h.1 h.2⟩,
    hu.resolve?_eq_none_iff hk hi hr, fun x => hu.resolve_of_resolve?, fun run w hw => ?_⟩
  swap
  · subst hw
    exact (r.construction_of_ends run hu t).2.1 (some args)
  obtain ⟨c, hc⟩ := h.complete hcalled
  obtain ⟨x, hx, -⟩ := h.creates c hc .idle { World.empty with types := u } rfl
  have happlies := (h.sound c hc).applies
  have hnone := (Reachable.create?_of_applies (w := { World.empty with types := u }) hu hk hi .idle
    happlies fun hstuck => not_endless_of_resolvesExactly hu hk hi hr h
      (.inl ⟨c, happlies.toSees, hstuck⟩)).1.mpr hcycle
  simp [hx] at hnone

/-! ### A choice between two constructors, and a structure to write back -/

/-- A number calls for the constructor from numbers, though the one from anything applies too. -/
theorem resolve_iff_calledFor_anyOrNumber :
    Resolver.standard.ResolvesExactly (oneClass anyOrNumber) declaredClass [.i32 1] ∧
    ∃ c, Resolver.standard.resolve? (oneClass anyOrNumber) declaredClass [.i32 1] = some (.ok c) ∧
      c.shape = [(.primitive .i32, .plain)] := by
  obtain ⟨hu, -⟩ := reordering_oneClass anyOrNumber (by decide) (by decide)
  have hk : (oneClass anyOrNumber).Knows declaredClass := by decide
  obtain ⟨exact_iff, endless_iff, -⟩ := resolve_iff_calledFor hu hk ⟨rfl, rfl⟩ (r := .standard)
    Provider.listsConstructors_reflector [.i32 1]
  refine ⟨exact_iff.mpr ⟨fun h => (nomatch endless_iff.mpr h), fun _ hcycle => ?_⟩, _, rfl, rfl⟩
  have hnone := (World.instantiate?_eq_none_iff
    (w := { World.empty with types := oneClass anyOrNumber }) hu hk).mpr hcycle
  cases hnone

/-- The structure that contains itself, and a class with a constructor that writes one back. -/
def structureWriter : Universe Unit :=
  World.selfContaining.types.defineBy {
    target := ⟨1, .classType, "C"⟩
    constructors := [{
      parameters := [{
        name := "out"
        type := .declared ⟨0, .structType, "S"⟩
        writeBack := true }]
      body := () }] }

theorem reachable_structureWriter : structureWriter.Reachable :=
  .defineBy World.reachable_selfContaining (by decide) (by decide) (by decide) (by decide)

/-- The class. -/
abbrev writingClass : TypeRef := .declared ⟨1, .classType, "C"⟩

/-- Its only constructor. -/
def structureWriting : Constructor Unit where
  id := ⟨writingClass, .constructor, 0⟩
  parameters := [⟨"out", .declared ⟨0, .structType, "S"⟩, .writeBack⟩]
  visibility := .everyone
  attributes := []
  body? := some ()

/-- Null calls for it. -/
theorem calledFor_structureWriting :
    Resolver.standard.CalledFor structureWriter writingClass [.null] structureWriting := by
  have honly (d : Constructor Unit)
      (hd : Resolver.standard.Applies structureWriter writingClass [.null] d) :
      d = structureWriting := List.mem_singleton.mp hd.declared
  have hfits : Binding.Fits structureWriter structureWriting.parameters [.null] := by
    refine ⟨rfl, fun i p v hi hp hv => ?_, nofun⟩
    obtain rfl : i = 0 := Nat.lt_one_iff.mp hi
    obtain rfl := Option.some.inj hp
    obtain rfl := Option.some.inj hv
    exact .inr ⟨rfl, rfl⟩
  refine ⟨⟨⟨List.mem_singleton_self _, .inr rfl⟩, hfits⟩, fun _ => ⟨rfl, fun d hd _ hne => ?_⟩,
    fun _ d hd hne => ?_⟩
  · exact absurd (honly d hd) hne
  · exact absurd (honly d hd) hne

/-- **Not every argument is resolved**: null calls for the only constructor of the class, but
stands for a default that the structure does not have, and choosing never ends. -/
theorem not_every_resolve_exact :
    structureWriter.Reachable ∧ structureWriter.Knows writingClass ∧
    structureWriter.Instantiates writingClass ∧
    Resolver.standard.CalledFor structureWriter writingClass [.null] structureWriting ∧
    Resolver.standard.resolve? structureWriter writingClass [.null] = none ∧
    ¬ Resolver.standard.ResolvesExactly structureWriter writingClass [.null] := by
  have hendless : Resolver.standard.resolve? structureWriter writingClass [.null] = none := rfl
  refine ⟨reachable_structureWriter, by decide, ⟨rfl, rfl⟩, calledFor_structureWriting, hendless,
    fun h => ?_⟩
  obtain ⟨d, hd⟩ := h.complete ⟨_, calledFor_structureWriting⟩
  simp [hendless] at hd

end Universe
end Reflection
