import Reflection.Construction.Resolver
import Reflection.Proofs.Call.Fitting
import Reflection.Proofs.Universe.Members
import Reflection.Proofs.Universe.Open

/-!
# Proofs/Construction/Choosing — choices that come to an end, and choices that do not

    binds?             ──no answer──▸  Stuck                ─┐
    asSpecific?        ──no answer──▸  ComparesEndlessly     ├──▸  Endless
    findMostSpecific?  ──no answer──▸  SearchStalls         ─┘
    resolve?           ──answer──▸     resolve

A resolver binds the arguments to each constructor that counts, and then holds those without a tail
against each other, one pair of parameter types after the other.  Neither need come to an end: null
may stand for the default of a structure that contains itself, and interfaces may lead to each
other.  The first question without an answer is where choosing stays (`Meets`); wherever it comes to
an end, it comes to what the bounded questions say (`Reachable.resolve?_eq_some_iff`).
-/

namespace Reflection

variable {β : Type} {u : Universe β} {t : TypeRef} {c d : Constructor β}
  {cs ds : List (Constructor β)} {args : List Value} {ps : List Parameter} {r : Resolver β}

/-! ## Questions in turn -/

section InTurn

variable {α : Type} {stop pass stall good : α → Prop} {f : α → Option Bool} {g : α → Bool}
  {a : α} {l : List α}

/-- Whether a list has an entry at which one stops, after entries that one passes. -/
def Meets (stop pass : α → Prop) (l : List α) : Prop :=
  ∃ before a after, l = before ++ a :: after ∧ stop a ∧ ∀ b ∈ before, pass b

theorem not_meets_nil : ¬ Meets stop pass [] := by simp [Meets]

theorem meets_cons : Meets stop pass (a :: l) ↔ stop a ∨ pass a ∧ Meets stop pass l := by
  constructor
  · rintro ⟨before, b, after, hl, hb, hbefore⟩
    cases before with
    | nil =>
      obtain ⟨rfl, -⟩ := List.cons_eq_cons.mp hl
      exact .inl hb
    | cons x before =>
      obtain ⟨rfl, rfl⟩ := List.cons_eq_cons.mp hl
      obtain ⟨hx, hbefore⟩ := List.forall_mem_cons.mp hbefore
      exact .inr ⟨hx, before, b, after, rfl, hb, hbefore⟩
  · rintro (ha | ⟨ha, before, b, after, rfl, hb, hbefore⟩)
    · exact ⟨[], a, l, rfl, ha, by simp⟩
    · exact ⟨a :: before, b, after, rfl, hb, List.forall_mem_cons.mpr ⟨ha, hbefore⟩⟩

/-- **What asking comes to**: no answer if the question stalls, and otherwise the right one. -/
def Decides (x : Option Bool) (stall good : Prop) : Prop :=
  ∀ b, x = some b ↔ ¬ stall ∧ (b = true ↔ good)

theorem Decides.eq_none_iff {x : Option Bool} {stall good : Prop} (h : Decides x stall good) :
    x = none ↔ stall := by
  refine ⟨fun hx => ?_, fun hs => Option.eq_none_iff_forall_ne_some.mpr fun b hb =>
    ((h b).mp hb).1 hs⟩
  by_contra hs
  classical
  have hb := (h (decide good)).mpr ⟨hs, decide_eq_true_iff⟩
  simp [hx] at hb

/-- Asking whether all are good goes on up to the first that is not, and stalls at one before. -/
theorem decides_allM (h : ∀ a ∈ l, Decides (f a) (stall a) (good a)) :
    Decides (l.allM f) (Meets stall good l) (∀ a ∈ l, good a) := by
  induction l with
  | nil => simp [Decides, not_meets_nil, List.allM, eq_comm]
  | cons a l ih =>
    obtain ⟨ha, hl⟩ := List.forall_mem_cons.mp h
    intro b
    rw [List.allM, meets_cons, List.forall_mem_cons]
    rcases hf : f a with _ | _ | _
    · simp [ha.eq_none_iff.mp hf]
    · obtain ⟨hs, hgood⟩ := (ha false).mp hf
      simp [hs, show ¬ good a by simpa using hgood, eq_comm]
    · obtain ⟨hs, hgood⟩ := (ha true).mp hf
      simpa [hs, hgood.mp rfl] using ih hl b

/-- Asking for the first that is good stalls at one before it. -/
theorem findM?_eq_none_iff (h : ∀ a ∈ l, Decides (f a) (stall a) (good a)) :
    l.findM? f = none ↔ Meets stall (fun a => ¬ good a) l := by
  induction l with
  | nil => exact iff_of_false nofun not_meets_nil
  | cons a l ih =>
    obtain ⟨ha, hl⟩ := List.forall_mem_cons.mp h
    rw [meets_cons, ← ih hl, List.findM?]
    rcases hf : f a with _ | _ | _
    · simp [ha.eq_none_iff.mp hf]
    · obtain ⟨hs, hgood⟩ := (ha false).mp hf
      simp [hs, show ¬ good a by simpa using hgood]
    · obtain ⟨hs, hgood⟩ := (ha true).mp hf
      simp [hs, hgood.mp rfl]

section Answered

variable (hg : ∀ a ∈ l, ∀ b, f a = some b → g a = b)

include hg

theorem all_of_allM {b : Bool} (h : l.allM f = some b) : l.all g = b := by
  induction l with
  | nil => exact Option.some.inj h
  | cons a l ih =>
    obtain ⟨ha, hl⟩ := List.forall_mem_cons.mp hg
    rw [List.allM] at h
    cases hf : f a with
    | none => simp [hf] at h
    | some c =>
      rw [List.all_cons, ha c hf]
      cases c with
      | false => simpa [hf] using h
      | true => exact ih hl (by simpa [hf] using h)

theorem find?_of_findM? {x : Option α} (h : l.findM? f = some x) : l.find? g = x := by
  induction l with
  | nil => exact Option.some.inj h
  | cons a l ih =>
    obtain ⟨ha, hl⟩ := List.forall_mem_cons.mp hg
    rw [List.findM?] at h
    cases hf : f a with
    | none => simp [hf] at h
    | some c =>
      rw [List.find?_cons, ha c hf]
      cases c with
      | false => exact ih hl (by simpa [hf] using h)
      | true => simpa [hf] using h

/-- Filtering collects what it keeps in front of what was kept before. -/
theorem filterAuxM_eq (kept : List α) :
    (l.filterAuxM f kept = none ↔ ∃ a ∈ l, f a = none) ∧
      ∀ l', l.filterAuxM f kept = some l' → l' = (l.filter g).reverse ++ kept := by
  induction l generalizing kept with
  | nil => exact ⟨by simp [List.filterAuxM], fun l' h => (Option.some.inj h).symm⟩
  | cons a l ih =>
    obtain ⟨ha, hl⟩ := List.forall_mem_cons.mp hg
    rw [List.filterAuxM, List.exists_mem_cons_iff]
    cases hf : f a with
    | none => exact ⟨iff_of_true rfl (.inl rfl), nofun⟩
    | some c =>
      obtain ⟨hnone, hsome⟩ := ih hl (bif c then a :: kept else kept)
      refine ⟨by simpa using hnone, fun l' h => ?_⟩
      rw [hsome l' h, List.filter_cons, ha c hf]
      cases c <;> simp

theorem filterM_eq_none_iff : l.filterM f = none ↔ ∃ a ∈ l, f a = none := by
  rw [← (filterAuxM_eq hg []).1, List.filterM]
  cases l.filterAuxM f [] <;> simp

theorem filter_of_filterM {l' : List α} (h : l.filterM f = some l') : l.filter g = l' := by
  obtain ⟨l'', hl'', h⟩ := Option.bind_eq_some_iff.mp h
  obtain rfl := Option.some.inj h
  simp [(filterAuxM_eq hg []).2 l'' hl'']

end Answered

end InTurn

/-! ## Binding -/

namespace Binding

theorem binds?_eq_none_iff (hu : u.Reachable) (hk : ∀ p ∈ ps, u.Knows p.type) :
    binds? u ps args = none ↔ Stuck u ps args := by
  rw [binds?, Option.map_eq_none_iff, plan?_eq_none_iff hu hk]

/-- Whether arguments bind, wherever binding comes to an end. -/
theorem binds_of_binds? (hu : u.Reachable) {b : Bool} (h : binds? u ps args = some b) :
    binds u ps args = b := by
  obtain ⟨x, hx, rfl⟩ := Option.map_eq_some_iff.mp h
  rw [binds, answers_plan hu "" ps args x hx]

theorem binds?_of_fits (hu : u.Reachable) (hk : ∀ p ∈ ps, u.Knows p.type)
    (hends : ¬ Stuck u ps args) (h : Fits u ps args) : binds? u ps args = some true := by
  obtain ⟨b, hb⟩ := Option.ne_none_iff_exists'.mp (mt (binds?_eq_none_iff hu hk).mp hends)
  rw [hb, ← binds_of_binds? hu hb, binds_iff_fits.mpr h]

/-- What fits a list without a tail has one argument for each parameter. -/
theorem Fits.length_eq (h : Fits u ps args) (hv : Parameter.endsVariadic ps = false) :
    ps.length = args.length := by
  have hcount := h.count
  simp only [Counts, Parameter.fixedCount, hv, Bool.false_eq_true, if_false] at hcount
  exact hcount.symm

end Binding

/-! ## Comparing constructors -/

namespace Resolver

/-- **Whether comparing two constructors never ends**: the search that a pair of matching parameter
types calls for never ends, and all pairs before conform. -/
def ComparesEndlessly (u : Universe β) (c d : Constructor β) : Prop :=
  Meets (fun p => u.Loops p.1.type p.2.type) (fun p => u.Conforms p.1.type p.2.type)
    (c.parameters.zip d.parameters)

/-- Whether every parameter of a constructor is of a subtype of the matching one of another. -/
def Narrower (u : Universe β) (c d : Constructor β) : Prop :=
  List.Forall₂ (fun p q : Parameter => u.Conforms p.type q.type) c.parameters d.parameters

theorem Narrower.refl (u : Universe β) (c : Constructor β) : Narrower u c c :=
  List.forall₂_same.mpr fun p _ => .refl p.type

/-- Comparing a constructor with itself calls for no search. -/
theorem not_comparesEndlessly_self (u : Universe β) (c : Constructor β) :
    ¬ ComparesEndlessly u c c := by
  rintro ⟨before, p, after, hzip, hloops, -⟩
  have hp : p ∈ c.parameters.zip c.parameters := hzip ▸ by simp
  obtain ⟨i, hi, rfl⟩ := List.getElem_of_mem hp
  rw [List.getElem_zip] at hloops
  exact Universe.not_loops_self _ hloops

@[simp] theorem asSpecific_self (u : Universe β) (c : Constructor β) : asSpecific u c c = true := by
  rw [asSpecific, List.all_eq_true]
  intro p hp
  obtain ⟨i, hi, rfl⟩ := List.getElem_of_mem hp
  simp

theorem narrower_iff (h : c.parameters.length = d.parameters.length) :
    Narrower u c d ↔ ∀ p ∈ c.parameters.zip d.parameters, u.Conforms p.1.type p.2.type := by
  rw [Narrower, List.forall₂_iff_zip]
  exact ⟨fun hall p hp => hall.2 hp, fun hall => ⟨h, fun hp => hall _ hp⟩⟩

theorem asSpecific_iff_narrower (hu : u.Reachable)
    (h : c.parameters.length = d.parameters.length) :
    asSpecific u c d = true ↔ Narrower u c d := by
  rw [asSpecific, List.all_eq_true, narrower_iff h]
  simp only [Universe.isSubtype_iff_conforms hu]

theorem asSpecific?_eq_none_iff (hu : u.Reachable) :
    asSpecific? u c d = none ↔ ComparesEndlessly u c d :=
  (decides_allM fun _ _ _ => Universe.isSubtype?_eq_some_iff hu).eq_none_iff

/-- **What comparing comes to**, for constructors with as many parameters. -/
theorem decides_asSpecific? (hu : u.Reachable) (h : c.parameters.length = d.parameters.length) :
    Decides (asSpecific? u c d) (ComparesEndlessly u c d) (Narrower u c d) := by
  rw [narrower_iff h]
  exact decides_allM fun p _ _ => Universe.isSubtype?_eq_some_iff hu

theorem asSpecific_of_asSpecific? (hu : u.Reachable) {b : Bool} (h : asSpecific? u c d = some b) :
    asSpecific u c d = b := by
  refine all_of_allM (fun p _ b hb => ?_) h
  rw [Bool.eq_iff_iff, Universe.isSubtype_iff_conforms hu]
  exact ((Universe.isSubtype?_eq_some_iff hu).mp hb).2.symm

/-! ## The most specific of several -/

/-- Whether constructors are told apart by their identities. -/
def Distinct (cs : List (Constructor β)) : Prop := ∀ c ∈ cs, ∀ d ∈ cs, c.id = d.id → c = d

theorem Distinct.of_subset (h : Distinct ds) (hs : ∀ c ∈ cs, c ∈ ds) : Distinct cs :=
  fun c hc d hd => h c (hs c hc) d (hs d hd)

/-- **Whether the search for the most specific of several constructors never ends**: it comes to one
that is narrower than some, and then its comparison with the next never ends; and none that it came
to before is narrower than all. -/
def SearchStalls (u : Universe β) (cs : List (Constructor β)) : Prop :=
  Meets (fun c => Meets (ComparesEndlessly u c) (Narrower u c) cs)
    (fun c => ¬ ∀ d ∈ cs, Narrower u c d) cs

theorem findMostSpecific?_eq_none_iff (hu : u.Reachable) (hdistinct : Distinct cs)
    (hlen : ∀ c ∈ cs, c.parameters.length = args.length) :
    findMostSpecific? u cs = none ↔ SearchStalls u cs := by
  refine findM?_eq_none_iff fun c hc => decides_allM fun d hd => ?_
  by_cases hid : c.id = d.id
  · -- a constructor is not compared with itself
    obtain rfl := hdistinct c hc d hd hid
    simp [Decides, not_comparesEndlessly_self, Narrower.refl, eq_comm]
  · rw [if_neg hid]
    exact decides_asSpecific? hu ((hlen c hc).trans (hlen d hd).symm)

theorem mostSpecific?_of_findMostSpecific? (hu : u.Reachable) {x : Option (Constructor β)}
    (h : findMostSpecific? u cs = some x) : mostSpecific? u cs = x := by
  refine find?_of_findM? (fun c _ b hb => all_of_allM (fun d _ b' hb' => ?_) hb) h
  by_cases hid : c.id = d.id
  · obtain rfl : true = b' := by simpa [hid] using hb'
    simp [hid]
  · simpa [hid] using asSpecific_of_asSpecific? hu (by simpa [hid] using hb')

/-! ## The best of what binds -/

theorem best_of_ne_nil (hne : cs ≠ []) (ds : List (Constructor β)) :
    best u t cs ds = match mostSpecific? u cs with
      | some c => .ok c
      | none => .error (.ambiguousMatch t.name cs.length) := by
  match cs with
  | [] => exact absurd rfl hne
  | [c] => simp [best, mostSpecific?]
  | c :: c' :: cs => rfl

/-- Constructors are compared where there are several without a tail. -/
theorem best?_eq_none_iff : best? u t cs ds = none ↔ findMostSpecific? u cs = none := by
  match cs with
  | [] => exact iff_of_false nofun nofun
  | [c] => exact iff_of_false nofun (by simp [findMostSpecific?, List.findM?, List.allM])
  | c :: d :: cs =>
    rw [best?]
    rcases findMostSpecific? u (c :: d :: cs) with _ | _ | _ <;> simp

theorem best_of_best? (hu : u.Reachable) {x : Except EngineError (Constructor β)}
    (h : best? u t cs ds = some x) : best u t cs ds = x := by
  match cs with
  | [] => exact Option.some.inj h
  | [c] => exact Option.some.inj h
  | c :: d :: cs =>
    obtain ⟨most, hmost, h⟩ := Option.bind_eq_some_iff.mp h
    rw [best_of_ne_nil (List.cons_ne_nil c _), mostSpecific?_of_findMostSpecific? hu hmost]
    cases most <;> exact Option.some.inj h

/-- The constructors that count, bind the arguments and have no tail. -/
def exactCandidates (r : Resolver β) (u : Universe β) (t : TypeRef) (args : List Value) :
    List (Constructor β) :=
  ((r.candidates u t).filter fun c => Binding.binds u c.parameters args).filter fun c =>
    !c.isVariadic

/-- The constructors that count, bind the arguments and have a tail. -/
def variadicCandidates (r : Resolver β) (u : Universe β) (t : TypeRef) (args : List Value) :
    List (Constructor β) :=
  ((r.candidates u t).filter fun c => Binding.binds u c.parameters args).filter
    Constructor.isVariadic

theorem resolve_eq_best (hc : u.checkConstructible t = .ok ())
    (hi : u.isUninstantiable t = false) : r.resolve u t args =
      best u t (r.exactCandidates u t args) (r.variadicCandidates u t args) := by
  simp only [resolve, hc, hi, bind, Except.bind, Bool.false_eq_true, if_false]
  rfl

theorem resolve_eq_error {e : EngineError} (h : u.checkConstructible t = .error e) :
    r.resolve u t args = .error e := by
  rw [resolve, h]
  rfl

theorem resolve_of_isUninstantiable (hc : u.checkConstructible t = .ok ())
    (hi : u.isUninstantiable t = true) :
    r.resolve u t args = .error (.noDefaultConstructor t.name) := by
  simp only [resolve, hc, hi, bind, Except.bind, if_true]

/-! ## The whole choice -/

/-- Whether a resolver counts a constructor: the type declares it, and it is accessible. -/
structure Sees (r : Resolver β) (u : Universe β) (t : TypeRef) (c : Constructor β) : Prop where
  declared : c ∈ u.constructors t
  accessible : r.nonPublic = true ∨ c.visibility.isPublic = true

/-- **Whether a constructor applies to arguments**: it counts, and they fit it. -/
structure Applies (r : Resolver β) (u : Universe β) (t : TypeRef) (args : List Value)
    (c : Constructor β) : Prop extends r.Sees u t c where
  fits : Binding.Fits u c.parameters args

/-- Constructors without a tail that apply to the same arguments have as many parameters. -/
theorem Applies.length_eq (h : r.Applies u t args c) (hv : c.isVariadic = false) :
    c.parameters.length = args.length :=
  h.fits.length_eq hv

/-- **Whether choosing for arguments never ends**: binding them to a constructor that counts never
ends, or the search for the most specific of those without a tail. -/
def Endless (r : Resolver β) (u : Universe β) (t : TypeRef) (args : List Value) : Prop :=
  (∃ c, r.Sees u t c ∧ Binding.Stuck u c.parameters args) ∨
    SearchStalls u (r.exactCandidates u t args)

end Resolver

/-- Whether a provider lists the constructors that a type declares, in whatever order. -/
def Provider.ListsConstructors (p : Provider β) : Prop :=
  ∀ u t, (p.constructors u t).Perm (u.constructors t)

theorem Provider.listsConstructors_reflector : (reflector : Provider β).ListsConstructors :=
  fun _ _ => .refl _

theorem Resolver.mem_candidates (hr : r.provider.ListsConstructors) :
    c ∈ r.candidates u t ↔ r.Sees u t c := by
  rw [candidates, List.mem_filter, (hr u t).mem_iff, Bool.or_eq_true]
  exact ⟨fun h => ⟨h.1, h.2⟩, fun h => ⟨h.declared, h.accessible⟩⟩

namespace Resolver

variable (hr : r.provider.ListsConstructors)

include hr

theorem mem_bindingCandidates :
    c ∈ (r.candidates u t).filter (fun c => Binding.binds u c.parameters args) ↔
      r.Applies u t args c := by
  rw [List.mem_filter, mem_candidates hr, Binding.binds_iff_fits]
  exact ⟨fun h => ⟨h.1, h.2⟩, fun h => ⟨h.toSees, h.fits⟩⟩

theorem mem_exactCandidates :
    c ∈ r.exactCandidates u t args ↔ r.Applies u t args c ∧ c.isVariadic = false := by
  rw [exactCandidates, List.mem_filter, mem_bindingCandidates hr, Bool.not_eq_true']

theorem mem_variadicCandidates :
    c ∈ r.variadicCandidates u t args ↔ r.Applies u t args c ∧ c.isVariadic = true := by
  rw [variadicCandidates, List.mem_filter, mem_bindingCandidates hr]

theorem length_parameters_of_mem (hc : c ∈ r.exactCandidates u t args) :
    c.parameters.length = args.length := by
  obtain ⟨hc, hv⟩ := (mem_exactCandidates hr).mp hc
  exact hc.length_eq hv

end Resolver

namespace Universe

/-- Whether instances of a type may be made of it directly. -/
structure Instantiates (u : Universe β) (t : TypeRef) : Prop where
  constructible : u.checkConstructible t = .ok ()
  instantiable : u.isUninstantiable t = false

/-- The constructors of a type have different places. -/
theorem Reachable.distinct_constructors (hu : u.Reachable) (hk : u.Knows t) :
    Resolver.Distinct (u.constructors t) := by
  have hgrown := hu.grown_constructors hk
  intro c hc d hd hid
  obtain ⟨i, hi, hci⟩ := hgrown.exists_next hc
  obtain ⟨j, hj, hdj⟩ := hgrown.exists_next hd
  have hij := congrArg MemberId.index (hci.id.symm.trans (hid.trans hdj.id))
  have hli := (List.getElem?_eq_some_iff.mp hi).1
  have hlj := (List.getElem?_eq_some_iff.mp hj).1
  simp only [List.length_take, Nat.min_eq_left (Nat.le_of_lt hli),
    Nat.min_eq_left (Nat.le_of_lt hlj)] at hij
  subst hij
  exact Option.some.inj (hi.symm.trans hj)

theorem Reachable.distinct_exactCandidates (hu : u.Reachable) (hk : u.Knows t)
    (hr : r.provider.ListsConstructors) : Resolver.Distinct (r.exactCandidates u t args) := by
  refine (hu.distinct_constructors hk).of_subset fun c hc => (hr u t).mem_iff.mp ?_
  exact List.mem_of_mem_filter (List.mem_of_mem_filter (List.mem_of_mem_filter hc))

/-- **Where choosing comes to an end, it comes to what the bounded questions say.** -/
theorem Reachable.resolve_of_resolve? (hu : u.Reachable) {x : Except EngineError (Constructor β)}
    (h : r.resolve? u t args = some x) : r.resolve u t args = x := by
  unfold Resolver.resolve? at h
  split at h
  · next e hc =>
    rw [Resolver.resolve_eq_error hc]
    exact Option.some.inj h
  · next hc =>
    split_ifs at h with hi
    · rw [Resolver.resolve_of_isUninstantiable hc hi]
      exact Option.some.inj h
    · obtain ⟨binding, hbinding, h⟩ := Option.bind_eq_some_iff.mp h
      have hfilter := filter_of_filterM (fun c _ _ => Binding.binds_of_binds? hu) hbinding
      rw [Resolver.resolve_eq_best hc (by simpa using hi), Resolver.exactCandidates,
        Resolver.variadicCandidates, hfilter]
      exact Resolver.best_of_best? hu h

section Instantiates

variable (hu : u.Reachable) (hk : u.Knows t) (hi : u.Instantiates t)
  (hr : r.provider.ListsConstructors)

include hu hk hi hr

/-- **Which choices never end.** -/
theorem Reachable.resolve?_eq_none_iff : r.resolve? u t args = none ↔ r.Endless u t args := by
  have hbinds (c : Constructor β) (hc : c ∈ r.candidates u t) :
      Binding.binds? u c.parameters args = none ↔ Binding.Stuck u c.parameters args :=
    Binding.binds?_eq_none_iff hu fun p hp =>
      hu.knows_of_mem_constructors ((Resolver.mem_candidates hr).mp hc).declared hp
  have hdistinct : Resolver.Distinct (r.exactCandidates u t args) :=
    hu.distinct_exactCandidates hk hr
  have hsearch := Resolver.findMostSpecific?_eq_none_iff hu hdistinct fun c =>
    Resolver.length_parameters_of_mem hr
  have hbest : Resolver.best? u t (r.exactCandidates u t args) (r.variadicCandidates u t args) =
      none ↔ Resolver.findMostSpecific? u (r.exactCandidates u t args) = none :=
    Resolver.best?_eq_none_iff
  have hstuck : ((r.candidates u t).filterM fun c => Binding.binds? u c.parameters args) = none ↔
      ∃ c, r.Sees u t c ∧ Binding.Stuck u c.parameters args := by
    rw [filterM_eq_none_iff fun c _ _ => Binding.binds_of_binds? hu]
    simp only [← Resolver.mem_candidates hr]
    exact exists_congr fun c => and_congr_right (hbinds c)
  rw [Resolver.resolve?, hi.constructible, Resolver.Endless, ← hstuck, ← hsearch, ← hbest]
  simp only [hi.instantiable, Bool.false_eq_true, if_false]
  cases hbinding : (r.candidates u t).filterM fun c => Binding.binds? u c.parameters args with
  | none => simp
  | some binding =>
    have hfilter := filter_of_filterM (fun c _ _ => Binding.binds_of_binds? hu) hbinding
    simp [Resolver.exactCandidates, Resolver.variadicCandidates, hfilter]

theorem Reachable.resolve?_eq_some_iff {x : Except EngineError (Constructor β)} :
    r.resolve? u t args = some x ↔ ¬ r.Endless u t args ∧ r.resolve u t args = x := by
  rw [← hu.resolve?_eq_none_iff hk hi hr]
  constructor
  · intro h
    exact ⟨by simp [h], hu.resolve_of_resolve? h⟩
  · rintro ⟨hends, rfl⟩
    obtain ⟨x, hx⟩ := Option.ne_none_iff_exists'.mp hends
    rw [hx, hu.resolve_of_resolve? hx]

end Instantiates

end Universe

end Reflection
