import Reflection.Proofs.Construction.Choosing
import Reflection.Proofs.Universe.Reordered

/-!
# Proofs/Construction/Selection — picking a constructor whatever the order of declaration

    Reordering  ──reordered──▸  Shuffled candidates  ──best_shuffled──▸  one shape or one error
    Undecided   ──exists_reordering──▸  an order in which another shape is picked
    MayGoOn     ──exists_reordering──▸  an order in which choosing never ends

A resolver keeps the constructors that bind the arguments and picks the best of them.  Keeping asks
each constructor for itself, and counting and comparing widths do not depend on an order; but of
several without a tail the first is picked that is as specific as every other.  There may be more
than one: specificity looks at types alone, so constructors that differ in how an argument is passed
are equally specific, and so are those of interfaces that lead to each other.  Then the choice is
left open, and the order of declaration settles it.  The order also settles which constructors are
compared, and comparing some may never end.
-/

namespace Reflection

variable {β : Type} {u v : Universe β} {t : TypeRef} {c d : Constructor β}
  {cs ds es fs : List (Constructor β)} {args : List Value} {r : Resolver β}

/-! ## What is asked of a constructor -/

namespace Binding

/-- What fits goes by what is accepted alone. -/
theorem Fits.of_accepts_eq {ps : List Parameter} (h : v.accepts = u.accepts) (hf : Fits u ps args) :
    Fits v ps args := by
  refine ⟨hf.count, fun i p w hi hp hw => ?_, fun tail htail => ?_⟩
  · rw [Parameter.Takes, h]
    exact hf.fixed i p w hi hp hw
  · rw [PassesWhole, h]
    exact hf.trailing tail htail

theorem binds?_bare (u : Universe β) : binds? u.bare = binds? u := by
  have one : bindOne? u.bare = bindOne? u := by
    funext p v
    simp only [bindOne?, Universe.default?_bare, Universe.accepts?_bare]
  have fixed (ps : List Parameter) (vs : List Value) :
      bindFixed? u.bare ps vs = bindFixed? u ps vs := by
    induction ps generalizing vs with
    | nil => rfl
    | cons p ps ih =>
      cases vs with
      | nil => rfl
      | cons v vs => rw [bindFixed?, bindFixed?, one, ih]
  have whole : passesWhole? u.bare = passesWhole? u := by
    funext tail v
    cases v <;> simp only [passesWhole?, Universe.accepts?_bare]
  have items : packItems? u.bare = packItems? u := by
    funext tail vs
    simp only [packItems?, Universe.accepts?_bare]
  have last (tail : TypeRef) (vs : List Value) :
      bindTail? u.bare tail vs = bindTail? u tail vs := by
    rw [bindTail?.eq_def, bindTail?.eq_def, whole, items]
  funext ps args
  simp only [binds?, plan?, fixed, last]

end Binding

theorem Universe.checkConstructible_bare (u : Universe β) :
    u.bare.checkConstructible = u.checkConstructible := by
  funext t
  rw [checkConstructible, checkConstructible, flags_bare]

theorem Universe.isUninstantiable_bare (u : Universe β) :
    u.bare.isUninstantiable = u.isUninstantiable := by
  funext t
  rw [isUninstantiable, isUninstantiable, flags_bare]

namespace Resolver

theorem asSpecific_bare (u : Universe β) : asSpecific u.bare = asSpecific u := by
  funext c d
  rw [asSpecific, asSpecific, Universe.isSubtype_bare]

theorem asSpecific?_bare (u : Universe β) : asSpecific? u.bare = asSpecific? u := by
  funext c d
  rw [asSpecific?, asSpecific?, Universe.isSubtype?_bare]

/-- How specific constructors are has nothing to do with their places. -/
theorem asSpecific_of_unplaced {c' d' : Constructor β} (hc : c'.unplaced = c.unplaced)
    (hd : d'.unplaced = d.unplaced) : asSpecific u c' d' = asSpecific u c d := by
  have hcp : c'.parameters = c.parameters := (congrArg Constructor.parameters hc :)
  have hdp : d'.parameters = d.parameters := (congrArg Constructor.parameters hd :)
  rw [asSpecific, asSpecific, hcp, hdp]

/-! ## The most specific of several -/

/-- Whether a constructor is one of several and as specific as each of them. -/
def IsMostSpecific (u : Universe β) (cs : List (Constructor β)) (c : Constructor β) : Prop :=
  c ∈ cs ∧ ∀ d ∈ cs, asSpecific u c d = true

theorem isMostSpecific_iff : IsMostSpecific u cs c ↔
    c ∈ cs.filter fun c => cs.all fun d => asSpecific u c d := by
  simp only [IsMostSpecific, List.mem_filter, List.all_eq_true]

/-- Being the most specific of several has nothing to do with places and order. -/
theorem IsMostSpecific.of_shuffled (h : Constructor.Shuffled cs ds) (hc : IsMostSpecific u cs c)
    (hd : d ∈ ds) (hcd : d.unplaced = c.unplaced) : IsMostSpecific u ds d := by
  refine ⟨hd, fun e he => ?_⟩
  obtain ⟨e', he', heq⟩ := h.symm.exists_mem he
  rw [asSpecific_of_unplaced hcd heq.symm]
  exact hc.2 e' he'

theorem isMostSpecific_of_eq_some (h : Distinct cs) (hc : mostSpecific? u cs = some c) :
    IsMostSpecific u cs c := by
  have hmem := List.mem_of_find?_eq_some hc
  refine ⟨hmem, fun d hd => ?_⟩
  have hall := List.find?_some hc
  simp only [List.all_eq_true, Bool.or_eq_true, decide_eq_true_eq] at hall
  rcases hall d hd with hid | hspecific
  · rw [h c hmem d hd hid, asSpecific_self]
  · exact hspecific

theorem not_isMostSpecific_of_eq_none (hnone : mostSpecific? u cs = none) :
    ¬ IsMostSpecific u cs c := by
  refine fun hc => List.find?_eq_none.mp hnone c hc.1 ?_
  simp only [List.all_eq_true, Bool.or_eq_true]
  exact fun d hd => .inr (hc.2 d hd)

/-- **Where the most specific one is found**: if all that are so have one shape, then whatever the
order something of that shape is found, or nothing. -/
theorem mostSpecific?_shuffled (h : Constructor.Shuffled cs ds) (hcs : Distinct cs)
    (hds : Distinct ds)
    (hone : ∀ c d, IsMostSpecific u cs c → IsMostSpecific u cs d → c.shape = d.shape) :
    (mostSpecific? u ds).map Constructor.shape = (mostSpecific? u cs).map Constructor.shape := by
  cases hc : mostSpecific? u cs with
  | none =>
    cases hd : mostSpecific? u ds with
    | none => rfl
    | some d =>
      have hmost := isMostSpecific_of_eq_some hds hd
      obtain ⟨c, hcm, hcd⟩ := h.symm.exists_mem hmost.1
      exact absurd (hmost.of_shuffled h.symm hcm hcd) (not_isMostSpecific_of_eq_none hc)
  | some c =>
    have hmost := isMostSpecific_of_eq_some hcs hc
    obtain ⟨e, hem, hec⟩ := h.exists_mem hmost.1
    cases hd : mostSpecific? u ds with
    | none =>
      exact absurd (hmost.of_shuffled h hem hec) (not_isMostSpecific_of_eq_none hd)
    | some d =>
      have hmostd := isMostSpecific_of_eq_some hds hd
      obtain ⟨c', hcm, hcd⟩ := h.symm.exists_mem hmostd.1
      have hshape := hone c c' hmost (hmostd.of_shuffled h.symm hcm hcd)
      have hsame : c'.shape = d.shape := (congrArg Constructor.shape hcd :)
      rw [Option.map_some, Option.map_some, hshape, hsame]

/-! ## The best of what binds -/

/-- The only one of several. -/
def onlyOne (t : TypeRef) (cs : List (Constructor β)) : Except EngineError (Constructor β) :=
  match cs with
  | [c] => .ok c
  | tied => .error (.ambiguousMatch t.name tied.length)

theorem onlyOne_shuffled (h : Constructor.Shuffled cs ds) :
    (onlyOne t ds).map Constructor.shape = (onlyOne t cs).map Constructor.shape := by
  have hlen := h.length_eq
  match cs, ds with
  | [], [] => rfl
  | [c], [d] =>
    have hcd := List.singleton_perm_singleton.mp h
    have hsame : c.shape = d.shape := (congrArg Constructor.shape hcd :)
    simp [onlyOne, Except.map, hsame]
  | c :: c' :: cs, d :: d' :: ds =>
    simp only [onlyOne, hlen]

theorem best_nil (hne : ds ≠ []) :
    best u t [] ds = onlyOne t (ds.filter fun c => c.fixedArity = widest ds) := by
  cases ds with
  | nil => exact absurd rfl hne
  | cons d ds => rfl

theorem widest_shuffled (h : Constructor.Shuffled cs ds) : widest cs = widest ds := by
  have hperm : (cs.map Constructor.fixedArity).Perm (ds.map Constructor.fixedArity) := by
    have hmap := List.Perm.map Constructor.fixedArity h
    rwa [List.map_map, List.map_map] at hmap
  exact hperm.foldl_eq 0

/-- **What is best whatever the order**, if the most specific of those without a tail have one
shape. -/
theorem best_shuffled (hexact : Constructor.Shuffled cs ds) (hvariadic : Constructor.Shuffled es fs)
    (hcs : Distinct cs) (hds : Distinct ds)
    (hone : ∀ c d, IsMostSpecific u cs c → IsMostSpecific u cs d → c.shape = d.shape) :
    (best u t ds fs).map Constructor.shape = (best u t cs es).map Constructor.shape := by
  by_cases hnil : cs = []
  · subst hnil
    obtain rfl : ds = [] := List.length_eq_zero_iff.mp hexact.length_eq.symm
    by_cases hnone : es = []
    · subst hnone
      obtain rfl : fs = [] := List.length_eq_zero_iff.mp hvariadic.length_eq.symm
      rfl
    · have hsome : fs ≠ [] := fun h => hnone (List.length_eq_zero_iff.mp (by
        rw [hvariadic.length_eq, h, List.length_nil]))
      rw [best_nil hnone, best_nil hsome, ← widest_shuffled hvariadic]
      exact onlyOne_shuffled (hvariadic.filter fun _ => rfl)
  · have hne : ds ≠ [] := fun h => hnil (List.length_eq_zero_iff.mp (by
      rw [hexact.length_eq, h, List.length_nil]))
    have hmost := mostSpecific?_shuffled hexact hcs hds hone
    rw [best_of_ne_nil hnil, best_of_ne_nil hne, ← hexact.length_eq]
    cases hc : mostSpecific? u cs with
    | none =>
      cases hd : mostSpecific? u ds with
      | none => rfl
      | some d => simp [hc, hd] at hmost
    | some c =>
      cases hd : mostSpecific? u ds with
      | none => simp [hc, hd] at hmost
      | some d =>
        have hshape : d.shape = c.shape := by simpa [hc, hd] using hmost
        simp [Except.map, hshape]

/-! ## The whole choice -/

/-- **A narrowest constructor**: it applies without a tail, and is narrower than every one that
does. -/
structure Narrowest (r : Resolver β) (u : Universe β) (t : TypeRef) (args : List Value)
    (c : Constructor β) : Prop where
  applies : r.Applies u t args c
  exact : c.isVariadic = false
  narrower : ∀ d, r.Applies u t args d → d.isVariadic = false → Narrower u c d

/-- **Whether the arguments leave a choice open**: there are narrowest constructors of different
shapes. -/
structure Undecided (r : Resolver β) (u : Universe β) (t : TypeRef) (args : List Value) :
    Prop where
  instantiates : u.Instantiates t
  several : ∃ c d, r.Narrowest u t args c ∧ r.Narrowest u t args d ∧ c.shape ≠ d.shape

/-- The narrowest constructors are the most specific of the exact candidates. -/
theorem narrowest_iff (hu : u.Reachable) (hr : r.provider.ListsConstructors) :
    r.Narrowest u t args c ↔ IsMostSpecific u (r.exactCandidates u t args) c := by
  have hspecific {c d : Constructor β} (hc : r.Applies u t args c ∧ c.isVariadic = false)
      (hd : r.Applies u t args d ∧ d.isVariadic = false) :
      asSpecific u c d = true ↔ Narrower u c d :=
    asSpecific_iff_narrower hu ((hc.1.length_eq hc.2).trans (hd.1.length_eq hd.2).symm)
  simp only [IsMostSpecific, mem_exactCandidates hr]
  constructor
  · exact fun h => ⟨⟨h.applies, h.exact⟩, fun d hd =>
      (hspecific ⟨h.applies, h.exact⟩ hd).mpr (h.narrower d hd.1 hd.2)⟩
  · exact fun ⟨hc, hall⟩ => ⟨hc.1, hc.2, fun d hd hdv =>
      (hspecific hc ⟨hd, hdv⟩).mp (hall d ⟨hd, hdv⟩)⟩

end Resolver

theorem Provider.ListsConstructors.reversed {p : Provider β} (h : p.ListsConstructors) :
    p.reversed.ListsConstructors :=
  fun u t => (List.reverse_perm _).trans (h u t)

namespace Universe

/-! ### What a resolver sees of a universe in another order -/

theorem Reordered.knows (h : u.Reordered v) (hk : u.Knows t) : v.Knows t :=
  knows_bare.mp (h.bare ▸ knows_bare.mpr hk)

theorem Reordered.binds (h : u.Reordered v) : Binding.binds v = Binding.binds u := by
  have haccepts : v.accepts = u.accepts := by rw [← accepts_bare, ← h.bare, accepts_bare]
  funext ps args
  rw [Bool.eq_iff_iff, Binding.binds_iff_fits, Binding.binds_iff_fits]
  exact ⟨.of_accepts_eq haccepts.symm, .of_accepts_eq haccepts⟩

theorem Reordered.binds? (h : u.Reordered v) : Binding.binds? v = Binding.binds? u := by
  rw [← Binding.binds?_bare, ← h.bare, Binding.binds?_bare]

theorem Reordered.asSpecific? (h : u.Reordered v) :
    Resolver.asSpecific? v = Resolver.asSpecific? u := by
  rw [← Resolver.asSpecific?_bare, ← h.bare, Resolver.asSpecific?_bare]

theorem Reordered.asSpecific (h : u.Reordered v) :
    Resolver.asSpecific v = Resolver.asSpecific u := by
  rw [← Resolver.asSpecific_bare, ← h.bare, Resolver.asSpecific_bare]

theorem Reordered.checkConstructible (h : u.Reordered v) :
    v.checkConstructible = u.checkConstructible := by
  rw [← checkConstructible_bare, ← h.bare, checkConstructible_bare]

theorem Reordered.isUninstantiable (h : u.Reordered v) :
    v.isUninstantiable = u.isUninstantiable := by
  rw [← isUninstantiable_bare, ← h.bare, isUninstantiable_bare]

theorem Reordered.isMostSpecific_iff (h : u.Reordered v) :
    Resolver.IsMostSpecific v cs c ↔ Resolver.IsMostSpecific u cs c := by
  rw [Resolver.IsMostSpecific, Resolver.IsMostSpecific, h.asSpecific]

theorem Reordered.best (h : u.Reordered v) (cs ds : List (Constructor β)) :
    Resolver.best v t cs ds = Resolver.best u t cs ds := by
  simp only [Resolver.best, Resolver.mostSpecific?, h.asSpecific]

theorem Reordered.bindingCandidates (h : u.Reordered v) (hr : r.provider.ListsConstructors)
    (t : TypeRef) (args : List Value) : Constructor.Shuffled
      ((r.candidates u t).filter fun c => Binding.binds u c.parameters args)
      ((r.candidates v t).filter fun c => Binding.binds v c.parameters args) := by
  have hlisted : Constructor.Shuffled (r.provider.constructors u t) (r.provider.constructors v t) :=
    ((hr u t).map _).trans ((h.constructors t).trans ((hr v t).map _).symm)
  rw [h.binds]
  exact (hlisted.filter fun _ => rfl).filter fun _ => rfl

theorem Reordered.exactCandidates (h : u.Reordered v) (hr : r.provider.ListsConstructors)
    (t : TypeRef) (args : List Value) :
    Constructor.Shuffled (r.exactCandidates u t args) (r.exactCandidates v t args) :=
  (h.bindingCandidates hr t args).filter fun _ => rfl

theorem Reordered.variadicCandidates (h : u.Reordered v) (hr : r.provider.ListsConstructors)
    (t : TypeRef) (args : List Value) :
    Constructor.Shuffled (r.variadicCandidates u t args) (r.variadicCandidates v t args) :=
  (h.bindingCandidates hr t args).filter fun _ => rfl

/-- **A choice that is not left open is the same in any order.** -/
theorem Reordered.resolve (h : u.Reordered v) (hu : u.Reachable) (hv : v.Reachable)
    (hk : u.Knows t) (hr : r.provider.ListsConstructors) (hnot : ¬ r.Undecided u t args) :
    (r.resolve v t args).map Constructor.shape = (r.resolve u t args).map Constructor.shape := by
  cases hcheck : u.checkConstructible t with
  | error e =>
    rw [Resolver.resolve_eq_error hcheck, Resolver.resolve_eq_error (h.checkConstructible ▸ hcheck)]
  | ok _ =>
    have hcheckv : v.checkConstructible t = .ok () := h.checkConstructible ▸ hcheck
    cases hinst : u.isUninstantiable t with
    | true =>
      rw [Resolver.resolve_of_isUninstantiable hcheck hinst,
        Resolver.resolve_of_isUninstantiable hcheckv (h.isUninstantiable ▸ hinst)]
    | false =>
      rw [Resolver.resolve_eq_best hcheck hinst,
        Resolver.resolve_eq_best hcheckv (h.isUninstantiable ▸ hinst), h.best]
      refine Resolver.best_shuffled (h.exactCandidates hr t args) (h.variadicCandidates hr t args)
        (hu.distinct_exactCandidates hk hr) (hv.distinct_exactCandidates (h.knows hk) hr)
        fun c d hc hd => ?_
      by_contra hne
      exact hnot ⟨⟨hcheck, hinst⟩, c, d, (Resolver.narrowest_iff hu hr).mpr hc,
        (Resolver.narrowest_iff hu hr).mpr hd, hne⟩

end Universe

/-! ## Open choices -/

namespace Resolver

theorem mostSpecific?_cons (h : IsMostSpecific u (c :: cs) c) :
    mostSpecific? u (c :: cs) = some c := by
  refine List.find?_cons_of_pos ?_
  simp only [List.all_eq_true, Bool.or_eq_true]
  exact fun d hd => .inr (h.2 d hd)

theorem resolve_eq_ok (hc : u.checkConstructible t = .ok ()) (hi : u.isUninstantiable t = false)
    (h : mostSpecific? u (r.exactCandidates u t args) = some c) : r.resolve u t args = .ok c := by
  have hne : r.exactCandidates u t args ≠ [] := List.ne_nil_of_mem (List.mem_of_find?_eq_some h)
  rw [resolve_eq_best hc hi, best_of_ne_nil hne, h]

/-- Whether a constructor is an exact candidate, if it is listed. -/
def fits (r : Resolver β) (u : Universe β) (args : List Value) (c : Constructor β) : Bool :=
  (r.nonPublic || c.visibility.isPublic) && Binding.binds u c.parameters args && !c.isVariadic

theorem exactCandidates_eq (r : Resolver β) (u : Universe β) (t : TypeRef) (args : List Value) :
    r.exactCandidates u t args = (r.provider.constructors u t).filter (r.fits u args) := by
  simp only [exactCandidates, candidates, List.filter_filter]
  refine List.filter_congr fun c _ => ?_
  rw [fits, Bool.and_comm, Bool.and_comm (Binding.binds ..)]

theorem fits_of_unplaced (h : c.unplaced = d.unplaced) : r.fits u args c = r.fits u args d := by
  have hv : c.visibility = d.visibility := (congrArg Constructor.visibility h :)
  have hp : c.parameters = d.parameters := (congrArg Constructor.parameters h :)
  rw [fits, fits, Constructor.isVariadic, Constructor.isVariadic, hv, hp]

end Resolver

/-- **What is declared first is picked**, if it is one of the most specific. -/
theorem Universe.Reordered.resolve_eq_first {nonPublic : Bool} (h : u.Reordered v)
    (hc : u.checkConstructible t = .ok ()) (hi : u.isUninstantiable t = false)
    (hd : Resolver.IsMostSpecific u (Resolver.exactCandidates ⟨.reflector, nonPublic⟩ u t args) d)
    (hcs : v.constructors t = c :: cs) (hcd : c.unplaced = d.unplaced) :
    Resolver.resolve ⟨.reflector, nonPublic⟩ v t args = .ok c := by
  have hfits : Resolver.fits ⟨.reflector, nonPublic⟩ v args c = true := by
    have hmem := hd.1
    rw [Resolver.exactCandidates_eq, List.mem_filter] at hmem
    rw [Resolver.fits, h.binds, ← Resolver.fits, Resolver.fits_of_unplaced hcd]
    exact hmem.2
  have hexact : Resolver.exactCandidates ⟨.reflector, nonPublic⟩ v t args =
      c :: cs.filter (Resolver.fits ⟨.reflector, nonPublic⟩ v args) := by
    rw [Resolver.exactCandidates_eq]
    exact (congrArg _ hcs).trans (List.filter_cons_of_pos hfits)
  have hshuffled := h.exactCandidates (r := ⟨.reflector, nonPublic⟩)
    Provider.listsConstructors_reflector t args
  rw [hexact] at hshuffled
  have hmost := hd.of_shuffled hshuffled List.mem_cons_self hcd
  refine Resolver.resolve_eq_ok (h.checkConstructible ▸ hc) (h.isUninstantiable ▸ hi) ?_
  rw [hexact]
  exact Resolver.mostSpecific?_cons (h.isMostSpecific_iff.mpr hmost)

theorem exists_perm_cons {α : Type} {a : α} {l : List α} (h : a ∈ l) :
    ∃ rest, l.Perm (a :: rest) := by
  obtain ⟨before, after, rfl⟩ := List.append_of_mem h
  exact ⟨before ++ after, List.perm_middle⟩

/-- **A choice that is left open goes by the order**: another of the constructors that it may fall
on is picked where that one is declared first. -/
theorem Resolver.Undecided.exists_reordering {nonPublic : Bool} (hu : u.Reachable)
    (h : Undecided ⟨.reflector, nonPublic⟩ u t args) :
    ∃ v, u.Reordering v ∧ (resolve ⟨.reflector, nonPublic⟩ v t args).map Constructor.shape ≠
      (resolve ⟨.reflector, nonPublic⟩ u t args).map Constructor.shape := by
  obtain ⟨⟨hcheck, hinst⟩, c, d, hc, hd, hne⟩ := h
  rw [narrowest_iff hu Provider.listsConstructors_reflector] at hc hd
  obtain ⟨chosen, hchosen⟩ : ∃ chosen,
      mostSpecific? u (exactCandidates ⟨.reflector, nonPublic⟩ u t args) = some chosen :=
    Option.ne_none_iff_exists'.mp fun hnone => not_isMostSpecific_of_eq_none hnone hc
  obtain ⟨other, hother, hshape⟩ : ∃ other,
      IsMostSpecific u (exactCandidates ⟨.reflector, nonPublic⟩ u t args) other ∧
        other.shape ≠ chosen.shape := by
    by_cases hcc : c.shape = chosen.shape
    · exact ⟨d, hd, fun hdc => hne (hcc.trans hdc.symm)⟩
    · exact ⟨c, hc, hcc⟩
  have hmem : other ∈ u.constructors t := by
    have hcandidate := hother.1
    rw [exactCandidates_eq] at hcandidate
    exact List.mem_of_mem_filter hcandidate
  -- the other one is put before all others
  obtain ⟨others, hperm⟩ := exists_perm_cons hmem
  obtain ⟨v, hv, hfirst⟩ := hu.exists_reordering (hperm.map _)
  obtain ⟨first, rest, hcs, hsame, -⟩ := List.map_eq_cons_iff.mp hfirst
  obtain ⟨-, -, hr⟩ := hv.reordered
  refine ⟨v, hv, ?_⟩
  rw [resolve_eq_ok hcheck hinst hchosen, hr.resolve_eq_first hcheck hinst hother hcs hsame]
  have hshapes : first.shape = other.shape := (congrArg Constructor.shape hsame :)
  simpa [Except.map, hshapes] using hshape

/-! ## Choices that may go on for ever -/

namespace Resolver

/-- What choosing comes to, but for the places of constructors: nothing if it never ends. -/
def outcome? (r : Resolver β) (u : Universe β) (t : TypeRef) (args : List Value) :
    Option (Except EngineError (List (TypeRef × ParameterMode))) :=
  (r.resolve? u t args).map (Except.map Constructor.shape)

/-- **Whether choosing may go on for ever**, if only the order is right: binding the arguments to a
constructor that counts never ends, or comparing two of those without a tail. -/
structure MayGoOn (r : Resolver β) (u : Universe β) (t : TypeRef) (args : List Value) : Prop where
  instantiates : u.Instantiates t
  endless : (∃ c, r.Sees u t c ∧ Binding.Stuck u c.parameters args) ∨
    ∃ c d, (r.Applies u t args c ∧ c.isVariadic = false) ∧
      (r.Applies u t args d ∧ d.isVariadic = false) ∧ ComparesEndlessly u c d

/-- **Whether choosing has one outcome in every order** of the constructors. -/
def SameInEveryOrder (r : Resolver β) (u : Universe β) (t : TypeRef) (args : List Value) : Prop :=
  ∃ x, ∀ v, u.Reordering v → r.outcome? v t args = some x

theorem Endless.mayGoOn (hr : r.provider.ListsConstructors) (hi : u.Instantiates t)
    (h : r.Endless u t args) : r.MayGoOn u t args := by
  refine ⟨hi, h.imp_right ?_⟩
  rintro ⟨before, c, after, hcs, ⟨before', d, after', hds, hcd, -⟩, -⟩
  refine ⟨c, d, (mem_exactCandidates hr).mp ?_, (mem_exactCandidates hr).mp ?_, hcd⟩
  · simp [hcs]
  · simp [hds]

/-- A type that has no instances is refused at once. -/
theorem resolve?_ne_none_of_not_instantiates (h : ¬ u.Instantiates t) :
    r.resolve? u t args ≠ none := by
  rw [resolve?]
  cases hc : u.checkConstructible t with
  | error e => exact Option.some_ne_none _
  | ok _ =>
    have hi : u.isUninstantiable t = true := by
      by_contra hi
      exact h ⟨hc, Bool.not_eq_true _ ▸ hi⟩
    simp [hi]

end Resolver

namespace Universe

theorem Reachable.outcome?_eq (hu : u.Reachable)
    {x : Except EngineError (List (TypeRef × ParameterMode))} (h : r.outcome? u t args = some x) :
    (r.resolve u t args).map Constructor.shape = x := by
  obtain ⟨y, hy, rfl⟩ := Option.map_eq_some_iff.mp h
  rw [hu.resolve_of_resolve? hy]

theorem Reachable.outcome?_eq_none (hu : u.Reachable) (hk : u.Knows t)
    (hr : r.provider.ListsConstructors) (h : r.outcome? u t args = none) :
    r.MayGoOn u t args := by
  have hnone : r.resolve? u t args = none := Option.map_eq_none_iff.mp h
  by_cases hi : u.Instantiates t
  · exact ((hu.resolve?_eq_none_iff hk hi hr).mp hnone).mayGoOn hr hi
  · exact absurd hnone (Resolver.resolve?_ne_none_of_not_instantiates hi)

/-! ### What never ends in another order -/

section Reordered

variable (h : u.Reordered v) (hu : u.Reachable) (hv : v.Reachable)

include h hu hv

theorem Reordered.comparesEndlessly {c' d' : Constructor β} (hc : c'.unplaced = c.unplaced)
    (hd : d'.unplaced = d.unplaced) (hcd : Resolver.ComparesEndlessly u c d) :
    Resolver.ComparesEndlessly v c' d' := by
  have hcp : c'.parameters = c.parameters := (congrArg Constructor.parameters hc :)
  have hdp : d'.parameters = d.parameters := (congrArg Constructor.parameters hd :)
  rw [← Resolver.asSpecific?_eq_none_iff hu] at hcd
  rw [← Resolver.asSpecific?_eq_none_iff hv, h.asSpecific?, Resolver.asSpecific?, hcp, hdp]
  exact hcd

/-- A constructor that the arguments are stuck at has its place in any order. -/
theorem Reordered.exists_stuck (hc : r.Sees u t c)
    (hs : Binding.Stuck u c.parameters args) :
    ∃ d, r.Sees v t d ∧ Binding.Stuck v d.parameters args := by
  obtain ⟨d, hd, hdc⟩ := (h.constructors t).exists_mem hc.declared
  have hvisibility : d.visibility = c.visibility := (congrArg Constructor.visibility hdc :)
  have hparameters : d.parameters = c.parameters := (congrArg Constructor.parameters hdc :)
  have hk {p : Parameter} (hp : p ∈ c.parameters) := hu.knows_of_mem_constructors hc.declared hp
  rw [← Binding.binds?_eq_none_iff hu fun _ => hk] at hs
  refine ⟨d, ⟨hd, hvisibility ▸ hc.accessible⟩, ?_⟩
  rw [hparameters, ← Binding.binds?_eq_none_iff hv fun p hp => h.knows (hk hp), h.binds?]
  exact hs

/-- **What may go on for ever in one order, may in any.** -/
theorem Reordered.mayGoOn (hr : r.provider.ListsConstructors) (hm : r.MayGoOn u t args) :
    r.MayGoOn v t args where
  instantiates := ⟨h.checkConstructible ▸ hm.instantiates.constructible,
    h.isUninstantiable ▸ hm.instantiates.instantiable⟩
  endless := by
    refine hm.endless.imp (fun ⟨c, hc, hs⟩ => h.exists_stuck hu hv hc hs) ?_
    rintro ⟨c, d, hc, hd, hcd⟩
    have hshuffled := h.exactCandidates hr t args
    obtain ⟨c', hc', hcc⟩ := hshuffled.exists_mem ((Resolver.mem_exactCandidates hr).mpr hc)
    obtain ⟨d', hd', hdd⟩ := hshuffled.exists_mem ((Resolver.mem_exactCandidates hr).mpr hd)
    exact ⟨c', d', (Resolver.mem_exactCandidates hr).mp hc',
      (Resolver.mem_exactCandidates hr).mp hd', h.comparesEndlessly hu hv hcc hdd hcd⟩

end Reordered

end Universe

/-- **What may go on for ever does so in some order**: two constructors whose comparison never ends
are compared at once where they are declared first. -/
theorem Resolver.MayGoOn.exists_reordering {nonPublic : Bool} (hu : u.Reachable) (hk : u.Knows t)
    (h : MayGoOn ⟨.reflector, nonPublic⟩ u t args) :
    ∃ v, u.Reordering v ∧ outcome? ⟨.reflector, nonPublic⟩ v t args = none := by
  have hlists := Provider.listsConstructors_reflector (β := β)
  rcases h.endless with hstuck | ⟨c, d, hc, hd, hcd⟩
  · refine ⟨u, hu.reordering_self, Option.map_eq_none_iff.mpr ?_⟩
    exact (hu.resolve?_eq_none_iff hk h.instantiates hlists).mpr (.inl hstuck)
  · rw [← mem_exactCandidates hlists, exactCandidates_eq, List.mem_filter] at hc hd
    have hne : d ≠ c := by
      rintro rfl
      exact not_comparesEndlessly_self u d hcd
    obtain ⟨others, hothers⟩ := exists_perm_cons hc.1
    have hd' : d ∈ others := (List.mem_cons.mp (hothers.mem_iff.mp hd.1)).resolve_left hne
    obtain ⟨rest, hrest⟩ := exists_perm_cons hd'
    obtain ⟨v, hv, hfirst⟩ := hu.exists_reordering ((hothers.trans (hrest.cons c)).map _)
    obtain ⟨-, hvr, hr⟩ := hv.reordered
    obtain ⟨c', more, hcs, hcc, hmore⟩ := List.map_eq_cons_iff.mp hfirst
    obtain ⟨d', rest', rfl, hdd, -⟩ := List.map_eq_cons_iff.mp hmore
    refine ⟨v, hv, Option.map_eq_none_iff.mpr ?_⟩
    have hm := hr.mayGoOn hu hvr hlists h
    refine (hvr.resolve?_eq_none_iff (hr.knows hk) hm.instantiates hlists).mpr (.inr ?_)
    have hfits {e e' : Constructor β} (he : fits ⟨.reflector, nonPublic⟩ u args e = true)
        (hee : e'.unplaced = e.unplaced) : fits ⟨.reflector, nonPublic⟩ v args e' = true := by
      rw [fits, hr.binds, ← fits, fits_of_unplaced hee]
      exact he
    have hexact : exactCandidates ⟨.reflector, nonPublic⟩ v t args =
        c' :: d' :: rest'.filter (fits ⟨.reflector, nonPublic⟩ v args) := by
      rw [exactCandidates_eq]
      refine (congrArg _ hcs).trans ?_
      rw [List.filter_cons_of_pos (hfits hc.2 hcc), List.filter_cons_of_pos (hfits hd.2 hdd)]
    rw [hexact]
    have hcd' := hr.comparesEndlessly hu hvr hcc hdd hcd
    refine meets_cons.mpr (.inl (meets_cons.mpr (.inr ⟨.refl v c', ?_⟩)))
    exact meets_cons.mpr (.inl hcd')

namespace Universe

/-- Where a choice that is not left open comes to an end, its outcome is that of the first order. -/
theorem Reordering.outcome?_eq (h : u.Reordering v) (hu : u.Reachable) (hk : u.Knows t)
    (hr : r.provider.ListsConstructors) (hdecided : ¬ r.Undecided u t args)
    {x : Except EngineError (List (TypeRef × ParameterMode))} (hx : r.outcome? v t args = some x) :
    x = (r.resolve u t args).map Constructor.shape := by
  obtain ⟨-, hv, hreordered⟩ := h.reordered
  rw [← hv.outcome?_eq hx, hreordered.resolve hu hv hk hr hdecided]

theorem Reordering.exists_outcome? (h : u.Reordering v) (hu : u.Reachable) (hk : u.Knows t)
    (hr : r.provider.ListsConstructors) (hnot : ¬ r.MayGoOn u t args) :
    ∃ x, r.outcome? v t args = some x := by
  obtain ⟨-, hv, hreordered⟩ := h.reordered
  refine Option.ne_none_iff_exists'.mp fun hnone => hnot ?_
  exact hreordered.symm.mayGoOn hv hu hr (hv.outcome?_eq_none (hreordered.knows hk) hr hnone)

/-- **When the order of declaration does not matter.**  Whatever lists the constructors of a type,
if the arguments leave no choice open, then choosing has one outcome in all orders in which it comes
to an end: a constructor of the same shape, or the same error; and if it may not go on for ever
either, then in every order.  Through the definitions, it has one outcome in every order exactly if
the arguments leave no choice open and choosing may not go on for ever. -/
theorem resolve_reordered_iff (hu : u.Reachable) (hk : u.Knows t) (args : List Value) :
    (∀ r : Resolver β, r.provider.ListsConstructors → ¬ r.Undecided u t args →
      (∀ v v', u.Reordering v → u.Reordering v' → ∀ x x', r.outcome? v t args = some x →
        r.outcome? v' t args = some x' → x = x') ∧
      (¬ r.MayGoOn u t args → r.SameInEveryOrder u t args)) ∧
    ∀ nonPublic, Resolver.SameInEveryOrder ⟨.reflector, nonPublic⟩ u t args ↔
      ¬ Resolver.Undecided ⟨.reflector, nonPublic⟩ u t args ∧
        ¬ Resolver.MayGoOn ⟨.reflector, nonPublic⟩ u t args := by
  have hsame (r : Resolver β) (hr : r.provider.ListsConstructors)
      (hdecided : ¬ r.Undecided u t args) (hnot : ¬ r.MayGoOn u t args) :
      r.SameInEveryOrder u t args := by
    refine ⟨(r.resolve u t args).map Constructor.shape, fun v h => ?_⟩
    obtain ⟨x, hx⟩ := h.exists_outcome? hu hk hr hnot
    rw [hx, h.outcome?_eq hu hk hr hdecided hx]
  refine ⟨fun r hr hdecided => ⟨fun v v' h h' x x' hx hx' => ?_, hsame r hr hdecided⟩,
    fun nonPublic => ⟨fun ⟨x, hall⟩ => ⟨fun hopen => ?_, fun hm => ?_⟩, fun h =>
      hsame _ Provider.listsConstructors_reflector h.1 h.2⟩⟩
  · rw [h.outcome?_eq hu hk hr hdecided hx, h'.outcome?_eq hu hk hr hdecided hx']
  · obtain ⟨v, hv, hne⟩ := hopen.exists_reordering hu
    obtain ⟨-, hvr, -⟩ := hv.reordered
    exact hne ((hvr.outcome?_eq (hall v hv)).trans
      (hu.outcome?_eq (hall u hu.reordering_self)).symm)
  · obtain ⟨v, hv, hnone⟩ := hm.exists_reordering hu hk
    simp [hall v hv] at hnone

/-! ### A choice that is settled and one that is not -/

/-- The universe in which a class is declared. -/
def oneDeclared : Universe ℕ := empty.declare .classType "A"

/-- The class. -/
abbrev declaredClass : TypeRef := .declared ⟨0, .classType, "A"⟩

/-- The blueprint of the class with constructors. -/
def classBlueprint (specs : List (ConstructorSpec ℕ)) : Blueprint ℕ where
  target := ⟨0, .classType, "A"⟩
  constructors := specs

/-- The universe in which the class is defined. -/
def oneClass (specs : List (ConstructorSpec ℕ)) : Universe ℕ :=
  oneDeclared.defineBy (classBlueprint specs)

/-- A constructor from anything, and one from a number. -/
def anyOrNumber : List (ConstructorSpec ℕ) :=
  [{ parameters := [{ name := "x", type := .object }], body := 1 },
    { parameters := [{ name := "x", type := .primitive .i32 }], body := 2 }]

/-- A constructor from a number, and one that writes the number back. -/
def numberOrWriteBack : List (ConstructorSpec ℕ) :=
  [{ parameters := [{ name := "x", type := .primitive .i32 }], body := 1 },
    { parameters := [{ name := "x", type := .primitive .i32, writeBack := true }], body := 2 }]

/-- The constructors of the class may be declared the other way round. -/
theorem reordering_oneClass (specs : List (ConstructorSpec ℕ))
    (hs : oneDeclared.Scopes (classBlueprint specs))
    (hh : (classBlueprint specs).halts oneDeclared = true) :
    (oneClass specs).Reachable ∧ (oneClass specs).Reordering (oneClass specs.reverse) := by
  have hd : oneDeclared.Declares (classBlueprint specs).target := ⟨_, rfl, rfl, rfl⟩
  have h := Reordering.define (.declare .classType "A" .empty)
    (List.reverse_perm specs).symm hd rfl hs hh
  exact ⟨h.reordered.1, h⟩

/-- A number goes to the constructor from numbers, whichever of the two is declared first. -/
theorem resolve_reordered_iff_anyOrNumber :
    Resolver.standard.SameInEveryOrder (oneClass anyOrNumber) declaredClass [.i32 1] ∧
    Resolver.standard.outcome? (oneClass anyOrNumber.reverse) declaredClass [.i32 1] =
      some (.ok [(.primitive .i32, .plain)]) := by
  obtain ⟨hu, -⟩ := reordering_oneClass anyOrNumber (by decide) (by decide)
  refine ⟨((resolve_reordered_iff hu (by decide) [.i32 1]).2 false).mpr ⟨?_, ?_⟩, rfl⟩
  · rintro ⟨-, c, d, hc, hd, hne⟩
    -- of the two constructors the one from numbers alone is as specific as both
    obtain ⟨only, honly⟩ : ∃ only, (Resolver.standard.exactCandidates (oneClass anyOrNumber)
        declaredClass [.i32 1]).filter (fun c =>
          (Resolver.standard.exactCandidates (oneClass anyOrNumber) declaredClass [.i32 1]).all
            fun d => Resolver.asSpecific (oneClass anyOrNumber) c d) = [only] := ⟨_, rfl⟩
    rw [Resolver.narrowest_iff hu Provider.listsConstructors_reflector,
      Resolver.isMostSpecific_iff] at hc hd
    obtain rfl := List.mem_singleton.mp (honly ▸ hc)
    obtain rfl := List.mem_singleton.mp (honly ▸ hd)
    exact hne rfl
  · rintro ⟨-, ⟨c, hc, hstuck⟩ | ⟨c, d, hc, hd, hcd⟩⟩
    · rw [← Binding.binds?_eq_none_iff hu fun _ =>
        hu.knows_of_mem_constructors hc.declared] at hstuck
      have hends : ∀ c ∈ (oneClass anyOrNumber).constructors declaredClass,
          Binding.binds? (oneClass anyOrNumber) c.parameters [.i32 1] ≠ none := by decide
      exact hends c hc.declared hstuck
    · rw [← Resolver.mem_exactCandidates Provider.listsConstructors_reflector] at hc hd
      rw [← Resolver.asSpecific?_eq_none_iff hu] at hcd
      have hends : ∀ c ∈ Resolver.standard.exactCandidates (oneClass anyOrNumber) declaredClass
          [.i32 1], ∀ d ∈ Resolver.standard.exactCandidates (oneClass anyOrNumber) declaredClass
          [.i32 1], Resolver.asSpecific? (oneClass anyOrNumber) c d ≠ none := by decide
      exact hends c hc d hd hcd

/-- **The order of declaration does matter**: a number goes to the plain constructor or to the one
that writes back, whichever of the two is declared first. -/
theorem not_every_resolve_reordered :
    (oneClass numberOrWriteBack).Reachable ∧ (oneClass numberOrWriteBack).Knows declaredClass ∧
    (oneClass numberOrWriteBack).Reordering (oneClass numberOrWriteBack.reverse) ∧
    Resolver.standard.outcome? (oneClass numberOrWriteBack) declaredClass [.i32 1] =
      some (.ok [(.primitive .i32, .plain)]) ∧
    Resolver.standard.outcome? (oneClass numberOrWriteBack.reverse) declaredClass [.i32 1] =
      some (.ok [(.primitive .i32, .writeBack)]) := by
  obtain ⟨hu, hr⟩ := reordering_oneClass numberOrWriteBack (by decide) (by decide)
  exact ⟨hu, by decide, hr, rfl, rfl⟩

end Universe
end Reflection
