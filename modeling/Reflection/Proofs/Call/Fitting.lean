import Reflection.Proofs.Call.Settled

/-!
# Proofs/Call/Fitting — which arguments bind

    number right ──▸ argument 0 ──▸ argument 1 ──▸ … ──▸ plan
         │               │               │
    count error      mismatch        no answer

Binding asks about the arguments from the left (`InTurn`): the parameter that an argument is held
against (`formalAt`) takes it, does not take it, or the question has no answer.  So binding succeeds
exactly when the arguments fit (`Fits`), fails at the first that offends, and goes on for ever
exactly when it comes to a question without an answer (`Stuck`).
-/

namespace Reflection

open Relation

variable {β : Type} {u : Universe β} {p tail : Parameter} {ps : List Parameter} {t : TypeRef}
  {v : Value} {args vs : List Value} {member : String}

/-! ## Questions in turn -/

section InTurn

variable {ε α γ : Type} {m : ExceptT ε Option α} {k : α → ExceptT ε Option γ}
  (Stall : ℕ → Prop) (Fault : ℕ → ε → Prop)

/-- Whether a question has a good answer: it has an answer, and not a bad one. -/
def Clear (l : ℕ) : Prop := ¬ Stall l ∧ ∀ e, ¬ Fault l e

/-- **How the questions from `i` to before `k` come out**: all have good answers, or the first that
has not a good one has a bad one or none. -/
inductive InTurn : ℕ → ℕ → Option (Except ε α) → Prop
  | passed {i k : ℕ} {a : α} (clear : ∀ l, i ≤ l → l < k → Clear Stall Fault l) :
      InTurn i k (some (.ok a))
  | failed {i j k : ℕ} {e : ε} (hi : i ≤ j) (hk : j < k)
      (clear : ∀ l, i ≤ l → l < j → Clear Stall Fault l) (stall : ¬ Stall j) (fault : Fault j e) :
      InTurn i k (some (.error e))
  | stuck {i j k : ℕ} (hi : i ≤ j) (hk : j < k)
      (clear : ∀ l, i ≤ l → l < j → Clear Stall Fault l) (stall : Stall j) : InTurn i k none

variable {Stall Fault}

/-- Questions after other questions. -/
theorem InTurn.bind {i j l : ℕ} (h : InTurn Stall Fault i j m.run) (hij : i ≤ j) (hjl : j ≤ l)
    (hk : ∀ a, m.run = some (.ok a) → InTurn Stall Fault j l (k a).run) :
    InTurn Stall Fault i l (m >>= k).run := by
  rw [run_bind_eq]
  generalize hm : m.run = r at h hk
  cases h with
  | failed hi hj clear stall fault => exact .failed hi (by omega) clear stall fault
  | stuck hi hj clear stall => exact .stuck hi (by omega) clear stall
  | @passed _ a clear =>
    have join {n : ℕ} (hn : ∀ l, j ≤ l → l < n → Clear Stall Fault l) (l : ℕ) (hil : i ≤ l)
        (hln : l < n) : Clear Stall Fault l :=
      if hlj : l < j then clear l hil hlj else hn l (by omega) hln
    have later := hk a rfl
    change InTurn Stall Fault i l (k a).run
    generalize (k a).run = r at later
    cases later with
    | passed clear' => exact .passed (join clear')
    | failed hi hj clear' stall fault => exact .failed (by omega) hj (join clear') stall fault
    | stuck hi hj clear' stall => exact .stuck (by omega) hj (join clear') stall

theorem InTurn.pure (i : ℕ) (a : α) : InTurn Stall Fault i i (pure a : ExceptT ε Option α).run :=
  .passed fun l hi hk => absurd hk (by omega)

end InTurn

/-! ## One argument -/

namespace Parameter

/-- Whether a parameter takes an argument: a value of its type, or null to be written back. -/
def Takes (u : Universe β) (p : Parameter) (v : Value) : Prop :=
  u.accepts p.type v = true ∨ (p.isWriteBack = true ∧ v = .null)

/-- Whether asking a parameter about an argument has no answer: null stands for the default of a
structure that comes to contain itself, or the search for acceptance never ends. -/
def Stalls (u : Universe β) (p : Parameter) (v : Value) : Prop :=
  (p.isWriteBack = true ∧ v = .null ∧ p.type.isStruct = true ∧ CycleAhead u.Holds p.type) ∨
    u.AcceptanceLoops p.type v

end Parameter

namespace Binding

/-- **What becomes of an argument**: it is bound if the parameter takes it, and refused if not,
unless there is no answer. -/
theorem bindOne?_cases (hu : u.Reachable) (hk : p.isWriteBack = true → u.Knows p.type) (v : Value) :
    (p.Stalls u v ∧ (bindOne? u p v).run = none) ∨
      (¬ p.Stalls u v ∧ ¬ p.Takes u v ∧ (bindOne? u p v).run = some (.error (mismatch p.type v))) ∨
      (¬ p.Stalls u v ∧ p.Takes u v ∧ ∃ b, (bindOne? u p v).run = some (.ok b)) := by
  unfold Parameter.Stalls Parameter.Takes
  by_cases hnull : p.isWriteBack = true ∧ v = .null
  · obtain ⟨hw, rfl⟩ := hnull
    have hdefault := Universe.default?_eq_none_iff hu (hk hw)
    rw [bindOne?_null hw]
    simp only [hw, true_and, Universe.not_acceptanceLoops_null, or_false, ← hdefault]
    cases u.default? p.type <;> simp
  · have hstall : ¬ (p.isWriteBack = true ∧ v = .null ∧ p.type.isStruct = true ∧
        CycleAhead u.Holds p.type) := fun h => hnull ⟨h.1, h.2.1⟩
    rw [bindOne?_of_not_null hnull]
    simp only [hstall, hnull, false_or, or_false]
    cases hc : u.accepts? p.type v with
    | none => exact .inl ⟨(Universe.accepts?_eq_none_iff hu).mp hc, rfl⟩
    | some c =>
      obtain ⟨hloops, rfl⟩ := (Universe.accepts?_eq_some_iff hu).mp hc
      cases hacc : u.accepts p.type v <;> simp [hloops]

/-! ## Fixed arguments -/

section Fixed

variable {Stall : ℕ → Prop} {Fault : ℕ → EngineError → Prop} {i : ℕ}

/-- Whether the question about an argument is whether a parameter takes it. -/
def Asks (u : Universe β) (p : Parameter) (v : Value) (stall : Prop)
    (fault : EngineError → Prop) : Prop :=
  (stall ↔ p.Stalls u v) ∧ ∀ e, fault e ↔ ¬ p.Takes u v ∧ e = mismatch p.type v

theorem bindOne?_inTurn (hu : u.Reachable) (hk : p.isWriteBack = true → u.Knows p.type)
    (hask : Asks u p v (Stall i) (Fault i)) :
    InTurn Stall Fault i (i + 1) (bindOne? u p v).run := by
  obtain ⟨hstall, hfault⟩ := hask
  rcases bindOne?_cases hu hk v with ⟨hs, h⟩ | ⟨hs, ht, h⟩ | ⟨hs, ht, b, h⟩
  · rw [h]
    exact .stuck le_rfl i.lt_succ_self (by omega) (hstall.mpr hs)
  · rw [h]
    exact .failed le_rfl i.lt_succ_self (by omega) (mt hstall.mp hs) ((hfault _).mpr ⟨ht, rfl⟩)
  · rw [h]
    refine .passed fun l hi hk => ?_
    obtain rfl : l = i := by omega
    exact ⟨mt hstall.mp hs, fun e he => ((hfault e).mp he).1 ht⟩

/-- **Fixed arguments in turn**: the one that binding stops at is the first that its parameter does
not take, or has no answer about. -/
theorem bindFixed?_inTurn (hu : u.Reachable)
    (hk : ∀ p ∈ ps, p.isWriteBack = true → u.Knows p.type)
    (hask : ∀ l p v, ps[l]? = some p → vs[l]? = some v →
      Asks u p v (Stall (i + l)) (Fault (i + l))) :
    InTurn Stall Fault i (i + min ps.length vs.length) (bindFixed? u ps vs).run := by
  induction ps generalizing vs i with
  | nil =>
    rw [List.length_nil, Nat.zero_min]
    exact .pure i []
  | cons p ps ih =>
    cases vs with
    | nil =>
      rw [List.length_nil, Nat.min_zero]
      exact .pure i []
    | cons v vs =>
      have hrest : InTurn Stall Fault (i + 1) (i + 1 + min ps.length vs.length)
          (bindFixed? u ps vs).run := by
        refine ih (fun q hq => hk q (List.mem_cons_of_mem p hq)) fun l q w hq hw => ?_
        rw [Nat.add_right_comm]
        exact hask (l + 1) q w hq hw
      have hone := bindOne?_inTurn hu (hk p List.mem_cons_self) (hask 0 p v rfl rfl)
      have hlen : i + 1 + min ps.length vs.length = i + min (p :: ps).length (v :: vs).length := by
        simp only [List.length_cons]
        omega
      rw [hlen] at hrest
      refine hone.bind (Nat.le_succ i) (by simp only [List.length_cons]; omega) fun b _ => ?_
      exact hrest.bind (by simp only [List.length_cons]; omega) le_rfl fun bs _ => InTurn.pure _ _

end Fixed

/-! ## Fitting, offending and getting stuck -/

/-- Whether a value is the only trailing argument and may stand for the whole tail. -/
structure MaybeWhole (ps : List Parameter) (args : List Value) (tail : Parameter) (v : Value) :
    Prop where
  isTail : Parameter.variadicTail? ps = some tail
  isOnly : args.drop (Parameter.fixedCount ps) = [v]
  shape : v = .null ∨ ∃ r, v = .array r

/-- Whether the trailing arguments are a single null or array of the tail type. -/
def PassesWhole (u : Universe β) (ps : List Parameter) (args : List Value) : Prop :=
  ∃ tail v, MaybeWhole ps args tail v ∧ u.accepts tail.type v = true

/-- **Whether arguments fit**: their number is right, each fixed one is taken by its parameter, and
the trailing ones are a whole tail or items of one. -/
structure Fits (u : Universe β) (ps : List Parameter) (args : List Value) : Prop where
  count : Counts ps args.length
  fixed : ∀ i p v, i < Parameter.fixedCount ps → ps[i]? = some p → args[i]? = some v → p.Takes u v
  trailing : ∀ tail, Parameter.variadicTail? ps = some tail → PassesWhole u ps args ∨
    ∀ v ∈ args.drop (Parameter.fixedCount ps),
      u.accepts (tail.type.element?.getD .object) v = true

/-- The parameter that an argument is held against: its own, or an item of the tail. -/
def formalAt (ps : List Parameter) (i : ℕ) : Option Parameter :=
  if i < Parameter.fixedCount ps then ps[i]?
  else (Parameter.variadicTail? ps).map fun tail => itemOf tail.type

/-- Whether an argument is not taken by the parameter that it is held against. -/
def Offends (u : Universe β) (ps : List Parameter) (args : List Value) (i : ℕ) (p : Parameter)
    (v : Value) : Prop :=
  formalAt ps i = some p ∧ args[i]? = some v ∧ ¬ p.Takes u v ∧
    (Parameter.fixedCount ps ≤ i → ¬ PassesWhole u ps args)

/-- Whether there is no answer about an argument: from its parameter, or about its being the whole
tail. -/
def StallsAt (u : Universe β) (ps : List Parameter) (args : List Value) (i : ℕ) : Prop :=
  ∃ p v, formalAt ps i = some p ∧ args[i]? = some v ∧
    ((p.Stalls u v ∧ (Parameter.fixedCount ps ≤ i → ¬ PassesWhole u ps args)) ∨
      (Parameter.fixedCount ps ≤ i ∧
        ∃ tail, MaybeWhole ps args tail v ∧ u.AcceptanceLoops tail.type v))

/-- Whether there is an answer about an argument, and it does not offend. -/
def PassesAt (u : Universe β) (ps : List Parameter) (args : List Value) (i : ℕ) : Prop :=
  ¬ StallsAt u ps args i ∧ ∀ p v, ¬ Offends u ps args i p v

/-- **Whether binding never ends**: there is no answer about some argument, and none before it
offends. -/
def Stuck (u : Universe β) (ps : List Parameter) (args : List Value) : Prop :=
  Counts ps args.length ∧
    ∃ i, StallsAt u ps args i ∧ ∀ j < i, ∀ p v, ¬ Offends u ps args j p v

theorem formalAt_of_le {i : ℕ} (htail : Parameter.variadicTail? ps = some tail)
    (hi : Parameter.fixedCount ps ≤ i) : formalAt ps i = some (itemOf tail.type) := by
  rw [formalAt, if_neg (Nat.not_lt.mpr hi), htail]
  rfl

theorem MaybeWhole.unique {p q : Parameter} {v w : Value} (h : MaybeWhole ps args p v)
    (h' : MaybeWhole ps args q w) : p = q ∧ v = w :=
  ⟨Option.some.inj (h.isTail.symm.trans h'.isTail),
    (List.cons.inj (h.isOnly.symm.trans h'.isOnly)).1⟩

theorem MaybeWhole.getElem? (h : MaybeWhole ps args tail v) :
    args[Parameter.fixedCount ps]? = some v := by
  rw [← Nat.add_zero (Parameter.fixedCount ps), ← List.getElem?_drop, h.isOnly]
  rfl

/-- The mismatch that an argument brings about. -/
def FaultAt (u : Universe β) (ps : List Parameter) (args : List Value) (i : ℕ)
    (e : EngineError) : Prop :=
  ∃ p v, Offends u ps args i p v ∧ e = mismatch p.type v

/-- What is asked about an argument that is not looked at as a whole tail. -/
theorem asks_of_formalAt {i : ℕ} (hp : formalAt ps i = some p) (hv : args[i]? = some v)
    (hwhole : Parameter.fixedCount ps ≤ i → ¬ PassesWhole u ps args ∧
      ∀ tail v, MaybeWhole ps args tail v → ¬ u.AcceptanceLoops tail.type v) :
    Asks u p v (StallsAt u ps args i) (FaultAt u ps args i) := by
  refine ⟨⟨?_, fun hs => ⟨p, v, hp, hv, .inl ⟨hs, fun hi => (hwhole hi).1⟩⟩⟩, fun e => ⟨?_, ?_⟩⟩
  · rintro ⟨q, w, hq, hw, h⟩
    obtain rfl := Option.some.inj (hp.symm.trans hq)
    obtain rfl := Option.some.inj (hv.symm.trans hw)
    rcases h with ⟨hs, -⟩ | ⟨hi, tail, hmaybe, hloops⟩
    · exact hs
    · exact absurd hloops ((hwhole hi).2 tail v hmaybe)
  · rintro ⟨q, w, ⟨hq, hw, ht, -⟩, rfl⟩
    obtain rfl := Option.some.inj (hp.symm.trans hq)
    obtain rfl := Option.some.inj (hv.symm.trans hw)
    exact ⟨ht, rfl⟩
  · rintro ⟨ht, rfl⟩
    exact ⟨p, v, ⟨hp, hv, ht, fun hi => (hwhole hi).1⟩, rfl⟩

/-! ## All arguments -/

/-- Packing in turn, where the trailing arguments are not taken as a whole. -/
theorem packItems?_inTurn (hu : u.Reachable) (htail : Parameter.variadicTail? ps = some tail)
    (hcount : Parameter.fixedCount ps ≤ args.length)
    (hwhole : ¬ PassesWhole u ps args ∧
      ∀ tail v, MaybeWhole ps args tail v → ¬ u.AcceptanceLoops tail.type v) :
    InTurn (StallsAt u ps args) (FaultAt u ps args) (Parameter.fixedCount ps) args.length
      (packItems? u tail.type (args.drop (Parameter.fixedCount ps))).run := by
  rw [packItems?_eq]
  have hlen : Parameter.fixedCount ps + min
      (List.replicate (args.drop (Parameter.fixedCount ps)).length (itemOf tail.type)).length
      (args.drop (Parameter.fixedCount ps)).length = args.length := by
    simp only [List.length_replicate, Nat.min_self, List.length_drop]
    omega
  have hitems : InTurn (StallsAt u ps args) (FaultAt u ps args) (Parameter.fixedCount ps)
      args.length (bindFixed? u
        (List.replicate (args.drop (Parameter.fixedCount ps)).length (itemOf tail.type))
        (args.drop (Parameter.fixedCount ps))).run := by
    rw [← hlen]
    refine bindFixed?_inTurn hu (fun p hp hw => ?_) fun l p v hp hv => ?_
    · obtain rfl := List.eq_of_mem_replicate hp
      simp [itemOf, Parameter.isWriteBack] at hw
    · obtain rfl := List.eq_of_mem_replicate (List.mem_of_getElem? hp)
      rw [List.getElem?_drop] at hv
      exact asks_of_formalAt (formalAt_of_le htail (Nat.le_add_right ..)) hv fun _ => hwhole
  exact hitems.bind hcount le_rfl fun _ _ => .pure _ _

/-- A single null or array is the whole tail, or an item, or there is no answer. -/
theorem MaybeWhole.inTurn (hu : u.Reachable) (h : MaybeWhole ps args tail v) :
    InTurn (StallsAt u ps args) (FaultAt u ps args) (Parameter.fixedCount ps) args.length
      (bindTail? u tail.type [v]).run := by
  have hlast : Parameter.fixedCount ps < args.length := (List.getElem?_eq_some_iff.mp h.getElem?).1
  rw [bindTail?_single, passesWhole?_eq h.shape]
  cases hc : u.accepts? tail.type v with
  | none =>
    have hloops := (Universe.accepts?_eq_none_iff hu).mp hc
    exact .stuck le_rfl hlast (by omega)
      ⟨_, v, formalAt_of_le h.isTail le_rfl, h.getElem?, .inr ⟨le_rfl, tail, h, hloops⟩⟩
  | some c =>
    obtain ⟨hloops, hacc⟩ := (Universe.accepts?_eq_some_iff hu).mp hc
    have hends (q : Parameter) (w : Value) (hq : MaybeWhole ps args q w) :
        ¬ u.AcceptanceLoops q.type w := by
      obtain ⟨rfl, rfl⟩ := h.unique hq
      exact hloops
    cases c with
    | true =>
      have hwhole : PassesWhole u ps args := ⟨tail, v, h, hacc⟩
      refine .passed fun l hl _ => ⟨?_, ?_⟩
      · rintro ⟨p, w, -, -, ⟨-, hnot⟩ | ⟨-, q, hq, hloops'⟩⟩
        · exact hnot hl hwhole
        · exact hends q w hq hloops'
      · rintro e ⟨p, w, ⟨-, -, -, hnot⟩, -⟩
        exact hnot hl hwhole
    | false =>
      have hnot : ¬ PassesWhole u ps args := by
        rintro ⟨q, w, hq, hacc'⟩
        obtain ⟨rfl, rfl⟩ := h.unique hq
        simp [hacc] at hacc'
      have hpack := packItems?_inTurn hu h.isTail (Nat.le_of_lt hlast) ⟨hnot, hends⟩
      rw [h.isOnly] at hpack
      exact hpack

/-- **The trailing arguments in turn.** -/
theorem bindTail?_inTurn (hu : u.Reachable) (htail : Parameter.variadicTail? ps = some tail)
    (hcount : Parameter.fixedCount ps ≤ args.length) :
    InTurn (StallsAt u ps args) (FaultAt u ps args) (Parameter.fixedCount ps) args.length
      (bindTail? u tail.type (args.drop (Parameter.fixedCount ps))).run := by
  by_cases hmaybe : ∃ v, MaybeWhole ps args tail v
  · obtain ⟨v, hmaybe⟩ := hmaybe
    rw [hmaybe.isOnly]
    exact hmaybe.inTurn hu
  · have hnot (q : Parameter) (v : Value) (h : MaybeWhole ps args q v) : False :=
      hmaybe ⟨v, htail, h.isOnly, h.shape⟩
    have hpack := packItems?_inTurn hu htail hcount
      ⟨fun ⟨q, v, h, _⟩ => hnot q v h, fun q v h => (hnot q v h).elim⟩
    by_cases hlen : (args.drop (Parameter.fixedCount ps)).length = 1
    · obtain ⟨v, hv⟩ := List.length_eq_one_iff.mp hlen
      have hshape : ¬ (v = .null ∨ ∃ r, v = .array r) := fun h => hnot tail v ⟨htail, hv, h⟩
      rw [hv] at hpack ⊢
      rw [bindTail?_single, passesWhole?_of_not hshape]
      exact hpack
    · rw [bindTail?_of_length_ne_one hlen]
      exact hpack

/-- **The arguments in turn**, if their number is right. -/
theorem plan?_inTurn (hu : u.Reachable) (hk : ∀ p ∈ ps, u.Knows p.type)
    (hcount : Counts ps args.length) :
    InTurn (StallsAt u ps args) (FaultAt u ps args) 0 args.length (plan? u member ps args).run := by
  have hle := hcount.fixedCount_le
  have hlen : 0 + min (ps.take (Parameter.fixedCount ps)).length args.length =
      Parameter.fixedCount ps := by
    have := Parameter.fixedCount_le ps
    simp only [List.length_take]
    omega
  have hfixed : InTurn (StallsAt u ps args) (FaultAt u ps args) 0
      (0 + min (ps.take (Parameter.fixedCount ps)).length args.length)
      (bindFixed? u (ps.take (Parameter.fixedCount ps)) args).run := by
    refine bindFixed?_inTurn hu (fun p hp _ => hk p (List.mem_of_mem_take hp)) fun l p v hp hv => ?_
    rw [List.getElem?_take, Option.ite_none_right_eq_some] at hp
    obtain ⟨hl, hp⟩ := hp
    rw [Nat.zero_add]
    refine asks_of_formalAt ?_ hv fun h => absurd hl (Nat.not_lt.mpr h)
    rw [formalAt, if_pos hl, hp]
  rw [hlen] at hfixed
  rw [plan?_of_counts hcount]
  refine hfixed.bind (Nat.zero_le _) hle fun fixed _ => ?_
  cases htail : Parameter.variadicTail? ps with
  | none =>
    have hn : args.length = Parameter.fixedCount ps := by
      simpa [Counts, (Parameter.fixedCount_of_variadicTail? htail).2] using hcount
    rw [hn]
    exact .pure _ _
  | some tail => exact (bindTail?_inTurn hu htail hle).bind hle le_rfl fun _ _ => .pure _ _

/-! ## What fits -/

/-! ## What the bounded questions let through -/

theorem exists_bindOne_iff : (∃ b, bindOne u p v = .ok b) ↔ p.Takes u v := by
  rw [bindOne, Parameter.Takes, ← Value.isNull_iff, ← Bool.and_eq_true]
  split_ifs with hnull hacc
  · exact iff_of_true ⟨_, rfl⟩ (.inr hnull)
  · exact iff_of_true ⟨_, rfl⟩ (.inl hacc)
  · exact iff_of_false (by simp) (not_or.mpr ⟨hacc, hnull⟩)

theorem exists_bindFixed_iff : (∃ bs, bindFixed u ps vs = .ok bs) ↔
    ∀ (i : ℕ) (p : Parameter) (v : Value), ps[i]? = some p → vs[i]? = some v → p.Takes u v := by
  induction ps generalizing vs with
  | nil => exact iff_of_true ⟨[], rfl⟩ (by simp)
  | cons p ps ih =>
    cases vs with
    | nil => exact iff_of_true ⟨[], rfl⟩ (by simp)
    | cons v vs =>
      rw [bindFixed]
      constructor
      · rintro ⟨_, h⟩
        obtain ⟨b, hb, h⟩ := bind_eq_ok.mp h
        obtain ⟨bs, hbs, -⟩ := bind_eq_ok.mp h
        rintro (_ | i) q w hq hw
        · obtain rfl := Option.some.inj hq
          obtain rfl := Option.some.inj hw
          exact exists_bindOne_iff.mp ⟨b, hb⟩
        · exact ih.mp ⟨bs, hbs⟩ i q w hq hw
      · intro h
        obtain ⟨b, hb⟩ := exists_bindOne_iff.mpr (h 0 p v rfl rfl)
        obtain ⟨bs, hbs⟩ := ih.mpr fun i => h (i + 1)
        exact ⟨b :: bs, bind_eq_ok.mpr ⟨b, hb, bind_eq_ok.mpr ⟨bs, hbs, rfl⟩⟩⟩

theorem exists_packItems_iff : (∃ tl, packItems u t vs = .ok tl) ↔
    ∀ v ∈ vs, u.accepts (t.element?.getD .object) v = true := by
  simp only [packItems]
  split
  · next v hv =>
    refine iff_of_false (by simp) fun hall => ?_
    have hrefused := List.find?_some hv
    simp [hall v (List.mem_of_find?_eq_some hv)] at hrefused
  · next hnone => exact iff_of_true ⟨_, rfl⟩ (by simpa using hnone)

theorem passesWhole_iff :
    passesWhole u t v = true ↔ (v = .null ∨ ∃ r, v = .array r) ∧ u.accepts t v = true := by
  cases v <;> simp [passesWhole]

theorem exists_bindTail_iff (htail : Parameter.variadicTail? ps = some tail) :
    (∃ tl, bindTail u tail.type (args.drop (Parameter.fixedCount ps)) = .ok tl) ↔
      PassesWhole u ps args ∨ ∀ v ∈ args.drop (Parameter.fixedCount ps),
        u.accepts (tail.type.element?.getD .object) v = true := by
  have hwhole {w : Value} (hdrop : args.drop (Parameter.fixedCount ps) = [w]) :
      PassesWhole u ps args ↔ passesWhole u tail.type w = true := by
    rw [passesWhole_iff]
    constructor
    · rintro ⟨q, v, h, hacc⟩
      obtain rfl := Option.some.inj (htail.symm.trans h.isTail)
      obtain rfl := List.cons.inj (hdrop.symm.trans h.isOnly) |>.1
      exact ⟨h.shape, hacc⟩
    · rintro ⟨hshape, hacc⟩
      exact ⟨tail, w, ⟨htail, hdrop, hshape⟩, hacc⟩
  unfold bindTail
  split
  · next w hdrop =>
    rw [hwhole hdrop]
    split_ifs with h
    · exact iff_of_true ⟨_, rfl⟩ (.inl h)
    · rw [hdrop, exists_packItems_iff, or_iff_right h]
  · next hne =>
    rw [exists_packItems_iff, or_iff_right]
    rintro ⟨q, v, h, -⟩
    exact hne v h.isOnly

theorem plan_of_counts {member : String} (h : Counts ps args.length) :
    plan u member ps args = do
      let fixed ← bindFixed u (ps.take (Parameter.fixedCount ps)) args
      match Parameter.variadicTail? ps with
      | none => return ⟨fixed, none⟩
      | some tail =>
        return ⟨fixed, some (← bindTail u tail.type (args.drop (Parameter.fixedCount ps)))⟩ := by
  rw [plan, countFits_iff.mpr h]
  rfl

/-- **There is a plan exactly for the arguments that fit**, also where binding never ends. -/
theorem exists_plan_iff_fits (member : String) :
    (∃ pl, plan u member ps args = .ok pl) ↔ Fits u ps args := by
  by_cases hcount : Counts ps args.length
  swap
  · refine iff_of_false ?_ fun h => hcount h.count
    simp [plan, mt countFits_iff.mp hcount]
  have hfixed : (∃ bs, bindFixed u (ps.take (Parameter.fixedCount ps)) args = .ok bs) ↔
      ∀ i p v, i < Parameter.fixedCount ps → ps[i]? = some p → args[i]? = some v →
        p.Takes u v := by
    simp only [exists_bindFixed_iff, List.getElem?_take,
      Option.ite_none_right_eq_some, and_imp]
  rw [plan_of_counts hcount]
  cases htail : Parameter.variadicTail? ps with
  | none =>
    constructor
    · rintro ⟨pl, h⟩
      obtain ⟨bs, hbs, -⟩ := bind_eq_ok.mp h
      exact ⟨hcount, hfixed.mp ⟨bs, hbs⟩, by simp [htail]⟩
    · intro h
      obtain ⟨bs, hbs⟩ := hfixed.mpr h.fixed
      exact ⟨_, bind_eq_ok.mpr ⟨bs, hbs, rfl⟩⟩
  | some tail =>
    constructor
    · rintro ⟨pl, h⟩
      obtain ⟨bs, hbs, h⟩ := bind_eq_ok.mp h
      obtain ⟨tl, htl, -⟩ := bind_eq_ok.mp h
      refine ⟨hcount, hfixed.mp ⟨bs, hbs⟩, fun q hq => ?_⟩
      obtain rfl := Option.some.inj (htail.symm.trans hq)
      exact (exists_bindTail_iff htail).mp ⟨tl, htl⟩
    · intro h
      obtain ⟨bs, hbs⟩ := hfixed.mpr h.fixed
      obtain ⟨tl, htl⟩ := (exists_bindTail_iff htail).mpr (h.trailing tail htail)
      exact ⟨_, bind_eq_ok.mpr ⟨bs, hbs, bind_eq_ok.mpr ⟨tl, htl, rfl⟩⟩⟩

/-- **What binds is what fits.** -/
theorem binds_iff_fits : binds u ps args = true ↔ Fits u ps args := by
  rw [← exists_plan_iff_fits "", binds]
  cases plan u "" ps args <;> simp [Except.isOk, Except.toBool]

/-! ## Which arguments bind -/

/-- **Binding is exact**: it succeeds exactly for the arguments that fit, a wrong number comes
before everything else, otherwise the first argument that offends is named, and what is made of
arguments that fit is typed and binds to itself. -/
structure BindsExactly (u : Universe β) (member : String) (ps : List Parameter)
    (args : List Value) : Prop where
  succeeds_iff : (∃ pl, (plan? u member ps args).run = some (.ok pl)) ↔ Fits u ps args
  count_first : ¬ Counts ps args.length → (plan? u member ps args).run =
    some (.error (.parameterCount member (Parameter.fixedCount ps) args.length
      (Parameter.endsVariadic ps)))
  names_leftmost : Counts ps args.length → ¬ Fits u ps args →
    ∃ i p v, Offends u ps args i p v ∧ (∀ j < i, ∀ q w, ¬ Offends u ps args j q w) ∧
      (plan? u member ps args).run = some (.error (mismatch p.type v))
  settled : ∀ pl s, (plan? u member ps args).run = some (.ok pl) →
    List.Forall₂ (fun p b => u.accepts? p.type b = some true) ps (pl.place s).1 ∧
      BindsToItself u member ps (pl.place s).1

section

variable (hu : u.Reachable) (hk : ∀ p ∈ ps, u.Knows p.type)

include hu hk

/-- **How binding comes out**, if the number of the arguments is right. -/
theorem plan?_cases (member : String) (hcount : Counts ps args.length) :
    ((∃ pl, (plan? u member ps args).run = some (.ok pl)) ∧ ∀ i, PassesAt u ps args i) ∨
      (∃ i p v, (plan? u member ps args).run = some (.error (mismatch p.type v)) ∧
        Offends u ps args i p v ∧ ¬ StallsAt u ps args i ∧ ∀ j < i, PassesAt u ps args j) ∨
      ((plan? u member ps args).run = none ∧
        ∃ i, StallsAt u ps args i ∧ ∀ j < i, PassesAt u ps args j) := by
  have hturn : InTurn (StallsAt u ps args) (FaultAt u ps args) 0 args.length
      (plan? u member ps args).run := plan?_inTurn hu hk hcount
  have passes {j : ℕ} (h : Clear (StallsAt u ps args) (FaultAt u ps args) j) :
      PassesAt u ps args j := ⟨h.1, fun q w hq => h.2 _ ⟨q, w, hq, rfl⟩⟩
  generalize (plan? u member ps args).run = r at hturn
  cases hturn with
  | @passed _ pl clear =>
    refine .inl ⟨⟨pl, rfl⟩, fun i => ?_⟩
    by_cases hi : i < args.length
    · exact passes (clear i (Nat.zero_le i) hi)
    · have hnone : args[i]? = none := List.getElem?_eq_none (Nat.le_of_not_lt hi)
      refine ⟨?_, ?_⟩
      · rintro ⟨p, v, -, hv, -⟩
        simp [hnone] at hv
      · rintro p v ⟨-, hv, -⟩
        simp [hnone] at hv
  | failed hi hj clear stall fault =>
    obtain ⟨p, v, hoffends, rfl⟩ := fault
    refine .inr (.inl ⟨_, p, v, rfl, hoffends, stall, fun j hj => ?_⟩)
    exact passes (clear j (Nat.zero_le j) hj)
  | stuck hi hj clear stall =>
    exact .inr (.inr ⟨rfl, _, stall, fun j hj => passes (clear j (Nat.zero_le j) hj)⟩)

/-- **Binding goes on for ever exactly when it is stuck.** -/
theorem plan?_eq_none_iff (member : String) :
    (plan? u member ps args).run = none ↔ Stuck u ps args := by
  by_cases hcount : Counts ps args.length
  · rcases plan?_cases hu hk member hcount with
      ⟨⟨pl, h⟩, hclear⟩ | ⟨i, p, v, h, hoffends, hstall, hclear⟩ | ⟨h, hstuck⟩
    · rw [h]
      refine iff_of_false (by simp) ?_
      rintro ⟨-, i, hstall, -⟩
      exact (hclear i).1 hstall
    · rw [h]
      refine iff_of_false (by simp) ?_
      rintro ⟨-, j, hj, hbefore⟩
      rcases Nat.lt_trichotomy i j with hij | rfl | hij
      · exact hbefore i hij p v hoffends
      · exact hstall hj
      · exact (hclear j hij).1 hj
    · obtain ⟨i, hstall, hbefore⟩ := hstuck
      exact iff_of_true h ⟨hcount, i, hstall, fun j hj => (hbefore j hj).2⟩
  · rw [plan?_of_not_counts hcount]
    exact iff_of_false (by simp) fun h => hcount h.1

/-- Binding that is not stuck succeeds exactly for the arguments that fit. -/
theorem exists_plan?_iff_fits (member : String) (h : ¬ Stuck u ps args) :
    (∃ pl, (plan? u member ps args).run = some (.ok pl)) ↔ Fits u ps args := by
  obtain ⟨x, hx⟩ := Option.ne_none_iff_exists'.mp (mt (plan?_eq_none_iff hu hk member).mp h)
  rw [← exists_plan_iff_fits member, hx, answers_plan hu member ps args x hx]
  simp only [Option.some_inj]

theorem bindsExactly_of_not_stuck (member : String)
    (hv : ∀ p ∈ ps, p.isVariadic = true → p.type.isArray = true) (h : ¬ Stuck u ps args) :
    BindsExactly u member ps args where
  succeeds_iff := exists_plan?_iff_fits hu hk member h
  count_first := plan?_of_not_counts
  names_leftmost hcount hnot := by
    rcases plan?_cases hu hk member hcount with
      ⟨hok, -⟩ | ⟨i, p, v, herr, hoffends, -, hclear⟩ | ⟨hnone, -⟩
    · exact absurd ((exists_plan?_iff_fits hu hk member h).mp hok) hnot
    · exact ⟨i, p, v, hoffends, fun j hj => (hclear j hj).2, herr⟩
    · exact absurd ((plan?_eq_none_iff hu hk member).mp hnone) h
  settled _ s hpl := settled_of_plan? hu hv s hpl

/-- Binding that never ends is not exact: it neither succeeds nor names an argument. -/
theorem not_stuck_of_bindsExactly (h : BindsExactly u member ps args) : ¬ Stuck u ps args := by
  intro hstuck
  have hnone := (plan?_eq_none_iff hu hk member).mpr hstuck
  by_cases hfits : Fits u ps args
  · obtain ⟨pl, hpl⟩ := h.succeeds_iff.mpr hfits
    simp [hnone] at hpl
  · obtain ⟨i, p, v, -, -, herr⟩ := h.names_leftmost hstuck.1 hfits
    simp [hnone] at herr

end

/-- Without circles of interfaces, and structures that contain themselves to write back, binding
always ends. -/
theorem not_stuck_of_acyclic (hu : u.Reachable) (hacyclic : ∀ i, ¬ TransGen u.Names i i)
    (hstruct : ∀ p ∈ ps, p.isWriteBack = true →
      ¬ (p.type.isStruct = true ∧ CycleAhead u.Holds p.type)) : ¬ Stuck u ps args := by
  rintro ⟨-, i, ⟨p, v, hp, -, ⟨⟨hw, -, hcycle⟩ | hloops, -⟩ | ⟨-, tail, -, hloops⟩⟩, -⟩
  · rw [formalAt] at hp
    split_ifs at hp
    · exact hstruct p (List.mem_of_getElem? hp) hw hcycle
    · obtain ⟨tail, -, rfl⟩ := Option.map_eq_some_iff.mp hp
      simp [itemOf, Parameter.isWriteBack] at hw
  · exact Universe.not_acceptanceLoops_of_acyclic hu hacyclic _ v hloops
  · exact Universe.not_acceptanceLoops_of_acyclic hu hacyclic _ v hloops

/-- **Binding is exact exactly when it is not stuck**; it is stuck exactly when it goes on for ever,
and never without circles.  Wherever it ends, the bounded questions give the same plan. -/
theorem binding_exact_iff (hu : u.Reachable) (hk : ∀ p ∈ ps, u.Knows p.type)
    (hv : ∀ p ∈ ps, p.isVariadic = true → p.type.isArray = true) (member : String)
    (args : List Value) :
    (BindsExactly u member ps args ↔ ¬ Stuck u ps args) ∧
      ((plan? u member ps args).run = none ↔ Stuck u ps args) ∧
      ((∀ i, ¬ TransGen u.Names i i) →
        (∀ p ∈ ps, p.isWriteBack = true →
          ¬ (p.type.isStruct = true ∧ CycleAhead u.Holds p.type)) →
        BindsExactly u member ps args) ∧
      ∀ r, (plan? u member ps args).run = some r → plan u member ps args = r :=
  ⟨⟨not_stuck_of_bindsExactly hu hk, bindsExactly_of_not_stuck hu hk member hv⟩,
    plan?_eq_none_iff hu hk member,
    fun hacyclic hstruct =>
      bindsExactly_of_not_stuck hu hk member hv (not_stuck_of_acyclic hu hacyclic hstruct),
    answers_plan hu member ps args⟩

/-! ### A structure to write back -/

/-- A structure that contains itself, to be written back, and any number of integers. -/
def structureOut : List Parameter :=
  [⟨"out", .declared ⟨0, .structType, "S"⟩, .writeBack⟩,
    ⟨"rest", .array (.primitive .i32), .variadic⟩]

theorem knows_structureOut : ∀ p ∈ structureOut, World.selfContaining.types.Knows p.type :=
  List.forall_mem_cons.mpr ⟨⟨_, rfl, rfl, rfl⟩, List.forall_mem_singleton.mpr trivial⟩

/-- A structure and two integers bind exactly. -/
theorem binding_exact_iff_structureOut :
    BindsExactly World.selfContaining.types "f" structureOut
      [.struct (.declared ⟨0, .structType, "S"⟩) [], .i32 1, .i32 2] := by
  obtain ⟨exact_iff, ends_iff, -⟩ := binding_exact_iff World.reachable_selfContaining
    knows_structureOut (by decide) "f"
    [.struct (.declared ⟨0, .structType, "S"⟩) [], .i32 1, .i32 2]
  exact exact_iff.mpr fun hstuck => nomatch ends_iff.mpr hstuck

/-- **Not all that fits binds**: null fits a structure to be written back, but stands for a default
that this structure does not have, and binding never ends. -/
theorem not_every_binding_exact :
    World.selfContaining.types.Reachable ∧
      (∀ p ∈ structureOut, World.selfContaining.types.Knows p.type) ∧
      Fits World.selfContaining.types structureOut [.null] ∧
      (plan? World.selfContaining.types "f" structureOut [.null]).run = none ∧
      ¬ BindsExactly World.selfContaining.types "f" structureOut [.null] := by
  have fits : Fits World.selfContaining.types structureOut [.null] := by
    refine ⟨Nat.le_refl 1, fun i p v hi hp hv => ?_, fun tail _ => .inr fun v hv => nomatch hv⟩
    obtain rfl : i = 0 := Nat.lt_one_iff.mp hi
    obtain rfl := Option.some.inj hp
    obtain rfl := Option.some.inj hv
    exact .inr ⟨rfl, rfl⟩
  refine ⟨World.reachable_selfContaining, knows_structureOut, fits, rfl, fun h => ?_⟩
  obtain ⟨pl, hpl⟩ := h.succeeds_iff.mpr fits
  exact nomatch hpl

end Binding

end Reflection
