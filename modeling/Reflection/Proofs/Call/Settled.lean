import Reflection.Proofs.Call.Bound
import Reflection.Proofs.Universe.DefaultEnds
import Reflection.Proofs.Universe.Subsumption

/-!
# Proofs/Call/Settled — what binding makes, binds to itself

    arguments  ──plan?──▸  plan  ──place──▸  list of the callee
                                               │        ▴
                                               └─plan?──┘

A bound value is of the type of its parameter and would be bound as it is: an argument that was
accepted, the default that null stands for, or an array of the tail type, which is then taken as the
whole tail (`Settled`).  So binding what binding made changes nothing, and makes no second array.

Binding may go on for ever; where it does not, it comes to what it comes to with bounded questions
(`Answers`).
-/

namespace Reflection

open Relation

variable {β : Type} {u : Universe β} {p tail : Parameter} {ps : List Parameter} {t : TypeRef}
  {v b : Value} {args vs bs : List Value} {member : String}

/-! ## Computations that may go on for ever -/

section Run

variable {ε α γ : Type} {m : ExceptT ε Option α} {k : α → ExceptT ε Option γ}

theorem run_bind_eq (m : ExceptT ε Option α) (k : α → ExceptT ε Option γ) :
    (m >>= k).run = m.run.bind fun
      | .ok a => (k a).run
      | .error e => some (.error e) := by
  rcases m with _ | _ | _ <;> rfl

theorem run_bind_eq_ok {c : γ} :
    (m >>= k).run = some (.ok c) ↔ ∃ a, m.run = some (.ok a) ∧ (k a).run = some (.ok c) := by
  rw [run_bind_eq]
  rcases m.run with _ | _ | _ <;> simp

/-- Whether a computation is what another one comes to wherever it has an answer. -/
def Answers (m : ExceptT ε Option α) (x : Except ε α) : Prop := ∀ r, m.run = some r → x = r

theorem Answers.pure (a : α) : Answers (pure a : ExceptT ε Option α) (.ok a) := by
  rintro r ⟨⟩
  rfl

theorem Answers.bind {x : Except ε α} {f : α → Except ε γ} (h : Answers m x)
    (hk : ∀ a, Answers (k a) (f a)) : Answers (m >>= k) (x >>= f) := by
  intro r hr
  rw [run_bind_eq] at hr
  cases hm : m.run with
  | none => simp [hm] at hr
  | some y =>
    obtain rfl := h y hm
    rw [hm] at hr
    cases x with
    | error e => exact Option.some.inj hr
    | ok a => exact hk a r hr

end Run

/-! ## Defaults and arrays -/

namespace Universe

variable {d : Value}

theorem runtimeType?_plainDefault (t : TypeRef) :
    plainDefault t = .null ∨ (plainDefault t).runtimeType? = some t.core := by
  cases t with
  | primitive p => cases p <;> simp [plainDefault, Value.runtimeType?, TypeRef.core]
  | declared d =>
    rw [plainDefault]
    split
    · exact .inr rfl
    · exact .inl rfl
  | _ => exact .inl rfl

/-- A default is null or of the very type. -/
theorem runtimeType?_defaultWithin {n : ℕ} (h : u.defaultWithin n t = some d) :
    d = .null ∨ d.runtimeType? = some t.core := by
  cases hs : t.isStruct with
  | false =>
    rw [defaultWithin_of_not_isStruct u hs] at h
    obtain rfl := Option.some.inj h
    exact runtimeType?_plainDefault t
  | true =>
    cases n with
    | zero => simp [defaultWithin_zero u hs] at h
    | succ n =>
      rw [defaultWithin_succ u hs] at h
      obtain ⟨slots, -, rfl⟩ := Option.map_eq_some_iff.mp h
      cases t with
      | declared d => exact .inr rfl
      | _ => simp [TypeRef.isStruct, TypeRef.hasKind] at hs

/-- **The default of a type is of the type**, and the search for that has an answer. -/
theorem accepts?_default? (hu : u.Reachable) (h : u.default? t = some d) :
    u.accepts? t d = some true := by
  have hacc : u.accepts t d = true := by simpa [default, h] using u.accepts_default t
  refine (accepts?_eq_some_iff hu).mpr ⟨?_, hacc⟩
  rcases runtimeType?_defaultWithin h with rfl | hr
  · exact not_acceptanceLoops_null t
  · rw [acceptanceLoops_iff hr]
    exact not_loops_self _

/-- An array over a type is of the array type, and the search for that has an answer. -/
theorem accepts?_array (hu : u.Reachable) (e : TypeRef) (cell : ℕ) :
    u.accepts? (.array e) (.array ⟨e, cell⟩) = some true := by
  refine (accepts?_eq_some_iff hu).mpr ⟨?_, ?_⟩
  · rw [acceptanceLoops_iff rfl]
    exact not_loops_self _
  · rw [accepts_eq_isSubtype rfl]
    exact u.isSubtype_self _

end Universe

namespace Binding

/-! ## One argument -/

theorem bindOne?_null (hw : p.isWriteBack = true) :
    (bindOne? u p .null).run = (u.default? p.type).map .ok := by
  rw [bindOne?, hw]
  cases u.default? p.type <;> rfl

theorem bindOne?_of_not_null (h : ¬ (p.isWriteBack = true ∧ v = .null)) :
    (bindOne? u p v).run = (u.accepts? p.type v).map fun c =>
      if c then .ok v else .error (mismatch p.type v) := by
  have hif : ¬ (p.isWriteBack && v.isNull) = true := by simpa using h
  rw [bindOne?, if_neg hif]
  rcases u.accepts? p.type v with _ | _ | _ <;> rfl

/-- Whether a bound value is of the type of its parameter, and binds to itself. -/
def Settled (u : Universe β) (p : Parameter) (b : Value) : Prop :=
  u.accepts? p.type b = some true ∧ (bindOne? u p b).run = some (.ok b)

theorem settled_of_bindOne? (hu : u.Reachable) (h : (bindOne? u p v).run = some (.ok b)) :
    Settled u p b := by
  by_cases hnull : p.isWriteBack = true ∧ v = .null
  · obtain ⟨hw, rfl⟩ := hnull
    rw [bindOne?_null hw] at h
    obtain ⟨d, hd, ⟨⟩⟩ := Option.map_eq_some_iff.mp h
    have hacc := Universe.accepts?_default? hu hd
    refine ⟨hacc, ?_⟩
    by_cases hb : b = .null
    · rw [hb, bindOne?_null hw, hd, hb]
      rfl
    · rw [bindOne?_of_not_null (mt And.right hb), hacc]
      rfl
  · have hrun := h
    rw [bindOne?_of_not_null hnull] at h
    obtain ⟨c, hc, h⟩ := Option.map_eq_some_iff.mp h
    split_ifs at h with hif
    obtain rfl := Except.ok.inj h
    exact ⟨hc.trans (congrArg some hif), hrun⟩

/-! ## Fixed arguments -/

/-- What binding makes of enough arguments is settled. -/
theorem settled_of_bindFixed? (hu : u.Reachable) (hlen : ps.length ≤ vs.length)
    (h : (bindFixed? u ps vs).run = some (.ok bs)) : List.Forall₂ (Settled u) ps bs := by
  induction ps generalizing vs bs with
  | nil =>
    obtain rfl := Except.ok.inj (Option.some.inj h)
    exact .nil
  | cons p ps ih =>
    cases vs with
    | nil => simp at hlen
    | cons v vs =>
      obtain ⟨b, hb, h⟩ := run_bind_eq_ok.mp h
      obtain ⟨bs', hbs, h⟩ := run_bind_eq_ok.mp h
      obtain rfl := Except.ok.inj (Option.some.inj h)
      exact .cons (settled_of_bindOne? hu hb) (ih (Nat.le_of_succ_le_succ hlen) hbs)

/-- **Settled arguments bind to themselves.** -/
theorem bindFixed?_of_settled (h : List.Forall₂ (Settled u) ps bs) :
    (bindFixed? u ps bs).run = some (.ok bs) := by
  induction h with
  | nil => rfl
  | cons hb _ ih => exact run_bind_eq_ok.mpr ⟨_, hb.2, run_bind_eq_ok.mpr ⟨_, ih, rfl⟩⟩

/-- Arguments beyond the parameters are not looked at. -/
theorem bindFixed?_append (hlen : ps.length ≤ vs.length) (rest : List Value) :
    bindFixed? u ps (vs ++ rest) = bindFixed? u ps vs := by
  induction ps generalizing vs with
  | nil => rfl
  | cons p ps ih =>
    cases vs with
    | nil => simp at hlen
    | cons v vs =>
      rw [List.cons_append, bindFixed?, bindFixed?, ih (Nat.le_of_succ_le_succ hlen)]

/-! ## Trailing arguments -/

/-- The parameter that one of the trailing arguments is held against, for a tail of some type. -/
def itemOf (t : TypeRef) : Parameter := ⟨"", t.element?.getD .object, .plain⟩

/-- Packing binds the trailing arguments one by one, as items. -/
theorem packItems?_eq (t : TypeRef) (vs : List Value) :
    packItems? u t vs = do
      let _ ← bindFixed? u (List.replicate vs.length (itemOf t)) vs
      return .packed (t.element?.getD .object) vs := by
  unfold packItems?
  dsimp only
  generalize Tail.packed (t.element?.getD .object) vs = tl
  induction vs with
  | nil => rfl
  | cons v vs ih =>
    have hone : bindOne? u (itemOf t) v = (do
        let c ← u.accepts? (t.element?.getD .object) v
        if c then return v else throw (mismatch (t.element?.getD .object) v)) := rfl
    rw [List.length_cons, List.replicate_succ, bindFixed?, hone]
    simp only [List.forM, bind_assoc, pure_bind, ih]
    rcases u.accepts? (t.element?.getD .object) v with _ | _ | _ <;> rfl

/-- Only null and arrays are looked at as a whole. -/
theorem passesWhole?_of_not (h : ¬ (v = .null ∨ ∃ r, v = .array r)) :
    passesWhole? u t v = some false := by
  cases v <;> simp_all [passesWhole?]

theorem passesWhole?_eq (h : v = .null ∨ ∃ r, v = .array r) :
    passesWhole? u t v = u.accepts? t v := by
  rcases h with rfl | ⟨r, rfl⟩ <;> rfl

/-- A single trailing argument is taken as a whole, or packed. -/
theorem bindTail?_single (t : TypeRef) (v : Value) :
    (bindTail? u t [v]).run = (passesWhole? u t v).bind fun c =>
      if c then some (.ok (.whole v)) else (packItems? u t [v]).run := by
  rw [bindTail?]
  rcases passesWhole? u t v with _ | _ | _ <;> rfl

theorem bindTail?_of_length_ne_one (h : vs.length ≠ 1) : bindTail? u t vs = packItems? u t vs := by
  rcases vs with _ | ⟨v, _ | ⟨w, vs⟩⟩
  · rfl
  · exact absurd rfl h
  · rfl

theorem bindTail?_eq_ok {tl : Tail} (h : (bindTail? u t vs).run = some (.ok tl)) :
    (∃ v, vs = [v] ∧ tl = .whole v ∧ (v = .null ∨ ∃ r, v = .array r) ∧
        u.accepts? t v = some true) ∨
      tl = .packed (t.element?.getD .object) vs := by
  have of_packItems {vs : List Value} (h : (packItems? u t vs).run = some (.ok tl)) :
      tl = .packed (t.element?.getD .object) vs := by
    rw [packItems?_eq] at h
    obtain ⟨-, -, h⟩ := run_bind_eq_ok.mp h
    exact (Except.ok.inj (Option.some.inj h)).symm
  by_cases hlen : vs.length = 1
  · obtain ⟨v, rfl⟩ := List.length_eq_one_iff.mp hlen
    rw [bindTail?_single] at h
    obtain ⟨c, hc, h⟩ := Option.bind_eq_some_iff.mp h
    cases c with
    | false => exact .inr (of_packItems h)
    | true =>
      by_cases hshape : v = .null ∨ ∃ r, v = .array r
      · rw [passesWhole?_eq hshape] at hc
        exact .inl ⟨v, rfl, (Except.ok.inj (Option.some.inj h)).symm, hshape, hc⟩
      · simp [passesWhole?_of_not hshape] at hc
  · rw [bindTail?_of_length_ne_one hlen] at h
    exact .inr (of_packItems h)

/-- Null or an array of the tail type is the whole tail. -/
theorem bindTail?_whole (hshape : b = .null ∨ ∃ r, b = .array r)
    (hacc : u.accepts? t b = some true) : (bindTail? u t [b]).run = some (.ok (.whole b)) := by
  rw [bindTail?_single, passesWhole?_eq hshape, hacc]
  rfl

/-- **A bound tail is of the tail type**, and binds to itself. -/
theorem settled_of_bindTail? (hu : u.Reachable) {tl : Tail} (s : Store) (ht : t.isArray = true)
    (h : (bindTail? u t vs).run = some (.ok tl)) :
    u.accepts? t (tl.place s).1 = some true ∧
      (bindTail? u t [(tl.place s).1]).run = some (.ok (.whole (tl.place s).1)) := by
  rcases bindTail?_eq_ok h with ⟨v, -, rfl, hshape, hacc⟩ | rfl
  · exact ⟨hacc, bindTail?_whole hshape hacc⟩
  · obtain ⟨e, rfl⟩ := TypeRef.exists_of_isArray ht
    have hacc := Universe.accepts?_array hu e s.cells.size
    exact ⟨hacc, bindTail?_whole (.inr ⟨_, rfl⟩) hacc⟩

/-! ## The whole -/

/-- Whether a number of arguments is right. -/
def Counts (ps : List Parameter) (n : ℕ) : Prop :=
  if Parameter.endsVariadic ps then Parameter.fixedCount ps ≤ n else n = Parameter.fixedCount ps

theorem countFits_iff {n : ℕ} : countFits ps n = true ↔ Counts ps n := by
  rw [countFits, Counts]
  split <;> simp

theorem Counts.fixedCount_le {n : ℕ} (h : Counts ps n) : Parameter.fixedCount ps ≤ n := by
  unfold Counts at h
  split at h
  · exact h
  · exact Nat.le_of_eq h.symm

theorem plan?_of_counts (h : Counts ps args.length) :
    plan? u member ps args = do
      let fixed ← bindFixed? u (ps.take (Parameter.fixedCount ps)) args
      match Parameter.variadicTail? ps with
      | none => return ⟨fixed, none⟩
      | some tail =>
        return ⟨fixed, some (← bindTail? u tail.type (args.drop (Parameter.fixedCount ps)))⟩ := by
  rw [plan?, countFits_iff.mpr h]
  rfl

/-- A list without a variadic tail. -/
theorem plan?_of_no_tail (htail : Parameter.variadicTail? ps = none)
    (hlen : args.length = ps.length) :
    plan? u member ps args = do return ⟨← bindFixed? u ps args, none⟩ := by
  obtain ⟨hall, hends⟩ := Parameter.fixedCount_of_variadicTail? htail
  have hcount : Counts ps args.length := by simp [Counts, hends, hall, hlen]
  rw [plan?_of_counts hcount, htail, hall, List.take_length]

/-- A list with a variadic tail, at the place where the trailing arguments begin. -/
theorem plan?_append (htail : Parameter.variadicTail? ps = some tail)
    (hlen : bs.length = Parameter.fixedCount ps) (vs : List Value) :
    plan? u member ps (bs ++ vs) = do
      let fixed ← bindFixed? u (ps.take (Parameter.fixedCount ps)) bs
      return ⟨fixed, some (← bindTail? u tail.type vs)⟩ := by
  have hcount : Counts ps (bs ++ vs).length := by
    simp [Counts, Parameter.endsVariadic, htail, hlen]
  have hle : (ps.take (Parameter.fixedCount ps)).length ≤ bs.length := by
    rw [hlen]
    exact List.length_take_le _ _
  rw [plan?_of_counts hcount, htail, bindFixed?_append hle, ← hlen, List.drop_left]

/-- **The number of the arguments comes first.** -/
theorem plan?_of_not_counts (h : ¬ Counts ps args.length) :
    (plan? u member ps args).run = some (.error (.parameterCount member (Parameter.fixedCount ps)
      args.length (Parameter.endsVariadic ps))) := by
  have hcount : countFits ps args.length = false := by simpa using mt countFits_iff.mp h
  rw [plan?, hcount]
  rfl

/-- Whether a list binds to itself, without a new array. -/
def BindsToItself (u : Universe β) (member : String) (ps : List Parameter) (bs : List Value) :
    Prop :=
  ∃ pl, (plan? u member ps bs).run = some (.ok pl) ∧ ∀ s, pl.place s = (bs, s)

/-- **What a plan makes is typed and settled**: it has one value for each parameter, of its type,
and binds to itself. -/
theorem settled_of_plan? (hu : u.Reachable)
    (hv : ∀ p ∈ ps, p.isVariadic = true → p.type.isArray = true) {pl : Plan} (s : Store)
    (h : (plan? u member ps args).run = some (.ok pl)) :
    List.Forall₂ (fun p b => u.accepts? p.type b = some true) ps (pl.place s).1 ∧
      BindsToItself u member ps (pl.place s).1 := by
  have hcount : Counts ps args.length := by
    by_contra hcount
    simp [plan?_of_not_counts hcount] at h
  cases htail : Parameter.variadicTail? ps with
  | none =>
    obtain ⟨hall, hends⟩ := Parameter.fixedCount_of_variadicTail? htail
    have hlen : args.length = ps.length := by simpa [Counts, hends, hall] using hcount
    rw [plan?_of_no_tail htail hlen] at h
    obtain ⟨fixed, hfixed, h⟩ := run_bind_eq_ok.mp h
    obtain rfl := Except.ok.inj (Option.some.inj h)
    have hsettled := settled_of_bindFixed? hu (Nat.le_of_eq hlen.symm) hfixed
    have hplace : ((Plan.mk fixed none).place s).1 = fixed := rfl
    rw [hplace]
    refine ⟨hsettled.imp fun _ _ hb => hb.1, ⟨fixed, none⟩, ?_, fun _ => rfl⟩
    rw [plan?_of_no_tail htail hsettled.length_eq.symm]
    exact run_bind_eq_ok.mpr ⟨fixed, bindFixed?_of_settled hsettled, rfl⟩
  | some tail =>
    obtain ⟨hps, htv⟩ := Parameter.eq_append_of_variadicTail? htail
    have hlen : (args.take (Parameter.fixedCount ps)).length = Parameter.fixedCount ps := by
      rw [List.length_take, Nat.min_eq_left hcount.fixedCount_le]
    have htake : (ps.take (Parameter.fixedCount ps)).length = Parameter.fixedCount ps := by
      rw [List.length_take, Nat.min_eq_left (Parameter.fixedCount_le ps)]
    rw [← List.take_append_drop (Parameter.fixedCount ps) args, plan?_append htail hlen] at h
    obtain ⟨fixed, hfixed, h⟩ := run_bind_eq_ok.mp h
    obtain ⟨tl, htl, h⟩ := run_bind_eq_ok.mp h
    obtain rfl := Except.ok.inj (Option.some.inj h)
    have hsettled := settled_of_bindFixed? hu (Nat.le_of_eq (htake.trans hlen.symm)) hfixed
    obtain ⟨hacc, hwhole⟩ := settled_of_bindTail? hu s (hv tail (hps ▸ by simp) htv) htl
    have hplace : ((Plan.mk fixed (some tl)).place s).1 = fixed ++ [(tl.place s).1] := rfl
    rw [hplace]
    generalize (tl.place s).1 = b at hacc hwhole
    constructor
    · rw [hps]
      exact List.rel_append (hsettled.imp fun _ _ hb => hb.1) (.cons hacc .nil)
    · refine ⟨⟨fixed, some (.whole b)⟩, ?_, fun _ => rfl⟩
      rw [plan?_append htail (hsettled.length_eq.symm.trans htake)]
      refine run_bind_eq_ok.mpr ⟨fixed, bindFixed?_of_settled hsettled, ?_⟩
      exact run_bind_eq_ok.mpr ⟨.whole b, hwhole, rfl⟩

/-! ## Agreement with the bounded questions -/

section Agreement

variable (hu : u.Reachable)

include hu

theorem answers_bindOne (p : Parameter) (v : Value) :
    Answers (bindOne? u p v) (bindOne u p v) := by
  intro r hr
  by_cases hnull : p.isWriteBack = true ∧ v = .null
  · obtain ⟨hw, rfl⟩ := hnull
    rw [bindOne?_null hw] at hr
    obtain ⟨d, hd, rfl⟩ := Option.map_eq_some_iff.mp hr
    simp [bindOne, hw, Value.isNull, Universe.default, hd]
  · rw [bindOne?_of_not_null hnull] at hr
    obtain ⟨c, hc, rfl⟩ := Option.map_eq_some_iff.mp hr
    have hif : ¬ (p.isWriteBack && v.isNull) = true := by simpa using hnull
    rw [bindOne, if_neg hif, ((Universe.accepts?_eq_some_iff hu).mp hc).2]

theorem answers_bindFixed (ps : List Parameter) (vs : List Value) :
    Answers (bindFixed? u ps vs) (bindFixed u ps vs) := by
  induction ps generalizing vs with
  | nil => exact .pure []
  | cons p ps ih =>
    cases vs with
    | nil => exact .pure []
    | cons v vs =>
      exact (answers_bindOne hu p v).bind fun b => (ih vs).bind fun bs => .pure (b :: bs)

omit hu in
theorem packItems_eq (t : TypeRef) (vs : List Value) :
    packItems u t vs = do
      let _ ← bindFixed u (List.replicate vs.length (itemOf t)) vs
      return .packed (t.element?.getD .object) vs := by
  unfold packItems
  dsimp only
  generalize Tail.packed (t.element?.getD .object) vs = tl
  induction vs with
  | nil => rfl
  | cons v vs ih =>
    have hone : bindOne u (itemOf t) v =
        if u.accepts (t.element?.getD .object) v then .ok v
        else .error (mismatch (t.element?.getD .object) v) := rfl
    rw [List.length_cons, List.replicate_succ, bindFixed, hone, List.find?_cons]
    simp only [bind_assoc, pure_bind]
    cases u.accepts (t.element?.getD .object) v with
    | false => rfl
    | true => exact ih

theorem answers_packItems (t : TypeRef) (vs : List Value) :
    Answers (packItems? u t vs) (packItems u t vs) := by
  rw [packItems?_eq, packItems_eq]
  exact (answers_bindFixed hu _ vs).bind fun _ => .pure _

theorem passesWhole_of_passesWhole? {c : Bool} (h : passesWhole? u t v = some c) :
    passesWhole u t v = c := by
  unfold passesWhole? at h
  unfold passesWhole
  split at h
  · exact ((Universe.accepts?_eq_some_iff hu).mp h).2
  · exact ((Universe.accepts?_eq_some_iff hu).mp h).2
  · exact Option.some.inj h

theorem answers_bindTail (t : TypeRef) (vs : List Value) :
    Answers (bindTail? u t vs) (bindTail u t vs) := by
  rcases vs with _ | ⟨v, _ | ⟨w, vs⟩⟩
  · exact answers_packItems hu t []
  · intro r hr
    rw [bindTail?_single] at hr
    obtain ⟨c, hc, hr⟩ := Option.bind_eq_some_iff.mp hr
    rw [bindTail, passesWhole_of_passesWhole? hu hc]
    cases c with
    | true => exact Option.some.inj hr
    | false => exact answers_packItems hu t [v] r hr
  · exact answers_packItems hu t (v :: w :: vs)

theorem answers_plan (member : String) (ps : List Parameter) (args : List Value) :
    Answers (plan? u member ps args) (plan u member ps args) := by
  unfold plan? plan
  dsimp only
  split_ifs with hcount
  · rintro r ⟨⟩
    rfl
  · refine (answers_bindFixed hu _ args).bind fun fixed => ?_
    cases Parameter.variadicTail? ps with
    | none => exact .pure _
    | some tail => exact (answers_bindTail hu _ _).bind fun _ => .pure _

end Agreement

end Binding

end Reflection
