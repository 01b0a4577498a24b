import Reflection.Proofs.Call.Request

/-!
# Proofs/Call/Refusal — an error that no code has raised leaves everything as it was

    checks  ──▸  refused: no code has run, and nothing has changed
    a body  ──▸  raised: the error carries how the body failed

Whatever is asked for, everything is checked before anything is changed, and a check fails for a
reason of its own (`Checks`).  Once the checks are through there is one body to run, or none, and
nothing can fail any more but that body.  So an error tells by itself which of the two has failed
(`Ends`).  What a body asks for in its turn may be refused or raise as well; to the outside that is
a failure of the body like any other.
-/

namespace Reflection

variable {β α γ : Type} {w : World β}

/-! ## What checks fail with -/

/-- Whether something fails for reasons of its own only: no error of it carries the failure of a
body. -/
structure Checks (x : Except EngineError α) : Prop where
  cause? : ∀ e, x = .error e → e.cause? = none

namespace Checks

theorem ok (a : α) : Checks (.ok a : Except EngineError α) where
  cause? e h := by cases h

theorem error {e : EngineError} (h : e.cause? = none) :
    Checks (.error e : Except EngineError α) where
  cause? := by
    rintro _ ⟨⟩
    exact h

theorem bind {x : Except EngineError α} {f : α → Except EngineError γ} (hx : Checks x)
    (hf : ∀ a, Checks (f a)) : Checks (x >>= f) where
  cause? e h := by
    rcases bind_eq_error.mp h with h | ⟨a, -, h⟩
    · exact hx.cause? e h
    · exact (hf a).cause? e h

theorem map {x : Except EngineError α} (f : α → γ) (hx : Checks x) : Checks (x.map f) where
  cause? e h := hx.cause? e (map_eq_error.mp h)

end Checks

theorem Binding.checks_plan (u : Universe β) (member : String) (ps : List Parameter)
    (args : List Value) : Checks (plan u member ps args) where
  cause? e h := by
    rcases plan_eq_error h with rfl | ⟨t, v, -, rfl⟩
    · rfl
    · rfl

theorem Method.checks_prepare (m : Method β) (u : Universe β) (target : Value)
    (args : List Value) : Checks (m.prepare u target args) := by
  have hselect : Checks (m.select u target) := by
    unfold select
    split_ifs
    · exact .error rfl
    · exact .ok _
    · split
      · exact .error rfl
      · split_ifs
        · exact .ok _
        · exact .error rfl
  exact hselect.bind fun _ => (Binding.checks_plan ..).bind fun _ => .ok _

theorem Property.checks_accessor (p : Property β) (kind : AccessorKind) (target : Value) :
    Checks (p.accessor kind target) := by
  unfold accessor
  split_ifs
  · exact .error rfl
  · split
    · exact .error rfl
    · exact .ok _

theorem Universe.checks_checkConstructible (u : Universe β) (t : TypeRef) :
    Checks (u.checkConstructible t) := by
  unfold checkConstructible
  split_ifs
  · exact .error rfl
  · exact .ok _

theorem Constructor.checks_prepare (c : Constructor β) (u : Universe β) (args : List Value) :
    Checks (c.prepare u args) := by
  refine (u.checks_checkConstructible c.declaring).bind fun _ => ?_
  split_ifs
  · exact .error rfl
  · exact Binding.checks_plan ..

namespace Resolver

theorem checks_chooseDefault (r : Resolver β) (u : Universe β) (t : TypeRef) :
    Checks (r.chooseDefault u t) := by
  refine .map _ ((u.checks_checkConstructible t).bind fun _ => ?_)
  split_ifs
  · exact .error rfl
  · exact .ok _
  · dsimp only
    split
    · exact .ok _
    · split
      · exact .error rfl
      · exact .ok _
      · exact .error rfl

theorem checks_best (u : Universe β) (t : TypeRef) (exact variadic : List (Constructor β)) :
    Checks (best u t exact variadic) := by
  unfold best
  split
  · exact .ok _
  · exact .error rfl
  · split
    · exact .ok _
    · exact .error rfl
  · split
    · exact .ok _
    · exact .error rfl

theorem checks_resolve (r : Resolver β) (u : Universe β) (t : TypeRef) (args : List Value) :
    Checks (r.resolve u t args) := by
  refine (u.checks_checkConstructible t).bind fun _ => ?_
  split_ifs
  · exact .error rfl
  · exact checks_best ..

theorem checks_choose (r : Resolver β) (u : Universe β) (t : TypeRef)
    (args? : Option (List Value)) : Checks (r.choose u t args?) := by
  unfold choose
  split
  · exact .error rfl
  · split_ifs
    · exact .map _ (u.checks_checkConstructible t)
    · exact .map _ (checks_resolve ..)

theorem checks_chooseCopy (r : Resolver β) (u : Universe β) (t : TypeRef) (source : Value) :
    Checks (r.chooseCopy u t source) := by
  unfold chooseCopy
  split_ifs
  · exact .ok _
  · exact .error rfl
  · exact .ok _
  · split
    · exact .error rfl
    · exact .ok _

end Resolver

namespace Field

theorem checks_checkTarget (f : Field) (u : Universe β) (target : Value) :
    Checks (f.checkTarget u target) := by
  unfold checkTarget
  split_ifs
  · exact .error rfl
  · exact .ok _
  · exact .error rfl

theorem checks_read (f : Field) (w : World β) (target : Value) : Checks (f.read w target) := by
  unfold read
  split
  · exact .ok _
  · split_ifs
    · exact .ok _
    · exact (f.checks_checkTarget ..).bind fun _ => .ok _

theorem checks_checkWrite (f : Field) (u : Universe β) (target v : Value) :
    Checks (f.checkWrite u target v) := by
  have hvalue : Checks (f.checkValue u v) := by
    unfold checkValue
    split_ifs
    · exact .ok _
    · exact .error rfl
  unfold checkWrite
  dsimp only
  split_ifs
  · exact (Checks.error rfl).bind fun _ => (f.checks_checkTarget ..).bind fun _ => hvalue
  · exact (Checks.error rfl).bind fun _ => hvalue
  · exact (f.checks_checkTarget ..).bind fun _ => hvalue
  · exact hvalue

end Field

/-! ## What bodies fail with -/

/-- What is kept of a method's return has the failure of its body. -/
theorem error_of_activate_iff {run : Evaluator β} {m : Method β} {n : ℕ} {args : Vector Value n}
    {cause : Failure} : (activate run m target args w).result = .error cause ↔
      (run (.method m) target args w).result = .error cause := by
  rw [activate]
  cases m.id.role with
  | setter => exact map_eq_error
  | _ => exact Iff.rfl

/-- Whether the errors of a result are the failures of a body, raised. -/
def TellsOf (raise : Failure → EngineError) (body : Except Failure Value)
    (result : Except EngineError Value) : Prop :=
  ∀ e, result = .error e ↔ ∃ cause, body = .error cause ∧ e = raise cause

theorem tellsOf_mapError {raise : Failure → EngineError} {body kept : Except Failure Value}
    (h : ∀ cause, kept = .error cause ↔ body = .error cause) :
    TellsOf raise body (kept.mapError raise) := by
  intro e
  simp only [← h]
  cases kept <;> simp [Except.mapError, eq_comm]

/-- How the failure of an activation is raised: a method is called as some member, and a constructor
makes an instance of the type that declares it. -/
def Activation.Raises (a : Activation β) (raise : Failure → EngineError) : Prop :=
  match a.callable with
  | .method _ => ∃ member, raise = .invocationRaised member
  | .constructor c => raise = .constructionRaised c.declaring.name

theorem Activation.Raises.cause?_eq {a : Activation β} {raise : Failure → EngineError}
    (h : a.Raises raise) (cause : Failure) : (raise cause).cause? = some cause := by
  unfold Raises at h
  split at h
  · obtain ⟨member, rfl⟩ := h
    rfl
  · rw [h]
    rfl

/-! ## How something ends -/

/-- **How something ends**: without an activation it comes to the same whatever the code does, and
an error is a check's, with everything as it was; with one its errors are the failures of what is
activated. -/
def Ends (w : World β) (target : Value) (args : List Value) (a? : Option (Activation β))
    (done : Evaluator β → Outcome β) : Prop :=
  match a? with
  | none => ∃ o : Outcome β, (∀ run, done run = o) ∧
      ∀ e, o.result = .error e → e.cause? = none ∧ o = ⟨.error e, target, args, w⟩
  | some a => ∃ raise, a.Raises raise ∧
      ∀ run, TellsOf raise (a.run run).result (done run).result

namespace Ends

variable {target : Value} {args : List Value} {a? : Option (Activation β)}
  {done : Evaluator β → Outcome β}

theorem refused {e : EngineError} (he : e.cause? = none) :
    Ends w target args none fun _ => ⟨.error e, target, args, w⟩ := by
  refine ⟨_, fun _ => rfl, ?_⟩
  rintro _ ⟨⟩
  exact ⟨he, rfl⟩

theorem still {o : Outcome β} {v : Value} (ho : o.result = .ok v) :
    Ends w target args none fun _ => o := by
  refine ⟨o, fun _ => rfl, fun e he => ?_⟩
  rw [ho] at he
  cases he

/-- What is kept of an outcome ends in the same way, if its errors are kept. -/
theorem keep {target' : Value} {args' : List Value} (h : Ends w target args a? done)
    (keep : Outcome β → Outcome β)
    (herror : ∀ o e, (keep o).result = .error e ↔ o.result = .error e)
    (hrefused : ∀ e, keep ⟨.error e, target, args, w⟩ = ⟨.error e, target', args', w⟩) :
    Ends w target' args' a? fun run => keep (done run) := by
  cases a? with
  | none =>
    obtain ⟨o, ho, hchecks⟩ := h
    refine ⟨keep o, fun run => congrArg keep (ho run), fun e he => ?_⟩
    obtain ⟨hcause, hout⟩ := hchecks e ((herror o e).mp he)
    exact ⟨hcause, by rw [hout, hrefused]⟩
  | some a =>
    obtain ⟨raise, hraise, htells⟩ := h
    exact ⟨raise, hraise, fun run e => (herror _ e).trans (htells run e)⟩

/-- **An error is the failure of what was activated**, raised. -/
theorem raised {run : Evaluator β} {e : EngineError} {a : Activation β}
    (h : Ends w target args a? done) (he : (done run).result = .error e) (ha : a? = some a) :
    ∃ raise cause, a.Raises raise ∧ (a.run run).result = .error cause ∧ e = raise cause := by
  subst ha
  obtain ⟨raise, hraise, htells⟩ := h
  obtain ⟨cause, hbody, rfl⟩ := (htells run e).mp he
  exact ⟨raise, cause, hraise, hbody, rfl⟩

/-- **An error without a cause is that of a check**: nothing has run and nothing has changed. -/
theorem eq_refused {run : Evaluator β} {e : EngineError} (h : Ends w target args a? done)
    (he : (done run).result = .error e) (hnone : e.cause? = none) :
    a? = none ∧ (∀ run', done run' = done run) ∧ done run = ⟨.error e, target, args, w⟩ := by
  cases a? with
  | none =>
    obtain ⟨o, ho, hchecks⟩ := h
    rw [ho] at he
    exact ⟨rfl, fun run' => by rw [ho, ho], (ho run).trans (hchecks e he).2⟩
  | some a =>
    obtain ⟨raise, cause, hraise, -, rfl⟩ := h.raised he rfl
    rw [hraise.cause?_eq] at hnone
    cases hnone

/-- **A cause comes out exactly if a body has failed with it.** -/
theorem exists_cause_iff (h : Ends w target args a? done) (run : Evaluator β) (cause : Failure) :
    (∃ e, (done run).result = .error e ∧ e.cause? = some cause) ↔
      ∃ a, a? = some a ∧ (a.run run).result = .error cause := by
  refine ⟨fun ⟨e, he, hcause⟩ => ?_, ?_⟩
  · cases a? with
    | none =>
      obtain ⟨o, ho, hchecks⟩ := h
      rw [ho] at he
      simp [(hchecks e he).1] at hcause
    | some a =>
      obtain ⟨raise, cause', hraise, hbody, rfl⟩ := h.raised he rfl
      rw [hraise.cause?_eq, Option.some.injEq] at hcause
      exact ⟨a, rfl, hcause ▸ hbody⟩
  · rintro ⟨a, rfl, hbody⟩
    obtain ⟨raise, hraise, htells⟩ := h
    exact ⟨raise cause, (htells run _).mpr ⟨cause, hbody, rfl⟩, hraise.cause?_eq cause⟩

end Ends

/-! ## Calls and requests -/

theorem Method.ends_invoke (m : Method β) (target : Value) (args : List Value) (w : World β) :
    Ends w target args (m.activation? target args w) fun run =>
      (Call.invoke m target args).perform run w := by
  simp only [Call.perform, invoke, activation?]
  cases h : m.prepare w.types target args with
  | error e => exact .refused ((m.checks_prepare ..).cause? e h)
  | ok ready =>
    refine ⟨_, ⟨m.name, rfl⟩, fun run => tellsOf_mapError fun cause => ?_⟩
    exact error_of_activate_iff

/-- A constructor without a body makes an instance with nothing to fail. -/
theorem Constructor.ends_construct (c : Constructor β) (args : List Value) (w : World β) :
    Ends w .null args (c.activation? args w) fun run => (Call.construct c args).perform run w := by
  simp only [Call.perform, construct, activation?]
  cases h : c.prepare w.types args with
  | error e =>
    cases c.body? <;> exact .refused ((c.checks_prepare ..).cause? e h)
  | ok plan =>
    cases hb : c.body? with
    | none =>
      simp only [activateConstructor, hb]
      exact .still rfl
    | some body =>
      refine ⟨_, rfl, fun run => tellsOf_mapError fun cause => ?_⟩
      simp only [activateConstructor, hb, map_eq_error]
      exact Iff.rfl

namespace Call

/-- The target that is passed to a call. -/
def target : Call β → Value
  | invoke _ target _ | read _ target | write _ target _ => target
  | construct _ _ => .null

/-- The arguments that are passed to a call. -/
def args : Call β → List Value
  | invoke _ _ args | construct _ args => args
  | read _ _ => []
  | write _ _ v => [v]

/-- **How a call ends.** -/
theorem ends (call : Call β) (w : World β) :
    Ends w call.target call.args (call.activation? w) fun run => call.perform run w := by
  cases call with
  | invoke m target args => exact m.ends_invoke target args w
  | construct c args => exact c.ends_construct args w
  | read p target =>
    simp only [perform, Property.read, activation?]
    cases h : p.accessor .getter target with
    | error e => exact .refused ((p.checks_accessor ..).cause? e h)
    | ok m =>
      exact (m.ends_invoke target [] w).keep (fun o => ⟨o.result, target, [], o.world⟩)
        (fun _ _ => Iff.rfl) fun _ => rfl
  | write p target v =>
    simp only [perform, Property.write, activation?]
    cases h : p.accessor .setter target with
    | error e => exact .refused ((p.checks_accessor ..).cause? e h)
    | ok m =>
      refine (m.ends_invoke target [v] w).keep
        (fun o => ⟨(o.result.map fun _ => ()).map fun _ => .null, o.target, [v], o.world⟩)
        (fun _ _ => ?_) fun _ => rfl
      rw [map_eq_error, map_eq_error]

end Call

/-- How acting on a choice ends, if its error is that of a check. -/
theorem Choice.ends {x : Choice β} (hx : Checks x) (args : List Value) (w : World β) :
    Ends w .null args ((x.call? args).bind fun call => call.activation? w) fun run =>
      ⟨(x.perform run args w).1, .null, args, (x.perform run args w).2⟩ := by
  rcases x with e | (v | c)
  · exact .refused (hx.cause? e rfl)
  · exact .still (o := ⟨.ok v, .null, args, w⟩) rfl
  · exact (c.ends_construct args w).keep (fun o => { o with args := args }) (fun _ _ => Iff.rfl)
      fun _ => rfl

namespace Request

/-- The target that is passed with a request, null if there is none. -/
def target : Request β → Value
  | call c => c.target
  | _ => .null

/-- The arguments that are passed with a request. -/
def args : Request β → List Value
  | call c => c.args
  | construct _ _ => []
  | constructWith _ _ args? => args?.getD []
  | copy _ _ source => [source]

/-- **How a request ends.** -/
theorem ends (q : Request β) (w : World β) :
    Ends w q.target q.args (q.activation? w) fun run => q.perform run w := by
  cases q with
  | call c => exact c.ends w
  | construct r t =>
    simp only [perform, Resolver.construct_eq]
    exact Choice.ends (r.checks_chooseDefault ..) [] w
  | constructWith r t args? =>
    simp only [perform, Resolver.constructWith_eq]
    exact Choice.ends (r.checks_choose ..) _ w
  | copy r t source =>
    simp only [perform, Resolver.copy_eq]
    exact Choice.ends (r.checks_chooseCopy ..) [source] w

end Request

/-! ## Operations -/

/-- What a host may ask for: a request, or the slot of a field. -/
inductive Operation (β : Type) where
  | request (q : Request β)
  | readField (f : Field) (target : Value)
  | writeField (f : Field) (target v : Value)

namespace Operation

/-- The activation of an operation, if any: no code takes part in reading and writing a field. -/
def activation? (w : World β) : Operation β → Option (Activation β)
  | request q => q.activation? w
  | _ => none

/-- The target that is passed with an operation, null if there is none. -/
def target : Operation β → Value
  | request q => q.target
  | readField _ target | writeField _ target _ => target

/-- The arguments that are passed with an operation. -/
def args : Operation β → List Value
  | request q => q.args
  | readField _ _ => []
  | writeField _ _ v => [v]

/-- Doing what is asked for. -/
def perform (run : Evaluator β) (w : World β) : Operation β → Outcome β
  | request q => q.perform run w
  | readField f target => ⟨f.read w target, target, [], w⟩
  | writeField f target v =>
    let r := f.write w target v
    ⟨r.result.map fun _ => .null, r.target, [v], r.world⟩

/-- **How an operation ends.** -/
theorem ends (op : Operation β) (w : World β) :
    Ends w op.target op.args (op.activation? w) fun run => op.perform run w := by
  cases op with
  | request q => exact q.ends w
  | readField f target =>
    simp only [perform]
    cases h : f.read w target with
    | error e => exact .refused ((f.checks_read ..).cause? e h)
    | ok v => exact .still rfl
  | writeField f target v =>
    simp only [perform, Field.write]
    cases h : f.checkWrite w.types target v with
    | error e => exact .refused ((f.checks_checkWrite ..).cause? e h)
    | ok _ =>
      dsimp only
      split_ifs <;> exact .still rfl

/-- **What an error tells.**  One that carries no failure comes from a check: no code has run, the
outcome is the same whatever code there is, and the target, the arguments and the world are as they
were.  One that carries a failure comes out exactly if a body has run and failed in this way, and
then it is this failure, raised. -/
theorem refused_or_raised (op : Operation β) (run : Evaluator β) (w : World β) :
    (∀ e, (op.perform run w).result = .error e → e.cause? = none →
      op.activation? w = none ∧ (∀ run', op.perform run' w = op.perform run w) ∧
        op.perform run w = ⟨.error e, op.target, op.args, w⟩) ∧
    (∀ cause, (∃ e, (op.perform run w).result = .error e ∧ e.cause? = some cause) ↔
      ∃ a, op.activation? w = some a ∧ (a.run run).result = .error cause) ∧
    ∀ e a, (op.perform run w).result = .error e → op.activation? w = some a →
      ∃ raise cause, a.Raises raise ∧ (a.run run).result = .error cause ∧ e = raise cause :=
  ⟨fun _ he hnone => (op.ends w).eq_refused he hnone, (op.ends w).exists_cause_iff run,
    fun _ _ he ha => (op.ends w).raised he ha⟩

/-! ### A call that is refused and one that raises -/

/-- Code in which a call is refused. -/
def refusing : Evaluator ℕ := fun _ target _ args w =>
  ⟨.error (.refused (.targetRequired "f")), target, args, w⟩

/-- A world with three classes in line. -/
def threeClasses : World ℕ := { World.empty with types := Universe.overridingClasses }

/-- The call that writes a property of the topmost of the classes. -/
def writesTopmost (target : Value) : Operation ℕ :=
  .request (.call (.invoke Universe.topmostSetter target [.i32 5]))

/-- Without a target the call itself is refused, and with one its code fails. -/
theorem refused_or_raised_threeClasses :
    (writesTopmost .null).perform refusing threeClasses =
      ⟨.error (.targetRequired "set_P"), .null, [.i32 5], threeClasses⟩ ∧
    ∃ e, ((writesTopmost (.object ⟨Universe.lowest, 0⟩)).perform refusing threeClasses).result =
        .error e ∧
      e.cause? = some (.refused (.targetRequired "f")) :=
  ⟨((refused_or_raised _ refusing _).1 (.targetRequired "set_P") rfl rfl).2.2,
    ((refused_or_raised _ refusing _).2.1 _).mpr ⟨_, rfl, rfl⟩⟩

end Operation
end Reflection
