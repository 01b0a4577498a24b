import Reflection.Call.Access
import Reflection.Construction.Factory
import Reflection.Proofs.Universe.Overrides

/-!
# Proofs/Call/Activation — the one body that a call runs

    Call  ──activation?──▸  Activation  ──run──▸  the outcome of the call   (perform_congr)

A call that is not refused runs one body: on a receiver, with arguments, in a world.  These make up
its activation, which is settled before the body runs and by no means by how it runs.  The outcome
depends on the code in no other way: evaluators that agree on the activation of a call agree on the
call.  So what holds of activations holds of everything that runs.
-/

namespace Reflection

variable {β : Type}

/-! ## Activations -/

/-- The code that a call runs and what it runs on. -/
structure Activation (β : Type) where
  callable : Callable β
  receiver : Value
  args : List Value
  world : World β

/-- The formal parameters of something with a body. -/
def Callable.parameters : Callable β → List Parameter
  | method m => m.parameters
  | constructor c => c.parameters

/-- The type that declares something with a body. -/
def Callable.declaring : Callable β → TypeRef
  | method m => m.declaring
  | constructor c => c.declaring

/-- What an evaluator makes of an activation. -/
def Activation.run (a : Activation β) (run : Evaluator β) :
    Returned β a.args.toArray.size :=
  run a.callable a.receiver a.args.toArray.toVector a.world

/-! ## Calls -/

/-- The calls that run code: of methods and accessors, of properties, and of constructors. -/
inductive Call (β : Type) where
  | invoke (m : Method β) (target : Value) (args : List Value)
  | read (p : Property β) (target : Value)
  | write (p : Property β) (target v : Value)
  | construct (c : Constructor β) (args : List Value)

/-- What a call leaves behind. -/
structure Outcome (β : Type) where
  result : Except EngineError Value
  target : Value
  args : List Value
  world : World β

/-- The activation of a method, if the call may be made. -/
def Method.activation? (m : Method β) (target : Value) (args : List Value) (w : World β) :
    Option (Activation β) :=
  match m.prepare w.types target args with
  | .error _ => none
  | .ok (chosen, plan) => some {
      callable := .method chosen
      receiver := if m.isStatic then .null else target
      args := (plan.place w.store).1
      world := { w with store := (plan.place w.store).2 } }

/-- The activation of a constructor, if the call may be made and there is code to run. -/
def Constructor.activation? (c : Constructor β) (args : List Value) (w : World β) :
    Option (Activation β) :=
  match c.body?, c.prepare w.types args with
  | some _, .ok plan =>
    let made := { w with store := (plan.place w.store).2 }.instantiate c.declaring
    some ⟨.constructor c, made.1, (plan.place w.store).1, made.2⟩
  | _, _ => none

namespace Call

/-- The activation of a call, if any. -/
def activation? (w : World β) : Call β → Option (Activation β)
  | invoke m target args => m.activation? target args w
  | read p target => (p.accessor .getter target).toOption.bind fun m => m.activation? target [] w
  | write p target v =>
    (p.accessor .setter target).toOption.bind fun m => m.activation? target [v] w
  | construct c args => c.activation? args w

/-- Making a call. -/
def perform (run : Evaluator β) (w : World β) : Call β → Outcome β
  | invoke m target args =>
    let r := m.invoke run target args w
    ⟨r.result, r.target, r.args, r.world⟩
  | read p target =>
    let r := p.read run w target
    ⟨r.1, target, [], r.2⟩
  | write p target v =>
    let r := p.write run w target v
    ⟨r.result.map fun _ => .null, r.target, [v], r.world⟩
  | construct c args =>
    let r := c.construct run args w
    ⟨r.result, .null, r.args, r.world⟩

end Call

/-- Whether a call is one of known things: of a declared member, on a target of a known type. -/
def Call.Of (u : Universe β) : Call β → Prop
  | invoke m target _ => (∃ t, u.Knows t ∧ m ∈ u.callables t) ∧
      ∀ t, target.runtimeType? = some t → u.Knows t
  | read p target | write p target _ => (∃ t, u.Knows t ∧ p ∈ u.properties t) ∧
      ∀ t, target.runtimeType? = some t → u.Knows t
  | construct c _ => ∃ t, u.Knows t ∧ c ∈ u.constructors t

theorem Property.accessor?_of_accessor {p : Property β} {kind : AccessorKind} {target : Value}
    {m : Method β} (h : p.accessor kind target = .ok m) : p.accessor? kind = some m := by
  unfold accessor at h
  split_ifs at h
  cases kind
  · cases hp : p.getter? <;> simp_all [accessor?]
  · cases hp : p.setter? <;> simp_all [accessor?]

/-- What reads or writes a property activates an accessor of it, a callable of the same type. -/
theorem Property.exists_callable {u : Universe β} {w : World β} {a : Activation β}
    {p : Property β} {kind : AccessorKind} {target : Value} {args : List Value}
    (hp : ∃ t, u.Knows t ∧ p ∈ u.properties t)
    (h : ((p.accessor kind target).toOption.bind fun m => m.activation? target args w) = some a) :
    ∃ m, (∃ t, u.Knows t ∧ m ∈ u.callables t) ∧ m.activation? target args w = some a := by
  obtain ⟨t, hk, hp⟩ := hp
  obtain ⟨m, hm, hactivation⟩ := Option.bind_eq_some_iff.mp h
  have hacc : p.accessor kind target = .ok m := by
    cases hacc : p.accessor kind target with
    | error e => simp [hacc, Except.toOption] at hm
    | ok m' => simpa [hacc, Except.toOption] using hm
  have hcallable := Universe.mem_callables_of_accessor hp (Property.accessor?_of_accessor hacc)
  exact ⟨m, ⟨t, hk, hcallable⟩, hactivation⟩

/-- **A call activates a callable or a constructor**: what reads and writes a property calls an
accessor. -/
theorem Call.activation?_cases {u : Universe β} {w : World β} {call : Call β} {a : Activation β}
    (hof : call.Of u) (h : call.activation? w = some a) :
    (∃ m target args, (∃ t, u.Knows t ∧ m ∈ u.callables t) ∧
      (∀ t, target.runtimeType? = some t → u.Knows t) ∧ m.activation? target args w = some a) ∨
    ∃ c args, (∃ t, u.Knows t ∧ c ∈ u.constructors t) ∧ c.activation? args w = some a := by
  cases call with
  | invoke m target args => exact .inl ⟨m, target, args, hof.1, hof.2, h⟩
  | construct c args => exact .inr ⟨c, args, hof, h⟩
  | read p target =>
    obtain ⟨m, hm, hactivation⟩ := Property.exists_callable hof.1 h
    exact .inl ⟨m, target, [], hm, hof.2, hactivation⟩
  | write p target v =>
    obtain ⟨m, hm, hactivation⟩ := Property.exists_callable hof.1 h
    exact .inl ⟨m, target, [v], hm, hof.2, hactivation⟩

/-! ## One body for each call -/

section Congr

variable {run run' : Evaluator β} {w : World β} {target : Value} {args : List Value}

theorem activate_congr {m : Method β} {n : ℕ} {vs : Vector Value n}
    (h : run (.method m) target vs w = run' (.method m) target vs w) :
    activate run m target vs w = activate run' m target vs w := by
  rw [activate, activate, h]

theorem Method.invoke_congr {m : Method β}
    (h : ∀ a, m.activation? target args w = some a → a.run run = a.run run') :
    m.invoke run target args w = m.invoke run' target args w := by
  rw [invoke, invoke]
  rw [activation?] at h
  cases hp : m.prepare w.types target args with
  | error e => rfl
  | ok chosen =>
    rw [hp] at h
    have := activate_congr (h _ rfl)
    simp only [this]

theorem Constructor.construct_congr {c : Constructor β}
    (h : ∀ a, c.activation? args w = some a → a.run run = a.run run') :
    c.construct run args w = c.construct run' args w := by
  rw [construct, construct]
  rw [activation?] at h
  cases hp : c.prepare w.types args with
  | error e => rfl
  | ok plan =>
    simp only [activateConstructor]
    cases hb : c.body? with
    | none => rfl
    | some body =>
      rw [hb, hp] at h
      have := h _ rfl
      simp only [Activation.run] at this
      simp only [this]

/-- **A call depends on the code at its activation only.** -/
theorem Call.perform_congr {call : Call β}
    (h : ∀ a, call.activation? w = some a → a.run run = a.run run') :
    call.perform run w = call.perform run' w := by
  cases call with
  | invoke m target args => simp only [perform, Method.invoke_congr h]
  | construct c args => simp only [perform, Constructor.construct_congr h]
  | read p target =>
    rw [perform, perform, Property.read, Property.read]
    rw [activation?] at h
    cases hp : p.accessor .getter target with
    | error e => rfl
    | ok m =>
      rw [hp] at h
      simp only [Method.invoke_congr h]
  | write p target v =>
    rw [perform, perform, Property.write, Property.write]
    rw [activation?] at h
    cases hp : p.accessor .setter target with
    | error e => rfl
    | ok m =>
      rw [hp] at h
      simp only [Method.invoke_congr h]

end Congr

end Reflection
