import Reflection.Construction.Resolver
import Reflection.Proofs.Call.WellTyped

/-!
# Proofs/Call/Request — what a host asks for

    construct, constructWith, copy        ──▸  Choice  ──call?──┐
    a method, a property, a constructor  ───────────────────────┴▸  Call  ──▸  Activation

A host asks for calls and for instances.  An instance is made by calling the constructor that a
resolver chooses, if there is one to run.  So every request comes down to a call, or to something in
which no code takes part (`comesTo`), and what is known of calls holds of requests: the code that
runs is that of one activation, and the world it leaves is the world that the request leaves.
-/

namespace Reflection

variable {β : Type} {run run' : Evaluator β} {u : Universe β} {w : World β} {args : List Value}
  {a : Activation β}

/-! ## What calls leave behind -/

/-- Whether a world is what is left of another after an activation: what its code leaves, or, if no
code runs, one of the same types. -/
def Leaves (run : Evaluator β) (w : World β) (a? : Option (Activation β)) (v : World β) : Prop :=
  match a? with
  | some a => v = (a.run run).world
  | none => v.types = w.types

theorem Method.leaves_invoke (m : Method β) (run : Evaluator β) (target : Value)
    (args : List Value) (w : World β) :
    Leaves run w (m.activation? target args w) (m.invoke run target args w).world := by
  rw [invoke, activation?]
  cases m.prepare w.types target args with
  | error e => exact rfl
  | ok ready =>
    dsimp only [activate]
    cases ready.1.id.role <;> exact rfl

theorem Constructor.leaves_construct (c : Constructor β) (run : Evaluator β) (args : List Value)
    (w : World β) : Leaves run w (c.activation? args w) (c.construct run args w).world := by
  rw [construct, activation?]
  cases c.prepare w.types args with
  | error e => cases c.body? <;> exact rfl
  | ok plan =>
    dsimp only [activateConstructor]
    cases c.body? with
    | none => exact World.types_instantiate ..
    | some body => exact rfl

/-- **A call leaves the world of the code that it runs**, or no type changed. -/
theorem Call.leaves_perform (call : Call β) (run : Evaluator β) (w : World β) :
    Leaves run w (call.activation? w) (call.perform run w).world := by
  cases call with
  | invoke m target args => exact m.leaves_invoke run target args w
  | construct c args => exact c.leaves_construct run args w
  | read p target =>
    rw [activation?, perform, Property.read]
    cases p.accessor .getter target with
    | error e => exact rfl
    | ok m => exact m.leaves_invoke run target [] w
  | write p target v =>
    rw [activation?, perform, Property.write]
    cases p.accessor .setter target with
    | error e => exact rfl
    | ok m => exact m.leaves_invoke run target [v] w

/-! ## What resolvers choose -/

/-- What a resolver comes to: an error, a value that needs no code, or a constructor to run. -/
abbrev Choice (β : Type) : Type := Except EngineError (Value ⊕ Constructor β)

/-- Acting on a choice. -/
def Choice.perform (run : Evaluator β) (args : List Value) (w : World β) :
    Choice β → Except EngineError Value × World β
  | .error e => (.error e, w)
  | .ok (.inl v) => (.ok v, w)
  | .ok (.inr c) => c.create run args w

namespace Resolver

variable {r : Resolver β} {t : TypeRef}

/-- The choice where there are no arguments. -/
def chooseDefault (r : Resolver β) (u : Universe β) (t : TypeRef) : Choice β :=
  (r.resolveDefault u t).map fun
    | none => .inl (u.default t)
    | some c => .inr c

/-- The choice for arguments, which must be given. -/
def choose (r : Resolver β) (u : Universe β) (t : TypeRef) : Option (List Value) → Choice β
  | none => .error (.nullArgument "args")
  | some args =>
    if args.isEmpty && t.isValueType then (u.checkConstructible t).map fun _ => .inl (u.default t)
    else (r.resolve u t args).map .inr

/-- The choice for a copy. -/
def chooseCopy (r : Resolver β) (u : Universe β) (t : TypeRef) (source : Value) : Choice β :=
  if source.isNull then .ok (.inl .null)
  else if !u.accepts t source then .error (Binding.mismatch t source)
  else if copiesTrivially t then .ok (.inl source)
  else match r.copyConstructor? u t with
    | none => .error (.noCopyConstructor t.name)
    | some c => .ok (.inr c)

theorem construct_eq (run : Evaluator β) :
    r.construct run t w = (r.chooseDefault w.types t).perform run [] w := by
  rw [construct, chooseDefault]
  rcases r.resolveDefault w.types t with e | (_ | c) <;> rfl

theorem constructWith_eq (run : Evaluator β) (args? : Option (List Value)) :
    r.constructWith run t args? w =
      (r.choose w.types t args?).perform run (args?.getD []) w := by
  cases args? with
  | none => rfl
  | some args =>
    rw [constructWith, choose]
    split_ifs with h
    · cases w.types.checkConstructible t <;> rfl
    · cases r.resolve w.types t args <;> rfl

theorem copy_eq (run : Evaluator β) (source : Value) :
    r.copy run t source w = (r.chooseCopy w.types t source).perform run [source] w := by
  rw [copy, chooseCopy]
  split_ifs
  · rfl
  · rfl
  · rfl
  · cases r.copyConstructor? w.types t <;> rfl

end Resolver

/-! ## Requests -/

/-- What a host may ask for: a call, or an instance by way of a resolver. -/
inductive Request (β : Type) where
  | call (c : Call β)
  | construct (r : Resolver β) (t : TypeRef)
  | constructWith (r : Resolver β) (t : TypeRef) (args? : Option (List Value))
  | copy (r : Resolver β) (t : TypeRef) (source : Value)

/-- The call that a choice comes down to, if any. -/
def Choice.call? (args : List Value) : Choice β → Option (Call β)
  | .ok (.inr c) => some (.construct c args)
  | _ => none

/-- Whether what is done in a world comes down to a call, but for what is kept of its outcome, or to
something in which no code takes part and nothing changes. -/
def ComesTo (w : World β) (call? : Option (Call β)) (done : Evaluator β → Outcome β) : Prop :=
  match call? with
  | some c => ∃ keep : Outcome β → Outcome β, (∀ o, (keep o).world = o.world) ∧
      ∀ run, done run = keep (c.perform run w)
  | none => ∃ o : Outcome β, o.world = w ∧ ∀ run, done run = o

namespace ComesTo

variable {call? : Option (Call β)} {done : Evaluator β → Outcome β}

theorem congr (h : ComesTo w call? done)
    (hrun : ∀ a, (call?.bind fun c => c.activation? w) = some a → a.run run = a.run run') :
    done run = done run' := by
  cases call? with
  | none =>
    obtain ⟨o, -, ho⟩ := h
    rw [ho, ho]
  | some c =>
    obtain ⟨keep, -, hkeep⟩ := h
    rw [hkeep, hkeep, Call.perform_congr hrun]

theorem leaves (h : ComesTo w call? done) (run : Evaluator β) :
    Leaves run w (call?.bind fun c => c.activation? w) (done run).world := by
  cases call? with
  | none =>
    obtain ⟨o, hworld, ho⟩ := h
    rw [ho, hworld]
    exact rfl
  | some c =>
    obtain ⟨keep, hworld, hkeep⟩ := h
    rw [hkeep, hworld]
    exact c.leaves_perform run w

end ComesTo

/-- Acting on a choice leaves the caller's arguments as they are. -/
theorem Choice.comesTo (x : Choice β) (args : List Value) (w : World β) :
    ComesTo w (x.call? args) fun run =>
      ⟨(x.perform run args w).1, .null, args, (x.perform run args w).2⟩ := by
  rcases x with e | (v | c)
  · exact ⟨⟨.error e, .null, args, w⟩, rfl, fun _ => rfl⟩
  · exact ⟨⟨.ok v, .null, args, w⟩, rfl, fun _ => rfl⟩
  · exact ⟨fun o => { o with args := args }, fun _ => rfl, fun _ => rfl⟩

theorem Choice.call?_eq_some {x : Choice β} {call : Call β} (h : x.call? args = some call) :
    ∃ c, call = .construct c args := by
  rcases x with e | (v | c)
  · simp [call?] at h
  · simp [call?] at h
  · exact ⟨c, (Option.some.inj h).symm⟩

namespace Request

/-- The call that a request comes down to, if any. -/
def call? (u : Universe β) : Request β → Option (Call β)
  | call c => some c
  | construct r t => (r.chooseDefault u t).call? []
  | constructWith r t args? => (r.choose u t args?).call? (args?.getD [])
  | copy r t source => (r.chooseCopy u t source).call? [source]

/-- The activation of a request, if any. -/
def activation? (w : World β) (q : Request β) : Option (Activation β) :=
  (q.call? w.types).bind fun c => c.activation? w

/-- Whether a request calls known things, if it asks for a call. -/
def Of (u : Universe β) : Request β → Prop
  | call c => c.Of u
  | _ => True

/-- Making a request.  The caller's arguments stay as they are where a resolver is asked. -/
def perform (run : Evaluator β) (w : World β) : Request β → Outcome β
  | call c => c.perform run w
  | construct r t =>
    let made := r.construct run t w
    ⟨made.1, .null, [], made.2⟩
  | constructWith r t args? =>
    let made := r.constructWith run t args? w
    ⟨made.1, .null, args?.getD [], made.2⟩
  | copy r t source =>
    let made := r.copy run t source w
    ⟨made.1, .null, [source], made.2⟩

/-- **What making a request comes to.** -/
theorem comesTo (q : Request β) (w : World β) :
    ComesTo w (q.call? w.types) fun run => q.perform run w := by
  cases q with
  | call c => exact ⟨id, fun _ => rfl, fun _ => rfl⟩
  | construct r t =>
    simp only [perform, Resolver.construct_eq]
    exact Choice.comesTo ..
  | constructWith r t args? =>
    simp only [perform, Resolver.constructWith_eq]
    exact Choice.comesTo ..
  | copy r t source =>
    simp only [perform, Resolver.copy_eq]
    exact Choice.comesTo ..

/-- **A request depends on the code at its activation only.** -/
theorem perform_congr {q : Request β}
    (h : ∀ a, q.activation? w = some a → a.run run = a.run run') :
    q.perform run w = q.perform run' w :=
  (q.comesTo w).congr h

/-- **A request leaves the world of the code that it runs**, or no type changed. -/
theorem leaves_perform (q : Request β) (run : Evaluator β) (w : World β) :
    Leaves run w (q.activation? w) (q.perform run w).world :=
  (q.comesTo w).leaves run

/-- **A request activates a known callable or a constructor.** -/
theorem activation?_cases {q : Request β} (hof : q.Of w.types) (h : q.activation? w = some a) :
    (∃ m target args, (∃ t, w.types.Knows t ∧ m ∈ w.types.callables t) ∧
      (∀ t, target.runtimeType? = some t → w.types.Knows t) ∧
      m.activation? target args w = some a) ∨
    ∃ (c : Constructor β) (args : List Value), c.activation? args w = some a := by
  obtain ⟨call, hcall, h⟩ := Option.bind_eq_some_iff.mp h
  have constructs {x : Choice β} {args : List Value} (hx : x.call? args = some call) :
      ∃ (c : Constructor β) (args : List Value), c.activation? args w = some a := by
    obtain ⟨c, rfl⟩ := Choice.call?_eq_some hx
    exact ⟨c, args, h⟩
  cases q with
  | call c =>
    obtain rfl := Option.some.inj hcall
    exact (Call.activation?_cases hof h).imp_right fun ⟨c, args, _, h⟩ => ⟨c, args, h⟩
  | construct r t => exact .inr (constructs hcall)
  | constructWith r t args? => exact .inr (constructs hcall)
  | copy r t source => exact .inr (constructs hcall)

theorem types_activation {q : Request β} (hof : q.Of w.types) (h : q.activation? w = some a) :
    a.world.types = w.types := by
  rcases q.activation?_cases hof h with ⟨m, target, args, -, -, h⟩ | ⟨c, args, h⟩
  · obtain ⟨_, _, -, -, rfl⟩ := Method.exists_of_activation? h
    rfl
  · obtain ⟨_, -, -, -, htypes⟩ := Constructor.exists_of_activation? h
    exact htypes

end Request

end Reflection
