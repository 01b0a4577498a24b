import Reflection.Call.Binding
import Reflection.Call.Evaluator

/-!
# Call/Invocation — calling a method

A call checks its target, then its arguments, and only then runs a body: that of the method, or of
the most derived override on the line from the target's type up to the declaring type (`dispatch`).
The write-back arguments are copied back whether or not the body fails.
-/

namespace Reflection

variable {β : Type}

/-- What a call leaves behind. -/
structure Called (β : Type) where
  result : Except EngineError Value
  target : Value
  args : List Value
  world : World β

/-- The methods and accessors that a type declares, as dispatch looks at them. -/
def Universe.callables (u : Universe β) (t : TypeRef) : List (Method β) :=
  u.methods t ++ (u.properties t).flatMap Property.accessors

/-- The override of a method along a line of types. -/
def Universe.overrideOn? (u : Universe β) (line : List TypeRef) (m : Method β) :
    Option (Method β) :=
  line.findSome? fun t => (u.callables t).find? fun n => n.overrides m

/-- The method whose body runs for a target of a type: the nearest override of a virtual method
below the declaring type, or else the method itself. -/
def Universe.dispatch (u : Universe β) (m : Method β) (runtime : TypeRef) : Method β :=
  if m.isVirtual then
    (u.overrideOn? ((u.ancestors runtime).takeWhile fun t => t ≠ m.declaring) m).getD m
  else m

namespace Method

/-- The method whose body a call runs, if the call may be made on the target. -/
def select (m : Method β) (u : Universe β) (target : Value) : Except EngineError (Method β) :=
  if (u.flags m.declaring).isGeneric then .error (.notInstantiable m.name)
  else if m.isStatic then .ok m
  else match target.runtimeType? with
    | none => .error (.targetRequired m.name)
    | some runtime =>
      if u.isSubtype runtime m.declaring then .ok (u.dispatch m runtime)
      else .error (.wrongTarget m.name m.declaring.name runtime.name)

/-- The method whose body a call runs, and the plan of its arguments. -/
def prepare (m : Method β) (u : Universe β) (target : Value) (args : List Value) :
    Except EngineError (Method β × Plan) := do
  let chosen ← m.select u target
  let plan ← Binding.plan u m.name m.parameters args
  return (chosen, plan)

/-- Whether binding the arguments of a call comes to an end.  Where the call may not be made on the
target, none are bound. -/
def halts (m : Method β) (u : Universe β) (target : Value) (args : List Value) : Bool :=
  match m.select u target with
  | .error _ => true
  | .ok _ => (Binding.plan? u m.name m.parameters args).run.isSome

/-- Calling a method.  The target is ignored, and passed as null, for a static method. -/
def invoke (run : Evaluator β) (m : Method β) (target : Value) (args : List Value)
    (w : World β) : Called β :=
  match m.prepare w.types target args with
  | .error e => ⟨.error e, target, args, w⟩
  | .ok (chosen, plan) =>
    let bound := (plan.place w.store).1
    let ready := { w with store := (plan.place w.store).2 }
    let receiver := if m.isStatic then .null else target
    let r := activate run chosen receiver bound.toArray.toVector ready
    { result := r.result.mapError (.invocationRaised m.name)
      target := if m.isStatic then target else r.target
      args := Binding.writeBack m.parameters r.args.toList args
      world := r.world }

end Method

end Reflection
