import Reflection.Blueprint.Compile
import Reflection.Call.Invocation

/-!
# Construction/Factory — running a constructor

A constructor runs on a new instance whose slots have their default values.  The type and the
arguments are checked before the instance is made, and the write-back arguments are copied back
whether or not the body fails.  Binding the arguments and making the instance may go on for ever:
`create?` has no answer then, while `create` goes by the bounded questions.
-/

namespace Reflection

variable {β : Type}

/-- What a construction leaves behind. -/
structure Constructed (β : Type) where
  result : Except EngineError Value
  args : List Value
  world : World β

/-- Open generic definitions and the type of types are never constructed. -/
def Universe.checkConstructible (u : Universe β) (t : TypeRef) : Except EngineError Unit :=
  if (u.flags t).isGeneric || t.isMetadata then .error (.notConstructible t.name) else .ok ()

namespace Constructor

/-- The plan of the arguments, if the constructor may run on them. -/
def prepare (c : Constructor β) (u : Universe β) (args : List Value) : Except EngineError Plan := do
  u.checkConstructible c.declaring
  if u.isUninstantiable c.declaring then .error (.noMatchingConstructor c.declaring.name)
  else Binding.plan u (Blueprint.constructorName c.declaring.name) c.parameters args

/-- A new instance, made by a constructor. -/
def construct (run : Evaluator β) (c : Constructor β) (args : List Value) (w : World β) :
    Constructed β :=
  match c.prepare w.types args with
  | .error e => ⟨.error e, args, w⟩
  | .ok plan =>
    let bound := (plan.place w.store).1
    let ready := { w with store := (plan.place w.store).2 }
    let made := ready.instantiate c.declaring
    let r := activateConstructor run c made.1 bound.toArray.toVector made.2
    { result := (r.result.map fun _ => r.target).mapError (.constructionRaised c.declaring.name)
      args := Binding.writeBack c.parameters r.args.toList args
      world := r.world }

/-- A new instance; the caller's arguments stay as they are. -/
def create (run : Evaluator β) (c : Constructor β) (args : List Value) (w : World β) :
    Except EngineError Value × World β :=
  let r := c.construct run args w
  (r.result, r.world)

/-- Whether making the instance that a constructor runs on comes to an end.  Where the constructor
may not run, none is made. -/
def halts (c : Constructor β) (args : List Value) (w : World β) : Bool :=
  match c.prepare w.types args with
  | .error _ => true
  | .ok _ => (w.instantiate? c.declaring).isSome

/-- Whether binding the arguments of a construction comes to an end.  Where the type is not
constructible, none are bound. -/
def bindingHalts (c : Constructor β) (u : Universe β) (args : List Value) : Bool :=
  match u.checkConstructible c.declaring with
  | .error _ => true
  | .ok _ => u.isUninstantiable c.declaring ||
      (Binding.plan? u (Blueprint.constructorName c.declaring.name) c.parameters args).run.isSome

/-- A new instance, if binding the arguments and making the instance come to an end. -/
def create? (run : Evaluator β) (c : Constructor β) (args : List Value) (w : World β) :
    Option (Except EngineError Value × World β) :=
  if c.bindingHalts w.types args && c.halts args w then some (c.create run args w) else none

end Constructor

end Reflection
