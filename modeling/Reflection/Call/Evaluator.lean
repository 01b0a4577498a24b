import Reflection.Call.Error
import Reflection.World.Basic

/-!
# Call/Evaluator — running code

The library does not fix what code is.  An evaluator runs the body of a callable on a target and a
list of arguments, in a world; it may change all three but not the number of arguments.  `activate`
is the one way in which calls run a body, and says what each sort of body may leave behind: an
accessor changes no argument, a getter not even its target, and what a setter or a constructor
returns is dropped.
-/

namespace Reflection

/-- Something with a body. -/
inductive Callable (β : Type) where
  | method (m : Method β)
  | constructor (c : Constructor β)

/-- What running a body on `n` arguments leaves behind. -/
structure Returned (β : Type) (n : Nat) where
  result : Except Failure Value
  target : Value
  args : Vector Value n
  world : World β

/-- A way to run bodies. -/
abbrev Evaluator (β : Type) : Type :=
  Callable β → (target : Value) → {n : Nat} → (args : Vector Value n) → World β → Returned β n

variable {β : Type}

/-- Running the body of a method or accessor. -/
def activate (run : Evaluator β) (m : Method β) (target : Value) {n : Nat} (args : Vector Value n)
    (w : World β) : Returned β n :=
  let r := run (.method m) target args w
  match m.id.role with
  | .getter => { r with target := target, args := args }
  | .setter => { r with result := r.result.map fun _ => .null, args := args }
  | _ => r

/-- Running the body of a constructor, if it has one. -/
def activateConstructor (run : Evaluator β) (c : Constructor β) (target : Value) {n : Nat}
    (args : Vector Value n) (w : World β) : Returned β n :=
  match c.body? with
  | none => ⟨.ok .null, target, args, w⟩
  | some _ =>
    let r := run (.constructor c) target args w
    { r with result := r.result.map fun _ => .null }

end Reflection
