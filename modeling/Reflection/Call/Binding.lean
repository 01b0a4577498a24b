import Reflection.Call.Error
import Reflection.Member.Parameter
import Reflection.Universe.Default
import Reflection.Universe.Subtyping
import Reflection.World.Store

/-!
# Call/Binding — from arguments to what a body sees

Binding checks a caller's arguments against a parameter list and plans the callee's list: one value
for each parameter, trailing arguments packed into one array.  The plan touches nothing; only
`Plan.place` makes the new array.  After the call `writeBack` copies the write-back slots from the
callee's list into the caller's.
-/

namespace Reflection

/-- What becomes of the trailing arguments of a variadic call. -/
inductive Tail where
  /-- A single null or array that the tail type takes as it is. -/
  | whole (v : Value)
  /-- A new array of the trailing arguments. -/
  | packed (element : TypeRef) (items : List Value)

/-- The callee's argument list, before a new array is made. -/
structure Plan where
  fixed : List Value
  tail? : Option Tail

namespace Binding

variable {β : Type} (u : Universe β)

/-- A value that is not of the expected type. -/
def mismatch (expected : TypeRef) (found : Value) : EngineError :=
  .typeMismatch expected.name found.typeName

/-- One fixed argument.  Null for a write-back parameter stands for the default of its type. -/
def bindOne (p : Parameter) (v : Value) : Except EngineError Value :=
  if p.isWriteBack && v.isNull then .ok (u.default p.type)
  else if u.accepts p.type v then .ok v
  else .error (mismatch p.type v)

/-- The fixed arguments, from the left. -/
def bindFixed : List Parameter → List Value → Except EngineError (List Value)
  | p :: ps, v :: vs => do
    let b ← bindOne u p v
    let bs ← bindFixed ps vs
    return b :: bs
  | _, _ => .ok []

/-- Whether a single trailing argument is taken as it is: null, or an array of the tail type. -/
def passesWhole (tail : TypeRef) : Value → Bool
  | v@.null | v@(.array _) => u.accepts tail v
  | _ => false

/-- The trailing arguments as elements of a new array. -/
def packItems (tail : TypeRef) (vs : List Value) : Except EngineError Tail :=
  let element := tail.element?.getD .object
  match vs.find? fun v => !u.accepts element v with
  | some v => .error (mismatch element v)
  | none => .ok (.packed element vs)

/-- The trailing arguments. -/
def bindTail (tail : TypeRef) : List Value → Except EngineError Tail
  | [v] => if passesWhole u tail v then .ok (.whole v) else packItems u tail [v]
  | vs => packItems u tail vs

/-- Whether a number of arguments fits a parameter list. -/
def countFits (ps : List Parameter) (n : Nat) : Bool :=
  if Parameter.endsVariadic ps then Parameter.fixedCount ps ≤ n else n = Parameter.fixedCount ps

/-- The plan for a call of a member: the number of arguments is checked before any of them. -/
def plan (member : String) (ps : List Parameter) (args : List Value) :
    Except EngineError Plan := do
  let n := Parameter.fixedCount ps
  if !countFits ps args.length then
    .error (.parameterCount member n args.length (Parameter.endsVariadic ps))
  else
    let fixed ← bindFixed u (ps.take n) args
    match Parameter.variadicTail? ps with
    | none => return ⟨fixed, none⟩
    | some tail => return ⟨fixed, some (← bindTail u tail.type (args.drop n))⟩

/-- Whether arguments bind. -/
def binds (ps : List Parameter) (args : List Value) : Bool := (plan u "" ps args).isOk

/-! ## Binding that may go on for ever

What binding asks — whether a type accepts a value, what the default of a type is — need not have an
answer, and then binding has none.  The definitions below ask the same questions in the same order
and stop at the first that has no answer. -/

/-- One fixed argument, if what is asked about it has an answer. -/
def bindOne? (p : Parameter) (v : Value) : ExceptT EngineError Option Value := do
  if p.isWriteBack && v.isNull then return ← u.default? p.type
  else if ← u.accepts? p.type v then return v
  else throw (mismatch p.type v)

/-- The fixed arguments, from the left, as far as there are answers. -/
def bindFixed? : List Parameter → List Value → ExceptT EngineError Option (List Value)
  | p :: ps, v :: vs => do
    let b ← bindOne? u p v
    let bs ← bindFixed? ps vs
    return b :: bs
  | _, _ => return []

/-- Whether a single trailing argument is taken as it is, if there is an answer. -/
def passesWhole? (tail : TypeRef) : Value → Option Bool
  | v@.null | v@(.array _) => u.accepts? tail v
  | _ => some false

/-- The trailing arguments as elements of a new array, as far as there are answers. -/
def packItems? (tail : TypeRef) (vs : List Value) : ExceptT EngineError Option Tail := do
  let element := tail.element?.getD .object
  vs.forM fun v => do unless ← u.accepts? element v do throw (mismatch element v)
  return .packed element vs

/-- The trailing arguments, if there are answers. -/
def bindTail? (tail : TypeRef) : List Value → ExceptT EngineError Option Tail
  | [v] => do if ← passesWhole? u tail v then return .whole v else packItems? u tail [v]
  | vs => packItems? u tail vs

/-- The plan for a call of a member, if binding comes to an end. -/
def plan? (member : String) (ps : List Parameter) (args : List Value) :
    ExceptT EngineError Option Plan := do
  let n := Parameter.fixedCount ps
  if !countFits ps args.length then
    throw (.parameterCount member n args.length (Parameter.endsVariadic ps))
  else
    let fixed ← bindFixed? u (ps.take n) args
    match Parameter.variadicTail? ps with
    | none => return ⟨fixed, none⟩
    | some tail => return ⟨fixed, some (← bindTail? u tail.type (args.drop n))⟩

/-- Whether arguments bind, if binding comes to an end. -/
def binds? (ps : List Parameter) (args : List Value) : Option Bool :=
  (plan? u "" ps args).run.map Except.isOk

end Binding

/-- The tail as a value, with the store that has the new array. -/
def Tail.place (s : Store) : Tail → Value × Store
  | .whole v => (v, s)
  | .packed element items => s.newArray element items

/-- The callee's argument list, with the store that has the new array. -/
def Plan.place (p : Plan) (s : Store) : List Value × Store :=
  match p.tail? with
  | none => (p.fixed, s)
  | some t => (p.fixed ++ [(t.place s).1], (t.place s).2)

namespace Binding

/-- The caller's arguments after a call: write-back slots hold the callee's final values, and every
other slot is as it was. -/
def writeBack : List Parameter → (callee caller : List Value) → List Value
  | p :: ps, b :: bs, a :: as => (if p.isWriteBack then b else a) :: writeBack ps bs as
  | _, _, as => as

@[simp] theorem length_writeBack (ps : List Parameter) (bs as : List Value) :
    (writeBack ps bs as).length = as.length := by
  fun_induction writeBack ps bs as <;> simp_all

end Binding

end Reflection
