import Reflection.Call.Access
import Reflection.Construction.Resolver
import Reflection.Script.Basic

/-!
# Script/Eval — running scripts

Evaluation threads a frame: the target, the arguments and the world.  A failure keeps what happened
before it.  Calls and constructions inside a script go back through the library, with an evaluator
that allows one call less in depth; so every run ends, a script that keeps calling itself with a
failure.
-/

namespace Reflection.Script

/-- The state of a running script. -/
structure Frame (n : Nat) where
  self : Value
  args : Vector Value n
  world : World Script

/-- A step of a running script. -/
abbrev Eval (n : Nat) : Type → Type := ExceptT Failure (StateM (Frame n))

variable {n : Nat}

/-- A failure with a text. -/
def raise {α : Type} (text : String) : Eval n α := throw (.raised text)

/-- A step on the world that may be refused. -/
def withWorld {α : Type} (step : World Script → Except EngineError α × World Script) :
    Eval n α := do
  let (r, w) := step (← get).world
  modify fun f => { f with world := w }
  match r with
  | .ok a => return a
  | .error e => throw (.refused e)

/-- A step on the store. -/
def withStore {α : Type} (step : Store → α × Store) : Eval n α :=
  withWorld fun w =>
    let (a, s) := step w.store
    (.ok a, { w with store := s })

/-- The type that a written type stands for. -/
def resolve (scope : Scope) (t : TypeName) : Eval n TypeRef :=
  match scope.resolve? t with
  | some t => return t
  | none => raise "unknown type"

/-- A call of a method found by name and arity in the snapshot of the target's type; the caller's
target and arguments stay as they are. -/
def callByName (run : Evaluator Script) (method : String) (arity : Nat) (target : Value)
    (args : List Value) : Eval n Value := do
  match target.runtimeType? with
  | none => throw (.refused (.targetRequired method))
  | some t =>
    let issue ← withWorld fun w =>
      let (issue, w) := w.snapshot t .all
      (.ok issue, w)
    match issue.snapshot.methods.find? method arity with
    | none => raise s!"no method {method}"
    | some m => withWorld fun w =>
      let c := m.invoke run target args w
      (c.result, c.world)

/-- The sum of two numbers of one type, wrapping around, or of two texts. -/
def addValues : Value → Value → Eval n Value
  | .i32 a, .i32 b => return .i32 (a + b)
  | .i64 a, .i64 b => return .i64 (a + b)
  | .str a, .str b => return .str (a ++ b)
  | _, _ => raise "cannot add"

/-- A slot of an object or structure, or null. -/
def slotOf (index : Nat) (v : Value) : Eval n Value := do
  return ((← get).world.store.slot? v index).getD .null

/-- An item of an array, or null. -/
def itemOf (index : Nat) (v : Value) : Eval n Value := do
  return (((← get).world.store.items? v).bind fun items => items[index]?).getD .null

/-- The length of an array, or -1. -/
def lengthOf (v : Value) : Eval n Value := do
  match (← get).world.store.items? v with
  | some items => return .i32 (Int32.ofNat items.length)
  | none => return .i32 (-1)

/-- The default value of a type that has one. -/
def defaultOf (t : TypeRef) : Eval n Value := do
  match (← get).world.types.default? t with
  | some v => return v
  | none => raise s!"the default value of {t.name} has no end"

/-- An instance of a type whose slots have default values. -/
def newInstance (t : TypeRef) : Eval n Value := do
  match (← get).world.instantiate? t with
  | some (v, w) =>
    modify fun f => { f with world := w }
    return v
  | none => raise s!"the slots of {t.name} have no end"

mutual

/-- The value of an expression. -/
def eval (scope : Scope) (run : Evaluator Script) : Expr → Eval n Value
  | .null => return .null
  | .bool b => return .bool b
  | .i32 k => return .i32 k
  | .i64 k => return .i64 k
  | .f64 x => return .f64 x
  | .str s => return .str s
  | .enum t raw => return .enum (← resolve scope t) raw
  | .struct t es => do
    let vs ← evalAll scope run es
    return .struct (← resolve scope t) vs
  | .object t es => do
    let vs ← evalAll scope run es
    let t ← resolve scope t
    withStore fun s => s.newObject t vs
  | .array t es => do
    let vs ← evalAll scope run es
    let t ← resolve scope t
    withStore fun s => s.newArray t vs
  | .typeOf t => return .type (← resolve scope t)
  | .defaultOf t => do
    let t ← resolve scope t
    defaultOf t
  | .instanceOf t => do
    let t ← resolve scope t
    newInstance t
  | .variable name =>
    match scope.values.lookup name with
    | some v => return v
    | none => raise "unknown variable"
  | .construct t es => do
    let vs ← evalAll scope run es
    let t ← resolve scope t
    withWorld (Resolver.standard.constructWith run t (some vs))
  | .call method arity of es => do
    let target ← eval scope run of
    let vs ← evalAll scope run es
    callByName run method arity target vs
  | .staticSlot t slot => do
    let t ← resolve scope t
    return ((← get).world.store.readStatic? t slot).getD .null
  | .slot index of => do slotOf index (← eval scope run of)
  | .item index of => do itemOf index (← eval scope run of)
  | .length of => do lengthOf (← eval scope run of)
  | .orElse first second => do
    match ← eval scope run first with
    | .null => eval scope run second
    | v => return v
  | .add left right => do
    let a ← eval scope run left
    let b ← eval scope run right
    addValues a b
  | .self => return (← get).self
  | .argument index => return (← get).args[index]?.getD .null

/-- The values of expressions, from the left. -/
def evalAll (scope : Scope) (run : Evaluator Script) : List Expr → Eval n (List Value)
  | [] => return []
  | e :: es => do
    let v ← eval scope run e
    return v :: (← evalAll scope run es)

end

/-- One statement; a value ends the script. -/
def exec (scope : Scope) (run : Evaluator Script) : Statement → Eval n (Option Value)
  | .raise text => raise text
  | .return e => do return some (← eval scope run e)
  | .evaluate e => do
    let _ ← eval scope run e
    return none
  | .setOwnSlot index e => do
    let v ← eval scope run e
    let target := (← get).self
    let self ← withStore fun s => s.setSlot target index v
    modify fun f => { f with self := self }
    return none
  | .setSlot index e of => do
    let v ← eval scope run e
    if let .object r ← eval scope run of then
      withStore fun s => ((), s.write r.cell index v)
    return none
  | .setArgument index e => do
    let v ← eval scope run e
    modify fun f => { f with args := f.args.setIfInBounds index v }
    return none
  | .setSelf e => do
    let v ← eval scope run e
    modify fun f => { f with self := v }
    return none
  | .setItem index e of => do
    let v ← eval scope run e
    let target ← eval scope run of
    withStore fun s => ((), s.setItem target index v)
    return none
  | .setStatic t slot e => do
    let v ← eval scope run e
    let t ← resolve scope t
    withStore fun s => ((), s.writeStatic t slot v)
    return none

/-- Statements in order, up to the first that returns; the value is null if none does. -/
def execAll (scope : Scope) (run : Evaluator Script) : List Statement → Eval n Value
  | [] => return .null
  | s :: rest => do
    match ← exec scope run s with
    | some v => return v
    | none => execAll scope run rest

/-- The script of a callable; a synthesized constructor has none. -/
def bodyOf : Callable Script → Script
  | .method m => m.body
  | .constructor c => c.body?.getD []

mutual

/-- Whether the default values and instances that a value asks for come to an end. -/
def Expr.halts (scope : Scope) (w : World Script) : Expr → Bool
  | .defaultOf t => (scope.resolve? t).all fun t => (w.types.default? t).isSome
  | .instanceOf t => (scope.resolve? t).all fun t => (w.instantiate? t).isSome
  | .struct _ es | .object _ es | .array _ es => allHalt scope w es
  | _ => true

/-- Whether all of several values come to an end. -/
def Expr.allHalt (scope : Scope) (w : World Script) : List Expr → Bool
  | [] => true
  | e :: es => Expr.halts scope w e && Expr.allHalt scope w es

end

/-- A value computed in a world, outside of any body. -/
def evaluate (scope : Scope) (run : Evaluator Script) (e : Expr) (w : World Script) :
    Except Failure Value × World Script :=
  let frame : Frame 0 := ⟨.null, #v[], w⟩
  let (r, frame) := (eval scope run e).run.run frame
  (r, frame.world)

/-- The number of calls that may be inside one another.  The bound is there for scripts that would
call themselves for ever; it is far above the depth at which scripts follow lists and trees. -/
def depthLimit : Nat := 1000000

/-- The evaluator of scripts that allows so many calls inside one another. -/
def evaluator (scope : Scope) : (depth : Nat) → Evaluator Script
  | 0, _, target, _, args, w => ⟨.error (.raised "calls nest too deeply"), target, args, w⟩
  | depth + 1, c, target, _, args, w =>
    let (r, frame) := (execAll scope (evaluator scope depth) (bodyOf c)).run.run ⟨target, args, w⟩
    ⟨r, frame.self, frame.args, frame.world⟩

end Reflection.Script
