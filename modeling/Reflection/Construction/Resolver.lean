import Reflection.Construction.Factory

/-!
# Construction/Resolver — which constructor to run

A resolver picks among the constructors that a type declares.  Without arguments it takes the one
without parameters, or else the only one that has nothing but a variadic tail.  With arguments it
takes the constructor that binds them: one without a tail before any with one, the most specific of
several without, the one with the most fixed parameters of several with.  Structures, enumerations
and the other value types need no constructor to be made or copied.

Binding, comparing types and making instances may go on for ever.  Then `construct?`, `resolve?`,
`constructWith?` and `copy?` have no answer, while `construct`, `resolve`, `constructWith` and `copy`
go by the bounded questions: wherever the former have an answer, it is that of the latter.
-/

namespace Reflection

/-- A way to pick constructors. -/
structure Resolver (β : Type) where
  provider : Provider β
  /-- Whether constructors that are not public count too. -/
  nonPublic : Bool := false

namespace Resolver

variable {β : Type}

/-- The resolver over the definitions that sees public constructors only. -/
def standard : Resolver β := { provider := .reflector }

/-- The constructors that count. -/
def candidates (r : Resolver β) (u : Universe β) (t : TypeRef) : List (Constructor β) :=
  (r.provider.constructors u t).filter fun c => r.nonPublic || c.visibility.isPublic

/-! ## Without arguments -/

/-- The constructor to run without arguments; a value type needs none. -/
def resolveDefault (r : Resolver β) (u : Universe β) (t : TypeRef) :
    Except EngineError (Option (Constructor β)) := do
  u.checkConstructible t
  if u.isUninstantiable t then .error (.noDefaultConstructor t.name)
  else if t.isValueType then .ok none
  else
    let cs := r.candidates u t
    match cs.find? fun c => c.arity = 0 with
    | some c => .ok (some c)
    | none =>
      match cs.filter fun c => c.arity = 1 && c.isVariadic with
      | [] => .error (.noDefaultConstructor t.name)
      | [c] => .ok (some c)
      | many => .error (.ambiguousMatch t.name many.length)

/-- Whether a type can be made without arguments. -/
def hasDefault (r : Resolver β) (u : Universe β) (t : TypeRef) : Bool := (r.resolveDefault u t).isOk

/-- A new instance, without arguments. -/
def construct (run : Evaluator β) (r : Resolver β) (t : TypeRef) (w : World β) :
    Except EngineError Value × World β :=
  match r.resolveDefault w.types t with
  | .error e => (.error e, w)
  | .ok none => (.ok (w.types.default t), w)
  | .ok (some c) => c.create run [] w

/-- A new instance, without arguments, if making it comes to an end. -/
def construct? (run : Evaluator β) (r : Resolver β) (t : TypeRef) (w : World β) :
    Option (Except EngineError Value × World β) :=
  match r.resolveDefault w.types t with
  | .error e => some (.error e, w)
  | .ok none => (w.types.default? t).map fun v => (.ok v, w)
  | .ok (some c) => c.create? run [] w

/-! ## With arguments -/

/-- Whether a constructor takes no more than another: each parameter type is a subtype of the
matching one. -/
def asSpecific (u : Universe β) (c d : Constructor β) : Bool :=
  (c.parameters.zip d.parameters).all fun p => u.isSubtype p.1.type p.2.type

/-- The constructor that is as specific as every other one. -/
def mostSpecific? (u : Universe β) (cs : List (Constructor β)) : Option (Constructor β) :=
  cs.find? fun c => cs.all fun d => c.id = d.id || asSpecific u c d

/-- The greatest number of fixed parameters. -/
def widest (cs : List (Constructor β)) : Nat := (cs.map Constructor.fixedArity).foldl max 0

/-- The best of the constructors that bind the arguments, those without a tail and those with one
apart. -/
def best (u : Universe β) (t : TypeRef) (exact variadic : List (Constructor β)) :
    Except EngineError (Constructor β) :=
  match exact, variadic with
  | [c], _ => .ok c
  | [], [] => .error (.noMatchingConstructor t.name)
  | [], many =>
    match many.filter fun c => c.fixedArity = widest many with
    | [c] => .ok c
    | tied => .error (.ambiguousMatch t.name tied.length)
  | many, _ =>
    match mostSpecific? u many with
    | some c => .ok c
    | none => .error (.ambiguousMatch t.name many.length)

/-- The constructor that matches arguments best. -/
def resolve (r : Resolver β) (u : Universe β) (t : TypeRef) (args : List Value) :
    Except EngineError (Constructor β) := do
  u.checkConstructible t
  if u.isUninstantiable t then .error (.noDefaultConstructor t.name)
  else
    let binding := (r.candidates u t).filter fun c => Binding.binds u c.parameters args
    best u t (binding.filter fun c => !c.isVariadic) (binding.filter Constructor.isVariadic)

/-- A new instance from arguments; the arguments must be given, though there may be none. -/
def constructWith (run : Evaluator β) (r : Resolver β) (t : TypeRef) (args? : Option (List Value))
    (w : World β) : Except EngineError Value × World β :=
  match args? with
  | none => (.error (.nullArgument "args"), w)
  | some args =>
    if args.isEmpty && t.isValueType then
      match w.types.checkConstructible t with
      | .error e => (.error e, w)
      | .ok () => (.ok (w.types.default t), w)
    else
      match r.resolve w.types t args with
      | .error e => (.error e, w)
      | .ok c => c.create run args w

/-! ## Copies -/

/-- Whether values of a type are copied without a constructor. -/
def copiesTrivially : TypeRef → Bool
  | .primitive _ | .nullable _ => true
  | t => t.isStruct || t.isEnum

/-- The constructor that takes one plain argument of exactly the type itself. -/
def copyConstructor? (r : Resolver β) (u : Universe β) (t : TypeRef) : Option (Constructor β) :=
  (r.candidates u t).find? fun c =>
    match c.parameters with
    | [p] => p.mode = .plain && p.type = t
    | _ => false

/-- Whether values of a type can be copied. -/
def hasCopy (r : Resolver β) (u : Universe β) (t : TypeRef) : Bool :=
  copiesTrivially t || (r.copyConstructor? u t).isSome

/-- A copy of a value as an instance of a type; null is its own copy. -/
def copy (run : Evaluator β) (r : Resolver β) (t : TypeRef) (source : Value) (w : World β) :
    Except EngineError Value × World β :=
  if source.isNull then (.ok .null, w)
  else if !w.types.accepts t source then (.error (Binding.mismatch t source), w)
  else if copiesTrivially t then (.ok source, w)
  else
    match r.copyConstructor? w.types t with
    | none => (.error (.noCopyConstructor t.name), w)
    | some c => c.create run [source] w

/-! ## Choices that may go on for ever

Whether arguments bind, and whether a type is a subtype of another, need not have an answer.  The
definitions below ask the same questions in the same order, up to the first without one;
constructors are compared only where several without a tail bind. -/

/-- Whether a constructor takes no more than another, as far as there are answers. -/
def asSpecific? (u : Universe β) (c d : Constructor β) : Option Bool :=
  (c.parameters.zip d.parameters).allM fun p => u.isSubtype? p.1.type p.2.type

/-- The constructor that is as specific as every other one, as far as there are answers. -/
def findMostSpecific? (u : Universe β) (cs : List (Constructor β)) :
    Option (Option (Constructor β)) :=
  cs.findM? fun c => cs.allM fun d => if c.id = d.id then some true else asSpecific? u c d

/-- The best of the constructors that bind the arguments, if finding it comes to an end. -/
def best? (u : Universe β) (t : TypeRef) (exact variadic : List (Constructor β)) :
    Option (Except EngineError (Constructor β)) :=
  match exact, variadic with
  | c :: d :: cs, _ => do
    match ← findMostSpecific? u (c :: d :: cs) with
    | some e => return .ok e
    | none => return .error (.ambiguousMatch t.name (c :: d :: cs).length)
  | few, many => some (best u t few many)

/-- The constructor that matches arguments best, if finding it comes to an end. -/
def resolve? (r : Resolver β) (u : Universe β) (t : TypeRef) (args : List Value) :
    Option (Except EngineError (Constructor β)) :=
  match u.checkConstructible t with
  | .error e => some (.error e)
  | .ok () =>
    if u.isUninstantiable t then some (.error (.noDefaultConstructor t.name))
    else do
      let binding ← (r.candidates u t).filterM fun c => Binding.binds? u c.parameters args
      best? u t (binding.filter fun c => !c.isVariadic) (binding.filter Constructor.isVariadic)

/-- A new instance from arguments, if choosing the constructor and running it come to an end. -/
def constructWith? (run : Evaluator β) (r : Resolver β) (t : TypeRef)
    (args? : Option (List Value)) (w : World β) : Option (Except EngineError Value × World β) :=
  match args? with
  | none => some (.error (.nullArgument "args"), w)
  | some args =>
    if args.isEmpty && t.isValueType then
      match w.types.checkConstructible t with
      | .error e => some (.error e, w)
      | .ok () => (w.types.default? t).map fun v => (.ok v, w)
    else do
      match ← r.resolve? w.types t args with
      | .error e => return (.error e, w)
      | .ok c => c.create? run args w

/-- A copy of a value as an instance of a type, if making it comes to an end. -/
def copy? (run : Evaluator β) (r : Resolver β) (t : TypeRef) (source : Value) (w : World β) :
    Option (Except EngineError Value × World β) :=
  if source.isNull then some (.ok .null, w)
  else do
    if !(← w.types.accepts? t source) then return (.error (Binding.mismatch t source), w)
    else if copiesTrivially t then return (.ok source, w)
    else
      match r.copyConstructor? w.types t with
      | none => return (.error (.noCopyConstructor t.name), w)
      | some c => c.create? run [source] w

end Resolver

/-! ## Attempts -/

/-- An outcome kept instead of reported: a value or an error. -/
structure Attempt (α : Type) where
  value? : Option α
  error? : Option EngineError

namespace Attempt

variable {α : Type}

def ofResult : Except EngineError α → Attempt α
  | .ok a => ⟨some a, none⟩
  | .error e => ⟨none, some e⟩

def isOk (a : Attempt α) : Bool := a.error?.isNone

/-- The outcome as a result again; an error wins over a value. -/
def toResult (a : Attempt α) : Except EngineError α :=
  match a.value?, a.error? with
  | _, some e => .error e
  | some v, none => .ok v
  | none, none => .error (.nullArgument "value")

@[simp] theorem toResult_ofResult (r : Except EngineError α) : (ofResult r).toResult = r := by
  cases r <;> rfl

end Attempt

end Reflection
