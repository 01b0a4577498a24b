import Reflection.Type.Basic

/-!
# Member/Parameter — formal parameters

Two parameter lists make the same signature when they agree in types and modes; names do not count
(`sameShape`).  `variadicTail?` and `fixedCount` read a list as fixed parameters and a tail.
-/

namespace Reflection

/-- How an argument is passed. -/
inductive ParameterMode where
  /-- By value. -/
  | plain
  /-- The callee's final value goes back into the caller's argument. -/
  | writeBack
  /-- A last array that takes any number of trailing arguments. -/
  | variadic
deriving DecidableEq, Repr, Inhabited

/-- The word for a mode. -/
def ParameterMode.name : ParameterMode → String
  | plain => "normal"
  | writeBack => "write_back"
  | variadic => "variadic"

/-- A formal parameter. -/
structure Parameter where
  name : String
  /-- The declared type; an array type for a variadic parameter. -/
  type : TypeRef
  mode : ParameterMode
deriving DecidableEq, Repr

namespace Parameter

def isWriteBack (p : Parameter) : Bool := p.mode = .writeBack

def isVariadic (p : Parameter) : Bool := p.mode = .variadic

/-- What a signature keeps of a parameter. -/
def shape (p : Parameter) : TypeRef × ParameterMode := (p.type, p.mode)

/-- Whether two parameter lists have the same types and modes. -/
def sameShape (ps qs : List Parameter) : Bool := ps.map shape = qs.map shape

@[simp] theorem sameShape_iff {ps qs : List Parameter} :
    sameShape ps qs = true ↔ ps.map shape = qs.map shape := by
  simp [sameShape]

/-- The variadic parameter at the end of a list. -/
def variadicTail? (ps : List Parameter) : Option Parameter := ps.getLast?.filter isVariadic

/-- Whether a list ends in a variadic parameter. -/
def endsVariadic (ps : List Parameter) : Bool := (variadicTail? ps).isSome

/-- The number of parameters before the variadic tail. -/
def fixedCount (ps : List Parameter) : Nat :=
  if endsVariadic ps then ps.length - 1 else ps.length

theorem fixedCount_le (ps : List Parameter) : fixedCount ps ≤ ps.length := by
  unfold fixedCount
  split <;> omega

end Parameter

end Reflection
