import Reflection.Member.Basic

/-!
# Listing/MethodTable — overloads by name

A listing names methods most derived first.  The table keeps a method unless one kept before has its
signature or overrides it, and groups what it keeps by name, names and overloads in listing order.
-/

namespace Reflection

/-- Overloads by name, in the order in which the names first came. -/
structure MethodTable (β : Type) where
  groups : List (String × List (Method β))

namespace MethodTable

variable {β : Type}

/-- Whether a method kept before stands for another. -/
def covers (k m : Method β) : Bool := k.sameSignature m || k.overrides m

/-- The methods of a listing that no earlier one covers. -/
def visible (ms : List (Method β)) : List (Method β) :=
  ms.foldl (fun kept m => if kept.any fun k => covers k m then kept else kept ++ [m]) []

/-- One more overload under its name. -/
def insert (m : Method β) : List (String × List (Method β)) → List (String × List (Method β))
  | [] => [(m.name, [m])]
  | (n, ms) :: gs => if n = m.name then (n, ms ++ [m]) :: gs else (n, ms) :: insert m gs

/-- The table of a listing. -/
def build (ms : List (Method β)) : MethodTable β :=
  ⟨(visible ms).foldl (fun groups m => insert m groups) []⟩

/-- The overloads of a name. -/
def overloads (t : MethodTable β) (name : String) : List (Method β) :=
  (t.groups.lookup name).getD []

/-- The first overload of a name with so many parameters. -/
def find? (t : MethodTable β) (name : String) (arity : Nat) : Option (Method β) :=
  (t.overloads name).find? fun m => m.arity = arity

/-- The names, in order. -/
def names (t : MethodTable β) : List String := t.groups.map (·.1)

end MethodTable

end Reflection
