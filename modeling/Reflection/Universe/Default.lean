import Reflection.Universe.Basic

/-!
# Universe/Default — default values

The default of a number is zero, of a reference null, and of a structure the defaults of its slots.
A structure may be used as a slot type before it is defined, so it can come to contain itself; then
it has no finite default.  `default?` unrolls at most as many structures inside one another as there
are declared types, which is enough wherever the unrolling ends at all, and says so where it does
not.  `default` needs an answer everywhere and gives a structure that contains itself no slots,
just as it does one that is not defined yet.
-/

namespace Reflection.Universe

variable {β : Type} (u : Universe β)

/-- The default value of a type, if it has at most so many structures inside one another. -/
def defaultWithin : Nat → TypeRef → Option Value
  | _, .primitive .bool => some (.bool false)
  | _, .primitive .i32 => some (.i32 0)
  | _, .primitive .i64 => some (.i64 0)
  | _, .primitive .f64 => some (.f64 .zero)
  | n, .declared d =>
    match d.kind with
    | .enumType => some (.enum (.declared d) 0)
    | .structType =>
      match n with
      | 0 => none
      | n + 1 =>
        ((u.layout (.declared d)).mapM (defaultWithin n)).map (.struct (.declared d))
    | _ => some .null
  | _, _ => some .null

/-- The default value of a type, if it has one. -/
def default? (t : TypeRef) : Option Value := u.defaultWithin u.size t

/-- The default value of a type; a structure that contains itself has no slots. -/
def default (t : TypeRef) : Value :=
  match u.default? t with
  | some v => v
  | none => .struct t []

/-- The default values of the instance slots of a type. -/
def layoutDefaults (t : TypeRef) : List Value := (u.layout t).map u.default

/-- The default values of the instance slots of a type, if all of them have one. -/
def layoutDefaults? (t : TypeRef) : Option (List Value) := (u.layout t).mapM u.default?

end Reflection.Universe
