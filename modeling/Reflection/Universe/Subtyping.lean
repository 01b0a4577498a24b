import Reflection.Universe.Basic

/-!
# Universe/Subtyping — which types may stand in for which

`isSubtype` answers whether one type is another, derives from it or implements it; `accepts` whether
a value may be stored where a type is declared.

Interfaces may be named before they are defined, so two of them can come to name each other.  The
search for an interface therefore goes at most as deep as there are declared types: a chain of
interfaces that is longer repeats one, and what it leads to is reached by a shorter chain as well.

`isSubtype?` is the same question asked of a search without that bound.  It has no answer where the
search runs around a cycle for ever, and agrees with `isSubtype` wherever it has one.
-/

namespace Reflection.Universe

variable {β : Type} (u : Universe β)

/-! ## Subtypes -/

/-- Whether a type reaches an interface by at most so many steps from a type to an interface that
it names. -/
def implementsWithin : Nat → TypeRef → TypeRef → Bool
  | 0, _, _ => false
  | n + 1, t, i => (u.interfaces t).any fun j => j = i || implementsWithin n j i

/-- Whether a type names an interface, or an interface that leads to it. -/
def implements (t i : TypeRef) : Bool := u.implementsWithin u.size t i

/-- Whether a type is another, derives from it or implements it.  Arrays of a reference type follow
their elements. -/
def isSubtype : TypeRef → TypeRef → Bool
  | .array s, .array t => s = t || (s.isReferenceType && isSubtype s t)
  | s, t =>
    if s = t || t.isObject then true
    else if t.isInterface then (u.ancestors s).any fun a => u.implements a t
    else (u.definition s).bases.contains t

/-- Whether a type derives from the attribute root. -/
def isAttribute (t : TypeRef) : Bool := t.isClass && u.isSubtype t .attributeRoot

/-! ## Acceptance -/

/-- Whether a value may be stored where a type is declared. -/
def accepts : TypeRef → Value → Bool
  | t, .null => t.acceptsNull
  | .nullable t, v => accepts t v
  | t, v => v.runtimeType?.any fun s => u.isSubtype s t

/-! ## The search without a bound -/

/-- The first answer that settles a disjunction: a search asks its questions in turn and stops at
the first `true`; it is lost at a question that has no answer. -/
def anyInTurn {α : Type} (p : α → Option Bool) : List α → Option Bool
  | [] => some false
  | a :: as =>
    match p a with
    | none => none
    | some true => some true
    | some false => anyInTurn p as

/-- The search for an interface, cut off after so many steps. -/
def searchInterface : Nat → TypeRef → TypeRef → Option Bool
  | 0, _, _ => none
  | n + 1, t, i =>
    anyInTurn (fun j => if j = i then some true else searchInterface n j i) (u.interfaces t)

/-- Whether a type is a subtype, by a search that is cut off after so many steps. -/
def searchSubtype (n : Nat) : TypeRef → TypeRef → Option Bool
  | .array s, .array t =>
    if s = t then some true
    else if s.isReferenceType then searchSubtype n s t
    else some false
  | s, t =>
    if s = t || t.isObject then some true
    else if t.isInterface then anyInTurn (fun a => u.searchInterface n a t) (u.ancestors s)
    else some ((u.definition s).bases.contains t)

/-- Whether a type is a subtype, if the search for the answer ends: a search that goes deeper than
there are declared types has come back to an interface it is still looking into. -/
def isSubtype? (s t : TypeRef) : Option Bool := u.searchSubtype (u.size + 1) s t

/-- Whether a value may be stored where a type is declared, if the search for the answer ends. -/
def accepts? : TypeRef → Value → Option Bool
  | t, .null => some t.acceptsNull
  | .nullable t, v => accepts? t v
  | t, v =>
    match v.runtimeType? with
    | none => some false
    | some s => u.isSubtype? s t

/-! ## Basic facts -/

@[simp] theorem isSubtype_self (t : TypeRef) : u.isSubtype t t = true := by
  cases t <;> simp [isSubtype]

@[simp] theorem isSubtype_object (t : TypeRef) : u.isSubtype t .object = true := by
  cases t <;> simp [isSubtype, TypeRef.isObject]

@[simp] theorem accepts_null (t : TypeRef) : u.accepts t .null = t.acceptsNull := by
  cases t <;> rfl

@[simp] theorem accepts_nullable (t : TypeRef) (v : Value) :
    u.accepts (.nullable t) v = (v.isNull || u.accepts t v) := by
  cases v <;> simp [accepts, Value.isNull]

end Reflection.Universe
