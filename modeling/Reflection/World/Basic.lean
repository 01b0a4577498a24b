import Reflection.Blueprint.Compile
import Reflection.Snapshot.Cache
import Reflection.World.Store

/-!
# World/Basic — the state that calls act on

A world holds the known types, the store, the snapshots kept for everyone, and the number that the
next snapshot bears.  Types are declared and defined here together with their static slots.
-/

namespace Reflection

/-- The state of a host. -/
structure World (β : Type) where
  /-- The declared types. -/
  types : Universe β
  store : Store
  /-- The snapshots kept for everyone. -/
  cache : Cache β
  /-- The number of the next snapshot. -/
  nextIssue : Nat

namespace World

variable {β : Type}

/-- The world without declared types, objects and snapshots. -/
def empty : World β := ⟨.empty, .empty, { provider := .reflector }, 0⟩

/-! ## Types -/

/-- A newly declared type. -/
def declare (w : World β) (kind : DeclaredKind) (name : String) : Declaration × World β :=
  (w.types.fresh kind name,
    { w with
      types := w.types.declare kind name
      store := { w.store with statics := w.store.statics.push [] } })

/-- The world in which the target of a blueprint is defined, if the blueprint compiles. -/
def define (w : World β) (b : Blueprint β) : Except DefinitionError (World β) := do
  let compiled ← b.compile w.types
  return { w with
    types := w.types.define b.target compiled.definition
    store := w.store.setStatics b.target compiled.statics }

/-- The outcome of defining the target of a blueprint, if compiling the blueprint comes to an
end. -/
def define? (w : World β) (b : Blueprint β) : Option (Except DefinitionError (World β)) :=
  if b.halts w.types then some (w.define b) else none

/-! ## Instances -/

/-- An instance before any constructor ran: a new object of a class, the default value of any other
type. -/
def instantiate (w : World β) (t : TypeRef) : Value × World β :=
  if t.isClass then
    let (v, store) := w.store.newObject t (w.types.layoutDefaults t)
    (v, { w with store := store })
  else (w.types.default t, w)

/-- An instance before any constructor ran, if its slots have default values. -/
def instantiate? (w : World β) (t : TypeRef) : Option (Value × World β) :=
  if t.isClass then
    (w.types.layoutDefaults? t).map fun slots =>
      let (v, store) := w.store.newObject t slots
      (v, { w with store := store })
  else (w.types.default? t).map fun v => (v, w)

/-! ## Snapshots -/

/-- A snapshot that is handed out for the first time. -/
def issue (w : World β) (s : Snapshot β) : Issue β × World β :=
  (⟨w.nextIssue, s⟩, { w with nextIssue := w.nextIssue + 1 })

/-- The snapshot of a key from some cache. -/
def requestFrom (w : World β) (c : Cache β) (key : CacheKey) : Issue β × Cache β × World β :=
  let (issue, c) := c.request w.types w.nextIssue key
  (issue, c, { w with nextIssue := w.nextIssue + 1 })

/-- The snapshot kept for everyone of a type under a filter. -/
def snapshot (w : World β) (t : TypeRef) (f : MemberFilter) : Issue β × World β :=
  let (issue, c, w) := w.requestFrom w.cache (t, f)
  (issue, { w with cache := c })

end World

end Reflection
