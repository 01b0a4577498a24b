import Reflection.Snapshot.Basic

/-!
# Snapshot/Cache — snapshots kept by type and filter

A cache builds the snapshot of a type under a filter when it is first asked for and gives the same
one ever after, also when the type has been defined in between.  Every snapshot that is handed out
bears a number of its own, and two are the identical snapshot exactly when their numbers agree.
-/

namespace Reflection

/-- A snapshot as handed out. -/
structure Issue (β : Type) where
  /-- The identity of the snapshot. -/
  number : Nat
  snapshot : Snapshot β

/-- What a snapshot is kept by. -/
abbrev CacheKey : Type := TypeRef × MemberFilter

/-- Snapshots kept by type and filter. -/
structure Cache (β : Type) where
  provider : Provider β
  /-- The filter of a request that names none. -/
  defaultFilter : MemberFilter := .standard
  /-- The snapshots in the order in which they were asked for. -/
  entries : List (CacheKey × Issue β) := []

namespace Cache

variable {β : Type}

/-- The snapshot kept under a key. -/
def find? (c : Cache β) (key : CacheKey) : Option (Issue β) := c.entries.lookup key

def contains (c : Cache β) (key : CacheKey) : Bool := (c.find? key).isSome

/-- The number of keys asked for. -/
def size (c : Cache β) : Nat := c.entries.length

def isEmpty (c : Cache β) : Bool := c.entries.isEmpty

/-- A snapshot built now and not kept. -/
def build (c : Cache β) (u : Universe β) (key : CacheKey) : Snapshot β :=
  .build c.provider u key.1 key.2

/-- The snapshot of a key: the one kept, or one built now under a fresh number and kept. -/
def request (c : Cache β) (u : Universe β) (fresh : Nat) (key : CacheKey) : Issue β × Cache β :=
  match c.find? key with
  | some issue => (issue, c)
  | none =>
    let issue : Issue β := ⟨fresh, c.build u key⟩
    (issue, { c with entries := c.entries ++ [(key, issue)] })

end Cache

end Reflection
