import Reflection.Toml.Value

/-!
# Toml/Table — tables as a document builds them up

Keys and headers say where a value goes, and a table may be opened only in the ways that leave every
table defined once.  A table that has only been passed through by a header may still get a header of
its own; one made by a dotted key may be continued by dotted keys, but gets no header; and a table
with a header is not continued by dotted keys from outside.  Inline tables are values and take
nothing more.
-/

namespace Reflection.Toml

/-- What a key of a table under construction holds. -/
inductive Item where
  | value (v : Value)
  /-- A table; it is `passed` while no header or value of its own has defined it, and `dotted` when
  a dotted key made it. -/
  | table (passed dotted : Bool) (entries : List (String × Item))
  /-- An array of tables, the last one first. -/
  | tables (elements : List (List (String × Item)))

/-- The entries of a table under construction, in order. -/
abbrev Table : Type := List (String × Item)

namespace Table

/-- The table with a key bound to an item, in its old place if the key was bound. -/
def put (k : String) (item : Item) : Table → Table
  | [] => [(k, item)]
  | (l, i) :: es => if l = k then (l, item) :: es else (l, i) :: put k item es

/-- The table after a change to the table that a path leads to.  Tables missing on the way are made;
an array of tables leads to its last one.  Along dotted keys only tables without a header of their
own may be passed.  The change is told whether a dotted key made the table. -/
def alter (viaDotted : Bool) (change : (dotted : Bool) → Table → Option Table) :
    (path : List String) → (dotted : Bool) → Table → Option Table
  | [], dotted, t => change dotted t
  | k :: path, _, t =>
    match t.lookup k with
    | none => do
      let sub ← alter viaDotted change path viaDotted []
      return t.put k (.table true viaDotted sub)
    | some (.table passed dotted sub) =>
      if viaDotted && !passed then none
      else do
        let sub ← alter viaDotted change path dotted sub
        return t.put k (.table passed dotted sub)
    | some (.tables (last :: earlier)) => do
      let sub ← alter viaDotted change path false last
      return t.put k (.tables (sub :: earlier))
    | some _ => none

/-- The table with a value under a dotted key. -/
def insert (path : List String) (k : String) (v : Value) (t : Table) : Option Table :=
  alter true (fun dotted t =>
    if dotted == path.isEmpty || (t.lookup k).isSome then none else some (t.put k (.value v)))
    path false t

/-- The table with a value under a key, which has at least one part. -/
def insertKey (key : List String) (v : Value) (t : Table) : Option Table :=
  key.getLast?.bind fun k => t.insert key.dropLast k v

/-- The table of keys with values, if no two of them get into each other's way. -/
def ofPairs? (entries : List (List String × Value)) : Option Table :=
  entries.foldlM (fun t e => t.insertKey e.1 e.2) []

/-- The table after a header that opens a table. -/
def openTable (header : List String) (t : Table) : Option Table :=
  header.getLast?.bind fun k =>
    alter false (fun _ t =>
      match t.lookup k with
      | none => some (t.put k (.table false false []))
      | some (.table true false sub) => some (t.put k (.table false false sub))
      | some _ => none) header.dropLast false t

/-- The table after a header that adds a table to an array of tables. -/
def openElement (header : List String) (t : Table) : Option Table :=
  header.getLast?.bind fun k =>
    alter false (fun _ t =>
      match t.lookup k with
      | none => some (t.put k (.tables [[]]))
      | some (.tables ts) => some (t.put k (.tables ([] :: ts)))
      | some _ => none) header.dropLast false t

/-- The table with a value under a key below the header that is open. -/
def insertBelow (header key : List String) (v : Value) (t : Table) : Option Table :=
  alter false (fun _ t => t.insertKey key v) header false t

end Table

mutual

/-- The value that an item stands for. -/
def Item.toValue : Item → Value
  | .value v => v
  | .table _ _ entries => .table (entriesToValues entries)
  | .tables elements => .array (elementsToValues elements [])

/-- The values that the entries of a table stand for. -/
def entriesToValues : List (String × Item) → List (String × Value)
  | [] => []
  | (k, i) :: es => (k, i.toValue) :: entriesToValues es

/-- The values that the elements of an array of tables stand for, in front of those done already. -/
def elementsToValues : List (List (String × Item)) → List Value → List Value
  | [], done => done
  | t :: ts, done => elementsToValues ts (.table (entriesToValues t) :: done)

end

/-- The value that a table stands for. -/
def Table.toValue (t : Table) : Value := .table (entriesToValues t)

end Reflection.Toml
