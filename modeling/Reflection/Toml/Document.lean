import Reflection.Toml.Expression

/-!
# Toml/Document — whole documents

A document is a sequence of lines: keys with values, headers, comments and empty lines.  A byte
order mark may come first.  A document that says one thing twice is refused, just as one that
cannot be read.
-/

namespace Reflection.Toml

/-- What has been read of a document. -/
structure Document where
  table : Table := []
  /-- The header that is open; the keys below it go into its table. -/
  header : List String := []

namespace Document

/-- What a line says. -/
inductive Line where
  | empty
  | entry (key : List String) (value : Value)
  | header (key : List String)
  | elementHeader (key : List String)

/-- One line. -/
def line : Reader Line := do
  Reader.blanks
  let l ←
    (do
      Reader.chars ['[', '[']
      let k ← Reader.key
      Reader.chars [']', ']']
      return Line.elementHeader k) <|>
    (do
      Reader.char '['
      let k ← Reader.key
      Reader.char ']'
      return Line.header k) <|>
    (do
      let (k, v) ← Reader.keyValue (Reader.value (Reader.depthLimit - 1))
      return Line.entry k v) <|>
    return Line.empty
  Reader.restOfLine
  return l

/-- The document after one more line. -/
def add (d : Document) : Line → Option Document
  | .empty => some d
  | .entry k v => (d.table.insertBelow d.header k v).map fun t => { d with table := t }
  | .header k => (d.table.openTable k).map fun t => { table := t, header := k }
  | .elementHeader k => (d.table.openElement k).map fun t => { table := t, header := k }

/-- The lines of a text. -/
def lines : Reader (List Line) := do
  let _ ← Reader.optional (Reader.char (Char.ofNat 0xFEFF))
  let ls ← Reader.many line
  Reader.atEnd
  return ls

end Document

/-- The table that a text spells. -/
def parse? (text : String) : Option Value := do
  let (ls, _) ← Document.lines.run text.toList
  let d ← ls.foldlM Document.add {}
  return d.table.toValue

end Reflection.Toml
