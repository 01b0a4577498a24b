import Reflection.Toml.Date
import Reflection.Toml.Table

/-!
# Toml/Expression — keys and values

A value is read with a bound on how deep arrays and inline tables may stand inside one another;
keys are bounded in their number of parts as well.
-/

namespace Reflection.Toml.Reader

/-- The depth from which on arrays, inline tables and dotted keys are refused. -/
def depthLimit : Nat := 80

/-- A part of a key. -/
def keyPart : Reader String :=
  basicString <|> literalString <|>
  (do
    let isBare (c : Char) := c.isAlphanum || c == '_' || c == '-'
    let c ← satisfy isBare
    return String.ofList (c :: (← many (satisfy isBare))))

/-- A key: parts with dots between them. -/
def key : Reader (List String) := do
  let ks ← sepBy1 (do blanks; let k ← keyPart; blanks; return k) (char '.')
  if ks.length < depthLimit then return ks else failure

/-- A key with its value. -/
def keyValue (value : Reader Value) : Reader (List String × Value) := do
  let k ← key
  char '='
  blanks
  return (k, ← value)

/-- An array; commas, blanks, comments and line ends stand between its items. -/
def array (value : Reader Value) : Reader Value := do
  char '['
  filler
  let items ← optional (sepBy1 (do filler; let v ← value; filler; return v) (char ','))
  let _ ← optional (if items.isSome then char ',' else failure)
  filler
  char ']'
  return .array (items.getD [])

/-- An inline table, on one line and without a comma at its end. -/
def inlineTable (value : Reader Value) : Reader Value := do
  char '\x7b'
  blanks
  let entries ← optional (sepBy1 (do let e ← keyValue value; blanks; return e) (char ','))
  blanks
  char '\x7d'
  match Table.ofPairs? (entries.getD []) with
  | some t => return t.toValue
  | none => failure

/-- A value without parts. -/
def scalarValue : Reader Value :=
  (.string <$> string) <|>
  (do dateTime; return .dateTime) <|>
  (do float; return .float) <|>
  (.integer <$> integer) <|>
  (do chars "true".toList; return .boolean true) <|>
  (do chars "false".toList; return .boolean false)

/-- A value with arrays and inline tables at most so deep. -/
def value : (depth : Nat) → Reader Value
  | 0 => scalarValue
  | depth + 1 => array (value depth) <|> inlineTable (value depth) <|> scalarValue

end Reflection.Toml.Reader
