import Reflection.Toml.Reader

/-!
# Toml/Text — the four kinds of string

Basic strings have escapes and literal strings have none; both come on one line or, between triple
quotes, on several.  In the latter a line end counts as one line feed, the first one is dropped
when it follows the opening quotes at once, and up to two quotes may stand before the closing
ones.
-/

namespace Reflection.Toml.Reader

/-- The value of a hexadecimal digit. -/
def hexDigit? (c : Char) : Option Nat :=
  if c.isDigit then some (c.toNat - '0'.toNat)
  else if 'a' ≤ c ∧ c ≤ 'f' then some (c.toNat - 'a'.toNat + 10)
  else if 'A' ≤ c ∧ c ≤ 'F' then some (c.toNat - 'A'.toNat + 10)
  else none

/-- So many hexadecimal digits, after a number read so far. -/
def hexNumber : Nat → Nat → Reader Nat
  | 0, value => return value
  | n + 1, value => do
    let c ← satisfy fun c => (hexDigit? c).isSome
    hexNumber n (16 * value + (hexDigit? c).getD 0)

/-- A character by its number, which must be that of a character. -/
def scalar (digits : Nat) : Reader Char := do
  let n ← hexNumber digits 0
  if n.isValidChar then return Char.ofNat n else failure

/-- What follows the backslash of an escape. -/
def escaped : Reader Char := do
  match ← satisfy fun _ => true with
  | 'b' => return '\x08'
  | 't' => return '\t'
  | 'n' => return '\n'
  | 'f' => return '\x0C'
  | 'r' => return '\r'
  | '"' => return '"'
  | '\\' => return '\\'
  | 'u' => scalar 4
  | 'U' => scalar 8
  | _ => failure

/-- An escape. -/
def escape : Reader Char := do
  char '\\'
  escaped

/-- A character that stands for itself between basic quotes. -/
def basicChar : Reader Char := satisfy fun c => isPlain c && c != '"' && c != '\\'

/-- A character between literal quotes. -/
def literalChar : Reader Char := satisfy fun c => isPlain c && c != '\''

/-- A basic string on one line. -/
def basicString : Reader String := do
  char '"'
  let cs ← many (basicChar <|> escape)
  char '"'
  return String.ofList cs

/-- A literal string on one line. -/
def literalString : Reader String := do
  char '\''
  let cs ← many literalChar
  char '\''
  return String.ofList cs

/-- A backslash at the end of a line takes the line end and all blanks and line ends after it. -/
def escapedNewline : Reader Unit := do
  char '\\'
  blanks
  newline
  let _ ← many ((do let _ ← satisfy isBlank) <|> newline)

/-- One or two quotes that close nothing, since no further quote follows. -/
def innerQuotes (quote : Char) : Reader (List Char) :=
  (do
    chars [quote, quote]
    notBefore (· == quote)
    return [quote, quote]) <|>
  (do
    char quote
    notBefore (· == quote)
    return [quote])

/-- Three closing quotes, after up to two that belong to the string. -/
def closingQuotes (quote : Char) : Reader (List Char) := do
  chars [quote, quote, quote]
  (do
    chars [quote, quote]
    return [quote, quote]) <|>
  (do
    char quote
    return [quote]) <|>
  return []

/-- A string between triple quotes, from a reader of its pieces. -/
def longString (quote : Char) (piece : Reader (List Char)) : Reader String := do
  chars [quote, quote, quote]
  let _ ← optional newline
  let parts ← many (piece <|> innerQuotes quote)
  let last ← closingQuotes quote
  return String.ofList (parts.flatten ++ last)

/-- A line end inside a string. -/
def lineFeed : Reader (List Char) := do
  newline
  return ['\n']

/-- A basic string on several lines. -/
def longBasicString : Reader String :=
  longString '"' ((List.singleton <$> basicChar) <|> (do escapedNewline; return []) <|>
    (List.singleton <$> escape) <|> lineFeed)

/-- A literal string on several lines. -/
def longLiteralString : Reader String :=
  longString '\'' ((List.singleton <$> literalChar) <|> lineFeed)

/-- A string of any kind. -/
def string : Reader String :=
  longBasicString <|> basicString <|> longLiteralString <|> literalString

end Reflection.Toml.Reader
