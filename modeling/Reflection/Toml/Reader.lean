/-!
# Toml/Reader — reading a text from the left

A reader takes a value from the front of a text or fails, and then leaves the text as it was.  A
repetition ends when its reader fails or the text ends.  Each round takes at least one character, so
a repetition that goes on at most as often as the text has characters misses none.
-/

namespace Reflection.Toml

/-- A reader of values from the front of a text. -/
abbrev Reader : Type → Type := StateT (List Char) Option

namespace Reader

/-- One character of a class. -/
def satisfy (p : Char → Bool) : Reader Char := fun
  | c :: cs => if p c then some (c, cs) else none
  | [] => none

/-- One given character. -/
def char (c : Char) : Reader Unit := do let _ ← satisfy (· == c)

/-- Given characters in order. -/
def chars : List Char → Reader Unit
  | [] => return ()
  | c :: cs => do
    char c
    chars cs

/-- What a reader takes, or nothing. -/
def optional {α : Type} (r : Reader α) : Reader (Option α) := (some <$> r) <|> return none

/-- Repetition, at most once for each character of a given text. -/
def manyAlong {α : Type} (r : Reader α) : (rounds : List Char) → Reader (List α)
  | [], cs => some ([], cs)
  | _, [] => some ([], [])
  | _ :: rounds, cs =>
    match r cs with
    | some (a, rest) => (manyAlong r rounds rest).map fun (as, rest) => (a :: as, rest)
    | none => some ([], cs)

/-- What a reader takes again and again. -/
def many {α : Type} (r : Reader α) : Reader (List α) := fun cs => manyAlong r cs cs

/-- One or more values with a separator between them. -/
def sepBy1 {α : Type} (r : Reader α) (sep : Reader Unit) : Reader (List α) := do
  let a ← r
  let as ← many do
    sep
    r
  return a :: as

/-- Success at the end of the text only. -/
def atEnd : Reader Unit := fun
  | [] => some ((), [])
  | _ :: _ => none

/-- Success in front of no character of a class, taking nothing. -/
def notBefore (p : Char → Bool) : Reader Unit := fun
  | c :: cs => if p c then none else some ((), c :: cs)
  | [] => some ((), [])

/-! ## White space and comments -/

/-- Blanks inside a line. -/
def isBlank (c : Char) : Bool := c == ' ' || c == '\t'

/-- Characters that stand for themselves: all but the control characters other than the tab. -/
def isPlain (c : Char) : Bool := c == '\t' || (0x20 ≤ c.toNat && c.toNat ≠ 0x7F)

/-- Blanks. -/
def blanks : Reader Unit := do let _ ← many (satisfy isBlank)

/-- The end of a line. -/
def newline : Reader Unit := char '\n' <|> chars ['\r', '\n']

/-- A comment, up to the end of its line. -/
def comment : Reader Unit := do
  char '#'
  let _ ← many (satisfy isPlain)

/-- The rest of a line that says nothing more. -/
def restOfLine : Reader Unit := do
  blanks
  let _ ← optional comment
  newline <|> atEnd

/-- Blanks, comments and line ends. -/
def filler : Reader Unit := do
  let _ ← many ((do let _ ← satisfy isBlank) <|> newline <|> (do comment; newline))

end Reader

end Reflection.Toml
