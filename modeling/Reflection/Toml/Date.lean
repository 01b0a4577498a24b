import Reflection.Toml.Number

/-!
# Toml/Date — dates and times

A date, a time, or both with or without an offset.  Each part must be in its range, the day within
its month.
-/

namespace Reflection.Toml.Reader

/-- So many digits that spell a number in a range. -/
def fixedDigits (count low high : Nat) : Reader Nat := do
  let ds ← (List.replicate count ()).mapM fun _ => satisfy Char.isDigit
  let n := ofDigits 10 ds
  if low ≤ n ∧ n ≤ high then return n else failure

/-- The number of days of a month. -/
def daysInMonth (year month : Nat) : Nat :=
  if month = 2 then
    if year % 4 = 0 ∧ (year % 100 ≠ 0 ∨ year % 400 = 0) then 29 else 28
  else if month = 4 ∨ month = 6 ∨ month = 9 ∨ month = 11 then 30
  else 31

/-- A date. -/
def date : Reader Unit := do
  let year ← fixedDigits 4 0 9999
  char '-'
  let month ← fixedDigits 2 1 12
  char '-'
  let _ ← fixedDigits 2 1 (daysInMonth year month)

/-- A time of day. -/
def time : Reader Unit := do
  let _ ← fixedDigits 2 0 23
  char ':'
  let _ ← fixedDigits 2 0 59
  char ':'
  let _ ← fixedDigits 2 0 60
  let _ ← optional do
    char '.'
    let _ ← satisfy Char.isDigit
    many (satisfy Char.isDigit)

/-- An offset from universal time. -/
def offset : Reader Unit :=
  (do let _ ← satisfy fun c => c == 'Z' || c == 'z') <|>
  (do
    let _ ← satisfy fun c => c == '+' || c == '-'
    let _ ← fixedDigits 2 0 23
    char ':'
    let _ ← fixedDigits 2 0 59)

/-- A date, a time, or both. -/
def dateTime : Reader Unit :=
  (do
    date
    let _ ← optional do
      let _ ← satisfy fun c => c == 'T' || c == 't' || c == ' '
      time
      optional offset) <|>
  time

end Reflection.Toml.Reader
