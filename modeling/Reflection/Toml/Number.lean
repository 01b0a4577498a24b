import Reflection.Toml.Text

/-!
# Toml/Number — integers and numbers with a fraction or exponent

Digits may be parted by single underscores.  An integer must fit 64 bits with sign.  Of other
numbers only the form is kept, but one so large that it rounds to positive infinity is refused.
-/

namespace Reflection.Toml.Reader

/-- Digits of a class, after a first one that may be of a narrower class, parted by single
underscores. -/
def digitsAfter (first digit : Char → Bool) : Reader (List Char) := do
  let d ← satisfy first
  let ds ← many (satisfy digit <|> (do char '_'; satisfy digit))
  return d :: ds

/-- Decimal digits; leading zeros are allowed. -/
def anyDigits : Reader (List Char) := digitsAfter Char.isDigit Char.isDigit

/-- Decimal digits without leading zeros. -/
def plainDigits : Reader (List Char) :=
  digitsAfter (fun c => c.isDigit && c != '0') Char.isDigit <|>
  (do
    char '0'
    return ['0'])

/-- Whether there is a minus sign; a plus sign is allowed too. -/
def sign : Reader Bool :=
  (do
    char '-'
    return true) <|>
  (do
    char '+'
    return false) <|>
  return false

/-- The number that digits spell in a base. -/
def ofDigits (base : Nat) (ds : List Char) : Nat :=
  ds.foldl (fun n c => base * n + (hexDigit? c).getD 0) 0

/-- A number that fits 64 bits with sign. -/
def fitting (n : Int) : Reader Int :=
  if -0x8000000000000000 ≤ n ∧ n ≤ 0x7FFFFFFFFFFFFFFF then return n else failure

/-- A number after a marker of its base. -/
def basedInteger (marker : Char) (base : Nat) : Reader Int := do
  chars ['0', marker]
  let isDigit (c : Char) := (hexDigit? c).any (· < base)
  let ds ← digitsAfter isDigit isDigit
  fitting (ofDigits base ds)

/-- An integer. -/
def integer : Reader Int :=
  basedInteger 'x' 16 <|> basedInteger 'o' 8 <|> basedInteger 'b' 2 <|>
  (do
    let negative ← sign
    let n := (ofDigits 10 (← plainDigits) : Int)
    fitting (if negative then -n else n))

/-- The fraction of a number: its digits. -/
def fraction : Reader (List Char) := do
  char '.'
  anyDigits

/-- The exponent of a number. -/
def exponent : Reader Int := do
  let _ ← satisfy fun c => c == 'e' || c == 'E'
  let negative ← sign
  let n := (ofDigits 10 (← anyDigits) : Int)
  return if negative then -n else n

/-- Whether `m · 10 ^ e` rounds to infinity: it is at least half way from the largest finite number
to the next power of two. -/
def roundsToInfinity (m : Nat) (e : Int) : Bool :=
  let limit := Nat.pow 2 1024 - Nat.pow 2 970
  let magnitude := (Nat.toDigits 10 m).length + e
  if m = 0 || magnitude < 308 then false
  else if magnitude > 310 then true
  else if 0 ≤ e then limit ≤ m * Nat.pow 10 e.toNat
  else limit * Nat.pow 10 (-e).toNat ≤ m

/-- A number with a fraction or an exponent. -/
def decimal : Reader Unit := do
  let negative ← sign
  let whole ← plainDigits
  let fractional ← optional fraction
  let scaled ← optional exponent
  if fractional.isNone && scaled.isNone then failure
  let digits := whole ++ fractional.getD []
  let shift := scaled.getD 0 - (fractional.getD []).length
  if !negative && roundsToInfinity (ofDigits 10 digits) shift then failure

/-- An infinity, or a value that is not a number. -/
def specialNumber : Reader Unit := do
  let _ ← sign
  chars ['i', 'n', 'f'] <|> chars ['n', 'a', 'n']

/-- A number that is not an integer. -/
def float : Reader Unit := decimal <|> specialNumber

end Reflection.Toml.Reader
