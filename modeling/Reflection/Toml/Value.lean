/-!
# Toml/Value — what a TOML document says

Numbers with a fraction or exponent, dates and times are kept only as such: nothing in a
configuration asks for their value.
-/

namespace Reflection.Toml

/-- A TOML value. -/
inductive Value where
  | string (s : String)
  | integer (n : Int)
  | float
  | boolean (b : Bool)
  | dateTime
  | array (items : List Value)
  | table (entries : List (String × Value))
deriving Repr, Inhabited

/-- The value of a key of a table. -/
def Value.get? : Value → String → Option Value
  | .table entries, key => entries.lookup key
  | _, _ => none

end Reflection.Toml
