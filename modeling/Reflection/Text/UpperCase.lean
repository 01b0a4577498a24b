/-!
# Text/UpperCase — upper case, as far as it can reach ASCII

A keyword is compared in upper case under the full Unicode mapping, in which one character may
become several (`ß` becomes `SS`).  The keywords are ASCII, so only the characters whose upper
case form lies in ASCII can take part in a match: the ASCII letters, the dotless `ı`, the long `ſ`,
`ß` and the Latin ligatures.  Every other character is left as it is; its upper case form holds a
character outside ASCII as well, so it matches no keyword either way.
-/

namespace Reflection.Text

/-- The upper case form of a character, where that form lies in ASCII. -/
def upperChar (c : Char) : List Char :=
  match c.toNat with
  | 0x00DF => ['S', 'S']
  | 0x0131 => ['I']
  | 0x017F => ['S']
  | 0xFB00 => ['F', 'F']
  | 0xFB01 => ['F', 'I']
  | 0xFB02 => ['F', 'L']
  | 0xFB03 => ['F', 'F', 'I']
  | 0xFB04 => ['F', 'F', 'L']
  | 0xFB05 => ['S', 'T']
  | 0xFB06 => ['S', 'T']
  | n => if 0x61 ≤ n ∧ n ≤ 0x7A then [Char.ofNat (n - 0x20)] else [c]

/-- The upper case form of a text. -/
def upper (cs : List Char) : List Char := cs.flatMap upperChar

@[simp] theorem upper_nil : upper [] = [] := rfl

@[simp] theorem upper_append (a b : List Char) : upper (a ++ b) = upper a ++ upper b := by
  simp [upper]

end Reflection.Text
