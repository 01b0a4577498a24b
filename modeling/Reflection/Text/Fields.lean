/-!
# Text/Fields — a text cut at every occurrence of a separator

`fields sep cs` is never empty, and `joinFields` puts the pieces back together
(`joinFields_fields`).  A text without the separator is one piece (`fields_of_not_mem`), and the
pieces of two texts around a separator are those of the first and then those of the second
(`fields_append_cons`).
-/

namespace Reflection.Text

/-- The pieces of a text between the occurrences of `sep`. -/
def fields (sep : Char) : List Char → List (List Char)
  | [] => [[]]
  | c :: cs =>
    if c = sep then [] :: fields sep cs
    else match fields sep cs with
      | [] => [[c]]
      | f :: fs => (c :: f) :: fs

/-- Pieces joined by a separator. -/
def joinFields (sep : Char) : List (List Char) → List Char
  | [] => []
  | [f] => f
  | f :: g :: fs => f ++ sep :: joinFields sep (g :: fs)

theorem fields_ne_nil (sep : Char) (cs : List Char) : fields sep cs ≠ [] := by
  cases cs with
  | nil => simp [fields]
  | cons c cs =>
    unfold fields
    split
    · simp
    · split <;> simp

theorem fields_of_not_mem {sep : Char} {cs : List Char} (h : sep ∉ cs) : fields sep cs = [cs] := by
  induction cs with
  | nil => rfl
  | cons c cs ih =>
    obtain ⟨hc, hcs⟩ := List.ne_and_not_mem_of_not_mem_cons h
    rw [fields, if_neg (Ne.symm hc), ih hcs]

theorem fields_append_cons (sep : Char) (a b : List Char) :
    fields sep (a ++ sep :: b) = fields sep a ++ fields sep b := by
  induction a with
  | nil => simp [fields]
  | cons c a ih =>
    rw [List.cons_append, fields, fields, ih]
    split
    · rfl
    · cases hf : fields sep a with
      | nil => exact absurd hf (fields_ne_nil sep a)
      | cons f fs => rfl

/-- Joining the pieces gives the text back. -/
theorem joinFields_fields (sep : Char) (cs : List Char) : joinFields sep (fields sep cs) = cs := by
  induction cs with
  | nil => rfl
  | cons c cs ih =>
    unfold fields
    split
    · next h =>
      cases hf : fields sep cs with
      | nil => exact absurd hf (fields_ne_nil sep cs)
      | cons f fs => rw [hf] at ih; simp [joinFields, ih, h]
    · cases hf : fields sep cs with
      | nil => exact absurd hf (fields_ne_nil sep cs)
      | cons f fs =>
        rw [hf] at ih
        cases fs with
        | nil => simpa [joinFields] using ih
        | cons g fs => simpa [joinFields] using ih

end Reflection.Text
