/-!
# Text/Blank — white space at the two ends of a text

`isBlank` is the Unicode property `White_Space`; `trim` drops the blanks at both ends and keeps
those inside.  So it tells two texts apart exactly if they differ in more than the blanks around
them (`alikeInside_iff`).
-/

namespace Reflection.Text

/-- The characters with the Unicode property `White_Space`. -/
def isBlank (c : Char) : Bool :=
  let n := c.toNat
  (0x09 ≤ n && n ≤ 0x0D) || n == 0x20 || n == 0x85 || n == 0xA0 || n == 0x1680 ||
    (0x2000 ≤ n && n ≤ 0x200A) || n == 0x2028 || n == 0x2029 || n == 0x202F || n == 0x205F ||
    n == 0x3000

/-- A text without the blanks at its two ends. -/
def trim (cs : List Char) : List Char :=
  ((cs.dropWhile isBlank).reverse.dropWhile isBlank).reverse

@[simp] theorem trim_nil : trim [] = [] := rfl

/-! ## Blanks around a text -/

variable {a b cs ds inner : List Char}

/-- Whether a text is another one with blanks, or nothing, before and after it. -/
def Pads (inner cs : List Char) : Prop :=
  ∃ a b, (∀ c ∈ a ++ b, isBlank c = true) ∧ cs = a ++ inner ++ b

/-- Whether two texts differ in the blanks around them only. -/
def AlikeInside (cs ds : List Char) : Prop := ∃ inner, Pads inner cs ∧ Pads inner ds

theorem trim_blanks_append (ha : ∀ c ∈ a, isBlank c = true) : trim (a ++ cs) = trim cs := by
  rw [trim, List.dropWhile_append_of_pos ha, trim]

theorem trim_append_blanks (hb : ∀ c ∈ b, isBlank c = true) : trim (cs ++ b) = trim cs := by
  have hnil : b.dropWhile isBlank = [] := by
    rw [← List.append_nil b, List.dropWhile_append_of_pos hb, List.dropWhile_nil]
  have hrev : ∀ c ∈ b.reverse, isBlank c = true := fun c hc => hb c (List.mem_reverse.mp hc)
  rw [trim, trim, List.dropWhile_append]
  split
  · next h => rw [List.isEmpty_iff.mp h, hnil]
  · rw [List.reverse_append, List.dropWhile_append_of_pos hrev]

theorem Pads.trim_eq (h : Pads inner cs) : trim cs = trim inner := by
  obtain ⟨a, b, hblank, rfl⟩ := h
  obtain ⟨ha, hb⟩ := List.forall_mem_append.mp hblank
  rw [trim_append_blanks hb, trim_blanks_append ha]

theorem pads_trim (cs : List Char) : Pads (trim cs) cs := by
  refine ⟨cs.takeWhile isBlank, ((cs.dropWhile isBlank).reverse.takeWhile isBlank).reverse, ?_, ?_⟩
  · refine List.forall_mem_append.mpr ⟨List.all_eq_true.mp List.all_takeWhile, fun c hc => ?_⟩
    exact List.all_eq_true.mp List.all_takeWhile c (List.mem_reverse.mp hc)
  · rw [List.append_assoc, trim, ← List.reverse_append, List.takeWhile_append_dropWhile,
      List.reverse_reverse, List.takeWhile_append_dropWhile]

/-- Trimming tells texts apart that are not alike inside, and no others. -/
theorem alikeInside_iff : AlikeInside cs ds ↔ trim cs = trim ds := by
  constructor
  · rintro ⟨inner, hcs, hds⟩
    rw [hcs.trim_eq, hds.trim_eq]
  · intro h
    exact ⟨trim cs, pads_trim cs, h ▸ pads_trim ds⟩

instance : Decidable (AlikeInside cs ds) := decidable_of_iff _ alikeInside_iff.symm

end Reflection.Text
