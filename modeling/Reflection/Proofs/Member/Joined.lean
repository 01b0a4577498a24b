import Mathlib.Data.List.Forall2
import Reflection.Proofs.Member.Selecting

/-!
# Proofs/Member/Joined — what texts joined by bars are read as

      parts  ──join──▸  text  ◂──join──  names of flags
        │ word           │ ofText?         ▴
        ▾                ▾                 │ text
     keywords ─anyOf─▸ filter ◂──anyOf── filters

A text joined from others has the parts of all of them, in turn (`parts_join`).  So it can be read
exactly if each of them can (`isSome_ofText?_join_iff`), and what it is read as has the flags that
one of them has (`ofText?_join`).  Of its parts nothing matters but which there are
(`ofText?_congr`), and of a part nothing but what is inside the blanks (`Text.alikeInside_iff`).

A filter is written by joining the names of its flags, and each name is read as its flag.  Hence the
same law that joins texts of filters also reads the text of one filter (`ofText?_text`).
-/

namespace Reflection

attribute [ext] MemberFilter

namespace MemberFilter

variable {f : MemberFilter} {fs gs : List MemberFilter} {p s t : String} {ps qs ts : List String}

/-! ## The filter of all flags of a list -/

/-- The filter that has a flag exactly if one of the filters of the list has it. -/
def anyOf (fs : List MemberFilter) : MemberFilter where
  publics := fs.any publics
  nonPublics := fs.any nonPublics
  instances := fs.any instances
  statics := fs.any statics
  declaredOnly := fs.any declaredOnly
  flatten := fs.any flatten

theorem unions_eq_anyOf (fs : List MemberFilter) : unions fs = anyOf fs := by
  ext1 <;> exact apply_unions rfl (fun _ _ => rfl) fs

/-- Neither order nor repetition matters. -/
theorem anyOf_congr (h : ∀ f, f ∈ fs ↔ f ∈ gs) : anyOf fs = anyOf gs := by
  have hany (flag : MemberFilter → Bool) : fs.any flag = gs.any flag := by
    rw [Bool.eq_iff_iff, List.any_eq_true, List.any_eq_true]
    simp only [h]
  ext1 <;> exact hany _

theorem anyOf_flatMap {α : Type} (l : List α) (k : α → List MemberFilter) :
    anyOf (l.flatMap k) = anyOf (l.map fun a => anyOf (k a)) := by
  ext1 <;> simp only [anyOf, List.any_flatMap, List.any_map] <;> rfl

/-- A filter has the flags that it includes. -/
theorem anyOf_flags (f : MemberFilter) :
    anyOf ((flagNames.filter fun n => f.includes n.2).map (·.2)) = f := by
  rcases f with ⟨a, b, c, d, e, h⟩
  revert a b c d e h
  decide

/-! ## Parts of a joined text -/

theorem parts_bar (s t : String) : parts (s ++ "|" ++ t) = parts s ++ parts t := by
  have hsplit : (s ++ "|" ++ t).toList = s.toList ++ '|' :: t.toList := by simp
  rw [parts, hsplit, Text.fields_append_cons, List.map_append]
  rfl

/-- **A joined text has the parts of the texts it is joined from**, in turn. -/
theorem parts_join (hne : ts ≠ []) : parts ("|".intercalate ts) = ts.flatMap parts := by
  induction ts with
  | nil => exact absurd rfl hne
  | cons t ts ih =>
    cases ts with
    | nil => simp
    | cons s ts =>
      rw [String.intercalate_cons_cons, parts_bar, ih (List.cons_ne_nil s ts), ← List.flatMap_cons]

theorem readable_join_iff (hne : ts ≠ []) :
    Readable ("|".intercalate ts) ↔ ∀ t ∈ ts, Readable t := by
  simp only [Readable, parts_join hne, List.forall_mem_flatMap]

theorem spelled_join (hne : ts ≠ []) : spelled ("|".intercalate ts) = ts.flatMap spelled := by
  rw [spelled, parts_join hne, List.filterMap_flatMap]
  rfl

/-! ## Reading a joined text -/

theorem ofText?_eq_some_anyOf_iff : ofText? t = some f ↔ Readable t ∧ anyOf (spelled t) = f := by
  rw [ofText?_eq_some_iff, unions_eq_anyOf]

theorem isSome_ofText?_iff : (ofText? t).isSome = true ↔ Readable t := by
  simp only [Option.isSome_iff_exists, ofText?_eq_some_anyOf_iff, exists_and_left, exists_eq',
    and_true]

theorem isSome_ofText?_join_iff (hne : ts ≠ []) :
    (ofText? ("|".intercalate ts)).isSome = true ↔ ∀ t ∈ ts, (ofText? t).isSome = true := by
  simp only [isSome_ofText?_iff, readable_join_iff hne]

/-- **Reading turns the bar into the union**, whatever bars there are in the texts themselves. -/
theorem ofText?_join (hne : ts ≠ []) (hread : List.Forall₂ (fun t f => ofText? t = some f) ts fs) :
    ofText? ("|".intercalate ts) = some (anyOf fs) := by
  -- Each text spells the flags of its filter, so all of them spell the flags of all filters.
  obtain ⟨hreadable, hspelled⟩ :=
    (List.forall₂_and_left ts fs).mp (hread.imp fun _ _ => ofText?_eq_some_anyOf_iff.mp)
  have hmap : ts.map (fun t => anyOf (spelled t)) = fs := by
    rwa [← List.forall₂_eq_eq_eq, List.forall₂_map_left_iff]
  rw [ofText?_eq_some_anyOf_iff, readable_join_iff hne, spelled_join hne, anyOf_flatMap]
  exact ⟨hreadable, congrArg anyOf hmap⟩

/-- Texts in which the same parts occur are read alike. -/
theorem ofText?_congr (h : ∀ part, part ∈ parts s ↔ part ∈ parts t) : ofText? s = ofText? t := by
  have hreadable : Readable s ↔ Readable t := by simp only [Readable, h]
  have hspelled : anyOf (spelled s) = anyOf (spelled t) :=
    anyOf_congr fun f => by simp only [mem_spelled_iff, h]
  ext f
  rw [ofText?_eq_some_anyOf_iff, ofText?_eq_some_anyOf_iff, hreadable, hspelled]

/-- **A written filter is read back.** -/
theorem ofText?_text (f : MemberFilter) : ofText? f.text = some f := by
  have hflags := anyOf_flags f
  rw [text]
  split
  · next hnil =>
    rw [hnil] at hflags
    exact congrArg some hflags
  · next hsome =>
    have hnames : ∀ n ∈ flagNames, ofText? n.1 = some n.2 := by decide
    refine (ofText?_join (by simpa using hsome) ?_).trans (congrArg some hflags)
    rw [List.forall₂_map_left_iff, List.forall₂_map_right_iff, List.forall₂_same]
    exact fun n hn => hnames n (List.mem_of_mem_filter hn)

/-! ## Texts without bars -/

/-- Whether there is no bar in the texts of a list. -/
def BarFree (ps : List String) : Prop := ∀ p ∈ ps, '|' ∉ p.toList

instance : Decidable (BarFree ps) := inferInstanceAs (Decidable (∀ p ∈ ps, _))

/-- What is left of a text without the blanks around it. -/
def word (p : String) : String := String.ofList (Text.trim p.toList)

/-- Whether two lists have the same texts, whatever their order, how often they occur, and the
blanks around them. -/
def SameTexts (ps qs : List String) : Prop :=
  (∀ p ∈ ps, ∃ q ∈ qs, Text.AlikeInside p.toList q.toList) ∧
    ∀ q ∈ qs, ∃ p ∈ ps, Text.AlikeInside p.toList q.toList

instance : Decidable (SameTexts ps qs) := inferInstanceAs (Decidable (_ ∧ _))

theorem parts_of_barFree (h : '|' ∉ p.toList) : parts p = [Text.trim p.toList] := by
  rw [parts, Text.fields_of_not_mem h, List.map_singleton]

theorem ofText?_of_barFree (h : '|' ∉ p.toList) : ofText? p = ofKeyword? (word p) := by
  rw [ofText?, Text.fields_of_not_mem h, ofKeyword?, word, String.toList_ofList]
  cases hk : ofKeywordChars? (Text.trim p.toList) with
  | none => simp [hk]
  | some f => simp [hk, unions]

theorem parts_join_of_barFree (hne : ps ≠ []) (hbar : BarFree ps) :
    parts ("|".intercalate ps) = ps.map fun p => Text.trim p.toList := by
  rw [parts_join hne, List.map_eq_flatMap]
  exact List.flatMap_congr fun p hp => parts_of_barFree (hbar p hp)

theorem SameTexts.mem_map_iff (h : SameTexts ps qs) (part : List Char) :
    part ∈ ps.map (fun p => Text.trim p.toList) ↔ part ∈ qs.map fun q => Text.trim q.toList := by
  rw [List.mem_map, List.mem_map]
  constructor
  · rintro ⟨p, hp, rfl⟩
    obtain ⟨q, hq, halike⟩ := h.1 p hp
    exact ⟨q, hq, (Text.alikeInside_iff.mp halike).symm⟩
  · rintro ⟨q, hq, rfl⟩
    obtain ⟨p, hp, halike⟩ := h.2 q hq
    exact ⟨p, hp, Text.alikeInside_iff.mp halike⟩

theorem SameTexts.eq_nil_iff (h : SameTexts ps qs) : ps = [] ↔ qs = [] := by
  have hmap : ps.map (fun p => Text.trim p.toList) = [] ↔
      qs.map (fun q => Text.trim q.toList) = [] := by
    simp only [List.eq_nil_iff_forall_not_mem, h.mem_map_iff]
  simpa only [List.map_eq_nil_iff] using hmap

/-- Of the texts that are joined only this matters: which there are, and what each has inside its
blanks. -/
theorem ofText?_join_congr (hps : BarFree ps) (hqs : BarFree qs) (h : SameTexts ps qs) :
    ofText? ("|".intercalate ps) = ofText? ("|".intercalate qs) := by
  rcases eq_or_ne ps [] with hnil | hne
  · rw [hnil, h.eq_nil_iff.mp hnil]
  · have hne' : qs ≠ [] := mt h.eq_nil_iff.mpr hne
    refine ofText?_congr fun part => ?_
    rw [parts_join_of_barFree hne hps, parts_join_of_barFree hne' hqs, h.mem_map_iff]

/-- **Joining texts unites what they are read as**: texts without bars, joined by them, can be read
exactly if each is a keyword inside its blanks, and are read as the filter that has the flags of
these keywords; order, repetition and the blanks around them make no difference.  The texts that
filters are written as, joined by bars, are read as the filter that has the flags of all of them. -/
theorem joined_texts_unite :
    (∀ ps : List String, ps ≠ [] → BarFree ps →
      ((ofText? ("|".intercalate ps)).isSome = true ↔
        ∀ p ∈ ps, (ofKeyword? (word p)).isSome = true) ∧
      ∀ fs, List.Forall₂ (fun p f => ofKeyword? (word p) = some f) ps fs →
        ofText? ("|".intercalate ps) = some (anyOf fs)) ∧
    (∀ ps qs : List String, BarFree ps → BarFree qs → SameTexts ps qs →
      ofText? ("|".intercalate ps) = ofText? ("|".intercalate qs)) ∧
    ∀ fs : List MemberFilter, fs ≠ [] →
      ofText? ("|".intercalate (fs.map text)) = some (anyOf fs) := by
  refine ⟨fun ps hne hbar => ⟨?_, fun fs hread => ?_⟩, fun ps qs => ofText?_join_congr,
    fun fs hne => ?_⟩
  · rw [isSome_ofText?_join_iff hne]
    exact forall₂_congr fun p hp => by rw [ofText?_of_barFree (hbar p hp)]
  · have hwords := (List.forall₂_and_left ps fs).mpr ⟨hbar, hread⟩
    exact ofText?_join hne (hwords.imp fun p f h => (ofText?_of_barFree h.1).trans h.2)
  · refine ofText?_join (by simpa using hne) ?_
    rw [List.forall₂_map_left_iff, List.forall₂_same]
    exact fun f _ => ofText?_text f

/-- A preset and a flag in mixed case, among blanks of three kinds; a text with a word that is no
keyword; and the filter without flags, which is written as a keyword. -/
theorem joined_texts_unite_presets :
    ofText? ("|".intercalate ["\tall", "Declared_only "]) =
        some { MemberFilter.all with declaredOnly := true } ∧
      ¬ (ofText? ("|".intercalate ["PUBLIC", "PUB LIC"])).isSome = true ∧
      ofText? ("|".intercalate ["\tall", "Declared_only "]) =
        ofText? ("|".intercalate ["Declared_only", "all\u00a0", "all"]) ∧
      ofText? ("|".intercalate ([none, { nonPublics := true, statics := true }].map text)) =
        some { nonPublics := true, statics := true } :=
  ⟨(joined_texts_unite.1 _ (by decide) (by decide)).2 [.all, { declaredOnly := true }]
      (.cons (by decide) (.cons (by decide) .nil)),
    fun h => absurd ((joined_texts_unite.1 _ (by decide) (by decide)).1.mp h) (by decide),
    joined_texts_unite.2.1 _ _ (by decide) (by decide) (by decide),
    joined_texts_unite.2.2 _ (by decide)⟩

end MemberFilter

end Reflection
