import Reflection.Config

/-!
# Proofs/Member/Selecting — which settings let a filter select something

    text  ──parts──▸  keywords  ──spelled──▸  filters  ──unions──▸  the filter of the settings
                                                 │ any                    │
                                                 ▾                        ▾
                                    a keyword with the flag     ◂──▸  the flag

A filter selects something exactly if it has one of the two flags that speak of visibility and one
of the two that speak of static and instance members (`exists_selects_iff`).  A filter of several
keywords has a flag if one of them does (`apply_unions`).  Settings are only asked for some flag,
whichever it is.  So they may be accepted with a filter that selects nothing, and are so exactly if
their keywords say something, but leave out one of the two (`accepted_selects_iff`).
-/

namespace Reflection

/-- A list of which every element has an image has a list of images. -/
theorem mapM_eq_some_iff {α γ : Type} {f : α → Option γ} {l : List α} {r : List γ} :
    l.mapM f = some r ↔ (∀ a ∈ l, (f a).isSome = true) ∧ l.filterMap f = r := by
  induction l generalizing r with
  | nil => simp
  | cons a l ih =>
    rw [List.mapM_cons, List.forall_mem_cons]
    cases ha : f a with
    | none => simp [ha]
    | some b =>
      rw [List.filterMap_cons_some ha]
      simp only [Option.bind_eq_bind, Option.bind_some, Option.bind_eq_some_iff, ih,
        Option.isSome_some, Option.pure_def, Option.some.injEq]
      constructor
      · rintro ⟨bs, ⟨hall, rfl⟩, rfl⟩
        exact ⟨⟨trivial, hall⟩, rfl⟩
      · rintro ⟨⟨-, hall⟩, rfl⟩
        exact ⟨_, ⟨hall, rfl⟩, rfl⟩

/-! ## Flags -/

namespace MemberFilter

variable {f g : MemberFilter} {text : String}

/-- Whether a filter has any flag. -/
def hasFlag (f : MemberFilter) : Bool := f ≠ none

/-- Whether one of the flags for visibility is there. -/
def speaksOfVisibility (f : MemberFilter) : Bool := f.publics || f.nonPublics

/-- Whether one of the flags for static and instance members is there. -/
def speaksOfBinding (f : MemberFilter) : Bool := f.instances || f.statics

theorem exists_admits_iff : (∃ v, f.admits v = true) ↔ f.speaksOfVisibility = true := by
  constructor
  · rintro ⟨v, hv⟩
    rw [admits] at hv
    split at hv <;> simp [speaksOfVisibility, hv]
  · intro h
    rcases Bool.or_eq_true_iff.mp h with h | h
    · exact ⟨.everyone, h⟩
    · exact ⟨.ownType, h⟩

theorem exists_admitsBinding_iff :
    (∃ isStatic, f.admitsBinding isStatic = true) ↔ f.speaksOfBinding = true := by
  simp [admitsBinding, speaksOfBinding]

/-- **A filter selects something** if it has a flag of each pair. -/
theorem exists_selects_iff : (∃ v isStatic, f.selects v isStatic = true) ↔
    f.speaksOfVisibility = true ∧ f.speaksOfBinding = true := by
  simp only [selects, Bool.and_eq_true, exists_and_left, exists_and_right,
    exists_admitsBinding_iff, exists_admits_iff]

/-- **A flag of several filters is a flag of one of them.** -/
theorem apply_unions {flag : MemberFilter → Bool} (hnone : flag none = false)
    (hunion : ∀ f g, flag (f.union g) = (flag f || flag g)) (fs : List MemberFilter) :
    flag (unions fs) = fs.any flag := by
  have hfold (fs : List MemberFilter) (f : MemberFilter) :
      flag (fs.foldl union f) = (flag f || fs.any flag) := by
    induction fs generalizing f with
    | nil => simp
    | cons g fs ih => rw [List.foldl_cons, ih, hunion, List.any_cons, Bool.or_assoc]
  rw [unions, hfold, hnone, Bool.false_or]

theorem speaksOfVisibility_unions (fs : List MemberFilter) :
    (unions fs).speaksOfVisibility = fs.any speaksOfVisibility :=
  apply_unions rfl (fun f g => by simp only [speaksOfVisibility, union]; ac_rfl) fs

theorem speaksOfBinding_unions (fs : List MemberFilter) :
    (unions fs).speaksOfBinding = fs.any speaksOfBinding :=
  apply_unions rfl (fun f g => by simp only [speaksOfBinding, union]; ac_rfl) fs

theorem union_eq_none_iff : f.union g = none ↔ f = none ∧ g = none := by
  rcases f with ⟨a, b, c, d, e, h⟩
  rcases g with ⟨a', b', c', d', e', h'⟩
  simp only [union, none, mk.injEq, Bool.or_eq_false_iff]
  grind

theorem hasFlag_eq_false_iff : f.hasFlag = false ↔ f = none := by
  simp [hasFlag]

theorem hasFlag_unions (fs : List MemberFilter) : (unions fs).hasFlag = fs.any hasFlag := by
  refine apply_unions rfl (fun f g => ?_) fs
  simp only [hasFlag, ne_eq, union_eq_none_iff, decide_not, Bool.decide_and, Bool.not_and]

theorem unions_eq_none_iff {fs : List MemberFilter} : unions fs = none ↔ ∀ f ∈ fs, f = none := by
  simp only [← hasFlag_eq_false_iff, hasFlag_unions, List.any_eq_false, Bool.not_eq_true]

/-! ## Keywords -/

/-- The parts of a text between its bars, without the blanks around them. -/
def parts (text : String) : List (List Char) := (Text.fields '|' text.toList).map Text.trim

/-- Whether every part of a text is a keyword. -/
def Readable (text : String) : Prop := ∀ part ∈ parts text, (ofKeywordChars? part).isSome = true

/-- The filters that the keywords of a text stand for, in turn. -/
def spelled (text : String) : List MemberFilter := (parts text).filterMap ofKeywordChars?

/-- **What a text spells** is the union of what its keywords stand for. -/
theorem ofText?_eq_some_iff :
    ofText? text = some f ↔ Readable text ∧ unions (spelled text) = f := by
  have hmapM : (Text.fields '|' text.toList).mapM (fun part => ofKeywordChars? (Text.trim part)) =
      (parts text).mapM ofKeywordChars? := by
    rw [parts, List.mapM_map]
    rfl
  simp [ofText?, hmapM, mapM_eq_some_iff, Readable, spelled, and_assoc]

/-- The only keyword that stands for no flag. -/
theorem ofKeywordChars?_eq_some_none_iff {part : List Char} :
    ofKeywordChars? part = some none ↔ Text.upper part = "NONE".toList := by
  rw [ofKeywordChars?, Option.map_eq_some_iff]
  constructor
  · rintro ⟨k, hk, hnone⟩
    have honly : ∀ k ∈ keywords, k.2 = none → k.1 = "NONE" := by decide
    have hspelled : k.1.toList = Text.upper part := by simpa using List.find?_some hk
    rw [← hspelled, honly k (List.mem_of_find?_eq_some hk) hnone]
  · intro h
    rw [h]
    exact ⟨("NONE", none), by decide, rfl⟩

theorem mem_spelled_iff : f ∈ spelled text ↔ ∃ part ∈ parts text, ofKeywordChars? part = some f :=
  List.mem_filterMap

/-- A text spells the filter without flags only by spelling it in every part. -/
theorem ofText?_eq_some_none_iff :
    ofText? text = some none ↔ ∀ part ∈ parts text, ofKeywordChars? part = some none := by
  rw [ofText?_eq_some_iff, unions_eq_none_iff]
  constructor
  · rintro ⟨hread, hnone⟩ part hpart
    obtain ⟨f, hf⟩ := Option.isSome_iff_exists.mp (hread part hpart)
    rw [hf, hnone f (mem_spelled_iff.mpr ⟨part, hpart, hf⟩)]
  · intro h
    refine ⟨fun part hpart => by simp [h part hpart], fun f hf => ?_⟩
    obtain ⟨part, hpart, hf⟩ := mem_spelled_iff.mp hf
    exact (Option.some.inj ((h part hpart).symm.trans hf)).symm

end MemberFilter

/-! ## Settings -/

namespace Config

open MemberFilter

variable {c : Config}

theorem validate_eq_ok_iff : c.validate = .ok () ↔
    Readable c.defaultFilter ∧ (unions (spelled c.defaultFilter)).hasFlag = true := by
  have hok : c.validate = .ok () ↔ ∃ f, ofText? c.defaultFilter = some f ∧ f.hasFlag = true := by
    rw [validate]
    cases ofText? c.defaultFilter with
    | none => simp
    | some f => by_cases h : f = .none <;> simp [h, hasFlag]
  simp only [hok, ofText?_eq_some_iff, and_assoc, exists_and_left, exists_eq_left']

theorem validate_eq_emptyFilter_iff :
    c.validate = .error .emptyFilter ↔ ofText? c.defaultFilter = some .none := by
  rw [validate]
  cases ofText? c.defaultFilter with
  | none => simp
  | some f => by_cases h : f = .none <;> simp [h]

/-- The filter of settings that can be read. -/
theorem filter_eq_unions (h : Readable c.defaultFilter) :
    c.filter = unions (spelled c.defaultFilter) := by
  rw [filter, ofText?_eq_some_iff.mpr ⟨h, rfl⟩, Option.getD_some]

/-- **Which accepted settings select something**: settings are accepted exactly if every part of
their filter text is a keyword and one of the keywords has a flag, and refused as selecting nothing
exactly if every part spells `NONE`.  The filter of accepted settings is the one that the text
spells, and it selects something exactly if one of the keywords speaks of visibility and one of
static and instance members. -/
theorem accepted_selects_iff (c : Config) :
    (c.validate = .ok () ↔
      Readable c.defaultFilter ∧ ∃ f ∈ spelled c.defaultFilter, f.hasFlag = true) ∧
    (c.validate = .error .emptyFilter ↔
      ∀ part ∈ parts c.defaultFilter, Text.upper part = "NONE".toList) ∧
    (c.validate = .ok () →
      ofText? c.defaultFilter = some c.filter ∧
        ((∃ v isStatic, c.filter.selects v isStatic = true) ↔
          (∃ f ∈ spelled c.defaultFilter, f.speaksOfVisibility = true) ∧
            ∃ f ∈ spelled c.defaultFilter, f.speaksOfBinding = true)) := by
  refine ⟨?_, ?_, fun hok => ?_⟩
  · rw [validate_eq_ok_iff, hasFlag_unions, List.any_eq_true]
  · simp only [validate_eq_emptyFilter_iff, ofText?_eq_some_none_iff,
      ofKeywordChars?_eq_some_none_iff]
  · have hread := (validate_eq_ok_iff.mp hok).1
    rw [filter_eq_unions hread, exists_selects_iff, speaksOfVisibility_unions,
      speaksOfBinding_unions, List.any_eq_true, List.any_eq_true]
    exact ⟨ofText?_eq_some_iff.mpr ⟨hread, rfl⟩, Iff.rfl⟩

/-- **Not every accepted filter selects something**: one that speaks of visibility only does not. -/
theorem not_every_accepted_selects :
    ¬ ∀ c : Config, c.validate = .ok () → ofText? c.defaultFilter = some c.filter ∧
      ∃ v isStatic, c.filter.selects v isStatic = true := by
  intro h
  obtain ⟨-, v, isStatic, hselects⟩ := h { defaultFilter := "PUBLIC" } rfl
  revert hselects
  cases isStatic <;> cases v <;> decide

end Config

end Reflection
