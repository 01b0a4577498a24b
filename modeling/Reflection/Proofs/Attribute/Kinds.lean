import Reflection.Proofs.Attribute.PassThrough
import Reflection.Proofs.Universe.Final

/-!
# Proofs/Attribute/Kinds — one report for all kinds and all lookups

    levels  ──gather wide──▸  report of a wide kind
       │                          │ ofKind
       ├───────gather─────▸  report of a kind  ──head?──┐
       │                                                ▾
       └────────────────────first?────────────────▸  an attribute

A query for a narrow kind has found less than one for a wide kind when it comes to an attribute,
and what has been found decides whether the attribute is passed on.  But only attributes of its own
type can stand in its way, and these are of the narrow kind if it is (`FoundAlike.concat`).  So the
report of a kind is the part of that kind of any wider report (`ofKind_gather`); the widest one is
that of the attribute root.  A lookup that stops at the first attribute has found nothing before it,
and the full report begins with what passes on then (`first?_eq_head?`).
-/

namespace Reflection

variable {β : Type}

/-! ## Kinds are classes -/

/-- **Whether a type is below a class has an answer**: no interface is looked for. -/
theorem Universe.isSubtype?_of_isClass (u : Universe β) {t : TypeRef} (ht : t.isClass = true)
    (s : TypeRef) : u.isSubtype? s t = some (u.isSubtype s t) := by
  have harray : ∀ t', t ≠ .array t' := by
    rintro t' rfl
    cases ht
  have hinterface : t.isInterface ≠ true := by
    intro h
    simp [TypeRef.isClass_eq_false h] at ht
  rw [isSubtype?]
  fun_cases isSubtype u s t with
  | case1 s t => exact absurd rfl (harray t)
  | case2 s t _ hst => simp [searchSubtype, hst]
  | case3 s t _ _ hi => exact absurd hi hinterface
  | case4 s t _ hst hi => simp [searchSubtype, hst, hi]

theorem Universe.isAttribute_iff {u : Universe β} {t : TypeRef} : u.isAttribute t = true ↔
    t.isClass = true ∧ u.isSubtype t .attributeRoot = true := by
  rw [isAttribute, Bool.and_eq_true]

namespace AttributeQuery

variable {u : Universe β} {kind wide : TypeRef} {found as : List Attribute} {a : Attribute}

/-! ## Narrow and wide kinds -/

/-- What is not of the kind makes no difference to what is found. -/
theorem FoundAlike.concat (ha : u.isSubtype a.type kind = false) (found : List Attribute) :
    FoundAlike u kind (found ++ [a]) found := by
  intro t hs _
  have hne : a.type ≠ t := by
    rintro rfl
    simp [ha] at hs
  simp [hne]

theorem foundAlike_ofKind (found : List Attribute) :
    FoundAlike u kind found (ofKind u kind found) := by
  intro t hs _
  rw [ofKind, List.any_filter]
  refine congrArg found.any (funext fun a => ?_)
  by_cases ht : a.type = t
  · simp [ht, hs]
  · simp [ht]

section Wide

variable (h : ∀ t, u.isSubtype t kind = true → u.isSubtype t wide = true)

include h

theorem ofKind_ofKind (as : List Attribute) :
    ofKind u kind (ofKind u wide as) = ofKind u kind as := by
  rw [ofKind, ofKind, ofKind, List.filter_filter]
  refine List.filter_congr fun a _ => ?_
  by_cases ha : u.isSubtype a.type kind = true
  · simp [ha, h _ ha]
  · simp [ha]

/-- **What is passed on of a kind** is the part of that kind of what is passed on of a wider one. -/
theorem ofKind_passedOn (found as : List Attribute) :
    ofKind u kind (passedOn u wide found as) = passedOn u kind found as := by
  induction as generalizing found with
  | nil => rfl
  | cons a as ih =>
    rw [passedOn, passedOn]
    by_cases ha : u.isSubtype a.type kind = true
    · rw [ha, h _ ha]
      split
      · rw [← ih]
        exact List.filter_cons_of_pos ha
      · exact ih found
    · rw [Bool.not_eq_true] at ha
      rw [ha, Bool.false_and, if_neg Bool.false_ne_true]
      split
      · -- only the wide report has found `a`
        rw [ofKind, List.filter_cons_of_neg (by simp [ha]), ← ofKind, ih]
        exact passedOn_congr (.concat ha found) as
      · exact ih found

/-- **The report of a kind** is the part of that kind of the report of a wider one. -/
theorem ofKind_gather (levels : List (List Attribute)) :
    ofKind u kind (gather u wide levels) = gather u kind levels := by
  cases levels with
  | nil => rfl
  | cons own inherited =>
    have halike : FoundAlike u kind (ofKind u wide own) (ofKind u kind own) :=
      ofKind_ofKind h own ▸ foundAlike_ofKind (ofKind u wide own)
    rw [gather_cons, gather_cons, ofKind, List.filter_append, ← ofKind, ← ofKind, ofKind_ofKind h,
      ofKind_passedOn h, passedOn_congr halike]

end Wide

/-- What a declaration carries itself comes first in the report. -/
theorem gather_take_isPrefix (levels : List (List Attribute)) :
    gather u kind (levels.take 1) <+: gather u kind levels := by
  cases levels with
  | nil => exact List.prefix_rfl
  | cons own inherited =>
    rw [List.take_succ_cons, List.take_zero, gather_cons, gather_cons]
    simp [passedOn]

/-! ## The first attribute -/

/-- What is passed on begins with the first attribute that passes on after nothing. -/
theorem head?_passedOn (as : List Attribute) : (passedOn u kind [] as).head? =
    as.find? fun a => u.isSubtype a.type kind && passesOn u [] a := by
  induction as with
  | nil => rfl
  | cons a as ih =>
    rw [passedOn, List.find?_cons]
    split
    · next ha => rw [ha, List.head?_cons]
    · next ha =>
      rw [Bool.not_eq_true] at ha
      rw [ha, ih]

/-- **The lookup that stops early finds what the full report begins with.** -/
theorem first?_eq_head? (levels : List (List Attribute)) :
    first? u kind levels = (gather u kind levels).head? := by
  cases levels with
  | nil => rfl
  | cons own inherited =>
    rw [first?, gather_cons, ← List.find?_flatten, ← List.head?_filter, ← head?_passedOn,
      List.head?_append, ← ofKind]
    cases hown : ofKind u kind own with
    | nil => rfl
    | cons a own => rfl

theorem get_eq_map (q : AttributeQuery) (u : Universe β) (kind : TypeRef) (inherit : Bool) :
    q.get u kind inherit = (q.getAll u kind inherit).map List.head? := by
  rw [get, getAll]
  cases checkKind u kind with
  | error e => rfl
  | ok _ => exact congrArg Except.ok (first?_eq_head? _)

theorem has_eq_map (q : AttributeQuery) (u : Universe β) (kind : TypeRef) (inherit : Bool) :
    q.has u kind inherit = (q.getAll u kind inherit).map fun as => !as.isEmpty := by
  rw [has, get_eq_map]
  cases q.getAll u kind inherit with
  | error e => rfl
  | ok as => cases as <;> rfl

theorem getAll_eq_error (hk : u.isAttribute kind = false) (q : AttributeQuery) (inherit : Bool) :
    q.getAll u kind inherit = .error (.notAnAttributeType kind.name) := by
  rw [getAll, checkKind, if_neg (by simp [hk])]
  rfl

/-- **The lookups agree**: of every declaration, for every kind and with inheritance or without,
they all refuse the kind, as one that is no attribute type; or all succeed, without a search that
never ends, and the first attribute is the head of the report, and there is one exactly if the report
is not empty. -/
theorem lookups_agree (q : AttributeQuery) (u : Universe β) (kind : TypeRef) (inherit : Bool) :
    (u.isAttribute kind = true ∧ (∀ t, u.isSubtype? t kind = some (u.isSubtype t kind)) ∧
      ∃ as, q.getAll u kind inherit = .ok as ∧ q.get u kind inherit = .ok as.head? ∧
        q.has u kind inherit = .ok !as.isEmpty) ∨
    (u.isAttribute kind = false ∧
      q.getAll u kind inherit = .error (.notAnAttributeType kind.name) ∧
      q.get u kind inherit = .error (.notAnAttributeType kind.name) ∧
      q.has u kind inherit = .error (.notAnAttributeType kind.name)) := by
  rw [get_eq_map, has_eq_map]
  cases hk : u.isAttribute kind with
  | true =>
    rw [getAll_eq hk]
    exact .inl ⟨rfl, u.isSubtype?_of_isClass (Universe.isAttribute_iff.mp hk).1, _, rfl, rfl, rfl⟩
  | false =>
    rw [getAll_eq_error hk]
    exact .inr ⟨rfl, rfl, rfl, rfl⟩

end AttributeQuery

/-! ## Kinds below the attribute root -/

namespace Universe

open AttributeQuery

variable {u : Universe β} {kind : TypeRef}

theorem isAttribute_attributeRoot (u : Universe β) : u.isAttribute .attributeRoot = true :=
  isAttribute_iff.mpr ⟨rfl, u.isSubtype_self _⟩

/-- **Queries cohere**: of every declaration, with inheritance or without, the report of a kind is
made up of the attributes of that kind in the report of the attribute root, in the same order; and
the report without inheritance is what the one with inheritance begins with.  No search goes on for
ever. -/
theorem Reachable.queries_cohere (hu : u.Reachable) (hk : u.isAttribute kind = true)
    (q : AttributeQuery) :
    (∀ inherit, ∃ all, q.getAll u .attributeRoot inherit = .ok all ∧
      q.getAll u kind inherit = .ok (all.filter fun a => u.isSubtype a.type kind)) ∧
    (∃ own all, q.getAll u kind false = .ok own ∧ q.getAll u kind true = .ok all ∧ own <+: all) ∧
    ∀ t, u.isSubtype? t kind = some (u.isSubtype t kind) := by
  obtain ⟨hclass, hroot⟩ := isAttribute_iff.mp hk
  refine ⟨fun inherit => ⟨_, getAll_eq u.isAttribute_attributeRoot q inherit, ?_⟩,
    ⟨_, _, getAll_eq hk q false, getAll_eq hk q true, gather_take_isPrefix q.levels⟩,
    u.isSubtype?_of_isClass hclass⟩
  rw [getAll_eq hk, ← ofKind_gather fun t ht => hu.isSubtype_trans ht hroot, ofKind]

/-- Of the three attributes that a class inherits, two are of the kind that allows several. -/
theorem queries_cohere_markedClasses :
    ∃ all, (ofTarget .reflector markedClasses (.type (.declared ⟨4, .classType, "B"⟩))).getAll
        markedClasses .attributeRoot true = .ok all ∧
      all.map Attribute.arguments = [[.i32 1], [.i32 3], [.i32 4]] ∧
      (ofTarget .reflector markedClasses (.type (.declared ⟨4, .classType, "B"⟩))).getAll
        markedClasses (.declared ⟨1, .classType, "Many"⟩) true = .ok (all.drop 1) := by
  have hk : markedClasses.isAttribute (.declared ⟨1, .classType, "Many"⟩) = true := by decide
  obtain ⟨all, hall, hkind⟩ := (reachable_markedClasses.queries_cohere hk
    (ofTarget .reflector markedClasses (.type (.declared ⟨4, .classType, "B"⟩)))).1 true
  cases hall
  exact ⟨_, rfl, rfl, hkind.trans rfl⟩

end Universe

end Reflection
