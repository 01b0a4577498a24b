import Reflection.Attribute.Query
import Reflection.Proofs.Universe.Lines

/-!
# Proofs/Attribute/Gather — what an attribute query reports

    own level         ──ofKind────▸  own
                                        │ found
                                        ▾
    inherited levels  ──passedOn──▸  rest          the report:  own ++ rest

The rules of usage are asked on the inherited levels only, of each attribute against all that was
found before.  So the levels make no difference to what is passed on, only the order does
(`gather_cons`), and one type can be looked at alone (`filter_passedOn`): of a type that does not
allow several, the inherited levels add one instance at most, and none to one that is there.  They
never make a type come twice.  What a declaration carries itself is reported as it is, and nothing
keeps a definition from putting a type on it twice (`reports_once_iff`).
-/

namespace Reflection

variable {β : Type}

/-- Whether every type that does not allow several has at most one instance in a list. -/
def Universe.AtMostOnce (u : Universe β) (as : List Attribute) : Prop :=
  ∀ t, (u.effectiveUsage t).allowMultiple = false → as.countP (fun a => a.type = t) ≤ 1

/-- Only the types that are there need to be counted. -/
theorem Universe.atMostOnce_iff {u : Universe β} {as : List Attribute} : u.AtMostOnce as ↔
    ∀ a ∈ as, (u.effectiveUsage a.type).allowMultiple = false →
      as.countP (fun b => b.type = a.type) ≤ 1 := by
  refine ⟨fun h a _ => h a.type, fun h t hm => ?_⟩
  by_cases ht : ∃ a ∈ as, a.type = t
  · obtain ⟨a, ha, rfl⟩ := ht
    exact h a ha hm
  · have hnone : as.countP (fun a => a.type = t) = 0 := by
      simpa [List.countP_eq_zero] using ht
    exact hnone ▸ Nat.zero_le 1

instance (u : Universe β) (as : List Attribute) : Decidable (u.AtMostOnce as) :=
  decidable_of_iff' _ Universe.atMostOnce_iff

/-- A target comes first in its own lineage. -/
theorem AttributeTarget.lineage_eq_cons (u : Universe β) (target : AttributeTarget β) :
    target.lineage u = target :: (target.lineage u).tail := by
  cases target <;> rfl

namespace AttributeQuery

variable {u : Universe β} {kind t : TypeRef} {found as : List Attribute} {a : Attribute}

/-- The attributes of the kind asked for. -/
def ofKind (u : Universe β) (kind : TypeRef) (as : List Attribute) : List Attribute :=
  as.filter fun a => u.isSubtype a.type kind

/-- What inherited attributes add to what was found before. -/
def passedOn (u : Universe β) (kind : TypeRef) (found : List Attribute) :
    List Attribute → List Attribute
  | [] => []
  | a :: as =>
    if u.isSubtype a.type kind && passesOn u found a then a :: passedOn u kind (found ++ [a]) as
    else passedOn u kind found as

/-! ## Levels -/

theorem gatherLevel_own (found as : List Attribute) :
    gatherLevel u kind true found as = found ++ ofKind u kind as := by
  induction as generalizing found with
  | nil => simp [gatherLevel, ofKind]
  | cons a as ih =>
    simp only [gatherLevel, List.foldl_cons, Bool.true_or, Bool.and_true] at ih ⊢
    rw [ih, ofKind, ofKind, List.filter_cons]
    split <;> simp

theorem gatherLevel_inherited (found as : List Attribute) :
    gatherLevel u kind false found as = found ++ passedOn u kind found as := by
  induction as generalizing found with
  | nil => simp [gatherLevel, passedOn]
  | cons a as ih =>
    simp only [gatherLevel, List.foldl_cons, Bool.false_or] at ih ⊢
    rw [ih, passedOn]
    split <;> simp

theorem passedOn_append (found as bs : List Attribute) :
    passedOn u kind found (as ++ bs) =
      passedOn u kind found as ++ passedOn u kind (found ++ passedOn u kind found as) bs := by
  induction as generalizing found with
  | nil => simp [passedOn]
  | cons a as ih =>
    rw [List.cons_append, passedOn, passedOn]
    split <;> simp [ih]

/-- **What a query reports**: of its own level all that is of the kind, and then what the others pass
on, as if they were one level. -/
theorem gather_cons (own : List Attribute) (inherited : List (List Attribute)) :
    gather u kind (own :: inherited) =
      ofKind u kind own ++ passedOn u kind (ofKind u kind own) inherited.flatten := by
  rw [gather, gatherLevel_own, List.nil_append]
  generalize ofKind u kind own = found
  induction inherited generalizing found with
  | nil => simp [passedOn]
  | cons level inherited ih =>
    rw [List.foldl_cons, gatherLevel_inherited, ih, List.flatten_cons, passedOn_append,
      List.append_assoc]

theorem getAll_eq (hk : u.isAttribute kind = true) (q : AttributeQuery) (inherit : Bool) :
    q.getAll u kind inherit = .ok (gather u kind (q.consulted inherit)) := by
  rw [getAll, checkKind, if_pos hk]
  rfl

/-- What is put on the declarations that a target inherits from, nearest first. -/
def passedFrom (p : Provider β) (u : Universe β) (target : AttributeTarget β) : List Attribute :=
  ((target.lineage u).tail.map (p.attributes u)).flatten

variable {v : Universe β} {p : Provider β}

theorem getAll_ofTarget (hk : v.isAttribute kind = true) (target : AttributeTarget β) :
    (ofTarget p u target).getAll v kind true =
      .ok (ofKind v kind (p.attributes u target) ++
        passedOn v kind (ofKind v kind (p.attributes u target)) (passedFrom p u target)) := by
  rw [getAll_eq hk, ofTarget, target.lineage_eq_cons, List.map_cons, consulted, if_pos rfl,
    gather_cons, passedFrom]

theorem getAll_ofTarget_own (hk : v.isAttribute kind = true) (target : AttributeTarget β) :
    (ofTarget p u target).getAll v kind false = .ok (ofKind v kind (p.attributes u target)) := by
  rw [getAll_eq hk, ofTarget, target.lineage_eq_cons, List.map_cons, consulted,
    if_neg Bool.false_ne_true, List.take_succ_cons, List.take_zero, gather_cons]
  simp [passedOn]

/-! ## One type at a time -/

theorem passesOn_eq (u : Universe β) (found : List Attribute) (a : Attribute) :
    passesOn u found a = ((u.effectiveUsage a.type).inherited &&
      ((u.effectiveUsage a.type).allowMultiple || !found.any fun b => b.type = a.type)) :=
  rfl

/-- What is passed on is of the kind asked for, and inherited. -/
theorem of_mem_passedOn (h : a ∈ passedOn u kind found as) :
    u.isSubtype a.type kind = true ∧ (u.effectiveUsage a.type).inherited = true := by
  induction as generalizing found with
  | nil => cases h
  | cons b as ih =>
    rw [passedOn] at h
    split at h
    · next hb =>
      rcases List.mem_cons.mp h with rfl | h
      · simp only [passesOn_eq, Bool.and_eq_true] at hb
        exact ⟨hb.1, hb.2.1⟩
      · exact ih h
    · exact ih h

/-- **What is passed on of one type**: all instances if it allows several; else the first one, and
that only if none was found before. -/
theorem filter_passedOn (hs : u.isSubtype t kind = true)
    (hi : (u.effectiveUsage t).inherited = true) (found as : List Attribute) :
    (passedOn u kind found as).filter (fun a => a.type = t) =
      if (u.effectiveUsage t).allowMultiple then as.filter fun a => a.type = t
      else if found.any fun b => b.type = t then []
      else (as.filter fun a => a.type = t).take 1 := by
  induction as generalizing found with
  | nil => simp [passedOn]
  | cons a as ih =>
    rw [passedOn]
    by_cases ht : a.type = t
    · subst ht
      by_cases hm : (u.effectiveUsage a.type).allowMultiple = true
      · simp [passesOn_eq, hs, hi, hm, ih]
      · by_cases hf : (found.any fun b => b.type = a.type) = true <;>
          simp [passesOn_eq, hs, hi, hm, hf, ih]
    · split <;> simp [ht, ih]

/-- **What is passed on repeats nothing**: a type that does not allow several comes twice only if it
came twice before. -/
theorem countP_append_passedOn (hm : (u.effectiveUsage t).allowMultiple = false)
    (found as : List Attribute) : (found ++ passedOn u kind found as).countP (fun a => a.type = t) ≤ 1 ↔
      found.countP (fun a => a.type = t) ≤ 1 := by
  rw [List.countP_append]
  refine ⟨fun h => Nat.le_trans (Nat.le_add_right _ _) h, fun h => ?_⟩
  by_cases ht : ∃ a ∈ passedOn u kind found as, a.type = t
  · obtain ⟨a, ha, rfl⟩ := ht
    obtain ⟨hs, hi⟩ := of_mem_passedOn ha
    rw [List.countP_eq_length_filter (l := passedOn u kind found as), filter_passedOn hs hi,
      if_neg (by simp [hm])]
    split
    · simpa using h
    · next hf =>
      have hnone : found.countP (fun b => b.type = a.type) = 0 := by
        simpa [List.countP_eq_zero] using hf
      rw [hnone, Nat.zero_add, List.length_take]
      exact Nat.min_le_left _ _
  · have hnone : (passedOn u kind found as).countP (fun a => a.type = t) = 0 := by
      simpa [List.countP_eq_zero] using ht
    rwa [hnone]

/-- **A query reports a type once where its target carries it once**: whatever the lineage of the
target and whether it is followed or not, the report has at most one instance of a type that does not
allow several exactly if there is at most one, of the kind asked for, on the target itself. -/
theorem reports_once_iff (p : Provider β) (u : Universe β) {v : Universe β} {kind : TypeRef}
    (hk : v.isAttribute kind = true) (target : AttributeTarget β) (inherit : Bool) :
    ∃ as, (ofTarget p u target).getAll v kind inherit = .ok as ∧
      ∀ t, (v.effectiveUsage t).allowMultiple = false →
        (as.countP (fun a => a.type = t) ≤ 1 ↔
          (ofKind v kind (p.attributes u target)).countP (fun a => a.type = t) ≤ 1) := by
  cases inherit with
  | true => exact ⟨_, getAll_ofTarget hk target, fun _ hm => countP_append_passedOn hm _ _⟩
  | false => exact ⟨_, getAll_ofTarget_own hk target, fun _ _ => Iff.rfl⟩

end AttributeQuery

namespace Universe

/-- Three attribute types, of which only the second allows several and only the third is not
inherited; a class that carries the first two twice each and the third once, and a class that
extends it and carries none. -/
def markedClasses : Universe Unit :=
  (((((((((empty.declare .classType "Single").declare .classType "Many").declare .classType
    "Local").declare .classType "A").declare .classType "B").defineBy
    (Blueprint.startAttribute ⟨0, .classType, "Single"⟩ {})).defineBy
    (Blueprint.startAttribute ⟨1, .classType, "Many"⟩ { allowMultiple := true })).defineBy
    (Blueprint.startAttribute ⟨2, .classType, "Local"⟩ { inherited := false })).defineBy
    { Blueprint.start ⟨3, .classType, "A"⟩ with
      attributes := [
        ⟨.declared ⟨0, .classType, "Single"⟩, [.i32 1]⟩,
        ⟨.declared ⟨0, .classType, "Single"⟩, [.i32 2]⟩,
        ⟨.declared ⟨1, .classType, "Many"⟩, [.i32 3]⟩,
        ⟨.declared ⟨1, .classType, "Many"⟩, [.i32 4]⟩,
        ⟨.declared ⟨2, .classType, "Local"⟩, [.i32 5]⟩] }).defineBy
    { Blueprint.start ⟨4, .classType, "B"⟩ with
      extends? := some (.declared ⟨3, .classType, "A"⟩) }

theorem reachable_markedClasses : markedClasses.Reachable :=
  .defineBy (.defineBy (.defineBy (.defineBy (.defineBy (.declare _ _ (.declare _ _ (.declare _ _
    (.declare _ _ (.declare _ _ .empty))))) (by decide) rfl (by decide) rfl) (by decide) rfl
    (by decide) rfl) (by decide) rfl (by decide) rfl) (by decide) rfl (by decide) rfl) (by decide) rfl
    (by decide) rfl

end Universe

namespace AttributeQuery

open Universe

/-- The class that carries none reports what it inherits, each type once that does not allow
several. -/
theorem reports_once_iff_markedClasses :
    ∃ as, (ofTarget .reflector markedClasses (.type (.declared ⟨4, .classType, "B"⟩))).getAll
        markedClasses .attributeRoot true = .ok as ∧
      markedClasses.AtMostOnce as ∧ as.map Attribute.arguments = [[.i32 1], [.i32 3], [.i32 4]] := by
  have hk : markedClasses.isAttribute .attributeRoot = true := by decide
  obtain ⟨as, has, honce⟩ := reports_once_iff .reflector markedClasses hk
    (.type (.declared ⟨4, .classType, "B"⟩)) true
  have hown : ofKind markedClasses .attributeRoot (Provider.reflector.attributes markedClasses
      (.type (.declared ⟨4, .classType, "B"⟩))) = [] := rfl
  refine ⟨as, has, fun t hm => (honce t hm).mpr ?_, ?_⟩
  · rw [hown]
    exact Nat.zero_le 1
  · cases has
    rfl

/-- **Not every query reports a type once**: a definition may put a type that does not allow several
on a declaration twice, and then both instances are reported. -/
theorem not_every_query_reports_once :
    ¬ ∀ (u : Universe Unit) (target : AttributeTarget Unit) (kind : TypeRef) (inherit : Bool)
      (as : List Attribute), u.Reachable →
      (ofTarget .reflector u target).getAll u kind inherit = .ok as → u.AtMostOnce as := by
  intro h
  exact absurd (h markedClasses (.type (.declared ⟨3, .classType, "A"⟩))
    (.declared ⟨0, .classType, "Single"⟩) true _ reachable_markedClasses rfl) (by decide)

end AttributeQuery

end Reflection
