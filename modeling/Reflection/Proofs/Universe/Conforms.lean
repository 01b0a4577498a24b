import Reflection.Proofs.Universe.Reachable
import Reflection.Proofs.Walks

/-!
# Proofs/Universe/Conforms — subtyping is the least relation that the declarations ask for

    Conforms  ──conforms_iff_reaches──▸  Reaches  ◂──searchSubtype_eq_some──  searchSubtype
                                                  ◂──isSubtype_iff_reaches──  isSubtype

`Conforms` is the specification: the closure of the declared edges.  `Reaches` is the same relation
without a rule for transitivity: climb to a base, from there follow interface names; between arrays,
do so for the elements.  It is transitive nevertheless (`Reaches.trans`), and the search answers by
its cases.
-/

namespace Reflection.Universe

open Relation

variable {β : Type} {u : Universe β} {r s t a i : TypeRef} {n : ℕ}

/-! ## The specification -/

/-- **Subtyping as declared**: the least reflexive and transitive relation with an edge to the base,
to every interface named and to the root, under which arrays of references follow their
elements. -/
inductive Conforms (u : Universe β) : TypeRef → TypeRef → Prop
  | refl (t : TypeRef) : Conforms u t t
  | trans {r s t : TypeRef} (hrs : Conforms u r s) (hst : Conforms u s t) : Conforms u r t
  | base {t a : TypeRef} (h : u.base? t = some a) : Conforms u t a
  | interface {t i : TypeRef} (h : i ∈ u.interfaces t) : Conforms u t i
  | object (t : TypeRef) : Conforms u t .object
  | array {s t : TypeRef} (hs : s.isReferenceType = true) (h : Conforms u s t) :
      Conforms u (.array s) (.array t)

/-- Whether a type names an interface itself. -/
def Names (u : Universe β) (t i : TypeRef) : Prop := i ∈ u.interfaces t

/-- Whether a type reaches another by its bases, and then by interface names. -/
def Climbs (u : Universe β) (s t : TypeRef) : Prop :=
  s = t ∨ t = .object ∨ t ∈ (u.definition s).bases ∨
    ∃ a ∈ u.ancestors s, TransGen u.Names a t

/-- Whether a type reaches another, through its elements if both are arrays. -/
inductive Reaches (u : Universe β) : TypeRef → TypeRef → Prop
  | climb {s t : TypeRef} (h : u.Climbs s t) : Reaches u s t
  | array {s t : TypeRef} (hs : s.isReferenceType = true) (h : Reaches u s t) :
      Reaches u (.array s) (.array t)

/-! ## Interface names -/

theorem mem_ancestors_self (u : Universe β) (t : TypeRef) : t ∈ u.ancestors t :=
  List.mem_cons_self

theorem ancestors_eq_singleton (h : (u.definition t).bases = []) : u.ancestors t = [t] := by
  rw [ancestors, h]

/-- Names lead to interfaces that are known. -/
theorem Reachable.isInterface_of_names (hu : u.Reachable) (h : TransGen u.Names a i) :
    i.isInterface = true ∧ u.Knows i := by
  obtain ⟨_, -, hi⟩ := TransGen.tail'_iff.mp h
  exact hu.isInterface_of_mem hi

/-- An interface that is known is one of the declared types. -/
theorem mem_declaredTypes_of_isInterface (hi : i.isInterface = true) (hk : u.Knows i) :
    i ∈ u.declaredTypes := by
  cases i with
  | declared d => exact Declares.mem_declaredTypes hk
  | _ => simp [TypeRef.isInterface, TypeRef.hasKind] at hi

theorem Reachable.mem_declaredTypes_of_names (hu : u.Reachable) (h : u.Names t i) :
    i ∈ u.declaredTypes :=
  mem_declaredTypes_of_isInterface (hu.isInterface_of_mem h).1 (hu.isInterface_of_mem h).2

theorem Reachable.ancestors_of_isInterface (hu : u.Reachable) (hi : i.isInterface = true)
    (hk : u.Knows i) : u.ancestors i = [i] :=
  ancestors_eq_singleton (hu.bases_of_isInterface hi hk)

theorem transGen_names_iff :
    TransGen u.Names t i ↔ ∃ j ∈ u.interfaces t, j = i ∨ TransGen u.Names j i := by
  rw [TransGen.head'_iff]
  refine exists_congr fun j => and_congr_right fun _ => ?_
  rw [reflTransGen_iff_eq_or_transGen, eq_comm]

/-! ## Climbing is transitive -/

/-- From the root one climbs to the root only. -/
theorem Climbs.eq_object (h : u.Climbs .object t) : t = .object := by
  rcases h with rfl | h | h | ⟨a, ha, h⟩
  · rfl
  · exact h
  · exact absurd h List.not_mem_nil
  · obtain rfl : a = .object := List.mem_singleton.mp ha
    obtain ⟨j, hj, -⟩ := transGen_names_iff.mp h
    exact absurd hj List.not_mem_nil

/-- Where a type climbs from one of its bases, it climbs itself. -/
theorem Climbs.of_mem_bases (hu : u.Reachable) (ha : a ∈ (u.definition s).bases)
    (h : u.Climbs a t) : u.Climbs s t := by
  have hsub : u.ancestors a ⊆ (u.definition s).bases := hu.ancestors_subset ha
  rcases h with rfl | h | h | ⟨b, hb, h⟩
  · exact .inr (.inr (.inl ha))
  · exact .inr (.inl h)
  · exact .inr (.inr (.inl (hsub (List.mem_cons_of_mem _ h))))
  · exact .inr (.inr (.inr ⟨b, List.mem_cons_of_mem _ (hsub hb), h⟩))

/-- What an interface climbs to is itself, the root, or reached by names. -/
theorem Climbs.cases_interface (hu : u.Reachable) (hi : i.isInterface = true) (hk : u.Knows i)
    (h : u.Climbs i t) : i = t ∨ t = .object ∨ TransGen u.Names i t := by
  rcases h with h | h | h | ⟨a, ha, h⟩
  · exact .inl h
  · exact .inr (.inl h)
  · rw [hu.bases_of_isInterface hi hk] at h
    exact absurd h List.not_mem_nil
  · rw [hu.ancestors_of_isInterface hi hk, List.mem_singleton] at ha
    exact .inr (.inr (ha ▸ h))

theorem Climbs.trans (hu : u.Reachable) (hrs : u.Climbs r s) (hst : u.Climbs s t) :
    u.Climbs r t := by
  rcases hrs with rfl | rfl | hrs | ⟨a, ha, hrs⟩
  · exact hst
  · exact .inr (.inl (hst.eq_object))
  · exact hst.of_mem_bases hu hrs
  · obtain ⟨hi, hk⟩ := hu.isInterface_of_names hrs
    rcases hst.cases_interface hu hi hk with rfl | hst | hst
    · exact .inr (.inr (.inr ⟨a, ha, hrs⟩))
    · exact .inr (.inl hst)
    · exact .inr (.inr (.inr ⟨a, ha, hrs.trans hst⟩))

/-- An array is climbed to from itself only: it is no class and no interface. -/
theorem Climbs.eq_array (hu : u.Reachable) (h : u.Climbs s (.array t)) : s = .array t := by
  rcases h with h | h | h | ⟨a, -, h⟩
  · exact h
  · simp at h
  · exact absurd (hu.isClass_of_mem_bases h) (by simp [TypeRef.isClass, TypeRef.hasKind])
  · exact absurd (hu.isInterface_of_names h).1 (by simp [TypeRef.isInterface, TypeRef.hasKind])

/-- From an array one climbs to the array and to the root. -/
theorem Climbs.of_array (h : u.Climbs (.array s) t) : t = .array s ∨ t = .object := by
  rcases h with h | h | h | ⟨a, ha, h⟩
  · exact .inl h.symm
  · exact .inr h
  · exact .inr (List.mem_singleton.mp h)
  · -- neither an array nor the root names an interface
    obtain ⟨j, hj, -⟩ := transGen_names_iff.mp h
    rcases List.mem_cons.mp ha with rfl | ha
    · exact absurd hj List.not_mem_nil
    · obtain rfl := List.mem_singleton.mp ha
      exact absurd hj List.not_mem_nil

/-- **Reaching is transitive**, across bases, interfaces and nested arrays. -/
theorem Reaches.trans (hu : u.Reachable) (hrs : u.Reaches r s) (hst : u.Reaches s t) :
    u.Reaches r t := by
  induction hrs generalizing t with
  | climb hrs =>
    cases hst with
    | climb hst => exact .climb (hrs.trans hu hst)
    | array hs hst =>
      rw [hrs.eq_array hu]
      exact .array hs hst
  | array hr hrs ih =>
    cases hst with
    | climb hst =>
      rcases hst.of_array with rfl | rfl
      · exact .array hr hrs
      · exact .climb (.inr (.inl rfl))
    | array _ hst => exact .array hr (ih hst)

/-! ## The two relations are one -/

theorem Conforms.of_mem_bases (hu : u.Reachable) :
    a ∈ (u.definition s).bases → u.Conforms s a := by
  induction s using hu.base_induction with
  | step s ih =>
    intro h
    obtain ⟨b, hb, -, rfl | ha⟩ := hu.mem_bases h
    · exact .base hb
    · exact .trans (.base hb) (ih b hb ha)

theorem Conforms.of_names (h : TransGen u.Names s t) : u.Conforms s t := by
  induction h with
  | single h => exact .interface h
  | tail _ h ih => exact .trans ih (.interface h)

theorem Climbs.conforms (hu : u.Reachable) (h : u.Climbs s t) : u.Conforms s t := by
  rcases h with rfl | rfl | h | ⟨a, ha, h⟩
  · exact .refl s
  · exact .object s
  · exact .of_mem_bases hu h
  · rcases List.mem_cons.mp ha with rfl | ha
    · exact .of_names h
    · exact .trans (.of_mem_bases hu ha) (.of_names h)

/-- **The closure of the declared edges is climbing, lifted to arrays.** -/
theorem conforms_iff_reaches (hu : u.Reachable) : u.Conforms s t ↔ u.Reaches s t := by
  constructor
  · intro h
    induction h with
    | refl t => exact .climb (.inl rfl)
    | trans _ _ ihrs ihst => exact ihrs.trans hu ihst
    | base h =>
      obtain ⟨as, has⟩ := base?_eq_some h
      exact .climb (.inr (.inr (.inl (by simp [has]))))
    | interface h => exact .climb (.inr (.inr (.inr ⟨_, mem_ancestors_self u _, .single h⟩)))
    | object t => exact .climb (.inr (.inl rfl))
    | array hs _ ih => exact .array hs ih
  · intro h
    induction h with
    | climb h => exact h.conforms hu
    | array hs _ ih => exact .array hs ih

/-! ## What the search answers

Outside two arrays the search decides `Climbs` by the kind of the target: names lead to interfaces
only, and no interface is a base. -/

/-- A disjunction that got an answer, from questions that were answered rightly. -/
theorem anyInTurn_eq_some {α : Type} {p : α → Option Bool} {Q : α → Prop} {l : List α} {b : Bool}
    (hp : ∀ x ∈ l, ∀ c, p x = some c → (c = true ↔ Q x)) (h : anyInTurn p l = some b) :
    b = true ↔ ∃ x ∈ l, Q x := by
  induction l with
  | nil =>
    obtain rfl : false = b := Option.some.inj h
    simp
  | cons x l ih =>
    have hx := hp x List.mem_cons_self
    rw [anyInTurn] at h
    cases hpx : p x with
    | none => simp [hpx] at h
    | some c =>
      have hc := hx c hpx
      cases c with
      | true =>
        obtain rfl : true = b := by simpa [hpx] using h
        simpa using .inl (hc.mp rfl)
      | false =>
        have hQ : ¬ Q x := fun hq => by simpa using hc.mpr hq
        rw [hpx] at h
        rw [ih (fun y hy => hp y (List.mem_cons_of_mem x hy)) h]
        simp [hQ]

theorem searchInterface_eq_some {b : Bool} (h : u.searchInterface n t i = some b) :
    b = true ↔ TransGen u.Names t i := by
  induction n generalizing t b with
  | zero => simp [searchInterface] at h
  | succ n ih =>
    rw [searchInterface] at h
    rw [transGen_names_iff]
    refine anyInTurn_eq_some (fun j _ c hc => ?_) h
    by_cases hji : j = i
    · obtain rfl : true = c := by simpa [hji] using hc
      simp [hji]
    · rw [if_neg hji] at hc
      rw [ih hc]
      simp [hji]

theorem climbs_iff_of_isInterface (hu : u.Reachable) (ht : t.isInterface = true) (hst : s ≠ t) :
    u.Climbs s t ↔ ∃ a ∈ u.ancestors s, TransGen u.Names a t := by
  refine ⟨?_, fun h => .inr (.inr (.inr h))⟩
  rintro (h | rfl | h | h)
  · exact absurd h hst
  · simp [TypeRef.isInterface, TypeRef.hasKind] at ht
  · have hc := hu.isClass_of_mem_bases h
    cases t <;> simp_all [TypeRef.isInterface, TypeRef.isClass, TypeRef.hasKind]
  · exact h

theorem climbs_iff_of_not_isInterface (hu : u.Reachable) (ht : t.isInterface = false)
    (hst : ¬ (s = t ∨ t = .object)) : u.Climbs s t ↔ t ∈ (u.definition s).bases := by
  refine ⟨?_, fun h => .inr (.inr (.inl h))⟩
  rintro (h | h | h | ⟨a, -, h⟩)
  · exact absurd (.inl h) hst
  · exact absurd (.inr h) hst
  · exact h
  · simp [(hu.isInterface_of_names h).1] at ht

/-- Two arrays reach one another as their elements do. -/
theorem reaches_array_iff (hu : u.Reachable) :
    u.Reaches (.array s) (.array t) ↔ s = t ∨ (s.isReferenceType = true ∧ u.Reaches s t) := by
  constructor
  · intro h
    cases h with
    | climb h => exact .inl (TypeRef.array.inj (h.eq_array hu))
    | array hs h => exact .inr ⟨hs, h⟩
  · rintro (rfl | ⟨hs, h⟩)
    · exact .climb (.inl rfl)
    · exact .array hs h

/-- An interface is no array. -/
theorem not_arrays_of_isInterface (ht : t.isInterface = true) :
    ∀ s' t', s = .array s' → t = .array t' → False := by
  rintro s' t' - rfl
  simp [TypeRef.isInterface, TypeRef.hasKind] at ht

/-- Outside two arrays, reaching is climbing. -/
theorem reaches_iff_climbs (h : ∀ s' t', s = .array s' → t = .array t' → False) :
    u.Reaches s t ↔ u.Climbs s t := by
  refine ⟨fun hr => ?_, .climb⟩
  cases hr with
  | climb hr => exact hr
  | array _ _ => exact (h _ _ rfl rfl).elim

/-- **An answer of the search is right.** -/
theorem searchSubtype_eq_some (hu : u.Reachable) {b : Bool}
    (h : u.searchSubtype n s t = some b) : b = true ↔ u.Reaches s t := by
  fun_induction searchSubtype u n s t with
  | case1 s =>
    obtain rfl := Option.some.inj h
    simp [reaches_array_iff hu]
  | case2 s t hst hs ih =>
    rw [ih h, reaches_array_iff hu]
    simp [hst, hs]
  | case3 s t hst hs =>
    obtain rfl := Option.some.inj h
    simp [reaches_array_iff hu, hst, hs]
  | case4 s t harr hst =>
    obtain rfl := Option.some.inj h
    simp only [Bool.or_eq_true, decide_eq_true_eq, TypeRef.isObject_iff] at hst
    exact iff_of_true rfl (.climb (hst.imp_right .inl))
  | case5 s t harr hst ht =>
    simp only [Bool.or_eq_true, decide_eq_true_eq, TypeRef.isObject_iff, not_or] at hst
    rw [reaches_iff_climbs harr, climbs_iff_of_isInterface hu ht hst.1]
    exact anyInTurn_eq_some (fun a _ c hc => searchInterface_eq_some hc) h
  | case6 s t harr hst ht =>
    obtain rfl := Option.some.inj h
    simp only [Bool.or_eq_true, decide_eq_true_eq, TypeRef.isObject_iff] at hst
    rw [reaches_iff_climbs harr, climbs_iff_of_not_isInterface hu (by simpa using ht) hst]
    simp

/-! ## The bounded search

No interface is looked into deeper than there are declared types, so the bound loses nothing. -/

theorem implementsWithin_iff : u.implementsWithin n t i = true ↔ Within u.Names n t i := by
  induction n generalizing t with
  | zero => simp [implementsWithin, Within]
  | succ n ih => simp [implementsWithin, Within, Names, ih]

theorem implements_iff (hu : u.Reachable) : u.implements t i = true ↔ TransGen u.Names t i := by
  rw [implements, implementsWithin_iff, ← length_declaredTypes u]
  exact within_length_iff hu.mem_declaredTypes_of_names

/-- **The bounded search decides subtyping.** -/
theorem isSubtype_iff_reaches (hu : u.Reachable) : u.isSubtype s t = true ↔ u.Reaches s t := by
  fun_induction isSubtype u s t with
  | case1 s t ih =>
    rw [reaches_array_iff hu]
    simp [ih]
  | case2 s t harr hst =>
    simp only [Bool.or_eq_true, decide_eq_true_eq, TypeRef.isObject_iff] at hst
    exact iff_of_true rfl (.climb (hst.imp_right .inl))
  | case3 s t harr hst ht =>
    simp only [Bool.or_eq_true, decide_eq_true_eq, TypeRef.isObject_iff, not_or] at hst
    rw [reaches_iff_climbs harr, climbs_iff_of_isInterface hu ht hst.1]
    simp [implements_iff hu]
  | case4 s t harr hst ht =>
    simp only [Bool.or_eq_true, decide_eq_true_eq, TypeRef.isObject_iff] at hst
    rw [reaches_iff_climbs harr, climbs_iff_of_not_isInterface hu (by simpa using ht) hst]
    simp

theorem isSubtype_iff_conforms (hu : u.Reachable) : u.isSubtype s t = true ↔ u.Conforms s t := by
  rw [isSubtype_iff_reaches hu, conforms_iff_reaches hu]

theorem Reachable.isSubtype_trans (hu : u.Reachable) (hrs : u.isSubtype r s = true)
    (hst : u.isSubtype s t = true) : u.isSubtype r t = true := by
  rw [isSubtype_iff_conforms hu] at hrs hst ⊢
  exact hrs.trans hst

/-- **Subtyping is what the declarations ask for**: whenever the search comes to an answer, at
whatever depth, the answer is `true` exactly on the closure of the declared edges; in particular
answers compose.  The bounded search always has that answer. -/
theorem subtype_answers_conform (hu : u.Reachable) (r s t : TypeRef) :
    (∀ n b, u.searchSubtype n s t = some b → (b = true ↔ u.Conforms s t)) ∧
      (u.isSubtype? r s = some true → u.isSubtype? s t = some true →
        ∀ b, u.isSubtype? r t = some b → b = true) ∧
      (u.isSubtype s t = true ↔ u.Conforms s t) := by
  have answers {s t : TypeRef} {n : ℕ} {b : Bool} (h : u.searchSubtype n s t = some b) :
      b = true ↔ u.Conforms s t :=
    (searchSubtype_eq_some hu h).trans (conforms_iff_reaches hu).symm
  refine ⟨fun _ _ => answers, fun hrs hst b h => ?_, isSubtype_iff_conforms hu⟩
  exact (answers h).mpr (.trans ((answers hrs).mp rfl) ((answers hst).mp rfl))

/-- The types with a class that names an interface, which is declared only. -/
def classOverDeclared : Universe Unit :=
  ((empty.declare .interfaceType "I").declare .classType "C").define ⟨1, .classType, "C"⟩ {
    bases := [.object]
    interfaces := [.declared ⟨0, .interfaceType, "I"⟩]
    constructors := [.synthesized (.declared ⟨1, .classType, "C"⟩) .everyone] }

theorem reachable_classOverDeclared : classOverDeclared.Reachable :=
  .define (b := {
      target := ⟨1, .classType, "C"⟩
      interfaces := [.declared ⟨0, .interfaceType, "I"⟩] })
    (c := ⟨_, []⟩) (.declare _ _ (.declare _ _ .empty)) ⟨_, rfl, rfl, rfl⟩ rfl
    (fun t ht => by
      obtain rfl := List.mem_singleton.mp ht
      exact ⟨_, rfl, rfl, rfl⟩) rfl rfl

/-- Arrays of that class may stand in for arrays of the interface. -/
theorem subtype_answers_conform_array :
    classOverDeclared.Conforms (.array (.declared ⟨1, .classType, "C"⟩))
      (.array (.declared ⟨0, .interfaceType, "I"⟩)) :=
  ((subtype_answers_conform reachable_classOverDeclared .object _ _).1 1 true (by decide)).mp rfl

end Reflection.Universe
