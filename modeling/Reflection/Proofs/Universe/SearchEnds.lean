import Reflection.Proofs.Universe.Conforms

/-!
# Proofs/Universe/SearchEnds — where the search for an interface comes to an end

Interfaces may name one another in a circle, since a name need not be defined before it is used, and
the search for an interface keeps no record of where it has been.  From a type it looks into the
names in turn, each one only after those before it have led nowhere (`Enters`).  A search of `n`
levels is lost exactly when `n` such steps can be taken, so it is lost at every depth exactly when
they run into a circle.
-/

namespace Reflection.Universe

open Relation

variable {β : Type} {u : Universe β} {s t i x y : TypeRef} {n : ℕ}

/-- The interfaces that a search from a type looks at first: those that the type names, then those
that its bases name. -/
def named (u : Universe β) (t : TypeRef) : List TypeRef := (u.ancestors t).flatMap u.interfaces

/-- Whether a search for `t` that is at `x` may look into `y`: the names before `y` do not lead to
`t`, and `y` is not `t` itself. -/
def Enters (u : Universe β) (t x y : TypeRef) : Prop :=
  ∃ before after, u.named x = before ++ y :: after ∧ y ≠ t ∧ ∀ z ∈ before, ¬ u.Conforms z t

/-- **Whether the search for an answer never ends**: it looks for an interface, and runs into a
circle of interfaces before it finds it. -/
def Loops (u : Universe β) : TypeRef → TypeRef → Prop
  | .array s, .array t => s.isReferenceType = true ∧ Loops u s t
  | s, t => s ≠ t ∧ t.isInterface = true ∧ CycleAhead (u.Enters t) s

/-! ## Questions in turn -/

section InTurn

variable {α γ : Type} {p : α → Option Bool} {l before after : List α} {a : α}

/-- A disjunction without an answer has a first question without one. -/
theorem exists_of_anyInTurn_eq_none (h : anyInTurn p l = none) :
    ∃ before a after, l = before ++ a :: after ∧ p a = none ∧ ∀ z ∈ before, p z = some false := by
  induction l with
  | nil => simp [anyInTurn] at h
  | cons x l ih =>
    rw [anyInTurn] at h
    cases hx : p x with
    | none => exact ⟨[], x, l, rfl, hx, by simp⟩
    | some b =>
      cases b with
      | true => simp [hx] at h
      | false =>
        rw [hx] at h
        obtain ⟨before, a, after, rfl, ha, hbefore⟩ := ih h
        exact ⟨x :: before, a, after, rfl, ha, List.forall_mem_cons.mpr ⟨hx, hbefore⟩⟩

theorem anyInTurn_cons_eq_none (ha : p a = none) : anyInTurn p (a :: l) = none := by
  rw [anyInTurn, ha]

/-- A question without an answer, with none before it that settles the matter. -/
theorem anyInTurn_append_eq_none (ha : p a = none) (hbefore : ∀ z ∈ before, p z ≠ some true) :
    anyInTurn p (before ++ a :: after) = none := by
  induction before with
  | nil => exact anyInTurn_cons_eq_none ha
  | cons x before ih =>
    obtain ⟨hx, hbefore⟩ := List.forall_mem_cons.mp hbefore
    rw [List.cons_append, anyInTurn, ih hbefore]
    cases hp : p x with
    | none => rfl
    | some b => cases b <;> simp_all

theorem anyInTurn_append {l' : List α} :
    anyInTurn p (l ++ l') =
      match anyInTurn p l with
      | some false => anyInTurn p l'
      | r => r := by
  induction l with
  | nil => rfl
  | cons x l ih =>
    rw [List.cons_append, anyInTurn, anyInTurn, ih]
    cases p x with
    | none => rfl
    | some b => cases b <;> rfl

/-- Questions that are disjunctions themselves may be asked in one row. -/
theorem anyInTurn_flatMap {f : γ → List α} {l : List γ} :
    anyInTurn (fun c => anyInTurn p (f c)) l = anyInTurn p (l.flatMap f) := by
  induction l with
  | nil => rfl
  | cons c l ih =>
    rw [List.flatMap_cons, anyInTurn_append, anyInTurn, ih]
    cases anyInTurn p (f c) with
    | none => rfl
    | some b => cases b <;> rfl

end InTurn

/-! ## Lost searches are long walks -/

theorem Reachable.isInterface_of_named (hu : u.Reachable) (h : y ∈ u.named x) :
    y.isInterface = true ∧ u.Knows y := by
  obtain ⟨a, -, hy⟩ := List.mem_flatMap.mp h
  exact hu.isInterface_of_mem hy

theorem Enters.mem_named (h : u.Enters t x y) : y ∈ u.named x := by
  obtain ⟨before, after, hx, -⟩ := h
  simp [hx]

theorem Enters.mem_declaredTypes (hu : u.Reachable) (h : u.Enters t x y) :
    y ∈ u.declaredTypes :=
  have hy := hu.isInterface_of_named h.mem_named
  mem_declaredTypes_of_isInterface hy.1 hy.2

/-- Between interfaces, conforming is being equal or being reached by names. -/
theorem conforms_iff_of_isInterface (hu : u.Reachable) (hi : i.isInterface = true)
    (hk : u.Knows i) (ht : t.isInterface = true) :
    u.Conforms i t ↔ i = t ∨ TransGen u.Names i t := by
  rw [conforms_iff_reaches hu, reaches_iff_climbs (not_arrays_of_isInterface ht)]
  constructor
  · intro h
    rcases h.cases_interface hu hi hk with h | rfl | h
    · exact .inl h
    · simp [TypeRef.isInterface, TypeRef.hasKind] at ht
    · exact .inr h
  · rintro (h | h)
    · exact .inl h
    · exact .inr (.inr (.inr ⟨i, mem_ancestors_self u i, h⟩))

/-- What a search for `t` asks about one name. -/
def ask (u : Universe β) (n : ℕ) (t j : TypeRef) : Option Bool :=
  if j = t then some true else u.searchInterface n j t

theorem ask_eq_none : u.ask n t i = none ↔ i ≠ t ∧ u.searchInterface n i t = none := by
  by_cases h : i = t <;> simp [ask, h]

/-- An answer about one name is right. -/
theorem ask_eq_some (hu : u.Reachable) (ht : t.isInterface = true) (hi : i ∈ u.named s) {b : Bool}
    (h : u.ask n t i = some b) : b = true ↔ u.Conforms i t := by
  obtain ⟨hint, hk⟩ := hu.isInterface_of_named hi
  rw [conforms_iff_of_isInterface hu hint hk ht]
  by_cases hit : i = t
  · rw [ask, if_pos hit] at h
    exact iff_of_true (Option.some.inj h).symm (.inl hit)
  · rw [ask, if_neg hit] at h
    rw [searchInterface_eq_some h]
    simp [hit]

/-- The search from a type and its bases, as one row of questions. -/
theorem anyInTurn_ancestors :
    anyInTurn (fun a => u.searchInterface (n + 1) a t) (u.ancestors s) =
      anyInTurn (u.ask n t) (u.named s) := by
  simp only [searchInterface, named, ← anyInTurn_flatMap]
  rfl

theorem Reachable.anyInTurn_of_isInterface (hu : u.Reachable) (hi : i.isInterface = true)
    (hk : u.Knows i) :
    anyInTurn (fun a => u.searchInterface n a t) (u.ancestors i) = u.searchInterface n i t := by
  rw [hu.ancestors_of_isInterface hi hk]
  rcases h : u.searchInterface n i t with _ | b
  · simp [anyInTurn, h]
  · cases b <;> simp [anyInTurn, h]

/-- **A search of `n` levels is lost exactly when `n` steps can be taken.** -/
theorem search_eq_none_iff_walks (hu : u.Reachable) (ht : t.isInterface = true) :
    anyInTurn (fun a => u.searchInterface n a t) (u.ancestors s) = none ↔
      Walks (u.Enters t) n s := by
  induction n generalizing s with
  | zero => simp [ancestors, anyInTurn, searchInterface, Walks]
  | succ n ih =>
    have lost_iff {j : TypeRef} (hj : j ∈ u.named s) :
        u.searchInterface n j t = none ↔ Walks (u.Enters t) n j := by
      obtain ⟨hi, hk⟩ := hu.isInterface_of_named hj
      rw [← ih, hu.anyInTurn_of_isInterface hi hk]
    rw [anyInTurn_ancestors]
    constructor
    · intro h
      obtain ⟨before, j, after, hs, hj, hbefore⟩ := exists_of_anyInTurn_eq_none h
      have hmem : ∀ z ∈ before ++ j :: after, z ∈ u.named s := fun z hz => hs ▸ hz
      obtain ⟨hjt, hj⟩ := ask_eq_none.mp hj
      refine ⟨j, ⟨before, after, hs, hjt, fun z hz hc => ?_⟩, (lost_iff (hmem j (by simp))).mp hj⟩
      have hanswer := ask_eq_some hu ht (hmem z (by simp [hz])) (hbefore z hz)
      exact Bool.false_ne_true (hanswer.mpr hc)
    · rintro ⟨j, ⟨before, after, hs, hjt, hbefore⟩, hwalk⟩
      have hmem : ∀ z ∈ before ++ j :: after, z ∈ u.named s := fun z hz => hs ▸ hz
      rw [hs]
      refine anyInTurn_append_eq_none ?_ fun z hz hanswer => hbefore z hz ?_
      · exact ask_eq_none.mpr ⟨hjt, (lost_iff (hmem j (by simp))).mpr hwalk⟩
      · exact (ask_eq_some hu ht (hmem z (by simp [hz])) hanswer).mp rfl

/-! ## Which searches end -/

theorem loops_iff (harr : ∀ s' t', s = .array s' → t = .array t' → False) :
    u.Loops s t ↔ s ≠ t ∧ t.isInterface = true ∧ CycleAhead (u.Enters t) s := by
  rw [Loops]
  exact harr

/-- A type is itself without any search, however deep the arrays are. -/
theorem not_loops_self (s : TypeRef) : ¬ u.Loops s s := by
  intro h
  induction s with
  | array s ih => exact ih h.2
  | _ => exact h.1 rfl

/-- A search that runs into a circle is lost at every depth. -/
theorem searchSubtype_eq_none_of_loops (hu : u.Reachable) (h : u.Loops s t) (n : ℕ) :
    u.searchSubtype n s t = none := by
  fun_induction searchSubtype u n s t with
  | case1 s => exact (not_loops_self _ h).elim
  | case2 s t hst hs ih => exact ih h.2
  | case3 s t hst hs => exact absurd h.1 hs
  | case4 s t harr hst =>
    obtain ⟨hne, ht, -⟩ := (loops_iff harr).mp h
    simp only [Bool.or_eq_true, decide_eq_true_eq, TypeRef.isObject_iff] at hst
    obtain rfl : t = .object := hst.resolve_left hne
    simp [TypeRef.isInterface, TypeRef.hasKind] at ht
  | case5 s t harr hst ht =>
    obtain ⟨-, -, hcycle⟩ := (loops_iff harr).mp h
    exact (search_eq_none_iff_walks hu ht).mpr (walks_of_cycleAhead hcycle n)
  | case6 s t harr hst ht => exact absurd ((loops_iff harr).mp h).2.1 ht

/-- A search that is lost at a depth beyond the declared types runs into a circle. -/
theorem loops_of_isSubtype?_eq_none (hu : u.Reachable) (h : u.isSubtype? s t = none) :
    u.Loops s t := by
  rw [isSubtype?, ← length_declaredTypes] at h
  fun_induction searchSubtype u (u.declaredTypes.length + 1) s t with
  | case1 s => simp at h
  | case2 s t hst hs ih => exact ⟨hs, ih h⟩
  | case3 s t hst hs => simp at h
  | case4 s t harr hst => simp at h
  | case5 s t harr hst ht =>
    have hwalks := (search_eq_none_iff_walks hu ht).mp h
    have hcycle := (walks_succ_iff_cycleAhead fun h => h.mem_declaredTypes hu).mp hwalks
    simp only [Bool.or_eq_true, decide_eq_true_eq, not_or] at hst
    exact (loops_iff harr).mpr ⟨hst.1, ht, hcycle⟩
  | case6 s t harr hst ht => simp at h

/-- **Which searches end**: an unbounded search for an answer ends exactly when it does not run into
a circle of interfaces, and `isSubtype?` tells the two cases apart. -/
theorem search_ends_iff (hu : u.Reachable) (s t : TypeRef) :
    ((∃ n b, u.searchSubtype n s t = some b) ↔ ¬ u.Loops s t) ∧
      (u.isSubtype? s t = none ↔ u.Loops s t) := by
  have none_iff : u.isSubtype? s t = none ↔ u.Loops s t :=
    ⟨loops_of_isSubtype?_eq_none hu, fun h => searchSubtype_eq_none_of_loops hu h _⟩
  refine ⟨⟨fun ⟨n, b, hb⟩ h => ?_, fun h => ?_⟩, none_iff⟩
  · simp [searchSubtype_eq_none_of_loops hu h n] at hb
  · obtain ⟨b, hb⟩ := Option.ne_none_iff_exists'.mp (mt none_iff.mp h)
    exact ⟨_, b, hb⟩

/-- From an interface, a search looks into the names of the interface only. -/
theorem names_of_enters (hu : u.Reachable) (hi : x.isInterface = true) (hk : u.Knows x)
    (h : TransGen (u.Enters t) x y) : TransGen u.Names x y := by
  have named_eq {z : TypeRef} (hz : z.isInterface = true) (hkz : u.Knows z) :
      u.named z = u.interfaces z := by
    rw [named, hu.ancestors_of_isInterface hz hkz, List.flatMap_singleton]
  induction h with
  | single h =>
    have hy := h.mem_named
    rw [named_eq hi hk] at hy
    exact .single hy
  | tail _ h ih =>
    obtain ⟨hz, hkz⟩ := hu.isInterface_of_names ih
    have hy := h.mem_named
    rw [named_eq hz hkz] at hy
    exact .tail ih hy

/-- **Without a circle of names every search ends.** -/
theorem search_ends_of_acyclic (hu : u.Reachable) (hacyclic : ∀ i, ¬ TransGen u.Names i i)
    (s t : TypeRef) : ∃ b, u.isSubtype? s t = some b := by
  refine Option.ne_none_iff_exists'.mp fun hnone => ?_
  have hloops := loops_of_isSubtype?_eq_none hu hnone
  clear hnone
  fun_induction Loops u s t with
  | case1 s t ih => exact ih hloops.2
  | case2 s t harr =>
    obtain ⟨-, -, i, -, hi⟩ := hloops
    -- where a search has come to is an interface
    obtain ⟨_, -, hlast⟩ := TransGen.tail'_iff.mp hi
    obtain ⟨hint, hk⟩ := hu.isInterface_of_named hlast.mem_named
    exact hacyclic i (names_of_enters hu hint hk hi)

/-- An interface that names itself, and another one beside it. -/
def selfNaming : Universe Unit :=
  ((empty.declare .interfaceType "I").define ⟨0, .interfaceType, "I"⟩ {
    flags := { isAbstract := true }
    interfaces := [.declared ⟨0, .interfaceType, "I"⟩] }).declare .interfaceType "K"

theorem reachable_selfNaming : selfNaming.Reachable :=
  .declare _ _ (.define (b := {
      target := ⟨0, .interfaceType, "I"⟩
      flags := { isAbstract := true }
      interfaces := [.declared ⟨0, .interfaceType, "I"⟩] })
    (c := ⟨_, []⟩) (.declare _ _ .empty) ⟨_, rfl, rfl, rfl⟩ rfl
    (fun t ht => by
      obtain rfl := List.mem_singleton.mp ht
      exact ⟨_, rfl, rfl, rfl⟩) rfl rfl)

/-- Looking for the other interface from the one that names itself never ends. -/
theorem search_ends_iff_selfNaming :
    selfNaming.Loops (.declared ⟨0, .interfaceType, "I"⟩) (.declared ⟨1, .interfaceType, "K"⟩) :=
  ((search_ends_iff reachable_selfNaming _ _).2).mp (by decide)

/-- **Not every search ends**: in a reachable universe, one is lost at every depth. -/
theorem not_every_search_ends :
    selfNaming.Reachable ∧ ∀ n, selfNaming.searchSubtype n (.declared ⟨0, .interfaceType, "I"⟩)
      (.declared ⟨1, .interfaceType, "K"⟩) = none := by
  refine ⟨reachable_selfNaming, fun n => ?_⟩
  have lost : ∀ n, selfNaming.searchInterface n (.declared ⟨0, .interfaceType, "I"⟩)
      (.declared ⟨1, .interfaceType, "K"⟩) = none := by
    intro n
    induction n with
    | zero => rfl
    | succ n ih => exact anyInTurn_cons_eq_none ih
  exact anyInTurn_cons_eq_none (p := fun a => selfNaming.searchInterface n a _) (lost n)

end Reflection.Universe
