import Reflection.Proofs.Universe.Conforms

/-!
# Proofs/Universe/Lines — the line of bases of a type

The bases of a type lie above it in one line: no type is above itself, two types of a line are one
above the other, and the line from a base onwards is the line of that base.  So a search along a
line that stops at some base has looked at everything below it, and nothing else.  Along a line,
subtyping is this order.

At the end, universes are built blueprint by blueprint (`defineBy`), with checks that can be
evaluated, so that an example need not spell out what its types compile to.
-/

namespace Reflection.Universe

variable {β : Type} {u : Universe β} {s t a b : TypeRef} {before after : List TypeRef}

/-! ## Above and below -/

/-- A base has fewer bases than what derives from it. -/
theorem Reachable.length_bases_lt (hu : u.Reachable) :
    a ∈ (u.definition t).bases → (u.definition a).bases.length < (u.definition t).bases.length := by
  induction t using hu.base_induction with
  | step t ih =>
    intro h
    obtain ⟨b, hb, hbases, ha⟩ := hu.mem_bases h
    have hlen : (u.definition t).bases.length = (u.definition b).bases.length + 1 := by
      rw [hbases, ancestors, List.length_cons]
    rcases ha with rfl | ha
    · omega
    · have := ih b hb ha
      omega

/-- A fact about a type may be proved from the same fact about everything above it. -/
theorem Reachable.bases_induction (hu : u.Reachable) {motive : TypeRef → Prop}
    (step : ∀ t, (∀ a ∈ (u.definition t).bases, motive a) → motive t) (t : TypeRef) : motive t := by
  induction hn : (u.definition t).bases.length using Nat.strongRecOn generalizing t with
  | ind n ih => exact step t fun a ha => ih _ (hn ▸ hu.length_bases_lt ha) a rfl

/-- **No type is above itself.** -/
theorem Reachable.not_mem_bases_self (hu : u.Reachable) (t : TypeRef) :
    t ∉ (u.definition t).bases :=
  fun h => Nat.lt_irrefl _ (hu.length_bases_lt h)

theorem mem_ancestors_iff : a ∈ u.ancestors t ↔ a = t ∨ a ∈ (u.definition t).bases := List.mem_cons

theorem mem_ancestors_of_mem_bases (h : a ∈ (u.definition t).bases) : a ∈ u.ancestors t :=
  List.mem_cons_of_mem _ h

theorem Reachable.ancestors_subset_ancestors (hu : u.Reachable) (h : a ∈ u.ancestors t) :
    u.ancestors a ⊆ u.ancestors t := by
  rcases mem_ancestors_iff.mp h with rfl | h
  · exact List.Subset.refl _
  · exact List.Subset.trans (hu.ancestors_subset h) (List.subset_cons_self _ _)

/-- What is above a base is above the type. -/
theorem Reachable.mem_bases_of_mem_ancestors (hu : u.Reachable) (hs : s ∈ (u.definition t).bases)
    (h : a ∈ u.ancestors s) : a ∈ (u.definition t).bases :=
  hu.ancestors_subset hs h

/-- **The line from a base onwards is the line of that base.** -/
theorem Reachable.bases_of_split (hu : u.Reachable)
    (h : (u.definition t).bases = before ++ a :: after) : (u.definition a).bases = after := by
  induction t using hu.base_induction generalizing before with
  | step t ih =>
    obtain ⟨b, hb, hbases, -⟩ := hu.mem_bases (t := t) (a := a) (by simp [h])
    rw [hbases, ancestors] at h
    cases before with
    | nil =>
      obtain ⟨rfl, rfl⟩ := List.cons_eq_cons.mp h
      rfl
    | cons x before => exact ih b hb (List.cons_eq_cons.mp h).2

/-- A base that does not come before another one is that one, or above it. -/
theorem Reachable.mem_ancestors_of_split (hu : u.Reachable)
    (h : (u.definition t).bases = before ++ s :: after) (ha : a ∈ (u.definition t).bases)
    (hn : a ∉ before) : a ∈ u.ancestors s := by
  rw [h, List.mem_append] at ha
  rw [ancestors, hu.bases_of_split h]
  exact ha.resolve_left hn

/-- The types of a line come in order, each below those after it. -/
theorem Reachable.pairwise_ancestors (hu : u.Reachable) (t : TypeRef) :
    (u.ancestors t).Pairwise fun a b => b ∈ (u.definition a).bases := by
  induction t using hu.base_induction with
  | step t ih =>
    refine List.pairwise_cons.mpr ⟨fun a ha => ha, ?_⟩
    cases hb : u.base? t with
    | none =>
      rw [bases_eq_nil hb]
      exact .nil
    | some b =>
      rw [hu.bases_eq hb]
      exact ih b hb

/-- **Two types of a line are one above the other.** -/
theorem Reachable.mem_ancestors_or (hu : u.Reachable) (ha : a ∈ u.ancestors t)
    (hb : b ∈ u.ancestors t) : b ∈ u.ancestors a ∨ a ∈ (u.definition b).bases := by
  induction t using hu.base_induction with
  | step t ih =>
    rcases mem_ancestors_iff.mp ha with rfl | ha
    · exact .inl hb
    · rcases mem_ancestors_iff.mp hb with rfl | hb
      · exact .inr ha
      · obtain ⟨c, hc, hbases, -⟩ := hu.mem_bases ha
        rw [hbases] at ha hb
        exact ih c hc ha hb

/-- A type above another is not below it as well. -/
theorem Reachable.not_mem_ancestors_of_mem_bases (hu : u.Reachable)
    (h : a ∈ (u.definition t).bases) : t ∉ u.ancestors a :=
  fun ht => hu.not_mem_bases_self t (hu.mem_bases_of_mem_ancestors h ht)

theorem Reachable.eq_of_mem_ancestors (hu : u.Reachable) (ha : a ∈ u.ancestors b)
    (hb : b ∈ u.ancestors a) : a = b := by
  rcases mem_ancestors_iff.mp ha with h | h
  · exact h
  · exact absurd hb (hu.not_mem_ancestors_of_mem_bases h)

/-! ## The types of a line -/

theorem Reachable.knows_of_mem_bases (hu : u.Reachable) :
    a ∈ (u.definition t).bases → u.Knows a := by
  induction t using hu.base_induction with
  | step t ih =>
    intro h
    obtain ⟨b, hb, -, rfl | ha⟩ := hu.mem_bases h
    · exact (hu.isClass_of_base? hb).2
    · exact ih b hb ha

theorem Reachable.knows_of_mem_ancestors (hu : u.Reachable) (hk : u.Knows t)
    (h : a ∈ u.ancestors t) : u.Knows a := by
  rcases mem_ancestors_iff.mp h with rfl | h
  · exact hk
  · exact hu.knows_of_mem_bases h

/-- A base is defined before anything derives from it, and may be derived from. -/
theorem Reachable.base_of_mem_bases (hu : u.Reachable) :
    a ∈ (u.definition t).bases →
      u.isDefined a = true ∧ (u.flags a).isSealed = false ∧ (u.flags a).isStatic = false := by
  induction t using hu.base_induction with
  | step t ih =>
    intro h
    obtain ⟨b, hb, -, rfl | ha⟩ := hu.mem_bases h
    · obtain ⟨hdefined, -, -, hflags⟩ := hu.base_of_base? hb
      exact ⟨hdefined, hflags⟩
    · exact ih b hb ha

theorem Reachable.isDefined_of_mem_bases (hu : u.Reachable) (h : a ∈ (u.definition t).bases) :
    u.isDefined a = true :=
  (hu.base_of_mem_bases h).1

/-! ## Subtyping along a line -/

/-- A type is a subtype of its ancestors. -/
theorem Reachable.isSubtype_of_mem_ancestors (hu : u.Reachable) (h : a ∈ u.ancestors t) :
    u.isSubtype t a = true := by
  refine (isSubtype_iff_conforms hu).mpr ?_
  rcases mem_ancestors_iff.mp h with rfl | h
  · exact .refl _
  · exact .of_mem_bases hu h

/-- A base is no subtype of what derives from it. -/
theorem Reachable.isSubtype_eq_false (hu : u.Reachable) (hk : u.Knows t)
    (h : a ∈ (u.definition t).bases) : u.isSubtype a t = false := by
  rw [← Bool.not_eq_true, isSubtype_iff_reaches hu]
  intro hr
  have hclass := hu.isClass_of_mem_bases h
  have hclimbs : u.Climbs a t := by
    refine (reaches_iff_climbs fun s' t' hs _ => ?_).mp hr
    simp [hs, TypeRef.isClass, TypeRef.hasKind] at hclass
  have hinterface : t.isInterface = false := by
    by_contra hi
    simp [hu.bases_of_isInterface (by simpa using hi) hk] at h
  have hne : ¬ (a = t ∨ t = .object) := by
    rintro (rfl | rfl)
    · exact hu.not_mem_bases_self a h
    · simp [definition, definition?, builtin?] at h
  have hat := (climbs_iff_of_not_isInterface hu hinterface hne).mp hclimbs
  exact hu.not_mem_ancestors_of_mem_bases h (mem_ancestors_of_mem_bases hat)

/-! ## Building a universe -/

instance decidableDeclares (u : Universe β) (d : Declaration) : Decidable (u.Declares d) :=
  decidable_of_iff ((u.entries[d.index]?.any fun e => e.kind = d.kind && e.name = d.name) = true)
    (by simp [Declares, Option.any_eq_true])

/-- Whether a reference is known can be checked. -/
def decidableKnows (u : Universe β) : (t : TypeRef) → Decidable (u.Knows t)
  | .declared d => decidableDeclares u d
  | .array t => decidableKnows u t
  | .nullable t => decidableKnows u t
  | .object | .primitive _ | .attributeRoot | .metadata => .isTrue trivial

instance (u : Universe β) : DecidablePred u.Knows := decidableKnows u

instance (u : Universe β) (b : Blueprint β) : Decidable (u.Scopes b) :=
  inferInstanceAs (Decidable (∀ t ∈ b.mentioned, u.Knows t))

/-- The universe in which the target of a blueprint is defined, if the blueprint compiles. -/
def defineBy (u : Universe β) (b : Blueprint β) : Universe β :=
  match b.compile u with
  | .ok c => u.define b.target c.definition
  | .error _ => u

theorem Reachable.defineBy (hu : u.Reachable) {b : Blueprint β} (hd : u.Declares b.target)
    (hn : u.isDefined b.self = false) (hs : u.Scopes b) (hh : b.halts u = true) :
    (u.defineBy b).Reachable := by
  unfold Universe.defineBy
  cases hc : b.compile u with
  | ok c => exact .define hu hd hn hs hh hc
  | error e => exact hu

end Reflection.Universe
