import Reflection.Proofs.Universe.Lines
import Reflection.Proofs.Universe.SearchEnds
import Reflection.Proofs.World.Typing

/-!
# Proofs/Universe/Open — which answers about types are still open

    ¬ Open s t  ──settled_of_not_open──▸  every universe that extends this one gives the same answer

A base is defined before it is derived from, but an interface may be named before it is defined.  So
an answer about defined types is still open where the search for an interface comes to one that is
not defined: that one may come to name what is looked for, or to name itself.  Answers about arrays
are open where those about their elements are, and elements need not be defined at all.
-/

namespace Reflection.Universe

open Relation

variable {β : Type} {u v : Universe β} {s t x y : TypeRef} {c : Bool}

/-- Whether a type may still become a base, as far as is known. -/
def MayBeBase (u : Universe β) (t : TypeRef) : Prop :=
  t.isClass = true ∧ (u.flags t).isSealed = false ∧ (u.flags t).isStatic = false

/-- **Whether an answer is still open**: the search for an interface comes to a type that is not
defined yet, or it is not settled yet whether a class derives from another. -/
def Open (u : Universe β) : TypeRef → TypeRef → Prop
  | .array s, .array t => s.isReferenceType = true ∧ Open u s t
  | s, t => s ≠ t ∧
      (t.isInterface = true ∧ (∃ x, ReflTransGen (u.Enters t) s x ∧ u.isDefined x = false) ∨
        t ≠ .object ∧ u.MayBeBase t ∧ s.isClass = true ∧ u.isDefined s = false)

/-! ## What an answer depends on -/

/-- The search has an answer unless it runs into a circle, and then the right one. -/
theorem isSubtype?_eq_some_iff (hu : u.Reachable) :
    u.isSubtype? s t = some c ↔ ¬ u.Loops s t ∧ (c = true ↔ u.Conforms s t) := by
  constructor
  · intro h
    refine ⟨fun hl => ?_, (searchSubtype_eq_some hu h).trans (conforms_iff_reaches hu).symm⟩
    simp [isSubtype?, searchSubtype_eq_none_of_loops hu hl] at h
  · rintro ⟨hl, hc⟩
    obtain ⟨d, hd⟩ := Option.ne_none_iff_exists'.mp (mt (loops_of_isSubtype?_eq_none hu) hl)
    rw [hd, Option.some.injEq, Bool.eq_iff_iff, hc, conforms_iff_reaches hu]
    exact searchSubtype_eq_some hu hd

theorem isSubtype?_congr (hu : u.Reachable) (hv : v.Reachable) (hl : v.Loops s t ↔ u.Loops s t)
    (hc : v.Conforms s t ↔ u.Conforms s t) : v.isSubtype? s t = u.isSubtype? s t :=
  Option.ext fun c => by simp only [isSubtype?_eq_some_iff hu, isSubtype?_eq_some_iff hv, hl, hc]

theorem conforms_array_iff (hu : u.Reachable) :
    u.Conforms (.array s) (.array t) ↔ s = t ∨ s.isReferenceType = true ∧ u.Conforms s t := by
  rw [conforms_iff_reaches hu, conforms_iff_reaches hu, reaches_array_iff hu]

/-- What a search looks at first is above the type. -/
theorem conforms_of_named (hu : u.Reachable) (h : y ∈ u.named x) : u.Conforms x y := by
  obtain ⟨a, ha, hy⟩ := List.mem_flatMap.mp h
  rcases mem_ancestors_iff.mp ha with rfl | ha
  · exact .interface hy
  · exact .trans (.of_mem_bases hu ha) (.interface hy)

theorem conforms_of_entered (hu : u.Reachable) (h : ReflTransGen (u.Enters t) s x) :
    u.Conforms s x := by
  induction h with
  | refl => exact .refl s
  | tail _ h ih => exact ih.trans (conforms_of_named hu h.mem_named)

/-- An interface is reached by looking at names only. -/
theorem conforms_iff_named (hu : u.Reachable) (ht : t.isInterface = true) (hst : s ≠ t) :
    u.Conforms s t ↔ TransGen (fun x y => y ∈ u.named x) s t := by
  constructor
  · intro h
    rw [conforms_iff_reaches hu, reaches_iff_climbs (not_arrays_of_isInterface ht),
      climbs_iff_of_isInterface hu ht hst] at h
    obtain ⟨a, ha, h⟩ := h
    have named {x y : TypeRef} (h : u.Names x y) : y ∈ u.named x :=
      List.mem_flatMap.mpr ⟨x, mem_ancestors_self u x, h⟩
    obtain ⟨j, haj, hjt⟩ := TransGen.head'_iff.mp h
    exact .head' (List.mem_flatMap.mpr ⟨a, ha, haj⟩) (.mono (fun _ _ => named) _ _ hjt)
  · intro h
    clear ht hst
    induction h with
    | single h => exact conforms_of_named hu h
    | tail _ h ih => exact ih.trans (conforms_of_named hu h)

/-! ## What is settled stays settled -/

/-- Nothing is added above a type once it is defined: its bases are defined too. -/
theorem Extends.named_eq (h : u.Extends v) (hu : u.Reachable) (hx : u.isDefined x = true) :
    v.named x = u.named x := by
  rw [named, named, ancestors, ancestors, h.definition_eq hx]
  refine List.flatMap_congr fun a ha => ?_
  rw [interfaces, interfaces, h.definition_eq]
  rcases List.mem_cons.mp ha with rfl | ha
  · exact hx
  · exact hu.isDefined_of_mem_bases ha

section Settled

variable (hu : u.Reachable) (hv : v.Reachable) (huv : u.Extends v) (ht : t.isInterface = true)
  (hdefined : ∀ x, ReflTransGen (u.Enters t) s x → u.isDefined x = true)

include hu hv huv ht hdefined

/-- Where the search from a type comes to defined types only, no interface is added. -/
theorem conforms_of_later (h : v.Conforms s t) : u.Conforms s t := by
  by_cases hst : s = t
  · exact hst ▸ .refl s
  rw [conforms_iff_named hv ht hst] at h
  induction h using TransGen.head_induction_on with
  | single h =>
    rw [huv.named_eq hu (hdefined _ .refl)] at h
    exact conforms_of_named hu h
  | @head s y h _ ih =>
    rw [huv.named_eq hu (hdefined _ .refl)] at h
    by_contra hn
    -- nothing that the type names leads to the target, so the search looks into every name
    have before {z : TypeRef} (hz : z ∈ u.named s) : ¬ u.Conforms z t := fun hzt =>
      hn ((conforms_of_named hu hz).trans hzt)
    have hyt : y ≠ t := fun hyt => before h (hyt ▸ .refl y)
    obtain ⟨front, back, hs⟩ := List.append_of_mem h
    have henters : u.Enters t s y := ⟨front, back, hs, hyt, fun z hz => before (by simp [hs, hz])⟩
    exact before h (ih (fun x hx => hdefined x (.head henters hx)) hyt)

theorem conforms_later_iff : v.Conforms s t ↔ u.Conforms s t :=
  ⟨conforms_of_later hu hv huv ht hdefined, .mono huv⟩

/-- There the search goes the same ways. -/
theorem enters_later_iff (y : TypeRef) : v.Enters t s y ↔ u.Enters t s y := by
  unfold Enters
  rw [huv.named_eq hu (hdefined _ .refl)]
  refine exists_congr fun front => exists_congr fun back => and_congr_right fun hs =>
    and_congr_right fun hyt => ?_
  refine ⟨fun h z hz hzt => h z hz (hzt.mono huv), fun h z hz hzt => ?_⟩
  -- the names before have been looked into as well
  obtain ⟨front', back', rfl⟩ := List.append_of_mem hz
  have henters : u.Enters t s z := by
    refine ⟨front', back' ++ y :: back, by simpa using hs, ?_, fun w hw => h w (by simp [hw])⟩
    rintro rfl
    exact h z hz (.refl z)
  exact h z hz
    (conforms_of_later hu hv huv ht (fun x hx => hdefined x (.head henters hx)) hzt)

end Settled

/-- Only a class that is not defined yet can get another base. -/
theorem mem_bases_later_iff (hv : v.Reachable) (huv : u.Extends v) (hs : u.Knows s)
    (hclosed : ¬ (u.MayBeBase t ∧ s.isClass = true ∧ u.isDefined s = false)) :
    t ∈ (v.definition s).bases ↔ t ∈ (u.definition s).bases := by
  by_cases hds : u.isDefined s = true
  · rw [huv.definition_eq hds]
  refine ⟨fun h => (hclosed ⟨⟨hv.isClass_of_mem_bases h, ?_⟩, ?_, by simpa using hds⟩).elim,
    fun h => ?_⟩
  · -- what is a base later on has its flags already, if it is defined
    obtain ⟨-, hflags⟩ := hv.base_of_mem_bases h
    by_cases hdt : u.isDefined t = true
    · rwa [flags, huv.definition_eq hdt] at hflags
    · simp_all [flags, definition, isDefined]
  · obtain ⟨b, hb, -⟩ := hv.mem_bases h
    rcases hv.base?_cases hb with ⟨-, hbuiltin, -⟩ | ⟨w, x, d, -, hx, -, -, hself⟩
    · cases s <;> simp_all [isDefined, definition?, builtin?]
    · rw [hself (huv.knows hs)]
      exact (Blueprint.mayDerive_of_resolveBase hx).self_isClass
  · rw [huv.definition_of_mem Definition.bases rfl h]
    exact h

/-- **What is not open is settled.** -/
theorem settled_of_not_open (hu : u.Reachable) (hv : v.Reachable) (huv : u.Extends v)
    (hs : u.Knows s) (h : ¬ u.Open s t) :
    (v.Loops s t ↔ u.Loops s t) ∧ (v.Conforms s t ↔ u.Conforms s t) := by
  fun_induction Open u s t with
  | case1 s t ih =>
    simp only [Loops, conforms_array_iff hu, conforms_array_iff hv]
    by_cases href : s.isReferenceType = true
    · obtain ⟨hloops, hconforms⟩ := ih hs fun ho => h ⟨href, ho⟩
      simp [href, hloops, hconforms]
    · simp [href]
  | case2 s t harr =>
    by_cases hst : s = t
    · subst hst
      exact ⟨iff_of_false (not_loops_self s) (not_loops_self s), iff_of_true (.refl s) (.refl s)⟩
    simp only [not_and, not_or] at h
    obtain ⟨hinterface, hclass⟩ := h hst
    rw [loops_iff harr, loops_iff harr]
    by_cases ht : t.isInterface = true
    · have hdefined {x : TypeRef} (hx : ReflTransGen (u.Enters t) s x) : u.isDefined x = true := by
        by_contra hn
        exact hinterface ht ⟨x, hx, by simpa using hn⟩
      refine ⟨?_, conforms_later_iff hu hv huv ht fun x => hdefined⟩
      rw [cycleAhead_congr fun x hx y =>
        enters_later_iff hu hv huv ht (fun z hz => hdefined (hx.trans hz)) y]
    · refine ⟨by simp [ht], ?_⟩
      by_cases hobj : t = .object
      · subst hobj
        exact iff_of_true (.object s) (.object s)
      have hne : ¬ (s = t ∨ t = .object) := not_or.mpr ⟨hst, hobj⟩
      rw [conforms_iff_reaches hu, conforms_iff_reaches hv, reaches_iff_climbs harr,
        reaches_iff_climbs harr, climbs_iff_of_not_isInterface hu (by simpa using ht) hne,
        climbs_iff_of_not_isInterface hv (by simpa using ht) hne]
      refine mem_bases_later_iff hv huv hs ?_
      rintro ⟨hb, hc, hd⟩
      exact hclass hobj hb hc hd

end Reflection.Universe
