import Mathlib.Data.List.Nodup
import Mathlib.Data.List.Perm.Subperm
import Mathlib.Data.Nat.Find
import Mathlib.Logic.Relation

/-!
# Proofs/Walks — walks along a relation that lands in a list

    cycle ahead  ──walks_of_cycleAhead──▸  walks of every length
                 ◂──cycleAhead_of_walks──  a walk as long as the list

A relation whose steps all land in one list has no long walk without a repetition.  So a walk as
long as that list runs into a cycle, and whatever can be reached at all is reached within that many
steps (`within_length_iff`).
-/

namespace Reflection

variable {α : Type} {R : α → α → Prop} {l : List α} {a b c : α} {m n : ℕ}

open Relation

/-! ## Walks and cycles -/

/-- Whether a walk of so many steps starts here. -/
def Walks (R : α → α → Prop) : ℕ → α → Prop
  | 0, _ => True
  | n + 1, a => ∃ b, R a b ∧ Walks R n b

/-- Whether some walk from here comes to a place that it can come back to. -/
def CycleAhead (R : α → α → Prop) (a : α) : Prop := ∃ b, ReflTransGen R a b ∧ TransGen R b b

theorem CycleAhead.head (h : R a b) : CycleAhead R b → CycleAhead R a
  | ⟨c, hbc, hc⟩ => ⟨c, .head h hbc, hc⟩

/-- The first step of a walk towards a cycle, with the cycle still ahead. -/
theorem CycleAhead.step (h : CycleAhead R a) : ∃ b, R a b ∧ CycleAhead R b := by
  obtain ⟨c, hac, hc⟩ := h
  rcases hac.cases_head with rfl | ⟨b, hab, hbc⟩
  · obtain ⟨b, hab, hba⟩ := TransGen.head'_iff.mp hc
    exact ⟨b, hab, a, hba, hc⟩
  · exact ⟨b, hab, c, hbc, hc⟩

theorem cycleAhead_iff_step : CycleAhead R a ↔ ∃ b, R a b ∧ CycleAhead R b :=
  ⟨CycleAhead.step, fun ⟨_, hab, hb⟩ => hb.head hab⟩

/-- **Towards a cycle there are walks of every length.** -/
theorem walks_of_cycleAhead (h : CycleAhead R a) : ∀ n, Walks R n a := by
  intro n
  induction n generalizing a with
  | zero => trivial
  | succ n ih =>
    obtain ⟨b, hab, hb⟩ := h.step
    exact ⟨b, hab, ih hb⟩

/-- Without a cycle ahead, a walk never comes to the same place twice. -/
theorem exists_nodup_of_walks (hc : ¬ CycleAhead R a) (h : Walks R n a) :
    ∃ l : List α, l.length = n ∧ l.Nodup ∧ ∀ x ∈ l, TransGen R a x := by
  induction n generalizing a with
  | zero => exact ⟨[], rfl, List.nodup_nil, by simp⟩
  | succ n ih =>
    obtain ⟨b, hab, hb⟩ := h
    obtain ⟨l, hlen, hnd, hl⟩ := ih (fun hb => hc (hb.head hab)) hb
    refine ⟨b :: l, by rw [List.length_cons, hlen], List.nodup_cons.mpr ⟨fun hbl => ?_, hnd⟩, ?_⟩
    · exact hc ⟨b, .single hab, hl b hbl⟩
    · intro x hx
      rcases List.mem_cons.mp hx with rfl | hx
      · exact .single hab
      · exact .head hab (hl x hx)

/-! ## Relations that agree where a walk can come to -/

section Agree

variable {R' : α → α → Prop} (h : ∀ x, ReflTransGen R a x → ∀ y, R' x y ↔ R x y)

include h

theorem reflTransGen_congr : ReflTransGen R' a b ↔ ReflTransGen R a b := by
  constructor
  · intro hab
    induction hab with
    | refl => exact .refl
    | tail _ hbc ih => exact ih.tail ((h _ ih _).mp hbc)
  · intro hab
    induction hab with
    | refl => exact .refl
    | tail hab hbc ih => exact ih.tail ((h _ hab _).mpr hbc)

theorem transGen_congr : TransGen R' a b ↔ TransGen R a b := by
  simp only [TransGen.tail'_iff, reflTransGen_congr h]
  exact exists_congr fun c => and_congr_right fun hac => h c hac b

theorem cycleAhead_congr : CycleAhead R' a ↔ CycleAhead R a := by
  unfold CycleAhead
  refine exists_congr fun b => ?_
  rw [reflTransGen_congr h]
  exact and_congr_right fun hab => transGen_congr fun x hbx => h x (hab.trans hbx)

end Agree

section Finite

variable (hR : ∀ {a b}, R a b → b ∈ l)

include hR

theorem mem_of_transGen (h : TransGen R a b) : b ∈ l := by
  obtain ⟨_, -, hb⟩ := TransGen.tail'_iff.mp h
  exact hR hb

/-- **A walk as long as the list, from a place of the list, runs into a cycle.** -/
theorem cycleAhead_of_walks (ha : a ∈ l) (h : Walks R l.length a) : CycleAhead R a := by
  by_contra hc
  obtain ⟨k, hlen, hnd, hk⟩ := exists_nodup_of_walks hc h
  have hcons : (a :: k).Nodup :=
    List.nodup_cons.mpr ⟨fun hak => hc ⟨a, .refl, hk a hak⟩, hnd⟩
  have hsub : a :: k ⊆ l := List.cons_subset.mpr ⟨ha, fun x hx => mem_of_transGen hR (hk x hx)⟩
  have := (List.subperm_of_subset hcons hsub).length_le
  rw [List.length_cons] at this
  omega

/-- The same from anywhere, with one step more. -/
theorem walks_succ_iff_cycleAhead : Walks R (l.length + 1) a ↔ CycleAhead R a := by
  refine ⟨fun ⟨b, hab, hb⟩ => ?_, fun h => walks_of_cycleAhead h _⟩
  exact (cycleAhead_of_walks hR (hR hab) hb).head hab

end Finite

/-! ## What is reached within so many steps -/

/-- Whether a place is reached by at least one and at most so many steps. -/
def Within (R : α → α → Prop) : ℕ → α → α → Prop
  | 0, _, _ => False
  | n + 1, a, b => ∃ c, R a c ∧ (c = b ∨ Within R n c b)

theorem Within.mono (h : Within R m a b) (hmn : m ≤ n) : Within R n a b := by
  induction m generalizing n a with
  | zero => exact h.elim
  | succ m ih =>
    obtain ⟨k, rfl⟩ : ∃ k, n = k + 1 := ⟨n - 1, by omega⟩
    obtain ⟨c, hac, hc⟩ := h
    exact ⟨c, hac, hc.imp_right fun hc => ih hc (by omega)⟩

theorem Within.transGen (h : Within R n a b) : TransGen R a b := by
  induction n generalizing a with
  | zero => exact h.elim
  | succ n ih =>
    obtain ⟨c, hac, rfl | hc⟩ := h
    · exact .single hac
    · exact .head hac (ih hc)

theorem exists_within (h : TransGen R a b) : ∃ n, Within R n a b := by
  induction h using TransGen.head_induction_on with
  | single h => exact ⟨1, _, h, .inl rfl⟩
  | head h _ ih =>
    obtain ⟨n, hn⟩ := ih
    exact ⟨n + 1, _, h, .inr hn⟩

/-- A place that is `n + 1` steps away and no nearer is led to by `n + 1` different places. -/
theorem exists_nodup_of_within (hR : ∀ {a b}, R a b → b ∈ l) (h : Within R (n + 1) a b)
    (hn : ¬ Within R n a b) :
    ∃ k : List α, k.length = n + 1 ∧ k.Nodup ∧ k ⊆ l ∧ ∀ x ∈ k, x = b ∨ Within R n x b := by
  induction n generalizing a with
  | zero =>
    obtain ⟨c, hac, rfl | hc⟩ := h
    · exact ⟨[c], rfl, List.nodup_singleton c, by simpa using hR hac, by simp⟩
    · exact hc.elim
  | succ n ih =>
    obtain ⟨c, hac, hc⟩ := h
    have hcb : c ≠ b := fun hcb => hn ⟨c, hac, .inl hcb⟩
    have hfar : ¬ Within R n c b := fun hc => hn ⟨c, hac, .inr hc⟩
    have hnear : Within R (n + 1) c b := hc.resolve_left hcb
    obtain ⟨k, hlen, hnd, hkl, hk⟩ := ih hnear hfar
    refine ⟨c :: k, by rw [List.length_cons, hlen], List.nodup_cons.mpr ⟨fun hck => ?_, hnd⟩,
      List.cons_subset.mpr ⟨hR hac, hkl⟩, fun x hx => ?_⟩
    · exact (hk c hck).elim hcb hfar
    · rcases List.mem_cons.mp hx with rfl | hx
      · exact .inr hnear
      · exact (hk x hx).imp_right fun hx => hx.mono n.le_succ

/-- **What is reached at all is reached within as many steps as the list is long.** -/
theorem within_length_iff (hR : ∀ {a b}, R a b → b ∈ l) :
    Within R l.length a b ↔ TransGen R a b := by
  refine ⟨Within.transGen, fun h => ?_⟩
  classical
  have hex : ∃ n, Within R n a b := exists_within h
  obtain ⟨n, hn⟩ : ∃ n, Nat.find hex = n + 1 :=
    Nat.exists_eq_succ_of_ne_zero fun h0 => by simpa [h0, Within] using Nat.find_spec hex
  have hfar : ¬ Within R n a b := Nat.find_min hex (by omega)
  have hnear : Within R (n + 1) a b := hn ▸ Nat.find_spec hex
  obtain ⟨k, hlen, hnd, hkl, -⟩ := exists_nodup_of_within hR hnear hfar
  have := (List.subperm_of_subset hnd hkl).length_le
  exact hnear.mono (by omega)

end Reflection
