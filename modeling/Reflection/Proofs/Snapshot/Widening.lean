import Reflection.Member.FilterText
import Reflection.Proofs.Snapshot.MostDerived
import Reflection.Proofs.Snapshot.Overloads

/-!
# Proofs/Snapshot/Widening — what a wider filter does to a snapshot

    narrow filter  ──WidensTo──▸  wide filter
         │ collect                     │ collect
         ▾                             ▾
       listing   ──subset────────▸  listing
         │ build                       │ build
         ▾                             ▾
       x ↦ a     ──BindsBelow────▸  x ↦ b,   b declared at or below a

A wider filter lists more, and what it lists more may hide what the narrow one has bound.  So a
snapshot does not grow with its filter.  But a name stands for the most derived member of it that is
listed, and a signature for the most derived method; hence a name or a signature stays, and what it
is bound to moves down the line or not at all.
-/

namespace Reflection

variable {β : Type}

namespace MemberFilter

variable {f g : MemberFilter}

/-- **Whether one filter is as wide as another**: it has every flag of it, and stops at the type
itself only if the other one does. -/
def WidensTo (f g : MemberFilter) : Prop :=
  g.includes { f with declaredOnly := false } = true ∧ (g.declaredOnly = true → f.declaredOnly = true)

instance : Decidable (f.WidensTo g) := inferInstanceAs (Decidable (_ ∧ _))

theorem includes_iff : g.includes f = true ↔ (f.publics → g.publics) ∧
    (f.nonPublics → g.nonPublics) ∧ (f.instances → g.instances) ∧ (f.statics → g.statics) ∧
    (f.declaredOnly → g.declaredOnly) ∧ (f.flatten → g.flatten) := by
  obtain ⟨_, _, _, _, _, _⟩ := g
  simp [includes, union, imp_iff_not_or]

namespace WidensTo

variable {μ : Type} [Member μ] {m : μ}

theorem admits (h : f.WidensTo g) {v : Visibility} (hv : f.admits v = true) :
    g.admits v = true := by
  obtain ⟨hpublics, hnonPublics, -⟩ := includes_iff.mp h.1
  rw [MemberFilter.admits] at hv ⊢
  split at hv
  · next hp => rw [if_pos hp]; exact hpublics hv
  · next hp => rw [if_neg hp]; exact hnonPublics hv

theorem admitsBinding (h : f.WidensTo g) {isStatic : Bool} (hs : f.admitsBinding isStatic = true) :
    g.admitsBinding isStatic = true := by
  obtain ⟨-, -, hinstances, hstatics, -⟩ := includes_iff.mp h.1
  cases isStatic with
  | false => exact hinstances hs
  | true => exact hstatics hs

theorem takesOwn (h : f.WidensTo g) (hm : f.takesOwn m = true) : g.takesOwn m = true := by
  obtain ⟨hv, hs⟩ := Bool.and_eq_true_iff.mp hm
  exact Bool.and_eq_true_iff.mpr ⟨h.admits hv, h.admitsBinding hs⟩

theorem takesInherited (h : f.WidensTo g) (hm : f.takesInherited m = true) :
    g.takesInherited m = true := by
  obtain ⟨-, -, -, -, -, hflatten⟩ := includes_iff.mp h.1
  simp only [MemberFilter.takesInherited, Bool.and_eq_true, Bool.or_eq_true] at hm ⊢
  obtain ⟨⟨hprivate, hstatic⟩, hown⟩ := hm
  exact ⟨⟨hprivate, hstatic.imp_right hflatten⟩, h.takesOwn hown⟩

/-- **A wider filter lists all that the narrow one lists**, along any line. -/
theorem collect_subset (h : f.WidensTo g) (declared : TypeRef → List μ) (line : List TypeRef) :
    f.collect declared line ⊆ g.collect declared line := by
  intro m hm
  cases line with
  | nil => exact hm
  | cons t bases =>
    rcases mem_collect.mp hm with ⟨ht, hown⟩ | ⟨honly, b, hb, hmb, htaken⟩
    · exact mem_collect.mpr (.inl ⟨ht, h.takesOwn hown⟩)
    · have honly' : g.declaredOnly = false :=
        Bool.eq_false_iff.mpr fun hg => Bool.eq_false_iff.mp honly (h.2 hg)
      exact mem_collect.mpr (.inr ⟨honly', b, hb, hmb, h.takesInherited htaken⟩)

end WidensTo

end MemberFilter

namespace Universe

variable {u : Universe β} {t : TypeRef} {f g : MemberFilter}

/-- **A snapshot that has all names and signatures of another one**, each bound to a declaration of
the same type or of a type derived from it. -/
structure BindsBelow (u : Universe β) (narrow wide : Snapshot β) : Prop where
  /-- Every name of a field or a property is bound in both. -/
  accessor : ∀ kind name a, (narrow.collection kind).get? name = some a →
    ∃ b, (wide.collection kind).get? name = some b ∧ a.declaring ∈ u.ancestors b.declaring
  /-- Every signature of a method has one overload in both. -/
  overload : ∀ name, ∀ m ∈ narrow.methods.overloads name,
    ∃ k, (wide.methods.overloads name).filter (fun l => l.signature = m.signature) = [k] ∧
      m.declaring ∈ u.ancestors k.declaring

/-- **Widening a filter loses nothing and binds further down**: in every reachable universe, the
snapshot of a known type under a filter keeps all its names and signatures when the filter gets
wider, and each is bound where it was or further down the line. -/
theorem Reachable.widened_binds_below (hu : u.Reachable) (hk : u.Knows t) (h : f.WidensTo g) :
    u.BindsBelow (Snapshot.build .reflector u t f) (Snapshot.build .reflector u t g) where
  accessor kind name a ha := by
    have hbinds (f : MemberFilter) : u.BindsMostDerived kind f t
        ((Snapshot.build .reflector u t f).collection kind) := by
      rw [Snapshot.collection_build]
      exact hu.bindsMostDerived hk fun _ => hu.mem_accessors_iff hk
    obtain ⟨hshown, hname, -⟩ := ((hbinds f).get?_iff name a).mp ha
    have hwide : u.Shows kind g t a := by
      rw [← hu.mem_accessors_iff hk, Provider.accessors_reflector] at hshown ⊢
      exact h.collect_subset _ _ hshown
    obtain ⟨b, hb⟩ := Option.isSome_iff_exists.mp
      (((hbinds g).contains_iff name).mpr ⟨a, hwide, hname⟩)
    obtain ⟨-, -, hbelow⟩ := ((hbinds g).get?_iff name b).mp hb
    exact ⟨b, hb, hbelow a hwide hname⟩
  overload name m hm := by
    have htable := tabulates_snapshot Provider.keepsToLine_reflector
      Provider.mostDerivedFirst_reflector hu hk
    obtain ⟨⟨hlisted, -⟩, rfl⟩ := ((htable f).mem_overloads_iff name m).mp hm
    have hwide : m ∈ Provider.reflector.methods u t g :=
      h.collect_subset u.methods (u.ancestors t) hlisted
    obtain ⟨k, ⟨-, hbelow⟩, hkept⟩ := (htable g).kept_once m hwide
    have hsig : k.signature = m.signature := by
      have hk' : k ∈ [k] := List.mem_singleton_self k
      rw [← hkept] at hk'
      simpa using (List.mem_filter.mp hk').2
    exact ⟨k, hkept, hbelow m hwide hsig.symm⟩

/-- Two classes with a field and a method of the same names, public ones above and private ones
below. -/
def shadowingClasses : Universe ℕ :=
  (((empty.declare .classType "A").declare .classType "B").defineBy
    { Blueprint.start ⟨0, .classType, "A"⟩ with
      fields := [{ name := "x", type := .primitive .i32 }]
      methods := [{ name := "f", body := 1 }] }).defineBy
    { Blueprint.start ⟨1, .classType, "B"⟩ with
      extends? := some (.declared ⟨0, .classType, "A"⟩)
      fields := [{ name := "x", type := .primitive .i32, visibility := .ownType }]
      methods := [{ name := "f", visibility := .ownType, body := 2 }] }

theorem reachable_shadowingClasses : shadowingClasses.Reachable :=
  .defineBy (.defineBy (.declare _ _ (.declare _ _ .empty)) (by decide) rfl (by decide) rfl)
    (by decide) rfl (by decide) rfl

/-- With the private members, the name and the signature are bound one class further down. -/
theorem widened_binds_below_shadowingClasses :
    shadowingClasses.BindsBelow
        (Snapshot.build .reflector shadowingClasses (.declared ⟨1, .classType, "B"⟩) .standard)
        (Snapshot.build .reflector shadowingClasses (.declared ⟨1, .classType, "B"⟩) .all) ∧
      [MemberFilter.standard, .all].map (fun f =>
        let s := Snapshot.build .reflector shadowingClasses (.declared ⟨1, .classType, "B"⟩) f
        (s.fields.members.map fun a => a.declaring.name,
          s.methods.overloads "f" |>.map fun m => m.body)) = [(["A"], [1]), (["B"], [2])] :=
  ⟨reachable_shadowingClasses.widened_binds_below (t := .declared ⟨1, .classType, "B"⟩)
    (by decide) (by decide), by decide⟩

end Universe

end Reflection
