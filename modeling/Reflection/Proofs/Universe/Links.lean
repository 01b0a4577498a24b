import Reflection.Attribute.Target
import Reflection.Proofs.Universe.Overrides
import Reflection.Proofs.Universe.Steps

/-!
# Proofs/Universe/Links — links of inheritance lead upwards and end

A type is linked to its base, an override to what it overrides.  A base is defined before anything
derives from it, and an override is built from what a search along the line of bases finds; so links
lead strictly upwards along that line.  Following them therefore ends (`Unfolds.wellFounded`), what
it comes to is what the ancestors of a type and the lineage of an attribute target list, and
overriding is a strict order, the closure of the links (`Reachable.overrides_iff_transGen`).
-/

namespace Reflection

open Relation

variable {β : Type}

/-! ## Following links -/

/-- Whether a walk lists a place and then all that following links from it comes to. -/
def Unfolds {α : Type} (next : α → Option α) (walk : α → List α) : Prop :=
  ∀ a, walk a = a :: ((next a).map walk).getD []

/-- **Links that a walk follows to the end are well-founded**: every link makes the walk shorter. -/
theorem Unfolds.wellFounded {α : Type} {next : α → Option α} {walk : α → List α}
    (h : Unfolds next walk) : WellFounded fun b a => next a = some b := by
  refine Subrelation.wf (fun {b a} hab => ?_) (measure fun a => (walk a).length).wf
  change (walk b).length < (walk a).length
  rw [h a, hab]
  exact Nat.lt_succ_self _

/-- The declaration that a property overrides directly. -/
def Property.parent? (p : Property β) : Option (Property β) :=
  match p.overridden with
  | [] => none
  | q :: qs => some { q with overridden := qs }

/-- The declaration that a target inherits attributes from directly. -/
def AttributeTarget.parent? (u : Universe β) : AttributeTarget β → Option (AttributeTarget β)
  | .type t => (u.base? t).map .type
  | .property p => p.parent?.map .property
  | .method m => m.parent?.map .method
  | .field _ | .constructor _ => none

/-! ## Overridden methods -/

namespace Method

variable {m n : Method β} {d : MethodDecl β}

/-- Whether a method overrides another one directly. -/
def Continues (m n : Method β) : Prop := m.parent? = some n

theorem continues_iff : m.Continues n ↔ m.overridden = n.toMethodDecl :: n.overridden := by
  unfold Continues parent?
  cases h : m.overridden with
  | nil => simp
  | cons d ds =>
    obtain ⟨e, es⟩ := n
    simp

/-- What a method overrides is what its links lead to. -/
theorem mem_overridden_iff :
    d ∈ m.overridden ↔ ∃ n, n.toMethodDecl = d ∧ TransGen Continues m n := by
  induction hl : m.overridden generalizing m with
  | nil =>
    refine iff_of_false List.not_mem_nil ?_
    rintro ⟨n, -, h⟩
    obtain ⟨k, hk, -⟩ := TransGen.head'_iff.mp h
    simp [continues_iff, hl] at hk
  | cons e es ih =>
    have hfirst : m.Continues { e with overridden := es } := continues_iff.mpr hl
    rw [List.mem_cons, ih (m := { e with overridden := es }) rfl]
    constructor
    · rintro (rfl | ⟨n, hn, h⟩)
      · exact ⟨_, rfl, .single hfirst⟩
      · exact ⟨n, hn, .head hfirst h⟩
    · rintro ⟨n, rfl, h⟩
      obtain ⟨k, hk, hkn⟩ := TransGen.head'_iff.mp h
      obtain rfl := Option.some.inj (hfirst.symm.trans hk)
      rcases reflTransGen_iff_eq_or_transGen.mp hkn with rfl | hkn
      · exact .inl rfl
      · exact .inr ⟨n, rfl, hkn⟩

end Method

namespace Universe

variable {u v w : Universe β} {t a : TypeRef} {m n k : Method β} {p q : Property β}

/-! ## Bases -/

/-- **At the step that gives a type its base, the base is defined already.** -/
theorem Step.isDefined_base (h : v.Step w) (hn : v.isDefined t = false) (ha : w.base? t = some a) :
    v.isDefined a = true := by
  have hnone : v.base? t = none := by rw [base?, definition_of_not_isDefined hn]; rfl
  cases h with
  | declare _ _ =>
    rw [base?, definition_declare, ← base?, hnone] at ha
    simp at ha
  | @define b c hd _ _ _ hc =>
    rcases definition_define_cases hd c.definition t with ⟨_, -, -, hx⟩ | ⟨-, hx⟩
    · obtain ⟨base?, hp⟩ := Blueprint.exists_passes hc
      rw [Universe.base?, hx] at ha
      obtain rfl := hp.eq_some_of_head? ha
      exact (Blueprint.mayDerive_of_resolveBase hp.resolve).isDefined
    · rw [base?, hx, ← base?, hnone] at ha
      simp at ha

/-- The ancestors of a type are what following bases comes to. -/
theorem Reachable.unfolds_ancestors (hu : u.Reachable) : Unfolds u.base? u.ancestors := by
  intro t
  rw [ancestors]
  cases hb : u.base? t with
  | none => rw [bases_eq_nil hb]; rfl
  | some a => rw [hu.bases_eq hb]; rfl

/-- The lineage of an attribute target is what following its links comes to. -/
theorem Reachable.unfolds_lineage (hu : u.Reachable) :
    Unfolds (AttributeTarget.parent? u) (AttributeTarget.lineage u) := by
  intro target
  cases target with
  | type t =>
    rw [AttributeTarget.lineage, hu.unfolds_ancestors t, AttributeTarget.parent?]
    cases u.base? t <;> rfl
  | property p =>
    rw [AttributeTarget.lineage, AttributeTarget.parent?, Property.parent?]
    cases p.overridden <;> rfl
  | method m =>
    rw [AttributeTarget.lineage, AttributeTarget.parent?, Method.parent?]
    cases m.overridden <;> rfl
  | field f => rfl
  | constructor c => rfl

/-! ## Overriding -/

/-- The methods and accessors of the known types. -/
def IsCallable (u : Universe β) (m : Method β) : Prop := ∃ t, u.Knows t ∧ m ∈ u.callables t

theorem Above.isCallable (hu : u.Reachable) (h : u.Above m n) : u.IsCallable n :=
  ⟨n.declaring, hu.knows_of_mem_bases h.mem_bases, (mem_ownCallables.mp h.own).1⟩

theorem Above.trans (hu : u.Reachable) (h : u.Above m n) (h' : u.Above n k) : u.Above m k where
  own := h'.own
  mem_bases := hu.mem_bases_of_mem_ancestors h.mem_bases (mem_ancestors_of_mem_bases h'.mem_bases)
  heading := h'.heading.trans h.heading
  root := h'.root.trans h.root
  isVirtual := h'.isVirtual
  isStatic := h'.isStatic

/-- **A link leads strictly upwards**, to a virtual instance callable of the same heading. -/
theorem Reachable.above_of_continues (hu : u.Reachable) (hm : u.IsCallable m)
    (h : m.Continues n) : u.Above m n := by
  obtain ⟨t, hk, hm⟩ := hm
  rw [Method.continues_iff] at h
  induction t using hu.bases_induction with
  | step t ih =>
    cases hu.linked hk hm with
    | starts own chain => simp [chain] at h
    | continues s n' own hn heading chain =>
      obtain rfl : n' = n := by
        obtain ⟨hdecl, hrest⟩ := List.cons_eq_cons.mp (chain.symm.trans h)
        cases n'
        cases n
        simp_all
      obtain ⟨hnown, hns⟩ :=
        hu.mem_ownCallables_declaring (hu.knows_of_mem_bases hn.mem_bases) hn.mem_callables
      refine ⟨hnown, ?_, heading, (Method.root_of_overriding chain).symm, hn.isVirtual, hn.isStatic⟩
      rw [own]
      exact hu.mem_bases_of_mem_ancestors hn.mem_bases hns
    | inherits s hs =>
      exact ih s hs.mem_bases (hu.knows_of_mem_bases hs.mem_bases) hs.mem_callables

theorem Reachable.above_of_transGen (hu : u.Reachable) (hm : u.IsCallable m)
    (h : TransGen Method.Continues m n) : u.Above m n := by
  induction h with
  | single h => exact hu.above_of_continues hm h
  | tail _ h ih => exact ih.trans hu (hu.above_of_continues (ih.isCallable hu) h)

/-- **Overriding is the closure of the links.** -/
theorem Reachable.overrides_iff_transGen (hu : u.Reachable) (hm : u.IsCallable m)
    (hn : u.IsCallable n) : m.overrides n = true ↔ TransGen Method.Continues m n := by
  rw [Method.overrides_iff]
  constructor
  · rintro ⟨d, hd, hid⟩
    obtain ⟨k, rfl, hk⟩ := Method.mem_overridden_iff.mp hd
    have habove := hu.above_of_transGen hm hk
    obtain ⟨t, hkt, hn⟩ := hn
    have hdecl : k.declaring = n.declaring := congrArg MemberId.declaring hid
    have hown := (hu.mem_ownCallables_declaring hkt hn).1
    obtain rfl := hu.eq_of_id (hu.knows_of_mem_bases habove.mem_bases) habove.own
      (hdecl ▸ hown) hid
    exact hk
  · exact fun h => ⟨n.toMethodDecl, Method.mem_overridden_iff.mpr ⟨n, rfl, h⟩, rfl⟩

theorem Reachable.not_overrides_self (hu : u.Reachable) (hm : u.IsCallable m) :
    m.overrides m = false := by
  refine eq_false_of_ne_true fun h => ?_
  have habove := hu.above_of_transGen hm ((hu.overrides_iff_transGen hm hm).mp h)
  exact hu.not_mem_bases_self _ habove.mem_bases

theorem Reachable.overrides_trans (hu : u.Reachable) (hm : u.IsCallable m) (hn : u.IsCallable n)
    (hk : u.IsCallable k) (hmn : m.overrides n = true) (hnk : n.overrides k = true) :
    m.overrides k = true := by
  rw [hu.overrides_iff_transGen hm hn] at hmn
  rw [hu.overrides_iff_transGen hn hk] at hnk
  exact (hu.overrides_iff_transGen hm hk).mpr (hmn.trans hnk)

/-! ## Where links lead -/

/-- The link of a method leads to a virtual instance method of its signature, above the type. -/
theorem Reachable.method_link (hu : u.Reachable) (hk : u.Knows t) (hm : m ∈ u.methods t)
    (h : m.parent? = some n) :
    ∃ a ∈ (u.definition t).bases, n ∈ u.methods a ∧ n.isVirtual = true ∧ n.isStatic = false ∧
      n.sameSignature m = true := by
  have habove := hu.above_of_continues ⟨t, hk, mem_callables_of_method hm⟩ h
  have hka := hu.knows_of_mem_bases habove.mem_bases
  obtain ⟨i, -, hid⟩ := hu.method_id hk hm
  have hdecl : m.declaring = t := congrArg MemberId.declaring hid
  have hhead := habove.heading.trans (hu.method_heading hk hm)
  have hn := hu.mem_methods_of_role hka (mem_ownCallables.mp habove.own).1 (congrArg Prod.fst hhead)
  rw [hu.method_heading hka hn] at hhead
  refine ⟨n.declaring, hdecl ▸ habove.mem_bases, hn, habove.isVirtual, habove.isStatic, ?_⟩
  simpa [Method.sameSignature] using hhead

/-- The link of a property leads to a virtual instance property of its name, above the type. -/
theorem Reachable.property_link (hu : u.Reachable) (hk : u.Knows t) (hp : p ∈ u.properties t)
    (h : p.parent? = some q) :
    ∃ a ∈ (u.definition t).bases, q ∈ u.properties a ∧ q.isVirtual = true ∧ q.isStatic = false ∧
      q.name = p.name := by
  obtain ⟨i, -, hnext⟩ := (hu.grown_properties hk).exists_next hp
  rcases hnext.continues with hover | ⟨q', hq, hover⟩
  · simp [Property.parent?, hover.overridden] at h
  · obtain rfl : q' = q := by simpa [Property.parent?, hover.overridden] using h
    obtain ⟨s, hs, hqs, hv, hst, hname, -⟩ := hu.overriddenProperty?_eq_some hq
    exact ⟨s, hs, hqs, hv, hst, hname⟩

/-- The link of an accessor leads to an accessor of a property of the same name, declared above the
type that declares the accessor; levels without one of their own are skipped. -/
theorem Reachable.accessor_link (hu : u.Reachable) (hk : u.Knows t) (hp : p ∈ u.properties t)
    {kind : AccessorKind} (hm : p.accessor? kind = some m) (h : m.parent? = some n) :
    ∃ a ∈ (u.definition m.declaring).bases, a ∈ (u.definition t).bases ∧ n.declaring = a ∧
      ∃ q ∈ u.properties a, q.accessor? kind = some n ∧ q.name = p.name := by
  have hmt := mem_callables_of_accessor hp hm
  have habove := hu.above_of_continues ⟨t, hk, hmt⟩ h
  have hka := hu.knows_of_mem_bases habove.mem_bases
  have hhead := habove.heading.trans (hu.accessor_heading hk hp hm)
  obtain ⟨q, hq, hqn⟩ := hu.exists_property_of_role hka (mem_ownCallables.mp habove.own).1
    (congrArg Prod.fst hhead)
  rw [hu.accessor_heading hka hq hqn] at hhead
  have hname : q.name = p.name := AccessorKind.memberName_injective kind (by simpa using hhead)
  refine ⟨n.declaring, habove.mem_bases, ?_, rfl, q, hq, hqn, hname⟩
  rcases mem_ancestors_iff.mp (hu.mem_ownCallables_declaring hk hmt).2 with hself | hup
  · exact hself ▸ habove.mem_bases
  · exact hu.mem_bases_of_mem_ancestors hup (mem_ancestors_of_mem_bases habove.mem_bases)

/-! ## All links -/

/-- **How the links of inheritance lead upwards** in a universe. -/
structure WellLinked (u : Universe β) : Prop where
  /-- On the way to this universe, the base of a type was defined before the type. -/
  base_before : ∀ {v w : Universe β} {t a}, v.Step w → w.Later u → v.isDefined t = false →
    w.isDefined t = true → u.base? t = some a → v.isDefined a = true
  /-- No type is above itself. -/
  not_above_self : ∀ t, t ∉ (u.definition t).bases
  /-- Following bases ends. -/
  base_wf : WellFounded fun a t => u.base? t = some a
  /-- It comes to the ancestors. -/
  ancestors : Unfolds u.base? u.ancestors
  /-- A method overrides a virtual instance method of its signature, on a proper ancestor. -/
  method_link : ∀ {t m n}, u.Knows t → m ∈ u.methods t → m.parent? = some n →
    ∃ a ∈ (u.definition t).bases, n ∈ u.methods a ∧ n.isVirtual = true ∧ n.isStatic = false ∧
      n.sameSignature m = true
  /-- A property overrides one of its name, on a proper ancestor. -/
  property_link : ∀ {t p q}, u.Knows t → p ∈ u.properties t → p.parent? = some q →
    ∃ a ∈ (u.definition t).bases, q ∈ u.properties a ∧ q.isVirtual = true ∧ q.isStatic = false ∧
      q.name = p.name
  /-- An accessor overrides one of a property of the same name, declared on a proper ancestor of the
  type that declares the accessor. -/
  accessor_link : ∀ {t p kind m n}, u.Knows t → p ∈ u.properties t → p.accessor? kind = some m →
    m.parent? = some n → ∃ a ∈ (u.definition m.declaring).bases, a ∈ (u.definition t).bases ∧
      n.declaring = a ∧ ∃ q ∈ u.properties a, q.accessor? kind = some n ∧ q.name = p.name
  /-- Following what methods override ends. -/
  overrides_wf : WellFounded fun n m : Method β => m.Continues n
  /-- It comes to everything that a method is said to override. -/
  overrides_iff : ∀ {m n}, u.IsCallable m → u.IsCallable n →
    (m.overrides n = true ↔ TransGen Method.Continues m n)
  /-- No callable overrides itself. -/
  overrides_irrefl : ∀ {m}, u.IsCallable m → m.overrides m = false
  /-- What is overridden by something overridden is overridden. -/
  overrides_trans : ∀ {m n k}, u.IsCallable m → u.IsCallable n → u.IsCallable k →
    m.overrides n = true → n.overrides k = true → m.overrides k = true
  /-- Following what attribute targets inherit from ends. -/
  lineage_wf : WellFounded fun b a => AttributeTarget.parent? u a = some b
  /-- It comes to the lineage. -/
  lineage : Unfolds (AttributeTarget.parent? u) (AttributeTarget.lineage u)

/-- Links of methods end, since each chain is shorter than the one that continues it. -/
theorem wellFounded_continues : WellFounded fun n m : Method β => m.Continues n := by
  refine Subrelation.wf (fun {n m} h => ?_) (measure fun m => m.overridden.length).wf
  change n.overridden.length < m.overridden.length
  rw [Method.continues_iff.mp h]
  exact Nat.lt_succ_self _

/-- **Links of inheritance are well-founded** in every reachable universe: they lead to what was
there before and strictly upwards, so following them ends. -/
theorem Reachable.wellLinked (hu : u.Reachable) : u.WellLinked where
  base_before hvw hwu hn hw ha := by
    rw [base?, hwu.extends.definition_eq hw] at ha
    exact hvw.isDefined_base hn ha
  not_above_self := hu.not_mem_bases_self
  base_wf := hu.unfolds_ancestors.wellFounded
  ancestors := hu.unfolds_ancestors
  method_link := hu.method_link
  property_link := hu.property_link
  accessor_link hk hp hm h := hu.accessor_link hk hp hm h
  overrides_wf := wellFounded_continues
  overrides_iff := hu.overrides_iff_transGen
  overrides_irrefl := hu.not_overrides_self
  overrides_trans := hu.overrides_trans
  lineage_wf := hu.unfolds_lineage.wellFounded
  lineage := hu.unfolds_lineage

/-- Three classes in a line: the property of `A` is overridden in `B`, reading only, and in `C`,
writing only; the method is overridden in `C`. -/
def skippingLine : Universe Unit :=
  ((((((empty.declare .classType "A").declare .classType "B").declare .classType "C").defineBy
    { Blueprint.start ⟨0, .classType, "A"⟩ with
      methods := [{ name := "f", isVirtual := true, body := () }]
      properties := [
        { name := "P", type := .object, isVirtual := true, getter? := some (), setter? := some () }]
    }).defineBy
    { Blueprint.start ⟨1, .classType, "B"⟩ with
      extends? := some (.declared ⟨0, .classType, "A"⟩)
      properties := [{ name := "P", type := .object, isOverride := true, getter? := some () }]
    })).defineBy
    { Blueprint.start ⟨2, .classType, "C"⟩ with
      extends? := some (.declared ⟨1, .classType, "B"⟩)
      methods := [{ name := "f", isOverride := true, body := () }]
      properties := [{ name := "P", type := .object, isOverride := true, setter? := some () }] }

theorem reachable_skippingLine : skippingLine.Reachable :=
  .defineBy (.defineBy (.defineBy (.declare _ _ (.declare _ _ (.declare _ _ .empty)))
    (by decide) rfl (by decide) rfl)
    (by decide) rfl (by decide) rfl)
    (by decide) rfl (by decide) rfl

/-- There the writing accessor in `C` overrides the one in `A` directly. -/
theorem wellLinked_skippingLine : skippingLine.WellLinked ∧
    ∃ p ∈ skippingLine.properties (.declared ⟨2, .classType, "C"⟩), ∃ m n,
      p.accessor? .setter = some m ∧ m.parent? = some n ∧
        n.declaring = .declared ⟨0, .classType, "A"⟩ :=
  ⟨reachable_skippingLine.wellLinked, _, List.mem_cons_self, _, _, rfl, rfl, rfl⟩

end Universe
end Reflection
