import Reflection.Proofs.Call.DispatchTable
import Reflection.Proofs.Snapshot.Listing

/-!
# Proofs/Snapshot/Redeclared — snapshots and dispatch agree on what is redeclared

    snapshot of the base    ──▸  m  ──dispatch──┐
                                                the same body   (select_agrees)
    snapshot of the type    ──▸  n  ──dispatch──┘    where n is m, or overrides it

Which member a snapshot shows is settled by signatures and names, which body runs by the chains of
overrides.  The two agree where every redeclaration on the way from the base down is an instance
override that derived types inherit: then what the lower snapshot shows lies on the chain.
-/

namespace Reflection.Universe

variable {β : Type} {u : Universe β} {s t a b : TypeRef} {m n : Method β} {p q : Property β}

/-! ## Redeclarations -/

/-- Whether every method that a type declares with the signature of another is an instance override
that derived types inherit. -/
def RedeclaresMethod (u : Universe β) (m : Method β) (t : TypeRef) : Prop :=
  ∀ n ∈ u.methods t, n.sameSignature m = true →
    n.overridden ≠ [] ∧ n.isStatic = false ∧ n.visibility ≠ .ownType

/-- Whether every property that a type declares with the name of another is an instance override
that derived types inherit. -/
def RedeclaresProperty (u : Universe β) (p : Property β) (t : TypeRef) : Prop :=
  ∀ q ∈ u.properties t, q.name = p.name →
    q.overridden ≠ [] ∧ q.isStatic = false ∧ q.visibility ≠ .ownType

theorem Reachable.sameSignature_iff_heading (hu : u.Reachable) (hs : u.Knows s) (ht : u.Knows t)
    (hm : m ∈ u.methods s) (hn : n ∈ u.methods t) :
    m.sameSignature n = true ↔ m.heading = n.heading := by
  rw [hu.method_heading hs hm, hu.method_heading ht hn]
  simp [Method.sameSignature]

/-- A callable with the heading of a method is a method. -/
theorem Reachable.mem_methods_of_heading (hu : u.Reachable) (hs : u.Knows s) (ht : u.Knows t)
    (hm : m ∈ u.methods s) (hn : n ∈ u.callables t) (h : n.heading = m.heading) :
    n ∈ u.methods t := by
  rw [hu.method_heading hs hm] at h
  exact hu.mem_methods_of_role ht hn (congrArg Prod.fst h)

/-- What hides a method from a listing has its signature. -/
theorem Reachable.sameSignature_of_covers (hu : u.Reachable) (hs : u.Knows s) (ht : u.Knows t)
    (hn : n ∈ u.methods s) (hm : m ∈ u.methods t)
    (h : MethodTable.covers n m = true) : n.sameSignature m = true := by
  rcases Bool.or_eq_true_iff.mp h with h | h
  · exact h
  · have hmt := mem_callables_of_method hm
    have hmo := mem_ownCallables.mpr ⟨hmt, hu.declaring_of_mem_methods ht hm⟩
    have habove := hu.above_of_overrides hs (mem_callables_of_method hn) ht hmo h
    exact (hu.sameSignature_iff_heading hs ht hn hm).mpr habove.heading.symm

section Line

variable (hu : u.Reachable) (hk : u.Knows t) (hb : b ∈ u.ancestors t)

include hu hk hb

/-! ## Methods -/

section Methods

variable (hm : m ∈ u.methods b) (hv : m.isVirtual = true) (hs : m.isStatic = false)
  (hre : ∀ a ∈ u.ancestors t, b ∈ (u.definition a).bases → u.RedeclaresMethod m a)

include hm hv hs hre in
/-- **A redeclared method overrides what it redeclares**, through whatever redeclarations lie
between. -/
theorem eq_or_overrides_of_signature (ha : a ∈ u.ancestors t) (hba : b ∈ u.ancestors a)
    (hn : n ∈ u.methods a) (h : n.sameSignature m = true) : n = m ∨ n.overrides m = true := by
  have hkb := hu.knows_of_mem_ancestors hk hb
  have hmd := hu.declaring_of_mem_methods hkb hm
  have hmo : m ∈ u.ownCallables b := mem_ownCallables.mpr ⟨mem_callables_of_method hm, hmd⟩
  induction a using hu.bases_induction generalizing n with
  | step a ih =>
    have hka := hu.knows_of_mem_ancestors hk ha
    have hhead := (hu.sameSignature_iff_heading hka hkb hn hm).mp h
    rcases mem_ancestors_iff.mp hba with rfl | hba
    · exact .inl (hu.method_eq_of_signature hka hn hm h)
    cases hu.linked hka (mem_callables_of_method hn) with
    | starts own chain => exact absurd chain (hre a ha hba n hn h).1
    | inherits s hs' =>
      exact absurd (hu.declaring_of_mem_methods hka hn)
        (hu.declaring_ne_of_mem_bases hs'.mem_bases hs'.mem_callables)
    | continues s c own hc heading chain =>
      -- what is overridden lies at the base or below it, and is the method or a redeclaration
      have hks := hu.knows_of_mem_bases hc.mem_bases
      have hst := hu.ancestors_subset_ancestors ha (mem_ancestors_of_mem_bases hc.mem_bases)
      have hcm := heading.trans hhead
      have hbs := hc.above b hba m hmo hv hs hcm.symm
      have hcs := hu.mem_methods_of_heading hkb hks hm hc.mem_callables hcm
      have hsig := (hu.sameSignature_iff_heading hks hkb hcs hm).mpr hcm
      exact .inr (Method.overrides_of_overriding chain (ih s hc.mem_bases hst hbs hcs hsig))

omit hb in
include hm hs hre in
/-- A redeclared method is an instance method that derived types inherit, as is the method
itself. -/
theorem isStatic_of_signature (hvis : m.visibility ≠ .ownType) (ha : a ∈ u.ancestors t)
    (hba : b ∈ u.ancestors a) (hn : n ∈ u.methods a) (h : n.sameSignature m = true) :
    n.isStatic = false ∧ n.visibility ≠ .ownType := by
  rcases mem_ancestors_iff.mp hba with rfl | hba
  · rw [hu.method_eq_of_signature (hu.knows_of_mem_ancestors hk ha) hn hm h]
    exact ⟨hs, hvis⟩
  · exact (hre a ha hba n hn h).2

omit hre in
include hm in
/-- What has the root of a method is no accessor. -/
theorem declaresVirtually_of_method (ha : a ∈ u.ancestors t) :
    u.DeclaresVirtually m.root.id a := by
  intro k hka hroot hrole
  have hkb := hu.knows_of_mem_ancestors hk hb
  have hhead := hu.heading_eq_of_root (hu.knows_of_mem_ancestors hk ha) hkb
    (mem_ownCallables.mp hka).1 (mem_callables_of_method hm) hroot
  rw [hu.method_heading hkb hm] at hhead
  exact absurd (congrArg Prod.fst hhead) hrole

include hm hv hs hre in
/-- **The lowest method of a signature is the lowest callable of its root.** -/
theorem lowest_of_signature (ha : a ∈ u.ancestors t) (hba : b ∈ u.ancestors a)
    (hn : n ∈ u.methods a) (h : n.sameSignature m = true)
    (hlow : ∀ x ∈ u.ancestors t, (∃ k ∈ u.methods x, k.sameSignature m = true) →
      x ∈ u.ancestors a) : u.Lowest t m.root.id n := by
  have hka := hu.knows_of_mem_ancestors hk ha
  have hkb := hu.knows_of_mem_ancestors hk hb
  have hmt := mem_callables_of_method hm
  have hnt := mem_callables_of_method hn
  have hnd := hu.declaring_of_mem_methods hka hn
  refine ⟨mem_ownCallables.mpr ⟨hnd.symm ▸ hnt, rfl⟩, hnd.symm ▸ ha, ?_, fun x hx k hkx hroot => ?_⟩
  · exact root_id_eq hu hk hb (mem_ownCallables.mpr ⟨hmt, hu.declaring_of_mem_methods hkb hm⟩) ha
      hnt (eq_or_overrides_of_signature hu hk hb hm hv hs hre ha hba hn h)
  · have hkx' := hu.knows_of_mem_ancestors hk hx
    have hkt := (mem_ownCallables.mp hkx).1
    have hhead := hu.heading_eq_of_root hkx' hkb hkt hmt hroot
    have hkm := hu.mem_methods_of_heading hkb hkx' hm hkt hhead
    rw [hnd]
    exact hlow x hx ⟨k, hkm, (hu.sameSignature_iff_heading hkx' hkb hkm hm).mpr hhead⟩

end Methods

/-! ## Properties -/

section Properties

variable {kind : AccessorKind} (hp : p ∈ u.properties b) (hv : p.isVirtual = true)
  (hs : p.isStatic = false) (hm : p.accessor? kind = some m)
  (hre : ∀ a ∈ u.ancestors t, b ∈ (u.definition a).bases → u.RedeclaresProperty p a)
  (hopen : ∀ a ∈ (u.definition t).bases, b ∈ (u.definition a).bases →
    ∀ q ∈ u.properties a, q.name = p.name → q.isVirtual = true)

include hp hv hs hm hre in
/-- **A redeclared property has the accessor that it redeclares, or one that overrides it** and is
declared below. -/
theorem exists_accessor_of_name (ha : a ∈ u.ancestors t) (hba : b ∈ u.ancestors a)
    (hq : q ∈ u.properties a) (h : q.name = p.name) :
    ∃ n, q.accessor? kind = some n ∧
      (n = m ∨ n.overrides m = true ∧ b ∈ (u.definition n.declaring).bases) := by
  have hkb := hu.knows_of_mem_ancestors hk hb
  induction a using hu.bases_induction generalizing q with
  | step a ih =>
    have hka := hu.knows_of_mem_ancestors hk ha
    rcases mem_ancestors_iff.mp hba with rfl | hba
    · obtain rfl := hu.property_eq_of_name hka hq hp h
      exact ⟨m, hm, .inl rfl⟩
    obtain ⟨i, -, hnext⟩ := (hu.grown_properties hka).exists_next hq
    rcases hnext.continues with hnil | ⟨q', hq', hover⟩
    · exact absurd hnil.overridden (hre a ha hba q hq h).1
    -- what is overridden lies at the base or below it, and is the property or a redeclaration
    obtain ⟨s, hsa, hqs, -, -, hname, hnear⟩ := hu.overriddenProperty?_eq_some hq'
    have hst := hu.ancestors_subset_ancestors ha (mem_ancestors_of_mem_bases hsa)
    obtain ⟨n, hn, hnm⟩ := ih s hsa hst (hnear b hba p hp hv hs h.symm) hqs (hname.trans h)
    rcases hover.accessor kind with hinh | ⟨k, hkq, hown⟩
    · exact ⟨n, hinh.trans hn, hnm⟩
    · have hchain : k.overridden = Blueprint.overriding n := by simpa [hn] using hown.overridden
      have hkd : k.declaring = a := by
        rw [Method.declaring, hown.id]
        exact hu.declaring_of_mem_properties hka hq
      exact ⟨k, hkq, .inr ⟨Method.overrides_of_overriding hchain (hnm.imp_right And.left),
        hkd.symm ▸ hba⟩⟩

omit hb in
include hp hv hs hre hopen in
/-- The accessors of a redeclared property are instance callables, and virtual but for those that
the type itself declares. -/
theorem accessor_of_name (ha : a ∈ u.ancestors t) (hba : b ∈ u.ancestors a)
    (hq : q ∈ u.properties a) (h : q.name = p.name) (hn : q.accessor? kind = some n) :
    n.isStatic = false ∧ (n.isVirtual = true ∨ n ∈ u.ownCallables t) := by
  have hka := hu.knows_of_mem_ancestors hk ha
  rcases mem_ancestors_iff.mp hba with rfl | hba
  · obtain rfl := hu.property_eq_of_name hka hq hp h
    exact (hu.accessor_isVirtual hka hq hv hs hn).symm.imp_right .inl
  obtain ⟨-, hst, -⟩ := hre a ha hba q hq h
  have hown {inherited? : Option (Method β)} (h' : Blueprint.OwnAccessor q kind inherited? n) :
      n.isStatic = false ∧ (n.isVirtual = true ∨ n ∈ u.ownCallables t) := by
    refine ⟨h'.isStatic.trans hst, ?_⟩
    rcases mem_ancestors_iff.mp ha with rfl | ha
    · refine .inr (mem_ownCallables.mpr ⟨mem_callables_of_accessor hq hn, ?_⟩)
      rw [Method.declaring, h'.id, hu.declaring_of_mem_properties hka hq]
    · exact .inl (h'.isVirtual.trans (hopen a ha hba q hq h))
  rcases hu.accessor_cases hka hq hn with h' | ⟨q', hq', ⟨-, h'⟩ | h'⟩
  · exact hown h'
  · exact hown h'
  · obtain ⟨s, hs', -⟩ := hu.nearest_accessor hq' h'
    exact ⟨hs'.isStatic, .inl hs'.isVirtual⟩

include hp hm hre hopen in
/-- The bases below declare no accessors of the root but virtual ones of instances. -/
theorem declaresVirtually_of_redeclaresProperty (ha : a ∈ (u.definition t).bases)
    (hba : b ∈ (u.definition a).bases) : u.DeclaresVirtually m.root.id a := by
  intro k hk' hroot _
  have hka := hu.knows_of_mem_bases ha
  have hkb := hu.knows_of_mem_ancestors hk hb
  obtain ⟨hka', hkd⟩ := mem_ownCallables.mp hk'
  have hmb : m ∈ u.callables b := mem_callables_of_accessor hp hm
  have hhead := hu.heading_eq_of_root hka hkb hka' hmb hroot
  rw [hu.accessor_heading hkb hp hm] at hhead
  obtain ⟨q, hq, hkq⟩ := hu.exists_property_of_role hka hka' (congrArg Prod.fst hhead)
  rw [hu.accessor_heading hka hq hkq] at hhead
  have hname : q.name = p.name := AccessorKind.memberName_injective kind (by simpa using hhead)
  obtain ⟨-, hst, -⟩ := hre a (mem_ancestors_of_mem_bases ha) hba q hq hname
  obtain ⟨_, hown⟩ := hu.ownAccessor_of_declaring hka hq hkq hkd
  exact ⟨hown.isVirtual.trans (hopen a ha hba q hq hname), hown.isStatic.trans hst⟩

end Properties

/-! ## What a snapshot shows -/

omit hk in
/-- A line has a lowest type of those with some property. -/
theorem exists_lowest {P : TypeRef → Prop} (h : P b) :
    ∃ a ∈ u.ancestors t, P a ∧ ∀ x ∈ u.ancestors t, P x → x ∈ u.ancestors a := by
  induction t using hu.base_induction with
  | step t ih =>
    by_cases ht : P t
    · exact ⟨t, mem_ancestors_self u t, ht, fun x hx _ => hx⟩
    have below {x : TypeRef} (hx : x ∈ u.ancestors t) (hPx : P x) : x ∈ (u.definition t).bases :=
      (mem_ancestors_iff.mp hx).resolve_left fun hxt => ht (hxt ▸ hPx)
    obtain ⟨s, hs, hbases, -⟩ := hu.mem_bases (below hb h)
    obtain ⟨a, ha, hPa, hlow⟩ := ih s hs (hbases ▸ below hb h)
    exact ⟨a, mem_ancestors_of_mem_bases (hbases ▸ ha), hPa,
      fun x hx hPx => hlow x (hbases ▸ below hx hPx) hPx⟩

/-- **A snapshot shows the lowest method of a signature**, if every one down to it is an instance
method that derived types inherit. -/
theorem exists_overload (hm : m ∈ u.methods b)
    (hinst : ∀ a ∈ u.ancestors t, b ∈ u.ancestors a → ∀ n ∈ u.methods a,
      n.sameSignature m = true → n.isStatic = false ∧ n.visibility ≠ .ownType) :
    ∃ a ∈ u.ancestors t, b ∈ u.ancestors a ∧ ∃ n ∈ u.methods a, n.sameSignature m = true ∧
      n ∈ (Snapshot.build .reflector u t .all).methods.overloads m.name ∧
      ∀ x ∈ u.ancestors t, (∃ k ∈ u.methods x, k.sameSignature m = true) → x ∈ u.ancestors a := by
  have hself : m.sameSignature m = true := by simp [Method.sameSignature]
  obtain ⟨a, ha, ⟨n, hn, hsig⟩, hlow⟩ :=
    exists_lowest hu hb (P := fun x => ∃ k ∈ u.methods x, k.sameSignature m = true) ⟨m, hm, hself⟩
  have hba := hlow b hb ⟨m, hm, hself⟩
  have hka := hu.knows_of_mem_ancestors hk ha
  obtain ⟨hst, hvis⟩ := hinst a ha hba n hn hsig
  refine ⟨a, ha, hba, n, hn, hsig, ?_, hlow⟩
  have hlisted : n ∈ Provider.reflector.methods u t .all :=
    MemberFilter.mem_collect_all ha hn hst hvis
  obtain ⟨k, hk', hkn⟩ := MethodTable.exists_mem_visible (hu.pairwise_methods hk .all) hlisted
  -- what is shown instead would lie lower still
  obtain rfl : k = n := by
    rcases hkn with rfl | ⟨hcovers, hup⟩
    · rfl
    have hkl : k ∈ MemberFilter.all.collect u.methods (u.ancestors t) :=
      (MethodTable.visible_sublist _).subset hk'
    obtain ⟨x, hx, hkx⟩ := MemberFilter.exists_of_mem_collect hkl
    have hkx' := hu.knows_of_mem_ancestors hk hx
    have hkn := hu.sameSignature_of_covers hkx' hka hkx hn hcovers
    have hkm := (hu.sameSignature_iff_heading hkx' (hu.knows_of_mem_ancestors hk hb) hkx hm).mpr
      (((hu.sameSignature_iff_heading hkx' hka hkx hn).mp hkn).trans
        ((hu.sameSignature_iff_heading hka (hu.knows_of_mem_ancestors hk hb) hn hm).mp hsig))
    rw [hu.declaring_of_mem_methods hka hn, hu.declaring_of_mem_methods hkx' hkx] at hup
    obtain rfl := hu.eq_of_mem_ancestors (hlow x hx ⟨k, hkx, hkm⟩) hup
    exact hu.method_eq_of_signature hka hkx hn hkn
  have hname : k.name = m.name := by
    simp only [Method.sameSignature, Bool.and_eq_true, beq_iff_eq] at hsig
    exact hsig.1
  rw [Snapshot.build, MethodTable.overloads_build]
  exact List.mem_filter.mpr ⟨hk', by simpa using hname⟩

/-- A snapshot shows, for the name of a property, that one or another declared at or below its
type. -/
theorem exists_get? (hp : p ∈ u.properties b) (hs : p.isStatic = false)
    (hvis : p.visibility ≠ .ownType) :
    ∃ a ∈ u.ancestors t, b ∈ u.ancestors a ∧ ∃ q ∈ u.properties a, q.name = p.name ∧
      (Snapshot.build .reflector u t .all).properties.get? p.name = some (.property q) := by
  have hkb := hu.knows_of_mem_ancestors hk hb
  have hpd := hu.declaring_of_mem_properties hkb hp
  have hlisted : p ∈ Provider.reflector.properties u t .all :=
    MemberFilter.mem_collect_all hb hp hs hvis
  rw [hu.get?_properties hk]
  cases hfind : (Provider.reflector.properties u t .all).find? fun q => q.name = p.name with
  | none => exact absurd (decide_eq_true rfl) (List.find?_eq_none.mp hfind p hlisted)
  | some q =>
    have hql : q ∈ MemberFilter.all.collect u.properties (u.ancestors t) :=
      List.mem_of_find?_eq_some hfind
    obtain ⟨a, ha, hqa⟩ := MemberFilter.exists_of_mem_collect hql
    have hqd := hu.declaring_of_mem_properties (hu.knows_of_mem_ancestors hk ha) hqa
    refine ⟨a, ha, ?_, q, hqa, of_decide_eq_true (List.find?_some hfind :), rfl⟩
    rcases eq_or_of_find? (hu.pairwise_properties hk .all) hfind hlisted (decide_eq_true rfl) with
      rfl | h
    · rw [← hqd, hpd]
      exact List.mem_cons_self
    · rwa [hqd, hpd] at h

end Line

/-! ## The same body -/

section Line

variable (hu : u.Reachable) (hk : u.Knows t) (hb : b ∈ u.ancestors t)
  (hg : ∀ a ∈ u.ancestors t, b ∈ u.ancestors a → (u.flags a).isGeneric = false)
  {target : Value} (hr : target.runtimeType? = some t)

include hu hk hb hg hr

theorem method_select_agrees (hm : m ∈ u.methods b) (hv : m.isVirtual = true)
    (hs : m.isStatic = false)
    (hre : ∀ a ∈ u.ancestors t, b ∈ (u.definition a).bases → u.RedeclaresMethod m a)
    (ha : a ∈ u.ancestors t) (hba : b ∈ u.ancestors a) (hn : n ∈ u.methods a)
    (hns : n.isStatic = false) (hsig : n.sameSignature m = true)
    (hlow : ∀ x ∈ u.ancestors t, (∃ k ∈ u.methods x, k.sameSignature m = true) →
      x ∈ u.ancestors a) :
    ∃ chosen, n.select u target = .ok chosen ∧ m.select u target = .ok chosen := by
  have hnd := hu.declaring_of_mem_methods (hu.knows_of_mem_ancestors hk ha) hn
  have hmd := hu.declaring_of_mem_methods (hu.knows_of_mem_ancestors hk hb) hm
  have hmo : m ∈ u.ownCallables b := mem_ownCallables.mpr ⟨mem_callables_of_method hm, hmd⟩
  have hlowest := lowest_of_signature hu hk hb hm hv hs hre ha hba hn hsig hlow
  have hmn : u.dispatch m t = n :=
    hu.lowest_unique hk (dispatch_lowest hu hk hb hmo hv hs hb hmo (.inl rfl) hv hs fun x hx _ =>
      declaresVirtually_of_method hu hk hb hm (mem_ancestors_of_mem_bases hx)) hlowest
  refine ⟨n, ?_, ?_⟩
  · rw [hu.select_eq (hnd ▸ hg a ha hba) hns (hnd ▸ ha) hr, hu.dispatch_eq_self hk hlowest]
  · rw [hu.select_eq (hmd ▸ hg b hb List.mem_cons_self) hs (hmd ▸ hb) hr, hmn]

theorem accessor_select_agrees {kind : AccessorKind} (hp : p ∈ u.properties b)
    (hv : p.isVirtual = true) (hs : p.isStatic = false) (hm : p.accessor? kind = some m)
    (hgm : (u.flags m.declaring).isGeneric = false)
    (hre : ∀ a ∈ u.ancestors t, b ∈ (u.definition a).bases → u.RedeclaresProperty p a)
    (hopen : ∀ a ∈ (u.definition t).bases, b ∈ (u.definition a).bases →
      ∀ q ∈ u.properties a, q.name = p.name → q.isVirtual = true)
    (ha : a ∈ u.ancestors t) (hba : b ∈ u.ancestors a) (hq : q ∈ u.properties a)
    (hname : q.name = p.name) (hn : q.accessor? kind = some n)
    (hnm : n = m ∨ n.overrides m = true ∧ b ∈ (u.definition n.declaring).bases) :
    ∃ chosen, n.select u target = .ok chosen ∧ m.select u target = .ok chosen := by
  have hka := hu.knows_of_mem_ancestors hk ha
  have hkb := hu.knows_of_mem_ancestors hk hb
  obtain ⟨hmv, hms⟩ := hu.accessor_isVirtual hkb hp hv hs hm
  obtain ⟨hmo, hmb⟩ := hu.mem_ownCallables_declaring hkb (mem_callables_of_accessor hp hm)
  have hmt := hu.ancestors_subset_ancestors hb hmb
  have hselect := hu.select_eq hgm hms hmt hr
  rcases hnm with rfl | ⟨hnm, hbn⟩
  · exact ⟨_, hselect, hselect⟩
  obtain ⟨hno, hna⟩ := hu.mem_ownCallables_declaring hka (mem_callables_of_accessor hq hn)
  have hnt := hu.ancestors_subset_ancestors ha hna
  obtain ⟨hns, hnv⟩ := accessor_of_name hu hk hp hv hs hre hopen ha hba hq hname hn
  have hdispatch : u.dispatch n t = u.dispatch m t := by
    cases hvirtual : n.isVirtual with
    | true =>
      exact dispatch_eq_of_overrides hu hk hmt hmo hmv hms hnt hno (.inr hnm) hvirtual hns
        fun x hx hnx => declaresVirtually_of_redeclaresProperty hu hk hb hp hm hre hopen hx
          (hu.mem_bases_of_mem_ancestors hnx (mem_ancestors_of_mem_bases hbn))
    -- a sealed override can only be shown where the type declares it itself
    | false =>
      have hnt : n ∈ u.ownCallables t := hnv.resolve_left (by simp [hvirtual])
      rw [hu.dispatch_eq_own hk hnt (hu.knows_of_mem_ancestors hk hmt) hmo hnm]
      simp [dispatch, hvirtual]
  refine ⟨u.dispatch m t, ?_, hselect⟩
  rw [← hdispatch]
  exact hu.select_eq (hg _ hnt (mem_ancestors_of_mem_bases hbn)) hns hnt hr

end Line

/-- **Snapshots and dispatch agree.**  Suppose that no type from a type up to one of its ancestors
is an open generic definition.  If every redeclaration of a virtual method of the ancestor below it
is an instance override that derived types inherit, then the snapshot of the type has an overload
of the same signature, and on a target of exactly this type both select the same body.  The same
holds of each accessor of a virtual property, unless an open generic definition declares it, if the
redeclarations between the two types may be overridden again. -/
theorem select_agrees (hu : u.Reachable) (hk : u.Knows t) (hb : b ∈ u.ancestors t)
    (hg : ∀ a ∈ u.ancestors t, b ∈ u.ancestors a → (u.flags a).isGeneric = false) :
    (∀ m ∈ u.methods b, m.isVirtual = true → m.isStatic = false → m.visibility ≠ .ownType →
      (∀ a ∈ u.ancestors t, b ∈ (u.definition a).bases → u.RedeclaresMethod m a) →
      m ∈ (Snapshot.build .reflector u b .all).methods.overloads m.name ∧
      ∃ n ∈ (Snapshot.build .reflector u t .all).methods.overloads m.name,
        n.sameSignature m = true ∧ ∀ target, target.runtimeType? = some t →
          ∃ chosen, n.select u target = .ok chosen ∧ m.select u target = .ok chosen) ∧
    (∀ p ∈ u.properties b, p.isVirtual = true → p.isStatic = false → p.visibility ≠ .ownType →
      (∀ a ∈ u.ancestors t, b ∈ (u.definition a).bases → u.RedeclaresProperty p a) →
      (∀ a ∈ (u.definition t).bases, b ∈ (u.definition a).bases →
        ∀ q ∈ u.properties a, q.name = p.name → q.isVirtual = true) →
      (Snapshot.build .reflector u b .all).properties.get? p.name = some (.property p) ∧
      ∀ kind m, p.accessor? kind = some m → (u.flags m.declaring).isGeneric = false →
        ∃ q n, (Snapshot.build .reflector u t .all).properties.get? p.name = some (.property q) ∧
          q.accessor? kind = some n ∧ ∀ target, target.runtimeType? = some t →
            ∃ chosen, n.select u target = .ok chosen ∧ m.select u target = .ok chosen) := by
  have hkb := hu.knows_of_mem_ancestors hk hb
  refine ⟨fun m hm hv hs hvis hre => ⟨?_, ?_⟩, fun p hp hv hs hvis hre hopen => ⟨?_, ?_⟩⟩
  · obtain ⟨a, ha, hba, n, hn, hsig, hshown, -⟩ :=
      exists_overload hu hkb (mem_ancestors_self u b) hm fun a ha hba n hn hsig => by
        obtain rfl := hu.eq_of_mem_ancestors ha hba
        rw [hu.method_eq_of_signature hkb hn hm hsig]
        exact ⟨hs, hvis⟩
    obtain rfl := hu.eq_of_mem_ancestors ha hba
    rwa [hu.method_eq_of_signature hkb hn hm hsig] at hshown
  · have hinst {a : TypeRef} (ha : a ∈ u.ancestors t) (hba : b ∈ u.ancestors a) (n : Method β)
        (hn : n ∈ u.methods a) (hsig : n.sameSignature m = true) :=
      isStatic_of_signature hu hk hm hs hre hvis ha hba hn hsig
    obtain ⟨a, ha, hba, n, hn, hsig, hshown, hlow⟩ :=
      exists_overload hu hk hb hm fun a ha hba => hinst ha hba
    exact ⟨n, hshown, hsig, fun target hr => method_select_agrees hu hk hb hg hr hm hv hs hre ha hba
      hn (hinst ha hba n hn hsig).1 hsig hlow⟩
  · obtain ⟨a, ha, hba, q, hq, hname, hshown⟩ := exists_get? hu hkb List.mem_cons_self hp hs hvis
    obtain rfl := hu.eq_of_mem_ancestors ha hba
    rwa [hu.property_eq_of_name hkb hq hp hname] at hshown
  · intro kind m hm hgm
    obtain ⟨a, ha, hba, q, hq, hname, hshown⟩ := exists_get? hu hk hb hp hs hvis
    obtain ⟨n, hn, hnm⟩ := exists_accessor_of_name hu hk hb hp hv hs hm hre ha hba hq hname
    exact ⟨q, n, hshown, hn, fun target hr =>
      accessor_select_agrees hu hk hb hg hr hp hv hs hm hgm hre hopen ha hba hq hname hn hnm⟩

instance (u : Universe β) (m : Method β) : DecidablePred (u.RedeclaresMethod m) := fun t =>
  inferInstanceAs (Decidable (∀ n ∈ u.methods t, n.sameSignature m = true →
    n.overridden ≠ [] ∧ n.isStatic = false ∧ n.visibility ≠ .ownType))

instance (u : Universe β) (p : Property β) : DecidablePred (u.RedeclaresProperty p) := fun t =>
  inferInstanceAs (Decidable (∀ q ∈ u.properties t, q.name = p.name →
    q.overridden ≠ [] ∧ q.isStatic = false ∧ q.visibility ≠ .ownType))

/-- The method of the topmost of the three classes. -/
def topmostMethod : Method ℕ where
  id := ⟨topmost, .method, 0⟩
  name := "f"
  parameters := []
  returns? := none
  visibility := .everyone
  isStatic := false
  isVirtual := true
  attributes := []
  body := 1
  overridden := []

/-- On an object of the lowest class, what its snapshot shows and what the topmost class declares
select the same body, of the method and of the setter alike. -/
theorem select_agrees_overridingClasses :
    (∃ n ∈ (Snapshot.build .reflector overridingClasses lowest .all).methods.overloads "f",
      ∃ chosen, n.select overridingClasses (.object ⟨lowest, 0⟩) = .ok chosen ∧
        topmostMethod.select overridingClasses (.object ⟨lowest, 0⟩) = .ok chosen) ∧
    ∃ q n, (Snapshot.build .reflector overridingClasses lowest .all).properties.get? "P" =
        some (.property q) ∧ q.accessor? .setter = some n ∧
      ∃ chosen, n.select overridingClasses (.object ⟨lowest, 0⟩) = .ok chosen ∧
        topmostSetter.select overridingClasses (.object ⟨lowest, 0⟩) = .ok chosen := by
  have h := select_agrees reachable_overridingClasses (t := lowest) (by decide) (b := topmost)
    (by decide) (by decide)
  refine ⟨?_, ?_⟩
  · obtain ⟨-, n, hn, -, hsame⟩ := h.1 topmostMethod (List.mem_of_getElem? (i := 0) (by rfl)) rfl
      rfl (by decide) (by decide)
    exact ⟨n, hn, hsame _ rfl⟩
  · obtain ⟨-, hsame⟩ := h.2 _ (List.mem_of_getElem? (i := 0) (by rfl)) rfl rfl (by decide)
      (by decide) (by decide)
    obtain ⟨q, n, hq, hn, hsame⟩ := hsame .setter topmostSetter (by rfl) (by decide)
    exact ⟨q, n, hq, hn, hsame _ rfl⟩

/-- An open generic class with a property, one below that overrides the property but neither of its
accessors, and one below both that overrides how it is read. -/
def genericAbove : Universe ℕ :=
  (((((empty.declare .classType "A").declare .classType "B").declare .classType "R").defineBy
    { target := ⟨0, .classType, "A"⟩
      flags := { isGeneric := true }
      properties := [{ name := "P", type := .primitive .i32, isVirtual := true,
                       getter? := some 1 }] }).defineBy
    { target := ⟨1, .classType, "B"⟩
      extends? := some topmost
      properties := [{ name := "P", type := .primitive .i32, isOverride := true }] }).defineBy
    { target := ⟨2, .classType, "R"⟩
      extends? := some middle
      properties := [{ name := "P", type := .primitive .i32, isOverride := true,
                       getter? := some 2 }] }

theorem reachable_genericAbove : genericAbove.Reachable :=
  .defineBy (.defineBy (.defineBy (.declare _ _ (.declare _ _ (.declare _ _ .empty)))
    (by decide) (by decide) (by decide) (by decide))
    (by decide) (by decide) (by decide) (by decide))
    (by decide) (by decide) (by decide) (by decide)

/-- **Not every accessor agrees.**  Where the class between takes its getter over from the open
generic class, calling it through that class is refused, and through the lowest class it is not.
Where an override is sealed, a class below that leaves its getter out shows the one above the
sealed one: calling that comes to the sealed one, while calling the topmost getter comes to the one
shown. -/
theorem not_every_accessor_agrees :
    (genericAbove.Reachable ∧
      (∀ a ∈ genericAbove.ancestors lowest, middle ∈ genericAbove.ancestors a →
        (genericAbove.flags a).isGeneric = false) ∧
      ∃ p ∈ genericAbove.properties middle,
        p.isVirtual = true ∧ p.isStatic = false ∧ p.visibility ≠ .ownType ∧
        (∀ a ∈ genericAbove.ancestors lowest, middle ∈ (genericAbove.definition a).bases →
          genericAbove.RedeclaresProperty p a) ∧
        ∃ m, p.accessor? .getter = some m ∧ ∃ q n,
          (Snapshot.build .reflector genericAbove lowest .all).properties.get? p.name =
            some (.property q) ∧ q.accessor? .getter = some n ∧
          n.select genericAbove (.object ⟨lowest, 0⟩) = .ok n ∧
          m.select genericAbove (.object ⟨lowest, 0⟩) = .error (.notInstantiable "get_P")) ∧
    sealedOverride.Reachable ∧
      (∀ a ∈ sealedOverride.ancestors bottommost, (sealedOverride.flags a).isGeneric = false) ∧
      ∃ p ∈ sealedOverride.properties topmost,
        p.isVirtual = true ∧ p.isStatic = false ∧ p.visibility ≠ .ownType ∧
        (∀ a ∈ sealedOverride.ancestors bottommost, topmost ∈ (sealedOverride.definition a).bases →
          sealedOverride.RedeclaresProperty p a) ∧
        p.accessor? .getter = some topmostGetter ∧ ∃ q n c d,
          (Snapshot.build .reflector sealedOverride bottommost .all).properties.get? p.name =
            some (.property q) ∧ q.accessor? .getter = some n ∧
          n.select sealedOverride (.object ⟨bottommost, 0⟩) = .ok c ∧
          topmostGetter.select sealedOverride (.object ⟨bottommost, 0⟩) = .ok d ∧
          c.body = 3 ∧ d.body = 2 := by
  refine ⟨⟨reachable_genericAbove, by decide, _, List.mem_of_getElem? (i := 0) (by rfl), rfl, rfl,
    by decide, by decide, _, rfl, _, _, rfl, rfl, rfl, rfl⟩, ?_⟩
  exact ⟨reachable_sealedOverride, by decide, _, List.mem_of_getElem? (i := 0) (by rfl), rfl, rfl,
    by decide, by decide, rfl, _, _, _, _, rfl, rfl, rfl, rfl, rfl, rfl⟩

end Reflection.Universe
