import Mathlib.Logic.Function.Basic
import Reflection.Proofs.Universe.Overrides

/-!
# Proofs/Call/DispatchTable — dispatch is a lookup in a table

    upwards:    dispatch    ──dispatch_lowest──┐
                                               Lowest   (one callable at most)
    downwards:  dispatchTable ──table_lowest───┘

Dispatch searches upwards from the type of the target for a callable that overrides the one called.
A table is built downwards: that of a type is the table of its base, in which each callable that the
type declares replaces the entry of its root.  Both come to the lowest callable of the root that is
declared on the line.
-/

namespace Reflection.Universe

variable {β : Type} {u : Universe β} {s t a b : TypeRef} {c m n : Method β} {root : MemberId}

/-! ## Tables -/

/-- The callables that targets run, by the identity of the root of their chain. -/
abbrev DispatchTable (β : Type) : Type := MemberId → Option (Method β)

/-- The table in which a callable replaces the entry of its root. -/
def DispatchTable.replace (table : DispatchTable β) (m : Method β) : DispatchTable β :=
  Function.update table m.root.id (some m)

/-- The table along a line of types: each type's own callables over the table of what follows. -/
def tableAlong (u : Universe β) : List TypeRef → DispatchTable β
  | [] => fun _ => none
  | t :: line => (u.ownCallables t).foldl DispatchTable.replace (u.tableAlong line)

/-- The table of a type. -/
def dispatchTable (u : Universe β) (t : TypeRef) : DispatchTable β := u.tableAlong (u.ancestors t)

/-- **The table of a type is that of its base with its own callables put in.** -/
theorem Reachable.dispatchTable_eq (hu : u.Reachable) (t : TypeRef) :
    u.dispatchTable t = (u.ownCallables t).foldl DispatchTable.replace
      (match u.base? t with
        | none => fun _ => none
        | some s => u.dispatchTable s) := by
  rw [dispatchTable, ancestors, tableAlong]
  cases hb : u.base? t with
  | none => rw [bases_eq_nil hb, tableAlong]
  | some s => rw [hu.bases_eq hb]; rfl

/-- An entry of a table in which callables replace the entries of their roots is one of these
callables, or what it was. -/
theorem foldl_replace_cases (ms : List (Method β)) (table : DispatchTable β) (root : MemberId) :
    (∃ m ∈ ms, m.root.id = root ∧ ms.foldl DispatchTable.replace table root = some m) ∨
      (∀ m ∈ ms, m.root.id ≠ root) ∧ ms.foldl DispatchTable.replace table root = table root := by
  induction ms generalizing table with
  | nil => exact .inr ⟨by simp, rfl⟩
  | cons m ms ih =>
    rw [List.foldl_cons]
    rcases ih (table.replace m) with ⟨n, hn, hroot, h⟩ | ⟨hnone, h⟩
    · exact .inl ⟨n, List.mem_cons_of_mem _ hn, hroot, h⟩
    · by_cases hm : m.root.id = root
      · refine .inl ⟨m, List.mem_cons_self, hm, h.trans ?_⟩
        rw [DispatchTable.replace, hm, Function.update_self]
      · refine .inr ⟨List.forall_mem_cons.mpr ⟨hm, hnone⟩, h.trans ?_⟩
        rw [DispatchTable.replace, Function.update_of_ne (Ne.symm hm)]

/-! ## The lowest callable of a root -/

/-- A callable declared on the line of a type, at or below every other one of its root there. -/
structure Lowest (u : Universe β) (t : TypeRef) (root : MemberId) (c : Method β) : Prop where
  own : c ∈ u.ownCallables c.declaring
  mem_ancestors : c.declaring ∈ u.ancestors t
  root_eq : c.root.id = root
  below : ∀ a ∈ u.ancestors t, ∀ n ∈ u.ownCallables a, n.root.id = root →
    a ∈ u.ancestors c.declaring

/-- **A line has one lowest callable of a root at most.** -/
theorem Reachable.lowest_unique (hu : u.Reachable) (hk : u.Knows t) (hc : u.Lowest t root c)
    (hn : u.Lowest t root n) : c = n := by
  have hcn := hc.below _ hn.mem_ancestors n hn.own hn.root_eq
  have hnc := hn.below _ hc.mem_ancestors c hc.own hc.root_eq
  have hkc := hu.knows_of_mem_ancestors hk hc.mem_ancestors
  have hdecl := hu.eq_of_mem_ancestors hcn hnc
  have hcc := (mem_ownCallables.mp hc.own).1
  have hnn := (mem_ownCallables.mp (hdecl ▸ hn.own)).1
  exact hu.eq_of_heading hkc hcc hnn
    (hu.heading_eq_of_root hkc hkc hcc hnn (hc.root_eq.trans hn.root_eq.symm))

/-- **The table of a type has the lowest callable of every root on its line.** -/
theorem Reachable.table_lowest (hu : u.Reachable) (ha : a ∈ u.ancestors t)
    (hn : n ∈ u.ownCallables a) :
    ∃ c, u.dispatchTable t n.root.id = some c ∧ u.Lowest t n.root.id c := by
  induction t using hu.base_induction with
  | step t ih =>
    rw [hu.dispatchTable_eq]
    rcases foldl_replace_cases (u.ownCallables t) _ n.root.id with
      ⟨c, hc, hroot, h⟩ | ⟨hnone, h⟩
    · have hct := (mem_ownCallables.mp hc).2
      refine ⟨c, h, hct.symm ▸ hc, hct ▸ List.mem_cons_self, hroot, fun x hx _ _ _ => ?_⟩
      rwa [hct]
    -- nothing of this root is declared by the type, so everything of it lies on the base
    · have hne : ∀ x ∈ u.ancestors t, ∀ k ∈ u.ownCallables x, k.root.id = n.root.id →
          x ∈ (u.definition t).bases := fun x hx k hk hroot => by
        rcases mem_ancestors_iff.mp hx with rfl | hx
        · exact absurd hroot (hnone k hk)
        · exact hx
      obtain ⟨s, hs, hbases, -⟩ := hu.mem_bases (hne a ha n hn rfl)
      rw [h, hs]
      obtain ⟨c, hc, hlow⟩ := ih s hs (hbases ▸ hne a ha n hn rfl)
      refine ⟨c, hc, hlow.own, ?_, hlow.root_eq, fun x hx k hk hroot => ?_⟩
      · exact mem_ancestors_of_mem_bases (hbases ▸ hlow.mem_ancestors)
      · exact hlow.below x (hbases ▸ hne x hx k hk hroot) k hk hroot

/-! ## What a search below a type finds -/

/-- The types of a line before one of them are those below it. -/
theorem Reachable.mem_takeWhile (hu : u.Reachable) (hb : b ∈ u.ancestors t) :
    a ∈ (u.ancestors t).takeWhile (fun x => x ≠ b) ↔
      a ∈ u.ancestors t ∧ b ∈ (u.definition a).bases := by
  have hline := hu.pairwise_ancestors t
  obtain ⟨before, after, hl, hnot⟩ := List.eq_append_cons_of_mem hb
  rw [hl, List.pairwise_append] at hline
  obtain ⟨-, hafter, hbefore⟩ := hline
  have htake : (before ++ b :: after).takeWhile (fun x => x ≠ b) = before := by
    rw [List.takeWhile_append_of_pos fun x hx => by
      simpa using fun h : x = b => hnot (h ▸ hx)]
    simp
  rw [hl, htake]
  refine ⟨fun h => ⟨List.mem_append_left _ h, hbefore a h b List.mem_cons_self⟩, ?_⟩
  rintro ⟨h, hab⟩
  rcases List.mem_append.mp h with h | h
  · exact h
  -- from the type onwards there is nothing below it
  · rcases List.mem_cons.mp h with rfl | h
    · exact absurd hab (hu.not_mem_bases_self _)
    · have hba := (List.pairwise_cons.mp hafter).1 a h
      exact absurd (mem_ancestors_of_mem_bases hba) (hu.not_mem_ancestors_of_mem_bases hab)

/-- The first type of a line at which a search succeeds lies at or below every other such type. -/
theorem Reachable.findSome?_below (hu : u.Reachable) (hb : b ∈ u.ancestors t)
    {find : TypeRef → Option (Method β)}
    (h : ((u.ancestors t).takeWhile fun x => x ≠ b).findSome? find = some c) :
    ∃ a ∈ u.ancestors t, b ∈ (u.definition a).bases ∧ find a = some c ∧
      ∀ x ∈ u.ancestors t, b ∈ (u.definition x).bases → find x ≠ none → x ∈ u.ancestors a := by
  obtain ⟨before, a, after, hl, ha, hbefore⟩ := List.findSome?_eq_some_iff.mp h
  obtain ⟨hat, hab⟩ := (hu.mem_takeWhile (a := a) hb).mp (by rw [hl]; simp)
  refine ⟨a, hat, hab, ha, fun x hx hxb hne => ?_⟩
  have hxl := (hu.mem_takeWhile hb).mpr ⟨hx, hxb⟩
  have hsub := (hu.pairwise_ancestors t).sublist (List.takeWhile_sublist fun x => decide (x ≠ b))
  rw [hl] at hxl hsub
  rcases List.mem_append.mp hxl with hmem | hmem
  · exact absurd (hbefore x hmem) hne
  · rcases List.mem_cons.mp hmem with rfl | hmem
    · exact List.mem_cons_self
    · have := (List.pairwise_append.mp hsub).2.1
      exact mem_ancestors_of_mem_bases ((List.pairwise_cons.mp this).1 x hmem)

/-! ## Overrides of instance members -/

/-- Whether nothing that a type declares as an override is static. -/
structure OverridesInstances (u : Universe β) (t : TypeRef) : Prop where
  method : ∀ m ∈ u.methods t, m.overridden ≠ [] → m.isStatic = false
  property : ∀ p ∈ u.properties t, p.overridden ≠ [] → p.isStatic = false

/-- Whether every property that a type declares as an override may be overridden again. -/
def OverridesVirtually (u : Universe β) (t : TypeRef) : Prop :=
  ∀ p ∈ u.properties t, p.overridden ≠ [] → p.isVirtual = true

/-- Whether every accessor of a root that a type declares is a virtual instance callable. -/
def DeclaresVirtually (u : Universe β) (root : MemberId) (t : TypeRef) : Prop :=
  ∀ n ∈ u.ownCallables t, n.root.id = root → n.id.role ≠ .method →
    n.isVirtual = true ∧ n.isStatic = false

/-- Accessors that override are as virtual as their properties, and what starts the chain of a
virtual instance callable is one too. -/
theorem OverridesInstances.declaresVirtually (ho : u.OverridesInstances a)
    (hp : u.OverridesVirtually a) (hu : u.Reachable) (hka : u.Knows a) (hkb : u.Knows b)
    (hm : m ∈ u.ownCallables b) (hv : m.isVirtual = true) (hs : m.isStatic = false) :
    u.DeclaresVirtually m.root.id a := by
  intro n hn hroot hrole
  obtain ⟨hna, hdecl⟩ := mem_ownCallables.mp hn
  by_cases hnil : n.overridden = []
  · have hnroot : u.RootOf n n := ⟨(Method.root_of_nil hnil).symm, hdecl ▸ hn, List.mem_cons_self,
      hnil, rfl, .inl rfl⟩
    obtain ⟨r, hr⟩ := hu.exists_root hkb (mem_ownCallables.mp hm).1
    obtain rfl := hu.rootOf_eq hka hna hnroot hr hroot
    rcases hr.isVirtual with rfl | h
    · exact ⟨hv, hs⟩
    · exact h
  · rcases mem_callables.mp hna with hnm | ⟨p, hpa, kind, hnp⟩
    · obtain ⟨i, -, hid⟩ := hu.method_id hka hnm
      exact absurd (by rw [hid]) hrole
    · rcases hu.accessor_cases hka hpa hnp with hown | ⟨q, hq, ⟨hover, hown⟩ | hinh⟩
      · exact absurd hown.overridden hnil
      · exact ⟨hown.isVirtual.trans (hp p hpa hover),
          hown.isStatic.trans (ho.property p hpa hover)⟩
      · obtain ⟨s, hs, -⟩ := hu.nearest_accessor hq hinh
        exact ⟨hs.isVirtual, hs.isStatic⟩

/-! ## Dispatch -/

section Dispatch

variable (hu : u.Reachable) (hk : u.Knows t) (hb : b ∈ u.ancestors t) (hm : m ∈ u.ownCallables b)
  (hv : m.isVirtual = true) (hs : m.isStatic = false)

include hu hk hb hm in
/-- **A type has one callable at most that overrides another.** -/
theorem overrides_unique (ha : a ∈ u.ancestors t) (hc : c ∈ u.callables a)
    (hn : n ∈ u.callables a) (hcm : c.overrides m = true) (hnm : n.overrides m = true) :
    c = n := by
  have hka := hu.knows_of_mem_ancestors hk ha
  have hkb := hu.knows_of_mem_ancestors hk hb
  have hcm := hu.above_of_overrides hka hc hkb hm hcm
  have hnm := hu.above_of_overrides hka hn hkb hm hnm
  exact hu.eq_of_heading hka hc hn (hcm.heading.symm.trans hnm.heading)

omit hb in
include hu hk hm hv hs in
/-- A callable of the same root that lies below overrides. -/
theorem overrides_of_root (ha : a ∈ u.ancestors t) (hba : b ∈ (u.definition a).bases)
    (hn : n ∈ u.ownCallables a) (hroot : n.root.id = m.root.id) : n.overrides m = true := by
  have hka := hu.knows_of_mem_ancestors hk ha
  obtain ⟨hna, hnd⟩ := mem_ownCallables.mp hn
  refine (hu.eq_or_overrides hka hna (mem_ancestors_of_mem_bases hba) hm hv hs hroot).resolve_left
    fun h => ?_
  have hab : a = b := by rw [← hnd, h, (mem_ownCallables.mp hm).2]
  exact hu.not_mem_bases_self b (hab ▸ hba)

include hu hk hb hm in
/-- What overrides a callable, or is it, has its root. -/
theorem root_id_eq (ha : a ∈ u.ancestors t) (hn : n ∈ u.callables a)
    (hnm : n = m ∨ n.overrides m = true) : n.root.id = m.root.id := by
  rcases hnm with rfl | hnm
  · rfl
  · have hka := hu.knows_of_mem_ancestors hk ha
    have hkb := hu.knows_of_mem_ancestors hk hb
    exact congrArg MethodDecl.id (hu.above_of_overrides hka hn hkb hm hnm).root.symm

include hu hb hm hv in
/-- **What dispatch finds**: the callable itself if nothing below overrides it, or else an override
on the first type that has one. -/
theorem dispatch_cases :
    (u.dispatch m t = m ∧ ∀ x ∈ u.ancestors t, b ∈ (u.definition x).bases →
      ∀ k ∈ u.callables x, k.overrides m = false) ∨
    ∃ x ∈ u.ancestors t, u.dispatch m t ∈ u.callables x ∧ (u.dispatch m t).overrides m = true ∧
      ∀ y ∈ u.ancestors t, b ∈ (u.definition y).bases → ∀ k ∈ u.callables y,
        k.overrides m = true → y ∈ u.ancestors x := by
  obtain ⟨-, hmd⟩ := mem_ownCallables.mp hm
  rw [dispatch, if_pos hv, overrideOn?, hmd]
  cases hfound : ((u.ancestors t).takeWhile fun x => x ≠ b).findSome? fun x =>
      (u.callables x).find? fun k => k.overrides m with
  | none =>
    refine .inl ⟨rfl, fun x hx hbx k hkx => ?_⟩
    have hnone := List.findSome?_eq_none_iff.mp hfound x ((hu.mem_takeWhile hb).mpr ⟨hx, hbx⟩)
    simpa using List.find?_eq_none.mp hnone k hkx
  | some c =>
    obtain ⟨x, hx, -, hc, hfirst⟩ := hu.findSome?_below hb hfound
    refine .inr ⟨x, hx, List.mem_of_find?_eq_some hc, (List.find?_some hc :), ?_⟩
    intro y hy hby k hky hkm
    exact hfirst y hy hby fun hnone => List.find?_eq_none.mp hnone k hky hkm

include hu hk hb hm in
/-- An override at or below every other one lies at or below each callable that is known to
override, or to be the one called. -/
theorem mem_ancestors_of_first {x : TypeRef} (hx : x ∈ u.ancestors t) (hcx : c ∈ u.callables x)
    (hcm : c.overrides m = true)
    (hfirst : ∀ y ∈ u.ancestors t, b ∈ (u.definition y).bases → ∀ k ∈ u.callables y,
      k.overrides m = true → y ∈ u.ancestors x)
    (ha : a ∈ u.ancestors t) (hn : n ∈ u.ownCallables a) (hnm : n = m ∨ n.overrides m = true)
    (hnv : n.isVirtual = true) (hns : n.isStatic = false) : a ∈ u.ancestors c.declaring := by
  have hka := hu.knows_of_mem_ancestors hk ha
  have hkb := hu.knows_of_mem_ancestors hk hb
  have hkx := hu.knows_of_mem_ancestors hk hx
  obtain ⟨hna, hnd⟩ := mem_ownCallables.mp hn
  rcases hnm with rfl | hover
  · have hup := (hu.above_of_overrides hkx hcx hkb hm hcm).mem_bases
    exact mem_ancestors_of_mem_bases (hnd ▸ hup)
  · have hba : b ∈ (u.definition a).bases := by
      rw [← (mem_ownCallables.mp hm).2, ← hnd]
      exact (hu.above_of_overrides hka hna hkb hm hover).mem_bases
    have hax := hfirst a ha hba n hna hover
    have hroot := (root_id_eq hu hk hb hm hx hcx (.inr hcm)).trans
      (root_id_eq hu hk hb hm ha hna (.inr hover)).symm
    exact hu.mem_ancestors_of_root hkx hcx hax hn hnv hns hroot

include hu hk hb hm hv hs in
/-- **Dispatch comes to the lowest callable of the root**, if the bases below some callable that
overrides the one called, or is it, declare no accessors of that root but virtual ones of
instances. -/
theorem dispatch_lowest (ha : a ∈ u.ancestors t) (hn : n ∈ u.ownCallables a)
    (hnm : n = m ∨ n.overrides m = true) (hnv : n.isVirtual = true) (hns : n.isStatic = false)
    (hopen : ∀ x ∈ (u.definition t).bases, a ∈ (u.definition x).bases →
      u.DeclaresVirtually m.root.id x) :
    u.Lowest t m.root.id (u.dispatch m t) := by
  obtain ⟨-, hmd⟩ := mem_ownCallables.mp hm
  rcases dispatch_cases hu hb hm hv with ⟨heq, hnone⟩ | ⟨x, hx, hcx, hcm, hfirst⟩
  · rw [heq]
    refine ⟨hmd.symm ▸ hm, hmd.symm ▸ hb, rfl, fun y hy k hky hkroot => ?_⟩
    rw [hmd]
    refine (hu.mem_ancestors_or hb hy).resolve_right fun hby => ?_
    have hover := overrides_of_root hu hk hm hv hs hy hby hky hkroot
    simp [hnone y hy hby k (mem_ownCallables.mp hky).1] at hover
  · generalize u.dispatch m t = c at hcx hcm
    have hac := mem_ancestors_of_first hu hk hb hm hx hcx hcm hfirst ha hn hnm hnv hns
    have hkx := hu.knows_of_mem_ancestors hk hx
    have hcroot := root_id_eq hu hk hb hm hx hcx (.inr hcm)
    have hbc := (hu.above_of_overrides hkx hcx (hu.knows_of_mem_ancestors hk hb) hm hcm).mem_bases
    obtain ⟨hcown, hcup⟩ := hu.mem_ownCallables_declaring hkx hcx
    have hct := hu.ancestors_subset_ancestors hx hcup
    refine ⟨hcown, hct, hcroot, fun y hy k hky hkroot => ?_⟩
    -- a callable of the root below the one found would have been found instead
    refine (hu.mem_ancestors_or hct hy).resolve_right fun hcy => ?_
    have hky' := hu.knows_of_mem_ancestors hk hy
    have hby : b ∈ (u.definition y).bases :=
      hmd ▸ hu.mem_bases_of_mem_ancestors hcy (mem_ancestors_of_mem_bases hbc)
    obtain ⟨hkc, hkd⟩ := mem_ownCallables.mp hky
    have hyx := hfirst y hy hby k hkc (overrides_of_root hu hk hm hv hs hy hby hky hkroot)
    have hhead := hu.heading_eq_of_root hkx hky' hcx hkc (hcroot.trans hkroot.symm)
    rcases mem_ancestors_iff.mp hyx with rfl | hyx'
    · obtain rfl := hu.eq_of_heading hkx hcx hkc hhead
      exact hu.not_mem_bases_self _ (hkd ▸ hcy)
    -- unless it is an accessor that the type found at has taken over from above
    have hrole : k.id.role ≠ .method := fun hrole => by
      have hcm := hu.mem_methods_of_role hkx hcx ((congrArg Prod.fst hhead).trans hrole)
      rw [hu.declaring_of_mem_methods hkx hcm] at hcy
      exact hu.not_mem_ancestors_of_mem_bases hcy (mem_ancestors_of_mem_bases hyx')
    have hyt : y ∈ (u.definition t).bases := by
      rcases mem_ancestors_iff.mp hx with rfl | hx
      · exact hyx'
      · exact hu.mem_bases_of_mem_ancestors hx hyx
    obtain ⟨hkv, hks⟩ := hopen y hyt (hu.mem_bases_of_mem_ancestors hcy hac) k hky hkroot hrole
    exact hu.not_mem_ancestors_of_mem_bases hcy
      (hu.mem_ancestors_of_root hkx hcx hyx hky hkv hks (hcroot.trans hkroot.symm))

include hu hk hb hm hv hs in
/-- **Calling an override is calling what it overrides**, if the bases below it declare no accessors
of the root but virtual ones of instances. -/
theorem dispatch_eq_of_overrides (ha : a ∈ u.ancestors t) (hn : n ∈ u.ownCallables a)
    (hnm : n = m ∨ n.overrides m = true) (hnv : n.isVirtual = true) (hns : n.isStatic = false)
    (hopen : ∀ x ∈ (u.definition t).bases, a ∈ (u.definition x).bases →
      u.DeclaresVirtually m.root.id x) :
    u.dispatch n t = u.dispatch m t := by
  have hroot := root_id_eq hu hk hb hm ha (mem_ownCallables.mp hn).1 hnm
  have hlow := dispatch_lowest hu hk ha hn hnv hns ha hn (.inl rfl) hnv hns (hroot.symm ▸ hopen)
  rw [hroot] at hlow
  exact hu.lowest_unique hk hlow (dispatch_lowest hu hk hb hm hv hs ha hn hnm hnv hns hopen)

/-- The lowest callable of a root is dispatched to itself, virtual or not. -/
theorem Reachable.dispatch_eq_self (hu : u.Reachable) (hk : u.Knows t)
    (h : u.Lowest t root c) : u.dispatch c t = c := by
  cases hv : c.isVirtual with
  | false => simp [dispatch, hv]
  | true =>
    rcases dispatch_cases hu h.mem_ancestors h.own hv with ⟨heq, -⟩ | ⟨x, hx, hn, hover, -⟩
    · exact heq
    generalize u.dispatch c t = n at hn hover
    have hkx := hu.knows_of_mem_ancestors hk hx
    have hkc := hu.knows_of_mem_ancestors hk h.mem_ancestors
    obtain ⟨hno, hnx⟩ := hu.mem_ownCallables_declaring hkx hn
    have hroot := root_id_eq hu hk h.mem_ancestors h.own hx hn (.inr hover)
    have hup := h.below _ (hu.ancestors_subset_ancestors hx hnx) n hno (hroot.trans h.root_eq)
    exact absurd hup (hu.not_mem_ancestors_of_mem_bases
      (hu.above_of_overrides hkx hn hkc h.own hover).mem_bases)

end Dispatch

/-- A type that declares an override itself is where dispatch stops. -/
theorem Reachable.dispatch_eq_own (hu : u.Reachable) (ht : u.Knows t) (hn : n ∈ u.ownCallables t)
    (hs : u.Knows s) (hm : m ∈ u.ownCallables s) (h : n.overrides m = true) :
    u.dispatch m t = n := by
  obtain ⟨hnt, hnd⟩ := mem_ownCallables.mp hn
  have habove := hu.above_of_overrides ht hnt hs hm h
  have hbase : s ∈ (u.definition t).bases := by
    rw [← hnd, ← (mem_ownCallables.mp hm).2]
    exact habove.mem_bases
  have hup := mem_ancestors_of_mem_bases hbase
  rcases dispatch_cases hu hup hm habove.isVirtual with ⟨-, hnone⟩ | ⟨x, hx, hd, hover, hfirst⟩
  · have := hnone t List.mem_cons_self hbase n hnt
    simp [this] at h
  · obtain rfl := hu.eq_of_mem_ancestors hx (hfirst t List.mem_cons_self hbase n hnt h)
    exact overrides_unique hu ht hup hm List.mem_cons_self hd hnt hover h

/-- A call on a target of a type below the declaring one runs what dispatch comes to. -/
theorem Reachable.select_eq (hu : u.Reachable) (hg : (u.flags m.declaring).isGeneric = false)
    (hs : m.isStatic = false) (ht : m.declaring ∈ u.ancestors t) {target : Value}
    (hr : target.runtimeType? = some t) : m.select u target = .ok (u.dispatch m t) := by
  simp [Method.select, hg, hs, hr, hu.isSubtype_of_mem_ancestors ht]

/-- Dispatch that looks at the callables of each type in an order of its own. -/
def dispatchIn (order : TypeRef → List (Method β)) (u : Universe β) (m : Method β)
    (runtime : TypeRef) : Method β :=
  if m.isVirtual then
    (((u.ancestors runtime).takeWhile fun t => t ≠ m.declaring).findSome? fun t =>
      (order t).find? fun n => n.overrides m).getD m
  else m

/-- Lists of the same members, of which one at most is looked for, give the same. -/
theorem find?_eq_of_unique {α : Type} {as bs : List α} {p : α → Bool}
    (hmem : ∀ x, x ∈ as ↔ x ∈ bs)
    (hone : ∀ x ∈ bs, ∀ y ∈ bs, p x = true → p y = true → x = y) : as.find? p = bs.find? p := by
  cases hb : bs.find? p with
  | none =>
    rw [List.find?_eq_none] at hb ⊢
    exact fun x hx => hb x ((hmem x).mp hx)
  | some y =>
    have hy := List.mem_of_find?_eq_some hb
    cases ha : as.find? p with
    | none => exact absurd (List.find?_some hb) (List.find?_eq_none.mp ha y ((hmem y).mpr hy))
    | some x =>
      rw [hone x ((hmem x).mp (List.mem_of_find?_eq_some ha)) y hy (List.find?_some ha)
        (List.find?_some hb)]

instance : Decidable (u.OverridesInstances t) :=
  decidable_of_iff ((∀ m ∈ u.methods t, m.overridden ≠ [] → m.isStatic = false) ∧
    ∀ p ∈ u.properties t, p.overridden ≠ [] → p.isStatic = false)
    ⟨fun h => ⟨h.1, h.2⟩, fun h => ⟨h.method, h.property⟩⟩

instance : Decidable (u.OverridesVirtually t) :=
  inferInstanceAs (Decidable (∀ p ∈ u.properties t, p.overridden ≠ [] → p.isVirtual = true))

/-- The topmost of three classes in line. -/
abbrev topmost : TypeRef := .declared ⟨0, .classType, "A"⟩

/-- The class between. -/
abbrev middle : TypeRef := .declared ⟨1, .classType, "B"⟩

/-- The lowest of the three. -/
abbrev lowest : TypeRef := .declared ⟨2, .classType, "R"⟩

/-- A class with a method and a property, one below that overrides how the property is written, and
one below both that overrides the method and how the property is read. -/
def overridingClasses : Universe ℕ :=
  (((((empty.declare .classType "A").declare .classType "B").declare .classType "R").defineBy
    { target := ⟨0, .classType, "A"⟩
      methods := [{ name := "f", isVirtual := true, body := 1 }]
      properties := [{ name := "P", type := .primitive .i32, isVirtual := true,
                       getter? := some 2, setter? := some 3 }] }).defineBy
    { target := ⟨1, .classType, "B"⟩
      extends? := some topmost
      properties := [{ name := "P", type := .primitive .i32, isOverride := true,
                       setter? := some 4 }] }).defineBy
    { target := ⟨2, .classType, "R"⟩
      extends? := some middle
      methods := [{ name := "f", isOverride := true, body := 5 }]
      properties := [{ name := "P", type := .primitive .i32, isOverride := true,
                       getter? := some 6 }] }

theorem reachable_overridingClasses : overridingClasses.Reachable :=
  .defineBy (.defineBy (.defineBy (.declare _ _ (.declare _ _ (.declare _ _ .empty)))
    (by decide) (by decide) (by decide) (by decide))
    (by decide) (by decide) (by decide) (by decide))
    (by decide) (by decide) (by decide) (by decide)

/-- How the topmost of the three classes has its property written. -/
def topmostSetter : Method ℕ where
  id := ⟨topmost, .setter, 0⟩
  name := "set_P"
  parameters := [⟨"value", .primitive .i32, .plain⟩]
  returns? := none
  visibility := .everyone
  isStatic := false
  isVirtual := true
  attributes := []
  body := 3
  overridden := []

/-- A class below the three. -/
abbrev bottommost : TypeRef := .declared ⟨3, .classType, "C"⟩

/-- A class with a property, one below that overrides how it is read, one below both that does so
once and for all, and one below all that overrides the property but not how it is read. -/
def sealedOverride : Universe ℕ :=
  (((((((empty.declare .classType "A").declare .classType "B").declare .classType "R").declare
    .classType "C").defineBy
    { target := ⟨0, .classType, "A"⟩
      properties := [{ name := "P", type := .primitive .i32, isVirtual := true,
                       getter? := some 1 }] }).defineBy
    { target := ⟨1, .classType, "B"⟩
      extends? := some topmost
      properties := [{ name := "P", type := .primitive .i32, isOverride := true,
                       getter? := some 2 }] }).defineBy
    { target := ⟨2, .classType, "R"⟩
      extends? := some middle
      properties := [{ name := "P", type := .primitive .i32, isOverride := true,
                       isVirtual := false, getter? := some 3 }] }).defineBy
    { target := ⟨3, .classType, "C"⟩
      extends? := some lowest
      properties := [{ name := "P", type := .primitive .i32, isOverride := true }] }

theorem reachable_sealedOverride : sealedOverride.Reachable :=
  .defineBy (.defineBy (.defineBy (.defineBy (.declare _ _ (.declare _ _ (.declare _ _
    (.declare _ _ .empty))))
    (by decide) (by decide) (by decide) (by decide))
    (by decide) (by decide) (by decide) (by decide))
    (by decide) (by decide) (by decide) (by decide))
    (by decide) (by decide) (by decide) (by decide)

/-- How the topmost of the four classes has its property read. -/
def topmostGetter : Method ℕ where
  id := ⟨topmost, .getter, 0⟩
  name := "get_P"
  parameters := []
  returns? := some (.primitive .i32)
  visibility := .everyone
  isStatic := false
  isVirtual := true
  attributes := []
  body := 1
  overridden := []

end Reflection.Universe
