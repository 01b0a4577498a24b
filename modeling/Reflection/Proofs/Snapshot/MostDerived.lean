import Reflection.Proofs.Snapshot.Coherence
import Reflection.Proofs.Universe.Checked
import Reflection.Proofs.Universe.Open
import Reflection.Proofs.World.Slots

/-!
# Proofs/Snapshot/MostDerived — which member a name stands for

    the rules of a filter  ──mem_accessors_iff──▸  a listing, in any order
                                                      │ build
                                                      ▾
                          a name  ──get?_iff──▸  the most derived member of it that is shown

A collection keeps one member per name and puts one in the place of another where it hides it.  The
members that a listing shows under one name are declared along one line, so that of two of them one
hides the other (`Chained`).  Then what is kept is the least of them, in whatever order they come,
and the order decides about the order of names only: each name has the place of its first member.
-/

namespace Reflection

variable {β : Type}

/-! ## Collections in any order -/

namespace MemberCollection

variable {u : Universe β} {a b x : Accessor β} {as bs : List (Accessor β)}
  {c d : MemberCollection β} {name : String}

/-- What stands for a name once one more member has come. -/
theorem find?_insert (u : Universe β) (a : Accessor β) (as : List (Accessor β)) (name : String) :
    (insert u a as).find? (fun b => b.name = name) =
      if a.name = name then
        some (match as.find? fun b => b.name = name with
          | none => a
          | some b => if hides u a b then a else b)
      else as.find? fun b => b.name = name := by
  induction as with
  | nil =>
    by_cases h : a.name = name <;> simp [insert, h]
  | cons b as ih =>
    rw [insert]
    by_cases hb : b.name = a.name
    · by_cases h : a.name = name <;> by_cases hh : hides u a b <;> simp [hb, h, hh]
    · rw [if_neg hb]
      by_cases h : b.name = name
      · have hne : ¬ a.name = name := fun ha => hb (h.trans ha.symm)
        simp [h, hne]
      · simp [h, ih]

/-- A member that comes under a new name comes last, and any other one changes no name. -/
theorem names_insert (u : Universe β) (a : Accessor β) (as : List (Accessor β)) :
    (insert u a as).map Accessor.name =
      if a.name ∈ as.map Accessor.name then as.map Accessor.name
      else as.map Accessor.name ++ [a.name] := by
  induction as with
  | nil => simp [insert]
  | cons b as ih =>
    rw [insert]
    by_cases hb : b.name = a.name
    · by_cases hh : hides u a b <;> simp [hb, hh]
    · simp only [if_neg hb, List.map_cons, ih, List.mem_cons, Ne.symm hb, false_or]
      split <;> simp

/-- **The names of a collection** are in the order in which they first come. -/
theorem names_build (u : Universe β) (as : List (Accessor β)) :
    (build u as).names = (as.map Accessor.name).eraseDups := by
  rw [names]
  induction as using List.reverseRecOn with
  | nil => rfl
  | append_singleton as a ih =>
    rw [build_concat, names_insert, ih, List.map_append, List.map_singleton, eraseDups_concat]
    simp only [List.mem_eraseDups]

theorem nodup_names_build (u : Universe β) (as : List (Accessor β)) :
    (build u as).names.Nodup := by
  rw [names_build]
  exact nodup_eraseDups _

theorem contains_iff_mem_names : c.contains name = true ↔ name ∈ c.names := by
  simp [contains, get?, names, List.find?_isSome]

theorem contains_build : (build u as).contains name = true ↔ ∃ a ∈ as, a.name = name := by
  rw [contains_iff_mem_names, names_build, List.mem_eraseDups, List.mem_map]

/-- Under distinct names, a name stands for whatever member has it. -/
theorem get?_eq_some_iff (hc : c.names.Nodup) :
    c.get? name = some a ↔ a ∈ c.members ∧ a.name = name := by
  refine ⟨fun h => ⟨List.mem_of_find?_eq_some h, by simpa using List.find?_some h⟩, ?_⟩
  rintro ⟨ha, rfl⟩
  obtain ⟨b, hb⟩ := Option.isSome_iff_exists.mp
    (contains_iff_mem_names.mpr (List.mem_map_of_mem ha))
  have hname : b.name = a.name := by simpa using List.find?_some hb
  rw [hb, List.inj_on_of_nodup_map hc (List.mem_of_find?_eq_some hb) ha hname]

/-- **Collections are the same** if every name stands for one member in both. -/
theorem same_of_get?_eq (hc : c.names.Nodup) (hd : d.names.Nodup)
    (h : ∀ name, c.get? name = d.get? name) : c.same d = true := by
  have hnames : c.names.Perm d.names :=
    (List.perm_ext_iff_of_nodup hc hd).mpr fun name => by
      rw [← contains_iff_mem_names, ← contains_iff_mem_names, contains, contains, h]
  have hsize : c.size = d.size := by simpa [names, size] using hnames.length_eq
  simp only [same, hsize, beq_self_eq_true, Bool.true_and, List.all_eq_true]
  intro a ha
  rw [← h, (get?_eq_some_iff hc).mpr ⟨ha, rfl⟩]
  simp [Accessor.same]

/-! ## Members that hide one another -/

/-- **Members in a chain**: of two members of one name one hides the other, as in an order. -/
structure Chained (u : Universe β) (as : List (Accessor β)) : Prop where
  eq_or_hides : ∀ a ∈ as, ∀ b ∈ as, a.name = b.name →
    b = a ∨ hides u a b = true ∨ hides u b a = true
  asymm : ∀ a ∈ as, ∀ b ∈ as, hides u a b = true → hides u b a = false
  trans : ∀ a ∈ as, ∀ b ∈ as, ∀ x ∈ as, hides u a b = true → hides u b x = true →
    hides u a x = true

theorem Chained.mono (h : Chained u as) (hsub : bs ⊆ as) : Chained u bs where
  eq_or_hides a ha b hb := h.eq_or_hides a (hsub ha) b (hsub hb)
  asymm a ha b hb := h.asymm a (hsub ha) b (hsub hb)
  trans a ha b hb x hx := h.trans a (hsub ha) b (hsub hb) x (hsub hx)

/-- What is kept of a chain under a name hides everything else of that name. -/
theorem Chained.hides_of_get? (h : Chained u as) (ha : (build u as).get? name = some a) :
    a ∈ as ∧ a.name = name ∧ ∀ b ∈ as, b.name = name → b = a ∨ hides u a b = true := by
  induction as using List.reverseRecOn generalizing a with
  | nil => simp [build, get?] at ha
  | append_singleton as x ih =>
    have ih {a} := ih (a := a) (h.mono (List.subset_append_left _ _))
    have hget : (build u (as ++ [x])).get? name =
        if x.name = name then
          some (match (build u as).get? name with
            | none => x
            | some b => if hides u x b then x else b)
        else (build u as).get? name := by
      rw [get?, build_concat, find?_insert]
      rfl
    rw [hget] at ha
    have hx : x ∈ as ++ [x] := by simp
    have left {y} (hy : y ∈ as) : y ∈ as ++ [x] := List.mem_append_left _ hy
    -- what comes last, or came before
    have cases_of_mem {b} (hb : b ∈ as ++ [x]) : b = x ∨ b ∈ as := by
      simpa [or_comm] using hb
    by_cases hname : x.name = name
    · rw [if_pos hname, Option.some.injEq] at ha
      cases hbefore : (build u as).get? name with
      | none =>
        obtain rfl : x = a := by simpa [hbefore] using ha
        refine ⟨hx, hname, fun b hb hbn => (cases_of_mem hb).imp_right fun hb => ?_⟩
        have : (build u as).contains name = true := contains_build.mpr ⟨b, hb, hbn⟩
        simp [contains, hbefore] at this
      | some k =>
        obtain ⟨hk, hkn, hkeeps⟩ := ih hbefore
        by_cases hxk : hides u x k = true
        · obtain rfl : x = a := by simpa [hbefore, hxk] using ha
          refine ⟨hx, hname, fun b hb hbn => (cases_of_mem hb).imp_right fun hb => ?_⟩
          rcases hkeeps b hb hbn with rfl | hkb
          · exact hxk
          · exact h.trans x hx k (left hk) b (left hb) hxk hkb
        · obtain rfl : k = a := by simpa [hbefore, hxk] using ha
          refine ⟨left hk, hkn, fun b hb hbn => ?_⟩
          rcases cases_of_mem hb with rfl | hb
          · rcases h.eq_or_hides k (left hk) b hx (hkn.trans hbn.symm) with heq | hkb | hbk
            exacts [.inl heq, .inr hkb, absurd hbk hxk]
          · exact hkeeps b hb hbn
    · rw [if_neg hname] at ha
      obtain ⟨ha, han, hkeeps⟩ := ih ha
      refine ⟨left ha, han, fun b hb hbn => ?_⟩
      rcases cases_of_mem hb with rfl | hb
      · exact absurd hbn hname
      · exact hkeeps b hb hbn

/-- **A name stands for the member that hides all others of that name**, in whatever order they
come. -/
theorem Chained.get?_build_iff (h : Chained u as) : (build u as).get? name = some a ↔
    a ∈ as ∧ a.name = name ∧ ∀ b ∈ as, b.name = name → b = a ∨ hides u a b = true := by
  refine ⟨h.hides_of_get?, fun ⟨ha, han, hleast⟩ => ?_⟩
  obtain ⟨k, hk⟩ := Option.isSome_iff_exists.mp (contains_build.mpr ⟨a, ha, han⟩)
  obtain ⟨hkas, hkn, hkleast⟩ := h.hides_of_get? hk
  rw [hk]
  rcases hleast k hkas hkn with rfl | hak
  · rfl
  · rcases hkleast a ha han with rfl | hka
    · rfl
    · simp [h.asymm a ha k hkas hak] at hka

end MemberCollection

/-! ## Fields and properties alike -/

/-- What a snapshot collects by name. -/
inductive CollectionKind where
  | fields
  | properties

/-- The accessors of the fields, or of the properties, that a type declares. -/
def Universe.accessors (u : Universe β) : CollectionKind → TypeRef → List (Accessor β)
  | .fields, t => (u.fields t).map .field
  | .properties, t => (u.properties t).map .property

/-- The accessors that a provider lists of a kind. -/
def Provider.accessors (p : Provider β) (kind : CollectionKind) (u : Universe β) (t : TypeRef)
    (f : MemberFilter) : List (Accessor β) :=
  match kind with
  | .fields => (p.fields u t f).map .field
  | .properties => (p.properties u t f).map .property

/-- The collection that a snapshot has of a kind. -/
def Snapshot.collection (s : Snapshot β) : CollectionKind → MemberCollection β
  | .fields => s.fields
  | .properties => s.properties

theorem Snapshot.collection_build (p : Provider β) (kind : CollectionKind) (u : Universe β)
    (t : TypeRef) (f : MemberFilter) :
    (build p u t f).collection kind = .build u (p.accessors kind u t f) := by
  cases kind <;> rfl

/-- A listing goes by what filters ask of a member, so it may be taken of the members or of anything
else that has the same answers. -/
theorem MemberFilter.map_collect {μ ν : Type} [Member μ] [Member ν] (wrap : μ → ν)
    (hv : ∀ m, Member.visibility (wrap m) = Member.visibility m)
    (hs : ∀ m, Member.isStatic (wrap m) = Member.isStatic m) (f : MemberFilter)
    (declared : TypeRef → List μ) (line : List TypeRef) :
    (f.collect declared line).map wrap = f.collect (fun t => (declared t).map wrap) line := by
  have hown : f.takesOwn ∘ wrap = f.takesOwn := by
    funext m
    simp [takesOwn, hv, hs]
  have hinherited : f.takesInherited ∘ wrap = f.takesInherited := by
    funext m
    simp [takesInherited, takesOwn, hv, hs]
  cases line with
  | nil => rfl
  | cons t line =>
    simp only [collect, List.map_append, List.filter_map, hown, hinherited]
    split <;> simp [List.map_flatMap]

theorem MemberFilter.takesOwn_iff {f : MemberFilter} {a : Accessor β} : f.takesOwn a = true ↔
    f.admits a.visibility = true ∧ f.admitsBinding a.isStatic = true := by
  simp [takesOwn, selects, Member.visibility, Member.isStatic]

theorem MemberFilter.takesInherited_iff {f : MemberFilter} {a : Accessor β} :
    f.takesInherited a = true ↔ a.visibility ≠ .ownType ∧ (a.isStatic = true → f.flatten = true) ∧
      f.takesOwn a = true := by
  cases h : a.isStatic <;>
    simp [takesInherited, Member.visibility, Member.isStatic, h, and_assoc]

theorem Provider.accessors_reflector (kind : CollectionKind) (u : Universe β) (t : TypeRef)
    (f : MemberFilter) :
    reflector.accessors kind u t f = f.collect (u.accessors kind) (u.ancestors t) := by
  cases kind with
  | fields =>
    exact f.map_collect Accessor.field (fun _ => rfl) (fun _ => rfl) u.fields (u.ancestors t)
  | properties =>
    exact f.map_collect Accessor.property (fun _ => rfl) (fun _ => rfl) u.properties (u.ancestors t)

namespace Universe

variable {u : Universe β} {kind : CollectionKind} {f : MemberFilter} {t : TypeRef}
  {a b : Accessor β} {as : List (Accessor β)}

theorem Reachable.declaring_of_mem_accessors (hu : u.Reachable) (hk : u.Knows t)
    (ha : a ∈ u.accessors kind t) : a.declaring = t := by
  cases kind with
  | fields =>
    obtain ⟨x, hx, rfl⟩ := List.mem_map.mp ha
    exact hu.declaring_of_mem_fields hk hx
  | properties =>
    obtain ⟨p, hp, rfl⟩ := List.mem_map.mp ha
    exact hu.declaring_of_mem_properties hk hp

/-- No two fields of a type have one name. -/
theorem Reachable.nodup_fields (hu : u.Reachable) (hk : u.Knows t) :
    ((u.fields t).map Field.name).Nodup := by
  rcases hu.definition_cases t with hx | hx | ⟨v, b, c, ho, -, hself⟩
  · simp [fields, hx]
  · simp [fields, (members_of_builtin? hx).2.1]
  · exact hself hk ▸ ho.nodup_fields

/-- A type declares one member of a kind and a name at most. -/
theorem Reachable.eq_of_name (hu : u.Reachable) (hk : u.Knows t) (ha : a ∈ u.accessors kind t)
    (hb : b ∈ u.accessors kind t) (hname : a.name = b.name) : a = b := by
  refine List.inj_on_of_nodup_map ?_ ha hb hname
  cases kind with
  | fields =>
    rw [accessors, List.map_map]
    exact hu.nodup_fields hk
  | properties =>
    rw [accessors, List.map_map]
    exact hu.nodup_properties hk

/-! ## The rules of a filter -/

/-- **What a filter shows of a type**: a member that is declared by the type or an ancestor, and
that the filter selects; one of an ancestor only if the filter does not stop at the type itself, if
the member is not private and if it is no static one, unless the hierarchy is flattened. -/
structure Shows (u : Universe β) (kind : CollectionKind) (f : MemberFilter) (t : TypeRef)
    (a : Accessor β) : Prop where
  onLine : a.declaring ∈ u.ancestors t
  declared : a ∈ u.accessors kind a.declaring
  visible : f.admits a.visibility = true
  binding : f.admitsBinding a.isStatic = true
  inherited : a.declaring ≠ t →
    f.declaredOnly = false ∧ a.visibility ≠ .ownType ∧ (a.isStatic = true → f.flatten = true)

/-- **The reflector lists what the filter shows**, and nothing else. -/
theorem Reachable.mem_accessors_iff (hu : u.Reachable) (hk : u.Knows t) :
    a ∈ Provider.reflector.accessors kind u t f ↔ u.Shows kind f t a := by
  rw [Provider.accessors_reflector, ancestors, MemberFilter.mem_collect]
  constructor
  · rintro (⟨ha, hown⟩ | ⟨honly, b, hb, ha, htaken⟩)
    · have hd := hu.declaring_of_mem_accessors hk ha
      obtain ⟨hv, hs⟩ := MemberFilter.takesOwn_iff.mp hown
      exact ⟨mem_ancestors_iff.mpr (.inl hd), hd.symm ▸ ha, hv, hs, fun hne => absurd hd hne⟩
    · have hd := hu.declaring_of_mem_accessors (hu.knows_of_mem_bases hb) ha
      obtain ⟨hprivate, hflatten, hown⟩ := MemberFilter.takesInherited_iff.mp htaken
      obtain ⟨hv, hs⟩ := MemberFilter.takesOwn_iff.mp hown
      exact ⟨hd.symm ▸ mem_ancestors_of_mem_bases hb, hd.symm ▸ ha, hv, hs,
        fun _ => ⟨honly, hprivate, hflatten⟩⟩
  · intro h
    have hown := MemberFilter.takesOwn_iff.mpr ⟨h.visible, h.binding⟩
    rcases mem_ancestors_iff.mp h.onLine with hd | hd
    · exact .inl ⟨hd ▸ h.declared, hown⟩
    · have hne : a.declaring ≠ t := fun heq => hu.not_mem_bases_self t (heq ▸ hd)
      obtain ⟨honly, hprivate, hflatten⟩ := h.inherited hne
      exact .inr ⟨honly, _, hd, h.declared,
        MemberFilter.takesInherited_iff.mpr ⟨hprivate, hflatten, hown⟩⟩

/-! ## Hiding along a line -/

/-- Along a line, what is declared below hides what is declared above. -/
theorem Reachable.hides_iff (hu : u.Reachable) (hk : u.Knows t) (ha : a.declaring ∈ u.ancestors t)
    (hb : b.declaring ∈ u.ancestors t) : MemberCollection.hides u a b = true ↔
      b.declaring ∈ (u.definition a.declaring).bases := by
  simp only [MemberCollection.hides, Bool.and_eq_true, decide_eq_true_eq]
  constructor
  · rintro ⟨hne, hsub⟩
    rcases hu.mem_ancestors_or ha hb with h | h
    · exact (mem_ancestors_iff.mp h).resolve_left (Ne.symm hne)
    · simp [hu.isSubtype_eq_false (hu.knows_of_mem_ancestors hk hb) h] at hsub
  · intro h
    refine ⟨fun heq => hu.not_mem_bases_self _ (heq ▸ h), ?_⟩
    exact hu.isSubtype_of_mem_ancestors (mem_ancestors_of_mem_bases h)

/-- **What a filter shows is a chain** under every name. -/
theorem Reachable.chained (hu : u.Reachable) (hk : u.Knows t)
    (has : ∀ a ∈ as, u.Shows kind f t a) : MemberCollection.Chained u as where
  eq_or_hides a ha b hb hname := by
    have hka := hu.knows_of_mem_ancestors hk (has a ha).onLine
    rw [hu.hides_iff hk (has a ha).onLine (has b hb).onLine,
      hu.hides_iff hk (has b hb).onLine (has a ha).onLine]
    rcases hu.mem_ancestors_or (has a ha).onLine (has b hb).onLine with h | h
    · refine (mem_ancestors_iff.mp h).imp (fun heq => ?_) .inl
      exact hu.eq_of_name hka (heq ▸ (has b hb).declared) (has a ha).declared hname.symm
    · exact .inr (.inr h)
  asymm a ha b hb h := by
    rw [hu.hides_iff hk (has a ha).onLine (has b hb).onLine] at h
    rw [← Bool.not_eq_true, hu.hides_iff hk (has b hb).onLine (has a ha).onLine]
    exact fun h' => hu.not_mem_ancestors_of_mem_bases h (mem_ancestors_of_mem_bases h')
  trans a ha b hb x hx hab hbx := by
    rw [hu.hides_iff hk (has a ha).onLine (has b hb).onLine] at hab
    rw [hu.hides_iff hk (has b hb).onLine (has x hx).onLine] at hbx
    rw [hu.hides_iff hk (has a ha).onLine (has x hx).onLine]
    exact hu.mem_bases_of_mem_ancestors hab (mem_ancestors_of_mem_bases hbx)

/-- Whether one type of a line is a subtype of another has an answer: no interface is looked for. -/
theorem Reachable.isSubtype?_of_mem_ancestors (hu : u.Reachable) (hk : u.Knows t) {x y : TypeRef}
    (hx : x ∈ u.ancestors t) (hy : y ∈ u.ancestors t) :
    u.isSubtype? x y = some (u.isSubtype x y) := by
  refine (isSubtype?_eq_some_iff hu).mpr ⟨?_, isSubtype_iff_conforms hu⟩
  by_cases hxy : x = y
  · subst hxy
    exact not_loops_self x
  -- a type of the line that is no class is the first one
  have first {z : TypeRef} (hz : z ∈ u.ancestors t) (hclass : z.isClass = false) : z = t := by
    refine (mem_ancestors_iff.mp hz).resolve_right fun h => ?_
    simp [hu.isClass_of_mem_bases h] at hclass
  rw [loops_iff (fun x' y' hx' hy' => hxy ?_)]
  · rintro ⟨-, hinterface, -⟩
    obtain rfl := first hy (by
      cases y <;> simp_all [TypeRef.isInterface, TypeRef.isClass, TypeRef.hasKind])
    have hbases := hu.bases_of_isInterface hinterface hk
    rcases mem_ancestors_iff.mp hx with h | h
    · exact hxy h
    · simp [hbases] at h
  · rw [first hx (by rw [hx']; rfl), first hy (by rw [hy']; rfl)]

/-! ## The most derived member -/

/-- **A collection that binds names to their most derived members**, of what a filter shows. -/
structure BindsMostDerived (u : Universe β) (kind : CollectionKind) (f : MemberFilter)
    (t : TypeRef) (c : MemberCollection β) : Prop where
  /-- A name is bound if a member of it is shown. -/
  contains_iff : ∀ name, c.contains name = true ↔ ∃ a, u.Shows kind f t a ∧ a.name = name
  /-- It is bound to the one below all others of that name. -/
  get?_iff : ∀ name a, c.get? name = some a ↔ u.Shows kind f t a ∧ a.name = name ∧
    ∀ b, u.Shows kind f t b → b.name = name → b.declaring ∈ u.ancestors a.declaring

theorem BindsMostDerived.get?_eq {c d : MemberCollection β} (hc : u.BindsMostDerived kind f t c)
    (hd : u.BindsMostDerived kind f t d) (name : String) : c.get? name = d.get? name :=
  Option.ext fun a => by rw [hc.get?_iff, hd.get?_iff]

theorem Reachable.bindsMostDerived (hu : u.Reachable) (hk : u.Knows t)
    (has : ∀ a, a ∈ as ↔ u.Shows kind f t a) :
    u.BindsMostDerived kind f t (.build u as) where
  contains_iff name := by simp only [MemberCollection.contains_build, has]
  get?_iff name a := by
    simp only [(hu.chained hk fun a ha => (has a).mp ha).get?_build_iff, has]
    refine and_congr_right fun ha => and_congr_right fun hname => forall_congr' fun b =>
      forall_congr' fun hb => forall_congr' fun hbn => ?_
    rw [hu.hides_iff hk ha.onLine hb.onLine, mem_ancestors_iff]
    refine or_congr_left ⟨fun h => h ▸ rfl, fun h => ?_⟩
    -- a type declares one member of a name
    exact hu.eq_of_name (hu.knows_of_mem_ancestors hk hb.onLine) hb.declared
      (h.symm ▸ ha.declared) (hbn.trans hname.symm)

/-- **A listing in any order**, and what it makes of the collection of a snapshot. -/
structure Rearranged (u : Universe β) (kind : CollectionKind) (f : MemberFilter) (t : TypeRef)
    (as : List (Accessor β)) (c : MemberCollection β) : Prop where
  /-- The collection binds the same names to the same members. -/
  get?_eq : ∀ name, (MemberCollection.build u as).get? name = c.get? name
  same : (MemberCollection.build u as).same c = true
  same' : c.same (MemberCollection.build u as) = true
  /-- Each name comes once, at the place of its first member. -/
  names_eq : (MemberCollection.build u as).names = (as.map Accessor.name).eraseDups
  names_nodup : (MemberCollection.build u as).names.Nodup
  /-- Every question about hiding that comes up has an answer. -/
  answered : ∀ a ∈ as, ∀ b ∈ as,
    u.isSubtype? a.declaring b.declaring = some (u.isSubtype a.declaring b.declaring)

/-- **Snapshots bind names to their most derived members**: in every reachable universe, a snapshot
of any known type under any filter has a name exactly if the filter shows a member of it, and then
the most derived one; and the listing in any other order makes the same collection, with the names
in the order in which they first come. -/
theorem Reachable.collection_most_derived (hu : u.Reachable) (hk : u.Knows t)
    (kind : CollectionKind) (f : MemberFilter) :
    u.BindsMostDerived kind f t ((Snapshot.build .reflector u t f).collection kind) ∧
      ∀ as, as.Perm (Provider.reflector.accessors kind u t f) →
        u.Rearranged kind f t as ((Snapshot.build .reflector u t f).collection kind) := by
  rw [Snapshot.collection_build]
  have hlisted : u.BindsMostDerived kind f t (.build u (Provider.reflector.accessors kind u t f)) :=
    hu.bindsMostDerived hk fun a => hu.mem_accessors_iff hk
  refine ⟨hlisted, fun as hperm => ?_⟩
  have hmem (a : Accessor β) : a ∈ as ↔ u.Shows kind f t a :=
    hperm.mem_iff.trans (hu.mem_accessors_iff hk)
  have hget := (hu.bindsMostDerived hk hmem).get?_eq hlisted
  have hnodup := MemberCollection.nodup_names_build u as
  have hnodup' := MemberCollection.nodup_names_build u (Provider.reflector.accessors kind u t f)
  exact {
    get?_eq := hget
    same := MemberCollection.same_of_get?_eq hnodup hnodup' hget
    same' := MemberCollection.same_of_get?_eq hnodup' hnodup fun name => (hget name).symm
    names_eq := MemberCollection.names_build u as
    names_nodup := hnodup
    answered := fun a ha b hb =>
      hu.isSubtype?_of_mem_ancestors hk ((hmem a).mp ha).onLine ((hmem b).mp hb).onLine }

end Universe

/-- Of a class whose field hides that of its base, the listing backwards makes the same collection,
with the names the other way round. -/
theorem collection_most_derived_hidingWorld :
    hidingWorld.types.BindsMostDerived .fields .all (.declared ⟨1, .classType, "B"⟩)
        (Snapshot.build .reflector hidingWorld.types (.declared ⟨1, .classType, "B"⟩) .all).fields ∧
      (MemberCollection.build hidingWorld.types (Provider.reflector.accessors .fields
          hidingWorld.types (.declared ⟨1, .classType, "B"⟩) .all).reverse).same
        (Snapshot.build .reflector hidingWorld.types (.declared ⟨1, .classType, "B"⟩) .all).fields ∧
      (MemberCollection.build hidingWorld.types (Provider.reflector.accessors .fields
        hidingWorld.types (.declared ⟨1, .classType, "B"⟩) .all).reverse).names = ["x", "limit"] :=
  have h := hosted_hidingWorld.tallies.types.collection_most_derived
    (t := .declared ⟨1, .classType, "B"⟩) (by decide) .fields .all
  have hreversed := h.2 _ (List.reverse_perm _)
  ⟨h.1, hreversed.same, hreversed.names_eq.trans (by decide)⟩

end Reflection
