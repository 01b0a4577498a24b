import Reflection.Proofs.Snapshot.Listing
import Reflection.Proofs.World.Hosted

/-!
# Proofs/Snapshot/Coherence — kept snapshots and fresh ones

    Extends  ──Settled──▸  a type that keeps its definition keeps its snapshot   (build_eq)
                              │
    Step     ──BuiltSince──▸  a kept snapshot is one built since the key was free
                              │
                           a kept snapshot is the fresh one   (snapshot_eq_build)

A cache keeps a snapshot for ever, and nothing in it changes when its type is defined.  So a kept
snapshot is the one that would be built now exactly as far as the type was defined before it was
first asked for, or still is not: whatever else is declared and defined in between, everything that
a snapshot is made of is on the line of its type, and settled with it.
-/

namespace Reflection

open Relation

variable {β : Type}

/-! ## A type that keeps its definition -/

namespace Universe

variable {u v : Universe β} {t a : TypeRef} {f : Field}

theorem Reachable.declaring_of_mem_fields (hu : u.Reachable) (hk : u.Knows t)
    (hf : f ∈ u.fields t) : f.declaring = t := by
  rw [fields] at hf
  rcases hu.definition_cases t with hx | hx | ⟨v, b, c, ho, hx, hself⟩
  · simp [hx] at hf
  · simp [(members_of_builtin? hx).2.1] at hf
  · obtain ⟨base?, hp⟩ := ho.exists_passes
    rw [hx, hp.fields] at hf
    obtain ⟨_, -, hd, -⟩ := Blueprint.exists_spec _ _ hf
    rw [hd, hself hk]

/-- A later universe in which a type is what it was: as defined as before, or as undefined. -/
structure Keeps (u v : Universe β) (t : TypeRef) : Prop where
  before : u.Reachable
  after : v.Reachable
  grown : u.Extends v
  known : u.Knows t
  definition? : v.definition? t = u.definition? t

namespace Keeps

theorem definition_eq (h : Keeps u v t) : v.definition t = u.definition t := by
  rw [definition, definition, h.definition?]

theorem ancestors_eq (h : Keeps u v t) : v.ancestors t = u.ancestors t := by
  rw [ancestors, ancestors, h.definition_eq]

/-- What is above such a type is what it was, too: it was defined before the type. -/
theorem of_mem_ancestors (h : Keeps u v t) (ha : a ∈ u.ancestors t) : Keeps u v a := by
  refine ⟨h.before, h.after, h.grown, h.before.knows_of_mem_ancestors h.known ha, ?_⟩
  rcases mem_ancestors_iff.mp ha with rfl | ha
  · exact h.definition?
  · obtain ⟨x, hx⟩ := Option.isSome_iff_exists.mp (h.before.isDefined_of_mem_bases ha)
    rw [hx, h.grown.definition? hx]

/-- Along its line, subtyping is what it was. -/
theorem isSubtype_eq (h : Keeps u v t) {a b : TypeRef} (ha : a ∈ u.ancestors t)
    (hb : b ∈ u.ancestors t) : v.isSubtype a b = u.isSubtype a b := by
  have hka := h.of_mem_ancestors ha
  have hkb := h.of_mem_ancestors hb
  rcases h.before.mem_ancestors_or ha hb with hab | hab
  · rw [h.before.isSubtype_of_mem_ancestors hab,
      h.after.isSubtype_of_mem_ancestors (hka.ancestors_eq.symm ▸ hab)]
  · rw [h.before.isSubtype_eq_false hkb.known hab,
      h.after.isSubtype_eq_false (h.grown.knows hkb.known) (hkb.definition_eq.symm ▸ hab)]

end Keeps

end Universe

/-! ## Providers -/

/-- What a provider owes to a cache: it lists the same of a type that keeps its definition, and lists
fields and properties from nowhere but the line of the type. -/
structure Provider.Settled (p : Provider β) : Prop where
  fields : ∀ {u v : Universe β} {t}, u.Keeps v t → ∀ f, p.fields v t f = p.fields u t f
  properties : ∀ {u v : Universe β} {t}, u.Keeps v t → ∀ f, p.properties v t f = p.properties u t f
  methods : ∀ {u v : Universe β} {t}, u.Keeps v t → ∀ f, p.methods v t f = p.methods u t f
  constructors : ∀ {u v : Universe β} {t}, u.Keeps v t → p.constructors v t = p.constructors u t
  attributes : ∀ {u v : Universe β} {t}, u.Keeps v t →
    p.attributes v (.type t) = p.attributes u (.type t)
  field_declaring : ∀ {u : Universe β} {t f x}, u.Reachable → u.Knows t → x ∈ p.fields u t f →
    x.declaring ∈ u.ancestors t
  property_declaring : ∀ {u : Universe β} {t f x}, u.Reachable → u.Knows t →
    x ∈ p.properties u t f → x.declaring ∈ u.ancestors t

theorem MemberFilter.collect_congr {μ : Type} [Member μ] {declared declared' : TypeRef → List μ}
    {line : List TypeRef} (h : ∀ a ∈ line, declared a = declared' a) (f : MemberFilter) :
    f.collect declared line = f.collect declared' line := by
  cases line with
  | nil => rfl
  | cons t line =>
    rw [collect, collect, h t List.mem_cons_self]
    congr 2
    exact List.flatMap_congr fun a ha => by rw [h a (List.mem_cons_of_mem _ ha)]

/-- Of a type that keeps its definition, the same members are declared along the line. -/
theorem Universe.Keeps.collect_eq {μ : Type} [Member μ] {u v : Universe β} {t : TypeRef}
    (h : u.Keeps v t) (members : Definition β → List μ) (f : MemberFilter) :
    f.collect (fun a => members (v.definition a)) (v.ancestors t) =
      f.collect (fun a => members (u.definition a)) (u.ancestors t) := by
  rw [h.ancestors_eq]
  exact MemberFilter.collect_congr (fun a ha => by rw [(h.of_mem_ancestors ha).definition_eq]) f

/-- **The reflector is settled.** -/
theorem Provider.settled_reflector : (reflector : Provider β).Settled where
  fields h := h.collect_eq Definition.fields
  properties h := h.collect_eq Definition.properties
  methods h := h.collect_eq Definition.methods
  constructors h := congrArg Definition.constructors h.definition_eq
  attributes h := congrArg Definition.attributes h.definition_eq
  field_declaring {u t f x} hu hk hx := by
    have hx : x ∈ f.collect u.fields (u.ancestors t) := hx
    obtain ⟨a, ha, hxa⟩ := MemberFilter.exists_of_mem_collect hx
    rwa [hu.declaring_of_mem_fields (hu.knows_of_mem_ancestors hk ha) hxa]
  property_declaring {u t f x} hu hk hx := by
    have hx : x ∈ f.collect u.properties (u.ancestors t) := hx
    obtain ⟨a, ha, hxa⟩ := MemberFilter.exists_of_mem_collect hx
    rwa [hu.declaring_of_mem_properties (hu.knows_of_mem_ancestors hk ha) hxa]

/-- Listing backwards stays settled. -/
theorem Provider.Settled.reversed {p : Provider β} (h : p.Settled) : p.reversed.Settled where
  fields hk f := congrArg List.reverse (h.fields hk f)
  properties hk f := congrArg List.reverse (h.properties hk f)
  methods hk f := congrArg List.reverse (h.methods hk f)
  constructors hk := congrArg List.reverse (h.constructors hk)
  attributes hk := congrArg List.reverse (h.attributes hk)
  field_declaring hu hk hx := h.field_declaring hu hk (List.mem_reverse.mp hx)
  property_declaring hu hk hx := h.property_declaring hu hk (List.mem_reverse.mp hx)

/-! ## Snapshots -/

theorem MemberCollection.insert_congr {u v : Universe β} {a : Accessor β} {as : List (Accessor β)}
    (h : ∀ b ∈ as, hides v a b = hides u a b) : insert v a as = insert u a as := by
  induction as with
  | nil => rfl
  | cons b as ih =>
    rw [insert, insert, h b List.mem_cons_self, ih fun x hx => h x (List.mem_cons_of_mem _ hx)]

/-- Collections of one list are the same where the same members hide others. -/
theorem MemberCollection.build_congr {u v : Universe β} {as : List (Accessor β)}
    (h : ∀ a ∈ as, ∀ b ∈ as, hides v a b = hides u a b) : build v as = build u as := by
  suffices (build v as).members = (build u as).members from congrArg MemberCollection.mk this
  induction as using List.reverseRecOn with
  | nil => rfl
  | append_singleton as a ih =>
    rw [build_concat, build_concat, ih fun x hx y hy => h x (List.mem_append_left _ hx) y
      (List.mem_append_left _ hy)]
    exact insert_congr fun b hb => h a (by simp) b (List.mem_append_left _ (mem_of_mem_build hb))

/-- Members declared on the line of a type that keeps its definition make the same collection. -/
theorem Universe.Keeps.collection_eq {u v : Universe β} {t : TypeRef} (h : u.Keeps v t)
    {as : List (Accessor β)} (has : ∀ a ∈ as, a.declaring ∈ u.ancestors t) :
    MemberCollection.build v as = MemberCollection.build u as := by
  refine MemberCollection.build_congr fun a ha b hb => ?_
  rw [MemberCollection.hides, MemberCollection.hides, h.isSubtype_eq (has a ha) (has b hb)]

/-- **A type that keeps its definition keeps its snapshot.** -/
theorem Snapshot.build_eq {p : Provider β} (hp : p.Settled) {u v : Universe β} {t : TypeRef}
    (h : u.Keeps v t) (f : MemberFilter) : build p v t f = build p u t f := by
  have hfields : MemberCollection.build v ((p.fields v t f).map .field) =
      MemberCollection.build u ((p.fields u t f).map .field) := by
    rw [hp.fields h]
    refine h.collection_eq (List.forall_mem_map.mpr fun x hx => ?_)
    exact hp.field_declaring h.before h.known hx
  have hproperties : MemberCollection.build v ((p.properties v t f).map .property) =
      MemberCollection.build u ((p.properties u t f).map .property) := by
    rw [hp.properties h]
    refine h.collection_eq (List.forall_mem_map.mpr fun x hx => ?_)
    exact hp.property_declaring h.before h.known hx
  have hattributes : AttributeQuery.ofTarget p v (.type t) = .ofTarget p u (.type t) := by
    rw [AttributeQuery.ofTarget, AttributeQuery.ofTarget, AttributeTarget.lineage,
      AttributeTarget.lineage, h.ancestors_eq, List.map_map, List.map_map]
    exact congrArg AttributeQuery.mk
      (List.map_congr_left fun a ha => hp.attributes (h.of_mem_ancestors ha))
  rw [build, build, hfields, hproperties, hattributes, hp.methods h, hp.constructors h]

/-! ## What a cache keeps -/

namespace Cache

variable {c : Cache β} {u : Universe β} {key key' : CacheKey} {fresh : ℕ}

/-- A request hands out what is kept under its key, or else a snapshot built now. -/
theorem request_fst (c : Cache β) (u : Universe β) (fresh : ℕ) (key : CacheKey) :
    (c.request u fresh key).1 = (c.find? key).getD ⟨fresh, c.build u key⟩ := by
  rw [request]
  cases c.find? key <;> rfl

/-- **A request keeps what was kept**, and what it hands out under its own key. -/
theorem find?_request (c : Cache β) (u : Universe β) (fresh : ℕ) (key key' : CacheKey) :
    (c.request u fresh key).2.find? key' =
      (c.find? key').or (if key' = key then some ⟨fresh, c.build u key⟩ else none) := by
  rw [request]
  cases hfound : c.find? key with
  | some issue =>
    by_cases hk : key' = key
    · simp [hk, hfound]
    · simp [hk]
  | none =>
    rw [find?, find?, List.lookup_append]
    by_cases hk : key' = key
    · simp [hk]
    · have hb : (key' == key) = false := beq_false_of_ne hk
      simp [hk, List.lookup_cons, hb]

/-- What is kept after a request was kept before, or is the snapshot built for it. -/
theorem kept_or_new_of_request {issue : Issue β}
    (h : (c.request u fresh key).2.find? key' = some issue) :
    c.find? key' = some issue ∨ key' = key ∧ issue = ⟨fresh, c.build u key⟩ := by
  rw [find?_request, Option.or_eq_some_iff] at h
  rcases h with h | ⟨-, h⟩
  · exact .inl h
  · split_ifs at h with hkey
    exact .inr ⟨hkey, (Option.some.inj h).symm⟩

theorem provider_request (c : Cache β) (u : Universe β) (fresh : ℕ) (key : CacheKey) :
    (c.request u fresh key).2.provider = c.provider := by
  rw [request]
  cases c.find? key <;> rfl

end Cache

/-! ## Runs -/

namespace World

variable {w₀ w w' : World β} {t : TypeRef} {f : MemberFilter}

/-- **One step of a run** that declares types, defines them and asks for snapshots. -/
inductive Step (w : World β) : World β → Prop
  | declare (k : DeclaredKind) (n : String) : Step w (w.declare k n).2
  | define {b : Blueprint β} {w' : World β} (hd : w.types.Declares b.target)
      (hn : w.types.isDefined b.self = false) (hs : w.types.Scopes b)
      (h : w.define? b = some (.ok w')) : Step w w'
  | snapshot {t : TypeRef} (ht : w.types.Knows t) (f : MemberFilter) : Step w (w.snapshot t f).2

/-- **A step lets types come about and keeps what is kept, or asks for a snapshot.** -/
theorem Step.grows_or_asks (hu : w.types.Reachable) (h : Step w w') :
    (w'.types.Reachable ∧ w.types.Extends w'.types ∧ w'.cache = w.cache) ∨
      ∃ t f, w.types.Knows t ∧ w' = (w.snapshot t f).2 := by
  cases h with
  | declare k n => exact .inl ⟨.declare k n hu, Universe.extends_declare .., rfl⟩
  | define hd hn hs hdef =>
    obtain ⟨c, hh, hc, rfl⟩ := define?_eq_ok hdef
    exact .inl ⟨.define hu hd hn hs hh hc, Universe.extends_define _ hn, rfl⟩
  | snapshot ht f => exact .inr ⟨_, f, ht, rfl⟩

/-- What is kept under a key that was free in an earlier world: if anything, a snapshot built
since. -/
structure BuiltSince (w₀ : World β) (key : CacheKey) (w : World β) : Prop where
  types : w.types.Reachable
  grown : w₀.types.Extends w.types
  provider : w.cache.provider = w₀.cache.provider
  built : ∀ {issue}, w.cache.find? key = some issue → ∃ v : Universe β, v.Reachable ∧
    w₀.types.Extends v ∧ v.Extends w.types ∧ v.Knows key.1 ∧
    issue.snapshot = .build w₀.cache.provider v key.1 key.2

namespace BuiltSince

variable {key : CacheKey}

theorem start (hu : w₀.types.Reachable) (hfree : w₀.cache.find? key = none) :
    BuiltSince w₀ key w₀ :=
  ⟨hu, .refl _, rfl, fun h => by simp [hfree] at h⟩

/-- Types may come and be defined while nothing else is kept. -/
theorem grow (h : BuiltSince w₀ key w) (hu : w'.types.Reachable)
    (hgrown : w.types.Extends w'.types) (hcache : w'.cache = w.cache) : BuiltSince w₀ key w' := by
  refine ⟨hu, h.grown.trans hgrown, hcache ▸ h.provider, fun hfound => ?_⟩
  rw [hcache] at hfound
  obtain ⟨v, hv, hfrom, hto, hk, hbuilt⟩ := h.built hfound
  exact ⟨v, hv, hfrom, hto.trans hgrown, hk, hbuilt⟩

/-- A request for any key keeps it so. -/
theorem request (h : BuiltSince w₀ key w) (ht : w.types.Knows t) (f : MemberFilter) :
    BuiltSince w₀ key (w.snapshot t f).2 := by
  refine ⟨h.types, h.grown, (Cache.provider_request ..).trans h.provider, fun {issue} hfound => ?_⟩
  rcases Cache.kept_or_new_of_request hfound with hkept | ⟨rfl, rfl⟩
  · exact h.built hkept
  · refine ⟨w.types, h.types, h.grown, .refl _, ht, ?_⟩
    rw [Cache.build, h.provider]

/-- **Every step keeps it so.** -/
theorem step (h : BuiltSince w₀ key w) (hstep : Step w w') : BuiltSince w₀ key w' := by
  rcases hstep.grows_or_asks h.types with ⟨hu, hgrown, hcache⟩ | ⟨t, f, ht, rfl⟩
  · exact h.grow hu hgrown hcache
  · exact h.request ht f

/-- **So does every run.** -/
theorem run (h : BuiltSince w₀ key w) (hrun : ReflTransGen Step w w') : BuiltSince w₀ key w' := by
  induction hrun with
  | refl => exact h
  | tail _ hstep ih => exact ih.step hstep

end BuiltSince

/-- **A kept snapshot is the one that would be built now**, if its type was defined already when its
key was still free, or is not defined yet. -/
theorem snapshot_eq_build (hu : w₀.types.Reachable) (hp : w₀.cache.provider.Settled)
    (hfree : w₀.cache.find? (t, f) = none) (hrun : ReflTransGen Step w₀ w)
    (hdef : w₀.types.isDefined t = true ∨ w.types.isDefined t = false) :
    (w.snapshot t f).1.snapshot = w.cache.build w.types (t, f) := by
  have h := (BuiltSince.start hu hfree).run hrun
  have hout : (w.snapshot t f).1 = (w.cache.find? (t, f)).getD
      ⟨w.nextIssue, w.cache.build w.types (t, f)⟩ := Cache.request_fst ..
  rw [hout]
  cases hfound : w.cache.find? (t, f) with
  | none => rfl
  | some issue =>
    obtain ⟨v, hv, hfrom, hto, hk, hbuilt⟩ := h.built hfound
    have hkeeps : v.Keeps w.types t := by
      refine ⟨hv, h.types, hto, hk, ?_⟩
      cases hx : v.definition? t with
      | some x => exact hto.definition? hx
      | none =>
        -- the type was not defined when the snapshot was built, so it is not defined yet
        have hnot : w₀.types.isDefined t ≠ true := fun h₀ => by
          have := hfrom.isDefined h₀
          simp [Universe.isDefined, hx] at this
        simpa [Universe.isDefined] using hdef.resolve_left hnot
    rw [Option.getD_some, hbuilt, Cache.build, h.provider]
    exact (Snapshot.build_eq hp hkeeps f).symm

/-! ### A class with a field -/

/-- A class that asks for a field. -/
def numberClass : Blueprint Unit where
  target := ⟨0, .classType, "C"⟩
  fields := [{ name := "x", type := .primitive .i32 }]

/-- The world in which the class is declared. -/
def classDeclared : World Unit := (World.empty.declare .classType "C").2

/-- The world in which the class is defined, after another one. -/
def classDefined (w : World Unit) : World Unit := (w.define numberClass).toOption.getD w

/-- A snapshot that is asked for once the class is defined, and again when another type has been
declared, is the one that would be built then. -/
theorem snapshot_eq_build_numberClass :
    (((classDefined classDeclared).declare .classType "D").2.snapshot numberClass.self
        .all).1.snapshot =
      .build .reflector ((classDefined classDeclared).declare .classType "D").2.types
        numberClass.self .all := by
  have hu : (classDefined classDeclared).types.Reachable :=
    .define (c := {
        definition := (classDefined classDeclared).types.definition numberClass.self
        statics := [] })
      (.declare .classType "C" .empty) (by decide) rfl (by decide) rfl rfl
  have hrun : ReflTransGen Step (classDefined classDeclared)
      ((classDefined classDeclared).declare .classType "D").2 := .single (.declare .classType "D")
  exact snapshot_eq_build hu Provider.settled_reflector rfl hrun (.inl rfl)

/-- **Not every kept snapshot is the one that would be built now**: one of a class that is only
declared stays without the field with which the class is defined. -/
theorem not_every_snapshot_eq_build :
    ∃ w : World Unit, ReflTransGen Step World.empty w ∧ ∃ t f, w.types.Knows t ∧
      (w.snapshot t f).1.snapshot.fields.same (w.cache.build w.types (t, f)).fields = false := by
  have hfirst : ReflTransGen Step World.empty (classDeclared.snapshot numberClass.self .all).2 :=
    .tail (.single (.declare .classType "C")) (.snapshot (by decide) .all)
  refine ⟨classDefined (classDeclared.snapshot numberClass.self .all).2, ?_, numberClass.self, .all,
    by decide, rfl⟩
  exact .tail hfirst (.define (b := numberClass) (by decide) rfl (by decide) rfl)

end World

end Reflection
