import Mathlib.Data.List.Perm.Basic
import Reflection.Proofs.Universe.Bare
import Reflection.Proofs.Universe.Members

/-!
# Proofs/Universe/Reordered — constructors declared in another order

    a blueprint             ──Makes──▸  its constructors, one for each that it asks for
        │ permuted                          │ permuted
    one in another order    ──Makes──▸  the same in another order

A constructor is made by itself: beside its place, nothing in it depends on those before it, and
they matter only in that no two may be of one shape.  So the constructors of a type come in the
order in which they are asked for, whatever that is, and nothing else of the universe changes with
it.
-/

namespace Reflection

variable {β : Type} {u v : Universe β} {b : Blueprint β} {t : TypeRef}

/-! ## Constructors one by one -/

/-- The types and modes of the parameters of a constructor. -/
def Constructor.shape (c : Constructor β) : List (TypeRef × ParameterMode) :=
  c.parameters.map Parameter.shape

namespace Constructor

/-- A constructor at another place among those of its type. -/
def placed (c : Constructor β) (place : ℕ) : Constructor β :=
  { c with id := { c.id with index := place } }

/-- A constructor without its place among the others. -/
def unplaced (c : Constructor β) : Constructor β := c.placed 0

@[simp] theorem shape_placed (c : Constructor β) (place : ℕ) : (c.placed place).shape = c.shape :=
  rfl

@[simp] theorem shape_unplaced (c : Constructor β) : c.unplaced.shape = c.shape := rfl

@[simp] theorem unplaced_placed (c : Constructor β) (place : ℕ) :
    (c.placed place).unplaced = c.unplaced := rfl

theorem map_shape_unplaced (cs : List (Constructor β)) :
    (cs.map unplaced).map shape = cs.map shape := by
  simp

/-- Whether two lists have the same constructors, in whatever order and places. -/
def Shuffled (cs ds : List (Constructor β)) : Prop := (cs.map unplaced).Perm (ds.map unplaced)

namespace Shuffled

variable {cs ds : List (Constructor β)} {c : Constructor β}

theorem refl (cs : List (Constructor β)) : Shuffled cs cs := List.Perm.refl _

theorem symm (h : Shuffled cs ds) : Shuffled ds cs := List.Perm.symm h

theorem length_eq (h : Shuffled cs ds) : cs.length = ds.length := by
  simpa using List.Perm.length_eq h

theorem exists_mem (h : Shuffled cs ds) (hc : c ∈ cs) : ∃ d ∈ ds, d.unplaced = c.unplaced :=
  List.mem_map.mp (h.mem_iff.mp (List.mem_map_of_mem hc))

/-- What does not look at places keeps the same ones of both. -/
theorem filter (h : Shuffled cs ds) {p : Constructor β → Bool}
    (hp : ∀ c : Constructor β, p c.unplaced = p c) : Shuffled (cs.filter p) (ds.filter p) := by
  have hmap (cs : List (Constructor β)) :
      (cs.filter p).map unplaced = (cs.map unplaced).filter p := by
    rw [List.filter_map]
    exact congrArg (List.map unplaced) (List.filter_congr fun c _ => (hp c).symm)
  rw [Shuffled, hmap, hmap]
  exact List.Perm.filter p h

end Shuffled

end Constructor

namespace Blueprint

variable {built cs ds : List (Constructor β)} {spec : ConstructorSpec β}
  {specs : List (ConstructorSpec β)} {c : Constructor β}

/-- Whether a constructor comes about where it is the first that a blueprint asks for. -/
def Makes (b : Blueprint β) (spec : ConstructorSpec β) (c : Constructor β) : Prop :=
  b.compileConstructor [] spec = .ok c

theorem Makes.unplaced (h : b.Makes spec c) : c.unplaced = c := by
  obtain ⟨ps, -, h⟩ := bind_eq_ok.mp h
  obtain rfl := Except.ok.inj h
  rfl

theorem any_sameShape_iff {ps : List Parameter} :
    (built.any fun d => Parameter.sameShape d.parameters ps) = true ↔
      ps.map Parameter.shape ∈ built.map Constructor.shape := by
  simp [Constructor.shape]

/-- **A constructor has its place, and otherwise is what it would be in the first one.** -/
theorem compileConstructor_eq_ok : b.compileConstructor built spec = .ok c ↔
    ∃ d, b.Makes spec d ∧ d.shape ∉ built.map Constructor.shape ∧ c = d.placed built.length := by
  constructor
  · intro h
    obtain ⟨ps, hps, h⟩ := bind_eq_ok.mp h
    split_ifs at h with hnew
    obtain rfl := Except.ok.inj h
    refine ⟨⟨⟨b.self, .constructor, 0⟩, ps, _, _, _⟩, bind_eq_ok.mpr ⟨ps, hps, rfl⟩, ?_, rfl⟩
    exact fun hmem => hnew (any_sameShape_iff.mpr hmem)
  · rintro ⟨d, hd, hnew, rfl⟩
    obtain ⟨ps, hps, hd⟩ := bind_eq_ok.mp hd
    obtain rfl := Except.ok.inj hd
    refine bind_eq_ok.mpr ⟨ps, hps, ?_⟩
    rw [if_neg fun hany => hnew (any_sameShape_iff.mp hany)]
    rfl

/-- What a list of constructors is made of: each is made by itself, and their shapes differ. -/
theorem compileOwnConstructors_eq_ok (h : b.compileOwnConstructors built specs = .ok cs)
    (hbuilt : (built.map Constructor.shape).Nodup) :
    ∃ ds, List.Forall₂ b.Makes specs ds ∧
      cs.map Constructor.unplaced = built.map Constructor.unplaced ++ ds ∧
      (cs.map Constructor.shape).Nodup := by
  induction specs generalizing built with
  | nil =>
    obtain rfl := Except.ok.inj h
    exact ⟨[], .nil, by simp, hbuilt⟩
  | cons spec specs ih =>
    obtain ⟨c, hc, h⟩ := bind_eq_ok.mp h
    obtain ⟨d, hd, hnew, rfl⟩ := compileConstructor_eq_ok.mp hc
    have hnodup := hbuilt.concat hnew
    rw [List.concat_eq_append] at hnodup
    obtain ⟨ds, hds, hcs, hall⟩ := ih h (by rwa [List.map_append])
    refine ⟨d :: ds, .cons hd hds, ?_, hall⟩
    rw [hcs, List.map_append, List.map_singleton, Constructor.unplaced_placed, hd.unplaced,
      List.append_assoc, List.singleton_append]

/-- Constructors whose shapes differ are made one after the other. -/
theorem exists_compileOwnConstructors (h : List.Forall₂ b.Makes specs ds)
    (hnodup : (built.map Constructor.shape ++ ds.map Constructor.shape).Nodup) :
    ∃ cs, b.compileOwnConstructors built specs = .ok cs ∧
      cs.map Constructor.unplaced = built.map Constructor.unplaced ++ ds := by
  induction h generalizing built with
  | nil => exact ⟨built, rfl, by simp⟩
  | @cons spec d specs ds hd hds ih =>
    have hnew : d.shape ∉ built.map Constructor.shape := fun hmem =>
      List.disjoint_of_nodup_append hnodup hmem List.mem_cons_self
    have hc := compileConstructor_eq_ok.mpr ⟨d, hd, hnew, rfl⟩
    have hplaced : ((built ++ [d.placed built.length]).map Constructor.shape ++
        ds.map Constructor.shape).Nodup := by
      rwa [List.map_append, List.append_assoc]
    obtain ⟨cs, hcs, hmap⟩ := ih hplaced
    refine ⟨cs, bind_eq_ok.mpr ⟨_, hc, hcs⟩, ?_⟩
    rw [hmap, List.map_append, List.map_singleton, Constructor.unplaced_placed, hd.unplaced,
      List.append_assoc, List.singleton_append]

/-! ## Constructors in another order -/

/-- A blueprint that asks for other constructors. -/
def withConstructors (b : Blueprint β) (specs : List (ConstructorSpec β)) : Blueprint β :=
  { b with constructors := specs }

/-- What is made of the constructors that are asked for, and what would be made of others. -/
theorem compileConstructors_eq_ok (hne : b.constructors ≠ [])
    (h : b.compileConstructors = .ok cs) :
    List.Forall₂ b.Makes b.constructors (cs.map Constructor.unplaced) ∧
      (cs.map Constructor.shape).Nodup ∧
      ∀ specs ds, specs ≠ [] → List.Forall₂ b.Makes specs ds →
        (ds.map Constructor.shape).Nodup →
        ∃ cs, (b.withConstructors specs).compileConstructors = .ok cs ∧
          cs.map Constructor.unplaced = ds := by
  rw [compileConstructors, if_neg (by simpa using hne)] at h
  split_ifs at h with hkind hstatic
  obtain ⟨ds, hds, hcs, hnodup⟩ := compileOwnConstructors_eq_ok h List.nodup_nil
  obtain rfl : cs.map Constructor.unplaced = ds := hcs
  refine ⟨hds, hnodup, fun specs ds hspecs hmakes hds => ?_⟩
  obtain ⟨cs', hcs', hmap⟩ : ∃ cs', (b.withConstructors specs).compileOwnConstructors [] specs =
      .ok cs' ∧ cs'.map Constructor.unplaced = ds := exists_compileOwnConstructors hmakes hds
  refine ⟨cs', ?_, hmap⟩
  rw [compileConstructors, if_neg (by simpa [withConstructors] using hspecs)]
  exact (if_neg hkind).trans ((if_neg hstatic).trans hcs')

/-- **Constructors that are asked for in another order come out in another order.** -/
theorem exists_compileConstructors_perm (h : b.compileConstructors = .ok cs)
    (hp : b.constructors.Perm specs) :
    ∃ cs', (b.withConstructors specs).compileConstructors = .ok cs' ∧
      Constructor.Shuffled cs cs' := by
  by_cases hnil : b.constructors = []
  · obtain rfl : specs = [] := (hnil ▸ hp).nil_eq.symm
    refine ⟨cs, ?_, .refl _⟩
    rw [← h, withConstructors, ← hnil]
  · obtain ⟨hmakes, hnodup, hothers⟩ := compileConstructors_eq_ok hnil h
    obtain ⟨ds, hds, hperm⟩ := List.perm_comp_forall₂ hp.symm hmakes
    have hspecs : specs ≠ [] := fun hs => hnil (by simpa [hs] using hp)
    obtain ⟨cs', hcs', rfl⟩ := hothers specs ds hspecs hds (by
      rw [(hperm.map _).nodup_iff, Constructor.map_shape_unplaced]
      exact hnodup)
    exact ⟨cs', hcs', hperm.symm⟩

/-- **Every order of the constructors is that of some order in which they are asked for.** -/
theorem exists_specs_of_perm (h : b.compileConstructors = .ok cs)
    (hp : (cs.map Constructor.unplaced).Perm ds) :
    ∃ specs, b.constructors.Perm specs ∧ ∃ cs',
      (b.withConstructors specs).compileConstructors = .ok cs' ∧
        cs'.map Constructor.unplaced = ds := by
  by_cases hnil : b.constructors = []
  · refine ⟨[], by rw [hnil], cs, by rw [← h, withConstructors, ← hnil], ?_⟩
    -- there is one constructor at most, so there is one order
    rw [compileConstructors, hnil, List.isEmpty_nil, if_pos rfl] at h
    obtain rfl := Except.ok.inj h
    split_ifs at hp ⊢
    · exact List.singleton_perm.mp hp
    · exact List.singleton_perm.mp hp
    · exact (List.nil_perm.mp hp).symm
  · obtain ⟨hmakes, hnodup, hothers⟩ := compileConstructors_eq_ok hnil h
    have hcomp : (Relation.Comp (List.Forall₂ b.Makes) List.Perm) b.constructors ds :=
      ⟨_, hmakes, hp⟩
    rw [List.forall₂_comp_perm_eq_perm_comp_forall₂] at hcomp
    obtain ⟨specs, hspecs, hds⟩ := hcomp
    have hne : specs ≠ [] := fun hs => hnil (by simpa [hs] using hspecs)
    obtain ⟨cs', hcs', hmap⟩ := hothers specs ds hne hds (by
      rw [← (hp.map _).nodup_iff, Constructor.map_shape_unplaced]
      exact hnodup)
    exact ⟨specs, hspecs, cs', hcs', hmap⟩

/-- What a blueprint compiles to when it asks for other constructors. -/
theorem compile_withConstructors {x : Compiled β} (hbare : u.bare = v.bare)
    (h : b.compile u = .ok x) :
    b.compileConstructors = .ok x.definition.constructors ∧
      ∀ specs cs, (b.withConstructors specs).compileConstructors = .ok cs →
        (b.withConstructors specs).compile v =
          .ok { x with definition := { x.definition with constructors := cs } } := by
  rw [compile_bare] at h
  obtain ⟨y, hy, h⟩ := bind_eq_ok.mp h
  obtain ⟨own, hown, h⟩ := bind_eq_ok.mp h
  obtain rfl := Except.ok.inj h
  refine ⟨hown, fun specs cs hcs => ?_⟩
  rw [compile_bare, ← hbare]
  exact bind_eq_ok.mpr ⟨y, hy, bind_eq_ok.mpr ⟨cs, hcs, rfl⟩⟩

end Blueprint

/-! ## Universes with constructors in another order -/

namespace Universe

/-- Whether two universes are the same but for the order of the constructors of each type. -/
structure Reordered (u v : Universe β) : Prop where
  bare : u.bare = v.bare
  constructors : ∀ t, Constructor.Shuffled (u.constructors t) (v.constructors t)

theorem Reordered.symm (h : u.Reordered v) : v.Reordered u :=
  ⟨h.bare.symm, fun t => (h.constructors t).symm⟩

theorem defineBy_eq {x : Blueprint.Compiled β} (h : b.compile u = .ok x) :
    u.defineBy b = u.define b.target x.definition := by
  rw [defineBy, h]

theorem constructors_define_self (x : Definition β) {d e : Declaration} (hd : u.Declares d)
    (he : e.index = d.index) : (u.define d x).constructors (.declared e) = x.constructors := by
  have h := definition?_define_self u x hd
  rw [definition?, ← he] at h
  rw [constructors, definition, definition?, h, Option.getD_some]

theorem constructors_define_of_ne (x : Definition β) {d : Declaration}
    (h : ∀ e, t = .declared e → e.index ≠ d.index) :
    (u.define d x).constructors t = u.constructors t := by
  cases t with
  | declared e =>
    rw [constructors, constructors, definition, definition, definition?_define_of_ne u x (h e rfl)]
  | _ => rfl

theorem constructors_defineBy_of_ne (h : ∀ e, t = .declared e → e.index ≠ b.target.index) :
    (u.defineBy b).constructors t = u.constructors t := by
  rw [defineBy]
  cases b.compile u with
  | error e => rfl
  | ok x => exact constructors_define_of_ne _ h

/-- Definitions that differ in the order of constructors at most keep universes so. -/
theorem Reordered.define (h : u.Reordered v) {d : Declaration} (hd : u.Declares d)
    {x y : Definition β} (hbare : x.bare = y.bare)
    (hp : Constructor.Shuffled x.constructors y.constructors) :
    (u.define d x).Reordered (v.define d y) := by
  refine ⟨by rw [bare_define, bare_define, h.bare, hbare], fun t => ?_⟩
  by_cases ht : ∃ e, t = .declared e ∧ e.index = d.index
  · obtain ⟨e, rfl, he⟩ := ht
    have hdv : v.Declares d := declares_bare.mp (h.bare ▸ declares_bare.mpr hd)
    rw [constructors_define_self x hd he, constructors_define_self y hdv he]
    exact hp
  · push Not at ht
    rw [constructors_define_of_ne x ht, constructors_define_of_ne y ht]
    exact h.constructors t

/-- A blueprint that asks for the constructors in another order keeps universes so. -/
theorem Reordered.defineBy (h : u.Reordered v) {specs : List (ConstructorSpec β)}
    (hp : b.constructors.Perm specs) (hd : u.Declares b.target) :
    (u.defineBy b).Reordered (v.defineBy (b.withConstructors specs)) := by
  cases hx : b.compile u with
  | ok x =>
    obtain ⟨hcs, hothers⟩ := Blueprint.compile_withConstructors h.bare hx
    obtain ⟨cs, hcs', hperm⟩ := Blueprint.exists_compileConstructors_perm hcs hp
    rw [defineBy_eq hx, defineBy_eq (hothers specs cs hcs')]
    exact h.define hd rfl hperm
  | error e =>
    -- the other one compiles to nothing either, since the two may be exchanged
    cases hy : (b.withConstructors specs).compile v with
    | error e' => rwa [Universe.defineBy, Universe.defineBy, hx, hy]
    | ok y =>
      obtain ⟨hcs, hothers⟩ := Blueprint.compile_withConstructors h.bare.symm hy
      obtain ⟨cs, hcs', -⟩ := Blueprint.exists_compileConstructors_perm hcs hp.symm
      have hback := hothers b.constructors cs hcs'
      exact absurd (hx.symm.trans hback) (by simp)

/-- **Two runs that declare and define the same**, but for the order in which each blueprint asks
for its constructors. -/
inductive Reordering : Universe β → Universe β → Prop
  | empty : Reordering .empty .empty
  | declare {u v : Universe β} (k : DeclaredKind) (n : String) (h : Reordering u v) :
      Reordering (u.declare k n) (v.declare k n)
  | define {u v : Universe β} {b : Blueprint β} {specs : List (ConstructorSpec β)}
      (h : Reordering u v) (hp : b.constructors.Perm specs) (hd : u.Declares b.target)
      (hn : u.isDefined b.self = false) (hs : u.Scopes b) (hh : b.halts u = true) :
      Reordering (u.defineBy b) (v.defineBy (b.withConstructors specs))

theorem Scopes.withConstructors (h : u.Scopes b) {specs : List (ConstructorSpec β)}
    (hp : b.constructors.Perm specs) : u.Scopes (b.withConstructors specs) := by
  refine fun t ht => h t ?_
  simp only [Blueprint.mentioned, Blueprint.withConstructors, List.mem_append, List.mem_flatMap]
    at ht ⊢
  simpa only [hp.mem_iff] using ht

/-- **The order of constructors is all that changes**, and both runs go through. -/
theorem Reordering.reordered (h : Reordering u v) :
    u.Reachable ∧ v.Reachable ∧ u.Reordered v := by
  induction h with
  | empty => exact ⟨.empty, .empty, rfl, fun _ => .refl _⟩
  | declare k n h ih =>
    obtain ⟨hu, hv, hr⟩ := ih
    refine ⟨.declare k n hu, .declare k n hv, ⟨by rw [bare_declare, bare_declare, hr.bare], ?_⟩⟩
    simpa only [constructors, definition, definition?_declare] using hr.constructors
  | @define u v b specs h hp hd hn hs hh ih =>
    obtain ⟨hu, hv, hr⟩ := ih
    refine ⟨hu.defineBy hd hn hs hh, hv.defineBy ?_ ?_ ?_ ?_, hr.defineBy hp hd⟩
    · exact declares_bare.mp (hr.bare ▸ declares_bare.mpr hd)
    · rw [← isDefined_bare, ← hr.bare, isDefined_bare]
      exact hn
    · refine fun t ht => knows_bare.mp (hr.bare ▸ knows_bare.mpr ?_)
      exact hs.withConstructors hp t ht
    · rw [← Blueprint.halts_bare, ← hr.bare]
      exact (Blueprint.halts_bare u b).trans hh

/-- Both runs may go on with the same blueprint. -/
theorem Reordering.defineBy (h : Reordering u v) (hd : u.Declares b.target)
    (hn : u.isDefined b.self = false) (hs : u.Scopes b) (hh : b.halts u = true) :
    Reordering (u.defineBy b) (v.defineBy b) :=
  .define h (.refl b.constructors) hd hn hs hh

theorem Reachable.reordering_self (hu : u.Reachable) : Reordering u u := by
  induction hu with
  | empty => exact .empty
  | declare k n hu ih => exact .declare k n ih
  | define hu hd hn hs hh hc ih =>
    rw [← defineBy_eq hc]
    exact ih.defineBy hd hn hs hh

/-- A type that is not declared has one constructor at most. -/
theorem length_constructors_le (u : Universe β) (h : ∀ d, t ≠ .declared d) :
    (u.constructors t).length ≤ 1 := by
  cases t with
  | declared d => exact absurd rfl (h d)
  | primitive p => cases p <;> simp [constructors, definition, definition?, builtin?]
  | _ => simp [constructors, definition, definition?, builtin?]

theorem Reachable.exists_reordering_of_length (hu : u.Reachable) {ds : List (Constructor β)}
    (hlen : (u.constructors t).length ≤ 1)
    (hp : ((u.constructors t).map Constructor.unplaced).Perm ds) :
    ∃ v, Reordering u v ∧ (v.constructors t).map Constructor.unplaced = ds := by
  refine ⟨u, hu.reordering_self, ?_⟩
  match hcs : u.constructors t, hlen with
  | [], _ => rw [hcs] at hp; exact (List.nil_perm.mp hp).symm
  | [c], _ => rw [hcs] at hp; exact List.singleton_perm.mp hp

/-- Where a type is defined, its blueprint may ask for the constructors in any order. -/
theorem Reachable.exists_reordering_defineBy (hu : u.Reachable) (hd : u.Declares b.target)
    (hn : u.isDefined b.self = false) (hs : u.Scopes b) (hh : b.halts u = true)
    {x : Blueprint.Compiled β} (hc : b.compile u = .ok x) {d : Declaration}
    (hi : d.index = b.target.index) {ds : List (Constructor β)}
    (hp : (((u.defineBy b).constructors (.declared d)).map Constructor.unplaced).Perm ds) :
    ∃ v, Reordering (u.defineBy b) v ∧
      (v.constructors (.declared d)).map Constructor.unplaced = ds := by
  rw [defineBy_eq hc, constructors_define_self _ hd hi] at hp
  obtain ⟨hcs, hothers⟩ := Blueprint.compile_withConstructors rfl hc
  obtain ⟨specs, hspecs, cs, hcs', hds⟩ := Blueprint.exists_specs_of_perm hcs hp
  refine ⟨_, .define hu.reordering_self hspecs hd hn hs hh, ?_⟩
  have hd' : u.Declares (b.withConstructors specs).target := hd
  rw [defineBy_eq (hothers specs cs hcs'), constructors_define_self _ hd' hi]
  exact hds

/-- **Every order of the constructors of a type comes about.** -/
theorem Reachable.exists_reordering (hu : u.Reachable) {ds : List (Constructor β)}
    (hp : ((u.constructors t).map Constructor.unplaced).Perm ds) :
    ∃ v, Reordering u v ∧ (v.constructors t).map Constructor.unplaced = ds := by
  by_cases hdeclared : ∃ d, t = .declared d
  swap
  · push Not at hdeclared
    exact hu.exists_reordering_of_length (u.length_constructors_le hdeclared) hp
  obtain ⟨d, rfl⟩ := hdeclared
  induction hu with
  | empty =>
    exact Reachable.empty.exists_reordering_of_length
      (by simp [constructors, definition, definition?, Universe.empty]) hp
  | @declare u k n hu ih =>
    have hsame (u : Universe β) :
        (u.declare k n).constructors (.declared d) = u.constructors (.declared d) := by
      rw [constructors, constructors, definition, definition, definition?_declare]
    obtain ⟨v, hv, hds⟩ := ih (hsame u ▸ hp)
    exact ⟨v.declare k n, .declare k n hv, (hsame v).symm ▸ hds⟩
  | @define u b x hu hd hn hs hh hc ih =>
    rw [← defineBy_eq hc] at hp ⊢
    by_cases hi : d.index = b.target.index
    · exact hu.exists_reordering_defineBy hd hn hs hh hc hi hp
    · have hne : ∀ e, TypeRef.declared d = .declared e → e.index ≠ b.target.index := by
        rintro e ⟨⟩
        exact hi
      rw [constructors_defineBy_of_ne hne] at hp
      obtain ⟨v, hv, hds⟩ := ih hp
      exact ⟨_, hv.defineBy hd hn hs hh, (constructors_defineBy_of_ne hne).symm ▸ hds⟩

end Universe
end Reflection
