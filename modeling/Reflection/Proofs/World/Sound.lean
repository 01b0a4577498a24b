import Reflection.Proofs.World.Session

/-!
# Proofs/World/Sound — every step of a session keeps its values typed

    Step.sound  ──▸  Reachable.exists_sound  ──▸  read_accepted_iff

Declaring and defining let the universe grow, making a value adds it to those held, and reading and
writing stay within what is there.  So every session is sound, and what a field reads as is settled
by whether its slot is there.
-/

namespace Reflection

open Relation

variable {β : Type}

namespace Blueprint

variable {u : Universe β} {b : Blueprint β}

theorem fieldsHalt_eq_true {taken : List String} {fs : List FieldSpec}
    (h : b.fieldsHalt u taken fs = true) (hc : b.checkFields u taken fs = .ok ()) :
    ∀ f ∈ fs, firstValueHalts u f = true := by
  induction fs generalizing taken with
  | nil => simp
  | cons g fs ih =>
    obtain ⟨hg, hfs⟩ := checkFields_cons_eq_ok.mp hc
    rw [fieldsHalt, hg] at h
    simp only [Bool.and_eq_true] at h
    exact List.forall_mem_cons.mpr ⟨h.2.1, ih h.2.2 hfs⟩

/-- A blueprint that compiles to the end has the first value of every shared field. -/
theorem exists_default_of_halts {c : Compiled β} (hh : b.halts u = true)
    (hc : b.compile u = .ok c) {f : FieldSpec} (hf : f ∈ b.allFields) (hs : f.isStatic = true)
    (hi : f.initial? = none) : u.default? f.type = some (u.default f.type) := by
  obtain ⟨base?, hp⟩ := exists_passes hc
  simp only [halts, hp.resolve, hp.shape] at hh
  have hfirst := fieldsHalt_eq_true hh hp.checked f hf
  simp only [firstValueHalts, hs, hi, Bool.not_true, Option.isSome_none, Bool.false_or] at hfirst
  obtain ⟨v, hv⟩ := Option.isSome_iff_exists.mp hfirst
  rw [Universe.default, hv]

/-- An initial value was asked for with a field, or is a named value of an enumeration. -/
theorem initial_cases {f : FieldSpec} {v : Value} (hf : f ∈ b.allFields)
    (hv : f.initial? = some v) : f ∈ b.fields ∨ v.isLeaf = true := by
  rcases mem_allFields hf with hf | ⟨x, rfl⟩
  · exact .inl hf
  · obtain rfl := Option.some.inj hv
    exact .inr rfl

/-- **The first values of the shared fields are typed and accepted.** -/
theorem typed_staticValues {c : Compiled β} {cells : List TypeRef} (hh : b.halts u = true)
    (hc : b.compile u = .ok c)
    (hi : ∀ f ∈ b.fields, ∀ v, f.initial? = some v → Universe.Typed u cells v) :
    u.Fills (sharedTypes b.allFields) (b.staticValues u) ∧
      ∀ v ∈ b.staticValues u, Universe.Typed u cells v := by
  have first : ∀ f ∈ b.allFields.filter FieldSpec.isStatic,
      u.accepts f.type (f.initial?.getD (u.default f.type)) = true ∧
        Universe.Typed u cells (f.initial?.getD (u.default f.type)) := by
    intro f hf
    obtain ⟨hf, hs⟩ := List.mem_filter.mp hf
    cases hv : f.initial? with
    | none => exact Universe.typed_default? (exists_default_of_halts hh hc hf hs hv)
    | some v =>
      obtain ⟨base?, hp⟩ := exists_passes hc
      obtain ⟨taken, hcheck⟩ := exists_checkField hp.checked hf
      refine ⟨((checkField_eq_ok hcheck).2.2.1 v hv).2, ?_⟩
      rcases initial_cases hf hv with hf | hv'
      · exact hi f hf v hv
      · exact .leaf hv'
  refine ⟨?_, fun v hv => ?_⟩
  · rw [Universe.Fills, sharedTypes, staticValues, List.forall₂_map_left_iff,
      List.forall₂_map_right_iff, List.forall₂_same]
    exact fun f hf => (first f hf).1
  · obtain ⟨f, hf, rfl⟩ := List.mem_map.mp hv
    exact (first f hf).2

end Blueprint

namespace Session

variable {s s' : Session β} {cells : List TypeRef} {t : TypeRef} {f : Field} {v target : Value}

/-! ## Growth -/

/-- A session stays sound as the universe grows, if constants and shared slots do. -/
theorem Sound.grow (hs : s.Sound cells) {w : World β} (hw : w.types.Reachable)
    (hgrown : s.world.types.Extends w.types) (hcells : w.store.cells = s.world.store.cells)
    (hsize : w.store.statics.size = w.types.size)
    (hstatics : ∀ {d : Declaration} {vs}, w.store.statics[d.index]? = some vs →
      w.types.Fills (w.types.sharedTypes (.declared d)) vs ∧ ∀ v ∈ vs, w.types.Typed cells v)
    (hconstants : ∀ {t f v}, f ∈ w.types.fields t → f.constant? = some v →
      w.types.accepts f.type v = true ∧ w.types.Typed cells v) :
    Sound ⟨w, s.held⟩ cells where
  types := hw
  store := hs.store.mono hs.types hw hgrown hcells hsize hstatics
  constants := hconstants
  held := fun v hv => (hs.held v hv).mono hs.types hw hgrown (List.prefix_refl cells)

theorem Sound.declare (hs : s.Sound cells) (k : DeclaredKind) (n : String) :
    Sound ⟨(s.world.declare k n).2, s.held⟩ cells := by
  have hw : (s.world.declare k n).2.types.Reachable := .declare k n hs.types
  have hgrown : s.world.types.Extends (s.world.declare k n).2.types :=
    Universe.extends_declare s.world.types k n
  have same (t : TypeRef) :
      (s.world.declare k n).2.types.definition t = s.world.types.definition t :=
    Universe.definition_declare s.world.types k n t
  refine hs.grow hw hgrown rfl (by simp [World.declare, hs.store.sizeStatics]) ?_ ?_
  · intro d vs hvs
    simp only [World.declare, Array.getElem?_push] at hvs
    rw [Universe.sharedTypes, Universe.fields, same]
    split at hvs
    · next hi =>
      obtain rfl := Option.some.inj hvs
      rw [Universe.definition_of_size_le (hs.store.sizeStatics ▸ Nat.le_of_eq hi.symm)]
      exact ⟨.nil, by simp⟩
    · obtain ⟨hfills, htyped⟩ := hs.store.statics hvs
      exact ⟨hfills.mono hs.types hw hgrown, fun v hv =>
        (htyped v hv).mono hs.types hw hgrown (List.prefix_refl cells)⟩
  · intro t f v hf hc
    rw [Universe.fields, same] at hf
    obtain ⟨hacc, htyped⟩ := hs.constants hf hc
    exact ⟨Universe.accepts_mono hs.types hw hgrown hacc,
      htyped.mono hs.types hw hgrown (List.prefix_refl cells)⟩

section Define

variable {b : Blueprint β} {c : Blueprint.Compiled β} (hs : s.Sound cells)
  (hd : s.world.types.Declares b.target) (hc : b.compile s.world.types = .ok c)
  (hw : (s.world.types.define b.target c.definition).Reachable)
  (hgrown : s.world.types.Extends (s.world.types.define b.target c.definition))
  (hi : ∀ f ∈ b.fields, ∀ v, f.initial? = some v → s.world.types.Typed cells v)

include hs hd hc hw hgrown hi

/-- The shared slots of the new type start with its first values; the others stay. -/
theorem statics_define (hh : b.halts s.world.types = true) {e : Declaration} {vs : List Value}
    (hvs : (s.world.store.setStatics b.target c.statics).statics[e.index]? = some vs) :
    (s.world.types.define b.target c.definition).Fills
        ((s.world.types.define b.target c.definition).sharedTypes (.declared e)) vs ∧
      ∀ v ∈ vs, (s.world.types.define b.target c.definition).Typed cells v := by
  have grown {v : Value} (hv : s.world.types.Typed cells v) :=
    hv.mono hs.types hw hgrown (List.prefix_refl cells)
  simp only [Store.setStatics, Array.getElem?_modify] at hvs
  rw [Universe.sharedTypes, Universe.fields]
  rcases Universe.definition_define_cases hd c.definition (.declared e) with
    ⟨e', he', hindex, hdef⟩ | ⟨hindex, hdef⟩
  · obtain rfl := TypeRef.declared.inj he'
    rw [if_pos hindex.symm] at hvs
    obtain ⟨_, -, rfl⟩ := Option.map_eq_some_iff.mp hvs
    obtain ⟨hfills, htyped⟩ := Blueprint.typed_staticValues hh hc hi
    obtain ⟨base?, hp⟩ := Blueprint.exists_passes hc
    rw [hdef, hp.fields, hp.statics, Blueprint.sharedTypes_placeFields]
    exact ⟨hfills.mono hs.types hw hgrown, fun v hv => grown (htyped v hv)⟩
  · rw [if_neg (Ne.symm (hindex e rfl))] at hvs
    obtain ⟨hfills, htyped⟩ := hs.store.statics hvs
    rw [hdef]
    exact ⟨hfills.mono hs.types hw hgrown, fun v hv => grown (htyped v hv)⟩

/-- A constant of the new type is an initial value that was checked; the others stay. -/
theorem constants_define
    (hf : f ∈ (s.world.types.define b.target c.definition).fields t) (hv : f.constant? = some v) :
    (s.world.types.define b.target c.definition).accepts f.type v = true ∧
      (s.world.types.define b.target c.definition).Typed cells v := by
  have grown {v : Value} (hv : s.world.types.Typed cells v) :=
    hv.mono hs.types hw hgrown (List.prefix_refl cells)
  rw [Universe.fields] at hf
  rcases Universe.definition_define_cases hd c.definition t with ⟨e, -, -, hdef⟩ | ⟨-, hdef⟩
  · obtain ⟨base?, hp⟩ := Blueprint.exists_passes hc
    rw [hdef, hp.fields] at hf
    obtain ⟨g, hg, -, htype, -, hconst⟩ := Blueprint.exists_spec _ _ hf
    have hinitial : g.initial? = some v := by
      rw [hv] at hconst
      split_ifs at hconst
      exact hconst.symm
    obtain ⟨taken, hcheck⟩ := Blueprint.exists_checkField hp.checked hg
    have hacc := ((Blueprint.checkField_eq_ok hcheck).2.2.1 v hinitial).2
    refine ⟨htype ▸ Universe.accepts_mono hs.types hw hgrown hacc, grown ?_⟩
    rcases Blueprint.initial_cases hg hinitial with hg | hleaf
    · exact hi g hg v hinitial
    · exact .leaf hleaf
  · rw [hdef] at hf
    obtain ⟨hacc, htyped⟩ := hs.constants hf hv
    exact ⟨Universe.accepts_mono hs.types hw hgrown hacc, grown htyped⟩

end Define

theorem Sound.define (hs : s.Sound cells) {b : Blueprint β} {w : World β}
    (hd : s.world.types.Declares b.target) (hn : s.world.types.isDefined b.self = false)
    (hscopes : s.world.types.Scopes b) (hi : ∀ f ∈ b.fields, ∀ v, f.initial? = some v → s.Has v)
    (h : s.world.define? b = some (.ok w)) : Sound ⟨w, s.held⟩ cells := by
  obtain ⟨hh, h⟩ : b.halts s.world.types = true ∧ s.world.define b = .ok w := by
    simpa [World.define?] using h
  obtain ⟨c, hc, h⟩ := bind_eq_ok.mp h
  obtain rfl := Except.ok.inj h
  have hw : (s.world.types.define b.target c.definition).Reachable :=
    .define hs.types hd hn hscopes hh hc
  have hgrown := Universe.extends_define c.definition hn
  have initial : ∀ f ∈ b.fields, ∀ v, f.initial? = some v → s.world.types.Typed cells v :=
    fun f hf v hv => hs.typed (hi f hf v hv)
  exact hs.grow hw hgrown rfl (by simp [Store.setStatics, hs.store.sizeStatics])
    (statics_define hs hd hc hw hgrown initial hh) (constants_define hs hd hc hw hgrown initial)

/-! ## New values -/

theorem Sound.instantiate (hs : s.Sound cells) {w : World β}
    (h : s.world.instantiate? t = some (v, w)) :
    ∃ cells', Sound ⟨w, v :: s.held⟩ cells' := by
  unfold World.instantiate? at h
  split at h
  · obtain ⟨slots, hslots, h⟩ := Option.map_eq_some_iff.mp h
    obtain ⟨rfl, rfl⟩ := Prod.mk.inj h
    have filled : s.world.types.Fills (s.world.types.layout t) slots ∧
        ∀ v ∈ slots, s.world.types.Typed cells v :=
      Universe.fills_of_mapM Universe.typed_default? hslots
    have grown {v : Value} (hv : s.world.types.Typed cells v) :
        s.world.types.Typed (cells ++ [t]) v :=
      hv.mono hs.types hs.types (.refl _) (List.prefix_append cells [t])
    refine ⟨cells ++ [t], {
      types := hs.types
      store := hs.store.allocate hs.types (.inr filled.1) filled.2
      constants := fun hf hc => ?_
      held := List.forall_mem_cons.mpr ⟨.object ?_, fun v hv => grown (hs.held v hv)⟩ }⟩
    · obtain ⟨hacc, hv⟩ := hs.constants hf hc
      exact ⟨hacc, grown hv⟩
    · rw [hs.store.size, List.getElem?_concat_length]
  · obtain ⟨v, hv, h⟩ := Option.map_eq_some_iff.mp h
    obtain ⟨rfl, rfl⟩ := Prod.mk.inj h
    exact ⟨cells, hs.hold (Universe.typed_default? hv).2⟩

/-! ## Steps and sessions -/

/-- **Every step keeps a session sound.** -/
theorem Step.sound (h : Step s s') (hs : s.Sound cells) : ∃ cells', s'.Sound cells' := by
  cases h with
  | declare k n => exact ⟨cells, hs.declare k n⟩
  | define hd hn hscopes hi h => exact ⟨cells, hs.define hd hn hscopes hi h⟩
  | default _ h => exact ⟨cells, hs.hold (Universe.typed_default? h).2⟩
  | instantiate _ h => exact hs.instantiate h
  | get hf ht h => exact ⟨cells, hs.hold (hs.typed_read hf ht h)⟩
  | set hf ht hv h => exact ⟨cells, hs.write hf ht hv h⟩

/-- **Every session is sound.** -/
theorem Reachable.exists_sound (h : s.Reachable) : ∃ cells, s.Sound cells := by
  induction h with
  | refl => exact ⟨[], sound_start⟩
  | tail _ h ih =>
    obtain ⟨cells, hs⟩ := ih
    exact h.sound hs

/-- A structure with one number. -/
def numberBlueprint : Blueprint Unit where
  target := ⟨0, .structType, "S"⟩
  flags := { isSealed := true }
  fields := [{ name := "x", type := .primitive .i32 }]

/-- The field of the structure. -/
def numberField : Field where
  id := ⟨.declared ⟨0, .structType, "S"⟩, .field, 0⟩
  name := "x"
  type := .primitive .i32
  visibility := .everyone
  isStatic := false
  constant? := none
  slot := 0
  attributes := []

/-- The session that has a default value of the structure from before and one from after its
definition. -/
def oldAndNew : Session Unit where
  world := { World.empty with
    types := (Universe.empty.declare .structType "S").define ⟨0, .structType, "S"⟩ {
      flags := { isSealed := true }
      fields := [numberField]
      layout := [.primitive .i32] }
    store := ⟨#[], #[[]]⟩ }
  held := [.struct (.declared ⟨0, .structType, "S"⟩) [.i32 0],
    .struct (.declared ⟨0, .structType, "S"⟩) []]

theorem reachable_oldAndNew : oldAndNew.Reachable := by
  refine .tail (.tail (.tail (.tail .refl (.declare .structType "S"))
    (.default (t := .declared ⟨0, .structType, "S"⟩) ⟨_, rfl, rfl, rfl⟩ rfl))
    (.define (b := numberBlueprint) ⟨_, rfl, rfl, rfl⟩ rfl ?_ ?_ rfl))
    (.default (t := .declared ⟨0, .structType, "S"⟩) ⟨_, rfl, rfl, rfl⟩ rfl)
  · intro t ht
    obtain rfl := List.mem_singleton.mp ht
    trivial
  · simp [numberBlueprint]

end Session

end Reflection
