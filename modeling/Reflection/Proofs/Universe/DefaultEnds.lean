import Reflection.Proofs.Universe.Layouts
import Reflection.World.Basic

/-!
# Proofs/Universe/DefaultEnds — which default values come to an end

The default of a structure is made of the defaults of its slots, and a structure may be used as a
slot type before it is defined; so one can come to contain itself.  Unrolling a default to depth `n`
fails exactly when `n` steps from a structure to a structure inside it can be taken (`Holds`).  It
fails at every depth exactly when they run into a circle, and `default?`, instances and the first
values of shared fields are lost there and nowhere else.
-/

namespace Reflection

open Relation

variable {β : Type}

namespace Universe

variable {u : Universe β} {s t r : TypeRef} {n : ℕ}

/-- Whether a slot of a type holds a structure. -/
def Holds (u : Universe β) (s r : TypeRef) : Prop := r ∈ u.layout s ∧ r.isStruct = true

/-! ## Unrolling a default value -/

/-- Values asked for one by one are lost when one of them is. -/
theorem mapM_eq_none_iff {α γ : Type} {f : α → Option γ} {l : List α} :
    l.mapM f = none ↔ ∃ a ∈ l, f a = none := by
  induction l with
  | nil => simp
  | cons a l ih =>
    rw [List.mapM_cons, List.exists_mem_cons_iff, ← ih]
    cases f a <;> cases l.mapM f <;> simp

/-- The default of a type that is no structure. -/
def plainDefault : TypeRef → Value
  | .primitive .bool => .bool false
  | .primitive .i32 => .i32 0
  | .primitive .i64 => .i64 0
  | .primitive .f64 => .f64 .zero
  | .declared d => if d.kind = .enumType then .enum (.declared d) 0 else .null
  | _ => .null

/-- Only structures are unrolled. -/
theorem defaultWithin_of_not_isStruct (u : Universe β) (ht : t.isStruct = false) (n : ℕ) :
    u.defaultWithin n t = some (plainDefault t) := by
  cases t with
  | primitive p => cases p <;> simp [defaultWithin, plainDefault]
  | declared d =>
    obtain ⟨i, k, name⟩ := d
    cases k with
    | structType => simp [TypeRef.isStruct, TypeRef.hasKind] at ht
    | _ => cases n <;> simp [defaultWithin, plainDefault]
  | _ => simp [defaultWithin, plainDefault]

theorem defaultWithin_zero (u : Universe β) (ht : t.isStruct = true) :
    u.defaultWithin 0 t = none := by
  cases t with
  | declared d =>
    have hd : d.kind = .structType := by simpa [TypeRef.isStruct, TypeRef.hasKind] using ht
    rw [defaultWithin, hd]
  | _ => simp [TypeRef.isStruct, TypeRef.hasKind] at ht

theorem defaultWithin_succ (u : Universe β) (ht : t.isStruct = true) (n : ℕ) :
    u.defaultWithin (n + 1) t = ((u.layout t).mapM (u.defaultWithin n)).map (.struct t) := by
  cases t with
  | declared d =>
    have hd : d.kind = .structType := by simpa [TypeRef.isStruct, TypeRef.hasKind] using ht
    rw [defaultWithin, hd]
  | _ => simp [TypeRef.isStruct, TypeRef.hasKind] at ht

/-- **A default fails at depth `n` exactly when `n` structures lie inside one another.** -/
theorem defaultWithin_eq_none_iff :
    u.defaultWithin n t = none ↔ t.isStruct = true ∧ Walks u.Holds n t := by
  induction n generalizing t with
  | zero =>
    cases ht : t.isStruct with
    | false => simp [defaultWithin_of_not_isStruct u ht]
    | true => simp [defaultWithin_zero u ht, Walks]
  | succ n ih =>
    cases ht : t.isStruct with
    | false => simp [defaultWithin_of_not_isStruct u ht]
    | true =>
      rw [defaultWithin_succ u ht, Option.map_eq_none_iff, mapM_eq_none_iff]
      simp only [ih, Walks, Holds, true_and, and_assoc]

/-! ## Structures inside themselves -/

theorem Holds.mem_declaredTypes (hu : u.Reachable) (h : u.Holds s r) : r ∈ u.declaredTypes := by
  obtain ⟨hr, hs⟩ := h
  have hk := hu.knows_of_mem_layout hr
  cases r with
  | declared d => exact Declares.mem_declaredTypes hk
  | _ => simp [TypeRef.isStruct, TypeRef.hasKind] at hs

/-- A default that fails at every depth: a structure that comes to contain itself. -/
theorem default?_eq_none_iff (hu : u.Reachable) (ht : u.Knows t) :
    u.default? t = none ↔ t.isStruct = true ∧ CycleAhead u.Holds t := by
  rw [default?, defaultWithin_eq_none_iff, ← length_declaredTypes u]
  refine and_congr_right fun hs => ⟨fun h => ?_, fun h => walks_of_cycleAhead h _⟩
  have hmem : t ∈ u.declaredTypes := by
    cases t with
    | declared d => exact Declares.mem_declaredTypes ht
    | _ => simp [TypeRef.isStruct, TypeRef.hasKind] at hs
  exact cycleAhead_of_walks (fun h => h.mem_declaredTypes hu) hmem h

/-- Unrolling far enough ends exactly where unrolling once through all types does. -/
theorem exists_defaultWithin_iff (hu : u.Reachable) (ht : u.Knows t) :
    (∃ n v, u.defaultWithin n t = some v) ↔ ¬ (t.isStruct = true ∧ CycleAhead u.Holds t) := by
  constructor
  · rintro ⟨n, v, hv⟩ ⟨hs, hc⟩
    have := defaultWithin_eq_none_iff.mpr ⟨hs, walks_of_cycleAhead hc n⟩
    simp [hv] at this
  · intro h
    obtain ⟨v, hv⟩ := Option.ne_none_iff_exists'.mp (mt (default?_eq_none_iff hu ht).mp h)
    exact ⟨u.size, v, hv⟩

theorem layoutDefaults?_eq_none_iff (hu : u.Reachable) :
    u.layoutDefaults? t = none ↔ CycleAhead u.Holds t := by
  rw [layoutDefaults?, mapM_eq_none_iff, cycleAhead_iff_step]
  refine exists_congr fun r => ?_
  constructor
  · rintro ⟨hr, h⟩
    obtain ⟨hs, hc⟩ := (default?_eq_none_iff hu (hu.knows_of_mem_layout hr)).mp h
    exact ⟨⟨hr, hs⟩, hc⟩
  · rintro ⟨⟨hr, hs⟩, hc⟩
    exact ⟨hr, (default?_eq_none_iff hu (hu.knows_of_mem_layout hr)).mpr ⟨hs, hc⟩⟩

end Universe

/-! ## Defining a type

The fields are looked at in order, up to the first that fails a check.  A shared field is lost at
the search that its initial value calls for or, without one, at the default of its type. -/

namespace Blueprint

variable {u : Universe β} {b : Blueprint β} {f : FieldSpec} {fs : List FieldSpec}
  {taken : List String}

/-- Whether defining comes to a field: the base, the shape and the fields before it are in order,
and its name is not taken. -/
def ComesTo (u : Universe β) (b : Blueprint β) (f : FieldSpec) : Prop :=
  ∃ base? before after, b.resolveBase u = .ok base? ∧ b.checkShape u base? = .ok () ∧
    b.allFields = before ++ f :: after ∧ b.checkFields u [] before = .ok () ∧
    f.name ∉ before.map FieldSpec.name

/-- Whether finding the first value of a field never ends. -/
def LosesValue (u : Universe β) (f : FieldSpec) : Prop :=
  (f.storage = .shared ∧ f.initial? = none ∧ u.default? f.type = none) ∨
    (f.isStatic = true ∧ ∃ v, f.initial? = some v ∧ u.accepts? f.type v = none)

theorem checkFields_cons_eq_ok :
    b.checkFields u taken (f :: fs) = .ok () ↔
      b.checkField u taken f = .ok () ∧ b.checkFields u (f.name :: taken) fs = .ok () := by
  rw [checkFields, bind_eq_ok]
  exact ⟨fun ⟨_, h⟩ => h, fun h => ⟨(), h⟩⟩

theorem initialHalts_eq_false :
    initialHalts u f = false ↔ ∃ v, f.initial? = some v ∧ u.accepts? f.type v = none := by
  cases h : f.initial? <;> simp [initialHalts, h]

theorem firstValueHalts_eq_false :
    firstValueHalts u f = false ↔
      f.isStatic = true ∧ f.initial? = none ∧ u.default? f.type = none := by
  simp [firstValueHalts, and_assoc]

/-- A shared field without an initial value passes its checks once its name is free. -/
theorem checkField_of_shared (hs : f.storage = .shared) (hi : f.initial? = none)
    (hfree : f.name ∉ taken) : b.checkField u taken f = .ok () := by
  simp [checkField, hs, hi, hfree, FieldSpec.isStatic]

/-- One field: going on is lost at its value, or after it. -/
theorem fieldsHalt_cons_eq_false :
    b.fieldsHalt u taken (f :: fs) = false ↔
      (f.name ∉ taken ∧ LosesValue u f) ∨
        (b.checkField u taken f = .ok () ∧ b.fieldsHalt u (f.name :: taken) fs = false) := by
  rw [fieldsHalt, Bool.and_eq_false_iff]
  simp only [Bool.or_eq_false_iff, List.contains_eq_mem, decide_eq_false_iff_not,
    Bool.not_eq_false', initialHalts_eq_false]
  constructor
  · rintro (⟨⟨hfree, hstatic⟩, hv⟩ | h)
    · exact .inl ⟨hfree, .inr ⟨hstatic, hv⟩⟩
    · cases hc : b.checkField u taken f with
      | error e => simp [hc] at h
      | ok checked =>
        rw [hc] at h
        rcases Bool.and_eq_false_iff.mp h with h | h
        · obtain ⟨hstatic, hi, hv⟩ := firstValueHalts_eq_false.mp h
          obtain ⟨hfree, hconstant, -, -⟩ := checkField_eq_ok hc
          have hs : f.storage = .shared := by
            cases hs : f.storage with
            | shared => rfl
            | perInstance => simp [FieldSpec.isStatic, hs] at hstatic
            | constant => exact absurd hi (hconstant hs)
          exact .inl ⟨hfree, .inl ⟨hs, hi, hv⟩⟩
        · exact .inr ⟨rfl, h⟩
  · rintro (⟨hfree, ⟨hs, hi, hv⟩ | ⟨hstatic, hv⟩⟩ | ⟨hc, h⟩)
    · have hfirst : firstValueHalts u f = false :=
        firstValueHalts_eq_false.mpr ⟨by simp [FieldSpec.isStatic, hs], hi, hv⟩
      rw [checkField_of_shared hs hi hfree]
      simp [hfirst]
    · exact .inl ⟨⟨hfree, hstatic⟩, hv⟩
    · rw [hc]
      simp [h]

/-- Going through the fields is lost at the value of one of them. -/
theorem fieldsHalt_eq_false :
    b.fieldsHalt u taken fs = false ↔
      ∃ before f after, fs = before ++ f :: after ∧ b.checkFields u taken before = .ok () ∧
        f.name ∉ taken ∧ f.name ∉ before.map FieldSpec.name ∧ LosesValue u f := by
  induction fs generalizing taken with
  | nil => simp [fieldsHalt]
  | cons g fs ih =>
    rw [fieldsHalt_cons_eq_false, ih]
    constructor
    · rintro (⟨hfree, hv⟩ | ⟨hc, before, f, after, rfl, hbefore, hfree, hnew, hv⟩)
      · exact ⟨[], g, fs, rfl, rfl, hfree, by simp, hv⟩
      · obtain ⟨hg, hfree⟩ := not_or.mp (mt List.mem_cons.mpr hfree)
        refine ⟨g :: before, f, after, rfl, checkFields_cons_eq_ok.mpr ⟨hc, hbefore⟩, hfree, ?_, hv⟩
        simpa using ⟨hg, by simpa using hnew⟩
    · rintro ⟨before, f, after, hfs, hbefore, hfree, hnew, hv⟩
      cases before with
      | nil =>
        obtain ⟨rfl, rfl⟩ := List.cons_eq_cons.mp hfs
        exact .inl ⟨hfree, hv⟩
      | cons g' before =>
        obtain ⟨rfl, rfl⟩ := List.cons_eq_cons.mp hfs
        obtain ⟨hc, hbefore⟩ := checkFields_cons_eq_ok.mp hbefore
        obtain ⟨hg, hnew⟩ := not_or.mp (mt List.mem_cons.mpr (List.map_cons ▸ hnew))
        exact .inr ⟨hc, before, f, after, rfl, hbefore,
          mt List.mem_cons.mp (not_or.mpr ⟨hg, hfree⟩), hnew, hv⟩

theorem halts_eq_false : b.halts u = false ↔ ∃ f, b.ComesTo u f ∧ LosesValue u f := by
  unfold halts ComesTo
  cases hb : b.resolveBase u with
  | error e => simp
  | ok base? =>
    cases hs : b.checkShape u base? with
    | error e => simp [hs]
    | ok checked =>
      cases checked
      simp only [hs]
      rw [fieldsHalt_eq_false]
      constructor
      · rintro ⟨before, f, after, hfs, hbefore, -, hnew, hv⟩
        exact ⟨f, ⟨base?, before, after, rfl, hs, hfs, hbefore, hnew⟩, hv⟩
      · rintro ⟨f, ⟨_, before, after, -, -, hfs, hbefore, hnew⟩, hv⟩
        exact ⟨before, f, after, hfs, hbefore, List.not_mem_nil, hnew, hv⟩

end Blueprint

namespace World

variable {w : World β} {t : TypeRef}

theorem instantiate?_eq_none_iff (hw : w.types.Reachable) (ht : w.types.Knows t) :
    w.instantiate? t = none ↔
      (t.isClass = true ∨ t.isStruct = true) ∧ CycleAhead w.types.Holds t := by
  unfold instantiate?
  by_cases hc : t.isClass = true
  · simp [hc, Universe.layoutDefaults?_eq_none_iff hw]
  · simp [hc, Universe.default?_eq_none_iff hw ht]

theorem define?_eq_none_iff (hw : w.types.Reachable) {b : Blueprint β} (hs : w.types.Scopes b) :
    w.define? b = none ↔
      ∃ f, b.ComesTo w.types f ∧
        ((f.storage = .shared ∧ f.initial? = none ∧
            f.type.isStruct = true ∧ CycleAhead w.types.Holds f.type) ∨
          (f.isStatic = true ∧ ∃ v, f.initial? = some v ∧ w.types.accepts? f.type v = none)) := by
  have halts_iff : w.define? b = none ↔ b.halts w.types = false := by simp [define?]
  rw [halts_iff, Blueprint.halts_eq_false]
  refine exists_congr fun f => and_congr_right fun hf => or_congr_left ?_
  refine and_congr_right fun _ => and_congr_right fun hi => ?_
  obtain ⟨_, before, after, -, -, hfs, -⟩ := hf
  have hmem : f ∈ b.allFields := hfs ▸ by simp
  rcases Blueprint.mem_allFields hmem with hmem | ⟨x, rfl⟩
  · exact Universe.default?_eq_none_iff hw (hs.knows_type hmem)
  · simp [Blueprint.valueField] at hi

/-- **Which defaults end**: unrolling a default ends, at some depth, exactly for the types that are
no structure coming to contain itself; an instance is made exactly when no slot of it comes to hold
such a structure; and defining a type ends exactly when it comes to no shared field that needs the
default of one, and to no initial value that is searched for without end. -/
theorem defaults_end_iff (hw : w.types.Reachable) (ht : w.types.Knows t) :
    ((∃ n v, w.types.defaultWithin n t = some v) ↔
        ¬ (t.isStruct = true ∧ CycleAhead w.types.Holds t)) ∧
      (w.types.default? t = none ↔ t.isStruct = true ∧ CycleAhead w.types.Holds t) ∧
      (w.instantiate? t = none ↔
        (t.isClass = true ∨ t.isStruct = true) ∧ CycleAhead w.types.Holds t) ∧
      ∀ b : Blueprint β, w.types.Scopes b → (w.define? b = none ↔
        ∃ f, b.ComesTo w.types f ∧
          ((f.storage = .shared ∧ f.initial? = none ∧
              f.type.isStruct = true ∧ CycleAhead w.types.Holds f.type) ∨
            (f.isStatic = true ∧
              ∃ v, f.initial? = some v ∧ w.types.accepts? f.type v = none))) :=
  ⟨Universe.exists_defaultWithin_iff hw ht, Universe.default?_eq_none_iff hw ht,
    instantiate?_eq_none_iff hw ht, fun _ hs => define?_eq_none_iff hw hs⟩

/-- A structure with a slot of its own type, and a class that is declared only. -/
def selfContaining : World Unit :=
  { World.empty with
    types := ((Universe.empty.declare .structType "S").define ⟨0, .structType, "S"⟩ {
      flags := { isSealed := true }
      fields := [{
        id := ⟨.declared ⟨0, .structType, "S"⟩, .field, 0⟩
        name := "inner"
        type := .declared ⟨0, .structType, "S"⟩
        visibility := .everyone
        isStatic := false
        constant? := none
        slot := 0
        attributes := [] }]
      layout := [.declared ⟨0, .structType, "S"⟩] }).declare .classType "C" }

/-- The class with a shared field of the structure. -/
def sharingClass : Blueprint Unit where
  target := ⟨1, .classType, "C"⟩
  fields := [{
    name := "origin"
    type := .declared ⟨0, .structType, "S"⟩
    storage := .shared }]

theorem reachable_selfContaining : selfContaining.types.Reachable :=
  .declare _ _ (.define (b := {
      target := ⟨0, .structType, "S"⟩
      flags := { isSealed := true }
      fields := [{ name := "inner", type := .declared ⟨0, .structType, "S"⟩ }] })
    (c := ⟨_, []⟩) (.declare _ _ .empty) ⟨_, rfl, rfl, rfl⟩ rfl
    (fun t ht => by
      obtain rfl := List.mem_singleton.mp ht
      exact ⟨_, rfl, rfl, rfl⟩) rfl rfl)

/-- The structure runs into itself, and defining the class is lost at its default. -/
theorem defaults_end_iff_selfContaining :
    CycleAhead selfContaining.types.Holds (.declared ⟨0, .structType, "S"⟩) ∧
      selfContaining.define? sharingClass = none := by
  have known : selfContaining.types.Knows (.declared ⟨0, .structType, "S"⟩) := ⟨_, rfl, rfl, rfl⟩
  obtain ⟨-, hdefault, -, hdefine⟩ := defaults_end_iff reachable_selfContaining known
  have cycle := (hdefault.mp (by rfl)).2
  refine ⟨cycle, (hdefine sharingClass fun t ht => ?_).mpr ?_⟩
  · obtain rfl := List.mem_singleton.mp ht
    exact known
  · exact ⟨_, ⟨_, [], [], rfl, rfl, rfl, rfl, List.not_mem_nil⟩, .inl ⟨rfl, rfl, rfl, cycle⟩⟩

/-- **Not every default ends**: in a reachable universe a structure has no default at any depth, no
instance, and no class can share a field of it. -/
theorem not_every_default_ends :
    selfContaining.types.Reachable ∧
      (∀ n, selfContaining.types.defaultWithin n (.declared ⟨0, .structType, "S"⟩) = none) ∧
      (selfContaining.instantiate? (.declared ⟨0, .structType, "S"⟩)).isNone = true ∧
      (selfContaining.define? sharingClass).isNone = true := by
  refine ⟨reachable_selfContaining, fun n => ?_, rfl, rfl⟩
  rw [Universe.defaultWithin_eq_none_iff]
  refine ⟨rfl, walks_of_cycleAhead ⟨_, .refl, .single ?_⟩ n⟩
  exact ⟨List.mem_singleton.mpr rfl, rfl⟩

end World

end Reflection
