import Mathlib.Data.List.Basic
import Reflection.Blueprint.Compile

/-!
# Proofs/Universe/Reachable — the universes that declaring and defining leads to

A type is declared once and defined at most once, from a blueprint that mentions declared types
only.  Everything known of a reachable universe is read off one fact (`Reachable.exists_origin`):
a definition is what some blueprint compiled to in an earlier universe, and nothing defined there
has changed since (`Extends`).

What later theory asks of a universe comes at the end: the line of bases is the chain of direct
bases, interfaces are interfaces, and a layout continues the layout of the base.
-/

namespace Reflection

/-- A sequence of checks succeeds when each of them does. -/
theorem bind_eq_ok {ε α γ : Type} {x : Except ε α} {f : α → Except ε γ} {c : γ} :
    (x >>= f) = .ok c ↔ ∃ a, x = .ok a ∧ f a = .ok c := by
  rcases x with e | a
  · simp [bind, Except.bind]
  · refine ⟨fun h => ⟨a, rfl, h⟩, ?_⟩
    rintro ⟨_, ha, h⟩
    obtain rfl := Except.ok.inj ha
    exact h

/-- It fails when one of them does, the ones before it having succeeded. -/
theorem bind_eq_error {ε α γ : Type} {x : Except ε α} {f : α → Except ε γ} {e : ε} :
    (x >>= f) = .error e ↔ x = .error e ∨ ∃ a, x = .ok a ∧ f a = .error e := by
  cases x <;> simp [bind, Except.bind]

theorem map_eq_error {ε α γ : Type} {x : Except ε α} {f : α → γ} {e : ε} :
    x.map f = .error e ↔ x = .error e := by
  cases x <;> simp [Except.map]

/-! ## What a blueprint may mention -/

namespace Blueprint

variable {β : Type}

/-- The types that a blueprint mentions. -/
def mentioned (b : Blueprint β) : List TypeRef :=
  b.extends?.toList ++ b.interfaces ++ b.fields.map FieldSpec.type ++
    b.properties.map PropertySpec.type ++
    (b.methods.flatMap fun m => m.parameters.map ParameterSpec.type ++ m.returns?.toList) ++
    (b.constructors.flatMap fun c => c.parameters.map ParameterSpec.type) ++
    b.attributes.map Attribute.type

/-- A field was asked for as such, or is a named value of an enumeration. -/
theorem mem_allFields {b : Blueprint β} {f : FieldSpec} (hf : f ∈ b.allFields) :
    f ∈ b.fields ∨ ∃ x, f = b.valueField x := by
  rcases List.mem_append.mp hf with hf | hf
  · obtain ⟨x, -, rfl⟩ := List.mem_map.mp hf
    exact .inr ⟨x, rfl⟩
  · exact .inl hf

/-! ## What compiling has checked -/

variable {u : Universe β} {b : Blueprint β}

/-- **What a blueprint has passed when it compiles**, and what the definition holds then. -/
structure Passes (b : Blueprint β) (u : Universe β) (base? : Option TypeRef) (c : Compiled β) :
    Prop where
  resolve : b.resolveBase u = .ok base?
  shape : b.checkShape u base? = .ok ()
  checked : b.checkFields u [] b.allFields = .ok ()
  methods : b.compileMethods u c.definition.bases [] b.methods = .ok c.definition.methods
  properties :
    b.compileProperties u c.definition.bases [] b.properties = .ok c.definition.properties
  constructors : b.compileConstructors = .ok c.definition.constructors
  flags : c.definition.flags = b.flags
  bases : c.definition.bases = lineOf u base?
  interfaces : c.definition.interfaces = b.interfaces
  usage? : c.definition.usage? = b.usage?
  fields : c.definition.fields =
    placeFields b.self 0 ((base?.map u.layout).getD []).length 0 b.allFields
  attributes : c.definition.attributes = b.attributes
  layout : c.definition.layout = (base?.map u.layout).getD [] ++ b.ownLayout
  statics : c.statics = b.staticValues u

/-- **A blueprint compiles only when every check passes.** -/
theorem exists_passes {c : Compiled β} (h : b.compile u = .ok c) :
    ∃ base?, b.Passes u base? c := by
  obtain ⟨base?, hb, h⟩ := bind_eq_ok.mp h
  obtain ⟨⟨⟩, hs, h⟩ := bind_eq_ok.mp h
  obtain ⟨⟨⟩, hf, h⟩ := bind_eq_ok.mp h
  obtain ⟨methods, hm, h⟩ := bind_eq_ok.mp h
  obtain ⟨properties, hp, h⟩ := bind_eq_ok.mp h
  obtain ⟨constructors, hc, h⟩ := bind_eq_ok.mp h
  obtain rfl := Except.ok.inj h
  exact ⟨base?, hb, hs, hf, hm, hp, hc, rfl, rfl, rfl, rfl, rfl, rfl, rfl, rfl⟩

/-- The first type on the line that a blueprint compiles on is what its base resolved to. -/
theorem Passes.eq_some_of_head? {base? : Option TypeRef} {c : Compiled β} {t : TypeRef}
    (h : b.Passes u base? c) (ht : c.definition.bases.head? = some t) : base? = some t := by
  rw [h.bases] at ht
  cases base? with
  | none => simp [lineOf] at ht
  | some s => exact ht

/-- **What a blueprint may derive from**: a defined class that is open for it, below which the type
is a class too. -/
structure MayDerive (b : Blueprint β) (u : Universe β) (t : TypeRef) : Prop where
  self_isClass : b.self.isClass = true
  isClass : t.isClass = true
  isDefined : u.isDefined t = true
  isSealed : (u.flags t).isSealed = false
  isStatic : (u.flags t).isStatic = false
  asked : t = .object ∨ b.extends? = some t

theorem mayDerive_of_resolveBase {t : TypeRef} (h : b.resolveBase u = .ok (some t)) :
    b.MayDerive u t := by
  unfold resolveBase at h
  cases he : b.extends? with
  | none =>
    obtain ⟨hc, rfl⟩ : b.self.isClass = true ∧ TypeRef.object = t := by simpa [he] using h
    exact ⟨hc, rfl, rfl, rfl, rfl, .inl rfl⟩
  | some base =>
    rw [he] at h
    dsimp only at h
    split_ifs at h with hself _ hclass hdefined hopen
    obtain rfl : base = t := by simpa using h
    obtain ⟨hsealed, hstatic⟩ : (u.flags base).isSealed = false ∧
        (u.flags base).isStatic = false := by simpa using hopen
    exact ⟨by simpa using hself, by simpa using hclass, by simpa using hdefined, hsealed, hstatic,
      .inr he⟩

theorem isInterface_of_checkShape {base? : Option TypeRef} (h : b.checkShape u base? = .ok ()) :
    ∀ i ∈ b.interfaces, i.isInterface = true := by
  unfold checkShape at h
  dsimp only at h
  split_ifs at h
  split at h
  · simp at h
  · next hf => simpa using hf

/-- What is known of a field that has passed the checks on it. -/
theorem checkField_eq_ok {taken : List String} {f : FieldSpec}
    (h : b.checkField u taken f = .ok ()) :
    f.name ∉ taken ∧ (f.storage = .constant → f.initial? ≠ none) ∧
      (∀ v, f.initial? = some v → f.isStatic = true ∧ u.accepts f.type v = true) ∧
      (f.isStatic = false → b.isWithoutInstances = false) := by
  unfold checkField at h
  dsimp only at h
  split_ifs at h with ht hc hi hm hw
  refine ⟨by simpa using ht, fun hf => ?_, fun v hv => ⟨?_, ?_⟩, fun hs => ?_⟩
  · simpa [hf] using hc
  · simpa [hv] using hi
  · simpa [hv] using hm
  · simpa [hs] using hw

/-- Every field has passed the checks on it, among the names taken before it. -/
theorem exists_checkField {taken : List String} {fs : List FieldSpec}
    (h : b.checkFields u taken fs = .ok ()) {f : FieldSpec} (hf : f ∈ fs) :
    ∃ taken, b.checkField u taken f = .ok () := by
  induction fs generalizing taken with
  | nil => simp at hf
  | cons g gs ih =>
    obtain ⟨⟨⟩, hg, hgs⟩ := bind_eq_ok.mp h
    rcases List.mem_cons.mp hf with rfl | hf
    · exact ⟨taken, hg⟩
    · exact ih hgs hf

end Blueprint

namespace Universe

variable {β : Type} {u v w : Universe β}

/-- Whether every declaration that a reference is built from is one of this universe. -/
def Knows (u : Universe β) : TypeRef → Prop
  | .declared d => u.Declares d
  | .array t => u.Knows t
  | .nullable t => u.Knows t
  | _ => True

/-- The declared types, in the order of declaration. -/
def declaredTypes (u : Universe β) : List TypeRef :=
  u.entries.toList.mapIdx fun i e => .declared ⟨i, e.kind, e.name⟩

@[simp] theorem length_declaredTypes (u : Universe β) : u.declaredTypes.length = u.size := by
  simp [declaredTypes, size]

theorem Declares.mem_declaredTypes {d : Declaration} (h : u.Declares d) :
    .declared d ∈ u.declaredTypes := by
  obtain ⟨e, he, hk, hn⟩ := h
  have he' : u.entries.toList[d.index]? = some e := by simpa using he
  refine List.mem_iff_getElem?.mpr ⟨d.index, ?_⟩
  rw [declaredTypes, List.getElem?_mapIdx, he', Option.map_some, hk, hn]

/-- A declaration of a universe is determined by its number. -/
theorem Declares.eq_of_index {d e : Declaration} (hd : u.Declares d) (he : u.Declares e)
    (h : d.index = e.index) : d = e := by
  obtain ⟨x, hx, hk, hn⟩ := hd
  obtain ⟨y, hy, hk', hn'⟩ := he
  rw [h, hy] at hx
  obtain rfl := Option.some.inj hx
  cases d
  cases e
  simp_all

/-- Whether a blueprint mentions known types only. -/
def Scopes (u : Universe β) (b : Blueprint β) : Prop := ∀ t ∈ b.mentioned, u.Knows t

theorem Scopes.knows_type {b : Blueprint β} (h : u.Scopes b) {f : FieldSpec} (hf : f ∈ b.fields) :
    u.Knows f.type := by
  refine h _ ?_
  simp only [Blueprint.mentioned, List.mem_append, List.mem_map]
  exact .inl (.inl (.inl (.inl (.inr ⟨f, hf, rfl⟩))))

/-! ## Growth -/

/-- Whether a universe knows all that another does: its declarations, and its definitions as they
are. -/
structure Extends (u v : Universe β) : Prop where
  size_le : u.size ≤ v.size
  declares : ∀ {d}, u.Declares d → v.Declares d
  definition? : ∀ {t x}, u.definition? t = some x → v.definition? t = some x

namespace Extends

theorem refl (u : Universe β) : u.Extends u := ⟨Nat.le_refl _, id, id⟩

theorem trans (h : u.Extends v) (h' : v.Extends w) : u.Extends w :=
  ⟨Nat.le_trans h.size_le h'.size_le, fun hd => h'.declares (h.declares hd),
    fun hx => h'.definition? (h.definition? hx)⟩

theorem knows (h : u.Extends v) {t : TypeRef} (ht : u.Knows t) : v.Knows t := by
  induction t with
  | declared d => exact h.declares ht
  | array t ih => exact ih ht
  | nullable t ih => exact ih ht
  | _ => trivial

/-- A defined type has the same definition in both. -/
theorem definition_eq (h : u.Extends v) {t : TypeRef} (ht : u.isDefined t = true) :
    v.definition t = u.definition t := by
  obtain ⟨x, hx⟩ := Option.isSome_iff_exists.mp ht
  rw [definition, definition, h.definition? hx, hx]

theorem isDefined (h : u.Extends v) {t : TypeRef} (ht : u.isDefined t = true) :
    v.isDefined t = true := by
  obtain ⟨x, hx⟩ := Option.isSome_iff_exists.mp ht
  exact Option.isSome_iff_exists.mpr ⟨x, h.definition? hx⟩

/-- A type without a definition has nothing, so every list that a definition holds only grows. -/
theorem definition_of_mem (h : u.Extends v) {t : TypeRef} {α : Type} {a : α}
    (field : Definition β → List α) (hf : field {} = []) (ha : a ∈ field (u.definition t)) :
    v.definition t = u.definition t := by
  cases hx : u.definition? t with
  | none => simp [definition, hx, hf] at ha
  | some x => exact h.definition_eq (Option.isSome_iff_exists.mpr ⟨x, hx⟩)

end Extends

theorem extends_declare (u : Universe β) (k : DeclaredKind) (n : String) :
    u.Extends (u.declare k n) where
  size_le := by simp
  declares := by
    intro d ⟨e, he, hk, hn⟩
    refine ⟨e, ?_, hk, hn⟩
    have hlt : d.index < u.entries.size := (Array.getElem?_eq_some_iff.mp he).1
    simp only [declare, Array.getElem?_push, if_neg (Nat.ne_of_lt hlt), he]
  definition? := by simp

/-- Defining declares nothing and takes no declaration away. -/
@[simp] theorem declares_define {d e : Declaration} {x : Definition β} :
    (u.define d x).Declares e ↔ u.Declares e := by
  simp only [Declares, define, Array.getElem?_modify]
  by_cases h : d.index = e.index
  · simp only [h, if_true, Option.map_eq_some_iff]
    constructor
    · rintro ⟨_, ⟨a, ha, rfl⟩, hk, hn⟩
      exact ⟨a, ha, hk, hn⟩
    · rintro ⟨a, ha, hk, hn⟩
      exact ⟨_, ⟨a, ha, rfl⟩, hk, hn⟩
  · simp only [if_neg h]

theorem extends_define {d : Declaration} (x : Definition β)
    (hd : u.isDefined (.declared d) = false) : u.Extends (u.define d x) where
  size_le := by simp
  declares := declares_define.mpr
  definition? := by
    intro t y hy
    cases t with
    | declared e =>
      rw [definition?_define_of_ne u x, hy]
      intro he
      have : u.definition? (.declared d) = some y := by
        rw [← hy]
        simp only [definition?, he]
      simp [isDefined, this] at hd
    | _ => exact hy

/-- A type that is not defined has nothing. -/
theorem definition_of_not_isDefined {t : TypeRef} (h : u.isDefined t = false) :
    u.definition t = {} := by
  simp only [isDefined, Option.isSome_eq_false_iff, Option.isNone_iff_eq_none] at h
  rw [definition, h, Option.getD_none]

@[simp] theorem definition_declare (u : Universe β) (k : DeclaredKind) (n : String) (t : TypeRef) :
    (u.declare k n).definition t = u.definition t := by
  rw [definition, definition?_declare, definition]

/-- A type without a declaration has nothing yet. -/
theorem definition_of_size_le {d : Declaration} (h : u.size ≤ d.index) : u.definition (.declared d) = {} := by
  have hnone : u.entries[d.index]? = none := Array.getElem?_eq_none h
  simp [definition, definition?, hnone]

/-- Defining settles what one number stands for, and nothing else. -/
theorem definition_define_cases {d : Declaration} (hd : u.Declares d) (x : Definition β)
    (t : TypeRef) :
    (∃ e, t = .declared e ∧ e.index = d.index ∧ (u.define d x).definition t = x) ∨
      ((∀ e, t = .declared e → e.index ≠ d.index) ∧
        (u.define d x).definition t = u.definition t) := by
  cases t with
  | declared e =>
    by_cases h : e.index = d.index
    · refine .inl ⟨e, rfl, h, ?_⟩
      have hx := definition?_define_self u x hd
      simp only [definition, definition?, h] at hx ⊢
      rw [hx, Option.getD_some]
    · refine .inr ⟨fun e' he => by rwa [← TypeRef.declared.inj he], ?_⟩
      rw [definition, definition?_define_of_ne u x h, definition]
  | _ => exact .inr ⟨by simp, rfl⟩

/-- Defining a type changes no other known type. -/
theorem definition?_define_of_knows {d : Declaration} {t : TypeRef} (x : Definition β)
    (hd : u.Declares d) (ht : u.Knows t) (hne : t ≠ .declared d) :
    (u.define d x).definition? t = u.definition? t := by
  cases t with
  | declared e =>
    exact definition?_define_of_ne u x fun h => hne (by rw [Declares.eq_of_index ht hd h])
  | _ => rfl

theorem definition_define_self {d : Declaration} (x : Definition β) (hd : u.Declares d) :
    (u.define d x).definition (.declared d) = x := by
  rw [definition, definition?_define_self u x hd, Option.getD_some]

theorem isDefined_define_self {d : Declaration} (x : Definition β) (hd : u.Declares d) :
    (u.define d x).isDefined (.declared d) = true := by
  rw [isDefined, definition?_define_self u x hd, Option.isSome_some]

theorem isDefined_define_of_ne {d : Declaration} {t : TypeRef} (x : Definition β)
    (hd : u.Declares d) (ht : u.Knows t) (hne : t ≠ .declared d) :
    (u.define d x).isDefined t = u.isDefined t := by
  rw [isDefined, definition?_define_of_knows x hd ht hne, isDefined]

/-! ## Reachable universes -/

/-- The universes that come about by declaring types and by defining each at most once, from a
blueprint whose compilation comes to an end. -/
inductive Reachable : Universe β → Prop
  | empty : Reachable .empty
  | declare {u : Universe β} (k : DeclaredKind) (n : String) (hu : Reachable u) :
      Reachable (u.declare k n)
  | define {u : Universe β} {b : Blueprint β} {c : Blueprint.Compiled β} (hu : Reachable u)
      (hd : u.Declares b.target) (hn : u.isDefined b.self = false) (hs : u.Scopes b)
      (hh : b.halts u = true) (hc : b.compile u = .ok c) :
      Reachable (u.define b.target c.definition)

/-- What a definition of a universe goes back to: a blueprint, and the earlier universe that it was
compiled in. -/
structure Origin (u v : Universe β) (b : Blueprint β) (c : Blueprint.Compiled β) : Prop where
  reachable : v.Reachable
  grown : v.Extends u
  declares : v.Declares b.target
  scopes : v.Scopes b
  compile : b.compile v = .ok c
  definition? : u.definition? b.self = some c.definition

theorem Origin.mono {b : Blueprint β} {c : Blueprint.Compiled β} (h : Origin u v b c)
    (hw : u.Extends w) : Origin w v b c :=
  { h with grown := h.grown.trans hw, definition? := hw.definition? h.definition? }

theorem Origin.exists_passes {b : Blueprint β} {c : Blueprint.Compiled β} (h : Origin u v b c) :
    ∃ base?, b.Passes v base? c :=
  Blueprint.exists_passes h.compile

theorem Origin.definition_eq {b : Blueprint β} {c : Blueprint.Compiled β} (h : Origin u v b c) :
    u.definition b.self = c.definition := by
  rw [definition, h.definition?, Option.getD_some]

theorem lt_size_of_definition? {d : Declaration} {x : Definition β}
    (hx : u.definition? (.declared d) = some x) : d.index < u.entries.size := by
  obtain ⟨e, he, -⟩ := Option.bind_eq_some_iff.mp hx
  exact (Array.getElem?_eq_some_iff.mp he).1

/-- **A definition of a declared type is what some blueprint compiled to.** -/
theorem Reachable.exists_origin (hu : u.Reachable) {d : Declaration} {x : Definition β}
    (hx : u.definition? (.declared d) = some x) :
    ∃ v b c, Origin u v b c ∧ x = c.definition ∧ (u.Declares d → d = b.target) := by
  induction hu generalizing x with
  | empty => exact absurd (lt_size_of_definition? hx) (Nat.not_lt_zero _)
  | @declare u k n hu ih =>
    rw [definition?_declare] at hx
    obtain ⟨v, b, c, ho, rfl, hd⟩ := ih hx
    refine ⟨v, b, c, ho.mono (u.extends_declare k n), rfl, fun hk => hd ?_⟩
    -- the type has a definition, so it is not the one declared last
    obtain ⟨e, he, hk, hn⟩ := hk
    refine ⟨e, ?_, hk, hn⟩
    have hlt := lt_size_of_definition? hx
    simpa only [Universe.declare, Array.getElem?_push, if_neg (Nat.ne_of_lt hlt)] using he
  | @define u b c hu hd hn hs hh hc ih =>
    have hgrown := extends_define c.definition hn
    by_cases hi : d.index = b.target.index
    · have hb := definition?_define_self u c.definition hd
      have hsame : (u.define b.target c.definition).definition? (.declared d)
          = (u.define b.target c.definition).definition? (.declared b.target) := by
        simp only [definition?, hi]
      rw [hsame, hb] at hx
      refine ⟨u, b, c, ⟨hu, hgrown, hd, hs, hc, hb⟩, (Option.some.inj hx).symm, fun hd' => ?_⟩
      exact (declares_define.mp hd').eq_of_index hd hi
    · rw [definition?_define_of_ne u _ hi] at hx
      obtain ⟨v, b', c', ho, rfl, hd'⟩ := ih hx
      exact ⟨v, b', c', ho.mono hgrown, rfl, fun h => hd' (declares_define.mp h)⟩

/-- A built-in type derives from the root at most. -/
theorem bases_of_builtin? {t : TypeRef} {x : Definition β} (h : builtin? t = some x) :
    x.bases = [] ∨ x.bases = [.object] := by
  cases t with
  | primitive p => cases p <;> (obtain rfl := Option.some.inj h; simp)
  | declared d => simp [builtin?] at h
  | _ => obtain rfl := Option.some.inj h; simp

/-- A built-in type has no interfaces, fields and slots. -/
theorem members_of_builtin? {t : TypeRef} {x : Definition β} (h : builtin? t = some x) :
    x.interfaces = [] ∧ x.fields = [] ∧ x.layout = [] := by
  cases t with
  | primitive p => cases p <;> (obtain rfl := Option.some.inj h; simp)
  | declared d => simp [builtin?] at h
  | _ => obtain rfl := Option.some.inj h; simp

/-- What a type is read as: nothing yet, built in, or compiled from a blueprint. -/
theorem Reachable.definition_cases (hu : u.Reachable) (t : TypeRef) :
    u.definition t = {} ∨ builtin? t = some (u.definition t) ∨
      ∃ v b c, Origin u v b c ∧ u.definition t = c.definition ∧ (u.Knows t → t = b.self) := by
  cases t with
  | declared d =>
    cases hx : u.definition? (.declared d) with
    | none => simp [definition, hx]
    | some x =>
      obtain ⟨v, b, c, ho, rfl, hd⟩ := hu.exists_origin hx
      refine .inr (.inr ⟨v, b, c, ho, by simp [definition, hx], fun hk => ?_⟩)
      rw [hd hk, Blueprint.self]
  | primitive p => cases p <;> exact .inr (.inl rfl)
  | _ => exact .inr (.inl rfl)

/-! ## Bases, interfaces and layouts -/

theorem base?_eq_some {t a : TypeRef} (h : u.base? t = some a) :
    ∃ as, (u.definition t).bases = a :: as := List.head?_eq_some_iff.mp h

theorem bases_eq_nil {t : TypeRef} (h : u.base? t = none) : (u.definition t).bases = [] :=
  List.head?_eq_none_iff.mp h

/-- **Where a direct base comes from**: it is the root above a built-in type, or else what the
blueprint of the type resolved to. -/
theorem Reachable.base?_cases (hu : u.Reachable) {t a : TypeRef} (h : u.base? t = some a) :
    a = .object ∧ builtin? t = some (u.definition t) ∧ (u.definition t).bases = [.object] ∨
      ∃ v b c, Origin u v b c ∧ b.resolveBase v = .ok (some a) ∧
        (u.definition t).bases = v.ancestors a ∧ u.layout t = v.layout a ++ b.ownLayout ∧
        (u.Knows t → t = b.self) := by
  obtain ⟨as, has⟩ := base?_eq_some h
  rcases hu.definition_cases t with hx | hx | ⟨v, b, c, ho, hx, hself⟩
  · simp [hx] at has
  · have hobj := (bases_of_builtin? hx).resolve_left (by simp [has])
    obtain ⟨rfl, -⟩ := List.cons_eq_cons.mp (has.symm.trans hobj)
    exact .inl ⟨rfl, hx, hobj⟩
  · obtain ⟨base?, hp⟩ := ho.exists_passes
    obtain rfl : base? = some a := hp.eq_some_of_head? (by rw [← hx, has]; rfl)
    refine .inr ⟨v, b, c, ho, hp.resolve, ?_, ?_, hself⟩
    · rw [hx, hp.bases]
      rfl
    · rw [layout, hx, hp.layout]
      rfl

/-- **A direct base is defined**, and a class that may be derived from. -/
theorem Reachable.base_of_base? (hu : u.Reachable) {t a : TypeRef} (h : u.base? t = some a) :
    u.isDefined a = true ∧ a.isClass = true ∧ u.Knows a ∧ (u.flags a).isSealed = false ∧
      (u.flags a).isStatic = false := by
  rcases hu.base?_cases h with ⟨rfl, -⟩ | ⟨v, b, c, ho, hb, -⟩
  · exact ⟨rfl, rfl, trivial, rfl, rfl⟩
  · have hbase := Blueprint.mayDerive_of_resolveBase hb
    rw [flags, ho.grown.definition_eq hbase.isDefined]
    refine ⟨ho.grown.isDefined hbase.isDefined, hbase.isClass, ho.grown.knows ?_, hbase.isSealed,
      hbase.isStatic⟩
    rcases hbase.asked with rfl | hasked
    · trivial
    · exact ho.scopes _ (by simp [Blueprint.mentioned, hasked])

/-- **The line of bases is the chain of direct bases.** -/
theorem Reachable.bases_eq (hu : u.Reachable) {t a : TypeRef} (h : u.base? t = some a) :
    (u.definition t).bases = u.ancestors a := by
  rcases hu.base?_cases h with ⟨rfl, -, hbases⟩ | ⟨v, b, c, ho, hb, hbases, -⟩
  · exact hbases
  · rw [hbases, ancestors, ancestors,
      ho.grown.definition_eq (Blueprint.mayDerive_of_resolveBase hb).isDefined]

/-- A direct base is a known class. -/
theorem Reachable.isClass_of_base? (hu : u.Reachable) {t a : TypeRef} (h : u.base? t = some a) :
    a.isClass = true ∧ u.Knows a :=
  ⟨(hu.base_of_base? h).2.1, (hu.base_of_base? h).2.2.1⟩

/-- **Going from base to base ends**, so a fact about all types may be proved from the same fact
about their bases. -/
theorem Reachable.base_induction (hu : u.Reachable) {motive : TypeRef → Prop}
    (step : ∀ t, (∀ a, u.base? t = some a → motive a) → motive t) (t : TypeRef) : motive t := by
  induction hn : (u.definition t).bases.length using Nat.strongRecOn generalizing t with
  | ind n ih =>
    refine step t fun a ha => ih _ ?_ a rfl
    rw [← hn, hu.bases_eq ha]
    exact Nat.lt_succ_self _

/-- A base is the direct base, or a base of the direct base. -/
theorem Reachable.mem_bases (hu : u.Reachable) {t a : TypeRef}
    (h : a ∈ (u.definition t).bases) :
    ∃ b, u.base? t = some b ∧ (u.definition t).bases = u.ancestors b ∧
      (a = b ∨ a ∈ (u.definition b).bases) := by
  cases hb : u.base? t with
  | none => simp [bases_eq_nil hb] at h
  | some b =>
    have hbases := hu.bases_eq hb
    rw [hbases] at h
    exact ⟨b, rfl, hbases, List.mem_cons.mp h⟩

theorem Reachable.isClass_of_mem_bases (hu : u.Reachable) {t a : TypeRef} :
    a ∈ (u.definition t).bases → a.isClass = true := by
  induction t using hu.base_induction with
  | step t ih =>
    intro h
    obtain ⟨b, hb, -, rfl | ha⟩ := hu.mem_bases h
    · exact (hu.isClass_of_base? hb).1
    · exact ih b hb ha

/-- What is above a base is above the type too. -/
theorem Reachable.ancestors_subset (hu : u.Reachable) {t a : TypeRef} :
    a ∈ (u.definition t).bases → u.ancestors a ⊆ (u.definition t).bases := by
  induction t using hu.base_induction with
  | step t ih =>
    intro h
    obtain ⟨b, hb, hbases, rfl | ha⟩ := hu.mem_bases h
    · rw [hbases]
      exact List.Subset.refl _
    · rw [hbases]
      exact List.Subset.trans (ih b hb ha) (List.subset_cons_self _ _)

/-- **What a type names as an interface is a known interface.** -/
theorem Reachable.isInterface_of_mem (hu : u.Reachable) {t i : TypeRef} (h : i ∈ u.interfaces t) :
    i.isInterface = true ∧ u.Knows i := by
  rw [interfaces] at h
  rcases hu.definition_cases t with hx | hx | ⟨v, b, c, ho, hx, -⟩
  · simp [hx] at h
  · simp [(members_of_builtin? hx).1] at h
  · obtain ⟨base?, hp⟩ := ho.exists_passes
    rw [hx, hp.interfaces] at h
    refine ⟨Blueprint.isInterface_of_checkShape hp.shape i h, ho.grown.knows (ho.scopes i ?_)⟩
    exact by simp only [Blueprint.mentioned, List.mem_append]; tauto

/-- An interface derives from nothing. -/
theorem Reachable.bases_of_isInterface (hu : u.Reachable) {i : TypeRef} (hi : i.isInterface = true)
    (hk : u.Knows i) : (u.definition i).bases = [] := by
  rcases hu.definition_cases i with hx | hx | ⟨v, b, c, ho, hx, hself⟩
  · simp [hx]
  · cases i <;> simp_all [builtin?, TypeRef.isInterface, TypeRef.hasKind]
  · obtain ⟨base?, hp⟩ := ho.exists_passes
    cases base? with
    | none => rw [hx, hp.bases, Blueprint.lineOf]
    | some a =>
      -- only classes have a base, and no class is an interface
      have hc := (Blueprint.mayDerive_of_resolveBase hp.resolve).self_isClass
      rw [hself hk] at hi
      simp_all [Blueprint.self, TypeRef.isClass, TypeRef.isInterface, TypeRef.hasKind]

/-- **A layout continues the layout of the base.** -/
theorem Reachable.layout_prefix (hu : u.Reachable) {t a : TypeRef} (h : u.base? t = some a) :
    u.layout a <+: u.layout t := by
  rcases hu.base?_cases h with ⟨rfl, -⟩ | ⟨v, b, c, ho, hb, -, hlayout, -⟩
  · exact List.nil_prefix
  · rw [hlayout, layout, ho.grown.definition_eq (Blueprint.mayDerive_of_resolveBase hb).isDefined]
    exact List.prefix_append _ _

end Universe

end Reflection
