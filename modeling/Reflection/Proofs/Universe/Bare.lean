import Reflection.Blueprint.Compile
import Reflection.Proofs.Universe.DefaultEnds

/-!
# Proofs/Universe/Bare — what has nothing to do with constructors

    u, b  ──bare──▸  the same without constructors
                       ├─ isSubtype_bare, accepts_bare, default_bare   the answers are the same
                       └─ compile_bare                                 and so is what is compiled

Constructors are the one part of a definition that no search on types looks at and that no
definition below builds on.  So what is asked of a universe may be asked of its bare one as well,
and a blueprint is compiled but for its constructors as if it asked for none.
-/

namespace Reflection

variable {β : Type} {u : Universe β} {t : TypeRef}

/-! ## All but the constructors -/

/-- A definition without constructors. -/
def Definition.bare (x : Definition β) : Definition β := { x with constructors := [] }

/-- A universe whose definitions have no constructors. -/
def Universe.bare (u : Universe β) : Universe β :=
  ⟨u.entries.map fun e => { e with definition? := e.definition?.map Definition.bare }⟩

/-- A blueprint that asks for no constructors. -/
def Blueprint.bare (b : Blueprint β) : Blueprint β := { b with constructors := [] }

namespace Universe

@[simp] theorem size_bare (u : Universe β) : u.bare.size = u.size := by simp [bare, size]

@[simp] theorem bare_declare (u : Universe β) (k : DeclaredKind) (n : String) :
    (u.declare k n).bare = u.bare.declare k n := by
  simp [bare, declare]

@[simp] theorem bare_define (u : Universe β) (d : Declaration) (x : Definition β) :
    (u.define d x).bare = u.bare.define d x.bare := by
  simp only [bare, define, mk.injEq]
  refine Array.ext_getElem? fun i => ?_
  by_cases hi : d.index = i
  · simp [Array.getElem?_modify, hi, Function.comp_def]
  · simp [Array.getElem?_modify, hi]

@[simp] theorem declares_bare {d : Declaration} : u.bare.Declares d ↔ u.Declares d := by
  simp [Declares, bare]

theorem definition?_bare (u : Universe β) (t : TypeRef) :
    (u.bare.definition? t).map Definition.bare = (u.definition? t).map Definition.bare := by
  cases t with
  | declared d =>
    simp only [definition?, bare, Array.getElem?_map]
    cases u.entries[d.index]? with
    | none => rfl
    | some e => cases h : e.definition? <;> simp [h, Definition.bare]
  | _ => rfl

theorem definition_bare (u : Universe β) (t : TypeRef) :
    (u.bare.definition t).bare = (u.definition t).bare := by
  have h (x? : Option (Definition β)) : (x?.getD {}).bare = (x?.map Definition.bare).getD {} := by
    cases x? <;> rfl
  rw [definition, definition, h, h, definition?_bare]

@[simp] theorem isDefined_bare (u : Universe β) : u.bare.isDefined = u.isDefined := by
  funext t
  simpa [isDefined] using congrArg Option.isSome (u.definition?_bare t)

@[simp] theorem flags_bare (u : Universe β) : u.bare.flags = u.flags :=
  funext fun t => (congrArg Definition.flags (u.definition_bare t) :)

@[simp] theorem bases_bare (u : Universe β) (t : TypeRef) :
    (u.bare.definition t).bases = (u.definition t).bases :=
  (congrArg Definition.bases (u.definition_bare t) :)

@[simp] theorem ancestors_bare (u : Universe β) : u.bare.ancestors = u.ancestors := by
  funext t
  rw [ancestors, ancestors, bases_bare]

@[simp] theorem interfaces_bare (u : Universe β) : u.bare.interfaces = u.interfaces :=
  funext fun t => (congrArg Definition.interfaces (u.definition_bare t) :)

@[simp] theorem layout_bare (u : Universe β) : u.bare.layout = u.layout :=
  funext fun t => (congrArg Definition.layout (u.definition_bare t) :)

@[simp] theorem methods_bare (u : Universe β) : u.bare.methods = u.methods :=
  funext fun t => (congrArg Definition.methods (u.definition_bare t) :)

@[simp] theorem properties_bare (u : Universe β) : u.bare.properties = u.properties :=
  funext fun t => (congrArg Definition.properties (u.definition_bare t) :)

@[simp] theorem knows_bare : u.bare.Knows t ↔ u.Knows t := by
  induction t with
  | declared d => exact declares_bare
  | array t ih => exact ih
  | nullable t ih => exact ih
  | _ => exact Iff.rfl

/-! ## Subtypes, acceptance and defaults -/

@[simp] theorem implements_bare (u : Universe β) : u.bare.implements = u.implements := by
  have within (n : ℕ) : u.bare.implementsWithin n = u.implementsWithin n := by
    induction n with
    | zero => rfl
    | succ n ih =>
      funext t i
      rw [implementsWithin, implementsWithin, ih, interfaces_bare]
  funext t i
  rw [implements, implements, within, size_bare]

@[simp] theorem isSubtype_bare (u : Universe β) : u.bare.isSubtype = u.isSubtype := by
  funext s t
  induction s, t using isSubtype.induct with
  | case1 s t ih => rw [isSubtype, isSubtype, ih]
  | _ => simp [isSubtype]

@[simp] theorem isSubtype?_bare (u : Universe β) : u.bare.isSubtype? = u.isSubtype? := by
  have interface (n : ℕ) : u.bare.searchInterface n = u.searchInterface n := by
    induction n with
    | zero => rfl
    | succ n ih =>
      funext t i
      rw [searchInterface, searchInterface, ih, interfaces_bare]
  have subtype (n : ℕ) (s t : TypeRef) : u.bare.searchSubtype n s t = u.searchSubtype n s t := by
    induction s, t using searchSubtype.induct with
    | case1 s => simp [searchSubtype]
    | case2 s t hst hs ih => rw [searchSubtype, searchSubtype, ih]
    | case3 s t hst hs => simp [searchSubtype, hst, hs]
    | _ => simp [searchSubtype, interface]
  funext s t
  rw [isSubtype?, isSubtype?, size_bare, subtype]

@[simp] theorem accepts_bare (u : Universe β) : u.bare.accepts = u.accepts := by
  funext t v
  induction t, v using accepts.induct with
  | case1 t => simp
  | case2 t v hv ih => simp [ih]
  | _ => simp [accepts]

@[simp] theorem accepts?_bare (u : Universe β) : u.bare.accepts? = u.accepts? := by
  funext t v
  induction t, v using accepts?.induct with
  | case1 t => simp [accepts?]
  | case2 t v hv ih => simp [accepts?, ih]
  | _ => simp [accepts?]

@[simp] theorem default?_bare (u : Universe β) : u.bare.default? = u.default? := by
  have within (n : ℕ) : u.bare.defaultWithin n = u.defaultWithin n := by
    induction n with
    | zero =>
      funext t
      cases ht : t.isStruct with
      | false => rw [defaultWithin_of_not_isStruct _ ht, defaultWithin_of_not_isStruct _ ht]
      | true => rw [defaultWithin_zero _ ht, defaultWithin_zero _ ht]
    | succ n ih =>
      funext t
      cases ht : t.isStruct with
      | false => rw [defaultWithin_of_not_isStruct _ ht, defaultWithin_of_not_isStruct _ ht]
      | true => rw [defaultWithin_succ _ ht, defaultWithin_succ _ ht, ih, layout_bare]
  funext t
  rw [default?, default?, within, size_bare]

@[simp] theorem default_bare (u : Universe β) : u.bare.default = u.default := by
  funext t
  rw [default, default, default?_bare]

end Universe

/-! ## Compiling -/

namespace Blueprint

theorem resolveBase_bare (u : Universe β) (b : Blueprint β) :
    b.bare.resolveBase u.bare = b.resolveBase u := by
  simp only [resolveBase, Universe.isDefined_bare, Universe.flags_bare]
  rfl

theorem lineOf_bare (u : Universe β) : lineOf u.bare = lineOf u := by
  funext base?
  cases base? <;> simp [lineOf]

theorem checkShape_bare (u : Universe β) (b : Blueprint β) :
    b.bare.checkShape u.bare = b.checkShape u := by
  funext base?
  simp only [checkShape, Universe.isSubtype_bare]
  rfl

theorem checkField_bare (u : Universe β) (b : Blueprint β) :
    b.bare.checkField u.bare = b.checkField u := by
  funext taken f
  simp only [checkField, Universe.accepts_bare]
  rfl

theorem checkFields_bare (u : Universe β) (b : Blueprint β) (taken : List String)
    (fs : List FieldSpec) : b.bare.checkFields u.bare taken fs = b.checkFields u taken fs := by
  induction fs generalizing taken with
  | nil => rfl
  | cons f fs ih => rw [checkFields, checkFields, checkField_bare, ih]

theorem compileMethods_bare (u : Universe β) (b : Blueprint β) (line : List TypeRef)
    (built : List (Method β)) (specs : List (MethodSpec β)) :
    b.bare.compileMethods u.bare line built specs = b.compileMethods u line built specs := by
  have one (built : List (Method β)) (spec : MethodSpec β) :
      b.bare.compileMethod u.bare line built spec = b.compileMethod u line built spec := by
    simp only [compileMethod, overriddenMethod?, Universe.methods_bare]
    rfl
  induction specs generalizing built with
  | nil => rfl
  | cons spec specs ih => simp only [compileMethods, one, ih]

theorem compileProperties_bare (u : Universe β) (b : Blueprint β) (line : List TypeRef)
    (built : List (Property β)) (specs : List (PropertySpec β)) :
    b.bare.compileProperties u.bare line built specs =
      b.compileProperties u line built specs := by
  have one (built : List (Property β)) (spec : PropertySpec β) :
      b.bare.compileProperty u.bare line built spec = b.compileProperty u line built spec := by
    simp only [compileProperty, overriddenProperty?, Universe.properties_bare]
    rfl
  induction specs generalizing built with
  | nil => rfl
  | cons spec specs ih => simp only [compileProperties, one, ih]

theorem staticValues_bare (u : Universe β) (b : Blueprint β) :
    b.bare.staticValues u.bare = b.staticValues u := by
  rw [staticValues, Universe.default_bare]
  rfl

theorem fieldsHalt_bare (u : Universe β) (b : Blueprint β) (taken : List String)
    (fs : List FieldSpec) : b.bare.fieldsHalt u.bare taken fs = b.fieldsHalt u taken fs := by
  induction fs generalizing taken with
  | nil => rfl
  | cons f fs ih =>
    simp only [fieldsHalt, initialHalts, firstValueHalts, checkField_bare, ih,
      Universe.accepts?_bare, Universe.default?_bare]

/-- Whether compiling ends has nothing to do with constructors. -/
theorem halts_bare (u : Universe β) (b : Blueprint β) : b.bare.halts u.bare = b.halts u := by
  simp only [halts, resolveBase_bare, checkShape_bare, fieldsHalt_bare]
  rfl

/-- **Constructors come last**: everything else is compiled as if there were none. -/
theorem compile_bare (u : Universe β) (b : Blueprint β) :
    b.compile u = do
      let bare ← b.bare.compile u.bare
      let constructors ← b.compileConstructors
      return { bare with definition := { bare.definition with constructors := constructors } } := by
  obtain ⟨cs, hcs⟩ : ∃ cs, b.bare.compileConstructors = pure cs := ⟨_, rfl⟩
  have hfields : b.bare.checkFields u.bare [] b.bare.allFields = b.checkFields u [] b.allFields :=
    checkFields_bare ..
  have hmethods (line : List TypeRef) : b.bare.compileMethods u.bare line [] b.bare.methods =
      b.compileMethods u line [] b.methods := compileMethods_bare ..
  have hproperties (line : List TypeRef) :
      b.bare.compileProperties u.bare line [] b.bare.properties =
        b.compileProperties u line [] b.properties := compileProperties_bare ..
  simp only [compile, resolveBase_bare, checkShape_bare, lineOf_bare, staticValues_bare,
    Universe.layout_bare, hfields, hmethods, hproperties, hcs, bind_assoc, pure_bind]
  rfl

end Blueprint
end Reflection
