import Reflection.Proofs.Universe.DefaultEnds
import Reflection.Proofs.Universe.Overrides

/-!
# Proofs/Universe/Checked — what a blueprint that compiles has been checked for

Compiling goes through a blueprint once and stops at the first fault.  Here is what is known where
it has found none, part by part: the names of the fields, the order of parameters, the usage of an
attribute type and where the constructors come from.
-/

namespace Reflection

variable {β : Type}

/-! ## Parameters -/

/-- **A parameter list in order**: at most one parameter is variadic, it comes last, and it is an
array. -/
structure Parameter.InOrder (ps : List Parameter) : Prop where
  variadic_once : (ps.filter Parameter.isVariadic).length ≤ 1
  variadic_last : ∀ p ∈ ps.dropLast, p.isVariadic = false
  variadic_array : ∀ p ∈ ps, p.isVariadic = true → p.type.isArray = true

/-- What can only come last comes once at most. -/
theorem Parameter.length_filter_le {ps : List Parameter}
    (h : ∀ p ∈ ps.dropLast, p.isVariadic = false) : (ps.filter Parameter.isVariadic).length ≤ 1 := by
  rcases ps.eq_nil_or_concat' with rfl | ⟨qs, p, rfl⟩
  · simp
  · rw [List.dropLast_concat] at h
    have hqs : qs.filter Parameter.isVariadic = [] :=
      List.filter_eq_nil_iff.mpr fun q hq => by simp [h q hq]
    rw [List.filter_append, hqs, List.nil_append]
    exact List.length_filter_le _ [p]

namespace Blueprint

variable {u : Universe β} {b : Blueprint β}

theorem inOrder_of_compileParameters {member : String} {specs : List ParameterSpec}
    {ps : List Parameter} (h : compileParameters member specs = .ok ps) :
    Parameter.InOrder ps := by
  have harray {p : Parameter} (hp : p ∈ ps) (hv : p.isVariadic = true) :=
    isArray_of_compileParameters h hp hv
  obtain ⟨built, -, h⟩ := bind_eq_ok.mp h
  split at h
  · simp at h
  · next hnone =>
    obtain rfl := Except.ok.inj h
    have hlast : ∀ p ∈ built.dropLast, p.isVariadic = false := by simpa using hnone
    exact ⟨Parameter.length_filter_le hlast, hlast, fun p => harray⟩

/-- No parameter is asked for as variadic and written back at once. -/
theorem not_both_of_compileParameters {member : String} {specs : List ParameterSpec}
    {ps : List Parameter} (h : compileParameters member specs = .ok ps) :
    ∀ p ∈ specs, ¬ (p.writeBack = true ∧ p.variadic = true) := by
  rintro p hp ⟨hw, hv⟩
  obtain ⟨built, hb, -⟩ := bind_eq_ok.mp h
  obtain ⟨c, -, hc⟩ := exists_of_forall₂_left (forall₂_of_mapM hb) hp
  simp [compileParameter, hw, hv] at hc

/-- An accessor takes the value that is written, or nothing. -/
theorem inOrder_parameters (kind : AccessorKind) (type : TypeRef) :
    Parameter.InOrder (kind.parameters type) := by
  constructor <;> cases kind <;> simp [AccessorKind.parameters, Parameter.isVariadic]

theorem parameters_of_compileMethod {line : List TypeRef} {before : List (Method β)}
    {spec : MethodSpec β} {m : Method β} (h : b.compileMethod u line before spec = .ok m) :
    compileParameters spec.name spec.parameters = .ok m.parameters := by
  obtain ⟨ps, hps, h⟩ := bind_eq_ok.mp h
  split_ifs at h
  · split at h
    · obtain rfl := Except.ok.inj h
      exact hps
    · simp at h
  · obtain rfl := Except.ok.inj h
    exact hps

theorem parameters_of_compileConstructor {before : List (Constructor β)}
    {spec : ConstructorSpec β} {c : Constructor β}
    (h : b.compileConstructor before spec = .ok c) :
    compileParameters (constructorName b.typeName) spec.parameters = .ok c.parameters ∧
      c.isSynthesized = false := by
  obtain ⟨ps, hps, h⟩ := bind_eq_ok.mp h
  split_ifs at h
  obtain rfl := Except.ok.inj h
  exact ⟨hps, rfl⟩

/-- The methods of a type, each from what was asked for. -/
theorem forall₂_compileMethods {line : List TypeRef} {ms : List (Method β)}
    (h : b.compileMethods u line [] b.methods = .ok ms) :
    List.Forall₂ (fun spec m => compileParameters spec.name spec.parameters = .ok m.parameters)
      b.methods ms := by
  rw [compileMethods_eq] at h
  obtain ⟨new, rfl, hnew⟩ := forall₂_compileEach h
  exact hnew.imp fun _ _ ⟨_, h⟩ => parameters_of_compileMethod h

/-! ## Constructors -/

/-- **Where constructors come from**: those asked for, or a synthesized one for a class that asks for
none and is not static. -/
theorem compileConstructors_cases {cs : List (Constructor β)} (h : b.compileConstructors = .ok cs) :
    b.constructors = [] ∧
      (b.self.isClass = true ∧ b.flags.isStatic = false ∧
          (∃ visibility, cs = [.synthesized b.self visibility]) ∨
        ¬ (b.self.isClass = true ∧ b.flags.isStatic = false) ∧ cs = []) ∨
    b.constructors ≠ [] ∧
      List.Forall₂ (fun spec c =>
        compileParameters (constructorName b.typeName) spec.parameters = .ok c.parameters ∧
          c.isSynthesized = false) b.constructors cs := by
  unfold compileConstructors at h
  split at h
  · next hnone =>
    refine .inl ⟨by simpa using hnone, ?_⟩
    obtain rfl := Except.ok.inj h
    by_cases hc : b.self.isClass = true ∧ b.flags.isStatic = false
    · exact .inl ⟨hc.1, hc.2, if b.flags.isAbstract then .family else .everyone, by simp [hc]⟩
    · exact .inr ⟨hc, by simpa using hc⟩
  · next hsome =>
    split_ifs at h
    rw [compileOwnConstructors_eq] at h
    obtain ⟨new, rfl, hnew⟩ := forall₂_compileEach h
    exact .inr ⟨by simpa using hsome,
      hnew.imp fun _ _ ⟨_, h⟩ => parameters_of_compileConstructor h⟩

theorem exists_isSynthesized_iff {cs : List (Constructor β)} (h : b.compileConstructors = .ok cs) :
    (∃ c ∈ cs, c.isSynthesized = true) ↔
      b.self.isClass = true ∧ b.flags.isStatic = false ∧ b.constructors = [] := by
  rcases compileConstructors_cases h with
    ⟨hnone, ⟨hclass, hstatic, visibility, rfl⟩ | ⟨hn, rfl⟩⟩ | ⟨hsome, hcs⟩
  · simp [hnone, hclass, hstatic, Constructor.synthesized, Constructor.isSynthesized]
  · exact iff_of_false (by simp) fun h => hn ⟨h.1, h.2.1⟩
  · refine iff_of_false ?_ fun h => hsome h.2.2
    rintro ⟨c, hc, hsyn⟩
    obtain ⟨spec, -, -, hown⟩ := exists_of_forall₂_right hcs hc
    simp [hown] at hsyn

/-- The parameters of every constructor are in order. -/
theorem inOrder_of_compileConstructors {cs : List (Constructor β)}
    (h : b.compileConstructors = .ok cs) : ∀ c ∈ cs, Parameter.InOrder c.parameters := by
  intro c hc
  rcases compileConstructors_cases h with ⟨-, ⟨-, -, _, rfl⟩ | ⟨-, rfl⟩⟩ | ⟨-, hcs⟩
  · obtain rfl := List.mem_singleton.mp hc
    constructor <;> simp [Constructor.synthesized]
  · simp at hc
  · obtain ⟨spec, -, hps, -⟩ := exists_of_forall₂_right hcs hc
    exact inOrder_of_compileParameters hps

/-- No parameter of a constructor was asked for as variadic and written back at once. -/
theorem constructors_not_both {cs : List (Constructor β)} (h : b.compileConstructors = .ok cs) :
    ∀ c ∈ b.constructors, ∀ p ∈ c.parameters, ¬ (p.writeBack = true ∧ p.variadic = true) := by
  intro c hc
  rcases compileConstructors_cases h with ⟨hnone, -⟩ | ⟨-, hcs⟩
  · simp [hnone] at hc
  · obtain ⟨_, -, hps, -⟩ := exists_of_forall₂_left hcs hc
    exact not_both_of_compileParameters hps

/-! ## Fields -/

/-- Names are taken one after another, so no two are the same. -/
theorem nodup_of_checkFields {taken : List String} {fs : List FieldSpec}
    (h : b.checkFields u taken fs = .ok ()) :
    (fs.map FieldSpec.name).Nodup ∧ ∀ f ∈ fs, f.name ∉ taken := by
  induction fs generalizing taken with
  | nil => simp
  | cons f fs ih =>
    obtain ⟨hf, hfs⟩ := checkFields_cons_eq_ok.mp h
    obtain ⟨hnodup, hfree⟩ := ih hfs
    refine ⟨List.nodup_cons.mpr ⟨fun hmem => ?_, hnodup⟩, List.forall_mem_cons.mpr ⟨?_, ?_⟩⟩
    · obtain ⟨g, hg, hname⟩ := List.mem_map.mp hmem
      exact hfree g hg (by simp [hname])
    · exact (checkField_eq_ok hf).1
    · exact fun g hg hmem => hfree g hg (List.mem_cons_of_mem _ hmem)

/-- Each field that is placed is the one asked for. -/
theorem forall₂_placeFields {self : TypeRef} {n is ss : ℕ} {fs : List FieldSpec}
    {P : FieldSpec → Prop} (h : ∀ g ∈ fs, P g) :
    List.Forall₂ (fun g f => P g ∧ f.name = g.name ∧ f.type = g.type ∧ f.isStatic = g.isStatic ∧
      f.constant? = if g.storage = .constant then g.initial? else none)
      fs (placeFields self n is ss fs) := by
  induction fs generalizing n is ss with
  | nil => exact .nil
  | cons g fs ih =>
    obtain ⟨hg, hfs⟩ := List.forall_mem_cons.mp h
    refine .cons ⟨hg, rfl, rfl, rfl, rfl⟩ ?_
    cases g.isStatic <;> exact ih hfs

theorem names_placeFields {self : TypeRef} {n is ss : ℕ} {fs : List FieldSpec} :
    (placeFields self n is ss fs).map Field.name = fs.map FieldSpec.name := by
  induction fs generalizing n is ss with
  | nil => rfl
  | cons g fs ih =>
    rw [placeFields, List.map_cons, List.map_cons]
    cases g.isStatic <;> exact congrArg (g.name :: ·) ih

/-! ## Usage -/

/-- A usage is asked for below the attribute root only. -/
theorem isSubtype_of_checkShape {base? : Option TypeRef} (h : b.checkShape u base? = .ok ())
    (husage : b.usage? ≠ none) : ∃ a, base? = some a ∧ u.isSubtype a .attributeRoot = true := by
  unfold checkShape at h
  dsimp only at h
  split_ifs at h with hvalues hroot
  have hsome : b.usage?.isSome = true := Option.isSome_iff_ne_none.mpr husage
  simpa [hsome, Option.any_eq_true] using hroot

end Blueprint

/-! ## The parts of a definition -/

namespace Universe

variable {u v : Universe β} {t a : TypeRef} {m : Method β}

/-- No two properties of a type have one name. -/
theorem Reachable.nodup_properties (hu : u.Reachable) (hk : u.Knows t) :
    ((u.properties t).map fun p => p.name).Nodup := by
  refine List.pairwise_map.mpr ((hu.grown_properties hk).pairwise fun hp q hq hname => ?_)
  simpa [hname] using hp.distinct q hq

/-- No two methods of a type have one signature. -/
theorem Reachable.methods_differ (hu : u.Reachable) (hk : u.Knows t) :
    (u.methods t).Pairwise fun m n => m.sameSignature n = false :=
  (hu.grown_methods hk).pairwise fun hm => hm.distinct

/-- No two constructors of a type have one shape. -/
theorem Reachable.constructors_differ (hu : u.Reachable) (hk : u.Knows t) :
    (u.constructors t).Pairwise fun c d => Parameter.sameShape c.parameters d.parameters = false :=
  (hu.grown_constructors hk).pairwise fun hc => hc.distinct

/-- What is a subtype of the attribute root has it as an ancestor. -/
theorem isSubtype_attributeRoot_iff :
    u.isSubtype t .attributeRoot = true ↔ .attributeRoot ∈ u.ancestors t := by
  cases t <;>
    simp [isSubtype, ancestors, TypeRef.isObject, TypeRef.isInterface, TypeRef.hasKind]

namespace Origin

variable {b : Blueprint β} {c : Blueprint.Compiled β} (h : Origin u v b c)

include h

theorem knows : u.Knows b.self := h.grown.declares h.declares

/-- No two fields have one name. -/
theorem nodup_fields : ((u.fields b.self).map Field.name).Nodup := by
  obtain ⟨base?, hp⟩ := h.exists_passes
  rw [fields, h.definition_eq, hp.fields, Blueprint.names_placeFields]
  exact (Blueprint.nodup_of_checkFields hp.checked).1

/-- The fields are those asked for, and a constant has a value that was accepted. -/
theorem forall₂_fields :
    List.Forall₂ (fun (g : FieldSpec) (f : Field) => f.name = g.name ∧ f.type = g.type ∧
      (g.storage = .constant → f.isStatic = true ∧
        ∃ x, f.constant? = some x ∧ v.accepts f.type x = true)) b.allFields (u.fields b.self) := by
  obtain ⟨base?, hp⟩ := h.exists_passes
  have hchecked (g : FieldSpec) (hg : g ∈ b.allFields) (hconst : g.storage = .constant) :
      g.isStatic = true ∧ ∃ x, g.initial? = some x ∧ v.accepts g.type x = true := by
    obtain ⟨taken, hcheck⟩ := Blueprint.exists_checkField hp.checked hg
    obtain ⟨-, hinitial, haccepts, -⟩ := Blueprint.checkField_eq_ok hcheck
    obtain ⟨x, hx⟩ := Option.ne_none_iff_exists'.mp (hinitial hconst)
    exact ⟨(haccepts x hx).1, x, hx, (haccepts x hx).2⟩
  rw [fields, h.definition_eq, hp.fields]
  refine (Blueprint.forall₂_placeFields hchecked).imp ?_
  rintro g f ⟨hg, hname, htype, hstatic, hconst⟩
  refine ⟨hname, htype, fun hgc => ?_⟩
  obtain ⟨hgs, x, hx, hacc⟩ := hg hgc
  exact ⟨hstatic.trans hgs, x, by rw [hconst, if_pos hgc, hx], htype ▸ hacc⟩

/-- Only a class has a base, which was defined and could be derived from. -/
theorem base_of_base? (ha : u.base? b.self = some a) : b.self.isClass = true ∧ a.isClass = true ∧
    v.isDefined a = true ∧ (u.flags a).isSealed = false ∧ (u.flags a).isStatic = false := by
  obtain ⟨base?, hp⟩ := h.exists_passes
  rw [Universe.base?, h.definition_eq] at ha
  obtain rfl := hp.eq_some_of_head? ha
  have hbase := Blueprint.mayDerive_of_resolveBase hp.resolve
  rw [flags, h.grown.definition_eq hbase.isDefined]
  exact ⟨hbase.self_isClass, hbase.isClass, hbase.isDefined, hbase.isSealed, hbase.isStatic⟩

/-- Only a type below the attribute root has a usage of its own. -/
theorem attributeRoot_mem_bases (husage : (u.definition b.self).usage? ≠ none) :
    .attributeRoot ∈ (u.definition b.self).bases := by
  obtain ⟨base?, hp⟩ := h.exists_passes
  rw [h.definition_eq, hp.usage?] at husage
  rw [h.definition_eq, hp.bases]
  obtain ⟨a, rfl, ha⟩ := Blueprint.isSubtype_of_checkShape hp.shape husage
  exact isSubtype_attributeRoot_iff.mp ha

/-- The parameters of every method and accessor are in order. -/
theorem inOrder_of_mem_callables (hu : u.Reachable) (hm : m ∈ u.callables b.self) :
    Parameter.InOrder m.parameters := by
  rcases mem_callables.mp hm with hm' | ⟨p, hp, kind, hp'⟩
  · obtain ⟨base?, hp⟩ := h.exists_passes
    rw [methods, h.definition_eq] at hm'
    obtain ⟨spec, -, hps⟩ :=
      exists_of_forall₂_right (Blueprint.forall₂_compileMethods hp.methods) hm'
    exact Blueprint.inOrder_of_compileParameters hps
  · have hrole : m.id.role = kind.role := congrArg Prod.fst (hu.accessor_heading h.knows hp hp')
    obtain ⟨type, hps⟩ := hu.parameters_of_role h.knows hm hrole
    rw [hps]
    exact Blueprint.inOrder_parameters kind type

/-- No parameter of a method was asked for as variadic and written back at once. -/
theorem methods_not_both : ∀ m ∈ b.methods, ∀ p ∈ m.parameters,
    ¬ (p.writeBack = true ∧ p.variadic = true) := by
  intro m hm
  obtain ⟨base?, hp⟩ := h.exists_passes
  obtain ⟨_, -, hps⟩ := exists_of_forall₂_left (Blueprint.forall₂_compileMethods hp.methods) hm
  exact Blueprint.not_both_of_compileParameters hps

/-- The constructors are what compiling those asked for has led to. -/
theorem compileConstructors_eq : b.compileConstructors = .ok (u.constructors b.self) := by
  obtain ⟨base?, hp⟩ := h.exists_passes
  rw [hp.constructors, constructors, h.definition_eq]

theorem flags_eq : u.flags b.self = b.flags := by
  obtain ⟨base?, hp⟩ := h.exists_passes
  rw [flags, h.definition_eq, hp.flags]

end Origin

end Universe

end Reflection
