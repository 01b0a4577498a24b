import Reflection.Proofs.Universe.Checked
import Reflection.Proofs.World.Hosted
import Reflection.Proofs.World.Typing

/-!
# Proofs/World/Defining — what an attempt to define a type leads to

An attempt either succeeds, and then the new definition is sound in every part (`World.Accepted`), or
it is refused, and then the world is as it was (`World.Refused`).  What defining does to the other
types is nothing in either case.
-/

namespace Reflection

variable {β : Type}

namespace World

variable {w w' : World β} {b : Blueprint β} {e : DefinitionError}

/-- **What a definition that is accepted keeps to.** -/
structure Accepted (w : World β) (b : Blueprint β) (w' : World β) : Prop where
  /-- No two fields have one name, named values of an enumeration included. -/
  fields_nodup : ((w'.types.fields b.self).map Field.name).Nodup
  /-- No two properties have one name. -/
  properties_nodup : ((w'.types.properties b.self).map fun p => p.name).Nodup
  /-- No two methods have one signature. -/
  methods_distinct : (w'.types.methods b.self).Pairwise fun m n => m.sameSignature n = false
  /-- No two constructors have one shape. -/
  constructors_distinct : (w'.types.constructors b.self).Pairwise fun c d =>
    Parameter.sameShape c.parameters d.parameters = false
  /-- The parameters of every method and accessor are in order. -/
  callables_inOrder : ∀ m ∈ w'.types.callables b.self, Parameter.InOrder m.parameters
  /-- So are those of every constructor. -/
  constructors_inOrder : ∀ c ∈ w'.types.constructors b.self, Parameter.InOrder c.parameters
  /-- No parameter of a method was asked for as variadic and written back at once. -/
  methods_not_both : ∀ m ∈ b.methods, ∀ p ∈ m.parameters,
    ¬ (p.writeBack = true ∧ p.variadic = true)
  /-- Nor was one of a constructor. -/
  constructors_not_both : ∀ c ∈ b.constructors, ∀ p ∈ c.parameters,
    ¬ (p.writeBack = true ∧ p.variadic = true)
  /-- The fields are those asked for, and a constant has a value that its type accepts. -/
  constants : List.Forall₂ (fun (g : FieldSpec) (f : Field) => f.name = g.name ∧ f.type = g.type ∧
    (g.storage = .constant → f.isStatic = true ∧
      ∃ v, f.constant? = some v ∧ w'.types.accepts f.type v = true))
    b.allFields (w'.types.fields b.self)
  /-- Only a class has a base, and that is a defined class that may be derived from. -/
  base : ∀ a, w'.types.base? b.self = some a → b.self.isClass = true ∧ a.isClass = true ∧
    w.types.isDefined a = true ∧ (w'.types.flags a).isSealed = false ∧
      (w'.types.flags a).isStatic = false
  /-- What is named as an interface is one. -/
  interfaces : ∀ i ∈ w'.types.interfaces b.self, i.isInterface = true
  /-- Only a type below the attribute root has a usage of its own. -/
  usage : (w'.types.definition b.self).usage? ≠ none →
    .attributeRoot ∈ (w'.types.definition b.self).bases
  /-- A constructor is synthesized exactly for a class that is not static and asks for none. -/
  synthesized : (∃ c ∈ w'.types.constructors b.self, c.isSynthesized = true) ↔
    b.self.isClass = true ∧ (w'.types.flags b.self).isStatic = false ∧ b.constructors = []
  /-- Every other type is as it was, and so are its static slots. -/
  others : ∀ t, w.types.Knows t → t ≠ b.self →
    w'.types.definition? t = w.types.definition? t ∧
      w'.store.staticSlots t = w.store.staticSlots t

/-- **What a definition that is refused leaves**: the world as it was, in which the type has neither
a definition nor static slots. -/
structure Refused (w : World β) (b : Blueprint β) : Prop where
  unchanged : w.attempt b = w
  undefined : (w.attempt b).types.isDefined b.self = false
  no_statics : (w.attempt b).store.staticSlots b.self = []

/-- A type that is not defined has no static slots. -/
theorem Tallies.staticSlots_eq_nil (hw : w.Tallies) {t : TypeRef}
    (hn : w.types.isDefined t = false) : w.store.staticSlots t = [] := by
  refine List.eq_nil_of_length_eq_zero ((hw.slots t).trans ?_)
  simp [Universe.sharedTypes, Universe.fields, Universe.definition_of_not_isDefined hn]

theorem Tallies.refused (hw : w.Tallies) (hn : w.types.isDefined b.self = false)
    (h : w.define b = .error e) : w.Refused b := by
  have hsame : w.attempt b = w := by rw [attempt, h]
  exact ⟨hsame, by rw [hsame, hn], by rw [hsame, hw.staticSlots_eq_nil hn]⟩

/-! ## Attempts -/

/-- A definition that succeeds is what the blueprint compiled to. -/
theorem exists_origin_of_define (hw : w.Tallies) (hd : w.types.Declares b.target)
    (hn : w.types.isDefined b.self = false) (hs : w.types.Scopes b)
    (h : w.define? b = some (.ok w')) : ∃ c, Universe.Origin w'.types w.types b c := by
  obtain ⟨c, -, hc, rfl⟩ := define?_eq_ok h
  exact ⟨c, hw.types, Universe.extends_define _ hn, hd, hs, hc,
    Universe.definition?_define_self _ _ hd⟩

/-- Defining a type leaves every other one as it was. -/
theorem others_of_define (hd : w.types.Declares b.target) (h : w.define? b = some (.ok w'))
    {t : TypeRef} (hk : w.types.Knows t) (hne : t ≠ b.self) :
    w'.types.definition? t = w.types.definition? t ∧
      w'.store.staticSlots t = w.store.staticSlots t := by
  obtain ⟨c, -, -, rfl⟩ := define?_eq_ok h
  refine ⟨Universe.definition?_define_of_knows _ hd hk hne, ?_⟩
  cases t with
  | declared d =>
    refine Store.staticSlots_setStatics_of_ne _ _ fun hindex => hne ?_
    rw [Universe.Declares.eq_of_index hk hd hindex, Blueprint.self]
  | _ => rfl

/-- **What is accepted is sound.** -/
theorem Tallies.accepted (hw : w.Tallies) (hd : w.types.Declares b.target)
    (hn : w.types.isDefined b.self = false) (hs : w.types.Scopes b)
    (h : w.define? b = some (.ok w')) : w.Accepted b w' := by
  have hu := (hw.define hd hn hs h).types
  obtain ⟨c, ho⟩ := exists_origin_of_define hw hd hn hs h
  have hcs := ho.compileConstructors_eq
  exact {
    fields_nodup := ho.nodup_fields
    properties_nodup := hu.nodup_properties ho.knows
    methods_distinct := hu.methods_differ ho.knows
    constructors_distinct := hu.constructors_differ ho.knows
    callables_inOrder := fun m hm => ho.inOrder_of_mem_callables hu hm
    constructors_inOrder := Blueprint.inOrder_of_compileConstructors hcs
    methods_not_both := ho.methods_not_both
    constructors_not_both := Blueprint.constructors_not_both hcs
    constants := ho.forall₂_fields.imp fun g f ⟨hname, htype, hconst⟩ =>
      ⟨hname, htype, fun hg =>
        have ⟨hstatic, x, hx, hacc⟩ := hconst hg
        ⟨hstatic, x, hx, Universe.accepts_mono hw.types hu ho.grown hacc⟩⟩
    base := fun a ha => ho.base_of_base? ha
    interfaces := fun i hi => (hu.isInterface_of_mem hi).1
    usage := ho.attributeRoot_mem_bases
    synthesized := by rw [ho.flags_eq, Blueprint.exists_isSynthesized_iff hcs]
    others := fun t => others_of_define hd h }

/-- A world with one declared class. -/
def oneClass : World Unit := (World.empty.declare .classType "T").2

/-- A blueprint for it with a constant and a variadic method. -/
def goodBlueprint : Blueprint Unit :=
  { Blueprint.start ⟨0, .classType, "T"⟩ with
    fields := [
      { name := "limit", type := .primitive .i32, storage := .constant, initial? := some (.i32 3) }]
    methods := [
      { name := "f", parameters := [⟨"xs", .array .object, false, true⟩], body := () }] }

/-- A blueprint for it with a variadic parameter that is not last. -/
def badBlueprint : Blueprint Unit :=
  { Blueprint.start ⟨0, .classType, "T"⟩ with
    methods := [
      { name := "f", body := ()
        parameters := [⟨"xs", .array .object, false, true⟩, ⟨"x", .object, false, false⟩] }] }

theorem hosted_oneClass : oneClass.Hosted := .declare .refl _ _

end World
end Reflection
