import Reflection.Proofs.Universe.Checked
import Reflection.Proofs.World.Slots

/-!
# Proofs/Universe/StaticTypes — what a static type holds

    asked for with a static type      what compiling makes of it
    instance field                    refused
    constructor                       refused, and none is synthesized
    instance method or property       taken as it is
    base whose instances have slots   taken, slots and all

A static type is meant to hold static members only (`HoldsStaticOnly`).  Of its fields and
constructors this is so in every reachable universe.  The rest hangs on what was asked for: the type
holds static members only exactly if its blueprint asks for static methods and properties only and no
class above it has an instance field (`Reachable.holdsStaticOnly_iff`).
-/

namespace Reflection

variable {β : Type}

namespace Blueprint

variable {u : Universe β} {b : Blueprint β} {line : List TypeRef}

/-! ## What a member takes over from what was asked for -/

theorem isStatic_of_compileMethod {before : List (Method β)} {spec : MethodSpec β} {m : Method β}
    (h : b.compileMethod u line before spec = .ok m) : m.isStatic = spec.isStatic := by
  obtain ⟨ps, -, h⟩ := bind_eq_ok.mp h
  split_ifs at h
  · split at h
    · obtain rfl := Except.ok.inj h
      rfl
    · simp at h
  · obtain rfl := Except.ok.inj h
    rfl

theorem isStatic_of_compileProperty {before : List (Property β)} {spec : PropertySpec β}
    {p : Property β} (h : b.compileProperty u line before spec = .ok p) :
    p.isStatic = spec.isStatic := by
  unfold compileProperty at h
  split_ifs at h
  · split at h
    · obtain rfl := Except.ok.inj h
      rfl
    · simp at h
  · obtain rfl := Except.ok.inj h
    rfl

/-- Two lists agree on a mark if their members do, one by one. -/
theorem forall_mem_iff_of_forall₂ {σ γ : Type} {as : List σ} {cs : List γ} {p : σ → Bool}
    {q : γ → Bool} (h : List.Forall₂ (fun a c => q c = p a) as cs) :
    (∀ c ∈ cs, q c = true) ↔ ∀ a ∈ as, p a = true := by
  induction h with
  | nil => simp
  | cons hac _ ih => rw [List.forall_mem_cons, List.forall_mem_cons, hac, ih]

/-- The methods of a type are static where this was asked for, one by one. -/
theorem forall₂_isStatic_methods {ms : List (Method β)}
    (h : b.compileMethods u line [] b.methods = .ok ms) :
    List.Forall₂ (fun spec m => m.isStatic = spec.isStatic) b.methods ms := by
  rw [compileMethods_eq] at h
  obtain ⟨new, rfl, hnew⟩ := forall₂_compileEach h
  exact hnew.imp fun _ _ ⟨_, h⟩ => isStatic_of_compileMethod h

theorem forall₂_isStatic_properties {ps : List (Property β)}
    (h : b.compileProperties u line [] b.properties = .ok ps) :
    List.Forall₂ (fun spec p => p.isStatic = spec.isStatic) b.properties ps := by
  rw [compileProperties_eq] at h
  obtain ⟨new, rfl, hnew⟩ := forall₂_compileEach h
  exact hnew.imp fun _ _ ⟨_, h⟩ => isStatic_of_compileProperty h

/-- A static type has no constructors: those asked for are refused. -/
theorem constructors_eq_nil_of_isStatic {cs : List (Constructor β)} (hs : b.flags.isStatic = true)
    (h : b.compileConstructors = .ok cs) : cs = [] := by
  simp only [compileConstructors, hs, Bool.not_true, Bool.and_false, Bool.false_eq_true, if_false,
    if_true] at h
  split_ifs at h
  exact (Except.ok.inj h).symm

end Blueprint

namespace Universe

variable {u v : Universe β} {t : TypeRef}

/-! ## Slots -/

/-- There are as many slots as instance fields on the line of bases. -/
theorem Reachable.length_slotFields (hu : u.Reachable) (t : TypeRef) :
    (u.slotFields t).length = (u.layout t).length := by
  simpa using (hu.slots_perm_range t).length_eq

/-- **A layout is empty if no type on the line has an instance field.** -/
theorem Reachable.layout_eq_nil_iff (hu : u.Reachable) :
    u.layout t = [] ↔ ∀ a ∈ u.ancestors t, u.instanceFields a = [] := by
  rw [← List.length_eq_zero_iff, ← hu.length_slotFields, List.length_eq_zero_iff, slotFields,
    List.flatMap_eq_nil_iff]

theorem instanceFields_eq_nil_iff :
    u.instanceFields t = [] ↔ ∀ f ∈ u.fields t, f.isStatic = true := by
  simp [instanceFields]

/-! ## Static types -/

/-- **What holds static members only**: no member that an instance has, and no slot. -/
structure HoldsStaticOnly (u : Universe β) (t : TypeRef) : Prop where
  fields : ∀ f ∈ u.fields t, f.isStatic = true
  properties : ∀ p ∈ u.properties t, p.isStatic = true
  methods : ∀ m ∈ u.methods t, m.isStatic = true
  constructors : u.constructors t = []
  layout : u.layout t = []

/-- Built-in types are not static, so a static type was compiled from a blueprint. -/
theorem Reachable.exists_origin_of_isStatic (hu : u.Reachable) (hk : u.Knows t)
    (hs : (u.flags t).isStatic = true) :
    ∃ v b c, Origin u v b c ∧ t = b.self ∧ b.flags.isStatic = true := by
  rcases hu.definition_cases t with hx | hx | ⟨v, b, c, ho, -, hself⟩
  · simp [flags, hx] at hs
  · have hbuiltin : (u.flags t).isStatic = false := by
      rw [flags]
      cases t with
      | primitive p => cases p <;> rfl
      | declared d => simp [builtin?] at hx
      | _ => rfl
    simp [hbuiltin] at hs
  · obtain rfl := hself hk
    exact ⟨v, b, c, ho, rfl, ho.flags_eq ▸ hs⟩

namespace Origin

variable {b : Blueprint β} {c : Blueprint.Compiled β} (h : Origin u v b c)

include h

/-- A static type has been checked to ask for no instance field. -/
theorem isStatic_of_mem_fields (hs : b.flags.isStatic = true) :
    ∀ f ∈ u.fields b.self, f.isStatic = true := by
  intro f hf
  obtain ⟨base?, hp⟩ := h.exists_passes
  rw [Universe.fields, h.definition_eq, hp.fields] at hf
  obtain ⟨g, hg, -, -, hgs, -⟩ := Blueprint.exists_spec _ _ hf
  obtain ⟨taken, hc⟩ := Blueprint.exists_checkField hp.checked hg
  have hinstances := (Blueprint.checkField_eq_ok hc).2.2.2
  by_contra hfs
  have := hinstances (by rw [← hgs]; simpa using hfs)
  simp [Blueprint.isWithoutInstances, hs] at this

theorem constructors_eq_nil (hs : b.flags.isStatic = true) : u.constructors b.self = [] :=
  Blueprint.constructors_eq_nil_of_isStatic hs h.compileConstructors_eq

theorem forall_methods_isStatic_iff :
    (∀ m ∈ u.methods b.self, m.isStatic = true) ↔ ∀ spec ∈ b.methods, spec.isStatic = true := by
  obtain ⟨base?, hp⟩ := h.exists_passes
  rw [Universe.methods, h.definition_eq]
  exact Blueprint.forall_mem_iff_of_forall₂ (Blueprint.forall₂_isStatic_methods hp.methods)

theorem forall_properties_isStatic_iff :
    (∀ p ∈ u.properties b.self, p.isStatic = true) ↔
      ∀ spec ∈ b.properties, spec.isStatic = true := by
  obtain ⟨base?, hp⟩ := h.exists_passes
  rw [Universe.properties, h.definition_eq]
  exact Blueprint.forall_mem_iff_of_forall₂ (Blueprint.forall₂_isStatic_properties hp.properties)

/-- A static type adds no slot, so its layout is empty if no class above it has one. -/
theorem layout_eq_nil_iff (hu : u.Reachable) (hs : b.flags.isStatic = true) :
    u.layout b.self = [] ↔ ∀ a ∈ (u.definition b.self).bases, u.instanceFields a = [] := by
  have hself : u.instanceFields b.self = [] :=
    instanceFields_eq_nil_iff.mpr (h.isStatic_of_mem_fields hs)
  rw [hu.layout_eq_nil_iff, ancestors, List.forall_mem_cons]
  exact and_iff_right hself

end Origin

/-- **What a static type holds**, in every reachable universe: all its fields are static and it has
no constructors; and it holds static members only exactly if the blueprint that it was compiled from
asks for static methods and properties only and no class above it has an instance field. -/
theorem Reachable.holdsStaticOnly_iff (hu : u.Reachable) (hk : u.Knows t)
    (hs : (u.flags t).isStatic = true) :
    (∀ f ∈ u.fields t, f.isStatic = true) ∧ u.constructors t = [] ∧
      ∃ v b c, Origin u v b c ∧ t = b.self ∧
        (u.HoldsStaticOnly t ↔
          (∀ spec ∈ b.methods, spec.isStatic = true) ∧
            (∀ spec ∈ b.properties, spec.isStatic = true) ∧
            ∀ a ∈ (u.definition t).bases, u.instanceFields a = []) := by
  obtain ⟨v, b, c, ho, rfl, hb⟩ := hu.exists_origin_of_isStatic hk hs
  have hfields := ho.isStatic_of_mem_fields hb
  have hconstructors := ho.constructors_eq_nil hb
  refine ⟨hfields, hconstructors, v, b, c, ho, rfl, ?_⟩
  rw [← ho.forall_methods_isStatic_iff, ← ho.forall_properties_isStatic_iff,
    ← ho.layout_eq_nil_iff hu hb]
  exact ⟨fun h => ⟨h.methods, h.properties, h.layout⟩,
    fun ⟨hmethods, hproperties, hlayout⟩ =>
      ⟨hfields, hproperties, hmethods, hconstructors, hlayout⟩⟩

/-- A static class below a class with an instance field. -/
def staticBelow : Universe Unit :=
  ((empty.declare .classType "A").defineBy
    { Blueprint.start ⟨0, .classType, "A"⟩ with
      fields := [{ name := "x", type := .primitive .i32 }] }).declare .classType "T" |>.defineBy
    { Blueprint.markStatic (Blueprint.start ⟨1, .classType, "T"⟩) with
      extends? := some (.declared ⟨0, .classType, "A"⟩)
      fields := [{ name := "total", type := .primitive .i64, storage := .shared }] }

theorem reachable_staticBelow : staticBelow.Reachable :=
  .defineBy (.declare _ _ (.defineBy (.declare _ _ .empty) (by decide) rfl (by decide) rfl))
    (by decide) rfl (by decide) rfl

/-- It has a shared field, no constructor, and the slot that it takes over. -/
theorem holdsStaticOnly_iff_staticBelow :
    (∀ f ∈ staticBelow.fields (.declared ⟨1, .classType, "T"⟩), f.isStatic = true) ∧
      staticBelow.constructors (.declared ⟨1, .classType, "T"⟩) = [] ∧
      ∃ v b c, Origin staticBelow v b c ∧ .declared ⟨1, .classType, "T"⟩ = b.self ∧
        (staticBelow.HoldsStaticOnly (.declared ⟨1, .classType, "T"⟩) ↔
          (∀ spec ∈ b.methods, spec.isStatic = true) ∧
            (∀ spec ∈ b.properties, spec.isStatic = true) ∧
            ∀ a ∈ (staticBelow.definition (.declared ⟨1, .classType, "T"⟩)).bases,
              staticBelow.instanceFields a = []) :=
  reachable_staticBelow.holdsStaticOnly_iff (by decide) rfl

/-- A static class with an instance method. -/
def staticWithMethod : Universe Unit :=
  (empty.declare .classType "T").defineBy
    { Blueprint.markStatic (Blueprint.start ⟨0, .classType, "T"⟩) with
      methods := [{ name := "f", body := () }] }

theorem reachable_staticWithMethod : staticWithMethod.Reachable :=
  .defineBy (.declare _ _ .empty) (by decide) rfl (by decide) rfl

/-- **Not every static type holds static members only**: an instance method is accepted. -/
theorem not_every_static_type_holds_static_only :
    ¬ ∀ (u : Universe Unit) (t : TypeRef), u.Reachable → u.Knows t →
      (u.flags t).isStatic = true → u.HoldsStaticOnly t := by
  intro h
  have hstatic := (h staticWithMethod (.declared ⟨0, .classType, "T"⟩) reachable_staticWithMethod
    (by decide) rfl).methods
  revert hstatic
  decide

end Universe

end Reflection
