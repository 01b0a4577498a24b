import Reflection.Proofs.Call.WellTyped

/-!
# Proofs/Call/StaticTarget — what static members make of a target

    a static field, an accessor that its property declares  ──▸  any target will do
    an accessor that a property takes over from above       ──▸  an instance is asked for

A static member is read and written without a target, and passes one by that it is given.  Whether
it is static is said by the field or property, but a property is read and written by calling
accessors.  One that overrides another takes over the accessors that it leaves out, and what is
taken over is of an instance, whatever the property itself is.
-/

namespace Reflection

variable {β : Type} {run : Evaluator β} {u : Universe β} {w : World β} {t : TypeRef}
  {m : Method β} {p : Property β} {f : Field} {kind : AccessorKind} {target target' v : Value}
  {args : List Value}

/-- Whether reading and writing a member come to the same whatever the target is, and writing leaves
it as it is. -/
def Accessor.IgnoresTarget (a : Accessor β) (u : Universe β) : Prop :=
  ∀ (run : Evaluator β) (w : World β), w.types = u → ∀ target target' v : Value,
    a.read run w target = a.read run w target' ∧
      a.write run w target v = { a.write run w target' v with target := target }

/-! ## Fields -/

/-- **A static field ignores its target.** -/
theorem Field.ignoresTarget (h : f.isStatic = true) (u : Universe β) :
    (Accessor.field f : Accessor β).IgnoresTarget u := by
  rintro run w - target target' v
  refine ⟨by simp [Accessor.read, read, h], ?_⟩
  have hcheck : f.checkWrite w.types target v = f.checkWrite w.types target' v := by
    simp [checkWrite, h]
  rw [Accessor.write, Accessor.write, write, write, hcheck]
  cases f.checkWrite w.types target' v with
  | error e => rfl
  | ok _ => simp [h]

/-! ## Accessors -/

/-- Whether calls of a method pass their target by: it is static, or refused on any target. -/
def Method.PassesBy (m : Method β) (u : Universe β) : Prop :=
  m.isStatic = true ∨ (u.flags m.declaring).isGeneric = true

theorem Method.PassesBy.invoke_eq (h : m.PassesBy w.types) (target target' : Value) :
    m.invoke run target args w = { m.invoke run target' args w with target := target } := by
  rcases h with hs | hg
  · have hprepare : m.prepare w.types target args = m.prepare w.types target' args := by
      simp [prepare, select, hs]
    rw [invoke, invoke, hprepare]
    cases m.prepare w.types target' args with
    | error e => rfl
    | ok ready => simp [hs]
  · simp [invoke, prepare, select, hg, bind, Except.bind]

/-- **A static property whose accessors pass their target by ignores it.** -/
theorem Property.ignoresTarget (hs : p.isStatic = true)
    (h : ∀ kind m, p.accessor? kind = some m → m.PassesBy u) :
    (Accessor.property p).IgnoresTarget u := by
  rintro run w rfl target target' v
  have haccessor (kind : AccessorKind) : p.accessor kind target = p.accessor kind target' := by
    simp [accessor, hs]
  refine ⟨?_, ?_⟩
  · rw [Accessor.read, Accessor.read, read, read, haccessor]
    cases hm : p.accessor .getter target' with
    | error e => rfl
    | ok m => simp [(h .getter m (accessor?_of_accessor hm)).invoke_eq target target']
  · rw [Accessor.write, Accessor.write, write, write, haccessor]
    cases hm : p.accessor .setter target' with
    | error e => rfl
    | ok m => simp [(h .setter m (accessor?_of_accessor hm)).invoke_eq target target']

/-! ## Accessors that are taken over -/

/-- Code that does nothing. -/
def Evaluator.idle : Evaluator β := fun _ target _ args w => ⟨.ok .null, target, args, w⟩

/-- A call comes to null if it may be made and the code does nothing. -/
theorem Method.result_invoke_idle {ready : Method β × Plan}
    (h : m.prepare w.types target args = .ok ready) :
    (m.invoke .idle target args w).result = .ok .null := by
  rw [invoke, h]
  simp only [activate, Evaluator.idle]
  cases ready.1.id.role <;> rfl

/-- An instance callable is not run on null. -/
theorem Method.result_invoke_null (run : Evaluator β) (args : List Value) (hs : m.isStatic = false)
    (hg : (w.types.flags m.declaring).isGeneric = false) :
    (m.invoke run .null args w).result = .error (.targetRequired m.name) := by
  simp [invoke, prepare, select, hs, hg, Value.runtimeType?, bind, Except.bind]

/-- The accessor that a static property calls is there for any target. -/
theorem Property.accessor_eq (hs : p.isStatic = true) (hm : p.accessor? kind = some m)
    (target : Value) : p.accessor kind target = .ok m := by
  cases kind <;> simp_all [accessor, accessor?]

namespace Universe

/-- Some argument list suits an accessor: none for one that reads, one value for one that writes. -/
theorem Reachable.exists_arguments (hu : u.Reachable) (hk : u.Knows t) (hp : p ∈ u.properties t)
    (hm : p.accessor? kind = some m) :
    ∃ v plan, Binding.plan u m.name m.parameters
      (match kind with | .getter => [] | .setter => [v]) = .ok plan := by
  have hrole : m.id.role = kind.role := congrArg Prod.fst (hu.accessor_heading hk hp hm)
  obtain ⟨type, hparameters⟩ := hu.parameters_of_role hk (mem_callables_of_accessor hp hm) hrole
  rw [hparameters]
  cases kind with
  | getter => exact ⟨.null, _, rfl⟩
  | setter => exact ⟨u.default type, _, Binding.plan_value (u.accepts_default type)⟩

/-- **A property that ignores its target calls no instance accessor** of a closed type: one that
does nothing still tells null from an instance of its type. -/
theorem Reachable.passesBy_of_ignoresTarget (hu : u.Reachable) (hk : u.Knows t)
    (hp : p ∈ u.properties t) (hs : p.isStatic = true)
    (h : (Accessor.property p).IgnoresTarget u) (hm : p.accessor? kind = some m) :
    m.PassesBy u := by
  by_contra hnot
  simp only [Method.PassesBy, not_or, Bool.not_eq_true] at hnot
  obtain ⟨hinst, hg⟩ := hnot
  let w : World β := { World.empty with types := u }
  let target : Value := .object ⟨m.declaring, 0⟩
  have hselect : m.select u target = .ok (u.dispatch m m.declaring) :=
    hu.select_eq hg hinst List.mem_cons_self rfl
  obtain ⟨v, plan, hplan⟩ := hu.exists_arguments hk hp hm
  have hnull (args : List Value) :=
    Method.result_invoke_null (w := w) Evaluator.idle args hinst hg
  obtain ⟨hread, hwrite⟩ := h .idle w rfl target .null v
  have hready {args : List Value} (hplan : Binding.plan u m.name m.parameters args = .ok plan) :
      m.prepare w.types target args = .ok (u.dispatch m m.declaring, plan) := by
    simp [Method.prepare, w, hselect, hplan, bind, Except.bind, pure, Except.pure]
  have hok {args : List Value} (hplan : Binding.plan u m.name m.parameters args = .ok plan) :=
    Method.result_invoke_idle (hready hplan)
  cases kind with
  | getter =>
    have hresult := congrArg Prod.fst hread
    simp only [Accessor.read, Property.read, Property.accessor_eq hs hm, hok hplan, hnull]
      at hresult
    simp at hresult
  | setter =>
    have hresult := congrArg Written.result hwrite
    simp only [Accessor.write, Property.write, Property.accessor_eq hs hm, hok hplan, hnull]
      at hresult
    simp [Except.map] at hresult

/-- **An accessor of a static property is static if the property has it of its own**, and an
instance accessor if it is taken over. -/
theorem Reachable.isStatic_accessor_iff (hu : u.Reachable) (hk : u.Knows t)
    (hp : p ∈ u.properties t) (hs : p.isStatic = true) (hm : p.accessor? kind = some m) :
    m.isStatic = true ↔ m.declaring = t := by
  obtain ⟨i, -, hid⟩ := hu.property_id hk hp
  have howns {inherited? : Option (Method β)} (h : Blueprint.OwnAccessor p kind inherited? m) :
      m.isStatic = true ↔ m.declaring = t := by
    refine ⟨fun _ => ?_, fun _ => h.isStatic.trans hs⟩
    rw [Method.declaring, h.id, Property.declaring, hid]
  rcases hu.accessor_cases hk hp hm with h | ⟨q, hq, ⟨-, h⟩ | h⟩
  · exact howns h
  · exact howns h
  · obtain ⟨s, hs, hqs, hqv, hqst, -⟩ := hu.overriddenProperty?_eq_some hq
    have hinst := (hu.accessor_isVirtual (hu.knows_of_mem_bases hs) hqs hqv hqst h).2
    have habove := hu.declaring_ne_of_mem_bases hs (mem_callables_of_accessor hqs h)
    simp [hinst, habove]

/-- A property that overrides nothing has its accessors of its own. -/
theorem Reachable.declaring_of_overridden_eq_nil (hu : u.Reachable) (hk : u.Knows t)
    (hp : p ∈ u.properties t) (hnil : p.overridden = []) (hm : p.accessor? kind = some m) :
    m.declaring = t := by
  obtain ⟨i, -, hid⟩ := hu.property_id hk hp
  obtain ⟨j, -, hnext⟩ := (hu.grown_properties hk).exists_next hp
  rcases hnext.continues with hover | ⟨q, -, hover⟩
  · rcases hover.accessor kind with h | ⟨m', hm', hown⟩
    · simp [h] at hm
    · obtain rfl := Option.some.inj (hm.symm.trans hm')
      rw [Method.declaring, hown.id, Property.declaring, hid]
  · simp [hover.overridden] at hnil

/-- **Which static members ignore their target**: every field, every property that overrides
nothing, and exactly those properties that take no accessor over, unless from an open generic
definition, where every call is refused. -/
theorem static_ignores_target_iff (hu : u.Reachable) (hk : u.Knows t) :
    (∀ f ∈ u.fields t, f.isStatic = true → (Accessor.field f : Accessor β).IgnoresTarget u) ∧
    (∀ p ∈ u.properties t, p.isStatic = true → p.overridden = [] →
      (Accessor.property p).IgnoresTarget u) ∧
    ∀ p ∈ u.properties t, p.isStatic = true →
      ((Accessor.property p).IgnoresTarget u ↔ ∀ kind m, p.accessor? kind = some m →
        m.declaring = t ∨ (u.flags m.declaring).isGeneric = true) := by
  refine ⟨fun f _ hs => f.ignoresTarget hs u, fun p hp hs hnil => p.ignoresTarget hs ?_,
    fun p hp hs => ⟨fun h kind m hm => ?_, fun h => p.ignoresTarget hs ?_⟩⟩
  · intro kind m hm
    have hown := hu.declaring_of_overridden_eq_nil hk hp hnil hm
    exact .inl ((hu.isStatic_accessor_iff hk hp hs hm).mpr hown)
  · have hpass := hu.passesBy_of_ignoresTarget hk hp hs h hm
    exact hpass.imp_left (hu.isStatic_accessor_iff hk hp hs hm).mp
  · intro kind m hm
    exact (h kind m hm).imp_left (hu.isStatic_accessor_iff hk hp hs hm).mpr

/-! ### A static property that leaves its getter out -/

/-- A class with a virtual property and a static one, and a class below that overrides the virtual
one by a static property without accessors of its own. -/
def inheritedGetter : Universe ℕ :=
  (((empty.declare .classType "A").declare .classType "B").defineBy
    { target := ⟨0, .classType, "A"⟩
      properties := [{ name := "P", type := .primitive .i32, isVirtual := true, getter? := some 1 },
        { name := "Q", type := .primitive .i32, isStatic := true, getter? := some 2 }] }).defineBy
    { target := ⟨1, .classType, "B"⟩
      extends? := some topmost
      properties := [{ name := "P", type := .primitive .i32, isStatic := true,
                       isOverride := true }] }

theorem reachable_inheritedGetter : inheritedGetter.Reachable :=
  .defineBy (.defineBy (.declare _ _ (.declare _ _ .empty))
    (by decide) (by decide) (by decide) (by decide))
    (by decide) (by decide) (by decide) (by decide)

/-- The static property of the upper class ignores its target. -/
theorem static_ignores_target_iff_inheritedGetter :
    ∃ p ∈ inheritedGetter.properties topmost, p.isStatic = true ∧ p.overridden = [] ∧
      (Accessor.property p).IgnoresTarget inheritedGetter := by
  have hmem := List.getLast_mem (l := inheritedGetter.properties topmost) (by decide)
  exact ⟨_, hmem, rfl, rfl,
    (static_ignores_target_iff reachable_inheritedGetter (t := topmost) (by decide)).2.1 _ hmem rfl
      rfl⟩

/-- **Not every static property ignores its target**: that of the lower class is read on an instance
and not on null. -/
theorem not_every_static_property_ignores_target :
    inheritedGetter.Reachable ∧ inheritedGetter.Knows middle ∧
    ∃ p ∈ inheritedGetter.properties middle, p.isStatic = true ∧
      ¬ (Accessor.property p).IgnoresTarget inheritedGetter := by
  refine ⟨reachable_inheritedGetter, by decide,
    (inheritedGetter.properties middle).head (by decide), List.head_mem _, rfl, fun h => ?_⟩
  have hread := (h .idle { World.empty with types := inheritedGetter } rfl (.object ⟨middle, 0⟩)
    .null .null).1
  have hresult := congrArg (fun r => r.1.toOption.isSome) hread
  revert hresult
  decide

end Universe
end Reflection
