import Reflection.Proofs.Call.Activation
import Reflection.Proofs.Call.Bound
import Reflection.Proofs.Call.DispatchTable

/-!
# Proofs/Call/WellTyped — the code that runs gets what it asks for

    plan      ──▸  arguments for the callable called  ──┐
                                                        the same types: methods, getters
    dispatch  ──▸  the callable that runs  ─────────────┘  one type each: setters

Arguments are bound against the callable that is called, and the code that runs is that of an
override.  An override of a method has its parameter types, and one of a getter has no parameters
either.  But a property may be overridden under another type, and then its setter gets values of the
type of the property that was called.
-/

namespace Reflection

variable {β : Type} {u : Universe β} {w : World β} {s t : TypeRef} {m n chosen : Method β}
  {target : Value} {args : List Value} {a : Activation β}

/-! ## What runs instead of a method -/

/-- Dispatch comes to the method itself or to an override on the line of the target's type. -/
theorem Universe.dispatch_eq_or (u : Universe β) (m : Method β) (t : TypeRef) :
    u.dispatch m t = m ∨
      (u.dispatch m t).overrides m = true ∧ ∃ x ∈ u.ancestors t, u.dispatch m t ∈ u.callables x := by
  rw [dispatch]
  split
  · rw [overrideOn?]
    cases hfound : ((u.ancestors t).takeWhile fun x => x ≠ m.declaring).findSome? fun x =>
        (u.callables x).find? fun n => n.overrides m with
    | none => exact .inl rfl
    | some n =>
      obtain ⟨x, hx, hn⟩ := List.exists_of_findSome?_eq_some hfound
      exact .inr ⟨(List.find?_some hn :), x, List.takeWhile_sublist _ |>.subset hx,
        List.mem_of_find?_eq_some hn⟩
  · exact .inl rfl

/-- A method that may be called is not that of an open generic definition.  A static one runs
itself; any other needs a target below its declaring type, and runs what dispatch comes to. -/
theorem Method.select_eq_ok (h : m.select u target = .ok chosen) :
    (u.flags m.declaring).isGeneric = false ∧
      (m.isStatic = true ∧ chosen = m ∨ m.isStatic = false ∧
        ∃ t, target.runtimeType? = some t ∧ u.isSubtype t m.declaring = true ∧
          chosen = u.dispatch m t) := by
  unfold select at h
  split_ifs at h with hg hs
  · obtain rfl := Except.ok.inj h
    exact ⟨by simpa using hg, .inl ⟨hs, rfl⟩⟩
  · refine ⟨by simpa using hg, .inr ⟨by simpa using hs, ?_⟩⟩
    split at h
    · simp at h
    · next t ht =>
      split_ifs at h with hsub
      obtain rfl := Except.ok.inj h
      exact ⟨t, ht, hsub, rfl⟩

/-- **What the activation of a method is made of**: the callable that was selected, its receiver,
and the arguments as they were bound. -/
theorem Method.exists_of_activation? (h : m.activation? target args w = some a) :
    ∃ chosen plan, m.select w.types target = .ok chosen ∧
      Binding.plan w.types m.name m.parameters args = .ok plan ∧
      a = {
        callable := .method chosen
        receiver := if m.isStatic then .null else target
        args := (plan.place w.store).1
        world := { w with store := (plan.place w.store).2 } } := by
  rw [activation?] at h
  cases hp : m.prepare w.types target args with
  | error e => simp [hp] at h
  | ok ready =>
    rw [hp] at h
    obtain ⟨chosen, hchosen, hp⟩ := bind_eq_ok.mp hp
    obtain ⟨plan, hplan, hp⟩ := bind_eq_ok.mp hp
    obtain rfl := Except.ok.inj hp
    exact ⟨chosen, plan, hchosen, hplan, (Option.some.inj h).symm⟩

namespace Universe

/-- Whether values are of the types that the parameters of a callable ask for, one for each. -/
def Takes (u : Universe β) (c : Callable β) (vs : List Value) : Prop :=
  u.Fills (c.parameters.map Parameter.type) vs

/-- Only arrays are variadic. -/
theorem Reachable.isArray_of_isVariadic (hu : u.Reachable) (hk : u.Knows t)
    (hm : m ∈ u.callables t) : ∀ p ∈ m.parameters, p.isVariadic = true → p.type.isArray = true := by
  rcases mem_callables.mp hm with hmm | ⟨p, hp, kind, hpm⟩
  · obtain ⟨_, -, hnext⟩ := (hu.grown_methods hk).exists_next hmm
    exact hnext.variadic
  · have hrole : m.id.role = kind.role := congrArg Prod.fst (hu.accessor_heading hk hp hpm)
    obtain ⟨type, h⟩ := hu.parameters_of_role hk hm hrole
    rw [h]
    cases kind <;> simp [AccessorKind.parameters, Parameter.isVariadic]

/-- **An override has the parameter types of what it overrides**, unless it is a setter, and as many
in any case. -/
theorem Reachable.parameters_of_overrides (hu : u.Reachable) (hs : u.Knows s) (ht : u.Knows t)
    (hn : n ∈ u.callables s) (hm : m ∈ u.ownCallables t) (h : n.overrides m = true) :
    n.parameters.length = m.parameters.length ∧
      (n.id.role ≠ .setter →
        n.parameters.map Parameter.type = m.parameters.map Parameter.type) := by
  have hhead := (hu.above_of_overrides hs hn ht hm h).heading
  have hrole : m.id.role = n.id.role := congrArg Prod.fst hhead
  have hmt := (mem_ownCallables.mp hm).1
  rcases mem_callables.mp hn with hnm | ⟨p, hp, kind, hpn⟩
  · have hnh := hu.method_heading hs hnm
    have hmm := hu.mem_methods_of_role ht hmt (hrole.trans (congrArg Prod.fst hnh))
    rw [hnh, hu.method_heading ht hmm] at hhead
    have hshape : m.parameters.map Parameter.shape = n.parameters.map Parameter.shape :=
      congrArg (fun heading => heading.2.2) hhead
    have htypes := congrArg (List.map Prod.fst) hshape
    rw [List.map_map, List.map_map] at htypes
    exact ⟨by simpa using (congrArg List.length hshape).symm, fun _ => htypes.symm⟩
  · have hnr : n.id.role = kind.role := congrArg Prod.fst (hu.accessor_heading hs hp hpn)
    obtain ⟨type, hnp⟩ := hu.parameters_of_role hs hn hnr
    obtain ⟨type', hmp⟩ := hu.parameters_of_role ht hmt (hrole.trans hnr)
    rw [hnp, hmp, hnr]
    cases kind <;> simp [AccessorKind.parameters, AccessorKind.role]

end Universe

/-! ## Activations -/

/-- Whether the arguments of an activation are of the types that its callable asks for. -/
def Activation.Typed (a : Activation β) : Prop := a.world.types.Takes a.callable a.args

/-- **What the activation of a method comes to**: the method runs, or an override of it, on
arguments of the types of the method. -/
theorem Method.activation?_eq_some (hu : w.types.Reachable) (hk : w.types.Knows t)
    (hm : m ∈ w.types.callables t) (htarget : ∀ t, target.runtimeType? = some t → w.types.Knows t)
    (h : m.activation? target args w = some a) :
    (w.types.flags m.declaring).isGeneric = false ∧ a.world.types = w.types ∧
      w.types.Takes (.method m) a.args ∧ ∃ n, a.callable = .method n ∧
        (n = m ∨ n.overrides m = true ∧ ∃ x, w.types.Knows x ∧ n ∈ w.types.callables x) := by
  obtain ⟨n, plan, hn, hplan, rfl⟩ := exists_of_activation? h
  obtain ⟨hg, hchosen⟩ := select_eq_ok hn
  refine ⟨hg, rfl, Binding.fills_of_plan _ (hu.isArray_of_isVariadic hk hm) hplan, n, rfl, ?_⟩
  rcases hchosen with ⟨-, rfl⟩ | ⟨-, r, hr, -, rfl⟩
  · exact .inl rfl
  · rcases w.types.dispatch_eq_or m r with hsame | ⟨hover, x, hx, hnx⟩
    · exact .inl hsame
    · exact .inr ⟨hover, x, hu.knows_of_mem_ancestors (htarget r hr) hx, hnx⟩

/-- The making of an instance leaves the types as they are. -/
theorem World.types_instantiate (w : World β) (t : TypeRef) :
    (w.instantiate t).2.types = w.types := by
  rw [instantiate]
  split <;> rfl

/-- **What the activation of a constructor is made of**: the constructor, a new instance, and the
arguments as they were bound. -/
theorem Constructor.exists_of_activation? {c : Constructor β} (h : c.activation? args w = some a) :
    ∃ plan, c.prepare w.types args = .ok plan ∧ a.callable = .constructor c ∧
      a.args = (plan.place w.store).1 ∧ a.world.types = w.types := by
  rw [activation?] at h
  cases hb : c.body? with
  | none => simp [hb] at h
  | some body =>
    cases hp : c.prepare w.types args with
    | error e => simp [hb, hp] at h
    | ok plan =>
      rw [hb, hp] at h
      obtain rfl := Option.some.inj h
      exact ⟨plan, rfl, rfl, rfl, World.types_instantiate ..⟩

/-- A constructor that may run is of a type that can be constructed, and has its arguments bound. -/
theorem Constructor.prepare_eq_ok {c : Constructor β} {plan : Plan}
    (h : c.prepare u args = .ok plan) :
    u.checkConstructible c.declaring = .ok () ∧
      Binding.plan u (Blueprint.constructorName c.declaring.name) c.parameters args = .ok plan := by
  obtain ⟨⟨⟩, hcheck, h⟩ := bind_eq_ok.mp h
  split_ifs at h
  exact ⟨hcheck, h⟩

/-- A constructor runs on arguments of its own types. -/
theorem Constructor.activation?_eq_some {c : Constructor β} (hu : w.types.Reachable)
    (hk : w.types.Knows t) (hc : c ∈ w.types.constructors t)
    (h : c.activation? args w = some a) :
    a.world.types = w.types ∧ a.callable = .constructor c ∧
      w.types.Takes (.constructor c) a.args := by
  obtain ⟨plan, hp, hcallable, hargs, htypes⟩ := exists_of_activation? h
  obtain ⟨_, -, hnext⟩ := (hu.grown_constructors hk).exists_next hc
  refine ⟨htypes, hcallable, ?_⟩
  rw [hargs]
  exact Binding.fills_of_plan _ hnext.variadic (prepare_eq_ok hp).2

/-! ## Setters -/

/-- A plain parameter gets the argument itself. -/
theorem Binding.plan_value {member name : String} {type : TypeRef} {v : Value}
    (h : u.accepts type v = true) :
    plan u member [⟨name, type, .plain⟩] [v] = .ok ⟨[v], none⟩ := by
  have htail : Parameter.variadicTail? [⟨name, type, .plain⟩] = none := rfl
  have hone : bindOne u ⟨name, type, .plain⟩ v = .ok v := by simp [bindOne, Parameter.isWriteBack, h]
  simp [plan, countFits, Parameter.fixedCount, Parameter.endsVariadic, htail, bindFixed, hone, bind,
    Except.bind, pure, Except.pure]

namespace Universe

/-- Whether every setter takes what the setters that it overrides take.  Nothing is asked for those
of an open generic definition, which are never called. -/
def SettersWiden (u : Universe β) : Prop :=
  ∀ t n s m, u.Knows t → n ∈ u.ownCallables t → n.id.role = .setter → u.Knows s →
    m ∈ u.ownCallables s → (u.flags s).isGeneric = false → n.overrides m = true →
    ∀ vs, u.Takes (.method m) vs → u.Takes (.method n) vs

end Universe

/-- **The activation of an override**: on a target of the type that declares it, an override runs in
place of what it overrides, on whatever arguments that one binds. -/
theorem Method.activation?_of_overrides {plan : Plan} (hu : w.types.Reachable)
    (ht : w.types.Knows t) (hn : n ∈ w.types.ownCallables t) (hs : w.types.Knows s)
    (hm : m ∈ w.types.ownCallables s) (hg : (w.types.flags s).isGeneric = false)
    (hover : n.overrides m = true) (htarget : target.runtimeType? = some t)
    (hplan : Binding.plan w.types m.name m.parameters args = .ok plan) :
    m.activation? target args w = some {
      callable := .method n
      receiver := target
      args := (plan.place w.store).1
      world := { w with store := (plan.place w.store).2 } } := by
  obtain ⟨-, hmd⟩ := Universe.mem_ownCallables.mp hm
  have habove := hu.above_of_overrides ht (Universe.mem_ownCallables.mp hn).1 hs hm hover
  have hbase : m.declaring ∈ w.types.ancestors t := by
    rw [← (Universe.mem_ownCallables.mp hn).2]
    exact Universe.mem_ancestors_of_mem_bases habove.mem_bases
  have hselect : m.select w.types target = .ok n := by
    rw [hu.select_eq (hmd.symm ▸ hg) habove.isStatic hbase htarget,
      hu.dispatch_eq_own ht hn hs hm hover]
  rw [activation?, prepare, hselect, habove.isStatic]
  simp [bind, Except.bind, hplan, pure, Except.pure]

/-- A setter that is overridden has its override run on whatever the setter takes. -/
theorem Method.activation?_setter (hu : w.types.Reachable) (ht : w.types.Knows t)
    (hn : n ∈ w.types.ownCallables t) (hrole : n.id.role = .setter) (hs : w.types.Knows s)
    (hm : m ∈ w.types.ownCallables s) (hg : (w.types.flags s).isGeneric = false)
    (hover : n.overrides m = true) (htarget : target.runtimeType? = some t)
    (hargs : w.types.Takes (.method m) args) :
    m.activation? target args w = some ⟨.method n, target, args, w⟩ := by
  have hms := (Universe.mem_ownCallables.mp hm).1
  have habove := hu.above_of_overrides ht (Universe.mem_ownCallables.mp hn).1 hs hm hover
  have hmr : m.id.role = AccessorKind.setter.role := (congrArg Prod.fst habove.heading).trans hrole
  have hparameters : ∃ type, m.parameters = [⟨"value", type, .plain⟩] :=
    hu.parameters_of_role hs hms hmr
  obtain ⟨type, hp⟩ := hparameters
  rw [Universe.Takes, Callable.parameters, hp, List.map_singleton, Universe.Fills,
    List.forall₂_cons_left_iff] at hargs
  obtain ⟨v, rest, hv, hrest, rfl⟩ := hargs
  obtain rfl := List.forall₂_nil_left_iff.mp hrest
  have hplan : Binding.plan w.types m.name m.parameters [v] = .ok ⟨[v], none⟩ := by
    rw [hp]
    exact Binding.plan_value hv
  exact Method.activation?_of_overrides hu ht hn hs hm hg hover htarget hplan

/-! ## Every activation -/

/-- The activations of the calls in a universe. -/
def Universe.Activates (u : Universe β) (a : Activation β) : Prop :=
  ∃ (w : World β) (call : Call β), w.types = u ∧ call.Of u ∧ call.activation? w = some a

/-- **What runs**: a constructor on arguments of its own types, or a method on arguments of the
types of a method that it is or overrides. -/
theorem Universe.Activates.cases (hu : u.Reachable) (h : u.Activates a) :
    a.world.types = u ∧
      ((∃ c, a.callable = .constructor c ∧ u.Takes a.callable a.args) ∨
        ∃ n m s, a.callable = .method n ∧ u.Takes (.method m) a.args ∧ u.Knows s ∧
          m ∈ u.ownCallables s ∧ (u.flags s).isGeneric = false ∧
          (n = m ∨ n.overrides m = true ∧ ∃ t, u.Knows t ∧ n ∈ u.ownCallables t)) := by
  obtain ⟨w, call, rfl, hof, h⟩ := h
  rcases Call.activation?_cases hof h with
    ⟨m, target, args, ⟨t, hk, hm⟩, htarget, h⟩ | ⟨c, args, ⟨t, hk, hc⟩, h⟩
  · obtain ⟨hg, htypes, htakes, n, hn, hnm⟩ := m.activation?_eq_some hu hk hm htarget h
    obtain ⟨hown, hup⟩ := hu.mem_ownCallables_declaring hk hm
    refine ⟨htypes, .inr ⟨n, m, m.declaring, hn, htakes, hu.knows_of_mem_ancestors hk hup, hown, hg,
      ?_⟩⟩
    rcases hnm with hsame | ⟨hover, x, hx, hnx⟩
    · exact .inl hsame
    · obtain ⟨hnown, hnup⟩ := hu.mem_ownCallables_declaring hx hnx
      exact .inr ⟨hover, n.declaring, hu.knows_of_mem_ancestors hx hnup, hnown⟩
  · obtain ⟨htypes, hcallable, htakes⟩ := Constructor.activation?_eq_some hu hk hc h
    exact ⟨htypes, .inl ⟨c, hcallable, hcallable ▸ htakes⟩⟩

namespace Universe

theorem Takes.length_eq {c : Callable β} {vs : List Value} (h : u.Takes c vs) :
    vs.length = c.parameters.length := by
  simpa using (List.Forall₂.length_eq h).symm

/-- Code gets one argument for each parameter. -/
theorem Activates.length_args (hu : u.Reachable) (h : u.Activates a) :
    a.args.length = a.callable.parameters.length := by
  obtain ⟨-, ⟨c, -, htakes⟩ | ⟨n, m, s, hn, htakes, hs, hm, -, hnm⟩⟩ := h.cases hu
  · exact htakes.length_eq
  · rw [htakes.length_eq, hn]
    rcases hnm with rfl | ⟨hover, t, ht, hnt⟩
    · rfl
    · exact (hu.parameters_of_overrides ht hs (mem_ownCallables.mp hnt).1 hm hover).1.symm

/-- An activation is typed if the overrides that are setters take what the setters called take. -/
theorem Activates.typed (hu : u.Reachable) (h : u.Activates a)
    (hsetter : ∀ n, a.callable = .method n → n.id.role = .setter → n.overridden ≠ [] →
      u.SettersWiden) : a.Typed := by
  obtain ⟨htypes, h⟩ := h.cases hu
  rw [Activation.Typed, htypes]
  rcases h with ⟨c, -, htakes⟩ | ⟨n, m, s, hn, htakes, hs, hm, hg, hnm⟩
  · exact htakes
  · rw [hn]
    rcases hnm with rfl | ⟨hover, t, ht, hnt⟩
    · exact htakes
    · by_cases hrole : n.id.role = .setter
      · have hchain : n.overridden ≠ [] := by
          obtain ⟨d, hd, -⟩ := Method.overrides_iff.mp hover
          exact List.ne_nil_of_mem hd
        exact hsetter n hn hrole hchain t n s m ht hnt hrole hs hm hg hover a.args htakes
      · have hsame := (hu.parameters_of_overrides ht hs (mem_ownCallables.mp hnt).1 hm hover).2 hrole
        rw [Takes, Callable.parameters, hsame]
        exact htakes

/-- A class with a property of numbers, and one below that overrides it as one of texts. -/
def retypedProperty : Universe ℕ :=
  (((empty.declare .classType "A").declare .classType "R").defineBy
    { target := ⟨0, .classType, "A"⟩
      properties := [{ name := "P", type := .primitive .i32, isVirtual := true,
                       setter? := some 0 }] }).defineBy
    { target := ⟨1, .classType, "R"⟩
      extends? := some topmost
      properties := [{ name := "P", type := .primitive .string, isOverride := true,
                       setter? := some 1 }] }

theorem reachable_retypedProperty : retypedProperty.Reachable :=
  .defineBy (.defineBy (.declare _ _ (.declare _ _ .empty))
    (by decide) (by decide) (by decide) (by decide))
    (by decide) (by decide) (by decide) (by decide)

/-- The property of numbers. -/
def numberProperty : Property ℕ := (retypedProperty.properties topmost).head (by decide)

/-- A world with an instance of the class below. -/
def retypedInstance : Value × World ℕ :=
  { World.empty with types := retypedProperty }.instantiate (.declared ⟨1, .classType, "R"⟩)

end Universe
end Reflection
