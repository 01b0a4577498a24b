import Reflection.Proofs.Call.Request
import Reflection.Proofs.Call.Standin

/-!
# Proofs/Call/Execution — the code that runs while a host is at work

    Executes            requests and changes of a host, and those of the code that they activate
      ├─ exists_request     everything that runs was asked for on the way
      └─ standsIn_of_open   the code of an open generic definition runs in place of another only

The code that a request activates is a host itself.  An execution goes from one world to another and
lists every activation on the way, those that other code asks for included; in between the host may
do what it likes, as long as types are only added and defined.

Open generic definitions are refused by what is called, not by what runs.  So the code of one runs
exactly where it stands in for a callable of a type that is no open generic definition.
-/

namespace Reflection

variable {β : Type} {u v : Universe β} {w w' : World β} {m n : Method β} {a : Activation β}
  {as inner : List (Activation β)}

/-! ## Executions -/

/-- **What runs on the way from one world to another**: in each world the host stops, changes
something while types are only added and defined, or makes a request whose code does the same. -/
inductive Executes : World β → List (Activation β) → World β → Prop
  | idle (w : World β) : Executes w [] w
  | change {w v w' : World β} {as : List (Activation β)} (hv : v.types.Reachable)
      (hg : w.types.Extends v.types) (rest : Executes v as w') : Executes w as w'
  | request {w v w' : World β} {q : Request β} {a : Activation β}
      {inner as : List (Activation β)} (hof : q.Of w.types) (ha : q.activation? w = some a)
      (body : Executes a.world inner v) (rest : Executes v as w') :
      Executes w (a :: (inner ++ as)) w'

namespace Executes

/-- A request whose code asks for nothing. -/
theorem single {q : Request β} (hof : q.Of w.types) (ha : q.activation? w = some a) :
    Executes w [a] a.world :=
  (Executes.request hof ha (.idle a.world) (.idle a.world) :)

/-- Types are only added and defined on the way. -/
theorem grows (h : Executes w as w') (hw : w.types.Reachable) :
    w'.types.Reachable ∧ w.types.Extends w'.types := by
  induction h with
  | idle w => exact ⟨hw, .refl _⟩
  | change hv hg rest ih =>
    obtain ⟨hw', hrest⟩ := ih hv
    exact ⟨hw', hg.trans hrest⟩
  | @request w v w' q a inner as hof ha body rest ihbody ihrest =>
    rw [q.types_activation hof ha] at ihbody
    obtain ⟨hv, hbody⟩ := ihbody hw
    obtain ⟨hw', hrest⟩ := ihrest hv
    exact ⟨hw', hbody.trans hrest⟩

/-- **Everything that runs was asked for**, in a world that knows no more than the last one. -/
theorem exists_request (h : Executes w as w') (hw : w.types.Reachable) (ha : a ∈ as) :
    ∃ (v : World β) (q : Request β), v.types.Reachable ∧ v.types.Extends w'.types ∧
      q.Of v.types ∧ q.activation? v = some a := by
  induction h with
  | idle w => simp at ha
  | change hv hg rest ih => exact ih hv ha
  | @request w v w' q b inner as hof hb body rest ihbody ihrest =>
    have htypes := q.types_activation hof hb
    have hbw : b.world.types.Reachable := htypes.symm ▸ hw
    obtain ⟨hv, hbody⟩ := body.grows hbw
    obtain ⟨-, hrest⟩ := rest.grows hv
    rcases List.mem_cons.mp ha with rfl | ha
    · exact ⟨w, q, hw, htypes ▸ hbody.trans hrest, hof, hb⟩
    · rcases List.mem_append.mp ha with ha | ha
      · obtain ⟨x, p, hx, hxv, hp⟩ := ihbody hbw ha
        exact ⟨x, p, hx, hxv.trans hrest, hp⟩
      · exact ihrest hv ha

/-- **Making a request is an execution**, of what it activates and then of what that asks for, if
the code of the activation is a host itself. -/
theorem perform {q : Request β} (run : Evaluator β) (hw : w.types.Reachable) (hof : q.Of w.types)
    (hbody : ∀ a, q.activation? w = some a → Executes a.world inner (a.run run).world)
    (hnone : q.activation? w = none → inner = []) :
    Executes w ((q.activation? w).toList ++ inner) (q.perform run w).world := by
  have hleaves := q.leaves_perform run w
  cases ha : q.activation? w with
  | none =>
    rw [ha] at hleaves
    have htypes : (q.perform run w).world.types = w.types := hleaves
    rw [hnone ha]
    refine .change (htypes.symm ▸ hw) ?_ (.idle _)
    rw [htypes]
    exact .refl _
  | some a =>
    rw [ha] at hleaves
    have hworld : (q.perform run w).world = (a.run run).world := hleaves
    have h := Executes.request hof ha (hbody a ha) (.idle _)
    rwa [List.append_nil, ← hworld] at h

end Executes

/-! ## The code of open generic definitions -/

/-- Whether the code of an activation is that of an open generic definition. -/
def Activation.IsOpen (a : Activation β) : Prop :=
  (a.world.types.flags a.callable.declaring).isGeneric = true

namespace Universe

/-- A type that declares callables has all of its definition. -/
theorem Extends.definition_of_callable (h : u.Extends v) {t : TypeRef}
    (hm : m ∈ u.ownCallables t) : v.definition t = u.definition t :=
  h.definition_of_mem (fun d => d.methods ++ d.properties.flatMap Property.accessors) rfl
    (mem_ownCallables.mp hm).1

theorem Extends.mem_ownCallables (h : u.Extends v) {t : TypeRef} (hm : m ∈ u.ownCallables t) :
    m ∈ v.ownCallables t := by
  rwa [ownCallables, callables, methods, properties, h.definition_of_callable hm]

theorem StandsIn.mono (h : u.StandsIn n m) (hg : u.Extends v) : v.StandsIn n m where
  knows := hg.knows h.knows
  own := hg.mem_ownCallables h.own
  knows_called := hg.knows h.knows_called
  own_called := hg.mem_ownCallables h.own_called
  callable := by rw [flags, hg.definition_of_callable h.own_called]; exact h.callable
  overrides := h.overrides

end Universe

/-- **The code of an open generic definition runs in place of another only.** -/
theorem Request.standsIn_of_open {q : Request β} (hw : w.types.Reachable) (hof : q.Of w.types)
    (h : q.activation? w = some a) (hopen : a.IsOpen) :
    ∃ n m, a.callable = .method n ∧ w.types.StandsIn n m := by
  have htypes := q.types_activation hof h
  rw [Activation.IsOpen, htypes] at hopen
  rcases q.activation?_cases hof h with ⟨m, target, args, ⟨t, hk, hm⟩, htarget, h⟩ | ⟨c, args, h⟩
  · obtain ⟨hown, hup⟩ := hw.mem_ownCallables_declaring hk hm
    have hkm := hw.knows_of_mem_ancestors hk hup
    obtain ⟨n, hn, hcases⟩ := Method.receiver_cases hw hkm hown htarget h
    have hcallable : (w.types.flags m.declaring).isGeneric = false := by
      obtain ⟨_, _, hselect, -, -⟩ := Method.exists_of_activation? h
      exact (Method.select_eq_ok hselect).1
    rw [hn, Callable.declaring] at hopen
    have hne : n ≠ m := by
      rintro rfl
      simp [hcallable] at hopen
    rcases hcases with ⟨-, rfl, -⟩ | ⟨-, hnm, -⟩
    · exact absurd rfl hne
    · exact ⟨n, m, hn, hnm.resolve_left hne⟩
  · obtain ⟨plan, hplan, hc, -, -⟩ := Constructor.exists_of_activation? h
    have hcheck := (Constructor.prepare_eq_ok hplan).1
    rw [hc, Callable.declaring] at hopen
    simp [Universe.checkConstructible, hopen] at hcheck

namespace Executes

theorem standsIn_of_open (h : Executes w as w') (hw : w.types.Reachable) (ha : a ∈ as)
    (hopen : a.IsOpen) : ∃ n m, a.callable = .method n ∧ w'.types.StandsIn n m ∧
      (w'.types.flags n.declaring).isGeneric = true := by
  obtain ⟨v, q, hv, hg, hof, hq⟩ := h.exists_request hw ha
  obtain ⟨n, m, hn, hstands⟩ := q.standsIn_of_open hv hof hq hopen
  refine ⟨n, m, hn, hstands.mono hg, ?_⟩
  rw [Activation.IsOpen, q.types_activation hof hq, hn] at hopen
  rw [Universe.flags, hg.definition_of_callable hstands.own]
  exact hopen

end Executes

namespace Universe

/-- **When the code of open generic definitions runs.**  What a request comes to depends on the code
at its activation only, and is an execution wherever that code is a host.  On the way to a universe
the code of an open generic definition runs only in place of a callable of a type that is none; that
it never does holds exactly for the universes in which no open generic definition declares a
stand-in. -/
theorem generic_code_runs_iff (hu : u.Reachable) :
    (∀ (run run' : Evaluator β) (w : World β) (q : Request β),
      (∀ a, q.activation? w = some a → a.run run = a.run run') →
        q.perform run w = q.perform run' w) ∧
    (∀ (run : Evaluator β) (w : World β) (q : Request β) (inner : List (Activation β)),
      w.types.Reachable → q.Of w.types →
        (∀ a, q.activation? w = some a → Executes a.world inner (a.run run).world) →
        (q.activation? w = none → inner = []) →
        Executes w ((q.activation? w).toList ++ inner) (q.perform run w).world) ∧
    (∀ (w w' : World β) (as : List (Activation β)), w.types.Reachable → w'.types = u →
      Executes w as w' → ∀ a ∈ as, a.IsOpen →
        ∃ n m, a.callable = .method n ∧ u.StandsIn n m) ∧
    ((∀ (w w' : World β) (as : List (Activation β)), w.types.Reachable → w'.types = u →
      Executes w as w' → ∀ a ∈ as, ¬ a.IsOpen) ↔
        ∀ n m, u.StandsIn n m → (u.flags n.declaring).isGeneric = false) := by
  refine ⟨fun _ _ _ _ h => Request.perform_congr h, fun run w q inner hw hof => ?_, ?_,
    fun hall n m hstands => ?_, ?_⟩
  · exact Executes.perform run hw hof
  · rintro w w' as hw rfl h a ha hopen
    obtain ⟨n, m, hn, hstands, -⟩ := h.standsIn_of_open hw ha hopen
    exact ⟨n, m, hn, hstands⟩
  · -- the stand-in is called on an instance of the type that declares it
    obtain ⟨w, call, a, rfl, hof, ha, hn, -⟩ := hstands.exists_activation hu
    have htypes := Request.types_activation (q := .call call) hof ha
    have hexec : Executes w [a] a.world := .single (q := .call call) hof ha
    have hopen := hall w a.world [a] hu htypes hexec a List.mem_cons_self
    rw [Activation.IsOpen, htypes, hn, Callable.declaring] at hopen
    simpa using hopen
  · rintro hnone w w' as hw rfl h a ha hopen
    obtain ⟨n, m, -, hstands, hgeneric⟩ := h.standsIn_of_open hw ha hopen
    simp [hnone n m hstands] at hgeneric

/-! ### An open override -/

/-- A class with a virtual method; an open generic class below that overrides it; and a class below
that one, with a constructor. -/
def openOverride : Universe ℕ :=
  (((((empty.declare .classType "A").declare .classType "B").declare .classType "R").defineBy
    { target := ⟨0, .classType, "A"⟩
      methods := [{ name := "f", isVirtual := true, body := 1 }] }).defineBy
    { target := ⟨1, .classType, "B"⟩
      flags := { isGeneric := true }
      extends? := some topmost
      methods := [{ name := "f", isOverride := true, body := 2 }] }).defineBy
    { target := ⟨2, .classType, "R"⟩
      extends? := some middle
      constructors := [{ body := 3 }] }

theorem reachable_openOverride : openOverride.Reachable :=
  .defineBy (.defineBy (.defineBy (.declare _ _ (.declare _ _ (.declare _ _ .empty)))
    (by decide) (by decide) (by decide) (by decide))
    (by decide) (by decide) (by decide) (by decide))
    (by decide) (by decide) (by decide) (by decide)

/-- A world without instances. -/
def openOverrideWorld : World ℕ := { World.empty with types := openOverride }

/-- Making an instance of the lowest class runs code, but not that of an open generic definition. -/
theorem generic_code_runs_iff_openOverride :
    ∃ a, (Request.construct .standard lowest).activation? openOverrideWorld = some a ∧
      Executes openOverrideWorld [a] a.world ∧ ¬ a.IsOpen := by
  have hexec : ∀ a, (Request.construct .standard lowest).activation? openOverrideWorld = some a →
      Executes openOverrideWorld [a] a.world := fun a ha =>
    .single (q := .construct .standard lowest) trivial ha
  refine ⟨_, rfl, hexec _ rfl, fun hopen => ?_⟩
  obtain ⟨n, m, hn, -⟩ := (generic_code_runs_iff reachable_openOverride).2.2.1 openOverrideWorld _ _
    reachable_openOverride rfl (hexec _ rfl) _ List.mem_cons_self hopen
  nomatch hn

/-- The method of the topmost class, called on an instance of the lowest one. -/
def openOverrideCall : Request ℕ :=
  .call (.invoke ((openOverride.methods topmost).head (by decide))
    (openOverrideWorld.instantiate lowest).1 [])

/-- **Not all code that runs is that of closed types**: the call of the method of the topmost class
runs the override of the open generic one. -/
theorem open_code_runs :
    openOverride.Reachable ∧ openOverrideCall.Of openOverride ∧
    ∃ a, openOverrideCall.activation? (openOverrideWorld.instantiate lowest).2 = some a ∧
      Executes (openOverrideWorld.instantiate lowest).2 [a] a.world ∧ a.IsOpen := by
  have hof : openOverrideCall.Of openOverride := by
    refine ⟨⟨topmost, by decide, mem_callables_of_method (List.head_mem _)⟩, ?_⟩
    rintro t ⟨⟩
    decide
  have hexec : ∀ a, openOverrideCall.activation? (openOverrideWorld.instantiate lowest).2 = some a →
      Executes (openOverrideWorld.instantiate lowest).2 [a] a.world := fun a ha => .single hof ha
  refine ⟨reachable_openOverride, hof, _, rfl, hexec _ rfl, ?_⟩
  rw [Activation.IsOpen]
  decide

end Universe
end Reflection
