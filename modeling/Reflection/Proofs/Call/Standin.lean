import Reflection.Proofs.Call.WellTyped

/-!
# Proofs/Call/Standin — what the code of an override is run on

    activation  ──receiver_cases──▸  the callable that is called, or a stand-in for it
    stand-in  ──exists_activation──▸  an activation, on an instance of its type

A call is made through one callable and may run the code of another, an override that stands in for
it.  Whether the call may be made, and whether its target is passed on, is settled by the callable
that is called.  Nothing obliges an override to be an instance callable, although what it overrides
always is one; so a static override gets the target of a call that was meant for an instance.
-/

namespace Reflection

variable {β : Type} {u : Universe β} {w : World β} {t : TypeRef} {m n : Method β}
  {target : Value} {args : List Value} {a : Activation β}

/-! ## Stand-ins -/

/-- Whether the code of a callable is run in place of another: it overrides one that may be called,
since it is not that of an open generic definition. -/
structure Universe.StandsIn (u : Universe β) (n m : Method β) : Prop where
  knows : u.Knows n.declaring
  own : n ∈ u.ownCallables n.declaring
  knows_called : u.Knows m.declaring
  own_called : m ∈ u.ownCallables m.declaring
  callable : (u.flags m.declaring).isGeneric = false
  overrides : n.overrides m = true

namespace Universe

theorem StandsIn.overridden_ne_nil (h : u.StandsIn n m) : n.overridden ≠ [] := by
  obtain ⟨d, hd, -⟩ := Method.overrides_iff.mp h.overrides
  exact List.ne_nil_of_mem hd

/-- What dispatch comes to is the callable itself, or a stand-in that the target's type has or
inherits. -/
theorem Reachable.dispatch_standsIn (hu : u.Reachable) (hk : u.Knows m.declaring)
    (hm : m ∈ u.ownCallables m.declaring) (hg : (u.flags m.declaring).isGeneric = false)
    (ht : u.Knows t) :
    u.dispatch m t = m ∨
      u.StandsIn (u.dispatch m t) m ∧ (u.dispatch m t).declaring ∈ u.ancestors t := by
  refine (u.dispatch_eq_or m t).imp_right fun ⟨hover, x, hx, hnx⟩ => ?_
  have hkx := hu.knows_of_mem_ancestors ht hx
  obtain ⟨hown, hup⟩ := hu.mem_ownCallables_declaring hkx hnx
  exact ⟨⟨hu.knows_of_mem_ancestors hkx hup, hown, hk, hm, hg, hover⟩,
    hu.ancestors_subset_ancestors hx hup⟩

end Universe

/-- **What runs, and on what**: a static callable itself, on null; or else the callable or a
stand-in for it, on a target of a type below the one that declares the code. -/
theorem Method.receiver_cases (hu : w.types.Reachable) (hk : w.types.Knows m.declaring)
    (hm : m ∈ w.types.ownCallables m.declaring)
    (htarget : ∀ t, target.runtimeType? = some t → w.types.Knows t)
    (h : m.activation? target args w = some a) :
    ∃ n, a.callable = .method n ∧
      (m.isStatic = true ∧ n = m ∧ a.receiver = .null ∨
        m.isStatic = false ∧ (n = m ∨ w.types.StandsIn n m) ∧
          ∃ t, a.receiver.runtimeType? = some t ∧ w.types.isSubtype t n.declaring = true) := by
  obtain ⟨n, plan, hn, -, rfl⟩ := exists_of_activation? h
  refine ⟨n, rfl, ?_⟩
  obtain ⟨hg, ⟨hs, rfl⟩ | ⟨hs, t, ht, hsub, rfl⟩⟩ := select_eq_ok hn
  · exact .inl ⟨hs, rfl, by simp [hs]⟩
  · refine .inr ⟨hs, ?_⟩
    simp only [hs, Bool.false_eq_true, if_false]
    rcases hu.dispatch_standsIn hk hm hg (htarget t ht) with hself | ⟨hstands, hup⟩
    · rw [hself]
      exact ⟨.inl rfl, t, ht, hsub⟩
    · exact ⟨.inr hstands, t, ht, hu.isSubtype_of_mem_ancestors hup⟩

namespace Universe

/-- **A stand-in does run**, on an instance of the type that declares it. -/
theorem StandsIn.exists_activation (hu : u.Reachable) (h : u.StandsIn n m) :
    ∃ (w : World β) (call : Call β) (a : Activation β), w.types = u ∧ call.Of u ∧
      call.activation? w = some a ∧ a.callable = .method n ∧
      a.receiver.runtimeType? = some n.declaring := by
  let w : World β := { World.empty with types := u }
  let target : Value := .object ⟨n.declaring, 0⟩
  have htarget : target.runtimeType? = some n.declaring := rfl
  obtain ⟨args, plan, hplan⟩ := Binding.exists_plan u m.name m.parameters
  have hactivation := Method.activation?_of_overrides (w := w) hu h.knows h.own h.knows_called
    h.own_called h.callable h.overrides htarget hplan
  have hm := (mem_ownCallables.mp h.own_called).1
  refine ⟨w, .invoke m target args, _, rfl, ⟨⟨_, h.knows_called, hm⟩, ?_⟩, hactivation, rfl, rfl⟩
  rintro t ⟨⟩
  exact h.knows

/-! ## Static and instance code -/

/-- What the activation of a method comes to, for the activations of a universe. -/
theorem Activates.receiver_cases (hu : u.Reachable) (h : u.Activates a)
    (hn : a.callable = .method n) :
    a.world.types = u ∧ ∃ m, (n = m ∨ u.StandsIn n m) ∧
      (m.isStatic = true ∧ n = m ∧ a.receiver = .null ∨
        m.isStatic = false ∧
          ∃ t, a.receiver.runtimeType? = some t ∧ u.isSubtype t n.declaring = true) := by
  refine ⟨(h.cases hu).1, ?_⟩
  obtain ⟨w, call, rfl, hof, h⟩ := h
  rcases Call.activation?_cases hof h with
    ⟨m, target, args, ⟨t, hk, hm⟩, htarget, h⟩ | ⟨c, args, ⟨t, hk, hc⟩, h⟩
  · obtain ⟨hown, hup⟩ := hu.mem_ownCallables_declaring hk hm
    have hkm := hu.knows_of_mem_ancestors hk hup
    obtain ⟨n', hn', hcases⟩ := Method.receiver_cases hu hkm hown htarget h
    obtain rfl : n' = n := Callable.method.inj (hn'.symm.trans hn)
    rcases hcases with ⟨hs, rfl, hnull⟩ | ⟨hs, hnm, hbelow⟩
    · exact ⟨n', .inl rfl, .inl ⟨hs, rfl, hnull⟩⟩
    · exact ⟨m, hnm, .inr ⟨hs, hbelow⟩⟩
  · have hcallable := (Constructor.activation?_eq_some hu hk hc h).2.1
    simp [hcallable] at hn

end Universe

/-- Whether the code of a method is run as it was declared: a static one on null, any other on a
target of a type below the one that declares it. -/
def Activation.KeepsConvention (a : Activation β) : Prop :=
  ∀ n, a.callable = .method n →
    if n.isStatic then a.receiver = .null
    else ∃ t, a.receiver.runtimeType? = some t ∧ a.world.types.isSubtype t n.declaring = true

namespace Universe

/-- **Where code is run as it was declared.**  A call runs what its activation says and nothing
else.  Instance code always has a target of a type below the one that declares it, and static code
that overrides nothing never has one; that no static code ever has one holds exactly in the
universes in which no stand-in is static. -/
theorem convention_kept_iff (hu : u.Reachable) :
    (∀ (run run' : Evaluator β) (w : World β) (call : Call β),
      (∀ a, call.activation? w = some a → a.run run = a.run run') →
        call.perform run w = call.perform run' w) ∧
    (∀ a n, u.Activates a → a.callable = .method n →
      (n.isStatic = false →
        ∃ t, a.receiver.runtimeType? = some t ∧ u.isSubtype t n.declaring = true) ∧
      (n.isStatic = true → n.overridden = [] → a.receiver = .null)) ∧
    ((∀ a, u.Activates a → a.KeepsConvention) ↔ ∀ n m, u.StandsIn n m → n.isStatic = false) := by
  refine ⟨fun _ _ _ _ h => Call.perform_congr h, fun a n ha hn => ?_, fun hall n m h => ?_,
    fun hnone a ha n hn => ?_⟩
  · obtain ⟨-, m, hnm, ⟨hs, rfl, hnull⟩ | ⟨hs, hbelow⟩⟩ := ha.receiver_cases hu hn
    · exact ⟨fun h => by simp [hs] at h, fun _ _ => hnull⟩
    · refine ⟨fun _ => hbelow, fun hstatic hnil => ?_⟩
      rcases hnm with rfl | hstands
      · simp [hs] at hstatic
      · exact absurd hnil hstands.overridden_ne_nil
  · obtain ⟨w, call, a, hw, hof, ha, hn, hreceiver⟩ := h.exists_activation hu
    by_contra hstatic
    have hkeeps := hall a ⟨w, call, hw, hof, ha⟩ n hn
    rw [if_pos (by simpa using hstatic)] at hkeeps
    simp [hkeeps, Value.runtimeType?] at hreceiver
  · obtain ⟨hw, m, hnm, ⟨hs, rfl, hnull⟩ | ⟨hs, hbelow⟩⟩ := ha.receiver_cases hu hn
    · rw [if_pos hs]
      exact hnull
    · have hns : n.isStatic = false := by
        rcases hnm with rfl | hstands
        · exact hs
        · exact hnone n m hstands
      rw [if_neg (by simp [hns]), hw]
      exact hbelow

/-! ### A static override -/

/-- A class with a virtual method and a static one, and a class below that overrides the virtual one
by a static method. -/
def staticOverride : Universe ℕ :=
  (((empty.declare .classType "A").declare .classType "B").defineBy
    { target := ⟨0, .classType, "A"⟩
      methods := [{ name := "f", isVirtual := true, body := 1 },
        { name := "g", isStatic := true, body := 2 }] }).defineBy
    { target := ⟨1, .classType, "B"⟩
      extends? := some topmost
      methods := [{ name := "f", isStatic := true, isOverride := true, body := 3 }] }

theorem reachable_staticOverride : staticOverride.Reachable :=
  .defineBy (.defineBy (.declare _ _ (.declare _ _ .empty))
    (by decide) (by decide) (by decide) (by decide))
    (by decide) (by decide) (by decide) (by decide)

/-- A method of the upper class, the virtual one or the static one. -/
def upperMethod (i : Fin 2) : Method ℕ := (staticOverride.methods topmost).get (i.cast (by decide))

/-- A world with an instance of the lower class. -/
def staticOverrideInstance : Value × World ℕ :=
  { World.empty with types := staticOverride }.instantiate middle

theorem of_upperMethod (i : Fin 2) :
    (Call.invoke (upperMethod i) staticOverrideInstance.1 []).Of staticOverride := by
  refine ⟨⟨topmost, by decide, mem_callables_of_method (List.get_mem ..)⟩, ?_⟩
  rintro t ⟨⟩
  decide

/-- Calling the static method of the upper class on an instance of the lower one passes no
target. -/
theorem convention_kept_iff_staticOverride :
    ∃ a, (Call.invoke (upperMethod 1) staticOverrideInstance.1 []).activation?
        staticOverrideInstance.2 = some a ∧ a.receiver = .null := by
  have h := (convention_kept_iff reachable_staticOverride).2.1
  exact ⟨_, rfl, (h _ (upperMethod 1) ⟨staticOverrideInstance.2, _, rfl, of_upperMethod 1, rfl⟩
    rfl).2 rfl rfl⟩

/-- **Not all static code is run without a target**: the virtual method of the upper class, called
on an instance of the lower one, has the static override run on that instance. -/
theorem not_every_convention_kept :
    staticOverride.Reachable ∧ staticOverrideInstance.2.types = staticOverride ∧
    (Call.invoke (upperMethod 0) staticOverrideInstance.1 []).Of staticOverride ∧
    ∃ a, (Call.invoke (upperMethod 0) staticOverrideInstance.1 []).activation?
      staticOverrideInstance.2 = some a ∧ ¬ a.KeepsConvention := by
  refine ⟨reachable_staticOverride, rfl, of_upperMethod 0, _, rfl, fun h => ?_⟩
  have hkeeps := h ((staticOverride.methods middle).head (by decide)) rfl
  rw [if_pos (by decide)] at hkeeps
  nomatch hkeeps

end Universe
end Reflection
