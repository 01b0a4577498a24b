import Reflection.Proofs.Call.OwnMembers
import Reflection.Proofs.Call.Refusal
import Reflection.Proofs.Construction.Resolution

/-!
# Proofs/Construction/Copying — whether the predicate predicts copies, and what copies are good for

    hasCopy = false   ──▸  copying is refused for want of a copy constructor
    hasCopy = true    ──▸  a copy, or the failure of a body …
                           … if the copy constructor makes instances (`Makes`)

Whether values can be copied is told from the type and the constructors that it declares.  A copy
constructor takes exactly what is copied, so it always binds; but when it is run the type is looked
at once more, and one that may have no instances is refused; and making an instance that holds a
structure which contains itself goes on for ever.

A copy is null for null, the value itself where values are copied trivially, or what a copy
constructor made, which is of the very type.  So it is accepted where the original was expected, as
long as null is (`copy_accepted_iff`).
-/

namespace Reflection

variable {β : Type} {u : Universe β} {w : World β} {t : TypeRef} {c : Constructor β}
  {r : Resolver β}

/-- **A constructor is refused** if its type may have no instances. -/
theorem Constructor.exists_refusal (h : ¬ u.Instantiates c.declaring) (args : List Value) :
    ∃ e, c.prepare u args = .error e ∧ e.cause? = none := by
  cases hc : u.checkConstructible c.declaring with
  | error e =>
    refine ⟨e, ?_, (u.checks_checkConstructible c.declaring).cause? e hc⟩
    rw [prepare, hc]
    rfl
  | ok _ =>
    refine ⟨.noMatchingConstructor c.declaring.name, ?_, rfl⟩
    have hi : u.isUninstantiable c.declaring = true := by
      by_contra hi
      exact h ⟨hc, Bool.not_eq_true _ ▸ hi⟩
    rw [prepare, hc, hi]
    rfl

/-- Whether bodies of constructors leave the instance that they are given one of its type; its slots
may change. -/
def Evaluator.KeepsInstances (run : Evaluator β) : Prop :=
  ∀ (c : Constructor β) (target : Value) (n : ℕ) (args : Vector Value n) (w : World β),
    (run (.constructor c) target args w).target.runtimeType? = target.runtimeType?

namespace Resolver

/-! ## Copy constructors -/

/-- A copy constructor has one plain parameter, of the type that is copied. -/
theorem parameters_of_copyConstructor? (h : r.copyConstructor? u t = some c) :
    ∃ name, c.parameters = [⟨name, t, .plain⟩] := by
  have hfound := List.find?_some h
  split at hfound
  · next p hp =>
    rw [Bool.and_eq_true, decide_eq_true_eq, decide_eq_true_eq] at hfound
    obtain ⟨hmode, rfl⟩ := hfound
    exact ⟨p.name, by rw [hp, ← hmode]⟩
  · cases hfound

/-- What is copied binds to the copy constructor. -/
theorem binds?_of_copyConstructor? (h : r.copyConstructor? u t = some c) {v : Value}
    (hv : u.accepts? t v = some true) : Binding.binds? u c.parameters [v] = some true := by
  obtain ⟨name, hps⟩ := parameters_of_copyConstructor? h
  have hone : (Binding.bindOne? u ⟨name, t, .plain⟩ v).run = some (.ok v) := by
    rw [Binding.bindOne?_of_not_null (by simp [Parameter.isWriteBack]), hv]
    rfl
  have hsettled : List.Forall₂ (Binding.Settled u) [⟨name, t, .plain⟩] [v] := .cons ⟨hv, hone⟩ .nil
  have hplan : (Binding.plan? u "" [⟨name, t, .plain⟩] [v]).run = some (.ok ⟨[v], none⟩) := by
    rw [Binding.plan?_of_no_tail rfl rfl]
    exact run_bind_eq_ok.mpr ⟨[v], Binding.bindFixed?_of_settled hsettled, rfl⟩
  rw [hps, Binding.binds?, hplan]
  rfl

/-- The copy constructor of a type is its own. -/
theorem declaring_of_copyConstructor? (hu : u.Reachable) (hk : u.Knows t)
    (hr : r.provider.ListsConstructors) (h : r.copyConstructor? u t = some c) :
    c.declaring = t := by
  have hmem := List.mem_of_mem_filter (List.mem_of_find?_eq_some h)
  exact hu.declaring_of_mem_constructors hk ((hr u t).mem_iff.mp hmem)

/-- A constructed copy is of a class: structures are copied trivially. -/
theorem isClass_of_copyConstructor? (hu : u.Reachable) (hk : u.Knows t)
    (hr : r.provider.ListsConstructors) (ht : copiesTrivially t = false)
    (h : r.copyConstructor? u t = some c) : t.isClass = true := by
  have hmem := List.mem_of_mem_filter (List.mem_of_find?_eq_some h)
  refine (hu.isClass_or_isStruct_of_mem_constructors hk ((hr u t).mem_iff.mp hmem)).resolve_right ?_
  intro hs
  cases t <;> simp_all [copiesTrivially, TypeRef.isStruct, TypeRef.hasKind]

/-! ## The predicate and the copy -/

/-- What copying comes to where a value is given that may be copied. -/
theorem copy?_eq_of_accepts? {v : Value} (run : Evaluator β) (hv : v ≠ .null)
    (hacc : w.types.accepts? t v = some true) (ht : copiesTrivially t = false) :
    r.copy? run t v w = match r.copyConstructor? w.types t with
      | none => some (.error (.noCopyConstructor t.name), w)
      | some c => c.create? run [v] w := by
  have hnull : v.isNull = false := Bool.eq_false_iff.mpr (mt Value.isNull_iff.mp hv)
  cases hc : r.copyConstructor? w.types t <;> simp [copy?, hnull, hacc, ht, hc]

/-- **Whether the predicate predicts copies**, of all values that are no null and of the type: where
it holds, copying comes back, with a copy or the failure of a body, and where it does not, there is
no copy constructor. -/
structure PredictsCopy (r : Resolver β) (u : Universe β) (t : TypeRef) : Prop where
  copies : r.hasCopy u t = true → ∀ (run : Evaluator β) (w : World β) (v : Value),
    w.types = u → v ≠ .null → u.accepts? t v = some true →
      ∃ x, r.copy? run t v w = some x ∧
        ∀ e, x.1 = .error e → ∃ type cause, e = .constructionRaised type cause
  refuses : r.hasCopy u t = false → ∀ (run : Evaluator β) (w : World β) (v : Value),
    w.types = u → v ≠ .null → u.accepts? t v = some true →
      r.copy? run t v w = some (.error (.noCopyConstructor t.name), w)

/-- **Whether a constructor makes instances**: its type may have some, and making one comes to an
end. -/
def Makes (u : Universe β) (c : Constructor β) : Prop :=
  u.Instantiates c.declaring ∧
    ∀ w : World β, w.types = u → w.instantiate? c.declaring ≠ none

/-- Something is a value of every type whose values are not copied trivially: an object of it. -/
theorem accepts?_object (hu : u.Reachable) (ht : copiesTrivially t = false) :
    u.accepts? t (.object ⟨t, 0⟩) = some true := by
  have hcore : t.core = t := by cases t <;> simp_all [TypeRef.core, copiesTrivially]
  refine (Universe.accepts?_eq_some_iff hu).mpr ⟨?_, ?_⟩
  · rw [Universe.acceptanceLoops_iff rfl, hcore]
    exact Universe.not_loops_self t
  · rw [Universe.accepts_eq_isSubtype rfl, hcore, u.isSubtype_self]

/-- **A constructor that makes no instances is not run**: it is refused, or making the instance
never ends. -/
theorem makes_of_predictsCopy (hu : u.Reachable) (h : r.PredictsCopy u t)
    (ht : copiesTrivially t = false) (hc : r.copyConstructor? u t = some c) : Makes u c := by
  have hhas : r.hasCopy u t = true := by simp [hasCopy, hc]
  have hcreates (w : World β) (hw : w.types = u) :
      ∃ x, c.create? .idle [.object ⟨t, 0⟩] w = some x ∧
        ∀ e, x.1 = .error e → ∃ type cause, e = .constructionRaised type cause := by
    subst hw
    have hacc := accepts?_object hu ht
    obtain ⟨x, hx, hraised⟩ := h.copies hhas .idle w (.object ⟨t, 0⟩) rfl nofun hacc
    rw [copy?_eq_of_accepts? (v := .object ⟨t, 0⟩) .idle nofun hacc ht, hc] at hx
    exact ⟨x, hx, hraised⟩
  have hi : u.Instantiates c.declaring := by
    by_contra hi
    obtain ⟨e, hrefused, hcause⟩ := Constructor.exists_refusal hi [.object ⟨t, 0⟩]
    obtain ⟨x, hx, hraised⟩ := hcreates { World.empty with types := u } rfl
    have herror : x.1 = .error e := by
      rw [← Constructor.create_of_create? hx]
      simp [Constructor.create, Constructor.construct, hrefused]
    obtain ⟨type, cause, rfl⟩ := hraised e herror
    cases hcause
  refine ⟨hi, fun w hw hnone => ?_⟩
  subst hw
  obtain ⟨x, hx, -⟩ := hcreates w rfl
  have hbinds := binds?_of_copyConstructor? hc (accepts?_object hu ht)
  simp [(Constructor.create?_of_binds? .idle hu hi hbinds).1.mpr hnone] at hx

/-- What is copied trivially is never refused. -/
theorem predictsCopy_of_copiesTrivially (ht : copiesTrivially t = true) : r.PredictsCopy u t where
  copies _ run w v hw hv hacc := by
    subst hw
    refine ⟨(.ok v, w), ?_, nofun⟩
    simp [copy?, hacc, ht, mt Value.isNull_iff.mp hv]
  refuses h := by simp [hasCopy, ht] at h

/-- **The predicate predicts copies** if the copy constructor makes instances. -/
theorem predictsCopy_of_makes (hu : u.Reachable) (ht : copiesTrivially t = false)
    (hmakes : ∀ c, r.copyConstructor? u t = some c → Makes u c) : r.PredictsCopy u t where
  copies h run w v hw hv hacc := by
    subst hw
    obtain ⟨c, hc⟩ : ∃ c, r.copyConstructor? w.types t = some c := by
      simpa [hasCopy, ht, Option.isSome_iff_exists] using h
    obtain ⟨hi, hmade⟩ := hmakes c hc
    obtain ⟨hnone, hraised⟩ :=
      Constructor.create?_of_binds? run hu hi (binds?_of_copyConstructor? hc hacc)
    obtain ⟨x, hx⟩ := Option.ne_none_iff_exists'.mp (mt hnone.mp (hmade w rfl))
    rw [copy?_eq_of_accepts? run hv hacc ht, hc]
    refine ⟨x, hx, fun e he => ?_⟩
    obtain ⟨cause, rfl⟩ := hraised x hx e he
    exact ⟨_, cause, rfl⟩
  refuses h run w v hw hv hacc := by
    subst hw
    have hc : r.copyConstructor? w.types t = none := by simpa [hasCopy, ht] using h
    rw [copy?_eq_of_accepts? run hv hacc ht, hc]

/-- Of a type that lists its own constructors, the copy constructor makes instances if the type may
have some and holds no structure that contains itself. -/
theorem makes_copyConstructor?_iff (hu : u.Reachable) (hk : u.Knows t)
    (hr : r.provider.ListsConstructors) (ht : copiesTrivially t = false)
    (hc : r.copyConstructor? u t = some c) :
    Makes u c ↔ u.Instantiates t ∧ ¬ CycleAhead u.Holds t := by
  rw [Makes, declaring_of_copyConstructor? hu hk hr hc]
  have hclass := isClass_of_copyConstructor? hu hk hr ht hc
  have hnone (w : World β) (hw : w.types = u) :
      w.instantiate? t = none ↔ CycleAhead u.Holds t := by
    subst hw
    simp [World.instantiate?_eq_none_iff hu hk, hclass]
  refine and_congr_right fun _ => ⟨fun h hcycle => ?_, fun h w hw => mt (hnone w hw).mp h⟩
  exact h { World.empty with types := u } rfl ((hnone _ rfl).mpr hcycle)

/-- **Where the predicate predicts copies**: exactly where values are copied trivially, where there
is no copy constructor, and where the copy constructor makes instances; it is one of the type
itself, if what is listed are the constructors that it declares.  Wherever copying comes to an end,
it comes to what the bounded questions make. -/
theorem predictsCopy_iff (hu : u.Reachable) (r : Resolver β) (t : TypeRef) :
    (r.PredictsCopy u t ↔ ∀ c, copiesTrivially t = false → r.copyConstructor? u t = some c →
      Makes u c) ∧
    (u.Knows t → r.provider.ListsConstructors → (r.PredictsCopy u t ↔
      copiesTrivially t = true ∨ r.hasCopy u t = false ∨
        u.Instantiates t ∧ ¬ CycleAhead u.Holds t)) ∧
    ∀ (run : Evaluator β) (w : World β), w.types = u → ∀ v x,
      r.copy? run t v w = some x → r.copy run t v w = x := by
  have hiff : r.PredictsCopy u t ↔ ∀ c, copiesTrivially t = false →
      r.copyConstructor? u t = some c → Makes u c := by
    refine ⟨fun h c => makes_of_predictsCopy hu h, fun h => ?_⟩
    cases ht : copiesTrivially t with
    | true => exact predictsCopy_of_copiesTrivially ht
    | false => exact predictsCopy_of_makes hu ht fun c => h c ht
  refine ⟨hiff, fun hk hr => hiff.trans ⟨fun h => ?_, ?_⟩, fun run w hw => ?_⟩
  · cases ht : copiesTrivially t with
    | true => exact .inl rfl
    | false =>
      cases hc : r.copyConstructor? u t with
      | none => exact .inr (.inl (by simp [hasCopy, ht, hc]))
      | some c =>
        exact .inr (.inr ((makes_copyConstructor?_iff hu hk hr ht hc).mp (h c ht hc)))
  · rintro (htrivial | hnone | hmakes) c ht hc
    · simp [ht] at htrivial
    · simp [hasCopy, hc] at hnone
    · exact (makes_copyConstructor?_iff hu hk hr ht hc).mpr hmakes
  · subst hw
    exact (r.construction_of_ends run hu t).2.2

/-! ## What a copy is good for -/

theorem runtimeType?_activateConstructor {run : Evaluator β} (hrun : run.KeepsInstances)
    (c : Constructor β) (target : Value) {n : ℕ} (args : Vector Value n) (w : World β) :
    (activateConstructor run c target args w).target.runtimeType? = target.runtimeType? := by
  rw [activateConstructor]
  cases c.body? with
  | none => rfl
  | some _ => exact hrun c target n args w

/-- What a constructor of a class makes is an instance of that class, if bodies leave it one. -/
theorem runtimeType?_of_create {run : Evaluator β} (hrun : run.KeepsInstances)
    (hclass : c.declaring.isClass = true) {args : List Value} {x : Value}
    (h : (c.create run args w).1 = .ok x) : x.runtimeType? = some c.declaring := by
  rw [Constructor.create, Constructor.construct] at h
  cases hplan : c.prepare w.types args with
  | error e => simp [hplan] at h
  | ok plan =>
    simp only [hplan] at h
    have hkept := runtimeType?_activateConstructor hrun c
      (({ w with store := (plan.place w.store).2 } : World β).instantiate c.declaring).1
      (plan.place w.store).1.toArray.toVector
      (({ w with store := (plan.place w.store).2 } : World β).instantiate c.declaring).2
    revert h hkept
    generalize activateConstructor run c _ _ _ = left
    cases left.result with
    | error cause => exact fun h => by cases h
    | ok y =>
      rintro ⟨⟩ hkept
      rw [hkept, World.instantiate, if_pos hclass]
      rfl

/-- What copying makes of a value that may be copied. -/
theorem copy_eq_of_accepts {v : Value} (run : Evaluator β) (hv : v ≠ .null)
    (hacc : w.types.accepts t v = true) (ht : copiesTrivially t = false) :
    r.copy run t v w = match r.copyConstructor? w.types t with
      | none => (.error (.noCopyConstructor t.name), w)
      | some c => c.create run [v] w := by
  have hnull : v.isNull = false := Bool.eq_false_iff.mpr (mt Value.isNull_iff.mp hv)
  cases hc : r.copyConstructor? w.types t <;> simp [copy, hnull, hacc, ht, hc]

/-- **When a copy is accepted where the original is expected**: always, but for the copy that null
is of itself. -/
theorem copy_accepted_iff (hw : w.types.Reachable) (hk : w.types.Knows t)
    (hr : r.provider.ListsConstructors) {run : Evaluator β} (hrun : run.KeepsInstances)
    {v x : Value} (h : (r.copy run t v w).1 = .ok x) :
    (r.copy run t v w).2.types.accepts t x = true ↔ v ≠ .null ∨ t.acceptsNull = true := by
  by_cases hv : v = .null
  · subst hv
    obtain rfl : .null = x := Except.ok.inj h
    simp
  refine iff_of_true ?_ (.inl hv)
  cases hacc : w.types.accepts t v with
  | false => simp [copy, Value.isNull_eq_false hv, hacc] at h
  | true =>
    cases ht : copiesTrivially t with
    | true =>
      have hcopy : r.copy run t v w = (.ok v, w) := by
        simp [copy, Value.isNull_eq_false hv, hacc, ht]
      rw [hcopy] at h ⊢
      obtain rfl := Except.ok.inj h
      exact hacc
    | false =>
      rw [copy_eq_of_accepts run hv hacc ht] at h ⊢
      cases hc : r.copyConstructor? w.types t with
      | none => simp [hc] at h
      | some c =>
        simp only [hc] at h ⊢
        have hd := declaring_of_copyConstructor? hw hk hr hc
        have hclass := isClass_of_copyConstructor? hw hk hr ht hc
        have hx := runtimeType?_of_create hrun (hd ▸ hclass) h
        rw [hd] at hx
        refine (Universe.accepts_iff_exists ?_ ?_).mpr ⟨t, hx, Universe.isSubtype_self _ t⟩
        · rintro rfl
          cases hx
        · cases t <;> first | rfl | cases hclass

end Resolver

namespace Universe

/-! ### Copies of a class and of an abstract one -/

/-- A constructor from instances of a type. -/
def copying (t : TypeRef) : ConstructorSpec ℕ where
  parameters := [{ name := "source", type := t }]
  body := 1

/-- Instances of a class with a copy constructor can be copied, and the predicate says so. -/
theorem predictsCopy_iff_copying :
    Resolver.standard.hasCopy (oneClass [copying declaredClass]) declaredClass = true ∧
    Resolver.standard.PredictsCopy (oneClass [copying declaredClass]) declaredClass := by
  obtain ⟨hu, -⟩ := reordering_oneClass [copying declaredClass] (by decide) (by decide)
  have hk : (oneClass [copying declaredClass]).Knows declaredClass := by decide
  refine ⟨rfl, ((Resolver.predictsCopy_iff hu .standard declaredClass).2.1 hk
    Provider.listsConstructors_reflector).mpr (.inr (.inr ⟨⟨rfl, rfl⟩, fun hcycle => ?_⟩))⟩
  -- an instance of the class can be made
  have hnone := (World.instantiate?_eq_none_iff
    (w := { World.empty with types := oneClass [copying declaredClass] }) hu hk).mpr
    ⟨.inl rfl, hcycle⟩
  cases hnone

/-- An abstract class with a copy constructor, and a class below. -/
def copiedAbove : Universe ℕ :=
  (((empty.declare .classType "A").declare .classType "B").defineBy
    { (Blueprint.start ⟨0, .classType, "A"⟩).markAbstract with
      constructors := [copying topmost] }).defineBy
    { target := ⟨1, .classType, "B"⟩
      extends? := some topmost }

theorem reachable_copiedAbove : copiedAbove.Reachable :=
  .defineBy (.defineBy (.declare _ _ (.declare _ _ .empty))
    (by decide) (by decide) (by decide) (by decide))
    (by decide) (by decide) (by decide) (by decide)

/-- **Not every copy is predicted**: an instance of the lower class can be copied as one of the
abstract class, says the predicate, but the copy constructor is refused. -/
theorem not_every_copy_predicted :
    copiedAbove.Reachable ∧ copiedAbove.Knows topmost ∧
    Resolver.standard.hasCopy copiedAbove topmost = true ∧
    copiedAbove.accepts? topmost (.object ⟨middle, 0⟩) = some true ∧
    Resolver.standard.copy? .idle topmost (.object ⟨middle, 0⟩)
      { World.empty with types := copiedAbove } =
        some (.error (.noMatchingConstructor "A"), { World.empty with types := copiedAbove }) ∧
    ¬ Resolver.standard.PredictsCopy copiedAbove topmost := by
  have hcopy : Resolver.standard.copy? .idle topmost (.object ⟨middle, 0⟩)
      { World.empty with types := copiedAbove } =
        some (.error (.noMatchingConstructor "A"), { World.empty with types := copiedAbove }) := rfl
  refine ⟨reachable_copiedAbove, by decide, rfl, rfl, hcopy, fun h => ?_⟩
  obtain ⟨x, hx, hraised⟩ := h.copies rfl .idle { World.empty with types := copiedAbove }
    (.object ⟨middle, 0⟩) rfl nofun rfl
  obtain rfl := Option.some.inj (hcopy.symm.trans hx)
  obtain ⟨_, _, he⟩ := hraised _ rfl
  cases he

/-- Code that does nothing leaves the instance as it is. -/
theorem keepsInstances_idle : (Evaluator.idle : Evaluator β).KeepsInstances :=
  fun _ _ _ _ _ => rfl

/-- A world in which the class can be copied. -/
def copyingWorld : World ℕ := { World.empty with types := oneClass [copying declaredClass] }

/-- The copy of an instance of the class is accepted as one. -/
theorem copy_accepted_iff_copying :
    ∃ x, (Resolver.standard.copy .idle declaredClass (copyingWorld.instantiate declaredClass).1
        (copyingWorld.instantiate declaredClass).2).1 = .ok x ∧
      (Resolver.standard.copy .idle declaredClass (copyingWorld.instantiate declaredClass).1
        (copyingWorld.instantiate declaredClass).2).2.types.accepts declaredClass x = true := by
  obtain ⟨hu, -⟩ := reordering_oneClass [copying declaredClass] (by decide) (by decide)
  refine ⟨_, rfl, ?_⟩
  exact (Resolver.copy_accepted_iff (w := (copyingWorld.instantiate declaredClass).2) hu (by decide)
    Provider.listsConstructors_reflector keepsInstances_idle rfl).mpr (.inl nofun)

/-- **Not every copy is accepted**: null is its own copy as a number, and no number. -/
theorem not_every_copy_accepted :
    (Evaluator.idle : Evaluator ℕ).KeepsInstances ∧
    (Resolver.standard.copy .idle (.primitive .i32) .null (World.empty : World ℕ)).1 = .ok .null ∧
    (Resolver.standard.copy .idle (.primitive .i32) .null
      (World.empty : World ℕ)).2.types.accepts (.primitive .i32) .null = false :=
  ⟨keepsInstances_idle, rfl, rfl⟩

end Universe
end Reflection
