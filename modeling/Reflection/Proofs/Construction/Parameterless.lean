import Reflection.Proofs.Call.Refusal
import Reflection.Proofs.Construction.Resolution

/-!
# Proofs/Construction/Parameterless — asking for nothing, and asking for no arguments

    chooseDefault          the first without parameters, or the only one with nothing but a tail
      │ Agrees
    choose (some [])       the best of what binds no arguments

An instance may be asked for without arguments, or with arguments of which there are none.  The two
choices are made in different ways, but what binds no arguments has no parameters or nothing but a
tail, so they come to the same; only the error differs if there is no such constructor.  A value
type needs no constructor.  Whether it may have instances at all is asked on the first way and not
on the second.
-/

namespace Reflection

variable {β : Type} {u : Universe β} {w : World β} {t : TypeRef} {c : Constructor β}
  {cs : List (Constructor β)} {ps : List Parameter} {r : Resolver β}

/-- Whether two choices for a type are the same, but for the error where no constructor applies. -/
def Choice.Agrees (t : TypeRef) (x y : Choice β) : Prop :=
  x = y ∨ x = .error (.noDefaultConstructor t.name) ∧ y = .error (.noMatchingConstructor t.name)

/-! ## What binds no arguments -/

theorem Parameter.fixedCount_eq_zero_iff :
    fixedCount ps = 0 ↔ ps.length = 0 ∨ ps.length = 1 ∧ endsVariadic ps = true := by
  have hpos : endsVariadic ps = true → ps.length ≠ 0 := by
    rintro h hnil
    obtain rfl := List.length_eq_zero_iff.mp hnil
    simp [endsVariadic, variadicTail?] at h
  rw [fixedCount]
  split_ifs with h
  · have := hpos h
    simp only [h, and_true]
    omega
  · simp [h]

/-- **What binds no arguments has no fixed parameters.** -/
theorem Binding.binds_nil_iff : binds u ps [] = true ↔ Parameter.fixedCount ps = 0 := by
  have hcount : countFits ps 0 = true ↔ Parameter.fixedCount ps = 0 := by
    rw [countFits]
    split_ifs <;> simp [eq_comm]
  by_cases h : Parameter.fixedCount ps = 0
  · have hplan : ∃ pl, plan u "" ps [] = .ok pl := by
      simp only [plan, h, List.length_nil, hcount.mpr h]
      cases Parameter.variadicTail? ps <;> exact ⟨_, rfl⟩
    obtain ⟨pl, hpl⟩ := hplan
    simp [h, binds, hpl, Except.isOk, Except.toBool]
  · simp [h, binds, plan, mt hcount.mp h, Except.isOk, Except.toBool]

/-- Binding no arguments asks for nothing. -/
theorem Binding.not_stuck_nil : ¬ Stuck u ps [] := by
  rintro ⟨-, i, ⟨p, v, -, hv, -⟩, -⟩
  cases hv

namespace Resolver

theorem exactCandidates_nil (r : Resolver β) (u : Universe β) (t : TypeRef) :
    r.exactCandidates u t [] = (r.candidates u t).filter fun c => c.arity = 0 := by
  rw [exactCandidates, List.filter_filter]
  refine List.filter_congr fun c _ => Bool.eq_iff_iff.mpr ?_
  rw [Bool.and_eq_true, Binding.binds_nil_iff, Parameter.fixedCount_eq_zero_iff,
    Bool.not_eq_true', decide_eq_true_eq, Constructor.isVariadic, Constructor.arity]
  refine ⟨?_, fun h => ⟨?_, .inl h⟩⟩
  · rintro ⟨htail, h | ⟨-, h⟩⟩
    · exact h
    · simp [htail] at h
  · rw [List.length_eq_zero_iff.mp h]
    rfl

theorem variadicCandidates_nil (r : Resolver β) (u : Universe β) (t : TypeRef) :
    r.variadicCandidates u t [] =
      (r.candidates u t).filter fun c => c.arity = 1 && c.isVariadic := by
  rw [variadicCandidates, List.filter_filter]
  refine List.filter_congr fun c _ => Bool.eq_iff_iff.mpr ?_
  rw [Bool.and_eq_true, Bool.and_eq_true, Binding.binds_nil_iff, Parameter.fixedCount_eq_zero_iff,
    decide_eq_true_eq, Constructor.isVariadic, Constructor.arity]
  refine ⟨?_, fun h => ⟨h.2, .inr h⟩⟩
  rintro ⟨htail, h | ⟨h, -⟩⟩
  · rw [List.length_eq_zero_iff.mp h] at htail
    cases htail
  · exact ⟨h, htail⟩

/-! ## The two choices -/

/-- **The choice without arguments**, in terms of what binds none. -/
theorem resolveDefault_eq (hc : u.checkConstructible t = .ok ())
    (hi : u.isUninstantiable t = false) (hv : t.isValueType = false) :
    r.resolveDefault u t = match r.exactCandidates u t [], r.variadicCandidates u t [] with
      | c :: _, _ => .ok (some c)
      | [], [] => .error (.noDefaultConstructor t.name)
      | [], [c] => .ok (some c)
      | [], many => .error (.ambiguousMatch t.name many.length) := by
  simp only [resolveDefault, hc, hi, hv, bind, Except.bind, Bool.false_eq_true, if_false,
    ← List.head?_filter, ← exactCandidates_nil, ← variadicCandidates_nil]
  rcases r.exactCandidates u t [] with _ | ⟨c, cs⟩
  · rcases r.variadicCandidates u t [] with _ | ⟨d, _ | ⟨e, ds⟩⟩ <;> rfl
  · rfl

/-- What has no parameters is as specific as anything. -/
theorem best_cons_of_arity (h : c.arity = 0) (ds : List (Constructor β)) :
    best u t (c :: cs) ds = .ok c := by
  have hmost : IsMostSpecific u (c :: cs) c := by
    refine ⟨List.mem_cons_self, fun d _ => ?_⟩
    rw [asSpecific, List.length_eq_zero_iff.mp h]
    rfl
  rw [best_of_ne_nil (List.cons_ne_nil c cs), mostSpecific?_cons hmost]

/-- Constructors without fixed parameters are all equally wide. -/
theorem filter_widest_of_fixedArity (h : ∀ c ∈ cs, c.fixedArity = 0) :
    (cs.filter fun c => c.fixedArity = widest cs) = cs := by
  refine List.filter_eq_self.mpr fun c hc => ?_
  obtain ⟨⟨d, hd, hwidest⟩, -⟩ := widest_spec (List.ne_nil_of_mem hc)
  rw [← hwidest, h c hc, h d hd]
  rfl

/-- **The choice for no arguments**, in terms of what binds none. -/
theorem resolve_nil_eq (hc : u.checkConstructible t = .ok ())
    (hi : u.isUninstantiable t = false) :
    r.resolve u t [] = match r.exactCandidates u t [], r.variadicCandidates u t [] with
      | c :: _, _ => .ok c
      | [], [] => .error (.noMatchingConstructor t.name)
      | [], [c] => .ok c
      | [], many => .error (.ambiguousMatch t.name many.length) := by
  have hexact (c : Constructor β) (hmem : c ∈ r.exactCandidates u t []) : c.arity = 0 := by
    rw [exactCandidates_nil] at hmem
    exact of_decide_eq_true (List.mem_filter.mp hmem).2
  have hvariadic (c : Constructor β) (hmem : c ∈ r.variadicCandidates u t []) :
      c.fixedArity = 0 := by
    rw [variadicCandidates, List.filter_filter] at hmem
    exact Binding.binds_nil_iff.mp (Bool.and_eq_true_iff.mp (List.mem_filter.mp hmem).2).2
  rw [resolve_eq_best hc hi]
  rcases hes : r.exactCandidates u t [] with _ | ⟨c, cs⟩
  · rcases hvs : r.variadicCandidates u t [] with _ | ⟨d, ds⟩
    · rfl
    · rw [hvs] at hvariadic
      rw [best_nil (List.cons_ne_nil d ds), filter_widest_of_fixedArity hvariadic]
      cases ds <;> rfl
  · exact best_cons_of_arity (hexact c (hes ▸ List.mem_cons_self)) _

/-- A value type makes its default, if it may have instances. -/
theorem chooseDefault_agrees_of_isValueType (hv : t.isValueType = true)
    (h : u.checkConstructible t = .ok () → u.isUninstantiable t = false) :
    (r.chooseDefault u t).Agrees t (r.choose u t (some [])) := by
  refine .inl ?_
  cases hc : u.checkConstructible t with
  | error e => simp [chooseDefault, resolveDefault, choose, hv, hc, bind, Except.bind, Except.map]
  | ok _ =>
    simp [chooseDefault, resolveDefault, choose, hv, hc, h hc, bind, Except.bind, Except.map]

/-- Any other type is made by the constructor that binds no arguments. -/
theorem chooseDefault_agrees_of_not_isValueType (hv : t.isValueType = false) :
    (r.chooseDefault u t).Agrees t (r.choose u t (some [])) := by
  have hchoose : r.choose u t (some []) = (r.resolve u t []).map .inr := by simp [choose, hv]
  rw [hchoose, chooseDefault]
  cases hc : u.checkConstructible t with
  | error e =>
    rw [resolve_eq_error hc, resolveDefault, hc]
    exact .inl rfl
  | ok _ =>
    cases hi : u.isUninstantiable t with
    | true =>
      rw [resolve_of_isUninstantiable hc hi, resolveDefault, hc, hi]
      exact .inl rfl
    | false =>
      rw [resolveDefault_eq hc hi hv, resolve_nil_eq hc hi]
      rcases r.exactCandidates u t [] with _ | ⟨c, cs⟩
      · rcases r.variadicCandidates u t [] with _ | ⟨d, _ | ⟨e, ds⟩⟩
        · exact .inr ⟨rfl, rfl⟩
        · exact .inl rfl
        · exact .inl rfl
      · exact .inl rfl

/-! ## What comes of them -/

/-- Whether construction without arguments and construction from no arguments make choices that
agree, whatever the code does. -/
def DecidesAlike (r : Resolver β) (w : World β) (t : TypeRef) : Prop :=
  ∃ x y : Choice β, (∀ run, r.construct run t w = x.perform run [] w) ∧
    (∀ run, r.constructWith run t (some []) w = y.perform run [] w) ∧ x.Agrees t y

/-- A value type that may have no instances is refused if no arguments are asked for, and made if
none are given. -/
theorem not_decidesAlike (hv : t.isValueType = true) (hc : w.types.checkConstructible t = .ok ())
    (hi : w.types.isUninstantiable t = true) : ¬ r.DecidesAlike w t := by
  rintro ⟨x, y, hx, hy, hagrees⟩
  have hrefused : r.construct .idle t w = (.error (.noDefaultConstructor t.name), w) := by
    simp [construct, resolveDefault, hc, hi, bind, Except.bind]
  have hmade : r.constructWith .idle t (some []) w = (.ok (w.types.default t), w) := by
    simp [constructWith, hv, hc]
  rw [hx] at hrefused
  rw [hy] at hmade
  rcases hagrees with rfl | ⟨-, rfl⟩
  · simp [hmade] at hrefused
  · simp [Choice.perform] at hmade

/-- **Construction without arguments has one meaning**, whether none are asked for or none are
given, exactly for all types but the value types that may have no instances: abstract and static
ones, if they are no open generic definitions. -/
theorem decidesAlike_iff (r : Resolver β) (w : World β) (t : TypeRef) :
    r.DecidesAlike w t ↔ ¬ (t.isValueType = true ∧ w.types.checkConstructible t = .ok () ∧
      w.types.isUninstantiable t = true) := by
  refine ⟨fun h ⟨hv, hc, hi⟩ => not_decidesAlike hv hc hi h, fun h => ?_⟩
  refine ⟨_, _, fun _ => construct_eq _, fun _ => constructWith_eq _ (some []), ?_⟩
  cases hv : t.isValueType with
  | true =>
    refine chooseDefault_agrees_of_isValueType hv fun hc => ?_
    by_contra hi
    exact h ⟨hv, hc, Bool.not_eq_false _ ▸ hi⟩
  | false => exact chooseDefault_agrees_of_not_isValueType hv

end Resolver

namespace Universe

/-! ### An abstract structure -/

/-- The universe in which an abstract structure is defined. -/
def abstractStruct : Universe ℕ :=
  (empty.declare .structType "S").defineBy (Blueprint.start ⟨0, .structType, "S"⟩).markAbstract

theorem reachable_abstractStruct : abstractStruct.Reachable :=
  .defineBy (.declare _ _ .empty) (by decide) (by decide) (by decide) (by decide)

/-- The structure. -/
abbrev declaredStruct : TypeRef := .declared ⟨0, .structType, "S"⟩

/-- **Construction without arguments has two meanings** for an abstract structure. -/
theorem not_every_type_decides_alike :
    abstractStruct.Reachable ∧ abstractStruct.Knows declaredStruct ∧
    ¬ Resolver.standard.DecidesAlike { World.empty with types := abstractStruct } declaredStruct :=
  ⟨reachable_abstractStruct, by decide, Resolver.not_decidesAlike rfl rfl rfl⟩

end Universe
end Reflection
