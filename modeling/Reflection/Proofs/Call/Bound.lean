import Reflection.Call.Binding
import Reflection.Proofs.World.Typing

/-!
# Proofs/Call/Bound — what binding lets through

    bindFixed  ──▸  the fixed arguments fill their types ──┐
                                                           plan ──place──▸  one value for each parameter
    bindTail   ──▸  the tail is of the tail type ──────────┘

A plan has one value for each parameter, of its type: an argument that was checked, the default that
null stands for, or the array of the trailing arguments.  The array is made with the element type of
the tail, so it is of the tail type only if that is an array type.
-/

namespace Reflection

variable {β : Type} {u : Universe β} {p tail : Parameter} {ps : List Parameter} {t : TypeRef}
  {v : Value} {args vs : List Value}

/-- **The default of a type is of the type**, also of a structure that has no finite default. -/
theorem Universe.accepts_default (u : Universe β) (t : TypeRef) :
    u.accepts t (u.default t) = true := by
  rw [default]
  cases h : u.default? t with
  | some v =>
    have hv : u.accepts t v = true ∧ Typed u [] v := typed_default? h
    exact hv.1
  | none =>
    cases t with
    | declared d => simp [accepts, Value.runtimeType?]
    | primitive p => cases p <;> simp [default?, defaultWithin] at h
    | _ => simp [default?, defaultWithin] at h

theorem TypeRef.exists_of_isArray (ht : t.isArray = true) : ∃ e, t = .array e := by
  cases t with
  | array e => exact ⟨e, rfl⟩
  | _ => simp [isArray] at ht

namespace Parameter

theorem eq_append_of_variadicTail? (h : variadicTail? ps = some tail) :
    ps = ps.take (fixedCount ps) ++ [tail] ∧ tail.isVariadic = true := by
  have hends : endsVariadic ps = true := by rw [endsVariadic, h]; rfl
  rw [variadicTail?, Option.filter_eq_some_iff] at h
  obtain ⟨hlast, hv⟩ := h
  obtain ⟨before, rfl⟩ := List.getLast?_eq_some_iff.mp hlast
  rw [fixedCount, if_pos hends]
  exact ⟨by simp, hv⟩

theorem fixedCount_of_variadicTail? (h : variadicTail? ps = none) :
    fixedCount ps = ps.length ∧ endsVariadic ps = false := by
  have hends : endsVariadic ps = false := by rw [endsVariadic, h]; rfl
  exact ⟨by rw [fixedCount, hends]; rfl, hends⟩

end Parameter

namespace Binding

/-! ## Arguments -/

/-- A bound argument is of the type of its parameter. -/
theorem accepts_of_bindOne {b : Value} (h : bindOne u p v = .ok b) :
    u.accepts p.type b = true := by
  unfold bindOne at h
  split_ifs at h with hnull hacc
  · obtain rfl := Except.ok.inj h
    exact u.accepts_default p.type
  · obtain rfl := Except.ok.inj h
    exact hacc

/-- Bound arguments fill the types of the parameters, if there are enough. -/
theorem fills_of_bindFixed (hlen : ps.length ≤ args.length) (h : bindFixed u ps args = .ok vs) :
    u.Fills (ps.map Parameter.type) vs := by
  induction ps generalizing args vs with
  | nil =>
    obtain rfl := Except.ok.inj h
    exact .nil
  | cons p ps ih =>
    cases args with
    | nil => simp at hlen
    | cons v args =>
      obtain ⟨b, hb, h⟩ := bind_eq_ok.mp h
      obtain ⟨bs, hbs, h⟩ := bind_eq_ok.mp h
      obtain rfl := Except.ok.inj h
      exact .cons (accepts_of_bindOne hb) (ih (Nat.le_of_succ_le_succ hlen) hbs)

/-! ## The tail -/

/-- The trailing arguments make an array of the tail type, if that is an array type. -/
theorem accepts_of_packItems {s : Store} {tl : Tail} (ht : t.isArray = true)
    (h : packItems u t vs = .ok tl) : u.accepts t (tl.place s).1 = true := by
  unfold packItems at h
  dsimp only at h
  split at h
  · simp at h
  · obtain rfl := Except.ok.inj h
    obtain ⟨e, rfl⟩ := TypeRef.exists_of_isArray ht
    simp [Tail.place, Store.newArray, TypeRef.element?, Universe.accepts, Value.runtimeType?]

theorem accepts_of_bindTail {s : Store} {tl : Tail} (ht : t.isArray = true)
    (h : bindTail u t vs = .ok tl) : u.accepts t (tl.place s).1 = true := by
  unfold bindTail at h
  split at h
  · next v =>
    split_ifs at h with hwhole
    · obtain rfl := Except.ok.inj h
      unfold passesWhole at hwhole
      split at hwhole
      · exact hwhole
      · exact hwhole
      · simp at hwhole
    · exact accepts_of_packItems ht h
  · exact accepts_of_packItems ht h

/-! ## The whole -/

/-- **What a plan comes from**: as many arguments as there are parameters, or at least as many as
there are before the variadic tail. -/
theorem plan_eq_ok {member : String} {pl : Plan} (h : plan u member ps args = .ok pl) :
    (Parameter.endsVariadic ps = false ∧ args.length = ps.length ∧
      bindFixed u ps args = .ok pl.fixed ∧ pl.tail? = none) ∨
    ∃ tail tl, Parameter.variadicTail? ps = some tail ∧ Parameter.fixedCount ps ≤ args.length ∧
      bindFixed u (ps.take (Parameter.fixedCount ps)) args = .ok pl.fixed ∧
      bindTail u tail.type (args.drop (Parameter.fixedCount ps)) = .ok tl ∧ pl.tail? = some tl := by
  unfold plan at h
  dsimp only at h
  split_ifs at h with hcount
  rw [Bool.not_eq_true, Bool.not_eq_false'] at hcount
  obtain ⟨fixed, hfixed, h⟩ := bind_eq_ok.mp h
  split at h
  · next hnone =>
    obtain rfl := Except.ok.inj h
    obtain ⟨hlen, hends⟩ := Parameter.fixedCount_of_variadicTail? hnone
    rw [hlen, List.take_length] at hfixed
    exact .inl ⟨hends, by simpa [countFits, hends, hlen] using hcount, hfixed, rfl⟩
  · next tail htail =>
    obtain ⟨tl, htl, h⟩ := bind_eq_ok.mp h
    obtain rfl := Except.ok.inj h
    have hends : Parameter.endsVariadic ps = true := by rw [Parameter.endsVariadic, htail]; rfl
    exact .inr ⟨tail, tl, htail, by simpa [countFits, hends] using hcount, hfixed, htl, rfl⟩

/-- **A plan has one value for each parameter, of its type.** -/
theorem fills_of_plan {member : String} {pl : Plan} (s : Store)
    (hv : ∀ p ∈ ps, p.isVariadic = true → p.type.isArray = true)
    (h : plan u member ps args = .ok pl) : u.Fills (ps.map Parameter.type) (pl.place s).1 := by
  rcases plan_eq_ok h with ⟨-, hargs, hfixed, hnone⟩ | ⟨tail, tl, htail, hargs, hfixed, htl, hsome⟩
  · rw [Plan.place, hnone]
    exact fills_of_bindFixed (Nat.le_of_eq hargs.symm) hfixed
  · rw [Plan.place, hsome]
    obtain ⟨hps, htv⟩ := Parameter.eq_append_of_variadicTail? htail
    have hlen : (ps.take (Parameter.fixedCount ps)).length ≤ args.length := by
      simpa using Nat.le_trans (Nat.min_le_left ..) hargs
    have hfills := fills_of_bindFixed hlen hfixed
    have htm : tail ∈ ps := hps ▸ by simp
    have hlast := accepts_of_bindTail (s := s) (hv tail htm htv) htl
    rw [hps, List.map_append]
    exact List.rel_append hfills (.cons hlast .nil)

/-! ## Arguments that do not bind -/

theorem bindFixed_eq_error {e : EngineError} (h : bindFixed u ps vs = .error e) :
    ∃ t, ∃ v ∈ vs, e = mismatch t v := by
  fun_induction bindFixed u ps vs with
  | case1 p ps v vs ih =>
    rcases bind_eq_error.mp h with hone | ⟨_, -, h⟩
    · unfold bindOne at hone
      split_ifs at hone
      exact ⟨p.type, v, List.mem_cons_self, (Except.error.inj hone).symm⟩
    · rcases bind_eq_error.mp h with h | ⟨_, -, h⟩
      · obtain ⟨t, x, hx, he⟩ := ih h
        exact ⟨t, x, List.mem_cons_of_mem _ hx, he⟩
      · cases h
  | case2 => cases h

theorem packItems_eq_error {e : EngineError} (h : packItems u t vs = .error e) :
    ∃ t, ∃ v ∈ vs, e = mismatch t v := by
  unfold packItems at h
  dsimp only at h
  split at h
  · next v hv => exact ⟨_, v, List.mem_of_find?_eq_some hv, (Except.error.inj h).symm⟩
  · cases h

theorem bindTail_eq_error {e : EngineError} (h : bindTail u t vs = .error e) :
    ∃ t, ∃ v ∈ vs, e = mismatch t v := by
  unfold bindTail at h
  split at h
  · split_ifs at h
    exact packItems_eq_error h
  · exact packItems_eq_error h

/-- **What a plan fails with**: the number of the arguments, or one of them. -/
theorem plan_eq_error {member : String} {e : EngineError} (h : plan u member ps args = .error e) :
    e = .parameterCount member (Parameter.fixedCount ps) args.length (Parameter.endsVariadic ps) ∨
      ∃ t, ∃ v ∈ args, e = mismatch t v := by
  unfold plan at h
  dsimp only at h
  split_ifs at h
  · exact .inl (Except.error.inj h).symm
  · refine .inr ?_
    rcases bind_eq_error.mp h with h | ⟨fixed, -, h⟩
    · exact bindFixed_eq_error h
    · split at h
      · cases h
      · rcases bind_eq_error.mp h with h | ⟨_, -, h⟩
        · obtain ⟨t, v, hv, he⟩ := bindTail_eq_error h
          exact ⟨t, v, List.mem_of_mem_drop hv, he⟩
        · cases h

/-! ## Arguments that bind -/

/-- The default of the type of a parameter binds to it, as itself. -/
theorem bindOne_default (p : Parameter) :
    bindOne u p (u.default p.type) = .ok (u.default p.type) := by
  rw [bindOne, if_pos (u.accepts_default p.type), ite_self]

theorem bindFixed_default (ps : List Parameter) :
    bindFixed u ps (ps.map fun p => u.default p.type) = .ok (ps.map fun p => u.default p.type) := by
  induction ps with
  | nil => rfl
  | cons p ps ih =>
    rw [List.map_cons, bindFixed, bindOne_default, ih]
    rfl

/-- **Every parameter list takes some arguments**: the defaults of what comes before the tail, and
no trailing ones. -/
theorem exists_plan (u : Universe β) (member : String) (ps : List Parameter) :
    ∃ args pl, plan u member ps args = .ok pl := by
  cases htail : Parameter.variadicTail? ps with
  | none =>
    obtain ⟨hlen, hends⟩ := Parameter.fixedCount_of_variadicTail? htail
    refine ⟨ps.map fun p => u.default p.type, ⟨ps.map fun p => u.default p.type, none⟩, ?_⟩
    simp [plan, countFits, hends, hlen, htail, bindFixed_default, bind, Except.bind, pure,
      Except.pure]
  | some tail =>
    have hends : Parameter.endsVariadic ps = true := by rw [Parameter.endsVariadic, htail]; rfl
    have hlen := Nat.min_eq_left (Parameter.fixedCount_le ps)
    have hfixed := bindFixed_default (u := u) (ps.take (Parameter.fixedCount ps))
    rw [List.map_take] at hfixed
    let defaults := (ps.map fun p => u.default p.type).take (Parameter.fixedCount ps)
    let rest := Tail.packed (tail.type.element?.getD .object) []
    refine ⟨defaults, ⟨defaults, some rest⟩, ?_⟩
    simp [plan, countFits, hends, htail, defaults, hlen, hfixed, bindTail, packItems, rest, bind,
      Except.bind, pure, Except.pure]

end Binding

end Reflection
