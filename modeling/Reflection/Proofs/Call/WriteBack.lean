import Reflection.Proofs.Call.WellTyped

/-!
# Proofs/Call/WriteBack — what a call leaves in the caller's arguments

    callee   b₀   b₁   [a₂, a₃, a₄]
                   │
                   ▾  write-back
    caller   a₀   b₁   a₂   a₃   a₄

The callee's list and the caller's agree in place up to the variadic tail, and a tail is not written
back; so each write-back slot gets the value at its own place, and every other slot is not touched.
Nothing of this depends on what the body does, nor on whether it fails.
-/

namespace Reflection

variable {β : Type} {u : Universe β} {p : Parameter} {ps : List Parameter} {member : String}
  {args callee bs as : List Value} {pl : Plan} {b : Value} {i : ℕ}

/-- **What a call may do to the caller's arguments**: their number stays, each write-back slot holds
the callee's final value, and every other slot is as it was. -/
structure WritesBack (ps : List Parameter) (callee caller after : List Value) : Prop where
  length : after.length = caller.length
  written : ∀ (i : ℕ) p, ps[i]? = some p → p.isWriteBack = true →
    ∃ v, callee[i]? = some v ∧ after[i]? = some v
  kept : ∀ i : ℕ, (∀ p, ps[i]? = some p → p.isWriteBack = false) → after[i]? = caller[i]?

namespace Binding

/-! ## One slot -/

theorem getElem?_writeBack (hp : ps[i]? = some p) (hw : p.isWriteBack = true)
    (hb : bs[i]? = some b) (hi : i < as.length) : (writeBack ps bs as)[i]? = some b := by
  induction ps generalizing i bs as with
  | nil => simp at hp
  | cons q ps ih =>
    cases bs with
    | nil => simp at hb
    | cons c bs =>
      cases as with
      | nil => simp at hi
      | cons a as =>
        cases i with
        | zero =>
          obtain rfl := Option.some.inj hp
          obtain rfl := Option.some.inj hb
          simp [writeBack, hw]
        | succ i => exact ih hp hb (Nat.lt_of_succ_lt_succ hi)

theorem getElem?_writeBack_of_not (hp : ∀ p, ps[i]? = some p → p.isWriteBack = false) :
    (writeBack ps bs as)[i]? = as[i]? := by
  fun_induction writeBack ps bs as generalizing i with
  | case1 q ps c bs a as ih =>
    cases i with
    | zero => simp [hp q rfl]
    | succ i => exact ih hp
  | case2 => rfl

/-! ## Places -/

/-- The callee's list has one value for each parameter. -/
theorem length_place_of_plan (s : Store) (h : plan u member ps args = .ok pl) :
    (pl.place s).1.length = ps.length := by
  rcases plan_eq_ok h with ⟨-, hargs, hfixed, hnone⟩ | ⟨tail, tl, htail, hargs, hfixed, -, hsome⟩
  · have hlen := (fills_of_bindFixed (Nat.le_of_eq hargs.symm) hfixed).length_eq
    rw [Plan.place, hnone, ← hlen, List.length_map]
  · obtain ⟨hps, -⟩ := Parameter.eq_append_of_variadicTail? htail
    have hle : (ps.take (Parameter.fixedCount ps)).length ≤ args.length :=
      Nat.le_trans (List.length_take_le _ _) hargs
    have hlen := (fills_of_bindFixed hle hfixed).length_eq
    rw [List.length_map] at hlen
    rw [Plan.place, hsome, List.length_append, ← hlen]
    have hall := congrArg List.length hps
    rw [List.length_append] at hall
    exact hall.symm

/-- A write-back parameter stands before the tail, so there is an argument at its place. -/
theorem lt_length_of_isWriteBack (h : plan u member ps args = .ok pl) (hp : ps[i]? = some p)
    (hw : p.isWriteBack = true) : i < args.length := by
  have hi := (List.getElem?_eq_some_iff.mp hp).1
  rcases plan_eq_ok h with ⟨-, hargs, -, -⟩ | ⟨tail, tl, htail, hargs, -, -, -⟩
  · rwa [hargs]
  · obtain ⟨hlast, htv⟩ := Option.filter_eq_some_iff.mp htail
    have hends : Parameter.endsVariadic ps = true := by rw [Parameter.endsVariadic, htail]; rfl
    rw [Parameter.fixedCount, if_pos hends] at hargs
    -- the last parameter is the tail, and that one is not written back
    have hne : i ≠ ps.length - 1 := by
      rintro rfl
      rw [List.getLast?_eq_getElem?, hp] at hlast
      obtain rfl := Option.some.inj hlast
      simp_all [Parameter.isVariadic, Parameter.isWriteBack]
    omega

/-- **Write-back copies place by place.** -/
theorem writesBack_of_plan (s : Store) (h : plan u member ps args = .ok pl)
    (hlen : callee.length = (pl.place s).1.length) :
    WritesBack ps callee args (writeBack ps callee args) where
  length := length_writeBack ..
  written i p hp hw := by
    have hi : i < callee.length := by
      rw [hlen, length_place_of_plan s h]
      exact (List.getElem?_eq_some_iff.mp hp).1
    have hb := List.getElem?_eq_getElem hi
    exact ⟨_, hb, getElem?_writeBack hp hw hb (lt_length_of_isWriteBack h hp hw)⟩
  kept _ hp := getElem?_writeBack_of_not hp

end Binding

/-! ## Calls -/

/-- What the body of a method leaves behind, run on a plan of its arguments. -/
def Method.returned (run : Evaluator β) (m chosen : Method β) (pl : Plan) (target : Value)
    (w : World β) : Returned β (pl.place w.store).1.toArray.size :=
  activate run chosen (if m.isStatic then .null else target) (pl.place w.store).1.toArray.toVector
    { w with store := (pl.place w.store).2 }

/-- What the body of a constructor leaves behind, run on a plan of its arguments. -/
def Constructor.returned (run : Evaluator β) (c : Constructor β) (pl : Plan) (w : World β) :
    Returned β (pl.place w.store).1.toArray.size :=
  let made := { w with store := (pl.place w.store).2 }.instantiate c.declaring
  activateConstructor run c made.1 (pl.place w.store).1.toArray.toVector made.2

/-- **Whatever a body does, and whether it returns or raises, a call writes back and does no more**:
the number of the caller's arguments stays, each write-back slot holds the callee's final value, and
every other slot, those of trailing arguments included, is as it was. -/
theorem call_writes_back (run : Evaluator β) (w : World β) (args : List Value) :
    (∀ (m chosen : Method β) (target : Value) (pl : Plan),
      m.prepare w.types target args = .ok (chosen, pl) →
        (m.invoke run target args w).result =
          (m.returned run chosen pl target w).result.mapError (.invocationRaised m.name) ∧
        WritesBack m.parameters (m.returned run chosen pl target w).args.toList args
          (m.invoke run target args w).args) ∧
      ∀ (c : Constructor β) (pl : Plan), c.prepare w.types args = .ok pl →
        (c.construct run args w).result =
          ((c.returned run pl w).result.map fun _ => (c.returned run pl w).target).mapError
            (.constructionRaised c.declaring.name) ∧
        WritesBack c.parameters (c.returned run pl w).args.toList args
          (c.construct run args w).args := by
  refine ⟨fun m chosen target pl h => ?_, fun c pl h => ?_⟩
  · obtain ⟨_, -, hplan⟩ := bind_eq_ok.mp h
    obtain ⟨_, hplan, ⟨⟩⟩ := bind_eq_ok.mp hplan
    rw [Method.invoke, h]
    exact ⟨rfl, Binding.writesBack_of_plan w.store hplan (Vector.length_toList ..)⟩
  · have hplan := (Constructor.prepare_eq_ok h).2
    rw [Constructor.construct, h]
    exact ⟨rfl, Binding.writesBack_of_plan w.store hplan (Vector.length_toList ..)⟩

/-! ### A body that raises -/

/-- A class with a shared method that writes one number back and takes any more of them. -/
def drainTypes : Universe ℕ :=
  (Universe.empty.declare .classType "Drain").defineBy {
    target := ⟨0, .classType, "Drain"⟩
    methods := [{
      name := "take"
      isStatic := true
      parameters := [{ name := "taken", type := .primitive .i32, writeBack := true },
        { name := "rest", type := .array (.primitive .i32), variadic := true }]
      body := 1 }] }

/-- A body that makes every argument seven and then raises. -/
def drainPastEmpty : Evaluator ℕ := fun _ target n _ w =>
  ⟨.error (.raised "drained past empty"), target, .replicate n (.i32 7), w⟩

/-- The class is defined, and nothing else. -/
def drainWorld : World ℕ := { World.empty with types := drainTypes }

/-- The method of the class. -/
def drainTake : Method ℕ :=
  (drainTypes.methods (.declared ⟨0, .classType, "Drain"⟩)).head (by decide)

/-- The method raises, and yet the first number is written back; those of the tail are as they
were. -/
theorem call_writes_back_drain :
    let r := drainTake.invoke drainPastEmpty .null [.null, .i32 1, .i32 2] drainWorld
    r.result = .error (.invocationRaised "take" (.raised "drained past empty")) ∧
      r.args[0]? = some (.i32 7) ∧ r.args[1]? = some (.i32 1) ∧ r.args[2]? = some (.i32 2) := by
  have ready : drainTake.prepare drainTypes .null [.null, .i32 1, .i32 2] =
    .ok (drainTake, ⟨[.i32 0], some (.packed (.primitive .i32) [.i32 1, .i32 2])⟩) := rfl
  obtain ⟨of_method, -⟩ := call_writes_back drainPastEmpty drainWorld [.null, .i32 1, .i32 2]
  obtain ⟨result, slots⟩ := of_method drainTake drainTake .null _ ready
  obtain ⟨v, hv, first⟩ := slots.written 0 ⟨"taken", .primitive .i32, .writeBack⟩ rfl rfl
  have seven : some (Value.i32 7) = some v := hv
  obtain rfl := Option.some.inj seven
  refine ⟨result, first, slots.kept 1 ?_, slots.kept 2 ?_⟩
  · rintro p ⟨⟩
    rfl
  · rintro p ⟨⟩

end Reflection
