import Reflection.Proofs.Universe.Open
import Reflection.Proofs.Universe.Steps

/-!
# Proofs/Universe/Final — which answers about types are final

    ¬ Open s t  ──settled_of_not_open──▸   every later universe gives the same answer
      Open s t  ──exists_later_of_open──▸  some later universe gives another one

What is open can change: the type that is not defined yet, at which the search arrives, may be
defined in a way that turns the answer, and one or two steps do so.  Hence the answers that are
final are exactly those that are not open.
-/

namespace Reflection

/-- The type of the values other than null, where null may be added any number of times. -/
def TypeRef.core : TypeRef → TypeRef
  | .nullable t => t.core
  | t => t

/-- An interface is no class. -/
theorem TypeRef.isClass_eq_false {t : TypeRef} (h : t.isInterface = true) : t.isClass = false := by
  cases t <;> simp_all [isInterface, isClass, hasKind]

namespace Universe

open Relation

variable {β : Type} {u v : Universe β} {s t a b x y : TypeRef} {c : Bool}

/-! ## What is open can change -/

theorem isDefined_of_mem_named (h : y ∈ u.named x) : u.isDefined x = true := by
  by_contra hx
  have hdef := definition_of_not_isDefined (by simpa using hx)
  simp [named, ancestors, interfaces, hdef] at h

/-- Every type but a declared one is defined from the beginning. -/
theorem eq_declared_of_not_isDefined (hx : u.isDefined x = false) : ∃ d, x = .declared d := by
  cases x with
  | declared d => exact ⟨d, rfl⟩
  | primitive p => cases p <;> simp [isDefined, definition?, builtin?] at hx
  | _ => simp [isDefined, definition?, builtin?] at hx

/-- Where the search comes to is not what it looks for. -/
theorem ne_of_entered (hst : s ≠ t) (h : ReflTransGen (u.Enters t) s x) : x ≠ t := by
  rcases h.cases_tail with rfl | ⟨_, -, _, _, -, hxt, -⟩
  · exact hst
  · exact hxt

theorem knows_of_entered (hu : u.Reachable) (hs : u.Knows s)
    (h : ReflTransGen (u.Enters t) s x) : u.Knows x := by
  rcases h.cases_tail with rfl | ⟨_, -, h⟩
  · exact hs
  · exact (hu.isInterface_of_named h.mem_named).2

section Undefined

variable {d : Declaration} (hd : u.Declares d) (hn : u.isDefined (.declared d) = false)

include hd hn

/-- A type that is not defined yet may come to name an interface. -/
theorem exists_step_naming (ht : t.isInterface = true) (hk : u.Knows t) :
    ∃ v, u.Step v ∧ v.Conforms (.declared d) t := by
  obtain ⟨x, hstep, -, his, -⟩ := exists_step_outline none [t] hd hn
    (by simp) rfl (by simpa using ⟨ht, hk⟩)
  refine ⟨_, hstep, .interface ?_⟩
  rw [interfaces, definition_define_self x hd, his]
  exact List.mem_singleton_self t

/-- A class that is not defined yet may come to derive from another one. -/
theorem exists_step_deriving (hd' : (TypeRef.declared d).isClass = true) (ht : u.MayBeBase t)
    (hdt : u.isDefined t = true) (hk : u.Knows t) (hne : t ≠ .declared d) :
    ∃ v, u.Step v ∧ v.Conforms (.declared d) t := by
  obtain ⟨hclass, hsealed, hstatic⟩ := ht
  have hb : (outline (β := β) d (some t) []).resolveBase u = .ok (some t) := by
    simp [Blueprint.resolveBase, outline, Blueprint.start, Blueprint.self, hd', hne, hclass, hdt,
      hsealed, hstatic]
  obtain ⟨x, hstep, hbases, -⟩ := exists_step_outline (some t) [] hd hn (by simpa using hk)
    hb (by simp)
  refine ⟨_, hstep, .base ?_⟩
  rw [base?, definition_define_self x hd, hbases]
  rfl

/-- An interface that is not defined yet may come to name itself, which adds nothing to it or to any
other type. -/
theorem exists_step_selfNaming (hu : u.Reachable)
    (hd' : (TypeRef.declared d).isInterface = true) :
    ∃ v, u.Step v ∧ v.named (.declared d) = [.declared d] ∧
      ∀ s t, u.Knows s → v.Conforms s t → u.Conforms s t := by
  have hb : (outline (β := β) d none [.declared d]).resolveBase u = .ok none := by
    simp [Blueprint.resolveBase, outline, Blueprint.start, Blueprint.self,
      TypeRef.isClass_eq_false hd']
  have hself : ∀ i ∈ [TypeRef.declared d], i.isInterface = true ∧ u.Knows i := by
    rintro i hi
    obtain rfl := List.mem_singleton.mp hi
    exact ⟨hd', hd⟩
  obtain ⟨x, hstep, hbases, his, -⟩ := exists_step_outline none _ hd hn (by simp) hb hself
  have hx := definition_define_self x hd
  refine ⟨_, hstep, by simp [named, ancestors, interfaces, hx, hbases, his, Blueprint.lineOf],
    fun s t hs h => (?_ : u.Conforms s t ∧ u.Knows t).1⟩
  have unchanged {z : TypeRef} (hz : u.Knows z) (hzd : z ≠ .declared d) :
      (u.define d x).definition z = u.definition z := by
    rw [definition, definition?_define_of_knows x hd hz hzd, definition]
  induction h with
  | refl t => exact ⟨.refl t, hs⟩
  | trans _ _ ihrs ihst =>
    obtain ⟨hrs, hks⟩ := ihrs hs
    obtain ⟨hst, hkt⟩ := ihst hks
    exact ⟨hrs.trans hst, hkt⟩
  | @base t a h =>
    by_cases htd : t = .declared d
    · simp [base?, htd, hx, hbases, Blueprint.lineOf] at h
    · rw [base?, unchanged hs htd] at h
      exact ⟨.base h, (hu.isClass_of_base? h).2⟩
  | @interface t i h =>
    by_cases htd : t = .declared d
    · obtain rfl : i = .declared d := by simpa [interfaces, htd, hx, his] using h
      exact ⟨htd ▸ .refl _, hd⟩
    · rw [interfaces, unchanged hs htd] at h
      exact ⟨.interface h, (hu.isInterface_of_mem h).2⟩
  | object t => exact ⟨.object t, trivial⟩
  | array href _ ih =>
    obtain ⟨h, hk⟩ := ih hs
    exact ⟨.array href h, hk⟩

end Undefined

/-- **A search that comes to an undefined interface may come to run in a circle.** -/
theorem exists_step_loops (hu : u.Reachable) (hs : u.Knows s) (ht : t.isInterface = true)
    (hst : s ≠ t) (hx : x.isInterface = true) (hn : u.isDefined x = false)
    (h : ReflTransGen (u.Enters t) s x) : ∃ v, u.Step v ∧ v.Loops s t := by
  obtain ⟨d, rfl⟩ := eq_declared_of_not_isDefined hn
  have hd : u.Declares d := knows_of_entered hu hs h
  obtain ⟨v, hstep, hnamed, hconforms⟩ := exists_step_selfNaming hd hn hu hx
  have henters {y z : TypeRef} (hyz : u.Enters t y z) : v.Enters t y z := by
    obtain ⟨front, back, hy, hzt, hfront⟩ := hyz
    have hzy : z ∈ u.named y := by simp [hy]
    refine ⟨front, back, ?_, hzt, fun w hw hwt => hfront w hw (hconforms w t ?_ hwt)⟩
    · rw [hstep.extends.named_eq hu (isDefined_of_mem_named hzy), hy]
    · have hwy : w ∈ u.named y := by simp [hy, hw]
      exact (hu.isInterface_of_named hwy).2
  have hself : v.Enters t (.declared d) (.declared d) :=
    ⟨[], [], hnamed, ne_of_entered hst h, by simp⟩
  refine ⟨v, hstep, (loops_iff (not_arrays_of_isInterface ht)).mpr
    ⟨hst, ht, .declared d, ?_, .single hself⟩⟩
  exact ReflTransGen.mono (fun _ _ => henters) _ _ h

/-- An interface that the search may still find is found later on, or the search is lost. -/
theorem exists_later_of_interface (hu : u.Reachable) (hs : u.Knows s) (ht : u.Knows t)
    (hti : t.isInterface = true) (hst : s ≠ t) (hpath : ReflTransGen (u.Enters t) s x)
    (hx : u.isDefined x = false) :
    ∃ v, u.Later v ∧ (v.Loops s t ∨ ¬ u.Conforms s t ∧ v.Conforms s t) := by
  by_cases hc : u.Conforms s t
  · have hxi : x.isInterface = true := by
      rcases hpath.cases_tail with rfl | ⟨_, -, h⟩
      · -- what is a subtype of an interface is defined
        obtain ⟨y, hy, -⟩ := TransGen.head'_iff.mp ((conforms_iff_named hu hti hst).mp hc)
        exact absurd (isDefined_of_mem_named hy) (by simp [hx])
      · exact (hu.isInterface_of_named h.mem_named).1
    obtain ⟨v, hv, hloops⟩ := exists_step_loops hu hs hti hst hxi hx hpath
    exact ⟨v, .single hv, .inl hloops⟩
  · obtain ⟨d, rfl⟩ := eq_declared_of_not_isDefined hx
    obtain ⟨v, hv, hdt⟩ := exists_step_naming (knows_of_entered hu hs hpath) hx hti ht
    exact ⟨v, .single hv, .inr ⟨hc, ((conforms_of_entered hu hpath).mono hv.extends).trans hdt⟩⟩

/-- A class that is not defined yet may come to derive from any class that may be a base, which is
defined first where it is not. -/
theorem exists_later_of_class (hs : u.Knows s) (ht : u.Knows t) (hst : s ≠ t)
    (hbase : u.MayBeBase t) (hclass : s.isClass = true) (hn : u.isDefined s = false) :
    ∃ v, u.Later v ∧ v.Conforms s t := by
  obtain ⟨d, rfl⟩ := eq_declared_of_not_isDefined hn
  by_cases hdt : u.isDefined t = true
  · obtain ⟨v, hv, hc⟩ := exists_step_deriving hs hn hclass hbase hdt ht hst.symm
    exact ⟨v, .single hv, hc⟩
  · obtain ⟨e, rfl⟩ := eq_declared_of_not_isDefined (by simpa using hdt)
    obtain ⟨x, hv, -, -, hflags⟩ := exists_step_outline none [] ht
      (by simpa using hdt) (by simp) rfl (by simp)
    have hstill : (u.define e x).isDefined (.declared d) = false :=
      (isDefined_define_of_ne x ht hs hst).trans hn
    have hbase' : (u.define e x).MayBeBase (.declared e) := by
      have hkind : e.kind = .classType := by
        simpa [TypeRef.isClass, TypeRef.hasKind] using hbase.1
      refine ⟨hbase.1, ?_⟩
      rw [flags, definition_define_self x ht, hflags, hkind]
      exact ⟨rfl, rfl⟩
    obtain ⟨w, hw, hc⟩ := exists_step_deriving (hv.extends.declares hs) hstill hclass hbase'
      (isDefined_define_self x ht) (hv.extends.declares ht) hst.symm
    exact ⟨w, .tail (.single hv) hw, hc⟩

/-- **What is open can change**: the search is lost later on, or what was no subtype is one. -/
theorem exists_later_of_open (hu : u.Reachable) (hs : u.Knows s) (ht : u.Knows t)
    (h : u.Open s t) :
    ∃ v, u.Later v ∧ (v.Loops s t ∨ ¬ u.Conforms s t ∧ v.Conforms s t) := by
  fun_induction Open u s t with
  | case1 s t ih =>
    obtain ⟨v, hv, hvst⟩ := ih hs ht h.2
    rcases hvst with hl | ⟨hn, hc⟩
    · exact ⟨v, hv, .inl ⟨h.1, hl⟩⟩
    · refine ⟨v, hv, .inr ⟨fun hst => ?_, .array h.1 hc⟩⟩
      rcases (conforms_array_iff hu).mp hst with rfl | ⟨-, hst⟩
      · exact hn (.refl _)
      · exact hn hst
  | case2 s t harr =>
    obtain ⟨hst, ⟨hti, x, hpath, hx⟩ | ⟨hobj, hbase, hclass, hn⟩⟩ := h
    · exact exists_later_of_interface hu hs ht hti hst hpath hx
    · obtain ⟨v, hv, hc⟩ := exists_later_of_class hs ht hst hbase hclass hn
      refine ⟨v, hv, .inr ⟨fun h => ?_, hc⟩⟩
      have hti : t.isInterface = false := eq_false_of_ne_true fun hi => by
        simpa using hbase.1.symm.trans (TypeRef.isClass_eq_false hi)
      rw [conforms_iff_reaches hu, reaches_iff_climbs harr, climbs_iff_of_not_isInterface hu hti
        (not_or.mpr ⟨hst, hobj⟩)] at h
      simp [definition_of_not_isDefined hn] at h

/-! ## Which answers are final -/

/-- An answer is final unless it is open. -/
theorem isSubtype?_final_iff (hu : u.Reachable) (hs : u.Knows s) (ht : u.Knows t)
    (hc : u.isSubtype? s t = some c) :
    (∀ v, u.Later v → v.isSubtype? s t = some c) ↔ ¬ u.Open s t := by
  constructor
  · intro hfinal ho
    obtain ⟨v, hv, hvst⟩ := exists_later_of_open hu hs ht ho
    obtain ⟨-, hanswer⟩ := (isSubtype?_eq_some_iff hu).mp hc
    obtain ⟨hnl, hlater⟩ := (isSubtype?_eq_some_iff (hv.reachable hu)).mp (hfinal v hv)
    rcases hvst with hl | ⟨hn, hst⟩
    · exact hnl hl
    · exact hn (hanswer.mp (hlater.mpr hst))
  · intro hno v hv
    obtain ⟨hl, hcf⟩ := settled_of_not_open hu (hv.reachable hu) hv.extends hs hno
    rw [isSubtype?_congr hu (hv.reachable hu) hl hcf, hc]

/-- Whether a value is accepted is a question about its type. -/
theorem accepts?_eq_isSubtype? {x : Value} {r : TypeRef} (hr : x.runtimeType? = some r)
    (t : TypeRef) : u.accepts? t x = u.isSubtype? r t.core := by
  induction t with
  | nullable t ih => cases x <;> first | exact ih | simp [Value.runtimeType?] at hr
  | _ => cases x <;> simp_all [accepts?, TypeRef.core, Value.runtimeType?]

theorem knows_core (ht : u.Knows t) : u.Knows t.core := by
  induction t with
  | nullable t ih => exact ih ht
  | _ => exact ht

/-- **Which answers are final**: an answer stays as it is in every later universe exactly when it is
not open, and so does an answer about a value exactly when the one about its type is not open.  An
answer that is `true` never becomes `false`. -/
theorem answers_final_iff (hu : u.Reachable) (ha : u.Knows a) (hb : u.Knows b) :
    (∀ c, u.isSubtype? a b = some c →
      ((∀ v, u.Later v → v.isSubtype? a b = some c) ↔ ¬ u.Open a b)) ∧
    (∀ x c, (∀ r ∈ x.runtimeType?, u.Knows r) → u.accepts? b x = some c →
      ((∀ v, u.Later v → v.accepts? b x = some c) ↔
        ∀ r ∈ x.runtimeType?, ¬ u.Open r b.core)) ∧
    ∀ v, u.Later v → u.isSubtype? a b = some true → v.isSubtype? a b ≠ some false := by
  refine ⟨fun c => isSubtype?_final_iff hu ha hb, fun x c hx hc => ?_, fun v hv hab hab' => ?_⟩
  · cases hr : x.runtimeType? with
    | none =>
      -- null is accepted or not by the kind of the type alone
      obtain rfl := Value.runtimeType?_eq_none.mp hr
      refine iff_of_true (fun v _ => ?_) (by simp)
      rw [← hc]
      cases b <;> rfl
    | some r =>
      simp only [Option.mem_def, Option.some.injEq, forall_eq']
      simp only [accepts?_eq_isSubtype? hr] at hc ⊢
      exact isSubtype?_final_iff hu (hx r hr) (knows_core hb) hc
  · obtain ⟨-, hab⟩ := (isSubtype?_eq_some_iff hu).mp hab
    obtain ⟨-, hab'⟩ := (isSubtype?_eq_some_iff (hv.reachable hu)).mp hab'
    exact Bool.false_ne_true (hab'.mpr ((hab.mp rfl).mono hv.extends))

/-- The types with a defined interface `K`, a declared one `I`, and a class `C` that names `I`. -/
def namingEarly : Universe Unit :=
  ((((empty.declare .interfaceType "K").defineBy (outline ⟨0, .interfaceType, "K"⟩ none [])).declare
    .interfaceType "I").declare .classType "C").defineBy
      (outline ⟨2, .classType, "C"⟩ none [.declared ⟨1, .interfaceType, "I"⟩])

/-- The same types once `I` is defined, naming `K`. -/
def namingLate : Universe Unit :=
  namingEarly.defineBy (outline ⟨1, .interfaceType, "I"⟩ none [.declared ⟨0, .interfaceType, "K"⟩])

theorem reachable_namingEarly : namingEarly.Reachable :=
  .defineBy (.declare _ _ (.declare _ _ (.defineBy (.declare _ _ .empty) (by decide) rfl (by decide)
    rfl))) (by decide) rfl (by decide) rfl

/-- Whether `C` is a `K` is open as long as `I` is not defined. -/
theorem answers_final_iff_namingEarly :
    ¬ ∀ v, namingEarly.Later v → v.isSubtype? (.declared ⟨2, .classType, "C"⟩)
      (.declared ⟨0, .interfaceType, "K"⟩) = some false := by
  rw [(answers_final_iff reachable_namingEarly (by decide) (by decide)).1 false (by decide)]
  refine not_not.mpr ⟨by decide, .inl ⟨rfl, .declared ⟨1, .interfaceType, "I"⟩, ?_, rfl⟩⟩
  exact .single ⟨[], [], by decide, by decide, by simp⟩

/-- **Not every answer about defined types is final**: `C` and `K` are defined, yet `C` becomes a `K`
later, and `K` comes to accept the instances of `C`. -/
theorem not_every_answer_final :
    namingEarly.Reachable ∧ namingEarly.Later namingLate ∧
      namingEarly.isDefined (.declared ⟨2, .classType, "C"⟩) = true ∧
      namingEarly.isDefined (.declared ⟨0, .interfaceType, "K"⟩) = true ∧
      namingEarly.isSubtype? (.declared ⟨2, .classType, "C"⟩)
        (.declared ⟨0, .interfaceType, "K"⟩) = some false ∧
      namingLate.isSubtype? (.declared ⟨2, .classType, "C"⟩)
        (.declared ⟨0, .interfaceType, "K"⟩) = some true ∧
      namingEarly.accepts? (.declared ⟨0, .interfaceType, "K"⟩)
        (.object ⟨.declared ⟨2, .classType, "C"⟩, 0⟩) = some false ∧
      namingLate.accepts? (.declared ⟨0, .interfaceType, "K"⟩)
        (.object ⟨.declared ⟨2, .classType, "C"⟩, 0⟩) = some true :=
  ⟨reachable_namingEarly, later_defineBy (by decide) rfl (by decide) rfl, rfl, rfl, by decide,
    by decide, by decide, by decide⟩

end Universe
end Reflection
