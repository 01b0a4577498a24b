import Reflection.Call.View
import Reflection.Proofs.Call.OwnMembers
import Reflection.Proofs.Call.StaticTarget

/-!
# Proofs/Call/ViewUse — a view in use

    empty  ──Moves──▸ ⋯ ──Moves──▸  w      w.Stocked : what is kept was built of its type
                                    │
    an instance  ──Opened──▸  view  ──Step──▸ ⋯ ──Step──▸  view      view.Fitting : it has an
                                                                     instance of its type

A view is opened on an instance of its snapshot's type, and only the code behind a property can make
the instance into something else.  As long as what such code leaves is an instance of the same type,
no member that the view reaches finds it unsuitable, whatever else has become of the world.
-/

namespace Reflection

open Relation

variable {β : Type}

/-! ## Worlds in which code runs -/

namespace World

variable {w w' : World β} {t : TypeRef}

/-- **What becomes of a world in which code runs**, as far as types and kept snapshots go. -/
inductive Moves (w : World β) : World β → Prop
  | step {w' : World β} (h : Step w w') : Moves w w'
  | rest {w' : World β} (htypes : w'.types = w.types) (hcache : w'.cache = w.cache) : Moves w w'

/-- What a world keeps: the snapshots of its past, each of the type that it is kept under. -/
structure Stocked (w : World β) : Prop where
  types : w.types.Reachable
  provider : w.cache.provider.KeepsToLine
  kept : ∀ {t f issue}, w.cache.find? (t, f) = some issue →
    issue.snapshot.type = t ∧ issue.snapshot.Taken w.types

theorem stocked_empty : (empty : World β).Stocked where
  types := .empty
  provider := Provider.keepsToLine_reflector
  kept h := by cases h

namespace Stocked

/-- Types may come and be defined. -/
theorem grow (h : w.Stocked) (hu : w'.types.Reachable) (hgrown : w.types.Extends w'.types)
    (hcache : w'.cache = w.cache) : w'.Stocked where
  types := hu
  provider := hcache ▸ h.provider
  kept {t f issue} hfound := by
    rw [hcache] at hfound
    obtain ⟨htype, htaken⟩ := h.kept hfound
    exact ⟨htype, htaken.mono hgrown⟩

/-- A snapshot that is built now is of the type asked for. -/
theorem build (h : w.Stocked) (ht : w.types.Knows t) (f : MemberFilter) :
    (w.cache.build w.types (t, f)).type = t ∧ (w.cache.build w.types (t, f)).Taken w.types :=
  ⟨rfl, Snapshot.taken_build h.provider h.types (.refl _) ht f⟩

/-- **What is handed out is of the type asked for**, kept or new. -/
theorem snapshot (h : w.Stocked) (ht : w.types.Knows t) (f : MemberFilter) :
    (w.snapshot t f).1.snapshot.type = t ∧ (w.snapshot t f).1.snapshot.Taken w.types := by
  have hout : (w.snapshot t f).1 = (w.cache.find? (t, f)).getD
      ⟨w.nextIssue, w.cache.build w.types (t, f)⟩ := Cache.request_fst ..
  rw [hout]
  cases hfound : w.cache.find? (t, f) with
  | some issue => exact h.kept hfound
  | none => exact h.build ht f

/-- And it is kept from then on. -/
theorem request (h : w.Stocked) (ht : w.types.Knows t) (f : MemberFilter) :
    (w.snapshot t f).2.Stocked where
  types := h.types
  provider := (Cache.provider_request ..).symm ▸ h.provider
  kept {t' f' issue} hfound := by
    rcases Cache.kept_or_new_of_request hfound with hkept | ⟨hkey, rfl⟩
    · exact h.kept hkept
    · obtain ⟨rfl, rfl⟩ := Prod.mk.inj hkey
      exact h.build ht _

/-- **Every move keeps it so**, and no type is lost. -/
theorem move (h : w.Stocked) (hmove : w.Moves w') : w'.Stocked ∧ w.types.Extends w'.types := by
  cases hmove with
  | rest htypes hcache =>
    have hgrown : w.types.Extends w'.types := htypes ▸ .refl _
    exact ⟨h.grow (htypes ▸ h.types) hgrown hcache, hgrown⟩
  | step hstep =>
    rcases hstep.grows_or_asks h.types with ⟨hu, hgrown, hcache⟩ | ⟨t, f, ht, rfl⟩
    · exact ⟨h.grow hu hgrown hcache, hgrown⟩
    · exact ⟨h.request ht f, .refl _⟩

/-- **So do any number of moves.** -/
theorem run (h : w.Stocked) (hrun : ReflTransGen Moves w w') :
    w'.Stocked ∧ w.types.Extends w'.types := by
  induction hrun with
  | refl => exact ⟨h, .refl _⟩
  | tail _ hmove ih =>
    obtain ⟨hstocked, hgrown⟩ := ih.1.move hmove
    exact ⟨hstocked, ih.2.trans hgrown⟩

end Stocked

end World

/-! ### Code -/

/-- **Code that stays within a host**: to types and kept snapshots it does what a host can do. -/
def Evaluator.Confined (run : Evaluator β) : Prop :=
  ∀ (callable : Callable β) (target : Value) {n : ℕ} (args : Vector Value n) (w : World β),
    ReflTransGen World.Moves w (run callable target args w).world

section Confined

variable {run : Evaluator β} {w : World β} {v : Value}

theorem Method.moves_invoke (hrun : run.Confined) (m : Method β) (args : List Value) :
    ReflTransGen World.Moves w (m.invoke run v args w).world := by
  rw [invoke]
  cases m.prepare w.types v args with
  | error e => exact .refl
  | ok ready =>
    have hworld {n : ℕ} (m : Method β) (x : Value) (xs : Vector Value n) (w : World β) :
        (activate run m x xs w).world = (run (.method m) x xs w).world := by
      unfold activate
      cases m.id.role <;> rfl
    refine .head (b := { w with store := (ready.2.place w.store).2 }) (.rest rfl rfl) ?_
    dsimp only
    rw [hworld]
    exact hrun ..

theorem Property.moves_read (hrun : run.Confined) (p : Property β) :
    ReflTransGen World.Moves w (p.read run w v).2 := by
  rw [read]
  cases p.accessor .getter v with
  | error e => exact .refl
  | ok m => exact m.moves_invoke hrun []

theorem Property.moves_write (hrun : run.Confined) (p : Property β) (x : Value) :
    ReflTransGen World.Moves w (p.write run w v x).world := by
  rw [write]
  cases p.accessor .setter v with
  | error e => exact .refl
  | ok m => exact m.moves_invoke hrun [x]

theorem Field.moves_write (f : Field) (x : Value) :
    ReflTransGen World.Moves w (f.write w v x).world := by
  rw [write]
  cases f.checkWrite w.types v x with
  | error e => exact .refl
  | ok _ =>
    dsimp only
    split_ifs
    exacts [.single (.rest rfl rfl), .single (.rest rfl rfl)]

theorem Accessor.moves_read (hrun : run.Confined) (a : Accessor β) :
    ReflTransGen World.Moves w (a.read run w v).2 := by
  cases a with
  | field f => exact .refl
  | property p => exact p.moves_read hrun

theorem Accessor.moves_write (hrun : run.Confined) (a : Accessor β) (x : Value) :
    ReflTransGen World.Moves w (a.write run w v x).world := by
  cases a with
  | field f => exact f.moves_write x
  | property p => exact p.moves_write hrun x

end Confined

/-! ## Instances that are written to -/

section Write

variable {u : Universe β}

/-- Setting a slot leaves an instance of the same type and form. -/
theorem Store.setSlot_keeps (s : Store) (v : Value) (k : ℕ) (x : Value) :
    (s.setSlot v k x).1.runtimeType? = v.runtimeType? ∧
      (v.WellFormed u → (s.setSlot v k x).1.WellFormed u) := by
  cases v with
  | struct t slots =>
    refine ⟨rfl, fun h => ⟨h.knows, ?_, ?_, ?_⟩⟩
    · rintro r ⟨⟩
    · rintro _ _ ⟨⟩
      exact h.struct t slots rfl
    · rintro _ _ ⟨⟩
  | _ => exact ⟨rfl, id⟩

/-- **So does writing a field.** -/
theorem Field.write_keeps (f : Field) (w : World β) (v x : Value) :
    (f.write w v x).target.runtimeType? = v.runtimeType? ∧
      (v.WellFormed u → (f.write w v x).target.WellFormed u) := by
  rw [write]
  cases f.checkWrite w.types v x with
  | error e => exact ⟨rfl, fun h => h⟩
  | ok _ =>
    dsimp only
    split_ifs
    exacts [⟨rfl, fun h => h⟩, w.store.setSlot_keeps v f.slot x]

end Write

/-! ## Views -/

namespace ObjectView

variable {run : Evaluator β} {view view' : ObjectView β} {u : Universe β}
  {w w' : World β} {v x : Value}

/-- **No use of a view blames its instance.** -/
structure Serves (run : Evaluator β) (view : ObjectView β) (w : World β) : Prop where
  readField : ∀ name, Suits (view.readField run name w).1
  readProperty : ∀ name, Suits (view.readProperty run name w).1
  writeField : ∀ name x, Suits (view.writeField run name x w).result
  writeProperty : ∀ name x, Suits (view.writeProperty run name x w).result

theorem suits_readIn {members : MemberCollection β} (name : String)
    (h : ∀ a ∈ members.members, Suits (a.read run w view.subject).1) :
    Suits (view.readIn run members name w).1 := by
  rw [readIn]
  cases hfound : members.get? name with
  | none => exact .ok _
  | some a => exact (h a (List.mem_of_find?_eq_some hfound)).map _

theorem suits_writeIn {members : MemberCollection β} (name : String)
    (h : ∀ a ∈ members.members, Suits (a.write run w view.subject x).result) :
    Suits (view.writeIn run members name x w).result := by
  rw [writeIn]
  cases hfound : members.get? name with
  | none => exact .ok _
  | some a => exact (h a (List.mem_of_find?_eq_some hfound)).map _

/-- A snapshot that serves an instance makes views that do. -/
theorem serves_of_snapshot (h : view.snapshot.Serves run w view.subject) : view.Serves run w where
  readField name := suits_readIn name fun a ha => h.get a (.inl ha)
  readProperty name := suits_readIn name fun a ha => h.get a (.inr ha)
  writeField name x := suits_writeIn name fun a ha => h.set a (.inl ha) x
  writeProperty name x := suits_writeIn name fun a ha => h.set a (.inr ha) x

theorem moves_readIn (hrun : run.Confined) (view : ObjectView β) (members : MemberCollection β)
    (name : String) : ReflTransGen World.Moves w (view.readIn run members name w).2 := by
  rw [readIn]
  cases members.get? name with
  | none => exact .refl
  | some a => exact a.moves_read hrun

theorem moves_writeIn (hrun : run.Confined) (view : ObjectView β) (members : MemberCollection β)
    (name : String) (x : Value) :
    ReflTransGen World.Moves w (view.writeIn run members name x w).world := by
  rw [writeIn]
  cases members.get? name with
  | none => exact .refl
  | some a => exact a.moves_write hrun x

/-- A write changes nothing of a view but its instance. -/
theorem view_writeIn (view : ObjectView β) (members : MemberCollection β) (name : String)
    (x : Value) : (view.writeIn run members name x w).view =
      { view with subject := (view.writeIn run members name x w).view.subject } := by
  rw [writeIn]
  cases members.get? name <;> rfl

/-- **A view of an instance of its type.** -/
structure Fitting (view : ObjectView β) (u : Universe β) : Prop where
  taken : view.snapshot.Taken u
  formed : view.subject.WellFormed u
  present : view.subject ≠ .null
  accepted : u.accepts view.snapshot.type view.subject = true

/-- How a view comes about: through the snapshot kept for the type of the instance, or through any
snapshot of the past whose type accepts the instance. -/
inductive Opened (v : Value) (w : World β) : ObjectView β → World β → Prop
  | ofInstance {f : MemberFilter} {view : ObjectView β} {w' : World β}
      (h : ObjectView.ofInstance v f w = .ok (view, w')) : Opened v w view w'
  | bind {s : Snapshot β} {view : ObjectView β} (hs : s.Taken w.types)
      (h : ObjectView.bind s v w.types = .ok view) : Opened v w view w

/-- **One step in the life of a view**: it is used, or something else happens in its world.  What
writes a property leaves a well-formed instance of the same type. -/
inductive Step (run : Evaluator β) : ObjectView β × World β → ObjectView β × World β → Prop
  | other (view : ObjectView β) {w w' : World β} (h : w.Moves w') : Step run (view, w) (view, w')
  | readField (view : ObjectView β) (w : World β) (name : String) :
      Step run (view, w) (view, (view.readField run name w).2)
  | readProperty (view : ObjectView β) (w : World β) (name : String) :
      Step run (view, w) (view, (view.readProperty run name w).2)
  | writeField (view : ObjectView β) (w : World β) (name : String) (x : Value) :
      Step run (view, w)
        ((view.writeField run name x w).view, (view.writeField run name x w).world)
  | writeProperty (view : ObjectView β) (w : World β) (name : String) (x : Value)
      (htype : (view.writeProperty run name x w).view.subject.runtimeType? =
        view.subject.runtimeType?)
      (hform : (view.writeProperty run name x w).view.subject.WellFormed
        (view.writeProperty run name x w).world.types) :
      Step run (view, w)
        ((view.writeProperty run name x w).view, (view.writeProperty run name x w).world)

namespace Fitting

/-- A fitting view serves. -/
theorem serves (h : view.Fitting w.types) (hw : w.Stocked) (run : Evaluator β) :
    view.Serves run w :=
  serves_of_snapshot (h.taken.serves hw.types h.formed h.present h.accepted run)

/-- It stays fitting while types come and are defined, -/
theorem mono (h : view.Fitting w.types) (hw : w.Stocked) (hw' : w'.Stocked)
    (hgrown : w.types.Extends w'.types) : view.Fitting w'.types where
  taken := h.taken.mono hgrown
  formed := h.formed.mono hgrown
  present := h.present
  accepted := Universe.accepts_mono hw.types hw'.types hgrown h.accepted

/-- and with another instance of the same type in place of its own. -/
theorem replace (h : view.Fitting u) (htype : x.runtimeType? = view.subject.runtimeType?)
    (hform : x.WellFormed u) : Fitting { view with subject := x } u where
  taken := h.taken
  formed := hform
  present := by
    have hsome := mt Value.runtimeType?_eq_none.mp h.present
    rw [← htype] at hsome
    exact mt Value.runtimeType?_eq_none.mpr hsome
  accepted := (Universe.accepts_congr htype).trans h.accepted

/-- **A view is opened on an instance of its type.** -/
theorem opened (hw : w.Stocked) (hform : v.WellFormed w.types) (h : Opened v w view w') :
    view.Fitting w'.types ∧ w'.Stocked := by
  cases h with
  | @ofInstance f _ _ h =>
    rw [ofInstance] at h
    cases ht : v.runtimeType? with
    | none => simp [ht] at h
    | some t =>
      rw [ht] at h
      obtain ⟨rfl, rfl⟩ := Prod.mk.inj (Except.ok.inj h)
      have hk := hform.knows t ht
      obtain ⟨htype, htaken⟩ := hw.snapshot hk f
      refine ⟨⟨htaken, hform, ?_, ?_⟩, hw.request hk f⟩
      · rintro rfl
        cases ht
      · rw [htype]
        exact Universe.accepts_own hform ht
  | bind hs h =>
    rw [bind] at h
    split_ifs at h with hnull hacc
    obtain rfl := Except.ok.inj h
    exact ⟨⟨hs, hform, mt Value.isNull_iff.mpr hnull, hacc⟩, hw⟩

/-- Whatever moves the world, the view stays fitting. -/
theorem moved (h : view.Fitting w.types) (hw : w.Stocked)
    (hmoves : ReflTransGen World.Moves w w') : view.Fitting w'.types ∧ w'.Stocked := by
  obtain ⟨hw', hgrown⟩ := hw.run hmoves
  exact ⟨h.mono hw hw' hgrown, hw'⟩

/-- Writing a field leaves an instance of the same type and form. -/
theorem writeField_keeps (h : view.Fitting u) (run : Evaluator β) (w : World β) (name : String)
    (x : Value) :
    (view.writeField run name x w).view.subject.runtimeType? = view.subject.runtimeType? ∧
      ∀ {v : Universe β}, view.subject.WellFormed v →
        (view.writeField run name x w).view.subject.WellFormed v := by
  rw [writeField, writeIn]
  cases hfound : view.snapshot.fields.get? name with
  | none => exact ⟨rfl, fun hform => hform⟩
  | some a =>
    obtain ⟨f, rfl, -⟩ := h.taken.exists_field (List.mem_of_find?_eq_some hfound)
    exact ⟨(f.write_keeps (u := u) w view.subject x).1,
      fun hform => (f.write_keeps w view.subject x).2 hform⟩

/-- **Every step leaves a fitting view.** -/
theorem step (hrun : run.Confined) (h : view.Fitting w.types) (hw : w.Stocked)
    (hstep : Step run (view, w) (view', w')) : view'.Fitting w'.types ∧ w'.Stocked := by
  cases hstep with
  | other _ hmove => exact h.moved hw (.single hmove)
  | readField _ _ name => exact h.moved hw (moves_readIn hrun ..)
  | readProperty _ _ name => exact h.moved hw (moves_readIn hrun ..)
  | writeField _ _ name x =>
    obtain ⟨htype, hform⟩ := h.writeField_keeps run w name x
    obtain ⟨hfit, hw'⟩ := h.moved hw (moves_writeIn hrun view view.snapshot.fields name x)
    exact ⟨view_writeIn view view.snapshot.fields name x ▸ hfit.replace htype (hform hfit.formed),
      hw'⟩
  | writeProperty _ _ name x htype hform =>
    obtain ⟨hfit, hw'⟩ := h.moved hw (moves_writeIn hrun view view.snapshot.properties name x)
    exact ⟨view_writeIn view view.snapshot.properties name x ▸ hfit.replace htype hform, hw'⟩

/-- **So do any number of steps.** -/
theorem steps (hrun : run.Confined) (h : view.Fitting w.types) (hw : w.Stocked)
    (hsteps : ReflTransGen (Step run) (view, w) (view', w')) :
    view'.Fitting w'.types ∧ w'.Stocked := by
  suffices ∀ scene, ReflTransGen (Step run) (view, w) scene →
      scene.1.Fitting scene.2.types ∧ scene.2.Stocked from this _ hsteps
  intro scene hsteps
  induction hsteps with
  | refl => exact ⟨h, hw⟩
  | tail _ hstep ih => exact ih.1.step hrun ih.2 hstep

end Fitting

end ObjectView

/-! ## Instances and their own members -/

/-- **Members suit the instances of their type.**  No access and no call of a member of a snapshot
blames a well-formed instance that the type of the snapshot accepts.  So no view that is opened on a
well-formed instance ever blames it, whatever confined code makes of the world. -/
theorem members_suit_own_instances (run : Evaluator β) :
    (∀ (s : Snapshot β) (w : World β) (v : Value), w.types.Reachable → s.Taken w.types →
      v.WellFormed w.types → v ≠ .null → w.types.accepts s.type v = true → s.Serves run w v) ∧
    (run.Confined → ∀ (w w₀ w' : World β) (v : Value) (view₀ view : ObjectView β),
      ReflTransGen World.Moves .empty w → v.WellFormed w.types →
      ObjectView.Opened v w view₀ w₀ →
      ReflTransGen (ObjectView.Step run) (view₀, w₀) (view, w') → view.Serves run w') := by
  refine ⟨fun s w v hu htaken hform hv hacc => htaken.serves hu hform hv hacc run, ?_⟩
  intro hrun w w₀ w' v view₀ view hworld hform hopened hlife
  obtain ⟨hw, -⟩ := World.stocked_empty.run hworld
  obtain ⟨hfit₀, hw₀⟩ := ObjectView.Fitting.opened hw hform hopened
  obtain ⟨hfit, hw'⟩ := hfit₀.steps hrun hw₀ hlife
  exact hfit.serves hw' run

/-! ### A class with a property -/

/-- A class with a field and a property. -/
def counterClass : Blueprint Unit where
  target := ⟨0, .classType, "Counter"⟩
  fields := [{ name := "count", type := .primitive .i32 }]
  properties := [{ name := "Count", type := .primitive .i32, getter? := some (),
                   setter? := some () }]

/-- The world in which the class is declared. -/
def counterDeclared : World Unit := (World.empty.declare .classType "Counter").2

/-- The world in which it is defined, too. -/
def counterDefined : World Unit :=
  (counterDeclared.define counterClass).toOption.getD counterDeclared

/-- An instance of the class. -/
def counter : Value := .object ⟨counterClass.self, 0⟩

/-- The view of the instance through the snapshot kept for everyone. -/
def counterView : ObjectView Unit :=
  ⟨(counterDefined.snapshot counterClass.self .all).1.snapshot, counter⟩

/-- The world in which the snapshot is kept. -/
def counterKept : World Unit := (counterDefined.snapshot counterClass.self .all).2

theorem moves_counterDefined : ReflTransGen World.Moves .empty counterDefined :=
  .tail (.single (.step (.declare .classType "Counter")))
    (.step (.define (b := counterClass) (by decide) rfl (by decide) rfl))

theorem wellFormed_counter : counter.WellFormed counterDefined.types where
  knows := by
    rintro _ ⟨⟩
    decide
  object := by
    rintro _ ⟨⟩
    rfl
  struct := by rintro _ _ ⟨⟩
  enum := by rintro _ _ ⟨⟩

/-- Nothing blames the instance, not even once its property has been written. -/
theorem members_suit_own_instances_counter :
    counterView.snapshot.Serves .idle counterDefined counter ∧
      (counterView.writeProperty .idle "Count" (.i32 1) counterKept).view.Serves .idle
        (counterView.writeProperty .idle "Count" (.i32 1) counterKept).world := by
  have hw := (World.stocked_empty.run moves_counterDefined).1
  have htaken : counterView.snapshot.Taken counterDefined.types :=
    (hw.snapshot (wellFormed_counter.knows _ rfl) .all).2
  have hopened : ObjectView.Opened counter counterDefined counterView counterKept :=
    .ofInstance (f := .all) rfl
  have hconfined : (Evaluator.idle : Evaluator Unit).Confined := fun _ _ _ _ _ => .refl
  refine ⟨(members_suit_own_instances .idle).1 counterView.snapshot counterDefined counter hw.types
    htaken wellFormed_counter nofun rfl, ?_⟩
  exact (members_suit_own_instances .idle).2 hconfined counterDefined counterKept _ counter
    counterView _ moves_counterDefined wellFormed_counter hopened
    (.single (.writeProperty _ _ _ _ rfl wellFormed_counter))

end Reflection
