import Reflection.Call.Access

/-!
# Call/View — an instance seen through a snapshot

A view reads and writes the members of one instance by name.  A name that the snapshot does not
bind is no error: reading gives nothing and writing does nothing.
-/

namespace Reflection

/-- An instance with the snapshot to see it through. -/
structure ObjectView (β : Type) where
  snapshot : Snapshot β
  subject : Value

namespace ObjectView

variable {β : Type}

/-- The view of an instance through the snapshot of its type kept for everyone. -/
def ofInstance (v : Value) (f : MemberFilter) (w : World β) :
    Except EngineError (ObjectView β × World β) :=
  match v.runtimeType? with
  | none => .error (.nullArgument "instance")
  | some t => .ok (⟨(w.snapshot t f).1.snapshot, v⟩, (w.snapshot t f).2)

/-- The view of an instance through a given snapshot, whose type must take the instance. -/
def bind (s : Snapshot β) (v : Value) (u : Universe β) : Except EngineError (ObjectView β) :=
  if v.isNull then .error (.nullArgument "instance")
  else if u.accepts s.type v then .ok ⟨s, v⟩
  else .error (Binding.mismatch s.type v)

/-- Reading one of the members of a collection. -/
def readIn (run : Evaluator β) (view : ObjectView β) (members : MemberCollection β) (name : String)
    (w : World β) : Except EngineError (Option Value) × World β :=
  match members.get? name with
  | none => (.ok none, w)
  | some a =>
    let (r, w) := a.read run w view.subject
    (r.map some, w)

/-- What a write through a view leaves behind. -/
structure Stored (β : Type) where
  /-- Whether there was such a member. -/
  result : Except EngineError Bool
  view : ObjectView β
  world : World β

/-- Writing one of the members of a collection. -/
def writeIn (run : Evaluator β) (view : ObjectView β) (members : MemberCollection β) (name : String)
    (v : Value) (w : World β) : Stored β :=
  match members.get? name with
  | none => ⟨.ok false, view, w⟩
  | some a =>
    let r := a.write run w view.subject v
    ⟨r.result.map fun _ => true, { view with subject := r.target }, r.world⟩

/-- Reading a field. -/
def readField (run : Evaluator β) (view : ObjectView β) (name : String) (w : World β) :
    Except EngineError (Option Value) × World β :=
  view.readIn run view.snapshot.fields name w

/-- Reading a property. -/
def readProperty (run : Evaluator β) (view : ObjectView β) (name : String) (w : World β) :
    Except EngineError (Option Value) × World β :=
  view.readIn run view.snapshot.properties name w

/-- Writing a field. -/
def writeField (run : Evaluator β) (view : ObjectView β) (name : String) (v : Value)
    (w : World β) : Stored β :=
  view.writeIn run view.snapshot.fields name v w

/-- Writing a property. -/
def writeProperty (run : Evaluator β) (view : ObjectView β) (name : String) (v : Value)
    (w : World β) : Stored β :=
  view.writeIn run view.snapshot.properties name v w

end ObjectView

end Reflection
