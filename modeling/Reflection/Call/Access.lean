import Reflection.Call.Invocation
import Reflection.Member.Accessor

/-!
# Call/Access — reading and writing members

A field is read from and written to the slot that its declaration assigned: of an object of a type
below the declaring one, of a structure of exactly that type, or of the declaring type itself.  A
property is read and written by calling its accessors; reading works on a copy of the target.
-/

namespace Reflection

variable {β : Type}

/-- What a write leaves behind. -/
structure Written (β : Type) where
  result : Except EngineError Unit
  target : Value
  world : World β

namespace Field

/-- What makes a constant read-only. -/
def readOnlyReason (f : Field) : ReadOnlyReason :=
  if f.declaring.isEnum then .enumValue else .literal

/-- Whether a value holds the slot of an instance field. -/
def ownedBy (f : Field) (u : Universe β) : Value → Bool
  | .object r => u.isSubtype r.type f.declaring
  | .struct t _ => t = f.declaring
  | _ => false

/-- An instance field needs a target that holds its slot. -/
def checkTarget (f : Field) (u : Universe β) (target : Value) : Except EngineError Unit :=
  if target.isNull then .error (.targetRequired f.name)
  else if f.ownedBy u target then .ok ()
  else .error (.wrongTarget f.name f.declaring.name target.typeName)

/-- A field takes the values of its type. -/
def checkValue (f : Field) (u : Universe β) (v : Value) : Except EngineError Unit :=
  if u.accepts f.type v then .ok () else .error (Binding.mismatch f.type v)

/-- Reading a field; a slot that is not there reads as null. -/
def read (f : Field) (w : World β) (target : Value) : Except EngineError Value :=
  match f.constant? with
  | some v => .ok v
  | none =>
    if f.isStatic then .ok ((w.store.readStatic? f.declaring f.slot).getD .null)
    else do
      f.checkTarget w.types target
      return (w.store.slot? target f.slot).getD .null

/-- Whether a field may be written on a target with a value. -/
def checkWrite (f : Field) (u : Universe β) (target v : Value) : Except EngineError Unit := do
  if f.isLiteral then .error (.notWritable f.name f.readOnlyReason)
  if !f.isStatic then f.checkTarget u target
  f.checkValue u v

/-- Writing a field; a slot that is not there stays so. -/
def write (f : Field) (w : World β) (target v : Value) : Written β :=
  match f.checkWrite w.types target v with
  | .error e => ⟨.error e, target, w⟩
  | .ok () =>
    if f.isStatic then
      ⟨.ok (), target, { w with store := w.store.writeStatic f.declaring f.slot v }⟩
    else
      let (target, store) := w.store.setSlot target f.slot v
      ⟨.ok (), target, { w with store := store }⟩

end Field

namespace Property

/-- The accessor to call: an instance property needs a target, and the accessor must be there. -/
def accessor (p : Property β) (kind : AccessorKind) (target : Value) :
    Except EngineError (Method β) :=
  if !p.isStatic && target.isNull then .error (.targetRequired p.name)
  else match (match kind with | .getter => p.getter? | .setter => p.setter?) with
    | none => .error (.noAccessor p.name kind)
    | some m => .ok m

/-- Reading a property. -/
def read (run : Evaluator β) (p : Property β) (w : World β) (target : Value) :
    Except EngineError Value × World β :=
  match p.accessor .getter target with
  | .error e => (.error e, w)
  | .ok m =>
    let c := m.invoke run target [] w
    (c.result, c.world)

/-- Writing a property. -/
def write (run : Evaluator β) (p : Property β) (w : World β) (target v : Value) : Written β :=
  match p.accessor .setter target with
  | .error e => ⟨.error e, target, w⟩
  | .ok m =>
    let c := m.invoke run target [v] w
    ⟨c.result.map fun _ => (), c.target, c.world⟩

end Property

namespace Accessor

/-- Reading a member; the target is left as it is. -/
def read (run : Evaluator β) (a : Accessor β) (w : World β) (target : Value) :
    Except EngineError Value × World β :=
  match a with
  | field f => (f.read w target, w)
  | property p => p.read run w target

/-- Writing a member. -/
def write (run : Evaluator β) (a : Accessor β) (w : World β) (target v : Value) : Written β :=
  match a with
  | field f => f.write w target v
  | property p => p.write run w target v

end Accessor

end Reflection
