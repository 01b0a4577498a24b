/-!
# Call/Error — why a call, an access or a construction is refused

`EngineError` names each cause; a cause that a body raised itself is a `Failure`, and a failure may
in turn be an error of a call that the body made.  `EngineError.message` is the one place where
causes become text.
-/

namespace Reflection

/-- Why a member is read-only. -/
inductive ReadOnlyReason where
  | literal
  | enumValue
deriving DecidableEq, Repr

/-- The two accessors of a property. -/
inductive AccessorKind where
  | getter
  | setter
deriving DecidableEq, Repr

mutual

/-- Why a call, an access or a construction did not succeed. -/
inductive EngineError where
  | nullArgument (name : String)
  | typeMismatch (expected found : String)
  | noAccessor (member : String) (kind : AccessorKind)
  | notWritable (member : String) (reason : ReadOnlyReason)
  | targetRequired (member : String)
  | wrongTarget (member expected found : String)
  /-- The expected number is a lower bound for a variadic callable. -/
  | parameterCount (member : String) (expected found : Nat) (variadic : Bool)
  /-- The callable belongs to an open generic definition. -/
  | notInstantiable (member : String)
  | noMatchingConstructor (type : String)
  | noDefaultConstructor (type : String)
  | noCopyConstructor (type : String)
  | ambiguousMatch (type : String) (candidates : Nat)
  | notConstructible (type : String)
  /-- The body of a method or accessor failed. -/
  | invocationRaised (member : String) (cause : Failure)
  /-- The body of a constructor failed. -/
  | constructionRaised (type : String) (cause : Failure)
  | notAnAttributeType (type : String)

/-- How a body fails. -/
inductive Failure where
  /-- With a text of its own. -/
  | raised (text : String)
  /-- With the error of a call it made. -/
  | refused (error : EngineError)

end

instance : Inhabited Failure := ⟨.raised ""⟩

instance : Inhabited EngineError := ⟨.nullArgument ""⟩

def ReadOnlyReason.message : ReadOnlyReason → String
  | literal => "member is a constant"
  | enumValue => "cannot set enumeration value"

def AccessorKind.name : AccessorKind → String
  | getter => "getter"
  | setter => "setter"

mutual

/-- The text of an error. -/
def EngineError.message : EngineError → String
  | .nullArgument name => s!"Argument `{name}` is required"
  | .typeMismatch expected found => s!"Type mismatch: expected {expected}, found {found}"
  | .noAccessor member kind => s!"No {kind.name} for property `{member}`"
  | .notWritable member reason => s!"Member `{member}` is not writable: {reason.message}"
  | .targetRequired member => s!"Member `{member}` requires a target instance"
  | .wrongTarget member expected found =>
    s!"Wrong target for `{member}`: expected {expected}, found {found}"
  | .parameterCount member expected found variadic =>
    let bound := if variadic then "at least " else ""
    s!"Parameter count mismatch for `{member}`: expected {bound}{expected}, found {found}"
  | .notInstantiable member =>
    s!"Callable `{member}` is declared on an open generic type and cannot be invoked"
  | .noMatchingConstructor type => s!"No matching constructor on {type}"
  | .noDefaultConstructor type => s!"No accessible parameterless constructor on {type}"
  | .noCopyConstructor type => s!"No copy constructor on {type}"
  | .ambiguousMatch type candidates =>
    s!"Ambiguous constructor match on {type}: {candidates} candidates"
  | .notConstructible type => s!"Type {type} is not constructible"
  | .invocationRaised member cause => s!"Invocation of `{member}` raised: {cause.message}"
  | .constructionRaised type cause => s!"Construction of {type} raised: {cause.message}"
  | .notAnAttributeType type => s!"{type} is not an attribute type"

/-- The text of a failure. -/
def Failure.message : Failure → String
  | .raised text => text
  | .refused error => error.message

end

/-- The failure of a body that an error passes on. -/
def EngineError.cause? : EngineError → Option Failure
  | .invocationRaised _ cause | .constructionRaised _ cause => some cause
  | _ => none

end Reflection
