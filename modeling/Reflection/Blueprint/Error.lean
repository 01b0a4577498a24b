/-!
# Blueprint/Error — why a blueprint cannot be compiled

Each error names the cause; `DefinitionError.message` is the one place where causes become text.
-/

namespace Reflection

/-- What is wrong with a parameter. -/
inductive ParameterFault where
  | variadicWriteBack
  | variadicNotArray
  | variadicNotLast
deriving DecidableEq, Repr

/-- Why a type cannot be the base asked for. -/
inductive BaseFault where
  /-- Only classes have a base; the base asked for is given by name. -/
  | notForThisKind (base : String)
  | itself
  | notClass (base : String)
  | notDefined (base : String)
  | closed (base : String)
deriving DecidableEq, Repr

/-- What is wrong with the type as a whole. -/
inductive TypeFault where
  | valuesOutsideEnum
  | usageOutsideAttribute
  | notInterface (name : String)
  | instanceInitial (field : String)
  | initialMismatch (field type : String)
  | instanceFieldOutsideInstances (field : String)
  | constructorsOutsideInstances
  | constructorsOnStatic
deriving DecidableEq, Repr

/-- Why a blueprint cannot be compiled. -/
inductive DefinitionError where
  /-- Two members of one sort share a name, or a signature. -/
  | duplicateMember (type member : String)
  | invalidParameter (member parameter : String) (fault : ParameterFault)
  /-- A constant without a value. -/
  | missingConstant (type field : String)
  | invalidBase (type : String) (fault : BaseFault)
  | nothingToOverride (type member : String)
  | invalidDefinition (type : String) (fault : TypeFault)
deriving DecidableEq, Repr

def ParameterFault.message : ParameterFault → String
  | variadicWriteBack => "a variadic parameter cannot be write-back"
  | variadicNotArray => "a variadic parameter must have an array type"
  | variadicNotLast => "the variadic parameter must be last"

def BaseFault.message : BaseFault → String
  | notForThisKind base => s!"only classes can derive from {base}"
  | itself => "a type cannot derive from itself"
  | notClass base => s!"{base} is not a class"
  | notDefined base => s!"{base} is not defined yet"
  | closed base => s!"{base} cannot be derived from"

def TypeFault.message : TypeFault → String
  | valuesOutsideEnum => "only enumerations declare named values"
  | usageOutsideAttribute => "attribute usage on a type that is not an attribute"
  | notInterface name => s!"{name} is not an interface"
  | instanceInitial field => s!"instance field `{field}` cannot have an initial value"
  | initialMismatch field type => s!"initial value of `{field}` is not a {type}"
  | instanceFieldOutsideInstances field =>
    s!"instance field `{field}` on a type without instances"
  | constructorsOutsideInstances => "only classes and structs declare constructors"
  | constructorsOnStatic => "static types cannot declare constructors"

/-- The text of an error. -/
def DefinitionError.message : DefinitionError → String
  | duplicateMember type member => s!"Duplicate member `{member}` on type {type}"
  | invalidParameter member parameter fault =>
    s!"Invalid parameter `{parameter}` on {member}: {fault.message}"
  | missingConstant type field => s!"Literal field `{field}` on type {type} has no constant value"
  | invalidBase type fault => s!"Invalid base type for {type}: {fault.message}"
  | nothingToOverride type member => s!"Member `{member}` on type {type} overrides nothing"
  | invalidDefinition type fault => s!"Invalid type definition for {type}: {fault.message}"

end Reflection
