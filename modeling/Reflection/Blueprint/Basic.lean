import Reflection.Universe.Basic

/-!
# Blueprint/Basic — what a type definition asks for

A blueprint lists the wishes for one declared type as they were made; nothing in it is checked.
`Blueprint/Compile` turns it into a definition or says why that cannot be.
-/

namespace Reflection

/-- A formal parameter as asked for: the two marks exclude each other in a definition. -/
structure ParameterSpec where
  name : String
  type : TypeRef
  writeBack : Bool := false
  variadic : Bool := false

/-- Where a field keeps its value.  A constant is kept with the type: one kept in every instance
would need an initial value, which only the fields of the type may have, so no such field can be
defined and none can be asked for here. -/
inductive FieldStorage where
  /-- In every instance. -/
  | perInstance
  /-- Once, with the type. -/
  | shared
  /-- Once, with the type, and never written. -/
  | constant
deriving DecidableEq, Repr

/-- A field as asked for. -/
structure FieldSpec where
  name : String
  type : TypeRef
  visibility : Visibility := .everyone
  storage : FieldStorage := .perInstance
  initial? : Option Value := none
  attributes : List Attribute := []

/-- Whether the field keeps one value for the whole type. -/
def FieldSpec.isStatic (f : FieldSpec) : Bool := f.storage ≠ .perInstance

/-- A method as asked for.  An override is virtual too, unless it is asked not to be: then it
replaces what it overrides and is not replaced itself. -/
structure MethodSpec (β : Type) where
  name : String
  parameters : List ParameterSpec := []
  returns? : Option TypeRef := none
  visibility : Visibility := .everyone
  isStatic : Bool := false
  isOverride : Bool := false
  isVirtual : Bool := isOverride
  attributes : List Attribute := []
  body : β

/-- A property as asked for.  An override is virtual too, unless it is asked not to be, and takes an
accessor that it leaves out from the property it overrides. -/
structure PropertySpec (β : Type) where
  name : String
  type : TypeRef
  visibility : Visibility := .everyone
  isStatic : Bool := false
  isOverride : Bool := false
  isVirtual : Bool := isOverride
  getter? : Option β := none
  setter? : Option β := none
  attributes : List Attribute := []

/-- A constructor as asked for. -/
structure ConstructorSpec (β : Type) where
  parameters : List ParameterSpec := []
  visibility : Visibility := .everyone
  attributes : List Attribute := []
  body : β

/-- The wishes for one declared type. -/
structure Blueprint (β : Type) where
  /-- The type to define. -/
  target : Declaration
  flags : TypeFlags := {}
  extends? : Option TypeRef := none
  interfaces : List TypeRef := []
  usage? : Option AttributeUsage := none
  /-- The named values of an enumeration. -/
  values : List (String × Int64) := []
  fields : List FieldSpec := []
  properties : List (PropertySpec β) := []
  methods : List (MethodSpec β) := []
  constructors : List (ConstructorSpec β) := []
  attributes : List Attribute := []

namespace Blueprint

variable {β : Type}

/-- The flags that a kind brings along: structures and enumerations are sealed, interfaces
abstract. -/
def kindFlags : DeclaredKind → TypeFlags
  | .classType => {}
  | .structType | .enumType => { isSealed := true }
  | .interfaceType => { isAbstract := true }

/-- The blueprint of a type that asks for nothing. -/
def start (d : Declaration) : Blueprint β := { target := d, flags := kindFlags d.kind }

/-- The blueprint of an attribute type that asks for nothing else. -/
def startAttribute (d : Declaration) (usage : AttributeUsage) : Blueprint β :=
  { start d with extends? := some .attributeRoot, usage? := some usage }

def markAbstract (b : Blueprint β) : Blueprint β :=
  { b with flags := { b.flags with isAbstract := true } }

/-- A static type is abstract and sealed as well. -/
def markStatic (b : Blueprint β) : Blueprint β :=
  { b with flags := { b.flags with isStatic := true, isAbstract := true, isSealed := true } }

def markSealed (b : Blueprint β) : Blueprint β :=
  { b with flags := { b.flags with isSealed := true } }

def markGeneric (b : Blueprint β) : Blueprint β :=
  { b with flags := { b.flags with isGeneric := true } }

/-- The type to define, as a reference. -/
def self (b : Blueprint β) : TypeRef := .declared b.target

/-- The name of the type to define. -/
def typeName (b : Blueprint β) : String := b.target.name

/-- A named value of an enumeration is a public constant of its own type. -/
def valueField (b : Blueprint β) (v : String × Int64) : FieldSpec where
  name := v.1
  type := b.self
  storage := .constant
  initial? := some (.enum b.self v.2)

/-- The fields asked for, named values first. -/
def allFields (b : Blueprint β) : List FieldSpec := b.values.map b.valueField ++ b.fields

end Blueprint

end Reflection
