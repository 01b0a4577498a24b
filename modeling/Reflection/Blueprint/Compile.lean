import Reflection.Blueprint.Basic
import Reflection.Blueprint.Error
import Reflection.Universe.Default
import Reflection.Universe.Subtyping

/-!
# Blueprint/Compile — from a blueprint to a definition

`Blueprint.compile` checks a blueprint against the types known so far and builds the definition of
its target, with the first values of its static slots.  The checks come in a fixed order — base,
shape of the type, fields, methods, properties, constructors — and the first that fails is
reported.  Nothing is changed on the way, so a blueprint that fails leaves no trace.
-/

namespace Reflection.Blueprint

variable {β : Type}

/-! ## The base and the shape of the type -/

/-- The base of the type: the one asked for, or the root for a class that asks for none. -/
def resolveBase (u : Universe β) (b : Blueprint β) : Except DefinitionError (Option TypeRef) :=
  let reject (fault : BaseFault) := .error (.invalidBase b.typeName fault)
  match b.extends? with
  | none => .ok (if b.self.isClass then some .object else none)
  | some base =>
    if !b.self.isClass then reject (.notForThisKind base.name)
    else if base = b.self then reject .itself
    else if !base.isClass then reject (.notClass base.name)
    else if !u.isDefined base then reject (.notDefined base.name)
    else if (u.flags base).isSealed || (u.flags base).isStatic then reject (.closed base.name)
    else .ok (some base)

/-- The line of base types below a direct base. -/
def lineOf (u : Universe β) : Option TypeRef → List TypeRef
  | none => []
  | some base => u.ancestors base

/-- The checks on values, usage and interfaces. -/
def checkShape (u : Universe β) (b : Blueprint β) (base? : Option TypeRef) :
    Except DefinitionError Unit :=
  let reject (fault : TypeFault) := .error (.invalidDefinition b.typeName fault)
  if !b.values.isEmpty && !b.self.isEnum then reject .valuesOutsideEnum
  else if b.usage?.isSome && !base?.any fun base => u.isSubtype base .attributeRoot then
    reject .usageOutsideAttribute
  else match b.interfaces.find? fun i => !i.isInterface with
    | some i => reject (.notInterface i.name)
    | none => .ok ()

/-! ## Fields -/

/-- Whether the type has no instances that could hold a slot. -/
def isWithoutInstances (b : Blueprint β) : Bool :=
  b.self.isInterface || b.self.isEnum || b.flags.isStatic

/-- The checks on one field, among those whose names are taken already. -/
def checkField (u : Universe β) (b : Blueprint β) (taken : List String) (f : FieldSpec) :
    Except DefinitionError Unit :=
  let reject (fault : TypeFault) := .error (.invalidDefinition b.typeName fault)
  if taken.contains f.name then .error (.duplicateMember b.typeName f.name)
  else if f.storage = .constant && f.initial?.isNone then
    .error (.missingConstant b.typeName f.name)
  else if f.initial?.isSome && !f.isStatic then reject (.instanceInitial f.name)
  else if f.initial?.any fun v => !u.accepts f.type v then
    reject (.initialMismatch f.name f.type.name)
  else if !f.isStatic && b.isWithoutInstances then
    reject (.instanceFieldOutsideInstances f.name)
  else .ok ()

/-- The checks on fields in order. -/
def checkFields (u : Universe β) (b : Blueprint β) :
    List String → List FieldSpec → Except DefinitionError Unit
  | _, [] => .ok ()
  | taken, f :: fs => do
    b.checkField u taken f
    b.checkFields u (f.name :: taken) fs

/-- Fields with their slots: instance fields take the next instance slot, the others the next static
slot. -/
def placeFields (self : TypeRef) :
    (index instanceSlot staticSlot : Nat) → List FieldSpec → List Field
  | _, _, _, [] => []
  | n, i, s, f :: fs =>
    { id := ⟨self, .field, n⟩
      name := f.name
      type := f.type
      visibility := f.visibility
      isStatic := f.isStatic
      constant? := if f.storage = .constant then f.initial? else none
      slot := if f.isStatic then s else i
      attributes := f.attributes } ::
    if f.isStatic then placeFields self (n + 1) i (s + 1) fs
    else placeFields self (n + 1) (i + 1) s fs

/-- The first values of the static slots. -/
def staticValues (u : Universe β) (b : Blueprint β) : List Value :=
  (b.allFields.filter FieldSpec.isStatic).map fun f => f.initial?.getD (u.default f.type)

/-- Whether finding out if a field takes its initial value comes to an end. -/
def initialHalts (u : Universe β) (f : FieldSpec) : Bool :=
  f.initial?.all fun v => (u.accepts? f.type v).isSome

/-- Whether making the first value of a field comes to an end: a static field without an initial
value takes the default of its type, and no other field needs one. -/
def firstValueHalts (u : Universe β) (f : FieldSpec) : Bool :=
  !f.isStatic || f.initial?.isSome || (u.default? f.type).isSome

/-- Whether the checks on fields in order, and the first values made on the way, come to an end.  A
field whose name is taken, or that has an initial value in every instance, is refused before its
initial value is looked at. -/
def fieldsHalt (u : Universe β) (b : Blueprint β) : List String → List FieldSpec → Bool
  | _, [] => true
  | taken, f :: fs =>
    (taken.contains f.name || !f.isStatic || initialHalts u f) &&
    match b.checkField u taken f with
    | .error _ => true
    | .ok () => firstValueHalts u f && fieldsHalt u b (f.name :: taken) fs

/-- The types of the instance slots that the type adds. -/
def ownLayout (b : Blueprint β) : List TypeRef :=
  (b.allFields.filter fun f => !f.isStatic).map FieldSpec.type

/-! ## Parameters -/

/-- A parameter by itself. -/
def compileParameter (member : String) (p : ParameterSpec) : Except DefinitionError Parameter :=
  let reject (fault : ParameterFault) := .error (.invalidParameter member p.name fault)
  match p.writeBack, p.variadic with
  | true, true => reject .variadicWriteBack
  | false, true => if p.type.isArray then .ok ⟨p.name, p.type, .variadic⟩
    else reject .variadicNotArray
  | true, false => .ok ⟨p.name, p.type, .writeBack⟩
  | false, false => .ok ⟨p.name, p.type, .plain⟩

/-- A parameter list: each by itself, then the place of the variadic one. -/
def compileParameters (member : String) (ps : List ParameterSpec) :
    Except DefinitionError (List Parameter) := do
  let built ← ps.mapM (compileParameter member)
  match built.dropLast.find? Parameter.isVariadic with
  | some p => .error (.invalidParameter member p.name .variadicNotLast)
  | none => .ok built

/-! ## Methods -/

/-- The chain that an override of a method starts with. -/
def overriding (m : Method β) : List (MethodDecl β) := m.toMethodDecl :: m.overridden

/-- The method that an override of this name and shape replaces: the first virtual instance method
of that signature on the line of bases. -/
def overriddenMethod? (u : Universe β) (line : List TypeRef) (name : String)
    (ps : List Parameter) : Option (Method β) :=
  line.findSome? fun t => (u.methods t).find? fun m =>
    m.isVirtual && !m.isStatic && m.name == name && Parameter.sameShape m.parameters ps

/-- One method, among those of the type that are built already. -/
def compileMethod (u : Universe β) (b : Blueprint β) (line : List TypeRef)
    (built : List (Method β)) (m : MethodSpec β) : Except DefinitionError (Method β) := do
  let ps ← compileParameters m.name m.parameters
  if built.any fun n => n.name == m.name && Parameter.sameShape n.parameters ps then
    .error (.duplicateMember b.typeName m.name)
  else
    let decl : MethodDecl β := {
      id := ⟨b.self, .method, built.length⟩
      name := m.name
      parameters := ps
      returns? := m.returns?
      visibility := m.visibility
      isStatic := m.isStatic
      isVirtual := m.isVirtual
      attributes := m.attributes
      body := m.body }
    if m.isOverride then
      match overriddenMethod? u line m.name ps with
      | some n => .ok { decl with overridden := overriding n }
      | none => .error (.nothingToOverride b.typeName m.name)
    else .ok { decl with overridden := [] }

/-- The methods in order. -/
def compileMethods (u : Universe β) (b : Blueprint β) (line : List TypeRef) :
    List (Method β) → List (MethodSpec β) → Except DefinitionError (List (Method β))
  | built, [] => .ok built
  | built, m :: ms => do
    let n ← b.compileMethod u line built m
    b.compileMethods u line (built ++ [n]) ms

/-! ## Properties -/

/-- The property that an override of this name replaces: the first virtual instance property of that
name on the line of bases. -/
def overriddenProperty? (u : Universe β) (line : List TypeRef) (name : String) :
    Option (Property β) :=
  line.findSome? fun t => (u.properties t).find? fun p =>
    p.isVirtual && !p.isStatic && p.name == name

/-- The accessor of a property: its own body, overriding the accessor of the overridden property, or
else that accessor itself. -/
def compileAccessor (b : Blueprint β) (p : PropertySpec β) (role : MemberRole) (index : Nat)
    (name : String) (parameters : List Parameter) (returns? : Option TypeRef)
    (inherited? : Option (Method β)) : Option β → Option (Method β)
  | none => inherited?
  | some body => some {
      id := ⟨b.self, role, index⟩
      name := name
      parameters := parameters
      returns? := returns?
      visibility := p.visibility
      isStatic := p.isStatic
      isVirtual := p.isVirtual
      attributes := []
      body := body
      overridden := (inherited?.map overriding).getD [] }

/-- A property over the one it overrides, if any. -/
def assembleProperty (b : Blueprint β) (index : Nat) (p : PropertySpec β)
    (base? : Option (Property β)) : Property β where
  id := ⟨b.self, .property, index⟩
  name := p.name
  type := p.type
  visibility := p.visibility
  isStatic := p.isStatic
  isVirtual := p.isVirtual
  getter? := b.compileAccessor p .getter index s!"get_{p.name}" [] (some p.type)
    (base?.bind fun q => q.getter?) p.getter?
  setter? := b.compileAccessor p .setter index s!"set_{p.name}" [⟨"value", p.type, .plain⟩] none
    (base?.bind fun q => q.setter?) p.setter?
  attributes := p.attributes
  overridden := (base?.map fun q => q.toPropertyDecl :: q.overridden).getD []

/-- One property, among those of the type that are built already. -/
def compileProperty (u : Universe β) (b : Blueprint β) (line : List TypeRef)
    (built : List (Property β)) (p : PropertySpec β) : Except DefinitionError (Property β) :=
  if built.any fun q => q.name == p.name then .error (.duplicateMember b.typeName p.name)
  else if p.isOverride then
    match overriddenProperty? u line p.name with
    | some q => .ok (b.assembleProperty built.length p (some q))
    | none => .error (.nothingToOverride b.typeName p.name)
  else .ok (b.assembleProperty built.length p none)

/-- The properties in order. -/
def compileProperties (u : Universe β) (b : Blueprint β) (line : List TypeRef) :
    List (Property β) → List (PropertySpec β) → Except DefinitionError (List (Property β))
  | built, [] => .ok built
  | built, p :: ps => do
    let q ← b.compileProperty u line built p
    b.compileProperties u line (built ++ [q]) ps

/-! ## Constructors -/

/-- The name that messages give the constructors of a type. -/
def constructorName (type : String) : String := s!"{type}::new"

/-- One constructor, among those of the type that are built already. -/
def compileConstructor (b : Blueprint β) (built : List (Constructor β)) (c : ConstructorSpec β) :
    Except DefinitionError (Constructor β) := do
  let ps ← compileParameters (constructorName b.typeName) c.parameters
  if built.any fun d => Parameter.sameShape d.parameters ps then
    .error (.duplicateMember b.typeName "new")
  else .ok {
    id := ⟨b.self, .constructor, built.length⟩
    parameters := ps
    visibility := c.visibility
    attributes := c.attributes
    body? := some c.body }

/-- The constructors asked for, in order. -/
def compileOwnConstructors (b : Blueprint β) :
    List (Constructor β) → List (ConstructorSpec β) → Except DefinitionError (List (Constructor β))
  | built, [] => .ok built
  | built, c :: cs => do
    let d ← b.compileConstructor built c
    b.compileOwnConstructors (built ++ [d]) cs

/-- The constructors of the type.  A class that asks for none, and is not static, gets one without
parameters, for its descendants only if it is abstract. -/
def compileConstructors (b : Blueprint β) : Except DefinitionError (List (Constructor β)) :=
  if b.constructors.isEmpty then
    .ok (if b.self.isClass && !b.flags.isStatic then
      [.synthesized b.self (if b.flags.isAbstract then .family else .everyone)] else [])
  else if !(b.self.isClass || b.self.isStruct) then
    .error (.invalidDefinition b.typeName .constructorsOutsideInstances)
  else if b.flags.isStatic then .error (.invalidDefinition b.typeName .constructorsOnStatic)
  else b.compileOwnConstructors [] b.constructors

/-! ## The whole -/

/-- What compiling a blueprint yields. -/
structure Compiled (β : Type) where
  definition : Definition β
  /-- The first values of the static slots. -/
  statics : List Value

/-- The definition that a blueprint asks for, or the first reason why there is none. -/
def compile (u : Universe β) (b : Blueprint β) : Except DefinitionError (Compiled β) := do
  let base? ← b.resolveBase u
  b.checkShape u base?
  b.checkFields u [] b.allFields
  let line := lineOf u base?
  let inherited := (base?.map u.layout).getD []
  let methods ← b.compileMethods u line [] b.methods
  let properties ← b.compileProperties u line [] b.properties
  let constructors ← b.compileConstructors
  return {
    definition := {
      flags := b.flags
      bases := line
      interfaces := b.interfaces
      usage? := b.usage?
      fields := placeFields b.self 0 inherited.length 0 b.allFields
      properties := properties
      methods := methods
      constructors := constructors
      attributes := b.attributes
      layout := inherited ++ b.ownLayout }
    statics := b.staticValues u }

/-- Whether compiling comes to an end: the searches and first values on the way of the fields do,
as far as they are reached. -/
def halts (u : Universe β) (b : Blueprint β) : Bool :=
  match b.resolveBase u with
  | .error _ => true
  | .ok base? =>
    match b.checkShape u base? with
    | .error _ => true
    | .ok () => b.fieldsHalt u [] b.allFields

end Reflection.Blueprint
