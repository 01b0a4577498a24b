import Reflection.Construction.Resolver
import Reflection.Member.FilterText
import Reflection.Toml.Document

/-!
# Config — settings from a TOML document

Three sections set the size that a cache starts with, the filter of requests that name none, and
whether constructors that are not public count.  Every section and key may be left out, and those
that are not known say nothing.  A section may also be an array, read by position.  The whole
document is read before the filter is checked.
-/

namespace Reflection

/-- The settings. -/
structure Config where
  /-- The number of keys that a cache starts with room for. -/
  initialCapacity : Nat := 64
  /-- The filter of requests that name none, in words. -/
  defaultFilter : String := MemberFilter.standard.text
  /-- Whether constructors that are not public count. -/
  nonPublic : Bool := false
deriving DecidableEq, Repr

/-- Why there are no settings. -/
inductive ConfigError where
  /-- There is no file, or it is not text. -/
  | unreadable
  /-- The text is not a TOML document, or a setting is not of its type. -/
  | malformed
  | unknownFilter (text : String)
  | emptyFilter
deriving DecidableEq, Repr

/-- The text of an error, where the library words it. -/
def ConfigError.message? : ConfigError → Option String
  | unreadable | malformed => none
  | unknownFilter text => some s!"Invalid config: unknown member filter: {text}"
  | emptyFilter => some "Invalid config: member filter selects nothing"

namespace Config

/-! ## Reading settings -/

/-- A setting of a section, by its key or by its place; the default if the section leaves it out.  A
date counts as a section that leaves everything out. -/
def setting {α : Type} (section? : Option Toml.Value) (key : String) (place : Nat) (default : α)
    (read : Toml.Value → Option α) : Except ConfigError α :=
  let found (v? : Option Toml.Value) : Except ConfigError α :=
    match v? with
    | none => .ok default
    | some v => match read v with
      | some a => .ok a
      | none => .error .malformed
  match section? with
  | none | some .dateTime => .ok default
  | some (.table entries) => found (entries.lookup key)
  | some (.array items) => found items[place]?
  | some _ => .error .malformed

/-- A number of keys. -/
def readCapacity : Toml.Value → Option Nat
  | .integer n => if 0 ≤ n then some n.toNat else none
  | _ => none

/-- A text. -/
def readText : Toml.Value → Option String
  | .string s => some s
  | _ => none

/-- A yes or no. -/
def readSwitch : Toml.Value → Option Bool
  | .boolean b => some b
  | _ => none

/-- The settings of a document. -/
def ofToml (document : Toml.Value) : Except ConfigError Config := do
  let standard : Config := {}
  return {
    initialCapacity :=
      ← setting (document.get? "cache") "initial_capacity" 0 standard.initialCapacity readCapacity
    defaultFilter :=
      ← setting (document.get? "members") "default_filter" 0 standard.defaultFilter readText
    nonPublic :=
      ← setting (document.get? "constructors") "non_public" 0 standard.nonPublic readSwitch }

/-! ## Checking settings -/

/-- The filter must be one that can be read and must have a flag. -/
def validate (c : Config) : Except ConfigError Unit :=
  match MemberFilter.ofText? c.defaultFilter with
  | none => .error (.unknownFilter c.defaultFilter)
  | some f => if f = .none then .error .emptyFilter else .ok ()

/-- The filter of requests that name none; the standard one if the text cannot be read. -/
def filter (c : Config) : MemberFilter := (MemberFilter.ofText? c.defaultFilter).getD .standard

/-- The settings that a text spells. -/
def ofText (text : String) : Except ConfigError Config :=
  match Toml.parse? text with
  | none => .error .malformed
  | some document => do
    let c ← ofToml document
    c.validate
    return c

/-- The settings in the contents of a file, or the error of a missing file. -/
def ofFile (contents? : Option ByteArray) : Except ConfigError Config :=
  match contents?.bind fun bytes => String.fromUTF8? bytes with
  | none => .error .unreadable
  | some text => ofText text

/-! ## Using settings -/

/-- A cache with the filter that the settings name. -/
def cache {β : Type} (c : Config) : Cache β := { provider := .reflector, defaultFilter := c.filter }

/-- A resolver that sees the constructors that the settings let count. -/
def resolver {β : Type} (c : Config) : Resolver β :=
  { provider := .reflector, nonPublic := c.nonPublic }

end Config

end Reflection
