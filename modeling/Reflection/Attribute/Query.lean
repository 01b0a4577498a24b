import Reflection.Call.Error
import Reflection.Listing.Provider
import Reflection.Universe.Subtyping

/-!
# Attribute/Query — attributes with inheritance

A query holds the attributes of a declaration and of each declaration it inherits from, one level
each, nearest first.  An attribute counts when its type is a subtype of the kind asked for.  On the
levels above the declaration itself its usage decides too: it must be inherited, and unless several
are allowed, no attribute of the same type may have been found before.
-/

namespace Reflection

/-- The attributes along the lineage of a declaration, nearest first. -/
structure AttributeQuery where
  levels : List (List Attribute)
deriving Repr

namespace AttributeQuery

variable {β : Type}

/-- The attributes that a provider lists along the lineage of a target. -/
def ofTarget (provider : Provider β) (u : Universe β) (target : AttributeTarget β) :
    AttributeQuery :=
  ⟨(target.lineage u).map (provider.attributes u)⟩

/-- The number of declarations in the lineage. -/
def depth (q : AttributeQuery) : Nat := q.levels.length

/-- Whether an attribute of an inherited level counts, after those found before. -/
def passesOn (u : Universe β) (found : List Attribute) (a : Attribute) : Bool :=
  let usage := u.effectiveUsage a.type
  usage.inherited && (usage.allowMultiple || !found.any fun b => b.type = a.type)

/-- The attributes found so far and those of one level of the kind asked for. -/
def gatherLevel (u : Universe β) (kind : TypeRef) (own : Bool) (found level : List Attribute) :
    List Attribute :=
  level.foldl (fun found a =>
    if u.isSubtype a.type kind && (own || passesOn u found a) then found ++ [a] else found) found

/-- The attributes of the kind asked for: all of the first level, and those that the others pass
on. -/
def gather (u : Universe β) (kind : TypeRef) : List (List Attribute) → List Attribute
  | [] => []
  | own :: inherited =>
    inherited.foldl (gatherLevel u kind false) (gatherLevel u kind true [] own)

/-- The first attribute of the kind asked for, level by level; nothing has been found before it. -/
def first? (u : Universe β) (kind : TypeRef) : List (List Attribute) → Option Attribute
  | [] => none
  | own :: inherited =>
    (own.find? fun a => u.isSubtype a.type kind).orElse fun _ =>
      inherited.findSome? fun level =>
        level.find? fun a => u.isSubtype a.type kind && passesOn u [] a

/-- The levels that a query with or without inheritance looks at. -/
def consulted (q : AttributeQuery) (inherit : Bool) : List (List Attribute) :=
  if inherit then q.levels else q.levels.take 1

/-- Only attribute types can be asked for. -/
def checkKind (u : Universe β) (kind : TypeRef) : Except EngineError Unit :=
  if u.isAttribute kind then .ok () else .error (.notAnAttributeType kind.name)

/-- Every attribute of a kind, nearest declaration first. -/
def getAll (q : AttributeQuery) (u : Universe β) (kind : TypeRef) (inherit : Bool) :
    Except EngineError (List Attribute) := do
  checkKind u kind
  return gather u kind (q.consulted inherit)

/-- The first attribute of a kind. -/
def get (q : AttributeQuery) (u : Universe β) (kind : TypeRef) (inherit : Bool) :
    Except EngineError (Option Attribute) := do
  checkKind u kind
  return first? u kind (q.consulted inherit)

/-- Whether there is an attribute of a kind. -/
def has (q : AttributeQuery) (u : Universe β) (kind : TypeRef) (inherit : Bool) :
    Except EngineError Bool := do
  return (← q.get u kind inherit).isSome

end AttributeQuery

end Reflection
