/-!
# Member/Visibility — who may see a member

The four buckets of accessibility, ordered from the narrowest to the widest.  Filters and overload
resolution only ask whether a member is visible to everyone; listings also leave out what is
visible to its own type alone when it comes from an ancestor.
-/

namespace Reflection

/-- Accessibility of a member. -/
inductive Visibility where
  /-- Private: the declaring type only. -/
  | ownType
  /-- Protected: the declaring type and the types derived from it. -/
  | family
  /-- Internal: the types defined together with the declaring type. -/
  | assembly
  /-- Public: every type. -/
  | everyone
deriving DecidableEq, Repr, Inhabited

namespace Visibility

/-- Whether the member is visible to everyone. -/
def isPublic (v : Visibility) : Bool := v = .everyone

/-- The access word of a visibility. -/
def name : Visibility → String
  | ownType => "private"
  | family => "protected"
  | assembly => "internal"
  | everyone => "public"

/-- The visibility that an access word stands for. -/
def ofName? (word : String) : Option Visibility :=
  [ownType, family, assembly, everyone].find? fun v => v.name = word

theorem ofName?_name (v : Visibility) : ofName? v.name = some v := by
  cases v <;> decide

@[simp] theorem isPublic_iff {v : Visibility} : v.isPublic = true ↔ v = .everyone := by
  simp [isPublic]

end Visibility

end Reflection
