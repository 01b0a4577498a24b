import Reflection.Member.Filter
import Reflection.Text.Blank
import Reflection.Text.Fields
import Reflection.Text.UpperCase

/-!
# Member/FilterText — filters in words

A filter is written as keywords joined by `|`.  Reading takes the six flag names, one second
spelling and four presets, in any letter case and with blanks around each; writing uses the flag
names alone, in the order of the flags, and `NONE` for the empty filter.
-/

namespace Reflection.MemberFilter

/-- The flag names, in the order of the flags. -/
def flagNames : List (String × MemberFilter) :=
  [("PUBLIC", { publics := true }),
   ("NON_PUBLIC", { nonPublics := true }),
   ("INSTANCE", { instances := true }),
   ("STATIC", { statics := true }),
   ("DECLARED_ONLY", { declaredOnly := true }),
   ("FLATTEN_HIERARCHY", { flatten := true })]

/-- Every keyword: the flag names, the second spelling of one of them, and the presets. -/
def keywords : List (String × MemberFilter) :=
  flagNames ++
    [("NONPUBLIC", { nonPublics := true }),
     ("NONE", none),
     ("DEFAULT", standard),
     ("ALL", all),
     ("PUBLIC_INSTANCE", publicInstance)]

/-- The filter of an exact flag name. -/
def ofName? (name : String) : Option MemberFilter := flagNames.lookup name

/-- The filter of a keyword given as characters, in any letter case. -/
def ofKeywordChars? (cs : List Char) : Option MemberFilter :=
  (keywords.find? fun k => k.1.toList == Text.upper cs).map (·.2)

/-- The filter of a keyword, in any letter case. -/
def ofKeyword? (text : String) : Option MemberFilter := ofKeywordChars? text.toList

/-- The filter of keywords joined by `|`, blanks around a keyword aside. -/
def ofText? (text : String) : Option MemberFilter :=
  ((Text.fields '|' text.toList).mapM fun part => ofKeywordChars? (Text.trim part)).map unions

/-- Whether every flag of `g` is a flag of `f`. -/
def includes (f g : MemberFilter) : Bool := f.union g = f

/-- A filter in words: its flag names joined by `|`, or `NONE`. -/
def text (f : MemberFilter) : String :=
  match flagNames.filter fun n => f.includes n.2 with
  | [] => "NONE"
  | names => "|".intercalate (names.map (·.1))

end Reflection.MemberFilter
