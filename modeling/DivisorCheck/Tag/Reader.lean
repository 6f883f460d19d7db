/-
  Reading a tag from a settings value.  The text of the value counts, trimmed,
  its letters lowered and its hyphens read as underscores.
-/
import DivisorCheck.Tag
import DivisorCheck.Json.Value
import DivisorCheck.Text.Blank

namespace DivisorCheck.Tag

open DivisorCheck.Text

/-- A value that spells no tag. -/
structure SpellingError where
  value : Json.Value
deriving Repr

/-- The text of the error. -/
def SpellingError.message (e : SpellingError) : String := "not a zeroness value: " ++ e.value.inspect

/-- The spelling that `ofSpelling?` looks up. -/
def spellingKey (text : String) : String :=
  String.ofList ((lower (trim text)).toList.map (fun c => if c = '-' then '_' else c))

/-- Reads a tag. -/
def ofValue (v : Json.Value) : Except SpellingError Tag :=
  match ofSpelling? (spellingKey v.text) with
  | some t => .ok t
  | none => .error ⟨v⟩

end DivisorCheck.Tag
