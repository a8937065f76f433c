import PascalScan.Json.Quoted
import PascalScan.Vocabulary

/-!
# `PascalScan.Settings.Basic`: what an editor can choose

The settings name the words to show as reserved, and say whether blanks are shown. `toJson`
writes them as a JSON object without any blanks; `PascalScan.Settings.Reading` reads them back.
-/

set_option autoImplicit false

namespace PascalScan

/-- What an editor can choose. -/
structure Settings where
  /-- The words shown as reserved, as given. -/
  keywords : List String
  /-- Whether runs of blanks are shown. -/
  showBlanks : Bool
  deriving Repr, DecidableEq

namespace Settings

/-- The words shown as reserved unless others are chosen: those of the language. -/
def defaultKeywords : List String := Keyword.all.map Keyword.word

/-- The settings of an editor that chooses nothing: all blanks are shown. -/
def default : Settings := ⟨defaultKeywords, true⟩

/-- The words shown as reserved, as a set. -/
def keywordSet (s : Settings) : KeywordSet := .ofList s.keywords

/-! ### Writing -/

/-- The member that lists the words shown as reserved. -/
def keywordsName : String := "keywords"

/-- The member that says whether blanks are shown. -/
def showBlanksName : String := "emit_whitespace"

/-- A member of an object: its name, a colon and the value. -/
def writeMember (name : String) (value : List Char) : List Char :=
  Json.Quoted.write name.toList ++ ':' :: value

/-- An array of strings. -/
def writeStrings (words : List String) : List Char :=
  '[' :: (List.intercalate [','] (words.map fun w => Json.Quoted.write w.toList) ++ [']'])

/-- A truth value. -/
def writeBool : Bool → List Char
  | true => ['t', 'r', 'u', 'e']
  | false => ['f', 'a', 'l', 's', 'e']

/-- The settings as a JSON object. -/
def toJson (s : Settings) : List Char :=
  '{' :: (writeMember keywordsName (writeStrings s.keywords) ++
    ',' :: (writeMember showBlanksName (writeBool s.showBlanks) ++ ['}']))

end Settings

end PascalScan
