import PascalScan.Proofs.Settings.Reading

/-!
# `PascalScan.Proofs.Settings.Writing`: settings survive as JSON

The writer knows one text for each settings, an object with both members, no blanks and as few
escapes as possible. That text is in the language of `PascalScan.Proofs.Settings.Reading`
(`written_toJson`), and its members give the settings it was written for. So reading gives them back,
whatever characters the words have and however many words there are (`ofJson_toJson`): the errors of
the reader do not come up.
-/

set_option autoImplicit false

namespace PascalScan.Settings

open Json

/-- What the writer puts between quotes is a string. -/
theorem stringText_write (s : String) : StringText s (Quoted.write s.toList) :=
  .mk (Quoted.spells_flatMap_writeChar s.toList)

/-- A truth value is written as one of the two words. -/
theorem boolText_writeBool (shown : Bool) : BoolText shown (writeBool shown) := by
  cases shown with
  | true => exact .yes
  | false => exact .no

/-- The writer puts commas between items, and nothing else. -/
theorem listed_intercalate (word : String) (words : List String) :
    Listed StringText (word :: words)
      (List.intercalate [','] ((word :: words).map fun w => Quoted.write w.toList)) := by
  induction words generalizing word with
  | nil =>
    have hone := Listed.one allBlank_nil allBlank_nil (stringText_write word)
    simpa [List.intercalate] using hone
  | cons next words ih =>
    have hmore := Listed.more allBlank_nil allBlank_nil (stringText_write word) (ih next)
    simpa [List.intercalate] using hmore

/-- A list of strings is written in brackets, with commas between the strings. -/
theorem enclosed_writeStrings (words : List String) :
    Enclosed .array StringText words (writeStrings words) := by
  cases words with
  | nil => exact .empty allBlank_nil
  | cons word words => exact .full (listed_intercalate word words)

/-- A member is written as its name, a colon and its value. -/
theorem memberText_writeMember (m : Member) {value : List Char} (h : m.IsValue value) :
    MemberText m (writeMember m.name value) := by
  have hmember := MemberText.mk (Quoted.spells_flatMap_writeChar m.name.toList) allBlank_nil
    allBlank_nil h
  simpa [writeMember, Quoted.write] using hmember

/-- The written text gives both members. -/
theorem written_toJson (s : Settings) :
    Written [.keywords s.keywords, .showBlanks s.showBlanks] s.toJson := by
  have hkeywords := memberText_writeMember (.keywords s.keywords) (enclosed_writeStrings s.keywords)
  have hshowBlanks :=
    memberText_writeMember (.showBlanks s.showBlanks) (boolText_writeBool s.showBlanks)
  have hobject := Enclosed.full (b := .object) (.more allBlank_nil allBlank_nil hkeywords
    (.one allBlank_nil allBlank_nil hshowBlanks))
  have htext := Written.object allBlank_nil allBlank_nil hobject
  simpa [toJson, Bracket.opener, Bracket.closer, Member.name] using htext

/-- Settings that are written as JSON are read back as they were: the same words in the same order,
each as it was spelled, and the same choice about blanks. -/
theorem ofJson_toJson (s : Settings) : ofJson? s.toJson = .ok s := by
  have honce : ¬Repeats [.keywords s.keywords, .showBlanks s.showBlanks] := by simp [Repeats]
  rw [ofJson?_eq_of_written (written_toJson s), if_neg honce]
  rfl

end PascalScan.Settings
