import PascalScan.Lexical.Match
import PascalScan.Text.CharClass

/-!
# `PascalScan.Lexical.Blank`: runs of blanks

A run is as long as possible: it ends where the text ends or goes on with another character.
-/

set_option autoImplicit false

namespace PascalScan.Blank

open Text

/-- Recognizes the longest run of blanks. -/
def recognize (c : Cursor) : Attempt :=
  match c.eatRun isBlank isBlank with
  | some next => .ok ⟨.blank, [], next⟩
  | none => .error (.onSpot .unexpectedCharacter c.pos)

/-- A run of blanks has at least one. -/
theorem readsFrom_of_recognize {c : Cursor} {m : Match} (h : recognize c = .ok m) :
    m.ReadsFrom c := by
  unfold recognize at h
  split at h
  next next hnext =>
    cases h
    obtain ⟨ch, cs, -, hr⟩ := Cursor.eatRun_reads hnext
    exact ⟨ch :: cs, by simp, hr⟩
  next => cases h

end PascalScan.Blank
