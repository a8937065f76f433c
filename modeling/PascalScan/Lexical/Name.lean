import PascalScan.Lexical.Match
import PascalScan.Text.CharClass

/-!
# `PascalScan.Lexical.Name`: identifiers

A name is a letter or an underscore followed by letters, digits and underscores. A mark `&` in
front turns a reserved word into an ordinary name, so a marked name has a kind of its own.
-/

set_option autoImplicit false

namespace PascalScan.Name

open Text

/-- The character that marks an escaped name. -/
def isMark (c : Char) : Bool := c == '&'

/-- Recognizes a name, with or without its mark. -/
def recognize (c : Cursor) : Attempt :=
  match c.eat isMark with
  | some marked =>
    match marked.eatRun isNameStart isNamePart with
    | some next => .ok ⟨.escapedIdentifier, [], next⟩
    | none => .error (.onSpot .nameExpected c.pos)
  | none =>
    match c.eatRun isNameStart isNamePart with
    | some next => .ok ⟨.identifier, [], next⟩
    | none => .error (.onSpot .nameExpected c.pos)

/-- A name has at least one letter or underscore, also behind an ampersand. -/
theorem readsFrom_of_recognize {c : Cursor} {m : Match} (h : recognize c = .ok m) :
    m.ReadsFrom c := by
  unfold recognize at h
  split at h
  next marked hmarked =>
    split at h
    next next hnext =>
      cases h
      obtain ⟨mark, -, hr₁⟩ := Cursor.eat_eq_some_iff.mp hmarked
      obtain ⟨ch, cs, -, hr₂⟩ := Cursor.eatRun_reads hnext
      exact ⟨_, by simp, hr₁.trans hr₂⟩
    next => cases h
  next =>
    split at h
    next next hnext =>
      cases h
      obtain ⟨ch, cs, -, hr⟩ := Cursor.eatRun_reads hnext
      exact ⟨ch :: cs, by simp, hr⟩
    next => cases h

end PascalScan.Name
