import PascalScan.Lexical.Match
import PascalScan.Text.CharClass

/-!
# `PascalScan.Lexical.Punctuation`: operators and punctuation marks

Two characters that form an operator are always read together, so `:=` is never `:` and `=`.
-/

set_option autoImplicit false

namespace PascalScan.Punctuation

open Text

/-- Recognizes a mark of one character. -/
def recognizeSingle (c : Cursor) : Attempt :=
  match c.eat isSymbol with
  | some next => .ok ⟨.symbol, [], next⟩
  | none => .error (.onSpot .unexpectedSymbol c.pos)

/-- Recognizes an operator of two characters, or else a mark of one. -/
def recognize (c : Cursor) : Attempt :=
  match c.rest with
  | a :: b :: rest =>
    if isSymbolPair a b then
      .ok ⟨.symbolPair, [], ⟨c.pos + byteSize [a, b], rest⟩⟩
    else
      recognizeSingle c
  | _ => recognizeSingle c

/-- A punctuation mark is one character. -/
theorem readsFrom_of_recognizeSingle {c : Cursor} {m : Match} (h : recognizeSingle c = .ok m) :
    m.ReadsFrom c := by
  unfold recognizeSingle at h
  split at h
  next next hnext =>
    cases h
    obtain ⟨ch, -, hr⟩ := Cursor.eat_eq_some_iff.mp hnext
    exact ⟨[ch], by simp, hr⟩
  next => cases h

/-- Punctuation is one or two characters. -/
theorem readsFrom_of_recognize {c : Cursor} {m : Match} (h : recognize c = .ok m) :
    m.ReadsFrom c := by
  unfold recognize at h
  split at h
  next a b rest hrest =>
    split at h
    · cases h
      exact ⟨[a, b], by simp, hrest, rfl⟩
    · exact readsFrom_of_recognizeSingle h
  next => exact readsFrom_of_recognizeSingle h

end PascalScan.Punctuation
