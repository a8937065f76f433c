import PascalScan.Lexical.Recognizer
import PascalScan.Proofs.Text.Boundary

/-!
# `PascalScan.Proofs.Lexical.Asking`: a class asked at an offset

`Recognizer.recognize` answers at a byte offset of a text, and `Recognizer.run` at a cursor. The
theorems here turn the first into the second: an offset has an answer from every class exactly
where a cursor can stand (`recognize_of_standsIn`), and a token is recognized exactly where the
class matches at that cursor (`recognize_eq_ok_iff`).
-/

set_option autoImplicit false

namespace PascalScan

open Text

/-! ### At a cursor -/

/-- What matches reads something, so there is something to read. -/
theorem Match.ReadsFrom.rest_ne_nil {m : Match} {c : Cursor} (h : m.ReadsFrom c) :
    c.rest ≠ [] := by
  obtain ⟨s, hs, hread⟩ := h
  exact hread.rest_ne_nil hs

namespace Recognizer

/-- Asking a class at the end of the text fails. -/
theorem run_of_rest_eq_nil {r : Recognizer} {c : Cursor} (h : c.rest = []) :
    r.run c = .error (.onSpot .endOfInput c.pos) := by
  unfold run
  rw [h]
  rfl

/-- Asking a class in front of a character is up to the class. -/
theorem run_of_rest_ne_nil {r : Recognizer} {c : Cursor} (h : c.rest ≠ []) :
    r.run c = r.recognizeAt c := by
  unfold run
  rw [if_neg fun hempty => h (List.isEmpty_iff.mp hempty)]

/-- A class that recognizes something has something to read. -/
theorem rest_ne_nil_of_run {r : Recognizer} {c : Cursor} {m : Match} (h : r.run c = .ok m) :
    c.rest ≠ [] :=
  (run_readsFrom h).rest_ne_nil

/-- What a class recognizes is up to the class. -/
theorem recognizeAt_of_run {r : Recognizer} {c : Cursor} {m : Match} (h : r.run c = .ok m) :
    r.recognizeAt c = .ok m := by
  rwa [← run_of_rest_ne_nil (rest_ne_nil_of_run h)]

/-! ### At an offset -/

/-- Asking a class at the offset of a cursor is asking it at the cursor. -/
theorem recognize_of_standsIn {r : Recognizer} {c : Cursor} {text : List Char}
    (h : c.StandsIn text) : r.recognize text c.pos = .ok ((r.run c).map (·.token c)) := by
  unfold recognize
  rw [h]

/-- In front of a character, the class has the answer. -/
theorem recognize_of_rest_ne_nil {r : Recognizer} {c : Cursor} {text : List Char}
    (h : c.StandsIn text) (hne : c.rest ≠ []) :
    r.recognize text c.pos = .ok ((r.recognizeAt c).map (·.token c)) := by
  rw [recognize_of_standsIn h, run_of_rest_ne_nil hne]

/-- A token is recognized where a cursor can stand and the class matches. -/
theorem recognize_eq_ok_iff {r : Recognizer} {text : List Char} {pos : Nat} {t : Token} :
    r.recognize text pos = .ok (.ok t) ↔
      ∃ c m, c.StandsIn text ∧ c.pos = pos ∧ r.run c = .ok m ∧ m.token c = t := by
  constructor
  · intro h
    unfold recognize at h
    split at h
    next rest hrest =>
      cases hrun : r.run ⟨pos, rest⟩ with
      | ok m =>
        rw [hrun] at h
        exact ⟨⟨pos, rest⟩, m, hrest, rfl, hrun, Except.ok.inj (Except.ok.inj h)⟩
      | error f =>
        rw [hrun] at h
        cases h
    next =>
      -- Inside a character no class recognizes anything.
      cases r <;> cases h
    next => cases h
  · rintro ⟨c, m, hc, rfl, hrun, rfl⟩
    rw [recognize_of_standsIn hc, hrun]
    rfl

end Recognizer

end PascalScan
