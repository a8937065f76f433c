import PascalScan.Proofs.Lexical.Contract
import PascalScan.Proofs.Lexical.Shift
import PascalScan.Proofs.Scan.Run

/-!
# `PascalScan.Proofs.Scan.Shift`: a scan does not look behind its start

Since no class looks behind the cursor, neither does a step (`step_shift`), and so neither does a
run (`Run.shift`). A scan from an offset is therefore the scan of what follows the offset, with all
offsets shifted (`scanFrom_eq_shift`).

A token that is shifted along with the text in front of it keeps its value. For this it has to lie
in the text with all that is inside it, as the tokens of every run do (`Run.liesIn`).
-/

set_option autoImplicit false

namespace PascalScan

open Text

variable {order : List Recognizer}

/-! ### Steps -/

/-- The same step in a text with `k` more bytes in front. -/
def Step.shift (k : Nat) : Step → Step
  | .emit m => .emit (m.shift k)
  | .skip next => .skip (next.shift k)
  | .halt f => .halt (f.shift k)

/-- Which failure is nearer does not depend on what stands in front. -/
theorem nearer_shift (k pos : Nat) (best : Option Failure) (f : Failure) :
    nearer (pos + k) (best.map (Failure.shift k)) (f.shift k)
      = (nearer pos best f).map (Failure.shift k) := by
  have hbound : (best.map (Failure.shift k)).elim (pos + k) Failure.furthest
      = best.elim pos Failure.furthest + k := by
    cases best <;> rfl
  have hlt : (best.elim pos Failure.furthest + k < (f.shift k).furthest)
      = (best.elim pos Failure.furthest < f.furthest) :=
    propext Nat.add_lt_add_iff_right
  unfold nearer
  rw [hbound]
  simp only [hlt]
  split <;> rfl

/-- The first match is the same, and so is the nearest failure. -/
theorem firstMatch_shift (k : Nat) (c : Cursor) (order : List Recognizer)
    (best : Option Failure) :
    firstMatch (c.shift k) order (best.map (Failure.shift k)) =
      match firstMatch c order best with
      | .ok m => .ok (m.shift k)
      | .error f => .error (f.map (Failure.shift k)) := by
  -- the induction is on the classes that are left to try; `best` grows on the way
  induction order generalizing best with
  | nil => rfl
  | cons r order ih =>
    unfold firstMatch
    rw [Recognizer.run_shift]
    cases r.run c with
    | ok m => rfl
    | error f =>
      dsimp only [shiftAnswer_error]
      rw [Cursor.pos_shift, nearer_shift]
      exact ih (nearer c.pos best f)

/-- So is the step. -/
theorem step_shift (k : Nat) (c : Cursor) (order : List Recognizer) :
    step order (c.shift k) = (step order c).shift k := by
  have hfirst := firstMatch_shift k c order none
  rw [Option.map_none] at hfirst
  unfold step
  rw [hfirst]
  cases firstMatch c order none with
  | ok m => rfl
  | error best =>
    dsimp only
    rw [Recognizer.run_shift]
    cases Recognizer.blank.run c with
    | ok m => rfl
    | error f => cases best <;> rfl

/-! ### Runs and scans -/

/-- A run goes the same way in a text with `k` more bytes in front. -/
theorem Run.shift {c d : Cursor} {ts : List Token} {failure : Option Failure}
    (h : Run order c ts d failure) (k : Nat) :
    Run order (c.shift k) (ts.map (Token.shift k)) (d.shift k) (failure.map (Failure.shift k)) := by
  induction h with
  | done hrest => exact .done hrest
  | @emit c d m ts failure hstep _ ih =>
    rw [List.map_cons, ← Match.token_shift]
    refine .emit ?_ ih
    rw [step_shift, hstep]
    rfl
  | skip hstep _ ih =>
    refine .skip ?_ ih
    rw [step_shift, hstep]
    rfl
  | halt hrest hstep =>
    refine .halt hrest ?_
    rw [step_shift, hstep]
    rfl

/-- A scan from a shifted cursor is the shifted scan. -/
theorem scanAt_shift (k : Nat) (c : Cursor) :
    scanAt order (c.shift k) = (scanAt order c).shift k := by
  obtain ⟨ts, d, failure, hrun, hscan⟩ := run_scanAt order c
  rw [hscan, scanAt_of_run (hrun.shift k)]
  rfl

/-- A scan from an offset is the scan of what follows there, shifted. -/
theorem scanFrom_eq_shift {text rest : List Char} {k : Nat} (h : locate text k = .boundary rest) :
    scanFrom text k = .ok ((scan rest).shift k) := by
  rw [scanFrom_of_locate h, ← Cursor.shift_start, scanAt_shift]
  rfl

/-! ### Values -/

/-- The tokens of a run lie in the text, with all that is inside them. -/
theorem Run.liesIn {c d : Cursor} {ts : List Token} {failure : Option Failure} {source : String}
    (h : Run order c ts d failure) (hc : c.StandsIn source.toList) :
    ∀ t ∈ ts, Token.LiesIn source t := by
  induction h with
  | done => simp
  | @emit c d m ts failure hstep _ ih =>
    obtain ⟨value, -, hvalue⟩ := readsFrom_of_emit hstep
    intro t ht
    rcases List.mem_cons.mp ht with rfl | ht
    · exact Recognizer.liesIn_of_run hc (run_of_emit hstep).2
    · exact ih (hc.of_reads hvalue) t ht
  | skip hstep _ ih =>
    obtain ⟨gap, -, hgap, -⟩ := blanks_of_skip hstep
    exact ih (hc.of_reads hgap)
  | halt => simp

/-- The tokens of a scan lie in its text, with all that is inside them. -/
theorem liesIn_of_mem_scan {source : String} {t : Token} (h : t ∈ (scan source.toList).tokens) :
    Token.LiesIn source t := by
  obtain ⟨ts, d, failure, hrun, hscan⟩ := run_scanAt Recognizer.priority ⟨0, source.toList⟩
  have hc : (Cursor.mk 0 source.toList).StandsIn source.toList := locate_zero _
  refine hrun.liesIn hc t ?_
  have htokens : (scan source.toList).tokens = ts := congrArg Scan.tokens hscan
  rwa [htokens] at h

end PascalScan
