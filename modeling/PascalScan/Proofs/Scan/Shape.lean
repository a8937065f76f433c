import PascalScan.Proofs.Lexical.Shape
import PascalScan.Proofs.Scan.Run

/-!
# `PascalScan.Proofs.Scan.Shape`: a scan sees no more of a text than its shape

What a scan finds are offsets and kinds, and no class takes a text and its shape for different
ones. So the steps are the same (`step_shape`), a run finds the same tokens (`Run.shape`), and from
every offset the scan of the shape is the scan of the text (`scanFrom_map_shape`).
-/

set_option autoImplicit false

namespace PascalScan

open Text

variable {order : List Recognizer}

/-- The same step in the shape of the text. -/
def Step.shape : Step → Step
  | .emit m => .emit m.shape
  | .skip next => .skip next.shape
  | .halt f => .halt f

/-- The first match is the same, and so is the nearest failure. -/
theorem firstMatch_shape (c : Cursor) (order : List Recognizer) (best : Option Failure) :
    firstMatch c.shape order best = (firstMatch c order best).map Match.shape := by
  induction order generalizing best with
  | nil => rfl
  | cons r order ih =>
    unfold firstMatch
    rw [Recognizer.run_shape]
    cases r.run c with
    | ok m => rfl
    | error f => exact ih (nearer c.pos best f)

/-- A step is the same in the shape of the text. -/
theorem step_shape (c : Cursor) (order : List Recognizer) :
    step order c.shape = (step order c).shape := by
  unfold step
  rw [firstMatch_shape]
  cases firstMatch c order none with
  | ok m => rfl
  | error best =>
    dsimp only [Except.map]
    rw [Recognizer.run_shape]
    cases Recognizer.blank.run c <;> rfl

/-- A run finds the same tokens in the shape of the text, and halts with the same failure. -/
theorem Run.shape {c d : Cursor} {ts : List Token} {failure : Option Failure}
    (h : Run order c ts d failure) : Run order c.shape ts d.shape failure := by
  -- The steps are those of the shape, one by one.
  induction h with
  | done hrest => exact .done (List.map_eq_nil_iff.mpr hrest)
  | @emit c d m ts failure hstep _ ih =>
    have hstep' : step order c.shape = .emit m.shape := by
      rw [step_shape, hstep]
      rfl
    show Run order c.shape (m.shape.token c.shape :: ts) d.shape failure
    exact .emit hstep' ih
  | @skip c next d ts failure hstep _ ih =>
    have hstep' : step order c.shape = .skip next.shape := by
      rw [step_shape, hstep]
      rfl
    exact .skip hstep' ih
  | @halt c f hrest hstep =>
    have hstep' : step order c.shape = .halt f := by
      rw [step_shape, hstep]
      rfl
    exact .halt (mt List.map_eq_nil_iff.mp hrest) hstep'

/-- A scan of the shape of a text is the scan of the text. -/
theorem scanAt_shape (c : Cursor) : scanAt order c.shape = scanAt order c := by
  obtain ⟨ts, d, failure, hrun, hscan⟩ := run_scanAt order c
  rw [hscan, scanAt_of_run hrun.shape]
  rfl

/-- So is a scan from any offset, also from one that has no meaning for the text. -/
theorem scanFrom_map_shape (text : List Char) (start : Nat) :
    scanFrom (text.map shape) start = scanFrom text start := by
  unfold scanFrom scanFromWith
  rw [locate_map_shape]
  cases locate text start with
  | boundary rest => exact congrArg Except.ok (scanAt_shape ⟨start, rest⟩)
  | inside => rfl
  | beyond => rfl

end PascalScan
