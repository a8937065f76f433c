import PascalScan.Proofs.Lexical.Asking
import PascalScan.Proofs.Lexical.Kinds
import PascalScan.Proofs.Text.Steps
import PascalScan.Scan

/-!
# `PascalScan.Proofs.Scan.Run`: a scan as a sequence of steps

`scanLoop` keeps the tokens found so far in an accumulator and ends by the length of what is
left. Both get in the way of a proof about a whole scan. `Run order c ts d failure` says the same
without them: stepping from the cursor `c` until nothing is left or nothing matches finds the
tokens `ts`, ends at the cursor `d`, and reports `failure` if nothing matched there.

`run_scanAt` is the bridge, after which a property of every scan is an induction over `Run`: one
case for the end of the text, one for a token, one for a run of blanks and one for the halt. The
section on single steps says what each of these can be, so no later proof opens `step`.
-/

set_option autoImplicit false

namespace PascalScan

open Text

variable {order : List Recognizer}

/-! ### Single steps -/

/-- The classes that were tried before the one that matched all failed. -/
theorem firstMatch_eq_ok_iff {c : Cursor} {best : Option Failure} {m : Match} :
    firstMatch c order best = .ok m ↔
      ∃ earlier r later, order = earlier ++ r :: later ∧ r.run c = .ok m ∧
        ∀ q ∈ earlier, ∃ f, q.run c = .error f := by
  induction order generalizing best with
  | nil => simp [firstMatch]
  | cons q order ih =>
    unfold firstMatch
    cases hq : q.run c with
    | ok m' =>
      dsimp only
      constructor
      · intro h
        cases h
        exact ⟨[], q, order, rfl, hq, by simp⟩
      · intro ⟨earlier, r, later, horder, hr, hfail⟩
        cases earlier with
        | nil =>
          obtain ⟨rfl, rfl⟩ := List.cons.inj horder
          exact congrArg Except.ok (Except.ok.inj (hq.symm.trans hr))
        | cons p earlier =>
          -- The class at the front matches, so it cannot be among those that failed.
          obtain ⟨rfl, rfl⟩ := List.cons.inj horder
          obtain ⟨f, hf⟩ := hfail q (by simp)
          cases hq.symm.trans hf
    | error f =>
      dsimp only
      rw [ih]
      constructor
      · rintro ⟨earlier, r, later, rfl, hr, hfail⟩
        refine ⟨q :: earlier, r, later, rfl, hr, ?_⟩
        intro p hp
        rcases List.mem_cons.mp hp with rfl | hp
        · exact ⟨f, hq⟩
        · exact hfail p hp
      · intro ⟨earlier, r, later, horder, hr, hfail⟩
        cases earlier with
        | nil =>
          obtain ⟨rfl, rfl⟩ := List.cons.inj horder
          cases hq.symm.trans hr
        | cons p earlier =>
          obtain ⟨rfl, rfl⟩ := List.cons.inj horder
          exact ⟨earlier, r, later, rfl, hr, fun p hp => hfail p (by simp [hp])⟩

/-- No class matches exactly when all of them fail. -/
theorem exists_firstMatch_eq_error_iff {c : Cursor} {best : Option Failure} :
    (∃ f, firstMatch c order best = .error f) ↔ ∀ q ∈ order, ∃ f, q.run c = .error f := by
  induction order generalizing best with
  | nil => simp [firstMatch]
  | cons q order ih =>
    unfold firstMatch
    cases hq : q.run c with
    | ok m => simp [hq]
    | error f => simp [hq, ih]

/-- A step that emits a token has found the first match of the order. -/
theorem step_eq_emit_iff {c : Cursor} {m : Match} :
    step order c = .emit m ↔ firstMatch c order none = .ok m := by
  unfold step
  split
  next m' hm => simp [hm]
  next best hbest =>
    split <;> simp [hbest]

/-- A step that passes over blanks found no match, and the longest run of blanks. -/
theorem step_eq_skip_iff {c next : Cursor} :
    step order c = .skip next ↔
      (∀ q ∈ order, ∃ f, q.run c = .error f) ∧
        ∃ m, Recognizer.blank.run c = .ok m ∧ m.next = next := by
  -- a step tries the blanks only when every class of `order` has failed
  have hall : (∀ q ∈ order, ∃ f, q.run c = .error f) ↔
      ∃ best, firstMatch c order none = .error best := exists_firstMatch_eq_error_iff.symm
  rw [hall]
  unfold step
  split
  next m hm => simp [hm]
  next best hbest =>
    split
    next m hm => simp [hbest, hm]
    next f hf => simp [hbest, hf]

/-- A step that halts found neither a match nor a blank. -/
theorem step_eq_halt_iff {c : Cursor} {f : Failure} :
    step order c = .halt f ↔
      (∃ best, firstMatch c order none = .error best ∧
        f = best.getD (.onSpot .invalidSequence c.pos)) ∧
      ∃ f', Recognizer.blank.run c = .error f' := by
  unfold step
  split
  next m hm => simp [hm]
  next best hbest =>
    split
    next m hm => simp [hm]
    next f' hf' => simp [hbest, hf', eq_comm]

/-- A run of blanks is recognized as one. -/
theorem Recognizer.run_blank_eq_ok_iff {c : Cursor} {m : Match} :
    Recognizer.blank.run c = .ok m ↔
      ∃ next, c.eatRun isBlank isBlank = some next ∧ m = ⟨.blank, [], next⟩ := by
  have hat : Blank.recognize c = .ok m ↔
      ∃ next, c.eatRun isBlank isBlank = some next ∧ m = ⟨.blank, [], next⟩ := by
    unfold Blank.recognize
    cases c.eatRun isBlank isBlank <;> simp [eq_comm]
  rw [← hat]
  unfold Recognizer.run
  split
  next hempty =>
    -- At the end of the text there is no blank either.
    have hnone : c.eatRun isBlank isBlank = none :=
      Cursor.eatRun_eq_none_iff.mpr (by simp [List.isEmpty_iff.mp hempty])
    simp [hat, hnone]
  next => rfl

/-- A token that a step emits was read from where the step began. -/
theorem readsFrom_of_emit {c : Cursor} {m : Match} (h : step order c = .emit m) :
    m.ReadsFrom c :=
  readsFrom_of_firstMatch (step_eq_emit_iff.mp h)

/-- A token that a step emits is what the class of its kind recognizes there. -/
theorem run_of_emit {c : Cursor} {m : Match} (h : step order c = .emit m) :
    m.kind.recognizer ∈ order ∧ m.kind.recognizer.run c = .ok m := by
  obtain ⟨earlier, r, later, horder, hrun, -⟩ := firstMatch_eq_ok_iff.mp (step_eq_emit_iff.mp h)
  rw [Recognizer.kind_of_run hrun]
  exact ⟨by simp [horder], hrun⟩

/-- A step passes over blanks, and over as many as there are. -/
theorem blanks_of_skip {c next : Cursor} (h : step order c = .skip next) :
    ∃ gap, gap ≠ [] ∧ c.Reads gap next ∧ (∀ ch ∈ gap, isBlank ch) ∧
      ∀ ch ∈ next.rest.head?, isBlank ch = false := by
  obtain ⟨-, m, hm, rfl⟩ := step_eq_skip_iff.mp h
  obtain ⟨next, hrun, rfl⟩ := Recognizer.run_blank_eq_ok_iff.mp hm
  obtain ⟨ch, cs, hch, hcs, hr, hstop⟩ := Cursor.eatRun_eq_some_iff.mp hrun
  exact ⟨ch :: cs, by simp, hr, by simpa using ⟨hch, hcs⟩, hstop⟩

/-- Where a step halts, no blank stands. -/
theorem not_blank_of_halt {c : Cursor} {f : Failure} (h : step order c = .halt f) :
    ∀ ch ∈ c.rest.head?, isBlank ch = false := by
  obtain ⟨-, f', hf'⟩ := step_eq_halt_iff.mp h
  have hnone : c.eatRun isBlank isBlank = none := by
    refine Option.eq_none_iff_forall_ne_some.mpr fun next hrun => ?_
    rw [Recognizer.run_blank_eq_ok_iff.mpr ⟨next, hrun, rfl⟩] at hf'
    cases hf'
  exact Cursor.eatRun_eq_none_iff.mp hnone

/-! ### Runs -/

/-- Stepping from the first cursor finds the tokens and ends at the second cursor, with a failure
if nothing matched there. -/
inductive Run (order : List Recognizer) :
    Cursor → List Token → Cursor → Option Failure → Prop where
  /-- Nothing is left to read. -/
  | done {c : Cursor} (hrest : c.rest = []) : Run order c [] c none
  /-- A token is found. -/
  | emit {c d : Cursor} {m : Match} {ts : List Token} {failure : Option Failure}
      (hstep : step order c = .emit m) (tail : Run order m.next ts d failure) :
      Run order c (m.token c :: ts) d failure
  /-- A run of blanks is passed over. -/
  | skip {c next d : Cursor} {ts : List Token} {failure : Option Failure}
      (hstep : step order c = .skip next) (tail : Run order next ts d failure) :
      Run order c ts d failure
  /-- Nothing matches. -/
  | halt {c : Cursor} {f : Failure} (hrest : c.rest ≠ []) (hstep : step order c = .halt f) :
      Run order c [] c (some f)

/-- A run depends on the order of the classes only through its steps. -/
theorem Run.of_step_eq {order' : List Recognizer} {c d : Cursor} {ts : List Token}
    {failure : Option Failure} (h : Run order c ts d failure)
    (heq : ∀ c, step order c = step order' c) : Run order' c ts d failure := by
  induction h with
  | done hrest => exact .done hrest
  | emit hstep _ ih =>
    rw [heq] at hstep
    exact .emit hstep ih
  | skip hstep _ ih =>
    rw [heq] at hstep
    exact .skip hstep ih
  | halt hrest hstep =>
    rw [heq] at hstep
    exact .halt hrest hstep

/-- A run ends where nothing is left to read, or else where a step halts, with its failure. -/
theorem run_end {c d : Cursor} {ts : List Token} {failure : Option Failure}
    (h : Run order c ts d failure) :
    (failure = none ∧ d.rest = []) ∨
      ∃ f ch cs, failure = some f ∧ d.rest = ch :: cs ∧ step order d = .halt f := by
  induction h with
  | done hrest => exact .inl ⟨rfl, hrest⟩
  | emit _ _ ih => exact ih
  | skip _ _ ih => exact ih
  | halt hrest hstep =>
    obtain ⟨ch, cs, hcs⟩ := List.exists_cons_of_ne_nil hrest
    exact .inr ⟨_, ch, cs, rfl, hcs, hstep⟩

/-- A run reads on from its first cursor to its second. -/
theorem run_reads {c d : Cursor} {ts : List Token} {failure : Option Failure}
    (h : Run order c ts d failure) : ∃ s, c.Reads s d := by
  induction h with
  | done => exact ⟨[], .refl _⟩
  | emit hstep _ ih =>
    obtain ⟨value, -, hvalue⟩ := readsFrom_of_emit hstep
    obtain ⟨s, hs⟩ := ih
    exact ⟨_, hvalue.trans hs⟩
  | skip hstep _ ih =>
    obtain ⟨gap, -, hgap, -⟩ := blanks_of_skip hstep
    obtain ⟨s, hs⟩ := ih
    exact ⟨_, hgap.trans hs⟩
  | halt => exact ⟨[], .refl _⟩

/-- The loop runs on from its cursor, and puts what it finds behind what was found before. -/
theorem exists_run_scanLoop (order : List Recognizer) (start : Nat) (found : List Token)
    (c : Cursor) :
    ∃ ts d failure, Run order c ts d failure ∧
      scanLoop order start found c = ⟨start, d.pos, found.reverse ++ ts, failure⟩ := by
  -- The cases are the branches of the loop. Only a token makes the accumulator grow.
  fun_induction scanLoop order start found c with
  | case1 found c hrest =>
    exact ⟨[], c, none, .done (List.isEmpty_iff.mp hrest), by simp⟩
  | case2 found c hrest m hstep _ ih =>
    obtain ⟨ts, d, failure, hrun, hscan⟩ := ih
    exact ⟨_, d, failure, .emit hstep hrun, by simp [hscan]⟩
  | case3 found c hrest next hstep _ ih =>
    obtain ⟨ts, d, failure, hrun, hscan⟩ := ih
    exact ⟨ts, d, failure, .skip hstep hrun, hscan⟩
  | case4 found c hrest f hstep =>
    exact ⟨[], c, some f, .halt (fun h => hrest (List.isEmpty_iff.mpr h)) hstep, by simp⟩

/-- What a run finds is what the loop returns. -/
theorem scanLoop_of_run {c d : Cursor} {ts : List Token} {failure : Option Failure}
    (h : Run order c ts d failure) (start : Nat) (found : List Token) :
    scanLoop order start found c = ⟨start, d.pos, found.reverse ++ ts, failure⟩ := by
  -- In each case the step at the cursor is known, so the loop has one branch to take.
  induction h generalizing found with
  | done hrest => rw [scanLoop, if_pos (List.isEmpty_iff.mpr hrest), List.append_nil]
  | @emit c d m ts failure hstep _ ih =>
    have hrest := (readsFrom_of_emit hstep).rest_ne_nil
    rw [scanLoop, if_neg fun hempty => hrest (List.isEmpty_iff.mp hempty)]
    split
    next m' hm' =>
      cases hstep.symm.trans hm'
      rw [ih]
      simp
    next next hskip => cases hstep.symm.trans hskip
    next f hhalt => cases hstep.symm.trans hhalt
  | @skip c next d ts failure hstep _ ih =>
    obtain ⟨gap, hne, hgap, -⟩ := blanks_of_skip hstep
    have hrest : c.rest ≠ [] := by simp [hgap.1, hne]
    rw [scanLoop, if_neg fun hempty => hrest (List.isEmpty_iff.mp hempty)]
    split
    next m hemit => cases hstep.symm.trans hemit
    next next' hskip =>
      cases hstep.symm.trans hskip
      exact ih found
    next f hhalt => cases hstep.symm.trans hhalt
  | halt hrest hstep =>
    rw [scanLoop, if_neg fun hempty => hrest (List.isEmpty_iff.mp hempty), List.append_nil]
    split
    next m hemit => cases hstep.symm.trans hemit
    next next hskip => cases hstep.symm.trans hskip
    next f' hhalt =>
      cases hstep.symm.trans hhalt
      rfl

/-- A scan is a run from its cursor. -/
theorem run_scanAt (order : List Recognizer) (c : Cursor) :
    ∃ ts d failure, Run order c ts d failure ∧
      scanAt order c = ⟨c.pos, d.pos, ts, failure⟩ := by
  simpa [scanAt] using exists_run_scanLoop order c.pos [] c

/-- What a run finds is what a scan returns. -/
theorem scanAt_of_run {c d : Cursor} {ts : List Token} {failure : Option Failure}
    (h : Run order c ts d failure) : scanAt order c = ⟨c.pos, d.pos, ts, failure⟩ := by
  simpa [scanAt] using scanLoop_of_run h c.pos []

/-- A scan from a boundary is a scan from the cursor there. -/
theorem scanFrom_of_locate {text rest : List Char} {start : Nat}
    (h : locate text start = .boundary rest) :
    scanFrom text start = .ok (scanAt Recognizer.priority ⟨start, rest⟩) := by
  unfold scanFrom scanFromWith
  rw [h]

/-- So it is a run from that cursor. -/
theorem run_scanFrom {text rest : List Char} {start : Nat}
    (h : locate text start = .boundary rest) :
    ∃ ts d failure, Run Recognizer.priority ⟨start, rest⟩ ts d failure ∧
      scanFrom text start = .ok ⟨start, d.pos, ts, failure⟩ := by
  obtain ⟨ts, d, failure, hrun, hscan⟩ := run_scanAt Recognizer.priority ⟨start, rest⟩
  exact ⟨ts, d, failure, hrun, (scanFrom_of_locate h).trans (congrArg Except.ok hscan)⟩

end PascalScan
