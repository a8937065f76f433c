import PascalScan.Proofs.Scan.Run

/-!
# `PascalScan.Proofs.Scan.Reach`: how far a scan has got

A run goes on to its end. `Reaches order c ts d` is a part of one: stepping on from the cursor `c`
finds the tokens `ts` and gets to the cursor `d`, where anything may come next. A run can be put
behind such a part (`Reaches.run`). A run reaches its own end (`Run.reaches`), and the end of each
of its tokens (`Run.reaches_token`).
-/

set_option autoImplicit false

namespace PascalScan

variable {order : List Recognizer}

/-- Stepping on from the first cursor finds the tokens and gets to the second cursor. -/
inductive Reaches (order : List Recognizer) : Cursor → List Token → Cursor → Prop where
  /-- No step is taken. -/
  | refl {c : Cursor} : Reaches order c [] c
  /-- A token is found. -/
  | emit {c d : Cursor} {m : Match} {ts : List Token} (hstep : step order c = .emit m)
      (tail : Reaches order m.next ts d) : Reaches order c (m.token c :: ts) d
  /-- A run of blanks is passed over. -/
  | skip {c next d : Cursor} {ts : List Token} (hstep : step order c = .skip next)
      (tail : Reaches order next ts d) : Reaches order c ts d

/-- What a run finds from a place that was reached, a run finds behind what was found before. -/
theorem Reaches.run {c d e : Cursor} {ts us : List Token} {failure : Option Failure}
    (h : Reaches order c ts d) (h' : Run order d us e failure) :
    Run order c (ts ++ us) e failure := by
  induction h with
  | refl => exact h'
  | emit hstep _ ih => exact .emit hstep (ih h')
  | skip hstep _ ih => exact .skip hstep (ih h')

/-- Steps read on. -/
theorem Reaches.reads {c d : Cursor} {ts : List Token} (h : Reaches order c ts d) :
    ∃ s, c.Reads s d := by
  induction h with
  | refl => exact ⟨[], .refl _⟩
  | emit hstep _ ih =>
    obtain ⟨value, -, hvalue⟩ := readsFrom_of_emit hstep
    obtain ⟨s, hs⟩ := ih
    exact ⟨_, hvalue.trans hs⟩
  | skip hstep _ ih =>
    obtain ⟨gap, -, hgap, -⟩ := blanks_of_skip hstep
    obtain ⟨s, hs⟩ := ih
    exact ⟨_, hgap.trans hs⟩

/-- Unless no step is taken, some class matches at the first cursor, on the way to the second. -/
theorem Reaches.eq_or_exists_run {c d : Cursor} {ts : List Token} (h : Reaches order c ts d) :
    c = d ∨ ∃ (r : Recognizer) (m : Match) (s : List Char), r.run c = .ok m ∧ m.next.Reads s d := by
  cases h with
  | refl => exact .inl rfl
  | emit hstep tail =>
    obtain ⟨s, hs⟩ := tail.reads
    exact .inr ⟨_, _, s, (run_of_emit hstep).2, hs⟩
  | skip hstep tail =>
    obtain ⟨-, m, hrun, rfl⟩ := step_eq_skip_iff.mp hstep
    obtain ⟨s, hs⟩ := tail.reads
    exact .inr ⟨.blank, m, s, hrun, hs⟩

/-- A run gets to its end. -/
theorem Run.reaches {c d : Cursor} {ts : List Token} {failure : Option Failure}
    (h : Run order c ts d failure) : Reaches order c ts d := by
  induction h with
  | done => exact .refl
  | emit hstep _ ih => exact .emit hstep ih
  | skip hstep _ ih => exact .skip hstep ih
  | halt => exact .refl

/-- A run gets to the end of each of its tokens, and has found the tokens up to it by then. -/
theorem Run.reaches_token {c d : Cursor} {ts : List Token} {failure : Option Failure}
    (h : Run order c ts d failure) :
    ∀ (i : Nat) (hi : i < ts.length),
      ∃ e, Reaches order c (ts.take (i + 1)) e ∧ e.pos = ts[i].stop := by
  -- Only a step that finds a token counts, so the index goes down there.
  induction h with
  | done =>
    intro i hi
    exact absurd hi (Nat.not_lt_zero i)
  | emit hstep _ ih =>
    intro i hi
    cases i with
    | zero => exact ⟨_, .emit hstep .refl, rfl⟩
    | succ i =>
      obtain ⟨e, he, hpos⟩ := ih i (Nat.lt_of_succ_lt_succ hi)
      exact ⟨e, .emit hstep he, hpos⟩
  | skip hstep _ ih =>
    intro i hi
    obtain ⟨e, he, hpos⟩ := ih i hi
    exact ⟨e, .skip hstep he, hpos⟩
  | halt =>
    intro i hi
    exact absurd hi (Nat.not_lt_zero i)

/-- From a place that was reached and where a step halts, the run is over. -/
theorem Reaches.run_of_halt {c d : Cursor} {ts : List Token} {f : Failure}
    (h : Reaches order c ts d) (hrest : d.rest ≠ []) (hstep : step order d = .halt f) :
    Run order c ts d (some f) := by
  have hrun := h.run (.halt hrest hstep)
  rwa [List.append_nil] at hrun

/-- From a place that was reached and where nothing is left to read, the run is over. -/
theorem Reaches.run_of_done {c d : Cursor} {ts : List Token} (h : Reaches order c ts d)
    (hrest : d.rest = []) : Run order c ts d none := by
  have hrun := h.run (.done hrest)
  rwa [List.append_nil] at hrun

end PascalScan
