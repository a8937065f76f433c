import PascalScan.Proofs.Lexical.Leading
import PascalScan.Proofs.Scan.Lossless

/-!
# `PascalScan.Proofs.Scan.Order`: the order of the classes

A scan takes the first match among the classes in their order, and where none matches it reports
the failure that got furthest. Both look as if they depended on the order. They do not, as long as
punctuation comes after comments and numbers (`Admissible`).

`Counts c r m` and `IsNearest c best` describe the first match and the failure to report without
any order. Each describes one thing only (`Counts.unique`, `IsNearest.unique`), since hardly any two
classes get on at the same place, and each is what `firstMatch` finds in any admissible order. So
steps, runs and whole scans agree. `first_match_longest_and_order_free` collects this.
-/

set_option autoImplicit false

namespace PascalScan

open Text

variable {order : List Recognizer}

/-! ### Orders -/

/-- An order in which the classes that make tokens may be tried: punctuation has to come after
comments and after numbers. -/
structure Admissible (order : List Recognizer) : Prop where
  perm : order.Perm Recognizer.priority
  comment_first : order.idxOf .comment < order.idxOf .symbol
  number_first : order.idxOf .number < order.idxOf .symbol

/-- The order that scans use is one of them. -/
theorem admissible_priority : Admissible Recognizer.priority := ⟨.refl _, by decide, by decide⟩

/-- What comes before punctuation in an order stands in front of it. -/
theorem mem_of_idxOf_lt {q : Recognizer} {earlier later : List Recognizer}
    (h : (earlier ++ .symbol :: later).idxOf q < (earlier ++ .symbol :: later).idxOf .symbol) :
    q ∈ earlier := by
  by_cases hq : q ∈ earlier
  · exact hq
  -- Punctuation is found no later than where it stands, and `q` no earlier.
  · have hsymbol : (earlier ++ .symbol :: later).idxOf .symbol ≤ earlier.length := by
      rw [List.idxOf_append]
      split
      next hmem => exact Nat.le_of_lt (List.idxOf_lt_length_of_mem hmem)
      next => simp
    rw [List.idxOf_append, if_neg hq] at h
    omega

/-! ### The match that counts -/

/-- The class matches at the cursor, and if it is punctuation, comments and numbers do not. -/
structure Counts (c : Cursor) (r : Recognizer) (m : Match) : Prop where
  mem : r ∈ Recognizer.priority
  run : r.run c = .ok m
  symbol : r = .symbol → ∀ q : Recognizer, q = .comment ∨ q = .number → ∃ f, q.run c = .error f

/-- At most one match counts at a cursor. -/
theorem Counts.unique {q r : Recognizer} {c : Cursor} {m n : Match} (hq : Counts c q m)
    (hr : Counts c r n) : m = n := by
  -- Punctuation cannot match together with anything, as comments and numbers failed.
  have hsymbol {r : Recognizer} {m n : Match} (hq : Counts c .symbol m) (hr : Counts c r n) :
      r = .symbol := by
    by_cases hne : r = .symbol
    · exact hne
    · obtain ⟨hclass, -⟩ := Recognizer.of_run_of_run_symbol hne hr.run hq.run
      obtain ⟨f, hf⟩ := hq.symbol rfl r hclass
      cases hf.symm.trans hr.run
  have hsame : q = r := by
    by_cases hqs : q = .symbol
    · subst hqs
      exact (hsymbol hq hr).symm
    by_cases hrs : r = .symbol
    · subst hrs
      exact hsymbol hr hq
    exact Recognizer.eq_of_run_of_run hqs hrs hq.run hr.run
  subst hsame
  exact Except.ok.inj (hq.run.symm.trans hr.run)

/-- The first match counts. -/
theorem exists_counts_of_firstMatch {c : Cursor} {best : Option Failure} {m : Match}
    (horder : Admissible order) (h : firstMatch c order best = .ok m) : ∃ r, Counts c r m := by
  obtain ⟨earlier, r, later, rfl, hrun, hfail⟩ := firstMatch_eq_ok_iff.mp h
  refine ⟨r, horder.perm.mem_iff.mp (by simp), hrun, ?_⟩
  -- When it is the turn of punctuation, comments and numbers have been tried.
  rintro rfl q (rfl | rfl)
  · exact hfail _ (mem_of_idxOf_lt horder.comment_first)
  · exact hfail _ (mem_of_idxOf_lt horder.number_first)

/-! ### The failure to report -/

/-- The failure is the one among those of the classes that points further on than the cursor;
there is none if no failure does. -/
def IsNearest (c : Cursor) : Option Failure → Prop
  | none => ∀ r ∈ Recognizer.priority, ∀ f, r.run c = .error f → f.furthest ≤ c.pos
  | some f => ∃ r ∈ Recognizer.priority, r.run c = .error f ∧ c.pos < f.furthest

/-- There is only one failure to report. -/
theorem IsNearest.unique {c : Cursor} {a b : Option Failure} (ha : IsNearest c a)
    (hb : IsNearest c b) : a = b := by
  match a, b, ha, hb with
  | none, none, _, _ => rfl
  | none, some g, hnone, ⟨r, hr, hrun, hfar⟩ =>
    exact absurd hfar (Nat.not_lt.mpr (hnone r hr g hrun))
  | some f, none, ⟨r, hr, hrun, hfar⟩, hnone =>
    exact absurd hfar (Nat.not_lt.mpr (hnone r hr f hrun))
  | some f, some g, ⟨q, _, hq, hf⟩, ⟨r, _, hr, hg⟩ =>
    -- no two classes fail further on than where they were asked
    obtain rfl := Recognizer.eq_of_near_misses hq hf hr hg
    rw [hq] at hr
    cases hr
    rfl

/-- The failure that `firstMatch` returns is the one it was given, or one that a class made and
that points further. -/
theorem cases_of_firstMatch_eq_error {c : Cursor} {given best : Option Failure}
    (hgiven : c.pos ≤ given.elim c.pos Failure.furthest)
    (h : firstMatch c order given = .error best) :
    (best = given ∧ ∀ r ∈ order, ∀ f, r.run c = .error f →
      f.furthest ≤ given.elim c.pos Failure.furthest) ∨
    ∃ r ∈ order, ∃ f, best = some f ∧ r.run c = .error f ∧ c.pos < f.furthest := by
  induction order generalizing given with
  | nil =>
    cases h
    exact .inl ⟨rfl, by simp⟩
  | cons r order ih =>
    unfold firstMatch at h
    cases hrun : r.run c with
    | ok m =>
      rw [hrun] at h
      cases h
    | error f =>
      rw [hrun] at h
      dsimp only at h
      unfold nearer at h
      split at h
      next hlt =>
        -- The failure of `r` is kept, or a later one takes its place.
        have hfar : c.pos < f.furthest := Nat.lt_of_le_of_lt hgiven hlt
        have hnext : c.pos ≤ (some f).elim c.pos Failure.furthest := Nat.le_of_lt hfar
        rcases ih hnext h with ⟨rfl, -⟩ | ⟨q, hq, g, hbest, hg⟩
        · exact .inr ⟨r, by simp, f, rfl, hrun, hfar⟩
        · exact .inr ⟨q, by simp [hq], g, hbest, hg⟩
      next hle =>
        rcases ih hgiven h with ⟨rfl, hothers⟩ | ⟨q, hq, g, hbest, hg⟩
        · refine .inl ⟨rfl, ?_⟩
          intro q hq g hg
          rcases List.mem_cons.mp hq with rfl | hq
          · cases hrun.symm.trans hg
            exact Nat.le_of_not_lt hle
          · exact hothers q hq g hg
        · exact .inr ⟨q, by simp [hq], g, hbest, hg⟩

/-- Where no class matches, the nearest failure is found. -/
theorem isNearest_of_firstMatch {c : Cursor} {best : Option Failure}
    (horder : Admissible order) (h : firstMatch c order none = .error best) : IsNearest c best := by
  rcases cases_of_firstMatch_eq_error (Nat.le_refl c.pos) h with ⟨rfl, hall⟩ | ⟨r, hr, f, rfl, hf⟩
  · intro r hr
    exact hall r (horder.perm.mem_iff.mpr hr)
  · exact ⟨r, horder.perm.mem_iff.mp hr, hf⟩

/-! ### Steps and scans -/

/-- In any admissible order the same match comes first, or the same failure is nearest. -/
theorem firstMatch_eq_of_admissible (horder : Admissible order) (c : Cursor) :
    firstMatch c order none = firstMatch c Recognizer.priority none := by
  -- The orders hold the same classes, so all of them fail in one order if they do in another.
  have hfail (best : Option Failure) {order order' : List Recognizer} (horder : Admissible order)
      (horder' : Admissible order') (h : firstMatch c order none = .error best) :
      ∃ best', firstMatch c order' none = .error best' := by
    have hall := exists_firstMatch_eq_error_iff.mp ⟨best, h⟩
    exact exists_firstMatch_eq_error_iff.mpr fun q hq =>
      hall q (horder.perm.mem_iff.mpr (horder'.perm.mem_iff.mp hq))
  cases hfirst : firstMatch c order none with
  | ok m =>
    cases hfirst' : firstMatch c Recognizer.priority none with
    | ok n =>
      obtain ⟨q, hq⟩ := exists_counts_of_firstMatch horder hfirst
      obtain ⟨r, hr⟩ := exists_counts_of_firstMatch admissible_priority hfirst'
      rw [hq.unique hr]
    | error best =>
      obtain ⟨best', hbest'⟩ := hfail best admissible_priority horder hfirst'
      cases hfirst.symm.trans hbest'
  | error best =>
    obtain ⟨best', hbest'⟩ := hfail best horder admissible_priority hfirst
    rw [hbest']
    exact congrArg Except.error ((isNearest_of_firstMatch horder hfirst).unique
      (isNearest_of_firstMatch admissible_priority hbest'))

/-- What a step emits counts, as a match of the class of its kind. -/
theorem counts_of_emit {c : Cursor} {m : Match} (h : step Recognizer.priority c = .emit m) :
    Counts c m.kind.recognizer m := by
  obtain ⟨r, hcounts⟩ := exists_counts_of_firstMatch admissible_priority (step_eq_emit_iff.mp h)
  rwa [Recognizer.kind_of_run hcounts.run]

/-- A step emits the match that counts. -/
theorem Counts.step_eq_emit {c : Cursor} {r : Recognizer} {m : Match} (h : Counts c r m) :
    step Recognizer.priority c = .emit m := by
  refine step_eq_emit_iff.mpr ?_
  cases hfirst : firstMatch c Recognizer.priority none with
  | ok n =>
    obtain ⟨q, hq⟩ := exists_counts_of_firstMatch admissible_priority hfirst
    rw [hq.unique h]
  | error best =>
    obtain ⟨f, hf⟩ := exists_firstMatch_eq_error_iff.mp ⟨best, hfirst⟩ r h.mem
    cases hf.symm.trans h.run

/-- So a step does not depend on the order. -/
theorem step_eq_of_admissible (horder : Admissible order) (c : Cursor) :
    step order c = step Recognizer.priority c := by
  unfold step
  rw [firstMatch_eq_of_admissible horder]

/-- Scans in admissible orders find the same. -/
theorem scanAt_eq_of_admissible (horder : Admissible order) (c : Cursor) :
    scanAt order c = scanAt Recognizer.priority c := by
  obtain ⟨ts, d, failure, hrun, hscan⟩ := run_scanAt order c
  have hrun' : Run Recognizer.priority c ts d failure :=
    hrun.of_step_eq (step_eq_of_admissible horder)
  rw [hscan, scanAt_of_run hrun']

/-! ### First match, longest match -/

/-- What two classes recognize at an offset, they match at the same cursor. -/
theorem exists_runs_of_recognize {q r : Recognizer} {text : List Char} {pos : Nat} {t u : Token}
    (hq : q.recognize text pos = .ok (.ok t)) (hr : r.recognize text pos = .ok (.ok u)) :
    ∃ c m n, q.run c = .ok m ∧ m.token c = t ∧ r.run c = .ok n ∧ n.token c = u := by
  obtain ⟨c, m, hc, hpos, hm, ht⟩ := Recognizer.recognize_eq_ok_iff.mp hq
  obtain ⟨d, n, hd, hpos', hn, hu⟩ := Recognizer.recognize_eq_ok_iff.mp hr
  obtain rfl := hc.unique hd (hpos.trans hpos'.symm)
  exact ⟨c, m, n, hm, ht, hn, hu⟩

/-- The first match is the longest, and the order of the classes does not matter beyond that
punctuation comes late. At any offset of any text at most one class other than punctuation
recognizes something. If punctuation does so as well, the other token is a comment or a number and
not shorter. So the first match is as long as any, and scans with the classes in any admissible
order have the same tokens, the same stop and the same failure. -/
theorem first_match_longest_and_order_free (text : List Char) :
    (∀ (pos : Nat) (q r : Recognizer) (t u : Token), q ≠ .symbol → r ≠ .symbol →
      q.recognize text pos = .ok (.ok t) → r.recognize text pos = .ok (.ok u) → q = r) ∧
    (∀ (pos : Nat) (r : Recognizer) (t u : Token), r ≠ .symbol →
      r.recognize text pos = .ok (.ok t) → Recognizer.symbol.recognize text pos = .ok (.ok u) →
      (r = .comment ∨ r = .number) ∧ u.stop ≤ t.stop) ∧
    (∀ (t : Token) (r : Recognizer) (u : Token), IsFirstMatch Recognizer.priority text t →
      r.recognize text t.start = .ok (.ok u) → u.stop ≤ t.stop) ∧
    (∀ order, Admissible order → ∀ start, scanFromWith order text start = scanFrom text start) := by
  have hsymbol (pos : Nat) (r : Recognizer) (t u : Token) (hr : r ≠ .symbol)
      (ht : r.recognize text pos = .ok (.ok t))
      (hu : Recognizer.symbol.recognize text pos = .ok (.ok u)) :
      (r = .comment ∨ r = .number) ∧ u.stop ≤ t.stop := by
    obtain ⟨c, m, n, hm, rfl, hn, rfl⟩ := exists_runs_of_recognize ht hu
    exact Recognizer.of_run_of_run_symbol hr hm hn
  have hother (pos : Nat) (q r : Recognizer) (t u : Token) (hq : q ≠ .symbol) (hr : r ≠ .symbol)
      (ht : q.recognize text pos = .ok (.ok t)) (hu : r.recognize text pos = .ok (.ok u)) :
      q = r := by
    obtain ⟨c, m, n, hm, rfl, hn, rfl⟩ := exists_runs_of_recognize ht hu
    exact Recognizer.eq_of_run_of_run hq hr hm hn
  -- Two classes that match are the same, or one of them is punctuation.
  refine ⟨hother, hsymbol, ?_, ?_⟩
  · intro t r u ⟨earlier, q, later, horder, ht, hfail⟩ hu
    by_cases hqr : q = r
    · subst hqr
      cases ht.symm.trans hu
      exact Nat.le_refl _
    by_cases hr : r = .symbol
    · subst hr
      exact (hsymbol t.start q t u hqr ht hu).2
    by_cases hq : q = .symbol
    · -- Comments and numbers were tried before, and failed.
      subst hq
      have hearlier : r ∈ earlier := by
        rcases (hsymbol t.start r u t hr hu ht).1 with rfl | rfl
        · exact mem_of_idxOf_lt (horder ▸ admissible_priority.comment_first)
        · exact mem_of_idxOf_lt (horder ▸ admissible_priority.number_first)
      obtain ⟨f, hf⟩ := hfail r hearlier
      cases hf.symm.trans hu
    · exact absurd (hother t.start q r t u hq hr ht hu) hqr
  · intro order horder start
    unfold scanFrom scanFromWith
    cases locate text start with
    | boundary rest => exact congrArg Except.ok (scanAt_eq_of_admissible horder ⟨start, rest⟩)
    | inside => rfl
    | beyond => rfl

/-- Scanning with names first and comments last but for punctuation. -/
theorem first_match_longest_and_order_free_of_reordering :
    Admissible [.identifier, .number, .string, .comment, .symbol] ∧
      scanFromWith [.identifier, .number, .string, .comment, .symbol] "&a-1(*+*)&8".toList 0
        = scanFrom "&a-1(*+*)&8".toList 0 := by
  have horder : Admissible [.identifier, .number, .string, .comment, .symbol] :=
    ⟨by decide, by decide, by decide⟩
  exact ⟨horder, (first_match_longest_and_order_free "&a-1(*+*)&8".toList).2.2.2 _ horder 0⟩

end PascalScan
