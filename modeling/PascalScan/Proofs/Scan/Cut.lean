import PascalScan.Proofs.Lexical.Apart
import PascalScan.Proofs.Scan.Order
import PascalScan.Proofs.Scan.Reach
import PascalScan.Proofs.Scan.Shift

/-!
# `PascalScan.Proofs.Scan.Cut`: the scan of a text that is cut behind a token

A scan has looked beyond the tokens that it has found, and some of its decisions rest on what it has
seen there. Still, where a text is cut right behind a token, the scan of what is left finds the same
tokens up to that one (`Reaches.of_followedBy`).

Each match in front of the cut stays one. What has to be shown is that no class matches that had
failed before, so that another would be the first match. This could only be a number with a sign
that fails because its exponent has no digits, when the cut takes the exponent away. But then the
scan of the whole text halts behind the sign, and the cut is right there.
-/

set_option autoImplicit false

namespace PascalScan

open Text

variable {v : List Char}

/-! ### Steps in front of blanks -/

/-- In front of a blank a step passes over all blanks that stand there. -/
theorem step_of_blank {c : Cursor} {ch : Char} (hch : ch ∈ c.rest.head?) (hblank : isBlank ch) :
    step Recognizer.priority c = .skip (c.skipWhile isBlank) := by
  obtain ⟨cs, hrest⟩ := List.head?_eq_some_iff.mp hch
  have hrun : c.eatRun isBlank isBlank = some (c.skipWhile isBlank) := by
    refine Cursor.eatRun_eq_some_iff.mpr ⟨ch, cs.takeWhile isBlank, hblank, ?_, ?_, ?_⟩
    · intro x hx
      exact Cursor.fits_of_mem_takeWhile hx
    · rw [← List.takeWhile_cons_of_pos hblank, ← hrest]
      exact Cursor.skipWhile_reads isBlank c
    · intro x hx
      exact Cursor.not_fits_of_mem_head?_dropWhile hx
  -- no class that makes a token starts with a blank
  refine step_eq_skip_iff.mpr ⟨fun q hq => ?_, _, Recognizer.run_blank_eq_ok_iff.mpr ⟨_, hrun, rfl⟩, rfl⟩
  exact Recognizer.exists_error_of_blank hq hch hblank

/-! ### Steps in front of a cut -/

/-- A run of blanks in front of a cut is passed over when the text is cut. -/
theorem skip_of_followedBy {c next : Cursor}
    (h : step Recognizer.priority (c.followedBy v) = .skip (next.followedBy v)) :
    step Recognizer.priority c = .skip next := by
  obtain ⟨gap, hne, hgap, hblank, hstop⟩ := blanks_of_skip h
  have hread : c.Reads gap next := Cursor.reads_followedBy_iff.mp hgap
  have hskip : c.skipWhile isBlank = next :=
    Cursor.skipWhile_eq_of_reads hread hblank fun ch hch => hstop ch (Cursor.mem_head?_followedBy hch)
  obtain ⟨ch, cs, rfl⟩ := List.exists_cons_of_ne_nil hne
  have hhead : ch ∈ c.rest.head? := by simp [hread.1]
  rw [step_of_blank hhead (hblank ch (by simp)), hskip]

/-- A token in front of a cut is found when the text is cut, provided that the steps behind the
token get to the cut. -/
theorem emit_of_followedBy {c d : Cursor} {m : Match} {ts : List Token}
    (h : step Recognizer.priority (c.followedBy v) = .emit (m.followedBy v))
    (hd : d.rest = [])
    (hreach : Reaches Recognizer.priority (m.next.followedBy v) ts (d.followedBy v)) :
    step Recognizer.priority c = .emit m := by
  obtain ⟨r, hcounts⟩ := exists_counts_of_firstMatch admissible_priority (step_eq_emit_iff.mp h)
  have hrun : r.run c = .ok m := Recognizer.run_of_followedBy hcounts.run
  refine Counts.step_eq_emit (r := r) ⟨hcounts.mem, hrun, ?_⟩
  rintro rfl q hq
  obtain ⟨f, hf⟩ := hcounts.symbol rfl q hq
  cases hcut : q.run c with
  | error g => exact ⟨g, rfl⟩
  | ok n =>
    exfalso
    -- The class that fails on the whole text would have matched there as well.
    obtain ⟨n', hn'⟩ : ∃ n', q.run (c.followedBy v) = .ok n' := by
      rcases hq with rfl | rfl
      · exact Recognizer.exists_comment_followedBy hcut
      · rcases hreach.eq_or_exists_run with heq | ⟨r, m', s, hr, hs⟩
        · -- The cut is right behind the sign, so the number has nothing left.
          obtain ⟨ch, -, -, hunsigned⟩ := Recognizer.sign_of_number_and_symbol hcut hrun
          have hne := (Number.readsFrom_of_unsigned hunsigned).rest_ne_nil
          rw [Cursor.followedBy_inj heq] at hne
          exact absurd hd hne
        · obtain ⟨next, hnext, -⟩ := Cursor.exists_eq_followedBy_of_reads hs
          have hbehind : r.run (m.next.followedBy v)
              = .ok (Match.followedBy v ⟨m'.kind, m'.inner, next⟩) := by
            rw [hr, Match.followedBy, ← hnext]
          exact Recognizer.exists_number_followedBy hcut hrun hbehind
    cases hf.symm.trans hn'

/-! ### Scans up to a cut -/

/-- The steps that get to a cut are taken alike when the text is cut. -/
theorem Reaches.of_followedBy {c d : Cursor} {ts : List Token} (hd : d.rest = [])
    (h : Reaches Recognizer.priority (c.followedBy v) ts (d.followedBy v)) :
    Reaches Recognizer.priority c ts d := by
  generalize hfull : c.followedBy v = full at h
  generalize hstop : d.followedBy v = stop at h
  -- Each cursor on the way stands in front of the cut, since what is read behind it gets there.
  induction h generalizing c with
  | refl =>
    obtain rfl := Cursor.followedBy_inj (hfull.trans hstop.symm)
    exact .refl
  | @emit full stop m ts hstep tail ih =>
    subst hfull hstop
    obtain ⟨s, hs⟩ := tail.reads
    obtain ⟨next, hnext, -⟩ := Cursor.exists_eq_followedBy_of_reads hs
    obtain ⟨kind, inner, next'⟩ := m
    obtain rfl : next' = next.followedBy v := hnext
    have hemit : step Recognizer.priority c = .emit ⟨kind, inner, next⟩ :=
      emit_of_followedBy hstep hd tail
    have htail : Reaches Recognizer.priority next ts d := ih rfl rfl
    exact Reaches.emit (m := ⟨kind, inner, next⟩) hemit htail
  | skip hstep tail ih =>
    subst hfull hstop
    obtain ⟨s, hs⟩ := tail.reads
    obtain ⟨next, rfl, -⟩ := Cursor.exists_eq_followedBy_of_reads hs
    exact .skip (skip_of_followedBy hstep) (ih rfl rfl)

/-- Cut where the steps of its scan have got to, a text scans without a failure, to the tokens found
up to there. -/
theorem scan_of_reaches {text : List Char} {ts : List Token} {d : Cursor}
    (h : Reaches Recognizer.priority ⟨0, text⟩ ts d) :
    ∃ part, text = part ++ d.rest ∧ d.pos = byteSize part ∧
      scan part = ⟨0, d.pos, ts, none⟩ := by
  obtain ⟨part, hrest, hpos⟩ := h.reads
  obtain rfl : text = part ++ d.rest := hrest
  have hcut : Reaches Recognizer.priority ⟨0, part⟩ ts ⟨d.pos, []⟩ :=
    Reaches.of_followedBy (v := d.rest) rfl h
  refine ⟨part, rfl, by rw [hpos, Nat.zero_add], ?_⟩
  have hscan := scanAt_of_run (hcut.run_of_done rfl)
  exact hscan

/-- The tokens of a cut text have the values that they have in the whole text. -/
theorem text_of_mem_scan_of_part {source part : String} {after : List Char}
    (hsource : source.toList = part.toList ++ after) {t u : Token}
    (ht : t ∈ (scan part.toList).tokens) (hu : Tree.Within u t) :
    (Tree.label u).text source = (Tree.label u).text part := by
  have hpart : source.toList = [] ++ part.toList ++ after := hsource
  exact (liesIn_of_mem_scan ht u hu).text_of_part hpart

/-- A text that is cut right behind a token scans without a failure, to the tokens up to that one,
each of the same kind, at the same offsets, with the same comments inside and, at any depth, with
the same value. And a text that is cut where its scan stops scans to all tokens, so those that a
scan has found before it failed are the scan of what it got through. -/
theorem scan_cut_behind_token (source : String) :
    (∀ (i : Nat) (hi : i < (scan source.toList).tokens.length), ∃ part : String,
      slice? source.toList 0 ((scan source.toList).tokens[i]).stop = some part.toList ∧
      scan part.toList = ⟨0, ((scan source.toList).tokens[i]).stop,
        (scan source.toList).tokens.take (i + 1), none⟩ ∧
      ∀ t ∈ (scan part.toList).tokens, ∀ u, Tree.Within u t →
        (Tree.label u).text part = (Tree.label u).text source) ∧
    ∃ part : String,
      slice? source.toList 0 (scan source.toList).stop = some part.toList ∧
      scan part.toList = ⟨0, (scan source.toList).stop, (scan source.toList).tokens, none⟩ ∧
      ∀ t ∈ (scan part.toList).tokens, ∀ u, Tree.Within u t →
        (Tree.label u).text part = (Tree.label u).text source := by
  obtain ⟨ts, d, failure, hrun, hscan⟩ := run_scanAt Recognizer.priority ⟨0, source.toList⟩
  -- Any cursor that the scan gets to may be the cut: the ends of tokens, and the place where it
  -- stops.
  have hcut {us : List Token} {e : Cursor}
      (h : Reaches Recognizer.priority ⟨0, source.toList⟩ us e) :
      ∃ part : String, slice? source.toList 0 e.pos = some part.toList ∧
        scan part.toList = ⟨0, e.pos, us, none⟩ ∧
        ∀ t ∈ (scan part.toList).tokens, ∀ u, Tree.Within u t →
          (Tree.label u).text part = (Tree.label u).text source := by
    obtain ⟨cs, htext, hpos, hpart⟩ := scan_of_reaches h
    obtain ⟨part, rfl⟩ : ∃ part : String, part.toList = cs :=
      ⟨String.ofList cs, String.toList_ofList⟩
    refine ⟨part, ?_, hpart, fun t ht u hu => (text_of_mem_scan_of_part htext ht hu).symm⟩
    exact slice?_eq_some_iff.mpr ⟨[], e.rest, htext, rfl, hpos⟩
  have hwhole : scan source.toList = ⟨0, d.pos, ts, failure⟩ := hscan
  rw [hwhole]
  refine ⟨fun i hi => ?_, hcut hrun.reaches⟩
  obtain ⟨e, he, hpos⟩ := hrun.reaches_token i hi
  rw [← hpos]
  exact hcut he

/-- The scan halts at a number whose exponent has no digits, behind a sign and an opener that is not
closed. The text cut behind the sign scans without a failure. -/
theorem scan_cut_behind_token_of_sign :
    2 < (scan "x(*+12e".toList).tokens.length ∧ ∃ part : String,
      slice? "x(*+12e".toList 0 4 = some part.toList ∧
      scan part.toList = ⟨0, 4, (scan "x(*+12e".toList).tokens.take 3, none⟩ := by
  have hlength : 2 < (scan "x(*+12e".toList).tokens.length := by decide +kernel
  obtain ⟨part, hslice, hscan, -⟩ := (scan_cut_behind_token "x(*+12e").1 2 hlength
  have hstop : ∀ h : 2 < (scan "x(*+12e".toList).tokens.length,
      ((scan "x(*+12e".toList).tokens[2]).stop = 4 := by decide +kernel
  rw [hstop hlength] at hslice hscan
  exact ⟨hlength, part, hslice, hscan⟩

end PascalScan
