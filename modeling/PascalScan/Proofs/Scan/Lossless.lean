import PascalScan.Proofs.Lexical.Kinds
import PascalScan.Proofs.Scan.Run

/-!
# `PascalScan.Proofs.Scan.Lossless`: a scan accounts for every character

A scan reports tokens and passes over blanks, so the text can be put together again from the
tokens and the stretches between them. `Lossless` states this for a scan of a given source: the
tokens stand in order and do not overlap, each is what the text holds between its offsets and what
the first matching class recognizes there, the gaps hold blanks only, and gaps and tokens spell
out everything from the start to the stop. `scanFrom_lossless` proves it for every text and every
start, together with how a scan ends: at the end of the text, or in front of a character that is
no blank.

A run may take several steps to pass over one gap, and a gap may be empty. `Layout` puts that
right: it alternates gaps and tokens, and `layout_of_run` gathers the steps. The parts of
`Lossless` are then short inductions over a layout.
-/

set_option autoImplicit false

namespace PascalScan

open Text

variable {order : List Recognizer}

/-! ### What is said about a scan -/

/-- The stretches between the tokens: one in front of each token, and one behind the last, all
given by their offsets. -/
def gaps (start stop : Nat) : List Token → List (Nat × Nat)
  | [] => [(start, stop)]
  | t :: ts => (start, t.start) :: gaps t.stop stop ts

/-- The gaps and the tokens, written one after the other. -/
def spelled (text : List Char) (start stop : Nat) : List Token → List Char
  | [] => slice text start stop
  | t :: ts => slice text start t.start ++ slice text t.start t.stop ++ spelled text t.stop stop ts

/-- The token is what the first of the classes that matches at its start recognizes there. -/
def IsFirstMatch (order : List Recognizer) (text : List Char) (t : Token) : Prop :=
  ∃ earlier r later, order = earlier ++ r :: later ∧ r.recognize text t.start = .ok (.ok t) ∧
    ∀ q ∈ earlier, ∃ f, q.recognize text t.start = .ok (.error f)

/-- What a scan owes to each of its tokens. -/
structure IsToken (source : String) (t : Token) : Prop where
  /-- It is not empty. -/
  start_lt_stop : t.start < t.stop
  /-- Blanks are passed over, not made into tokens. -/
  kind_ne_blank : t.kind ≠ .blank
  /-- Its value is what the text holds between its offsets. -/
  value : ∃ cs, slice? source.toList t.start t.stop = some cs ∧
    (Tree.label t).text source = String.ofList cs
  /-- It is the first match at its start. -/
  first : IsFirstMatch Recognizer.priority source.toList t

/-- The scan accounts for all of `source` between its start and its stop. -/
structure Lossless (source : String) (s : Scan) : Prop where
  /-- The tokens stand in the order of the text and do not overlap. -/
  ordered : s.tokens.Pairwise fun t u => t.stop ≤ u.start
  /-- Each token is one. -/
  token : ∀ t ∈ s.tokens, IsToken source t
  /-- Between the tokens there are blanks only. -/
  gap : ∀ g ∈ gaps s.start s.stop s.tokens,
    ∃ cs, slice? source.toList g.1 g.2 = some cs ∧ ∀ ch ∈ cs, isBlank ch
  /-- Gaps and tokens spell out what was scanned. -/
  spells : slice? source.toList s.start s.stop
    = some (spelled source.toList s.start s.stop s.tokens)

/-! ### Tokens -/

/-- The first match at the offset of a cursor is the first match at the cursor. -/
theorem isFirstMatch_iff {c : Cursor} {text : List Char} {t : Token} (hc : c.StandsIn text) :
    IsFirstMatch order text t ∧ t.start = c.pos ↔
      ∃ m, firstMatch c order none = .ok m ∧ m.token c = t := by
  have hat (q : Recognizer) : q.recognize text c.pos = .ok ((q.run c).map (·.token c)) :=
    Recognizer.recognize_of_standsIn hc
  -- Both sides name the class that matches and those that fail before it.
  constructor
  · intro ⟨⟨earlier, r, later, horder, hr, hfail⟩, hstart⟩
    rw [hstart, hat] at hr
    cases hrun : r.run c with
    | error f =>
      rw [hrun] at hr
      cases Except.ok.inj hr
    | ok m =>
      rw [hrun] at hr
      refine ⟨m, firstMatch_eq_ok_iff.mpr ⟨earlier, r, later, horder, hrun, fun q hq => ?_⟩,
        Except.ok.inj (Except.ok.inj hr)⟩
      obtain ⟨f, hf⟩ := hfail q hq
      rw [hstart, hat] at hf
      cases hq : q.run c with
      | error g => exact ⟨g, rfl⟩
      | ok n =>
        rw [hq] at hf
        cases Except.ok.inj hf
  · rintro ⟨m, hm, rfl⟩
    obtain ⟨earlier, r, later, horder, hr, hfail⟩ := firstMatch_eq_ok_iff.mp hm
    refine ⟨⟨earlier, r, later, horder, (hat r).trans (by rw [hr]; rfl), fun q hq => ?_⟩, rfl⟩
    obtain ⟨f, hf⟩ := hfail q hq
    exact ⟨f, (hat q).trans (by rw [hf]; rfl)⟩

/-- What a step emits is the first match there. -/
theorem isFirstMatch_of_emit {c : Cursor} {m : Match} {text : List Char} (hc : c.StandsIn text)
    (h : step order c = .emit m) : IsFirstMatch order text (m.token c) :=
  ((isFirstMatch_iff hc).mpr ⟨m, step_eq_emit_iff.mp h, rfl⟩).1

/-- What a step of a scan emits is no run of blanks, since the class that makes these is not among
those that make tokens. -/
theorem kind_ne_blank_of_emit {c : Cursor} {m : Match}
    (h : step Recognizer.priority c = .emit m) : m.kind ≠ .blank := by
  intro hkind
  have hmem := (run_of_emit h).1
  rw [hkind] at hmem
  exact absurd hmem (by decide)

/-- What a step of a scan emits is a token. -/
theorem isToken_of_emit {c : Cursor} {m : Match} {source : String}
    (hc : c.StandsIn source.toList) (h : step Recognizer.priority c = .emit m) :
    IsToken source (m.token c) := by
  obtain ⟨s, hs, hr⟩ := readsFrom_of_emit h
  have hslice : slice? source.toList c.pos m.next.pos = some s := hc.slice?_of_reads hr
  exact ⟨hr.pos_lt hs, kind_ne_blank_of_emit h, ⟨s, hslice, excerpt_eq_of_slice? hslice⟩,
    isFirstMatch_of_emit hc h⟩

/-! ### Layouts -/

/-- Between the two cursors the text consists of the tokens, which the steps of a scan emit, with
blanks in front of each of them and behind the last. -/
inductive Layout (order : List Recognizer) : Cursor → List Token → Cursor → Prop where
  /-- Blanks, and no further token. -/
  | blanks {c d : Cursor} {gap : List Char} (hgap : c.Reads gap d)
      (hblank : ∀ ch ∈ gap, isBlank ch) : Layout order c [] d
  /-- Blanks, and a token behind them. -/
  | token {c d e : Cursor} {gap : List Char} {m : Match} {ts : List Token}
      (hgap : c.Reads gap d) (hblank : ∀ ch ∈ gap, isBlank ch) (hstep : step order d = .emit m)
      (tail : Layout order m.next ts e) : Layout order c (m.token d :: ts) e

/-- Blanks in front of a layout make its first gap longer. -/
theorem Layout.of_blanks {c next d : Cursor} {gap : List Char} {ts : List Token}
    (hgap : c.Reads gap next) (hblank : ∀ ch ∈ gap, isBlank ch) (h : Layout order next ts d) :
    Layout order c ts d := by
  have happend {more : List Char} (hmore : ∀ ch ∈ more, isBlank ch) :
      ∀ ch ∈ gap ++ more, isBlank ch := by
    intro ch hch
    rcases List.mem_append.mp hch with hch | hch
    · exact hblank ch hch
    · exact hmore ch hch
  cases h with
  | blanks hmore hb => exact .blanks (hgap.trans hmore) (happend hb)
  | token hmore hb hstep tail => exact .token (hgap.trans hmore) (happend hb) hstep tail

/-- A run lays the text out. -/
theorem layout_of_run {c d : Cursor} {ts : List Token} {failure : Option Failure}
    (h : Run order c ts d failure) : Layout order c ts d := by
  -- A token ends the gap in front of it. Blanks go to the gap of whatever comes behind them.
  induction h with
  | done => exact .blanks (.refl _) (by simp)
  | emit hstep _ ih => exact .token (.refl _) (by simp) hstep ih
  | skip hstep _ ih =>
    obtain ⟨gap, -, hgap, hblank, -⟩ := blanks_of_skip hstep
    exact ih.of_blanks hgap hblank
  | halt => exact .blanks (.refl _) (by simp)

/-- No token of a layout starts in front of it. -/
theorem Layout.pos_le_start {c d : Cursor} {ts : List Token} (h : Layout order c ts d) :
    ∀ t ∈ ts, c.pos ≤ t.start := by
  induction h with
  | blanks => simp
  | token hgap _ hstep _ ih =>
    obtain ⟨value, -, hvalue⟩ := readsFrom_of_emit hstep
    intro t ht
    rcases List.mem_cons.mp ht with rfl | ht
    · exact hgap.pos_le
    · exact Nat.le_trans hgap.pos_le (Nat.le_trans hvalue.pos_le (ih t ht))

/-- The tokens of a layout stand in order. -/
theorem Layout.ordered {c d : Cursor} {ts : List Token} (h : Layout order c ts d) :
    ts.Pairwise fun t u => t.stop ≤ u.start := by
  induction h with
  | blanks => exact .nil
  | token _ _ _ tail ih => exact .cons tail.pos_le_start ih

/-- The tokens of a layout are tokens of its text. -/
theorem Layout.isToken {c d : Cursor} {ts : List Token} {source : String}
    (h : Layout Recognizer.priority c ts d) (hc : c.StandsIn source.toList) :
    ∀ t ∈ ts, IsToken source t := by
  induction h with
  | blanks => simp
  | token hgap _ hstep _ ih =>
    obtain ⟨value, -, hvalue⟩ := readsFrom_of_emit hstep
    have hd := hc.of_reads hgap
    intro t ht
    rcases List.mem_cons.mp ht with rfl | ht
    · exact isToken_of_emit hd hstep
    · exact ih (hd.of_reads hvalue) t ht

/-- The gaps of a layout hold blanks. -/
theorem Layout.gap {c d : Cursor} {ts : List Token} {text : List Char}
    (h : Layout order c ts d) (hc : c.StandsIn text) :
    ∀ g ∈ gaps c.pos d.pos ts,
      ∃ cs, slice? text g.1 g.2 = some cs ∧ ∀ ch ∈ cs, isBlank ch := by
  induction h with
  | blanks hgap hblank =>
    intro g hg
    obtain rfl := List.mem_singleton.mp hg
    exact ⟨_, hc.slice?_of_reads hgap, hblank⟩
  | token hgap hblank hstep _ ih =>
    obtain ⟨value, -, hvalue⟩ := readsFrom_of_emit hstep
    intro g hg
    rcases List.mem_cons.mp hg with rfl | hg
    · exact ⟨_, hc.slice?_of_reads hgap, hblank⟩
    · exact ih ((hc.of_reads hgap).of_reads hvalue) g hg

/-- Gaps and tokens of a layout spell out what lies between its cursors. -/
theorem Layout.reads_spelled {c d : Cursor} {ts : List Token} {text : List Char}
    (h : Layout order c ts d) (hc : c.StandsIn text) :
    c.Reads (spelled text c.pos d.pos ts) d := by
  induction h with
  | blanks hgap _ =>
    show Cursor.Reads _ (slice text _ _) _
    rw [hc.slice_of_reads hgap]
    exact hgap
  | @token c d e gap m ts hgap _ hstep _ ih =>
    obtain ⟨value, -, hvalue⟩ := readsFrom_of_emit hstep
    have hd := hc.of_reads hgap
    show c.Reads (slice text c.pos d.pos ++ slice text d.pos m.next.pos
      ++ spelled text m.next.pos e.pos ts) e
    rw [hc.slice_of_reads hgap, hd.slice_of_reads hvalue]
    exact (hgap.trans hvalue).trans (ih (hd.of_reads hvalue))

/-! ### Every scan is lossless -/

/-- A scan from any boundary of any text has an answer, and its answer accounts for every
character between the start and the stop. The scan is good exactly when it reports no failure,
and exactly when it got to the end of the text; a scan that fails stops short of it, in front of
a character that is no blank. -/
theorem scanFrom_lossless (source : String) (start : Nat)
    (hstart : IsBoundary source.toList start) :
    ∃ s, scanFrom source.toList start = .ok s ∧ s.start = start ∧ Lossless source s ∧
      (s.status = .ok ↔ s.failure = none) ∧
      (s.failure = none ↔ s.stop = byteSize source.toList) ∧
      (s.status = .fail → s.stop < byteSize source.toList ∧
        ∃ ch, charAt? source.toList s.stop = some ch ∧ isBlank ch = false) := by
  obtain ⟨rest, hrest⟩ := hstart
  obtain ⟨ts, d, failure, hrun, hscan⟩ := run_scanFrom hrest
  have hc : (Cursor.mk start rest).StandsIn source.toList := hrest
  obtain ⟨s, hreads⟩ := run_reads hrun
  have hd : d.StandsIn source.toList := hc.of_reads hreads
  have hlayout := layout_of_run hrun
  -- Where the tokens lie is the layout of the run. How the scan ends is seen from its last step.
  refine ⟨_, hscan, rfl, ?_, ?_, ?_, ?_⟩
  · exact ⟨hlayout.ordered, hlayout.isToken hc, hlayout.gap hc,
      hc.slice?_of_reads (hlayout.reads_spelled hc)⟩
  · cases failure <;> simp [Scan.status]
  · rw [hd.pos_eq_byteSize_iff]
    rcases run_end hrun with ⟨hnone, hnil⟩ | ⟨f, ch, cs, hsome, hcs, -⟩
    · simp [hnone, hnil]
    · simp [hsome, hcs]
  · intro hfail
    rcases run_end hrun with ⟨hnone, -⟩ | ⟨f, ch, cs, -, hcs, hhalt⟩
    · simp [Scan.status, hnone] at hfail
    · have hblank : isBlank ch = false := not_blank_of_halt hhalt ch (by simp [hcs])
      refine ⟨Nat.lt_of_le_of_ne hd.pos_le_byteSize ?_, ch, ?_, hblank⟩
      · intro hend
        rw [hd.pos_eq_byteSize_iff.mp hend] at hcs
        cases hcs
      · show charAt? source.toList d.pos = some ch
        rw [hd.charAt?, hcs]
        rfl

/-- A scan that starts behind a character of two bytes, nests comments, and fails at an ampersand
that introduces neither a name nor a number. -/
theorem scanFrom_lossless_of_failing_text :
    IsBoundary "é x\x7b(*)*)\x7d\t'a'#9 & é".toList 2 ∧
      ∃ s, scanFrom "é x\x7b(*)*)\x7d\t'a'#9 & é".toList 2 = .ok s ∧
        Lossless "é x\x7b(*)*)\x7d\t'a'#9 & é" s := by
  obtain ⟨s, hscan, -, hlossless, -⟩ :=
    scanFrom_lossless "é x\x7b(*)*)\x7d\t'a'#9 & é" 2 (by decide)
  exact ⟨by decide, s, hscan, hlossless⟩

end PascalScan
