import PascalScan.Proofs.Comment.Recognition
import PascalScan.Proofs.Text.Steps

/-!
# `PascalScan.Proofs.Lexical.Failing`: where the failures of a class point

A failure has two offsets, the one that it points at and the one up to which the attempt got. Both
can be reached by reading on from where the class was asked, the second from the first
(`Failure.LiesAhead`). So they fall between characters, in this order, and not past the end of the
text. `Recognizer.liesAhead_of_run` says so for every class.

For some classes more is said, because their failures decide where a scan halts:

* `Name.not_isNameStart_of_recognize` and `Punctuation.not_isSymbol_of_recognize`: names and
  punctuation fail only in front of a character that starts none.
* `Quoted.failure_of_recognize`: an unclosed quote is reported where the string starts, a character
  code without digits where the digits are missing, and both are found further on.
* `Comment.unclosed_of_recognize`: a block comment that is opened and fails is still open at the end
  of the text, and the failure lists what is open. A line comment never fails.
-/

set_option autoImplicit false

namespace PascalScan

open Text

/-! ### What a failure says -/

/-- The failure has this wording and these offsets. -/
def Failure.Says (f : Failure) (message : String) (pos furthest : Nat) : Prop :=
  f.cause.message = message ∧ f.pos = pos ∧ f.furthest = furthest

/-! ### Failures that lie ahead -/

/-- The failure points at a place that is reached by reading on from the cursor, and the attempt got
to a place that is reached by reading on from there. -/
def Failure.LiesAhead (f : Failure) (c : Cursor) : Prop :=
  ∃ (s t : List Char) (d e : Cursor),
    c.Reads s d ∧ d.Reads t e ∧ f.pos = d.pos ∧ f.furthest = e.pos

/-- A failure on the spot lies ahead if the spot does. -/
theorem Failure.liesAhead_onSpot {c d : Cursor} {s : List Char} {cause : Cause}
    (hr : c.Reads s d) : (Failure.onSpot cause d.pos).LiesAhead c :=
  ⟨s, [], d, d, hr, .refl d, rfl, rfl⟩

/-- A failure where the class was asked lies ahead if the attempt read on. -/
theorem Failure.liesAhead_of_reads {c e : Cursor} {t : List Char} {cause : Cause}
    (hr : c.Reads t e) : (Failure.mk cause c.pos e.pos).LiesAhead c :=
  ⟨[], t, c, e, .refl c, hr, rfl, rfl⟩

/-- What lies ahead of a cursor further on lies ahead. -/
theorem Failure.LiesAhead.of_reads {f : Failure} {c d : Cursor} {s : List Char}
    (h : f.LiesAhead d) (hr : c.Reads s d) : f.LiesAhead c := by
  obtain ⟨s', t, d', e, hd, he, hpos, hfar⟩ := h
  exact ⟨s ++ s', t, d', e, hr.trans hd, he, hpos, hfar⟩

/-! ### Numbers -/

namespace Number

/-- Where digits are missing, the failure points at the place. -/
theorem liesAhead_of_digits {base : Base} {c : Cursor} {f : Failure}
    (h : digits base c = .error f) : f.LiesAhead c := by
  unfold digits at h
  split at h
  next => cases h
  next =>
    cases h
    exact Failure.liesAhead_onSpot (.refl c)

/-- The failure of an exponent without digits points behind its sign. -/
theorem liesAhead_of_exponent {c : Cursor} {f : Failure} (h : exponent c = .error f) :
    f.LiesAhead c := by
  unfold exponent at h
  split at h
  next => cases h
  next marked hmarked =>
    obtain ⟨ch, -, hmark⟩ := Cursor.eat_eq_some_iff.mp hmarked
    obtain ⟨sign, hsign⟩ := Cursor.eatOptional_reads isSign marked
    dsimp only at h
    split at h
    next => cases h
    next =>
      cases h
      exact Failure.liesAhead_onSpot (hmark.trans hsign)

/-- A decimal number fails where its digits or those of its exponent are missing. -/
theorem liesAhead_of_decimal {c : Cursor} {f : Failure} (h : decimal c = .error f) :
    f.LiesAhead c := by
  unfold decimal at h
  split at h
  next g hdigits =>
    cases h
    exact liesAhead_of_digits hdigits
  next whole hwhole =>
    obtain ⟨s, -, hs⟩ := digits_reads hwhole
    dsimp only at h
    split at h
    next g hexponent =>
      cases h
      -- The exponent stands behind the digits and the fraction.
      obtain ⟨t, ht⟩ := getD_fraction_reads whole
      exact (liesAhead_of_exponent hexponent).of_reads (hs.trans ht)
    next => cases h
    next => split at h <;> cases h

/-- Behind a marker, a number fails where its digits are missing. -/
theorem liesAhead_of_unsigned {c : Cursor} {f : Failure} (h : unsigned c = .error f) :
    f.LiesAhead c := by
  unfold unsigned at h
  split at h
  next =>
    cases h
    exact Failure.liesAhead_onSpot (.refl c)
  next d ds hrest =>
    split at h
    next base _ =>
      have hmarker : c.Reads [d] ⟨c.pos + d.utf8Size, ds⟩ := ⟨hrest, by simp⟩
      split at h
      next => cases h
      next g hdigits =>
        cases h
        exact (liesAhead_of_digits hdigits).of_reads hmarker
    next => exact liesAhead_of_decimal h

/-- The failure of a number also lies ahead of its sign. -/
theorem liesAhead_of_recognize {c : Cursor} {f : Failure} (h : recognize c = .error f) :
    f.LiesAhead c := by
  obtain ⟨sign, hsign⟩ := Cursor.eatOptional_reads isSign c
  exact (liesAhead_of_unsigned h).of_reads hsign

end Number

/-! ### Names and punctuation -/

namespace Name

/-- Without a name, no character that could start one comes next. -/
theorem not_isNameStart_of_recognize {c : Cursor} {f : Failure} (h : recognize c = .error f) :
    ∀ ch ∈ c.rest.head?, isNameStart ch = false := by
  unfold recognize at h
  split at h
  next marked hmarked =>
    intro ch hch
    obtain ⟨mark, hmark, hp⟩ := Cursor.exists_head_of_eat hmarked
    obtain rfl : ch = mark := Option.mem_unique hch hmark
    obtain rfl := beq_iff_eq.mp hp
    rfl
  next =>
    split at h
    next => cases h
    next hnone => exact Cursor.eatRun_eq_none_iff.mp hnone

/-- Behind an ampersand, a name fails in front of a character that starts none. -/
theorem exists_error_iff_of_mark {c : Cursor} {cs : List Char} (hrest : c.rest = '&' :: cs) :
    (∃ f, recognize c = .error f) ↔ ∀ ch ∈ cs.head?, isNameStart ch = false := by
  have hmark : c.eat isMark = some ⟨c.pos + '&'.utf8Size, cs⟩ :=
    Cursor.eat_eq_some_iff.mpr ⟨'&', rfl, hrest, by simp⟩
  unfold recognize
  -- With the ampersand read, it is all up to the character behind it.
  rw [hmark]
  dsimp only
  constructor
  · intro ⟨f, h⟩
    split at h
    next => cases h
    next hnone => exact Cursor.eatRun_eq_none_iff.mp hnone
  · intro hnext
    have hnone : (Cursor.mk (c.pos + '&'.utf8Size) cs).eatRun isNameStart isNamePart = none :=
      Cursor.eatRun_eq_none_iff.mpr hnext
    rw [hnone]
    exact ⟨_, rfl⟩

end Name

/-- Without punctuation, no mark of it comes next. -/
theorem Punctuation.not_isSymbol_of_recognize {c : Cursor} {f : Failure}
    (h : recognize c = .error f) : ∀ ch ∈ c.rest.head?, isSymbol ch = false := by
  have hsingle (h : recognizeSingle c = .error f) : ∀ ch ∈ c.rest.head?, isSymbol ch = false := by
    unfold recognizeSingle at h
    split at h
    next => cases h
    next hnone => exact Cursor.eat_eq_none_iff.mp hnone
  -- Where no pair is found, a single mark is looked for.
  unfold recognize at h
  split at h
  next =>
    split at h
    next => cases h
    next => exact hsingle h
  next => exact hsingle h

/-! ### Strings -/

namespace Quoted

/-- How a string that starts at offset `start` fails behind its start: a quote is not closed, or the
digits of a character code are missing. -/
inductive Defect (start : Nat) (c : Cursor) : Failure → Prop where
  | unclosedQuote {e : Cursor} {s : List Char} (hr : c.Reads s e) (hs : s ≠ []) :
      Defect start c ⟨.unclosedQuote, start, e.pos⟩
  | unsignedExpected {e : Cursor} {s : List Char} (hr : c.Reads s e) (hs : s ≠ []) :
      Defect start c (.onSpot .unsignedExpected e.pos)

/-- A defect of a later segment is one of the string. -/
theorem Defect.of_reads {start : Nat} {c d : Cursor} {s : List Char} {f : Failure}
    (h : Defect start d f) (hr : c.Reads s d) : Defect start c f := by
  cases h with
  | unclosedQuote he ht => exact .unclosedQuote (hr.trans he) (by simp [ht])
  | unsignedExpected he ht => exact .unsignedExpected (hr.trans he) (by simp [ht])

/-- A segment that fails has a defect right where it begins. -/
theorem defect_of_segment {start : Nat} {c : Cursor} {f : Failure}
    (h : segment start c = .error f) : Defect start c f := by
  unfold segment at h
  -- Either a quote stays open up to the end of the line, or a mark has no digits.
  split at h
  next opened hopened =>
    obtain ⟨quote, -, hquote⟩ := Cursor.eat_eq_some_iff.mp hopened
    dsimp only at h
    split at h
    next => cases h
    next =>
      cases h
      exact .unclosedQuote (hquote.trans (Cursor.skipWhile_reads isQuotable opened)) (by simp)
  next =>
    split at h
    next marked hmarked =>
      obtain ⟨mark, -, hmark⟩ := Cursor.eat_eq_some_iff.mp hmarked
      split at h
      next => cases h
      next =>
        cases h
        exact .unsignedExpected hmark (by simp)
    next => cases h

/-- The defect is that of the first segment that fails. -/
theorem defect_of_segments {start : Nat} {c : Cursor} {f : Failure}
    (h : segments start c = .error f) : Defect start c f := by
  fun_induction segments start c with
  | case1 c g hsegment =>
    cases h
    exact defect_of_segment hsegment
  | case2 => cases h
  | case3 c next hnext _ ih =>
    obtain ⟨s, -, hs⟩ := segment_reads hnext
    exact (ih h).of_reads hs

/-- No segment begins in front of a character that is neither a quote nor the mark of a code. -/
theorem not_leads_of_segment {start : Nat} {c : Cursor} (h : segment start c = .ok none) :
    ∀ ch ∈ c.rest.head?, isQuote ch = false ∧ isCodeMark ch = false := by
  unfold segment at h
  split at h
  next =>
    dsimp only at h
    split at h <;> cases h
  -- A segment that is begun is read or fails, so neither of them was there.
  next hquote =>
    split at h
    next => split at h <;> cases h
    next hmark =>
      intro ch hch
      exact ⟨Cursor.eat_eq_none_iff.mp hquote ch hch, Cursor.eat_eq_none_iff.mp hmark ch hch⟩

/-- A string fails because none starts, or because of a defect further on. -/
theorem failure_of_recognize {c : Cursor} {f : Failure} (h : recognize c = .error f) :
    (f = .onSpot .notAString c.pos ∧ segment c.pos c = .ok none) ∨ Defect c.pos c f := by
  unfold recognize at h
  split at h
  next g hsegment =>
    cases h
    exact .inr (defect_of_segment hsegment)
  next hsegment =>
    cases h
    exact .inl ⟨rfl, hsegment⟩
  next next hnext =>
    -- The first segment was read, so a later one has the defect.
    obtain ⟨s, -, hs⟩ := segment_reads hnext
    split at h
    next g hsegments =>
      cases h
      exact .inr ((defect_of_segments hsegments).of_reads hs)
    next => cases h

/-- Every failure of a string lies ahead: nothing begins here, or a segment further on has a defect.
-/
theorem liesAhead_of_recognize {c : Cursor} {f : Failure} (h : recognize c = .error f) :
    f.LiesAhead c := by
  rcases failure_of_recognize h with ⟨rfl, -⟩ | hdefect
  · exact Failure.liesAhead_onSpot (.refl c)
  · cases hdefect with
    | unclosedQuote hr => exact Failure.liesAhead_of_reads hr
    | unsignedExpected hr => exact Failure.liesAhead_onSpot hr

end Quoted

/-! ### Comments -/

namespace Comment

/-- A comment that stays open does so up to the end of the text. -/
theorem Unclosed.reads {form : CommentForm} {c e : Cursor} {opens : List OpenComment}
    (h : Unclosed form c opens e) : ∃ s, c.Reads s e ∧ e.rest = [] := by
  induction h with
  | here hcontents hrest =>
    obtain ⟨s, hs, -⟩ := hcontents.exists_body
    exact ⟨s, hs, hrest⟩
  | inside hcontents _ hopen _ ih =>
    obtain ⟨s, hs, -⟩ := hcontents.exists_body
    obtain ⟨t, ht, hrest⟩ := ih
    exact ⟨_, (hs.trans hopen).trans ht, hrest⟩

/-- A block comment that is opened and fails stays open, and the failure lists what is open. -/
theorem unclosed_of_recognize {form : CommentForm} {c opened : Cursor} {f : Failure}
    (hblock : form ≠ .line) (hopen : c.Reads form.opener opened) (h : recognize c = .error f) :
    ∃ opens e, Unclosed form opened opens e ∧
      f = ⟨.unfinishedComment (⟨form, c.pos⟩ :: opens), c.pos, e.pos⟩ := by
  rw [recognize_of_opener hblock hopen] at h
  rcases closed_or_unclosed form opened with ⟨ts, e, hclosed⟩ | ⟨opens, e, hunclosed⟩
  · rw [scan_closed hblock hclosed] at h
    cases h
  · rw [scan_unclosed hunclosed rfl] at h
    cases h
    exact ⟨opens, e, hunclosed, rfl⟩

/-- In front of a brace, a comment fails if no comment in braces is complete. -/
theorem exists_error_iff_of_brace {c : Cursor} (hbrace : '{' ∈ c.rest.head?) :
    (∃ f, recognize c = .error f) ↔ ∀ s, s <+: c.rest → ¬ Complete .brace s := by
  constructor
  · intro ⟨f, hf⟩ s hs hcomplete
    obtain ⟨e, he⟩ := Cursor.exists_reads_of_isPrefix hs
    obtain ⟨ts, hts⟩ := (recognize_eq_ok_iff_complete (by decide)).mpr ⟨s, hcomplete, he⟩
    cases hts.symm.trans hf
  · intro hnone
    cases hrec : recognize c with
    | error f => exact ⟨f, rfl⟩
    | ok m =>
      exfalso
      obtain ⟨form, hkind⟩ := kind_of_recognize hrec
      obtain ⟨opened, hopen⟩ := exists_opener_of_recognize hrec hkind
      -- A brace opens a comment in braces.
      obtain rfl : form = .brace := by
        rw [hopen.1] at hbrace
        cases form with
        | brace => rfl
        | paren => simp [CommentForm.opener] at hbrace
        | line => simp [CommentForm.opener] at hbrace
      obtain ⟨kind, ts, e⟩ := m
      obtain rfl : kind = .comment .brace := hkind
      obtain ⟨s, hs, hread⟩ := (recognize_eq_ok_iff_complete (by decide)).mp ⟨ts, hrec⟩
      exact hnone s ⟨e.rest, hread.1.symm⟩ hs

/-- A line comment does not fail: it ends with the text at the latest. -/
theorem scan_ne_error {line : Bool} {top : Frame} {below : List Frame} {pos : Nat}
    {cs : List Char} {f : Failure} (hline : line = true) :
    scan line top below pos cs ≠ .error f := by
  fun_induction scan line top below pos cs
  case case3 | case6 | case9 | case12 =>
    intro h
    cases h
  case case13 hnot => exact absurd hline hnot
  case case1 ih | case2 ih | case4 ih | case5 ih | case7 ih | case8 ih | case10 ih | case11 ih =>
    exact ih

/-- Every failure of a comment lies ahead. -/
theorem liesAhead_of_recognize {c : Cursor} {f : Failure} (h : recognize c = .error f) :
    f.LiesAhead c := by
  -- A block comment that fails has read to the end of the text.
  have hopener (form : CommentForm) (hblock : form ≠ .line) (hopen : form.opener <+: c.rest) :
      f.LiesAhead c := by
    obtain ⟨opened, hread⟩ := Cursor.exists_reads_of_isPrefix hopen
    obtain ⟨opens, e, hunclosed, rfl⟩ := unclosed_of_recognize hblock hread h
    obtain ⟨s, hs, -⟩ := hunclosed.reads
    exact Failure.liesAhead_of_reads (hread.trans hs)
  -- A character that only looks like an opener has been read.
  have hread {ch : Char} {cs : List Char} (hrest : c.rest = ch :: cs) :
      c.Reads [ch] ⟨c.pos + ch.utf8Size, cs⟩ := ⟨hrest, by simp⟩
  have h' := h
  unfold recognize at h
  split at h
  next => exact absurd h (scan_ne_error rfl)
  next cs _ hrest =>
    cases h
    exact Failure.liesAhead_of_reads (hread hrest)
  next cs hrest => exact hopener .brace (by decide) ⟨cs, hrest.symm⟩
  next cs hrest => exact hopener .paren (by decide) ⟨cs, hrest.symm⟩
  next hrest =>
    cases h
    exact Failure.liesAhead_of_reads (hread hrest)
  next cs _ _ hrest =>
    cases h
    exact Failure.liesAhead_of_reads (hread hrest)
  next =>
    cases h
    exact Failure.liesAhead_onSpot (.refl c)

end Comment

/-! ### All classes -/

/-- Whatever class fails, the failure lies ahead. -/
theorem Recognizer.liesAhead_of_run {r : Recognizer} {c : Cursor} {f : Failure}
    (h : r.run c = .error f) : f.LiesAhead c := by
  have hspot {cause : Cause} : (Failure.onSpot cause c.pos).LiesAhead c :=
    Failure.liesAhead_onSpot (.refl c)
  by_cases hrest : c.rest = []
  · rw [run_of_rest_eq_nil hrest] at h
    cases h
    exact hspot
  rw [run_of_rest_ne_nil hrest] at h
  -- Names, punctuation and blanks fail on the spot only.
  cases r with
  | comment => exact Comment.liesAhead_of_recognize h
  | string => exact Quoted.liesAhead_of_recognize h
  | identifier =>
    dsimp only [recognizeAt] at h
    unfold Name.recognize at h
    repeat' split at h
    all_goals cases h
    all_goals exact hspot
  | number => exact Number.liesAhead_of_recognize h
  | symbol =>
    dsimp only [recognizeAt] at h
    unfold Punctuation.recognize Punctuation.recognizeSingle at h
    repeat' split at h
    all_goals cases h
    all_goals exact hspot
  | blank =>
    dsimp only [recognizeAt] at h
    unfold Blank.recognize at h
    split at h
    · cases h
    · cases h
      exact hspot

end PascalScan
