import PascalScan.Proofs.Lexical.Asking
import PascalScan.Proofs.Lexical.Failing
import PascalScan.Proofs.Lexical.Numeral
import PascalScan.Proofs.Text.Longest

/-!
# `PascalScan.Proofs.Lexical.Segments`: the segments of a string, and where a string ends

A string is read segment by segment. Here the segments are given as a language (`Quoted.Segment`),
and the loop over them is shown to get to the end of the longest sequence of segments
(`exists_longest_segments`). What happens then is up to the next character: a quote or the mark of a
character code begins a segment that is not there, which fails the string with all the segments in
front of it. `Quoted.Answers` says so for the offsets of a text.

The loop can be compared with the language one segment at a time, because no segment begins with a
digit: if the loop takes more digits than a sequence has in its first segment, nothing more can come
in that sequence (`le_or_exists_reads_of_segment`).
-/

set_option autoImplicit false

namespace PascalScan

open Text

/-! ### The first line break -/

/-- From byte offset `start` on, the first line break is at offset `stop`, which is the end of the
text if there is none. -/
structure Text.BreaksAt (text : List Char) (start stop : Nat) : Prop where
  start_le_stop : start ≤ stop
  no_break : ∀ i, start ≤ i → i < stop → ∀ ch ∈ ['\r', '\n'], charAt? text i ≠ some ch
  break_or_end : (∃ ch ∈ ['\r', '\n'], charAt? text stop = some ch) ∨ stop = byteSize text

namespace Quoted

/-! ### The segments -/

/-- A quoted run, or a character code. -/
inductive Segment : List Char → Prop where
  | run {body : List Char} (hbody : ∀ ch ∈ body, ch ∉ ['\'', '\r', '\n']) :
      Segment ('\'' :: (body ++ ['\'']))
  | code {ds : List Char} (hds : Number.Digits .decimal ds) : Segment ('#' :: ds)

/-- Any number of segments with nothing between them. -/
inductive Segments : List Char → Prop where
  | nil : Segments []
  | cons {s t : List Char} (hs : Segment s) (ht : Segments t) : Segments (s ++ t)

/-- A quoted run may hold what the class lets pass. -/
theorem isQuotable_iff {ch : Char} : isQuotable ch ↔ ch ∉ ['\'', '\r', '\n'] := by
  simp only [isQuotable, isQuote, isLineBreak, Bool.and_eq_true, Bool.not_eq_true',
    Bool.or_eq_false_iff, beq_eq_false_iff_ne, List.mem_cons, List.not_mem_nil, or_false, not_or]
  exact ⟨fun ⟨hquote, hfeed, hreturn⟩ => ⟨hquote, hreturn, hfeed⟩,
    fun ⟨hquote, hreturn, hfeed⟩ => ⟨hquote, hfeed, hreturn⟩⟩

/-- Segments begin with a quote or the mark of a character code. -/
theorem Segment.exists_cons {s : List Char} (h : Segment s) :
    ∃ ch cs, s = ch :: cs ∧ (ch = '\'' ∨ ch = '#') := by
  cases h with
  | run => exact ⟨_, _, rfl, .inl rfl⟩
  | code => exact ⟨_, _, rfl, .inr rfl⟩

/-- No digit begins a segment. -/
theorem Segments.eq_nil_of_isDigit {t : List Char} {c e : Cursor} (h : Segments t)
    (hr : c.Reads t e) (hdigit : ∃ ch ∈ c.rest.head?, isDigit ch) : t = [] := by
  cases h with
  | nil => rfl
  | cons hs _ =>
    obtain ⟨ch, cs, rfl, hch⟩ := hs.exists_cons
    obtain ⟨x, hx, hyes⟩ := hdigit
    rw [hr.head?_eq] at hx
    obtain rfl := Option.mem_some_iff.mp hx
    rcases hch with rfl | rfl <;> cases hyes

/-! ### What the class reads of a segment -/

section Segment

variable {start : Nat} {c d e : Cursor} {s t : List Char}

/-- What the class reads is a segment. -/
theorem exists_segment_of_segment (h : segment start c = .ok (some d)) :
    ∃ s, Segment s ∧ c.Reads s d := by
  unfold segment at h
  -- A quoted run or a character code.
  split at h
  next opened hopened =>
    obtain ⟨quote, hquote, hr₁⟩ := Cursor.eat_eq_some_iff.mp hopened
    obtain rfl := beq_iff_eq.mp hquote
    dsimp only at h
    split at h
    next closed hclosed =>
      cases h
      obtain ⟨quote, hquote, hr₂⟩ := Cursor.eat_eq_some_iff.mp hclosed
      obtain rfl := beq_iff_eq.mp hquote
      exact ⟨_, .run fun ch hch => isQuotable_iff.mp (Cursor.fits_of_mem_takeWhile hch),
        hr₁.trans ((Cursor.skipWhile_reads isQuotable opened).trans hr₂)⟩
    next => cases h
  next =>
    split at h
    next marked hmarked =>
      obtain ⟨mark, hmark, hr₁⟩ := Cursor.eat_eq_some_iff.mp hmarked
      obtain rfl := beq_iff_eq.mp hmark
      split at h
      next next' hnext =>
        cases h
        obtain ⟨x, xs, hx, hxs, hr₂, -⟩ := Cursor.eatRun_eq_some_iff.mp hnext
        have hds : Number.Digits .decimal (x :: xs) :=
          Number.digits_of_forall (by simp) (List.forall_mem_cons.mpr ⟨hx, hxs⟩)
        exact ⟨_, .code hds, hr₁.trans hr₂⟩
      next => cases h
    next => cases h

/-- The class reads a segment where there is one, and the digits that go on with it. -/
theorem exists_segment_of_reads (start : Nat) (h : Segment s) (hr : c.Reads s e) :
    ∃ d ds, segment start c = .ok (some d) ∧ e.Reads ds d ∧ ∀ x ∈ ds, isDigit x := by
  cases h with
  | @run body hbody =>
    obtain ⟨opened, hopened, hr⟩ := hr.split (s := ['\''])
    obtain ⟨closing, hread, hclosed⟩ := hr.split
    have hquote : closing.eat isQuote = some e := Cursor.eat_eq_some_iff.mpr ⟨'\'', rfl, hclosed⟩
    have hskip : opened.skipWhile isQuotable = closing := by
      refine Cursor.skipWhile_eq_of_reads hread (fun ch hch => isQuotable_iff.mpr (hbody ch hch)) ?_
      simp [hclosed.head?_eq, isQuotable, isQuote]
    refine ⟨e, [], ?_, .refl e, by simp⟩
    -- The class reads on while digits follow, so it may read more than the given segment.
    unfold segment
    rw [Cursor.eat_eq_some_iff.mpr ⟨'\'', rfl, hopened⟩]
    dsimp only
    rw [hskip, hquote]
  | @code ds hds =>
    obtain ⟨marked, hmarked, hr⟩ := hr.split (s := ['#'])
    have hquote : c.eat isQuote = none :=
      Cursor.eat_eq_none_iff.mpr (by simp [hmarked.head?_eq, isQuote])
    obtain ⟨x, xs, rfl, hx⟩ := hds.exists_cons
    have hmore := Cursor.skipWhile_reads isDigit e
    have hfits : ∀ y ∈ e.rest.takeWhile isDigit, isDigit y :=
      fun y hy => Cursor.fits_of_mem_takeWhile hy
    have hrun : marked.eatRun isDigit isDigit = some (e.skipWhile isDigit) := by
      refine Cursor.eatRun_eq_some_iff.mpr ⟨x, xs ++ e.rest.takeWhile isDigit, hx, ?_,
        hr.trans hmore, fun y hy => Cursor.not_fits_of_mem_head?_dropWhile hy⟩
      intro y hy
      rcases List.mem_append.mp hy with hy | hy
      · exact hds.forall_isDigitOf y (List.mem_cons_of_mem x hy)
      · exact hfits y hy
    refine ⟨_, _, ?_, hmore, hfits⟩
    unfold segment
    rw [hquote, Cursor.eat_eq_some_iff.mpr ⟨'#', rfl, hmarked⟩]
    dsimp only
    rw [hrun]

/-- Where the class reads no segment, none is there. -/
theorem Segments.eq_nil_of_segment (h : Segments t) (hr : c.Reads t e)
    (hnot : ∀ n, segment start c ≠ .ok (some n)) : t = [] := by
  cases h with
  | nil => rfl
  | cons hs _ =>
    obtain ⟨m, hm, -⟩ := hr.split
    obtain ⟨d, -, hd, -⟩ := exists_segment_of_reads start hs hm
    exact absurd hd (hnot d)

/-- A sequence of segments ends within the segment that the class reads first, or goes on behind
it. -/
theorem le_or_exists_reads_of_segment (h : Segments t) (hr : c.Reads t e)
    (hd : segment start c = .ok (some d)) :
    e.pos ≤ d.pos ∨ ∃ t', Segments t' ∧ d.Reads t' e := by
  cases h with
  | nil =>
    obtain rfl := hr.unique (.refl c)
    obtain ⟨s, -, hs⟩ := segment_reads hd
    exact .inl hs.pos_le
  | cons hs ht =>
    obtain ⟨m, hm, hread⟩ := hr.split
    obtain ⟨d', ds, hd', hds, hdigits⟩ := exists_segment_of_reads start hs hm
    obtain rfl := Option.some.inj (Except.ok.inj (hd.symm.trans hd'))
    cases ds with
    | nil =>
      obtain rfl := hds.unique (.refl m)
      exact .inr ⟨_, ht, hread⟩
    | cons x xs =>
      -- The sequence ends where the class still finds digits.
      have hhead : ∃ ch ∈ m.rest.head?, isDigit ch := ⟨x, hds.head?_eq, hdigits x (by simp)⟩
      obtain rfl := ht.eq_nil_of_isDigit hread hhead
      obtain rfl := hread.unique (.refl m)
      exact .inl hds.pos_le

end Segment

/-! ### What the loop reads -/

/-- The loop gets to the end of the longest sequence of segments, where no more segment is. -/
theorem exists_longest_segments (start : Nat) (c : Cursor) :
    ∃ d, c.Longest Segments d ∧ segments start c = segments start d ∧
      ∀ n, segment start d ≠ .ok (some n) := by
  have hstuck (c : Cursor) (hnot : ∀ n, segment start c ≠ .ok (some n)) :
      c.Longest Segments c := by
    refine ⟨⟨[], .refl c, .nil⟩, fun hr ht => ?_⟩
    obtain rfl := ht.eq_nil_of_segment hr hnot
    exact Nat.le_of_eq (hr.unique (.refl c) ▸ rfl)
  -- Where the loop stops, no segment is read. Everywhere else one segment is read and the rest is
  -- longest by induction.
  fun_induction segments start c with
  | case1 c f hsegment =>
    have hnot : ∀ n, segment start c ≠ .ok (some n) := by simp [hsegment]
    exact ⟨c, hstuck c hnot, by rw [segments_eq, hsegment], hnot⟩
  | case2 c hsegment =>
    have hnot : ∀ n, segment start c ≠ .ok (some n) := by simp [hsegment]
    exact ⟨c, hstuck c hnot, by rw [segments_eq, hsegment], hnot⟩
  | case3 c next hsegment _ ih =>
    obtain ⟨d, hlongest, heq, hnot⟩ := ih
    obtain ⟨s, hs, hr⟩ := exists_segment_of_segment hsegment
    obtain ⟨t, ht, hsegments⟩ := hlongest.belongs
    refine ⟨d, ⟨⟨s ++ t, hr.trans ht, .cons hs hsegments⟩, fun he hother => ?_⟩, heq, hnot⟩
    rcases le_or_exists_reads_of_segment hother he hsegment with hle | ⟨t', ht', hread⟩
    · exact Nat.le_trans hle ht.pos_le
    · exact hlongest.le hread ht'

/-- A string is recognized if the loop gets on and is not stopped by a defect. -/
theorem recognize_of_segments {c d : Cursor} (h : segments c.pos c = .ok d) (hlt : c.pos < d.pos) :
    recognize c = .ok ⟨.string, [], d⟩ := by
  rw [segments_eq] at h
  unfold recognize
  split at h
  next => cases h
  next =>
    cases h
    exact absurd hlt (Nat.lt_irrefl _)
  next => rw [h]

/-- A defect that stops the loop fails the string. -/
theorem recognize_of_segments_error {c : Cursor} {f : Failure} (h : segments c.pos c = .error f) :
    recognize c = .error f := by
  rw [segments_eq] at h
  unfold recognize
  split at h
  next =>
    cases h
    rfl
  next => cases h
  next => rw [h]

/-! ### Where no more segment is -/

section Stuck

variable {start : Nat} {c opened : Cursor}

/-- No segment begins in front of a character other than a quote and the mark of a code. -/
theorem segment_eq_none_iff :
    segment start c = .ok none ↔ ∀ ch ∈ ['\'', '#'], c.rest.head? ≠ some ch := by
  constructor
  · intro h ch hch hhead
    obtain ⟨hquote, hmark⟩ := not_leads_of_segment h ch hhead
    simp only [List.mem_cons, List.not_mem_nil, or_false] at hch
    -- a quote or a code mark there would have led into a segment
    rcases hch with rfl | rfl
    · cases hquote
    · cases hmark
  · intro h
    have hquote : c.eat isQuote = none := by
      refine Cursor.eat_eq_none_iff.mpr fun ch hch => beq_eq_false_iff_ne.mpr ?_
      rintro rfl
      exact h '\'' (by simp) hch
    have hmark : c.eat isCodeMark = none := by
      refine Cursor.eat_eq_none_iff.mpr fun ch hch => beq_eq_false_iff_ne.mpr ?_
      rintro rfl
      exact h '#' (by simp) hch
    unfold segment
    rw [hquote, hmark]

/-- If a quote begins no segment, the run behind it is not closed. -/
theorem segment_of_quote (hread : c.Reads ['\''] opened)
    (hnot : ∀ n, segment start c ≠ .ok (some n)) :
    segment start c = .error ⟨.unclosedQuote, start, (opened.skipWhile isQuotable).pos⟩ ∧
      ∀ ch ∈ (opened.skipWhile isQuotable).rest.head?, isLineBreak ch := by
  have hopened : c.eat isQuote = some opened := Cursor.eat_eq_some_iff.mpr ⟨'\'', rfl, hread⟩
  unfold segment at hnot ⊢
  rw [hopened] at hnot ⊢
  dsimp only at hnot ⊢
  cases hclosed : (opened.skipWhile isQuotable).eat isQuote with
  | some closed =>
    rw [hclosed] at hnot
    exact absurd rfl (hnot closed)
  | none =>
    refine ⟨rfl, fun ch hch => ?_⟩
    -- The run has stopped at the character, and not for a quote.
    have hstop : isQuotable ch = false := Cursor.not_fits_of_mem_head?_dropWhile hch
    have hquote : isQuote ch = false := Cursor.eat_eq_none_iff.mp hclosed ch hch
    rw [isQuotable, hquote] at hstop
    simpa using hstop

/-- If the mark of a character code begins no segment, its digits are missing. -/
theorem segment_of_mark {marked : Cursor} (hread : c.Reads ['#'] marked)
    (hnot : ∀ n, segment start c ≠ .ok (some n)) :
    segment start c = .error (.onSpot .unsignedExpected marked.pos) := by
  have hmarked : c.eat isCodeMark = some marked := Cursor.eat_eq_some_iff.mpr ⟨'#', rfl, hread⟩
  have hquote : c.eat isQuote = none :=
    Cursor.eat_eq_none_iff.mpr (by simp [hread.head?_eq, isQuote])
  unfold segment at hnot ⊢
  rw [hquote, hmarked] at hnot ⊢
  dsimp only at hnot ⊢
  -- Digits behind the mark would make a segment.
  cases hrun : marked.eatRun isDigit isDigit with
  | some next =>
    rw [hrun] at hnot
    exact absurd rfl (hnot next)
  | none => rfl

/-- A run that is stopped by a line break or the end of the text stops at the first one. -/
theorem breaksAt_of_skipWhile {text : List Char} (h : opened.StandsIn text)
    (hbreak : ∀ ch ∈ (opened.skipWhile isQuotable).rest.head?, isLineBreak ch) :
    BreaksAt text opened.pos (opened.skipWhile isQuotable).pos := by
  have hread := Cursor.skipWhile_reads isQuotable opened
  have hstop := h.of_reads hread
  refine ⟨hread.pos_le, fun i hle hlt ch hch hat => ?_, ?_⟩
  -- What was passed over may stand between quotes, so no line ends there.
  · have hfits := Cursor.fits_of_mem_takeWhile (h.mem_of_charAt? hread hle hlt hat)
    exact isQuotable_iff.mp hfits (List.mem_cons_of_mem _ hch)
  · rw [hstop.charAt?]
    cases hhead : (opened.skipWhile isQuotable).rest.head? with
    | none => exact .inr (hstop.pos_eq_byteSize_iff.mpr (List.head?_eq_none_iff.mp hhead))
    | some ch =>
      have hch := hbreak ch hhead
      simp only [isLineBreak, Bool.or_eq_true, beq_iff_eq] at hch
      exact .inl ⟨ch, by simpa using hch.symm, rfl⟩

end Stuck

/-! ### At an offset -/

/-- What is answered about a string at offset `pos` of the text, if the longest sequence of segments
from there ends at offset `stop`. -/
structure Answers (text : List Char) (pos stop : Nat) (answer : Except Failure Token) : Prop where
  /-- Segments in front of a character that begins none are a string. -/
  recognized : pos < stop → (∀ ch ∈ ['\'', '#'], charAt? text stop ≠ some ch) →
    answer = .ok (.ofSpan .string pos stop [])
  /-- A quote behind the segments is not closed on its line. -/
  openQuote : charAt? text stop = some '\'' → ∃ f, answer = .error f ∧
    f.Says "Unclosed quote" pos f.furthest ∧ BreaksAt text (stop + 1) f.furthest
  /-- The mark of a character code behind the segments has no digits. -/
  openCode : charAt? text stop = some '#' →
    ∃ f, answer = .error f ∧ f.Says "An unsigned integer expected" (stop + 1) (stop + 1)
  /-- Without a segment there is no string. -/
  noSegment : stop = pos → (∀ ch ∈ ['\'', '#'], charAt? text stop ≠ some ch) →
    ∃ f, answer = .error f ∧ f.Says "Not a string" pos pos

/-- A string is the longest sequence of segments, and a segment that is begun commits. -/
theorem recognize_longest_segments (text : List Char) (pos : Nat) (hpos : IsBoundary text pos)
    (hlt : pos < byteSize text) :
    ∃ stop answer, LongestIn Segments text pos stop ∧ pos ≤ stop ∧
      Recognizer.string.recognize text pos = .ok answer ∧ Answers text pos stop answer := by
  obtain ⟨rest, hrest⟩ := hpos
  let c : Cursor := ⟨pos, rest⟩
  have hc : c.StandsIn text := hrest
  have hne : c.rest ≠ [] := fun hnil => Nat.ne_of_lt hlt (hc.pos_eq_byteSize_iff.mpr hnil)
  obtain ⟨d, hlongest, hloop, hnot⟩ := exists_longest_segments pos c
  obtain ⟨s, hs, -⟩ := hlongest.belongs
  have hd := hc.of_reads hs
  have hnext {ch : Char} (hat : charAt? text d.pos = some ch) : ∃ e, d.Reads [ch] e := by
    rw [hd.charAt?] at hat
    exact Cursor.exists_reads_of_head? hat
  -- One goal for each of the four answers that are owed.
  refine ⟨d.pos, (recognize c).map (·.token c), hc.longestIn_iff.mpr ⟨d, hlongest, rfl⟩,
    hs.pos_le, Recognizer.recognize_of_rest_ne_nil hc hne, ?_, ?_, ?_, ?_⟩
  · intro hmore hchar
    rw [hd.charAt?] at hchar
    rw [segments_eq pos d, segment_eq_none_iff.mpr hchar] at hloop
    rw [recognize_of_segments hloop hmore]
    rfl
  · intro hquote
    obtain ⟨opened, hread⟩ := hnext hquote
    obtain ⟨hsegment, hbreak⟩ := segment_of_quote hread hnot
    rw [segments_eq pos d, hsegment] at hloop
    rw [recognize_of_segments_error hloop]
    have hbreaks := breaksAt_of_skipWhile (hd.of_reads hread) hbreak
    rw [hread.2] at hbreaks
    exact ⟨_, rfl, ⟨rfl, rfl, rfl⟩, hbreaks⟩
  · intro hmark
    obtain ⟨marked, hread⟩ := hnext hmark
    rw [segments_eq pos d, segment_of_mark hread hnot] at hloop
    rw [recognize_of_segments_error hloop]
    exact ⟨_, rfl, rfl, hread.2, hread.2⟩
  · intro hsame hchar
    obtain rfl := hd.unique hc hsame
    rw [hd.charAt?] at hchar
    unfold recognize
    rw [segment_eq_none_iff.mpr hchar]
    exact ⟨_, rfl, rfl, rfl, rfl⟩

/-- The third segment is not closed, so the first two are no string. The failure points at the first
and got to the line break. -/
theorem recognize_longest_segments_of_open_quote :
    ∃ stop answer, LongestIn Segments "é'a'#10'ü\n'".toList 2 stop ∧
      Recognizer.string.recognize "é'a'#10'ü\n'".toList 2 = .ok answer ∧
      Answers "é'a'#10'ü\n'".toList 2 stop answer ∧ answer = .error ⟨.unclosedQuote, 2, 11⟩ := by
  obtain ⟨stop, answer, hlongest, -, hanswer, hsays⟩ :=
    recognize_longest_segments "é'a'#10'ü\n'".toList 2 (by decide) (by decide)
  -- Two segments are read, and the third has no quote before the line ends.
  have hloop : segments 2 ⟨2, "'a'#10'ü\n'".toList⟩ = .error ⟨.unclosedQuote, 2, 11⟩ := by
    rw [segments_eq]
    show segments 2 ⟨5, "#10'ü\n'".toList⟩ = _
    rw [segments_eq]
    show segments 2 ⟨8, "'ü\n'".toList⟩ = _
    rw [segments_eq]
    rfl
  have hfails : Recognizer.string.recognize "é'a'#10'ü\n'".toList 2
      = .ok ((recognize ⟨2, "'a'#10'ü\n'".toList⟩).map (·.token ⟨2, "'a'#10'ü\n'".toList⟩)) := rfl
  rw [recognize_of_segments_error hloop] at hfails
  exact ⟨stop, answer, hlongest, hanswer, hsays, Except.ok.inj (hanswer.symm.trans hfails)⟩

end Quoted

end PascalScan
