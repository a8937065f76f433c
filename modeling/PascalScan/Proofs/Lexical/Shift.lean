import PascalScan.Lexical.Recognizer

/-!
# `PascalScan.Proofs.Lexical.Shift`: offsets are counted from where the text starts

A lexical class looks at the characters behind a cursor. The offset of the cursor only goes into the
offsets of the answer. So with `k` more bytes in front, the class answers the same with all offsets
larger by `k`: those of a token and of the tokens inside it, those of a failure, and those that a
report on open comments lists. `Recognizer.run_shift` says so for every class, and
`Recognizer.recognize_eq_shift` for a class that is asked at an offset of a text.

Each function that the classes are made of has a law of the form `f (c.shift k) = shift k (f c)`,
which follows from the laws of the functions that it calls.
-/

set_option autoImplicit false

namespace PascalScan

open Text

/-! ### Shifted places and answers -/

/-- The same place in a text with `k` more bytes in front. -/
def Cursor.shift (k : Nat) (c : Cursor) : Cursor := ⟨c.pos + k, c.rest⟩

/-- A shifted cursor is further on. -/
@[simp] theorem Cursor.pos_shift (k : Nat) (c : Cursor) : (c.shift k).pos = c.pos + k := rfl

/-- It has the same text left to read. -/
@[simp] theorem Cursor.rest_shift (k : Nat) (c : Cursor) : (c.shift k).rest = c.rest := rfl

/-- The same match in a text with `k` more bytes in front. -/
def Match.shift (k : Nat) (m : Match) : Match :=
  ⟨m.kind, m.inner.map (Token.shift k), m.next.shift k⟩

/-- The same answer in a text with `k` more bytes in front, where `move` does this to a result. -/
def shiftAnswer {α : Type} (k : Nat) (move : α → α) : Except Failure α → Except Failure α
  | .ok a => .ok (move a)
  | .error f => .error (f.shift k)

/-- What is found is moved. -/
@[simp] theorem shiftAnswer_ok {α : Type} (k : Nat) (move : α → α) (a : α) :
    shiftAnswer k move (.ok a) = .ok (move a) := rfl

/-- So is a failure. -/
@[simp] theorem shiftAnswer_error {α : Type} (k : Nat) (move : α → α) (f : Failure) :
    shiftAnswer k move (.error f) = .error (f.shift k) := rfl

/-- The token that stretches between two offsets is shifted with them. -/
theorem Token.shift_ofSpan (k : Nat) (kind : Kind) (start stop : Nat) (inner : List Token) :
    (ofSpan kind start stop inner).shift k
      = ofSpan kind (start + k) (stop + k) (inner.map (Token.shift k)) := by
  unfold Token.shift ofSpan
  rw [Tree.map]
  rfl

/-- The token of a match moves with it. -/
theorem Match.token_shift (k : Nat) (m : Match) (c : Cursor) :
    (m.shift k).token (c.shift k) = (m.token c).shift k :=
  (Token.shift_ofSpan k m.kind c.pos m.next.pos m.inner).symm

variable (k : Nat) (c : Cursor)

/-! ### Steps of a cursor -/

namespace Cursor

/-- A character is eaten further on. -/
theorem eat_shift (p : Char → Bool) : (c.shift k).eat p = (c.eat p).map (shift k) := by
  obtain ⟨pos, rest⟩ := c
  cases rest with
  | nil => rfl
  | cons ch cs =>
    unfold eat shift
    dsimp only
    split
    · rw [Option.map_some, Nat.add_right_comm]
    · rfl

/-- Characters are passed over further on. -/
theorem skipWhile_shift (p : Char → Bool) :
    (c.shift k).skipWhile p = (c.skipWhile p).shift k := by
  unfold skipWhile shift
  rw [Nat.add_right_comm]

/-- So is a run of them. -/
theorem eatRun_shift (first more : Char → Bool) :
    (c.shift k).eatRun first more = (c.eatRun first more).map (shift k) := by
  unfold eatRun
  rw [eat_shift]
  cases c.eat first with
  | none => rfl
  | some d => exact congrArg some (skipWhile_shift k d more)

/-- So is a character that may be missing. -/
theorem eatOptional_shift (p : Char → Bool) :
    (c.shift k).eatOptional p = (c.eatOptional p).shift k := by
  unfold eatOptional
  rw [eat_shift]
  cases c.eat p <;> rfl

end Cursor

/-! ### Numbers -/

namespace Number

/-- Digits are found further on, or missing there. -/
theorem digits_shift (base : Base) :
    digits base (c.shift k) = shiftAnswer k (Cursor.shift k) (digits base c) := by
  unfold digits
  rw [Cursor.eatRun_shift]
  cases c.eatRun (isDigitOf base) (isDigitOf base) <;> rfl

/-- So is a fraction. -/
theorem fraction_shift : fraction (c.shift k) = (fraction c).map (Cursor.shift k) := by
  unfold fraction
  rw [Cursor.eat_shift]
  cases c.eat (· == '.') with
  | none => rfl
  | some point => exact Cursor.eatRun_shift k point isDigit isDigit

/-- So is an exponent. -/
theorem exponent_shift :
    exponent (c.shift k) = shiftAnswer k (Option.map (Cursor.shift k)) (exponent c) := by
  unfold exponent
  rw [Cursor.eat_shift]
  cases c.eat isExponentMarker with
  | none => rfl
  | some marked =>
    dsimp only [Option.map_some]
    rw [Cursor.eatOptional_shift, Cursor.eatRun_shift]
    cases (marked.eatOptional isSign).eatRun isDigit isDigit <;> rfl

/-- So is a decimal number. -/
theorem decimal_shift : decimal (c.shift k) = shiftAnswer k (Match.shift k) (decimal c) := by
  unfold decimal
  rw [digits_shift]
  cases digits .decimal c with
  | error f => rfl
  | ok whole =>
    dsimp only [shiftAnswer_ok]
    -- whether or not there is a fraction, reading goes on at the same place, only moved
    have hfront : ((fraction (whole.shift k)).getD (whole.shift k))
        = ((fraction whole).getD whole).shift k := by
      rw [fraction_shift]
      cases fraction whole <;> rfl
    rw [hfront, exponent_shift, fraction_shift]
    cases exponent ((fraction whole).getD whole) with
    | error f => rfl
    | ok next =>
      cases next with
      | some next => rfl
      | none => cases fraction whole <;> rfl

/-- So is a number with the marker of its base. -/
theorem unsigned_shift : unsigned (c.shift k) = shiftAnswer k (Match.shift k) (unsigned c) := by
  unfold unsigned
  rw [Cursor.rest_shift]
  cases c.rest with
  | nil => rfl
  | cons ch cs =>
    dsimp only
    cases baseOfMarker? ch with
    | none => exact decimal_shift k c
    | some base =>
      -- the base mark has been read on both sides
      have hnext : Cursor.mk ((c.shift k).pos + ch.utf8Size) cs
          = (Cursor.mk (c.pos + ch.utf8Size) cs).shift k := by
        rw [Cursor.pos_shift, Nat.add_right_comm]
        rfl
      dsimp only
      rw [hnext, digits_shift]
      cases digits base ⟨c.pos + ch.utf8Size, cs⟩ <;> rfl

/-- So is a number with its sign. -/
theorem recognize_shift : recognize (c.shift k) = shiftAnswer k (Match.shift k) (recognize c) := by
  unfold recognize
  rw [Cursor.eatOptional_shift]
  exact unsigned_shift k _

end Number

/-! ### Strings -/

namespace Quoted

/-- A segment moves, and so does the start of the string that its failures point at. -/
theorem segment_shift (start : Nat) :
    segment (start + k) (c.shift k)
      = shiftAnswer k (Option.map (Cursor.shift k)) (segment start c) := by
  unfold segment
  rw [Cursor.eat_shift]
  cases c.eat isQuote with
  | some opened =>
    dsimp only [Option.map_some]
    rw [Cursor.skipWhile_shift, Cursor.eat_shift]
    cases (opened.skipWhile isQuotable).eat isQuote <;> rfl
  | none =>
    dsimp only [Option.map_none]
    rw [Cursor.eat_shift]
    cases c.eat isCodeMark with
    | none => rfl
    | some marked =>
      dsimp only [Option.map_some]
      rw [Cursor.eatRun_shift]
      cases marked.eatRun isDigit isDigit <;> rfl

/-- So does a sequence of segments. -/
theorem segments_shift (start : Nat) :
    segments (start + k) (c.shift k) = shiftAnswer k (Cursor.shift k) (segments start c) := by
  fun_induction segments start c with
  | case1 c f hsegment =>
    rw [segments_eq, segment_shift, hsegment]
    rfl
  | case2 c hsegment =>
    rw [segments_eq, segment_shift, hsegment]
    rfl
  | case3 c next hsegment _ ih =>
    rw [segments_eq, segment_shift, hsegment]
    exact ih

/-- So does a string. -/
theorem recognize_shift : recognize (c.shift k) = shiftAnswer k (Match.shift k) (recognize c) := by
  unfold recognize
  rw [Cursor.pos_shift, segment_shift]
  cases segment c.pos c with
  | error f => rfl
  | ok next =>
    cases next with
    | none => rfl
    | some next =>
      dsimp only [shiftAnswer_ok, Option.map_some]
      rw [segments_shift]
      cases segments c.pos next <;> rfl

end Quoted

/-! ### Names, punctuation and blanks -/

/-- So does a name. -/
theorem Name.recognize_shift :
    recognize (c.shift k) = shiftAnswer k (Match.shift k) (recognize c) := by
  unfold recognize
  rw [Cursor.eat_shift]
  cases c.eat isMark with
  | some marked =>
    dsimp only [Option.map_some]
    rw [Cursor.eatRun_shift]
    cases marked.eatRun isNameStart isNamePart <;> rfl
  | none =>
    dsimp only [Option.map_none]
    rw [Cursor.eatRun_shift]
    cases c.eatRun isNameStart isNamePart <;> rfl

/-- So does a mark of punctuation. -/
theorem Punctuation.recognizeSingle_shift :
    recognizeSingle (c.shift k) = shiftAnswer k (Match.shift k) (recognizeSingle c) := by
  unfold recognizeSingle
  rw [Cursor.eat_shift]
  cases c.eat isSymbol <;> rfl

/-- So does a pair of marks. -/
theorem Punctuation.recognize_shift :
    recognize (c.shift k) = shiftAnswer k (Match.shift k) (recognize c) := by
  unfold recognize
  rw [Cursor.rest_shift]
  match c.rest with
  | [] | [_] => exact recognizeSingle_shift k c
  | a :: b :: cs =>
    dsimp only
    split
    · rw [Cursor.pos_shift, Nat.add_right_comm]
      rfl
    · exact recognizeSingle_shift k c

/-- So does a run of blanks. -/
theorem Blank.recognize_shift :
    recognize (c.shift k) = shiftAnswer k (Match.shift k) (recognize c) := by
  unfold recognize
  rw [Cursor.eatRun_shift]
  cases c.eatRun isBlank isBlank <;> rfl

/-! ### Comments -/

namespace Comment

/-- The same open comment in a text with `k` more bytes in front. -/
def Frame.shift (k : Nat) (f : Frame) : Frame :=
  ⟨f.form, f.start + k, f.closed.map (Token.shift k)⟩

/-- The outermost of shifted comments. -/
theorem outermost_shift (top : Frame) (below : List Frame) :
    outermost (top.shift k) (below.map (Frame.shift k)) = (outermost top below).shift k := by
  unfold outermost
  rw [List.getLastD_map]

/-- The token of a comment that is closed moves. -/
theorem Frame.close_shift (f : Frame) (stop : Nat) :
    (f.shift k).close (stop + k) = (f.close stop).shift k := by
  unfold close
  rw [Token.shift_ofSpan, List.map_reverse]
  rfl

/-- So does the match of a comment that ends the scan. -/
theorem Frame.finish_shift (f : Frame) :
    (f.shift k).finish (c.shift k) = (f.finish c).shift k := by
  unfold finish Match.shift
  rw [List.map_reverse]
  rfl

/-- So do the places in a report. -/
theorem unfinished_shift (top : Frame) (below : List Frame) (stop : Nat) :
    unfinished (top.shift k) (below.map (Frame.shift k)) (stop + k)
      = (unfinished top below stop).shift k := by
  unfold unfinished Failure.shift Cause.shift
  rw [outermost_shift]
  simp [Frame.shift, Function.comp_def]

/-- The scan of shifted comments goes on as that of the comments, with the offset shifted. -/
theorem scan_shift (line : Bool) (top : Frame) (below : List Frame) (pos : Nat) (cs : List Char) :
    scan line (top.shift k) (below.map (Frame.shift k)) (pos + k) cs
      = shiftAnswer k (Match.shift k) (scan line top below pos cs) := by
  -- Both scans take the same branch. Behind `n` more bytes the offset is shifted by `k` again.
  have hpos (pos n : Nat) : pos + k + n = pos + n + k := Nat.add_right_comm pos k n
  fun_induction scan line top below pos cs with
  | case1 top below pos cs ih =>
    rw [scan, hpos]
    exact ih
  | case2 top below pos cs ih =>
    rw [scan, hpos]
    exact ih
  | case3 top pos cs hform =>
    refine (if_pos hform).trans ?_
    rw [hpos]
    exact congrArg Except.ok (top.finish_shift k ⟨pos + 1, cs⟩)
  | case4 top pos cs hform outer outers ih =>
    refine (if_pos hform).trans ?_
    rw [hpos, top.close_shift k]
    exact ih
  | case5 top below pos cs hform ih =>
    refine (if_neg hform).trans ?_
    rw [hpos]
    exact ih
  | case6 top pos cs hform =>
    refine (if_pos hform).trans ?_
    rw [hpos]
    exact congrArg Except.ok (top.finish_shift k ⟨pos + 2, cs⟩)
  | case7 top pos cs hform outer outers ih =>
    refine (if_pos hform).trans ?_
    rw [hpos, top.close_shift k]
    exact ih
  | case8 top below pos cs hform ih =>
    refine (if_neg hform).trans ?_
    rw [hpos]
    exact ih
  | case9 top below pos cs hline =>
    rw [scan, if_pos hline, hpos, outermost_shift]
    exact congrArg Except.ok (Frame.finish_shift k ⟨pos + 1, cs⟩ _)
  | case10 top below pos cs hline ih =>
    rw [scan, if_neg hline, hpos]
    exact ih
  | case11 top below pos c cs hbrace hparen hclose hstar hline ih =>
    rw [scan]
    · rw [hpos]
      exact ih
    all_goals assumption
  | case12 top below pos hline =>
    rw [scan, if_pos hline, outermost_shift]
    exact congrArg Except.ok (Frame.finish_shift k ⟨pos, []⟩ _)
  | case13 top below pos hline =>
    rw [scan, if_neg hline, unfinished_shift]
    rfl

/-- So does a comment, with all that is in it. -/
theorem recognize_shift : recognize (c.shift k) = shiftAnswer k (Match.shift k) (recognize c) := by
  have hpos (n : Nat) : c.pos + k + n = c.pos + n + k := Nat.add_right_comm c.pos k n
  unfold recognize
  rw [Cursor.rest_shift, Cursor.pos_shift]
  split
  · rw [hpos]
    exact scan_shift k true (.opened .line c.pos) [] (c.pos + 2) _
  · rw [hpos]
    rfl
  · rw [hpos]
    exact scan_shift k false (.opened .brace c.pos) [] (c.pos + 1) _
  · rw [hpos]
    exact scan_shift k false (.opened .paren c.pos) [] (c.pos + 2) _
  · rw [hpos]
    rfl
  · rw [hpos]
    rfl
  · rfl

end Comment

/-! ### All classes -/

/-- Whatever class is asked, it answers the same at a shifted cursor, with shifted offsets. -/
theorem Recognizer.run_shift (r : Recognizer) :
    r.run (c.shift k) = shiftAnswer k (Match.shift k) (r.run c) := by
  unfold run
  rw [Cursor.rest_shift]
  split
  · rfl
  · cases r with
    | comment => exact Comment.recognize_shift k c
    | string => exact Quoted.recognize_shift k c
    | identifier => exact Name.recognize_shift k c
    | number => exact Number.recognize_shift k c
    | symbol => exact Punctuation.recognize_shift k c
    | blank => exact Blank.recognize_shift k c

/-- The start of a text, seen from a text with more in front. -/
theorem Cursor.shift_start (rest : List Char) : (Cursor.mk 0 rest).shift k = ⟨k, rest⟩ := by
  rw [shift, Nat.zero_add]

/-- Asked at an offset, a class answers as at the start of what follows there. -/
theorem Recognizer.recognize_eq_shift {text rest : List Char} (h : locate text k = .boundary rest)
    (r : Recognizer) :
    r.recognize text k = (r.recognize rest 0).map (shiftAnswer k (Token.shift k)) := by
  unfold recognize
  rw [h, locate_zero]
  show Except.ok _ = Except.ok _
  rw [← Cursor.shift_start, run_shift]
  cases r.run ⟨0, rest⟩ with
  | ok m => exact congrArg (Except.ok ∘ Except.ok) (m.token_shift k ⟨0, rest⟩)
  | error f => rfl

end PascalScan
