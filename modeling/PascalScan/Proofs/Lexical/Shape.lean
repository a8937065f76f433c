import PascalScan.Lexical.Recognizer
import PascalScan.Proofs.Text.Shape

/-!
# `PascalScan.Proofs.Lexical.Shape`: a lexical class sees no more of a text than its shape

All that a lexical class asks about a character is whether it belongs to a class that is blind, and
how many bytes it takes. So a class answers for the shape of a text what it answers for the text:
the same kind, the same tokens inside, the same offsets, and the same failure
(`Recognizer.run_shape`). What differs are the characters that are left to read.

As for a shifted text, each function that the classes are made of has a law of its own.
-/

set_option autoImplicit false

namespace PascalScan

open Text

/-! ### The shape of what is left to read -/

/-- The same place in the shape of the text. -/
def Cursor.shape (c : Cursor) : Cursor := ⟨c.pos, c.rest.map Text.shape⟩

/-- The shape of a text has the same offsets. -/
@[simp] theorem Cursor.pos_shape (c : Cursor) : c.shape.pos = c.pos := rfl

/-- What is left to read is the shape of what was left. -/
@[simp] theorem Cursor.rest_shape (c : Cursor) : c.shape.rest = c.rest.map Text.shape := rfl

/-- The same match in the shape of the text. -/
def Match.shape (m : Match) : Match := { m with next := m.next.shape }

variable (c : Cursor)

/-! ### Steps of a cursor -/

namespace Cursor

variable {p first more : Char → Bool}

/-- A class that sees only shapes eats the same character. -/
theorem eat_shape (hp : Blind p) : c.shape.eat p = (c.eat p).map shape := by
  obtain ⟨pos, rest⟩ := c
  cases rest with
  | nil => rfl
  | cons ch cs =>
    unfold eat shape
    rw [List.map_cons]
    dsimp only
    rw [hp ch, utf8Size_shape]
    cases p ch <;> rfl

/-- It passes over the same characters. -/
theorem skipWhile_shape (hp : Blind p) : c.shape.skipWhile p = (c.skipWhile p).shape := by
  have hcomp : p ∘ Text.shape = p := funext hp
  unfold skipWhile shape
  dsimp only
  rw [List.takeWhile_map, List.dropWhile_map, hcomp, byteSize_map_shape]

/-- It eats the same run of them. -/
theorem eatRun_shape (hfirst : Blind first) (hmore : Blind more) :
    c.shape.eatRun first more = (c.eatRun first more).map shape := by
  unfold eatRun
  rw [c.eat_shape hfirst]
  cases c.eat first with
  | none => rfl
  | some d => exact congrArg some (d.skipWhile_shape hmore)

/-- And it eats or misses the same character. -/
theorem eatOptional_shape (hp : Blind p) : c.shape.eatOptional p = (c.eatOptional p).shape := by
  unfold eatOptional
  rw [c.eat_shape hp]
  cases c.eat p <;> rfl

end Cursor

/-! ### Numbers -/

namespace Number

/-- Digits of all bases are told from shapes. -/
theorem blind_isDigitOf (base : Base) : Blind (isDigitOf base) := by
  cases base with
  | decimal => exact blind_isDigit
  | hex => exact blind_isHexDigit
  | octal => exact blind_isOctalDigit
  | binary => exact blind_isBinaryDigit

/-- The marker of an exponent is a letter, in either case. -/
theorem blind_isExponentMarker : Blind isExponentMarker := by
  refine .of_isAscii (fun ch h => ?_) (by decide +kernel)
  rcases Bool.or_eq_true_iff.mp h with h | h
  · obtain rfl := beq_iff_eq.mp h
    decide
  · obtain rfl := beq_iff_eq.mp h
    decide

/-- The marker of a base is an ASCII character. -/
theorem blind_baseOfMarker? : Blind baseOfMarker? := by
  have hwide (ch : Char) (h : ¬ IsAscii ch) : baseOfMarker? ch = none := by
    unfold baseOfMarker?
    split
    case h_4 => rfl
    all_goals exact absurd (by decide) h
  exact .of_wide hwide (by decide +kernel)

/-- A run of digits is found in the shape. -/
theorem digits_shape (base : Base) :
    digits base c.shape = (digits base c).map Cursor.shape := by
  unfold digits
  rw [c.eatRun_shape (blind_isDigitOf base) (blind_isDigitOf base)]
  cases c.eatRun (isDigitOf base) (isDigitOf base) <;> rfl

/-- So is a fraction. -/
theorem fraction_shape : fraction c.shape = (fraction c).map Cursor.shape := by
  unfold fraction
  rw [c.eat_shape (IsCaseless.blind_beq (by decide))]
  cases c.eat (· == '.') with
  | none => rfl
  | some point => exact point.eatRun_shape blind_isDigit blind_isDigit

/-- So is an exponent. -/
theorem exponent_shape : exponent c.shape = (exponent c).map (Option.map Cursor.shape) := by
  unfold exponent
  rw [c.eat_shape blind_isExponentMarker]
  cases c.eat isExponentMarker with
  | none => rfl
  | some marked =>
    dsimp only [Option.map_some]
    rw [marked.eatOptional_shape blind_isSign, Cursor.eatRun_shape _ blind_isDigit blind_isDigit]
    cases (marked.eatOptional isSign).eatRun isDigit isDigit <;> rfl

/-- So is a decimal number. -/
theorem decimal_shape : decimal c.shape = (decimal c).map Match.shape := by
  unfold decimal
  rw [digits_shape]
  cases digits .decimal c with
  | error f => rfl
  | ok whole =>
    dsimp only [Except.map]
    have hfront : (fraction whole.shape).getD whole.shape
        = ((fraction whole).getD whole).shape := by
      rw [fraction_shape]
      cases fraction whole <;> rfl
    rw [hfront, exponent_shape, fraction_shape]
    cases exponent ((fraction whole).getD whole) with
    | error f => rfl
    | ok next =>
      cases next with
      | some next => rfl
      | none => cases fraction whole <;> rfl

/-- So is a number with the marker of its base. -/
theorem unsigned_shape : unsigned c.shape = (unsigned c).map Match.shape := by
  unfold unsigned
  rw [Cursor.rest_shape]
  cases c.rest with
  | nil => rfl
  | cons ch cs =>
    rw [List.map_cons]
    dsimp only
    rw [blind_baseOfMarker? ch, utf8Size_shape]
    cases baseOfMarker? ch with
    | none => exact decimal_shape c
    | some base =>
      have hdigits := digits_shape ⟨c.pos + ch.utf8Size, cs⟩ base
      dsimp only
      rw [show digits base ⟨c.shape.pos + ch.utf8Size, cs.map shape⟩ = _ from hdigits]
      cases digits base ⟨c.pos + ch.utf8Size, cs⟩ <;> rfl

/-- So is a number with its sign. -/
theorem recognize_shape : recognize c.shape = (recognize c).map Match.shape := by
  unfold recognize
  rw [c.eatOptional_shape blind_isSign]
  exact unsigned_shape _

end Number

/-! ### Strings -/

namespace Quoted

/-- Quotes have no case. -/
theorem blind_isQuote : Blind isQuote := IsCaseless.blind_beq (by decide)

/-- Neither have the marks of character codes. -/
theorem blind_isCodeMark : Blind isCodeMark := IsCaseless.blind_beq (by decide)

/-- So a quoted run is told from its shape. -/
theorem blind_isQuotable : Blind isQuotable := by
  intro ch
  unfold isQuotable
  rw [blind_isQuote ch, blind_isLineBreak ch]

/-- A segment is found in the shape. -/
theorem segment_shape (start : Nat) :
    segment start c.shape = (segment start c).map (Option.map Cursor.shape) := by
  unfold segment
  -- every test of a segment is blind to the shape, so each cursor of the reading has one
  rw [c.eat_shape blind_isQuote]
  cases c.eat isQuote with
  | some opened =>
    dsimp only [Option.map_some]
    rw [opened.skipWhile_shape blind_isQuotable, Cursor.eat_shape _ blind_isQuote]
    cases (opened.skipWhile isQuotable).eat isQuote <;> rfl
  | none =>
    dsimp only [Option.map_none]
    rw [c.eat_shape blind_isCodeMark]
    cases c.eat isCodeMark with
    | none => rfl
    | some marked =>
      dsimp only [Option.map_some]
      rw [marked.eatRun_shape blind_isDigit blind_isDigit]
      cases marked.eatRun isDigit isDigit <;> rfl

/-- So is a sequence of them. -/
theorem segments_shape (start : Nat) :
    segments start c.shape = (segments start c).map Cursor.shape := by
  fun_induction segments start c with
  | case1 c f hsegment =>
    rw [segments_eq, segment_shape, hsegment]
    rfl
  | case2 c hsegment =>
    rw [segments_eq, segment_shape, hsegment]
    rfl
  | case3 c next hsegment _ ih =>
    rw [segments_eq, segment_shape, hsegment]
    exact ih

/-- So is a string. -/
theorem recognize_shape : recognize c.shape = (recognize c).map Match.shape := by
  unfold recognize
  rw [Cursor.pos_shape, segment_shape]
  cases segment c.pos c with
  | error f => rfl
  | ok next =>
    cases next with
    | none => rfl
    | some next =>
      dsimp only [Except.map, Option.map_some]
      rw [segments_shape]
      cases segments c.pos next <;> rfl

end Quoted

/-! ### Names, punctuation and blanks -/

/-- So is a name, whatever its case. -/
theorem Name.recognize_shape : recognize c.shape = (recognize c).map Match.shape := by
  unfold recognize
  rw [c.eat_shape (p := isMark) (IsCaseless.blind_beq (by decide))]
  cases c.eat isMark with
  | some marked =>
    dsimp only [Option.map_some]
    rw [marked.eatRun_shape blind_isNameStart blind_isNamePart]
    cases marked.eatRun isNameStart isNamePart <;> rfl
  | none =>
    dsimp only [Option.map_none]
    rw [c.eatRun_shape blind_isNameStart blind_isNamePart]
    cases c.eatRun isNameStart isNamePart <;> rfl

/-- So is a mark of punctuation. -/
theorem Punctuation.recognizeSingle_shape :
    recognizeSingle c.shape = (recognizeSingle c).map Match.shape := by
  unfold recognizeSingle
  rw [c.eat_shape blind_isSymbol]
  cases c.eat isSymbol <;> rfl

/-- So is a pair of marks. -/
theorem Punctuation.recognize_shape : recognize c.shape = (recognize c).map Match.shape := by
  unfold recognize
  rw [Cursor.rest_shape]
  match c.rest with
  | [] | [_] => exact recognizeSingle_shape c
  | a :: b :: cs =>
    rw [List.map_cons, List.map_cons]
    dsimp only
    rw [isSymbolPair_shape, show byteSize [shape a, shape b] = _ from byteSize_map_shape [a, b]]
    split
    · rfl
    · exact recognizeSingle_shape c

/-- So is a run of blanks. -/
theorem Blank.recognize_shape : recognize c.shape = (recognize c).map Match.shape := by
  unfold recognize
  rw [c.eatRun_shape blind_isBlank blind_isBlank]
  cases c.eatRun isBlank isBlank <;> rfl

/-! ### Comments -/

namespace Comment

/-- Markers have no letter in them, so the scan takes the same branch at the shape of a character. -/
theorem scan_shape (line : Bool) (top : Frame) (below : List Frame) (pos : Nat) (cs : List Char) :
    scan line top below pos (cs.map shape) = (scan line top below pos cs).map Match.shape := by
  -- A marker is its own shape, so behind one both scans go on in the same way by computation.
  fun_induction scan line top below pos cs with
  | case1 top below pos cs ih => exact ih
  | case2 top below pos cs ih => exact ih
  | case3 top pos cs hform => exact if_pos hform
  | case4 top pos cs hform outer outers ih => exact (if_pos hform).trans ih
  | case5 top below pos cs hform ih => exact (if_neg hform).trans ih
  | case6 top pos cs hform => exact if_pos hform
  | case7 top pos cs hform outer outers ih => exact (if_pos hform).trans ih
  | case8 top below pos cs hform ih => exact (if_neg hform).trans ih
  | case9 top below pos cs hline => exact if_pos hline
  | case10 top below pos cs hline ih => exact (if_neg hline).trans ih
  | case11 top below pos ch cs hbrace hparen hclose hstar hline ih =>
    -- What is left to show is that no marker comes up in the shape of other characters.
    rw [List.map_cons, scan]
    · rw [utf8Size_shape]
      exact ih
    · exact mt (IsCaseless.shape_eq_iff (by decide)).mp hbrace
    · intro tail hch
      have hopens := (IsCaseless.shape_eq_iff (by decide)).mp hch
      exact IsCaseless.map_shape_ne_cons (by decide) (fun rest => hparen rest hopens) tail
    · exact mt (IsCaseless.shape_eq_iff (by decide)).mp hclose
    · intro tail hch
      have hcloses := (IsCaseless.shape_eq_iff (by decide)).mp hch
      exact IsCaseless.map_shape_ne_cons (by decide) (fun rest => hstar rest hcloses) tail
    · exact mt (IsCaseless.shape_eq_iff (by decide)).mp hline
  | case12 top below pos hline => exact if_pos hline
  | case13 top below pos hline => exact if_neg hline

/-- A comment is found in the shape, since it goes by its markers and the ends of lines. -/
theorem recognize_shape : recognize c.shape = (recognize c).map Match.shape := by
  fun_cases recognize c with
  | case1 cs hrest | case3 cs hrest | case4 cs hrest =>
    unfold recognize
    rw [Cursor.rest_shape, hrest]
    exact scan_shape _ _ _ _ _
  | case2 tail hslash hrest =>
    have hslash' := IsCaseless.map_shape_ne_cons (by decide) hslash
    unfold recognize
    rw [Cursor.rest_shape, hrest, List.map_cons, show shape '/' = '/' from rfl]
    simp only
    rfl
  | case5 hrest =>
    unfold recognize
    rw [Cursor.rest_shape, hrest]
    rfl
  | case6 tail hstar hnil hrest =>
    have hstar' := IsCaseless.map_shape_ne_cons (by decide) hstar
    have hnil' := mt (List.map_eq_nil_iff (f := shape)).mp hnil
    unfold recognize
    rw [Cursor.rest_shape, hrest, List.map_cons, show shape '(' = '(' from rfl]
    simp only
    rfl
  | case7 _ hslash hbrace _ _ hparen =>
    have hslash' := IsCaseless.map_shape_ne_cons (by decide) hslash
    have hbrace' := IsCaseless.map_shape_ne_cons (by decide) hbrace
    have hparen' := IsCaseless.map_shape_ne_cons (by decide) hparen
    unfold recognize
    rw [Cursor.rest_shape]
    -- Every opener begins with one of the three characters.
    generalize c.rest.map shape = cs at hslash' hbrace' hparen'
    split
    · exact (hslash' _ rfl).elim
    · exact (hslash' _ rfl).elim
    · exact (hbrace' _ rfl).elim
    · exact (hparen' _ rfl).elim
    · exact (hparen' _ rfl).elim
    · exact (hparen' _ rfl).elim
    · rfl

end Comment

/-! ### All classes -/

/-- Whatever class is asked, it answers for the shape of a text what it answers for the text. -/
theorem Recognizer.run_shape (r : Recognizer) : r.run c.shape = (r.run c).map Match.shape := by
  unfold run
  rw [Cursor.rest_shape, List.isEmpty_map]
  split
  · rfl
  · cases r with
    | comment => exact Comment.recognize_shape c
    | string => exact Quoted.recognize_shape c
    | identifier => exact Name.recognize_shape c
    | number => exact Number.recognize_shape c
    | symbol => exact Punctuation.recognize_shape c
    | blank => exact Blank.recognize_shape c

end PascalScan
