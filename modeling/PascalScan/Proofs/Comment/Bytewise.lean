import PascalScan.Proofs.Comment.Slicing
import PascalScan.Proofs.Lexical.Asking
import PascalScan.Proofs.Text.Octets

/-!
# `PascalScan.Proofs.Comment.Bytewise`: comments recognized byte by byte

The class of comments reads characters. The same comments can be found by looking at single bytes
and counting offsets, without knowing where a character begins: `recognizeBytes` takes any offset at
all, goes on by one or two bytes at a time, and cuts each comment out of the text when it is closed.

`recognize_comment_eq_recognizeBytes` says that the class of comments answers the same, at every
offset of every text. So two things that look like decisions about the class are facts about the
bytes. A scan by bytes gets through the characters outside ASCII one byte after the other, since
their bytes are no delimiters (`scanBytes_of_high`). And at an offset inside such a character it
finds no comment, while everything it cuts out begins and ends between characters.

The stack is kept here with its outermost comment apart, which is the one that makes a line end the
comment. `Stack.of` turns the stack of the scan by characters into it, and `scanBytes_cons` says
what a turn of the loop does in front of a given character. The rest is an induction over the scan
by characters (`scanBytes_eq_scanCutting`).
-/

set_option autoImplicit false

namespace PascalScan.Comment

open Text

/-! ### The stack of open comments -/

/-- The comments that are open: the outermost one, and those nested in it, innermost first. -/
structure Stack where
  outer : Frame
  nested : List Frame

namespace Stack

/-- The innermost of the open comments. -/
def innermost (s : Stack) : Frame := s.nested.headD s.outer

/-- Opens one more comment. -/
def push (f : Frame) (s : Stack) : Stack := ⟨s.outer, f :: s.nested⟩

/-- Records a comment that was closed inside the innermost one. -/
def add (t : Token) (s : Stack) : Stack :=
  match s.nested with
  | [] => ⟨s.outer.add t, []⟩
  | f :: fs => ⟨s.outer, f.add t :: fs⟩

/-- Closes the innermost comment at offset `stop` and cuts it out of the text. If it was the
outermost one, this ends the scan, and else `goOn` goes on with those that are still open. -/
def close (text : List Char) (stop : Nat) (s : Stack)
    (goOn : Stack → Except Misuse (Except Failure Token)) : Except Misuse (Except Failure Token) :=
  match s.nested with
  | [] => (s.outer.cut text stop).map .ok
  | f :: fs => (f.cut text stop).bind fun t => goOn (add t ⟨s.outer, fs⟩)

/-- The failure of an attempt at offset `start`, if the text ends at `stop` with these open. -/
def report (start stop : Nat) (s : Stack) : Failure :=
  ⟨.unfinishedComment ((s.outer :: s.nested.reverse).map fun f => ⟨f.form, f.start⟩), start, stop⟩

/-- The stack that a scan by characters keeps as its innermost comment and those around it. -/
def of (top : Frame) (below : List Frame) : Stack :=
  ⟨outermost top below, (top :: below).dropLast⟩

/-- The outermost comment is kept apart. -/
theorem outer_of (top : Frame) (below : List Frame) :
    (of top below).outer = outermost top below := rfl

/-- The innermost comment is that of the scan by characters. -/
theorem innermost_of (top : Frame) (below : List Frame) : (of top below).innermost = top := by
  cases below <;> rfl

/-- Opening a comment puts the innermost one among those around it. -/
theorem push_of (f top : Frame) (below : List Frame) :
    (of top below).push f = of f (top :: below) := by
  unfold push of
  rw [outermost_cons, List.dropLast_cons_cons]

/-- A comment that was closed is recorded in the innermost one. -/
theorem add_of (t : Token) (top : Frame) (below : List Frame) :
    (of top below).add t = of (top.add t) below := by
  cases below with
  | nil => rfl
  | cons outer outers =>
    unfold of add
    rw [outermost_cons, outermost_cons]
    rfl

/-- Closing the only comment ends the scan. -/
theorem close_of_nil (text : List Char) (stop : Nat) (top : Frame)
    (goOn : Stack → Except Misuse (Except Failure Token)) :
    (of top []).close text stop goOn = (top.cut text stop).map .ok := rfl

/-- Closing a nested comment leaves those around it open. -/
theorem close_of_cons (text : List Char) (stop : Nat) (top outer : Frame) (outers : List Frame)
    (goOn : Stack → Except Misuse (Except Failure Token)) :
    (of top (outer :: outers)).close text stop goOn
      = (top.cut text stop).bind fun t => goOn (of (outer.add t) outers) := by
  unfold of close
  rw [List.dropLast_cons_cons, outermost_cons]
  exact congrArg (Except.bind _) (funext fun t => congrArg goOn (add_of t outer outers))

/-- The outermost comment and those nested in it are all that are open. -/
theorem dropLast_append_outermost (top : Frame) (below : List Frame) :
    (top :: below).dropLast ++ [outermost top below] = top :: below := by
  induction below generalizing top with
  | nil => rfl
  | cons outer outers ih => rw [List.dropLast_cons_cons, outermost_cons, List.cons_append, ih]

/-- All open comments are reported, from the outermost to the innermost. -/
theorem report_of (stop : Nat) (top : Frame) (below : List Frame) :
    (of top below).report (outermost top below).start stop = unfinished top below stop := by
  have hall : outermost top below :: (top :: below).dropLast.reverse = (top :: below).reverse := by
    have hreverse := congrArg List.reverse (dropLast_append_outermost top below)
    rwa [List.reverse_append] at hreverse
  unfold report unfinished of
  rw [hall]

end Stack

/-! ### The scan by bytes -/

/-- Byte `i` of the text is that of the ASCII character `a`. -/
def ByteIs (source : String) (i : Nat) (a : Char) : Prop := byteAt? source i = some a.toUInt8

/-- It can be computed whether a byte is that of a character. -/
instance (source : String) (i : Nat) (a : Char) : Decidable (ByteIs source i a) :=
  inferInstanceAs (Decidable (_ = _))

/-- Goes on at byte `cursor` inside the open comments `s`, in an attempt that started at `start`. -/
def scanBytes (source : String) (start : Nat) (s : Stack) (cursor : Nat) :
    Except Misuse (Except Failure Token) :=
  if cursor < source.utf8ByteSize then
    -- What opens and closes is told from the byte here and the one behind it.
    if ByteIs source cursor '{' then
      scanBytes source start (s.push (.opened .brace cursor)) (cursor + 1)
    else if ByteIs source cursor '(' ∧ ByteIs source (cursor + 1) '*' then
      scanBytes source start (s.push (.opened .paren cursor)) (cursor + 2)
    else if ByteIs source cursor '}' ∧ s.innermost.form = .brace then
      s.close source.toList (cursor + 1) fun s => scanBytes source start s (cursor + 1)
    else if ByteIs source cursor '*' ∧ ByteIs source (cursor + 1) ')' ∧
        s.innermost.form = .paren then
      s.close source.toList (cursor + 2) fun s => scanBytes source start s (cursor + 2)
    else if ByteIs source cursor '\n' ∧ s.outer.form = .line then
      (s.outer.cut source.toList (cursor + 1)).map .ok
    else
      scanBytes source start s (cursor + 1)
  else if s.outer.form = .line then
    (s.outer.cut source.toList source.utf8ByteSize).map .ok
  else
    .ok (.error (s.report start source.utf8ByteSize))
termination_by source.utf8ByteSize - cursor

/-- Recognizes a comment from the bytes at offset `pos` on, which may be any number. -/
def recognizeBytes (source : String) (pos : Nat) : Except Misuse (Except Failure Token) :=
  if source.utf8ByteSize < pos then .error (.startPastEnd pos)
  else if pos = source.utf8ByteSize then .ok (.error (.onSpot .endOfInput pos))
  else if ByteIs source pos '/' then
    if ByteIs source (pos + 1) '/' then scanBytes source pos ⟨.opened .line pos, []⟩ (pos + 2)
    else .ok (.error ⟨.loneSlash, pos, pos + 1⟩)
  else if ByteIs source pos '{' then scanBytes source pos ⟨.opened .brace pos, []⟩ (pos + 1)
  else if ByteIs source pos '(' then
    if ByteIs source (pos + 1) '*' then scanBytes source pos ⟨.opened .paren pos, []⟩ (pos + 2)
    -- A parenthesis at the very end is told apart from one with more text behind it.
    else if byteAt? source (pos + 1) = none then
      .ok (.error ⟨.loneParenthesis, pos, source.utf8ByteSize⟩)
    else .ok (.error ⟨.notAComment, pos, pos + 1⟩)
  else .ok (.error (.onSpot .notAComment pos))

/-! ### One turn of the scan -/

section Turn

variable {source : String} {start cursor pos : Nat} {s : Stack} {a c : Char} {cs : List Char}

/-- Where a cursor stands, the byte is that of the next character, if this is an ASCII character. -/
theorem byteIs_iff (hc : (Cursor.mk pos (c :: cs)).StandsIn source.toList) (ha : IsAscii a) :
    ByteIs source pos a ↔ c = a := by
  unfold ByteIs
  rw [hc.byteAt?_eq_iff ha, List.head?_cons, Option.some.injEq]

/-- An ASCII character is read by going on one byte. -/
theorem reads_of_isAscii (h : IsAscii c) :
    (Cursor.mk pos (c :: cs)).Reads [c] ⟨pos + 1, cs⟩ := ⟨rfl, by simp [h.utf8Size_eq_one]⟩

/-- Behind an ASCII character, the byte is that of the character after it. -/
theorem byteIs_succ_iff (hc : (Cursor.mk pos (c :: cs)).StandsIn source.toList) (h : IsAscii c)
    (ha : IsAscii a) : ByteIs source (pos + 1) a ↔ cs.head? = some a := by
  exact (hc.of_reads (reads_of_isAscii h)).byteAt?_eq_iff ha

/-- A byte of eight bits is not that of an ASCII character. -/
theorem not_byteIs_of_high {b : UInt8} (hb : byteAt? source cursor = some b)
    (hhigh : 128 ≤ b.toNat) (ha : IsAscii a) : ¬ ByteIs source cursor a := by
  intro h
  obtain rfl := Option.some.inj (hb.symm.trans h)
  rw [ha.toNat_toUInt8] at hhigh
  exact Nat.not_le_of_lt ha hhigh

/-- Where there is a byte, the text has not ended. -/
theorem lt_utf8ByteSize_of_byteAt? {b : UInt8} (hb : byteAt? source cursor = some b) :
    cursor < source.utf8ByteSize := by
  refine Nat.lt_of_not_le fun hle => ?_
  rw [byteAt?_eq_none_iff.mpr hle] at hb
  cases hb

/-- In front of a character, the text has not ended. -/
theorem lt_utf8ByteSize_of_standsIn (hc : (Cursor.mk pos (c :: cs)).StandsIn source.toList) :
    pos < source.utf8ByteSize := by
  have hne : pos ≠ byteSize source.toList := mt hc.pos_eq_byteSize_iff.mp (List.cons_ne_nil c cs)
  rw [utf8ByteSize_eq]
  exact Nat.lt_of_le_of_ne hc.pos_le_byteSize hne

/-- An ASCII character is the last one exactly if the text ends behind its byte. -/
theorem pos_succ_eq_utf8ByteSize_iff (hc : (Cursor.mk pos (c :: cs)).StandsIn source.toList)
    (h : IsAscii c) : pos + 1 = source.utf8ByteSize ↔ cs = [] := by
  rw [utf8ByteSize_eq]
  exact (hc.of_reads (reads_of_isAscii h)).pos_eq_byteSize_iff

/-- In front of a character, the scan does one of six things. -/
theorem scanBytes_cons (hc : (Cursor.mk pos (c :: cs)).StandsIn source.toList) :
    scanBytes source start s pos =
      if c = '{' then scanBytes source start (s.push (.opened .brace pos)) (pos + 1)
      else if c = '(' ∧ cs.head? = some '*' then
        scanBytes source start (s.push (.opened .paren pos)) (pos + 2)
      else if c = '}' ∧ s.innermost.form = .brace then
        s.close source.toList (pos + 1) fun s => scanBytes source start s (pos + 1)
      else if c = '*' ∧ cs.head? = some ')' ∧ s.innermost.form = .paren then
        s.close source.toList (pos + 2) fun s => scanBytes source start s (pos + 2)
      else if c = '\n' ∧ s.outer.form = .line then
        (s.outer.cut source.toList (pos + 1)).map .ok
      else scanBytes source start s (pos + 1) := by
  -- The second byte is that of the second character only behind an ASCII character, so the two
  -- bytes of a marker are looked at together.
  have hparen : ByteIs source pos '(' ∧ ByteIs source (pos + 1) '*' ↔
      c = '(' ∧ cs.head? = some '*' := by
    rw [byteIs_iff hc (by decide)]
    refine and_congr_right ?_
    rintro rfl
    exact byteIs_succ_iff hc (by decide) (by decide)
  have hstar : ByteIs source pos '*' ∧ ByteIs source (pos + 1) ')' ∧ s.innermost.form = .paren ↔
      c = '*' ∧ cs.head? = some ')' ∧ s.innermost.form = .paren := by
    rw [byteIs_iff hc (by decide)]
    refine and_congr_right ?_
    rintro rfl
    rw [byteIs_succ_iff hc (by decide) (by decide)]
  rw [scanBytes, if_pos (lt_utf8ByteSize_of_standsIn hc)]
  simp only [hparen, hstar, byteIs_iff hc (show IsAscii '{' by decide),
    byteIs_iff hc (show IsAscii '}' by decide), byteIs_iff hc (show IsAscii '\n' by decide)]

/-- A byte of eight bits is passed over. -/
theorem scanBytes_of_high {b : UInt8} (hb : byteAt? source cursor = some b)
    (hhigh : 128 ≤ b.toNat) :
    scanBytes source start s cursor = scanBytes source start s (cursor + 1) := by
  have hne {a : Char} (ha : IsAscii a) : ¬ ByteIs source cursor a := not_byteIs_of_high hb hhigh ha
  rw [scanBytes, if_pos (lt_utf8ByteSize_of_byteAt? hb), if_neg (hne (by decide)),
    if_neg fun h => hne (by decide) h.1, if_neg fun h => hne (by decide) h.1,
    if_neg fun h => hne (by decide) h.1, if_neg fun h => hne (by decide) h.1]

/-- At the end of the text a line comment ends, and any other is left open. -/
theorem scanBytes_nil (hc : (Cursor.mk pos []).StandsIn source.toList) :
    scanBytes source start s pos =
      if s.outer.form = .line then (s.outer.cut source.toList pos).map .ok
      else .ok (.error (s.report start pos)) := by
  have hend : pos = source.utf8ByteSize := by
    rw [utf8ByteSize_eq]
    exact hc.pos_eq_byteSize_iff.mpr rfl
  rw [scanBytes, if_neg (by omega), ← hend]

/-- A character outside ASCII is passed over byte by byte. -/
theorem scanBytes_of_not_isAscii (hc : (Cursor.mk pos (c :: cs)).StandsIn source.toList)
    (h : ¬ IsAscii c) :
    scanBytes source start s pos = scanBytes source start s (pos + c.utf8Size) := by
  -- The induction is on how many bytes of the character are passed over.
  have hpass (k : Nat) (hk : k ≤ c.utf8Size) :
      scanBytes source start s pos = scanBytes source start s (pos + k) := by
    induction k with
    | zero => rfl
    | succ k ih =>
      obtain ⟨b, hb, hhigh⟩ := hc.exists_high_byte rfl h hk
      rw [ih (Nat.le_of_succ_le hk), scanBytes_of_high hb hhigh, Nat.add_assoc]
  exact hpass c.utf8Size (Nat.le_refl _)

/-- A character that begins no marker and ends no line is passed over. -/
theorem scanBytes_of_ordinary (hc : (Cursor.mk pos (c :: cs)).StandsIn source.toList)
    (hbrace : c ≠ '{') (hparen : ¬ (c = '(' ∧ cs.head? = some '*')) (hclose : c ≠ '}')
    (hstar : ¬ (c = '*' ∧ cs.head? = some ')')) (hline : c ≠ '\n') :
    scanBytes source start s pos = scanBytes source start s (pos + c.utf8Size) := by
  by_cases hascii : IsAscii c
  · rw [scanBytes_cons hc, if_neg hbrace, if_neg hparen, if_neg fun h => hclose h.1,
      if_neg fun h => hstar ⟨h.1, h.2.1⟩, if_neg fun h => hline h.1, hascii.utf8Size_eq_one]
  · exact scanBytes_of_not_isAscii hc hascii

end Turn

/-! ### Both scans find the same -/

/-- The answer to an attempt that started at `start`, from the answer of a scan by characters. -/
def answerFrom (start : Nat) : Except Misuse Attempt → Except Misuse (Except Failure Token) :=
  Except.map (Except.map (·.token ⟨start, []⟩))

/-- Cutting out a comment gives its token, or fails because it cannot be cut out. -/
theorem Frame.cut_cases (text : List Char) (f : Frame) (stop : Nat) :
    f.cut text stop = .error .badSlice ∨ f.cut text stop = .ok (f.close stop) := by
  unfold Frame.cut Span.within
  split
  · exact .inr rfl
  · exact .inl rfl

/-- A comment that ends the scan is the answer, if it was opened where the attempt started. -/
theorem Frame.answerFrom_finish (text : List Char) (f : Frame) (next : Cursor) {start : Nat}
    (hstart : f.start = start) :
    answerFrom start ((f.cut text next.pos).map fun _ => .ok (f.finish next))
      = (f.cut text next.pos).map .ok := by
  subst hstart
  rcases f.cut_cases text next.pos with hcut | hcut
  all_goals
    rw [hcut]
    rfl

/-- A nested comment that is closed leaves the rest to the scan, which goes on with its token. -/
theorem Frame.answerFrom_bind_cut {text : List Char} {f : Frame} {stop start : Nat}
    {bytes : Token → Except Misuse (Except Failure Token)} {chars : Token → Except Misuse Attempt}
    (h : bytes (f.close stop) = answerFrom start (chars (f.close stop))) :
    answerFrom start ((f.cut text stop).bind chars) = (f.cut text stop).bind bytes := by
  rcases f.cut_cases text stop with hcut | hcut
  · rw [hcut]
    rfl
  · rw [hcut]
    exact h.symm

section Both

variable {source : String} {start pos : Nat} {line : Bool} {top outer : Frame}
  {below outers : List Frame} {cs : List Char}

/-- What is known of the outermost comment along the scan: it was opened where the attempt
started, and `line` says whether it ends with its line. -/
structure Outermost (start : Nat) (line : Bool) (f : Frame) : Prop where
  start_eq : f.start = start
  form_eq_iff : f.form = .line ↔ line = true

/-- Opening a comment changes nothing about the outermost one. -/
theorem Outermost.push (h : Outermost start line (outermost top below)) (f : Frame) :
    Outermost start line (outermost f (top :: below)) := by
  rwa [outermost_cons]

/-- Neither does closing a nested one. -/
theorem Outermost.pop (h : Outermost start line (outermost top (outer :: outers))) (t : Token) :
    Outermost start line (outermost (outer.add t) outers) := by
  constructor
  · -- To record one comment is to record a list of one.
    rw [outermost_cons] at h
    exact (outermost_addAll_start outer outers [t]).trans h.start_eq
  · rw [outermost_add_form top]
    exact h.form_eq_iff

/-- Where a cursor stands, the scan by bytes gives the same answer as the scan by characters, from
the same open comments. -/
theorem scanBytes_eq_scanCutting :
    (Cursor.mk pos cs).StandsIn source.toList → Outermost start line (outermost top below) →
      scanBytes source start (Stack.of top below) pos =
        answerFrom start (scanCutting source.toList line top below pos cs) := by
  have hread (pos : Nat) (s cs : List Char) :
      (Cursor.mk pos (s ++ cs)).Reads s ⟨pos + byteSize s, cs⟩ := ⟨rfl, rfl⟩
  -- The cases are those of the scan by characters. In each, the tests on bytes come out as its
  -- patterns do.
  fun_induction scan line top below pos cs with
  | case1 top below pos cs ih =>
    intro hc hout
    rw [scanBytes_cons hc, if_pos rfl, Stack.push_of]
    exact ih (hc.of_reads (hread pos ['{'] cs)) (hout.push _)
  | case2 top below pos cs ih =>
    intro hc hout
    rw [scanBytes_cons hc, if_neg (by decide), if_pos ⟨rfl, rfl⟩, Stack.push_of]
    exact ih (hc.of_reads (hread pos ['(', '*'] cs)) (hout.push _)
  | case3 top pos cs hform =>
    intro hc hout
    rw [scanBytes_cons hc, if_neg (by decide), if_neg (by simp), if_pos ⟨rfl, hform⟩,
      Stack.close_of_nil, scanCutting, if_pos hform]
    exact (top.answerFrom_finish _ ⟨pos + 1, cs⟩ hout.start_eq).symm
  | case4 top pos cs hform outer outers ih =>
    intro hc hout
    rw [scanBytes_cons hc, if_neg (by decide), if_neg (by simp),
      if_pos ⟨rfl, (congrArg Frame.form (Stack.innermost_of ..)).trans hform⟩,
      Stack.close_of_cons, scanCutting, if_pos hform]
    exact (Frame.answerFrom_bind_cut (ih (hc.of_reads (hread pos ['}'] cs)) (hout.pop _))).symm
  | case5 top below pos cs hform ih =>
    intro hc hout
    rw [scanBytes_cons hc, if_neg (by decide), if_neg (by simp), Stack.innermost_of,
      if_neg fun h => hform h.2, if_neg (by simp), if_neg (by simp), scanCutting, if_neg hform]
    exact ih (hc.of_reads (hread pos ['}'] cs)) hout
  | case6 top pos cs hform =>
    intro hc hout
    rw [scanBytes_cons hc, if_neg (by decide), if_neg (by simp), if_neg (by simp),
      if_pos ⟨rfl, rfl, hform⟩, Stack.close_of_nil, scanCutting, if_pos hform]
    exact (top.answerFrom_finish _ ⟨pos + 2, cs⟩ hout.start_eq).symm
  | case7 top pos cs hform outer outers ih =>
    intro hc hout
    rw [scanBytes_cons hc, if_neg (by decide), if_neg (by simp), if_neg (by simp),
      if_pos ⟨rfl, rfl, (congrArg Frame.form (Stack.innermost_of ..)).trans hform⟩,
      Stack.close_of_cons, scanCutting, if_pos hform]
    exact (Frame.answerFrom_bind_cut
      (ih (hc.of_reads (hread pos ['*', ')'] cs)) (hout.pop _))).symm
  | case8 top below pos cs hform ih =>
    intro hc hout
    rw [scanBytes_cons hc, if_neg (by decide), if_neg (by simp), if_neg (by simp),
      Stack.innermost_of, if_neg fun h => hform h.2.2, if_neg (by simp)]
    -- The second byte of the foreign closer is met on its own.
    have hparen : (Cursor.mk (pos + 1) (')' :: cs)).StandsIn source.toList :=
      hc.of_reads (hread pos ['*'] _)
    rw [scanBytes_cons hparen, if_neg (by decide), if_neg (by simp), if_neg (by simp),
      if_neg (by simp), if_neg (by simp), scanCutting, if_neg hform]
    exact ih (hc.of_reads (hread pos ['*', ')'] cs)) hout
  | case9 top below pos cs hline =>
    intro hc hout
    rw [scanBytes_cons hc, if_neg (by decide), if_neg (by simp), if_neg (by simp),
      if_neg (by simp), Stack.outer_of, if_pos ⟨rfl, hout.form_eq_iff.mpr hline⟩, scanCutting,
      if_pos hline]
    exact (Frame.answerFrom_finish _ _ ⟨pos + 1, cs⟩ hout.start_eq).symm
  | case10 top below pos cs hline ih =>
    intro hc hout
    rw [scanBytes_cons hc, if_neg (by decide), if_neg (by simp), if_neg (by simp),
      if_neg (by simp), Stack.outer_of, if_neg fun h => hline (hout.form_eq_iff.mp h.2),
      scanCutting, if_neg hline]
    exact ih (hc.of_reads (hread pos ['\n'] cs)) hout
  | case11 top below pos c cs hbrace hparen hclose hstar hline ih =>
    intro hc hout
    have hr : (Cursor.mk pos (c :: cs)).Reads [c] ⟨pos + c.utf8Size, cs⟩ := ⟨rfl, by simp⟩
    have hnoparen : ¬ (c = '(' ∧ cs.head? = some '*') := by
      rintro ⟨rfl, hhead⟩
      obtain ⟨ds, rfl⟩ := List.head?_eq_some_iff.mp hhead
      exact hparen ds rfl rfl
    have hnostar : ¬ (c = '*' ∧ cs.head? = some ')') := by
      rintro ⟨rfl, hhead⟩
      obtain ⟨ds, rfl⟩ := List.head?_eq_some_iff.mp hhead
      exact hstar ds rfl rfl
    rw [scanBytes_of_ordinary hc hbrace hnoparen hclose hnostar hline, scanCutting]
    · exact ih (hc.of_reads hr) hout
    all_goals assumption
  | case12 top below pos hline =>
    intro hc hout
    rw [scanBytes_nil hc, Stack.outer_of, if_pos (hout.form_eq_iff.mpr hline), scanCutting,
      if_pos hline]
    exact (Frame.answerFrom_finish _ _ ⟨pos, []⟩ hout.start_eq).symm
  | case13 top below pos hline =>
    intro hc hout
    rw [scanBytes_nil hc, Stack.outer_of, if_neg (mt hout.form_eq_iff.mp hline), scanCutting,
      if_neg hline, ← hout.start_eq, Stack.report_of]
    rfl

end Both

/-! ### From the opener on -/

section Opener

variable {source : String} {c : Cursor}

/-- Behind an opener, the scan by bytes finds the comment that begins there. -/
theorem scanBytes_of_opener (form : CommentForm) (opened : Cursor)
    (hc : c.StandsIn source.toList) (hopen : c.Reads form.opener opened) :
    scanBytes source c.pos ⟨.opened form c.pos, []⟩ opened.pos
      = .ok ((recognize c).map (·.token c)) := by
  have hout : Outermost c.pos (form == .line) (outermost (.opened form c.pos) []) :=
    ⟨rfl, beq_iff_eq.symm⟩
  have hscan := scanBytes_eq_scanCutting (hc.of_reads hopen) hout
  rw [(cuts_recognize hc hopen).eq_ok] at hscan
  exact hscan

/-- In front of a character, one or two bytes tell what begins there. -/
theorem recognizeBytes_cons {pos : Nat} {d : Char} {ds : List Char}
    (hc : (Cursor.mk pos (d :: ds)).StandsIn source.toList) :
    recognizeBytes source pos =
      if d = '/' then
        if ds.head? = some '/' then scanBytes source pos ⟨.opened .line pos, []⟩ (pos + 2)
        else .ok (.error ⟨.loneSlash, pos, pos + 1⟩)
      else if d = '{' then scanBytes source pos ⟨.opened .brace pos, []⟩ (pos + 1)
      else if d = '(' then
        if ds.head? = some '*' then scanBytes source pos ⟨.opened .paren pos, []⟩ (pos + 2)
        else if ds = [] then .ok (.error ⟨.loneParenthesis, pos, source.utf8ByteSize⟩)
        else .ok (.error ⟨.notAComment, pos, pos + 1⟩)
      else .ok (.error (.onSpot .notAComment pos)) := by
  have hlt := lt_utf8ByteSize_of_standsIn hc
  -- Only behind an ASCII character does the next byte say what the next character is.
  have hnext {a : Char} (hd : IsAscii d) (ha : IsAscii a) :
      ByteIs source (pos + 1) a ↔ ds.head? = some a := byteIs_succ_iff hc hd ha
  have hend (hd : IsAscii d) : byteAt? source (pos + 1) = none ↔ ds = [] := by
    rw [byteAt?_eq_none_iff, ← pos_succ_eq_utf8ByteSize_iff hc hd]
    omega
  unfold recognizeBytes
  rw [if_neg (by omega), if_neg (by omega)]
  simp only [byteIs_iff hc (show IsAscii '/' by decide), byteIs_iff hc (show IsAscii '{' by decide),
    byteIs_iff hc (show IsAscii '(' by decide)]
  by_cases hslash : d = '/'
  · subst hslash
    rw [if_pos rfl, if_pos rfl]
    simp only [hnext (by decide) (show IsAscii '/' by decide)]
  by_cases hparen : d = '('
  · subst hparen
    have hbrace : '(' ≠ '{' := by decide
    rw [if_neg hslash, if_neg hslash, if_neg hbrace, if_neg hbrace, if_pos rfl, if_pos rfl]
    simp only [hnext (by decide) (show IsAscii '*' by decide), hend (by decide)]
  · rw [if_neg hslash, if_neg hslash, if_neg hparen, if_neg hparen]

/-- In front of a character, the bytes say what the class of comments says. -/
theorem recognizeBytes_of_standsIn (hc : c.StandsIn source.toList) (hne : c.rest ≠ []) :
    recognizeBytes source c.pos = .ok ((recognize c).map (·.token c)) := by
  obtain ⟨pos, rest⟩ := c
  unfold recognize
  dsimp only
  -- One case for each way in which a text can begin.
  split
  next cs =>
    rw [recognizeBytes_cons hc, if_pos rfl, if_pos List.head?_cons]
    exact scanBytes_of_opener .line ⟨pos + 2, cs⟩ hc ⟨rfl, rfl⟩
  next cs hline =>
    have hhead : cs.head? ≠ some '/' := fun h =>
      have ⟨ds, hds⟩ := List.head?_eq_some_iff.mp h
      hline ds hds
    rw [recognizeBytes_cons hc, if_pos rfl, if_neg hhead]
    rfl
  next cs =>
    rw [recognizeBytes_cons hc, if_neg (by decide), if_pos rfl]
    exact scanBytes_of_opener .brace ⟨pos + 1, cs⟩ hc ⟨rfl, rfl⟩
  next cs =>
    rw [recognizeBytes_cons hc, if_neg (by decide), if_neg (by decide), if_pos rfl,
      if_pos List.head?_cons]
    exact scanBytes_of_opener .paren ⟨pos + 2, cs⟩ hc ⟨rfl, rfl⟩
  next =>
    rw [recognizeBytes_cons hc, if_neg (by decide), if_neg (by decide), if_pos rfl,
      if_neg (by decide), if_pos rfl, ← (pos_succ_eq_utf8ByteSize_iff hc (by decide)).mpr rfl]
    rfl
  next cs hparen hlone =>
    have hhead : cs.head? ≠ some '*' := fun h =>
      have ⟨ds, hds⟩ := List.head?_eq_some_iff.mp h
      hparen ds hds
    rw [recognizeBytes_cons hc, if_neg (by decide), if_neg (by decide), if_pos rfl, if_neg hhead,
      if_neg hlone]
    rfl
  next _ hslash hbrace _ _ hparen =>
    obtain ⟨d, ds, rfl⟩ := List.exists_cons_of_ne_nil hne
    have hd {a : Char} (h : ∀ ds', d :: ds = a :: ds' → False) : d ≠ a := fun heq =>
      h ds (congrArg (· :: ds) heq)
    rw [recognizeBytes_cons hc, if_neg (hd hslash), if_neg (hd hbrace), if_neg (hd hparen)]
    rfl

/-- At an offset inside a character, no comment begins. -/
theorem recognizeBytes_of_inside {pos : Nat} (h : locate source.toList pos = .inside) :
    recognizeBytes source pos = .ok (.error (.onSpot .notAComment pos)) := by
  obtain ⟨b, hb, hhigh⟩ := exists_high_byte_of_inside h
  have hlt := lt_utf8ByteSize_of_byteAt? hb
  have hne {a : Char} (ha : IsAscii a) : ¬ ByteIs source pos a := not_byteIs_of_high hb hhigh ha
  unfold recognizeBytes
  rw [if_neg (by omega), if_neg (by omega), if_neg (hne (by decide)), if_neg (hne (by decide)),
    if_neg (hne (by decide))]

/-- At every offset of every text, inside characters and past the end included, the class of
comments gives the answer that can be read from the bytes. -/
theorem recognize_comment_eq_recognizeBytes (source : String) (pos : Nat) :
    Recognizer.comment.recognize source.toList pos = recognizeBytes source pos := by
  -- The class looks at where the offset falls, and the bytes know nothing of that.
  cases hplace : locate source.toList pos with
  | boundary rest =>
    have hc : (Cursor.mk pos rest).StandsIn source.toList := hplace
    by_cases hrest : rest = []
    · have hend : pos = source.utf8ByteSize :=
        (hc.pos_eq_byteSize_iff.mpr hrest).trans (utf8ByteSize_eq source).symm
      unfold recognizeBytes
      rw [Recognizer.recognize_of_standsIn hc, Recognizer.run_of_rest_eq_nil hrest,
        if_neg (by omega), if_pos hend]
      rfl
    · rw [Recognizer.recognize_of_rest_ne_nil hc hrest]
      exact (recognizeBytes_of_standsIn hc hrest).symm
  | inside =>
    rw [recognizeBytes_of_inside hplace]
    unfold Recognizer.recognize
    rw [hplace]
  | beyond =>
    have hpast := locate_eq_beyond_iff.mp hplace
    rw [← utf8ByteSize_eq] at hpast
    unfold Recognizer.recognize recognizeBytes
    rw [hplace, if_pos hpast]

end Opener

end PascalScan.Comment
