import PascalScan.Coloring.Session
import PascalScan.Proofs.Coloring.Shown
import PascalScan.Proofs.Lexical.Contract

/-!
# `PascalScan.Proofs.Coloring.Offsets`: a highlighter that knows offsets only

A highlighter holds a cursor, so it has what follows at hand and cannot ask for anything that makes
no sense. Here is one that holds a byte offset and nothing else. It asks the lexical classes at its
offset, cuts the values of all tokens out of the text, also of those inside a comment, and takes the
first character behind the offset where no class matches. Each of these can be a `Misuse`, and that
ends everything.

None of them is, wherever the offset is that of a highlighter in its text: what is found is what the
highlighter finds, and the offset goes with it (`Highlighter.nextAt_eq`, `nthAt_eq`, `restAt_eq`).
-/

set_option autoImplicit false

namespace PascalScan

open Text

/-! ### The highlighter -/

/-- Asks a class at byte offset `pos`. A comment is recognized in such a way that every comment
inside it is cut out of the text as soon as it is closed. -/
def askCutting (text : List Char) (pos : Nat) (r : Recognizer) :
    Except Misuse (Except Failure Token) :=
  match r, locate text pos with
  | .comment, .boundary rest =>
    match [CommentForm.line, .brace, .paren].find? (·.opener.isPrefixOf rest) with
    | some form =>
      (Comment.scanCutting text (form == .line) (.opened form pos) []
        (pos + byteSize form.opener) (rest.drop form.opener.length)).map fun attempt =>
          attempt.map (·.token ⟨pos, rest⟩)
    | none => r.recognize text pos
  | _, _ => r.recognize text pos

/-- The first token that a class recognizes at byte offset `pos`. A class that cannot be asked there
ends the search. -/
def firstTokenAt (text : List Char) (pos : Nat) : List Recognizer → Except Misuse (Option Token)
  | [] => .ok none
  | r :: rs =>
    match askCutting text pos r with
    | .error misuse => .error misuse
    | .ok (.ok t) => if pos < t.stop then .ok (some t) else firstTokenAt text pos rs
    | .ok (.error _) => firstTokenAt text pos rs

/-- A token that is found at an offset ends behind it. -/
theorem lt_stop_of_firstTokenAt {text : List Char} {pos : Nat} {rs : List Recognizer} {t : Token}
    (h : firstTokenAt text pos rs = .ok (some t)) : pos < t.stop := by
  fun_induction firstTokenAt text pos rs with
  | case1 => cases h
  | case2 => cases h
  | case3 _ _ _ _ hlt =>
    cases h
    exact hlt
  | case4 _ _ _ _ _ ih => exact ih h
  | case5 _ _ _ _ ih => exact ih h

/-- The number of bytes of the first character behind `pos`, and one byte if there is none. -/
def widthAt (text : List Char) (pos : Nat) : Except Misuse Nat :=
  match locate text pos with
  | .boundary rest => .ok ((rest.head?.map Char.utf8Size).getD 1)
  | _ => .error .badSlice

/-- Every character has some width. -/
theorem widthAt_pos {text : List Char} {pos width : Nat} (h : widthAt text pos = .ok width) :
    0 < width := by
  unfold widthAt at h
  split at h
  next rest _ =>
    cases h
    cases rest with
    | nil => exact Nat.one_pos
    | cons ch _ => exact ch.utf8Size_pos
  next => cases h

/-- The next piece that is shown from byte offset `pos`, and the offset after it. -/
def nextAt (source : String) (keywords : KeywordSet) (showBlanks : Bool) (pos : Nat) :
    Except Misuse (Option Lexeme × Nat) :=
  if pos < byteSize source.toList then
    match h : firstTokenAt source.toList pos Recognizer.all with
    | .error misuse => .error misuse
    | .ok (some t) =>
      have : pos < t.stop := lt_stop_of_firstTokenAt h
      match (Tree.label t).within source.toList with
      | .error misuse => .error misuse
      | .ok span =>
        if t.kind = .blank ∧ showBlanks = false then nextAt source keywords showBlanks t.stop
        else .ok (some ⟨.ofKind keywords t.kind (span.text source), pos, t.stop⟩, t.stop)
    | .ok none =>
      match widthAt source.toList pos with
      | .error misuse => .error misuse
      | .ok width => .ok (some ⟨.error, pos, pos + width⟩, pos + width)
  else .ok (none, pos)
termination_by byteSize source.toList - pos

/-- Showing a piece moves on. -/
theorem lt_of_nextAt {source : String} {keywords : KeywordSet} {showBlanks : Bool} {pos next : Nat}
    {lexeme : Lexeme} (h : nextAt source keywords showBlanks pos = .ok (some lexeme, next)) :
    pos < next ∧ pos < byteSize source.toList := by
  fun_induction nextAt source keywords showBlanks pos with
  | case1 => cases h
  | case2 => cases h
  -- a hidden blank has been passed over, and the loop went on behind it
  | case3 pos hlt t _ hstop _ _ _ ih => exact ⟨Nat.lt_trans hstop (ih h).1, hlt⟩
  | case4 pos hlt t _ hstop =>
    cases h
    exact ⟨hstop, hlt⟩
  | case5 => cases h
  | case6 pos hlt _ width hwidth =>
    have := widthAt_pos hwidth
    cases h
    exact ⟨by omega, hlt⟩
  | case7 => cases h

/-- Passes over `n` pieces and shows the one after them. -/
def nthAt (source : String) (keywords : KeywordSet) (showBlanks : Bool) :
    Nat → Nat → Except Misuse (Option Lexeme × Nat)
  | 0, pos => nextAt source keywords showBlanks pos
  | n + 1, pos =>
    match nextAt source keywords showBlanks pos with
    | .error misuse => .error misuse
    | .ok (none, pos) => .ok (none, pos)
    | .ok (some _, pos) => nthAt source keywords showBlanks n pos

/-- Shows all that is left. -/
def restAt (source : String) (keywords : KeywordSet) (showBlanks : Bool) (pos : Nat) :
    Except Misuse (List Lexeme × Nat) :=
  match h : nextAt source keywords showBlanks pos with
  | .error misuse => .error misuse
  | .ok (none, pos) => .ok ([], pos)
  | .ok (some lexeme, next) =>
    have : pos < next ∧ pos < byteSize source.toList := lt_of_nextAt h
    match restAt source keywords showBlanks next with
    | .error misuse => .error misuse
    | .ok (lexemes, stop) => .ok (lexeme :: lexemes, stop)
termination_by byteSize source.toList - pos

/-- What is left of a session: the offset where it is, and the one that is remembered. -/
structure Offsets where
  current : Nat
  saved : Nat

/-- The reply to a request, and the offsets after it. -/
def askAt (source : String) (keywords : KeywordSet) (showBlanks : Bool) (o : Offsets) :
    Request → Except Misuse (Reply × Offsets)
  | .next => (nextAt source keywords showBlanks o.current).map fun (lexeme, pos) =>
      (.piece lexeme, { o with current := pos })
  | .nth n => (nthAt source keywords showBlanks n o.current).map fun (lexeme, pos) =>
      (.piece lexeme, { o with current := pos })
  | .rest => (restAt source keywords showBlanks o.current).map fun (lexemes, pos) =>
      (.pieces lexemes, { o with current := pos })
  | .count => (restAt source keywords showBlanks o.current).map fun (lexemes, pos) =>
      (.number lexemes.length, { o with current := pos })
  | .save => .ok (.done, { o with saved := o.current })
  | .load => .ok (.done, { o with current := o.saved })
  | .restartAt pos =>
    if IsBoundary source.toList pos then .ok (.done, { o with current := pos })
    else .ok (.rejected (.restartOffBoundary pos), o)

/-- The replies to requests that are made one after the other, and the offsets after them. -/
def askAllAt (source : String) (keywords : KeywordSet) (showBlanks : Bool) (o : Offsets) :
    List Request → Except Misuse (List Reply × Offsets)
  | [] => .ok ([], o)
  | request :: requests =>
    match askAt source keywords showBlanks o request with
    | .error misuse => .error misuse
    | .ok (reply, o) =>
      (askAllAt source keywords showBlanks o requests).map fun (replies, o) => (reply :: replies, o)

/-! ### One search -/

variable {source : String} {keywords : KeywordSet} {showBlanks : Bool}

/-- In the text, cutting is always possible and makes no difference. -/
theorem askCutting_eq {c : Cursor} (hc : c.StandsIn source.toList) (r : Recognizer) :
    askCutting source.toList c.pos r = r.recognize source.toList c.pos := by
  have hplace : locate source.toList c.pos = .boundary c.rest := hc
  unfold askCutting
  rw [hplace]
  split
  next rest _ hrest =>
    obtain rfl := Place.boundary.inj hrest
    split
    next form hform =>
      -- a comment opens here, so the walk that cuts is the scan of the comment class
      have hfound := List.find?_some hform
      obtain ⟨opened, hopen⟩ :=
        Cursor.exists_reads_of_isPrefix (List.isPrefixOf_iff_prefix.mp hfound)
      have hdrop : c.rest.drop form.opener.length = opened.rest := by
        rw [hopen.1, List.drop_left]
      rw [hdrop, ← hopen.2, (Comment.cuts_recognize hc hopen).eq_ok,
        Recognizer.recognize_of_rest_ne_nil hc (hopen.rest_ne_nil form.opener_ne_nil)]
      rfl
    next => rfl
  next => rfl

/-- In the text, the first token is that of the first match. -/
theorem firstTokenAt_eq {c : Cursor} (hc : c.StandsIn source.toList) (rs : List Recognizer) :
    firstTokenAt source.toList c.pos rs
      = .ok ((rs.findSome? fun r => (r.run c).toOption).map (·.token c)) := by
  induction rs with
  | nil => rfl
  | cons r rs ih =>
    rw [firstTokenAt, askCutting_eq hc, Recognizer.recognize_of_standsIn hc, List.findSome?_cons]
    cases hrun : r.run c with
    | error f => exact ih
    | ok m =>
      obtain ⟨s, hs, hread⟩ := Recognizer.run_readsFrom hrun
      exact if_pos (hread.pos_lt hs)

/-- Where a class matches, the piece is what it matches, or it is passed over. -/
theorem nextAt_of_anyMatch? {c : Cursor} {m : Match} (hc : c.StandsIn source.toList)
    (h : anyMatch? c = some m) :
    nextAt source keywords showBlanks c.pos =
      if m.kind = .blank ∧ showBlanks = false then nextAt source keywords showBlanks m.next.pos
      else .ok (some ⟨styleOf keywords c m, c.pos, m.next.pos⟩, m.next.pos) := by
  obtain ⟨s, hs, hread⟩ := readsFrom_of_anyMatch? h
  have hlt : c.pos < byteSize source.toList :=
    Nat.lt_of_lt_of_le (hread.pos_lt hs) (hc.of_reads hread).pos_le_byteSize
  -- The loop by offsets finds the same token, and it can be cut out of the text to be styled.
  have hfirst : firstTokenAt source.toList c.pos Recognizer.all = .ok (some (m.token c)) := by
    rw [firstTokenAt_eq hc]
    show Except.ok ((anyMatch? c).map (·.token c)) = _
    rw [h]
    rfl
  have hslice : slice? source.toList c.pos m.next.pos = some s := hc.slice?_of_reads hread
  have hwithin : (Tree.label (m.token c)).within source.toList = .ok (Tree.label (m.token c)) :=
    if_pos (Option.isSome_iff_exists.mpr ⟨s, hslice⟩)
  have hstyle : styleOf keywords c m
      = .ofKind keywords m.kind ((Tree.label (m.token c)).text source) := by
    rw [styleOf, Cursor.textUpTo_of_reads hread]
    exact congrArg _ (excerpt_eq_of_slice? hslice).symm
  rw [nextAt, if_pos hlt]
  split
  next misuse hmisuse => cases hfirst.symm.trans hmisuse
  next t ht =>
    cases hfirst.symm.trans ht
    rw [hwithin, hstyle]
    rfl
  next hnone => cases hfirst.symm.trans hnone

/-- Where no class matches, the piece is one character in error. -/
theorem nextAt_of_error {c : Cursor} {ch : Char} {cs : List Char} (hc : c.StandsIn source.toList)
    (h : anyMatch? c = none) (hrest : c.rest = ch :: cs) :
    nextAt source keywords showBlanks c.pos
      = .ok (some ⟨.error, c.pos, c.pos + ch.utf8Size⟩, c.pos + ch.utf8Size) := by
  have hread : c.Reads [ch] ⟨c.pos + ch.utf8Size, cs⟩ := ⟨hrest, by simp⟩
  have hlt : c.pos < byteSize source.toList :=
    Nat.lt_of_lt_of_le (hread.pos_lt (by simp)) (hc.of_reads hread).pos_le_byteSize
  -- no class matches, so the piece is a single character
  have hfirst : firstTokenAt source.toList c.pos Recognizer.all = .ok none := by
    rw [firstTokenAt_eq hc]
    show Except.ok ((anyMatch? c).map (·.token c)) = _
    rw [h]
    rfl
  have hwidth : widthAt source.toList c.pos = .ok ch.utf8Size := by
    rw [widthAt, hc, hrest]
    rfl
  rw [nextAt, if_pos hlt]
  split
  next misuse hmisuse => cases hfirst.symm.trans hmisuse
  next t ht => cases hfirst.symm.trans ht
  next => rw [hwidth]

/-- At the end of the text there is no piece. -/
theorem nextAt_of_rest_eq_nil {c : Cursor} (hc : c.StandsIn source.toList) (hrest : c.rest = []) :
    nextAt source keywords showBlanks c.pos = .ok (none, c.pos) := by
  rw [nextAt, if_neg (Nat.not_lt.mpr (Nat.le_of_eq (hc.pos_eq_byteSize_iff.mpr hrest).symm))]

/-- In front of a piece, the search passes over it or ends with it. -/
theorem nextAt_of_lexemeAt {c next : Cursor} {lexeme : Lexeme} (hc : c.StandsIn source.toList)
    (h : lexemeAt keywords c = some (lexeme, next)) :
    nextAt source keywords showBlanks c.pos =
      if lexeme.kind = .blank ∧ showBlanks = false then nextAt source keywords showBlanks next.pos
      else .ok (some lexeme, next.pos) := by
  cases hany : anyMatch? c with
  | some m =>
    cases h.symm.trans (lexemeAt_of_anyMatch?_eq_some hany)
    have hblank : styleOf keywords c m = .blank ↔ m.kind = .blank := Style.ofKind_eq_blank_iff
    rw [nextAt_of_anyMatch? hc hany]
    simp only [hblank]
  | none =>
    obtain ⟨s, hs, hread, -⟩ := (cutsOff_of_lexemeAt h).reads
    obtain ⟨ch, cs, hrest⟩ := List.exists_cons_of_ne_nil (hread.rest_ne_nil hs)
    cases h.symm.trans (lexemeAt_of_anyMatch?_eq_none hany hrest)
    rw [nextAt_of_error hc hany hrest, if_neg fun hblank => Style.noConfusion hblank.1]

/-- In the text, the next piece is found without misuse, and it is the one that a cursor finds. -/
theorem nextAt_eq_nextLexeme {c : Cursor} (hc : c.StandsIn source.toList) :
    nextAt source keywords showBlanks c.pos
      = .ok ((nextLexeme keywords showBlanks c).1, (nextLexeme keywords showBlanks c).2.pos) := by
  fun_induction nextLexeme keywords showBlanks c with
  | case1 c hnone => exact nextAt_of_rest_eq_nil hc (lexemeAt_eq_none_iff.mp hnone)
  | case2 c skipped next hsome _ hblank ih =>
    obtain ⟨s, -, hread, -⟩ := (cutsOff_of_lexemeAt hsome).reads
    rw [nextAt_of_lexemeAt hc hsome, if_pos hblank, ih (hc.of_reads hread)]
  | case3 c shown next hsome _ hblank => rw [nextAt_of_lexemeAt hc hsome, if_neg hblank]

/-! ### Many pieces -/

/-- The search for the next piece reads on. -/
theorem nextLexeme_reads (keywords : KeywordSet) (showBlanks : Bool) (c : Cursor) :
    ∃ s, c.Reads s (nextLexeme keywords showBlanks c).2 := by
  obtain ⟨gap, d, -, hread, -, ⟨hnext, -⟩ | ⟨lexeme, next, hnext, hpiece, -⟩⟩ :=
    nextLexeme_cases keywords showBlanks c
  · rw [hnext]
    exact ⟨gap, hread⟩
  · obtain ⟨s, -, hs, -⟩ := hpiece.reads
    rw [hnext]
    exact ⟨gap ++ s, hread.trans hs⟩

/-- All that is left is found without misuse. -/
theorem restAt_eq_collect {c : Cursor} (shown : List Lexeme) (hc : c.StandsIn source.toList) :
    ∃ lexemes, (Highlighter.collect keywords showBlanks shown c).1 = shown.reverse ++ lexemes ∧
      restAt source keywords showBlanks c.pos
        = .ok (lexemes, (Highlighter.collect keywords showBlanks shown c).2.pos) := by
  -- Each turn of the loop by offsets finds what a turn of `collect` shows.
  fun_induction Highlighter.collect keywords showBlanks shown c with
  | case1 shown c next hnone =>
    have hend : nextAt source keywords showBlanks c.pos = .ok (none, next.pos) := by
      rw [nextAt_eq_nextLexeme hc, hnone]
    refine ⟨[], (List.append_nil _).symm, ?_⟩
    rw [restAt]
    split
    next misuse hmisuse => cases hend.symm.trans hmisuse
    next pos hpos =>
      cases hend.symm.trans hpos
      rfl
    next hsome => cases hend.symm.trans hsome
  | case2 shown c lexeme next hsome _ ih =>
    obtain ⟨s, hread⟩ := nextLexeme_reads keywords showBlanks c
    rw [hsome] at hread
    obtain ⟨lexemes, hshown, hrest⟩ := ih (hc.of_reads hread)
    have hfirst : nextAt source keywords showBlanks c.pos = .ok (some lexeme, next.pos) := by
      rw [nextAt_eq_nextLexeme hc, hsome]
    refine ⟨lexeme :: lexemes, by simp [hshown], ?_⟩
    rw [restAt]
    split
    next misuse hmisuse => cases hfirst.symm.trans hmisuse
    next pos hpos => cases hfirst.symm.trans hpos
    next hpiece =>
      cases hfirst.symm.trans hpiece
      rw [hrest]

/-! ### The requests of a highlighter -/

namespace Highlighter

variable {h : Highlighter}

/-- The highlighter moves to where its search ended. -/
theorem next_eq (h : Highlighter) :
    h.next = ((nextLexeme h.keywords h.showBlanks h.cursor).1,
      { h with cursor := (nextLexeme h.keywords h.showBlanks h.cursor).2 }) :=
  rfl

/-- The offset of a highlighter is enough to find its next piece. -/
theorem nextAt_eq (hc : h.cursor.StandsIn source.toList) :
    nextAt source h.keywords h.showBlanks h.position = .ok (h.next.1, h.next.2.position) :=
  nextAt_eq_nextLexeme hc

/-- It is enough to find a later piece. -/
theorem nthAt_eq (n : Nat) (hc : h.cursor.StandsIn source.toList) :
    nthAt source h.keywords h.showBlanks n h.position = .ok ((h.nth n).1, (h.nth n).2.position) := by
  induction n generalizing h with
  | zero => exact nextAt_eq hc
  | succ n ih =>
    obtain ⟨s, hread⟩ := nextLexeme_reads h.keywords h.showBlanks h.cursor
    have hnext := hc.of_reads hread
    rw [nthAt, nextAt_eq hc, nth, next_eq]
    generalize nextLexeme h.keywords h.showBlanks h.cursor = piece at hnext
    obtain ⟨_ | lexeme, d⟩ := piece
    · rfl
    · exact ih (h := { h with cursor := d }) hnext

/-- It is enough to find all pieces that are left. -/
theorem restAt_eq (hc : h.cursor.StandsIn source.toList) :
    restAt source h.keywords h.showBlanks h.position = .ok (h.rest.1, h.rest.2.position) := by
  obtain ⟨lexemes, hlexemes, hrest⟩ := restAt_eq_collect [] hc
  rw [List.reverse_nil, List.nil_append] at hlexemes
  rw [← hlexemes] at hrest
  exact hrest

end Highlighter

end PascalScan
