import PascalScan.Coloring.Highlighter
import PascalScan.Proofs.Lexical.Asking
import PascalScan.Proofs.Text.Boundary

/-!
# `PascalScan.Proofs.Coloring.Pieces`: the pieces of a text without the highlighter

A highlighter shows pieces through two loops: `nextLexeme` looks for the next piece that is to be
shown, and `collect` keeps what was shown in an accumulator, latest first. `pieces` cuts a text
into pieces and does nothing else. `rest_eq_filter_pieces` ties the two together: what is left to
show are the pieces, less the blanks if they are passed over.

The rest of the module says what one piece is, and when it is a character in error. Where each
single piece moves along with the cursor, all of them do (`pieces_map`).
-/

set_option autoImplicit false

namespace PascalScan

open Text

variable {keywords : KeywordSet}

/-! ### All pieces -/

/-- The pieces from a cursor to the end of the text. -/
def pieces (keywords : KeywordSet) (c : Cursor) : List Lexeme :=
  match h : lexemeAt keywords c with
  | none => []
  | some (lexeme, next) =>
    have : next.rest.length < c.rest.length := length_lt_of_lexemeAt h
    lexeme :: pieces keywords next
termination_by c.rest.length

/-- Without a first piece there are none. -/
theorem pieces_of_none {c : Cursor} (h : lexemeAt keywords c = none) : pieces keywords c = [] := by
  rw [pieces]
  split
  next => rfl
  next _ _ hsome => cases h.symm.trans hsome

/-- The first piece comes first. -/
theorem pieces_of_some {c next : Cursor} {lexeme : Lexeme}
    (h : lexemeAt keywords c = some (lexeme, next)) :
    pieces keywords c = lexeme :: pieces keywords next := by
  rw [pieces]
  split
  next hnone => cases h.symm.trans hnone
  next _ _ hsome =>
    cases h.symm.trans hsome
    rfl

/-- At the end of the text there are no pieces. -/
theorem pieces_of_rest_eq_nil {c : Cursor} (h : c.rest = []) : pieces keywords c = [] := by
  refine pieces_of_none ?_
  unfold lexemeAt
  rw [h]

/-- Where the piece at each cursor moves with the cursor, all pieces do. -/
theorem pieces_map {walk : Cursor → Cursor} {move : Lexeme → Lexeme}
    (h : ∀ c, lexemeAt keywords (walk c) = (lexemeAt keywords c).map (Prod.map move walk))
    (c : Cursor) : pieces keywords (walk c) = (pieces keywords c).map move := by
  fun_induction pieces keywords c with
  | case1 c hnone =>
    refine pieces_of_none ?_
    rw [h, hnone]
    rfl
  | case2 c lexeme next hsome _ ih =>
    have hwalk : lexemeAt keywords (walk c) = some (move lexeme, walk next) := by
      rw [h, hsome]
      rfl
    rw [pieces_of_some hwalk, ih]
    rfl

/-! ### What a highlighter shows -/

/-- The pieces that a highlighter shows. -/
def isShown (showBlanks : Bool) (lexeme : Lexeme) : Bool := showBlanks || lexeme.kind ≠ .blank

/-- What is shown first is the first of the pieces that are shown. -/
theorem filter_pieces_eq_nextLexeme (showBlanks : Bool) (c : Cursor) :
    (pieces keywords c).filter (isShown showBlanks) =
      match nextLexeme keywords showBlanks c with
      | (none, _) => []
      | (some lexeme, next) => lexeme :: (pieces keywords next).filter (isShown showBlanks) := by
  -- What the search passes over, the filter drops. The search ends at a piece that the filter
  -- keeps.
  fun_induction nextLexeme keywords showBlanks c with
  | case1 c hnone => rw [pieces_of_none hnone, List.filter_nil]
  | case2 c skipped next hsome _ hblank ih =>
    have hshown : isShown showBlanks skipped = false := by simp [isShown, hblank]
    rw [pieces_of_some hsome, List.filter_cons_of_neg (by simp [hshown]), ih]
  | case3 c shown next hsome _ hblank =>
    have hshown : isShown showBlanks shown = true := by
      cases showBlanks <;> simp_all [isShown]
    rw [pieces_of_some hsome, List.filter_cons_of_pos hshown]

/-- What `collect` shows are the pieces that are shown, behind those shown before. -/
theorem collect_eq_append_filter_pieces (showBlanks : Bool) (shown : List Lexeme) (c : Cursor) :
    (Highlighter.collect keywords showBlanks shown c).1
      = shown.reverse ++ (pieces keywords c).filter (isShown showBlanks) := by
  rw [filter_pieces_eq_nextLexeme]
  fun_induction Highlighter.collect keywords showBlanks shown c with
  | case1 shown c next hnone => simp [hnone]
  | case2 shown c lexeme next hsome _ ih =>
    rw [ih, hsome, ← filter_pieces_eq_nextLexeme]
    simp

/-- What is left to show are the pieces that are shown. -/
theorem rest_eq_filter_pieces (h : Highlighter) :
    h.rest.1 = (pieces h.keywords h.cursor).filter (isShown h.showBlanks) := by
  unfold Highlighter.rest
  exact collect_eq_append_filter_pieces h.showBlanks [] h.cursor

/-- If blanks are shown, all pieces are. -/
theorem rest_eq_pieces {h : Highlighter} (hblanks : h.showBlanks = true) :
    h.rest.1 = pieces h.keywords h.cursor := by
  rw [rest_eq_filter_pieces, hblanks]
  exact List.filter_eq_self.mpr fun _ _ => rfl

/-! ### One piece -/

/-- Where a class matches, the piece is what it matches. -/
theorem lexemeAt_of_anyMatch?_eq_some {c : Cursor} {m : Match} (h : anyMatch? c = some m) :
    lexemeAt keywords c = some (⟨styleOf keywords c m, c.pos, m.next.pos⟩, m.next) := by
  have hrest := (readsFrom_of_anyMatch? h).rest_ne_nil
  unfold lexemeAt
  split
  next hnil => exact absurd hnil hrest
  next => rw [h]

/-- Where no class matches, the piece is one character in error. -/
theorem lexemeAt_of_anyMatch?_eq_none {c : Cursor} {ch : Char} {cs : List Char}
    (h : anyMatch? c = none) (hrest : c.rest = ch :: cs) :
    lexemeAt keywords c
      = some (⟨.error, c.pos, c.pos + ch.utf8Size⟩, ⟨c.pos + ch.utf8Size, cs⟩) := by
  unfold lexemeAt
  rw [hrest]
  dsimp only
  rw [h]

/-- Where the match of each class moves with the cursor, so does the first match. -/
theorem anyMatch?_map {walk : Cursor → Cursor} {move : Match → Match}
    (h : ∀ (r : Recognizer) (c : Cursor),
      (r.run (walk c)).toOption = (r.run c).toOption.map move) (c : Cursor) :
    anyMatch? (walk c) = (anyMatch? c).map move := by
  unfold anyMatch?
  rw [List.map_findSome?]
  exact congrArg (Recognizer.all.findSome? ·) (funext fun r => h r c)

/-- The text of a piece is what was read. -/
theorem Cursor.textUpTo_of_reads {c d : Cursor} {s : List Char} (h : c.Reads s d) :
    c.textUpTo d = String.ofList s := by
  have hstart : (Cursor.mk 0 c.rest).StandsIn c.rest := locate_zero c.rest
  have hread : (Cursor.mk 0 c.rest).Reads s ⟨byteSize s, d.rest⟩ := ⟨h.1, by simp⟩
  have hsize : d.pos - c.pos = byteSize s := by
    rw [h.2]
    omega
  unfold textUpTo
  rw [hsize]
  exact congrArg String.ofList (hstart.slice_of_reads hread)

/-- No token is styled as an error. -/
theorem Style.ofKind_ne_error (keywords : KeywordSet) (kind : Kind) (text : String) :
    Style.ofKind keywords kind text ≠ .error := by
  unfold Style.ofKind
  split
  · split <;> simp
  all_goals simp

end PascalScan
