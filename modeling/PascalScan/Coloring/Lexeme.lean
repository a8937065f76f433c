import PascalScan.Coloring.Style
import PascalScan.Lexical.Recognizer

/-!
# `PascalScan.Coloring.Lexeme`: the pieces of a text that an editor shows

An editor needs every character of a text, also of one that does not make sense. `lexemeAt` cuts
the next piece off: what the first matching lexical class recognizes, and a single character in
error where none matches. `nextLexeme` may pass over blanks, and then the pieces leave gaps.

`length_lt_of_lexemeAt` and `length_lt_of_nextLexeme` are why the loops over pieces end: each
piece leaves less to read.
-/

set_option autoImplicit false

namespace PascalScan

open Text

/-- A styled stretch of text. -/
abbrev Lexeme := Span Style

/-! ### One piece -/

/-- The match of the first class that has one. -/
def anyMatch? (c : Cursor) : Option Match :=
  Recognizer.all.findSome? fun r => (r.run c).toOption

/-- The characters between a cursor and one further on. -/
def Cursor.textUpTo (c next : Cursor) : String :=
  String.ofList (slice c.rest 0 (next.pos - c.pos))

/-- The style of a match at `origin`. -/
def styleOf (keywords : KeywordSet) (origin : Cursor) (m : Match) : Style :=
  Style.ofKind keywords m.kind (origin.textUpTo m.next)

/-- The piece that starts at a cursor and the cursor after it; none at the end of the text. -/
def lexemeAt (keywords : KeywordSet) (c : Cursor) : Option (Lexeme × Cursor) :=
  match c.rest with
  | [] => none
  | ch :: cs =>
    match anyMatch? c with
    | some m => some (⟨styleOf keywords c m, c.pos, m.next.pos⟩, m.next)
    | none =>
      let next : Cursor := ⟨c.pos + ch.utf8Size, cs⟩
      some (⟨.error, c.pos, next.pos⟩, next)

/-- What an editor recognizes is not empty. -/
theorem readsFrom_of_anyMatch? {c : Cursor} {m : Match} (h : anyMatch? c = some m) :
    m.ReadsFrom c := by
  obtain ⟨r, -, hr⟩ := List.exists_of_findSome?_eq_some h
  cases hrun : r.run c with
  | error f => rw [hrun] at hr; cases hr
  | ok m' =>
    rw [hrun] at hr
    cases hr
    exact Recognizer.run_readsFrom hrun

/-- A piece leaves less to read. -/
theorem length_lt_of_lexemeAt {keywords : KeywordSet} {c : Cursor} {piece : Lexeme × Cursor}
    (h : lexemeAt keywords c = some piece) : piece.2.rest.length < c.rest.length := by
  unfold lexemeAt at h
  split at h
  next => cases h
  next ch cs hrest =>
    split at h
    next m hm =>
      cases h
      exact (readsFrom_of_anyMatch? hm).length_lt
    next =>
      cases h
      simp [hrest]

/-- The first piece that is shown, and the cursor after it; without one, the end of the text. -/
def nextLexeme (keywords : KeywordSet) (showBlanks : Bool) (c : Cursor) : Option Lexeme × Cursor :=
  match h : lexemeAt keywords c with
  | none => (none, c)
  | some (lexeme, next) =>
    have : next.rest.length < c.rest.length := length_lt_of_lexemeAt h
    if lexeme.kind = .blank ∧ showBlanks = false then nextLexeme keywords showBlanks next
    else (some lexeme, next)
termination_by c.rest.length

/-- Showing a piece leaves less to read. -/
theorem length_lt_of_nextLexeme {keywords : KeywordSet} {showBlanks : Bool} {c : Cursor}
    {lexeme : Lexeme} (h : (nextLexeme keywords showBlanks c).1 = some lexeme) :
    (nextLexeme keywords showBlanks c).2.rest.length < c.rest.length := by
  fun_induction nextLexeme keywords showBlanks c with
  | case1 => cases h
  | case2 c skipped next _ hlt _ ih => exact Nat.lt_trans (ih h) hlt
  | case3 c shown next _ hlt => exact hlt

end PascalScan
