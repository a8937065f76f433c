import PascalScan.Coloring.Lexeme

/-!
# `PascalScan.Coloring.Highlighter`: going through a text piece by piece

A `Highlighter` stands between two characters of a text and shows one lexeme after another. It
can be set to any other place between two characters, for instance to the start of a line that
was edited. At the end of the text it shows nothing and stays there.
-/

set_option autoImplicit false

namespace PascalScan

open Text

/-- A place in a text that is shown piece by piece. -/
structure Highlighter where
  text : List Char
  keywords : KeywordSet
  /-- Whether runs of blanks are shown or passed over. -/
  showBlanks : Bool
  cursor : Cursor

namespace Highlighter

/-- A highlighter at the start of a text. -/
def start (text : List Char) (keywords : KeywordSet) (showBlanks : Bool) : Highlighter :=
  ⟨text, keywords, showBlanks, ⟨0, text⟩⟩

/-- The offset of the next character to read. -/
def position (h : Highlighter) : Nat := h.cursor.pos

/-- Moves to the byte offset `pos`, which has to fall between two characters. -/
def restartAt (pos : Nat) (h : Highlighter) : Except Misuse Highlighter :=
  match locate h.text pos with
  | .boundary rest => .ok { h with cursor := ⟨pos, rest⟩ }
  | _ => .error (.restartOffBoundary pos)

/-- Shows the next piece. -/
def next (h : Highlighter) : Option Lexeme × Highlighter :=
  let (lexeme, cursor) := nextLexeme h.keywords h.showBlanks h.cursor
  (lexeme, { h with cursor })

/-- Passes over `n` pieces and shows the one after them; at the end there may be none. -/
def nth : Nat → Highlighter → Option Lexeme × Highlighter
  | 0, h => h.next
  | n + 1, h =>
    match h.next with
    | (none, h) => (none, h)
    | (some _, h) => nth n h

/-- The pieces from a cursor to the end, after `shown`, latest first, and the cursor at the end. -/
def collect (keywords : KeywordSet) (showBlanks : Bool) (shown : List Lexeme) (c : Cursor) :
    List Lexeme × Cursor :=
  match h : nextLexeme keywords showBlanks c with
  | (none, next) => (shown.reverse, next)
  | (some lexeme, next) =>
    have : next.rest.length < c.rest.length := by
      have := length_lt_of_nextLexeme (congrArg Prod.fst h)
      rwa [h] at this
    collect keywords showBlanks (lexeme :: shown) next
termination_by c.rest.length

/-- Shows all that is left. -/
def rest (h : Highlighter) : List Lexeme × Highlighter :=
  let (lexemes, cursor) := collect h.keywords h.showBlanks [] h.cursor
  (lexemes, { h with cursor })

end Highlighter

end PascalScan
