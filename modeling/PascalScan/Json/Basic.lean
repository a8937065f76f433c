import PascalScan.Text.CharClass

/-!
# `PascalScan.Json.Basic`: reading JSON from the left

A JSON text is read character by character, and the first problem from the left decides how it
is rejected: `Flaw` has one case for a text that stops short, one for JSON of the wrong type and
one for all else. A reading function takes the characters to read and returns those it leaves.

Two readings serve everywhere: `dropBlanks` passes over the blanks that JSON allows between its
tokens, which are those of the language itself, and `expect` reads a fixed word.
-/

set_option autoImplicit false

namespace PascalScan.Json

open Text

/-- Why a text is rejected. -/
inductive Flaw where
  /-- The text ends in the middle of a value. -/
  | unfinished
  /-- A value has another type than the place asks for, or a member is given twice. -/
  | mistyped
  /-- The text is not JSON. -/
  | malformed
  deriving Repr, DecidableEq

/-- The word under which a flaw is shown. -/
def Flaw.name : Flaw → String
  | unfinished => "Eof"
  | mistyped => "Data"
  | malformed => "Syntax"

/-- Passes over blanks. -/
def dropBlanks (cs : List Char) : List Char := cs.dropWhile isBlank

/-- Passing over blanks leaves no more to read than there was. -/
theorem length_dropBlanks_le (cs : List Char) : (dropBlanks cs).length ≤ cs.length :=
  (List.dropWhile_suffix isBlank).length_le

/-- Reads the given word. -/
def expect : List Char → List Char → Except Flaw (List Char)
  | [], cs => .ok cs
  | _ :: _, [] => .error .unfinished
  | w :: ws, c :: cs => if c = w then expect ws cs else .error .malformed

/-- A word is read exactly where the text begins with it. -/
theorem expect_eq_ok_iff {word cs rest : List Char} :
    expect word cs = .ok rest ↔ cs = word ++ rest := by
  fun_induction expect word cs with
  | case1 cs => simp
  | case2 => simp
  | case3 w ws cs ih => simp [ih]
  | case4 w ws c cs hc => simp [hc]

end PascalScan.Json
