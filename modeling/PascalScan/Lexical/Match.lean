import PascalScan.Failure
import PascalScan.Text.Cursor
import PascalScan.Token.Basic

/-!
# `PascalScan.Lexical.Match`: the outcome of one attempt

Each lexical class is a function from a cursor to an `Attempt`: either a `Match`, which says
what was found and where reading goes on, or a `Failure`. The token of a match is the stretch
between the two cursors, so its offsets cannot disagree with what was read.

`Match.ReadsFrom` is the property that every class has: a match reads at least one character.
-/

set_option autoImplicit false

namespace PascalScan

/-- Something recognized: its kind, the comments nested in it, and the cursor right after it. -/
structure Match where
  kind : Kind
  inner : List Token
  next : Cursor

/-- What a lexical class answers at a cursor. -/
abbrev Attempt := Except Failure Match

namespace Match

/-- The token that a match at `origin` stands for. -/
def token (m : Match) (origin : Cursor) : Token :=
  .ofSpan m.kind origin.pos m.next.pos m.inner

/-- A match at `origin` reads a non-empty stretch that starts there. -/
def ReadsFrom (m : Match) (origin : Cursor) : Prop :=
  ∃ s, s ≠ [] ∧ origin.Reads s m.next

/-- A match leaves fewer characters to read. -/
theorem ReadsFrom.length_lt {m : Match} {origin : Cursor} (h : m.ReadsFrom origin) :
    m.next.rest.length < origin.rest.length := by
  obtain ⟨s, hs, hr⟩ := h
  exact hr.length_lt hs

end Match

end PascalScan
