import PascalScan.Token.Basic

/-!
# `PascalScan.Token.Reader`: reading tokens one after another

A `Reader` goes through a list of tokens from the front. It holds what is left to read and the
number of tokens read so far. Operations that only look return an answer; operations that read
return the answer and the reader after it.
-/

set_option autoImplicit false

namespace PascalScan

/-- A place in a list of tokens: `position` tokens are read, `rest` is still to come. -/
structure Reader where
  position : Nat
  rest : List Token

namespace Reader

/-- A reader at the front of a list. -/
def ofList (tokens : List Token) : Reader := ⟨0, tokens⟩

/-! ### Looking -/

/-- The next token, if any is left. -/
def current? (r : Reader) : Option Token := r.rest.head?

/-- The token `n` places after the next one. -/
def peek? (n : Nat) (r : Reader) : Option Token := r.rest[n]?

/-- Nothing is left. -/
def atEnd (r : Reader) : Bool := r.rest.isEmpty

/-- The number of tokens left. -/
def remaining (r : Reader) : Nat := r.rest.length

/-! ### Reading -/

/-- The reader after `n` more tokens, or at the end if there are fewer. -/
def drop (n : Nat) (r : Reader) : Reader :=
  ⟨r.position + min n r.rest.length, r.rest.drop n⟩

/-- Reads the next token. -/
def next (r : Reader) : Option Token × Reader :=
  match r.rest with
  | [] => (none, r)
  | t :: ts => (some t, ⟨r.position + 1, ts⟩)

/-- Passes over `n` tokens and reads the one after them. -/
def nth (n : Nat) (r : Reader) : Option Token × Reader := (r.drop n).next

/-- Reads everything that is left and answers with the last token. -/
def last (r : Reader) : Option Token × Reader :=
  (r.rest.getLast?, r.drop r.rest.length)

/-- Reads everything that is left and answers with its number. -/
def count (r : Reader) : Nat × Reader :=
  (r.rest.length, r.drop r.rest.length)

/-! ### Passing over trivia -/

/-- The blanks and comments that come next. -/
def leadingTrivia (r : Reader) : List Token :=
  r.rest.takeWhile (·.kind.isTrivia)

/-- Passes over blanks and comments and answers with their number. -/
def skipTrivia (r : Reader) : Nat × Reader :=
  let n := r.leadingTrivia.length
  (n, r.drop n)

/-- Passes over blanks and comments and reads the token after them. -/
def nextSignificant (r : Reader) : Option Token × Reader := r.skipTrivia.2.next

end Reader

end PascalScan
