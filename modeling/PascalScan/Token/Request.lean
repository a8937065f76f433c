import PascalScan.Token.Reader

/-!
# `PascalScan.Token.Request`: requests to a reader

A parser looks ahead, reads tokens and passes over others, in whatever order its grammar wants. A
`Reader.Request` is one thing that it asks for, and `Reader.ask` gives the `Reply` together with the
reader after it.
-/

set_option autoImplicit false

namespace PascalScan.Reader

/-- What a reader can be asked for. -/
inductive Request where
  /-- The next token, which is not read. -/
  | current
  /-- The token `n` places after the next one, which is not read. -/
  | peek (n : Nat)
  /-- The next token. -/
  | advance
  /-- The next token, as a loop over the tokens asks for it. -/
  | next
  /-- The token behind the next `n` tokens. -/
  | nth (n : Nat)
  /-- The last token. -/
  | last
  /-- The number of tokens that are left, none of which is left after that. -/
  | count
  /-- The number of blanks and comments that come next, which are passed over. -/
  | skipTrivia
  /-- The next token that is no blank and no comment. -/
  | nextSignificant
  /-- Bounds for the number of tokens that are left. -/
  | sizeHint
  deriving Repr, DecidableEq

/-- What the answer to a request is. -/
inductive Reply where
  | token (t : Option Token)
  | number (n : Nat)
  /-- Not fewer than `lower`, and not more than `upper` if there is such a bound. -/
  | bounds (lower : Nat) (upper : Option Nat)

/-- The reply to a request, and the reader after it. -/
def ask (r : Reader) : Request → Reply × Reader
  | .current => (.token r.current?, r)
  | .peek n => (.token (r.peek? n), r)
  | .advance => (.token r.next.1, r.next.2)
  | .next => (.token r.next.1, r.next.2)
  | .nth n => (.token (r.nth n).1, (r.nth n).2)
  | .last => (.token r.last.1, r.last.2)
  | .count => (.number r.count.1, r.count.2)
  | .skipTrivia => (.number r.skipTrivia.1, r.skipTrivia.2)
  | .nextSignificant => (.token r.nextSignificant.1, r.nextSignificant.2)
  | .sizeHint => (.bounds r.remaining (some r.remaining), r)

/-- The replies to requests that are made one after the other, and the reader after them. -/
def askAll (r : Reader) : List Request → List Reply × Reader
  | [] => ([], r)
  | request :: requests =>
    let (reply, r) := r.ask request
    let (replies, r) := r.askAll requests
    (reply :: replies, r)

end PascalScan.Reader
