import PascalScan.Coloring.Highlighter

/-!
# `PascalScan.Coloring.Session`: requests to a highlighter

An editor asks for pieces as it needs them, looks ahead, goes back to where it was, and starts again
where the text was edited. A `Request` is one thing that it asks for, and `ask` gives the `Reply`
together with what has become of the session. A request to start again inside a character is
rejected, and the session stays as it is.
-/

set_option autoImplicit false

namespace PascalScan

/-- What a highlighter can be asked for. -/
inductive Request where
  /-- The next piece. -/
  | next
  /-- The piece behind the next `n` pieces. -/
  | nth (n : Nat)
  /-- All pieces that are left. -/
  | rest
  /-- The number of pieces that are left, none of which is left after that. -/
  | count
  /-- Remembers the place. -/
  | save
  /-- Goes back to the place that was remembered last, or to the start of the text. -/
  | load
  /-- Goes to byte offset `pos`. -/
  | restartAt (pos : Nat)
  deriving Repr, DecidableEq

/-- What the answer to a request is. -/
inductive Reply where
  | piece (lexeme : Option Lexeme)
  | pieces (lexemes : List Lexeme)
  | number (n : Nat)
  | done
  | rejected (misuse : Misuse)
  deriving Repr, DecidableEq

/-- A highlighter and the one that was remembered. -/
structure Session where
  current : Highlighter
  saved : Highlighter

namespace Session

/-- A session at the start of a text. -/
def start (text : List Char) (keywords : KeywordSet) (showBlanks : Bool) : Session :=
  ⟨.start text keywords showBlanks, .start text keywords showBlanks⟩

/-- The reply to a request, and the session after it. -/
def ask (s : Session) : Request → Reply × Session
  | .next => (.piece s.current.next.1, { s with current := s.current.next.2 })
  | .nth n => (.piece (s.current.nth n).1, { s with current := (s.current.nth n).2 })
  | .rest => (.pieces s.current.rest.1, { s with current := s.current.rest.2 })
  | .count => (.number s.current.rest.1.length, { s with current := s.current.rest.2 })
  | .save => (.done, { s with saved := s.current })
  | .load => (.done, { s with current := s.saved })
  | .restartAt pos =>
    match s.current.restartAt pos with
    | .ok moved => (.done, { s with current := moved })
    | .error misuse => (.rejected misuse, s)

/-- The replies to requests that are made one after the other, and the session after them. -/
def askAll (s : Session) : List Request → List Reply × Session
  | [] => ([], s)
  | request :: requests =>
    let (reply, s) := s.ask request
    let (replies, s) := s.askAll requests
    (reply :: replies, s)

end Session

end PascalScan
