import PascalScan.Token.Kind

/-!
# `PascalScan.Failure`: why a text is not recognized

A `Failure` says what was missing (`Cause`), where to point at (`pos`), and how far the attempt
got (`furthest`); the last decides which of several failures is worth reporting. All wording is
in `Cause.message`. A `Misuse` is a request that makes no sense for the text, such as an offset
past its end, and is kept apart from failures: it says nothing about the text.
-/

set_option autoImplicit false

namespace PascalScan

/-- A comment that was opened at offset `start` and is still open. -/
structure OpenComment where
  form : CommentForm
  start : Nat
  deriving Repr, DecidableEq

/-- What was missing where an attempt failed. -/
inductive Cause where
  /-- The attempt started at the end of the text. -/
  | endOfInput
  /-- Nothing at the place starts a comment. -/
  | notAComment
  /-- A parenthesis ends the text, so no `*` can follow it. -/
  | loneParenthesis
  /-- A slash is not followed by another. -/
  | loneSlash
  /-- The text ended while comments were open, listed from the outermost to the innermost. -/
  | unfinishedComment (opened : List OpenComment)
  /-- A quoted run is not closed on its line. -/
  | unclosedQuote
  /-- A character code has no digits. -/
  | unsignedExpected
  /-- Neither a quote nor a character code. -/
  | notAString
  /-- No name starts at the place. -/
  | nameExpected
  /-- The text ends right after a sign. -/
  | numberAfterSign
  /-- A number, or the part of it after a base marker, has no digits. -/
  | digitExpected
  /-- An exponent has no digits. -/
  | exponentDigitExpected
  /-- No punctuation mark. -/
  | unexpectedSymbol
  /-- No blank. -/
  | unexpectedCharacter
  /-- No lexical class gets anywhere. -/
  | invalidSequence
  /-- A cause in a caller's own words. -/
  | custom (message : String)
  deriving Repr, DecidableEq

namespace Cause

/-- One line of the report on open comments. -/
def openCommentLine (opened : OpenComment) (level : Nat) : String :=
  " :: Unfinished comment (" ++ (Kind.comment opened.form).name ++ ") at pos " ++
    toString opened.start ++ " level " ++ toString level ++ "\n"

/-- The wording of each cause. -/
def message : Cause → String
  | endOfInput => "Unexpected end of input"
  | notAComment => "Not a comment"
  | loneParenthesis => "Is not a comment"
  | loneSlash => "Invalid comment"
  | unfinishedComment opened =>
    opened.zipIdx.foldl (fun report (o, level) => report ++ openCommentLine o level)
      "Comment error\n"
  | unclosedQuote => "Unclosed quote"
  | unsignedExpected => "An unsigned integer expected"
  | notAString => "Not a string"
  | nameExpected => "Identifier must start with [a-zA-Z_]"
  | numberAfterSign => "There must be numbers after the sign"
  | digitExpected => "The number must contain at least one digit"
  | exponentDigitExpected => "There must be at least one digit after the exponent"
  | unexpectedSymbol => "Unexpected symbol"
  | unexpectedCharacter => "Unexpected character"
  | invalidSequence => "Invalid sequence"
  | custom message => message

/-- The same cause in a text with `k` more bytes in front. -/
def shift (k : Nat) : Cause → Cause
  | unfinishedComment opened =>
    unfinishedComment (opened.map fun o => { o with start := o.start + k })
  | cause => cause

end Cause

/-- A failed attempt to recognize something. -/
structure Failure where
  cause : Cause
  /-- The offset that the failure points at. -/
  pos : Nat
  /-- The offset up to which the attempt got. -/
  furthest : Nat
  deriving Repr, DecidableEq

namespace Failure

/-- A failure that got no further than where it points. -/
def onSpot (cause : Cause) (pos : Nat) : Failure := ⟨cause, pos, pos⟩

/-- The wording of a failure with its place. -/
def describe (f : Failure) : String :=
  f.cause.message ++ " at pos " ++ toString f.pos

/-- The wording of a failure that ended a scan at offset `stop`. -/
def describeHalt (f : Failure) (stop : Nat) : String :=
  "Tokenize error: " ++ f.describe ++ " (stopped at " ++ toString stop ++ ")"

/-- The same failure in a text with `k` more bytes in front. -/
def shift (k : Nat) (f : Failure) : Failure :=
  ⟨f.cause.shift k, f.pos + k, f.furthest + k⟩

end Failure

/-- A request with an offset that has no meaning for the text. -/
inductive Misuse where
  /-- A start after the end of the text. -/
  | startPastEnd (pos : Nat)
  /-- A restart that does not fall between two characters. -/
  | restartOffBoundary (pos : Nat)
  /-- An offset that would cut a character in two, or a stretch that leaves the text. -/
  | badSlice
  deriving Repr, DecidableEq

/-- The wording of a misuse, where it has one. -/
def Misuse.message? : Misuse → Option String
  | startPastEnd pos => some ("start position " ++ toString pos ++ " is past the end")
  | restartOffBoundary pos => some ("restart position " ++ toString pos ++ " is not a char boundary")
  | badSlice => none

end PascalScan
