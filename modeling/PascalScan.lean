import PascalScan.Coloring.Highlighter
import PascalScan.Coloring.Lexeme
import PascalScan.Coloring.Session
import PascalScan.Coloring.Style
import PascalScan.Failure
import PascalScan.Json.Basic
import PascalScan.Json.Number
import PascalScan.Json.Quoted
import PascalScan.Json.Skipping
import PascalScan.Lexical.Blank
import PascalScan.Lexical.Comment
import PascalScan.Lexical.Match
import PascalScan.Lexical.Name
import PascalScan.Lexical.Number
import PascalScan.Lexical.Punctuation
import PascalScan.Lexical.Quoted
import PascalScan.Lexical.Recognizer
import PascalScan.Proofs.Coloring.Keywords
import PascalScan.Proofs.Coloring.Offsets
import PascalScan.Proofs.Coloring.Pieces
import PascalScan.Proofs.Coloring.Recoloring
import PascalScan.Proofs.Coloring.Recovery
import PascalScan.Proofs.Coloring.Session
import PascalScan.Proofs.Coloring.Shape
import PascalScan.Proofs.Coloring.Shift
import PascalScan.Proofs.Coloring.Shown
import PascalScan.Proofs.Coloring.Vocabulary
import PascalScan.Proofs.Comment.Bytewise
import PascalScan.Proofs.Comment.Cut
import PascalScan.Proofs.Comment.Grammar
import PascalScan.Proofs.Comment.Inside
import PascalScan.Proofs.Comment.Line
import PascalScan.Proofs.Comment.LineBody
import PascalScan.Proofs.Comment.Nested
import PascalScan.Proofs.Comment.Recognition
import PascalScan.Proofs.Comment.Report
import PascalScan.Proofs.Comment.Slicing
import PascalScan.Proofs.Comment.Spread
import PascalScan.Proofs.Comment.Stack
import PascalScan.Proofs.Comment.Walk
import PascalScan.Proofs.Json.Numbers
import PascalScan.Proofs.Json.Strings
import PascalScan.Proofs.Json.Values
import PascalScan.Proofs.Lexical.Apart
import PascalScan.Proofs.Lexical.Asking
import PascalScan.Proofs.Lexical.Contract
import PascalScan.Proofs.Lexical.Cut
import PascalScan.Proofs.Lexical.Ending
import PascalScan.Proofs.Lexical.Failing
import PascalScan.Proofs.Lexical.Followed
import PascalScan.Proofs.Lexical.Kinds
import PascalScan.Proofs.Lexical.Leading
import PascalScan.Proofs.Lexical.LongestNumeral
import PascalScan.Proofs.Lexical.MissingDigits
import PascalScan.Proofs.Lexical.Numeral
import PascalScan.Proofs.Lexical.Segments
import PascalScan.Proofs.Lexical.Shape
import PascalScan.Proofs.Lexical.Shift
import PascalScan.Proofs.Scan.Apart
import PascalScan.Proofs.Scan.Blanked
import PascalScan.Proofs.Scan.Cut
import PascalScan.Proofs.Scan.Halting
import PascalScan.Proofs.Scan.Lossless
import PascalScan.Proofs.Scan.Order
import PascalScan.Proofs.Scan.Reach
import PascalScan.Proofs.Scan.Respaced
import PascalScan.Proofs.Scan.Run
import PascalScan.Proofs.Scan.Shape
import PascalScan.Proofs.Scan.Shift
import PascalScan.Proofs.Scan.Words
import PascalScan.Proofs.Settings.Members
import PascalScan.Proofs.Settings.Reading
import PascalScan.Proofs.Settings.Writing
import PascalScan.Proofs.Text.Ascii
import PascalScan.Proofs.Text.Boundary
import PascalScan.Proofs.Text.Longest
import PascalScan.Proofs.Text.Octets
import PascalScan.Proofs.Text.Shape
import PascalScan.Proofs.Text.Steps
import PascalScan.Proofs.Token.Accounting
import PascalScan.Proofs.Token.Nesting
import PascalScan.Proofs.Token.Outline
import PascalScan.Proofs.Token.Significant
import PascalScan.Scan
import PascalScan.Scan.Listing
import PascalScan.Settings.Basic
import PascalScan.Settings.Reading
import PascalScan.Text.Bytes
import PascalScan.Text.CharClass
import PascalScan.Text.Cursor
import PascalScan.Text.Excerpt
import PascalScan.Token.Basic
import PascalScan.Token.Kind
import PascalScan.Token.Outline
import PascalScan.Token.Reader
import PascalScan.Token.Request
import PascalScan.Tree
import PascalScan.Vocabulary

/-!
# `PascalScan`: splitting Pascal into tokens

A scanner for the tokens of Pascal, a highlighter for editors that rests on it, and what can be
proved about both.

The definitions come in layers, each in a folder of its own.

* `Text`: byte offsets into a text, the character classes, and cursors.
* `Token`: tokens with the tokens inside them, readers that go through them, and their outlines.
* `Lexical`: the lexical classes (comments, strings, names, numbers, punctuation and blanks), which
  `Recognizer` brings together.
* `Scan`: the loop that tries the classes one after the other.
* `Coloring`: a scan that does not halt, shown in colours, with the reserved words of `Vocabulary`.
* `Json` and `Settings`: the settings of an editor, and how they are written and read.

The theorems are in `Proofs`, with a folder for each of these layers. They lead up to the following.

* A scan accounts for every character (`Proofs.Scan.Lossless`), takes the longest match, whatever
  order the classes are tried in (`Proofs.Scan.Order`), and halts only at five kinds of places
  (`Proofs.Scan.Halting`).
* What is found stays the same when text is put in front (`Proofs.Scan.Shift`) or cut off behind
  (`Proofs.Scan.Cut`), when blanks are put in (`Proofs.Scan.Respaced`), and when comments are taken
  out (`Proofs.Scan.Blanked`).
* Each class finds what its grammar describes: comments (`Proofs.Comment.Recognition`), numbers
  (`Proofs.Lexical.LongestNumeral`) and strings (`Proofs.Lexical.Segments`). Comments can as well be
  found from single bytes (`Proofs.Comment.Bytewise`).
* A highlighter shows a scan that goes on behind each failure (`Proofs.Coloring.Recovery`), and it
  answers any requests in a way that agrees with the text (`Proofs.Coloring.Session`).
* Settings survive being written as JSON (`Proofs.Settings.Writing`) and are read from every JSON
  text that gives them (`Proofs.Settings.Reading`).
-/
