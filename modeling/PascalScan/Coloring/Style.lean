import PascalScan.Token.Basic
import PascalScan.Vocabulary

/-!
# `PascalScan.Coloring.Style`: how an editor shows a stretch of text

A `Style` is coarser than a token's kind, in that it forgets the base of an integer and the mark
of an escaped name, and finer, in that it tells reserved words from other names. It also has a
place for characters that belong to no token.
-/

set_option autoImplicit false

namespace PascalScan

/-- How a stretch of text is shown. -/
inductive Style where
  | keyword
  | identifier
  | integer
  | real
  | string
  | comment (form : CommentForm)
  | symbol
  | symbolPair
  | blank
  /-- A character that belongs to no token. -/
  | error
  deriving Repr, DecidableEq

namespace Style

/-- All styles, in the order in which they are listed. -/
def all : List Style :=
  [keyword, identifier, integer, real, string, comment .brace, comment .paren, comment .line,
    symbol, symbolPair, blank, error]

/-- The word under which a style is shown. -/
def name : Style → String
  | keyword => "Keyword"
  | identifier => "Identifier"
  | integer => "Integer"
  | real => "Real"
  | string => "String"
  | comment .brace => "BraceComment"
  | comment .paren => "ParenComment"
  | comment .line => "LineComment"
  | symbol => "Symbol"
  | symbolPair => "SymbolPair"
  | blank => "Whitespace"
  | error => "Error"

/-- The style with the given name, compared exactly. -/
def ofName? (s : String) : Option Style := all.find? (·.name == s)

/-- The list of styles is complete. -/
theorem mem_all (s : Style) : s ∈ all := by
  cases s with
  | comment form => cases form <;> decide
  | _ => decide

/-! ### The style of a token -/

/-- The style of a token with the given kind and characters. An escaped name is never shown as a
reserved word. -/
def ofKind (keywords : KeywordSet) (kind : Kind) (text : String) : Style :=
  match kind with
  | .identifier => if keywords.contains text then keyword else identifier
  | .escapedIdentifier => identifier
  | .integer _ => integer
  | .real => real
  | .string => string
  | .comment form => comment form
  | .symbol => symbol
  | .symbolPair => symbolPair
  | .blank => blank

end Style

/-- A token of `source` is a reserved word: a plain name that is in the set. -/
def Token.isReserved (source : String) (keywords : KeywordSet) (t : Token) : Bool :=
  t.kind == .identifier && keywords.contains ((Tree.label t).text source)

end PascalScan
