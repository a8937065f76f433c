/-!
# `PascalScan.Token.Kind`: what a token can be

`Kind` sorts tokens by their lexical class. Comments come in three forms and integers in four
bases, so both are families of kinds. Each kind has a `name`, the word under which it is shown
and read back (`ofName?`).
-/

set_option autoImplicit false

namespace PascalScan

/-- The three ways to write a comment. -/
inductive CommentForm where
  /-- Between `{` and `}`. -/
  | brace
  /-- Between `(*` and `*)`. -/
  | paren
  /-- From `//` to the end of the line. -/
  | line
  deriving Repr, DecidableEq

/-- The bases in which an integer can be written. -/
inductive Base where
  /-- Plain digits. -/
  | decimal
  /-- Marked by `$`. -/
  | hex
  /-- Marked by `&`. -/
  | octal
  /-- Marked by `%`. -/
  | binary
  deriving Repr, DecidableEq

/-- The lexical class of a token. -/
inductive Kind where
  /-- One character of punctuation. -/
  | symbol
  /-- Two characters of punctuation that belong together, such as `:=`. -/
  | symbolPair
  | comment (form : CommentForm)
  /-- Quoted runs and character codes, such as `'a'#10`. -/
  | string
  | identifier
  /-- A name marked by `&`, which may be spelled like a reserved word. -/
  | escapedIdentifier
  | integer (base : Base)
  /-- A number with a fraction or an exponent. -/
  | real
  /-- A run of blanks. -/
  | blank
  deriving Repr, DecidableEq

namespace Kind

/-! ### Names -/

/-- All kinds, in the order in which they are listed. -/
def all : List Kind :=
  [symbol, symbolPair, comment .brace, comment .paren, comment .line, string, identifier,
    escapedIdentifier, integer .decimal, real, integer .hex, integer .octal, integer .binary, blank]

/-- The word under which a kind is shown. -/
def name : Kind → String
  | symbol => "Symbol"
  | symbolPair => "SymbolPair"
  | comment .brace => "Comment"
  | comment .paren => "CommentBi"
  | comment .line => "CommentLine"
  | string => "String"
  | identifier => "Identifier"
  | escapedIdentifier => "ReservedIdentifierOverride"
  | integer .decimal => "Integer"
  | real => "Real"
  | integer .hex => "HexInt"
  | integer .octal => "OctInt"
  | integer .binary => "BinInt"
  | blank => "Whitespace"

/-- The kind with the given name, compared exactly. -/
def ofName? (s : String) : Option Kind := all.find? (·.name == s)

/-- The list of kinds is complete. -/
theorem mem_all (k : Kind) : k ∈ all := by
  cases k with
  | comment form => cases form <;> decide
  | integer base => cases base <;> decide
  | _ => decide

/-! ### Families of kinds -/

/-- Whether the token is a run of blanks. -/
def isBlank : Kind → Bool
  | blank => true
  | _ => false

/-- Whether it is a comment, of any form. -/
def isComment : Kind → Bool
  | comment _ => true
  | _ => false

/-- Whether it is a string. -/
def isString : Kind → Bool
  | string => true
  | _ => false

/-- Whether it is a number, of any base or with a fraction. -/
def isNumber : Kind → Bool
  | integer _ | real => true
  | _ => false

/-- Whether it is a name, also one marked by `&`. -/
def isIdentifier : Kind → Bool
  | identifier | escapedIdentifier => true
  | _ => false

/-- Blanks and comments, which a grammar passes over between its tokens. -/
def isTrivia (k : Kind) : Bool := k.isBlank || k.isComment

end Kind

end PascalScan
