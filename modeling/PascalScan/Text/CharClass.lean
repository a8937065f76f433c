/-!
# `PascalScan.Text.CharClass`: the character classes of the language

Every class holds ASCII characters only: a letter is one of `a` to `z` and `A` to `Z`. So a
character outside ASCII starts no token, and it is part of one only inside a string or a comment.
Punctuation is given by two tables, `symbols` and `symbolPairs`, whose order is the order in which
they are listed to a caller.
-/

set_option autoImplicit false

namespace PascalScan.Text

/-! ### Letters and digits -/

/-- An ASCII letter. -/
def isLetter (c : Char) : Bool := c.isAlpha

/-- A decimal digit. -/
def isDigit (c : Char) : Bool := c.isDigit

/-- A digit of a binary number. -/
def isBinaryDigit (c : Char) : Bool := c == '0' || c == '1'

/-- A digit of an octal number. -/
def isOctalDigit (c : Char) : Bool := '0' ≤ c && c ≤ '7'

/-- A digit of a hexadecimal number, in either case. -/
def isHexDigit (c : Char) : Bool :=
  c.isDigit || ('a' ≤ c && c ≤ 'f') || ('A' ≤ c && c ≤ 'F')

/-- A sign that may stand before a number. -/
def isSign (c : Char) : Bool := c == '+' || c == '-'

/-- A character that a name may start with. -/
def isNameStart (c : Char) : Bool := isLetter c || c == '_'

/-- A character that a name may go on with. -/
def isNamePart (c : Char) : Bool := isLetter c || isDigit c || c == '_'

/-! ### Layout -/

/-- The characters that separate tokens. -/
def blanks : List Char := [' ', '\t', '\n', '\r']

/-- A character that separates tokens. -/
def isBlank (c : Char) : Bool := blanks.contains c

/-- A character that ends a line, which a quoted string may not contain. -/
def isLineBreak (c : Char) : Bool := c == '\n' || c == '\r'

/-! ### Punctuation -/

/-- The operators and punctuation marks of one character. -/
def symbols : List Char :=
  ['+', '-', '*', '/', '=', '<', '>', '[', ']', '.', ',', '(', ')', ':', ';', '^', '@']

/-- An operator or punctuation mark of one character. -/
def isSymbol (c : Char) : Bool := symbols.contains c

/-- The operators of two characters. -/
def symbolPairs : List (Char × Char) :=
  [('<', '<'), ('>', '>'), ('*', '*'), ('<', '>'), ('>', '<'), ('<', '='), ('>', '='), (':', '='),
    ('+', '='), ('-', '='), ('*', '='), ('/', '='), ('(', '*'), ('*', ')'), ('(', '.'), ('.', ')'),
    ('/', '/'), ('.', '.')]

/-- The two characters form one operator. -/
def isSymbolPair (c d : Char) : Bool := symbolPairs.contains (c, d)

/-- A whole text that is one operator of two characters. -/
def isPairText : List Char → Bool
  | [c, d] => isSymbolPair c d
  | _ => false

end PascalScan.Text
