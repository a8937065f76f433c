/-!
# `PascalScan.Vocabulary`: reserved words

The language has a fixed list of reserved words (`Keyword`), and an editor may be told to use
another (`KeywordSet`). Both disregard the case of ASCII letters, and of no others. A reserved word
is compared with a text letter by letter (`equalInAnyCase`), and a set keeps its words in lower
case (`foldCase`).
-/

set_option autoImplicit false

namespace PascalScan

/-- A word with its ASCII letters in lower case. -/
def foldCase (word : String) : String := word.map Char.toLower

/-- The two words have the same letters, one by one, where an ASCII letter may be in either case. -/
def equalInAnyCase (word other : String) : Bool :=
  word.toList.isEqv other.toList fun a b => a.toLower == b.toLower

/-! ### The reserved words of the language -/

/-- The reserved words of the language. A name that Lean reserves too ends in an underscore. -/
inductive Keyword where
  | goto | label | begin_ | end_ | case | of | else_ | otherwise | if_ | then_ | for_ | to_
  | downto | do_ | in_ | repeat_ | until_ | while_ | with_ | raise | try_ | except | finally_
  | asm | div | mod | and | shl | shr | as | or | xor | nil | not | is | procedure | forward
  | array | const | var | out | absolute | export_ | cvar | external | name
  deriving Repr, DecidableEq

namespace Keyword

/-- All reserved words, in the order in which they are listed. -/
def all : List Keyword :=
  [goto, label, begin_, end_, case, of, else_, otherwise, if_, then_, for_, to_, downto, do_, in_,
    repeat_, until_, while_, with_, raise, try_, except, finally_, asm, div, mod, and, shl, shr,
    as, or, xor, nil, not, is, procedure, forward, array, const, var, out, absolute, export_,
    cvar, external, name]

/-- The spelling of a reserved word. -/
def word : Keyword → String
  | goto => "goto"
  | label => "label"
  | begin_ => "begin"
  | end_ => "end"
  | case => "case"
  | of => "of"
  | else_ => "else"
  | otherwise => "otherwise"
  | if_ => "if"
  | then_ => "then"
  | for_ => "for"
  | to_ => "to"
  | downto => "downto"
  | do_ => "do"
  | in_ => "in"
  | repeat_ => "repeat"
  | until_ => "until"
  | while_ => "while"
  | with_ => "with"
  | raise => "raise"
  | try_ => "try"
  | except => "except"
  | finally_ => "finally"
  | asm => "asm"
  | div => "div"
  | mod => "mod"
  | and => "and"
  | shl => "shl"
  | shr => "shr"
  | as => "as"
  | or => "or"
  | xor => "xor"
  | nil => "nil"
  | not => "not"
  | is => "is"
  | procedure => "procedure"
  | forward => "forward"
  | array => "array"
  | const => "const"
  | var => "var"
  | out => "out"
  | absolute => "absolute"
  | export_ => "export"
  | cvar => "cvar"
  | external => "external"
  | name => "name"

/-- The reserved word that is spelled like `s`, in any case. -/
def lookup? (s : String) : Option Keyword := all.find? (equalInAnyCase s ·.word)

/-- The list of reserved words is complete. -/
theorem mem_all (k : Keyword) : k ∈ all := by
  cases k <;> decide

end Keyword

/-! ### Sets of words -/

/-- A set of words that are looked up in any case. Each is kept once, in lower case. -/
structure KeywordSet where
  words : List String
  deriving Repr

namespace KeywordSet

/-- The set of the given words. -/
def ofList (words : List String) : KeywordSet := ⟨(words.map foldCase).eraseDups⟩

/-- The reserved words of the language. -/
def default : KeywordSet := ofList (Keyword.all.map Keyword.word)

/-- The word is in the set, in some case. -/
def contains (s : KeywordSet) (word : String) : Bool := s.words.contains (foldCase word)

/-- The number of different words. -/
def size (s : KeywordSet) : Nat := s.words.length

/-- There is no word in the set. -/
def isEmpty (s : KeywordSet) : Bool := s.words.isEmpty

/-- The two sets hold the same words. -/
def equal (s t : KeywordSet) : Bool :=
  s.words.all t.words.contains && t.words.all s.words.contains

end KeywordSet

end PascalScan
