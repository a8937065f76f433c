import PascalScan.Failure
import PascalScan.Text.Excerpt
import PascalScan.Token.Kind
import PascalScan.Tree

/-!
# `PascalScan.Token.Basic`: tokens as labelled stretches of a text

A `Span` labels the stretch between two byte offsets; it does not carry the characters, which
are read off the text when they are wanted (`Span.text`). A `Token` is a tree of spans: only a
comment has inner tokens, the comments that were opened and closed inside it.
-/

set_option autoImplicit false

namespace PascalScan

open Text

/-- The stretch of a text from byte offset `start` up to `stop`, with a label. -/
structure Span (κ : Type) where
  kind : κ
  start : Nat
  stop : Nat
  deriving Repr, DecidableEq

namespace Span

variable {κ : Type}

/-- The number of bytes in the stretch. -/
def size (s : Span κ) : Nat := s.stop - s.start

/-- Nothing lies in the stretch. -/
def isEmpty (s : Span κ) : Bool := s.start == s.stop

/-- The stretch lies in `source` and splits none of its characters. -/
def fits (source : List Char) (s : Span κ) : Bool := (slice? source s.start s.stop).isSome

/-- The stretch, if it lies in `source`. -/
def within (source : List Char) (s : Span κ) : Except Misuse (Span κ) :=
  if s.fits source then .ok s else .error .badSlice

/-- The characters of a stretch that lies in `source`. -/
def text (source : String) (s : Span κ) : String := excerpt source s.start s.stop

/-- What is read off the text are the characters between the two offsets. -/
theorem text_eq_of_fits {source : String} {s : Span κ} (h : s.fits source.toList) :
    s.text source = String.ofList (slice source.toList s.start s.stop) := by
  obtain ⟨cs, hcs⟩ := Option.isSome_iff_exists.mp h
  rw [text, excerpt_eq_of_slice? hcs, slice, hcs, Option.getD_some]

/-- The same stretch in a text with `k` more bytes in front. -/
def shift (k : Nat) (s : Span κ) : Span κ := ⟨s.kind, s.start + k, s.stop + k⟩

end Span

/-- A recognized stretch of a text, with the comments nested in it. -/
abbrev Token := Tree (Span Kind)

namespace Token

/-- The token that stretches from `start` to `stop`. -/
def ofSpan (kind : Kind) (start stop : Nat) (inner : List Token) : Token :=
  .node ⟨kind, start, stop⟩ inner

/-- What kind of token it is. -/
def kind (t : Token) : Kind := (Tree.label t).kind

/-- The offset of its first byte. -/
def start (t : Token) : Nat := (Tree.label t).start

/-- The offset right behind its last byte. -/
def stop (t : Token) : Nat := (Tree.label t).stop

/-- The same token in a text with `k` more bytes in front. -/
def shift (k : Nat) (t : Token) : Token := Tree.map (Span.shift k) t

end Token

end PascalScan
