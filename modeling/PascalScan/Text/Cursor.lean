import PascalScan.Text.Bytes

/-!
# `PascalScan.Text.Cursor`: a reading position and the steps it can take

A `Cursor` is an offset together with the characters that follow it. The lexical classes are
written with three steps, and each comes with the law that tells what it read:

* `eat p` reads one character that satisfies `p`;
* `skipWhile p` reads the longest run of such characters, possibly none;
* `eatRun first more` reads one character and then a run.

`Cursor.Reads a s b` says that reading `s` leads from `a` to `b`. Everything that later modules
know about offsets comes from this relation: it composes (`Reads.trans`), and reading something
leaves less to read (`Reads.length_lt`), which is why the scanning loops end.
-/

set_option autoImplicit false

namespace PascalScan

open Text

/-- A place between two characters of a text: the byte offset `pos`, and the characters `rest`
that follow it. -/
structure Cursor where
  pos : Nat
  rest : List Char
  deriving Repr, DecidableEq

namespace Cursor

/-! ### What lies between two cursors -/

/-- Reading `s` leads from `a` to `b`. -/
def Reads (a : Cursor) (s : List Char) (b : Cursor) : Prop :=
  a.rest = s ++ b.rest ∧ b.pos = a.pos + byteSize s

/-- Reading nothing leaves a cursor where it is. -/
theorem Reads.refl (a : Cursor) : a.Reads [] a := by
  simp [Reads]

/-- What is read in two steps is read in one. -/
theorem Reads.trans {a b c : Cursor} {s t : List Char} (h₁ : a.Reads s b) (h₂ : b.Reads t c) :
    a.Reads (s ++ t) c := by
  obtain ⟨hr₁, hp₁⟩ := h₁
  obtain ⟨hr₂, hp₂⟩ := h₂
  refine ⟨by simp [hr₁, hr₂], ?_⟩
  simp only [byteSize_append]
  omega

/-- Reading something leaves fewer characters to read. -/
theorem Reads.length_lt {a b : Cursor} {s : List Char} (h : a.Reads s b) (hs : s ≠ []) :
    b.rest.length < a.rest.length := by
  have := List.length_pos_iff.mpr hs
  rw [h.1, List.length_append]
  omega

/-! ### Steps -/

/-- Reads one character that satisfies `p`. -/
def eat (p : Char → Bool) (c : Cursor) : Option Cursor :=
  match c.rest with
  | [] => none
  | d :: ds => if p d then some ⟨c.pos + d.utf8Size, ds⟩ else none

/-- Reads the longest run of characters that satisfy `p`, possibly none. -/
def skipWhile (p : Char → Bool) (c : Cursor) : Cursor :=
  ⟨c.pos + byteSize (c.rest.takeWhile p), c.rest.dropWhile p⟩

/-- Reads one character that satisfies `first`, then the longest run of those that satisfy
`more`. -/
def eatRun (first more : Char → Bool) (c : Cursor) : Option Cursor :=
  (c.eat first).map (skipWhile more)

/-- Reads one character that satisfies `p` if there is one, and stays put otherwise. -/
def eatOptional (p : Char → Bool) (c : Cursor) : Cursor :=
  (c.eat p).getD c

/-- The character that `eat` reads is the next one. -/
theorem eat_eq_some_iff {p : Char → Bool} {c d : Cursor} :
    c.eat p = some d ↔ ∃ ch, p ch ∧ c.Reads [ch] d := by
  obtain ⟨pos, rest⟩ := c
  obtain ⟨pos', rest'⟩ := d
  cases rest with
  | nil => simp [eat, Reads]
  | cons ch cs =>
    simp only [eat, Option.ite_none_right_eq_some, Option.some.injEq, mk.injEq, Reads,
      List.singleton_append, List.cons.injEq, byteSize_cons, byteSize_nil, Nat.add_zero]
    constructor
    · rintro ⟨hp, rfl, rfl⟩
      exact ⟨ch, hp, ⟨rfl, rfl⟩, rfl⟩
    · rintro ⟨_, hp, ⟨rfl, rfl⟩, rfl⟩
      exact ⟨hp, rfl, rfl⟩

/-- Passing over characters reads all of them. -/
theorem skipWhile_reads (p : Char → Bool) (c : Cursor) :
    c.Reads (c.rest.takeWhile p) (c.skipWhile p) := by
  simp [Reads, skipWhile, List.takeWhile_append_dropWhile]

/-- A run starts with the character that `first` accepts. -/
theorem eatRun_reads {first more : Char → Bool} {c d : Cursor} (h : c.eatRun first more = some d) :
    ∃ ch cs, first ch ∧ c.Reads (ch :: cs) d := by
  obtain ⟨e, he, rfl⟩ := Option.map_eq_some_iff.mp h
  obtain ⟨ch, hch, hr⟩ := eat_eq_some_iff.mp he
  exact ⟨ch, e.rest.takeWhile more, hch, hr.trans (skipWhile_reads more e)⟩

/-- Whether the character is there or not, a stretch is read, which may be empty. -/
theorem eatOptional_reads (p : Char → Bool) (c : Cursor) :
    ∃ s, c.Reads s (c.eatOptional p) := by
  unfold eatOptional
  cases h : c.eat p with
  | none => exact ⟨[], Reads.refl c⟩
  | some d =>
    obtain ⟨ch, -, hr⟩ := eat_eq_some_iff.mp h
    exact ⟨[ch], hr⟩

end Cursor

end PascalScan
