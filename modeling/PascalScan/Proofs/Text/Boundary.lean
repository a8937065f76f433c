import PascalScan.Text.Cursor

/-!
# `PascalScan.Proofs.Text.Boundary`: offsets that fall between characters

Every offset that a scan takes or reports has to fall between two characters. `IsBoundary` says
so of an offset alone, and `Cursor.StandsIn` says so of a cursor, whose `rest` then has to be
what follows the offset. The theorems carry the second from one cursor to the next:

* `Cursor.StandsIn.of_reads`: reading on from a cursor in the text leads to a cursor in the
  text, so no scan ever leaves it.
* `Cursor.StandsIn.slice?_eq_some_iff`: the stretches of the text that start at a cursor are the
  ones that can be read from there. This is the bridge between the offsets of a token and the
  characters that a lexical class read.
* `Cursor.StandsIn.exists_reads_of_le`: of two cursors in a text, the later one can be reached from
  the earlier one.
* `Cursor.StandsIn.pos_eq_byteSize_iff`: a cursor is at the last offset of the text exactly when
  nothing is left to read.
-/

set_option autoImplicit false

namespace PascalScan

namespace Text

/-- Byte offset `n` falls between two characters of `text`, or at one of its ends. -/
def IsBoundary (text : List Char) (n : Nat) : Prop :=
  ∃ rest, locate text n = .boundary rest

/-- To tell a boundary, locate the offset. -/
instance (text : List Char) (n : Nat) : Decidable (IsBoundary text n) :=
  match h : locate text n with
  | .boundary rest => isTrue ⟨rest, h⟩
  | .inside => isFalse fun ⟨_, hrest⟩ => nomatch h.symm.trans hrest
  | .beyond => isFalse fun ⟨_, hrest⟩ => nomatch h.symm.trans hrest

/-- The character right behind byte offset `n`; none at the end of the text, and none where the
offset falls among the bytes of a character. -/
def charAt? (text : List Char) (n : Nat) : Option Char :=
  match locate text n with
  | .boundary rest => rest.head?
  | _ => none

/-- Two leading parts of a text that have the same size are the same. -/
theorem append_inj_of_byteSize {before before' after after' : List Char}
    (h : before ++ after = before' ++ after') (hsize : byteSize before = byteSize before') :
    before = before' ∧ after = after' := by
  have hafter : locate (before ++ after) (byteSize before) = .boundary after :=
    locate_eq_boundary_iff.mpr ⟨before, rfl, rfl⟩
  have hafter' : locate (before ++ after) (byteSize before) = .boundary after' :=
    locate_eq_boundary_iff.mpr ⟨before', h, hsize⟩
  obtain rfl : after = after' := Place.boundary.inj (hafter.symm.trans hafter')
  exact ⟨List.append_cancel_right h, rfl⟩

/-- A slice of a part of the text is a slice of the text. -/
theorem slice?_of_part {before part after cs : List Char} {start stop : Nat}
    (h : slice? part start stop = some cs) :
    slice? (before ++ part ++ after) (start + byteSize before) (stop + byteSize before)
      = some cs := by
  obtain ⟨front, back, rfl, rfl, rfl⟩ := slice?_eq_some_iff.mp h
  refine slice?_eq_some_iff.mpr ⟨before ++ front, back ++ after, ?_, ?_, ?_⟩
  · simp
  · rw [byteSize_append, Nat.add_comm]
  · rw [List.append_assoc, byteSize_append before, Nat.add_comm]

/-- A slice up to the end of the text is what follows its start. -/
theorem slice?_byteSize_eq_some_iff {text rest : List Char} {start : Nat} :
    slice? text start (byteSize text) = some rest ↔
      ∃ before, text = before ++ rest ∧ start = byteSize before := by
  rw [slice?_eq_some_iff]
  constructor
  · intro ⟨before, after, htext, hstart, hstop⟩
    have hsize : byteSize text = byteSize (before ++ rest) + byteSize after := by
      rw [htext, byteSize_append]
    obtain rfl : after = [] := byteSize_eq_zero_iff.mp (by omega)
    exact ⟨before, by rw [htext, List.append_nil], hstart⟩
  · intro ⟨before, htext, hstart⟩
    exact ⟨before, [], by rw [htext, List.append_nil], hstart, by rw [htext]⟩

end Text

open Text

namespace Cursor

/-! ### What was read says where it led -/

/-- Reading never goes back. -/
theorem Reads.pos_le {c d : Cursor} {s : List Char} (h : c.Reads s d) : c.pos ≤ d.pos := by
  rw [h.2]
  omega

/-- Reading something moves on. -/
theorem Reads.pos_lt {c d : Cursor} {s : List Char} (h : c.Reads s d) (hs : s ≠ []) :
    c.pos < d.pos := by
  have hpos : byteSize s ≠ 0 := fun hzero => hs (byteSize_eq_zero_iff.mp hzero)
  rw [h.2]
  omega

/-- Reading never leaves more to read. -/
theorem Reads.length_le {c d : Cursor} {s : List Char} (h : c.Reads s d) :
    d.rest.length ≤ c.rest.length := by
  rw [h.1, List.length_append]
  omega

/-- Where something is read, something is left to read. -/
theorem Reads.rest_ne_nil {c d : Cursor} {s : List Char} (h : c.Reads s d) (hs : s ≠ []) :
    c.rest ≠ [] := by
  rw [h.1]
  exact List.append_ne_nil_of_left_ne_nil hs _

/-- What is read first is the next character. -/
theorem Reads.head?_eq {c d : Cursor} {ch : Char} {s : List Char} (h : c.Reads (ch :: s) d) :
    c.rest.head? = some ch := by
  rw [h.1]
  rfl

/-- Where the text goes on with `s`, these characters can be read. -/
theorem exists_reads_of_isPrefix {c : Cursor} {s : List Char} (h : s <+: c.rest) :
    ∃ d, c.Reads s d := by
  obtain ⟨rest, hrest⟩ := h
  exact ⟨⟨c.pos + byteSize s, rest⟩, hrest.symm, rfl⟩

/-- The next character can be read. -/
theorem exists_reads_of_head? {c : Cursor} {ch : Char} (h : c.rest.head? = some ch) :
    ∃ d, c.Reads [ch] d := by
  obtain ⟨cs, hcs⟩ := List.head?_eq_some_iff.mp h
  exact exists_reads_of_isPrefix ⟨cs, hcs.symm⟩

/-- Reading the same characters leads to the same place. -/
theorem Reads.unique {c d e : Cursor} {s : List Char} (hd : c.Reads s d) (he : c.Reads s e) :
    d = e := by
  have hrest : d.rest = e.rest := List.append_cancel_left (hd.1.symm.trans he.1)
  have hpos : d.pos = e.pos := hd.2.trans he.2.symm
  cases d
  cases e
  simp_all

/-- Between two places stands one stretch. -/
theorem Reads.same {c d : Cursor} {s t : List Char} (hs : c.Reads s d) (ht : c.Reads t d) : s = t :=
  List.append_cancel_right (hs.1.symm.trans ht.1)

/-- What is read in one go can be read in two. -/
theorem Reads.split {c e : Cursor} {s t : List Char} (h : c.Reads (s ++ t) e) :
    ∃ d, c.Reads s d ∧ d.Reads t e := by
  obtain ⟨hrest, hpos⟩ := h
  refine ⟨⟨c.pos + byteSize s, t ++ e.rest⟩, ⟨?_, rfl⟩, rfl, ?_⟩
  · rw [hrest, List.append_assoc]
  · rw [hpos, byteSize_append, Nat.add_assoc]

/-- Whoever reads anything reads the next character first. -/
theorem Reads.of_cons {c d e : Cursor} {ch x : Char} {s : List Char} (he : c.Reads (x :: s) e)
    (hd : c.Reads [ch] d) : x = ch ∧ d.Reads s e := by
  obtain ⟨n, hn, hs⟩ := he.split (s := [x])
  obtain rfl : x = ch := (List.cons.inj (hn.1.symm.trans hd.1)).1
  obtain rfl := hn.unique hd
  exact ⟨rfl, hs⟩

/-- Of two places that can be reached from a third, one can be reached from the other. -/
theorem Reads.before_or_behind {c d e : Cursor} {s t : List Char} (hd : c.Reads s d)
    (he : c.Reads t e) : (∃ u, u ≠ [] ∧ d.Reads u e) ∨ ∃ u, e.Reads u d := by
  rcases List.append_eq_append_iff.mp (hd.1.symm.trans he.1) with ⟨u, rfl, hrest⟩ | ⟨u, rfl, hrest⟩
  · have hread : d.Reads u e := ⟨hrest, by rw [he.2, hd.2, byteSize_append, Nat.add_assoc]⟩
    by_cases hu : u = []
    · subst hu
      obtain rfl : e = d := hread.unique (.refl d)
      exact .inr ⟨[], .refl e⟩
    · exact .inl ⟨u, hu, hread⟩
  · exact .inr ⟨u, hrest, by rw [hd.2, he.2, byteSize_append, Nat.add_assoc]⟩

/-! ### Cursors in a text -/

/-- The cursor stands in `text`: its offset falls between two characters, and what it has left
to read is what follows there. -/
def StandsIn (c : Cursor) (text : List Char) : Prop :=
  locate text c.pos = .boundary c.rest

/-- A cursor in the text splits it in two. -/
theorem standsIn_iff {c : Cursor} {text : List Char} :
    c.StandsIn text ↔ ∃ before, text = before ++ c.rest ∧ c.pos = byteSize before :=
  locate_eq_boundary_iff

/-- What a cursor in the text has left to read is the text from there. -/
theorem standsIn_iff_slice? {c : Cursor} {text : List Char} :
    c.StandsIn text ↔ slice? text c.pos (byteSize text) = some c.rest :=
  standsIn_iff.trans slice?_byteSize_eq_some_iff.symm

/-- At one offset only one cursor stands in the text. -/
theorem StandsIn.unique {c d : Cursor} {text : List Char} (hc : c.StandsIn text)
    (hd : d.StandsIn text) (hpos : c.pos = d.pos) : c = d := by
  obtain ⟨pos, rest⟩ := c
  obtain ⟨pos', rest'⟩ := d
  obtain rfl : pos = pos' := hpos
  exact congrArg (Cursor.mk pos) (Place.boundary.inj (hc.symm.trans hd))

/-- A stretch of the text starts where a cursor can stand. -/
theorem exists_standsIn_of_slice? {text s : List Char} {start stop : Nat}
    (h : slice? text start stop = some s) : ∃ c : Cursor, c.StandsIn text ∧ c.pos = start := by
  obtain ⟨before, after, rfl, rfl, -⟩ := Text.slice?_eq_some_iff.mp h
  exact ⟨⟨byteSize before, s ++ after⟩, standsIn_iff.mpr ⟨before, by simp, rfl⟩, rfl⟩

/-- Reading on stays in the text. -/
theorem StandsIn.of_reads {c d : Cursor} {text s : List Char} (h : c.StandsIn text)
    (hr : c.Reads s d) : d.StandsIn text := by
  obtain ⟨before, rfl, hpos⟩ := standsIn_iff.mp h
  refine standsIn_iff.mpr ⟨before ++ s, ?_, ?_⟩
  · rw [hr.1, List.append_assoc]
  · rw [hr.2, hpos, byteSize_append]

/-- A later place of a text can be reached from an earlier one. -/
theorem StandsIn.exists_reads_of_le {c d : Cursor} {text : List Char} (hc : c.StandsIn text)
    (hd : d.StandsIn text) (hle : c.pos ≤ d.pos) : ∃ s, c.Reads s d := by
  obtain ⟨before, hbefore, hposc⟩ := standsIn_iff.mp hc
  obtain ⟨before', hbefore', hposd⟩ := standsIn_iff.mp hd
  -- Both can be reached from the beginning.
  have hstart : (Cursor.mk 0 text).Reads before c := ⟨hbefore, by rw [hposc, Nat.zero_add]⟩
  have hstart' : (Cursor.mk 0 text).Reads before' d := ⟨hbefore', by rw [hposd, Nat.zero_add]⟩
  rcases hstart'.before_or_behind hstart with ⟨u, hu, hread⟩ | hread
  · exact absurd (hread.pos_lt hu) (Nat.not_lt.mpr hle)
  · exact hread

/-- The stretches of the text that start at a cursor are those that can be read from it. -/
theorem StandsIn.slice?_eq_some_iff {c : Cursor} {text s : List Char} {stop : Nat}
    (h : c.StandsIn text) :
    slice? text c.pos stop = some s ↔ ∃ d, c.Reads s d ∧ d.pos = stop := by
  obtain ⟨before, htext, hpos⟩ := standsIn_iff.mp h
  rw [Text.slice?_eq_some_iff]
  constructor
  · rintro ⟨before', after, htext', hpos', rfl⟩
    -- Two leading parts of the text with the same size are the same.
    have hsame : locate text (byteSize before) = .boundary (s ++ after) :=
      locate_eq_boundary_iff.mpr ⟨before', by rw [htext', List.append_assoc], hpos ▸ hpos'⟩
    have hrest : c.rest = s ++ after := by
      rw [← hpos, h] at hsame
      exact Place.boundary.inj hsame
    refine ⟨⟨byteSize (before' ++ s), after⟩, ⟨hrest, ?_⟩, rfl⟩
    rw [hpos', byteSize_append]
  · rintro ⟨d, ⟨hrest, hd⟩, rfl⟩
    refine ⟨before, d.rest, ?_, hpos, ?_⟩
    · rw [htext, hrest, List.append_assoc]
    · rw [hd, hpos, byteSize_append]

/-- The stretch that was read is the one between the two offsets. -/
theorem StandsIn.slice?_of_reads {c d : Cursor} {text s : List Char} (h : c.StandsIn text)
    (hr : c.Reads s d) : slice? text c.pos d.pos = some s :=
  h.slice?_eq_some_iff.mpr ⟨d, hr, rfl⟩

/-- What was read is the slice between the two offsets. -/
theorem StandsIn.slice_of_reads {c d : Cursor} {text s : List Char} (h : c.StandsIn text)
    (hr : c.Reads s d) : slice text c.pos d.pos = s := by
  rw [slice, h.slice?_of_reads hr, Option.getD_some]

/-- What is left to read takes up the bytes behind a cursor. -/
theorem StandsIn.pos_add_byteSize {c : Cursor} {text : List Char} (h : c.StandsIn text) :
    c.pos + byteSize c.rest = byteSize text := by
  obtain ⟨before, rfl, hpos⟩ := standsIn_iff.mp h
  rw [byteSize_append, hpos]

/-- A cursor in the text is not past its end. -/
theorem StandsIn.pos_le_byteSize {c : Cursor} {text : List Char} (h : c.StandsIn text) :
    c.pos ≤ byteSize text := by
  have hsize := h.pos_add_byteSize
  omega

/-- A cursor is at the last offset exactly when nothing is left to read. -/
theorem StandsIn.pos_eq_byteSize_iff {c : Cursor} {text : List Char} (h : c.StandsIn text) :
    c.pos = byteSize text ↔ c.rest = [] := by
  have hsize := h.pos_add_byteSize
  rw [← byteSize_eq_zero_iff]
  omega

/-- The character behind a cursor is the next one to read. -/
theorem StandsIn.charAt? {c : Cursor} {text : List Char} (h : c.StandsIn text) :
    Text.charAt? text c.pos = c.rest.head? := by
  unfold Text.charAt?
  rw [h]

/-- The next character is the one behind the cursor. -/
theorem StandsIn.singleton_isPrefix_iff {c : Cursor} {text : List Char} {a : Char}
    (h : c.StandsIn text) : [a] <+: c.rest ↔ Text.charAt? text c.pos = some a := by
  rw [h.charAt?]
  cases c.rest with
  | nil => simp
  | cons ch cs => simp [eq_comm]

/-- Behind a character of one byte, the next one is behind the next offset. -/
theorem StandsIn.pair_isPrefix_iff {c : Cursor} {text : List Char} {a b : Char}
    (h : c.StandsIn text) (hsize : a.utf8Size = 1) :
    [a, b] <+: c.rest ↔
      Text.charAt? text c.pos = some a ∧ Text.charAt? text (c.pos + 1) = some b := by
  rw [h.charAt?]
  cases hrest : c.rest with
  | nil => simp
  | cons ch cs =>
    rw [List.cons_prefix_cons, List.head?_cons, Option.some.injEq, eq_comm]
    refine and_congr_right ?_
    rintro rfl
    have hnext : (Cursor.mk (c.pos + 1) cs).StandsIn text :=
      h.of_reads (s := [ch]) ⟨hrest, by simp [hsize]⟩
    exact hnext.singleton_isPrefix_iff

/-- Where a character stands, a cursor can stand in front of it. -/
theorem exists_standsIn_of_charAt? {text : List Char} {ch : Char} {i : Nat}
    (h : Text.charAt? text i = some ch) : ∃ c : Cursor, c.StandsIn text ∧ c.pos = i := by
  unfold Text.charAt? at h
  split at h
  next rest hrest => exact ⟨⟨i, rest⟩, hrest, rfl⟩
  next => cases h

/-- A character stands behind no offset among its own bytes. -/
theorem StandsIn.charAt?_eq_none {c d : Cursor} {text : List Char} {ch : Char} {i : Nat}
    (hc : c.StandsIn text) (hread : c.Reads [ch] d) (hlt : c.pos < i) (hlt' : i < d.pos) :
    Text.charAt? text i = none := by
  refine Option.eq_none_iff_forall_ne_some.mpr fun x hx => ?_
  obtain ⟨o, ho, rfl⟩ := exists_standsIn_of_charAt? hx
  obtain ⟨s, hs⟩ := hc.exists_reads_of_le ho (Nat.le_of_lt hlt)
  -- Whoever reads anything reads that character, so gets past its end.
  cases s with
  | nil =>
    obtain rfl := hs.unique (.refl c)
    exact absurd hlt (Nat.lt_irrefl _)
  | cons y s => exact absurd (hs.of_cons hread).2.pos_le (Nat.not_le.mpr hlt')

/-- The characters behind the offsets of a stretch are those that are read in it. -/
theorem StandsIn.mem_of_charAt? {text : List Char} {ch : Char} {s : List Char} :
    ∀ {c d : Cursor} {i : Nat}, c.StandsIn text → c.Reads s d → c.pos ≤ i → i < d.pos →
      Text.charAt? text i = some ch → ch ∈ s := by
  induction s with
  | nil =>
    intro c d i _ hread hle hlt _
    obtain rfl := hread.unique (.refl c)
    omega
  | cons x s ih =>
    intro c d i hc hread hle hlt hchar
    obtain ⟨n, hn, hread⟩ := hread.split (s := [x])
    by_cases hnext : n.pos ≤ i
    · exact List.mem_cons_of_mem x (ih (hc.of_reads hn) hread hnext hlt hchar)
    by_cases hfirst : c.pos = i
    · subst hfirst
      rw [hc.charAt?, hn.1] at hchar
      obtain rfl := Option.some.inj hchar
      exact List.mem_cons_self
    · rw [hc.charAt?_eq_none hn (by omega) (by omega)] at hchar
      cases hchar

end Cursor

end PascalScan
