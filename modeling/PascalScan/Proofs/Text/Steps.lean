import PascalScan.Text.Cursor

/-!
# `PascalScan.Proofs.Text.Steps`: what the steps of a cursor read, exactly

`PascalScan.Text.Cursor` says of each step that it reads something. The theorems here say when a
step is possible and where it stops: `eat` and `eatRun` are stuck exactly at a character that they
do not accept (`eat_eq_none_iff`, `eatRun_eq_none_iff`), and a run stops only in front of a
character that cannot go on with it (`eatRun_eq_some_iff`).

The next character is spelled `c.rest.head?`, so that one statement covers the end of the text.
-/

set_option autoImplicit false

namespace PascalScan.Cursor

open Text

/-- Nothing is eaten at the end of the text or in front of a character that does not fit. -/
theorem eat_eq_none_iff {p : Char → Bool} {c : Cursor} :
    c.eat p = none ↔ ∀ ch ∈ c.rest.head?, p ch = false := by
  unfold eat
  cases c.rest with
  | nil => simp
  | cons ch cs => simp

/-- What is eaten is the next character. -/
theorem exists_head_of_eat {p : Char → Bool} {c d : Cursor} (h : c.eat p = some d) :
    ∃ ch ∈ c.rest.head?, p ch := by
  obtain ⟨ch, hch, hrest, -⟩ := eat_eq_some_iff.mp h
  exact ⟨ch, by simp [hrest], hch⟩

/-- A run starts with the next character. -/
theorem exists_head_of_eatRun {first more : Char → Bool} {c d : Cursor}
    (h : c.eatRun first more = some d) : ∃ ch ∈ c.rest.head?, first ch := by
  obtain ⟨e, he, -⟩ := Option.map_eq_some_iff.mp h
  exact exists_head_of_eat he

/-- Every character that `skipWhile` passes over fits. -/
theorem fits_of_mem_takeWhile {p : Char → Bool} {cs : List Char} {ch : Char}
    (h : ch ∈ cs.takeWhile p) : p ch :=
  List.all_eq_true.mp List.all_takeWhile ch h

/-- The character in front of which `skipWhile` stops does not fit. -/
theorem not_fits_of_mem_head?_dropWhile {p : Char → Bool} {cs : List Char} {ch : Char}
    (h : ch ∈ (cs.dropWhile p).head?) : p ch = false := by
  have hstop := List.head?_dropWhile_not p cs
  rw [Option.mem_def.mp h] at hstop
  exact hstop

/-- A longest stretch that fits ends in front of a character that does not. -/
theorem dropWhile_append_of_stop {p : Char → Bool} {s rest : List Char} (hs : ∀ ch ∈ s, p ch)
    (hrest : ∀ ch ∈ rest.head?, p ch = false) : (s ++ rest).dropWhile p = rest := by
  rw [List.dropWhile_append_of_pos hs]
  cases rest with
  | nil => rfl
  | cons ch cs => simp [hrest ch (by simp)]

/-- Where the text goes on with `s` and then with a character that does not fit, the characters
of `s` are the longest stretch that fits. -/
theorem skipWhile_eq_of_reads {p : Char → Bool} {c d : Cursor} {s : List Char}
    (hr : c.Reads s d) (hs : ∀ ch ∈ s, p ch) (hd : ∀ ch ∈ d.rest.head?, p ch = false) :
    c.skipWhile p = d := by
  obtain ⟨hrest, hpos⟩ := hr
  have htake : c.rest.takeWhile p = s := by
    rw [hrest, List.takeWhile_append_of_pos hs]
    cases hnext : d.rest with
    | nil => simp
    | cons ch cs => simp [hd ch (by simp [hnext])]
  have hdrop : c.rest.dropWhile p = d.rest := by
    rw [hrest, dropWhile_append_of_stop hs hd]
  unfold skipWhile
  rw [htake, hdrop, ← hpos]

/-- A run goes on behind characters that fit. -/
theorem skipWhile_eq_skipWhile_of_reads {p : Char → Bool} {c d : Cursor} {s : List Char}
    (hr : c.Reads s d) (hs : ∀ ch ∈ s, p ch) : c.skipWhile p = d.skipWhile p := by
  refine skipWhile_eq_of_reads (hr.trans (skipWhile_reads p d)) ?_ ?_
  · intro ch hch
    rcases List.mem_append.mp hch with hch | hch
    · exact hs ch hch
    · exact fits_of_mem_takeWhile hch
  · intro ch hch
    exact not_fits_of_mem_head?_dropWhile hch

/-- A run is empty in front of a character that does not fit, and at the end of the text. -/
theorem skipWhile_eq_self {p : Char → Bool} {c : Cursor} (h : ∀ ch ∈ c.rest.head?, p ch = false) :
    c.skipWhile p = c :=
  skipWhile_eq_of_reads (.refl c) (by simp) h

/-- A run is a first character, then the longest stretch of characters that go on with it. -/
theorem eatRun_eq_some_iff {first more : Char → Bool} {c d : Cursor} :
    c.eatRun first more = some d ↔
      ∃ ch cs, first ch ∧ (∀ x ∈ cs, more x) ∧ c.Reads (ch :: cs) d ∧
        ∀ x ∈ d.rest.head?, more x = false := by
  constructor
  · intro h
    obtain ⟨e, he, rfl⟩ := Option.map_eq_some_iff.mp h
    obtain ⟨ch, hch, hr⟩ := eat_eq_some_iff.mp he
    exact ⟨ch, e.rest.takeWhile more, hch, fun x hx => fits_of_mem_takeWhile hx,
      hr.trans (skipWhile_reads more e), fun x hx => not_fits_of_mem_head?_dropWhile hx⟩
  · intro ⟨ch, cs, hch, hcs, ⟨hrest, hpos⟩, hstop⟩
    have he : c.eat first = some ⟨c.pos + ch.utf8Size, cs ++ d.rest⟩ :=
      eat_eq_some_iff.mpr ⟨ch, hch, hrest, by simp⟩
    have hskip : (Cursor.mk (c.pos + ch.utf8Size) (cs ++ d.rest)).skipWhile more = d := by
      refine skipWhile_eq_of_reads ⟨rfl, ?_⟩ hcs hstop
      rw [hpos, byteSize_cons, ← Nat.add_assoc]
    unfold eatRun
    rw [he, Option.map_some, hskip]

/-- No run starts at the end of the text or in front of a character that cannot be its first. -/
theorem eatRun_eq_none_iff {first more : Char → Bool} {c : Cursor} :
    c.eatRun first more = none ↔ ∀ ch ∈ c.rest.head?, first ch = false := by
  unfold eatRun
  rw [Option.map_eq_none_iff, eat_eq_none_iff]

end PascalScan.Cursor
