import PascalScan.Lexical.Match
import PascalScan.Proofs.Text.Boundary
import PascalScan.Proofs.Text.Steps

/-!
# `PascalScan.Proofs.Lexical.Followed`: a place with more text behind it

To compare a text with one that is cut, the cursor `c.followedBy v` stands at the same place as `c`
in a text that goes on with `v`. Whatever leads to a place in front of the cut has been in front of
it all the time (`Cursor.exists_eq_followedBy_of_reads`), so a step that gets to such a place is
taken alike when the text is cut, and one that is stuck stays stuck.
-/

set_option autoImplicit false

namespace PascalScan

open Text

/-! ### More text behind a cursor -/

namespace Cursor

/-- The same place in a text that goes on with `v`. -/
def followedBy (v : List Char) (c : Cursor) : Cursor := ⟨c.pos, c.rest ++ v⟩

/-- The text behind does not move a cursor. -/
@[simp] theorem pos_followedBy (v : List Char) (c : Cursor) : (c.followedBy v).pos = c.pos := rfl

/-- It comes behind what is left to read. -/
@[simp] theorem rest_followedBy (v : List Char) (c : Cursor) :
    (c.followedBy v).rest = c.rest ++ v := rfl

variable {v : List Char} {c d : Cursor}

/-- What goes on alike is alike. -/
theorem followedBy_inj (h : c.followedBy v = d.followedBy v) : c = d := by
  obtain ⟨hpos, hrest⟩ := Cursor.mk.inj h
  have hrest' : c.rest = d.rest := List.append_cancel_right hrest
  cases c
  cases d
  simp_all

/-- The same is read, whatever stands behind. -/
theorem reads_followedBy_iff {s : List Char} :
    (c.followedBy v).Reads s (d.followedBy v) ↔ c.Reads s d := by
  unfold Reads
  rw [rest_followedBy, rest_followedBy, ← List.append_assoc, List.append_left_inj]
  rfl

/-- A place from which reading leads to one in front of `v` is in front of `v` itself. -/
theorem exists_eq_followedBy_of_reads {s : List Char} (h : c.Reads s (d.followedBy v)) :
    ∃ c' : Cursor, c = c'.followedBy v ∧ c'.Reads s d := by
  have hrest : c.rest = s ++ d.rest ++ v := by
    rw [h.1, rest_followedBy, List.append_assoc]
  have hc : c = (Cursor.mk c.pos (s ++ d.rest)).followedBy v := by
    show c = ⟨c.pos, s ++ d.rest ++ v⟩
    rw [← hrest]
  rw [hc] at h
  exact ⟨_, hc, reads_followedBy_iff.mp h⟩

/-- The next character is the same with more text behind. -/
theorem mem_head?_followedBy {ch : Char} (h : ch ∈ c.rest.head?) :
    ch ∈ (c.followedBy v).rest.head? := by
  obtain ⟨cs, hrest⟩ := List.head?_eq_some_iff.mp h
  rw [rest_followedBy, hrest]
  rfl

/-! ### Steps of a cursor -/

/-- A character that is eaten in front of `v` is eaten without it. -/
theorem eat_of_followedBy {p : Char → Bool} (h : (c.followedBy v).eat p = some (d.followedBy v)) :
    c.eat p = some d := by
  obtain ⟨ch, hch, hr⟩ := eat_eq_some_iff.mp h
  exact eat_eq_some_iff.mpr ⟨ch, hch, reads_followedBy_iff.mp hr⟩

/-- A character that is not there with `v` is not there without it. -/
theorem eat_eq_none_of_followedBy {p : Char → Bool} (h : (c.followedBy v).eat p = none) :
    c.eat p = none :=
  eat_eq_none_iff.mpr fun ch hch => eat_eq_none_iff.mp h ch (mem_head?_followedBy hch)

/-- A run that ends in front of `v` is eaten without it. -/
theorem eatRun_of_followedBy {first more : Char → Bool}
    (h : (c.followedBy v).eatRun first more = some (d.followedBy v)) :
    c.eatRun first more = some d := by
  obtain ⟨ch, cs, hch, hcs, hr, hstop⟩ := eatRun_eq_some_iff.mp h
  exact eatRun_eq_some_iff.mpr ⟨ch, cs, hch, hcs, reads_followedBy_iff.mp hr,
    fun x hx => hstop x (mem_head?_followedBy hx)⟩

/-- A run that does not begin with `v` does not begin without it. -/
theorem eatRun_eq_none_of_followedBy {first more : Char → Bool}
    (h : (c.followedBy v).eatRun first more = none) : c.eatRun first more = none :=
  eatRun_eq_none_iff.mpr fun ch hch => eatRun_eq_none_iff.mp h ch (mem_head?_followedBy hch)

/-- A character that may be missing is eaten or missing in both. -/
theorem eatOptional_of_followedBy {p : Char → Bool}
    (h : (c.followedBy v).eatOptional p = d.followedBy v) : c.eatOptional p = d := by
  unfold eatOptional at h ⊢
  cases heat : (c.followedBy v).eat p with
  | none =>
    rw [heat, Option.getD_none] at h
    rw [eat_eq_none_of_followedBy heat, Option.getD_none]
    exact followedBy_inj h
  | some e =>
    rw [heat, Option.getD_some] at h
    rw [h] at heat
    rw [eat_of_followedBy heat, Option.getD_some]

/-- Characters that end in front of `v` are passed over without it. -/
theorem skipWhile_of_followedBy {p : Char → Bool}
    (h : (c.followedBy v).skipWhile p = d.followedBy v) : c.skipWhile p = d := by
  have hr := skipWhile_reads p (c.followedBy v)
  rw [h] at hr
  -- the run ends in front of `v`, so it is the whole run of the shorter text
  refine skipWhile_eq_of_reads (reads_followedBy_iff.mp hr) ?_ ?_
  · intro ch hch
    exact fits_of_mem_takeWhile hch
  · intro ch hch
    have hrest : (c.followedBy v).rest.dropWhile p = (d.followedBy v).rest := congrArg rest h
    have hmem : ch ∈ ((c.followedBy v).rest.dropWhile p).head? := by
      rw [hrest]
      exact mem_head?_followedBy hch
    exact not_fits_of_mem_head?_dropWhile hmem

end Cursor

/-- The same match in a text that goes on with `v`. -/
def Match.followedBy (v : List Char) (m : Match) : Match := ⟨m.kind, m.inner, m.next.followedBy v⟩

variable {v : List Char} {c : Cursor} {m : Match}

/-- A match in front of the cut reads what it has read. -/
theorem Match.readsFrom_of_followedBy (h : (m.followedBy v).ReadsFrom (c.followedBy v)) :
    m.ReadsFrom c := by
  obtain ⟨s, hs, hr⟩ := h
  exact ⟨s, hs, Cursor.reads_followedBy_iff.mp hr⟩

end PascalScan
