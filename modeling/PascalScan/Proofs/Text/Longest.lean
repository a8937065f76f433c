import PascalScan.Proofs.Text.Boundary

/-!
# `PascalScan.Proofs.Text.Longest`: the longest stretch that belongs to a language

A lexical class is described best by the texts that it is after: it takes the longest stretch that
is one of them. `Text.LongestIn` says so of two offsets of a text, and `Cursor.Longest` of two
cursors.

* `Cursor.longest_iff`: a stretch is the longest one exactly when it belongs to the language and no
  text in the language goes on from it. So a proof has to look only behind the stretch.
* `Cursor.exists_longest`: where some stretch belongs to the language, there is a longest one.
* `Cursor.StandsIn.longestIn_iff`: the offsets of a longest stretch are those of the cursors.
-/

set_option autoImplicit false

namespace PascalScan

open Text

variable {lang : List Char → Prop}

/-- Of the stretches of `text` that start at offset `start` and belong to the language, the one up
to `stop` is the longest. -/
structure Text.LongestIn (lang : List Char → Prop) (text : List Char) (start stop : Nat) :
    Prop where
  belongs : ∃ s, slice? text start stop = some s ∧ lang s
  le : ∀ {s : List Char} {other : Nat}, slice? text start other = some s → lang s → other ≤ stop

namespace Cursor

/-- Of the stretches from `c` that belong to the language, the one up to `d` is the longest. -/
structure Longest (lang : List Char → Prop) (c d : Cursor) : Prop where
  belongs : ∃ s, c.Reads s d ∧ lang s
  le : ∀ {s : List Char} {e : Cursor}, c.Reads s e → lang s → e.pos ≤ d.pos

/-- No text in the language goes on from the longest stretch. -/
theorem Longest.not_append {c d e : Cursor} {s t : List Char} (h : c.Longest lang d)
    (hr : c.Reads s d) (ht : t ≠ []) (hmore : d.Reads t e) : ¬ lang (s ++ t) := by
  intro hlonger
  have hle := h.le (hr.trans hmore) hlonger
  have hlt := hmore.pos_lt ht
  omega

/-- A stretch is the longest one if no text in the language goes on from it. -/
theorem longest_iff {c d : Cursor} {s : List Char} (hr : c.Reads s d) :
    c.Longest lang d ↔ lang s ∧ ∀ {t : List Char} {e : Cursor}, t ≠ [] → d.Reads t e →
      ¬ lang (s ++ t) := by
  constructor
  · intro h
    obtain ⟨s', hr', hlang⟩ := h.belongs
    obtain rfl : s = s' := hr.same hr'
    exact ⟨hlang, h.not_append hr⟩
  · intro ⟨hlang, hmax⟩
    refine ⟨⟨s, hr, hlang⟩, fun {t e} he hlonger => ?_⟩
    rcases hr.before_or_behind he with ⟨u, hu, hmore⟩ | ⟨u, hback⟩
    · obtain rfl : t = s ++ u := he.same (hr.trans hmore)
      exact absurd hlonger (hmax hu hmore)
    · exact hback.pos_le

/-- Where a stretch belongs to the language, there is a longest one that does: either nothing in the
language goes on from the stretch, or a longer stretch leaves less to go on with. -/
theorem exists_longest {c : Cursor} {s : List Char} {e : Cursor} (hr : c.Reads s e)
    (hlang : lang s) : ∃ d, c.Longest lang d := by
  induction hn : e.rest.length using Nat.strongRecOn generalizing s e with
  | _ n ih =>
    by_cases hmore : ∃ t f, t ≠ [] ∧ e.Reads t f ∧ lang (s ++ t)
    · obtain ⟨t, f, ht, hread, hlonger⟩ := hmore
      exact ih f.rest.length (hn ▸ hread.length_lt ht) (hr.trans hread) hlonger rfl
    · refine ⟨e, (longest_iff hr).mpr ⟨hlang, ?_⟩⟩
      intro t f ht hread hlonger
      exact hmore ⟨t, f, ht, hread, hlonger⟩

/-- The offsets of a longest stretch are those of the cursors around it. -/
theorem StandsIn.longestIn_iff {c : Cursor} {text : List Char} {stop : Nat} (hc : c.StandsIn text) :
    LongestIn lang text c.pos stop ↔ ∃ d, c.Longest lang d ∧ d.pos = stop := by
  constructor
  · intro h
    obtain ⟨s, hs, hlang⟩ := h.belongs
    obtain ⟨d, hr, rfl⟩ := hc.slice?_eq_some_iff.mp hs
    exact ⟨d, ⟨⟨s, hr, hlang⟩, fun he hother => h.le (hc.slice?_of_reads he) hother⟩, rfl⟩
  · rintro ⟨d, h, rfl⟩
    obtain ⟨s, hr, hlang⟩ := h.belongs
    refine ⟨⟨s, hc.slice?_of_reads hr, hlang⟩, fun hother hlang' => ?_⟩
    obtain ⟨e, he, rfl⟩ := hc.slice?_eq_some_iff.mp hother
    exact h.le he hlang'

end Cursor

end PascalScan
