import PascalScan.Lexical.Match
import PascalScan.Text.CharClass

/-!
# `PascalScan.Lexical.Quoted`: strings

A string is one or more segments with nothing between them. A segment is a quoted run, which
holds any characters but quotes and line breaks, or a character code, `#` and decimal digits.
Two quoted runs side by side are one string, which is how `'it''s'` holds a quote.

A segment that was begun has to be finished: a defect in the last of many segments makes the
whole string fail. An unclosed quote is reported where the string starts, a character code
without digits where the digits are missing.
-/

set_option autoImplicit false

namespace PascalScan.Quoted

open Text

/-- The character around a quoted run. -/
def isQuote (c : Char) : Bool := c == '\''

/-- The character in front of a character code. -/
def isCodeMark (c : Char) : Bool := c == '#'

/-- A character that a quoted run may hold. -/
def isQuotable (c : Char) : Bool := !isQuote c && !isLineBreak c

/-- Reads one segment of the string that starts at offset `start`, if a segment begins here. -/
def segment (start : Nat) (c : Cursor) : Except Failure (Option Cursor) :=
  match c.eat isQuote with
  | some opened =>
    let body := opened.skipWhile isQuotable
    match body.eat isQuote with
    | some closed => .ok (some closed)
    | none => .error ⟨.unclosedQuote, start, body.pos⟩
  | none =>
    match c.eat isCodeMark with
    | some marked =>
      match marked.eatRun isDigit isDigit with
      | some next => .ok (some next)
      | none => .error (.onSpot .unsignedExpected marked.pos)
    | none => .ok none

/-- A segment has at least its two quotes, or its mark and a digit. -/
theorem segment_reads {start : Nat} {c next : Cursor} (h : segment start c = .ok (some next)) :
    ∃ s, s ≠ [] ∧ c.Reads s next := by
  unfold segment at h
  -- A quoted run comes first, and then a character code.
  split at h
  next opened hopened =>
    dsimp only at h
    split at h
    next closed hclosed =>
      cases h
      obtain ⟨q, -, hr₁⟩ := Cursor.eat_eq_some_iff.mp hopened
      obtain ⟨q', -, hr₂⟩ := Cursor.eat_eq_some_iff.mp hclosed
      exact ⟨_, by simp, (hr₁.trans (Cursor.skipWhile_reads isQuotable opened)).trans hr₂⟩
    next => cases h
  next =>
    split at h
    next marked hmarked =>
      split at h
      next next' hnext =>
        cases h
        obtain ⟨mark, -, hr₁⟩ := Cursor.eat_eq_some_iff.mp hmarked
        obtain ⟨d, ds, -, hr₂⟩ := Cursor.eatRun_reads hnext
        exact ⟨_, by simp, hr₁.trans hr₂⟩
      next => cases h
    next => cases h

/-- A segment leaves fewer characters to read. -/
theorem length_lt_of_segment {start : Nat} {c next : Cursor}
    (h : segment start c = .ok (some next)) : next.rest.length < c.rest.length := by
  obtain ⟨s, hs, hr⟩ := segment_reads h
  exact hr.length_lt hs

/-- Reads segments as long as one begins. -/
def segments (start : Nat) (c : Cursor) : Except Failure Cursor :=
  match h : segment start c with
  | .error failure => .error failure
  | .ok none => .ok c
  | .ok (some next) =>
    have : next.rest.length < c.rest.length := length_lt_of_segment h
    segments start next
termination_by c.rest.length

/-- What the loop over segments does is up to the first of them. -/
theorem segments_eq (start : Nat) (c : Cursor) :
    segments start c =
      match segment start c with
      | .error f => .error f
      | .ok none => .ok c
      | .ok (some next) => segments start next := by
  rw [segments]
  split <;> simp_all

/-- A sequence of segments starts where the first of them does. -/
theorem segments_reads {start : Nat} {c next : Cursor} (h : segments start c = .ok next) :
    ∃ s, c.Reads s next := by
  fun_induction segments start c with
  | case1 => cases h
  | case2 c =>
    cases h
    exact ⟨[], Cursor.Reads.refl _⟩
  | case3 c mid hmid _ ih =>
    obtain ⟨s, -, hr₁⟩ := segment_reads hmid
    obtain ⟨t, hr₂⟩ := ih h
    exact ⟨_, hr₁.trans hr₂⟩

/-- Recognizes a string. -/
def recognize (c : Cursor) : Attempt :=
  match segment c.pos c with
  | .error failure => .error failure
  | .ok none => .error (.onSpot .notAString c.pos)
  | .ok (some next) =>
    match segments c.pos next with
    | .error failure => .error failure
    | .ok stop => .ok ⟨.string, [], stop⟩

/-- A string has at least one segment. -/
theorem readsFrom_of_recognize {c : Cursor} {m : Match} (h : recognize c = .ok m) :
    m.ReadsFrom c := by
  unfold recognize at h
  split at h
  next => cases h
  next => cases h
  next next hnext =>
    split at h
    next => cases h
    next stop hstop =>
      cases h
      obtain ⟨s, hs, hr₁⟩ := segment_reads hnext
      obtain ⟨t, hr₂⟩ := segments_reads hstop
      exact ⟨_, by simp [hs], hr₁.trans hr₂⟩

end PascalScan.Quoted
