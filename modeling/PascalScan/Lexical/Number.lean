import PascalScan.Lexical.Match
import PascalScan.Text.CharClass

/-!
# `PascalScan.Lexical.Number`: integers and reals

A number is an optional sign followed by

* a base marker `$`, `&` or `%` and at least one digit of that base, or
* decimal digits, then possibly a point with digits, then possibly an exponent.

A point that no digit follows is not part of the number, so `1..2` starts with the integer `1`.
A base marker and an exponent marker, on the other hand, commit: without digits after them the
whole attempt fails.
-/

set_option autoImplicit false

namespace PascalScan.Number

open Text

/-! ### Integers in a marked base -/

/-- The base that a marker stands for. -/
def baseOfMarker? : Char → Option Base
  | '$' => some .hex
  | '&' => some .octal
  | '%' => some .binary
  | _ => none

/-- The digits of a base. -/
def isDigitOf : Base → Char → Bool
  | .decimal => isDigit
  | .hex => isHexDigit
  | .octal => isOctalDigit
  | .binary => isBinaryDigit

/-- Reads the digits of a base, at least one. -/
def digits (base : Base) (c : Cursor) : Except Failure Cursor :=
  match c.eatRun (isDigitOf base) (isDigitOf base) with
  | some next => .ok next
  | none => .error (.onSpot .digitExpected c.pos)

/-! ### Decimal numbers -/

/-- A character that introduces an exponent. -/
def isExponentMarker (c : Char) : Bool := c == 'e' || c == 'E'

/-- Reads a point and the digits after it, if both are there. -/
def fraction (c : Cursor) : Option Cursor :=
  (c.eat (· == '.')).bind (·.eatRun isDigit isDigit)

/-- Reads an exponent, if its marker is there; after the marker digits are due. -/
def exponent (c : Cursor) : Except Failure (Option Cursor) :=
  match c.eat isExponentMarker with
  | none => .ok none
  | some marked =>
    let signed := marked.eatOptional isSign
    match signed.eatRun isDigit isDigit with
    | some next => .ok (some next)
    | none => .error (.onSpot .exponentDigitExpected signed.pos)

/-- Reads digits, a fraction and an exponent. -/
def decimal (c : Cursor) : Attempt :=
  match digits .decimal c with
  | .error failure => .error failure
  | .ok whole =>
    let fractional := fraction whole
    match exponent (fractional.getD whole) with
    | .error failure => .error failure
    | .ok (some next) => .ok ⟨.real, [], next⟩
    | .ok none =>
      match fractional with
      | some next => .ok ⟨.real, [], next⟩
      | none => .ok ⟨.integer .decimal, [], whole⟩

/-! ### Numbers -/

/-- Recognizes what may follow a sign. -/
def unsigned (c : Cursor) : Attempt :=
  match c.rest with
  | [] => .error (.onSpot .numberAfterSign c.pos)
  | d :: ds =>
    match baseOfMarker? d with
    | some base =>
      match digits base ⟨c.pos + d.utf8Size, ds⟩ with
      | .ok next => .ok ⟨.integer base, [], next⟩
      | .error failure => .error failure
    | none => decimal c

/-- Recognizes a number with an optional sign. -/
def recognize (c : Cursor) : Attempt :=
  unsigned (c.eatOptional isSign)

/-! ### Progress -/

/-- A run of digits has at least one. -/
theorem digits_reads {base : Base} {c next : Cursor} (h : digits base c = .ok next) :
    ∃ s, s ≠ [] ∧ c.Reads s next := by
  unfold digits at h
  split at h
  next next' hnext =>
    cases h
    obtain ⟨ch, cs, -, hr⟩ := Cursor.eatRun_reads hnext
    exact ⟨ch :: cs, by simp, hr⟩
  next => cases h

/-- A fraction starts right where the whole part ends. -/
theorem fraction_reads {c next : Cursor} (h : fraction c = some next) :
    ∃ s, c.Reads s next := by
  obtain ⟨point, hpoint, hdigits⟩ := Option.bind_eq_some_iff.mp h
  obtain ⟨ch, -, hr₁⟩ := Cursor.eat_eq_some_iff.mp hpoint
  obtain ⟨d, ds, -, hr₂⟩ := Cursor.eatRun_reads hdigits
  exact ⟨_, hr₁.trans hr₂⟩

/-- A fraction is read if there is one; without one, nothing is. -/
theorem getD_fraction_reads (c : Cursor) : ∃ s, c.Reads s ((fraction c).getD c) := by
  cases hfraction : fraction c with
  | none => exact ⟨[], .refl c⟩
  | some next => exact fraction_reads hfraction

/-- So does an exponent, where there is one. -/
theorem exponent_reads {c next : Cursor} (h : exponent c = .ok (some next)) :
    ∃ s, c.Reads s next := by
  unfold exponent at h
  split at h
  next => cases h
  next marked hmarked =>
    dsimp only at h
    split at h
    next next' hnext =>
      cases h
      -- the mark, the sign if there is one, and the digits
      obtain ⟨ch, -, hr₁⟩ := Cursor.eat_eq_some_iff.mp hmarked
      obtain ⟨sign, hr₂⟩ := Cursor.eatOptional_reads isSign marked
      obtain ⟨d, ds, -, hr₃⟩ := Cursor.eatRun_reads hnext
      exact ⟨_, (hr₁.trans hr₂).trans hr₃⟩
    next => cases h

/-- A decimal number starts with a digit, so it is not empty. -/
theorem readsFrom_of_decimal {c : Cursor} {m : Match} (h : decimal c = .ok m) :
    m.ReadsFrom c := by
  unfold decimal at h
  split at h
  next => cases h
  next whole hwhole =>
    obtain ⟨s, hs, hr⟩ := digits_reads hwhole
    obtain ⟨t, ht⟩ := getD_fraction_reads whole
    -- The whole part and the fraction are read by now. An exponent may follow.
    dsimp only at h
    split at h
    next => cases h
    next next hnext =>
      cases h
      obtain ⟨u, hu⟩ := exponent_reads hnext
      exact ⟨_, by simp [hs], (hr.trans ht).trans hu⟩
    next =>
      split at h
      next next hf =>
        cases h
        rw [hf] at ht
        exact ⟨_, by simp [hs], hr.trans ht⟩
      next =>
        cases h
        exact ⟨s, hs, hr⟩

/-- Neither is a number behind a marker, which is read with it. -/
theorem readsFrom_of_unsigned {c : Cursor} {m : Match} (h : unsigned c = .ok m) :
    m.ReadsFrom c := by
  unfold unsigned at h
  split at h
  next => cases h
  next d ds hrest =>
    split at h
    next base =>
      split at h
      next next hnext =>
        cases h
        obtain ⟨s, -, hr⟩ := digits_reads hnext
        have hd : c.Reads [d] ⟨c.pos + d.utf8Size, ds⟩ := by simp [Cursor.Reads, hrest]
        exact ⟨_, by simp, hd.trans hr⟩
      next => cases h
    next => exact readsFrom_of_decimal h

/-- A sign in front makes no number empty. -/
theorem readsFrom_of_recognize {c : Cursor} {m : Match} (h : recognize c = .ok m) :
    m.ReadsFrom c := by
  obtain ⟨sign, hsign⟩ := Cursor.eatOptional_reads isSign c
  obtain ⟨s, hs, hr⟩ := readsFrom_of_unsigned h
  exact ⟨_, by simp [hs], hsign.trans hr⟩

end PascalScan.Number
