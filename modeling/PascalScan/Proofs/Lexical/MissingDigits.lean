import PascalScan.Lexical.Number
import PascalScan.Proofs.Text.Boundary
import PascalScan.Proofs.Text.Steps

/-!
# `PascalScan.Proofs.Lexical.MissingDigits`: numbers that have begun and have no digits

The marker of a base and the marker of an exponent commit a number to the digits behind them. This
module says when these are missing, in terms of the text, and how the number then fails. For that,
each reader of a part of a number is described by the characters that it reads and the one that it
stops at.

* `Number.recognize_eq_error_of_marker`: behind the marker of a base stands no digit of it.
* `Number.OpenExponent c e`: between the cursors stand digits, possibly a point with digits, an
  exponent marker and possibly a sign, and no digit follows. A number without a sign that starts
  with a digit fails exactly in this case (`Number.recognize_eq_error_iff_openExponent`).
-/

set_option autoImplicit false

namespace PascalScan.Number

open Text

/-! ### Numbers without a sign -/

/-- A number that does not begin with a sign begins with its marker or its digits. -/
theorem recognize_of_not_sign {c : Cursor} (h : ∀ ch ∈ c.rest.head?, isSign ch = false) :
    recognize c = unsigned c := by
  unfold recognize
  rw [Cursor.eatOptional, Cursor.eat_eq_none_iff.mpr h, Option.getD_none]

/-- Neither the marker of a base nor a digit is a sign. -/
theorem isSign_eq_false_of_marker {ch : Char} {base : Base} (h : baseOfMarker? ch = some base) :
    isSign ch = false := by
  unfold baseOfMarker? at h
  split at h <;> first | rfl | cases h

/-- No digit is a sign. -/
theorem isSign_eq_false_of_isDigit {ch : Char} (h : isDigit ch) : isSign ch = false := by
  by_cases hplus : ch = '+'
  · subst hplus
    cases h
  by_cases hminus : ch = '-'
  · subst hminus
    cases h
  simp [isSign, hplus, hminus]

/-- A digit is not the marker of a base. -/
theorem baseOfMarker?_eq_none_of_isDigit {ch : Char} (h : isDigit ch) :
    baseOfMarker? ch = none := by
  unfold baseOfMarker?
  split <;> first | rfl | cases h

/-! ### Behind the marker of a base -/

/-- Behind the marker of a base its digits are due. -/
theorem unsigned_of_marker {c : Cursor} {ch : Char} {cs : List Char} {base : Base}
    (hrest : c.rest = ch :: cs) (hbase : baseOfMarker? ch = some base) :
    unsigned c = (digits base ⟨c.pos + ch.utf8Size, cs⟩).map fun next =>
      ⟨.integer base, [], next⟩ := by
  unfold unsigned
  rw [hrest]
  dsimp only
  rw [hbase]
  dsimp only
  cases digits base ⟨c.pos + ch.utf8Size, cs⟩ <;> rfl

/-- Behind the marker of a base, digits of that base are read. -/
theorem recognize_of_marker {c : Cursor} {ch : Char} {cs : List Char} {base : Base}
    (hrest : c.rest = ch :: cs) (hbase : baseOfMarker? ch = some base) :
    recognize c = (digits base ⟨c.pos + ch.utf8Size, cs⟩).map fun next =>
      ⟨.integer base, [], next⟩ := by
  rw [recognize_of_not_sign (by simp [hrest, isSign_eq_false_of_marker hbase]),
    unsigned_of_marker hrest hbase]

/-- In front of any other character, decimal digits are due. -/
theorem unsigned_of_not_marker {c : Cursor} {ch : Char} (hch : ch ∈ c.rest.head?)
    (hbase : baseOfMarker? ch = none) : unsigned c = decimal c := by
  obtain ⟨cs, hrest⟩ := List.head?_eq_some_iff.mp hch
  unfold unsigned
  rw [hrest]
  dsimp only
  rw [hbase]

/-- Digits are missing where the next character is none. -/
theorem digits_eq_error_iff {base : Base} {c : Cursor} {f : Failure} :
    digits base c = .error f ↔
      (∀ ch ∈ c.rest.head?, isDigitOf base ch = false) ∧ f = .onSpot .digitExpected c.pos := by
  unfold digits
  cases hrun : c.eatRun (isDigitOf base) (isDigitOf base) with
  | some next =>
    obtain ⟨ch, hch, hdigit⟩ := Cursor.exists_head_of_eatRun hrun
    simp only [reduceCtorEq, false_iff, not_and]
    intro hnone
    exact absurd (hnone ch hch) (by simp [hdigit])
  | none =>
    dsimp only
    constructor
    · intro h
      cases h
      exact ⟨Cursor.eatRun_eq_none_iff.mp hrun, rfl⟩
    · rintro ⟨-, rfl⟩
      rfl

/-- Without a digit behind the marker of a base, the failure points behind the marker. -/
theorem recognize_eq_error_of_marker {c : Cursor} {ch : Char} {cs : List Char} {base : Base}
    (hrest : c.rest = ch :: cs) (hbase : baseOfMarker? ch = some base)
    (hdigit : ∀ d ∈ cs.head?, isDigitOf base d = false) :
    recognize c = .error (.onSpot .digitExpected (c.pos + ch.utf8Size)) := by
  rw [recognize_of_marker hrest hbase, digits_eq_error_iff.mpr ⟨hdigit, rfl⟩]
  rfl

/-- If a number that begins with the marker of a base fails, there is no digit behind the marker. -/
theorem isDigitOf_eq_false_of_marker {c : Cursor} {ch : Char} {cs : List Char} {base : Base}
    {f : Failure} (hrest : c.rest = ch :: cs) (hbase : baseOfMarker? ch = some base)
    (h : recognize c = .error f) : ∀ d ∈ cs.head?, isDigitOf base d = false := by
  rw [recognize_of_marker hrest hbase] at h
  cases hdigits : digits base ⟨c.pos + ch.utf8Size, cs⟩ with
  | ok next =>
    rw [hdigits] at h
    cases h
  | error g => exact (digits_eq_error_iff.mp hdigits).1

/-! ### Behind the marker of an exponent -/

/-- Decimal digits are read as far as they go. -/
theorem digits_eq_ok_iff {base : Base} {c d : Cursor} :
    digits base c = .ok d ↔
      ∃ ds, ds ≠ [] ∧ (∀ x ∈ ds, isDigitOf base x) ∧ c.Reads ds d ∧
        ∀ x ∈ d.rest.head?, isDigitOf base x = false := by
  have hrun : digits base c = .ok d ↔ c.eatRun (isDigitOf base) (isDigitOf base) = some d := by
    unfold digits
    cases c.eatRun (isDigitOf base) (isDigitOf base) <;> simp
  rw [hrun, Cursor.eatRun_eq_some_iff]
  constructor
  · rintro ⟨ch, cs, hch, hcs, hr, hstop⟩
    exact ⟨ch :: cs, by simp, by simpa using ⟨hch, hcs⟩, hr, hstop⟩
  · rintro ⟨ds, hne, hds, hr, hstop⟩
    obtain ⟨ch, cs, rfl⟩ := List.exists_cons_of_ne_nil hne
    exact ⟨ch, cs, hds ch (by simp), fun x hx => hds x (by simp [hx]), hr, hstop⟩

/-- A point with digits behind it. -/
def IsFraction (s : List Char) : Prop :=
  ∃ ds, s = '.' :: ds ∧ ds ≠ [] ∧ ∀ x ∈ ds, isDigit x

/-- A fraction is read as far as its digits go. -/
theorem fraction_eq_some_iff {c d : Cursor} :
    fraction c = some d ↔
      ∃ s, IsFraction s ∧ c.Reads s d ∧ ∀ x ∈ d.rest.head?, isDigit x = false := by
  unfold fraction
  rw [Option.bind_eq_some_iff]
  constructor
  · rintro ⟨point, hpoint, hdigits⟩
    obtain ⟨ch, hch, hr₁⟩ := Cursor.eat_eq_some_iff.mp hpoint
    obtain ⟨x, xs, hx, hxs, hr₂, hstop⟩ := Cursor.eatRun_eq_some_iff.mp hdigits
    obtain rfl := beq_iff_eq.mp hch
    exact ⟨_, ⟨x :: xs, rfl, by simp, by simpa using ⟨hx, hxs⟩⟩, hr₁.trans hr₂, hstop⟩
  · rintro ⟨s, ⟨ds, rfl, hne, hds⟩, hr, hstop⟩
    obtain ⟨x, xs, rfl⟩ := List.exists_cons_of_ne_nil hne
    obtain ⟨point, hr₁, hr₂⟩ := Cursor.Reads.split (s := ['.']) hr
    refine ⟨point, Cursor.eat_eq_some_iff.mpr ⟨'.', rfl, hr₁⟩, Cursor.eatRun_eq_some_iff.mpr ?_⟩
    exact ⟨x, xs, hds x (by simp), fun y hy => hds y (by simp [hy]), hr₂, hstop⟩

/-- A sign, or nothing in front of what is no sign. -/
def IsOptionalSign (s : List Char) (behind : Cursor) : Prop :=
  (∃ ch, isSign ch ∧ s = [ch]) ∨ s = [] ∧ ∀ ch ∈ behind.rest.head?, isSign ch = false

/-- A sign is read if there is one. -/
theorem eatOptional_isSign_eq_iff {c d : Cursor} :
    c.eatOptional isSign = d ↔ ∃ s, IsOptionalSign s d ∧ c.Reads s d := by
  unfold Cursor.eatOptional
  constructor
  -- The sign is the one that was eaten, or there is none to eat.
  · rintro rfl
    cases heat : c.eat isSign with
    | some e =>
      obtain ⟨ch, hch, hr⟩ := Cursor.eat_eq_some_iff.mp heat
      exact ⟨[ch], .inl ⟨ch, hch, rfl⟩, hr⟩
    | none => exact ⟨[], .inr ⟨rfl, Cursor.eat_eq_none_iff.mp heat⟩, .refl c⟩
  · rintro ⟨s, ⟨ch, hch, rfl⟩ | ⟨rfl, hnone⟩, hr⟩
    · rw [Cursor.eat_eq_some_iff.mpr ⟨ch, hch, hr⟩, Option.getD_some]
    · obtain rfl := hr.unique (.refl c)
      rw [Cursor.eat_eq_none_iff.mpr hnone, Option.getD_none]

/-- Between the two cursors stand digits, possibly a fraction, an exponent marker and possibly a
sign, and no digit follows. As a marker ends the digits in front of it, these are all that could be
read there. -/
def OpenExponent (c e : Cursor) : Prop :=
  ∃ (ds fractional : List Char) (marker : Char) (sign : List Char),
    c.Reads (ds ++ fractional ++ [marker] ++ sign) e ∧
    ds ≠ [] ∧ (∀ x ∈ ds, isDigit x) ∧ (fractional = [] ∨ IsFraction fractional) ∧
    isExponentMarker marker ∧ IsOptionalSign sign e ∧ ∀ x ∈ e.rest.head?, isDigit x = false

/-- An exponent marker is neither a digit nor a point. -/
theorem isDigit_eq_false_of_marker {ch : Char} (h : isExponentMarker ch) : isDigit ch = false := by
  rcases Bool.or_eq_true_iff.mp h with h | h <;> obtain rfl := beq_iff_eq.mp h <;> rfl

/-- The marker of an exponent is not the point of a fraction. -/
theorem ne_point_of_marker {ch : Char} (h : isExponentMarker ch) : ch ≠ '.' := by
  rintro rfl
  cases h

/-- Behind an exponent marker and a sign, digits are due. -/
theorem exponent_eq_error_iff {c : Cursor} {f : Failure} :
    exponent c = .error f ↔
      ∃ marker sign e, isExponentMarker marker ∧ IsOptionalSign sign e ∧
        c.Reads ([marker] ++ sign) e ∧ (∀ x ∈ e.rest.head?, isDigit x = false) ∧
        f = .onSpot .exponentDigitExpected e.pos := by
  unfold exponent
  constructor
  · intro h
    split at h
    next => cases h
    next marked hmarked =>
      obtain ⟨marker, hmarker, hr₁⟩ := Cursor.eat_eq_some_iff.mp hmarked
      obtain ⟨sign, hsign, hr₂⟩ :=
        eatOptional_isSign_eq_iff.mp (rfl : marked.eatOptional isSign = _)
      dsimp only at h
      split at h
      next => cases h
      next hnone =>
        cases h
        exact ⟨marker, sign, _, hmarker, hsign, hr₁.trans hr₂,
          Cursor.eatRun_eq_none_iff.mp hnone, rfl⟩
  -- Read again in the order of the text: the marker, the sign, and no digit.
  · rintro ⟨marker, sign, e, hmarker, hsign, hr, hstop, rfl⟩
    obtain ⟨marked, hr₁, hr₂⟩ := hr.split
    rw [Cursor.eat_eq_some_iff.mpr ⟨marker, hmarker, hr₁⟩]
    dsimp only
    rw [eatOptional_isSign_eq_iff.mpr ⟨sign, hsign, hr₂⟩, Cursor.eatRun_eq_none_iff.mpr hstop]

/-- Behind digits of an exponent nothing is due. -/
theorem exponent_eq_some_iff {c d : Cursor} :
    exponent c = .ok (some d) ↔
      ∃ marker sign signed ds, isExponentMarker marker ∧ IsOptionalSign sign signed ∧
        c.Reads ([marker] ++ sign) signed ∧ ds ≠ [] ∧ (∀ x ∈ ds, isDigit x) ∧
        signed.Reads ds d ∧ ∀ x ∈ d.rest.head?, isDigit x = false := by
  unfold exponent
  constructor
  · intro h
    split at h
    next => cases h
    next marked hmarked =>
      obtain ⟨marker, hmarker, hr₁⟩ := Cursor.eat_eq_some_iff.mp hmarked
      obtain ⟨sign, hsign, hr₂⟩ :=
        eatOptional_isSign_eq_iff.mp (rfl : marked.eatOptional isSign = _)
      dsimp only at h
      split at h
      next next hnext =>
        cases h
        obtain ⟨x, xs, hx, hxs, hr₃, hstop⟩ := Cursor.eatRun_eq_some_iff.mp hnext
        exact ⟨marker, sign, _, x :: xs, hmarker, hsign, hr₁.trans hr₂, by simp,
          by simpa using ⟨hx, hxs⟩, hr₃, hstop⟩
      next => cases h
  -- Read again in the order of the text: the marker, the sign, and the digits.
  · rintro ⟨marker, sign, signed, ds, hmarker, hsign, hr, hne, hds, hdigits, hstop⟩
    obtain ⟨marked, hr₁, hr₂⟩ := hr.split
    obtain ⟨x, xs, rfl⟩ := List.exists_cons_of_ne_nil hne
    have hrun : signed.eatRun isDigit isDigit = some d :=
      Cursor.eatRun_eq_some_iff.mpr
        ⟨x, xs, hds x (by simp), fun y hy => hds y (by simp [hy]), hdigits, hstop⟩
    rw [Cursor.eat_eq_some_iff.mpr ⟨marker, hmarker, hr₁⟩]
    dsimp only
    rw [eatOptional_isSign_eq_iff.mpr ⟨sign, hsign, hr₂⟩, hrun]

/-- Without a marker there is no exponent. -/
theorem exponent_eq_none_iff {c : Cursor} :
    exponent c = .ok none ↔ ∀ ch ∈ c.rest.head?, isExponentMarker ch = false := by
  unfold exponent
  rw [← Cursor.eat_eq_none_iff]
  cases c.eat isExponentMarker with
  | none => simp
  | some marked =>
    dsimp only
    split <;> simp

/-! ### Decimal numbers -/

/-- A decimal number ends with its exponent, or else with its fraction if it has one. -/
theorem decimal_eq_ok_iff {c : Cursor} {m : Match} :
    decimal c = .ok m ↔ ∃ whole, digits .decimal c = .ok whole ∧
      ((∃ next, exponent ((fraction whole).getD whole) = .ok (some next) ∧
          m = ⟨.real, [], next⟩) ∨
        exponent ((fraction whole).getD whole) = .ok none ∧
          m = ⟨if (fraction whole).isSome then .real else .integer .decimal, [],
            (fraction whole).getD whole⟩) := by
  constructor
  · intro h
    unfold decimal at h
    split at h
    next => cases h
    next whole hwhole =>
      refine ⟨whole, hwhole, ?_⟩
      -- The exponent is looked for behind the fraction, or behind the digits if there is none.
      dsimp only at h
      split at h
      next => cases h
      next next hnext =>
        cases h
        exact .inl ⟨next, hnext, rfl⟩
      next hnone =>
        refine .inr ⟨hnone, ?_⟩
        split at h
        next next hfraction =>
          cases h
          rw [hfraction]
          rfl
        next hfraction =>
          cases h
          rw [hfraction]
          rfl
  · intro ⟨whole, hwhole, hstop⟩
    unfold decimal
    rw [hwhole]
    dsimp only
    rcases hstop with ⟨next, hexponent, rfl⟩ | ⟨hexponent, rfl⟩
    · rw [hexponent]
    · rw [hexponent]
      cases fraction whole <;> rfl

/-- There is no fraction without a point. -/
theorem fraction_eq_none_of_ne_point {c : Cursor} (h : ∀ ch ∈ c.rest.head?, ch ≠ '.') :
    fraction c = none := by
  have hpoint : c.eat (· == '.') = none :=
    Cursor.eat_eq_none_iff.mpr fun ch hch => beq_eq_false_iff_ne.mpr (h ch hch)
  rw [fraction, hpoint, Option.bind_none]

/-- Digits, and the fraction behind them, are read up to where no digit goes on with them. -/
theorem digits_of_reads {c whole front : Cursor} {ds s : List Char}
    (hne : ds ≠ []) (hds : ∀ x ∈ ds, isDigit x) (hs : s = [] ∧ fraction front = none ∨ IsFraction s)
    (hwhole : c.Reads ds whole) (hfront : whole.Reads s front)
    (hstop : ∀ x ∈ front.rest.head?, isDigit x = false) :
    digits .decimal c = .ok whole ∧ (fraction whole).getD whole = front ∧
      (fraction whole).isSome = !s.isEmpty := by
  rcases hs with ⟨rfl, hnone⟩ | hs
  · obtain rfl := hfront.unique (.refl whole)
    refine ⟨digits_eq_ok_iff.mpr ⟨ds, hne, hds, hwhole, hstop⟩, ?_⟩
    rw [hnone]
    exact ⟨rfl, rfl⟩
  -- The fraction begins with its point, which ends the digits in front.
  · obtain ⟨xs, hpoint, -, -⟩ := id hs
    have hhead : ∀ x ∈ whole.rest.head?, isDigit x = false := by
      rw [hfront.1, hpoint]
      intro x hx
      obtain rfl := Option.mem_some_iff.mp hx
      rfl
    refine ⟨digits_eq_ok_iff.mpr ⟨ds, hne, hds, hwhole, hhead⟩, ?_⟩
    rw [fraction_eq_some_iff.mpr ⟨s, hs, hfront, hstop⟩, hpoint]
    exact ⟨rfl, rfl⟩

/-- What begins with digits is a number unless its exponent has none. -/
theorem decimal_eq_error_iff_openExponent {c : Cursor} {f : Failure}
    (hdigit : ∃ ch ∈ c.rest.head?, isDigit ch) :
    decimal c = .error f ↔ ∃ e, OpenExponent c e ∧ f = .onSpot .exponentDigitExpected e.pos := by
  constructor
  · intro h
    unfold decimal at h
    split at h
    next g hdigits =>
      -- There is a digit at the front.
      obtain ⟨ch, hch, hyes⟩ := hdigit
      have hno : isDigit ch = false := (digits_eq_error_iff.mp hdigits).1 ch hch
      rw [hno] at hyes
      cases hyes
    next whole hwhole =>
      obtain ⟨ds, hne, hds, hr, -⟩ := digits_eq_ok_iff.mp hwhole
      dsimp only at h
      split at h
      next g hexponent =>
        cases h
        obtain ⟨marker, sign, e, hmarker, hsign, hr', hstop, rfl⟩ :=
          exponent_eq_error_iff.mp hexponent
        cases hfraction : fraction whole with
        | none =>
          rw [hfraction, Option.getD_none] at hr'
          refine ⟨e, ⟨ds, [], marker, sign, ?_, hne, hds, .inl rfl, hmarker, hsign, hstop⟩, rfl⟩
          simpa using hr.trans hr'
        | some next =>
          rw [hfraction, Option.getD_some] at hr'
          obtain ⟨s, hs, hrs, -⟩ := fraction_eq_some_iff.mp hfraction
          refine ⟨e, ⟨ds, s, marker, sign, ?_, hne, hds, .inr hs, hmarker, hsign, hstop⟩, rfl⟩
          simpa using (hr.trans hrs).trans hr'
      next => cases h
      next => split at h <;> cases h
  · rintro ⟨e, ⟨ds, s, marker, sign, hr, hne, hds, hs, hmarker, hsign, hstop⟩, rfl⟩
    obtain ⟨marked, hr, hrSign⟩ := hr.split
    obtain ⟨front, hr, hrMarker⟩ := hr.split
    obtain ⟨whole, hrWhole, hrFraction⟩ := hr.split
    have hfront : front.rest.head? = some marker := by rw [hrMarker.1]; rfl
    have hexponent : exponent front = .error (.onSpot .exponentDigitExpected e.pos) :=
      exponent_eq_error_iff.mpr
        ⟨marker, sign, e, hmarker, hsign, hrMarker.trans hrSign, hstop, rfl⟩
    have hmarkerDigit : ∀ x ∈ front.rest.head?, isDigit x = false := by
      rw [hfront]
      intro x hx
      obtain rfl := Option.mem_some_iff.mp hx
      exact isDigit_eq_false_of_marker hmarker
    have hnone : fraction front = none := by
      refine fraction_eq_none_of_ne_point ?_
      rw [hfront]
      intro x hx
      obtain rfl := Option.mem_some_iff.mp hx
      exact ne_point_of_marker hmarker
    -- The digits end in front of the fraction, and the fraction in front of the marker.
    obtain ⟨hdigits, hgetD, -⟩ :=
      digits_of_reads hne hds (hs.imp (⟨·, hnone⟩) id) hrWhole hrFraction hmarkerDigit
    unfold decimal
    rw [hdigits]
    dsimp only
    rw [hgetD, hexponent]

/-- What begins with a digit is a number unless its exponent has none. -/
theorem recognize_eq_error_iff_openExponent {c : Cursor} {f : Failure}
    (hdigit : ∃ ch ∈ c.rest.head?, isDigit ch) :
    recognize c = .error f ↔ ∃ e, OpenExponent c e ∧ f = .onSpot .exponentDigitExpected e.pos := by
  rw [← decimal_eq_error_iff_openExponent hdigit]
  obtain ⟨ch, hch, hyes⟩ := hdigit
  obtain ⟨cs, hrest⟩ := List.head?_eq_some_iff.mp hch
  rw [recognize_of_not_sign (by simp [hrest, isSign_eq_false_of_isDigit hyes]),
    unsigned_of_not_marker hch (baseOfMarker?_eq_none_of_isDigit hyes)]

end PascalScan.Number
