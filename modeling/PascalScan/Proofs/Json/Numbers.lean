import PascalScan.Json.Number
import PascalScan.Proofs.Lexical.Numeral

/-!
# `PascalScan.Proofs.Json.Numbers`: the numbers of JSON

The numbers of JSON are almost the decimal numbers of the language, and have their digits, signs and
exponent markers from `PascalScan.Proofs.Lexical.Numeral`. Two things are different: in front of a
number only a minus may stand, and of several digits in front of the point the first is no zero.

A reader of numbers takes what it can get, so `Number.skip_append` asks what comes behind the
number. `EndsValue` says it for every kind of value: the end of the text, a blank, a comma or a
closing bracket.
-/

set_option autoImplicit false

namespace PascalScan.Json

open Text

/-! ### The language -/

/-- The characters that may stand right behind a value. -/
def valueEnds : List Char := [' ', '\t', '\n', '\r', ',', ']', '}']

/-- A value may end in front of the text. -/
def EndsValue (rest : List Char) : Prop := ∀ c ∈ rest.head?, c ∈ valueEnds

/-- It is the first character that decides whether a value may end. -/
theorem endsValue_cons {c : Char} (h : c ∈ valueEnds) (cs : List Char) : EndsValue (c :: cs) := by
  intro d hd
  obtain rfl := Option.mem_some_iff.mp hd
  exact h

/-- The digits in front of the point. -/
structure IsWhole (ds : List Char) : Prop where
  digits : Number.Digits .decimal ds
  /-- A zero has no digit behind it. -/
  zero : ds.head? = some '0' → ds = ['0']

/-- Nothing, or a point and the digits behind it. -/
inductive IsFraction : List Char → Prop where
  | absent : IsFraction []
  | present {ds : List Char} (hds : Number.Digits .decimal ds) : IsFraction ('.' :: ds)

/-- Nothing, or a marker and the digits of the exponent, which may have a sign. -/
inductive IsExponent : List Char → Prop where
  | absent : IsExponent []
  | present {mark : Char} {sign ds : List Char} (hmark : mark ∈ Number.exponentMarkers)
      (hsign : sign ∈ Number.signs) (hds : Number.Digits .decimal ds) :
      IsExponent (mark :: (sign ++ ds))

/-- A number without its sign. -/
inductive IsMagnitude : List Char → Prop where
  | mk {whole fraction exponent : List Char} (hwhole : IsWhole whole)
      (hfraction : IsFraction fraction) (hexponent : IsExponent exponent) :
      IsMagnitude (whole ++ (fraction ++ exponent))

/-- The text is a number. -/
inductive IsNumber : List Char → Prop where
  | positive {s : List Char} (hs : IsMagnitude s) : IsNumber s
  | negative {s : List Char} (hs : IsMagnitude s) : IsNumber ('-' :: s)

/-- A number without its sign begins with a digit. -/
theorem IsMagnitude.exists_digit {s : List Char} (h : IsMagnitude s) :
    ∃ c cs, s = c :: cs ∧ isDigit c := by
  obtain ⟨hwhole, hfraction, hexponent⟩ := h
  rename_i whole fraction exponent
  obtain ⟨c, cs, rfl, hc⟩ := hwhole.digits.exists_cons
  exact ⟨c, cs ++ (fraction ++ exponent), rfl, hc⟩

/-! ### What comes behind the parts -/

/-- Behind the fraction comes an exponent or the end of the value. -/
theorem IsExponent.head_append {s rest : List Char} (h : IsExponent s) (hrest : EndsValue rest) :
    ∀ c ∈ (s ++ rest).head?, c ∈ Number.exponentMarkers ++ valueEnds := by
  intro c hc
  cases h with
  | absent => exact List.mem_append_right _ (hrest c hc)
  | present hmark _ _ =>
    obtain rfl := Option.mem_some_iff.mp hc
    exact List.mem_append_left _ hmark

/-- Behind the digits in front of the point comes that point, an exponent or the end. -/
theorem IsFraction.head_append {s more : List Char} (h : IsFraction s)
    (hmore : ∀ c ∈ more.head?, c ∈ Number.exponentMarkers ++ valueEnds) :
    ∀ c ∈ (s ++ more).head?, c ∈ '.' :: (Number.exponentMarkers ++ valueEnds) := by
  intro c hc
  cases h with
  | absent => exact List.mem_cons_of_mem _ (hmore c hc)
  | present =>
    obtain rfl := Option.mem_some_iff.mp hc
    exact List.mem_cons_self

/-- Nothing that may come behind digits is a digit. -/
theorem isDigit_eq_false_of_mem {c : Char}
    (h : c ∈ '.' :: (Number.exponentMarkers ++ valueEnds)) : isDigit c = false := by
  have hcheck : ('.' :: (Number.exponentMarkers ++ valueEnds)).all (fun c => !isDigit c) := by
    decide
  simpa using List.all_eq_true.mp hcheck c h

/-- No value is followed by the mark of an exponent. -/
theorem isExponentMark_eq_false_of_mem {c : Char} (h : c ∈ valueEnds) :
    Number.isExponentMark c = false := by
  have hcheck : valueEnds.all (fun c => !Number.isExponentMark c) := by decide
  simpa using List.all_eq_true.mp hcheck c h

/-! ### Passing over a number -/

namespace Number

open PascalScan.Number (Digits exponentMarkers signs)

/-- Digits are passed over up to the first character that is none. -/
theorem skipDigits_append {ds rest : List Char} (h : Digits .decimal ds)
    (hrest : ∀ c ∈ rest.head?, isDigit c = false) : skipDigits (ds ++ rest) = .ok rest := by
  obtain ⟨d, ds, rfl, hd⟩ := h.exists_cons
  have hd : isDigit d := hd
  have hds : ∀ x ∈ ds, isDigit x := fun x hx => h.forall_isDigitOf x (List.mem_cons_of_mem d hx)
  rw [List.cons_append, skipDigits, if_pos hd, Cursor.dropWhile_append_of_stop hds hrest]

/-- A sign is passed over, and where there is none, digits are left as they are. -/
theorem dropSign_append {sign ds : List Char} (hsign : sign ∈ signs) (hds : Digits .decimal ds)
    (rest : List Char) : dropSign (sign ++ (ds ++ rest)) = ds ++ rest := by
  obtain ⟨d, ds, rfl, hd⟩ := hds.exists_cons
  simp only [signs, List.mem_cons, List.not_mem_nil, or_false] at hsign
  rcases hsign with rfl | rfl | rfl
  · have hno : isSign d = false := PascalScan.Number.isSign_eq_false_of_isDigit hd
    simp [dropSign, hno]
  · rfl
  · rfl

/-- An exponent is passed over, and nothing is where there is none. -/
theorem skipExponent_append {s rest : List Char} (h : IsExponent s) (hrest : EndsValue rest) :
    skipExponent (s ++ rest) = .ok rest := by
  cases h with
  | absent =>
    rw [List.nil_append]
    cases rest with
    | nil => rfl
    | cons c rest =>
      have hno : isExponentMark c = false := isExponentMark_eq_false_of_mem (hrest c (by simp))
      rw [skipExponent, if_neg (by simp [hno])]
  | @present mark sign ds hmark hsign hds =>
    have hmark : isExponentMark mark := PascalScan.Number.isExponentMarker_iff_mem.mpr hmark
    have hdigits : ∀ c ∈ rest.head?, isDigit c = false := by
      intro c hc
      exact isDigit_eq_false_of_mem
        (List.mem_cons_of_mem _ (List.mem_append_right _ (hrest c hc)))
    rw [List.cons_append, List.append_assoc, skipExponent, if_pos hmark,
      dropSign_append hsign hds, skipDigits_append hds hdigits]

/-- A fraction is passed over together with the exponent behind it. -/
theorem skipFraction_append {fraction exponent rest : List Char} (hfraction : IsFraction fraction)
    (hexponent : IsExponent exponent) (hrest : EndsValue rest) :
    skipFraction (fraction ++ (exponent ++ rest)) = .ok rest := by
  have hhead := hexponent.head_append hrest
  cases hfraction with
  | absent =>
    -- The first character is no point, so the exponent is next.
    have hpoint : ∀ cs, exponent ++ rest ≠ '.' :: cs := by
      intro cs hcs
      rw [hcs] at hhead
      exact absurd (hhead '.' rfl) (by decide)
    rw [List.nil_append, skipFraction]
    · exact skipExponent_append hexponent hrest
    · exact hpoint
  | present hds =>
    have hdigits : ∀ c ∈ (exponent ++ rest).head?, isDigit c = false := by
      intro c hc
      exact isDigit_eq_false_of_mem (List.mem_cons_of_mem _ (hhead c hc))
    rw [List.cons_append, skipFraction, skipDigits_append hds hdigits]
    exact skipExponent_append hexponent hrest

/-- A zero with a digit behind it begins no number of JSON. -/
theorem leadingZero_append {whole more : List Char} (h : IsWhole whole)
    (hmore : ∀ c ∈ more.head?, isDigit c = false) : leadingZero (whole ++ more) = false := by
  obtain ⟨d, ds, rfl, -⟩ := h.digits.exists_cons
  by_cases hzero : d = '0'
  · subst hzero
    obtain rfl : ds = [] := by simpa using h.zero rfl
    cases more with
    | nil => rfl
    | cons c more => exact hmore c rfl
  · rw [List.cons_append, leadingZero]
    intro c cs hcs
    exact hzero (List.cons.inj hcs).1

/-- A number without its sign is passed over. -/
theorem skip_append {s rest : List Char} (h : IsMagnitude s) (hrest : EndsValue rest) :
    skip (s ++ rest) = .ok rest := by
  obtain ⟨hwhole, hfraction, hexponent⟩ := h
  rename_i whole fraction exponent
  have hdigits : ∀ c ∈ (fraction ++ (exponent ++ rest)).head?, isDigit c = false := by
    intro c hc
    exact isDigit_eq_false_of_mem
      (hfraction.head_append (hexponent.head_append hrest) c hc)
  rw [List.append_assoc, List.append_assoc, skip,
    if_neg (by simp [leadingZero_append hwhole hdigits]), skipDigits_append hwhole.digits hdigits]
  exact skipFraction_append hfraction hexponent hrest

end Number

end PascalScan.Json
