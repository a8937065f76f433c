import PascalScan.Proofs.Lexical.MissingDigits
import PascalScan.Proofs.Text.Ascii

/-!
# `PascalScan.Proofs.Lexical.Numeral`: the grammar of numbers

The readers of a number each take what they can get. Here the numbers are given as a language
instead, character by character and without the character classes of the readers. `Number.Numeral`
says what may be written, and `Number.Form` which way of writing it is.

Two things are proved of the language alone. A number begins with a sign, a digit or the marker of a
base (`Unsigned.isSign_head`, `Unsigned.exists_digit`). And a number goes on with a digit, and digits
go on with a fraction (`Unsigned.snoc`, `Unsigned.append_fraction`); that a number without an
exponent goes on with one is in the grammar.
-/

set_option autoImplicit false

namespace PascalScan.Number

open Text

/-! ### The grammar -/

/-- The digits of each base. -/
def alphabet : Base → List Char
  | .decimal => ['0', '1', '2', '3', '4', '5', '6', '7', '8', '9']
  | .hex =>
    ['0', '1', '2', '3', '4', '5', '6', '7', '8', '9', 'a', 'b', 'c', 'd', 'e', 'f',
      'A', 'B', 'C', 'D', 'E', 'F']
  | .octal => ['0', '1', '2', '3', '4', '5', '6', '7']
  | .binary => ['0', '1']

/-- The markers in front of the digits of a base. -/
def markers : List (Char × Base) := [('$', .hex), ('&', .octal), ('%', .binary)]

/-- The characters that introduce an exponent. -/
def exponentMarkers : List Char := ['e', 'E']

/-- What may stand in front of a number or of the digits of an exponent. -/
def signs : List (List Char) := [[], ['+'], ['-']]

/-- At least one digit of the base, and nothing else. -/
def Digits (base : Base) (s : List Char) : Prop := s ≠ [] ∧ s ⊆ alphabet base

/-- The ways to write a number. -/
inductive Form where
  /-- A marker and the digits of its base. -/
  | marked (base : Base)
  /-- Decimal digits. -/
  | whole
  /-- Decimal digits with a fraction. -/
  | fractional
  /-- One of the last two with an exponent. -/
  | exponential
  deriving DecidableEq

/-- A decimal number without an exponent. -/
def Form.IsPlain (form : Form) : Prop := form = .whole ∨ form = .fractional

/-- The kind of token that a form is. -/
def Form.kind : Form → Kind
  | marked base => .integer base
  | whole => .integer .decimal
  | fractional => .real
  | exponential => .real

/-- The base of the last digits. -/
def Form.lastBase : Form → Base
  | marked base => base
  | _ => .decimal

/-- The texts of a form, without a sign. -/
inductive Unsigned : Form → List Char → Prop where
  | marked {marker : Char} {base : Base} {ds : List Char} (hmarker : (marker, base) ∈ markers)
      (hds : Digits base ds) : Unsigned (.marked base) (marker :: ds)
  | whole {ds : List Char} (hds : Digits .decimal ds) : Unsigned .whole ds
  | fractional {ds fs : List Char} (hds : Digits .decimal ds) (hfs : Digits .decimal fs) :
      Unsigned .fractional (ds ++ '.' :: fs)
  | exponential {form : Form} {s : List Char} {marker : Char} {sign es : List Char}
      (hs : Unsigned form s) (hplain : form.IsPlain) (hmarker : marker ∈ exponentMarkers)
      (hsign : sign ∈ signs) (hes : Digits .decimal es) :
      Unsigned .exponential (s ++ ([marker] ++ sign ++ es))

/-- The texts of a form. -/
def Numeral (form : Form) (s : List Char) : Prop :=
  ∃ sign ∈ signs, ∃ body, s = sign ++ body ∧ Unsigned form body

/-- The texts that are numbers without a sign. -/
def IsUnsigned (s : List Char) : Prop := ∃ form, Unsigned form s

/-- The texts that are numbers. -/
def IsNumeral (s : List Char) : Prop := ∃ form, Numeral form s

/-! ### The grammar and the character classes -/

/-- The digits of a base are the characters that are told to be. -/
theorem isDigitOf_iff_mem_alphabet {base : Base} {ch : Char} :
    isDigitOf base ch ↔ ch ∈ alphabet base := by
  constructor
  · intro h
    -- All digits are ASCII characters, so there are 128 characters to check.
    have hascii : IsAscii ch := by
      cases base with
      | decimal => exact isAscii_of_isDigit h
      | hex => exact isAscii_of_isHexDigit h
      | octal => exact isAscii_of_isOctalDigit h
      | binary =>
        rcases Bool.or_eq_true_iff.mp h with h | h <;> obtain rfl := beq_iff_eq.mp h <;> decide
    have hcheck := forall_ascii
      (P := fun ch => ∀ base ∈ [Base.decimal, .hex, .octal, .binary],
        isDigitOf base ch → ch ∈ alphabet base) (by decide +kernel)
    exact hcheck ch hascii base (by cases base <;> decide) h
  · intro h
    have hcheck : (alphabet base).all (isDigitOf base) = true := by cases base <;> decide
    exact List.all_eq_true.mp hcheck ch h

/-- The markers of an exponent are spelled out. -/
theorem isExponentMarker_iff_mem {ch : Char} :
    isExponentMarker ch ↔ ch ∈ exponentMarkers := by
  simp [isExponentMarker, exponentMarkers]

/-- So are the signs. -/
theorem isSign_iff {ch : Char} : isSign ch ↔ [ch] ∈ signs := by
  simp [isSign, signs]

/-- The markers of the grammar are those that the class knows. -/
theorem baseOfMarker?_eq_some_iff {ch : Char} {base : Base} :
    baseOfMarker? ch = some base ↔ (ch, base) ∈ markers := by
  constructor
  · intro h
    unfold baseOfMarker? at h
    split at h <;> first | (cases h; decide) | cases h
  · intro h
    have hcheck : ∀ m ∈ markers, baseOfMarker? m.1 = some m.2 := by decide
    exact hcheck (ch, base) h

/-- The class reads each of the digits. -/
theorem Digits.forall_isDigitOf {base : Base} {s : List Char} (h : Digits base s) :
    ∀ x ∈ s, isDigitOf base x := fun _ hx => isDigitOf_iff_mem_alphabet.mpr (h.2 hx)

/-- What the class reads as digits are digits. -/
theorem digits_of_forall {base : Base} {s : List Char} (hne : s ≠ [])
    (h : ∀ x ∈ s, isDigitOf base x) : Digits base s :=
  ⟨hne, fun x hx => isDigitOf_iff_mem_alphabet.mp (h x hx)⟩

/-- A fraction of the grammar is a point with digits. -/
theorem Digits.isFraction {fs : List Char} (h : Digits .decimal fs) : IsFraction ('.' :: fs) :=
  ⟨fs, rfl, h.1, h.forall_isDigitOf⟩

/-- What was read of a sign is a sign of the grammar. -/
theorem IsOptionalSign.mem_signs {s : List Char} {behind : Cursor} (h : IsOptionalSign s behind) :
    s ∈ signs := by
  rcases h with ⟨ch, hch, rfl⟩ | ⟨rfl, -⟩
  · exact isSign_iff.mp hch
  · simp [signs]

/-- A sign of the grammar is read where no second one follows. -/
theorem isOptionalSign_of_mem_signs {s : List Char} {behind : Cursor} (hs : s ∈ signs)
    (hbehind : ∀ ch ∈ behind.rest.head?, isSign ch = false) : IsOptionalSign s behind := by
  simp only [signs, List.mem_cons, List.not_mem_nil, or_false] at hs
  rcases hs with rfl | rfl | rfl
  · exact .inr ⟨rfl, hbehind⟩
  · exact .inl ⟨'+', rfl, rfl⟩
  · exact .inl ⟨'-', rfl, rfl⟩

/-! ### How numbers begin -/

/-- There is at least one digit. -/
theorem Digits.exists_cons {base : Base} {s : List Char} (h : Digits base s) :
    ∃ ch cs, s = ch :: cs ∧ isDigitOf base ch := by
  obtain ⟨ch, cs, rfl⟩ := List.exists_cons_of_ne_nil h.1
  exact ⟨ch, cs, rfl, h.forall_isDigitOf ch (by simp)⟩

/-- A number without an exponent is digits, then nothing or a fraction. -/
theorem Unsigned.split {form : Form} {s : List Char} (h : Unsigned form s) (hplain : form.IsPlain) :
    ∃ ds fs, s = ds ++ fs ∧ Digits .decimal ds ∧
      (form = .whole ∧ fs = [] ∨ form = .fractional ∧ IsFraction fs) := by
  cases h with
  | marked => rcases hplain with hplain | hplain <;> cases hplain
  | whole hds => exact ⟨_, [], by simp, hds, .inl ⟨rfl, rfl⟩⟩
  | fractional hds hfs => exact ⟨_, _, rfl, hds, .inr ⟨rfl, hfs.isFraction⟩⟩
  | exponential => rcases hplain with hplain | hplain <;> cases hplain

/-- A decimal number begins with a digit. -/
theorem Unsigned.exists_digit {form : Form} {s : List Char} (h : Unsigned form s)
    (hplain : form.IsPlain) : ∃ ch cs, s = ch :: cs ∧ isDigit ch := by
  obtain ⟨ds, fs, rfl, hds, -⟩ := h.split hplain
  obtain ⟨ch, cs, rfl, hch⟩ := hds.exists_cons
  exact ⟨ch, cs ++ fs, rfl, hch⟩

/-- A number without a sign does not begin with one. -/
theorem Unsigned.isSign_head {form : Form} {s : List Char} (h : Unsigned form s) :
    ∃ ch cs, s = ch :: cs ∧ isSign ch = false := by
  have hplain {form : Form} {s : List Char} (h : Unsigned form s) (hplain : form.IsPlain) :
      ∃ ch cs, s = ch :: cs ∧ isSign ch = false := by
    obtain ⟨ch, cs, rfl, hch⟩ := h.exists_digit hplain
    exact ⟨ch, cs, rfl, isSign_eq_false_of_isDigit hch⟩
  -- Only a number with a marker begins with something other than a digit.
  cases h with
  | marked hmarker _ =>
    exact ⟨_, _, rfl, isSign_eq_false_of_marker (baseOfMarker?_eq_some_iff.mpr hmarker)⟩
  | whole hds => exact hplain (.whole hds) (.inl rfl)
  | fractional hds hfs => exact hplain (.fractional hds hfs) (.inr rfl)
  | exponential hs hform _ _ _ =>
    obtain ⟨ch, cs, rfl, hch⟩ := hplain hs hform
    exact ⟨ch, _, rfl, hch⟩

/-! ### How numbers go on -/

/-- One more digit may follow. -/
theorem Digits.snoc {base : Base} {s : List Char} {x : Char} (h : Digits base s)
    (hx : isDigitOf base x) : Digits base (s ++ [x]) := by
  refine digits_of_forall (by simp) fun y hy => ?_
  rcases List.mem_append.mp hy with hy | hy
  · exact h.forall_isDigitOf y hy
  · obtain rfl := List.mem_singleton.mp hy
    exact hx

/-- A number goes on with a digit of its last base. -/
theorem Unsigned.snoc {form : Form} {s : List Char} {x : Char} (h : Unsigned form s)
    (hx : isDigitOf form.lastBase x) : Unsigned form (s ++ [x]) := by
  cases h with
  | marked hmarker hds => exact .marked hmarker (hds.snoc hx)
  | whole hds => exact .whole (hds.snoc hx)
  | fractional hds hfs =>
    rw [List.append_assoc]
    exact .fractional hds (hfs.snoc hx)
  | exponential hs hplain hmarker hsign hes =>
    rw [List.append_assoc, List.append_assoc]
    exact .exponential hs hplain hmarker hsign (hes.snoc hx)

/-- Digits go on with a fraction. -/
theorem Unsigned.append_fraction {s t : List Char} (h : Unsigned .whole s) (ht : IsFraction t) :
    Unsigned .fractional (s ++ t) := by
  obtain ⟨fs, rfl, hne, hfs⟩ := ht
  cases h with
  | whole hds => exact .fractional hds (digits_of_forall hne hfs)

end PascalScan.Number
