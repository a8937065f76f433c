import PascalScan.Json.Basic

/-!
# `PascalScan.Json.Number`: JSON numbers

No setting is a number, so numbers are only passed over (`skip`) or found in the wrong place
(`flawOf`). The two differ in what they ask of a number. Passing over one, the text has to have
the form of a number, and a text that ends too early has not. A number in the wrong place is read
to its end before it is rejected for its type: a text that stops short inside it is unfinished,
and one whose number is too large for a double-precision value is malformed.

A number's size is judged from its first digits that fit in 64 bits and a power of ten, each
rounded to a double and then multiplied.
-/

set_option autoImplicit false

namespace PascalScan.Json.Number

open Text

/-! ### Passing over a number -/

/-- The character starts an exponent. -/
def isExponentMark (c : Char) : Bool := c == 'e' || c == 'E'

/-- Passes over at least one digit. -/
def skipDigits : List Char → Except Flaw (List Char)
  | [] => .error .malformed
  | c :: cs => if isDigit c then .ok (cs.dropWhile isDigit) else .error .malformed

/-- Passes over a sign, if there is one. -/
def dropSign : List Char → List Char
  | [] => []
  | c :: cs => if isSign c then cs else c :: cs

/-- Passes over an exponent, if there is one. -/
def skipExponent : List Char → Except Flaw (List Char)
  | [] => .ok []
  | c :: cs => if isExponentMark c then skipDigits (dropSign cs) else .ok (c :: cs)

/-- Passes over a fraction, if there is one, and an exponent. -/
def skipFraction : List Char → Except Flaw (List Char)
  | '.' :: cs =>
    match skipDigits cs with
    | .ok rest => skipExponent rest
    | .error flaw => .error flaw
  | cs => skipExponent cs

/-- A digit that nothing but a point, an exponent or the end may follow. -/
def leadingZero : List Char → Bool
  | '0' :: c :: _ => isDigit c
  | _ => false

/-- Passes over a number without its sign. -/
def skip (cs : List Char) : Except Flaw (List Char) :=
  if leadingZero cs then .error .malformed
  else
    match skipDigits cs with
    | .ok rest => skipFraction rest
    | .error flaw => .error flaw

/-! ### Progress -/

/-- A run of digits has at least one. -/
theorem length_lt_of_skipDigits {cs rest : List Char} (h : skipDigits cs = .ok rest) :
    rest.length < cs.length := by
  unfold skipDigits at h
  split at h
  next => cases h
  next c cs =>
    split at h
    · cases h
      exact Nat.lt_succ_of_le (List.dropWhile_suffix isDigit).length_le
    · cases h

/-- A sign may be missing. -/
theorem length_dropSign_le (cs : List Char) : (dropSign cs).length ≤ cs.length := by
  unfold dropSign
  split
  · simp
  · split <;> simp

/-- So may an exponent. -/
theorem length_le_of_skipExponent {cs rest : List Char} (h : skipExponent cs = .ok rest) :
    rest.length ≤ cs.length := by
  unfold skipExponent at h
  split at h
  next => cases h; simp
  next c cs =>
    split at h
    · have := length_lt_of_skipDigits h
      have := length_dropSign_le cs
      simp only [List.length_cons]
      omega
    · cases h; simp

/-- A fraction, with the exponent behind it, may be missing as well. -/
theorem length_le_of_skipFraction {cs rest : List Char} (h : skipFraction cs = .ok rest) :
    rest.length ≤ cs.length := by
  unfold skipFraction at h
  split at h
  next cs =>
    split at h
    next rest' hrest =>
      have := length_lt_of_skipDigits hrest
      have := length_le_of_skipExponent h
      simp only [List.length_cons]
      omega
    next => cases h
  next => exact length_le_of_skipExponent h

/-- But a number has at least one digit, so passing over it leaves less to read. -/
theorem length_lt_of_skip {cs rest : List Char} (h : skip cs = .ok rest) :
    rest.length < cs.length := by
  unfold skip at h
  split at h
  next => cases h
  next =>
    split at h
    next rest' hrest =>
      have := length_lt_of_skipDigits hrest
      have := length_le_of_skipFraction h
      omega
    next => cases h

/-! ### The size of a number -/

/-- A decimal number, `significand` times ten to the power `exponent`. -/
structure Decimal where
  significand : Nat
  exponent : Int
  deriving Repr, DecidableEq

/-- The value of a decimal digit. -/
def digitValue (c : Char) : Nat := c.toNat - '0'.toNat

/-- The largest significand that is kept. -/
def maxSignificand : Nat := Nat.pow 2 64 - 1

/-- Takes leading digits into a significand as long as it stays in range, and answers with it and
the digits that are left. -/
def accumulate (significand : Nat) : List Char → Nat × List Char
  | [] => (significand, [])
  | d :: ds =>
    let larger := significand * 10 + digitValue d
    if larger ≤ maxSignificand then accumulate larger ds else (significand, d :: ds)

/-- The number written with the given digits before the point. Each digit that does not fit into
the significand counts as a factor ten. -/
def Decimal.ofWhole (digits : List Char) : Decimal :=
  let (significand, left) := accumulate 0 digits
  ⟨significand, left.length⟩

/-- The number with the given digits after its point. Digits that do not fit are dropped. -/
def Decimal.withFraction (d : Decimal) (digits : List Char) : Decimal :=
  let (significand, left) := accumulate d.significand digits
  ⟨significand, d.exponent - (digits.length - left.length : Nat)⟩

/-- The largest exponent that is kept. A larger one means the same for any number whose digits
are not as many themselves. -/
def maxExponent : Nat := Nat.pow 2 31 - 1

/-- The exponent written with the given digits, or the largest one if it is larger. -/
def exponentValue (digits : List Char) : Nat :=
  digits.foldl (fun n c => min (n * 10 + digitValue c) maxExponent) 0

/-- The double-precision value nearest to `n`, an even last bit deciding between two. -/
def roundToDouble (n : Nat) : Nat :=
  if n < Nat.pow 2 53 then n
  else
    let unit := Nat.pow 2 (n.log2 - 52)
    let quotient := n / unit
    let remainder := n % unit
    let up := unit < 2 * remainder || (2 * remainder == unit && quotient % 2 == 1)
    (if up then quotient + 1 else quotient) * unit

/-- The least number that rounds to no finite double-precision value. -/
def overflowBound : Nat := Nat.pow 2 1024 - Nat.pow 2 970

/-- The number is too large for a double-precision value. -/
def Decimal.overflows (d : Decimal) : Bool :=
  d.significand != 0 && 0 ≤ d.exponent &&
    (308 < d.exponent ||
      overflowBound ≤ roundToDouble d.significand * roundToDouble (Nat.pow 10 d.exponent.toNat))

/-! ### A number in the wrong place -/

/-- The flaw of a complete number: its type, or its size. -/
def flawOfDecimal (d : Decimal) : Flaw := if d.overflows then .malformed else .mistyped

/-- The flaw of a text that cannot go on with `cs` where a digit is due. -/
def flawOfMissingDigit (cs : List Char) : Flaw := if cs.isEmpty then .unfinished else .malformed

/-- The flaw of a number that goes on with `cs`, an exponent or what follows the number. -/
def flawOfExponent (d : Decimal) : List Char → Flaw
  | [] => flawOfDecimal d
  | c :: cs =>
    if isExponentMark c then
      let digits := (dropSign cs).takeWhile isDigit
      if digits.isEmpty then flawOfMissingDigit (dropSign cs)
      else
        let value := exponentValue digits
        flawOfDecimal ⟨d.significand,
          if cs.head? = some '-' then d.exponent - value else d.exponent + value⟩
    else
      flawOfDecimal d

/-- The flaw of a number that goes on with `cs`, a fraction or what may follow one. -/
def flawOfFraction (d : Decimal) : List Char → Flaw
  | '.' :: cs =>
    let digits := cs.takeWhile isDigit
    if digits.isEmpty then flawOfMissingDigit cs
    else flawOfExponent (d.withFraction digits) (cs.dropWhile isDigit)
  | cs => flawOfExponent d cs

/-- The flaw of a number, without its sign, that stands where another type is due. -/
def flawOf (cs : List Char) : Flaw :=
  let digits := cs.takeWhile isDigit
  if digits.isEmpty then flawOfMissingDigit cs
  else if leadingZero cs then .malformed
  else flawOfFraction (.ofWhole digits) (cs.dropWhile isDigit)

end PascalScan.Json.Number
