import PascalScan.Text.CharClass

/-!
# `PascalScan.Proofs.Text.Ascii`: the character classes hold ASCII characters only

What is true of every ASCII character can be checked one by one. `forall_ascii` turns a property
of characters into such a check, and the other theorems say which classes it applies to. So how
two classes overlap is settled by evaluation, without going through their definitions by hand.
-/

set_option autoImplicit false

namespace PascalScan.Text

/-- A character of seven bits. -/
def IsAscii (ch : Char) : Prop := ch.toNat < 128

/-- It can be computed whether a character is in ASCII. -/
instance (ch : Char) : Decidable (IsAscii ch) := Nat.decLt ch.toNat 128

/-- A property of the 128 characters of seven bits holds of every ASCII character. -/
theorem forall_ascii {P : Char → Prop} (h : ∀ n < 128, P (Char.ofNat n)) (ch : Char)
    (hch : IsAscii ch) : P ch := by
  have hn := h ch.toNat hch
  rwa [Char.ofNat_toNat] at hn

/-- An ASCII character takes one byte. -/
theorem IsAscii.utf8Size_eq_one {ch : Char} (h : IsAscii ch) : ch.utf8Size = 1 :=
  forall_ascii (P := fun ch => ch.utf8Size = 1) (by decide +kernel) ch h

/-! ### The classes -/

/-- What does not come after an ASCII character is one itself. -/
theorem IsAscii.of_val_le {ch bound : Char} (hbound : IsAscii bound) (h : ch.val ≤ bound.val) :
    IsAscii ch :=
  Nat.lt_of_le_of_lt (UInt32.le_iff_toNat_le.mp h) hbound

/-- Letters are ASCII characters: `Z` and `z` are the last ones. -/
theorem isAscii_of_isLetter {ch : Char} (h : isLetter ch) : IsAscii ch := by
  have hcase : (ch.isUpper || ch.isLower) = true := h
  rcases Bool.or_eq_true_iff.mp hcase with hupper | hlower
  · have hle : ch.val ≤ 'Z'.val := (of_decide_eq_true hupper).2
    exact IsAscii.of_val_le (by decide) hle
  · have hle : ch.val ≤ 'z'.val := of_decide_eq_true (Bool.and_eq_true_iff.mp hlower).2
    exact IsAscii.of_val_le (by decide) hle

/-- So are digits, of which `9` is the last. -/
theorem isAscii_of_isDigit {ch : Char} (h : isDigit ch) : IsAscii ch := by
  have hle : ch.val ≤ '9'.val := of_decide_eq_true (Bool.and_eq_true_iff.mp h).2
  exact IsAscii.of_val_le (by decide) hle

/-- So are octal digits. -/
theorem isAscii_of_isOctalDigit {ch : Char} (h : isOctalDigit ch) : IsAscii ch := by
  have hle : ch.val ≤ '7'.val := of_decide_eq_true (Bool.and_eq_true_iff.mp h).2
  exact IsAscii.of_val_le (by decide) hle

/-- So are hexadecimal digits, in either case. -/
theorem isAscii_of_isHexDigit {ch : Char} (h : isHexDigit ch) : IsAscii ch := by
  rcases Bool.or_eq_true_iff.mp h with h | hcapital
  · rcases Bool.or_eq_true_iff.mp h with hdigit | hsmall
    · exact isAscii_of_isDigit hdigit
    · have hle : ch.val ≤ 'f'.val := of_decide_eq_true (Bool.and_eq_true_iff.mp hsmall).2
      exact IsAscii.of_val_le (by decide) hle
  · have hle : ch.val ≤ 'F'.val := of_decide_eq_true (Bool.and_eq_true_iff.mp hcapital).2
    exact IsAscii.of_val_le (by decide) hle

/-- The characters that a name may start with are ASCII characters. -/
theorem isAscii_of_isNameStart {ch : Char} (h : isNameStart ch) : IsAscii ch := by
  rcases Bool.or_eq_true_iff.mp h with h | h
  · exact isAscii_of_isLetter h
  · obtain rfl := beq_iff_eq.mp h
    decide

/-- So are those that it may go on with. -/
theorem isAscii_of_isNamePart {ch : Char} (h : isNamePart ch) : IsAscii ch := by
  rcases Bool.or_eq_true_iff.mp h with h | h
  · rcases Bool.or_eq_true_iff.mp h with hletter | hdigit
    · exact isAscii_of_isLetter hletter
    · exact isAscii_of_isDigit hdigit
  · obtain rfl := beq_iff_eq.mp h
    decide

/-- Both signs are ASCII characters. -/
theorem isAscii_of_isSign {ch : Char} (h : isSign ch) : IsAscii ch := by
  rcases Bool.or_eq_true_iff.mp h with h | h
  · obtain rfl := beq_iff_eq.mp h
    decide
  · obtain rfl := beq_iff_eq.mp h
    decide

/-- A class that is given by a table of ASCII characters. -/
theorem isAscii_of_contains {table : List Char} {ch : Char}
    (htable : table.all fun x => decide (IsAscii x)) (h : table.contains ch) : IsAscii ch :=
  of_decide_eq_true (List.all_eq_true.mp htable ch (List.contains_iff_mem.mp h))

/-- The four blanks are ASCII characters. -/
theorem isAscii_of_isBlank {ch : Char} (h : isBlank ch) : IsAscii ch :=
  isAscii_of_contains (by decide) h

/-- So is all punctuation. -/
theorem isAscii_of_isSymbol {ch : Char} (h : isSymbol ch) : IsAscii ch :=
  isAscii_of_contains (by decide) h

end PascalScan.Text
