import Mathlib.Data.List.Forall2
import PascalScan.Proofs.Text.Ascii
import PascalScan.Text.Bytes

/-!
# `PascalScan.Proofs.Text.Shape`: what the character classes see of a character

No class tells a small letter from the capital one, and none tells two characters outside ASCII
apart; of these only the size in bytes matters, since offsets count bytes. `Alike` says of two
characters that they differ in no other way.

`shape` picks one character from all that are alike: a small letter, and outside ASCII one of each
size. So two texts that are alike character by character have the same shape
(`map_shape_eq_of_forall₂`), and whatever takes a text for its shape takes the two texts for each
other. A class does so exactly if it is `Blind`, and a class of ASCII characters is checked for it
one character after the other (`Blind.of_isAscii`).
-/

set_option autoImplicit false

namespace PascalScan.Text

/-! ### Characters that are alike -/

/-- The two characters are the same, or the same letter in different case, or both outside ASCII
and of the same size. -/
def Alike (a b : Char) : Prop :=
  a = b ∨ (isLetter a ∧ isLetter b ∧ a.toLower = b.toLower) ∨
    (¬ IsAscii a ∧ ¬ IsAscii b ∧ a.utf8Size = b.utf8Size)

/-- It can be computed whether two characters are alike. -/
instance (a b : Char) : Decidable (Alike a b) := inferInstanceAs (Decidable (_ ∨ _ ∨ _))

/-- One character of each size, outside ASCII. -/
def wideOfSize : Nat → Char
  | 2 => 'é'
  | 3 => '€'
  | _ => '𝄞'

/-- The character that stands for all that are alike. -/
def shape (ch : Char) : Char := if IsAscii ch then ch.toLower else wideOfSize ch.utf8Size

/-- The shape of an ASCII character is its lower case. -/
theorem shape_of_isAscii {ch : Char} (h : IsAscii ch) : shape ch = ch.toLower := if_pos h

/-- Of any other character only its size is left. -/
theorem shape_of_not_isAscii {ch : Char} (h : ¬ IsAscii ch) :
    shape ch = wideOfSize ch.utf8Size := if_neg h

/-- Characters that are alike have the same shape. -/
theorem Alike.shape_eq {a b : Char} (h : Alike a b) : shape a = shape b := by
  rcases h with rfl | ⟨ha, hb, hcase⟩ | ⟨ha, hb, hsize⟩
  · rfl
  · rw [shape_of_isAscii (isAscii_of_isLetter ha), shape_of_isAscii (isAscii_of_isLetter hb), hcase]
  · rw [shape_of_not_isAscii ha, shape_of_not_isAscii hb, hsize]

/-- Texts that are alike character by character have the same shape. -/
theorem map_shape_eq_of_forall₂ {text other : List Char} (h : List.Forall₂ Alike text other) :
    text.map shape = other.map shape := by
  induction h with
  | nil => rfl
  | cons hhead _ ih => rw [List.map_cons, List.map_cons, hhead.shape_eq, ih]

/-! ### What a character and its shape have in common -/

/-- The shape of a character is an ASCII character if the character is one. -/
theorem isAscii_shape_iff {ch : Char} : IsAscii (shape ch) ↔ IsAscii ch := by
  by_cases h : IsAscii ch
  · rw [shape_of_isAscii h]
    exact forall_ascii (P := fun ch => IsAscii ch.toLower ↔ IsAscii ch) (by decide +kernel) ch h
  · rw [shape_of_not_isAscii h]
    refine iff_of_false ?_ h
    unfold wideOfSize
    split <;> decide

/-- A character and its shape take equally many bytes. -/
theorem utf8Size_shape (ch : Char) : (shape ch).utf8Size = ch.utf8Size := by
  by_cases h : IsAscii ch
  · rw [(isAscii_shape_iff.mpr h).utf8Size_eq_one, h.utf8Size_eq_one]
  · have hlast : IsAscii '\x7f' := by decide
    have hne : ch.utf8Size ≠ 1 := fun hone => h (hlast.of_val_le (Char.utf8Size_eq_one_iff.mp hone))
    rw [shape_of_not_isAscii h]
    -- Of each size that is left, one character stands for all.
    rcases ch.utf8Size_eq with hsize | hsize | hsize | hsize
    · exact absurd hsize hne
    all_goals rw [hsize]; rfl

/-- A text and its shape take equally many bytes. -/
theorem byteSize_map_shape (cs : List Char) : byteSize (cs.map shape) = byteSize cs := by
  induction cs with
  | nil => rfl
  | cons ch cs ih => rw [List.map_cons, byteSize_cons, byteSize_cons, utf8Size_shape, ih]

/-- An offset falls in the shape of a text where it falls in the text. -/
theorem locate_map_shape (cs : List Char) (n : Nat) :
    locate (cs.map shape) n =
      match locate cs n with
      | .boundary rest => .boundary (rest.map shape)
      | place => place := by
  fun_induction locate cs n with
  | case1 cs => exact locate_zero (cs.map shape)
  | case2 => rfl
  | case3 ch cs n hle ih =>
    rw [List.map_cons, locate, utf8Size_shape, if_pos hle]
    exact ih
  | case4 ch cs n hlt => rw [List.map_cons, locate, utf8Size_shape, if_neg hlt]

/-! ### Classes that see no more than the shape -/

/-- The answer for a character is the answer for its shape. -/
def Blind {α : Type} (f : Char → α) : Prop := ∀ ch, f (shape ch) = f ch

/-- Where the answer is the same for all characters outside ASCII, it has to be checked for the
others. -/
theorem Blind.of_wide {α : Type} {f : Char → α} {answer : α}
    (hwide : ∀ ch, ¬ IsAscii ch → f ch = answer)
    (hcheck : ∀ n < 128, f (Char.ofNat n).toLower = f (Char.ofNat n)) : Blind f := by
  intro ch
  by_cases h : IsAscii ch
  · rw [shape_of_isAscii h]
    exact forall_ascii (P := fun ch => f ch.toLower = f ch) hcheck ch h
  · rw [hwide ch h, hwide (shape ch) (mt isAscii_shape_iff.mp h)]

/-- A class of ASCII characters has to be checked for them. -/
theorem Blind.of_isAscii {p : Char → Bool} (hascii : ∀ ch, p ch → IsAscii ch)
    (hcheck : ∀ n < 128, p (Char.ofNat n).toLower = p (Char.ofNat n)) : Blind p :=
  .of_wide (fun ch hch => Bool.eq_false_iff.mpr (mt (hascii ch) hch)) hcheck

/-- A class that is made of two others. -/
theorem Blind.or {p q : Char → Bool} (hp : Blind p) (hq : Blind q) :
    Blind fun ch => p ch || q ch := by
  intro ch
  show (p (shape ch) || q (shape ch)) = (p ch || q ch)
  rw [hp ch, hq ch]

/-- A letter is one in either case. -/
theorem blind_isLetter : Blind isLetter :=
  .of_isAscii (fun _ => isAscii_of_isLetter) (by decide +kernel)

/-! ### Characters without case -/

/-- An ASCII character that is no letter. -/
def IsCaseless (ch : Char) : Prop := IsAscii ch ∧ isLetter ch = false

/-- It can be computed whether a character has no case. -/
instance (ch : Char) : Decidable (IsCaseless ch) := inferInstanceAs (Decidable (_ ∧ _))

/-- Nothing else has the shape of a character without case. -/
theorem IsCaseless.shape_eq_iff {x ch : Char} (h : IsCaseless x) : shape ch = x ↔ ch = x := by
  have hself (x : Char) (hx : IsCaseless x) : shape x = x := by
    rw [shape_of_isAscii hx.1]
    exact forall_ascii (P := fun x => isLetter x = false → x.toLower = x) (by decide +kernel) x
      hx.1 hx.2
  constructor
  · intro hshape
    -- The class of letters is blind, so `ch` is no letter either.
    have hch : IsCaseless ch := by
      refine ⟨isAscii_shape_iff.mp (hshape ▸ h.1), ?_⟩
      rw [← blind_isLetter ch, hshape, h.2]
    rw [← hself ch hch, hshape]
  · rintro rfl
    exact hself ch h

/-- The shape of a text begins with a character without case only if the text does. -/
theorem IsCaseless.map_shape_ne_cons {x : Char} {cs : List Char} (hx : IsCaseless x)
    (h : ∀ rest, cs ≠ x :: rest) (tail : List Char) : cs.map shape ≠ x :: tail := by
  intro hmap
  obtain ⟨ch, rest, rfl, hch, -⟩ := List.map_eq_cons_iff.mp hmap
  exact h rest (by rw [hx.shape_eq_iff.mp hch])

/-- A class of a single character without case. -/
theorem IsCaseless.blind_beq {x : Char} (h : IsCaseless x) : Blind (· == x) := by
  intro ch
  rw [Bool.eq_iff_iff, beq_iff_eq, beq_iff_eq]
  exact h.shape_eq_iff

/-- A class that is given by a table of characters without case. -/
theorem blind_contains {table : List Char} (h : table.all fun x => decide (IsCaseless x)) :
    Blind table.contains := by
  have hcaseless (x : Char) (hx : x ∈ table) : IsCaseless x :=
    of_decide_eq_true (List.all_eq_true.mp h x hx)
  intro ch
  rw [Bool.eq_iff_iff, List.contains_iff_mem, List.contains_iff_mem]
  constructor
  · intro hmem
    rwa [(hcaseless _ hmem).shape_eq_iff.mp rfl]
  · intro hmem
    rwa [(hcaseless ch hmem).shape_eq_iff.mpr rfl]

/-! ### The classes -/

/-- Decimal digits have no case. -/
theorem blind_isDigit : Blind isDigit :=
  .of_isAscii (fun _ => isAscii_of_isDigit) (by decide +kernel)

/-- Neither have octal digits. -/
theorem blind_isOctalDigit : Blind isOctalDigit :=
  .of_isAscii (fun _ => isAscii_of_isOctalDigit) (by decide +kernel)

/-- A hexadecimal digit is one in either case. -/
theorem blind_isHexDigit : Blind isHexDigit :=
  .of_isAscii (fun _ => isAscii_of_isHexDigit) (by decide +kernel)

/-- Both binary digits are without case. -/
theorem blind_isBinaryDigit : Blind isBinaryDigit :=
  (IsCaseless.blind_beq (by decide)).or (IsCaseless.blind_beq (by decide))

/-- So are both signs. -/
theorem blind_isSign : Blind isSign :=
  (IsCaseless.blind_beq (by decide)).or (IsCaseless.blind_beq (by decide))

/-- A name may start with a letter of either case, or with an underscore. -/
theorem blind_isNameStart : Blind isNameStart :=
  blind_isLetter.or (IsCaseless.blind_beq (by decide))

/-- It may go on with digits as well. -/
theorem blind_isNamePart : Blind isNamePart :=
  (blind_isLetter.or blind_isDigit).or (IsCaseless.blind_beq (by decide))

/-- Blanks have no case. -/
theorem blind_isBlank : Blind isBlank := blind_contains (by decide)

/-- Neither have the two characters that end a line. -/
theorem blind_isLineBreak : Blind isLineBreak :=
  (IsCaseless.blind_beq (by decide)).or (IsCaseless.blind_beq (by decide))

/-- Nor has punctuation. -/
theorem blind_isSymbol : Blind isSymbol := blind_contains (by decide)

/-- The operators of two characters have no letter in them either. -/
theorem isSymbolPair_shape (a b : Char) : isSymbolPair (shape a) (shape b) = isSymbolPair a b := by
  have hcaseless : ∀ pair ∈ symbolPairs, IsCaseless pair.1 ∧ IsCaseless pair.2 := by decide
  unfold isSymbolPair
  rw [Bool.eq_iff_iff, List.contains_iff_mem, List.contains_iff_mem]
  constructor
  · intro hmem
    obtain ⟨ha, hb⟩ := hcaseless _ hmem
    rwa [ha.shape_eq_iff.mp rfl, hb.shape_eq_iff.mp rfl]
  · intro hmem
    obtain ⟨ha, hb⟩ := hcaseless _ hmem
    rwa [ha.shape_eq_iff.mpr rfl, hb.shape_eq_iff.mpr rfl]

end PascalScan.Text
