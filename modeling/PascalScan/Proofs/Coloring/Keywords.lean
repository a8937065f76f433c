import Mathlib.Data.List.Forall2
import PascalScan.Proofs.Text.Ascii
import PascalScan.Vocabulary

/-!
# `PascalScan.Proofs.Coloring.Keywords`: words in either case, and sets of them

A set of words keeps each word once and in lower case, and looks a word up in lower case. What that
amounts to is said here without lower case: `SameWord` compares two words letter by letter, and a
word is found in a set exactly if it is the same as one of those that the set was made of
(`KeywordSet.contains_ofList_iff`).

So two sets that were made of the same words, in whatever order, case and number, hold the same
(`KeywordSet.contains_eq_of_sameWords`).
-/

set_option autoImplicit false

namespace PascalScan

open Text

/-! ### Words in either case -/

/-- The first is an ASCII capital, and the second its small letter. -/
def IsCapitalOf (capital small : Char) : Prop :=
  'A' ≤ capital ∧ capital ≤ 'Z' ∧ small.toNat = capital.toNat + 32

/-- The two characters are the same, or the same ASCII letter in different case. -/
def SameLetter (a b : Char) : Prop := a = b ∨ IsCapitalOf a b ∨ IsCapitalOf b a

/-- The two words are the same up to the case of ASCII letters. -/
def SameWord (word other : List Char) : Prop := List.Forall₂ SameLetter word other

/-- Each word of the one list is in the other, in some case. -/
def SameWords (words others : List String) : Prop :=
  (∀ w ∈ words, ∃ v ∈ others, SameWord w.toList v.toList) ∧
    ∀ v ∈ others, ∃ w ∈ words, SameWord v.toList w.toList

/-- It can be computed whether one letter is the capital of another. -/
instance (capital small : Char) : Decidable (IsCapitalOf capital small) :=
  inferInstanceAs (Decidable (_ ∧ _ ∧ _))

/-- It can be computed whether two characters are the same letter. -/
instance (a b : Char) : Decidable (SameLetter a b) := inferInstanceAs (Decidable (_ ∨ _ ∨ _))

/-- It can be computed whether two words are the same, letter by letter. -/
instance (word other : List Char) : Decidable (SameWord word other) :=
  inferInstanceAs (Decidable (List.Forall₂ SameLetter word other))

/-- It can be computed whether two lists have the same words. -/
instance (words others : List String) : Decidable (SameWords words others) :=
  inferInstanceAs (Decidable (_ ∧ _))

/-- In lower case, a capital letter stands 32 places further on, and no other character moves. -/
theorem toNat_toLower (ch : Char) :
    ch.toLower.toNat = if 'A' ≤ ch ∧ ch ≤ 'Z' then ch.toNat + 32 else ch.toNat := by
  by_cases h : IsAscii ch
  · exact forall_ascii (P := fun ch =>
      ch.toLower.toNat = if 'A' ≤ ch ∧ ch ≤ 'Z' then ch.toNat + 32 else ch.toNat)
      (by decide +kernel) ch h
  · have hcapital : ¬ ('A' ≤ ch ∧ ch ≤ 'Z') := fun hle => h (IsAscii.of_val_le (by decide) hle.2)
    rw [if_neg hcapital]
    exact congrArg Char.toNat (dif_neg hcapital)

/-- Two letters are the same if their small letters are. -/
theorem toLower_eq_toLower_iff {a b : Char} : a.toLower = b.toLower ↔ SameLetter a b := by
  have hle (c d : Char) : c ≤ d ↔ c.toNat ≤ d.toNat := UInt32.le_iff_toNat_le
  have hA : 'A'.toNat = 65 := rfl
  have hZ : 'Z'.toNat = 90 := rfl
  rw [← Char.toNat_inj, toNat_toLower, toNat_toLower]
  simp only [SameLetter, IsCapitalOf, hle, ← Char.toNat_inj, hA, hZ]
  split <;> split <;> omega

/-- Two words are the same if they are in lower case. -/
theorem foldCase_eq_foldCase_iff {word other : String} :
    foldCase word = foldCase other ↔ SameWord word.toList other.toList := by
  unfold foldCase SameWord
  rw [← String.toList_inj, String.toList_map, String.toList_map]
  generalize word.toList = cs
  generalize other.toList = ds
  induction cs generalizing ds with
  | nil => cases ds <;> simp
  | cons c cs ih =>
    cases ds with
    | nil => simp
    | cons d ds =>
      rw [List.map_cons, List.map_cons, List.cons.injEq, List.forall₂_cons, ih,
        toLower_eq_toLower_iff]

/-! ### Sets of words -/

namespace KeywordSet

/-- A set holds its words in lower case. -/
theorem mem_words_ofList_iff {words : List String} {folded : String} :
    folded ∈ (ofList words).words ↔ ∃ w ∈ words, foldCase w = folded := by
  unfold ofList
  rw [List.mem_eraseDups, List.mem_map]

/-- A word is found in a set if it is one of its words, in some case. -/
theorem contains_ofList_iff {words : List String} {word : String} :
    (ofList words).contains word ↔ ∃ w ∈ words, SameWord w.toList word.toList := by
  unfold contains
  rw [List.contains_iff_mem, mem_words_ofList_iff]
  simp only [foldCase_eq_foldCase_iff]

/-- Sets are equal if they hold the same. -/
theorem equal_iff_mem_words {s t : KeywordSet} : s.equal t ↔ ∀ w, w ∈ s.words ↔ w ∈ t.words := by
  unfold equal
  simp only [Bool.and_eq_true, List.all_eq_true, List.contains_iff_mem]
  exact ⟨fun h w => ⟨h.1 w, h.2 w⟩, fun h => ⟨fun w => (h w).mp, fun w => (h w).mpr⟩⟩

/-- In sets that hold the same, the same words are found. -/
theorem contains_eq_of_mem_words {s t : KeywordSet} (h : ∀ w, w ∈ s.words ↔ w ∈ t.words) :
    s.contains = t.contains := by
  funext word
  unfold contains
  rw [Bool.eq_iff_iff, List.contains_iff_mem, List.contains_iff_mem]
  exact h (foldCase word)

/-- Lists of the same words make sets that hold the same. -/
theorem mem_words_iff_of_sameWords {words others : List String} (h : SameWords words others)
    (folded : String) : folded ∈ (ofList words).words ↔ folded ∈ (ofList others).words := by
  rw [mem_words_ofList_iff, mem_words_ofList_iff]
  constructor
  · rintro ⟨w, hw, rfl⟩
    obtain ⟨v, hv, hsame⟩ := h.1 w hw
    exact ⟨v, hv, (foldCase_eq_foldCase_iff.mpr hsame).symm⟩
  · rintro ⟨v, hv, rfl⟩
    obtain ⟨w, hw, hsame⟩ := h.2 v hv
    exact ⟨w, hw, (foldCase_eq_foldCase_iff.mpr hsame).symm⟩

/-- Sets of the same words are equal. -/
theorem equal_of_sameWords {words others : List String} (h : SameWords words others) :
    (ofList words).equal (ofList others) = true :=
  equal_iff_mem_words.mpr (mem_words_iff_of_sameWords h)

/-- They contain the same words, too. -/
theorem contains_eq_of_sameWords {words others : List String} (h : SameWords words others) :
    (ofList words).contains = (ofList others).contains :=
  contains_eq_of_mem_words (mem_words_iff_of_sameWords h)

end KeywordSet

end PascalScan
