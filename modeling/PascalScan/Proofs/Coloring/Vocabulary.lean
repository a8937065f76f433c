import Mathlib.Data.Finset.Card
import Mathlib.Data.List.Nodup
import Mathlib.Data.Set.Subsingleton
import PascalScan.Proofs.Coloring.Keywords

/-!
# `PascalScan.Proofs.Coloring.Vocabulary`: reserved words, and how many words a set has

A word can be looked up as a reserved one in two ways. `Keyword.lookup?` goes through the reserved
words and compares letter by letter; `KeywordSet.default` holds all of them in lower case. Both find
the same words (`KeywordSet.contains_default_iff`), and no word is found as two reserved ones
(`Keyword.word_injective`).

A set has as many words as there are different ones among those that it was made of
(`KeywordSet.size_ofList`), where words that differ in case only are taken for one, `AnyCase`. Sets
are equal exactly if the same words are found in them (`KeywordSet.equal_ofList_iff`).
-/

set_option autoImplicit false

namespace PascalScan

/-! ### Words in either case -/

/-- Words that are compared letter by letter are compared up to case. -/
theorem equalInAnyCase_iff {word other : String} :
    equalInAnyCase word other ↔ SameWord word.toList other.toList := by
  unfold equalInAnyCase SameWord
  generalize word.toList = cs
  generalize other.toList = ds
  induction cs generalizing ds with
  | nil => cases ds <;> simp
  | cons c cs ih =>
    cases ds with
    | nil => simp
    | cons d ds =>
      rw [List.isEqv_cons_cons, Bool.and_eq_true, beq_iff_eq, toLower_eq_toLower_iff, ih,
        List.forall₂_cons]

/-- A letter and its small letter are the same. -/
theorem sameLetter_toLower (ch : Char) : SameLetter ch.toLower ch := by
  have hsmall := toNat_toLower ch
  by_cases hcapital : 'A' ≤ ch ∧ ch ≤ 'Z'
  · rw [if_pos hcapital] at hsmall
    exact .inr (.inr ⟨hcapital.1, hcapital.2, hsmall⟩)
  · rw [if_neg hcapital] at hsmall
    exact .inl (Char.toNat_inj.mp hsmall)

/-- What is in lower case stays as it is. -/
theorem foldCase_foldCase (word : String) : foldCase (foldCase word) = foldCase word := by
  rw [foldCase_eq_foldCase_iff]
  unfold foldCase SameWord
  rw [String.toList_map, List.forall₂_map_left_iff, List.forall₂_same]
  exact fun ch _ => sameLetter_toLower ch

/-- Words that differ in case only are taken for one. -/
def caseSetoid : Setoid String where
  r word other := SameWord word.toList other.toList
  iseqv :=
    { refl := fun _ => foldCase_eq_foldCase_iff.mp rfl
      symm := fun h => foldCase_eq_foldCase_iff.mp (foldCase_eq_foldCase_iff.mpr h).symm
      trans := fun h h' => foldCase_eq_foldCase_iff.mp
        ((foldCase_eq_foldCase_iff.mpr h).trans (foldCase_eq_foldCase_iff.mpr h')) }

/-- A word regardless of the case of its ASCII letters. -/
def AnyCase : Type := Quotient caseSetoid

namespace AnyCase

/-- The word, in whatever case. -/
def ofWord (word : String) : AnyCase := Quotient.mk caseSetoid word

/-- The word in lower case. -/
def folded : AnyCase → String := Quotient.lift foldCase fun _ _ => foldCase_eq_foldCase_iff.mpr

/-- Words that differ in more than case differ in lower case too. -/
theorem folded_injective : Function.Injective folded := by
  intro a b h
  induction a using Quotient.ind with | _ word
  induction b using Quotient.ind with | _ other
  exact Quotient.sound (foldCase_eq_foldCase_iff.mp h)

/-- Words in any case are told apart by their lower case. -/
instance : DecidableEq AnyCase := folded_injective.decidableEq

end AnyCase

/-! ### Reserved words -/

namespace Keyword

/-- Reserved words are spelled in lower case. -/
theorem foldCase_word (k : Keyword) : foldCase k.word = k.word := by
  have hall : ∀ k ∈ all, foldCase k.word = k.word := by decide +kernel
  exact hall k (mem_all k)

/-- No two reserved words are spelled alike. -/
theorem word_injective : Function.Injective word := by
  have hnodup : (all.map word).Nodup := by decide +kernel
  exact fun k k' h => List.inj_on_of_nodup_map hnodup (mem_all k) (mem_all k') h

/-- A text spells a reserved word if it does in lower case. -/
theorem equalInAnyCase_word_iff {s : String} {k : Keyword} :
    equalInAnyCase s k.word ↔ foldCase s = k.word := by
  rw [equalInAnyCase_iff, ← foldCase_eq_foldCase_iff, foldCase_word]

/-- The reserved word that is found is the one that the text spells in lower case. -/
theorem lookup?_eq_some_iff {s : String} {k : Keyword} :
    lookup? s = some k ↔ foldCase s = k.word := by
  have hspelled {k : Keyword} (h : lookup? s = some k) : foldCase s = k.word := by
    have hfits := List.find?_some h
    exact equalInAnyCase_word_iff.mp hfits
  constructor
  · exact hspelled
  · intro h
    -- Something is found, since `k` fits, and it is spelled like `k`.
    have hsome : (lookup? s).isSome :=
      List.find?_isSome.mpr ⟨k, mem_all k, equalInAnyCase_word_iff.mpr h⟩
    obtain ⟨k', hk'⟩ := Option.isSome_iff_exists.mp hsome
    rw [hk', word_injective ((hspelled hk').symm.trans h)]

/-- The long s is no `s`, although both have the same capital. -/
example : lookup? "ASM" = some asm ∧ lookup? "aſm" = none := by decide +kernel

end Keyword

/-! ### Sets of words -/

/-- Without its repetitions, a list holds nothing twice. -/
theorem nodup_eraseDups {α : Type} [BEq α] [LawfulBEq α] (l : List α) : l.eraseDups.Nodup := by
  match l with
  | [] => exact List.nodup_nil
  | a :: rest =>
    -- What is left of the rest does not hold `a`; that it has no repetitions is the same fact about
    -- a shorter list.
    rw [List.eraseDups_cons, List.nodup_cons, List.mem_eraseDups, List.mem_filter]
    refine ⟨?_, nodup_eraseDups _⟩
    rintro ⟨-, hne⟩
    exact absurd hne (by simp)
termination_by l.length
decreasing_by exact Nat.lt_succ_of_le (List.length_filter_le _ _)

namespace KeywordSet

/-- The reserved words are found in the set of them if they are found one by one. -/
theorem contains_default_iff {word : String} :
    default.contains word ↔ (Keyword.lookup? word).isSome := by
  unfold default
  rw [contains_ofList_iff, Option.isSome_iff_exists]
  constructor
  · rintro ⟨w, hw, hsame⟩
    obtain ⟨k, -, rfl⟩ := List.mem_map.mp hw
    have hfold := foldCase_eq_foldCase_iff.mpr hsame
    exact ⟨k, Keyword.lookup?_eq_some_iff.mpr (by rw [← hfold, Keyword.foldCase_word])⟩
  · rintro ⟨k, hk⟩
    have hspelled := Keyword.lookup?_eq_some_iff.mp hk
    refine ⟨k.word, List.mem_map_of_mem (Keyword.mem_all k), ?_⟩
    rw [← foldCase_eq_foldCase_iff, Keyword.foldCase_word, hspelled]

/-- The words of a set are those that are in lower case and are found in it. -/
theorem mem_words_iff_contains {words : List String} {w : String} :
    w ∈ (ofList words).words ↔ foldCase w = w ∧ (ofList words).contains w := by
  unfold contains
  rw [List.contains_iff_mem]
  constructor
  · intro hw
    obtain ⟨v, -, rfl⟩ := mem_words_ofList_iff.mp hw
    exact ⟨foldCase_foldCase v, by rwa [foldCase_foldCase]⟩
  · rintro ⟨hlower, hw⟩
    rwa [hlower] at hw

/-- Sets are equal if the same words are found in them. -/
theorem equal_ofList_iff {words others : List String} :
    (ofList words).equal (ofList others) ↔
      ∀ word, (ofList words).contains word = (ofList others).contains word := by
  rw [equal_iff_mem_words]
  constructor
  · intro h word
    rw [contains_eq_of_mem_words h]
  · intro h w
    rw [mem_words_iff_contains, mem_words_iff_contains, h w]

/-- A set has as many words as there are different ones among those it was made of. -/
theorem size_ofList (words : List String) :
    (ofList words).size = (words.map AnyCase.ofWord).toFinset.card := by
  have himage : (words.map foldCase).toFinset =
      (words.map AnyCase.ofWord).toFinset.image AnyCase.folded := by
    ext w
    simp only [List.mem_toFinset, Finset.mem_image, List.mem_map, exists_exists_and_eq_and]
    rfl
  calc (ofList words).size
      = (words.map foldCase).eraseDups.toFinset.card :=
        (List.toFinset_card_of_nodup (nodup_eraseDups _)).symm
    _ = (words.map foldCase).toFinset.card := by
        rw [List.toFinset.ext_iff.mpr fun w => List.mem_eraseDups]
    _ = (words.map AnyCase.ofWord).toFinset.card := by
        rw [himage, Finset.card_image_of_injective _ AnyCase.folded_injective]

end KeywordSet

/-- A reserved word is found exactly if the word spells it in lower case, which it does for at most
one of them, and something is found exactly if the set of all reserved words contains the word. Any
set contains the words that it was made of, in any case, and no others; its size is the number of
those that differ in more than case; and two sets are equal exactly if they contain the same. -/
theorem lookup_and_sets_agree (word : String) (words others : List String) :
    (∀ k, Keyword.lookup? word = some k ↔ foldCase word = k.word) ∧
      {k : Keyword | foldCase word = k.word}.Subsingleton ∧
      (KeywordSet.default.contains word ↔ (Keyword.lookup? word).isSome) ∧
      ((KeywordSet.ofList words).contains word ↔
        ∃ w ∈ words, SameWord w.toList word.toList) ∧
      (KeywordSet.ofList words).size = (words.map AnyCase.ofWord).toFinset.card ∧
      ((KeywordSet.ofList words).equal (KeywordSet.ofList others) ↔
        ∀ q, (KeywordSet.ofList words).contains q = (KeywordSet.ofList others).contains q) := by
  refine ⟨fun k => Keyword.lookup?_eq_some_iff, ?_, KeywordSet.contains_default_iff,
    KeywordSet.contains_ofList_iff, KeywordSet.size_ofList words, KeywordSet.equal_ofList_iff⟩
  intro k hk k' hk'
  exact Keyword.word_injective (hk.symm.trans hk')

end PascalScan
