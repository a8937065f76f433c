import PascalScan.Json.Quoted

/-!
# `PascalScan.Proofs.Json.Strings`: the strings of JSON

What stands between the quotes of a JSON string is given as a language here, without any reader.
There are two notions, because a string is read in two ways.

* `Spells text s`: the text stands for the characters `s`. Every character may stand for itself, or
  be escaped, but for those that have to be.
* `IsStringText text`: the text is well-formed. It may hold any four hexadecimal digits after `\u`,
  also those of a lone half of a pair, which stands for no character.

The reader finds the characters that a text spells, and stops behind the closing quote
(`read_of_spells`). Passing over a string stops there too (`skip_of_isStringText`). What the writer
puts between quotes spells what it was given (`spells_flatMap_writeChar`).
-/

set_option autoImplicit false

namespace PascalScan.Json

/-! ### The language -/

/-- The hexadecimal digits, each at the place of its value. -/
def hexDigits : List Char :=
  ['0', '1', '2', '3', '4', '5', '6', '7', '8', '9', 'a', 'b', 'c', 'd', 'e', 'f']

/-- The same digits with capital letters. -/
def capitalHexDigits : List Char :=
  ['0', '1', '2', '3', '4', '5', '6', '7', '8', '9', 'A', 'B', 'C', 'D', 'E', 'F']

/-- The hexadecimal digit has the value `n`. -/
def IsHexDigit (c : Char) (n : Nat) : Prop :=
  hexDigits[n]? = some c ∨ capitalHexDigits[n]? = some c

/-- Four hexadecimal digits have the value `n`. -/
inductive FourDigits : List Char → Nat → Prop where
  | mk {a b c d : Char} {i j k l : Nat} (ha : IsHexDigit a i) (hb : IsHexDigit b j)
      (hc : IsHexDigit c k) (hd : IsHexDigit d l) :
      FourDigits [a, b, c, d] (((i * 16 + j) * 16 + k) * 16 + l)

/-- The characters that may stand behind a backslash, each with the character it stands for. -/
def shortEscapes : List (Char × Char) :=
  [('"', '"'), ('\\', '\\'), ('/', '/'), ('b', '\x08'), ('f', '\x0c'), ('n', '\n'), ('r', '\r'),
    ('t', '\t')]

/-- A character that may stand for itself. -/
def IsPlain (c : Char) : Prop := c ≠ '"' ∧ c ≠ '\\' ∧ 0x20 ≤ c.toNat

/-- It can be computed whether a character stands for itself. -/
instance (c : Char) : Decidable (IsPlain c) := inferInstanceAs (Decidable (_ ∧ _ ∧ _))

/-- The text stands for one character. -/
inductive SpellsChar : List Char → Char → Prop where
  | plain {c : Char} (hc : IsPlain c) : SpellsChar [c] c
  | short {mark c : Char} (hmark : (mark, c) ∈ shortEscapes) : SpellsChar ['\\', mark] c
  /-- A unit of UTF-16. -/
  | unit {ds : List Char} {c : Char} (hds : FourDigits ds c.toNat) :
      SpellsChar ('\\' :: 'u' :: ds) c
  /-- A pair of units. -/
  | pair {ds es : List Char} {c : Char} {high low : Nat} (hhigh : high < 0x400) (hlow : low < 0x400)
      (hds : FourDigits ds (0xD800 + high)) (hes : FourDigits es (0xDC00 + low))
      (hc : c.toNat = 0x10000 + high * 0x400 + low) :
      SpellsChar ('\\' :: 'u' :: (ds ++ '\\' :: 'u' :: es)) c

/-- The text between quotes stands for the characters. -/
inductive Spells : List Char → List Char → Prop where
  | nil : Spells [] []
  | cons {text more : List Char} {c : Char} {s : List Char} (hc : SpellsChar text c)
      (hs : Spells more s) : Spells (text ++ more) (c :: s)

/-- The text can stand between quotes. -/
inductive IsStringText : List Char → Prop where
  | nil : IsStringText []
  | plain {c : Char} {text : List Char} (hc : IsPlain c) (htext : IsStringText text) :
      IsStringText (c :: text)
  | short {mark c : Char} {text : List Char} (hmark : (mark, c) ∈ shortEscapes)
      (htext : IsStringText text) : IsStringText ('\\' :: mark :: text)
  | unit {ds text : List Char} {n : Nat} (hds : FourDigits ds n) (htext : IsStringText text) :
      IsStringText ('\\' :: 'u' :: (ds ++ text))

/-- Characters that may stand for themselves spell themselves. -/
theorem spells_self {s : List Char} (h : ∀ c ∈ s, IsPlain c) : Spells s s := by
  induction s with
  | nil => exact .nil
  | cons c s ih =>
    rw [List.forall_mem_cons] at h
    exact .cons (.plain h.1) (ih h.2)

namespace Quoted

/-! ### Reading escapes -/

/-- A hexadecimal digit is read as its value. -/
theorem hexValue?_of_isHexDigit {c : Char} {n : Nat} (h : IsHexDigit c n) :
    hexValue? c = some n := by
  -- Both tables are checked once, at each of their sixteen places.
  have hcheck : ∀ digits ∈ [hexDigits, capitalHexDigits], ∀ n < 16,
      (digits[n]?.map hexValue?) = some (some n) := by decide
  have hlen {digits : List Char} (hdigits : digits.length = 16) (hn : digits[n]? = some c) :
      n < 16 := by
    obtain ⟨hlt, -⟩ := List.getElem?_eq_some_iff.mp hn
    omega
  rcases h with h | h
  · have hc := hcheck hexDigits (by simp) n (hlen rfl h)
    rw [h] at hc
    exact Option.some.inj hc
  · have hc := hcheck capitalHexDigits (by simp) n (hlen rfl h)
    rw [h] at hc
    exact Option.some.inj hc

/-- Four digits are read as the number that they spell. -/
theorem readHex4_of_fourDigits {ds : List Char} {n : Nat} (h : FourDigits ds n) (rest : List Char) :
    readHex4 (ds ++ rest) = .ok (n, rest) := by
  obtain ⟨ha, hb, hc, hd⟩ := h
  rename_i a b c d i j k l
  have hvalue : hexValue4? a b c d = some (((i * 16 + j) * 16 + k) * 16 + l) := by
    simp only [hexValue4?, hexValue?_of_isHexDigit ha, hexValue?_of_isHexDigit hb,
      hexValue?_of_isHexDigit hc, hexValue?_of_isHexDigit hd, Option.bind_eq_bind,
      Option.bind_some, Option.pure_def, Option.some.injEq]
    omega
  simp only [List.cons_append, List.nil_append, readHex4, hvalue]

/-- A character is no half of a pair. -/
theorem not_unit_of_char (c : Char) :
    isTrailingUnit c.toNat = false ∧ isLeadingUnit c.toNat = false := by
  have hvalid : c.toNat < 0xD800 ∨ 0xDFFF < c.toNat ∧ c.toNat < 0x110000 := c.valid
  simp only [isTrailingUnit, isLeadingUnit, Bool.and_eq_false_iff, decide_eq_false_iff_not]
  omega

/-- A character that fits into one unit is read from it. -/
theorem readUnits_of_char {ds : List Char} {c : Char} (h : FourDigits ds c.toNat)
    (rest : List Char) : readUnits (ds ++ rest) = .ok (c, rest) := by
  obtain ⟨htrailing, hleading⟩ := not_unit_of_char c
  simp only [readUnits, readHex4_of_fourDigits h, htrailing, hleading, Bool.false_eq_true, if_false,
    Char.ofNat_toNat]

/-- Any other character is read from its two units. -/
theorem readUnits_of_pair {ds es : List Char} {c : Char} {high low : Nat} (hhigh : high < 0x400)
    (hlow : low < 0x400) (hds : FourDigits ds (0xD800 + high)) (hes : FourDigits es (0xDC00 + low))
    (hc : c.toNat = 0x10000 + high * 0x400 + low) (rest : List Char) :
    readUnits (ds ++ '\\' :: 'u' :: (es ++ rest)) = .ok (c, rest) := by
  -- The first unit announces a second, and the second is one.
  have hfirst : isTrailingUnit (0xD800 + high) = false ∧ isLeadingUnit (0xD800 + high) := by
    simp only [isTrailingUnit, isLeadingUnit, Bool.and_eq_false_iff, Bool.and_eq_true,
      decide_eq_false_iff_not, decide_eq_true_eq]
    omega
  have hsecond : isTrailingUnit (0xDC00 + low) := by
    simp only [isTrailingUnit, Bool.and_eq_true, decide_eq_true_eq]
    omega
  have hchar : charOfPair (0xD800 + high) (0xDC00 + low) = c := by
    rw [charOfPair, Nat.add_sub_cancel_left, Nat.add_sub_cancel_left, ← hc, Char.ofNat_toNat]
  simp only [readUnits, readTrailing, readHex4_of_fourDigits hds, readHex4_of_fourDigits hes,
    hfirst.1, hfirst.2, hsecond, hchar, Bool.false_eq_true, if_false, if_true]

/-- A character behind a backslash is in the table, and it is not the one that announces units. -/
theorem unescape?_of_mem {mark c : Char} (h : (mark, c) ∈ shortEscapes) :
    mark ≠ 'u' ∧ unescape? mark = some c := by
  have hcheck : ∀ p ∈ shortEscapes, p.1 ≠ 'u' ∧ unescape? p.1 = some p.2 := by decide
  exact hcheck (mark, c) h

/-- A character with a short escape is read from it. -/
theorem readEscape_of_mem {mark c : Char} (h : (mark, c) ∈ shortEscapes) (rest : List Char) :
    readEscape (mark :: rest) = .ok (c, rest) := by
  obtain ⟨hmark, hc⟩ := unescape?_of_mem h
  rw [readEscape]
  · rw [hc]
  · intro hu
    exact hmark hu

/-- Such an escape is passed over as well. -/
theorem skipEscape_of_mem {mark c : Char} (h : (mark, c) ∈ shortEscapes) (rest : List Char) :
    skipEscape (mark :: rest) = .ok rest := by
  obtain ⟨hmark, hc⟩ := unescape?_of_mem h
  rw [skipEscape]
  · rw [hc]
    rfl
  · intro hu
    exact hmark hu

/-! ### Reading on in a string -/

/-- A quote ends the string. -/
theorem readLoop_quote (found cs : List Char) :
    readLoop found ('"' :: cs) = .ok (found.reverse, cs) := by
  rw [readLoop, if_pos rfl]

/-- A character that stands for itself is read as it is. -/
theorem readLoop_of_isPlain {c : Char} (h : IsPlain c) (found cs : List Char) :
    readLoop found (c :: cs) = readLoop (c :: found) cs := by
  obtain ⟨hquote, hbackslash, hcontrol⟩ := h
  rw [readLoop, if_neg hquote, if_neg hbackslash, if_neg (Nat.not_lt.mpr hcontrol)]

/-- Behind a backslash the character is read from its escape. -/
theorem readLoop_of_readEscape {cs rest : List Char} {c : Char}
    (h : readEscape cs = .ok (c, rest)) (found : List Char) :
    readLoop found ('\\' :: cs) = readLoop (c :: found) rest := by
  rw [readLoop, if_neg (by decide), if_pos rfl]
  split
  next d rest' hd =>
    obtain ⟨rfl, rfl⟩ := Prod.mk.inj (Except.ok.inj (h.symm.trans hd))
    rfl
  next flaw hflaw => cases h.symm.trans hflaw

/-- What stands for a character is read as that character. -/
theorem readLoop_of_spellsChar {text : List Char} {c : Char} (h : SpellsChar text c)
    (found cs : List Char) : readLoop found (text ++ cs) = readLoop (c :: found) cs := by
  cases h with
  | plain hc => exact readLoop_of_isPlain hc found cs
  | short hmark => exact readLoop_of_readEscape (readEscape_of_mem hmark cs) found
  | @unit ds _ hds =>
    have hescape : readEscape ('u' :: (ds ++ cs)) = .ok (c, cs) := readUnits_of_char hds cs
    exact readLoop_of_readEscape hescape found
  | @pair ds es _ _ _ hhigh hlow hds hes hc =>
    have hescape : readEscape ('u' :: (ds ++ '\\' :: 'u' :: (es ++ cs))) = .ok (c, cs) :=
      readUnits_of_pair hhigh hlow hds hes hc cs
    rw [List.cons_append, List.cons_append, List.append_assoc]
    exact readLoop_of_readEscape hescape found

/-- So a string is read from any text that spells it. -/
theorem readLoop_of_spells {text s : List Char} (h : Spells text s) (found rest : List Char) :
    readLoop found (text ++ '"' :: rest) = .ok (found.reverse ++ s, rest) := by
  induction h generalizing found with
  | nil => rw [List.nil_append, readLoop_quote, List.append_nil]
  | cons hc _ ih =>
    rw [List.append_assoc, readLoop_of_spellsChar hc, ih, List.reverse_cons, List.append_assoc]
    rfl

/-- A string is read as what it spells, up to its closing quote. -/
theorem read_of_spells {text s : List Char} (h : Spells text s) (rest : List Char) :
    read (text ++ '"' :: rest) = .ok (s, rest) :=
  readLoop_of_spells h [] rest

/-! ### Passing over a string -/

/-- A string is passed over escape by escape. -/
theorem skip_of_skipEscape {cs rest : List Char} (h : skipEscape cs = .ok rest) :
    skip ('\\' :: cs) = skip rest := by
  rw [skip, if_neg (by decide), if_pos rfl]
  split
  next rest' hrest =>
    obtain rfl := Except.ok.inj (h.symm.trans hrest)
    rfl
  next flaw hflaw => cases h.symm.trans hflaw

/-- A string is passed over up to its closing quote, also if it spells nothing. -/
theorem skip_of_isStringText {text : List Char} (h : IsStringText text) (rest : List Char) :
    skip (text ++ '"' :: rest) = .ok rest := by
  induction h with
  | nil => rw [List.nil_append, skip, if_pos rfl]
  | plain hc _ ih =>
    obtain ⟨hquote, hbackslash, hcontrol⟩ := hc
    rw [List.cons_append, skip, if_neg hquote, if_neg hbackslash,
      if_neg (Nat.not_lt.mpr hcontrol), ih]
  | short hmark _ ih =>
    rw [List.cons_append, List.cons_append, skip_of_skipEscape (skipEscape_of_mem hmark _), ih]
  | @unit ds text n hds _ ih =>
    have hescape : skipEscape ('u' :: (ds ++ (text ++ '"' :: rest))) = .ok (text ++ '"' :: rest) := by
      rw [skipEscape, readHex4_of_fourDigits hds]
    rw [List.cons_append, List.cons_append, List.append_assoc, skip_of_skipEscape hescape, ih]

/-! ### Writing -/

/-- The digit that is written for a number below 16 has that value. -/
theorem isHexDigit_hexDigit {n : Nat} (h : n < 16) : IsHexDigit (hexDigit n) n := by
  have hcheck : ∀ n < 16, hexDigits[n]? = some (hexDigit n) := by decide
  exact .inl (hcheck n h)

/-- What is written for a character stands for it. -/
theorem spellsChar_writeChar (c : Char) : SpellsChar (writeChar c) c := by
  fun_cases writeChar c with
  | case1 | case2 | case3 | case4 | case5 | case6 | case7 =>
    -- The frequent escapes, each of a single character.
    rename_i h
    exact .short (by rw [h]; decide)
  | case8 _ _ _ _ _ _ _ hcontrol =>
    -- Any other control character is written with two digits behind two zeros.
    have hdigits := FourDigits.mk (isHexDigit_hexDigit (n := 0) (by decide))
      (isHexDigit_hexDigit (n := 0) (by decide))
      (isHexDigit_hexDigit (n := c.toNat / 16) (by omega))
      (isHexDigit_hexDigit (n := c.toNat % 16) (by omega))
    have hvalue : ((0 * 16 + 0) * 16 + c.toNat / 16) * 16 + c.toNat % 16 = c.toNat := by omega
    rw [hvalue] at hdigits
    exact .unit hdigits
  | case9 hquote hbackslash _ _ _ _ _ hcontrol =>
    exact .plain ⟨hquote, hbackslash, Nat.not_lt.mp hcontrol⟩

/-- What is written for a string, character by character, spells it. -/
theorem spells_flatMap_writeChar (s : List Char) : Spells (s.flatMap writeChar) s := by
  induction s with
  | nil => exact .nil
  | cons c s ih =>
    rw [List.flatMap_cons]
    exact .cons (spellsChar_writeChar c) ih

end Quoted

end PascalScan.Json
