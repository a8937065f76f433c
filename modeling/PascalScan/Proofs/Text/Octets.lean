import PascalScan.Proofs.Text.Ascii
import PascalScan.Proofs.Text.Boundary

/-!
# `PascalScan.Proofs.Text.Octets`: the bytes that offsets count

Offsets count the bytes of a text, but texts are lists of characters, and no byte is ever looked
at. `octets` spells the bytes out, by the UTF-8 form that strings are kept in, so that both views
can be compared.

* `length_octets`: a text has as many bytes as `byteSize` says.
* `octets_cons_of_isAscii` and `high_of_not_isAscii`: an ASCII character is one byte of seven bits,
  and all bytes of any other character have eight. So no byte of such a character can be taken for
  an ASCII character.
* `byteAt?` is byte `i` of a string. At a cursor it tells whether a given ASCII character comes next
  (`Cursor.StandsIn.byteAt?_eq_iff`), and inside a character it has eight bits
  (`exists_high_byte_of_inside`).
-/

set_option autoImplicit false

namespace PascalScan

namespace Text

/-! ### The bytes of a text -/

/-- The bytes of a text. -/
def octets (cs : List Char) : List UInt8 := cs.flatMap String.utf8EncodeChar

/-- The bytes of a text are those of its first character and those of the rest. -/
theorem octets_cons (c : Char) (cs : List Char) :
    octets (c :: cs) = String.utf8EncodeChar c ++ octets cs :=
  List.flatMap_cons

/-- The bytes of one text and then those of another. -/
theorem octets_append (as bs : List Char) : octets (as ++ bs) = octets as ++ octets bs :=
  List.flatMap_append

/-- A text has as many bytes as its size says. -/
theorem length_octets (cs : List Char) : (octets cs).length = byteSize cs := by
  induction cs with
  | nil => rfl
  | cons c cs ih =>
    rw [octets_cons, List.length_append, String.length_utf8EncodeChar, ih, byteSize_cons]

/-- An ASCII character is one byte. -/
theorem octets_cons_of_isAscii {c : Char} (h : IsAscii c) (cs : List Char) :
    octets (c :: cs) = c.toUInt8 :: octets cs := by
  rw [octets_cons, String.utf8EncodeChar_eq_singleton h.utf8Size_eq_one]
  rfl

/-- The byte of an ASCII character has seven bits. -/
theorem IsAscii.toNat_toUInt8 {c : Char} (h : IsAscii c) : c.toUInt8.toNat = c.toNat := by
  have hlt : c.toNat < 256 := Nat.lt_trans h (by decide)
  exact Nat.mod_eq_of_lt hlt

/-- ASCII characters with the same byte are the same. -/
theorem IsAscii.toUInt8_inj {a b : Char} (ha : IsAscii a) (hb : IsAscii b)
    (h : a.toUInt8 = b.toUInt8) : a = b := by
  rw [← Char.toNat_inj, ← ha.toNat_toUInt8, ← hb.toNat_toUInt8, h]

/-- All bytes of a character outside ASCII have eight bits. -/
theorem high_of_not_isAscii {c : Char} (h : ¬ IsAscii c) :
    ∀ b ∈ String.utf8EncodeChar c, 128 ≤ b.toNat := by
  have hlarge : ¬ c.val.toNat ≤ 127 := fun hle => h (Nat.lt_succ_of_le hle)
  -- Each byte is some of the bits of the character below a mark of at least 128.
  have hmark (bits mark : Nat) (hlow : 128 ≤ mark) (hfit : bits + mark < 256) :
      128 ≤ (UInt8.ofNat (bits + mark)).toNat := by
    rw [UInt8.toNat_ofNat', Nat.mod_eq_of_lt hfit]
    omega
  intro b hb
  unfold String.utf8EncodeChar at hb
  simp only [if_neg hlarge] at hb
  split at hb
  next =>
    simp only [List.mem_cons, List.not_mem_nil, or_false] at hb
    rcases hb with rfl | rfl
    all_goals exact hmark _ _ (by omega) (by omega)
  next =>
    split at hb
    all_goals
      simp only [List.mem_cons, List.not_mem_nil, or_false] at hb
    · rcases hb with rfl | rfl | rfl
      all_goals exact hmark _ _ (by omega) (by omega)
    · rcases hb with rfl | rfl | rfl | rfl
      all_goals exact hmark _ _ (by omega) (by omega)

/-- A text begins with the byte of an ASCII character exactly if it begins with the character. -/
theorem head?_octets_eq_iff {a : Char} (ha : IsAscii a) (cs : List Char) :
    (octets cs).head? = some a.toUInt8 ↔ cs.head? = some a := by
  cases cs with
  | nil => exact iff_of_false (by simp [octets]) (by simp)
  | cons c cs =>
    by_cases hc : IsAscii c
    · rw [octets_cons_of_isAscii hc, List.head?_cons, List.head?_cons, Option.some.injEq,
        Option.some.injEq]
      exact ⟨hc.toUInt8_inj ha, fun h => h ▸ rfl⟩
    -- The first byte of `c` is too large for an ASCII character.
    · rw [octets_cons, List.head?_append, List.head?_cons, Option.some.injEq]
      refine iff_of_false (fun h => ?_) (fun h => hc (h ▸ ha))
      have hne : String.utf8EncodeChar c ≠ [] := String.utf8EncodeChar_ne_nil
      obtain ⟨b, bs, hbs⟩ := List.exists_cons_of_ne_nil hne
      rw [hbs, List.head?_cons, Option.some_or, Option.some.injEq] at h
      have hhigh := high_of_not_isAscii hc b (hbs ▸ List.mem_cons_self)
      rw [h, ha.toNat_toUInt8] at hhigh
      exact Nat.not_le_of_lt ha hhigh

/-! ### The bytes of a string -/

/-- Byte `i` of a string. -/
def byteAt? (source : String) (i : Nat) : Option UInt8 := source.toByteArray.data[i]?

/-- A string keeps the bytes of its text. -/
theorem byteAt?_eq (source : String) (i : Nat) :
    byteAt? source i = (octets source.toList)[i]? := by
  have hbytes : source.toByteArray.data = (octets source.toList).toArray := by
    rw [← String.utf8Encode_toList]
    exact List.data_toByteArray
  unfold byteAt?
  rw [hbytes, List.getElem?_toArray]

/-- A string has as many bytes as its text. -/
theorem utf8ByteSize_eq (source : String) : source.utf8ByteSize = byteSize source.toList := by
  have hsize : source.toByteArray.size = (octets source.toList).length := by
    rw [← String.utf8Encode_toList]
    exact List.size_toByteArray
  exact hsize.trans (length_octets _)

/-- There is no byte behind the end of a string. -/
theorem byteAt?_eq_none_iff {source : String} {i : Nat} :
    byteAt? source i = none ↔ source.utf8ByteSize ≤ i := by
  rw [byteAt?_eq, List.getElem?_eq_none_iff, length_octets, utf8ByteSize_eq]

/-- An offset inside a character comes after its first byte. -/
theorem exists_of_locate_eq_inside {text : List Char} {n : Nat} (h : locate text n = .inside) :
    ∃ before c after k, text = before ++ c :: after ∧ n = byteSize before + k ∧ 0 < k ∧
      k < c.utf8Size := by
  fun_induction locate text n with
  | case1 => cases h
  | case2 => cases h
  | case3 c cs n hle ih =>
    obtain ⟨before, d, after, k, rfl, hn, hk, hlt⟩ := ih h
    refine ⟨c :: before, d, after, k, rfl, ?_, hk, hlt⟩
    rw [byteSize_cons]
    omega
  | case4 c cs n hlt =>
    exact ⟨[], c, cs, n + 1, rfl, by simp, Nat.succ_pos n, Nat.lt_of_not_le hlt⟩

end Text

open Text

namespace Cursor

variable {c : Cursor} {source : String}

/-- Behind the offset of a cursor come the bytes of what is left to read. -/
theorem StandsIn.byteAt?_add (h : c.StandsIn source.toList) (k : Nat) :
    byteAt? source (c.pos + k) = (octets c.rest)[k]? := by
  obtain ⟨before, htext, hpos⟩ := standsIn_iff.mp h
  rw [byteAt?_eq, htext, octets_append, hpos, ← length_octets before,
    List.getElem?_append_right (Nat.le_add_right _ _), Nat.add_sub_cancel_left]

/-- The byte at a cursor is that of an ASCII character exactly if the character comes next. -/
theorem StandsIn.byteAt?_eq_iff (h : c.StandsIn source.toList) {a : Char} (ha : IsAscii a) :
    byteAt? source c.pos = some a.toUInt8 ↔ c.rest.head? = some a := by
  rw [← head?_octets_eq_iff ha, List.head?_eq_getElem?]
  exact iff_of_eq (congrArg (· = _) (h.byteAt?_add 0))

/-- All bytes of the next character have eight bits, if it is outside ASCII. -/
theorem StandsIn.exists_high_byte (h : c.StandsIn source.toList) {d : Char} {ds : List Char}
    (hrest : c.rest = d :: ds) (hd : ¬ IsAscii d) {k : Nat} (hk : k < d.utf8Size) :
    ∃ b, byteAt? source (c.pos + k) = some b ∧ 128 ≤ b.toNat := by
  have hlt : k < (String.utf8EncodeChar d).length := by rwa [String.length_utf8EncodeChar]
  refine ⟨(String.utf8EncodeChar d)[k], ?_, high_of_not_isAscii hd _ (List.getElem_mem hlt)⟩
  rw [h.byteAt?_add, hrest, octets_cons, List.getElem?_append_left hlt,
    List.getElem?_eq_getElem hlt]

end Cursor

/-- A byte inside a character has eight bits. -/
theorem Text.exists_high_byte_of_inside {source : String} {n : Nat}
    (h : locate source.toList n = .inside) :
    ∃ b, byteAt? source n = some b ∧ 128 ≤ b.toNat := by
  obtain ⟨before, d, after, k, htext, rfl, hk, hlt⟩ := exists_of_locate_eq_inside h
  have hc : (Cursor.mk (byteSize before) (d :: after)).StandsIn source.toList :=
    Cursor.standsIn_iff.mpr ⟨before, htext, rfl⟩
  -- A character with room for an offset inside it takes more than one byte.
  have hd : ¬ IsAscii d := fun hascii => by
    have hone := hascii.utf8Size_eq_one
    omega
  exact hc.exists_high_byte rfl hd hlt

end PascalScan
