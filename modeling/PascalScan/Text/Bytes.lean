/-!
# `PascalScan.Text.Bytes`: byte offsets into a text

A text is a list of characters, and every offset that the library reports counts the bytes of
its UTF-8 form. This module relates the two.

* `byteSize` is the number of bytes a run of characters takes.
* `locate` says where a byte offset falls: between two characters, inside one, or past the end.
* `slice?` cuts out the characters between two offsets, when both fall between characters.

`locate_eq_boundary_iff` and `locate_eq_beyond_iff` are the two facts that later modules use:
an offset falls between characters exactly when it is the size of some leading part of the text.
-/

set_option autoImplicit false

namespace PascalScan.Text

/-! ### Size in bytes -/

/-- The number of bytes in the UTF-8 form of `cs`. -/
def byteSize (cs : List Char) : Nat :=
  cs.foldl (fun n c => n + c.utf8Size) 0

/-- A running total can be taken out of the fold. -/
theorem foldl_utf8Size_eq_add (cs : List Char) (n : Nat) :
    cs.foldl (fun n c => n + c.utf8Size) n = n + byteSize cs := by
  induction cs generalizing n with
  | nil => rfl
  | cons c cs ih =>
    simp only [byteSize, List.foldl_cons, Nat.zero_add]
    rw [ih, ih c.utf8Size, Nat.add_assoc]

/-- An empty text has no bytes. -/
@[simp] theorem byteSize_nil : byteSize [] = 0 := rfl

/-- The bytes of a text are those of its first character and those of the rest. -/
@[simp] theorem byteSize_cons (c : Char) (cs : List Char) :
    byteSize (c :: cs) = c.utf8Size + byteSize cs := by
  simp only [byteSize, List.foldl_cons, Nat.zero_add]
  exact foldl_utf8Size_eq_add cs c.utf8Size

/-- The sizes of texts add up. -/
@[simp] theorem byteSize_append (as bs : List Char) :
    byteSize (as ++ bs) = byteSize as + byteSize bs := by
  induction as with
  | nil => simp
  | cons a as ih => simp [ih, Nat.add_assoc]

/-- Every character takes at least one byte. -/
theorem length_le_byteSize (cs : List Char) : cs.length ≤ byteSize cs := by
  induction cs with
  | nil => simp
  | cons c cs ih =>
    have := c.utf8Size_pos
    simp only [List.length_cons, byteSize_cons]
    omega

/-- Only an empty text has no bytes, since every character has some. -/
theorem byteSize_eq_zero_iff {cs : List Char} : byteSize cs = 0 ↔ cs = [] := by
  constructor
  · intro h
    have := length_le_byteSize cs
    exact List.length_eq_zero_iff.mp (by omega)
  · rintro rfl
    rfl

/-! ### Where an offset falls -/

/-- Where a byte offset falls in a text. -/
inductive Place where
  /-- Between two characters, or at either end; `rest` is what follows. -/
  | boundary (rest : List Char)
  /-- Among the bytes of one character. -/
  | inside
  /-- After the last byte. -/
  | beyond
  deriving Repr, DecidableEq

/-- Finds byte offset `n` in a text. -/
def locate : List Char → Nat → Place
  | rest, 0 => .boundary rest
  | [], _ + 1 => .beyond
  | c :: cs, n + 1 =>
    if c.utf8Size ≤ n + 1 then locate cs (n + 1 - c.utf8Size) else .inside

/-- The start of a text is a boundary. -/
@[simp] theorem locate_zero (cs : List Char) : locate cs 0 = .boundary cs := by
  cases cs <;> rfl

/-- An offset that covers the first character falls where the remainder falls in the rest. -/
theorem locate_cons_add (c : Char) (cs : List Char) (n : Nat) :
    locate (c :: cs) (c.utf8Size + n) = locate cs n := by
  have := c.utf8Size_pos
  obtain ⟨m, hm⟩ : ∃ m, c.utf8Size + n = m + 1 := ⟨c.utf8Size + n - 1, by omega⟩
  have hle : c.utf8Size ≤ m + 1 := by omega
  rw [hm, locate, if_pos hle]
  congr 1
  omega

/-- Past a leading part, an offset falls where the remainder falls in what follows. -/
theorem locate_append_add (before rest : List Char) (n : Nat) :
    locate (before ++ rest) (byteSize before + n) = locate rest n := by
  induction before with
  | nil => simp
  | cons c cs ih =>
    rw [List.cons_append, byteSize_cons, Nat.add_assoc, locate_cons_add, ih]

/-- An offset falls between characters exactly when it is the size of a leading part. -/
theorem locate_eq_boundary_iff {text rest : List Char} {n : Nat} :
    locate text n = .boundary rest ↔ ∃ before, text = before ++ rest ∧ n = byteSize before := by
  constructor
  · intro h
    -- The characters passed over are put back one at a time.
    fun_induction locate text n with
    | case1 cs =>
      cases h
      exact ⟨[], by simp⟩
    | case2 => cases h
    | case3 c cs n hle ih =>
      obtain ⟨before, rfl, hn⟩ := ih h
      refine ⟨c :: before, rfl, ?_⟩
      simp only [byteSize_cons]
      omega
    | case4 => cases h
  · rintro ⟨before, rfl, rfl⟩
    simpa using locate_append_add before rest 0

/-- An offset falls past the end exactly when it is larger than the text. -/
theorem locate_eq_beyond_iff {text : List Char} {n : Nat} :
    locate text n = .beyond ↔ byteSize text < n := by
  fun_induction locate text n with
  | case1 => simp
  | case2 => simp
  | case3 c cs n hle ih =>
    rw [ih]
    simp only [byteSize_cons]
    omega
  | case4 c cs n hlt =>
    simp only [byteSize_cons, reduceCtorEq, false_iff]
    omega

/-! ### Slices -/

/-- The characters `taken` so far, which are kept latest first, and after them those in the next
`n` bytes. There is no answer if the text ends before, or if a character would be cut in two. -/
def takeBytes? (taken : List Char) : List Char → Nat → Option (List Char)
  | _, 0 => some taken.reverse
  | [], _ + 1 => none
  | c :: cs, n + 1 =>
    if c.utf8Size ≤ n + 1 then takeBytes? (c :: taken) cs (n + 1 - c.utf8Size) else none

/-- Taking bytes succeeds where `locate` finds a boundary, and takes what comes before it. -/
theorem takeBytes?_eq_some_iff {taken rest cs : List Char} {n : Nat} :
    takeBytes? taken rest n = some cs ↔
      ∃ mid after, rest = mid ++ after ∧ n = byteSize mid ∧ cs = taken.reverse ++ mid := by
  fun_induction takeBytes? taken rest n with
  | case1 taken rest =>
    constructor
    · intro h
      cases h
      exact ⟨[], rest, by simp⟩
    · rintro ⟨mid, after, -, hn, rfl⟩
      simp [byteSize_eq_zero_iff.mp hn.symm]
  | case2 taken n =>
    constructor
    · intro h
      cases h
    · rintro ⟨mid, after, hnil, hn, -⟩
      obtain ⟨rfl, -⟩ := List.append_eq_nil_iff.mp hnil.symm
      simp at hn
  | case3 taken c cs' n hle ih =>
    -- The first character fits into what is left to take, so it is the first of those taken.
    rw [ih]
    clear ih
    constructor
    · rintro ⟨mid, after, rfl, hn, rfl⟩
      refine ⟨c :: mid, after, rfl, ?_, by simp⟩
      simp only [byteSize_cons]
      omega
    · rintro ⟨mid, after, hcs, hn, rfl⟩
      cases mid with
      | nil => simp at hn
      | cons d mid =>
        obtain ⟨rfl, rfl⟩ := List.cons.inj hcs
        refine ⟨mid, after, rfl, ?_, by simp⟩
        simp only [byteSize_cons] at hn
        omega
  -- Here the first character does not fit.
  | case4 taken c cs' n hlt =>
    constructor
    · intro h
      cases h
    · rintro ⟨mid, after, hcs, hn, -⟩
      cases mid with
      | nil => simp at hn
      | cons d mid =>
        obtain ⟨rfl, rfl⟩ := List.cons.inj hcs
        simp only [byteSize_cons] at hn
        omega

/-- The characters between byte offsets `start` and `stop`, if both fall between characters and
`stop` does not come first. -/
def slice? (text : List Char) (start stop : Nat) : Option (List Char) :=
  if stop < start then none else
  match locate text start with
  | .boundary rest => takeBytes? [] rest (stop - start)
  | _ => none

/-- The characters between two byte offsets, and nothing for offsets that cut no slice out. -/
def slice (text : List Char) (start stop : Nat) : List Char :=
  (slice? text start stop).getD []

/-- A slice is the middle of a text split in three. -/
theorem slice?_eq_some_iff {text cs : List Char} {start stop : Nat} :
    slice? text start stop = some cs ↔
      ∃ before after, text = before ++ cs ++ after ∧ start = byteSize before ∧
        stop = byteSize (before ++ cs) := by
  constructor
  · intro h
    unfold slice? at h
    split at h
    · cases h
    split at h
    next rest hrest =>
      -- The front is split off at `start`, and the middle at `stop`.
      obtain ⟨before, rfl, rfl⟩ := locate_eq_boundary_iff.mp hrest
      obtain ⟨mid, after, rfl, hmid, rfl⟩ := takeBytes?_eq_some_iff.mp h
      refine ⟨before, after, by simp, rfl, ?_⟩
      rw [byteSize_append]
      omega
    next => cases h
  · rintro ⟨before, after, rfl, rfl, rfl⟩
    have hrest : locate (before ++ cs ++ after) (byteSize before) = .boundary (cs ++ after) :=
      locate_eq_boundary_iff.mpr ⟨before, by simp, rfl⟩
    have hle : ¬ byteSize (before ++ cs) < byteSize before := by simp
    simp only [slice?, if_neg hle, hrest]
    exact takeBytes?_eq_some_iff.mpr ⟨cs, after, rfl, by simp, rfl⟩

end PascalScan.Text
