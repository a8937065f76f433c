import PascalScan.Text.Bytes

/-!
# `PascalScan.Text.Excerpt`: cutting characters out of a string

`slice` finds a stretch of a text by walking up to it, which is the right thing to reason about
and the wrong thing to do for thousands of tokens. A string holds its bytes, so `excerpt` copies
those of the stretch and looks at no others. `excerpt_eq_of_slice?` says that the two agree on
every stretch that `slice?` cuts out.
-/

set_option autoImplicit false

namespace PascalScan.Text

/-- The characters of `source` between two byte offsets, which have to fall between characters. -/
def excerpt (source : String) (start stop : Nat) : String :=
  String.Pos.Raw.extract source ⟨start⟩ ⟨stop⟩

/-- Stepping over a character moves on by its size. -/
theorem rawPos_add_char (n : Nat) (c : Char) :
    (⟨n⟩ : String.Pos.Raw) + c = ⟨n + c.utf8Size⟩ := rfl

/-- An offset is not the one behind a non-empty run of characters. -/
theorem rawPos_ne_behind (n : Nat) (c : Char) (cs : List Char) :
    (⟨n⟩ : String.Pos.Raw) ≠ ⟨n + byteSize (c :: cs)⟩ := by
  have := c.utf8Size_pos
  intro h
  have h := congrArg String.Pos.Raw.byteIdx h
  simp only [byteSize_cons] at h
  omega

/-- Copying from where the stretch starts takes the characters up to where it ends. -/
theorem go₂_eq_of_append (mid after : List Char) (n : Nat) :
    String.Pos.Raw.extract.go₂ (mid ++ after) ⟨n⟩ ⟨n + byteSize mid⟩ = mid := by
  induction mid generalizing n with
  | nil =>
    cases after with
    | nil => rfl
    | cons c cs => exact if_pos rfl
  | cons c mid ih =>
    refine (if_neg (rawPos_ne_behind n c mid)).trans ?_
    rw [rawPos_add_char, byteSize_cons, ← Nat.add_assoc]
    exact congrArg (c :: ·) (ih (n + c.utf8Size))

/-- Looking for the start of the stretch passes over what comes before it. -/
theorem go₁_eq_of_append (before rest : List Char) (n : Nat) (stop : String.Pos.Raw) :
    String.Pos.Raw.extract.go₁ (before ++ rest) ⟨n⟩ ⟨n + byteSize before⟩ stop =
      String.Pos.Raw.extract.go₂ rest ⟨n + byteSize before⟩ stop := by
  induction before generalizing n with
  | nil =>
    cases rest with
    | nil => rfl
    | cons c cs => exact if_pos rfl
  | cons c before ih =>
    refine (if_neg (rawPos_ne_behind n c before)).trans ?_
    rw [rawPos_add_char, byteSize_cons, ← Nat.add_assoc]
    exact ih (n + c.utf8Size)

/-- On a stretch that can be cut out, the excerpt holds exactly its characters. -/
theorem excerpt_eq_of_slice? {source : String} {start stop : Nat} {cs : List Char}
    (h : slice? source.toList start stop = some cs) :
    excerpt source start stop = String.ofList cs := by
  obtain ⟨before, after, htext, rfl, rfl⟩ := slice?_eq_some_iff.mp h
  show (if byteSize before ≥ byteSize (before ++ cs) then "" else
    String.ofList (String.Pos.Raw.extract.go₁ source.toList ⟨0⟩ ⟨byteSize before⟩
      ⟨byteSize (before ++ cs)⟩)) = String.ofList cs
  split
  next hle =>
    -- Nothing lies between the two offsets.
    rw [byteSize_append] at hle
    have hcs : cs = [] := byteSize_eq_zero_iff.mp (by omega)
    simp [hcs]
  next =>
    have hgo := go₁_eq_of_append before (cs ++ after) 0 ⟨byteSize (before ++ cs)⟩
    rw [Nat.zero_add] at hgo
    rw [htext, List.append_assoc, hgo, byteSize_append, go₂_eq_of_append]

end PascalScan.Text
