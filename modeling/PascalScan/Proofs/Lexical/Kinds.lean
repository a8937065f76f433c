import PascalScan.Lexical.Recognizer

/-!
# `PascalScan.Proofs.Lexical.Kinds`: which class makes which kind of token

Every kind of token is made by one lexical class, `Kind.recognizer`. `Recognizer.kind_of_run` says
that a class makes no other kinds. For comments the form matters too: `Comment.kind_of_scan` says
that it is the form of the comment that was opened first, whatever is opened inside it later.
-/

set_option autoImplicit false

namespace PascalScan

/-- The lexical class that makes the tokens of a kind. -/
def Kind.recognizer : Kind → Recognizer
  | .symbol | .symbolPair => .symbol
  | .comment _ => .comment
  | .string => .string
  | .identifier | .escapedIdentifier => .identifier
  | .integer _ | .real => .number
  | .blank => .blank

namespace Comment

/-- Opening a comment leaves the outermost one in place. -/
theorem outermost_cons (f top : Frame) (below : List Frame) :
    outermost f (top :: below) = outermost top below := by
  cases below <;> rfl

/-- Closing a comment leaves the form of the outermost one as it is. -/
theorem outermost_add_form (top outer : Frame) (t : Token) (outers : List Frame) :
    (outermost (outer.add t) outers).form = (outermost top (outer :: outers)).form := by
  cases outers <;> rfl

/-- A scan that ends makes a comment of the form that was opened first. -/
theorem kind_of_scan {line : Bool} {top : Frame} {below : List Frame} {pos : Nat}
    {cs : List Char} {m : Match} (h : scan line top below pos cs = .ok m) :
    m.kind = .comment (outermost top below).form := by
  -- to open, to close and to go on leave the form of the outermost frame as it is
  fun_induction scan line top below pos cs with
  | case1 top below pos cs ih => rw [ih h, outermost_cons]
  | case2 top below pos cs ih => rw [ih h, outermost_cons]
  | case3 => cases h; rfl
  | case4 top pos cs _ outer outers ih => rw [ih h, outermost_add_form]
  | case5 top below pos cs _ ih => exact ih h
  | case6 => cases h; rfl
  | case7 top pos cs _ outer outers ih => rw [ih h, outermost_add_form]
  | case8 top below pos cs _ ih => exact ih h
  | case9 => cases h; rfl
  | case10 top below pos cs _ ih => exact ih h
  | case11 top below pos c cs _ _ _ _ _ ih => exact ih h
  | case12 => cases h; rfl
  | case13 => cases h

/-- Comments are recognized as comments. -/
theorem kind_of_recognize {c : Cursor} {m : Match} (h : recognize c = .ok m) :
    ∃ form, m.kind = .comment form := by
  unfold recognize at h
  split at h
  · exact ⟨_, kind_of_scan h⟩
  · cases h
  · exact ⟨_, kind_of_scan h⟩
  · exact ⟨_, kind_of_scan h⟩
  all_goals cases h

end Comment

/-- Decimal digits make an integer or a real. -/
theorem Number.kind_of_decimal {c : Cursor} {m : Match} (h : Number.decimal c = .ok m) :
    m.kind = .integer .decimal ∨ m.kind = .real := by
  unfold Number.decimal at h
  split at h
  · cases h
  dsimp only at h
  split at h
  · cases h
  · cases h
    exact .inr rfl
  · split at h
    · cases h
      exact .inr rfl
    · cases h
      exact .inl rfl

/-- A number is an integer of some base or a real. -/
theorem Number.kind_of_recognize {c : Cursor} {m : Match} (h : Number.recognize c = .ok m) :
    (∃ base, m.kind = .integer base) ∨ m.kind = .real := by
  unfold Number.recognize Number.unsigned at h
  split at h
  · cases h
  split at h
  next =>
    split at h
    · cases h
      exact .inl ⟨_, rfl⟩
    · cases h
  next =>
    rcases Number.kind_of_decimal h with hkind | hkind
    · exact .inl ⟨_, hkind⟩
    · exact .inr hkind

/-- A class makes tokens of its own kinds only. -/
theorem Recognizer.kind_of_run {r : Recognizer} {c : Cursor} {m : Match} (h : r.run c = .ok m) :
    m.kind.recognizer = r := by
  unfold Recognizer.run at h
  split at h
  · cases h
  -- The kind is written into each match, except for comments and numbers, whose scans choose among
  -- several.
  cases r with
  | comment =>
    obtain ⟨form, hkind⟩ := Comment.kind_of_recognize h
    rw [hkind]
    rfl
  | string =>
    dsimp only [recognizeAt] at h
    unfold Quoted.recognize at h
    repeat' split at h
    all_goals cases h
    rfl
  | identifier =>
    dsimp only [recognizeAt] at h
    unfold Name.recognize at h
    repeat' split at h
    all_goals cases h
    all_goals rfl
  | number =>
    rcases Number.kind_of_recognize h with ⟨base, hkind⟩ | hkind <;> rw [hkind] <;> rfl
  | symbol =>
    dsimp only [recognizeAt] at h
    unfold Punctuation.recognize Punctuation.recognizeSingle at h
    repeat' split at h
    all_goals cases h
    all_goals rfl
  | blank =>
    dsimp only [recognizeAt] at h
    unfold Blank.recognize at h
    split at h
    · cases h
      rfl
    · cases h

end PascalScan
