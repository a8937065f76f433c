import PascalScan.Proofs.Lexical.Failing
import PascalScan.Proofs.Lexical.Followed

/-!
# `PascalScan.Proofs.Comment.Cut`: a comment does not need the text behind it

The scan of a comment looks one character ahead of where it stands. If it ends in front of a cut, it
has never looked beyond the cut, or else what it has seen there made no difference
(`scan_of_followedBy`). So a comment is recognized in the text that is cut, with the same comments
inside (`recognize_of_followedBy`).

The other way round, what is a comment in the text that is cut may be longer in the whole text, if
it is a line comment, but is one (`exists_recognize_followedBy`).
-/

set_option autoImplicit false

namespace PascalScan.Comment

open Text

variable {v : List Char} {c : Cursor} {m : Match}

/-- The scan never goes back. -/
theorem length_le_of_scan {line : Bool} {top : Frame} {below : List Frame} {pos : Nat}
    {cs : List Char} {m : Match} (h : scan line top below pos cs = .ok m) :
    m.next.rest.length ≤ cs.length := by
  obtain ⟨s, hs⟩ := scan_reads h
  exact hs.length_le

/-- In front of a character, the scan goes on. -/
theorem length_lt_of_scan {line : Bool} {top : Frame} {below : List Frame} {pos : Nat}
    {cs : List Char} {m : Match} (h : scan line top below pos cs = .ok m) (hcs : cs ≠ []) :
    m.next.rest.length < cs.length := by
  -- One or two characters are read, and then the scan ends or goes on from there.
  have hone {ch : Char} {cs : List Char} (h : m.next.rest.length ≤ cs.length) :
      m.next.rest.length < (ch :: cs).length := Nat.lt_succ_of_le h
  have htwo {ch ch' : Char} {cs : List Char} (h : m.next.rest.length ≤ cs.length) :
      m.next.rest.length < (ch :: ch' :: cs).length := Nat.lt_succ_of_le (Nat.le_succ_of_le h)
  fun_induction scan line top below pos cs
  case case1 | case4 | case5 | case10 | case11 => exact hone (length_le_of_scan h)
  case case2 | case7 | case8 => exact htwo (length_le_of_scan h)
  case case3 | case9 =>
    cases h
    exact hone (Nat.le_refl _)
  case case6 =>
    cases h
    exact htwo (Nat.le_refl _)
  case case12 | case13 => contradiction

/-- The scan does not end in front of a cut if it goes on from behind the cut. -/
theorem scan_ne_ok_followedBy {line : Bool} {top : Frame} {below : List Frame} {pos : Nat}
    {cs : List Char} (hcs : cs.length < v.length) :
    scan line top below pos cs ≠ .ok (m.followedBy v) := by
  intro h
  have hle := length_le_of_scan h
  have hrest : (m.followedBy v).next.rest = m.next.rest ++ v := rfl
  rw [hrest, List.length_append] at hle
  omega

/-- A match that ends in front of a cut is the match of a comment that is finished there. -/
theorem finish_of_followedBy {f : Frame} {d : Cursor}
    (h : (Except.ok (f.finish (d.followedBy v)) : Attempt) = .ok (m.followedBy v)) :
    f.finish d = m := by
  obtain ⟨kind, inner, next⟩ := m
  obtain ⟨rfl, rfl, hnext⟩ := Match.mk.inj (Except.ok.inj h)
  have hd : d = next := Cursor.followedBy_inj hnext
  rw [hd]
  rfl

/-- At the cut the scan would go on, if anything is cut off at all. -/
theorem scan_nil_of_followedBy {line : Bool} {top : Frame} {below : List Frame} {pos : Nat}
    (h : scan line top below pos v = .ok (m.followedBy v)) :
    scan line top below pos [] = .ok m := by
  by_cases hv : v = []
  · subst hv
    have hm : m.followedBy [] = m := by
      obtain ⟨kind, inner, next, rest⟩ := m
      simp [Match.followedBy, Cursor.followedBy]
    rwa [hm] at h
  · have hlt := length_lt_of_scan h hv
    have hrest : (m.followedBy v).next.rest = m.next.rest ++ v := rfl
    rw [hrest, List.length_append] at hlt
    omega

/-- The scan of a comment that ends in front of the cut does the same without what is cut off. -/
theorem scan_of_followedBy {line : Bool} {top : Frame} {below : List Frame} {pos : Nat}
    {cs : List Char} (h : scan line top below pos (cs ++ v) = .ok (m.followedBy v)) :
    scan line top below pos cs = .ok m := by
  -- A marker that the cut goes through would lead the scan behind the cut.
  have hcut {ch : Char} {cs : List Char} (htail : [] ++ v = ch :: cs) : cs.length < v.length := by
    rw [List.nil_append] at htail
    rw [htail]
    exact Nat.lt_succ_self _
  fun_induction scan line top below pos cs with
  | case1 top below pos cs ih => exact ih h
  | case2 top below pos cs ih => exact ih h
  | case3 top pos cs hform =>
    have hfinish := finish_of_followedBy (d := ⟨pos + 1, cs⟩) ((if_pos hform).symm.trans h)
    exact congrArg Except.ok hfinish
  | case4 top pos cs hform outer outers ih => exact ih ((if_pos hform).symm.trans h)
  | case5 top below pos cs hform ih => exact ih ((if_neg hform).symm.trans h)
  | case6 top pos cs hform =>
    have hfinish := finish_of_followedBy (d := ⟨pos + 2, cs⟩) ((if_pos hform).symm.trans h)
    exact congrArg Except.ok hfinish
  | case7 top pos cs hform outer outers ih => exact ih ((if_pos hform).symm.trans h)
  | case8 top below pos cs hform ih => exact ih ((if_neg hform).symm.trans h)
  | case9 top below pos cs hline =>
    have hfinish := finish_of_followedBy (d := ⟨pos + 1, cs⟩) ((if_pos hline).symm.trans h)
    exact congrArg Except.ok hfinish
  | case10 top below pos cs hline ih => exact ih ((if_neg hline).symm.trans h)
  | case11 top below pos c cs hbrace hparen hclose hstar hline ih =>
    rw [List.cons_append, scan.eq_def] at h
    split at h
    next cs' heq => exact absurd (List.cons.inj heq).1 hbrace
    next cs' heq =>
      obtain ⟨rfl, htail⟩ := List.cons.inj heq
      cases cs with
      | nil => exact absurd h (scan_ne_ok_followedBy (hcut htail))
      | cons x xs => exact (hparen xs rfl (by rw [(List.cons.inj htail).1])).elim
    next cs' heq => exact absurd (List.cons.inj heq).1 hclose
    next cs' heq =>
      obtain ⟨rfl, htail⟩ := List.cons.inj heq
      cases cs with
      | nil =>
        split at h
        next =>
          split at h
          next =>
            have hrest : cs' = m.next.rest ++ v :=
              congrArg (fun m : Match => m.next.rest) (Except.ok.inj h)
            have hlen := hcut htail
            rw [hrest, List.length_append] at hlen
            omega
          next => exact absurd h (scan_ne_ok_followedBy (hcut htail))
        next => exact absurd h (scan_ne_ok_followedBy (hcut htail))
      | cons x xs => exact (hstar xs rfl (by rw [(List.cons.inj htail).1])).elim
    next cs' heq => exact absurd (List.cons.inj heq).1 hline
    next c' cs' _ _ _ _ _ heq =>
      obtain ⟨rfl, rfl⟩ := List.cons.inj heq
      exact ih h
    next heq => cases heq
  | case12 top below pos hline => exact (if_pos hline).symm.trans (scan_nil_of_followedBy h)
  | case13 top below pos hline => exact (if_neg hline).symm.trans (scan_nil_of_followedBy h)

/-- A comment that ends in front of `v` is recognized without `v`. -/
theorem recognize_of_followedBy (h : recognize (c.followedBy v) = .ok (m.followedBy v)) :
    recognize c = .ok m := by
  obtain ⟨form, hkind⟩ := kind_of_recognize h
  obtain ⟨opened, hopen⟩ := exists_opener_of_recognize h hkind
  rw [recognize_eq_scan_of_opener hopen] at h
  obtain ⟨s, hs⟩ := scan_reads h
  obtain ⟨opened, rfl, -⟩ :=
    Cursor.exists_eq_followedBy_of_reads (c := opened) (d := m.next) hs
  rw [recognize_eq_scan_of_opener (Cursor.reads_followedBy_iff.mp hopen)]
  exact scan_of_followedBy h

/-- A comment stays one when the text goes on: a block comment has ended, and a line comment ends
sooner or later. -/
theorem exists_recognize_followedBy (h : recognize c = .ok m) :
    ∃ n, recognize (c.followedBy v) = .ok n := by
  obtain ⟨form, hkind⟩ := kind_of_recognize h
  by_cases hblock : form = .line
  · obtain ⟨opened, hopen⟩ := exists_opener_of_recognize h hkind
    have hopen' : (c.followedBy v).Reads form.opener (opened.followedBy v) :=
      Cursor.reads_followedBy_iff.mpr hopen
    rw [recognize_eq_scan_of_opener hopen']
    cases hscan : scan (form == .line) (.opened form (c.followedBy v).pos) []
        (opened.followedBy v).pos (opened.followedBy v).rest with
    | ok n => exact ⟨n, rfl⟩
    | error f => exact absurd hscan (scan_ne_error (by rw [hblock]; rfl))
  · obtain ⟨kind, ts, e⟩ := m
    obtain rfl : kind = .comment form := hkind
    obtain ⟨s, hs, hr⟩ := (recognize_eq_ok_iff_complete hblock).mp ⟨ts, h⟩
    have hr' : (c.followedBy v).Reads s (e.followedBy v) := Cursor.reads_followedBy_iff.mpr hr
    obtain ⟨us, hus⟩ := (recognize_eq_ok_iff_complete hblock).mpr ⟨s, hs, hr'⟩
    exact ⟨_, hus⟩

end PascalScan.Comment
