import PascalScan.Proofs.Comment.Recognition
import PascalScan.Proofs.Lexical.Followed

/-!
# `PascalScan.Proofs.Comment.Line`: a line comment ends with its line

Whatever is opened and closed in it, a line comment goes up to the end of its line and includes it
(`next_of_recognize_line`). The place is found without the scan: `Cursor.lineEnd` reads up to the
first line feed.
-/

set_option autoImplicit false

namespace PascalScan

open Text

/-! ### The end of a line -/

namespace Cursor

/-- A character that does not end the line of a comment. -/
def staysOnLine (ch : Char) : Bool := ch != '\n'

/-- The place behind the first line feed, or the end of the text if there is none. -/
def lineEnd (c : Cursor) : Cursor := (c.skipWhile staysOnLine).eatOptional (· == '\n')

/-- The line goes on behind characters that do not end it. -/
theorem lineEnd_of_reads {c d : Cursor} {s : List Char} (hr : c.Reads s d) (hs : '\n' ∉ s) :
    c.lineEnd = d.lineEnd := by
  have hfits (ch : Char) (hch : ch ∈ s) : staysOnLine ch := by
    refine bne_iff_ne.mpr ?_
    rintro rfl
    exact hs hch
  have hskip : c.skipWhile staysOnLine = d.skipWhile staysOnLine :=
    skipWhile_eq_skipWhile_of_reads hr hfits
  rw [lineEnd, hskip, lineEnd]

/-- A line feed ends the line. -/
theorem lineEnd_of_feed {c d : Cursor} (hr : c.Reads ['\n'] d) : c.lineEnd = d := by
  have hskip : c.skipWhile staysOnLine = c := by
    refine skipWhile_eq_self ?_
    simp [hr.head?_eq, staysOnLine]
  have heat : c.eat (· == '\n') = some d := eat_eq_some_iff.mpr ⟨'\n', rfl, hr⟩
  rw [lineEnd, hskip, eatOptional, heat, Option.getD_some]

/-- So does the end of the text. -/
theorem lineEnd_of_rest_eq_nil {c : Cursor} (h : c.rest = []) : c.lineEnd = c := by
  have hskip : c.skipWhile staysOnLine = c := skipWhile_eq_self (by simp [h])
  have heat : c.eat (· == '\n') = none := eat_eq_none_iff.mpr (by simp [h])
  rw [lineEnd, hskip, eatOptional, heat, Option.getD_none]

/-- The line ends behind a line feed, or the text does. -/
theorem reads_lineEnd (c : Cursor) :
    ∃ s, '\n' ∉ s ∧ (c.Reads (s ++ ['\n']) c.lineEnd ∨ c.Reads s c.lineEnd ∧ c.lineEnd.rest = []) := by
  have hskip := skipWhile_reads staysOnLine c
  have hstays : '\n' ∉ c.rest.takeWhile staysOnLine := by
    intro hmem
    exact absurd (fits_of_mem_takeWhile hmem) (by decide)
  refine ⟨_, hstays, ?_⟩
  cases heat : (c.skipWhile staysOnLine).eat (· == '\n') with
  | some d =>
    obtain ⟨ch, hch, hr⟩ := eat_eq_some_iff.mp heat
    obtain rfl := beq_iff_eq.mp hch
    rw [lineEnd, eatOptional, heat, Option.getD_some]
    exact .inl (hskip.trans hr)
  | none =>
    rw [lineEnd, eatOptional, heat, Option.getD_none]
    refine .inr ⟨hskip, ?_⟩
    -- A character in front of which the line does not go on is a line feed.
    refine List.head?_eq_none_iff.mp (Option.eq_none_iff_forall_not_mem.mpr fun ch hch => ?_)
    have hstop : staysOnLine ch = false := not_fits_of_mem_head?_dropWhile hch
    have hfeed : (ch == '\n') = false := eat_eq_none_iff.mp heat ch hch
    rw [staysOnLine, bne, hfeed] at hstop
    cases hstop

/-- A line that has ended ends there whatever comes behind. -/
theorem lineEnd_followedBy {c : Cursor} {v : List Char} (h : '\n' ∈ c.rest) :
    (c.followedBy v).lineEnd = c.lineEnd.followedBy v := by
  obtain ⟨s, hs, hr | ⟨hr, hrest⟩⟩ := c.reads_lineEnd
  · obtain ⟨d, hd, hfeed⟩ := (reads_followedBy_iff (v := v)).mpr hr |>.split
    rw [lineEnd_of_reads hd hs, lineEnd_of_feed hfeed]
  · rw [hr.1, hrest, List.append_nil] at h
    exact absurd h hs

end Cursor

/-! ### Line comments -/

namespace Comment

/-- A scan that began with a line comment ends where the line does. -/
theorem next_of_scan_line {line : Bool} {top : Frame} {below : List Frame} {pos : Nat}
    {cs : List Char} {m : Match} (hline : line = true) (hform : (outermost top below).form = .line)
    (h : scan line top below pos cs = .ok m) : m.next = (Cursor.mk pos cs).lineEnd := by
  -- What the scan reads in one step does not end the line, except for the line feed.
  have step {s : List Char} {pos pos' : Nat} {cs : List Char}
      (h : m.next = (Cursor.mk pos' cs).lineEnd) (hpos : pos' = pos + byteSize s) (hs : '\n' ∉ s) :
      m.next = (Cursor.mk pos (s ++ cs)).lineEnd := by
    rw [h]
    exact (Cursor.lineEnd_of_reads ⟨rfl, hpos⟩ hs).symm
  fun_induction scan line top below pos cs with
  | case1 top below pos cs ih =>
    exact step (s := ['{']) (ih (by rw [outermost_cons, hform]) h) rfl (by decide)
  | case2 top below pos cs ih =>
    exact step (s := ['(', '*']) (ih (by rw [outermost_cons, hform]) h) rfl (by decide)
  | case3 top pos cs htop =>
    rw [show (outermost top []).form = top.form from rfl, htop] at hform
    cases hform
  | case4 top pos cs _ outer outers ih =>
    rw [← outermost_add_form top outer (top.close (pos + 1)) outers] at hform
    exact step (s := ['}']) (ih hform h) rfl (by decide)
  | case5 top below pos cs _ ih => exact step (s := ['}']) (ih hform h) rfl (by decide)
  | case6 top pos cs htop =>
    rw [show (outermost top []).form = top.form from rfl, htop] at hform
    cases hform
  | case7 top pos cs _ outer outers ih =>
    rw [← outermost_add_form top outer (top.close (pos + 2)) outers] at hform
    exact step (s := ['*', ')']) (ih hform h) rfl (by decide)
  | case8 top below pos cs _ ih => exact step (s := ['*', ')']) (ih hform h) rfl (by decide)
  | case9 top below pos cs =>
    cases h
    exact (Cursor.lineEnd_of_feed (c := ⟨pos, '\n' :: cs⟩) ⟨rfl, rfl⟩).symm
  | case10 top below pos cs hnot => exact absurd hline hnot
  | case11 top below pos ch cs _ _ _ _ hfeed ih =>
    exact step (s := [ch]) (ih hform h) (by simp) (by simpa using fun heq => hfeed heq.symm)
  | case12 top below pos =>
    cases h
    exact (Cursor.lineEnd_of_rest_eq_nil rfl).symm
  | case13 => cases h

/-- A line comment ends where its line does. -/
theorem next_of_recognize_line {c opened : Cursor} {m : Match}
    (hopen : c.Reads CommentForm.line.opener opened) (h : recognize c = .ok m) :
    m.next = opened.lineEnd := by
  rw [recognize_eq_scan_of_opener hopen] at h
  exact next_of_scan_line rfl rfl h

/-- A line comment holds the end of its line, or the text ends with it. -/
theorem feed_mem_or_rest_eq_nil {c : Cursor} {m : Match} (h : recognize c = .ok m)
    (hkind : m.kind = .comment .line) :
    (∃ s, c.Reads (s ++ ['\n']) m.next) ∨ m.next.rest = [] := by
  obtain ⟨opened, hopen⟩ := exists_opener_of_recognize h hkind
  obtain ⟨s, -, hr | ⟨-, hrest⟩⟩ := opened.reads_lineEnd
  · rw [next_of_recognize_line hopen h]
    exact .inl ⟨CommentForm.line.opener ++ s, by simpa using hopen.trans hr⟩
  · rw [next_of_recognize_line hopen h]
    exact .inr hrest

end Comment

end PascalScan
