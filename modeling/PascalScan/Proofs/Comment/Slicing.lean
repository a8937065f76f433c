import PascalScan.Proofs.Comment.Recognition
import PascalScan.Proofs.Token.Nesting

/-!
# `PascalScan.Proofs.Comment.Slicing`: no comment cuts a character in two

The scan of a comment makes a token whenever a comment is closed, out of two offsets that it has
counted up by itself. This module shows that these offsets always fall between characters, on any
text and at any depth.

`Frame.Fits` is what holds of each comment on the stack: it was opened in the text, and what was
closed inside it lies in the text. The steps of the scan keep it: reading on (`StackFits.of_reads`),
opening (`StackFits.push`), and closing (`StackFits.pop`). Two things follow.

* The tokens in a comment lie in the text, with all that is inside them.
* `scanCutting` cuts every token out of the text as it is made, and gives up when that is not
  possible. It never gives up, and finds the same as the scan. This is also about comments that are
  dropped when their line ends, of which no trace is left in the token.

`cuts_scan` proves both in one induction over the steps of the scan, and `cuts_recognize` says the
same of a whole comment, from its opener on.
-/

set_option autoImplicit false

namespace PascalScan.Comment

open Text

/-! ### What holds of an open comment -/

/-- The comment was opened in `source`, somewhere in front of the cursor, and the comments that
were closed inside it lie in `source`. -/
structure Frame.Fits (source : String) (f : Frame) (c : Cursor) : Prop where
  opened : ∃ (o : Cursor) (s : List Char),
    o.StandsIn source.toList ∧ o.pos = f.start ∧ s ≠ [] ∧ o.Reads s c
  closed : ∀ t ∈ f.closed, Token.LiesIn source t

variable {source : String}

/-- Reading on changes nothing. -/
theorem Frame.Fits.of_reads {f : Frame} {c d : Cursor} {s : List Char} (h : f.Fits source c)
    (hr : c.Reads s d) : f.Fits source d := by
  obtain ⟨o, lead, ho, hpos, hlead, hread⟩ := h.opened
  exact ⟨⟨o, lead ++ s, ho, hpos, by simp [hlead], hread.trans hr⟩, h.closed⟩

/-- A comment just opened has nothing closed inside it. -/
theorem Frame.fits_opened {form : CommentForm} {c d : Cursor} {s : List Char}
    (hc : c.StandsIn source.toList) (hr : c.Reads s d) (hs : s ≠ []) :
    (Frame.opened form c.pos).Fits source d :=
  ⟨⟨c, s, hc, rfl, hs, hr⟩, by simp [Frame.opened]⟩

/-- The token of a comment that is closed lies in the text. -/
theorem Frame.Fits.liesIn_close {f : Frame} {c : Cursor} (h : f.Fits source c) :
    Token.LiesIn source (f.close c.pos) := by
  obtain ⟨o, s, ho, hpos, hs, hr⟩ := h.opened
  unfold Frame.close
  rw [← hpos]
  refine Token.liesIn_of_reads ho hr hs fun t ht => ?_
  exact h.closed t (List.mem_reverse.mp ht)

/-- Such a token may be recorded in the comment around it. -/
theorem Frame.Fits.add {f : Frame} {c : Cursor} {t : Token} (h : f.Fits source c)
    (ht : Token.LiesIn source t) : (f.add t).Fits source c := by
  refine ⟨h.opened, fun u hu => ?_⟩
  rcases List.mem_cons.mp hu with rfl | hu
  · exact ht
  · exact h.closed u hu

/-- All comments on the stack fit. -/
def StackFits (source : String) (top : Frame) (below : List Frame) (c : Cursor) : Prop :=
  ∀ f ∈ top :: below, f.Fits source c

/-- A stack fits if its top and the rest of it do. -/
theorem stackFits_cons {top outer : Frame} {outers : List Frame} {c : Cursor} :
    StackFits source top (outer :: outers) c ↔
      top.Fits source c ∧ StackFits source outer outers c := by
  unfold StackFits
  rw [List.forall_mem_cons]

/-- The innermost of the open comments fits. -/
theorem StackFits.top {top : Frame} {below : List Frame} {c : Cursor}
    (h : StackFits source top below c) : top.Fits source c :=
  h top (by simp)

/-- Reading on changes nothing about any of them. -/
theorem StackFits.of_reads {top : Frame} {below : List Frame} {c d : Cursor} {s : List Char}
    (h : StackFits source top below c) (hr : c.Reads s d) : StackFits source top below d :=
  fun f hf => (h f hf).of_reads hr

/-- Opening a comment. -/
theorem StackFits.push {top : Frame} {below : List Frame} {form : CommentForm} {c d : Cursor}
    {s : List Char} (h : StackFits source top below c) (hc : c.StandsIn source.toList)
    (hr : c.Reads s d) (hs : s ≠ []) :
    StackFits source (.opened form c.pos) (top :: below) d :=
  stackFits_cons.mpr ⟨Frame.fits_opened hc hr hs, h.of_reads hr⟩

/-- Closing the innermost of several comments. -/
theorem StackFits.pop {top outer : Frame} {outers : List Frame} {c : Cursor}
    (h : StackFits source top (outer :: outers) c) :
    StackFits source (outer.add (top.close c.pos)) outers c := by
  obtain ⟨htop, hbelow⟩ := stackFits_cons.mp h
  intro f hf
  rcases List.mem_cons.mp hf with rfl | hf
  · exact hbelow.top.add htop.liesIn_close
  · exact hbelow f (by simp [hf])

/-- The outermost comment is one of those on the stack. -/
theorem outermost_mem (top : Frame) (below : List Frame) : outermost top below ∈ top :: below := by
  induction below generalizing top with
  | nil => exact List.mem_singleton.mpr rfl
  | cons outer outers ih =>
    rw [outermost_cons]
    exact List.mem_cons_of_mem top (ih outer)

/-! ### A scan that cuts out what it closes -/

/-- The token of a comment that ends at offset `stop`, if the text can be cut where it starts and
where it ends. -/
def Frame.cut (text : List Char) (f : Frame) (stop : Nat) : Except Misuse Token :=
  ((f.close stop).label.within text).map fun _ => f.close stop

/-- Reads on inside the comment `top` as `scan` does, but cuts each comment out of the text when it
is closed, whether or not it is kept. -/
def scanCutting (text : List Char) (line : Bool) (top : Frame) (below : List Frame) (pos : Nat) :
    List Char → Except Misuse Attempt
  | '{' :: cs => scanCutting text line (.opened .brace pos) (top :: below) (pos + 1) cs
  | '(' :: '*' :: cs => scanCutting text line (.opened .paren pos) (top :: below) (pos + 2) cs
  | '}' :: cs =>
    if top.form = .brace then
      (top.cut text (pos + 1)).bind fun t =>
        match below with
        | [] => .ok (.ok (top.finish ⟨pos + 1, cs⟩))
        | outer :: outers => scanCutting text line (outer.add t) outers (pos + 1) cs
    else
      scanCutting text line top below (pos + 1) cs
  | '*' :: ')' :: cs =>
    if top.form = .paren then
      (top.cut text (pos + 2)).bind fun t =>
        match below with
        | [] => .ok (.ok (top.finish ⟨pos + 2, cs⟩))
        | outer :: outers => scanCutting text line (outer.add t) outers (pos + 2) cs
    else
      scanCutting text line top below (pos + 2) cs
  | '\n' :: cs =>
    if line then
      ((outermost top below).cut text (pos + 1)).map fun _ =>
        .ok ((outermost top below).finish ⟨pos + 1, cs⟩)
    else
      scanCutting text line top below (pos + 1) cs
  | c :: cs => scanCutting text line top below (pos + c.utf8Size) cs
  | [] =>
    if line then
      ((outermost top below).cut text pos).map fun _ =>
        .ok ((outermost top below).finish ⟨pos, []⟩)
    else
      .ok (.error (unfinished top below pos))

/-- A comment that fits can be cut out. -/
theorem Frame.Fits.cut_eq_ok {f : Frame} {c : Cursor} (h : f.Fits source c) :
    f.cut source.toList c.pos = .ok (f.close c.pos) := by
  obtain ⟨cs, hslice, -⟩ := (h.liesIn_close _ .self).value
  have hfits : (f.close c.pos).label.fits source.toList :=
    Option.isSome_iff_exists.mpr ⟨cs, hslice⟩
  unfold Frame.cut Span.within
  rw [if_pos hfits]
  rfl

/-- What is inside the token of a comment that ends the scan lies in the text. -/
theorem Frame.Fits.liesIn_finish {f : Frame} {c next : Cursor} (h : f.Fits source c) :
    ∀ t ∈ (f.finish next).inner, Token.LiesIn source t :=
  fun t ht => h.closed t (List.mem_reverse.mp ht)

/-- The attempt can be had by cutting, and the tokens inside what it finds lie in the text. -/
structure Cuts (source : String) (cutting : Except Misuse Attempt) (attempt : Attempt) : Prop where
  eq_ok : cutting = .ok attempt
  liesIn : ∀ m, attempt = .ok m → ∀ t ∈ m.inner, Token.LiesIn source t

/-- A comment that fits may end the scan. -/
theorem Frame.Fits.cuts_finish {f : Frame} {c : Cursor} (h : f.Fits source c) :
    Cuts source ((f.cut source.toList c.pos).map fun _ => .ok (f.finish c)) (.ok (f.finish c)) := by
  refine ⟨by rw [h.cut_eq_ok]; rfl, fun m hm => ?_⟩
  cases hm
  exact h.liesIn_finish

/-- Along a scan the comments on the stack fit, so each of them can be cut out. -/
theorem cuts_scan {line : Bool} {top : Frame} {below : List Frame} {pos : Nat} {cs : List Char} :
    (Cursor.mk pos cs).StandsIn source.toList → StackFits source top below ⟨pos, cs⟩ →
      Cuts source (scanCutting source.toList line top below pos cs)
        (scan line top below pos cs) := by
  -- A step reads the characters `s` and leaves a stack that fits.
  have hread (pos : Nat) (s cs : List Char) :
      (Cursor.mk pos (s ++ cs)).Reads s ⟨pos + byteSize s, cs⟩ := ⟨rfl, rfl⟩
  fun_induction scan line top below pos cs with
  | case1 top below pos cs ih =>
    intro hc hfits
    have hr := hread pos ['{'] cs
    exact ih (hc.of_reads hr) (hfits.push hc hr (by simp))
  | case2 top below pos cs ih =>
    intro hc hfits
    have hr := hread pos ['(', '*'] cs
    exact ih (hc.of_reads hr) (hfits.push hc hr (by simp))
  | case3 top pos cs hform =>
    intro _ hfits
    have hfinish := (hfits.of_reads (hread pos ['}'] cs)).top.cuts_finish
    rw [scanCutting, if_pos hform]
    exact hfinish
  | case4 top pos cs hform outer outers ih =>
    intro hc hfits
    have hr := hread pos ['}'] cs
    have hcut : top.cut source.toList (pos + 1) = .ok (top.close (pos + 1)) :=
      (hfits.of_reads hr).top.cut_eq_ok
    rw [scanCutting, if_pos hform, hcut]
    exact ih (hc.of_reads hr) (hfits.of_reads hr).pop
  | case5 top below pos cs hform ih =>
    intro hc hfits
    have hr := hread pos ['}'] cs
    rw [scanCutting, if_neg hform]
    exact ih (hc.of_reads hr) (hfits.of_reads hr)
  | case6 top pos cs hform =>
    intro _ hfits
    have hfinish := (hfits.of_reads (hread pos ['*', ')'] cs)).top.cuts_finish
    rw [scanCutting, if_pos hform]
    exact hfinish
  | case7 top pos cs hform outer outers ih =>
    intro hc hfits
    have hr := hread pos ['*', ')'] cs
    have hcut : top.cut source.toList (pos + 2) = .ok (top.close (pos + 2)) :=
      (hfits.of_reads hr).top.cut_eq_ok
    rw [scanCutting, if_pos hform, hcut]
    exact ih (hc.of_reads hr) (hfits.of_reads hr).pop
  | case8 top below pos cs hform ih =>
    intro hc hfits
    have hr := hread pos ['*', ')'] cs
    rw [scanCutting, if_neg hform]
    exact ih (hc.of_reads hr) (hfits.of_reads hr)
  | case9 top below pos cs hline =>
    intro _ hfits
    have hnext := hfits.of_reads (hread pos ['\n'] cs)
    rw [scanCutting, if_pos hline]
    exact (hnext _ (outermost_mem top below)).cuts_finish
  | case10 top below pos cs hline ih =>
    intro hc hfits
    have hr := hread pos ['\n'] cs
    rw [scanCutting, if_neg hline]
    exact ih (hc.of_reads hr) (hfits.of_reads hr)
  | case11 top below pos c cs hbrace hparen hclose hstar hline ih =>
    intro hc hfits
    have hr : (Cursor.mk pos (c :: cs)).Reads [c] ⟨pos + c.utf8Size, cs⟩ := ⟨rfl, by simp⟩
    rw [scanCutting]
    · exact ih (hc.of_reads hr) (hfits.of_reads hr)
    all_goals assumption
  | case12 top below pos hline =>
    intro _ hfits
    rw [scanCutting, if_pos hline]
    exact (hfits _ (outermost_mem top below)).cuts_finish
  | case13 top below pos hline =>
    intro _ _
    rw [scanCutting, if_neg hline]
    refine ⟨rfl, fun m hm => ?_⟩
    cases hm

/-! ### From the opener on -/

/-- A comment can be recognized by cutting, and the comments inside it lie in the text. -/
theorem cuts_recognize {form : CommentForm} {c opened : Cursor} (hc : c.StandsIn source.toList)
    (hopen : c.Reads form.opener opened) :
    Cuts source
      (scanCutting source.toList (form == .line) (.opened form c.pos) [] opened.pos opened.rest)
      (recognize c) := by
  rw [recognize_eq_scan_of_opener hopen]
  refine cuts_scan (hc.of_reads hopen) fun f hf => ?_
  obtain rfl := List.mem_singleton.mp hf
  exact Frame.fits_opened hc hopen form.opener_ne_nil

end PascalScan.Comment
