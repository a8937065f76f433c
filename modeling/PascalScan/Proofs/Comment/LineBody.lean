import PascalScan.Proofs.Lexical.Apart

/-!
# `PascalScan.Proofs.Comment.LineBody`: what stands in a line comment

A line comment is recognized by the same scan as a block comment, with a stack on which comments
can be left open when the line ends. Seen from the line alone, the stack is not needed.

* `Contents.followedBy`: a piece of the body of a comment that is found on a line is found in the
  text as well, whatever stands behind the line.
* `scan_unclosed_on_line`: where block comments are opened and not closed on the line, the scan
  keeps what it finds in front of the first of them and drops the rest.
* `exists_contents_of_line`: so a line comment holds the piece of its line that goes up to the first
  block comment that is not closed on the line, or up to the end of the line.
-/

set_option autoImplicit false

namespace PascalScan

open Text CommentForm

/-! ### A line and what follows it -/

/-- The text is over or a line feed comes first, so a line that stands in front of it ends there. -/
def LineOver (v : List Char) : Prop := ∀ ch ∈ v.head?, ch = '\n'

/-- Where a line is over, a line break comes, which is a blank. -/
theorem LineOver.apart {v : List Char} (hv : LineOver v) : Apart v := by
  intro ch hch
  obtain rfl := hv ch hch
  rfl

/-- Every text is a line and something behind it. -/
theorem Cursor.exists_line (c : Cursor) :
    ∃ (line : Cursor) (v : List Char), c = line.followedBy v ∧ LineOver v ∧ '\n' ∉ line.rest := by
  refine ⟨⟨c.pos, c.rest.takeWhile staysOnLine⟩, c.rest.dropWhile staysOnLine, ?_, ?_, ?_⟩
  · rw [followedBy, List.takeWhile_append_dropWhile]
  · intro ch hch
    have hstop : staysOnLine ch = false := not_fits_of_mem_head?_dropWhile hch
    exact bne_eq_false_iff_eq.mp hstop
  · intro hmem
    exact absurd (fits_of_mem_takeWhile hmem) (by decide)

/-- A line that is read up to its end ends there. -/
theorem LineOver.lineEnd_eq {v : List Char} (hv : LineOver v) (pos : Nat) :
    (Cursor.mk pos v).lineEnd = ⟨pos + byteSize (v.take 1), v.drop 1⟩ := by
  cases v with
  | nil => exact Cursor.lineEnd_of_rest_eq_nil rfl
  | cons ch cs =>
    obtain rfl := hv ch rfl
    exact Cursor.lineEnd_of_feed ⟨rfl, rfl⟩

namespace Comment

variable {v : List Char}

/-! ### Pieces of a line in the text -/

/-- A character that is ordinary on its line is ordinary in the text. -/
theorem Plain.followedBy {form : CommentForm} {c : Cursor} (h : Plain form c.rest)
    (hne : c.rest ≠ []) (hv : Apart v) : Plain form (c.followedBy v).rest := by
  obtain ⟨hbrace, hparen, hclose⟩ := h
  have hopener {inner : CommentForm} (hblock : inner ≠ .line)
      (hm : inner.opener <+: (c.followedBy v).rest) : inner.opener <+: c.rest :=
    isPrefix_of_apart hv (fun _ => not_isBlank_of_mem_markers (opener_mem_markers hblock)) hm
  refine ⟨fun hm => hbrace (hopener (by decide) hm), fun hm => hparen (hopener (by decide) hm),
    fun hm => hclose ?_⟩
  by_cases hblock : form = .line
  · -- A line feed is a blank, but it is a single character and so the one that is asked about.
    subst hblock
    obtain ⟨ch, cs, hrest⟩ := List.exists_cons_of_ne_nil hne
    rw [Cursor.rest_followedBy, hrest] at hm
    rw [hrest]
    simpa [closer] using hm
  · exact isPrefix_of_apart hv (fun _ => not_isBlank_of_mem_markers (closer_mem_markers hblock)) hm

/-- A piece of a body stays one with more text behind its line. -/
theorem Contents.followedBy {form : CommentForm} {c d : Cursor} {ts : List Token}
    (h : Contents form c ts d) (hv : Apart v) :
    Contents form (c.followedBy v) ts (d.followedBy v) := by
  induction h with
  | nil => exact .nil
  | plain hplain hread _ ih =>
    have hne := List.ne_nil_of_length_pos (Nat.zero_lt_of_lt (hread.length_lt (by simp)))
    exact .plain (hplain.followedBy hne hv) (Cursor.reads_followedBy_iff.mpr hread) ih
  | @comment form inner c opened closing next d inside ts hblock hopen _ hclose _ ihInside ihTail =>
    have hopen' : (c.followedBy v).Reads inner.opener (opened.followedBy v) :=
      Cursor.reads_followedBy_iff.mpr hopen
    have hclose' : (closing.followedBy v).Reads inner.closer (next.followedBy v) :=
      Cursor.reads_followedBy_iff.mpr hclose
    have hcomment := Contents.comment hblock hopen' ihInside hclose' ihTail
    exact hcomment

/-! ### The scan of a line comment -/

/-- On a line, the scan of a line comment passes over a piece of a body as any scan does, and the
line still ends where it ended. -/
theorem scan_contents_on_line {form : CommentForm} {c d : Cursor} {ts : List Token} {top : Frame}
    (below : List Frame) (h : Contents form c ts d) (hv : LineOver v) (hline : '\n' ∉ c.rest)
    (htop : top.form = form) :
    scan true top below (c.followedBy v).pos (c.followedBy v).rest
      = scan true (top.addAll ts) below (d.followedBy v).pos (d.followedBy v).rest ∧
    (c.followedBy v).lineEnd = (d.followedBy v).lineEnd ∧ '\n' ∉ d.rest := by
  obtain ⟨s, hs, -⟩ := h.exists_body
  obtain ⟨hread, hrest⟩ : '\n' ∉ s ∧ '\n' ∉ d.rest := by
    rwa [hs.1, List.mem_append, not_or] at hline
  have hs' : (c.followedBy v).Reads s (d.followedBy v) := Cursor.reads_followedBy_iff.mpr hs
  refine ⟨scan_contents (h.followedBy hv.apart) htop fun _ s' hs'' => ?_,
    Cursor.lineEnd_of_reads hs' hread, hrest⟩
  rwa [hs''.same hs']

/-- At the end of its line a line comment ends, whatever is open. -/
theorem scan_line_over {top : Frame} {below : List Frame} {d : Cursor} (hv : LineOver v)
    (hrest : d.rest = []) :
    scan true top below (d.followedBy v).pos (d.followedBy v).rest
      = .ok ((outermost top below).finish (d.followedBy v).lineEnd) := by
  have hd : d.followedBy v = ⟨d.pos, v⟩ := by rw [Cursor.followedBy, hrest, List.nil_append]
  rw [hd, hv.lineEnd_eq]
  cases v with
  | nil => rfl
  | cons ch cs =>
    obtain rfl := hv ch rfl
    rfl

/-- Nothing more is read, or a block comment is opened here that is not closed. -/
def LeftOpen (d : Cursor) : Prop :=
  d.rest = [] ∨ ∃ inner opened opens e, inner ≠ .line ∧ d.Reads inner.opener opened ∧
    Unclosed inner opened opens e

/-- Where a comment is not closed on its line, the scan gets to the end of the line. Of all that it
finds, it keeps what stands in front of the first block comment that is not closed. -/
theorem scan_unclosed_on_line {form : CommentForm} {c e : Cursor} {opens : List OpenComment}
    (h : Unclosed form c opens e) (hv : LineOver v) :
    '\n' ∉ c.rest → ∃ ts d, Contents form c ts d ∧ LeftOpen d ∧
      ∀ {top : Frame} {below : List Frame}, top.form = form →
        scan true top below (c.followedBy v).pos (c.followedBy v).rest
          = .ok ((outermost (top.addAll ts) below).finish (c.followedBy v).lineEnd) := by
  induction h with
  | @here form c d ts hcontents hrest =>
    intro hline
    refine ⟨ts, d, hcontents, .inl hrest, fun {top below} htop => ?_⟩
    obtain ⟨hscan, hend, -⟩ := scan_contents_on_line below hcontents hv hline htop
    rw [hscan, hend, scan_line_over hv hrest]
  | @inside form inner c d opened e ts opens hcontents hblock hopen htail ih =>
    intro hline
    refine ⟨ts, d, hcontents, .inr ⟨inner, opened, opens, e, hblock, hopen, htail⟩,
      fun {top below} htop => ?_⟩
    obtain ⟨hscan, hend, hrest⟩ := scan_contents_on_line below hcontents hv hline htop
    have hopen' := Cursor.reads_followedBy_iff (v := v) |>.mpr hopen
    rw [hopen.1, List.mem_append, not_or] at hrest
    obtain ⟨us, _, -, -, hinside⟩ := ih hrest.2
    -- What is found behind the opener is recorded above the frames that were there before.
    rw [hscan, scan_opener hblock hopen', hinside rfl, outermost_cons, hend,
      Cursor.lineEnd_of_reads hopen' hrest.1]

/-- A line comment holds what stands on its line in front of the first block comment that is not
closed on the line. -/
theorem exists_contents_of_line {c opened : Cursor} (hopen : c.Reads line.opener opened) :
    ∃ (start stop : Cursor) (v : List Char) (ts : List Token),
      opened = start.followedBy v ∧ LineOver v ∧ '\n' ∉ start.rest ∧
      Contents .line start ts stop ∧ LeftOpen stop ∧
      recognize c = .ok ⟨.comment .line, ts, opened.lineEnd⟩ := by
  obtain ⟨start, v, rfl, hv, hline⟩ := opened.exists_line
  -- A line does not end on the line itself.
  obtain ⟨opens, e, hunclosed⟩ : ∃ opens e, Unclosed .line start opens e := by
    refine (closed_or_unclosed .line start).resolve_left fun ⟨ts, stop, d, hcontents, hclose⟩ => ?_
    obtain ⟨s, hs, -⟩ := hcontents.exists_body
    rw [(hs.trans hclose).1] at hline
    simp [closer] at hline
  obtain ⟨ts, stop, hcontents, hleft, hscan⟩ := scan_unclosed_on_line hunclosed hv hline
  refine ⟨start, stop, v, ts, rfl, hv, hline, hcontents, hleft, ?_⟩
  rw [recognize_eq_scan_of_opener hopen]
  refine (hscan rfl).trans ?_
  simp [outermost, Frame.finish, Frame.addAll, Frame.opened]

end Comment

end PascalScan
