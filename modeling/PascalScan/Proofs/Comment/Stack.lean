import PascalScan.Proofs.Comment.Grammar
import PascalScan.Proofs.Lexical.Kinds

/-!
# `PascalScan.Proofs.Comment.Stack`: what the scan of a comment does

The scan of a comment keeps the open comments on a stack. What it does with them is best said for
a whole piece of text at a time.

* `scan_contents`: over a piece of the body of the innermost open comment, the scan reads on and
  records the comments in the piece. Nothing else on the stack changes.
* `closed_or_unclosed`: whatever follows, a comment ends, or it is still open at the end of the
  text.
* `scan_closed` and `scan_unclosed`: in the first case the scan ends with a match, in the second
  with a failure that lists the open comments.

The first is an induction over `Contents`, with one lemma for each thing that the scan can meet.
The second knows nothing of the scan and is an induction over the length of the text. So the
recursion of the scan, which follows neither of them, is not used at all.
-/

set_option autoImplicit false

namespace PascalScan.Comment

open Text CommentForm

/-! ### Single steps of the scan -/

/-- An opener puts its comment on the stack. -/
theorem scan_opener {line : Bool} {inner : CommentForm} {top : Frame} {below : List Frame}
    {c d : Cursor} (hblock : inner ≠ .line) (hread : c.Reads inner.opener d) :
    scan line top below c.pos c.rest
      = scan line (.opened inner c.pos) (top :: below) d.pos d.rest := by
  -- With the text spelled out, the scan takes the step by computation.
  rw [hread.1, hread.2]
  cases inner with
  | brace => rfl
  | paren => rfl
  | line => contradiction

/-- The closer of a nested comment takes it off the stack. -/
theorem scan_closer {line : Bool} {top outer : Frame} {outers : List Frame} {c d : Cursor}
    (hblock : top.form ≠ .line) (hread : c.Reads top.form.closer d) :
    scan line top (outer :: outers) c.pos c.rest
      = scan line (outer.add (top.close d.pos)) outers d.pos d.rest := by
  rw [hread.1, hread.2]
  cases hform : top.form with
  | brace => exact if_pos hform
  | paren => exact if_pos hform
  | line => contradiction

/-- The closer of the outermost comment ends the scan. -/
theorem scan_last_closer {line : Bool} {top : Frame} {c d : Cursor}
    (hblock : top.form ≠ .line) (hread : c.Reads top.form.closer d) :
    scan line top [] c.pos c.rest = .ok (top.finish d) := by
  obtain ⟨pos, rest⟩ := d
  obtain ⟨hrest, rfl⟩ := hread
  rw [hrest]
  cases hform : top.form with
  | brace => exact if_pos hform
  | paren => exact if_pos hform
  | line => contradiction

/-- An ordinary character is passed over, unless it ends the line and the comment with it. -/
theorem scan_plain {line : Bool} {top : Frame} {below : List Frame} {c d : Cursor} {ch : Char}
    (hplain : Plain top.form c.rest) (hread : c.Reads [ch] d) (hline : line = true → ch ≠ '\n') :
    scan line top below c.pos c.rest = scan line top below d.pos d.rest := by
  obtain ⟨hrest, hpos⟩ := hread
  rw [byteSize_cons, byteSize_nil, Nat.add_zero] at hpos
  rw [hrest, List.singleton_append] at hplain
  obtain ⟨hbrace, hparen, hclose⟩ := hplain
  rw [hrest, List.singleton_append, hpos]
  generalize d.rest = cs at hbrace hparen hclose ⊢
  -- One case for each kind of place that the scan tells apart. Where a marker stands, the
  -- character is not ordinary, except in front of the closer of another form.
  rw [scan.eq_def]
  split
  next heq =>
    obtain ⟨rfl, rfl⟩ := List.cons.inj heq
    exact absurd ⟨cs, rfl⟩ hbrace
  next cs' heq =>
    obtain ⟨rfl, rfl⟩ := List.cons.inj heq
    exact absurd ⟨cs', rfl⟩ hparen
  next heq =>
    obtain ⟨rfl, rfl⟩ := List.cons.inj heq
    have hform : top.form ≠ .brace := by
      intro hform
      exact hclose ⟨cs, by rw [hform]; rfl⟩
    rw [if_neg hform]
    rfl
  next cs' heq =>
    obtain ⟨rfl, rfl⟩ := List.cons.inj heq
    have hform : top.form ≠ .paren := by
      intro hform
      exact hclose ⟨cs', by rw [hform]; rfl⟩
    -- The scan reads both characters of the foreign closer at once. From the second alone it
    -- would have got to the same place.
    rw [if_neg hform]
    rfl
  next heq =>
    obtain ⟨rfl, rfl⟩ := List.cons.inj heq
    rw [if_neg fun hl => hline hl rfl]
    rfl
  next heq =>
    obtain ⟨rfl, rfl⟩ := List.cons.inj heq
    rfl
  next heq => cases heq

/-! ### What the scan does with the contents of a comment -/

/-- Records the comments `ts`, which were closed one after the other inside this one. -/
def Frame.addAll (f : Frame) (ts : List Token) : Frame :=
  { f with closed := ts.reverse ++ f.closed }

/-- Recording comments does not change the form of the comment around them. -/
@[simp] theorem Frame.addAll_form (f : Frame) (ts : List Token) : (f.addAll ts).form = f.form := rfl

/-- Nor does it change where that comment was opened. -/
@[simp] theorem Frame.addAll_start (f : Frame) (ts : List Token) :
    (f.addAll ts).start = f.start := rfl

/-- There may be no comments to record. -/
theorem Frame.addAll_nil (f : Frame) : f.addAll [] = f := rfl

/-- Comments are recorded in the order in which they were closed. -/
theorem Frame.addAll_cons (f : Frame) (t : Token) (ts : List Token) :
    f.addAll (t :: ts) = (f.add t).addAll ts := by
  simp [addAll, add]

/-- A comment that is closed has those inside it that were recorded since it was opened. -/
theorem Frame.close_addAll_opened (form : CommentForm) (start stop : Nat) (ts : List Token) :
    ((Frame.opened form start).addAll ts).close stop
      = Token.ofSpan (.comment form) start stop ts := by
  simp [addAll, opened, close]

/-- Recording comments in the innermost one leaves the outermost where it was opened. -/
theorem outermost_addAll_start (top : Frame) (below : List Frame) (ts : List Token) :
    (outermost (top.addAll ts) below).start = (outermost top below).start := by
  cases below <;> rfl

/-- No line ends between the two cursors. -/
def OneLine (c d : Cursor) : Prop := ∀ s, c.Reads s d → '\n' ∉ s

/-- No line ends on a part of the way either. -/
theorem OneLine.part {a b c d : Cursor} {s t : List Char} (h : OneLine a d) (hab : a.Reads s b)
    (hcd : c.Reads t d) : OneLine b c := by
  intro mid hmid hmem
  exact h _ ((hab.trans hmid).trans hcd) (by simp [hmem])

/-- The scan passes over a piece of the body of the innermost comment and records the comments
in it; everything else on the stack stays as it is. In a line comment this holds as long as the
piece is on one line. -/
theorem scan_contents {line : Bool} {form : CommentForm} {c d : Cursor} {ts : List Token}
    (h : Contents form c ts d) :
    ∀ {top : Frame} {below : List Frame}, top.form = form → (line = true → OneLine c d) →
      scan line top below c.pos c.rest = scan line (top.addAll ts) below d.pos d.rest := by
  -- The stack is general in the induction: inside a nested comment it is one higher.
  induction h with
  | nil =>
    intro top below _ _
    rw [Frame.addAll_nil]
  | @plain form c next d ch ts hplain hread tail ih =>
    rintro top below rfl hline
    obtain ⟨s, hs, -⟩ := tail.exists_body
    have hch (hl : line = true) : ch ≠ '\n' := by
      rintro rfl
      exact hline hl _ (hread.trans hs) (by simp)
    calc scan line top below c.pos c.rest
      _ = scan line top below next.pos next.rest := scan_plain hplain hread hch
      _ = scan line (top.addAll ts) below d.pos d.rest :=
          ih rfl fun hl => (hline hl).part hread (.refl d)
  | @comment form inner c opened closing next d inside ts hblock hopen hinside hclose tail
      ihInside ihTail =>
    rintro top below rfl hline
    obtain ⟨s, hs, -⟩ := tail.exists_body
    obtain ⟨s', hs', -⟩ := hinside.exists_body
    let nested := (Frame.opened inner c.pos).addAll inside
    -- Open, read on inside, close, and read on behind.
    calc scan line top below c.pos c.rest
      _ = scan line (.opened inner c.pos) (top :: below) opened.pos opened.rest :=
          scan_opener hblock hopen
      _ = scan line nested (top :: below) closing.pos closing.rest :=
          ihInside rfl fun hl => (hline hl).part hopen (hclose.trans hs)
      _ = scan line (top.add (nested.close next.pos)) below next.pos next.rest :=
          scan_closer hblock hclose
      _ = scan line ((top.add (nested.close next.pos)).addAll ts) below d.pos d.rest :=
          ihTail rfl fun hl => (hline hl).part ((hopen.trans hs').trans hclose) (.refl d)
      _ = _ := by rw [← Frame.addAll_cons, Frame.close_addAll_opened]

/-! ### Every comment ends or stays open -/

/-- The rest of a comment: behind the cursor `c` there is a piece of its body with the comments
`ts`, and then its closer, up to the cursor `e`. -/
def Closed (form : CommentForm) (c : Cursor) (ts : List Token) (e : Cursor) : Prop :=
  ∃ d, Contents form c ts d ∧ d.Reads form.closer e

/-- The text ends at the cursor `e`, and the comment that goes on behind `c` is still open there,
as are the comments `opens` inside it, each inside the one before. -/
inductive Unclosed : CommentForm → Cursor → List OpenComment → Cursor → Prop where
  /-- The text ends inside the comment itself. -/
  | here {form : CommentForm} {c d : Cursor} {ts : List Token} (hcontents : Contents form c ts d)
      (hrest : d.rest = []) : Unclosed form c [] d
  /-- A block comment inside is not closed. -/
  | inside {form inner : CommentForm} {c d opened e : Cursor} {ts : List Token}
      {opens : List OpenComment} (hcontents : Contents form c ts d) (hblock : inner ≠ .line)
      (hopen : d.Reads inner.opener opened) (tail : Unclosed inner opened opens e) :
      Unclosed form c (⟨inner, d.pos⟩ :: opens) e

/-- An ordinary character in front makes no difference to whether a comment ends. -/
theorem Unclosed.plain {form : CommentForm} {c next e : Cursor} {ch : Char}
    {opens : List OpenComment} (hplain : Plain form c.rest) (hread : c.Reads [ch] next)
    (h : Unclosed form next opens e) : Unclosed form c opens e := by
  cases h with
  | here hcontents hrest => exact .here (.plain hplain hread hcontents) hrest
  | inside hcontents hblock hopen tail =>
    exact .inside (.plain hplain hread hcontents) hblock hopen tail

/-- Neither does a complete comment. -/
theorem Unclosed.comment {form inner : CommentForm} {c opened next e : Cursor}
    {inside : List Token} {opens : List OpenComment} (hblock : inner ≠ .line)
    (hopen : c.Reads inner.opener opened) (hinside : Closed inner opened inside next)
    (h : Unclosed form next opens e) : Unclosed form c opens e := by
  obtain ⟨closing, hcontents, hclose⟩ := hinside
  cases h with
  | here hbehind hrest => exact .here (.comment hblock hopen hcontents hclose hbehind) hrest
  | inside hbehind hblock' hopen' tail =>
    exact .inside (.comment hblock hopen hcontents hclose hbehind) hblock' hopen' tail

/-- Behind every cursor, a comment ends or else stays open to the end of the text. -/
theorem closed_or_unclosed (form : CommentForm) (c : Cursor) :
    (∃ ts e, Closed form c ts e) ∨ ∃ opens e, Unclosed form c opens e := by
  induction hlen : c.rest.length using Nat.strongRecOn generalizing form c with
  | ind n ih =>
    subst hlen
    -- Where a comment is opened, the induction is used twice: for its inside, and if that ends,
    -- for what follows. Both are shorter.
    have hcomment {inner : CommentForm} (hblock : inner ≠ .line) (h : inner.opener <+: c.rest) :
        (∃ ts e, Closed form c ts e) ∨ ∃ opens e, Unclosed form c opens e := by
      obtain ⟨opened, hopen⟩ := Cursor.exists_reads_of_isPrefix h
      have hopened := hopen.length_lt inner.opener_ne_nil
      rcases ih _ hopened inner opened rfl with ⟨us, next, hus⟩ | ⟨opens, e, hunclosed⟩
      · have ⟨closing, hinside, hclose⟩ := hus
        obtain ⟨s, hs, -⟩ := hinside.exists_body
        have hnext := Nat.lt_of_le_of_lt (hs.trans hclose).length_le hopened
        rcases ih _ hnext form next rfl with ⟨ts, e, d, hts, hd⟩ | ⟨opens, e, hunclosed⟩
        · exact .inl ⟨_, e, d, .comment hblock hopen hinside hclose hts, hd⟩
        · exact .inr ⟨opens, e, hunclosed.comment hblock hopen hus⟩
      · exact .inr ⟨_, e, .inside .nil hblock hopen hunclosed⟩
    by_cases hbrace : CommentForm.brace.opener <+: c.rest
    · exact hcomment (by decide) hbrace
    by_cases hparen : CommentForm.paren.opener <+: c.rest
    · exact hcomment (by decide) hparen
    by_cases hclose : form.closer <+: c.rest
    · obtain ⟨d, hd⟩ := Cursor.exists_reads_of_isPrefix hclose
      exact .inl ⟨[], d, c, .nil, hd⟩
    -- No marker stands here, so the next character is ordinary, if there is one.
    cases hrest : c.rest with
    | nil => exact .inr ⟨[], c, .here .nil hrest⟩
    | cons ch cs =>
      have hplain : Plain form c.rest := ⟨hbrace, hparen, hclose⟩
      obtain ⟨next, hread⟩ := Cursor.exists_reads_of_isPrefix (c := c) (s := [ch]) (by simp [hrest])
      have hnext := hread.length_lt (by simp)
      rcases ih _ hnext form next rfl with ⟨ts, e, d, hts, hd⟩ | ⟨opens, e, hunclosed⟩
      · exact .inl ⟨ts, e, d, .plain hplain hread hts, hd⟩
      · exact .inr ⟨opens, e, hunclosed.plain hplain hread⟩

/-- The scan of a block comment that ends makes a match of it, with the comments in it. -/
theorem scan_closed {form : CommentForm} {start : Nat} {c e : Cursor} {ts : List Token}
    (hblock : form ≠ .line) (h : Closed form c ts e) :
    scan false (.opened form start) [] c.pos c.rest = .ok ⟨.comment form, ts, e⟩ := by
  obtain ⟨d, hcontents, hclose⟩ := h
  have htop : (Frame.opened form start).form = form := rfl
  have hlast : scan false ((Frame.opened form start).addAll ts) [] d.pos d.rest
      = .ok (((Frame.opened form start).addAll ts).finish e) := scan_last_closer hblock hclose
  rw [scan_contents hcontents htop (by simp), hlast]
  simp [Frame.finish, Frame.addAll, Frame.opened]

/-- The scan of a block comment that stays open fails, and lists what is open. -/
theorem scan_unclosed {form : CommentForm} {c e : Cursor} {opens : List OpenComment}
    (h : Unclosed form c opens e) :
    ∀ {top : Frame} {below : List Frame}, top.form = form →
      scan false top below c.pos c.rest = .error
        ⟨.unfinishedComment ((top :: below).reverse.map (fun f => ⟨f.form, f.start⟩) ++ opens),
          (outermost top below).start, e.pos⟩ := by
  -- Each comment that stays open is put on the stack, so the frames of the stack are listed
  -- in front of those that are still to come.
  induction h with
  | @here form c d ts hcontents hrest =>
    rintro top below rfl
    rw [scan_contents hcontents rfl (by simp), hrest]
    simp [scan, unfinished, outermost_addAll_start]
  | @inside form inner c d opened e ts opens hcontents hblock hopen _ ih =>
    rintro top below rfl
    rw [scan_contents hcontents rfl (by simp), scan_opener hblock hopen, ih rfl, outermost_cons,
      outermost_addAll_start]
    simp [Frame.opened]

end PascalScan.Comment
