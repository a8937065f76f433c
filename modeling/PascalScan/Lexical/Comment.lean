import PascalScan.Lexical.Match

/-!
# `PascalScan.Lexical.Comment`: comments and their nesting

There are three forms of comment: `{ … }`, `(* … *)`, and `// …` up to and including the end of
the line. The first two nest inside every form, mixed freely. A closer ends the innermost open
comment if the forms agree and is ordinary content otherwise, so `{ *) }` is one comment.

A line comment ends with its line whatever is open inside it: comments that were closed before
are kept as its inner tokens, and those still open are dropped.

The scan keeps the open comments in a stack, innermost first, so that its depth is bounded by
the text and not by the call stack. If the text ends before the outermost comment does, the
failure lists every open comment.
-/

set_option autoImplicit false

namespace PascalScan.Comment

open Text

/-! ### Open comments -/

/-- A comment that is still open, with the comments closed right inside it, latest first. -/
structure Frame where
  form : CommentForm
  start : Nat
  closed : List Token

namespace Frame

/-- A comment just opened at offset `start`. -/
def opened (form : CommentForm) (start : Nat) : Frame := ⟨form, start, []⟩

/-- The token of a nested comment that ends at offset `stop`. -/
def close (f : Frame) (stop : Nat) : Token :=
  .ofSpan (.comment f.form) f.start stop f.closed.reverse

/-- Records a comment that was closed inside this one. -/
def add (f : Frame) (t : Token) : Frame := { f with closed := t :: f.closed }

/-- The match for an outermost comment after which reading goes on at `next`. -/
def finish (f : Frame) (next : Cursor) : Match :=
  ⟨.comment f.form, f.closed.reverse, next⟩

end Frame

/-- The outermost of the open comments. -/
def outermost (top : Frame) (below : List Frame) : Frame := below.getLastD top

/-- The failure at offset `stop`, the end of the text, with comments still open. -/
def unfinished (top : Frame) (below : List Frame) (stop : Nat) : Failure :=
  ⟨.unfinishedComment ((top :: below).reverse.map fun f => ⟨f.form, f.start⟩),
    (outermost top below).start, stop⟩

/-! ### The scan -/

/-- Reads on inside the comment `top`, which lies inside the comments `below`. The flag `line`
says that the outermost comment ends with its line. -/
def scan (line : Bool) (top : Frame) (below : List Frame) (pos : Nat) : List Char → Attempt
  | '{' :: cs => scan line (.opened .brace pos) (top :: below) (pos + 1) cs
  | '(' :: '*' :: cs => scan line (.opened .paren pos) (top :: below) (pos + 2) cs
  | '}' :: cs =>
    if top.form = .brace then
      match below with
      | [] => .ok (top.finish ⟨pos + 1, cs⟩)
      | outer :: outers => scan line (outer.add (top.close (pos + 1))) outers (pos + 1) cs
    else
      -- A closer of another form is ordinary content.
      scan line top below (pos + 1) cs
  | '*' :: ')' :: cs =>
    if top.form = .paren then
      match below with
      | [] => .ok (top.finish ⟨pos + 2, cs⟩)
      | outer :: outers => scan line (outer.add (top.close (pos + 2))) outers (pos + 2) cs
    else
      scan line top below (pos + 2) cs
  | '\n' :: cs =>
    if line then .ok ((outermost top below).finish ⟨pos + 1, cs⟩)
    else scan line top below (pos + 1) cs
  | c :: cs => scan line top below (pos + c.utf8Size) cs
  | [] =>
    if line then .ok ((outermost top below).finish ⟨pos, []⟩)
    else .error (unfinished top below pos)

/-- Recognizes a comment with everything nested in it. -/
def recognize (c : Cursor) : Attempt :=
  match c.rest with
  | '/' :: '/' :: cs => scan true (.opened .line c.pos) [] (c.pos + 2) cs
  | '/' :: _ => .error ⟨.loneSlash, c.pos, c.pos + 1⟩
  | '{' :: cs => scan false (.opened .brace c.pos) [] (c.pos + 1) cs
  | '(' :: '*' :: cs => scan false (.opened .paren c.pos) [] (c.pos + 2) cs
  | ['('] => .error ⟨.loneParenthesis, c.pos, c.pos + 1⟩
  | '(' :: _ => .error ⟨.notAComment, c.pos, c.pos + 1⟩
  | _ => .error (.onSpot .notAComment c.pos)

/-! ### Progress -/

/-- The scan reads on from where it stands. -/
theorem scan_reads {line : Bool} {top : Frame} {below : List Frame} {pos : Nat} {cs : List Char}
    {m : Match} (h : scan line top below pos cs = .ok m) :
    ∃ s, (Cursor.mk pos cs).Reads s m.next := by
  -- Each step reads one or two characters and then goes on, or ends right there.
  have step {s : List Char} {pos pos' : Nat} {cs : List Char}
      (h : ∃ t, (Cursor.mk pos' cs).Reads t m.next) (hpos : pos' = pos + byteSize s) :
      ∃ t, (Cursor.mk pos (s ++ cs)).Reads t m.next := by
    obtain ⟨t, ht⟩ := h
    exact ⟨_, Cursor.Reads.trans ⟨rfl, hpos⟩ ht⟩
  have last {s : List Char} {pos pos' : Nat} {cs : List Char} (hm : m.next = ⟨pos', cs⟩)
      (hpos : pos' = pos + byteSize s) : ∃ t, (Cursor.mk pos (s ++ cs)).Reads t m.next :=
    ⟨s, by simp [Cursor.Reads, hm, hpos]⟩
  fun_induction scan line top below pos cs with
  | case1 top below pos cs ih => exact step (s := ['{']) (ih h) rfl
  | case2 top below pos cs ih => exact step (s := ['(', '*']) (ih h) rfl
  | case3 top pos cs => cases h; exact last (s := ['}']) rfl rfl
  | case4 top pos cs _ outer outers ih => exact step (s := ['}']) (ih h) rfl
  | case5 top below pos cs _ ih => exact step (s := ['}']) (ih h) rfl
  | case6 top pos cs => cases h; exact last (s := ['*', ')']) rfl rfl
  | case7 top pos cs _ outer outers ih => exact step (s := ['*', ')']) (ih h) rfl
  | case8 top below pos cs _ ih => exact step (s := ['*', ')']) (ih h) rfl
  | case9 top below pos cs => cases h; exact last (s := ['\n']) rfl rfl
  | case10 top below pos cs _ ih => exact step (s := ['\n']) (ih h) rfl
  | case11 top below pos c cs _ _ _ _ _ ih => exact step (s := [c]) (ih h) (by simp)
  | case12 top below pos => cases h; exact last (s := []) rfl rfl
  | case13 => cases h

/-- A comment has at least its opener. -/
theorem readsFrom_of_recognize {c : Cursor} {m : Match} (h : recognize c = .ok m) :
    m.ReadsFrom c := by
  obtain ⟨pos, rest⟩ := c
  -- The opener is read first, then the scan takes over.
  have after (opener : List Char) {cs : List Char} {pos' : Nat} (hr : rest = opener ++ cs) (ho : opener ≠ [])
      (hpos : pos' = pos + byteSize opener) (h : ∃ s, (Cursor.mk pos' cs).Reads s m.next) :
      m.ReadsFrom ⟨pos, rest⟩ := by
    obtain ⟨s, hs⟩ := h
    exact ⟨_, by simp [ho], Cursor.Reads.trans ⟨hr, hpos⟩ hs⟩
  unfold recognize at h
  dsimp only at h
  split at h
  · exact after ['/', '/'] rfl (by simp) rfl (scan_reads h)
  · cases h
  · exact after ['{'] rfl (by simp) rfl (scan_reads h)
  · exact after ['(', '*'] rfl (by simp) rfl (scan_reads h)
  all_goals cases h

end PascalScan.Comment
