import PascalScan.Proofs.Comment.Nested
import PascalScan.Proofs.Comment.Walk
import PascalScan.Proofs.Lexical.Contract
import PascalScan.Proofs.Scan.Lossless

/-!
# `PascalScan.Proofs.Comment.Inside`: what is inside a comment, and that nothing is missed

A token is a tree, and only a comment has anything inside. `WellNested` says what every token of a
text owes to the text in this respect: the tokens right inside it are block comments, they stand in
the order of the text and do not overlap, and all lie between its opener and its closer. In a block
comment nothing else is a marker: outside of the comments in it no block comment is opened and it is
not closed.

`wellNested_of_recognize` proves this for whatever a class recognizes, at any depth. The comments
in a token are recognized on their own (`recognize_nested`), so the depth is no matter, and for one
comment the pieces that it is made of (`Contents`) tell all.
-/

set_option autoImplicit false

namespace PascalScan

open Text CommentForm

variable {text : List Char}

namespace Comment

/-! ### The comments in a piece of a body -/

/-- In a piece stand block comments, none of them empty or in front of the piece. -/
theorem Contents.block_of_mem {form : CommentForm} {c d : Cursor} {ts : List Token}
    (h : Contents form c ts d) :
    ∀ t ∈ ts, t.kind ∈ [Kind.comment .brace, .comment .paren] ∧ c.pos ≤ t.start ∧
      t.start < t.stop := by
  -- The comments behind the first step start behind it, too.
  induction h with
  | nil =>
    intro t ht
    cases ht
  | plain _ hread _ ih =>
    intro t ht
    obtain ⟨hkind, hle, hlt⟩ := ih t ht
    exact ⟨hkind, Nat.le_trans hread.pos_le hle, hlt⟩
  | @comment form inner c opened closing next d inside ts hblock hopen hinside hclose _ _ ih =>
    obtain ⟨body, hbody, -⟩ := hinside.exists_body
    have hread := (hopen.trans hbody).trans hclose
    intro t ht
    rcases List.mem_cons.mp ht with rfl | ht
    · refine ⟨?_, Nat.le_refl _, hread.pos_lt (by simp [inner.opener_ne_nil])⟩
      show Kind.comment inner ∈ _
      cases inner with
      | line => contradiction
      | _ => simp
    · obtain ⟨hkind, hle, hlt⟩ := ih t ht
      exact ⟨hkind, Nat.le_trans hread.pos_le hle, hlt⟩

/-- The comments in a piece stand in order. -/
theorem Contents.ordered {form : CommentForm} {c d : Cursor} {ts : List Token}
    (h : Contents form c ts d) : ts.Pairwise fun t u => t.stop ≤ u.start := by
  induction h with
  | nil => exact .nil
  | plain _ _ _ ih => exact ih
  | comment _ _ _ _ tail _ ih =>
    refine List.pairwise_cons.mpr ⟨fun u hu => ?_, ih⟩
    exact (tail.block_of_mem u hu).2.1

/-- Outside of the comments in a piece, every character is ordinary. -/
theorem Contents.plain_of_outside {form : CommentForm} {c d : Cursor} {ts : List Token}
    (h : Contents form c ts d) (hc : c.StandsIn text) :
    ∀ {i : Nat} {ch : Char}, c.pos ≤ i → i < d.pos → (∀ t ∈ ts, i < t.start ∨ t.stop ≤ i) →
      charAt? text i = some ch → ∃ o : Cursor, o.StandsIn text ∧ o.pos = i ∧ Plain form o.rest := by
  induction h with
  | nil =>
    intro i ch hle hlt
    omega
  | @plain form c next d x ts hplain hread _ ih =>
    intro i ch hle hlt hout hchar
    rcases Nat.lt_or_ge i next.pos with hbefore | hbehind
    · rcases Nat.eq_or_lt_of_le hle with rfl | hinside
      · exact ⟨c, hc, rfl, hplain⟩
      · -- No character stands behind an offset inside another one.
        rw [hc.charAt?_eq_none hread hinside hbefore] at hchar
        cases hchar
    · exact ih (hc.of_reads hread) hbehind hlt hout hchar
  | @comment form inner c opened closing next d inside ts hblock hopen hinside hclose _ _ ih =>
    intro i ch hle hlt hout hchar
    obtain ⟨body, hbody, -⟩ := hinside.exists_body
    have hnext := ((hc.of_reads hopen).of_reads hbody).of_reads hclose
    have hbehind : next.pos ≤ i :=
      (hout _ List.mem_cons_self).resolve_left (Nat.not_lt.mpr hle)
    exact ih hnext hbehind hlt (fun t ht => hout t (List.mem_cons_of_mem _ ht)) hchar

/-! ### Markers at offsets -/

/-- A block comment of the given form is closed at byte offset `i`. -/
def ClosesBlock (text : List Char) : CommentForm → Nat → Prop
  | brace, i => charAt? text i = some '\x7d'
  | paren, i => charAt? text i = some '*' ∧ charAt? text (i + 1) = some ')'
  | line, _ => False

/-- Where a block comment is closed, its closer comes next. -/
theorem ClosesBlock.isPrefix {form : CommentForm} {c : Cursor} (hc : c.StandsIn text)
    (h : ClosesBlock text form c.pos) : form.closer <+: c.rest := by
  cases form with
  | brace => exact hc.singleton_isPrefix_iff.mpr h
  | paren => exact (hc.pair_isPrefix_iff rfl).mpr h
  | line => exact h.elim

/-- Where a closer stands there is a character. -/
theorem ClosesBlock.exists_charAt? {form : CommentForm} {i : Nat} (h : ClosesBlock text form i) :
    ∃ ch, charAt? text i = some ch := by
  cases form with
  | brace => exact ⟨_, h⟩
  | paren => exact ⟨_, h.1⟩
  | line => exact h.elim

/-- Outside of the comments in a piece there is no marker. -/
theorem Contents.not_marker_of_outside {form : CommentForm} {c d : Cursor} {ts : List Token}
    {i : Nat} (h : Contents form c ts d) (hc : c.StandsIn text) (hle : c.pos ≤ i) (hlt : i < d.pos)
    (hout : ∀ t ∈ ts, i < t.start ∨ t.stop ≤ i) :
    ¬ OpensBlock text i ∧ ¬ ClosesBlock text form i := by
  constructor
  · intro hopens
    obtain ⟨ch, hch⟩ : ∃ ch, charAt? text i = some ch :=
      hopens.elim (⟨_, ·⟩) fun hparen => ⟨_, hparen.1⟩
    obtain ⟨o, ho, rfl, hplain⟩ := h.plain_of_outside hc hle hlt hout hch
    obtain ⟨inner, hblock, hm⟩ := (opensBlock_iff ho).mp hopens
    exact hplain.not_opener hblock hm
  · intro hcloses
    obtain ⟨ch, hch⟩ := hcloses.exists_charAt?
    obtain ⟨o, ho, rfl, hplain⟩ := h.plain_of_outside hc hle hlt hout hch
    exact hplain.2.2 (hcloses.isPrefix ho)

/-! ### The body of a comment -/

/-- The comment is its opener up to offset `start`, its body up to offset `stop`, and its closer. A
line comment at the end of the text has no closer. -/
structure HasBody (text : List Char) (form : CommentForm) (t : Token) (start stop : Nat) :
    Prop where
  opener : slice? text t.start start = some form.opener
  closer : slice? text stop t.stop = some form.closer ∨
    form = .line ∧ stop = t.stop ∧ t.stop = byteSize text
  line_ends : form = .line → LineEndsAt text start stop

/-- What is recognized as a comment has a body, with a piece in it that holds the inner tokens. For a
block comment the piece is all of the body. -/
theorem exists_body_of_recognize {c : Cursor} {m : Match} {form : CommentForm}
    (hc : c.StandsIn text) (h : recognize c = .ok m) (hkind : m.kind = .comment form) :
    ∃ opened d stop, HasBody text form (m.token c) opened.pos stop ∧ opened.StandsIn text ∧
      Contents form opened m.inner d ∧ d.pos ≤ stop ∧ (form ≠ .line → d.pos = stop) := by
  by_cases hblock : form = .line
  · subst hblock
    obtain ⟨opened, hopen⟩ := exists_opener_of_recognize h hkind
    have hopened := hc.of_reads hopen
    -- The line is split off, and `v` is the line break with all that follows.
    obtain ⟨start, piece, v, ts, rfl, hv, hline, hcontents, -, hrec⟩ := exists_contents_of_line hopen
    cases h.symm.trans hrec
    obtain ⟨hends, hstop⟩ := lineEndsAt_of_standsIn hopened hv hline
    have hend : (⟨start.pos + byteSize start.rest, v⟩ : Cursor).StandsIn text :=
      hopened.of_reads (s := start.rest) ⟨rfl, rfl⟩
    refine ⟨_, piece.followedBy v, start.pos + byteSize start.rest, ⟨hc.slice?_of_reads hopen, ?_,
      fun _ => hends⟩, hopened, hcontents.followedBy hv.apart, ?_, fun hnot => absurd rfl hnot⟩
    · show slice? text _ (start.followedBy v).lineEnd.pos = _ ∨
        _ ∧ _ = (start.followedBy v).lineEnd.pos ∧ (start.followedBy v).lineEnd.pos = _
      rw [hstop]
      split
      next hfeed =>
        rw [hend.charAt?] at hfeed
        obtain ⟨e, he⟩ := Cursor.exists_reads_of_head? hfeed
        have hslice := hend.slice?_of_reads he
        rw [he.2] at hslice
        exact .inl hslice
      next hnot => exact .inr ⟨rfl, hends.feed_or_end.resolve_left hnot, rfl⟩
    · obtain ⟨s, hs, -⟩ := hcontents.exists_body
      show piece.pos ≤ _
      rw [hs.2, hs.1, byteSize_append]
      omega
  -- A block comment ends with its closer, which is right behind the piece.
  · obtain ⟨opened, ts, e, hopen, ⟨d, hcontents, hclose⟩, rfl⟩ :=
      (recognize_eq_ok_iff_closed hblock).mp ⟨h, hkind⟩
    have hopened := hc.of_reads hopen
    obtain ⟨s, hs, -⟩ := hcontents.exists_body
    exact ⟨opened, d, d.pos, ⟨hc.slice?_of_reads hopen,
      .inl ((hopened.of_reads hs).slice?_of_reads hclose), fun hline => absurd hline hblock⟩,
      hopened, hcontents, Nat.le_refl _, fun _ => rfl⟩

end Comment

open Comment

/-! ### Tokens -/

/-- What a token of a text has inside. -/
structure WellNested (text : List Char) (t : Token) : Prop where
  /-- Only comments have anything inside. -/
  inner_eq_nil : (∀ form, t.kind ≠ .comment form) → Tree.inner t = []
  /-- Only block comments are inside. -/
  inner_kind : ∀ u : Token, u ∈ Tree.inner t → u.kind ∈ [Kind.comment .brace, .comment .paren]
  /-- They stand in the order of the text and do not overlap. -/
  ordered : (Tree.inner t).Pairwise fun u v => Token.start u < Token.start v ∧
    Token.stop u ≤ Token.start v
  /-- They stand in the body, and in the body of a block comment nothing else is a marker. -/
  body : ∀ form, t.kind = .comment form → ∃ start stop, HasBody text form t start stop ∧
    (∀ u : Token, u ∈ Tree.inner t → start ≤ u.start ∧ u.start < u.stop ∧ u.stop ≤ stop) ∧
    (form ≠ .line → ∀ i, start ≤ i → i < stop →
      (∀ u : Token, u ∈ Tree.inner t → i < u.start ∨ u.stop ≤ i) →
      ¬ OpensBlock text i ∧ ¬ ClosesBlock text form i)

/-- A comment is well nested. -/
theorem wellNested_of_comment {t : Token} {pos : Nat}
    (h : Recognizer.comment.recognize text pos = .ok (.ok t)) : WellNested text t := by
  obtain ⟨c, m, hc, rfl, hrun, rfl⟩ := Recognizer.recognize_eq_ok_iff.mp h
  have hrec : Comment.recognize c = .ok m := Recognizer.recognizeAt_of_run hrun
  obtain ⟨form, hkind⟩ := kind_of_recognize hrec
  obtain ⟨opened, d, stop, hbody, hopened, hcontents, hle, hblock⟩ :=
    exists_body_of_recognize hc hrec hkind
  refine ⟨fun hnot => absurd hkind (hnot form), fun u hu => (hcontents.block_of_mem u hu).1, ?_, ?_⟩
  · refine hcontents.ordered.imp_of_mem fun {u v} hu _ hstop => ⟨?_, hstop⟩
    exact Nat.lt_of_lt_of_le (hcontents.block_of_mem u hu).2.2 hstop
  · intro form' hkind'
    obtain rfl : form = form' := Kind.comment.inj (hkind.symm.trans hkind')
    refine ⟨opened.pos, stop, hbody, fun u hu => ?_, fun hne i hi hlt hout => ?_⟩
    · obtain ⟨-, hstart, hlt⟩ := hcontents.block_of_mem u hu
      exact ⟨hstart, hlt, Nat.le_trans (hcontents.stop_le u hu) hle⟩
    · exact hcontents.not_marker_of_outside hopened hi (by rw [hblock hne]; exact hlt) hout

/-- What a class recognizes is well nested, at any depth. -/
theorem wellNested_of_recognize {r : Recognizer} {t u : Token} {pos : Nat}
    (h : r.recognize text pos = .ok (.ok t)) (hu : Tree.Within u t) : WellNested text u := by
  by_cases hr : r = .comment
  · subst hr
    exact wellNested_of_comment (recognize_nested text pos t u h hu)
  · obtain ⟨c, m, hc, rfl, hrun, rfl⟩ := Recognizer.recognize_eq_ok_iff.mp h
    have hnil := Recognizer.inner_eq_nil_of_run hr hrun
    have hnone (form : CommentForm) : m.kind ≠ .comment form := by
      intro hkind
      have hclass := Recognizer.kind_of_run hrun
      rw [hkind] at hclass
      exact hr hclass.symm
    -- The token has nothing inside, so it is the only one.
    rcases Tree.within_node_iff.mp hu with rfl | ⟨v, hv, -⟩
    · have hinner : Tree.inner (m.token c) = [] := hnil
      refine ⟨fun _ => hinner, ?_, ?_, fun form hkind => absurd hkind (hnone form)⟩
      · show ∀ u ∈ Tree.inner (m.token c), _
        simp [hinner]
      · show (Tree.inner (m.token c)).Pairwise _
        simp [hinner]
    · rw [hnil] at hv
      cases hv

/-- Every token of a scan is well nested, and so is all that is inside it, at any depth. -/
theorem wellNested_of_mem_scan (source : String) :
    ∀ t ∈ (scan source.toList).tokens, ∀ u, Tree.Within u t → WellNested source.toList u := by
  intro t ht u hu
  let c : Cursor := ⟨0, source.toList⟩
  have hc : c.StandsIn source.toList := locate_zero _
  obtain ⟨ts, d, failure, hrun, hscan⟩ := run_scanAt Recognizer.priority c
  rw [scan, hscan] at ht
  obtain ⟨earlier, r, later, -, hr, -⟩ := ((layout_of_run hrun).isToken hc t ht).first
  exact wellNested_of_recognize hr hu

/-- A comment in braces inside a comment in parentheses, with a closer of the other form in each of
the two. -/
theorem wellNested_of_mem_scan_of_foreign_closers :
    Token.ofSpan (.comment .paren) 0 12 [.ofSpan (.comment .brace) 4 10 []]
      ∈ (scan "(*\x7d\n\x7b*)é\x7d*)".toList).tokens ∧
    Tree.Within (Token.ofSpan (.comment .brace) 4 10 [])
      (Token.ofSpan (.comment .paren) 0 12 [.ofSpan (.comment .brace) 4 10 []]) ∧
    WellNested "(*\x7d\n\x7b*)é\x7d*)".toList (Token.ofSpan (.comment .brace) 4 10 []) := by
  have hstep : step Recognizer.priority ⟨0, "(*\x7d\n\x7b*)é\x7d*)".toList⟩
      = .emit ⟨.comment .paren, [.ofSpan (.comment .brace) 4 10 []], ⟨12, []⟩⟩ := rfl
  have hscan : scan "(*\x7d\n\x7b*)é\x7d*)".toList = ⟨0, 12, [_], none⟩ :=
    scanAt_of_run (.emit hstep (.done rfl))
  have hmem : Token.ofSpan (.comment .paren) 0 12 [.ofSpan (.comment .brace) 4 10 []]
      ∈ (scan "(*\x7d\n\x7b*)é\x7d*)".toList).tokens := by
    rw [hscan]
    exact List.mem_singleton_self _
  have hwithin : Tree.Within (Token.ofSpan (.comment .brace) 4 10 [])
      (Token.ofSpan (.comment .paren) 0 12 [.ofSpan (.comment .brace) 4 10 []]) :=
    .inner (List.mem_singleton_self _) .self
  exact ⟨hmem, hwithin, wellNested_of_mem_scan "(*\x7d\n\x7b*)é\x7d*)" _ hmem _ hwithin⟩

end PascalScan
