import PascalScan.Proofs.Comment.LineBody

/-!
# `PascalScan.Proofs.Comment.Walk`: the comments on a line, found one by one

What a line comment holds can be found without a stack. `walk` goes through a text offset by
offset, and where a block comment is opened, it asks the recognizer for it and goes on behind it. It
stops at the first comment that is not closed. `recognize_line` says that for a text that is cut at
the end of the line, this finds exactly the inner tokens of the line comment.

`walk_of_contents` is the step: through a piece of a body, the walk finds the comments of the piece.
The offsets inside a character are no trouble, since no character stands behind them. That what is
not reported is all behind an opener follows from `Contents.recognize_of_opener`: wherever a comment
is opened in front of that, even inside another one, it is complete.
-/

set_option autoImplicit false

namespace PascalScan

open Text CommentForm

namespace Comment

/-! ### Openers in a piece of a body -/

/-- Every comment in a piece ends in it. -/
theorem Contents.stop_le {form : CommentForm} {c d : Cursor} {ts : List Token}
    (h : Contents form c ts d) : ∀ t ∈ ts, t.stop ≤ d.pos := by
  induction h with
  | nil =>
    intro t ht
    cases ht
  | plain _ _ _ ih => exact ih
  | comment _ _ _ _ tail ih ihTail =>
    intro t ht
    obtain ⟨s, hs, -⟩ := tail.exists_body
    rcases List.mem_cons.mp ht with rfl | ht
    · exact hs.pos_le
    · exact ihTail t ht

/-- No block comment is opened at the second character of an opener, nor at a closer. -/
theorem not_opener_of_reads (form : CommentForm) {inner : CommentForm} {o e : Cursor} {ch : Char}
    {u : List Char} (hinner : inner ≠ .line) (hread : o.Reads (ch :: u) e)
    (hch : ch ∈ form.opener.tail ++ form.closer) : ¬ inner.opener <+: o.rest := by
  intro hm
  rw [hread.1, List.cons_append] at hm
  -- a block opener starts with a brace or a parenthesis, and what is read starts with neither
  have hfirst : ch = '\x7b' ∨ ch = '(' := by
    cases inner with
    | brace => exact .inl (List.cons_prefix_cons.mp hm).1.symm
    | paren => exact .inr (List.cons_prefix_cons.mp hm).1.symm
    | line => contradiction
  rcases hfirst with rfl | rfl
  all_goals
    revert hch
    cases form <;> decide

/-- Where a block comment is opened in a piece of a body, it is complete. Markers do not overlap, so
every opener in the piece is one of those that the piece is made of. -/
theorem Contents.recognize_of_opener {form inner : CommentForm} {c d : Cursor} {ts : List Token}
    (h : Contents form c ts d) (hinner : inner ≠ .line) :
    ∀ {o : Cursor} {s u : List Char}, c.Reads s o → o.Reads u d → u ≠ [] →
      inner.opener <+: o.rest → ∃ m, recognize o = .ok m := by
  induction h with
  | @nil _ c =>
    intro o s u hs hu hne _
    exact absurd (Nat.lt_of_le_of_lt hs.pos_le (hu.pos_lt hne)) (Nat.lt_irrefl _)
  | @plain form c next d ch ts hplain hread _ ih =>
    intro o s u hs hu hne hm
    cases s with
    | nil =>
      obtain rfl := hs.unique (.refl c)
      exact absurd hm (hplain.not_opener hinner)
    | cons x s => exact ih (hs.of_cons hread).2 hu hne hm
  | @comment form marker c opened closing next d inside ts hblock hopen hinside hclose _ ihInside
      ihTail =>
    intro o s u hs hu hne hm
    obtain ⟨body, hbody, -⟩ := hinside.exists_body
    -- The place is in front of the opener, inside it, in the comment, inside its closer or behind.
    rcases hs.before_or_behind hopen with ⟨t, ht, hread⟩ | ⟨t, hread⟩
    · obtain ⟨ch, t, rfl⟩ := List.exists_cons_of_ne_nil ht
      have hparts := (hs.trans hread).same hopen
      cases s with
      | nil =>
        obtain rfl := hs.unique (.refl c)
        exact ⟨_, recognize_of_closed hblock hopen ⟨closing, hinside, hclose⟩⟩
      | cons x s =>
        exact absurd hm (not_opener_of_reads marker hinner hread (by simp [← hparts]))
    rcases hread.before_or_behind hbody with ⟨t, ht, hread'⟩ | ⟨t, hread⟩
    · exact ihInside hread hread' ht hm
    rcases hread.before_or_behind hclose with ⟨t, ht, hread'⟩ | ⟨t, hread⟩
    · obtain ⟨ch, t, rfl⟩ := List.exists_cons_of_ne_nil ht
      have hparts := (hread.trans hread').same hclose
      exact absurd hm (not_opener_of_reads marker hinner hread' (by simp [← hparts]))
    · exact ihTail hread hu hne hm

/-! ### Openers at offsets -/

/-- A block comment is opened at byte offset `i`. -/
def OpensBlock (text : List Char) (i : Nat) : Prop :=
  charAt? text i = some '\x7b' ∨ charAt? text i = some '(' ∧ charAt? text (i + 1) = some '*'

/-- It can be computed whether a block comment is opened at an offset. -/
instance (text : List Char) (i : Nat) : Decidable (OpensBlock text i) :=
  inferInstanceAs (Decidable (_ ∨ _ ∧ _))

/-- At a cursor, a block comment is opened if an opener comes next. -/
theorem opensBlock_iff {c : Cursor} {text : List Char} (hc : c.StandsIn text) :
    OpensBlock text c.pos ↔ ∃ form : CommentForm, form ≠ .line ∧ form.opener <+: c.rest := by
  have hform : (∃ form : CommentForm, form ≠ .line ∧ form.opener <+: c.rest) ↔
      ['\x7b'] <+: c.rest ∨ ['(', '*'] <+: c.rest := by
    constructor
    · rintro ⟨form, hblock, hm⟩
      cases form with
      | brace => exact .inl hm
      | paren => exact .inr hm
      | line => contradiction
    · rintro (hm | hm)
      · exact ⟨.brace, by decide, hm⟩
      · exact ⟨.paren, by decide, hm⟩
  rw [hform, hc.singleton_isPrefix_iff, hc.pair_isPrefix_iff rfl]
  rfl

/-- Where a block comment is opened, a cursor can stand. -/
theorem OpensBlock.exists_standsIn {text : List Char} {i : Nat} (h : OpensBlock text i) :
    ∃ c : Cursor, c.StandsIn text ∧ c.pos = i :=
  h.elim Cursor.exists_standsIn_of_charAt? fun h => Cursor.exists_standsIn_of_charAt? h.1

/-- The opener is in the text. -/
theorem OpensBlock.lt_byteSize {text : List Char} {i : Nat} (h : OpensBlock text i) :
    i < byteSize text := by
  obtain ⟨c, hc, rfl⟩ := h.exists_standsIn
  obtain ⟨form, -, hm⟩ := (opensBlock_iff hc).mp h
  obtain ⟨opened, hopen⟩ := Cursor.exists_reads_of_isPrefix hm
  exact Nat.lt_of_lt_of_le (hopen.pos_lt form.opener_ne_nil) (hc.of_reads hopen).pos_le_byteSize

/-! ### The walk -/

/-- A comment ends behind the offset where it is asked for. -/
theorem lt_stop_of_recognize {text : List Char} {i : Nat} {t : Token}
    (h : Recognizer.comment.recognize text i = .ok (.ok t)) : i < t.stop := by
  obtain ⟨c, m, -, rfl, hrun, rfl⟩ := Recognizer.recognize_eq_ok_iff.mp h
  obtain ⟨s, hs, hread⟩ := Recognizer.run_readsFrom hrun
  exact hread.pos_lt hs

/-- The block comments that are found when a text is walked through from byte offset `i`, offset by
offset. Where a block comment is opened, it is recognized and the walk goes on behind it, or stops
if that fails. -/
def walk (text : List Char) (i : Nat) : List Token :=
  if i < byteSize text then
    if OpensBlock text i then
      match h : Recognizer.comment.recognize text i with
      | .ok (.ok t) =>
        have : i < t.stop := lt_stop_of_recognize h
        t :: walk text t.stop
      | _ => []
    else walk text (i + 1)
  else []
termination_by byteSize text - i

variable {text : List Char} {i : Nat}

/-- At the end of the text the walk is over. -/
theorem walk_of_byteSize_le (h : byteSize text ≤ i) : walk text i = [] := by
  rw [walk, if_neg (Nat.not_lt.mpr h)]

/-- Where no comment is opened, the walk goes on one byte further. -/
theorem walk_of_not_opensBlock (hlt : i < byteSize text) (h : ¬ OpensBlock text i) :
    walk text i = walk text (i + 1) := by
  rw [walk, if_pos hlt, if_neg h]

/-- A comment that ends is found, and the walk goes on behind it. -/
theorem walk_of_recognize {t : Token} (h : OpensBlock text i)
    (ht : Recognizer.comment.recognize text i = .ok (.ok t)) :
    walk text i = t :: walk text t.stop := by
  rw [walk, if_pos h.lt_byteSize, if_pos h]
  split
  next u hu =>
    cases ht.symm.trans hu
    rfl
  next hnot => exact absurd ht (hnot t)

/-- At a comment that does not end, the walk is over. -/
theorem walk_of_error {f : Failure} (h : OpensBlock text i)
    (hf : Recognizer.comment.recognize text i = .ok (.error f)) : walk text i = [] := by
  rw [walk, if_pos h.lt_byteSize, if_pos h]
  split
  next u hu => cases hf.symm.trans hu
  next => rfl

/-- Offsets at which no block comment is opened are passed over. -/
theorem walk_of_forall_not_opensBlock {stop : Nat} (hle : i ≤ stop) (hstop : stop ≤ byteSize text)
    (h : ∀ j, i ≤ j → j < stop → ¬ OpensBlock text j) : walk text i = walk text stop := by
  obtain ⟨n, rfl⟩ := Nat.exists_eq_add_of_le hle
  clear hle
  induction n generalizing i with
  | zero => rfl
  | succ n ih =>
    rw [walk_of_not_opensBlock (by omega) (h i (Nat.le_refl i) (by omega)),
      ih (by omega) fun j hj hlt => h j (by omega) (by omega)]
    congr 1
    omega

/-- The walk finds the comments of a piece of a body, in their order, and goes on behind it. -/
theorem walk_of_contents {form : CommentForm} {c d : Cursor} {ts : List Token}
    (h : Contents form c ts d) (hc : c.StandsIn text) :
    walk text c.pos = ts ++ walk text d.pos := by
  induction h with
  | nil => rfl
  | @plain form c next d ch ts hplain hread _ ih =>
    have hnext := hc.of_reads hread
    rw [← ih hnext]
    refine walk_of_forall_not_opensBlock hread.pos_le hnext.pos_le_byteSize
      fun j hle hlt hopens => ?_
    -- An ordinary character opens nothing, and behind the offsets inside it no character stands.
    rcases Nat.eq_or_lt_of_le hle with rfl | hinside
    · obtain ⟨inner, hblock, hm⟩ := (opensBlock_iff hc).mp hopens
      exact hplain.not_opener hblock hm
    · have hnone := hc.charAt?_eq_none hread hinside hlt
      simp [OpensBlock, hnone] at hopens
  | @comment form inner c opened closing next d inside ts hblock hopen hinside hclose _ _ ih =>
    obtain ⟨body, hbody, -⟩ := hinside.exists_body
    have hnext := ((hc.of_reads hopen).of_reads hbody).of_reads hclose
    have hopens : OpensBlock text c.pos :=
      (opensBlock_iff hc).mpr ⟨inner, hblock, ⟨opened.rest, hopen.1.symm⟩⟩
    have ht : Recognizer.comment.recognize text c.pos
        = .ok (.ok (.ofSpan (.comment inner) c.pos next.pos inside)) := by
      rw [Recognizer.recognize_of_rest_ne_nil hc (hopen.rest_ne_nil inner.opener_ne_nil),
        Recognizer.recognizeAt, recognize_of_closed hblock hopen ⟨closing, hinside, hclose⟩]
      rfl
    rw [walk_of_recognize hopens ht, List.cons_append, ← ih hnext]
    rfl

/-- The walk stops where nothing more comes or a block comment is not closed. -/
theorem walk_of_leftOpen {d : Cursor} (hd : d.StandsIn text) (h : LeftOpen d) :
    walk text d.pos = [] := by
  rcases h with hrest | ⟨inner, opened, opens, e, hblock, hopen, hunclosed⟩
  · exact walk_of_byteSize_le (Nat.le_of_eq (hd.pos_eq_byteSize_iff.mpr hrest).symm)
  · have hopens : OpensBlock text d.pos :=
      (opensBlock_iff hd).mpr ⟨inner, hblock, ⟨opened.rest, hopen.1.symm⟩⟩
    have hrec := Recognizer.recognize_of_rest_ne_nil (r := .comment) hd
      (hopen.rest_ne_nil inner.opener_ne_nil)
    rw [Recognizer.recognizeAt, recognize_of_opener hblock hopen,
      scan_unclosed hunclosed rfl] at hrec
    exact walk_of_error hopens hrec

/-! ### Line comments -/

/-- The line that byte offset `start` is on ends at offset `stop`: it goes up to the first line feed
behind `start`, or to the end of the text if there is none. -/
structure LineEndsAt (text : List Char) (start stop : Nat) : Prop where
  start_le_stop : start ≤ stop
  no_feed : ∀ j, start ≤ j → j < stop → charAt? text j ≠ some '\n'
  feed_or_end : charAt? text stop = some '\n' ∨ stop = byteSize text

/-- Where a line with something behind it stands in a text, the line ends behind it. -/
theorem lineEndsAt_of_standsIn {c : Cursor} {v : List Char} (hc : (c.followedBy v).StandsIn text)
    (hv : LineOver v) (hline : '\n' ∉ c.rest) :
    LineEndsAt text c.pos (c.pos + byteSize c.rest) ∧
      (c.followedBy v).lineEnd.pos
        = if charAt? text (c.pos + byteSize c.rest) = some '\n' then c.pos + byteSize c.rest + 1
          else byteSize text := by
  let e : Cursor := ⟨c.pos + byteSize c.rest, v⟩
  have hread : (c.followedBy v).Reads c.rest e := ⟨rfl, rfl⟩
  have he : e.StandsIn text := hc.of_reads hread
  have hchar : charAt? text (c.pos + byteSize c.rest) = v.head? := he.charAt?
  -- Behind the line stands a line break, or nothing.
  refine ⟨⟨hread.pos_le, fun j hle hlt hfeed => hline (hc.mem_of_charAt? hread hle hlt hfeed), ?_⟩,
    ?_⟩
  · cases v with
    | nil => exact .inr (he.pos_eq_byteSize_iff.mpr rfl)
    | cons ch cs =>
      obtain rfl := hv ch rfl
      exact .inl hchar
  · rw [Cursor.lineEnd_of_reads hread hline, hv.lineEnd_eq, hchar]
    cases v with
    | nil => exact he.pos_eq_byteSize_iff.mpr rfl
    | cons ch cs =>
      obtain rfl := hv ch rfl
      rfl

/-- Two slashes in a text open a line comment. -/
theorem exists_reads_of_slashes {pos : Nat} (h : charAt? text pos = some '/')
    (h' : charAt? text (pos + 1) = some '/') :
    ∃ c opened : Cursor, c.StandsIn text ∧ c.pos = pos ∧ c.Reads line.opener opened := by
  obtain ⟨c, hc, rfl⟩ := Cursor.exists_standsIn_of_charAt? h
  have hm : line.opener <+: c.rest := (hc.pair_isPrefix_iff rfl).mpr ⟨h, h'⟩
  obtain ⟨opened, hopen⟩ := Cursor.exists_reads_of_isPrefix hm
  exact ⟨c, opened, hc, rfl, hopen⟩

/-- A line comment goes up to the end of its line and includes the line feed. It holds what a walk
finds in the text that is cut at the end of the line. So nothing is reported behind a block comment
that is not closed on the line. -/
theorem recognize_line (text : List Char) (pos : Nat) (hslash : charAt? text pos = some '/')
    (hslash' : charAt? text (pos + 1) = some '/') :
    ∃ stop line t, LineEndsAt text (pos + 2) stop ∧ slice? text 0 stop = some line ∧
      Recognizer.comment.recognize text pos = .ok (.ok t) ∧ t.kind = .comment .line ∧
      t.start = pos ∧
      t.stop = (if charAt? text stop = some '\n' then stop + 1 else byteSize text) ∧
      Tree.inner t = walk line (pos + 2) ∧
      ∀ i f, pos + 2 ≤ i → OpensBlock line i →
        Recognizer.comment.recognize line i = .ok (.error f) →
        ∀ u : Token, u ∈ Tree.inner t → u.stop ≤ i := by
  obtain ⟨c, opened, hc, rfl, hopen⟩ := exists_reads_of_slashes hslash hslash'
  have hopened := hc.of_reads hopen
  obtain ⟨start, stop, v, ts, rfl, hv, hline, hcontents, hleft, hrec⟩ :=
    exists_contents_of_line hopen
  have hpos : start.pos = c.pos + 2 := hopen.2
  obtain ⟨hends, hstop⟩ := lineEndsAt_of_standsIn hopened hv hline
  -- The line with all that is in front of it is a text of its own, in which the piece stands.
  obtain ⟨before, htext, hbefore⟩ := Cursor.standsIn_iff.mp hopened
  rw [Cursor.pos_followedBy] at hbefore
  rw [Cursor.rest_followedBy, ← List.append_assoc] at htext
  have hstart : start.StandsIn (before ++ start.rest) :=
    Cursor.standsIn_iff.mpr ⟨before, rfl, hbefore⟩
  obtain ⟨s, hs, -⟩ := hcontents.exists_body
  rw [← hpos]
  refine ⟨_, before ++ start.rest, .ofSpan (.comment .line) c.pos _ ts, hends, ?_, ?_, rfl, rfl,
    hstop, ?_, ?_⟩
  · exact slice?_eq_some_iff.mpr ⟨[], v, htext, rfl, by simp [hbefore]⟩
  · rw [Recognizer.recognize_of_rest_ne_nil hc (hopen.rest_ne_nil (by decide)),
      Recognizer.recognizeAt, hrec]
    rfl
  · rw [walk_of_contents hcontents hstart, walk_of_leftOpen (hstart.of_reads hs) hleft,
      List.append_nil]
    rfl
  · intro i f hle hopens hf u hu
    obtain ⟨o, ho, rfl⟩ := hopens.exists_standsIn
    obtain ⟨s', hs'⟩ := hstart.exists_reads_of_le ho hle
    have hend : u.stop ≤ stop.pos := hcontents.stop_le u hu
    rcases hs'.before_or_behind hs with ⟨t, ht, hread⟩ | ⟨t, hread⟩
    · -- In front of the first comment that is not closed, all comments are complete.
      obtain ⟨inner, hblock, hm⟩ := (opensBlock_iff ho).mp hopens
      obtain ⟨m, hm'⟩ := hcontents.recognize_of_opener hblock hs' hread ht hm
      have hok := Recognizer.recognize_of_rest_ne_nil (r := .comment) ho (hread.rest_ne_nil ht)
      rw [Recognizer.recognizeAt, hm'] at hok
      cases hok.symm.trans hf
    · exact Nat.le_trans hend hread.pos_le

/-- Two comments are closed on the line, one of them with a foreign closer in it. The third is
closed behind the line only, so it is not reported, nor is the one inside it. -/
theorem recognize_line_of_unclosed :
    LineEndsAt "é//\x7b*)\x7d(*x*)\x7b(**)\n\x7d".toList 4 18 ∧
    Recognizer.comment.recognize "é//\x7b*)\x7d(*x*)\x7b(**)\n\x7d".toList 2
      = .ok (.ok (.ofSpan (.comment .line) 2 19
          [.ofSpan (.comment .brace) 4 8 [], .ofSpan (.comment .paren) 8 13 []])) ∧
    walk "é//\x7b*)\x7d(*x*)\x7b(**)".toList 4
      = [.ofSpan (.comment .brace) 4 8 [], .ofSpan (.comment .paren) 8 13 []] := by
  have hrec : Recognizer.comment.recognize "é//\x7b*)\x7d(*x*)\x7b(**)\n\x7d".toList 2
      = .ok (.ok (.ofSpan (.comment .line) 2 19
          [.ofSpan (.comment .brace) 4 8 [], .ofSpan (.comment .paren) 8 13 []])) := rfl
  obtain ⟨stop, line, t, hends, hslice, ht, -, -, hstop, hinner, -⟩ :=
    recognize_line "é//\x7b*)\x7d(*x*)\x7b(**)\n\x7d".toList 2 rfl rfl
  cases ht.symm.trans hrec
  obtain rfl : stop = 18 := by
    split at hstop
    · exact (Nat.succ.inj hstop).symm
    · cases hstop
  cases hslice.symm.trans
    (show slice? "é//\x7b*)\x7d(*x*)\x7b(**)\n\x7d".toList 0 18
      = some "é//\x7b*)\x7d(*x*)\x7b(**)".toList from rfl)
  exact ⟨hends, hrec, hinner.symm⟩

end Comment

end PascalScan
