import PascalScan.Proofs.Comment.Stack
import PascalScan.Proofs.Lexical.Asking

/-!
# `PascalScan.Proofs.Comment.Recognition`: block comments are recognized exactly

`Comment.recognize` reads an opener and leaves the rest to the scan. Together with what is known
of the scan this settles which texts are block comments. `recognize_eq_ok_iff_closed` says so with
offsets and with the comments inside, and `recognize_eq_ok_iff_complete` with the grammar over
strings. `recognize_iff_complete` is the same for a text and an offset in it.

That a grammar describes a recognizer has a consequence for the grammar as well: a recognizer has
one answer only, so no string of the grammar begins with another (`Complete.prefix_free`).
-/

set_option autoImplicit false

namespace PascalScan.Comment

open Text CommentForm

/-! ### Recognizing a block comment -/

/-- Where a comment is opened, the scan of it decides. -/
theorem recognize_eq_scan_of_opener {form : CommentForm} {c opened : Cursor}
    (hopen : c.Reads form.opener opened) :
    recognize c = scan (form == .line) (.opened form c.pos) [] opened.pos opened.rest := by
  obtain ⟨pos, rest⟩ := c
  obtain ⟨hrest, hpos⟩ := hopen
  dsimp only at hrest
  subst hrest
  rw [hpos]
  cases form <;> rfl

/-- For a block comment, the ends of lines do not matter. -/
theorem recognize_of_opener {form : CommentForm} {c opened : Cursor} (hblock : form ≠ .line)
    (hopen : c.Reads form.opener opened) :
    recognize c = scan false (.opened form c.pos) [] opened.pos opened.rest := by
  rw [recognize_eq_scan_of_opener hopen, beq_eq_false_iff_ne.mpr hblock]

/-- A block comment that is opened and ends is recognized. -/
theorem recognize_of_closed {form : CommentForm} {c opened e : Cursor} {ts : List Token}
    (hblock : form ≠ .line) (hopen : c.Reads form.opener opened) (h : Closed form opened ts e) :
    recognize c = .ok ⟨.comment form, ts, e⟩ := by
  rw [recognize_of_opener hblock hopen, scan_closed hblock h]

/-- A comment of some form begins with the opener of that form. -/
theorem exists_opener_of_recognize {form : CommentForm} {c : Cursor} {m : Match}
    (h : recognize c = .ok m) (hkind : m.kind = .comment form) :
    ∃ opened, c.Reads form.opener opened := by
  -- The scan makes a comment of the form that it was started with.
  have hscan {line : Bool} {form' : CommentForm} {pos : Nat} {cs : List Char}
      (h : scan line (.opened form' c.pos) [] pos cs = .ok m) : form' = form :=
    Kind.comment.inj ((kind_of_scan h).symm.trans hkind)
  refine Cursor.exists_reads_of_isPrefix ?_
  unfold recognize at h
  split at h
  next cs hrest =>
    obtain rfl := hscan h
    exact ⟨cs, hrest.symm⟩
  next => cases h
  next cs hrest =>
    obtain rfl := hscan h
    exact ⟨cs, hrest.symm⟩
  next cs hrest =>
    obtain rfl := hscan h
    exact ⟨cs, hrest.symm⟩
  all_goals cases h

/-- A block comment is recognized exactly where it is opened and ends, and the match tells where
that is and which comments are right inside it. -/
theorem recognize_eq_ok_iff_closed {form : CommentForm} {c : Cursor} {m : Match}
    (hblock : form ≠ .line) :
    recognize c = .ok m ∧ m.kind = .comment form ↔
      ∃ opened ts e, c.Reads form.opener opened ∧ Closed form opened ts e ∧
        m = ⟨.comment form, ts, e⟩ := by
  constructor
  · intro ⟨h, hkind⟩
    obtain ⟨opened, hopen⟩ := exists_opener_of_recognize h hkind
    rw [recognize_of_opener hblock hopen] at h
    -- Either the comment ends, and the scan finds just that, or the scan would have failed.
    rcases closed_or_unclosed form opened with ⟨ts, e, hclosed⟩ | ⟨opens, e, hunclosed⟩
    · refine ⟨opened, ts, e, hopen, hclosed, ?_⟩
      rw [scan_closed hblock hclosed] at h
      cases h
      rfl
    · rw [scan_unclosed hunclosed rfl] at h
      cases h
  · rintro ⟨opened, ts, e, hopen, hclosed, rfl⟩
    exact ⟨recognize_of_closed hblock hopen hclosed, rfl⟩

/-- A comment that is opened and ends is complete over strings. -/
theorem complete_iff_closed {form : CommentForm} {c e : Cursor} (hblock : form ≠ .line) :
    (∃ opened ts, c.Reads form.opener opened ∧ Closed form opened ts e) ↔
      ∃ s, Complete form s ∧ c.Reads s e := by
  constructor
  · intro ⟨opened, ts, hopen, d, hcontents, hclose⟩
    obtain ⟨body, hbody, hgrammar⟩ := hcontents.exists_body
    refine ⟨_, ⟨hblock, body, rfl, hgrammar.congr ?_⟩, (hopen.trans hbody).trans hclose⟩
    -- In the text the closer is followed by more, in the string by nothing.
    rw [hclose.1, head?_closer_append]
  · rintro ⟨s, ⟨-, body, rfl, hgrammar⟩, hs⟩
    obtain ⟨d, hs, hclose⟩ := hs.split
    obtain ⟨opened, hopen, hbody⟩ := hs.split
    obtain ⟨ts, hts⟩ := hgrammar.exists_contents hbody (by rw [hclose.1, head?_closer_append])
    exact ⟨opened, ts, hopen, d, hts, hclose⟩

/-- A block comment is recognized exactly where a string of the grammar stands. -/
theorem recognize_eq_ok_iff_complete {form : CommentForm} {c e : Cursor} (hblock : form ≠ .line) :
    (∃ ts, recognize c = .ok ⟨.comment form, ts, e⟩) ↔ ∃ s, Complete form s ∧ c.Reads s e := by
  rw [← complete_iff_closed hblock]
  constructor
  · intro ⟨ts, h⟩
    obtain ⟨opened, ts, e, hopen, hclosed, hm⟩ := (recognize_eq_ok_iff_closed hblock).mp ⟨h, rfl⟩
    cases hm
    exact ⟨opened, ts, hopen, hclosed⟩
  · intro ⟨opened, ts, hopen, hclosed⟩
    exact ⟨ts, ((recognize_eq_ok_iff_closed hblock).mpr ⟨opened, ts, e, hopen, hclosed, rfl⟩).1⟩

/-! ### The language of block comments -/

/-- At most one string of the grammar can be read from a place. -/
theorem Complete.unique {form form' : CommentForm} {s s' : List Char} {c d d' : Cursor}
    (h : Complete form s) (hs : c.Reads s d) (h' : Complete form' s') (hs' : c.Reads s' d') :
    form = form' ∧ d = d' := by
  obtain ⟨ts, hrec⟩ := (recognize_eq_ok_iff_complete h.1).mpr ⟨s, h, hs⟩
  obtain ⟨ts', hrec'⟩ := (recognize_eq_ok_iff_complete h'.1).mpr ⟨s', h', hs'⟩
  rw [hrec] at hrec'
  cases hrec'
  exact ⟨rfl, rfl⟩

/-- No block comment is a proper beginning of another. -/
theorem Complete.prefix_free {form form' : CommentForm} {s rest : List Char}
    (h : Complete form s) (h' : Complete form' (s ++ rest)) : form = form' ∧ rest = [] := by
  have hs : (Cursor.mk 0 (s ++ rest)).Reads s ⟨byteSize s, rest⟩ := ⟨rfl, by simp⟩
  have hs' : (Cursor.mk 0 (s ++ rest)).Reads (s ++ rest) ⟨byteSize (s ++ rest), []⟩ :=
    ⟨by simp, by simp⟩
  obtain ⟨hform, hd⟩ := h.unique hs h' hs'
  exact ⟨hform, congrArg Cursor.rest hd⟩

/-- For every text and every offset, a block comment is recognized there up to `stop` exactly if
the stretch in between is a string of the grammar. So at most one stop works for an offset, and no
string of the grammar is a proper beginning of another. -/
theorem recognize_iff_complete (text : List Char) (pos : Nat) :
    (∀ form, form ≠ .line → ∀ stop,
      (∃ t, Recognizer.comment.recognize text pos = .ok (.ok t) ∧ t.kind = .comment form ∧
        t.start = pos ∧ t.stop = stop) ↔
      ∃ s, slice? text pos stop = some s ∧ Complete form s) ∧
    (∀ form form' s s' stop stop', slice? text pos stop = some s → Complete form s →
      slice? text pos stop' = some s' → Complete form' s' → form = form' ∧ stop = stop') ∧
    (∀ form form' s rest, Complete form s → Complete form' (s ++ rest) →
      form = form' ∧ rest = []) := by
  refine ⟨?_, ?_, fun form form' s rest h h' => h.prefix_free h'⟩
  · intro form hblock stop
    constructor
    · rintro ⟨t, ht, hkind, -, rfl⟩
      obtain ⟨c, m, hc, rfl, hrun, rfl⟩ := Recognizer.recognize_eq_ok_iff.mp ht
      -- The token ends where the match does, so its value is the string that was read.
      obtain ⟨kind, ts, e⟩ := m
      obtain rfl : kind = .comment form := hkind
      obtain ⟨s, hs, hread⟩ := (recognize_eq_ok_iff_complete hblock).mp
        ⟨ts, Recognizer.recognizeAt_of_run hrun⟩
      exact ⟨s, hc.slice?_of_reads hread, hs⟩
    · intro ⟨s, hslice, hs⟩
      obtain ⟨c, hc, rfl⟩ := Cursor.exists_standsIn_of_slice? hslice
      obtain ⟨d, hread, rfl⟩ := hc.slice?_eq_some_iff.mp hslice
      obtain ⟨ts, hrec⟩ := (recognize_eq_ok_iff_complete hblock).mpr ⟨s, hs, hread⟩
      have hrun : Recognizer.comment.run c = .ok ⟨.comment form, ts, d⟩ :=
        (Recognizer.run_of_rest_ne_nil (readsFrom_of_recognize hrec).rest_ne_nil).trans hrec
      exact ⟨_, Recognizer.recognize_eq_ok_iff.mpr ⟨c, _, hc, rfl, hrun, rfl⟩, rfl, rfl, rfl⟩
  · intro form form' s s' stop stop' hslice hs hslice' hs'
    obtain ⟨c, hc, rfl⟩ := Cursor.exists_standsIn_of_slice? hslice
    obtain ⟨d, hread, rfl⟩ := hc.slice?_eq_some_iff.mp hslice
    obtain ⟨d', hread', rfl⟩ := hc.slice?_eq_some_iff.mp hslice'
    obtain ⟨hform, hd⟩ := hs.unique hread hs' hread'
    exact ⟨hform, congrArg Cursor.pos hd⟩

/-- The opener of one form may overlap the closer of the same form, and a closer may be content. -/
theorem recognize_iff_complete_of_overlap :
    ∃ s, slice? "é\x7b(*)*)\x7d\x7d".toList 2 9 = some s ∧ Complete .brace s :=
  ((recognize_iff_complete "é\x7b(*)*)\x7d\x7d".toList 2).1 .brace (by decide) 9).mp
    ⟨.ofSpan (.comment .brace) 2 9 [.ofSpan (.comment .paren) 3 8 []], rfl, rfl, rfl, rfl⟩

end PascalScan.Comment
