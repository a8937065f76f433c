import PascalScan.Proofs.Comment.Line
import PascalScan.Proofs.Lexical.Cut

/-!
# `PascalScan.Proofs.Lexical.Apart`: a match does not change when a blank is put behind the text

`PascalScan.Proofs.Lexical.Cut` takes the text behind a match away. This module puts text there,
text that begins with a blank (`Apart`). Inside names, numbers and punctuation there are no blanks,
so the steps that these classes take are the same: each reader has a law of the form
`f (c.followedBy v) = (f c).map (followedBy v)`. Only a lone sign is told by the end of the text,
and so the law for numbers is about their matches.

Strings and comments hold blanks. What was begun and not closed may be closed by the text behind,
but what was closed stays as it is. The exception is a line comment at the end of the text, which
swallows whatever comes. `Recognizer.run_followedBy` collects this.
-/

set_option autoImplicit false

namespace PascalScan

open Text

/-! ### Blanks in front -/

/-- The text is over or begins with a blank, so nothing in front of it goes on in it. -/
def Apart (v : List Char) : Prop := ∀ ch ∈ v.head?, isBlank ch

/-- No blank is among the characters that `p` accepts. -/
def NoBlanks (p : Char → Bool) : Prop := ∀ ch ∈ blanks, p ch = false

/-- There are four blanks to check. Instance search might go through all characters instead, of
which there are finitely many. -/
instance (p : Char → Bool) : Decidable (NoBlanks p) :=
  List.decidableBAll (fun ch => p ch = false) blanks

/-- No blank is in such a class. -/
theorem NoBlanks.eq_false {p : Char → Bool} {ch : Char} (hp : NoBlanks p) (hch : isBlank ch) :
    p ch = false :=
  hp ch (List.contains_iff_mem.mp hch)

/-- Nothing at all may stand behind. -/
theorem apart_nil : Apart [] := by simp [Apart]

/-- A text that begins with blanks is apart. -/
theorem apart_append {w v : List Char} (hne : w ≠ []) (hblank : ∀ ch ∈ w, isBlank ch) :
    Apart (w ++ v) := by
  obtain ⟨ch, cs, rfl⟩ := List.exists_cons_of_ne_nil hne
  intro x hx
  obtain rfl := Option.mem_some_iff.mp hx
  exact hblank ch (by simp)

/-- A string of blanks, at least one. -/
structure IsSeparator (s : String) : Prop where
  ne_empty : s ≠ ""
  blank : ∀ ch ∈ s.toList, isBlank ch

/-- It can be computed whether a string separates words. -/
instance (s : String) : Decidable (IsSeparator s) :=
  decidable_of_iff (s ≠ "" ∧ s.toList.all isBlank)
    ⟨fun ⟨hne, hblank⟩ => ⟨hne, List.all_eq_true.mp hblank⟩,
      fun ⟨hne, hblank⟩ => ⟨hne, List.all_eq_true.mpr hblank⟩⟩

/-- A text that begins with a separator is apart. -/
theorem IsSeparator.apart {s : String} (h : IsSeparator s) (v : List Char) :
    Apart (s.toList ++ v) :=
  apart_append (fun hnil => h.ne_empty (String.toList_inj.mp hnil)) h.blank

/-- Where blanks begin, no other class matches. -/
theorem Recognizer.exists_error_of_blank {q : Recognizer} {c : Cursor} {ch : Char}
    (hq : q ∈ priority) (hch : ch ∈ c.rest.head?) (hblank : isBlank ch) :
    ∃ f, q.run c = .error f := by
  have hleads : ∀ q ∈ priority, NoBlanks q.leads := by decide
  cases hrun : q.run c with
  | error f => exact ⟨f, rfl⟩
  | ok m =>
    obtain ⟨ch', hch', hlead⟩ := leads_of_getsOn (getsOn_of_run hrun)
    obtain rfl := Option.mem_unique hch hch'
    rw [(hleads q hq).eq_false hblank] at hlead
    cases hlead

variable {v : List Char} {p : Char → Bool}

/-- What begins a text and holds no blanks does not reach into what is apart. -/
theorem isPrefix_of_apart {s t : List Char} (hv : Apart v) (hs : ∀ ch ∈ s, isBlank ch = false)
    (h : s <+: t ++ v) : s <+: t := by
  rcases Nat.le_total s.length t.length with hle | hle
  · exact List.prefix_of_prefix_length_le h (List.prefix_append t v) hle
  · obtain ⟨u, rfl⟩ := List.prefix_of_prefix_length_le (List.prefix_append t v) h hle
    cases u with
    | nil => simp
    | cons ch u =>
      obtain ⟨w, hw⟩ := (List.prefix_append_right_inj t).mp h
      have hblank : isBlank ch := hv ch (by simp [← hw])
      rw [hs ch (by simp)] at hblank
      cases hblank

namespace Cursor

/-- The character behind a cursor is the next one, or the first of what follows the text. -/
theorem mem_head?_of_followedBy {c : Cursor} {ch : Char} (h : ch ∈ (c.followedBy v).rest.head?) :
    ch ∈ c.rest.head? ∨ c.rest = [] ∧ ch ∈ v.head? := by
  rw [rest_followedBy] at h
  cases hrest : c.rest with
  | nil =>
    rw [hrest, List.nil_append] at h
    exact .inr ⟨rfl, h⟩
  | cons x xs =>
    rw [hrest, List.cons_append] at h
    exact .inl h

/-- A character that stops a reader still does so, and at the end of the text a blank does. -/
theorem stops_followedBy {c : Cursor} (hv : Apart v) (hp : NoBlanks p)
    (h : ∀ ch ∈ c.rest.head?, p ch = false) : ∀ ch ∈ (c.followedBy v).rest.head?, p ch = false := by
  intro ch hch
  rcases mem_head?_of_followedBy hch with hmem | ⟨-, hmem⟩
  · exact h ch hmem
  · exact hp.eq_false (hv ch hmem)

/-- Eating a character that is no blank does not reach the text behind. -/
theorem eat_followedBy (hv : Apart v) (hp : NoBlanks p) (c : Cursor) :
    (c.followedBy v).eat p = (c.eat p).map (followedBy v) := by
  cases heat : c.eat p with
  | some d =>
    obtain ⟨ch, hch, hr⟩ := eat_eq_some_iff.mp heat
    exact eat_eq_some_iff.mpr ⟨ch, hch, reads_followedBy_iff.mpr hr⟩
  | none => exact eat_eq_none_iff.mpr (stops_followedBy hv hp (eat_eq_none_iff.mp heat))

/-- Neither does eating one that may be missing. -/
theorem eatOptional_followedBy (hv : Apart v) (hp : NoBlanks p) (c : Cursor) :
    (c.followedBy v).eatOptional p = (c.eatOptional p).followedBy v := by
  unfold eatOptional
  rw [eat_followedBy hv hp]
  cases c.eat p <;> rfl

/-- Neither does eating a run of such characters, which ends at a blank. -/
theorem eatRun_followedBy {more : Char → Bool} (hv : Apart v) (hp : NoBlanks p)
    (hmore : NoBlanks more) (c : Cursor) :
    (c.followedBy v).eatRun p more = (c.eatRun p more).map (followedBy v) := by
  cases hrun : c.eatRun p more with
  | some d =>
    obtain ⟨ch, cs, hch, hcs, hr, hstop⟩ := eatRun_eq_some_iff.mp hrun
    exact eatRun_eq_some_iff.mpr
      ⟨ch, cs, hch, hcs, reads_followedBy_iff.mpr hr, stops_followedBy hv hmore hstop⟩
  | none => exact eatRun_eq_none_iff.mpr (stops_followedBy hv hp (eatRun_eq_none_iff.mp hrun))

/-- A run in front of a character that stops it does not depend on what comes behind. -/
theorem skipWhile_followedBy {c d : Cursor} {ch : Char} (h : c.skipWhile p = d)
    (hch : ch ∈ d.rest.head?) : (c.followedBy v).skipWhile p = d.followedBy v := by
  subst h
  refine skipWhile_eq_of_reads (reads_followedBy_iff.mpr (skipWhile_reads p c)) ?_ ?_
  · intro x hx
    exact fits_of_mem_takeWhile hx
  · intro x hx
    obtain rfl : x = ch := Option.mem_unique hx (mem_head?_followedBy hch)
    exact not_fits_of_mem_head?_dropWhile hch

end Cursor

/-! ### Numbers -/

namespace Number

/-- No digit of any base is a blank. -/
theorem noBlanks_isDigitOf (base : Base) : NoBlanks (isDigitOf base) := by
  cases base <;> decide

/-- A run of digits is the same with a blank behind the text. -/
theorem digits_followedBy (hv : Apart v) (base : Base) (c : Cursor) :
    digits base (c.followedBy v) = (digits base c).map (Cursor.followedBy v) := by
  unfold digits
  rw [Cursor.eatRun_followedBy hv (noBlanks_isDigitOf base) (noBlanks_isDigitOf base)]
  cases c.eatRun (isDigitOf base) (isDigitOf base) <;> rfl

/-- So is a fraction. -/
theorem fraction_followedBy (hv : Apart v) (c : Cursor) :
    fraction (c.followedBy v) = (fraction c).map (Cursor.followedBy v) := by
  unfold fraction
  rw [Cursor.eat_followedBy hv (by decide)]
  cases c.eat (· == '.') with
  | none => rfl
  | some point => exact Cursor.eatRun_followedBy hv (by decide) (by decide) point

/-- So is an exponent, also one without digits. -/
theorem exponent_followedBy (hv : Apart v) (c : Cursor) :
    exponent (c.followedBy v) = (exponent c).map (Option.map (Cursor.followedBy v)) := by
  unfold exponent
  rw [Cursor.eat_followedBy hv (by decide)]
  cases c.eat isExponentMarker with
  | none => rfl
  | some marked =>
    dsimp only [Option.map_some]
    rw [Cursor.eatOptional_followedBy hv (by decide),
      Cursor.eatRun_followedBy hv (by decide) (by decide)]
    cases (marked.eatOptional isSign).eatRun isDigit isDigit <;> rfl

/-- So is a decimal number. -/
theorem decimal_followedBy (hv : Apart v) (c : Cursor) :
    decimal (c.followedBy v) = (decimal c).map (Match.followedBy v) := by
  unfold decimal
  rw [digits_followedBy hv]
  cases digits .decimal c with
  | error f => rfl
  | ok whole =>
    -- whether or not there is a fraction, reading goes on at the same place in front of `v`
    have hfront : (fraction (whole.followedBy v)).getD (whole.followedBy v)
        = ((fraction whole).getD whole).followedBy v := by
      rw [fraction_followedBy hv]
      cases fraction whole <;> rfl
    dsimp only [Except.map]
    rw [hfront, exponent_followedBy hv, fraction_followedBy hv]
    cases exponent ((fraction whole).getD whole) with
    | error f => rfl
    | ok next =>
      cases next with
      | some next => rfl
      | none => cases fraction whole <;> rfl

/-- The answers to what may follow a sign differ only at the end of the text, where there is no
match in either case. -/
theorem unsigned_followedBy (hv : Apart v) (c : Cursor) :
    (unsigned (c.followedBy v)).toOption = (unsigned c).toOption.map (Match.followedBy v) := by
  cases hrest : c.rest with
  | nil =>
    have hnone : (unsigned c).toOption = none := by
      unfold unsigned
      rw [hrest]
      rfl
    rw [hnone, Option.map_none]
    cases hmatch : unsigned (c.followedBy v) with
    | error f => rfl
    | ok m =>
      -- A number would begin with the blank.
      obtain ⟨ch, hch, hleads⟩ := leads_of_getsOn (c := c.followedBy v) (by
        rw [recognize_of_unsigned hmatch]
        trivial)
      rw [Cursor.rest_followedBy, hrest, List.nil_append] at hch
      have hblank : NoBlanks Recognizer.number.leads := by decide
      rw [hblank.eq_false (hv ch hch)] at hleads
      cases hleads
  | cons ch cs =>
    unfold unsigned
    rw [Cursor.rest_followedBy, hrest, List.cons_append]
    dsimp only
    cases baseOfMarker? ch with
    | none =>
      dsimp only
      rw [decimal_followedBy hv]
      cases decimal c <;> rfl
    | some base =>
      have hdigits := digits_followedBy hv base ⟨c.pos + ch.utf8Size, cs⟩
      rw [Cursor.followedBy] at hdigits
      dsimp only [Cursor.pos_followedBy] at hdigits ⊢
      rw [hdigits]
      cases digits base ⟨c.pos + ch.utf8Size, cs⟩ <;> rfl

/-- A sign in front of a number changes nothing about this. -/
theorem recognize_followedBy (hv : Apart v) (c : Cursor) :
    (recognize (c.followedBy v)).toOption = (recognize c).toOption.map (Match.followedBy v) := by
  unfold recognize
  rw [Cursor.eatOptional_followedBy hv (by decide)]
  exact unsigned_followedBy hv _

end Number

/-! ### Names and punctuation -/

/-- A name does not change either. -/
theorem Name.recognize_followedBy (hv : Apart v) (c : Cursor) :
    recognize (c.followedBy v) = (recognize c).map (Match.followedBy v) := by
  unfold recognize
  rw [Cursor.eat_followedBy hv (by decide)]
  -- no character of a name is at the front of `v`, so each run ends where it ended without `v`
  cases c.eat isMark with
  | some marked =>
    dsimp only [Option.map_some]
    rw [Cursor.eatRun_followedBy hv (by decide) (by decide)]
    cases marked.eatRun isNameStart isNamePart <;> rfl
  | none =>
    dsimp only [Option.map_none]
    rw [Cursor.eatRun_followedBy hv (by decide) (by decide)]
    cases c.eatRun isNameStart isNamePart <;> rfl

namespace Punctuation

/-- There is no blank in an operator of two characters. -/
theorem isSymbolPair_eq_false_of_isBlank {a b : Char} (h : isBlank a ∨ isBlank b) :
    isSymbolPair a b = false := by
  have hcheck : ∀ p ∈ symbolPairs, isBlank p.1 = false ∧ isBlank p.2 = false := by decide
  by_cases hpair : isSymbolPair a b
  · obtain ⟨ha, hb⟩ := hcheck (a, b) (List.contains_iff_mem.mp hpair)
    rcases h with h | h
    · cases ha.symm.trans h
    · cases hb.symm.trans h
  · exact Bool.eq_false_iff.mpr hpair

/-- A single mark of punctuation is the same with a blank behind the text. -/
theorem recognizeSingle_followedBy (hv : Apart v) (c : Cursor) :
    recognizeSingle (c.followedBy v) = (recognizeSingle c).map (Match.followedBy v) := by
  unfold recognizeSingle
  rw [Cursor.eat_followedBy hv (by decide)]
  cases c.eat isSymbol <;> rfl

/-- Where a blank is among the next two characters, at most one of them is read. -/
theorem recognize_eq_recognizeSingle {c : Cursor} {a b : Char} {cs : List Char}
    (hrest : c.rest = a :: b :: cs) (h : isBlank a ∨ isBlank b) :
    recognize c = recognizeSingle c := by
  unfold recognize
  rw [hrest]
  dsimp only
  rw [isSymbolPair_eq_false_of_isBlank h]
  rfl

/-- So is a pair, since no pair has a blank in it. -/
theorem recognize_followedBy (hv : Apart v) (c : Cursor) :
    recognize (c.followedBy v) = (recognize c).map (Match.followedBy v) := by
  obtain ⟨pos, rest⟩ := c
  -- A pair could only come about where the text ends and `v` begins.
  match rest with
  | a :: b :: cs =>
    unfold recognize
    dsimp only [Cursor.followedBy, List.cons_append]
    split
    · rfl
    · exact recognizeSingle_followedBy hv ⟨pos, a :: b :: cs⟩
  | [a] =>
    have hsingle := recognizeSingle_followedBy hv ⟨pos, [a]⟩
    match v with
    | [] => exact hsingle
    | b :: _ =>
      rw [recognize_eq_recognizeSingle (c := Cursor.followedBy _ ⟨pos, [a]⟩) rfl (.inr (hv b rfl))]
      exact hsingle
  | [] =>
    have hsingle := recognizeSingle_followedBy hv ⟨pos, []⟩
    match v with
    | [] | [_] => exact hsingle
    | a :: _ :: _ =>
      rw [recognize_eq_recognizeSingle (c := Cursor.followedBy _ ⟨pos, []⟩) rfl (.inl (hv a rfl))]
      exact hsingle

end Punctuation

/-! ### Strings -/

namespace Quoted

/-- A segment that is finished, or that has not begun. -/
theorem segment_followedBy {start : Nat} {c : Cursor} {next : Option Cursor} (hv : Apart v)
    (h : segment start c = .ok next) :
    segment start (c.followedBy v) = .ok (next.map (Cursor.followedBy v)) := by
  unfold segment at h ⊢
  rw [Cursor.eat_followedBy hv (by decide)]
  cases hquote : c.eat isQuote with
  | some opened =>
    rw [hquote] at h
    dsimp only [Option.map_some] at h ⊢
    split at h
    next closed hclosed =>
      cases h
      -- The closing quote is where it was.
      obtain ⟨quote, hmem, -⟩ := Cursor.exists_head_of_eat hclosed
      rw [Cursor.skipWhile_followedBy rfl hmem, Cursor.eat_followedBy hv (by decide), hclosed]
      rfl
    next => cases h
  | none =>
    rw [hquote] at h
    dsimp only [Option.map_none] at h ⊢
    rw [Cursor.eat_followedBy hv (by decide)]
    cases hmark : c.eat isCodeMark with
    | none =>
      rw [hmark] at h
      cases h
      rfl
    | some marked =>
      rw [hmark] at h
      dsimp only [Option.map_some] at h ⊢
      rw [Cursor.eatRun_followedBy hv (by decide) (by decide)]
      split at h
      next next' hnext =>
        cases h
        rw [hnext]
        rfl
      next => cases h

/-- A sequence of segments ends where it did, because no segment begins with a blank. -/
theorem segments_followedBy {start : Nat} {c d : Cursor} (hv : Apart v)
    (h : segments start c = .ok d) : segments start (c.followedBy v) = .ok (d.followedBy v) := by
  fun_induction segments start c with
  | case1 => cases h
  | case2 c hsegment =>
    cases h
    rw [segments_eq, segment_followedBy hv hsegment]
    rfl
  | case3 c next hsegment _ ih =>
    rw [segments_eq, segment_followedBy hv hsegment]
    exact ih h

/-- So does a string. -/
theorem recognize_followedBy {c : Cursor} {m : Match} (hv : Apart v) (h : recognize c = .ok m) :
    recognize (c.followedBy v) = .ok (m.followedBy v) := by
  unfold recognize at h
  split at h
  next => cases h
  next => cases h
  next next hsegment =>
    split at h
    next => cases h
    next stop hsegments =>
      cases h
      have hsegment' : segment c.pos (c.followedBy v) = .ok (some (next.followedBy v)) :=
        segment_followedBy hv hsegment
      unfold recognize
      rw [Cursor.pos_followedBy, hsegment']
      dsimp only
      rw [segments_followedBy hv hsegments]
      rfl

end Quoted

/-! ### Comments -/

/-- The characters that open or close a block comment. -/
def Comment.markers : List (List Char) :=
  [CommentForm.brace.opener, CommentForm.paren.opener, CommentForm.brace.closer,
    CommentForm.paren.closer]

/-- The openers of block comments are markers. -/
theorem Comment.opener_mem_markers {form : CommentForm} (hblock : form ≠ .line) :
    form.opener ∈ markers := by
  cases form with
  | brace | paren => decide
  | line => contradiction

/-- So are their closers. -/
theorem Comment.closer_mem_markers {form : CommentForm} (hblock : form ≠ .line) :
    form.closer ∈ markers := by
  cases form with
  | brace | paren => decide
  | line => contradiction

/-- No marker holds a blank. -/
theorem Comment.not_isBlank_of_mem_markers {marker : List Char} {ch : Char} (h : marker ∈ markers)
    (hch : ch ∈ marker) : isBlank ch = false := by
  have hcheck : ∀ marker ∈ markers, marker.all fun ch => !isBlank ch := by decide
  exact Bool.not_eq_true' _ |>.mp (List.all_eq_true.mp (hcheck marker h) ch hch)

/-- A comment that has ended stays as it is. Block comments always have, and line comments have if
their line has. -/
theorem Comment.recognize_followedBy {c : Cursor} {m : Match} (h : recognize c = .ok m)
    (hline : m.kind = .comment .line → '\n' ∈ c.rest) :
    recognize (c.followedBy v) = .ok (m.followedBy v) := by
  obtain ⟨form, hkind⟩ := kind_of_recognize h
  obtain ⟨opened, hopen⟩ := exists_opener_of_recognize h hkind
  have hopen' : (c.followedBy v).Reads form.opener (opened.followedBy v) :=
    Cursor.reads_followedBy_iff.mpr hopen
  -- The longer text has a comment at the same place. It is enough that it ends there as well.
  obtain ⟨n, hn, hnext⟩ : ∃ n, recognize (c.followedBy v) = .ok n ∧
      ∃ next, n.next = Cursor.followedBy v next := by
    by_cases hform : form = .line
    · subst hform
      obtain ⟨n, hn⟩ := exists_recognize_followedBy (v := v) h
      refine ⟨n, hn, opened.lineEnd, ?_⟩
      rw [next_of_recognize_line hopen' hn, Cursor.lineEnd_followedBy]
      have hfeed := hline hkind
      rw [hopen.1] at hfeed
      exact (List.mem_append.mp hfeed).resolve_left (by decide)
    · obtain ⟨kind, ts, e⟩ := m
      obtain rfl : kind = .comment form := hkind
      obtain ⟨s, hs, hr⟩ := (recognize_eq_ok_iff_complete hform).mp ⟨ts, h⟩
      obtain ⟨us, hus⟩ := (recognize_eq_ok_iff_complete hform).mpr
        ⟨s, hs, (Cursor.reads_followedBy_iff (v := v)).mpr hr⟩
      exact ⟨_, hus, e, rfl⟩
  obtain ⟨kind, inner, stop⟩ := n
  obtain ⟨next, rfl⟩ := hnext
  have hcut : recognize c = .ok ⟨kind, inner, next⟩ := recognize_of_followedBy hn
  cases h.symm.trans hcut
  exact hn

/-! ### All classes -/

/-- A match as an option carries over to the longer text. -/
theorem eq_ok_of_toOption {a b : Attempt} {m : Match}
    (h : a.toOption = b.toOption.map (Match.followedBy v)) (hb : b = .ok m) :
    a = .ok (m.followedBy v) := by
  subst hb
  cases a with
  | ok n => exact congrArg Except.ok (Option.some.inj h)
  | error f => cases h

/-- A class that makes tokens matches the same when text is put behind that begins with a blank. A
line comment has to end with its line for this, or else no text may be put behind it. -/
theorem Recognizer.run_followedBy {r : Recognizer} {c : Cursor} {m : Match} (hr : r ≠ .blank)
    (hv : Apart v) (hline : m.kind = .comment .line → v = [] ∨ '\n' ∈ c.rest)
    (h : r.run c = .ok m) : r.run (c.followedBy v) = .ok (m.followedBy v) := by
  have hne : (c.followedBy v).rest ≠ [] := by simp [rest_ne_nil_of_run h]
  have hat := recognizeAt_of_run h
  rw [run_of_rest_ne_nil hne]
  cases r with
  | comment =>
    -- Comments are the only matches that may go on over a blank.
    by_cases hempty : v = []
    · subst hempty
      have hsame (c : Cursor) : c.followedBy [] = c := by simp [Cursor.followedBy]
      rw [Match.followedBy, hsame, hsame]
      exact hat
    · exact Comment.recognize_followedBy hat fun hkind => (hline hkind).resolve_left hempty
  | string => exact Quoted.recognize_followedBy hv hat
  | identifier =>
    refine (Name.recognize_followedBy hv c).trans ?_
    rw [show Name.recognize c = .ok m from hat]
    rfl
  | number => exact eq_ok_of_toOption (Number.recognize_followedBy hv c) hat
  | symbol =>
    refine (Punctuation.recognize_followedBy hv c).trans ?_
    rw [show Punctuation.recognize c = .ok m from hat]
    rfl
  | blank => contradiction

/-- An opener without its comment is read as an operator. -/
theorem Punctuation.recognize_of_opener {c d : Cursor} (h : c.Reads CommentForm.paren.opener d) :
    recognize c = .ok ⟨.symbolPair, [], d⟩ := by
  obtain ⟨pos, rest⟩ := c
  obtain ⟨pos', rest'⟩ := d
  obtain ⟨hrest, hpos⟩ := h
  dsimp only at hrest hpos
  subst hrest hpos
  rfl

/-- Where punctuation stands and no comment, none begins when text is put behind that begins with a
blank, unless the punctuation is an opener: the comment may then be closed in the text behind. -/
theorem Recognizer.comment_error_followedBy {c : Cursor} {m : Match} {f : Failure} (hv : Apart v)
    (hm : symbol.run c = .ok m) (hf : comment.run c = .error f)
    (hopener : ¬ c.Reads CommentForm.paren.opener m.next) :
    ∃ f', comment.run (c.followedBy v) = .error f' := by
  cases hrun : comment.run (c.followedBy v) with
  | error g => exact ⟨g, rfl⟩
  | ok n =>
    exfalso
    have hat := recognizeAt_of_run hrun
    obtain ⟨form, hkind⟩ := Comment.kind_of_recognize hat
    obtain ⟨opened, hopen⟩ := Comment.exists_opener_of_recognize hat hkind
    have hnoblank : form.opener.all fun ch => !isBlank ch := by cases form <;> decide
    -- The opener has been there without the text behind.
    have hbegins : form.opener <+: c.rest :=
      isPrefix_of_apart hv (by simpa using hnoblank) ⟨opened.rest, hopen.1.symm⟩
    obtain ⟨d, hd⟩ := Cursor.exists_reads_of_isPrefix hbegins
    cases form with
    | brace =>
      obtain ⟨ch, hch, hsymbol⟩ := leads_of_getsOn (getsOn_of_run hm)
      rw [hd.1] at hch
      obtain rfl := Option.mem_some_iff.mp hch
      exact absurd hsymbol (by decide)
    | paren =>
      have hpair := (Punctuation.recognize_of_opener hd).symm.trans (recognizeAt_of_run hm)
      cases hpair
      exact hopener hd
    | line =>
      rw [run_of_rest_ne_nil (rest_ne_nil_of_run hm)] at hf
      rw [show comment.recognizeAt c = Comment.recognize c from rfl,
        Comment.recognize_eq_scan_of_opener hd] at hf
      exact Comment.scan_ne_error rfl hf

/-- Where no number stands, there is none when text is put behind that begins with a blank. -/
theorem Recognizer.number_error_followedBy {c : Cursor} {f : Failure} (hv : Apart v)
    (hrest : c.rest ≠ []) (h : number.run c = .error f) :
    ∃ f', number.run (c.followedBy v) = .error f' := by
  have hne : (c.followedBy v).rest ≠ [] := by simp [hrest]
  rw [run_of_rest_ne_nil hrest] at h
  rw [run_of_rest_ne_nil hne]
  have hoption := Number.recognize_followedBy hv c
  rw [show Number.recognize c = .error f from h] at hoption
  cases hrec : Number.recognize (c.followedBy v) with
  | error g => exact ⟨g, hrec⟩
  | ok n =>
    rw [hrec] at hoption
    cases hoption

end PascalScan
