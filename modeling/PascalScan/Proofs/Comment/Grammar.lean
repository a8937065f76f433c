import PascalScan.Proofs.Text.Boundary
import PascalScan.Token.Basic

/-!
# `PascalScan.Proofs.Comment.Grammar`: what a comment looks like

The recognizer of comments is a machine with a stack. This module says what a comment is without
any machine, in two ways.

* `Complete form s` is a grammar over strings: an opener, a body and the closer of the same form,
  where a body is a sequence of ordinary characters and of complete comments. A character is
  ordinary if neither the opener of a block comment nor the closer in question starts with it and
  what stands behind it.
* `Contents form c ts d` says the same of a text with offsets: between the cursors `c` and `d`
  stands a piece of the body of a comment of the given form, and `ts` are the tokens of the
  comments in it. Each token carries the offsets where its comment begins and ends.

`Contents.exists_body` and `Body.exists_contents` carry bodies from one to the other. An ordinary
character is told by one character of what stands behind it, so a body stays a body whatever
follows its closer (`Body.congr`).
-/

set_option autoImplicit false

namespace PascalScan

open Text

namespace CommentForm

/-- The characters that open a comment. -/
def opener : CommentForm → List Char
  | brace => ['{']
  | paren => ['(', '*']
  | line => ['/', '/']

/-- The characters that close a comment. -/
def closer : CommentForm → List Char
  | brace => ['}']
  | paren => ['*', ')']
  | line => ['\n']

/-- Every comment has an opener. -/
theorem opener_ne_nil (form : CommentForm) : form.opener ≠ [] := by
  cases form <;> simp [opener]

/-- Every comment has something that ends it. -/
theorem closer_ne_nil (form : CommentForm) : form.closer ≠ [] := by
  cases form <;> simp [closer]

/-- What stands behind a closer does not change the character that it starts with. -/
theorem head?_closer_append (form : CommentForm) (cs : List Char) :
    (form.closer ++ cs).head? = form.closer.head? := by
  cases form <;> rfl

end CommentForm

namespace Comment

/-! ### The grammar over strings -/

/-- The first of the characters `cs` is ordinary in a comment of the given form: they begin
neither with the opener of a block comment nor with the closer of the form. Markers are ASCII, so
all bytes of any other character are ordinary and it makes no difference whether characters or
bytes are meant. -/
def Plain (form : CommentForm) (cs : List Char) : Prop :=
  ¬ CommentForm.brace.opener <+: cs ∧ ¬ CommentForm.paren.opener <+: cs ∧ ¬ form.closer <+: cs

/-- No block comment is opened at an ordinary character. -/
theorem Plain.not_opener {form inner : CommentForm} {cs : List Char} (h : Plain form cs)
    (hinner : inner ≠ .line) : ¬ inner.opener <+: cs := by
  cases inner with
  | brace => exact h.1
  | paren => exact h.2.1
  | line => contradiction

/-- The characters can stand inside a comment of the given form, in front of `after`. -/
inductive Body : CommentForm → List Char → List Char → Prop where
  /-- There may be nothing. -/
  | nil {form : CommentForm} {after : List Char} : Body form after []
  /-- An ordinary character. -/
  | plain {form : CommentForm} {after : List Char} {ch : Char} {body : List Char}
      (hplain : Plain form (ch :: (body ++ after))) (tail : Body form after body) :
      Body form after (ch :: body)
  /-- A complete block comment. -/
  | comment {form inner : CommentForm} {after inside body : List Char} (hblock : inner ≠ .line)
      (hinside : Body inner inner.closer inside) (tail : Body form after body) :
      Body form after (inner.opener ++ inside ++ inner.closer ++ body)

/-- The characters are a block comment of the given form, from its opener to its closer. -/
def Complete (form : CommentForm) (s : List Char) : Prop :=
  form ≠ .line ∧ ∃ body, s = form.opener ++ body ++ form.closer ∧ Body form form.closer body

/-! ### One character behind the body decides -/

/-- Whether a marker begins somewhere depends on the character there and on the next one, as no
marker is longer than that. -/
theorem isPrefix_cons_of_head? {marker : List Char} {ch : Char} {as bs : List Char}
    (hlen : marker.length ≤ 2) (hhead : as.head? = bs.head?) (h : marker <+: ch :: bs) :
    marker <+: ch :: as := by
  match marker with
  | [] => exact List.nil_prefix
  | [m] => simpa using h
  | [m, n] =>
    cases bs with
    | nil => simp at h
    | cons b bs =>
      cases as with
      | nil => simp at hhead
      | cons a as =>
        obtain rfl : a = b := by simpa using hhead
        simpa using h
  | _ :: _ :: _ :: _ => simp at hlen

/-- Whether a character is ordinary depends on it and on the next one. -/
theorem Plain.congr {form : CommentForm} {ch : Char} {as bs : List Char}
    (h : Plain form (ch :: as)) (hhead : as.head? = bs.head?) : Plain form (ch :: bs) := by
  have hlenCloser : form.closer.length ≤ 2 := by
    cases form <;> simp [CommentForm.closer]
  obtain ⟨hbrace, hparen, hclose⟩ := h
  refine ⟨?_, ?_, ?_⟩
  · intro hm
    exact hbrace (isPrefix_cons_of_head? (by decide) hhead hm)
  · intro hm
    exact hparen (isPrefix_cons_of_head? (by decide) hhead hm)
  · intro hm
    exact hclose (isPrefix_cons_of_head? hlenCloser hhead hm)

/-- Only the first character behind a body matters to it. -/
theorem Body.congr {form : CommentForm} {after after' body : List Char} (h : Body form after body)
    (hhead : after.head? = after'.head?) : Body form after' body := by
  induction h with
  | nil => exact .nil
  | @plain form after ch body hplain _ ih =>
    -- The last character of the body stands in front of `after`, any other in front of the next.
    refine .plain (hplain.congr ?_) (ih hhead)
    cases body with
    | nil => exact hhead
    | cons => rfl
  | comment hblock hinside _ _ ih => exact .comment hblock hinside (ih hhead)

/-! ### The grammar over offsets -/

/-- Between the two cursors stands a piece of the body of a comment, with the comments `ts`
right inside it. -/
inductive Contents : CommentForm → Cursor → List Token → Cursor → Prop where
  /-- There may be nothing. -/
  | nil {form : CommentForm} {c : Cursor} : Contents form c [] c
  /-- An ordinary character. -/
  | plain {form : CommentForm} {c next d : Cursor} {ch : Char} {ts : List Token}
      (hplain : Plain form c.rest) (hread : c.Reads [ch] next) (tail : Contents form next ts d) :
      Contents form c ts d
  /-- A complete block comment, with the comments `inside` it. -/
  | comment {form inner : CommentForm} {c opened closing next d : Cursor} {inside ts : List Token}
      (hblock : inner ≠ .line) (hopen : c.Reads inner.opener opened)
      (hinside : Contents inner opened inside closing) (hclose : closing.Reads inner.closer next)
      (tail : Contents form next ts d) :
      Contents form c (Token.ofSpan (.comment inner) c.pos next.pos inside :: ts) d

/-- What stands between the cursors of a piece is a body over strings. -/
theorem Contents.exists_body {form : CommentForm} {c d : Cursor} {ts : List Token}
    (h : Contents form c ts d) : ∃ s, c.Reads s d ∧ Body form d.rest s := by
  induction h with
  | nil => exact ⟨[], .refl _, .nil⟩
  | plain hplain hread _ ih =>
    obtain ⟨s, hs, hbody⟩ := ih
    have hreads := hread.trans hs
    refine ⟨_, hreads, .plain ?_ hbody⟩
    rw [hreads.1] at hplain
    exact hplain
  | comment hblock hopen _ hclose _ ihInside ihTail =>
    obtain ⟨inside, hinside, hbodyInside⟩ := ihInside
    obtain ⟨s, hs, hbody⟩ := ihTail
    refine ⟨_, ((hopen.trans hinside).trans hclose).trans hs, .comment hblock ?_ hbody⟩
    -- Behind the closer anything may follow.
    refine hbodyInside.congr ?_
    rw [hclose.1, CommentForm.head?_closer_append]

/-- Where a body over strings can be read, a piece stands between the cursors. -/
theorem Body.exists_contents {form : CommentForm} {after s : List Char} (h : Body form after s) :
    ∀ {c d : Cursor}, c.Reads s d → d.rest.head? = after.head? →
      ∃ ts, Contents form c ts d := by
  induction h with
  | nil =>
    intro c d hr _
    exact ⟨[], hr.unique (.refl c) ▸ .nil⟩
  | @plain form after ch body hplain _ ih =>
    intro c d hr hhead
    obtain ⟨next, hnext, htail⟩ := Cursor.Reads.split (s := [ch]) hr
    obtain ⟨ts, hts⟩ := ih htail hhead
    refine ⟨ts, .plain ?_ hnext hts⟩
    rw [hr.1]
    refine hplain.congr ?_
    cases body with
    | nil => exact hhead.symm
    | cons => rfl
  | @comment form inner after inside body hblock _ _ ihInside ihTail =>
    intro c d hr hhead
    -- The four parts are read one after the other.
    obtain ⟨next, hr, htail⟩ := hr.split
    obtain ⟨closing, hr, hclose⟩ := hr.split
    obtain ⟨opened, hopen, hinside⟩ := hr.split
    obtain ⟨us, hus⟩ := ihInside hinside (by rw [hclose.1, CommentForm.head?_closer_append])
    obtain ⟨ts, hts⟩ := ihTail htail hhead
    exact ⟨_, .comment hblock hopen hus hclose hts⟩

end Comment

end PascalScan
