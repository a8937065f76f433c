import PascalScan.Proofs.Comment.LineBody
import PascalScan.Proofs.Token.Nesting

/-!
# `PascalScan.Proofs.Comment.Nested`: a nested comment is a comment of its own

Inside another comment, a comment is scanned on top of whatever is open around it, and inside a
line comment the ends of lines matter as well. None of this shows in what is found: asked at the
place where a nested comment begins, the recognizer of comments gives the same token, with the same
comments inside (`recognize_nested`).

The reason is that the pieces of which a comment consists (`Contents`) do not mention what is around
them, so each complete comment among them has all that it takes to be recognized
(`Contents.recognize_of_within`). For a line comment, the pieces are those of its line.
-/

set_option autoImplicit false

namespace PascalScan.Comment

open Text CommentForm

/-- A comment in a piece of a body, at any depth, is recognized at the place where it begins. -/
theorem Contents.recognize_of_within {form : CommentForm} {c d : Cursor} {ts : List Token}
    (h : Contents form c ts d) :
    ∀ {t u : Token}, t ∈ ts → Tree.Within u t →
      ∃ s o m, c.Reads s o ∧ recognize o = .ok m ∧ m.token o = u := by
  induction h with
  | nil =>
    intro t u ht
    cases ht
  | plain _ hread _ ih =>
    intro t u ht hu
    obtain ⟨s, o, m, hs, hm⟩ := ih ht hu
    exact ⟨_, o, m, hread.trans hs, hm⟩
  | @comment form inner c opened closing next d inside ts hblock hopen hinside hclose _ ihInside
      ihTail =>
    intro t u ht hu
    rcases List.mem_cons.mp ht with rfl | ht
    · rcases Tree.within_node_iff.mp hu with rfl | ⟨t, ht, hu⟩
      · -- The comment itself: its opener, the piece inside and its closer are all there.
        exact ⟨[], c, _, .refl c, recognize_of_closed hblock hopen ⟨closing, hinside, hclose⟩, rfl⟩
      · obtain ⟨s, o, m, hs, hm⟩ := ihInside ht hu
        exact ⟨_, o, m, hopen.trans hs, hm⟩
    -- The comment is in the piece behind the first one.
    · obtain ⟨body, hbody, -⟩ := hinside.exists_body
      obtain ⟨s, o, m, hs, hm⟩ := ihTail ht hu
      exact ⟨_, o, m, ((hopen.trans hbody).trans hclose).trans hs, hm⟩

/-- What a comment holds is a piece of a body behind its opener. -/
theorem exists_contents_of_recognize {c : Cursor} {m : Match} (h : recognize c = .ok m) :
    ∃ form opened d, c.Reads form.opener opened ∧ Contents form opened m.inner d := by
  obtain ⟨form, hkind⟩ := kind_of_recognize h
  by_cases hblock : form = .line
  · subst hblock
    obtain ⟨opened, hopen⟩ := exists_opener_of_recognize h hkind
    obtain ⟨start, stop, v, ts, rfl, hv, -, hcontents, -, hrec⟩ := exists_contents_of_line hopen
    cases h.symm.trans hrec
    exact ⟨.line, _, _, hopen, hcontents.followedBy hv.apart⟩
  · obtain ⟨opened, ts, e, hopen, ⟨d, hcontents, -⟩, rfl⟩ :=
      (recognize_eq_ok_iff_closed hblock).mp ⟨h, hkind⟩
    exact ⟨form, opened, d, hopen, hcontents⟩

/-- Every comment inside a comment, at any depth, is found at the offset where it starts: the same
token with all that is inside it. -/
theorem recognize_nested (text : List Char) (pos : Nat) (t d : Token)
    (ht : Recognizer.comment.recognize text pos = .ok (.ok t)) (hd : Tree.Within d t) :
    Recognizer.comment.recognize text d.start = .ok (.ok d) := by
  obtain ⟨c, m, hc, rfl, hrun, rfl⟩ := Recognizer.recognize_eq_ok_iff.mp ht
  rcases Tree.within_node_iff.mp hd with rfl | ⟨u, hu, hd⟩
  · exact ht
  have hrec : recognize c = .ok m := Recognizer.recognizeAt_of_run hrun
  obtain ⟨form, opened, e, hopen, hcontents⟩ := exists_contents_of_recognize hrec
  -- `o` is where the nested comment starts, and there the class answers with it
  obtain ⟨s, o, n, hs, hn, rfl⟩ := hcontents.recognize_of_within hu hd
  have ho : o.StandsIn text := (hc.of_reads hopen).of_reads hs
  have hrunInner : Recognizer.comment.run o = .ok n :=
    (Recognizer.run_of_rest_ne_nil (readsFrom_of_recognize hn).rest_ne_nil).trans hn
  exact Recognizer.recognize_eq_ok_iff.mpr ⟨o, n, ho, rfl, hrunInner, rfl⟩

/-- A comment in braces, inside a comment that is inside a line comment. The closer of the other
form stands in it, and behind both the line ends with a comment open. -/
theorem recognize_nested_in_line :
    Tree.Within (Token.ofSpan (.comment .brace) 6 10 [])
      (Token.ofSpan (.comment .line) 0 15
        [.ofSpan (.comment .paren) 4 12 [.ofSpan (.comment .brace) 6 10 []]]) ∧
    Recognizer.comment.recognize "//é(*\x7b*)\x7d*)(*\n*)".toList 6
      = .ok (.ok (.ofSpan (.comment .brace) 6 10 [])) := by
  have hwithin : Tree.Within (Token.ofSpan (.comment .brace) 6 10 [])
      (Token.ofSpan (.comment .line) 0 15
        [.ofSpan (.comment .paren) 4 12 [.ofSpan (.comment .brace) 6 10 []]]) :=
    .inner (List.mem_singleton_self _) (.inner (List.mem_singleton_self _) .self)
  exact ⟨hwithin, recognize_nested "//é(*\x7b*)\x7d*)(*\n*)".toList 0 _ _ rfl hwithin⟩

end PascalScan.Comment
