import PascalScan.Proofs.Comment.Slicing
import PascalScan.Proofs.Lexical.Failing

/-!
# `PascalScan.Proofs.Lexical.Contract`: what every class answers at every offset

A class can be asked at any byte offset of any text. `recognize_contract` says what comes back.

* Past the end, and inside a character, the offset has no meaning. Only the class of comments has an
  answer inside a character.
* At the end of the text every class fails.
* At any other offset there is an answer. A token starts at the offset and is not empty, and it lies
  in the text with all that is inside it. A failure points no further back than the offset, its two
  offsets come in order, and both fall between characters.

For comments the last part also says that no comment that is closed on the way, and none that is
dropped in the end, would be cut out of the text at an offset inside a character.
-/

set_option autoImplicit false

namespace PascalScan

open Text

/-! ### Offsets without a cursor -/

/-- An offset in the text falls between two characters or inside one. -/
theorem Text.locate_eq_inside_iff {text : List Char} {n : Nat} :
    locate text n = .inside ↔ n ≤ byteSize text ∧ ¬ IsBoundary text n := by
  cases hplace : locate text n with
  | boundary rest => simp [IsBoundary, hplace]
  | inside =>
    have hbeyond : ¬ byteSize text < n := by
      rw [← locate_eq_beyond_iff, hplace]
      simp
    simpa [IsBoundary, hplace] using hbeyond
  | beyond =>
    have hbeyond := locate_eq_beyond_iff.mp hplace
    simp only [reduceCtorEq, false_iff, not_and]
    omega

/-- At the end of the text a cursor stands that has nothing left to read. -/
theorem Cursor.standsIn_end (text : List Char) : (Cursor.mk (byteSize text) []).StandsIn text :=
  Cursor.standsIn_iff.mpr ⟨text, by simp, rfl⟩

/-- A failure that lies ahead of a cursor in the text keeps its two offsets in order and between
characters of the text. -/
theorem Failure.LiesAhead.bounds {f : Failure} {c : Cursor} {text : List Char}
    (h : f.LiesAhead c) (hc : c.StandsIn text) :
    c.pos ≤ f.pos ∧ f.pos ≤ f.furthest ∧ f.furthest ≤ byteSize text ∧
      IsBoundary text f.pos ∧ IsBoundary text f.furthest := by
  obtain ⟨s, t, d, e, hd, he, hpos, hfar⟩ := h
  have hdIn := hc.of_reads hd
  have heIn := hdIn.of_reads he
  rw [hpos, hfar]
  exact ⟨hd.pos_le, he.pos_le, heIn.pos_le_byteSize, ⟨_, hdIn⟩, ⟨_, heIn⟩⟩

namespace Recognizer

/-! ### Tokens lie in the text -/

/-- Only comments have anything inside. -/
theorem inner_eq_nil_of_run {r : Recognizer} {c : Cursor} {m : Match} (hr : r ≠ .comment)
    (h : r.run c = .ok m) : m.inner = [] := by
  have hat := recognizeAt_of_run h
  -- No other class puts anything in the list of inner tokens, whichever of its matches it makes.
  cases r with
  | comment => contradiction
  | string =>
    dsimp only [recognizeAt] at hat
    unfold Quoted.recognize at hat
    repeat' split at hat
    all_goals cases hat
    rfl
  | identifier =>
    dsimp only [recognizeAt] at hat
    unfold Name.recognize at hat
    repeat' split at hat
    all_goals cases hat
    all_goals rfl
  | number =>
    dsimp only [recognizeAt] at hat
    unfold Number.recognize Number.unsigned Number.decimal at hat
    dsimp only at hat
    repeat' split at hat
    all_goals cases hat
    all_goals rfl
  | symbol =>
    dsimp only [recognizeAt] at hat
    unfold Punctuation.recognize Punctuation.recognizeSingle at hat
    repeat' split at hat
    all_goals cases hat
    all_goals rfl
  | blank =>
    dsimp only [recognizeAt] at hat
    unfold Blank.recognize at hat
    split at hat
    · cases hat
      rfl
    · cases hat

/-- What a class recognizes in a text lies in it, with all that is inside. -/
theorem liesIn_of_run {r : Recognizer} {c : Cursor} {m : Match} {source : String}
    (hc : c.StandsIn source.toList) (h : r.run c = .ok m) : Token.LiesIn source (m.token c) := by
  obtain ⟨s, hs, hread⟩ := run_readsFrom h
  refine Token.liesIn_of_reads hc hread hs ?_
  by_cases hr : r = .comment
  · subst hr
    have hat := recognizeAt_of_run h
    obtain ⟨form, hkind⟩ := Comment.kind_of_recognize hat
    obtain ⟨opened, hopen⟩ := Comment.exists_opener_of_recognize hat hkind
    exact (Comment.cuts_recognize hc hopen).liesIn m hat
  · simp [inner_eq_nil_of_run hr h]

/-! ### The contract -/

/-- Every class answers as follows at every byte offset of every text. Past the end the request is a
misuse. Inside a character comments fail to be recognized there and for the other classes the
request is a misuse. At the end of the text the class fails. At any other offset between two
characters, either a token is recognized that starts there, is not empty and lies in the text with
all that is inside it at any depth, or there is a failure whose two offsets come in order behind the
given one and fall between characters. In a comment, all that is closed on the way could be cut out
of the text, also what is dropped. -/
theorem recognize_contract (source : String) (r : Recognizer) (pos : Nat) :
    (byteSize source.toList < pos →
      r.recognize source.toList pos = .error (.startPastEnd pos) ∧
      (Misuse.startPastEnd pos).message?
        = some ("start position " ++ toString pos ++ " is past the end")) ∧
    (pos ≤ byteSize source.toList → ¬ IsBoundary source.toList pos →
      (r = .comment → ∃ f, r.recognize source.toList pos = .ok (.error f) ∧
        f.cause.message = "Not a comment" ∧ f.pos = pos ∧ f.furthest = pos) ∧
      (r ≠ .comment → r.recognize source.toList pos = .error .badSlice)) ∧
    (pos = byteSize source.toList → ∃ f, r.recognize source.toList pos = .ok (.error f) ∧
      f.cause.message = "Unexpected end of input" ∧ f.pos = pos ∧ f.furthest = pos) ∧
    (IsBoundary source.toList pos → pos < byteSize source.toList →
      ((∃ t, r.recognize source.toList pos = .ok (.ok t) ∧
          t.start = pos ∧ pos < t.stop ∧ t.stop ≤ byteSize source.toList ∧
          ∀ u, Tree.Within u t → Token.IsStretch source u) ∨
        (∃ f, r.recognize source.toList pos = .ok (.error f) ∧
          pos ≤ f.pos ∧ f.pos ≤ f.furthest ∧ f.furthest ≤ byteSize source.toList ∧
          IsBoundary source.toList f.pos ∧ IsBoundary source.toList f.furthest)) ∧
      ∀ (c opened : Cursor) (form : CommentForm), c.StandsIn source.toList → c.pos = pos →
        c.Reads form.opener opened →
        Comment.scanCutting source.toList (form == .line) (.opened form pos) [] opened.pos
          opened.rest = .ok (comment.run c)) := by
  refine ⟨?_, ?_, ?_, ?_⟩
  · intro hbeyond
    unfold recognize
    rw [locate_eq_beyond_iff.mpr hbeyond]
    exact ⟨rfl, rfl⟩
  · intro hle hinside
    -- Inside a character the comment class finds nothing, and the others cannot read.
    have hplace := locate_eq_inside_iff.mpr ⟨hle, hinside⟩
    unfold recognize
    rw [hplace]
    constructor
    · rintro rfl
      exact ⟨_, rfl, rfl, rfl, rfl⟩
    · intro hr
      cases r with
      | comment => contradiction
      | _ => rfl
  · rintro rfl
    have hrun : r.run ⟨byteSize source.toList, []⟩ = .error (.onSpot .endOfInput _) :=
      run_of_rest_eq_nil rfl
    have hat := recognize_of_standsIn (r := r) (Cursor.standsIn_end source.toList)
    rw [hrun] at hat
    exact ⟨_, hat, rfl, rfl, rfl⟩
  -- In front of a character there is a cursor, where the class matches or fails.
  · rintro ⟨rest, hrest⟩ hlt
    have hc : (Cursor.mk pos rest).StandsIn source.toList := hrest
    have hat := recognize_of_standsIn (r := r) hc
    constructor
    · cases hrun : r.run ⟨pos, rest⟩ with
      | ok m =>
        rw [hrun] at hat
        obtain ⟨s, hs, hread⟩ := run_readsFrom hrun
        exact .inl ⟨_, hat, rfl, hread.pos_lt hs, (hc.of_reads hread).pos_le_byteSize,
          liesIn_of_run hc hrun⟩
      | error f =>
        rw [hrun] at hat
        exact .inr ⟨f, hat, (liesAhead_of_run hrun).bounds hc⟩
    · rintro c opened form hc' rfl hopen
      rw [run_of_rest_ne_nil (hopen.rest_ne_nil form.opener_ne_nil)]
      exact (Comment.cuts_recognize hc' hopen).eq_ok

/-- Past the end, inside a character, at the end, and in front of a line comment that keeps a
comment with such a character in it and drops another. -/
theorem recognize_contract_of_line_comment :
    string.recognize "é//(*é*)\x7bé".toList 14 = .error (.startPastEnd 14) ∧
    number.recognize "é//(*é*)\x7bé".toList 7 = .error .badSlice ∧
    (∃ f, blank.recognize "é//(*é*)\x7bé".toList 13 = .ok (.error f) ∧ f.furthest = 13) ∧
    (∃ t, comment.recognize "é//(*é*)\x7bé".toList 2 = .ok (.ok t) ∧
      ∀ u, Tree.Within u t → Token.IsStretch "é//(*é*)\x7bé" u) ∧
    Comment.scanCutting "é//(*é*)\x7bé".toList true (.opened .line 2) [] 4 "(*é*)\x7bé".toList
      = .ok (comment.run ⟨2, "//(*é*)\x7bé".toList⟩) := by
  have hend := (recognize_contract "é//(*é*)\x7bé" .blank 13).2.2.1 (by decide)
  obtain ⟨f, hf, -, -, hfar⟩ := hend
  have hstart := (recognize_contract "é//(*é*)\x7bé" .comment 2).2.2.2 (by decide) (by decide)
  obtain ⟨hanswer, hcutting⟩ := hstart
  refine ⟨((recognize_contract "é//(*é*)\x7bé" .string 14).1 (by decide)).1,
    ((recognize_contract "é//(*é*)\x7bé" .number 7).2.1 (by decide) (by decide)).2 (by decide),
    ⟨f, hf, hfar⟩, ?_, hcutting ⟨2, "//(*é*)\x7bé".toList⟩ ⟨4, "(*é*)\x7bé".toList⟩ .line rfl rfl
      ⟨rfl, rfl⟩⟩
  rcases hanswer with ⟨t, ht, -, -, -, hstretch⟩ | ⟨g, hg, -⟩
  · exact ⟨t, ht, hstretch⟩
  · have htoken : comment.recognize "é//(*é*)\x7bé".toList 2
        = .ok (.ok (.ofSpan (.comment .line) 2 13 [.ofSpan (.comment .paren) 4 10 []])) := rfl
    cases htoken.symm.trans hg

end Recognizer

end PascalScan
