import PascalScan.Proofs.Comment.Spread
import PascalScan.Proofs.Lexical.Ending
import PascalScan.Proofs.Scan.Words

/-!
# `PascalScan.Proofs.Scan.Respaced`: blanks between the words do not matter

Take the words of a text and write them anew with any blanks in between, at least one. The words of
the new text are the same (`Words.interleave`). For all words but one this is clear, as they do not
look behind the blank. The exception is the bare opener, which is read as punctuation because its
comment does not end up to the end of the text. That this is still so is the matter of
`PascalScan.Proofs.Comment.Spread`, and so the induction over the words also shows that the new text
is the old one spread out.
-/

set_option autoImplicit false

namespace PascalScan

open Text Comment

/-- The words one after the other, each but the last with a separator behind it. -/
def interleave : List String → List String → String
  | v :: vs, s :: separators => v ++ s ++ interleave vs separators
  | v :: _, [] => v
  | [], _ => ""

/-! ### One word in front of another text -/

/-- A line comment holds the end of its line, or the text ends with it. -/
theorem Begins.feed_mem_or_eq_nil {value rest : List Char}
    (h : Begins (.comment .line) value rest) : '\n' ∈ value ∨ rest = [] := by
  obtain ⟨inner, hcounts⟩ := h.exists_counts
  rcases feed_mem_or_rest_eq_nil (Recognizer.recognizeAt_of_run hcounts.run) rfl with
    ⟨s, hs⟩ | hrest
  · have hvalue : value = s ++ ['\n'] := List.append_cancel_right hs.1
    exact .inl (by simp [hvalue])
  · exact .inr hrest

/-- No opener reaches from a word to what stands behind it. -/
theorem Begins.not_opener_across {kind : Kind} {value rest : List Char}
    (h : Begins kind value rest) (hlast : value.getLast? = some '(') : rest.head? ≠ some '*' := by
  obtain ⟨inner, hcounts⟩ := h.exists_counts
  obtain ⟨s, rfl⟩ := List.getLast?_eq_some_iff.mp hlast
  exact Recognizer.not_opener_across hcounts.run ⟨rfl, by simp⟩

/-- A word stays a word when the text behind it is spread out. -/
theorem Begins.spread {kind : Kind} {value rest rest' : List Char} (hrest' : Apart rest')
    (hspread : Spread rest rest') (hline : kind = .comment .line → rest' = [] ∨ '\n' ∈ value)
    (h : Begins kind value rest) : Begins kind value rest' := by
  -- Only punctuation may be called in question, by a comment that begins at the same place.
  refine h.cut.append hrest' hline fun hsymbol => ?_
  obtain ⟨inner, hcounts⟩ := h.exists_counts
  obtain ⟨f, hf⟩ := hcounts.symbol hsymbol .comment (.inl rfl)
  rw [hsymbol] at hcounts
  by_cases hopener : value = CommentForm.paren.opener
  · -- The comment stays open.
    subst hopener
    have hne (behind : List Char) :
        (Cursor.mk 0 (CommentForm.paren.opener ++ behind)).rest ≠ [] :=
      List.append_ne_nil_of_left_ne_nil h.value_ne_nil behind
    rw [Recognizer.run_of_rest_ne_nil (hne rest)] at hf
    rw [Recognizer.run_of_rest_ne_nil (hne rest')]
    have hopen (behind : List Char) : (Cursor.mk 0 (CommentForm.paren.opener ++ behind)).Reads
        CommentForm.paren.opener ⟨2, behind⟩ := ⟨rfl, rfl⟩
    exact hspread.exists_recognize_error (by decide) (hopen rest) (hopen rest') hf
  · -- Any other punctuation does not depend on what comes behind the blank.
    have hcut : Recognizer.symbol.run ⟨0, value⟩ = .ok ⟨kind, inner, ⟨byteSize value, []⟩⟩ :=
      Recognizer.run_of_followedBy hcounts.run
    obtain ⟨g, hg⟩ : ∃ g, Recognizer.comment.run ⟨0, value⟩ = .error g := by
      cases hrun : Recognizer.comment.run ⟨0, value⟩ with
      | error g => exact ⟨g, rfl⟩
      | ok n =>
        obtain ⟨n', hn'⟩ := Recognizer.exists_comment_followedBy (v := rest) hrun
        cases hn'.symm.trans hf
    refine Recognizer.comment_error_followedBy hrest' hcut hg fun hread => hopener ?_
    simpa using hread.1

/-! ### All words -/

/-- The words of a text written anew are the same, and the new text is the old one spread out. -/
theorem Words.interleave {cs : List Char} {ws : List (Kind × String)} (h : Words cs ws) :
    ∀ separators : List String, separators.length = ws.length - 1 →
      (∀ s ∈ separators, IsSeparator s) →
      Words (PascalScan.interleave (ws.map Prod.snd) separators).toList ws ∧
        Spread cs (PascalScan.interleave (ws.map Prod.snd) separators).toList := by
  induction h with
  | nil =>
    intro separators _ _
    exact ⟨.nil, .nil⟩
  | blank hblank _ ih =>
    intro separators hlength hseparators
    obtain ⟨hwords, hspread⟩ := ih separators hlength hseparators
    exact ⟨hwords, .plainLeft (ordinary_of_isBlank hblank) hspread⟩
  | @word kind value rest ws hbegins tail ih =>
    intro separators hlength hseparators
    -- It remains to see what stands behind the word in the new text.
    have hnext {rest' : List Char} (hrest' : Apart rest')
        (hline : kind = .comment .line → rest' = [] ∨ '\n' ∈ value.toList)
        (hwords : Words rest' ws) (hspread : Spread rest rest') :
        Words (value.toList ++ rest') ((kind, value) :: ws) ∧
          Spread (value.toList ++ rest) (value.toList ++ rest') :=
      ⟨.word (hbegins.spread hrest' hspread hline) hwords,
        hspread.append hrest' hbegins.not_opener_across⟩
    cases separators with
    | nil =>
      obtain rfl : ws = [] := List.length_eq_zero_iff.mp (by simpa using hlength.symm)
      obtain ⟨hwords, hspread⟩ := ih [] rfl (by simp)
      have hlast := hnext apart_nil (fun _ => .inl rfl) hwords hspread
      rwa [List.append_nil] at hlast
    | cons s separators =>
      have hlength' : ws.length = separators.length + 1 := by simpa using hlength.symm
      have hs : IsSeparator s := hseparators s (by simp)
      obtain ⟨hwords, hspread⟩ := ih separators (by omega)
        fun t ht => hseparators t (by simp [ht])
      have happend := hnext (hs.apart _) ?_ (hwords.of_blanks hs.blank)
        (hspread.blanksRight hs.blank)
      · rw [List.map_cons, PascalScan.interleave, String.toList_append, String.toList_append,
          List.append_assoc]
        exact happend
      · -- Another word follows, so the line has ended.
        rintro rfl
        refine .inr (hbegins.feed_mem_or_eq_nil.resolve_right ?_)
        rintro rfl
        rw [tail.eq_nil] at hlength'
        cases hlength'

/-- The values of the tokens of a scan that did not fail, written anew with any blanks in front and
any blanks, but at least one, in between: the new text scans without a failure to tokens of the
same kinds and values in the same order. This is so for openers as well that are read as operators
because their comments are not closed, also where the blanks take a closer apart. -/
theorem scan_respaced (source lead text : String) (separators : List String)
    (hok : (scan source.toList).status = .ok)
    (hlead : ∀ ch ∈ lead.toList, isBlank ch)
    (hlength : separators.length = (scan source.toList).tokens.length - 1)
    (hseparators : ∀ s ∈ separators, IsSeparator s)
    (htext : text = lead ++ interleave
      ((scan source.toList).tokens.map fun t => (Tree.label t).text source) separators) :
    (scan text.toList).status = .ok ∧
      (scan text.toList).tokens.length = (scan source.toList).tokens.length ∧
      (scan text.toList).tokens.map (Token.word text)
        = (scan source.toList).tokens.map (Token.word source) := by
  have hwords := words_iff.mpr ⟨hok, rfl⟩
  have hvalues : ((scan source.toList).tokens.map (Token.word source)).map Prod.snd
      = (scan source.toList).tokens.map fun t => (Tree.label t).text source := by
    rw [List.map_map]
    rfl
  obtain ⟨hrespaced, -⟩ := hwords.interleave separators (by simpa using hlength) hseparators
  rw [hvalues] at hrespaced
  -- The words are those of the source, one separator behind each but the last.
  have hnew : Words text.toList ((scan source.toList).tokens.map (Token.word source)) := by
    rw [htext, String.toList_append]
    exact hrespaced.of_blanks hlead
  obtain ⟨hstatus, hmap⟩ := words_iff.mp hnew
  exact ⟨hstatus, by simpa using congrArg List.length hmap, hmap⟩

/-- An opener that is not closed, although another opener stands in a string and a closer behind
it. The blanks take that closer apart. -/
theorem scan_respaced_of_open_comment :
    (scan "(*'(*'**)".toList).status = .ok ∧
    3 = (scan "(*'(*'**)".toList).tokens.length - 1 ∧
    " (*\t'(*'\n**\r)" = " " ++ interleave
      ((scan "(*'(*'**)".toList).tokens.map fun t => (Tree.label t).text "(*'(*'**)")
      ["\t", "\n", "\r"] ∧
    (scan " (*\t'(*'\n**\r)".toList).tokens.map (Token.word " (*\t'(*'\n**\r)")
      = [(.symbolPair, "(*"), (.string, "'(*'"), (.symbolPair, "**"), (.symbol, ")")] := by
  have hok : (scan "(*'(*'**)".toList).status = .ok := by decide +kernel
  have hlength : 3 = (scan "(*'(*'**)".toList).tokens.length - 1 := by decide +kernel
  have htext : " (*\t'(*'\n**\r)" = " " ++ interleave
      ((scan "(*'(*'**)".toList).tokens.map fun t => (Tree.label t).text "(*'(*'**)")
      ["\t", "\n", "\r"] := by decide +kernel
  obtain ⟨-, -, hmap⟩ := scan_respaced "(*'(*'**)" " " " (*\t'(*'\n**\r)" ["\t", "\n", "\r"] hok
    (show IsSeparator " " by decide).blank hlength (by decide) htext
  exact ⟨hok, hlength, htext, hmap.trans (by decide +kernel)⟩

end PascalScan
