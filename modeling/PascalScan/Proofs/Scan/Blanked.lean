import PascalScan.Proofs.Scan.Words
import PascalScan.Proofs.Token.Significant

/-!
# `PascalScan.Proofs.Scan.Blanked`: comments are as good as blanks

If the comments of a text are taken out and blanks are put in their place, the other tokens stay as
they are (`scan_blanked`). Each of them stands in front of other text then, but not everywhere: up
to the next comment the two texts are the same. `SharesFront c new` says so of the text behind a
cursor and of what stands there instead. A token is then found in the new text by cutting the old
text at the next comment and by putting the new one behind the cut (`SharesFront.begins`).
-/

set_option autoImplicit false

namespace PascalScan

open Text

variable {fill : Token → String} {text : List Char}

/-- The text between two offsets, with `fill t` in the place of every comment `t` among its
tokens. -/
def blanked (fill : Token → String) (text : List Char) (start stop : Nat) :
    List Token → List Char
  | [] => slice text start stop
  | t :: ts =>
    slice text start t.start ++
      (if t.kind.isComment then (fill t).toList else slice text t.start t.stop) ++
      blanked fill text t.stop stop ts

/-- What is passed over in front of the tokens is kept. -/
theorem blanked_of_reads {order : List Recognizer} {c next d : Cursor} {gap : List Char}
    {ts : List Token} (hc : c.StandsIn text) (hgap : c.Reads gap next)
    (h : Layout order next ts d) :
    blanked fill text c.pos d.pos ts = gap ++ blanked fill text next.pos d.pos ts := by
  have hnext := hc.of_reads hgap
  -- `gap` goes to the front of the first gap of the layout
  cases h with
  | blanks hmore =>
    show slice text c.pos d.pos = gap ++ slice text next.pos d.pos
    rw [hc.slice_of_reads (hgap.trans hmore), hnext.slice_of_reads hmore]
  | @token _ e _ more m ts hmore =>
    show slice text c.pos e.pos ++ _ ++ _ = gap ++ (slice text next.pos e.pos ++ _ ++ _)
    rw [hc.slice_of_reads (hgap.trans hmore), hnext.slice_of_reads hmore]
    simp only [List.append_assoc]

/-- In front of a token, a comment is taken out and any other is kept. -/
theorem blanked_cons {c : Cursor} {m : Match} {value : List Char} {stop : Nat} {ts : List Token}
    (hc : c.StandsIn text) (hr : c.Reads value m.next) :
    blanked fill text c.pos stop (m.token c :: ts) =
      (if m.kind.isComment then (fill (m.token c)).toList else value) ++
        blanked fill text m.next.pos stop ts := by
  show slice text c.pos c.pos ++ (if m.kind.isComment then _ else slice text c.pos m.next.pos) ++
    blanked fill text m.next.pos stop ts = _
  rw [hc.slice_of_reads (.refl c), hc.slice_of_reads hr, List.nil_append]

/-! ### Texts that begin alike -/

/-- The text `new` begins like what stands behind the cursor, up to a place that the scan gets to.
There, `new` ends or goes on with a blank. -/
def SharesFront (c : Cursor) (new : List Char) : Prop :=
  ∃ front behind e us, new = front ++ behind ∧ Apart behind ∧ c.Reads front e ∧
    Reaches Recognizer.priority c us e

namespace SharesFront

variable {c next : Cursor} {new : List Char}

/-- Nothing needs to be alike in front of a blank. -/
theorem of_apart (h : Apart new) : SharesFront c new :=
  ⟨[], new, c, [], rfl, h, .refl c, .refl⟩

/-- Blanks that are passed over are shared, if what follows them is. -/
theorem skip {gap : List Char} (hstep : step Recognizer.priority c = .skip next)
    (hgap : c.Reads gap next) (h : SharesFront next new) : SharesFront c (gap ++ new) := by
  obtain ⟨front, behind, e, us, rfl, hbehind, hfront, hreach⟩ := h
  exact ⟨gap ++ front, behind, e, us, by simp, hbehind, hgap.trans hfront, .skip hstep hreach⟩

/-- So is a token that is found. -/
theorem emit {m : Match} {value : List Char} (hstep : step Recognizer.priority c = .emit m)
    (hr : c.Reads value m.next) (h : SharesFront m.next new) : SharesFront c (value ++ new) := by
  obtain ⟨front, behind, e, us, rfl, hbehind, hfront, hreach⟩ := h
  exact ⟨value ++ front, behind, e, _, by simp, hbehind, hr.trans hfront, .emit hstep hreach⟩

/-- A token in front of what is alike is found in the new text as well, if it is neither a comment
nor a bare opener. -/
theorem begins {m : Match} {value : List Char} (hstep : step Recognizer.priority c = .emit m)
    (hr : c.Reads value m.next) (hcomment : m.kind.isComment = false)
    (hopener : m.kind = .symbolPair → ¬ c.Reads CommentForm.paren.opener m.next)
    (h : SharesFront m.next new) : Begins m.kind value new := by
  obtain ⟨front, behind, e, us, rfl, hbehind, hfront, hreach⟩ := h
  obtain ⟨kind, inner, next⟩ := m
  dsimp only at hr hcomment hopener hfront hreach
  -- The text is cut where the two texts part.
  obtain ⟨next, rfl, hnext⟩ :=
    Cursor.exists_eq_followedBy_of_reads (d := ⟨e.pos, []⟩) (v := e.rest) hfront
  obtain ⟨c, rfl, hvalue⟩ := Cursor.exists_eq_followedBy_of_reads hr
  have hcut : step Recognizer.priority c = .emit ⟨kind, inner, next⟩ :=
    emit_of_followedBy (d := ⟨e.pos, []⟩) hstep rfl hreach
  have hnew := emit_followedBy_of_not_opener hbehind (fun hkind => ?_) (fun hkind hread => ?_) hcut
  · have hbegins := begins_of_emit hnew (Cursor.reads_followedBy_iff.mpr hvalue)
    have hrest : (next.followedBy behind).rest = front ++ behind := by
      rw [Cursor.rest_followedBy, hnext.1, List.append_nil]
    rw [← hrest]
    exact hbegins
  · rw [show kind = .comment .line from hkind] at hcomment
    cases hcomment
  · exact hopener hkind (Cursor.reads_followedBy_iff.mpr hread)

end SharesFront

/-! ### Texts without comments -/

/-- What a scan makes into a token is no blank. -/
theorem isBlank_kind_of_emit {c : Cursor} {m : Match}
    (hstep : step Recognizer.priority c = .emit m) : m.kind.isBlank = false := by
  cases hkind : m.kind with
  | blank => exact absurd hkind (kind_ne_blank_of_emit hstep)
  | _ => rfl

/-- With blanks in the place of the comments, a text begins as before up to the first comment, and
the words are those that are no trivia. -/
theorem Run.blanked {c d : Cursor} {ts : List Token} {source : String}
    (h : Run Recognizer.priority c ts d none) (hc : c.StandsIn source.toList)
    (hopener : ∀ t ∈ ts, ¬ t.IsBareOpener source)
    (hfill : ∀ t ∈ ts, t.kind.isComment → IsSeparator (fill t)) :
    SharesFront c (blanked fill source.toList c.pos d.pos ts) ∧
      Words (blanked fill source.toList c.pos d.pos ts)
        ((ts.filter (!·.kind.isTrivia)).map (Token.word source)) := by
  generalize hnone : (none : Option Failure) = outcome at h
  induction h with
  | @done c hrest =>
    have hnil : PascalScan.blanked fill source.toList c.pos c.pos [] = [] :=
      hc.slice_of_reads (.refl c)
    rw [hnil]
    exact ⟨.of_apart apart_nil, .nil⟩
  | @emit c d m ts outcome hstep tail ih =>
    subst hnone
    obtain ⟨value, -, hr⟩ := readsFrom_of_emit hstep
    obtain ⟨hshares, hwords⟩ := ih (hc.of_reads hr) (fun t ht => hopener t (by simp [ht]))
      (fun t ht => hfill t (by simp [ht])) rfl
    rw [blanked_cons hc hr]
    have htoken : (m.token c).kind = m.kind := rfl
    by_cases hcomment : m.kind.isComment
    · -- Blanks come instead of the comment, and no word.
      have hseparator : IsSeparator (fill (m.token c)) := hfill _ (by simp) hcomment
      rw [if_pos hcomment, List.filter_cons_of_neg (by simp [htoken, Kind.isTrivia, hcomment])]
      exact ⟨.of_apart (hseparator.apart _), hwords.of_blanks hseparator.blank⟩
    · rw [Bool.not_eq_true] at hcomment
      -- What stands behind the token is apart from it or shared, so it is still a word.
      have hbegins := SharesFront.begins hstep hr hcomment
        (fun hkind hread => hopener _ (by simp) (isBareOpener_of_reads hc hkind hread)) hshares
      rw [if_neg (by simp [hcomment]), List.filter_cons_of_pos
        (by simp [htoken, Kind.isTrivia, hcomment, isBlank_kind_of_emit hstep])]
      refine ⟨hshares.emit hstep hr, ?_⟩
      have hvalue : Token.word source (m.token c) = (m.kind, String.ofList value) :=
        congrArg (m.kind, ·) (excerpt_eq_of_slice? (hc.slice?_of_reads hr))
      rw [List.map_cons, hvalue]
      rw [← String.toList_ofList (l := value)] at hbegins ⊢
      rw [String.ofList_toList]
      exact .word hbegins hwords
  | @skip c next d ts outcome hstep tail ih =>
    subst hnone
    obtain ⟨gap, -, hgap, hblank, -⟩ := blanks_of_skip hstep
    obtain ⟨hshares, hwords⟩ := ih (hc.of_reads hgap) hopener hfill rfl
    rw [blanked_of_reads hc hgap (layout_of_run tail)]
    exact ⟨hshares.skip hstep hgap, hwords.of_blanks hblank⟩
  | halt => cases hnone

/-- Put blanks in the place of every comment of a text, at least one for each, and leave everything
else as it is. If the text scans without a failure and holds no bare opener, the new text scans
without a failure to tokens with the kinds and values that a grammar gets to see of the text when it
asks for one significant token after the other. -/
theorem scan_blanked (source text : String) (fill : Token → String)
    (hok : (scan source.toList).status = .ok)
    (hopener : ∀ t ∈ (scan source.toList).tokens, ¬ t.IsBareOpener source)
    (hfill : ∀ t ∈ (scan source.toList).tokens, t.kind.isComment → IsSeparator (fill t))
    (htext : text.toList
      = blanked fill source.toList 0 (byteSize source.toList) (scan source.toList).tokens) :
    (scan text.toList).status = .ok ∧
      (scan text.toList).tokens.map (Token.word text)
        = (Reader.ofList (scan source.toList).tokens).significant.map (Token.word source) := by
  obtain ⟨ts, hrun, hscan⟩ := exists_run_of_status_ok hok
  have hc : (Cursor.mk 0 source.toList).StandsIn source.toList := locate_zero _
  rw [hscan] at hopener hfill htext
  obtain ⟨-, hwords⟩ := hrun.blanked hc hopener hfill
  rw [← htext] at hwords
  rw [hscan, Reader.significant_eq_filter]
  exact words_iff.mp hwords

/-- The comments stand between a number and a point, in front of a star, and at the end of the text
without the end of a line. -/
theorem scan_blanked_of_neighbours :
    (scan "1\x7ba\x7d.5(.\x7b(**)\x7d*//x".toList).status = .ok ∧
    (∀ t ∈ (scan "1\x7ba\x7d.5(.\x7b(**)\x7d*//x".toList).tokens,
      ¬ t.IsBareOpener "1\x7ba\x7d.5(.\x7b(**)\x7d*//x") ∧
    IsSeparator "\t" ∧
    "1\t.5(.\t*\t".toList = blanked (fun _ => "\t") "1\x7ba\x7d.5(.\x7b(**)\x7d*//x".toList 0
      (byteSize "1\x7ba\x7d.5(.\x7b(**)\x7d*//x".toList)
      (scan "1\x7ba\x7d.5(.\x7b(**)\x7d*//x".toList).tokens ∧
    (scan "1\t.5(.\t*\t".toList).tokens.map (Token.word "1\t.5(.\t*\t")
      = (Reader.ofList (scan "1\x7ba\x7d.5(.\x7b(**)\x7d*//x".toList).tokens).significant.map
        (Token.word "1\x7ba\x7d.5(.\x7b(**)\x7d*//x") := by
  have hok : (scan "1\x7ba\x7d.5(.\x7b(**)\x7d*//x".toList).status = .ok := by decide +kernel
  have hopener : ∀ t ∈ (scan "1\x7ba\x7d.5(.\x7b(**)\x7d*//x".toList).tokens,
      ¬ t.IsBareOpener "1\x7ba\x7d.5(.\x7b(**)\x7d*//x" := by decide +kernel
  have hfill : IsSeparator "\t" := by decide
  have htext : "1\t.5(.\t*\t".toList = blanked (fun _ => "\t")
      "1\x7ba\x7d.5(.\x7b(**)\x7d*//x".toList 0
      (byteSize "1\x7ba\x7d.5(.\x7b(**)\x7d*//x".toList)
      (scan "1\x7ba\x7d.5(.\x7b(**)\x7d*//x".toList).tokens := by decide +kernel
  -- The comments stand right beside numbers and punctuation, so blanks have to come for them.
  have hwords := (scan_blanked "1\x7ba\x7d.5(.\x7b(**)\x7d*//x" "1\t.5(.\t*\t" (fun _ => "\t") hok
    hopener (fun _ _ _ => hfill) htext).2
  exact ⟨hok, hopener, hfill, htext, hwords⟩

end PascalScan
