import PascalScan.Proofs.Lexical.Failing

/-!
# `PascalScan.Proofs.Comment.Report`: the report on comments that are not closed

Where a block comment is opened and does not end, the failure lists the comments that are open at
the end of the text. Which ones these are can be told from the text alone. `Pending parts cs` says
that the characters `cs` consist of openers, each with a piece of body behind it that goes up to the
next opener, and that none of them is closed: inside a piece of body, every comment that is opened
is complete, and the closer of the form does not occur.

`Unclosed` says the same with offsets, so the two are carried over into each other
(`Unclosed.exists_pending`, `Pending.exists_unclosed`). That a text can be taken apart in one way
only is then read off the scan, which has one answer (`Pending.unique`): the report fixes where the
openers stand, and with that everything in between. `recognize_unfinished` puts this together and
spells out the wording.
-/

set_option autoImplicit false

namespace PascalScan.Comment

open Text CommentForm

/-! ### Taking a text apart -/

/-- A comment that is not closed: its form, and what stands in it up to the next such comment or the
end of the text. -/
structure OpenPart where
  form : CommentForm
  body : List Char

/-- The characters are the parts, each with the opener of its form in front, and no part is
closed. -/
inductive Pending : List OpenPart → List Char → Prop where
  /-- The innermost comment goes on up to the end of the text. -/
  | last {form : CommentForm} {body : List Char} (hblock : form ≠ .line)
      (hbody : Body form [] body) : Pending [⟨form, body⟩] (form.opener ++ body)
  /-- Another comment is opened inside. -/
  | cons {form : CommentForm} {body cs : List Char} {parts : List OpenPart} (hblock : form ≠ .line)
      (hbody : Body form cs body) (tail : Pending parts cs) :
      Pending (⟨form, body⟩ :: parts) (form.opener ++ body ++ cs)

/-- The parts with the offsets of their openers, if the first stands at offset `pos`. -/
def openings (pos : Nat) : List OpenPart → List OpenComment
  | [] => []
  | part :: parts =>
    ⟨part.form, pos⟩ :: openings (pos + byteSize (part.form.opener ++ part.body)) parts

/-- Each part opens one comment. -/
theorem length_openings (pos : Nat) (parts : List OpenPart) :
    (openings pos parts).length = parts.length := by
  induction parts generalizing pos with
  | nil => rfl
  | cons part parts ih => simp [openings, ih]

/-- The characters that the parts make up. -/
def spelling (parts : List OpenPart) : List Char :=
  parts.flatMap fun part => part.form.opener ++ part.body

/-- An opener stands behind all the parts before it. -/
theorem getElem?_openings {parts : List OpenPart} {part : OpenPart} :
    ∀ {pos i : Nat}, parts[i]? = some part →
      (openings pos parts)[i]? = some ⟨part.form, pos + byteSize (spelling (parts.take i))⟩ := by
  -- each part that is left behind moves the offset of the later ones
  induction parts with
  | nil =>
    intro pos i h
    cases h
  | cons first parts ih =>
    intro pos i h
    cases i with
    | zero =>
      obtain rfl : first = part := Option.some.inj h
      rfl
    | succ i =>
      have hlater : parts[i]? = some part := h
      rw [openings, List.getElem?_cons_succ, ih hlater, List.take_succ_cons, spelling, spelling,
        List.flatMap_cons, byteSize_append _ (List.flatMap _ _), Nat.add_assoc]

/-! ### The same with offsets -/

/-- What is open behind an opener takes the text from there apart. -/
theorem Unclosed.exists_pending {form : CommentForm} {c e : Cursor} {opens : List OpenComment}
    (h : Unclosed form c opens e) :
    ∀ {o : Cursor}, form ≠ .line → o.Reads form.opener c →
      ∃ parts, Pending parts o.rest ∧ openings o.pos parts = ⟨form, o.pos⟩ :: opens := by
  induction h with
  | @here form c d ts hcontents hrest =>
    intro o hblock hopen
    -- The body of the innermost comment goes on to the end of the text.
    obtain ⟨body, hread, hbody⟩ := hcontents.exists_body
    rw [hrest] at hbody
    have hcs : o.rest = form.opener ++ body := by
      rw [hopen.1, hread.1, hrest, List.append_nil]
    exact ⟨[⟨form, body⟩], hcs ▸ .last hblock hbody, rfl⟩
  | @inside form inner c d opened e ts opens hcontents hinner hopen' _ ih =>
    intro o hblock hopen
    obtain ⟨body, hread, hbody⟩ := hcontents.exists_body
    obtain ⟨parts, hparts, hopenings⟩ := ih hinner hopen'
    have hall := hopen.trans hread
    refine ⟨⟨form, body⟩ :: parts, ?_, ?_⟩
    · rw [hall.1]
      exact .cons hblock hbody hparts
    · show ⟨form, o.pos⟩ :: openings (o.pos + byteSize (form.opener ++ body)) parts = _
      rw [← hall.2, hopenings]

/-- A text that is taken apart has an opener in front, and behind it comments are open up to the
end. -/
theorem Pending.exists_unclosed {parts : List OpenPart} {cs : List Char} (h : Pending parts cs) :
    ∀ {o : Cursor}, o.rest = cs → ∃ form opened opens e, form ≠ .line ∧
      o.Reads form.opener opened ∧ Unclosed form opened opens e ∧
      openings o.pos parts = ⟨form, o.pos⟩ :: opens := by
  induction h with
  | @last form body hblock hbody =>
    intro o ho
    obtain ⟨opened, hopen⟩ := Cursor.exists_reads_of_isPrefix (c := o) (s := form.opener)
      ⟨body, ho.symm⟩
    have hopenedRest : opened.rest = body := List.append_cancel_left (hopen.1.symm.trans ho)
    -- The last body is all that is left, so it is read to the end of the text.
    obtain ⟨d, hread⟩ := Cursor.exists_reads_of_isPrefix (c := opened) (s := body)
      ⟨[], by rw [hopenedRest, List.append_nil]⟩
    have hend : d.rest = [] := by
      have hsame := hread.1
      rw [hopenedRest] at hsame
      exact List.self_eq_append_right.mp hsame
    obtain ⟨ts, hts⟩ := hbody.exists_contents hread (by rw [hend])
    exact ⟨form, opened, [], d, hblock, hopen, .here hts hend, rfl⟩
  | @cons form body cs parts hblock hbody _ ih =>
    intro o ho
    obtain ⟨d, hall⟩ := Cursor.exists_reads_of_isPrefix (c := o) (s := form.opener ++ body)
      ⟨cs, ho.symm⟩
    have hd : d.rest = cs := List.append_cancel_left (hall.1.symm.trans ho)
    obtain ⟨opened, hopen, hread⟩ := hall.split
    obtain ⟨ts, hts⟩ := hbody.exists_contents hread (by rw [hd])
    obtain ⟨inner, opened', opens, e, hinner, hopen', hunclosed, hopenings⟩ := ih hd
    refine ⟨form, opened, _, e, hblock, hopen, .inside hts hinner hopen' hunclosed, ?_⟩
    show ⟨form, o.pos⟩ :: openings (o.pos + byteSize (form.opener ++ body)) parts = _
    rw [← hall.2, hopenings]

/-! ### What is reported -/

/-- A text that is taken apart is no comment, and the failure lists its openers. -/
theorem Pending.recognize_eq {parts : List OpenPart} {c : Cursor} (h : Pending parts c.rest) :
    recognize c
      = .error ⟨.unfinishedComment (openings c.pos parts), c.pos, c.pos + byteSize c.rest⟩ := by
  obtain ⟨form, opened, opens, e, hblock, hopen, hunclosed, hopenings⟩ := h.exists_unclosed rfl
  obtain ⟨s, hread, hend⟩ := hunclosed.reads
  obtain ⟨hrest, hpos⟩ := hopen.trans hread
  rw [hend, List.append_nil] at hrest
  rw [recognize_of_opener hblock hopen, scan_unclosed hunclosed rfl, hopenings, hrest, ← hpos]
  rfl

/-- There is at least one part. -/
theorem Pending.ne_nil {parts : List OpenPart} {cs : List Char} (h : Pending parts cs) :
    parts ≠ [] := by
  cases h <;> simp

/-- The openers and the text tell the parts. -/
theorem Pending.eq_of_openings {parts parts' : List OpenPart} {cs : List Char}
    (h : Pending parts cs) :
    ∀ {pos : Nat}, Pending parts' cs → openings pos parts = openings pos parts' →
      parts = parts' := by
  -- Without further openers there are no further parts.
  have hnone {pos : Nat} {parts : List OpenPart} {cs : List Char} (h : Pending parts cs) :
      openings pos parts ≠ [] := by
    intro hnil
    have hlength := length_openings pos parts
    rw [hnil] at hlength
    exact h.ne_nil (List.length_eq_zero_iff.mp hlength.symm)
  induction h generalizing parts' with
  | @last form body _ _ =>
    intro pos h' hsame
    generalize hcs : form.opener ++ body = cs at h'
    cases h' with
    | @last form' body' _ _ =>
      obtain ⟨hhead, -⟩ := List.cons.inj hsame
      obtain ⟨rfl, -⟩ := OpenComment.mk.inj hhead
      rw [List.append_cancel_left hcs]
    | cons _ _ tail => exact absurd (List.cons.inj hsame).2.symm (hnone tail)
  | @cons form body cs parts _ _ hparts ih =>
    intro pos h' hsame
    generalize hall : form.opener ++ body ++ cs = all at h'
    cases h' with
    | last => exact absurd (List.cons.inj hsame).2 (hnone hparts)
    | @cons form' body' cs' parts' _ _ hparts' =>
      obtain ⟨hhead, htail⟩ := List.cons.inj hsame
      obtain ⟨rfl, -⟩ := OpenComment.mk.inj hhead
      -- The next opener stands at the same offset in both, so what is in front of it is the same.
      have hsize : byteSize (form.opener ++ body) = byteSize (form.opener ++ body') := by
        obtain ⟨part, later, rfl⟩ := List.exists_cons_of_ne_nil hparts.ne_nil
        obtain ⟨part', later', rfl⟩ := List.exists_cons_of_ne_nil hparts'.ne_nil
        obtain ⟨-, hpos⟩ := OpenComment.mk.inj (List.cons.inj htail).1
        exact Nat.add_left_cancel hpos
      obtain ⟨hfront, rfl⟩ := append_inj_of_byteSize hall hsize
      obtain rfl := List.append_cancel_left hfront
      rw [ih hparts' htail]

/-- A text can be taken apart in one way only. -/
theorem Pending.unique {parts parts' : List OpenPart} {cs : List Char} (h : Pending parts cs)
    (h' : Pending parts' cs) : parts = parts' := by
  -- The scan has one answer, so it lists the same openers for both.
  have hsame := (recognize_eq (c := ⟨0, cs⟩) h).symm.trans (recognize_eq (c := ⟨0, cs⟩) h')
  have hopenings : openings 0 parts = openings 0 parts' := by
    simpa using hsame
  exact h.eq_of_openings h' hopenings

/-! ### The wording of the report -/

/-- The lines of the report, without the line feeds behind them. -/
def reportLines (opened : List OpenComment) : List String :=
  opened.zipIdx.map fun (o, level) =>
    " :: Unfinished comment (" ++ (Kind.comment o.form).name ++ ") at pos " ++ toString o.start ++
      " level " ++ toString level

/-- Each open comment has its line. -/
theorem length_reportLines (opened : List OpenComment) :
    (reportLines opened).length = opened.length := by
  simp [reportLines]

/-- A line tells the form of a comment, where it was opened and how deep it is. -/
theorem getElem?_reportLines {opened : List OpenComment} {form : CommentForm} {start i : Nat}
    (h : opened[i]? = some ⟨form, start⟩) :
    (reportLines opened)[i]? = some
      (" :: Unfinished comment (" ++ (Kind.comment form).name ++ ") at pos " ++ toString start ++
        " level " ++ toString i) := by
  simp [reportLines, h]

/-- The report has a heading and a line for every open comment, each with a line feed behind it. -/
theorem message_unfinishedComment (opened : List OpenComment) :
    (Cause.unfinishedComment opened).message
      = "Comment error\n" ++ String.join ((reportLines opened).map (· ++ "\n")) := by
  have hfold (report : String) (numbered : List (OpenComment × Nat)) :
      numbered.foldl (fun report (o, level) => report ++ Cause.openCommentLine o level) report
        = report ++ String.join
          (numbered.map fun (o, level) => Cause.openCommentLine o level) := by
    induction numbered generalizing report with
    | nil => exact String.append_empty.symm
    | cons first later ih =>
      rw [List.foldl_cons, ih, List.map_cons, String.join_cons, ← String.append_assoc]
  rw [reportLines, List.map_map]
  exact hfold _ _

/-- At an offset where a block comment is opened and none is complete, the rest of the text can be
taken apart in exactly one way, and the failure has a line for each part, from the outermost to the
innermost, that tells the form, the offset of the opener in the whole text and the level. It points
at the first opener and gets to the end of the text. -/
theorem recognize_unfinished (text : List Char) (pos : Nat) (rest : List Char)
    (hrest : slice? text pos (byteSize text) = some rest)
    (hopener : brace.opener <+: rest ∨ paren.opener <+: rest)
    (hnone : ∀ form stop s, slice? text pos stop = some s → ¬ Complete form s) :
    ∃ parts f, ∃ lines : List String, Pending parts rest ∧
      (∀ parts', Pending parts' rest → parts' = parts) ∧
      Recognizer.comment.recognize text pos = .ok (.error f) ∧
      f.pos = pos ∧ f.furthest = byteSize text ∧
      f.cause.message = "Comment error\n" ++ String.join (lines.map (· ++ "\n")) ∧
      lines.length = parts.length ∧
      ∀ (i : Nat) (part : OpenPart), parts[i]? = some part → lines[i]? = some
        (" :: Unfinished comment (" ++ (Kind.comment part.form).name ++ ") at pos " ++
          toString (pos + byteSize (spelling (parts.take i))) ++ " level " ++ toString i) := by
  let c : Cursor := ⟨pos, rest⟩
  have hc : c.StandsIn text := Cursor.standsIn_iff_slice?.mpr hrest
  obtain ⟨form, hblock, hprefix⟩ : ∃ form : CommentForm, form ≠ .line ∧ form.opener <+: rest :=
    hopener.elim (⟨.brace, by decide, ·⟩) (⟨.paren, by decide, ·⟩)
  obtain ⟨opened, hopen⟩ := Cursor.exists_reads_of_isPrefix (c := c) hprefix
  -- Were the comment closed, the text would hold a complete one.
  obtain ⟨opens, e', hunclosed⟩ : ∃ opens e, Unclosed form opened opens e := by
    refine (closed_or_unclosed form opened).resolve_left fun ⟨ts, stop, hclosed⟩ => ?_
    obtain ⟨s, hs, hreads⟩ := (complete_iff_closed hblock).mp ⟨opened, ts, hopen, hclosed⟩
    exact hnone form stop.pos s (hc.slice?_of_reads hreads) hs
  obtain ⟨parts, hparts, -⟩ := hunclosed.exists_pending hblock hopen
  have hrec := Recognizer.recognize_of_rest_ne_nil (r := .comment) hc
    (hopen.rest_ne_nil form.opener_ne_nil)
  rw [Recognizer.recognizeAt, hparts.recognize_eq] at hrec
  refine ⟨parts, _, reportLines (openings pos parts), hparts, fun parts' hparts' =>
    hparts'.unique hparts, hrec, rfl, hc.pos_add_byteSize, message_unfinishedComment _, ?_, ?_⟩
  · rw [length_reportLines, length_openings]
  · intro i part hpart
    exact getElem?_reportLines (getElem?_openings hpart)

/-- Foreign closers are content and a comment that was closed is not listed. -/
theorem recognize_unfinished_of_closed_inside :
    ∃ f, Recognizer.comment.recognize "é\x7b(*\x7d*)\x7b*)(*".toList 2 = .ok (.error f) ∧
      f.pos = 2 ∧ f.furthest = 13 ∧
      f.cause.message = "Comment error\n :: Unfinished comment (Comment) at pos 2 level 0\n" ++
        " :: Unfinished comment (Comment) at pos 8 level 1\n" ++
        " :: Unfinished comment (CommentBi) at pos 11 level 2\n" := by
  let c : Cursor := ⟨2, "\x7b(*\x7d*)\x7b*)(*".toList⟩
  have hc : c.StandsIn "é\x7b(*\x7d*)\x7b*)(*".toList := rfl
  have hfails : recognize c
      = .error ⟨.unfinishedComment [⟨.brace, 2⟩, ⟨.brace, 8⟩, ⟨.paren, 11⟩], 2, 13⟩ := rfl
  obtain ⟨parts, f, lines, -, -, hf, hpos, hfurthest, -⟩ :=
    recognize_unfinished "é\x7b(*\x7d*)\x7b*)(*".toList 2 c.rest rfl (.inl ⟨_, rfl⟩) (by
      intro form stop s hs hcomplete
      obtain ⟨d, hread, -⟩ := hc.slice?_eq_some_iff.mp hs
      obtain ⟨ts, hts⟩ := (recognize_eq_ok_iff_complete hcomplete.1).mpr ⟨s, hcomplete, hread⟩
      cases hts.symm.trans hfails)
  refine ⟨f, hf, hpos, hfurthest, ?_⟩
  have hrec : Recognizer.comment.recognize "é\x7b(*\x7d*)\x7b*)(*".toList 2 = .ok (.error
      ⟨.unfinishedComment [⟨.brace, 2⟩, ⟨.brace, 8⟩, ⟨.paren, 11⟩], 2, 13⟩) := rfl
  cases hf.symm.trans hrec
  rfl

end PascalScan.Comment
