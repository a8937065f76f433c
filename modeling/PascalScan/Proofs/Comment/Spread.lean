import PascalScan.Proofs.Comment.Recognition
import PascalScan.Proofs.Lexical.Apart

/-!
# `PascalScan.Proofs.Comment.Spread`: a comment that stays open when its text is spread out

Blanks put between the words of a text can take a closer apart, if its two characters belong to
two words, and they never make one. They take no opener apart and make none. So what is open in a
text is still open when the text is spread out: at every place, more comments are open than before
or as many.

`Spread cs cs'` says how the two texts relate: they have the openers in common, the closers of
`cs'` are found in `cs` as well, and ordinary characters may differ. Two scans side by side then
keep the open comments of the one a sublist of those of the other (`Spread.exists_scan_error`).
-/

set_option autoImplicit false

namespace PascalScan.Comment

open Text CommentForm

/-! ### Markers -/

/-- No marker begins with the first of the characters. -/
def Ordinary (cs : List Char) : Prop := ∀ marker ∈ markers, ¬ marker <+: cs

/-- There are no other markers. -/
theorem exists_form_of_mem_markers {marker : List Char} (h : marker ∈ markers) :
    ∃ form : CommentForm, form ≠ .line ∧ (marker = form.opener ∨ marker = form.closer) := by
  simp only [markers, List.mem_cons, List.not_mem_nil, or_false] at h
  rcases h with rfl | rfl | rfl | rfl
  · exact ⟨.brace, by decide, .inl rfl⟩
  · exact ⟨.paren, by decide, .inl rfl⟩
  · exact ⟨.brace, by decide, .inr rfl⟩
  · exact ⟨.paren, by decide, .inr rfl⟩

/-- A blank is ordinary. -/
theorem ordinary_of_isBlank {ch : Char} {cs : List Char} (h : isBlank ch) :
    Ordinary (ch :: cs) := by
  intro marker hmarker ⟨tail, htail⟩
  have hne : marker ≠ [] := by
    rintro rfl
    exact absurd hmarker (by decide)
  obtain ⟨x, xs, rfl⟩ := List.exists_cons_of_ne_nil hne
  obtain ⟨rfl, -⟩ := List.cons.inj htail
  rw [not_isBlank_of_mem_markers hmarker (by simp)] at h
  cases h

/-- Whether a character is ordinary depends on it and on the next one. -/
theorem Ordinary.congr {ch : Char} {as bs : List Char} (h : Ordinary (ch :: as))
    (hhead : as.head? = bs.head?) : Ordinary (ch :: bs) := by
  have hlen : ∀ marker ∈ markers, marker.length ≤ 2 := by decide
  intro marker hmarker hbegins
  exact h marker hmarker (isPrefix_cons_of_head? (hlen marker hmarker) hhead hbegins)

/-- A character that is ordinary at the end of a text is so in front of a blank. -/
theorem Ordinary.append {cs v : List Char} (hv : Apart v) (h : Ordinary cs) :
    Ordinary (cs ++ v) := by
  intro marker hmarker hbegins
  exact h marker hmarker
    (isPrefix_of_apart hv (fun _ hch => not_isBlank_of_mem_markers hmarker hch) hbegins)

/-! ### What the scan does with the open forms -/

/-- The forms of the open comments, innermost first. -/
def forms (top : Frame) (below : List Frame) : List CommentForm := (top :: below).map Frame.form

/-- The open forms behind a closer. -/
def closeForm (form : CommentForm) : List CommentForm → List CommentForm
  | [] => []
  | top :: below => if top = form then below else top :: below

/-- Closing leaves a part of what was open. -/
theorem closeForm_sublist_self (form : CommentForm) (opens : List CommentForm) :
    (closeForm form opens).Sublist opens := by
  cases opens with
  | nil => exact .slnil
  | cons top below =>
    show (if top = form then below else top :: below).Sublist (top :: below)
    split
    · exact List.sublist_cons_self top below
    · exact .refl _

/-- Where more is open, more is open behind a closer. -/
theorem closeForm_sublist (form : CommentForm) {fewer more : List CommentForm}
    (h : fewer.Sublist more) : (closeForm form fewer).Sublist (closeForm form more) := by
  cases h with
  | slnil => exact .slnil
  | @cons fewer more top h =>
    -- The closer may take what only the second has.
    have hself := (closeForm_sublist_self form fewer).trans h
    show (closeForm form fewer).Sublist (if top = form then more else top :: more)
    split
    · exact hself
    · exact hself.trans (List.sublist_cons_self top more)
  | @cons_cons fewer more top h =>
    show (if top = form then fewer else top :: fewer).Sublist
      (if top = form then more else top :: more)
    split
    · exact h
    · exact h.cons_cons top

/-- An ordinary character is passed over in every block comment. -/
theorem scan_ordinary {top : Frame} {below : List Frame} {pos : Nat} {ch : Char} {cs : List Char}
    (h : Ordinary (ch :: cs)) :
    scan false top below pos (ch :: cs) = scan false top below (pos + ch.utf8Size) cs := by
  -- the equations of `scan` that read a marker do not apply
  rw [scan.eq_def]
  split
  next cs' heq => exact (h brace.opener (by decide) ⟨cs', heq.symm⟩).elim
  next cs' heq => exact (h paren.opener (by decide) ⟨cs', heq.symm⟩).elim
  next cs' heq => exact (h brace.closer (by decide) ⟨cs', heq.symm⟩).elim
  next cs' heq => exact (h paren.closer (by decide) ⟨cs', heq.symm⟩).elim
  next heq =>
    obtain ⟨rfl, rfl⟩ := List.cons.inj heq
    rfl
  next heq =>
    obtain ⟨rfl, rfl⟩ := List.cons.inj heq
    rfl
  next heq => cases heq

/-- An opener is put on top. -/
theorem scan_block_opener {form : CommentForm} {top : Frame} {below : List Frame} {pos : Nat}
    {cs : List Char} (hblock : form ≠ .line) :
    scan false top below pos (form.opener ++ cs)
      = scan false (.opened form pos) (top :: below) (pos + byteSize form.opener) cs :=
  scan_opener (c := ⟨pos, form.opener ++ cs⟩) (d := ⟨pos + byteSize form.opener, cs⟩) hblock
    ⟨rfl, rfl⟩

/-- A closer takes the comment on top away if that has its form, and is passed over otherwise. The
scan goes on unless nothing is open then. -/
theorem scan_block_closer {form : CommentForm} (hblock : form ≠ .line) (top : Frame)
    (below : List Frame) (pos : Nat) (cs : List Char) :
    (closeForm form (forms top below) = [] ∧
      ∃ m, scan false top below pos (form.closer ++ cs) = .ok m) ∨
    ∃ top' below', forms top' below' = closeForm form (forms top below) ∧
      scan false top below pos (form.closer ++ cs)
        = scan false top' below' (pos + byteSize form.closer) cs := by
  let d : Cursor := ⟨pos + byteSize form.closer, cs⟩
  have hread : (Cursor.mk pos (form.closer ++ cs)).Reads form.closer d := ⟨rfl, rfl⟩
  -- the marker closes the comment on top if it is of its form, and is skipped otherwise
  by_cases hform : top.form = form
  · subst hform
    cases below with
    | nil => exact .inl ⟨if_pos rfl, _, scan_last_closer hblock hread⟩
    | cons outer outers =>
      exact .inr ⟨outer.add (top.close d.pos), outers, (if_pos rfl).symm,
        scan_closer hblock hread⟩
  · refine .inr ⟨top, below, (if_neg hform).symm, ?_⟩
    cases form with
    | brace => exact if_neg hform
    | paren => exact if_neg hform
    | line => contradiction

/-! ### Texts that are spread out -/

/-- The second text has the openers of the first, and closers only where the first has them. -/
inductive Spread : List Char → List Char → Prop where
  /-- Nothing is left. -/
  | nil : Spread [] []
  /-- An ordinary character of the first. -/
  | plainLeft {ch : Char} {cs cs' : List Char} (hordinary : Ordinary (ch :: cs))
      (tail : Spread cs cs') : Spread (ch :: cs) cs'
  /-- An ordinary character of the second. -/
  | plainRight {ch : Char} {cs cs' : List Char} (hordinary : Ordinary (ch :: cs'))
      (tail : Spread cs cs') : Spread cs (ch :: cs')
  /-- An opener of both. -/
  | opener {form : CommentForm} {cs cs' : List Char} (hblock : form ≠ .line)
      (tail : Spread cs cs') : Spread (form.opener ++ cs) (form.opener ++ cs')
  /-- A closer of both. -/
  | closer {form : CommentForm} {cs cs' : List Char} (hblock : form ≠ .line)
      (tail : Spread cs cs') : Spread (form.closer ++ cs) (form.closer ++ cs')
  /-- A closer that the second has lost. -/
  | lost {form : CommentForm} {cs cs' : List Char} (hblock : form ≠ .line)
      (tail : Spread cs cs') : Spread (form.closer ++ cs) cs'

/-- If the scan of the first text finds comments open at the end, so does that of the second, where
as much is open to begin with. -/
theorem Spread.exists_scan_error {cs cs' : List Char} (h : Spread cs cs') :
    ∀ {top top' : Frame} {below below' : List Frame} {pos pos' : Nat} {f : Failure},
      scan false top below pos cs = .error f → (forms top below).Sublist (forms top' below') →
      ∃ f', scan false top' below' pos' cs' = .error f' := by
  -- The invariant is that what is open in the first text is part of what is open in the second.
  induction h with
  | nil =>
    intro _ top' _ below' _ pos' _ _ _
    exact ⟨unfinished top' below' pos', rfl⟩
  | plainLeft hordinary _ ih =>
    intro _ _ _ _ _ _ _ hscan hsub
    rw [scan_ordinary hordinary] at hscan
    exact ih hscan hsub
  | plainRight hordinary _ ih =>
    intro _ _ _ _ _ _ _ hscan hsub
    rw [scan_ordinary hordinary]
    exact ih hscan hsub
  | opener hblock _ ih =>
    intro _ _ _ _ _ _ _ hscan hsub
    rw [scan_block_opener hblock] at hscan
    rw [scan_block_opener hblock]
    exact ih hscan (hsub.cons_cons _)
  | @closer form cs cs' hblock _ ih =>
    intro top top' below below' pos pos' f hscan hsub
    have hclosed := closeForm_sublist form hsub
    rcases scan_block_closer hblock top below pos cs with
      ⟨-, m, hm⟩ | ⟨next, nexts, hforms, hgo⟩
    · cases hm.symm.trans hscan
    · rw [hgo] at hscan
      rw [← hforms] at hclosed
      rcases scan_block_closer hblock top' below' pos' cs' with
        ⟨hnil, -⟩ | ⟨next', nexts', hforms', hgo'⟩
      · -- Something is open in the first text, so something is in the second.
        rw [hnil] at hclosed
        cases List.sublist_nil.mp hclosed
      · rw [hgo']
        rw [← hforms'] at hclosed
        exact ih hscan hclosed
  | @lost form cs cs' hblock _ ih =>
    intro top top' below below' pos pos' f hscan hsub
    rcases scan_block_closer hblock top below pos cs with
      ⟨-, m, hm⟩ | ⟨next, nexts, hforms, hgo⟩
    · cases hm.symm.trans hscan
    · rw [hgo] at hscan
      have hclosed := (closeForm_sublist_self form (forms top below)).trans hsub
      rw [← hforms] at hclosed
      exact ih hscan hclosed

/-- A block comment that is not closed in the first text is not closed in the second. -/
theorem Spread.exists_recognize_error {form : CommentForm} {c c' opened opened' : Cursor}
    {f : Failure} (hblock : form ≠ .line) (hopen : c.Reads form.opener opened)
    (hopen' : c'.Reads form.opener opened') (h : Spread opened.rest opened'.rest)
    (hf : recognize c = .error f) : ∃ f', recognize c' = .error f' := by
  rw [recognize_of_opener hblock hopen] at hf
  rw [recognize_of_opener hblock hopen']
  exact h.exists_scan_error hf (.refl _)

/-! ### Spreading a text out -/

/-- An ordinary character of the first text can be left out. -/
theorem Spread.of_cons {ch : Char} {cs cs' : List Char} (hordinary : Ordinary (ch :: cs))
    (h : Spread (ch :: cs) cs') : Spread cs cs' := by
  generalize hfirst : ch :: cs = first at h
  induction h with
  | nil => cases hfirst
  | plainLeft _ tail _ =>
    obtain ⟨rfl, rfl⟩ := List.cons.inj hfirst
    exact tail
  | plainRight hordinary' _ ih => exact .plainRight hordinary' (ih hfirst)
  | @opener form cs₁ _ hblock =>
    exact (hordinary _ (opener_mem_markers hblock) ⟨cs₁, hfirst.symm⟩).elim
  | @closer form cs₁ _ hblock | @lost form cs₁ _ hblock =>
    exact (hordinary _ (closer_mem_markers hblock) ⟨cs₁, hfirst.symm⟩).elim

/-- Blanks in the second text do not matter. -/
theorem Spread.blanksRight {gap cs cs' : List Char} (hblank : ∀ ch ∈ gap, isBlank ch)
    (h : Spread cs cs') : Spread cs (gap ++ cs') := by
  induction gap with
  | nil => exact h
  | cons ch gap ih =>
    exact .plainRight (ordinary_of_isBlank (hblank ch (by simp)))
      (ih fun x hx => hblank x (by simp [hx]))

/-- The last character of a word, in front of two texts, the second of which goes on with a
blank. -/
theorem Spread.append_last {ch : Char} {cs cs' : List Char} (hcs' : Apart cs')
    (hordinary : Ordinary [ch]) (hopener : ch = '(' → cs.head? ≠ some '*') (h : Spread cs cs') :
    Spread (ch :: cs) (ch :: cs') := by
  refine .plainRight (hordinary.append hcs') ?_
  by_cases hcloser : paren.closer <+: ch :: cs
  · -- The closer of the first text is taken apart.
    obtain ⟨after, hafter⟩ := hcloser
    obtain ⟨rfl, rfl⟩ := List.cons.inj hafter
    have hparen : Ordinary (')' :: after) := by
      simp [Ordinary, markers, CommentForm.opener, CommentForm.closer]
    have hlost : Spread (paren.closer ++ after) cs' := .lost (by decide) (h.of_cons hparen)
    exact hlost
  · refine .plainLeft ?_ h
    -- No marker begins here: three of the four would be markers in front of a blank, and the fourth
    -- has just been excluded.
    intro marker hmarker hbegins
    simp only [markers, List.mem_cons, List.not_mem_nil, or_false] at hmarker
    rcases hmarker with rfl | rfl | rfl | rfl
    · exact hordinary brace.opener (by decide) (by simpa [CommentForm.opener] using hbegins)
    · obtain ⟨after, hafter⟩ := hbegins
      obtain ⟨rfl, rfl⟩ := List.cons.inj hafter
      exact hopener rfl rfl
    · exact hordinary brace.closer (by decide) (by simpa [CommentForm.closer] using hbegins)
    · exact hcloser hbegins

/-- The same word in front of two texts, the second of which goes on with a blank. No opener may
reach from the word into the first text. -/
theorem Spread.append {word cs cs' : List Char} (hcs' : Apart cs')
    (hopener : word.getLast? = some '(' → cs.head? ≠ some '*') (h : Spread cs cs') :
    Spread (word ++ cs) (word ++ cs') := by
  induction hlen : word.length using Nat.strongRecOn generalizing word with
  | ind n ih =>
    subst hlen
    -- Behind its beginning, the word goes on in the same way.
    have hrest {front rest : List Char} (hne : front ≠ []) (hword : word = front ++ rest) :
        Spread (rest ++ cs) (rest ++ cs') := by
      refine ih rest.length ?_ ?_ rfl
      · have := List.length_pos_iff.mpr hne
        rw [hword, List.length_append]
        omega
      · intro hlast
        refine hopener ?_
        rw [hword, List.getLast?_append, hlast, Option.some_or]
    by_cases hordinary : Ordinary word
    · match word with
      | [] => exact h
      | [ch] => exact append_last hcs' hordinary (fun heq => hopener (by rw [heq]; rfl)) h
      | ch :: next :: rest =>
        -- Both characters belong to the word, so what stands behind does not matter.
        have htail : Spread (next :: rest ++ cs) (next :: rest ++ cs') :=
          hrest (List.cons_ne_nil ch []) rfl
        exact .plainLeft (hordinary.congr rfl) (.plainRight (hordinary.congr rfl) htail)
    · obtain ⟨marker, hmarker, rest, rfl⟩ : ∃ marker ∈ markers, marker <+: word := by
        simpa [Ordinary] using hordinary
      rw [List.append_assoc, List.append_assoc]
      obtain ⟨form, hblock, rfl | rfl⟩ := exists_form_of_mem_markers hmarker
      · exact .opener hblock (hrest form.opener_ne_nil rfl)
      · exact .closer hblock (hrest form.closer_ne_nil rfl)

end PascalScan.Comment
