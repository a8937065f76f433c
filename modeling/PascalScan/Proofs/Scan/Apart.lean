import PascalScan.Proofs.Scan.Cut

/-!
# `PascalScan.Proofs.Scan.Apart`: the scan of a text with blanks behind it

What a step finds at the end of a text does not change when more text is put behind it, as long as
that begins with a blank (`emit_followedBy`). So a scan finds the same tokens and goes on behind
them (`Run.followedBy`). Blanks in front of a scan make no difference to it either
(`Run.of_blanks`).

Two tokens wait for what comes behind. An opener whose comment is not closed is punctuation, but
the comment may be closed further on (`Token.IsBareOpener`). A line comment without the end of its
line goes on with the text (`Token.IsOpenLine`).

Texts put together with blanks in between scan to the tokens of both (`scan_append`).
-/

set_option autoImplicit false

namespace PascalScan

open Text

/-! ### Tokens that wait for more -/

namespace Token

/-- The token is the opener of a comment, read as an operator because the comment is not closed. -/
def IsBareOpener (source : String) (t : Token) : Prop :=
  t.kind = .symbolPair ∧ (Tree.label t).text source = "(*"

/-- It can be computed whether a token is a bare opener. -/
instance (source : String) (t : Token) : Decidable (IsBareOpener source t) :=
  inferInstanceAs (Decidable (_ ∧ _))

/-- The token is a line comment that lacks the end of its line. -/
def IsOpenLine (source : String) (t : Token) : Prop :=
  t.kind = .comment .line ∧ ((Tree.label t).text source).toList.getLast? ≠ some '\n'

/-- It can be computed whether a token is a line comment without the end of its line. -/
instance (source : String) (t : Token) : Decidable (IsOpenLine source t) :=
  inferInstanceAs (Decidable (_ ∧ _))

end Token

variable {v : List Char}

/-! ### Blanks in front -/

/-- Blanks in front of a run are passed over. -/
theorem Run.of_blanks {c next e : Cursor} {gap : List Char} {ts : List Token}
    {failure : Option Failure} (hr : c.Reads gap next) (hblank : ∀ ch ∈ gap, isBlank ch)
    (h : Run Recognizer.priority next ts e failure) : Run Recognizer.priority c ts e failure := by
  cases gap with
  | nil =>
    obtain rfl := hr.unique (.refl c)
    exact h
  | cons b bs =>
    have hhead : b ∈ c.rest.head? := by simp [hr.1]
    have hstep : step Recognizer.priority c = .skip (next.skipWhile isBlank) := by
      rw [step_of_blank hhead (hblank b (by simp)),
        Cursor.skipWhile_eq_skipWhile_of_reads hr hblank]
    by_cases hnext : ∃ ch ∈ next.rest.head?, isBlank ch
    · -- The blanks go on, and the run passes over the rest of them first.
      obtain ⟨ch, hch, hb⟩ := hnext
      have hskip := step_of_blank hch hb
      cases h with
      | done hrest => simp [hrest] at hch
      | emit hemit _ => cases hskip.symm.trans hemit
      | skip hskip' tail =>
        cases hskip.symm.trans hskip'
        exact .skip hstep tail
      | halt _ hhalt => cases hskip.symm.trans hhalt
    -- No blank follows, so the run begins behind the gap.
    · have hself : next.skipWhile isBlank = next :=
        Cursor.skipWhile_eq_self fun ch hch => Bool.eq_false_iff.mpr fun hb => hnext ⟨ch, hch, hb⟩
      rw [hself] at hstep
      exact .skip hstep h

/-! ### More text behind -/

/-- A step finds the same token when text is put behind that begins with a blank. If the token is
punctuation, no comment may begin there then. -/
theorem emit_followedBy {c : Cursor} {m : Match} (hv : Apart v)
    (hline : m.kind = .comment .line → v = [] ∨ '\n' ∈ c.rest)
    (hcomment : Recognizer.symbol.run c = .ok m →
      ∃ f, Recognizer.comment.run (c.followedBy v) = .error f)
    (h : step Recognizer.priority c = .emit m) :
    step Recognizer.priority (c.followedBy v) = .emit (m.followedBy v) := by
  have hcounts := counts_of_emit h
  -- a blank run would go on into `v`, but no token is one
  have hblank : m.kind.recognizer ≠ .blank := by
    intro hclass
    exact absurd (hclass ▸ hcounts.mem) (by decide)
  have hrun : m.kind.recognizer.run (c.followedBy v) = .ok (m.followedBy v) :=
    Recognizer.run_followedBy hblank hv hline hcounts.run
  refine Counts.step_eq_emit ⟨hcounts.mem, hrun, ?_⟩
  rintro hsymbol q (rfl | rfl)
  · exact hcomment (hsymbol ▸ hcounts.run)
  · obtain ⟨f, hf⟩ := hcounts.symbol hsymbol .number (.inr rfl)
    exact Recognizer.number_error_followedBy hv (Recognizer.rest_ne_nil_of_run hcounts.run) hf

/-- A step finds the same token, unless that is a bare opener. -/
theorem emit_followedBy_of_not_opener {c : Cursor} {m : Match} (hv : Apart v)
    (hline : m.kind = .comment .line → v = [] ∨ '\n' ∈ c.rest)
    (hopener : m.kind = .symbolPair → ¬ c.Reads CommentForm.paren.opener m.next)
    (h : step Recognizer.priority c = .emit m) :
    step Recognizer.priority (c.followedBy v) = .emit (m.followedBy v) := by
  refine emit_followedBy hv hline (fun hsymbol => ?_) h
  obtain ⟨f, hf⟩ := (counts_of_emit h).symbol (Recognizer.kind_of_run hsymbol) .comment (.inl rfl)
  refine Recognizer.comment_error_followedBy hv hsymbol hf fun hread => ?_
  have hpair : m = ⟨.symbolPair, [], m.next⟩ := Except.ok.inj
    ((Recognizer.recognizeAt_of_run hsymbol).symm.trans (Punctuation.recognize_of_opener hread))
  exact hopener (congrArg Match.kind hpair) hread

/-- A token that is read as an opener is a bare one. -/
theorem isBareOpener_of_reads {c : Cursor} {m : Match} {source : String}
    (hc : c.StandsIn source.toList) (hkind : m.kind = .symbolPair)
    (hread : c.Reads CommentForm.paren.opener m.next) : (m.token c).IsBareOpener source :=
  ⟨hkind, excerpt_eq_of_slice? (hc.slice?_of_reads hread)⟩

/-- The line of a comment ends, or the text ends with the comment. -/
theorem feed_mem_of_not_isOpenLine {c : Cursor} {m : Match} {source : String}
    (hc : c.StandsIn source.toList) (hstep : step Recognizer.priority c = .emit m)
    (hkind : m.kind = .comment .line)
    (hclosed : m.next.rest = [] → ¬ (m.token c).IsOpenLine source) : '\n' ∈ c.rest := by
  have hrun : Recognizer.comment.run c = .ok m := by
    have hclass := (run_of_emit hstep).2
    rwa [hkind] at hclass
  rcases Comment.feed_mem_or_rest_eq_nil (Recognizer.recognizeAt_of_run hrun) hkind with
    ⟨s, hs⟩ | hrest
  · simp [hs.1]
  · obtain ⟨s, -, hs⟩ := readsFrom_of_emit hstep
    have hvalue : (Tree.label (m.token c)).text source = String.ofList s :=
      excerpt_eq_of_slice? (hc.slice?_of_reads hs)
    -- The value of the comment is all that is left of the text.
    by_cases hlast : s.getLast? = some '\n'
    · rw [hs.1]
      exact List.mem_append_left _ (List.mem_of_getLast? hlast)
    · exact absurd ⟨hkind, by rwa [hvalue, String.toList_ofList]⟩ (hclosed hrest)

/-- A run that gets to the end of its text goes on in the text behind it. -/
theorem Run.followedBy {c d e : Cursor} {ts us : List Token} {failure : Option Failure}
    {source : String} (hv : Apart v) (hc : c.StandsIn source.toList)
    (hopener : ∀ t ∈ ts, ¬ t.IsBareOpener source)
    (hline : ∀ t ∈ ts.getLast?, ¬ t.IsOpenLine source)
    (h : Run Recognizer.priority c ts d none)
    (h' : Run Recognizer.priority (d.followedBy v) us e failure) :
    Run Recognizer.priority (c.followedBy v) (ts ++ us) e failure := by
  generalize hnone : (none : Option Failure) = outcome at h
  induction h with
  | done => exact h'
  | @emit c d m ts outcome hstep tail ih =>
    obtain ⟨value, -, hvalue⟩ := readsFrom_of_emit hstep
    -- If the token is the last one, nothing or blanks come behind it.
    have hclosed (hrest : m.next.rest = []) : ¬ (m.token c).IsOpenLine source := by
      cases tail with
      | done => exact hline _ rfl
      | emit hnext _ => exact absurd hrest (readsFrom_of_emit hnext).rest_ne_nil
      | skip hnext _ =>
        obtain ⟨gap, hne, hgap, -⟩ := blanks_of_skip hnext
        simp [hgap.1, hne] at hrest
      | halt => cases hnone
    have hemit : step Recognizer.priority (c.followedBy v) = .emit (m.followedBy v) := by
      refine emit_followedBy_of_not_opener hv ?_ ?_ hstep
      · intro hkind
        exact .inr (feed_mem_of_not_isOpenLine hc hstep hkind hclosed)
      · intro hkind hread
        exact hopener _ (by simp) (isBareOpener_of_reads hc hkind hread)
    refine Run.emit (m := m.followedBy v) hemit (ih (hc.of_reads hvalue) ?_ ?_ h' hnone)
    · intro t ht
      exact hopener t (by simp [ht])
    · intro t ht
      refine hline t ?_
      rw [List.getLast?_cons, Option.mem_def.mp ht]
      rfl
  | skip hstep tail ih =>
    obtain ⟨gap, -, hgap, hblank, -⟩ := blanks_of_skip hstep
    exact Run.of_blanks (Cursor.reads_followedBy_iff.mpr hgap) hblank
      (ih (hc.of_reads hgap) hopener hline h' hnone)
  | halt => cases hnone

/-! ### Texts put together -/

/-- A scan without a failure has read its whole text. -/
theorem exists_run_of_status_ok {text : List Char} (hok : (scan text).status = .ok) :
    ∃ ts, Run Recognizer.priority ⟨0, text⟩ ts ⟨byteSize text, []⟩ none ∧
      scan text = ⟨0, byteSize text, ts, none⟩ := by
  obtain ⟨ts, d, failure, hrun, hscan⟩ := run_scanAt Recognizer.priority ⟨0, text⟩
  have hscan' : scan text = ⟨0, d.pos, ts, failure⟩ := hscan
  rw [hscan'] at hok
  -- a run without a failure has read the text to its end
  rcases run_end hrun with ⟨rfl, hrest⟩ | ⟨f, ch, cs, rfl, -⟩
  · obtain ⟨s, hs⟩ := run_reads hrun
    obtain ⟨pos, rest⟩ := d
    obtain ⟨htext, hpos⟩ := hs
    dsimp only at hrest htext hpos
    subst hrest
    rw [List.append_nil] at htext
    rw [Nat.zero_add, ← htext] at hpos
    subst hpos
    exact ⟨ts, hrun, hscan'⟩
  · cases hok

/-- The scan of two texts with blanks in between is made up of their scans. -/
theorem scan_eq_of_followedBy {source w : String} {b : List Char} {k : Nat}
    (hk : k = byteSize source.toList + byteSize w.toList)
    (hok : (scan source.toList).status = .ok)
    (hopener : ∀ t ∈ (scan source.toList).tokens, ¬ t.IsBareOpener source)
    (hline : ∀ t ∈ (scan source.toList).tokens.getLast?, ¬ t.IsOpenLine source)
    (hw : IsSeparator w) :
    scan (source.toList ++ (w.toList ++ b)) =
      ⟨0, k + (scan b).stop, (scan source.toList).tokens ++ (scan b).tokens.map (Token.shift k),
        (scan b).failure.map (Failure.shift k)⟩ := by
  obtain ⟨ts, hrun, hscan⟩ := exists_run_of_status_ok hok
  obtain ⟨us, e, failure, hrun', hscan'⟩ := run_scanAt Recognizer.priority ⟨0, b⟩
  have hscanb : scan b = ⟨0, e.pos, us, failure⟩ := hscan'
  rw [hscan] at hopener hline
  have hstart : (Cursor.mk 0 source.toList).StandsIn source.toList := locate_zero _
  have hgap : (Cursor.mk (byteSize source.toList) (w.toList ++ b)).Reads w.toList
      ((Cursor.mk 0 b).shift k) := by
    rw [Cursor.shift_start]
    exact ⟨rfl, hk⟩
  -- The text behind is reached over the blanks, and its scan is shifted there.
  have hbehind := Run.of_blanks hgap hw.blank (hrun'.shift k)
  have hall := scanAt_of_run (Run.followedBy (hw.apart _) hstart hopener hline hrun hbehind)
  rw [hscan, hscanb, Nat.add_comm k]
  exact hall

/-- A text that scans without a failure, blanks, and any other text: the tokens of the whole are
those of the first text and behind them those of the other, shifted by what stands in front of it.
The scan ends as the scan of the other text does, and if that fails, it fails in the same way, with
all offsets shifted. At any depth the tokens have the values that they have on their own. The first
text may hold no bare opener and not end in a line comment that lacks the end of its line. -/
theorem scan_append (a w b : String) (k : Nat) (hk : k = byteSize a.toList + byteSize w.toList)
    (hok : (scan a.toList).status = .ok)
    (hopener : ∀ t ∈ (scan a.toList).tokens, ¬ t.IsBareOpener a)
    (hline : ∀ t ∈ (scan a.toList).tokens.getLast?, ¬ t.IsOpenLine a)
    (hw : IsSeparator w) :
    (scan (a ++ w ++ b).toList = ⟨0, k + (scan b.toList).stop,
      (scan a.toList).tokens ++ (scan b.toList).tokens.map (Token.shift k),
      (scan b.toList).failure.map (Failure.shift k)⟩) ∧
    (scan (a ++ w ++ b).toList).status = (scan b.toList).status ∧
    (∀ t ∈ (scan a.toList).tokens, ∀ u, Tree.Within u t →
      (Tree.label u).text (a ++ w ++ b) = (Tree.label u).text a) ∧
    ∀ t ∈ (scan b.toList).tokens, ∀ u, Tree.Within u t →
      ((Tree.label u).shift k).text (a ++ w ++ b) = (Tree.label u).text b := by
  have htext : (a ++ w ++ b).toList = a.toList ++ (w.toList ++ b.toList) := by
    rw [String.toList_append, String.toList_append, List.append_assoc]
  have hscan : scan (a ++ w ++ b).toList = ⟨0, k + (scan b.toList).stop,
      (scan a.toList).tokens ++ (scan b.toList).tokens.map (Token.shift k),
      (scan b.toList).failure.map (Failure.shift k)⟩ := by
    rw [htext]
    exact scan_eq_of_followedBy hk hok hopener hline hw
  -- The status and the values are read off the tokens of the whole.
  refine ⟨hscan, ?_, ?_, ?_⟩
  · rw [hscan]
    unfold Scan.status
    cases (scan b.toList).failure <;> rfl
  · intro t ht u hu
    exact text_of_mem_scan_of_part htext ht hu
  · intro t ht u hu
    have hpart : (a ++ w ++ b).toList = (a.toList ++ w.toList) ++ b.toList ++ [] := by
      rw [htext, List.append_nil, List.append_assoc]
    rw [hk, ← byteSize_append]
    exact (liesIn_of_mem_scan ht u hu).text_of_part hpart

/-- The second text fails with two comments open, and the report lists both where they are in the
whole text. -/
theorem scan_append_of_open_comments :
    (scan "f(.//é\n".toList).status = .ok ∧
    (∀ t ∈ (scan "f(.//é\n".toList).tokens, ¬ t.IsBareOpener "f(.//é\n") ∧
    (∀ t ∈ (scan "f(.//é\n".toList).tokens.getLast?, ¬ t.IsOpenLine "f(.//é\n") ∧
    (scan ("f(.//é\n" ++ " \t" ++ "x \x7b(*").toList).stop = 12 ∧
    (scan ("f(.//é\n" ++ " \t" ++ "x \x7b(*").toList).failure
      = some ⟨.unfinishedComment [⟨.brace, 12⟩, ⟨.paren, 13⟩], 12, 15⟩ := by
  have hok : (scan "f(.//é\n".toList).status = .ok := by decide +kernel
  have hopener : ∀ t ∈ (scan "f(.//é\n".toList).tokens, ¬ t.IsBareOpener "f(.//é\n" := by
    decide +kernel
  have hline : ∀ t ∈ (scan "f(.//é\n".toList).tokens.getLast?, ¬ t.IsOpenLine "f(.//é\n" := by
    decide +kernel
  obtain ⟨hscan, -⟩ := scan_append "f(.//é\n" " \t" "x \x7b(*" 10 (by decide) hok hopener hline
    (by decide)
  rw [hscan]
  exact ⟨hok, hopener, hline, by decide +kernel, by decide +kernel⟩

end PascalScan
