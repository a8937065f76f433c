import PascalScan.Proofs.Scan.Apart

/-!
# `PascalScan.Proofs.Scan.Words`: the words of a text, without their places

When a text is laid out anew, all offsets change. What a reader of the tokens cares for are their
kinds and values, here called words. `Words cs ws` says that the characters `cs` scan without a
failure to the words `ws`. It is a judgement over the characters alone, with one case for a blank
and one for a word, and `words_iff` ties it to the scan.

`Begins kind value rest` is the step that finds a word. It depends on the text behind the word, but
only a bare opener sees further than the blank in front of which the word stands: from any other
word, the rest can be cut off (`Begins.cut`), and another rest can be put in its place
(`Begins.append`).
-/

set_option autoImplicit false

namespace PascalScan

open Text

/-- What a token says to a reader: its kind and its value. -/
def Token.word (source : String) (t : Token) : Kind × String :=
  (t.kind, (Tree.label t).text source)

/-! ### One word -/

/-- In front of `value` and then `rest`, a step finds a token of the given kind with this value. -/
def Begins (kind : Kind) (value rest : List Char) : Prop :=
  ∃ inner, step Recognizer.priority ⟨0, value ++ rest⟩
    = .emit ⟨kind, inner, ⟨byteSize value, rest⟩⟩

/-- A step depends on its offset only through the offsets of what it finds. -/
theorem step_mk (c : Cursor) :
    step Recognizer.priority c = (step Recognizer.priority ⟨0, c.rest⟩).shift c.pos := by
  rw [← step_shift, Cursor.shift_start]

/-- The word is found at every place where it stands. -/
theorem Begins.emit {kind : Kind} {value : List Char} {c d : Cursor}
    (h : Begins kind value d.rest) (hr : c.Reads value d) :
    ∃ inner, step Recognizer.priority c = .emit ⟨kind, inner, d⟩ := by
  obtain ⟨inner, hstep⟩ := h
  obtain ⟨pos, rest⟩ := d
  obtain ⟨hrest, hpos⟩ := hr
  dsimp only at hstep hrest hpos
  refine ⟨inner.map (Token.shift c.pos), ?_⟩
  rw [step_mk, hrest, hstep, hpos, Nat.add_comm c.pos]
  rfl

/-- What a step finds is a word. -/
theorem begins_of_emit {c : Cursor} {m : Match} {value : List Char}
    (h : step Recognizer.priority c = .emit m) (hr : c.Reads value m.next) :
    Begins m.kind value m.next.rest := by
  have hback := step_mk c
  rw [h, hr.1] at hback
  -- the same step at offset 0 can only be an `emit`: the offset has no part in it
  cases hstart : step Recognizer.priority ⟨0, value ++ m.next.rest⟩ with
  | emit n =>
    rw [hstart] at hback
    obtain rfl := Step.emit.inj hback
    obtain ⟨kind, inner, pos, rest⟩ := n
    have hpos : pos + c.pos = c.pos + byteSize value := hr.2
    obtain rfl : pos = byteSize value := by omega
    exact ⟨inner, hstart⟩
  | skip next =>
    rw [hstart] at hback
    cases hback
  | halt f =>
    rw [hstart] at hback
    cases hback

/-- The word is not empty. -/
theorem Begins.value_ne_nil {kind : Kind} {value rest : List Char} (h : Begins kind value rest) :
    value ≠ [] := by
  rintro rfl
  obtain ⟨inner, hstep⟩ := h
  have hlt := length_lt_of_emit hstep
  exact Nat.lt_irrefl _ hlt

/-- The class of the word matches there, and counts. -/
theorem Begins.exists_counts {kind : Kind} {value rest : List Char} (h : Begins kind value rest) :
    ∃ inner, Counts ⟨0, value ++ rest⟩ kind.recognizer ⟨kind, inner, ⟨byteSize value, rest⟩⟩ := by
  obtain ⟨inner, hstep⟩ := h
  exact ⟨inner, counts_of_emit hstep⟩

/-- The word is found without what stands behind it. -/
theorem Begins.cut {kind : Kind} {value rest : List Char} (h : Begins kind value rest) :
    Begins kind value [] := by
  obtain ⟨inner, hstep⟩ := h
  have hfollowed : step Recognizer.priority ((Cursor.mk 0 value).followedBy rest)
      = .emit (Match.followedBy rest ⟨kind, inner, ⟨byteSize value, []⟩⟩) := hstep
  have hcut := emit_of_followedBy (d := ⟨byteSize value, []⟩) hfollowed rfl .refl
  exact ⟨inner, by rwa [List.append_nil]⟩

/-- Another rest that begins with a blank can be put behind the word. A line comment needs the end
of its line, and where punctuation stands, no comment may begin. -/
theorem Begins.append {kind : Kind} {value rest : List Char} (hrest : Apart rest)
    (hline : kind = .comment .line → rest = [] ∨ '\n' ∈ value)
    (hcomment : kind.recognizer = .symbol →
      ∃ f, Recognizer.comment.run ⟨0, value ++ rest⟩ = .error f)
    (h : Begins kind value []) : Begins kind value rest := by
  obtain ⟨inner, hstep⟩ := h
  rw [List.append_nil] at hstep
  have hfollowed := emit_followedBy (c := ⟨0, value⟩) hrest hline
    (fun hsymbol => hcomment (Recognizer.kind_of_run hsymbol)) hstep
  exact ⟨inner, hfollowed⟩

/-! ### All words -/

/-- The characters scan without a failure to the words. -/
inductive Words : List Char → List (Kind × String) → Prop where
  /-- Nothing is left. -/
  | nil : Words [] []
  /-- A blank is passed over. -/
  | blank {ch : Char} {cs : List Char} {ws : List (Kind × String)} (hblank : isBlank ch)
      (tail : Words cs ws) : Words (ch :: cs) ws
  /-- A word is found. -/
  | word {kind : Kind} {value : String} {rest : List Char} {ws : List (Kind × String)}
      (h : Begins kind value.toList rest) (tail : Words rest ws) :
      Words (value.toList ++ rest) ((kind, value) :: ws)

/-- Without characters there are no words. -/
theorem Words.eq_nil {ws : List (Kind × String)} (h : Words [] ws) : ws = [] := by
  generalize hcs : ([] : List Char) = cs at h
  cases h with
  | nil => rfl
  | blank => cases hcs
  | word hbegins => exact absurd (List.append_eq_nil_iff.mp hcs.symm).1 hbegins.value_ne_nil

/-- Blanks in front make no difference. -/
theorem Words.of_blanks {gap cs : List Char} {ws : List (Kind × String)}
    (hblank : ∀ ch ∈ gap, isBlank ch) (h : Words cs ws) : Words (gap ++ cs) ws := by
  induction gap with
  | nil => exact h
  | cons ch gap ih =>
    exact .blank (hblank ch (by simp)) (ih fun x hx => hblank x (by simp [hx]))

/-- The words are found by a run. -/
theorem Words.exists_run {source : String} {cs : List Char} {ws : List (Kind × String)}
    (h : Words cs ws) :
    ∀ {c : Cursor}, c.rest = cs → c.StandsIn source.toList →
      ∃ ts d, Run Recognizer.priority c ts d none ∧ ts.map (Token.word source) = ws := by
  -- Words have no offsets, so the run is built from wherever the words stand.
  induction h with
  | nil =>
    intro c hrest _
    exact ⟨[], c, .done hrest, rfl⟩
  | @blank ch cs ws hblank _ ih =>
    intro c hrest hc
    obtain ⟨next, hr⟩ := Cursor.exists_reads_of_isPrefix (c := c) (s := [ch]) (by simp [hrest])
    have hnext : next.rest = cs := (List.cons.inj (hr.1.symm.trans hrest)).2
    obtain ⟨ts, d, hrun, hts⟩ := ih hnext (hc.of_reads hr)
    exact ⟨ts, d, Run.of_blanks hr (by simpa using hblank) hrun, hts⟩
  | @word kind value rest ws hbegins _ ih =>
    intro c hrest hc
    obtain ⟨next, hr⟩ := Cursor.exists_reads_of_isPrefix (c := c) ⟨rest, hrest.symm⟩
    have hnext : next.rest = rest := List.append_cancel_left (hr.1.symm.trans hrest)
    obtain ⟨inner, hstep⟩ := Begins.emit (hnext ▸ hbegins) hr
    obtain ⟨ts, d, hrun, hts⟩ := ih hnext (hc.of_reads hr)
    refine ⟨_, d, .emit hstep hrun, ?_⟩
    have hvalue : excerpt source c.pos next.pos = String.ofList value.toList :=
      excerpt_eq_of_slice? (hc.slice?_of_reads hr)
    rw [String.ofList_toList] at hvalue
    rw [List.map_cons, hts]
    exact congrArg (fun v => (kind, v) :: ws) hvalue

/-- A run that gets to the end of the text finds words. -/
theorem words_of_run {source : String} {c d : Cursor} {ts : List Token}
    (h : Run Recognizer.priority c ts d none) (hc : c.StandsIn source.toList) :
    Words c.rest (ts.map (Token.word source)) := by
  generalize hnone : (none : Option Failure) = outcome at h
  -- The run ends well, so the case of a halt does not come up.
  induction h with
  | done hrest =>
    rw [hrest]
    exact .nil
  | @emit c d m ts outcome hstep _ ih =>
    obtain ⟨value, -, hr⟩ := readsFrom_of_emit hstep
    have hvalue : (Tree.label (m.token c)).text source = String.ofList value :=
      excerpt_eq_of_slice? (hc.slice?_of_reads hr)
    have hbegins := begins_of_emit hstep hr
    rw [← String.toList_ofList (l := value)] at hbegins
    have hword := Words.word hbegins (ih (hc.of_reads hr) hnone)
    rw [String.toList_ofList, ← hr.1, ← hvalue] at hword
    exact hword
  | skip hstep _ ih =>
    obtain ⟨gap, -, hgap, hblank, -⟩ := blanks_of_skip hstep
    rw [hgap.1]
    exact (ih (hc.of_reads hgap) hnone).of_blanks hblank
  | halt => cases hnone

/-- A text has certain words if its scan does not fail and these are the words of its tokens. -/
theorem words_iff {source : String} {ws : List (Kind × String)} :
    Words source.toList ws ↔ (scan source.toList).status = .ok ∧
      (scan source.toList).tokens.map (Token.word source) = ws := by
  have hc : (Cursor.mk 0 source.toList).StandsIn source.toList := locate_zero _
  constructor
  · intro h
    obtain ⟨ts, d, hrun, hts⟩ := h.exists_run rfl hc
    have hscan : scan source.toList = ⟨0, d.pos, ts, none⟩ := scanAt_of_run hrun
    rw [hscan]
    exact ⟨rfl, hts⟩
  · rintro ⟨hok, rfl⟩
    obtain ⟨ts, hrun, hscan⟩ := exists_run_of_status_ok hok
    rw [hscan]
    exact words_of_run hrun hc

end PascalScan
