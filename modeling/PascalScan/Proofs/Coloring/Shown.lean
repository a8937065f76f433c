import PascalScan.Proofs.Coloring.Recovery
import PascalScan.Proofs.Lexical.Apart

/-!
# `PascalScan.Proofs.Coloring.Shown`: the next piece that is shown

Whatever place a highlighter is set to, be it in the middle of a comment or of a number, what it
shows next can be told without knowing what stands in front of the place.

* `CutsOff` says what a single piece is: it reads something, it is blank exactly if it begins with a
  blank, and then it holds all the blanks there are, and in error it is a single character.
* `nextLexeme_cases` says what the search for the next piece does: it passes over blanks, and only
  if they are not to be shown, and then stops at a piece that is shown or at the end of the text.
* `tile_pieces` and `join_text_pieces` say what all pieces from a place are together: they follow
  each other without a gap, no two of them are blank next to each other, and their texts make up
  what is left of the text.
-/

set_option autoImplicit false

namespace PascalScan

open Text

variable {keywords : KeywordSet} {showBlanks : Bool}

/-! ### One piece -/

/-- Only blanks are styled as blanks. -/
theorem Style.ofKind_eq_blank_iff {kind : Kind} {text : String} :
    Style.ofKind keywords kind text = .blank ↔ kind = .blank := by
  unfold Style.ofKind
  split
  · split <;> simp
  all_goals simp

/-- The lexeme is the piece between the two cursors. -/
structure CutsOff (c : Cursor) (lexeme : Lexeme) (next : Cursor) : Prop where
  start_eq : lexeme.start = c.pos
  stop_eq : lexeme.stop = next.pos
  /-- Something is read. -/
  reads : ∃ s, s ≠ [] ∧ c.Reads s next ∧ (lexeme.kind = .blank → ∀ ch ∈ s, isBlank ch) ∧
    (lexeme.kind = .error → ∃ ch, s = [ch])
  /-- The first character tells whether it is blank. -/
  blank_iff : lexeme.kind = .blank ↔ ∃ ch ∈ c.rest.head?, isBlank ch
  /-- Behind a blank piece no blank stands. -/
  not_blank_next : lexeme.kind = .blank → ∀ ch ∈ next.rest.head?, isBlank ch = false

/-- What `lexemeAt` cuts off is a piece. -/
theorem cutsOff_of_lexemeAt {c next : Cursor} {lexeme : Lexeme}
    (h : lexemeAt keywords c = some (lexeme, next)) : CutsOff c lexeme next := by
  -- A scan would do one of three things here, and each makes a piece of its own kind.
  cases hstep : step Recognizer.priority c with
  | emit m =>
    obtain ⟨hmem, hrun⟩ := run_of_emit hstep
    obtain ⟨s, hs, hread⟩ := readsFrom_of_emit hstep
    rw [lexemeAt_of_anyMatch?_eq_some (anyMatch?_of_emit hstep)] at h
    cases h
    have hkind : m.kind ≠ .blank := by
      intro hblank
      rw [hblank] at hmem
      exact absurd hmem (by decide)
    have hstyle : styleOf keywords c m ≠ .blank := fun h => hkind (Style.ofKind_eq_blank_iff.mp h)
    refine ⟨rfl, rfl, ⟨s, hs, hread, fun hblank => absurd hblank hstyle, fun herror =>
      absurd herror (Style.ofKind_ne_error _ _ _)⟩, ⟨fun hblank => absurd hblank hstyle, ?_⟩,
      fun hblank => absurd hblank hstyle⟩
    -- Where a blank stands, no class that makes tokens matches.
    rintro ⟨ch, hch, hblank⟩
    obtain ⟨f, hf⟩ := Recognizer.exists_error_of_blank hmem hch hblank
    cases hrun.symm.trans hf
  | skip stop =>
    rw [lexemeAt_of_skip hstep] at h
    cases h
    obtain ⟨gap, hne, hread, hblank, hnext⟩ := blanks_of_skip hstep
    refine ⟨rfl, rfl, ⟨gap, hne, hread, fun _ => hblank, nofun⟩, ⟨fun _ => ?_, fun _ => rfl⟩,
      fun _ => hnext⟩
    obtain ⟨ch, cs, rfl⟩ := List.exists_cons_of_ne_nil hne
    exact ⟨ch, by simp [hread.1], hblank ch (by simp)⟩
  | halt f =>
    have hnot := not_blank_of_halt hstep
    cases hrest : c.rest with
    | nil =>
      unfold lexemeAt at h
      rw [hrest] at h
      cases h
    | cons ch cs =>
      rw [lexemeAt_of_halt hstep hrest] at h
      cases h
      refine ⟨rfl, rfl, ⟨[ch], by simp, ⟨hrest, by simp⟩, nofun, fun _ => ⟨ch, rfl⟩⟩,
        ⟨nofun, fun ⟨x, hx, hblank⟩ => ?_⟩, nofun⟩
      rw [hnot x hx] at hblank
      cases hblank

/-- A piece is found exactly where something is left to read. -/
theorem lexemeAt_eq_none_iff {c : Cursor} : lexemeAt keywords c = none ↔ c.rest = [] := by
  constructor
  · intro h
    unfold lexemeAt at h
    split at h
    next hrest => exact hrest
    next => split at h <;> cases h
  · intro h
    unfold lexemeAt
    rw [h]

/-! ### The next piece -/

/-- The search for the next piece passes over blanks, if they are not shown, and ends at the end of
the text or at a piece that is shown. -/
theorem nextLexeme_cases (keywords : KeywordSet) (showBlanks : Bool) (c : Cursor) :
    ∃ gap d, (∀ ch ∈ gap, isBlank ch) ∧ c.Reads gap d ∧ (showBlanks = true → gap = []) ∧
      (nextLexeme keywords showBlanks c = (none, d) ∧ d.rest = [] ∨
        ∃ lexeme next, nextLexeme keywords showBlanks c = (some lexeme, next) ∧
          CutsOff d lexeme next ∧ (showBlanks = false → lexeme.kind ≠ .blank)) := by
  fun_induction nextLexeme keywords showBlanks c with
  | case1 c hnone =>
    exact ⟨[], c, by simp, .refl c, fun _ => rfl, .inl ⟨rfl, lexemeAt_eq_none_iff.mp hnone⟩⟩
  -- the blanks that were passed over are put in front of those found later
  | case2 c skipped next hsome _ hblank ih =>
    obtain ⟨gap, d, hgap, hread, -, hcases⟩ := ih
    obtain ⟨s, -, hs, hsblank, -⟩ := (cutsOff_of_lexemeAt hsome).reads
    refine ⟨s ++ gap, d, ?_, hs.trans hread, fun hshown => ?_, hcases⟩
    · intro ch hch
      exact (List.mem_append.mp hch).elim (hsblank hblank.1 ch) (hgap ch)
    · rw [hblank.2] at hshown
      cases hshown
  | case3 c shown next hsome _ hblank =>
    exact ⟨[], c, by simp, .refl c, fun _ => rfl, .inr ⟨shown, next, rfl, cutsOff_of_lexemeAt hsome,
      fun hhidden hkind => hblank ⟨hkind, hhidden⟩⟩⟩

/-- Nothing is shown where nothing is left, or where only blanks are left and they are not shown. -/
theorem nextLexeme_eq_none_iff {c : Cursor} :
    (nextLexeme keywords showBlanks c).1 = none ↔
      c.rest = [] ∨ showBlanks = false ∧ ∀ ch ∈ c.rest, isBlank ch := by
  -- The search passes over a gap of blanks. Then the text ends, or a piece is shown.
  obtain ⟨gap, d, hgap, hread, hshown, ⟨hnext, hend⟩ | ⟨lexeme, next, hnext, hpiece, hkind⟩⟩ :=
    nextLexeme_cases keywords showBlanks c
  · have hrest : c.rest = gap := by rw [hread.1, hend, List.append_nil]
    rw [hnext, hrest]
    refine ⟨fun _ => ?_, fun _ => rfl⟩
    cases showBlanks with
    | true => exact .inl (hshown rfl)
    | false => exact .inr ⟨rfl, hgap⟩
  · rw [hnext]
    refine ⟨nofun, fun hnone => ?_⟩
    obtain ⟨s, hs, hr, -⟩ := hpiece.reads
    obtain ⟨ch, cs, rfl⟩ := List.exists_cons_of_ne_nil hs
    rcases hnone with hnil | ⟨hhidden, hblank⟩
    · rw [hread.1, hr.1] at hnil
      simp at hnil
    · -- The piece begins with a blank, so it is not one of those that are shown.
      refine absurd (hpiece.blank_iff.mpr ⟨ch, by simp [hr.1], hblank ch ?_⟩) (hkind hhidden)
      rw [hread.1, hr.1]
      simp

/-! ### All pieces -/

/-- The lexemes follow each other without gaps from offset `start` to offset `stop`. None is empty,
and no two next to each other are blank. -/
def Tile (start : Nat) : List Lexeme → Nat → Prop
  | [], stop => start = stop
  | lexeme :: lexemes, stop => lexeme.start = start ∧ start < lexeme.stop ∧
      (lexeme.kind = .blank → ∀ next ∈ lexemes.head?, next.kind ≠ .blank) ∧
      Tile lexeme.stop lexemes stop

/-- The pieces from a cursor lie side by side up to the end of the text. -/
theorem tile_pieces (c : Cursor) : Tile c.pos (pieces keywords c) (c.pos + byteSize c.rest) := by
  fun_induction pieces keywords c with
  | case1 c hnone =>
    rw [lexemeAt_eq_none_iff.mp hnone]
    exact rfl
  | case2 c lexeme next hsome _ ih =>
    have hpiece := cutsOff_of_lexemeAt hsome
    -- A piece ends where the next one starts, and it is not empty.
    obtain ⟨s, hs, hread, -⟩ := hpiece.reads
    have hend : c.pos + byteSize c.rest = next.pos + byteSize next.rest := by
      rw [hread.1, hread.2, byteSize_append, Nat.add_assoc]
    refine ⟨hpiece.start_eq, hpiece.stop_eq ▸ hread.pos_lt hs,
      fun hblank later hlater hkind => ?_, ?_⟩
    · -- The piece behind begins where the blanks end.
      have hstop := hpiece.not_blank_next hblank
      cases hnext : lexemeAt keywords next with
      | none =>
        rw [pieces_of_none hnext] at hlater
        cases hlater
      | some piece =>
        rw [pieces_of_some hnext] at hlater
        obtain rfl := Option.mem_some_iff.mp hlater
        obtain ⟨ch, hch, hchBlank⟩ := (cutsOff_of_lexemeAt hnext).blank_iff.mp hkind
        rw [hstop ch hch] at hchBlank
        cases hchBlank
    · rw [hend, hpiece.stop_eq]
      exact ih

/-- The texts of the pieces from a cursor make up what is left of the text. -/
theorem join_text_pieces {source : String} (c : Cursor) (hc : c.StandsIn source.toList) :
    String.join ((pieces keywords c).map (·.text source)) = String.ofList c.rest := by
  fun_induction pieces keywords c with
  | case1 c hnone =>
    rw [lexemeAt_eq_none_iff.mp hnone]
    rfl
  | case2 c lexeme next hsome _ ih =>
    have hpiece := cutsOff_of_lexemeAt hsome
    obtain ⟨s, -, hread, -⟩ := hpiece.reads
    have htext : lexeme.text source = String.ofList s := by
      rw [Span.text, hpiece.start_eq, hpiece.stop_eq]
      exact excerpt_eq_of_slice? (hc.slice?_of_reads hread)
    rw [List.map_cons, String.join_cons, ih (hc.of_reads hread), htext, hread.1,
      String.ofList_append]

end PascalScan
