import PascalScan.Proofs.Coloring.Keywords
import PascalScan.Proofs.Coloring.Shown
import PascalScan.Proofs.Scan.Lossless
import PascalScan.Settings.Basic

/-!
# `PascalScan.Proofs.Coloring.Recoloring`: settings filter and recolour

An editor chooses which words are shown as reserved and whether blanks are shown. Neither has a say
in where a piece starts and stops: where the text is cut is up to the lexical classes alone. So two
highlighters with different settings show the same pieces of a text, but for the blanks that one of
them passes over and for the names that one of them takes for reserved words.

* `forall₂_pieces`: the words recolour. All pieces are compared one by one, before any are left out.
* `filter_isSolid_filter_isShown`: the blanks are filtered.
* `kind_eq_keyword_iff`: which pieces are shown as reserved words, in terms of the classes and of the
  words as they were given.

`shownFrom_of_settings` puts these together for two highlighters.
-/

set_option autoImplicit false

namespace PascalScan

open Text

/-! ### What is shown with given settings -/

/-- What a highlighter with these settings shows when it is set to an offset of a text. -/
def shownFrom (s : Settings) (text : List Char) (pos : Nat) : Except Misuse (List Lexeme) :=
  ((Highlighter.start text s.keywordSet s.showBlanks).restartAt pos).map fun h => h.rest.1

/-- The lexeme is no run of blanks. -/
def isSolid (lexeme : Lexeme) : Bool := lexeme.kind ≠ .blank

/-- The lexemes are the same, but for a name that only one of them shows as a reserved word. -/
structure Recolored (a b : Lexeme) : Prop where
  start_eq : a.start = b.start
  stop_eq : a.stop = b.stop
  kind_eq_or : a.kind = b.kind ∨
    a.kind ∈ [Style.keyword, .identifier] ∧ b.kind ∈ [Style.keyword, .identifier]

/-- What the first class that matches finds where the lexeme starts is a name without a mark. It has
the offsets of the lexeme, and is one of the words in some case. -/
def IsReservedName (words : List String) (text : List Char) (lexeme : Lexeme) : Prop :=
  ∃ (t : Token) (name : List Char), IsFirstMatch Recognizer.all text t ∧
    t.start = lexeme.start ∧ t.stop = lexeme.stop ∧ t.kind = .identifier ∧
    slice? text t.start t.stop = some name ∧ ∃ w ∈ words, SameWord w.toList name

/-- Set to the offset of a cursor, a highlighter shows the pieces from there, less the blanks if they
are not to be shown. -/
theorem shownFrom_of_standsIn {s : Settings} {text : List Char} {c : Cursor} (hc : c.StandsIn text) :
    shownFrom s text c.pos = .ok ((pieces s.keywordSet c).filter (isShown s.showBlanks)) := by
  unfold shownFrom
  rw [Highlighter.restartAt_of_standsIn hc, Except.map, rest_eq_filter_pieces]
  rfl

/-! ### Words recolour -/

/-- Whatever the reserved words are, a token is styled alike, unless it is a name. -/
theorem ofKind_eq_or (words others : KeywordSet) (kind : Kind) (text : String) :
    Style.ofKind words kind text = Style.ofKind others kind text ∨
      Style.ofKind words kind text ∈ [Style.keyword, .identifier] ∧
        Style.ofKind others kind text ∈ [Style.keyword, .identifier] := by
  cases kind with
  | identifier =>
    refine .inr ⟨?_, ?_⟩
    · show (if words.contains text then Style.keyword else .identifier) ∈ _
      split <;> simp
    · show (if others.contains text then Style.keyword else .identifier) ∈ _
      split <;> simp
  | _ => exact .inl rfl

/-- In front of a piece something is left to read. -/
theorem rest_ne_nil_of_lexemeAt {keywords : KeywordSet} {c : Cursor} {piece : Lexeme × Cursor}
    (h : lexemeAt keywords c = some piece) : c.rest ≠ [] := by
  intro hnil
  cases (lexemeAt_eq_none_iff.mpr hnil).symm.trans h

/-- The piece at a cursor does not depend on the reserved words, but for its colour. -/
theorem exists_lexemeAt_recolored {words : KeywordSet} (others : KeywordSet) {c next : Cursor}
    {lexeme : Lexeme} (h : lexemeAt words c = some (lexeme, next)) :
    ∃ lexeme', lexemeAt others c = some (lexeme', next) ∧ Recolored lexeme lexeme' := by
  -- the keyword set has a say in the style only, never in the place of a lexeme
  cases hany : anyMatch? c with
  | some m =>
    rw [lexemeAt_of_anyMatch?_eq_some hany] at h
    cases h
    exact ⟨_, lexemeAt_of_anyMatch?_eq_some hany, rfl, rfl, ofKind_eq_or words others m.kind _⟩
  | none =>
    obtain ⟨ch, cs, hrest⟩ := List.exists_cons_of_ne_nil (rest_ne_nil_of_lexemeAt h)
    rw [lexemeAt_of_anyMatch?_eq_none hany hrest] at h
    cases h
    exact ⟨_, lexemeAt_of_anyMatch?_eq_none hany hrest, rfl, rfl, .inl rfl⟩

/-- The pieces of a text do not depend on the reserved words, but for their colours. -/
theorem forall₂_pieces (words others : KeywordSet) (c : Cursor) :
    List.Forall₂ Recolored (pieces words c) (pieces others c) := by
  fun_induction pieces words c with
  | case1 c hnone =>
    -- A piece of the one would be a piece of the other.
    have hnone' : lexemeAt others c = none := by
      refine Option.eq_none_iff_forall_ne_some.mpr fun piece hpiece => ?_
      obtain ⟨lexeme, hlexeme, -⟩ := exists_lexemeAt_recolored words hpiece
      cases hlexeme.symm.trans hnone
    rw [pieces_of_none hnone']
    exact .nil
  | case2 c lexeme next hsome _ ih =>
    obtain ⟨lexeme', hsome', hsame⟩ := exists_lexemeAt_recolored others hsome
    rw [pieces_of_some hsome']
    exact .cons hsame ih

/-- Sets that find the same words colour alike. -/
theorem pieces_eq_of_contains {words others : KeywordSet}
    (h : words.contains = others.contains) (c : Cursor) : pieces words c = pieces others c := by
  have hstyle : Style.ofKind words = Style.ofKind others := by
    funext kind text
    unfold Style.ofKind
    rw [h]
  have hpiece : lexemeAt words = lexemeAt others := by
    funext d
    unfold lexemeAt styleOf
    rw [hstyle]
  fun_induction pieces words c with
  | case1 c hnone => exact (pieces_of_none (hpiece ▸ hnone)).symm
  | case2 c lexeme next hsome _ ih =>
    rw [hpiece] at hsome
    rw [pieces_of_some hsome, ih]

/-- Recoloring makes no blanks and leaves none out. -/
theorem Recolored.isSolid_eq {a b : Lexeme} (h : Recolored a b) : isSolid a = isSolid b := by
  unfold isSolid
  rcases h.kind_eq_or with hkind | ⟨ha, hb⟩
  · rw [hkind]
  · simp only [List.mem_cons, List.not_mem_nil, or_false] at ha hb
    rcases ha with ha | ha <;> rcases hb with hb | hb <;> rw [ha, hb] <;> rfl

/-! ### Blanks are filtered -/

/-- Whether blanks are shown or not, without them the same is left. -/
theorem filter_isSolid_filter_isShown (showBlanks : Bool) (lexemes : List Lexeme) :
    (lexemes.filter (isShown showBlanks)).filter isSolid = lexemes.filter isSolid := by
  rw [List.filter_filter]
  refine List.filter_congr fun lexeme _ => ?_
  cases showBlanks with
  | true => exact Bool.and_true _
  | false => exact Bool.and_self _

/-! ### Reserved words -/

/-- Only a plain name can be shown as a reserved word, and it is if it is among the words. -/
theorem Style.ofKind_eq_keyword_iff {words : KeywordSet} {kind : Kind} {text : String} :
    Style.ofKind words kind text = .keyword ↔ kind = .identifier ∧ words.contains text := by
  cases kind with
  | identifier =>
    show (if words.contains text then Style.keyword else .identifier) = _ ↔ _
    split <;> simp [*]
  | _ => simp [Style.ofKind]

/-- The first match at the offset of a cursor is the one that makes the piece there. -/
theorem isFirstMatch_all_iff {c : Cursor} {text : List Char} {t : Token} (hc : c.StandsIn text) :
    IsFirstMatch Recognizer.all text t ∧ t.start = c.pos ↔
      ∃ m, anyMatch? c = some m ∧ m.token c = t := by
  rw [isFirstMatch_iff hc]
  have hany : anyMatch? c = (firstMatch c Recognizer.all none).toOption :=
    (toOption_firstMatch c Recognizer.all none).symm
  rw [hany]
  cases firstMatch c Recognizer.all none <;> simp [Except.toOption]

/-- A piece is shown as a reserved word if it is a name and one of the words. -/
theorem kind_eq_keyword_iff {words : List String} {text : List Char} {c next : Cursor}
    {lexeme : Lexeme} (hc : c.StandsIn text)
    (h : lexemeAt (.ofList words) c = some (lexeme, next)) :
    lexeme.kind = .keyword ↔ IsReservedName words text lexeme := by
  cases hany : anyMatch? c with
  | some m =>
    rw [lexemeAt_of_anyMatch?_eq_some hany] at h
    cases h
    obtain ⟨s, -, hread⟩ := readsFrom_of_anyMatch? hany
    have hkind : styleOf (.ofList words) c m = .keyword ↔
        m.kind = .identifier ∧ ∃ w ∈ words, SameWord w.toList s := by
      unfold styleOf
      rw [Style.ofKind_eq_keyword_iff, Cursor.textUpTo_of_reads hread,
        KeywordSet.contains_ofList_iff, String.toList_ofList]
    refine hkind.trans ⟨fun ⟨hname, hword⟩ => ?_, ?_⟩
    · have hfirst := (isFirstMatch_all_iff hc).mpr ⟨m, hany, rfl⟩
      exact ⟨m.token c, s, hfirst.1, rfl, rfl, hname, hc.slice?_of_reads hread, hword⟩
    · rintro ⟨t, name, hfirst, hstart, -, hname, hslice, hword⟩
      obtain ⟨n, hn, rfl⟩ := (isFirstMatch_all_iff hc).mp ⟨hfirst, hstart⟩
      obtain rfl := Option.some.inj (hany.symm.trans hn)
      obtain rfl := Option.some.inj (hslice.symm.trans (hc.slice?_of_reads hread))
      exact ⟨hname, hword⟩
  | none =>
    obtain ⟨ch, cs, hrest⟩ := List.exists_cons_of_ne_nil (rest_ne_nil_of_lexemeAt h)
    rw [lexemeAt_of_anyMatch?_eq_none hany hrest] at h
    cases h
    -- A character in error is no token.
    refine iff_of_false nofun ?_
    rintro ⟨t, name, hfirst, hstart, -⟩
    obtain ⟨m, hm, -⟩ := (isFirstMatch_all_iff hc).mp ⟨hfirst, hstart⟩
    cases hany.symm.trans hm

/-- Each of the pieces from a cursor is the piece at a cursor further on. -/
theorem exists_lexemeAt_of_mem_pieces {keywords : KeywordSet} {text : List Char} {lexeme : Lexeme}
    (c : Cursor) (hc : c.StandsIn text) (h : lexeme ∈ pieces keywords c) :
    ∃ d next, d.StandsIn text ∧ lexemeAt keywords d = some (lexeme, next) := by
  fun_induction pieces keywords c with
  | case1 => cases h
  | case2 c first next hsome _ ih =>
    rcases List.mem_cons.mp h with rfl | h
    · exact ⟨c, next, hc, hsome⟩
    · obtain ⟨s, -, hread, -⟩ := (cutsOff_of_lexemeAt hsome).reads
      exact ih (hc.of_reads hread) h

/-! ### Two highlighters -/

/-- Settings filter and recolour. From any boundary of any text, two highlighters show the same
lexemes, apart from blanks and from names that only one of them shows as reserved words. If blanks
are all that they differ in, the one shows what the other does less the blanks. A lexeme is shown as
a reserved word if it is a name without a mark and one of the words in some case. So words that are
the same, but for their order, their case and how often they are given, make no difference. -/
theorem shownFrom_of_settings (s other : Settings) (text : List Char) (pos : Nat)
    (hpos : IsBoundary text pos) :
    ∃ shown shown', shownFrom s text pos = .ok shown ∧ shownFrom other text pos = .ok shown' ∧
      List.Forall₂ Recolored (shown.filter isSolid) (shown'.filter isSolid) ∧
      (s.keywords = other.keywords → s.showBlanks = true → other.showBlanks = false →
        shown' = shown.filter isSolid) ∧
      (∀ lexeme ∈ shown, lexeme.kind = .keyword ↔ IsReservedName s.keywords text lexeme) ∧
      (s.showBlanks = other.showBlanks → SameWords s.keywords other.keywords →
        shown' = shown ∧ s.keywordSet.equal other.keywordSet = true) := by
  obtain ⟨rest, hrest⟩ := hpos
  let c : Cursor := ⟨pos, rest⟩
  have hc : c.StandsIn text := hrest
  -- Whatever the settings, the pieces of the text are the same. They are recoloured and filtered.
  refine ⟨_, _, shownFrom_of_standsIn hc, shownFrom_of_standsIn hc, ?_, ?_, ?_, ?_⟩
  · rw [filter_isSolid_filter_isShown, filter_isSolid_filter_isShown]
    refine List.rel_filter (fun a b hab => ?_) (forall₂_pieces s.keywordSet other.keywordSet c)
    show isSolid a = true ↔ isSolid b = true
    rw [hab.isSolid_eq]
  · intro hwords hshown hhidden
    rw [Settings.keywordSet, Settings.keywordSet, hwords, hshown, hhidden,
      filter_isSolid_filter_isShown]
    rfl
  · intro lexeme hmem
    obtain ⟨d, next, hd, hpiece⟩ := exists_lexemeAt_of_mem_pieces c hc (List.mem_of_mem_filter hmem)
    exact kind_eq_keyword_iff hd hpiece
  · intro hblanks hsame
    have hpieces : pieces other.keywordSet c = pieces s.keywordSet c :=
      pieces_eq_of_contains (KeywordSet.contains_eq_of_sameWords hsame).symm c
    exact ⟨by rw [hblanks, hpieces], KeywordSet.equal_of_sameWords hsame⟩

/-- The words of the second are those of the first in another order and another case, one of them
twice. -/
theorem shownFrom_of_settings_of_respelled_words :
    ∃ shown shown', shownFrom ⟨["END", "of"], true⟩ "é &end End".toList 3 = .ok shown ∧
      shownFrom ⟨["Of", "end", "End"], true⟩ "é &end End".toList 3 = .ok shown' ∧
      shown' = shown ∧
      (Settings.keywordSet ⟨["END", "of"], true⟩).equal
        (Settings.keywordSet ⟨["Of", "end", "End"], true⟩) = true := by
  obtain ⟨shown, shown', hshown, hshown', -, -, -, hsame⟩ :=
    shownFrom_of_settings ⟨["END", "of"], true⟩ ⟨["Of", "end", "End"], true⟩ "é &end End".toList 3
      (by decide)
  obtain ⟨heq, hequal⟩ := hsame rfl (by decide)
  exact ⟨shown, shown', hshown, hshown', heq, hequal⟩

end PascalScan
