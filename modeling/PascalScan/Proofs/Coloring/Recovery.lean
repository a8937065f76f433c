import PascalScan.Proofs.Coloring.Pieces
import PascalScan.Proofs.Scan.Run

/-!
# `PascalScan.Proofs.Coloring.Recovery`: a highlighter is a scan that goes on

A scan and a highlighter go through a text in their own ways. The scan tries the classes that make
tokens, passes over blanks, and stops where nothing matches. The highlighter tries all classes,
shows blanks as well, and where nothing matches shows one character in error and goes on. So a
highlighter should show the tokens of a scan with the blanks between them, and after a halt one
character and what it shows from there.

`pieces_of_run` proves the first part: along a run of the scan the highlighter shows
`lexemesOf` its tokens. The two do not take their steps at different places, since a run of blanks
is never followed by another. `lexemesFrom_eq_recovery` adds what happens at the end of the run.
-/

set_option autoImplicit false

namespace PascalScan

open Text

variable {keywords : KeywordSet}

/-! ### What a scan amounts to for an editor -/

/-- The piece for a gap, which there is only if the gap is not empty. -/
def blankLexemes (start stop : Nat) : List Lexeme :=
  if start < stop then [⟨.blank, start, stop⟩] else []

/-- The piece for a token of `source`. -/
def Token.lexeme (keywords : KeywordSet) (source : String) (t : Token) : Lexeme :=
  ⟨Style.ofKind keywords t.kind ((Tree.label t).text source), t.start, t.stop⟩

/-- The pieces for the tokens of a scan of `source` and for the gaps between them. -/
def lexemesOf (keywords : KeywordSet) (source : String) (start stop : Nat) :
    List Token → List Lexeme
  | [] => blankLexemes start stop
  | t :: ts => blankLexemes start t.start ++
      t.lexeme keywords source :: lexemesOf keywords source t.stop stop ts

/-- What a highlighter shows when it is set to an offset of a text, blanks included. -/
def lexemesFrom (keywords : KeywordSet) (text : List Char) (pos : Nat) :
    Except Misuse (List Lexeme) :=
  ((Highlighter.start text keywords true).restartAt pos).map fun h => h.rest.1

/-- Where nothing is passed over, no blanks are shown. -/
theorem blankLexemes_self (pos : Nat) : blankLexemes pos pos = [] := by
  simp [blankLexemes]

/-- A highlighter can be set to the offset of a cursor, which then is its own. -/
theorem Highlighter.restartAt_of_standsIn {h : Highlighter} {c : Cursor} (hc : c.StandsIn h.text) :
    h.restartAt c.pos = .ok { h with cursor := c } := by
  have hplace : locate h.text c.pos = .boundary c.rest := hc
  unfold Highlighter.restartAt
  rw [hplace]

/-- Set to the offset of a cursor, a highlighter shows the pieces from there. -/
theorem lexemesFrom_of_standsIn {c : Cursor} {text : List Char} (h : c.StandsIn text) :
    lexemesFrom keywords text c.pos = .ok (pieces keywords c) := by
  unfold lexemesFrom
  rw [Highlighter.restartAt_of_standsIn h, Except.map, rest_eq_pieces rfl]
  rfl

/-- No token and no gap is shown as an error. -/
theorem kind_ne_error_of_mem_lexemesOf {source : String} {start stop : Nat} {ts : List Token}
    {lexeme : Lexeme} (h : lexeme ∈ lexemesOf keywords source start stop ts) :
    lexeme.kind ≠ .error := by
  -- a gap is shown as blanks
  have hgap {start stop : Nat} (h : lexeme ∈ blankLexemes start stop) : lexeme.kind ≠ .error := by
    unfold blankLexemes at h
    split at h
    · obtain rfl := List.mem_singleton.mp h
      simp
    · cases h
  induction ts generalizing start with
  | nil => exact hgap h
  | cons t ts ih =>
    rcases List.mem_append.mp h with h | h
    · exact hgap h
    · rcases List.mem_cons.mp h with rfl | h
      · exact Style.ofKind_ne_error _ _ _
      · exact ih h

/-! ### One step of a scan, one piece -/

/-- The first match of the classes of an order is their first match, whatever failed before. -/
theorem toOption_firstMatch (c : Cursor) (order : List Recognizer) (best : Option Failure) :
    (firstMatch c order best).toOption = order.findSome? fun r => (r.run c).toOption := by
  induction order generalizing best with
  | nil => rfl
  | cons r order ih =>
    unfold firstMatch
    rw [List.findSome?_cons]
    cases r.run c with
    | ok m => rfl
    | error f => exact ih _

/-- The highlighter tries blanks where the classes that make tokens have no match. -/
theorem anyMatch?_eq_or (c : Cursor) :
    anyMatch? c = (firstMatch c Recognizer.priority none).toOption.or
      (Recognizer.blank.run c).toOption := by
  -- The highlighter's list of classes is that of the scan, with blanks at the end.
  have hall : Recognizer.all = Recognizer.priority ++ [.blank] := rfl
  unfold anyMatch?
  rw [toOption_firstMatch, hall, List.findSome?_append]
  simp

/-- The piece for a match is the piece for its token. -/
theorem lexemeAt_of_anyMatch? {c : Cursor} {m : Match} {source : String}
    (hc : c.StandsIn source.toList) (h : anyMatch? c = some m) :
    lexemeAt keywords c = some ((m.token c).lexeme keywords source, m.next) := by
  obtain ⟨s, -, hread⟩ := readsFrom_of_anyMatch? h
  have htext : (Tree.label (m.token c)).text source = String.ofList s :=
    excerpt_eq_of_slice? (hc.slice?_of_reads hread)
  rw [lexemeAt_of_anyMatch?_eq_some h, styleOf, Cursor.textUpTo_of_reads hread, ← htext]
  rfl

/-- Where a scan finds a token, the highlighter finds the same match. -/
theorem anyMatch?_of_emit {c : Cursor} {m : Match} (h : step Recognizer.priority c = .emit m) :
    anyMatch? c = some m := by
  rw [anyMatch?_eq_or, step_eq_emit_iff.mp h]
  rfl

/-- Where a scan passes over blanks, they are a piece. -/
theorem lexemeAt_of_skip {c next : Cursor} (h : step Recognizer.priority c = .skip next) :
    lexemeAt keywords c = some (⟨.blank, c.pos, next.pos⟩, next) := by
  obtain ⟨hfail, m, hblank, rfl⟩ := step_eq_skip_iff.mp h
  obtain ⟨best, hbest⟩ : ∃ best, firstMatch c Recognizer.priority none = .error best :=
    exists_firstMatch_eq_error_iff.mpr hfail
  have hany : anyMatch? c = some m := by
    rw [anyMatch?_eq_or, hbest, hblank]
    rfl
  obtain ⟨next, -, rfl⟩ := Recognizer.run_blank_eq_ok_iff.mp hblank
  exact lexemeAt_of_anyMatch?_eq_some hany

/-- Where a scan halts, one character is a piece in error. -/
theorem lexemeAt_of_halt {c : Cursor} {f : Failure} {ch : Char} {cs : List Char}
    (h : step Recognizer.priority c = .halt f) (hrest : c.rest = ch :: cs) :
    lexemeAt keywords c
      = some (⟨.error, c.pos, c.pos + ch.utf8Size⟩, ⟨c.pos + ch.utf8Size, cs⟩) := by
  obtain ⟨⟨best, hbest, -⟩, f', hblank⟩ := step_eq_halt_iff.mp h
  have hany : anyMatch? c = none := by
    rw [anyMatch?_eq_or, hbest, hblank]
    rfl
  exact lexemeAt_of_anyMatch?_eq_none hany hrest

/-- Where a scan finds a token, the highlighter shows it. -/
theorem pieces_of_emit {c : Cursor} {m : Match} {source : String}
    (hc : c.StandsIn source.toList) (h : step Recognizer.priority c = .emit m) :
    pieces keywords c = (m.token c).lexeme keywords source :: pieces keywords m.next :=
  pieces_of_some (lexemeAt_of_anyMatch? hc (anyMatch?_of_emit h))

/-- Where a scan passes over blanks, the highlighter shows them. -/
theorem pieces_of_skip {c next : Cursor} (h : step Recognizer.priority c = .skip next) :
    pieces keywords c = ⟨.blank, c.pos, next.pos⟩ :: pieces keywords next :=
  pieces_of_some (lexemeAt_of_skip h)

/-- Where a scan halts, the highlighter shows one character in error. -/
theorem pieces_of_halt {c : Cursor} {f : Failure} {ch : Char} {cs : List Char}
    (h : step Recognizer.priority c = .halt f) (hrest : c.rest = ch :: cs) :
    pieces keywords c = ⟨.error, c.pos, c.pos + ch.utf8Size⟩ ::
      pieces keywords ⟨c.pos + ch.utf8Size, cs⟩ :=
  pieces_of_some (lexemeAt_of_halt h hrest)

/-! ### A whole run -/

/-- A run that begins in front of no blank has nothing in its first gap. So blanks passed over
just before it are a gap of their own. -/
theorem lexemesOf_of_blanks {c d : Cursor} {ts : List Token} {failure : Option Failure}
    {source : String} {start : Nat} (h : Run Recognizer.priority c ts d failure)
    (hstop : ∀ ch ∈ c.rest.head?, isBlank ch = false) (hlt : start < c.pos) :
    lexemesOf keywords source start d.pos ts
      = ⟨.blank, start, c.pos⟩ :: lexemesOf keywords source c.pos d.pos ts := by
  have hgap : blankLexemes start c.pos = [⟨.blank, start, c.pos⟩] := if_pos hlt
  cases h with
  | done => simp only [lexemesOf, hgap, blankLexemes_self]
  | halt => simp only [lexemesOf, hgap, blankLexemes_self]
  | @emit _ _ m _ _ hstep =>
    have hstart : (m.token c).start = c.pos := rfl
    simp only [lexemesOf, hstart, hgap, blankLexemes_self, List.singleton_append, List.nil_append]
  | skip hstep =>
    -- Only blanks are passed over, and there is none.
    obtain ⟨gap, hne, hread, hblank, -⟩ := blanks_of_skip hstep
    obtain ⟨ch, more, rfl⟩ := List.exists_cons_of_ne_nil hne
    have hch : isBlank ch = false := hstop ch (by simp [hread.1])
    simp [hch] at hblank

/-- Along a run, the highlighter shows the tokens of the run and the gaps between them. -/
theorem pieces_of_run {c d : Cursor} {ts : List Token} {failure : Option Failure}
    {source : String} (h : Run Recognizer.priority c ts d failure)
    (hc : c.StandsIn source.toList) :
    pieces keywords c = lexemesOf keywords source c.pos d.pos ts ++ pieces keywords d := by
  induction h with
  | done => rw [lexemesOf, blankLexemes_self, List.nil_append]
  | halt => rw [lexemesOf, blankLexemes_self, List.nil_append]
  | @emit c d m ts failure hstep _ ih =>
    obtain ⟨value, -, hvalue⟩ := readsFrom_of_emit hstep
    -- A token is found right where the step begins, so there is no gap to show.
    have hstart : (m.token c).start = c.pos := rfl
    have hstop : (m.token c).stop = m.next.pos := rfl
    rw [pieces_of_emit hc hstep, ih (hc.of_reads hvalue), lexemesOf, hstart, hstop,
      blankLexemes_self, List.nil_append, List.cons_append]
  | @skip c next d ts failure hstep tail ih =>
    obtain ⟨gap, hne, hgap, -, hnext⟩ := blanks_of_skip hstep
    rw [pieces_of_skip hstep, ih (hc.of_reads hgap),
      lexemesOf_of_blanks tail hnext (hgap.pos_lt hne), List.cons_append]

/-- From any boundary of any text, a highlighter shows the tokens of the scan from there, each
with its style, and the gaps that are not empty. After a scan that got through it shows nothing
more. After one that failed it shows the character where the scan halted as an error, and then
what it shows from the next character on. So a scan gets through exactly if there are no errors
to show, and otherwise it halts where the first of them starts. -/
theorem lexemesFrom_eq_recovery (keywords : KeywordSet) (source : String) (start : Nat)
    (hstart : IsBoundary source.toList start) :
    ∃ s shown, scanFrom source.toList start = .ok s ∧ s.start = start ∧
      lexemesFrom keywords source.toList start = .ok shown ∧
      (s.status = .ok → shown = lexemesOf keywords source start s.stop s.tokens) ∧
      (s.status = .fail → ∃ ch later, charAt? source.toList s.stop = some ch ∧
        lexemesFrom keywords source.toList (s.stop + ch.utf8Size) = .ok later ∧
        shown = lexemesOf keywords source start s.stop s.tokens ++
          ⟨.error, s.stop, s.stop + ch.utf8Size⟩ :: later ∧
        shown.find? (·.kind == .error) = some ⟨.error, s.stop, s.stop + ch.utf8Size⟩) ∧
      (s.status = .ok ↔ ∀ lexeme ∈ shown, lexeme.kind ≠ .error) := by
  obtain ⟨rest, hrest⟩ := hstart
  obtain ⟨ts, d, failure, hrun, hscan⟩ := run_scanFrom hrest
  have hc : (Cursor.mk start rest).StandsIn source.toList := hrest
  obtain ⟨s, hreads⟩ := run_reads hrun
  have hd : d.StandsIn source.toList := hc.of_reads hreads
  have hshown : pieces keywords ⟨start, rest⟩
      = lexemesOf keywords source start d.pos ts ++ pieces keywords d := pieces_of_run hrun hc
  have htokens (lexeme : Lexeme) (hmem : lexeme ∈ lexemesOf keywords source start d.pos ts) :
      lexeme.kind ≠ .error := kind_ne_error_of_mem_lexemesOf hmem
  refine ⟨_, _, hscan, rfl, lexemesFrom_of_standsIn hc, ?_⟩
  rcases run_end hrun with ⟨rfl, hnil⟩ | ⟨f, ch, cs, rfl, hcs, hhalt⟩
  · -- The run got through: nothing is shown behind it.
    rw [pieces_of_rest_eq_nil hnil, List.append_nil] at hshown
    rw [hshown]
    exact ⟨fun _ => rfl, nofun, fun _ => htokens, fun _ => rfl⟩
  · -- The run halted: an error is shown, then what comes behind it.
    rw [pieces_of_halt hhalt hcs] at hshown
    rw [hshown]
    have hnext : (Cursor.mk (d.pos + ch.utf8Size) cs).StandsIn source.toList :=
      hd.of_reads (s := [ch]) ⟨hcs, by simp⟩
    have hfind : (lexemesOf keywords source start d.pos ts).find? (·.kind == .error) = none := by
      refine List.find?_eq_none.mpr fun lexeme hmem => ?_
      simpa using htokens lexeme hmem
    refine ⟨nofun, fun _ => ⟨ch, _, ?_, lexemesFrom_of_standsIn hnext, rfl, ?_⟩, nofun, ?_⟩
    · show charAt? source.toList d.pos = some ch
      rw [hd.charAt?, hcs]
      rfl
    · rw [List.find?_append, hfind]
      rfl
    · intro hall
      exact absurd rfl (hall ⟨.error, d.pos, d.pos + ch.utf8Size⟩ (by simp))

/-- The scan of a text with an open quote halts there. A highlighter shows the quote as an error,
and what is behind it as on its own. -/
theorem lexemesFrom_eq_recovery_of_open_quote :
    IsBoundary "é end 'a\nb".toList 2 ∧ ∃ (s : Scan) (ch : Char) (later : List Lexeme),
      scanFrom "é end 'a\nb".toList 2 = .ok s ∧ s.status = .fail ∧
      lexemesFrom .default "é end 'a\nb".toList (s.stop + ch.utf8Size) = .ok later ∧
      lexemesFrom .default "é end 'a\nb".toList 2
        = .ok (lexemesOf .default "é end 'a\nb" 2 s.stop s.tokens ++
          ⟨.error, s.stop, s.stop + ch.utf8Size⟩ :: later) := by
  obtain ⟨s, shown, hscan, -, hshown, -, hfail, -⟩ :=
    lexemesFrom_eq_recovery .default "é end 'a\nb" 2 (by decide)
  have hstatus : s.status = .fail := by
    have hrun : (scanFrom "é end 'a\nb".toList 2).toOption.map Scan.status = some .fail := by
      decide +kernel
    rw [hscan] at hrun
    exact Option.some.inj hrun
  obtain ⟨ch, later, -, hlater, rfl, -⟩ := hfail hstatus
  exact ⟨by decide, s, ch, later, hscan, hstatus, hlater, hshown⟩

end PascalScan
