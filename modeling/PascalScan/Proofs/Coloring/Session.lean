import PascalScan.Proofs.Coloring.Offsets

/-!
# `PascalScan.Proofs.Coloring.Session`: a highlighter under any requests

An editor may ask a highlighter for anything in any order. What holds of every session is that both
its highlighters stand in the text that it was started with (`Session.IsOn`): each request preserves
this (`IsOn.ask`), so any number of them do (`IsOn.askAll`). All the rest is said of a single
highlighter that stands in the text.

* `askAllAt_eq`: offsets are all that a session has to remember, and none of its requests is a
  misuse.
* `shownFrom_of_next` and `rest_eq_nil_of_next`: what the next piece is, and where the search ends
  if there is none.
* `ask_nth`: to ask for a later piece is to ask for the next one again and again.

`Session.Serves` puts this together, and `askAll_contract` says it of the session after any
requests.
-/

set_option autoImplicit false

namespace PascalScan

open Text

variable {text : List Char} {source : String} {keywords : KeywordSet} {showBlanks : Bool}

/-! ### A highlighter in a text -/

/-- The highlighter goes through `text` with the given settings, and stands in it. -/
structure Highlighter.IsOn (h : Highlighter) (text : List Char) (keywords : KeywordSet)
    (showBlanks : Bool) : Prop where
  text_eq : h.text = text
  keywords_eq : h.keywords = keywords
  showBlanks_eq : h.showBlanks = showBlanks
  standsIn : h.cursor.StandsIn text

namespace Highlighter

variable {h : Highlighter}

/-- A highlighter starts at the front of its text. -/
theorem isOn_start (text : List Char) (keywords : KeywordSet) (showBlanks : Bool) :
    (start text keywords showBlanks).IsOn text keywords showBlanks :=
  ⟨rfl, rfl, rfl, locate_zero text⟩

/-- Reading on keeps a highlighter in its text. -/
theorem IsOn.of_reads {c : Cursor} {s : List Char} (hh : h.IsOn text keywords showBlanks)
    (hread : h.cursor.Reads s c) : { h with cursor := c }.IsOn text keywords showBlanks :=
  ⟨hh.text_eq, hh.keywords_eq, hh.showBlanks_eq, hh.standsIn.of_reads hread⟩

/-- It stays between characters when it shows the next piece. -/
theorem IsOn.next (hh : h.IsOn text keywords showBlanks) :
    h.next.2.IsOn text keywords showBlanks := by
  obtain ⟨s, hread⟩ := nextLexeme_reads h.keywords h.showBlanks h.cursor
  exact hh.of_reads hread

/-- So it does when it shows a later one. -/
theorem IsOn.nth (n : Nat) (hh : h.IsOn text keywords showBlanks) :
    (h.nth n).2.IsOn text keywords showBlanks := by
  -- the induction is on the number of lexemes that are passed over
  induction n generalizing h with
  | zero => exact hh.next
  | succ n ih =>
    have hnext := hh.next
    rw [Highlighter.nth]
    split
    next d hd =>
      rw [hd] at hnext
      exact hnext
    next lexeme d hd =>
      rw [hd] at hnext
      exact ih hnext

/-- To show all that is left is to read to the end of the text. -/
theorem collect_reads (keywords : KeywordSet) (showBlanks : Bool) (shown : List Lexeme)
    (c : Cursor) : ∃ s, c.Reads s (collect keywords showBlanks shown c).2 ∧
      (collect keywords showBlanks shown c).2.rest = [] := by
  fun_induction collect keywords showBlanks shown c with
  | case1 shown c next hnone =>
    obtain ⟨gap, d, -, hread, -, ⟨hnext, hend⟩ | ⟨lexeme, next', hnext, -⟩⟩ :=
      nextLexeme_cases keywords showBlanks c
    · cases hnone.symm.trans hnext
      exact ⟨gap, hread, hend⟩
    · cases hnone.symm.trans hnext
  | case2 shown c lexeme next hsome _ ih =>
    obtain ⟨s, hread⟩ := nextLexeme_reads keywords showBlanks c
    rw [hsome] at hread
    obtain ⟨s', hread', hend⟩ := ih
    exact ⟨s ++ s', hread.trans hread', hend⟩

/-- So it does when it shows all that is left. -/
theorem IsOn.rest (hh : h.IsOn text keywords showBlanks) :
    h.rest.2.IsOn text keywords showBlanks := by
  obtain ⟨s, hread, -⟩ := collect_reads h.keywords h.showBlanks [] h.cursor
  exact hh.of_reads hread

/-- A highlighter starts again at every boundary, and nowhere else. -/
theorem IsOn.restartAt (hh : h.IsOn text keywords showBlanks) (pos : Nat) :
    (∃ moved, h.restartAt pos = .ok moved ∧ moved.IsOn text keywords showBlanks ∧
      moved.position = pos ∧ IsBoundary text pos) ∨
    h.restartAt pos = .error (.restartOffBoundary pos) ∧ ¬ IsBoundary text pos := by
  obtain ⟨rfl, rfl, rfl, -⟩ := hh
  unfold Highlighter.restartAt
  split
  next rest hrest => exact .inl ⟨_, rfl, ⟨rfl, rfl, rfl, hrest⟩, rfl, rest, hrest⟩
  next hnot =>
    refine .inr ⟨rfl, ?_⟩
    rintro ⟨rest, hrest⟩
    exact hnot rest hrest

/-! ### What a highlighter shows -/

/-- The lexeme is what a highlighter at offset `pos` may show next. -/
structure ShownFrom (text : List Char) (showBlanks : Bool) (pos : Nat) (lexeme : Lexeme) :
    Prop where
  pos_le_start : pos ≤ lexeme.start
  start_lt_stop : lexeme.start < lexeme.stop
  /-- If blanks are shown, nothing is passed over. -/
  start_eq : showBlanks = true → lexeme.start = pos
  /-- Otherwise blanks are passed over, and nothing else. -/
  blanks : showBlanks = false → lexeme.kind ≠ .blank ∧
    ∃ gap, slice? text pos lexeme.start = some gap ∧ ∀ ch ∈ gap, isBlank ch
  /-- An error is a single character. -/
  error : lexeme.kind = .error → ∃ ch, slice? text lexeme.start lexeme.stop = some [ch]

/-- What a highlighter shows next is due to be shown from where it is, and it moves behind that. -/
theorem shownFrom_of_next {lexeme : Lexeme} (hh : h.IsOn text keywords showBlanks)
    (hnext : h.next.1 = some lexeme) :
    ShownFrom text showBlanks h.position lexeme ∧ h.next.2.position = lexeme.stop := by
  obtain ⟨rfl, rfl, rfl, hc⟩ := hh
  -- Either the search comes to the end, or it passes over a gap of blanks up to a piece.
  obtain ⟨gap, d, hgap, hread, hshown, ⟨hsearch, -⟩ | ⟨shown, next, hsearch, hpiece, hkind⟩⟩ :=
    nextLexeme_cases h.keywords h.showBlanks h.cursor
  · rw [next_eq, hsearch] at hnext
    cases hnext
  · rw [next_eq, hsearch] at hnext ⊢
    obtain rfl := Option.some.inj hnext
    obtain ⟨s, hs, hreads, -, herror⟩ := hpiece.reads
    have hd := hc.of_reads hread
    refine ⟨⟨?_, ?_, fun hblanks => ?_, fun hhidden => ⟨hkind hhidden, gap, ?_, hgap⟩,
      fun hkind => ?_⟩, hpiece.stop_eq.symm⟩
    · exact hpiece.start_eq ▸ hread.pos_le
    · exact hpiece.start_eq ▸ hpiece.stop_eq ▸ hreads.pos_lt hs
    · obtain rfl := hshown hblanks
      rw [hpiece.start_eq, hread.unique (.refl _)]
      rfl
    · rw [hpiece.start_eq]
      exact hc.slice?_of_reads hread
    · obtain ⟨ch, rfl⟩ := herror hkind
      rw [hpiece.start_eq, hpiece.stop_eq]
      exact ⟨ch, hd.slice?_of_reads hreads⟩

/-- Where nothing is shown any more, nothing is left. -/
theorem rest_eq_nil_of_next (hnext : h.next.1 = none) : h.next.2.cursor.rest = [] := by
  obtain ⟨gap, d, -, -, -, ⟨hsearch, hend⟩ | ⟨lexeme, next, hsearch, -⟩⟩ :=
    nextLexeme_cases h.keywords h.showBlanks h.cursor
  · rw [next_eq, hsearch]
    exact hend
  · rw [next_eq, hsearch] at hnext
    cases hnext

/-- At the end of the text nothing is shown, whatever is asked for. -/
theorem nth_of_rest_eq_nil (n : Nat) (hrest : h.cursor.rest = []) : h.nth n = (none, h) := by
  have hsearch : nextLexeme h.keywords h.showBlanks h.cursor = (none, h.cursor) := by
    rw [nextLexeme]
    split
    next => rfl
    next hsome => cases (lexemeAt_eq_none_iff.mpr hrest).symm.trans hsome
  have hnext : h.next = (none, h) := by rw [next_eq, hsearch]
  cases n with
  | zero => exact hnext
  | succ n => rw [nth, hnext]

/-- To ask for the piece behind the next `n + 1` pieces is to ask for the next piece first. -/
theorem nth_succ (n : Nat) : h.nth (n + 1) = h.next.2.nth n := by
  rw [nth]
  split
  next d hd =>
    have hend := rest_eq_nil_of_next (congrArg Prod.fst hd)
    rw [hd] at hend ⊢
    exact (nth_of_rest_eq_nil n hend).symm
  next lexeme d hd => rw [hd]

end Highlighter

/-! ### Sessions -/

namespace Session

variable {s : Session}

/-- Both highlighters of the session stand in the text. -/
structure IsOn (s : Session) (text : List Char) (keywords : KeywordSet) (showBlanks : Bool) :
    Prop where
  current : s.current.IsOn text keywords showBlanks
  saved : s.saved.IsOn text keywords showBlanks

/-- A session starts at the front of its text, which is also the place that it remembers. -/
theorem isOn_start (text : List Char) (keywords : KeywordSet) (showBlanks : Bool) :
    (start text keywords showBlanks).IsOn text keywords showBlanks :=
  ⟨Highlighter.isOn_start text keywords showBlanks, Highlighter.isOn_start text keywords showBlanks⟩

/-- No request leaves the text. -/
theorem IsOn.ask (hs : s.IsOn text keywords showBlanks) (request : Request) :
    (s.ask request).2.IsOn text keywords showBlanks := by
  cases request with
  | next => exact ⟨hs.current.next, hs.saved⟩
  | nth n => exact ⟨hs.current.nth n, hs.saved⟩
  | rest => exact ⟨hs.current.rest, hs.saved⟩
  | count => exact ⟨hs.current.rest, hs.saved⟩
  | save => exact ⟨hs.current, hs.current⟩
  | load => exact ⟨hs.saved, hs.saved⟩
  | restartAt pos =>
    rcases hs.current.restartAt pos with ⟨moved, hmoved, hon, -⟩ | ⟨hmisuse, -⟩
    · rw [Session.ask, hmoved]
      exact ⟨hon, hs.saved⟩
    · rw [Session.ask, hmisuse]
      exact hs

/-- No number of requests does. -/
theorem IsOn.askAll (hs : s.IsOn text keywords showBlanks) (requests : List Request) :
    (s.askAll requests).2.IsOn text keywords showBlanks := by
  induction requests generalizing s with
  | nil => exact hs
  | cons request requests ih => exact ih (hs.ask request)

/-- The offsets that a session is at. -/
def offsets (s : Session) : Offsets := ⟨s.current.position, s.saved.position⟩

/-- A request is no misuse, and the offsets tell the reply. -/
theorem askAt_eq (hs : s.IsOn source.toList keywords showBlanks) (request : Request) :
    askAt source keywords showBlanks s.offsets request
      = .ok ((s.ask request).1, (s.ask request).2.offsets) := by
  have hrestart := hs.current.restartAt
  obtain ⟨⟨-, rfl, rfl, hc⟩, -⟩ := hs
  cases request with
  | next => rw [askAt, offsets, Highlighter.nextAt_eq hc]; rfl
  | nth n => rw [askAt, offsets, Highlighter.nthAt_eq n hc]; rfl
  | rest => rw [askAt, offsets, Highlighter.restAt_eq hc]; rfl
  | count => rw [askAt, offsets, Highlighter.restAt_eq hc]; rfl
  | save => rfl
  | load => rfl
  | restartAt pos =>
    rw [askAt, ask]
    -- the offset is looked at before anything changes
    rcases hrestart pos with ⟨moved, hmoved, -, rfl, hboundary⟩ | ⟨hmisuse, hnot⟩
    · rw [if_pos hboundary, hmoved]
      rfl
    · rw [if_neg hnot, hmisuse]

/-- No sequence of requests is a misuse. -/
theorem askAllAt_eq (hs : s.IsOn source.toList keywords showBlanks) (requests : List Request) :
    askAllAt source keywords showBlanks s.offsets requests
      = .ok ((s.askAll requests).1, (s.askAll requests).2.offsets) := by
  induction requests generalizing s with
  | nil => rfl
  | cons request requests ih =>
    rw [askAllAt, askAt_eq hs]
    dsimp only
    rw [ih (hs.ask request)]
    rfl

/-- To ask for a later piece is to ask for the next one again and again. -/
theorem ask_nth (n : Nat) :
    s.ask (.nth n) = (s.askAll (List.replicate n .next)).2.ask .next := by
  induction n generalizing s with
  | zero => rfl
  | succ n ih =>
    have hfirst : s.ask (.nth (n + 1)) = (s.ask .next).2.ask (.nth n) := by
      rw [ask, ask, Highlighter.nth_succ]
      rfl
    rw [hfirst, ih]
    rfl

/-- What a session in `source` owes to whoever asks it. All that is left of the text is `rest`. -/
structure Serves (s : Session) (source : String) (showBlanks : Bool) (rest : List Char) : Prop where
  /-- It is between two characters of its text. -/
  boundary : IsBoundary source.toList s.current.position
  position_le : s.current.position ≤ byteSize source.toList
  rest_eq : slice? source.toList s.current.position (byteSize source.toList) = some rest
  /-- It starts again at every boundary. -/
  restart : ∀ pos, IsBoundary source.toList pos →
    ∃ s', s.ask (.restartAt pos) = (.done, s') ∧ s'.current.position = pos
  /-- At any other offset it refuses to, and stays as it is. -/
  refuse : ∀ pos, ¬ IsBoundary source.toList pos →
    s.ask (.restartAt pos) = (.rejected (.restartOffBoundary pos), s)
  /-- What it shows next begins where it is, but for blanks that are not shown, and it moves behind
  that. -/
  next_some : ∀ lexeme s', s.ask .next = (.piece (some lexeme), s') →
    Highlighter.ShownFrom source.toList showBlanks s.current.position lexeme ∧
      s'.current.position = lexeme.stop
  /-- It shows nothing where nothing is left, or nothing that is shown. -/
  next_none_iff : (s.ask .next).1 = .piece none ↔
    rest = [] ∨ showBlanks = false ∧ ∀ ch ∈ rest, isBlank ch
  /-- It is at the end of the text then. -/
  next_none : ∀ s', s.ask .next = (.piece none, s') →
    s'.current.position = byteSize source.toList
  /-- To ask for a later piece is to ask for the next one again and again. -/
  nth : ∀ n, s.ask (.nth n) = (s.askAll (List.replicate n .next)).2.ask .next
  /-- With blanks shown, all that is left to show is what is left of the text, piece by piece. -/
  rest : showBlanks = true → ∀ lexemes s', s.ask .rest = (.pieces lexemes, s') →
    Tile s.current.position lexemes (byteSize source.toList) ∧
      String.join (lexemes.map (·.text source)) = String.ofList rest ∧
      s'.current.position = byteSize source.toList

/-- A session in the text serves from where it is. -/
theorem IsOn.serves (hs : s.IsOn source.toList keywords showBlanks) :
    s.Serves source showBlanks s.current.cursor.rest := by
  have hcurrent := hs.current
  have hc := hcurrent.standsIn
  refine ⟨⟨_, hc⟩, hc.pos_le_byteSize, Cursor.standsIn_iff_slice?.mp hc, fun pos hpos => ?_,
    fun pos hpos => ?_, fun lexeme s' hnext => ?_, ?_, fun s' hnext => ?_, ask_nth,
    fun hblanks lexemes s' hshown => ?_⟩
  · rcases hcurrent.restartAt pos with ⟨moved, hmoved, -, hposition, -⟩ | ⟨-, hnot⟩
    · exact ⟨{ s with current := moved }, by rw [Session.ask, hmoved], hposition⟩
    · exact absurd hpos hnot
  · rcases hcurrent.restartAt pos with ⟨moved, -, -, -, hboundary⟩ | ⟨hmisuse, -⟩
    · exact absurd hboundary hpos
    · rw [Session.ask, hmisuse]
  · obtain ⟨hreply, rfl⟩ := Prod.mk.inj hnext
    exact Highlighter.shownFrom_of_next hcurrent (Reply.piece.inj hreply)
  · rw [← hcurrent.showBlanks_eq]
    exact Iff.trans ⟨Reply.piece.inj, congrArg Reply.piece⟩ nextLexeme_eq_none_iff
  · obtain ⟨hreply, rfl⟩ := Prod.mk.inj hnext
    have hend := Highlighter.rest_eq_nil_of_next (Reply.piece.inj hreply)
    exact hcurrent.next.standsIn.pos_eq_byteSize_iff.mpr hend
  -- Everything is shown, so the pieces are those of the text and end with it.
  · obtain ⟨hreply, rfl⟩ := Prod.mk.inj hshown
    obtain rfl := Reply.pieces.inj hreply
    obtain ⟨-, -, hend⟩ := Highlighter.collect_reads s.current.keywords s.current.showBlanks []
      s.current.cursor
    have hposition := hcurrent.rest.standsIn.pos_eq_byteSize_iff.mpr hend
    rw [rest_eq_pieces (hcurrent.showBlanks_eq.trans hblanks)]
    exact ⟨hc.pos_add_byteSize ▸ tile_pieces _, join_text_pieces _ hc, hposition⟩

/-- Whatever was asked for, none of the requests was a misuse: a highlighter that knows nothing but
byte offsets gives the same replies and is at the same offsets. And whatever is asked for next, the
session serves from where it is. -/
theorem askAll_contract (source : String) (keywords : KeywordSet) (showBlanks : Bool)
    (requests : List Request) :
    ∃ replies s rest,
      (start source.toList keywords showBlanks).askAll requests = (replies, s) ∧
      askAllAt source keywords showBlanks ⟨0, 0⟩ requests = .ok (replies, s.offsets) ∧
      s.Serves source showBlanks rest := by
  have hstart := isOn_start source.toList keywords showBlanks
  exact ⟨_, _, _, rfl, askAllAt_eq hstart requests, (hstart.askAll requests).serves⟩

/-- A session that starts again behind an open quote, goes back, and meets the quote as an error. -/
theorem askAll_contract_of_restart :
    ∃ s, (start "é\x7b'a \n12".toList .default true).askAll
        [.next, .restartAt 1, .save, .restartAt 4, .rest, .load, .nth 1]
      = ([.piece (some ⟨.error, 0, 2⟩), .rejected (.restartOffBoundary 1), .done, .done,
          .pieces [⟨.identifier, 4, 5⟩, ⟨.blank, 5, 7⟩, ⟨.integer, 7, 9⟩], .done,
          .piece (some ⟨.error, 3, 4⟩)], s) ∧
      s.Serves "é\x7b'a \n12" true "a \n12".toList := by
  obtain ⟨replies, s, rest, hask, -, hserves⟩ :=
    askAll_contract "é\x7b'a \n12" .default true
      [.next, .restartAt 1, .save, .restartAt 4, .rest, .load, .nth 1]
  have hreplies : ((start "é\x7b'a \n12".toList .default true).askAll
        [.next, .restartAt 1, .save, .restartAt 4, .rest, .load, .nth 1]).1
      = [.piece (some ⟨.error, 0, 2⟩), .rejected (.restartOffBoundary 1), .done, .done,
          .pieces [⟨.identifier, 4, 5⟩, ⟨.blank, 5, 7⟩, ⟨.integer, 7, 9⟩], .done,
          .piece (some ⟨.error, 3, 4⟩)] := by
    decide +kernel
  -- The request for the second piece behind the saved place leaves the session at offset 4.
  have hposition : ((start "é\x7b'a \n12".toList .default true).askAll
      [.next, .restartAt 1, .save, .restartAt 4, .rest, .load, .nth 1]).2.current.position = 4 := by
    decide +kernel
  rw [hask] at hreplies hposition ⊢
  obtain rfl : replies = _ := hreplies
  have hrest := hserves.rest_eq
  rw [hposition] at hrest
  cases hrest
  exact ⟨s, rfl, hserves⟩

end Session

end PascalScan
