import PascalScan.Proofs.Coloring.Pieces
import PascalScan.Proofs.Lexical.Kinds
import PascalScan.Proofs.Scan.Shape

/-!
# `PascalScan.Proofs.Coloring.Shape`: texts that are alike are scanned and shown alike

A highlighter asks for more than the offsets of a token: a plain name may be a reserved word. But
names consist of ASCII characters, and reserved words are looked up in any case, so the style of a
piece is that of the same piece in the shape of the text (`styleOf_shape`).

`answers_of_alike` puts the scan and the highlighter together: two texts that are alike character by
character have the same shape, so what is found in the one is found in the other.
-/

set_option autoImplicit false

namespace PascalScan

open Text

variable {keywords : KeywordSet}

/-! ### Styles -/

/-- A plain name consists of ASCII characters. -/
theorem Name.isAscii_of_recognize {c : Cursor} {m : Match} (h : recognize c = .ok m)
    (hkind : m.kind = .identifier) : ∃ s, c.Reads s m.next ∧ ∀ ch ∈ s, IsAscii ch := by
  unfold recognize at h
  split at h
  next =>
    -- With a mark the name is an escaped one.
    split at h
    · cases h
      cases hkind
    · cases h
  next =>
    split at h
    next next hrun =>
      cases h
      obtain ⟨ch, cs, hch, hcs, hreads, -⟩ := Cursor.eatRun_eq_some_iff.mp hrun
      refine ⟨ch :: cs, hreads, List.forall_mem_cons.mpr ⟨isAscii_of_isNameStart hch, ?_⟩⟩
      intro x hx
      exact isAscii_of_isNamePart (hcs x hx)
    next => cases h

/-- Also where a highlighter meets it. -/
theorem isAscii_of_anyMatch? {c : Cursor} {m : Match} (h : anyMatch? c = some m)
    (hkind : m.kind = .identifier) : ∃ s, c.Reads s m.next ∧ ∀ ch ∈ s, IsAscii ch := by
  obtain ⟨r, -, hr⟩ := List.exists_of_findSome?_eq_some h
  cases hrun : r.run c with
  | error f => rw [hrun] at hr; cases hr
  | ok n =>
    rw [hrun] at hr
    cases hr
    have hclass := Recognizer.kind_of_run hrun
    rw [hkind] at hclass
    subst hclass
    exact Name.isAscii_of_recognize (Recognizer.recognizeAt_of_run hrun) hkind

/-- Reserved words are looked up in any case. -/
theorem KeywordSet.contains_map_shape {s : List Char} (h : ∀ ch ∈ s, IsAscii ch) :
    keywords.contains (String.ofList (s.map shape)) = keywords.contains (String.ofList s) := by
  have hfold : foldCase (String.ofList (s.map shape)) = foldCase (String.ofList s) := by
    refine String.toList_inj.mp ?_
    unfold foldCase
    rw [String.toList_map, String.toList_map, String.toList_ofList, String.toList_ofList,
      List.map_map]
    -- The shape of an ASCII character is the character in lower case.
    refine List.map_congr_left fun ch hch => ?_
    have hlower := forall_ascii (P := fun ch => ch.toLower.toLower = ch.toLower)
      (by decide +kernel) ch (h ch hch)
    rw [Function.comp_apply, shape_of_isAscii (h ch hch), hlower]
  unfold contains
  rw [hfold]

/-- What is read of a text is read of its shape, with the shape of each character. -/
theorem Cursor.Reads.shape {c d : Cursor} {s : List Char} (h : c.Reads s d) :
    c.shape.Reads (s.map Text.shape) d.shape := by
  obtain ⟨hrest, hpos⟩ := h
  refine ⟨?_, ?_⟩
  · rw [Cursor.rest_shape, Cursor.rest_shape, hrest, List.map_append]
  · rw [Cursor.pos_shape, Cursor.pos_shape, hpos, byteSize_map_shape]

/-- The style of a match is the same, since only the style of a plain name depends on its
characters. -/
theorem styleOf_shape {c : Cursor} {m : Match} (h : anyMatch? c = some m) :
    styleOf keywords c.shape m.shape = styleOf keywords c m := by
  show Style.ofKind keywords m.kind (c.shape.textUpTo m.next.shape)
    = Style.ofKind keywords m.kind (c.textUpTo m.next)
  cases hkind : m.kind with
  | identifier =>
    obtain ⟨s, hreads, hascii⟩ := isAscii_of_anyMatch? h hkind
    rw [Cursor.textUpTo_of_reads hreads, Cursor.textUpTo_of_reads hreads.shape]
    unfold Style.ofKind
    rw [KeywordSet.contains_map_shape hascii]
  | _ => rfl

/-! ### Pieces -/

/-- The same class is the first to match, with the same match. -/
theorem anyMatch?_shape (c : Cursor) : anyMatch? c.shape = (anyMatch? c).map Match.shape := by
  refine anyMatch?_map (fun r c => ?_) c
  rw [Recognizer.run_shape]
  cases r.run c <;> rfl

/-- The piece is the same. -/
theorem lexemeAt_shape (c : Cursor) :
    lexemeAt keywords c.shape
      = (lexemeAt keywords c).map (Prod.map id Cursor.shape) := by
  unfold lexemeAt
  rw [Cursor.rest_shape]
  cases c.rest with
  | nil => rfl
  | cons ch cs =>
    rw [List.map_cons]
    dsimp only
    rw [anyMatch?_shape]
    cases hmatch : anyMatch? c with
    | some m =>
      dsimp only [Option.map_some]
      rw [styleOf_shape hmatch]
      rfl
    | none =>
      dsimp only [Option.map_none]
      rw [utf8Size_shape]
      rfl

/-- The pieces are the same. -/
theorem pieces_shape (c : Cursor) : pieces keywords c.shape = pieces keywords c := by
  rw [pieces_map lexemeAt_shape, List.map_id]

/-! ### Texts that are alike -/

/-- What a highlighter shows depends on the shape of what is left to read. -/
theorem rest_shape (text text' : List Char) (showBlanks : Bool) (c : Cursor) :
    (Highlighter.rest ⟨text', keywords, showBlanks, c.shape⟩).1
      = (Highlighter.rest ⟨text, keywords, showBlanks, c⟩).1 := by
  rw [rest_eq_filter_pieces, rest_eq_filter_pieces]
  exact congrArg (List.filter (isShown showBlanks)) (pieces_shape c)

/-- It is set to the same offsets, and shows the same pieces from there. -/
theorem rest_restartAt_map_shape (text : List Char) (showBlanks : Bool) (pos : Nat) :
    ((Highlighter.start (text.map shape) keywords showBlanks).restartAt pos).map (·.rest.1)
      = ((Highlighter.start text keywords showBlanks).restartAt pos).map (·.rest.1) := by
  unfold Highlighter.restartAt
  dsimp only [Highlighter.start]
  rw [locate_map_shape]
  cases locate text pos with
  | boundary rest => exact congrArg Except.ok (rest_shape _ _ showBlanks ⟨pos, rest⟩)
  | inside => rfl
  | beyond => rfl

/-- Take two texts of equally many characters that differ, at any number of places, only in the
case of letters and in which characters outside ASCII they hold, a character of the same size in
the place of each. From every offset between two characters both texts scan to the same outcome:
the same tokens at any depth, the same end, and the same failure with its wording and its offsets.
A highlighter shows the same pieces of both, whatever words are reserved, from the start and from
every offset that it is set to. Where an offset has no meaning for one of the texts, it has none
for the other. -/
theorem answers_of_alike (text other : List Char) (h : List.Forall₂ Alike text other) :
    (∀ start, IsBoundary text start →
      ∃ outcome, scanFrom text start = .ok outcome ∧ scanFrom other start = .ok outcome) ∧
    (∀ start, scanFrom other start = scanFrom text start) ∧
    (∀ keywords showBlanks,
      (Highlighter.start other keywords showBlanks).rest.1
        = (Highlighter.start text keywords showBlanks).rest.1 ∧
      ∀ pos, ((Highlighter.start other keywords showBlanks).restartAt pos).map (·.rest.1)
        = ((Highlighter.start text keywords showBlanks).restartAt pos).map (·.rest.1)) := by
  have hshape : text.map shape = other.map shape := map_shape_eq_of_forall₂ h
  -- The answers for the shape are those for both texts.
  have hscan (start : Nat) : scanFrom other start = scanFrom text start := by
    rw [← scanFrom_map_shape other, ← hshape, scanFrom_map_shape]
  refine ⟨?_, hscan, ?_⟩
  · rintro start ⟨rest, hrest⟩
    have hok : scanFrom text start = .ok (scanAt Recognizer.priority ⟨start, rest⟩) :=
      scanFrom_of_locate hrest
    exact ⟨_, hok, (hscan start).trans hok⟩
  · intro keywords showBlanks
    constructor
    · calc (Highlighter.start other keywords showBlanks).rest.1
          = (Highlighter.start (other.map shape) keywords showBlanks).rest.1 :=
            (rest_shape other _ showBlanks ⟨0, other⟩).symm
        _ = (Highlighter.start (text.map shape) keywords showBlanks).rest.1 := by rw [hshape]
        _ = (Highlighter.start text keywords showBlanks).rest.1 :=
            rest_shape text _ showBlanks ⟨0, text⟩
    · intro pos
      rw [← rest_restartAt_map_shape other, ← hshape, rest_restartAt_map_shape]

/-- A reserved word, a quoted letter, a number in base sixteen, and a character that no token
begins with, in front of a comment that is not closed. -/
theorem answers_of_alike_of_mixed_case :
    List.Forall₂ Alike "Begin'é'$fF €\x7b".toList "bEGIN'ñ'$Ff 中\x7b".toList ∧
    scanFrom "bEGIN'ñ'$Ff 中\x7b".toList 5 = scanFrom "Begin'é'$fF €\x7b".toList 5 ∧
    (Highlighter.start "bEGIN'ñ'$Ff 中\x7b".toList ⟨["begin"]⟩ false).rest.1
      = [⟨.keyword, 0, 5⟩, ⟨.string, 5, 9⟩, ⟨.integer, 9, 12⟩, ⟨.error, 13, 16⟩,
        ⟨.error, 16, 17⟩] := by
  have halike : List.Forall₂ Alike "Begin'é'$fF €\x7b".toList "bEGIN'ñ'$Ff 中\x7b".toList := by
    decide +kernel
  have hanswers := answers_of_alike _ _ halike
  have hpieces : (Highlighter.start "Begin'é'$fF €\x7b".toList ⟨["begin"]⟩ false).rest.1
      = [⟨.keyword, 0, 5⟩, ⟨.string, 5, 9⟩, ⟨.integer, 9, 12⟩, ⟨.error, 13, 16⟩,
        ⟨.error, 16, 17⟩] := by
    decide +kernel
  refine ⟨halike, hanswers.2.1 5, ?_⟩
  rw [(hanswers.2.2 ⟨["begin"]⟩ false).1]
  exact hpieces

end PascalScan
