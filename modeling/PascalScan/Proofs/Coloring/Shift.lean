import PascalScan.Proofs.Coloring.Pieces
import PascalScan.Proofs.Scan.Shift

/-!
# `PascalScan.Proofs.Coloring.Shift`: neither does a highlighter look behind its place

The piece at a cursor is made of what the classes recognize there, and its style depends on the
characters of the piece. So the pieces from a shifted cursor are the shifted pieces
(`pieces_shift`), and a highlighter that is set to an offset shows what a fresh one shows of the
text behind it (`rest_restartAt`).

`answers_of_suffix` is the law for all ways to go through a text: the classes one by one, the scan,
and the highlighter.
-/

set_option autoImplicit false

namespace PascalScan

open Text

variable {keywords : KeywordSet}

/-! ### Pieces -/

/-- The same class is the first to match, with the same match. -/
theorem anyMatch?_shift (k : Nat) (c : Cursor) :
    anyMatch? (c.shift k) = (anyMatch? c).map (Match.shift k) := by
  refine anyMatch?_map (fun r c => ?_) c
  rw [Recognizer.run_shift]
  cases r.run c <;> rfl

/-- The style of a match is the same, since the characters are. -/
theorem styleOf_shift (k : Nat) (c : Cursor) (m : Match) :
    styleOf keywords (c.shift k) (m.shift k) = styleOf keywords c m := by
  have htext : (c.shift k).textUpTo (m.shift k).next = c.textUpTo m.next := by
    show String.ofList (slice c.rest 0 (m.next.pos + k - (c.pos + k)))
      = String.ofList (slice c.rest 0 (m.next.pos - c.pos))
    rw [Nat.add_sub_add_right]
  show Style.ofKind keywords m.kind _ = Style.ofKind keywords m.kind _
  rw [htext]

/-- The piece at a shifted cursor is the shifted piece. -/
theorem lexemeAt_shift (k : Nat) (c : Cursor) :
    lexemeAt keywords (c.shift k)
      = (lexemeAt keywords c).map fun piece => (piece.1.shift k, piece.2.shift k) := by
  unfold lexemeAt
  rw [Cursor.rest_shift]
  cases c.rest with
  | nil => rfl
  | cons ch cs =>
    dsimp only
    rw [anyMatch?_shift]
    cases anyMatch? c with
    | some m =>
      dsimp only [Option.map_some]
      rw [styleOf_shift]
      rfl
    | none =>
      dsimp only [Option.map_none]
      rw [Cursor.pos_shift, Nat.add_right_comm]
      rfl

/-- The pieces from a shifted cursor are the shifted pieces. -/
theorem pieces_shift (k : Nat) (c : Cursor) :
    pieces keywords (c.shift k) = (pieces keywords c).map (Span.shift k) :=
  pieces_map (lexemeAt_shift k) c

/-- Set to an offset, a highlighter shows the shifted pieces of what follows there. -/
theorem rest_restartAt {h : Highlighter} {rest : List Char} {k : Nat}
    (hrest : locate h.text k = .boundary rest) :
    (h.restartAt k).map (·.rest.1)
      = .ok ((Highlighter.start rest h.keywords h.showBlanks).rest.1.map (Span.shift k)) := by
  unfold Highlighter.restartAt
  rw [hrest]
  show Except.ok (Highlighter.rest { h with cursor := ⟨k, rest⟩ }).1 = _
  rw [rest_eq_filter_pieces, rest_eq_filter_pieces, ← Cursor.shift_start, pieces_shift,
    List.filter_map]
  rfl

/-! ### Everything that goes through a text -/

/-- Let `rest` be what follows an offset of a text that falls between two characters. Each class
answers at the offset what it answers at the start of `rest`, and the scan and every highlighter
from the offset find what they find in `rest`, with all offsets shifted: those of tokens at any
depth, those of failures, and those in a report on open comments. The wording of any other failure
and the values of all tokens are the same. -/
theorem answers_of_suffix (source rest : String) (k : Nat)
    (hrest : slice? source.toList k (byteSize source.toList) = some rest.toList) :
    (∀ r : Recognizer, r.recognize source.toList k
      = (r.recognize rest.toList 0).map (shiftAnswer k (Token.shift k))) ∧
    (∀ f : Failure, (f.shift k).pos = f.pos + k ∧ (f.shift k).furthest = f.furthest + k ∧
      ((f.shift k).cause.message = f.cause.message ∨
        ∃ opens, f.cause = .unfinishedComment opens ∧
          (f.shift k).cause = .unfinishedComment (opens.map fun o => ⟨o.form, o.start + k⟩))) ∧
    scanFrom source.toList k = .ok ((scan rest.toList).shift k) ∧
    (∀ t : Token, (∃ r : Recognizer, r.recognize rest.toList 0 = .ok (.ok t)) ∨
        t ∈ (scan rest.toList).tokens →
      ∀ u, Tree.Within u t →
        (Tree.label (Token.shift k u)).text source = (Tree.label u).text rest) ∧
    (∀ h : Highlighter, h.text = source.toList → (h.restartAt k).map (·.rest.1) = .ok
      ((Highlighter.start rest.toList h.keywords h.showBlanks).rest.1.map (Span.shift k))) := by
  -- The text in front has `k` bytes, so the offset lies between its two parts.
  obtain ⟨before, hsource, rfl⟩ := slice?_byteSize_eq_some_iff.mp hrest
  have hlocate : locate source.toList (byteSize before) = .boundary rest.toList :=
    locate_eq_boundary_iff.mpr ⟨before, hsource, rfl⟩
  refine ⟨Recognizer.recognize_eq_shift _ hlocate, ?_, scanFrom_eq_shift hlocate, ?_, ?_⟩
  · intro f
    refine ⟨rfl, rfl, ?_⟩
    cases hcause : f.cause with
    | unfinishedComment opens => exact .inr ⟨opens, rfl, by rw [Failure.shift, hcause]; rfl⟩
    | _ => exact .inl (by rw [Failure.shift, hcause]; rfl)
  · intro t ht u hu
    -- The token lies in the text behind, so its value is cut out of there.
    have hlies : Token.LiesIn rest t := by
      rcases ht with ⟨r, hr⟩ | hscan
      · obtain ⟨d, m, hd, -, hrun, rfl⟩ := Recognizer.recognize_eq_ok_iff.mp hr
        exact Recognizer.liesIn_of_run hd hrun
      · exact liesIn_of_mem_scan hscan
    rw [Token.shift, Tree.label_map]
    have hpart : source.toList = before ++ rest.toList ++ [] := by
      rw [hsource, List.append_nil]
    exact (hlies u hu).text_of_part hpart
  · intro h htext
    exact rest_restartAt (by rw [htext, hlocate])

/-- Behind a character of two bytes stands a comment that is not closed, with another inside it. -/
theorem answers_of_suffix_of_open_comment :
    slice? "é\x7b(*".toList 2 (byteSize "é\x7b(*".toList) = some "\x7b(*".toList ∧
      ∃ f, Recognizer.comment.recognize "é\x7b(*".toList 2 = .ok (.error f) ∧
        f.cause = .unfinishedComment [⟨.brace, 2⟩, ⟨.paren, 3⟩] ∧ f.pos = 2 ∧ f.furthest = 5 := by
  have hslice : slice? "é\x7b(*".toList 2 (byteSize "é\x7b(*".toList) = some "\x7b(*".toList := rfl
  have hanswers := (answers_of_suffix "é\x7b(*" "\x7b(*" 2 hslice).1 .comment
  exact ⟨hslice, _, hanswers, rfl, rfl, rfl⟩

end PascalScan
