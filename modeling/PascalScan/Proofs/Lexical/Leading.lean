import PascalScan.Lexical.Recognizer
import PascalScan.Proofs.Lexical.Asking
import PascalScan.Proofs.Text.Ascii
import PascalScan.Proofs.Text.Steps

/-!
# `PascalScan.Proofs.Lexical.Leading`: the characters that a class starts with

A class looks at the first character and gives up on most of them. `Recognizer.leads` tells which
characters it takes a closer look at, and `leads_of_getsOn` says that it gets nowhere at others:
it does not match, and its failure points no further than where it was asked.

Few characters lead more than one class, and these are the only places where the order in which
the classes are tried could matter.

* An ampersand leads names and numbers. The character behind it decides, so apart from punctuation
  at most one class matches (`eq_of_run_of_run`).
* The signs, the slash and the parenthesis lead punctuation, and numbers or comments as well. A
  number or a comment is then at least as long (`of_run_of_run_symbol`).

Failures are even less of a conflict: at most one class fails further on than where it was asked
(`eq_of_near_misses`).
-/

set_option autoImplicit false

namespace PascalScan

open Text

/-! ### Leading characters -/

/-- The class takes a closer look at what starts with the character. -/
def Recognizer.leads : Recognizer → Char → Bool
  | .comment, ch => ch == '{' || ch == '(' || ch == '/'
  | .string, ch => Quoted.isQuote ch || Quoted.isCodeMark ch
  | .identifier, ch => Name.isMark ch || isNameStart ch
  | .number, ch => isSign ch || (Number.baseOfMarker? ch).isSome || isDigit ch
  | .symbol, ch => isSymbol ch
  | .blank, ch => isBlank ch

/-- Every class is among those that an editor tries. -/
theorem Recognizer.mem_all (r : Recognizer) : r ∈ Recognizer.all := by
  cases r <;> decide

/-- No class starts with a character beyond ASCII. -/
theorem Recognizer.isAscii_of_leads {r : Recognizer} {ch : Char} (h : r.leads ch) :
    IsAscii ch := by
  -- Each class names its few marks, or a class of characters that are in ASCII.
  cases r with
  | comment =>
    simp only [leads, Bool.or_eq_true, beq_iff_eq] at h
    rcases h with (rfl | rfl) | rfl <;> decide
  | string =>
    simp only [leads, Quoted.isQuote, Quoted.isCodeMark, Bool.or_eq_true, beq_iff_eq] at h
    rcases h with rfl | rfl <;> decide
  | identifier =>
    simp only [leads, Name.isMark, Bool.or_eq_true, beq_iff_eq] at h
    rcases h with rfl | h
    · decide
    · exact isAscii_of_isNameStart h
  | number =>
    simp only [leads, Bool.or_eq_true] at h
    rcases h with (h | h) | h
    · exact isAscii_of_isSign h
    · unfold Number.baseOfMarker? at h
      split at h <;> first | decide | cases h
    · exact isAscii_of_isDigit h
  | symbol => exact isAscii_of_isSymbol h
  | blank => exact isAscii_of_isBlank h

/-- Apart from punctuation, only an ampersand leads two classes. -/
theorem Recognizer.eq_of_leads_of_leads {q r : Recognizer} {ch : Char} (hq : q ≠ .symbol)
    (hr : r ≠ .symbol) (hqch : q.leads ch) (hrch : r.leads ch) : q = r ∨ ch = '&' := by
  -- For each ASCII character, all pairs of classes are checked.
  have hcheck := forall_ascii
    (P := fun ch => ∀ q ∈ all, ∀ r ∈ all, q ≠ .symbol ∧ r ≠ .symbol ∧ q.leads ch ∧ r.leads ch →
      q = r ∨ ch = '&')
    (by decide +kernel)
  exact hcheck ch (isAscii_of_leads hqch) q q.mem_all r r.mem_all ⟨hq, hr, hqch, hrch⟩

/-- What leads punctuation and another class leads comments or is a sign. -/
theorem Recognizer.of_leads_of_leads_symbol {r : Recognizer} {ch : Char} (hr : r ≠ .symbol)
    (hrch : r.leads ch) (hch : symbol.leads ch) :
    r = .comment ∧ ch ≠ '{' ∨ r = .number ∧ isSign ch := by
  have hcheck := forall_ascii
    (P := fun ch => ∀ r ∈ all, r ≠ .symbol ∧ r.leads ch ∧ symbol.leads ch →
      r = .comment ∧ ch ≠ '{' ∨ r = .number ∧ isSign ch)
    (by decide +kernel)
  exact hcheck ch (isAscii_of_leads hrch) r r.mem_all ⟨hr, hrch, hch⟩

/-- An ampersand leads names and numbers only. -/
theorem Recognizer.of_leads_ampersand {r : Recognizer} (h : r.leads '&') :
    r = .identifier ∨ r = .number := by
  revert h
  cases r <;> decide

/-! ### Getting nowhere -/

/-- The attempt at a cursor matches, or it fails but points further on. -/
def GetsOn (c : Cursor) : Attempt → Prop
  | .ok _ => True
  | .error f => c.pos < f.furthest

/-- A failure on the spot gets nowhere. -/
theorem not_getsOn_onSpot {c : Cursor} {cause : Cause} :
    ¬ GetsOn c (.error (.onSpot cause c.pos)) :=
  Nat.lt_irrefl c.pos

/-- What matches gets on. -/
theorem Recognizer.getsOn_of_run {r : Recognizer} {c : Cursor} {m : Match} (h : r.run c = .ok m) :
    GetsOn c (r.run c) := by
  rw [h]
  trivial

/-- A comment starts with a brace, a parenthesis or a slash. -/
theorem Comment.leads_of_getsOn {c : Cursor} (h : GetsOn c (recognize c)) :
    ∃ ch ∈ c.rest.head?, Recognizer.comment.leads ch := by
  unfold recognize at h
  split at h
  next cs hrest => exact ⟨'/', by simp [hrest], by decide⟩
  next cs hrest => exact ⟨'/', by simp [hrest], by decide⟩
  next cs hrest => exact ⟨'{', by simp [hrest], by decide⟩
  next cs hrest => exact ⟨'(', by simp [hrest], by decide⟩
  next hrest => exact ⟨'(', by simp [hrest], by decide⟩
  next cs _ _ hrest => exact ⟨'(', by simp [hrest], by decide⟩
  next => exact absurd h not_getsOn_onSpot

/-- A string starts with a quote or the mark of a character code. -/
theorem Quoted.leads_of_getsOn {c : Cursor} (h : GetsOn c (recognize c)) :
    ∃ ch ∈ c.rest.head?, Recognizer.string.leads ch := by
  cases hquote : c.eat isQuote with
  | some opened =>
    obtain ⟨ch, hch, hp⟩ := Cursor.exists_head_of_eat hquote
    exact ⟨ch, hch, by simp [Recognizer.leads, hp]⟩
  | none =>
    cases hmark : c.eat isCodeMark with
    | some marked =>
      obtain ⟨ch, hch, hp⟩ := Cursor.exists_head_of_eat hmark
      exact ⟨ch, hch, by simp [Recognizer.leads, hp]⟩
    | none =>
      -- With neither a quote nor a mark, the failure is on the spot.
      have hnone : segment c.pos c = .ok none := by
        unfold segment
        rw [hquote, hmark]
      unfold recognize at h
      rw [hnone] at h
      exact absurd h not_getsOn_onSpot

/-- A name starts with its mark, a letter or an underscore. -/
theorem Name.leads_of_getsOn {c : Cursor} (h : GetsOn c (recognize c)) :
    ∃ ch ∈ c.rest.head?, Recognizer.identifier.leads ch := by
  unfold recognize at h
  split at h
  next marked hmarked =>
    obtain ⟨ch, hch, hp⟩ := Cursor.exists_head_of_eat hmarked
    exact ⟨ch, hch, by simp [Recognizer.leads, hp]⟩
  next =>
    split at h
    next next hnext =>
      obtain ⟨ch, hch, hp⟩ := Cursor.exists_head_of_eatRun hnext
      exact ⟨ch, hch, by simp [Recognizer.leads, hp]⟩
    next => exact absurd h not_getsOn_onSpot

/-- A number starts with a sign, the marker of a base or a digit. -/
theorem Number.leads_of_getsOn {c : Cursor} (h : GetsOn c (recognize c)) :
    ∃ ch ∈ c.rest.head?, Recognizer.number.leads ch := by
  unfold recognize at h
  cases hsign : c.eat isSign with
  | some signed =>
    obtain ⟨ch, hch, hp⟩ := Cursor.exists_head_of_eat hsign
    exact ⟨ch, hch, by simp [Recognizer.leads, hp]⟩
  | none =>
    rw [Cursor.eatOptional, hsign, Option.getD_none] at h
    unfold unsigned at h
    split at h
    next => exact absurd h not_getsOn_onSpot
    next d ds hrest =>
      split at h
      next base hbase => exact ⟨d, by simp [hrest], by simp [Recognizer.leads, hbase]⟩
      next =>
        -- Without a sign and a marker, a number starts with its digits.
        cases hrun : c.eatRun isDigit isDigit with
        | some whole =>
          obtain ⟨ch, hch, hp⟩ := Cursor.exists_head_of_eatRun hrun
          exact ⟨ch, hch, by simp [Recognizer.leads, hp]⟩
        | none =>
          have hdigits : digits .decimal c = .error (.onSpot .digitExpected c.pos) := by
            unfold digits
            rw [show isDigitOf .decimal = isDigit from rfl, hrun]
          unfold decimal at h
          rw [hdigits] at h
          exact absurd h not_getsOn_onSpot

/-- An operator of two characters starts with a mark of one. -/
theorem Punctuation.isSymbol_of_isSymbolPair {a b : Char} (h : isSymbolPair a b) : isSymbol a := by
  have hcheck : ∀ p ∈ symbolPairs, isSymbol p.1 := by decide
  exact hcheck (a, b) (List.contains_iff_mem.mp h)

/-- Punctuation starts with a mark of one character. -/
theorem Punctuation.leads_of_getsOn {c : Cursor} (h : GetsOn c (recognize c)) :
    ∃ ch ∈ c.rest.head?, Recognizer.symbol.leads ch := by
  have hsingle (h : GetsOn c (recognizeSingle c)) :
      ∃ ch ∈ c.rest.head?, Recognizer.symbol.leads ch := by
    unfold recognizeSingle at h
    split at h
    next next hnext => exact Cursor.exists_head_of_eat hnext
    next => exact absurd h not_getsOn_onSpot
  unfold recognize at h
  split at h
  next a b rest hrest =>
    split at h
    -- A pair begins with one of the marks.
    next hpair => exact ⟨a, by simp [hrest], isSymbol_of_isSymbolPair hpair⟩
    next => exact hsingle h
  next => exact hsingle h

/-- A run of blanks starts with one. -/
theorem Blank.leads_of_getsOn {c : Cursor} (h : GetsOn c (recognize c)) :
    ∃ ch ∈ c.rest.head?, Recognizer.blank.leads ch := by
  unfold recognize at h
  split at h
  next next hnext => exact Cursor.exists_head_of_eatRun hnext
  next => exact absurd h not_getsOn_onSpot

/-- A class gets on only where a character stands that leads it. -/
theorem Recognizer.leads_of_getsOn {r : Recognizer} {c : Cursor} (h : GetsOn c (r.run c)) :
    ∃ ch ∈ c.rest.head?, r.leads ch := by
  -- At the end of the text no class gets on.
  by_cases hrest : c.rest = []
  · rw [run_of_rest_eq_nil hrest] at h
    exact absurd h not_getsOn_onSpot
  rw [run_of_rest_ne_nil hrest] at h
  cases r with
  | comment => exact Comment.leads_of_getsOn h
  | string => exact Quoted.leads_of_getsOn h
  | identifier => exact Name.leads_of_getsOn h
  | number => exact Number.leads_of_getsOn h
  | symbol => exact Punctuation.leads_of_getsOn h
  | blank => exact Blank.leads_of_getsOn h

/-- Where two classes get on, one character leads both. -/
theorem Recognizer.exists_common_lead {q r : Recognizer} {c : Cursor} (hq : GetsOn c (q.run c))
    (hr : GetsOn c (r.run c)) : ∃ ch ∈ c.rest.head?, q.leads ch ∧ r.leads ch := by
  obtain ⟨ch, hch, hqch⟩ := leads_of_getsOn hq
  obtain ⟨ch', hch', hrch⟩ := leads_of_getsOn hr
  obtain rfl : ch = ch' := Option.mem_unique hch hch'
  exact ⟨ch, hch, hqch, hrch⟩

/-! ### Classes that match at the same place -/

/-- A name that begins with an ampersand goes on with a letter or an underscore. -/
theorem Name.isNameStart_of_recognize {c : Cursor} {m : Match} {cs : List Char}
    (h : recognize c = .ok m) (hrest : c.rest = '&' :: cs) : ∃ ch ∈ cs.head?, isNameStart ch := by
  have hmark : c.eat isMark = some ⟨c.pos + '&'.utf8Size, cs⟩ :=
    Cursor.eat_eq_some_iff.mpr ⟨'&', by decide, hrest, by simp⟩
  unfold recognize at h
  rw [hmark] at h
  dsimp only at h
  split at h
  next next hnext => exact Cursor.exists_head_of_eatRun hnext
  next => cases h

/-- A number that begins with an ampersand goes on with an octal digit. -/
theorem Number.isOctalDigit_of_recognize {c : Cursor} {m : Match} {cs : List Char}
    (h : recognize c = .ok m) (hrest : c.rest = '&' :: cs) : ∃ ch ∈ cs.head?, isOctalDigit ch := by
  -- The ampersand is no sign, so it is the marker of the octal digits.
  have hsign : c.eat isSign = none :=
    Cursor.eat_eq_none_iff.mpr (by simp [hrest, isSign])
  unfold recognize at h
  rw [Cursor.eatOptional, hsign, Option.getD_none] at h
  unfold unsigned at h
  rw [hrest] at h
  dsimp only at h
  rw [show baseOfMarker? '&' = some .octal from rfl] at h
  dsimp only at h
  split at h
  next next hdigits =>
    unfold digits at hdigits
    split at hdigits
    next next' hnext => exact Cursor.exists_head_of_eatRun hnext
    next => cases hdigits
  next => cases h

/-- Where both a name and a number matched, there would be no ampersand. -/
theorem Recognizer.not_identifier_and_number {c : Cursor} {m n : Match} {cs : List Char}
    (hm : identifier.run c = .ok m) (hn : number.run c = .ok n) : c.rest ≠ '&' :: cs := by
  intro hrest
  obtain ⟨ch, hch, hname⟩ := Name.isNameStart_of_recognize (recognizeAt_of_run hm) hrest
  obtain ⟨ch', hch', hoctal⟩ := Number.isOctalDigit_of_recognize (recognizeAt_of_run hn) hrest
  obtain rfl : ch = ch' := Option.mem_unique hch hch'
  have hcheck := forall_ascii (P := fun ch => isNameStart ch → ¬ isOctalDigit ch)
    (by decide +kernel)
  exact hcheck ch (isAscii_of_isNameStart hname) hname hoctal

/-- Of the classes other than punctuation, at most one matches at a place. -/
theorem Recognizer.eq_of_run_of_run {q r : Recognizer} {c : Cursor} {m n : Match}
    (hq : q ≠ .symbol) (hr : r ≠ .symbol) (hm : q.run c = .ok m) (hn : r.run c = .ok n) :
    q = r := by
  obtain ⟨ch, hch, hqch, hrch⟩ := exists_common_lead (getsOn_of_run hm) (getsOn_of_run hn)
  rcases eq_of_leads_of_leads hq hr hqch hrch with heq | rfl
  · exact heq
  · -- An ampersand leads both names and numbers, but does not start both at one place.
    obtain ⟨cs, hrest⟩ := List.head?_eq_some_iff.mp hch
    rcases of_leads_ampersand hqch with rfl | rfl <;> rcases of_leads_ampersand hrch with rfl | rfl
    · rfl
    · exact absurd hrest (not_identifier_and_number hm hn)
    · exact absurd hrest (not_identifier_and_number hn hm)
    · rfl

/-- Punctuation reads two bytes at most. -/
theorem Punctuation.pos_le_of_recognize {c : Cursor} {m : Match} (h : recognize c = .ok m) :
    m.next.pos ≤ c.pos + 2 := by
  have hsingle (h : recognizeSingle c = .ok m) : m.next.pos ≤ c.pos + 2 := by
    unfold recognizeSingle at h
    split at h
    next next hnext =>
      cases h
      obtain ⟨ch, hch, -, hpos⟩ := Cursor.eat_eq_some_iff.mp hnext
      have hsize := (isAscii_of_isSymbol hch).utf8Size_eq_one
      simp only [byteSize_cons, byteSize_nil] at hpos
      show next.pos ≤ c.pos + 2
      omega
    next => cases h
  unfold recognize at h
  split at h
  next a b rest _ =>
    split at h
    next hpair =>
      cases h
      -- All pairs in the table take two bytes.
      have hcheck : ∀ p ∈ symbolPairs, byteSize [p.1, p.2] ≤ 2 := by decide
      exact Nat.add_le_add_left (hcheck (a, b) (List.contains_iff_mem.mp hpair)) c.pos
    next => exact hsingle h
  next => exact hsingle h

/-- A comment that does not open with a brace is at least two bytes long. -/
theorem Comment.le_pos_of_recognize {c : Cursor} {m : Match} (h : recognize c = .ok m)
    (hbrace : '{' ∉ c.rest.head?) : c.pos + 2 ≤ m.next.pos := by
  -- The openers other than the brace take two bytes, and the scan does not go back.
  have hscan {line : Bool} {top : Frame} {cs : List Char}
      (h : scan line top [] (c.pos + 2) cs = .ok m) : c.pos + 2 ≤ m.next.pos := by
    obtain ⟨s, hs⟩ := scan_reads h
    exact hs.pos_le
  unfold recognize at h
  split at h
  next => exact hscan h
  next => cases h
  next cs hrest => simp [hrest] at hbrace
  next => exact hscan h
  all_goals cases h

/-- A number with a sign is at least two bytes long. -/
theorem Number.le_pos_of_recognize {c : Cursor} {m : Match} {ch : Char} (h : recognize c = .ok m)
    (hch : ch ∈ c.rest.head?) (hsign : isSign ch) : c.pos + 2 ≤ m.next.pos := by
  obtain ⟨cs, hrest⟩ := List.head?_eq_some_iff.mp hch
  have hread : c.Reads [ch] ⟨c.pos + ch.utf8Size, cs⟩ := ⟨hrest, by simp⟩
  have heat : c.eat isSign = some ⟨c.pos + ch.utf8Size, cs⟩ :=
    Cursor.eat_eq_some_iff.mpr ⟨ch, hsign, hread⟩
  unfold recognize at h
  rw [Cursor.eatOptional, heat, Option.getD_some] at h
  -- Behind the sign there is at least a digit.
  obtain ⟨s, hs, hreads⟩ := readsFrom_of_unsigned h
  have hlt : c.pos + ch.utf8Size < m.next.pos := hreads.pos_lt hs
  have hsize := (isAscii_of_isSign hsign).utf8Size_eq_one
  omega

/-- Punctuation matches together with comments and numbers only, and is not the longer one. -/
theorem Recognizer.of_run_of_run_symbol {r : Recognizer} {c : Cursor} {m n : Match}
    (hr : r ≠ .symbol) (hm : r.run c = .ok m) (hn : symbol.run c = .ok n) :
    (r = .comment ∨ r = .number) ∧ n.next.pos ≤ m.next.pos := by
  obtain ⟨ch, hch, hrch, hsymbol⟩ := exists_common_lead (getsOn_of_run hm) (getsOn_of_run hn)
  -- Two bytes are the most for punctuation and the least for the other.
  have hshort := Punctuation.pos_le_of_recognize (recognizeAt_of_run hn)
  rcases of_leads_of_leads_symbol hr hrch hsymbol with ⟨rfl, hbrace⟩ | ⟨rfl, hsign⟩
  · have hlong := Comment.le_pos_of_recognize (recognizeAt_of_run hm)
      fun hmem => hbrace (Option.mem_unique hch hmem)
    exact ⟨.inl rfl, Nat.le_trans hshort hlong⟩
  · have hlong := Number.le_pos_of_recognize (recognizeAt_of_run hm) hch hsign
    exact ⟨.inr rfl, Nat.le_trans hshort hlong⟩

/-! ### Classes that fail beyond the same place -/

/-- Without a name, the failure is on the spot. -/
theorem Name.furthest_of_recognize {c : Cursor} {f : Failure} (h : recognize c = .error f) :
    f.furthest = c.pos := by
  unfold recognize at h
  repeat' split at h
  all_goals cases h
  all_goals rfl

/-- Without a mark, the failure is on the spot. -/
theorem Punctuation.furthest_of_recognize {c : Cursor} {f : Failure} (h : recognize c = .error f) :
    f.furthest = c.pos := by
  unfold recognize recognizeSingle at h
  repeat' split at h
  all_goals cases h
  all_goals rfl

/-- A class that fails further on makes neither names nor punctuation. -/
theorem Recognizer.ne_of_near_miss {r : Recognizer} {c : Cursor} {f : Failure}
    (h : r.run c = .error f) (hfar : c.pos < f.furthest) : r ≠ .identifier ∧ r ≠ .symbol := by
  have hrest : c.rest ≠ [] := by
    intro hnil
    rw [run_of_rest_eq_nil hnil] at h
    cases h
    exact Nat.lt_irrefl _ hfar
  rw [run_of_rest_ne_nil hrest] at h
  -- Names and punctuation fail without having looked any further.
  constructor
  · rintro rfl
    exact Nat.ne_of_gt hfar (Name.furthest_of_recognize h)
  · rintro rfl
    exact Nat.ne_of_gt hfar (Punctuation.furthest_of_recognize h)

/-- At most one class fails further on than where it was asked. -/
theorem Recognizer.eq_of_near_misses {q r : Recognizer} {c : Cursor} {f g : Failure}
    (hq : q.run c = .error f) (hf : c.pos < f.furthest) (hr : r.run c = .error g)
    (hg : c.pos < g.furthest) : q = r := by
  have hqon : GetsOn c (q.run c) := by rwa [hq]
  have hron : GetsOn c (r.run c) := by rwa [hr]
  obtain ⟨ch, -, hqch, hrch⟩ := exists_common_lead hqon hron
  obtain ⟨hqname, hqsymbol⟩ := ne_of_near_miss hq hf
  obtain ⟨hrname, hrsymbol⟩ := ne_of_near_miss hr hg
  rcases eq_of_leads_of_leads hqsymbol hrsymbol hqch hrch with heq | rfl
  · exact heq
  · -- Neither makes names, so both make numbers.
    have hqnumber := (of_leads_ampersand hqch).resolve_left hqname
    have hrnumber := (of_leads_ampersand hrch).resolve_left hrname
    rw [hqnumber, hrnumber]

end PascalScan
