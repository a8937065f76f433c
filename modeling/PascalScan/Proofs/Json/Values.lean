import PascalScan.Json.Skipping
import PascalScan.Proofs.Json.Numbers
import PascalScan.Proofs.Json.Strings

/-!
# `PascalScan.Proofs.Json.Values`: JSON values are passed over

`WellFormed` is the grammar of JSON. It is one inductive predicate with a part as its index: a
value, or what stands between two brackets. A bracket that is not empty holds items with commas
between them, and there may be blanks around each item.

The loop of `PascalScan.Json.Skipping` does not follow this grammar. It has one list of the brackets
that are open, and after each token it decides what is due. So the law (`skipLoop_of_wellFormed`) is
about the loop with any brackets open around the part: where the part is due, the loop passes over
it, and then a separator is due in front of what is left. The brackets around it stay as they are,
so the law of a bracket needs only the law of its inside. With no bracket open this says that
`skipValue` stops right behind a value, however deeply that is nested (`skipValue_of_wellFormed`).
-/

set_option autoImplicit false

namespace PascalScan.Json

open Text

/-! ### The grammar -/

/-- The text has no other characters than the blanks of JSON. -/
def AllBlank (ws : List Char) : Prop := ws ⊆ [' ', '\t', '\n', '\r']

/-- The values that are words. -/
def words : List (List Char) :=
  [['n', 'u', 'l', 'l'], ['t', 'r', 'u', 'e'], ['f', 'a', 'l', 's', 'e']]

/-- The character that opens a bracket. -/
def Bracket.opener : Bracket → Char
  | array => '['
  | object => '{'

/-- The parts of the grammar. -/
inductive Part where
  /-- A value. -/
  | value
  /-- What stands inside a bracket that is not empty. -/
  | items (b : Bracket)

/-- The text can stand for the part. -/
inductive WellFormed : Part → List Char → Prop where
  | word {s : List Char} (hs : s ∈ words) : WellFormed .value s
  | number {s : List Char} (hs : IsNumber s) : WellFormed .value s
  | string {text : List Char} (htext : IsStringText text) :
      WellFormed .value ('"' :: (text ++ ['"']))
  | empty {ws : List Char} (b : Bracket) (hws : AllBlank ws) :
      WellFormed .value (b.opener :: (ws ++ [b.closer]))
  | full {b : Bracket} {s : List Char} (hs : WellFormed (.items b) s) :
      WellFormed .value (b.opener :: (s ++ [b.closer]))
  /-- The item of an array is a value. -/
  | element {s : List Char} (hs : WellFormed .value s) : WellFormed (.items .array) s
  /-- The item of an object is a name, a colon and a value. -/
  | member {name before after s : List Char} (hname : IsStringText name)
      (hbefore : AllBlank before) (hafter : AllBlank after) (hs : WellFormed .value s) :
      WellFormed (.items .object) ('"' :: (name ++ '"' :: (before ++ ':' :: (after ++ s))))
  | padded {b : Bracket} {before s after : List Char} (hbefore : AllBlank before)
      (hafter : AllBlank after) (hs : WellFormed (.items b) s) :
      WellFormed (.items b) (before ++ (s ++ after))
  | more {b : Bracket} {s t : List Char} (hs : WellFormed (.items b) s)
      (ht : WellFormed (.items b) t) : WellFormed (.items b) (s ++ ',' :: t)

/-! ### Blanks -/

/-- There need not be any blanks. -/
theorem allBlank_nil : AllBlank [] := List.nil_subset _

/-- All blanks are blanks to the reader. -/
theorem AllBlank.isBlank {ws : List Char} (h : AllBlank ws) : ∀ c ∈ ws, isBlank c := by
  intro c hc
  exact List.contains_iff_mem.mpr (h hc)

/-- Blanks in front of a text are passed over. -/
theorem dropBlanks_append {ws : List Char} (h : AllBlank ws) (cs : List Char) :
    dropBlanks (ws ++ cs) = dropBlanks cs :=
  List.dropWhile_append_of_pos h.isBlank

/-- Nothing is passed over in front of a character that is no blank. -/
theorem dropBlanks_cons {c : Char} (h : isBlank c = false) (cs : List Char) :
    dropBlanks (c :: cs) = c :: cs :=
  List.dropWhile_cons_of_neg (by simp [h])

/-- A value may end in front of blanks, where it may end behind them. -/
theorem AllBlank.endsValue_append {ws rest : List Char} (h : AllBlank ws) (hrest : EndsValue rest) :
    EndsValue (ws ++ rest) := by
  intro c hc
  cases ws with
  | nil => exact hrest c hc
  | cons d ws =>
    obtain rfl := Option.mem_some_iff.mp hc
    exact List.mem_append_left [',', ']', '}'] (h List.mem_cons_self)

/-! ### How values begin -/

/-- The characters that a value or a member begins with. -/
def valueStarts : List Char := ['n', 't', 'f', '"', '-', '[', '{'] ++ Number.alphabet .decimal

/-- A bracket begins a value. -/
theorem Bracket.opener_mem_valueStarts (b : Bracket) : b.opener ∈ valueStarts := by
  cases b <;> decide

/-- No value begins with a blank or with the end of a bracket. -/
theorem not_blank_nor_closer_of_mem {c : Char} (h : c ∈ valueStarts) (b : Bracket) :
    isBlank c = false ∧ c ≠ b.closer := by
  have hcheck : valueStarts.all fun c => !isBlank c && c != ']' && c != '}' := by decide
  have hc := List.all_eq_true.mp hcheck c h
  simp only [Bool.and_eq_true, Bool.not_eq_true', bne_iff_ne] at hc
  cases b
  · exact ⟨hc.1.1, hc.1.2⟩
  · exact ⟨hc.1.1, hc.2⟩

/-- Each part begins with the start of a value or member, perhaps behind blanks. -/
theorem WellFormed.exists_start {part : Part} {s : List Char} (h : WellFormed part s) :
    ∃ c more, c ∈ valueStarts ∧ ∀ rest, dropBlanks (s ++ rest) = c :: (more ++ rest) := by
  -- Most parts show their first character, and numbers have a digit there.
  have start {c : Char} (hc : c ∈ valueStarts) (more : List Char) :
      ∃ c' more', c' ∈ valueStarts ∧
        ∀ rest, dropBlanks (c :: more ++ rest) = c' :: (more' ++ rest) :=
    ⟨c, more, hc, fun rest => dropBlanks_cons (not_blank_nor_closer_of_mem hc .array).1 _⟩
  have digit {s : List Char} (hs : IsMagnitude s) :
      ∃ c more, c ∈ valueStarts ∧ s = c :: more := by
    obtain ⟨c, more, rfl, hc⟩ := hs.exists_digit
    have hmem : c ∈ Number.alphabet .decimal := Number.isDigitOf_iff_mem_alphabet.mp hc
    exact ⟨c, more, List.mem_append_right _ hmem, rfl⟩
  induction h with
  | word hs =>
    simp only [words, List.mem_cons, List.not_mem_nil, or_false] at hs
    rcases hs with rfl | rfl | rfl <;> exact start (by decide) _
  | number hs =>
    cases hs with
    | positive hs =>
      obtain ⟨c, more, hc, rfl⟩ := digit hs
      exact start hc more
    | negative hs => exact start (by decide) _
  | string => exact start (by decide) _
  | empty b => exact start b.opener_mem_valueStarts _
  | @full b _ _ _ => exact start b.opener_mem_valueStarts _
  | element _ ih => exact ih
  | member => exact start (by decide) _
  -- Blanks in front and a comma behind leave the start of the first item what it is.
  | @padded _ before s after hbefore _ _ ih =>
    obtain ⟨c, more, hc, hs⟩ := ih
    refine ⟨c, more ++ after, hc, fun rest => ?_⟩
    rw [List.append_assoc, dropBlanks_append hbefore, List.append_assoc, hs, List.append_assoc]
  | @more _ s t _ _ ih _ =>
    obtain ⟨c, more, hc, hs⟩ := ih
    refine ⟨c, more ++ ',' :: t, hc, fun rest => ?_⟩
    rw [List.append_assoc, hs, List.append_assoc]

/-! ### One turn of the loop -/

/-- The loop does not see blanks, but for those behind the last bracket. -/
theorem skipLoop_congr {opened : List Bracket} {due : Due} {cs ds : List Char}
    (hopened : due = .separator → opened ≠ []) (h : dropBlanks cs = dropBlanks ds) :
    skipLoop opened due cs = skipLoop opened due ds := by
  rw [skipLoop.eq_def opened due cs, skipLoop.eq_def opened due ds]
  cases due with
  | separator =>
    cases opened with
    | nil => exact absurd rfl (hopened rfl)
    | cons b outer =>
      -- The facts that make the loop end are about `cs`. They have to go before `cs` can.
      simp only
      rw [h]
  | member =>
    simp only
    rw [h]
  | value =>
    simp only
    rw [h]

/-- In front of a value, blanks are passed over. -/
theorem skipLoop_value_append {ws : List Char} (h : AllBlank ws) (opened : List Bracket)
    (cs : List Char) : skipLoop opened .value (ws ++ cs) = skipLoop opened .value cs :=
  skipLoop_congr (by simp) (dropBlanks_append h cs)

/-- So are blanks in front of a comma or of the end of a bracket. -/
theorem skipLoop_separator_append {ws : List Char} (h : AllBlank ws) (b : Bracket)
    (outer : List Bracket) (cs : List Char) :
    skipLoop (b :: outer) .separator (ws ++ cs) = skipLoop (b :: outer) .separator cs :=
  skipLoop_congr (by simp) (dropBlanks_append h cs)

/-- Behind a comma the bracket goes on. -/
theorem skipLoop_comma (b : Bracket) (outer : List Bracket) (cs : List Char) :
    skipLoop (b :: outer) .separator (',' :: cs) = skipLoop (b :: outer) b.due cs := by
  rw [skipLoop]
  simp only
  rw [dropBlanks_cons (by decide)]
  simp

/-- The end of a bracket is read as the separator that is due, and the next bracket goes on. -/
theorem skipLoop_closer (b : Bracket) (outer : List Bracket) (cs : List Char) :
    skipLoop (b :: outer) .separator (b.closer :: cs) = skipLoop outer .separator cs := by
  have hcomma : b.closer ≠ ',' := by cases b <;> decide
  rw [skipLoop]
  simp only
  rw [dropBlanks_cons (by cases b <;> decide)]
  simp [hcomma]

/-- A value that is no array or object is passed over in one turn. -/
theorem skipLoop_of_skipScalar {c : Char} {cs rest : List Char} (hblank : isBlank c = false)
    (hopener : Bracket.ofOpener? c = none) (h : skipScalar (c :: cs) = .ok rest)
    (opened : List Bracket) :
    skipLoop opened .value (c :: cs) = skipLoop opened .separator rest := by
  rw [skipLoop]
  simp only
  rw [dropBlanks_cons hblank]
  simp only [hopener]
  rw [h]

/-- An empty bracket is passed over in one turn. -/
theorem skipLoop_empty {ws : List Char} (h : AllBlank ws) (b : Bracket) (opened : List Bracket)
    (cs : List Char) :
    skipLoop opened .value (b.opener :: (ws ++ b.closer :: cs)) =
      skipLoop opened .separator cs := by
  have hblank := (not_blank_nor_closer_of_mem b.opener_mem_valueStarts b).1
  have hof : Bracket.ofOpener? b.opener = some b := by cases b <;> rfl
  rw [skipLoop]
  simp only
  rw [dropBlanks_cons hblank]
  simp only [hof]
  rw [dropBlanks_append h, dropBlanks_cons (by cases b <;> decide)]
  simp

/-- A bracket that is not empty is open from then on. -/
theorem skipLoop_opener {b : Bracket} {d : Char} {cs more : List Char}
    (h : dropBlanks cs = d :: more) (hd : d ≠ b.closer) (opened : List Bracket) :
    skipLoop opened .value (b.opener :: cs) = skipLoop (b :: opened) b.due cs := by
  have hblank := (not_blank_nor_closer_of_mem b.opener_mem_valueStarts b).1
  have hof : Bracket.ofOpener? b.opener = some b := by cases b <;> rfl
  rw [skipLoop.eq_def opened]
  simp only
  rw [dropBlanks_cons hblank]
  simp only [hof]
  rw [h]
  simp [hd]

/-- A colon is passed over, with the blanks in front of it. -/
theorem skipColon_append {ws : List Char} (h : AllBlank ws) (cs : List Char) :
    skipColon (ws ++ ':' :: cs) = .ok cs := by
  rw [skipColon, dropBlanks_append h, dropBlanks_cons (by decide)]
  rfl

/-- Behind the name and the colon of a member its value is due. -/
theorem skipLoop_member {name before : List Char} (hname : IsStringText name)
    (hbefore : AllBlank before) (opened : List Bracket) (cs : List Char) :
    skipLoop opened .member ('"' :: (name ++ '"' :: (before ++ ':' :: cs))) =
      skipLoop opened .value cs := by
  have hskip : skipName ('"' :: (name ++ '"' :: (before ++ ':' :: cs))) = .ok cs := by
    rw [skipName, Quoted.skip_of_isStringText hname]
    exact skipColon_append hbefore cs
  rw [skipLoop]
  simp only
  rw [dropBlanks_cons (by decide), hskip]

/-! ### Whole parts -/

/-- The three words are passed over. -/
theorem skipScalar_of_mem_words {s : List Char} (h : s ∈ words) (rest : List Char) :
    skipScalar (s ++ rest) = .ok rest := by
  simp only [words, List.mem_cons, List.not_mem_nil, or_false] at h
  rcases h with rfl | rfl | rfl <;> exact expect_eq_ok_iff.mpr rfl

/-- A number is told by its first character, a digit or a minus. -/
theorem skipScalar_of_isNumber {s rest : List Char} (h : IsNumber s) (hrest : EndsValue rest) :
    skipScalar (s ++ rest) = .ok rest := by
  cases h with
  | negative hs => exact Number.skip_append hs hrest
  | positive hs =>
    have hskip := Number.skip_append hs hrest
    obtain ⟨c, more, rfl, hc⟩ := hs.exists_digit
    have hmem : c ∈ Number.alphabet .decimal := Number.isDigitOf_iff_mem_alphabet.mp hc
    -- The branches of the other values are for characters that are no digits.
    have hcheck : (Number.alphabet .decimal).all
        (fun c => c != 'n' && c != 't' && c != 'f' && c != '"' && c != '-') := by decide
    have hother := List.all_eq_true.mp hcheck c hmem
    simp only [Bool.and_eq_true, bne_iff_ne] at hother
    obtain ⟨⟨⟨⟨hn, ht⟩, hf⟩, hquote⟩, hminus⟩ := hother
    rw [List.cons_append, skipScalar, if_pos hc]
    · exact hskip
    all_goals assumption

/-- The brackets that are open where a part is due. -/
def Part.opened (outer : List Bracket) : Part → List Bracket
  | value => outer
  | items b => b :: outer

/-- What the loop calls a part that is due. -/
def Part.due : Part → Due
  | value => .value
  | items b => b.due

/-- Where a part is due, the loop passes over it, and then a separator is due. -/
theorem skipLoop_of_wellFormed {part : Part} {s : List Char} (h : WellFormed part s) :
    ∀ (outer : List Bracket) (rest : List Char), EndsValue rest →
      skipLoop (part.opened outer) part.due (s ++ rest) =
        skipLoop (part.opened outer) .separator rest := by
  induction h with
  | word hs =>
    intro outer rest _
    have hskip := skipScalar_of_mem_words hs rest
    simp only [words, List.mem_cons, List.not_mem_nil, or_false] at hs
    rcases hs with rfl | rfl | rfl <;> exact skipLoop_of_skipScalar (by decide) rfl hskip outer
  | number hs =>
    intro outer rest hrest
    have hskip := skipScalar_of_isNumber hs hrest
    cases hs with
    | negative => exact skipLoop_of_skipScalar (by decide) rfl hskip outer
    | positive hs =>
      obtain ⟨c, more, rfl, hc⟩ := hs.exists_digit
      have hmem : c ∈ Number.alphabet .decimal := Number.isDigitOf_iff_mem_alphabet.mp hc
      have hcheck : (Number.alphabet .decimal).all
          (fun c => !isBlank c && Bracket.ofOpener? c == none) := by decide
      have hother := List.all_eq_true.mp hcheck c hmem
      simp only [Bool.and_eq_true, Bool.not_eq_true', beq_iff_eq] at hother
      exact skipLoop_of_skipScalar hother.1 hother.2 hskip outer
  | @string text htext =>
    intro outer rest _
    have hskip : skipScalar ('"' :: (text ++ '"' :: rest)) = .ok rest :=
      Quoted.skip_of_isStringText htext rest
    rw [List.cons_append, List.append_assoc]
    exact skipLoop_of_skipScalar (by decide) rfl hskip outer
  | empty b hws =>
    intro outer rest _
    rw [List.cons_append, List.append_assoc]
    exact skipLoop_empty hws b outer rest
  | @full b s hs ih =>
    intro outer rest _
    obtain ⟨c, more, hc, hstart⟩ := hs.exists_start
    have hends : EndsValue (b.closer :: rest) := endsValue_cons (by cases b <;> decide) rest
    rw [List.cons_append, List.append_assoc]
    -- The inside does not begin with the closer, so the loop does not take the bracket for empty.
    calc skipLoop outer .value (b.opener :: (s ++ b.closer :: rest))
        = skipLoop (b :: outer) b.due (s ++ b.closer :: rest) :=
          skipLoop_opener (hstart _) (not_blank_nor_closer_of_mem hc b).2 outer
      _ = skipLoop (b :: outer) .separator (b.closer :: rest) := ih outer _ hends
      _ = skipLoop outer .separator rest := skipLoop_closer b outer rest
  | element _ ih =>
    intro outer rest hrest
    -- In an array a value is due at once, with the array as one more bracket around it.
    exact ih (.array :: outer) rest hrest
  | @member name before after s hname hbefore hafter _ ih =>
    intro outer rest hrest
    -- The value of a member is due with the object open around it.
    simp only [List.cons_append, List.append_assoc]
    calc skipLoop (.object :: outer) .member
          ('"' :: (name ++ '"' :: (before ++ ':' :: (after ++ (s ++ rest)))))
        = skipLoop (.object :: outer) .value (after ++ (s ++ rest)) :=
          skipLoop_member hname hbefore _ _
      _ = skipLoop (.object :: outer) .value (s ++ rest) := skipLoop_value_append hafter _ _
      _ = skipLoop (.object :: outer) .separator rest := ih (.object :: outer) rest hrest
  | @padded b before s after hbefore hafter _ ih =>
    intro outer rest hrest
    have hdue : b.due = .separator → b :: outer ≠ [] := fun _ => List.cons_ne_nil b outer
    rw [List.append_assoc, List.append_assoc]
    calc skipLoop (b :: outer) b.due (before ++ (s ++ (after ++ rest)))
        = skipLoop (b :: outer) b.due (s ++ (after ++ rest)) :=
          skipLoop_congr hdue (dropBlanks_append hbefore _)
      _ = skipLoop (b :: outer) .separator (after ++ rest) :=
          ih outer _ (hafter.endsValue_append hrest)
      _ = skipLoop (b :: outer) .separator rest := skipLoop_separator_append hafter b outer rest
  | @more b s t _ _ ihs iht =>
    intro outer rest hrest
    have hcomma : EndsValue (',' :: (t ++ rest)) := endsValue_cons (by decide) _
    rw [List.append_assoc, List.cons_append]
    calc skipLoop (b :: outer) b.due (s ++ ',' :: (t ++ rest))
        = skipLoop (b :: outer) .separator (',' :: (t ++ rest)) := ihs outer _ hcomma
      _ = skipLoop (b :: outer) b.due (t ++ rest) := skipLoop_comma b outer _
      _ = skipLoop (b :: outer) .separator rest := iht outer rest hrest

/-- A value is passed over, with the blanks in front of it and nothing behind it. -/
theorem skipValue_of_wellFormed {before s rest : List Char} (hbefore : AllBlank before)
    (hs : WellFormed .value s) (hrest : EndsValue rest) :
    skipValue (before ++ (s ++ rest)) = .ok rest := by
  calc skipValue (before ++ (s ++ rest))
      = skipLoop [] .value (s ++ rest) := skipLoop_value_append hbefore [] _
    _ = skipLoop [] .separator rest := skipLoop_of_wellFormed hs [] rest hrest
    _ = .ok rest := by rw [skipLoop]

end PascalScan.Json
