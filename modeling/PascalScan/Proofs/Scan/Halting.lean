import PascalScan.Proofs.Lexical.Failing
import PascalScan.Proofs.Lexical.MissingDigits
import PascalScan.Proofs.Scan.Order
import PascalScan.Proofs.Scan.Reach

/-!
# `PascalScan.Proofs.Scan.Halting`: where a scan halts, and what it reports

A scan halts where no class matches. That is a statement about five classes and about the failure
that the scan picks among theirs. `Obstacle` puts it in terms of the text: there are five kinds of
places where a scan halts. `Obstacle.Blocks` says what stands at such a place, and
`Obstacle.Reports` what the failure is.

* `Obstacle.Blocks.step_eq_halt`: at an obstacle a step halts, with the report of the obstacle. Of
  the classes that make tokens, only one takes a closer look at the character there, or only names
  and numbers do, so its failure is the one that is picked.
* `Obstacle.exists_blocks_of_halt`: where a step halts there is an obstacle.
* `Obstacle.Blocks.unique`: no two obstacles are at one place. The character there tells them apart.

Many failures that look as serious stop no scan, because punctuation matches at the place: a block
comment that opens with a parenthesis and is not closed, a single slash, a number behind a sign.
-/

set_option autoImplicit false

namespace PascalScan

open Text

/-! ### Obstacles -/

/-- The characters, other than letters, digits and punctuation, that some class starts with. -/
def marks : List Char := ['{', '\'', '#', '$', '%', '&']

/-- No class starts with the character, and it is no blank. -/
def startsNothing (ch : Char) : Bool :=
  !isBlank ch && !isNamePart ch && !isSymbol ch && !marks.contains ch

/-- The character is the marker of a base, and the next one does not go on with a number, nor with a
name behind an ampersand. -/
def LacksDigit (marker : Char) (next : Option Char) : Prop :=
  marker = '$' ∧ (∀ d ∈ next, isHexDigit d = false) ∨
  marker = '%' ∧ (∀ d ∈ next, isBinaryDigit d = false) ∨
  marker = '&' ∧ ∀ d ∈ next, isOctalDigit d = false ∧ isNameStart d = false

/-- What a scan cannot get past. -/
inductive Obstacle where
  /-- A comment in braces that is not closed. -/
  | openBrace
  /-- A string with a defect. -/
  | badString
  /-- The marker of a base without a digit. -/
  | noDigit
  /-- A number whose exponent has no digits. -/
  | openExponent
  /-- A character that starts nothing. -/
  | stray
  deriving DecidableEq

namespace Obstacle

/-- The characters that an obstacle starts with. -/
def starts : Obstacle → Char → Bool
  | openBrace, ch => ch == '{'
  | badString, ch => ch == '\'' || ch == '#'
  | noDigit, ch => ch == '$' || ch == '%' || ch == '&'
  | openExponent, ch => isDigit ch
  | stray, ch => startsNothing ch

/-- The obstacle is at the cursor. -/
def Blocks : Obstacle → Cursor → Prop
  | openBrace, c => '{' ∈ c.rest.head? ∧ ∀ s, s <+: c.rest → ¬ Comment.Complete .brace s
  | badString, c =>
    (∃ ch ∈ c.rest.head?, ch = '\'' ∨ ch = '#') ∧ ∃ f, Recognizer.string.run c = .error f
  | noDigit, c => ∃ ch cs, c.rest = ch :: cs ∧ LacksDigit ch cs.head?
  | openExponent, c => (∃ ch ∈ c.rest.head?, isDigit ch) ∧ ∃ e, Number.OpenExponent c e
  | stray, c => ∃ ch ∈ c.rest.head?, startsNothing ch

/-- The failure is what a scan of `text` reports about the obstacle. -/
def Reports (text : List Char) : Obstacle → Cursor → Failure → Prop
  | openBrace, c, f => ∃ opened opens e,
    c.Reads CommentForm.brace.opener opened ∧ Comment.Unclosed .brace opened opens e ∧
    f = ⟨.unfinishedComment (⟨.brace, c.pos⟩ :: opens), c.pos, byteSize text⟩
  | badString, c, f => Recognizer.string.run c = .error f ∧ c.pos < f.furthest ∧
    (f.Says "Unclosed quote" c.pos f.furthest ∨
      f.Says "An unsigned integer expected" f.furthest f.furthest)
  | noDigit, c, f =>
    f.Says "The number must contain at least one digit" (c.pos + 1) (c.pos + 1)
  | openExponent, c, f => ∃ e, Number.OpenExponent c e ∧
    f.Says "There must be at least one digit after the exponent" e.pos e.pos
  | stray, c, f => f.Says "Invalid sequence" c.pos c.pos

/-! ### The first character -/

/-- An obstacle starts with one of its characters. -/
theorem Blocks.exists_head {o : Obstacle} {c : Cursor} (h : o.Blocks c) :
    ∃ ch ∈ c.rest.head?, o.starts ch := by
  cases o with
  | openBrace => exact ⟨'{', h.1, rfl⟩
  | badString =>
    obtain ⟨⟨ch, hch, rfl | rfl⟩, -⟩ := h
    · exact ⟨_, hch, rfl⟩
    · exact ⟨_, hch, rfl⟩
  | noDigit =>
    obtain ⟨ch, cs, hrest, ⟨rfl, -⟩ | ⟨rfl, -⟩ | ⟨rfl, -⟩⟩ := h
    all_goals exact ⟨_, by rw [hrest]; rfl, rfl⟩
  | openExponent => exact h.1
  | stray => exact h

/-- All obstacles but a stray character start with an ASCII character. -/
theorem isAscii_of_starts {o : Obstacle} {ch : Char} (ho : o ≠ stray) (h : o.starts ch) :
    IsAscii ch := by
  cases o with
  | openBrace =>
    obtain rfl := beq_iff_eq.mp h
    decide
  | badString =>
    simp only [starts, Bool.or_eq_true, beq_iff_eq] at h
    rcases h with rfl | rfl <;> decide
  | noDigit =>
    simp only [starts, Bool.or_eq_true, beq_iff_eq] at h
    rcases h with (rfl | rfl) | rfl <;> decide
  | openExponent => exact isAscii_of_isDigit h
  | stray => contradiction

/-- The obstacles, for checks one by one. -/
def all : List Obstacle := [openBrace, badString, noDigit, openExponent, stray]

/-- These are all kinds of obstacles. -/
theorem mem_all (o : Obstacle) : o ∈ all := by
  cases o <;> decide

/-- No character starts two obstacles. -/
theorem eq_of_starts {o o' : Obstacle} {ch : Char} (h : o.starts ch) (h' : o'.starts ch) :
    o = o' := by
  have hcheck := forall_ascii
    (P := fun ch => ∀ o ∈ all, ∀ o' ∈ all, o.starts ch ∧ o'.starts ch → o = o')
    (by decide +kernel)
  by_cases ho : o = stray
  · by_cases ho' : o' = stray
    · rw [ho, ho']
    · exact hcheck ch (isAscii_of_starts ho' h') o o.mem_all o' o'.mem_all ⟨h, h'⟩
  · exact hcheck ch (isAscii_of_starts ho h) o o.mem_all o' o'.mem_all ⟨h, h'⟩

/-- No two obstacles are at one place. -/
theorem Blocks.unique {o o' : Obstacle} {c : Cursor} (h : o.Blocks c) (h' : o'.Blocks c) :
    o = o' := by
  obtain ⟨ch, hch, hstarts⟩ := h.exists_head
  obtain ⟨ch', hch', hstarts'⟩ := h'.exists_head
  obtain rfl : ch = ch' := Option.mem_unique hch hch'
  exact eq_of_starts hstarts hstarts'

/-- A character is a blank, starts a name, is a mark of punctuation or starts an obstacle. -/
theorem cases_of_char (ch : Char) :
    isBlank ch ∨ isNameStart ch ∨ isSymbol ch ∨ ∃ o : Obstacle, o.starts ch := by
  by_cases hblank : isBlank ch
  · exact .inl hblank
  by_cases hname : isNameStart ch
  · exact .inr (.inl hname)
  by_cases hsymbol : isSymbol ch
  · exact .inr (.inr (.inl hsymbol))
  refine .inr (.inr (.inr ?_))
  -- What is left may start a number, be a mark of another class, or be stray.
  by_cases hdigit : isDigit ch
  · exact ⟨openExponent, hdigit⟩
  by_cases hmark : marks.contains ch
  · have hcheck : marks.all fun x => all.any fun o => o.starts x := by decide
    have hany := List.all_eq_true.mp hcheck ch (List.contains_iff_mem.mp hmark)
    obtain ⟨o, -, ho⟩ := List.any_eq_true.mp hany
    exact ⟨o, ho⟩
  refine ⟨stray, ?_⟩
  simp only [isNameStart, Bool.or_eq_true, not_or] at hname
  simp only [starts, startsNothing, isNamePart, Bool.and_eq_true, Bool.not_eq_true',
    Bool.or_eq_false_iff]
  simp_all

/-! ### The classes at an obstacle -/

/-- The class that takes a closer look at what an obstacle starts with. -/
def owner? : Obstacle → Option Recognizer
  | openBrace => some .comment
  | badString => some .string
  | noDigit | openExponent => some .number
  | stray => none

/-- Only an ampersand leads a class that does not own the obstacle. -/
theorem of_starts_of_leads {o : Obstacle} {q : Recognizer} {ch : Char} (ho : o.starts ch)
    (hq : q.leads ch) : o.owner? = some q ∨ q = .identifier ∧ ch = '&' := by
  have hcheck := forall_ascii
    (P := fun ch => ∀ o ∈ all, ∀ q ∈ Recognizer.all, o.starts ch ∧ q.leads ch →
      o.owner? = some q ∨ q = .identifier ∧ ch = '&')
    (by decide +kernel)
  exact hcheck ch (Recognizer.isAscii_of_leads hq) o o.mem_all q q.mem_all ⟨ho, hq⟩

/-- Where its digits are missing, the marker is that of a base. -/
theorem exists_base_of_lacksDigit {ch : Char} {next : Option Char} (h : LacksDigit ch next) :
    ∃ base, Number.baseOfMarker? ch = some base ∧
      ∀ d ∈ next, Number.isDigitOf base d = false := by
  rcases h with ⟨rfl, h⟩ | ⟨rfl, h⟩ | ⟨rfl, h⟩
  · exact ⟨.hex, rfl, h⟩
  · exact ⟨.binary, rfl, h⟩
  · exact ⟨.octal, rfl, fun d hd => (h d hd).1⟩

/-- A class that does not own the obstacle fails where it was asked. -/
theorem Blocks.failure_of_not_owner {o : Obstacle} {c : Cursor} {q : Recognizer} (h : o.Blocks c)
    (hq : o.owner? ≠ some q) : ∃ f, q.run c = .error f ∧ f.furthest ≤ c.pos := by
  -- Otherwise the class would get on, and the obstacle would start with an ampersand.
  by_cases hon : GetsOn c (q.run c)
  · exfalso
    obtain ⟨ch, hch, hstarts⟩ := h.exists_head
    obtain ⟨ch', hch', hleads⟩ := Recognizer.leads_of_getsOn hon
    obtain rfl : ch = ch' := Option.mem_unique hch hch'
    obtain ⟨rfl, rfl⟩ := (of_starts_of_leads hstarts hleads).resolve_left hq
    obtain rfl : o = noDigit := eq_of_starts hstarts rfl
    obtain ⟨ch', cs, hrest, hlacks⟩ := h
    obtain rfl : '&' = ch' := Option.mem_unique hch (by rw [hrest]; rfl)
    obtain ⟨⟨⟩, -⟩ | ⟨⟨⟩, -⟩ | ⟨-, hnext⟩ := hlacks
    obtain ⟨f, hname⟩ := (Name.exists_error_iff_of_mark hrest).mpr fun d hd => (hnext d hd).2
    have hrun : Recognizer.identifier.run c = .error f :=
      (Recognizer.run_of_rest_ne_nil (by simp [hrest])).trans hname
    rw [hrun] at hon
    exact Nat.ne_of_gt hon (Name.furthest_of_recognize hname)
  · cases hrun : q.run c with
    | ok m => exact absurd (Recognizer.getsOn_of_run hrun) hon
    | error f =>
      rw [hrun] at hon
      exact ⟨f, rfl, Nat.le_of_not_lt hon⟩

/-- A comment in braces that is not closed is open up to the end of the text. -/
theorem openBrace_failure {c : Cursor} {text : List Char} (hc : c.StandsIn text)
    (h : openBrace.Blocks c) :
    ∃ f, Comment.recognize c = .error f ∧ c.pos < f.furthest ∧ openBrace.Reports text c f := by
  obtain ⟨hbrace, hnone⟩ := h
  obtain ⟨f, hf⟩ := (Comment.exists_error_iff_of_brace hbrace).mpr hnone
  obtain ⟨cs, hcs⟩ := List.head?_eq_some_iff.mp hbrace
  have hopen : c.Reads CommentForm.brace.opener ⟨c.pos + 1, cs⟩ := ⟨hcs, rfl⟩
  obtain ⟨opens, e, hunclosed, rfl⟩ := Comment.unclosed_of_recognize (by decide) hopen hf
  -- a comment is given up only at the end of the text
  obtain ⟨s, hs, hend⟩ := hunclosed.reads
  have hread := hopen.trans hs
  have hpos : e.pos = byteSize text := (hc.of_reads hread).pos_eq_byteSize_iff.mpr hend
  refine ⟨_, hf, ?_, _, opens, e, hopen, hunclosed, by rw [hpos]⟩
  exact hread.pos_lt (List.append_ne_nil_of_left_ne_nil (CommentForm.opener_ne_nil _) _)

/-- A string that is begun fails for a defect, which is further on. -/
theorem badString_failure {c : Cursor} {text : List Char} (h : badString.Blocks c) :
    ∃ f, Recognizer.string.run c = .error f ∧ c.pos < f.furthest ∧ badString.Reports text c f := by
  obtain ⟨⟨ch, hch, hmark⟩, f, hf⟩ := h
  have hrest : c.rest ≠ [] := fun hnil => by simp [hnil] at hch
  have hat : Quoted.recognize c = .error f := by
    rwa [Recognizer.run_of_rest_ne_nil hrest] at hf
  -- the quote or the code mark has been read, so the failure is further on
  rcases Quoted.failure_of_recognize hat with ⟨-, hsegment⟩ | hdefect
  · obtain ⟨hquote, hcode⟩ := Quoted.not_leads_of_segment hsegment ch hch
    rcases hmark with rfl | rfl
    · cases hquote
    · cases hcode
  · cases hdefect with
    | unclosedQuote hread hs =>
      exact ⟨_, hf, hread.pos_lt hs, hf, hread.pos_lt hs, .inl ⟨rfl, rfl, rfl⟩⟩
    | unsignedExpected hread hs =>
      exact ⟨_, hf, hread.pos_lt hs, hf, hread.pos_lt hs, .inr ⟨rfl, rfl, rfl⟩⟩

/-- A number without digits behind the marker of its base fails behind the marker. -/
theorem noDigit_failure {c : Cursor} {text : List Char} (h : noDigit.Blocks c) :
    ∃ f, Number.recognize c = .error f ∧ c.pos < f.furthest ∧ noDigit.Reports text c f := by
  obtain ⟨ch, cs, hcs, hlacks⟩ := h
  obtain ⟨base, hbase, hdigit⟩ := exists_base_of_lacksDigit hlacks
  have hsize : ch.utf8Size = 1 := by
    rcases hlacks with ⟨rfl, -⟩ | ⟨rfl, -⟩ | ⟨rfl, -⟩ <;> rfl
  have hrec := Number.recognize_eq_error_of_marker hcs hbase hdigit
  rw [hsize] at hrec
  exact ⟨_, hrec, Nat.lt_succ_self _, rfl, rfl, rfl⟩

/-- A number without digits behind the marker of its exponent fails behind the marker and the
sign. -/
theorem openExponent_failure {c : Cursor} {text : List Char} (h : openExponent.Blocks c) :
    ∃ f, Number.recognize c = .error f ∧ c.pos < f.furthest ∧ openExponent.Reports text c f := by
  obtain ⟨hdigit, e, he⟩ := h
  have hrec := (Number.recognize_eq_error_iff_openExponent hdigit).mpr ⟨e, he, rfl⟩
  refine ⟨_, hrec, ?_, e, he, rfl, rfl, rfl⟩
  obtain ⟨ds, fractional, marker, sign, hread, -⟩ := he
  exact hread.pos_lt (by simp)

/-- The class that owns the obstacle fails further on, and its failure is the report. -/
theorem Blocks.failure_of_owner {o : Obstacle} {c : Cursor} {r : Recognizer} {text : List Char}
    (hc : c.StandsIn text) (h : o.Blocks c) (hr : o.owner? = some r) :
    ∃ f, r.run c = .error f ∧ c.pos < f.furthest ∧ o.Reports text c f := by
  have hrest : c.rest ≠ [] := by
    obtain ⟨ch, hch, -⟩ := h.exists_head
    exact fun hnil => by simp [hnil] at hch
  rw [Recognizer.run_of_rest_ne_nil hrest]
  -- The owner is the class that takes a closer look at what stands there.
  cases o with
  | openBrace =>
    cases hr
    exact openBrace_failure hc h
  | badString =>
    cases hr
    rw [← Recognizer.run_of_rest_ne_nil hrest]
    exact badString_failure h
  | noDigit =>
    cases hr
    exact noDigit_failure h
  | openExponent =>
    cases hr
    exact openExponent_failure h
  | stray => cases hr

/-! ### Steps at an obstacle -/

/-- Where all classes fail, a step halts with the nearest failure. -/
theorem step_eq_halt_of_isNearest {c : Cursor} {best : Option Failure}
    (hfail : ∀ q : Recognizer, ∃ f, q.run c = .error f) (hbest : IsNearest c best) :
    step Recognizer.priority c = .halt (best.getD (.onSpot .invalidSequence c.pos)) := by
  obtain ⟨best', hbest'⟩ : ∃ best', firstMatch c Recognizer.priority none = .error best' :=
    exists_firstMatch_eq_error_iff.mpr fun q _ => hfail q
  obtain rfl := (isNearest_of_firstMatch admissible_priority hbest').unique hbest
  exact step_eq_halt_iff.mpr ⟨⟨_, hbest', rfl⟩, hfail .blank⟩

/-- At an obstacle a step halts and reports it. -/
theorem Blocks.step_eq_halt {o : Obstacle} {c : Cursor} {text : List Char} (hc : c.StandsIn text)
    (h : o.Blocks c) : ∃ f, step Recognizer.priority c = .halt f ∧ o.Reports text c f := by
  have hothers (q : Recognizer) (hq : o.owner? ≠ some q) := h.failure_of_not_owner hq
  cases howner : o.owner? with
  | none =>
    -- No class gets on, so there is nothing better to say than that.
    obtain rfl : o = stray := by
      cases o <;> first | rfl | cases howner
    have hfail (q : Recognizer) := hothers q (by simp [howner])
    have hnearest : IsNearest c none := by
      intro q _ f hf
      obtain ⟨g, hg, hle⟩ := hfail q
      cases hg.symm.trans hf
      exact hle
    exact ⟨_, step_eq_halt_of_isNearest (fun q => (hfail q).imp fun f hf => hf.1) hnearest,
      rfl, rfl, rfl⟩
  | some r =>
    obtain ⟨f, hf, hfar, hreport⟩ := h.failure_of_owner hc howner
    have hmem : r ∈ Recognizer.priority := by
      cases o <;> cases howner <;> decide
    have hnearest : IsNearest c (some f) := ⟨r, hmem, hf, hfar⟩
    refine ⟨f, step_eq_halt_of_isNearest ?_ hnearest, hreport⟩
    intro q
    by_cases hq : o.owner? = some q
    · obtain rfl : r = q := Option.some.inj (howner.symm.trans hq)
      exact ⟨f, hf⟩
    · exact (hothers q hq).imp fun g hg => hg.1

/-! ### Every halt is at an obstacle -/

/-- In front of a character that an obstacle starts with, the obstacle is there if all classes
fail. -/
theorem blocks_of_starts {o : Obstacle} {c : Cursor} {ch : Char} {cs : List Char}
    (hcs : c.rest = ch :: cs) (ho : o.starts ch)
    (hfail : ∀ q ∈ Recognizer.priority, ∃ f, q.recognizeAt c = .error f) : o.Blocks c := by
  have hch : ch ∈ c.rest.head? := by rw [hcs]; rfl
  -- That the owner fails says what the obstacle lacks. For a stray character nothing has to fail.
  cases o with
  | openBrace =>
    obtain rfl := beq_iff_eq.mp ho
    exact ⟨hch, (Comment.exists_error_iff_of_brace hch).mp (hfail .comment (by decide))⟩
  | badString =>
    simp only [starts, Bool.or_eq_true, beq_iff_eq] at ho
    obtain ⟨f, hf⟩ := hfail .string (by decide)
    exact ⟨⟨ch, hch, ho⟩, f, (Recognizer.run_of_rest_ne_nil (by simp [hcs])).trans hf⟩
  | noDigit =>
    simp only [starts, Bool.or_eq_true, beq_iff_eq] at ho
    refine ⟨ch, cs, hcs, ?_⟩
    obtain ⟨f, hf⟩ := hfail .number (by decide)
    have hdigit {base : Base} (hbase : Number.baseOfMarker? ch = some base) :
        ∀ d ∈ cs.head?, Number.isDigitOf base d = false :=
      Number.isDigitOf_eq_false_of_marker hcs hbase hf
    rcases ho with (rfl | rfl) | rfl
    · have hhex : Number.baseOfMarker? '$' = some .hex := rfl
      exact .inl ⟨rfl, hdigit hhex⟩
    · have hbinary : Number.baseOfMarker? '%' = some .binary := rfl
      exact .inr (.inl ⟨rfl, hdigit hbinary⟩)
    · have hoctal : Number.baseOfMarker? '&' = some .octal := rfl
      have hname := (Name.exists_error_iff_of_mark hcs).mp (hfail .identifier (by decide))
      exact .inr (.inr ⟨rfl, fun d hd => ⟨hdigit hoctal d hd, hname d hd⟩⟩)
  | openExponent =>
    have hdigit : ∃ ch ∈ c.rest.head?, isDigit ch := ⟨ch, hch, ho⟩
    obtain ⟨f, hf⟩ := hfail .number (by decide)
    obtain ⟨e, he, -⟩ := (Number.recognize_eq_error_iff_openExponent hdigit).mp hf
    exact ⟨hdigit, e, he⟩
  | stray => exact ⟨ch, hch, ho⟩

/-- Where a step halts in front of a character, there is an obstacle. -/
theorem exists_blocks_of_halt {c : Cursor} {f : Failure} (hrest : c.rest ≠ [])
    (h : step Recognizer.priority c = .halt f) : ∃ o : Obstacle, o.Blocks c := by
  obtain ⟨ch, cs, hcs⟩ := List.exists_cons_of_ne_nil hrest
  have hch : ch ∈ c.rest.head? := by rw [hcs]; rfl
  obtain ⟨⟨best, hbest, -⟩, -⟩ := step_eq_halt_iff.mp h
  have hfail : ∀ q ∈ Recognizer.priority, ∃ g, q.recognizeAt c = .error g := by
    intro q hq
    obtain ⟨g, hg⟩ := exists_firstMatch_eq_error_iff.mp ⟨best, hbest⟩ q hq
    exact ⟨g, by rwa [Recognizer.run_of_rest_ne_nil hrest] at hg⟩
  -- Blanks, names and punctuation would not have failed.
  rcases cases_of_char ch with hblank | hname | hsymbol | ⟨o, ho⟩
  · have hnot := not_blank_of_halt h ch hch
    rw [hblank] at hnot
    cases hnot
  · obtain ⟨g, hg⟩ := hfail .identifier (by decide)
    have hnot := Name.not_isNameStart_of_recognize hg ch hch
    rw [hname] at hnot
    cases hnot
  · obtain ⟨g, hg⟩ := hfail .symbol (by decide)
    have hnot := Punctuation.not_isSymbol_of_recognize hg ch hch
    rw [hsymbol] at hnot
    cases hnot
  · exact ⟨o, blocks_of_starts hcs ho hfail⟩

end Obstacle

/-! ### Scans -/

/-- A scan from any boundary of any text halts exactly at obstacles. If it fails, there is one
obstacle at its stop, of one kind only, and the failure is its report. And if the steps of the scan
ever get to an obstacle, the scan ends there, with the tokens found up to then and with the
report. -/
theorem scanFrom_halts_at_obstacle (text : List Char) (start : Nat)
    (hstart : IsBoundary text start) :
    ∃ rest s, locate text start = .boundary rest ∧ scanFrom text start = .ok s ∧
      (∀ f, s.failure = some f → ∃ d : Cursor, d.StandsIn text ∧ d.pos = s.stop ∧
        ∃ o : Obstacle, o.Blocks d ∧ o.Reports text d f ∧ ∀ o' : Obstacle, o'.Blocks d → o' = o) ∧
      (∀ ts d (o : Obstacle), Reaches Recognizer.priority ⟨start, rest⟩ ts d → o.Blocks d →
        ∃ f, s = ⟨start, d.pos, ts, some f⟩ ∧ o.Reports text d f) := by
  obtain ⟨rest, hrest⟩ := hstart
  have hc : (Cursor.mk start rest).StandsIn text := hrest
  obtain ⟨ts, d, failure, hrun, hscan⟩ := run_scanFrom hrest
  refine ⟨rest, _, hrest, hscan, ?_, ?_⟩
  · rintro f rfl
    obtain ⟨s, hreads⟩ := run_reads hrun
    have hd := hc.of_reads hreads
    rcases run_end hrun with ⟨hnone, -⟩ | ⟨g, ch, cs, hsome, hcs, hhalt⟩
    · cases hnone
    · cases hsome
      obtain ⟨o, ho⟩ := Obstacle.exists_blocks_of_halt (by simp [hcs]) hhalt
      obtain ⟨f', hhalt', hreport⟩ := ho.step_eq_halt hd
      cases hhalt.symm.trans hhalt'
      exact ⟨d, hd, rfl, o, ho, hreport, fun o' ho' => ho'.unique ho⟩
  · intro us e o hreach ho
    obtain ⟨s, hreads⟩ := hreach.reads
    obtain ⟨f, hhalt, hreport⟩ := ho.step_eq_halt (hc.of_reads hreads)
    obtain ⟨ch, hch, -⟩ := ho.exists_head
    have hrun' := hreach.run_of_halt (fun hnil => by simp [hnil] at hch) hhalt
    refine ⟨f, ?_, hreport⟩
    -- The loop returns what either run finds.
    exact (scanAt_of_run hrun).symm.trans (scanAt_of_run hrun')

/-- The sign in front of a binary number without a binary digit is a mark of its own, and the scan
halts behind it. -/
theorem scanFrom_halts_at_obstacle_of_sign :
    IsBoundary "é +%2".toList 3 ∧ ∃ f,
      scanFrom "é +%2".toList 3 = .ok ⟨3, 4, [.ofSpan .symbol 3 4 []], some f⟩ ∧
      f.Says "The number must contain at least one digit" 5 5 := by
  obtain ⟨rest, s, hrest, hscan, -, hhalts⟩ :=
    scanFrom_halts_at_obstacle "é +%2".toList 3 (by decide)
  have hlocate : locate "é +%2".toList 3 = .boundary "+%2".toList := by decide
  obtain rfl := Place.boundary.inj (hlocate.symm.trans hrest)
  -- the sign is a token of its own, and the scan halts behind it
  have hsign : step Recognizer.priority ⟨3, "+%2".toList⟩
      = .emit ⟨.symbol, [], ⟨4, "%2".toList⟩⟩ := rfl
  have hdigit : ∀ d ∈ ['2'].head?, isBinaryDigit d = false := by
    intro d hd
    obtain rfl := Option.mem_some_iff.mp hd
    rfl
  obtain ⟨f, rfl, hsays⟩ := hhalts _ ⟨4, "%2".toList⟩ .noDigit (.emit hsign .refl)
    ⟨'%', ['2'], rfl, .inr (.inl ⟨rfl, hdigit⟩)⟩
  exact ⟨by decide, f, hscan, hsays⟩

end PascalScan
