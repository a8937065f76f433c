import PascalScan.Proofs.Lexical.Apart

/-!
# `PascalScan.Proofs.Lexical.Ending`: the characters that a class ends in

`Recognizer.leads` tells the characters that a class starts with. This module does the same for the
last character of a match: `Recognizer.ends` tells which characters it can be, and `endsIn_of_run`
says that there are no others, except where the text ends with the match.

So only punctuation ends in a parenthesis that is opened. Since `(*` is read as one operator, no
match stops between these two characters (`Recognizer.not_opener_across`).
-/

set_option autoImplicit false

namespace PascalScan

open Text

/-! ### The last character -/

/-- What is read from `c` to `d` ends in a character that satisfies `p`. -/
def Cursor.EndsIn (p : Char → Bool) (c d : Cursor) : Prop :=
  ∃ s ch, p ch ∧ c.Reads (s ++ [ch]) d

/-- The character that a match of the class can end in. -/
def Recognizer.ends : Recognizer → Char → Bool
  | .comment, ch => ch == '}' || ch == ')' || ch == '\n'
  | .string, ch => Quoted.isQuote ch || isDigit ch
  | .identifier, ch => isNamePart ch
  | .number, ch => isDigit ch || isHexDigit ch || isOctalDigit ch || isBinaryDigit ch
  | .symbol, ch => isSymbol ch
  | .blank, ch => isBlank ch

namespace Cursor

variable {p q : Char → Bool} {c d e : Cursor}

/-- What is read in front does not change how a stretch ends. -/
theorem EndsIn.of_reads {s : List Char} (h : EndsIn p d e) (hr : c.Reads s d) : EndsIn p c e := by
  obtain ⟨t, ch, hch, ht⟩ := h
  exact ⟨s ++ t, ch, hch, by simpa using hr.trans ht⟩

/-- A larger class has the last character as well. -/
theorem EndsIn.mono (h : EndsIn p c d) (hpq : ∀ ch, p ch → q ch) : EndsIn q c d := by
  obtain ⟨s, ch, hch, hr⟩ := h
  exact ⟨s, ch, hpq ch hch, hr⟩

/-- The last character is the same, whatever else is known of what was read. -/
theorem EndsIn.of_reads_concat {s : List Char} {ch : Char} (h : EndsIn p c d)
    (hr : c.Reads (s ++ [ch]) d) : p ch := by
  obtain ⟨t, x, hx, ht⟩ := h
  have hsame : t ++ [x] = s ++ [ch] := ht.same hr
  obtain ⟨-, rfl⟩ := List.append_inj' hsame rfl |>.imp_right List.singleton_inj.mp
  exact hx

/-- A single character is the last one. -/
theorem endsIn_of_eat (h : c.eat p = some d) : EndsIn p c d := by
  obtain ⟨ch, hch, hr⟩ := eat_eq_some_iff.mp h
  exact ⟨[], ch, hch, hr⟩

/-- A run ends in a character that could go on. -/
theorem endsIn_of_eatRun (h : c.eatRun p q = some d) (hpq : ∀ ch, p ch → q ch) : EndsIn q c d := by
  obtain ⟨ch, cs, hch, hcs, hr, -⟩ := eatRun_eq_some_iff.mp h
  rcases List.eq_nil_or_concat cs with rfl | ⟨s, x, rfl⟩
  · exact ⟨[], ch, hpq ch hch, hr⟩
  · exact ⟨ch :: s, x, hcs x (by simp), by simpa using hr⟩

end Cursor

variable {c : Cursor} {m : Match}

/-! ### Numbers -/

namespace Number

/-- A number may end in a digit of any base. -/
theorem ends_of_isDigitOf {base : Base} {ch : Char} (h : isDigitOf base ch) :
    Recognizer.number.ends ch := by
  cases base <;> simp_all [isDigitOf, Recognizer.ends]

/-- A run of digits ends in one. -/
theorem endsIn_of_digits {base : Base} {d : Cursor} (h : digits base c = .ok d) :
    c.EndsIn (isDigitOf base) d := by
  unfold digits at h
  split at h
  next next hnext =>
    cases h
    exact Cursor.endsIn_of_eatRun hnext fun _ hch => hch
  next => cases h

/-- A fraction ends in a digit. -/
theorem endsIn_of_fraction {d : Cursor} (h : fraction c = some d) : c.EndsIn isDigit d := by
  obtain ⟨point, hpoint, hdigits⟩ := Option.bind_eq_some_iff.mp h
  obtain ⟨ch, -, hr⟩ := Cursor.eat_eq_some_iff.mp hpoint
  exact (Cursor.endsIn_of_eatRun hdigits fun _ hch => hch).of_reads hr

/-- So does an exponent. -/
theorem endsIn_of_exponent {d : Cursor} (h : exponent c = .ok (some d)) : c.EndsIn isDigit d := by
  unfold exponent at h
  split at h
  next => cases h
  next marked hmarked =>
    dsimp only at h
    split at h
    next next hnext =>
      cases h
      obtain ⟨ch, -, hmark⟩ := Cursor.eat_eq_some_iff.mp hmarked
      obtain ⟨sign, hsign⟩ := Cursor.eatOptional_reads isSign marked
      exact (Cursor.endsIn_of_eatRun hnext fun _ hch => hch).of_reads (hmark.trans hsign)
    next => cases h

/-- So a decimal number does, whatever it has. -/
theorem endsIn_of_decimal (h : decimal c = .ok m) : c.EndsIn isDigit m.next := by
  obtain ⟨whole, hwhole, hstop⟩ := decimal_eq_ok_iff.mp h
  obtain ⟨s, -, hr⟩ := digits_reads hwhole
  rcases hstop with ⟨next, hexponent, rfl⟩ | ⟨-, rfl⟩
  · obtain ⟨t, ht⟩ := getD_fraction_reads whole
    exact (endsIn_of_exponent hexponent).of_reads (hr.trans ht)
  · cases hfraction : fraction whole with
    | none => exact endsIn_of_digits hwhole
    | some next => exact (endsIn_of_fraction hfraction).of_reads hr

/-- A number ends in a digit of its base. -/
theorem endsIn_of_unsigned (h : unsigned c = .ok m) : c.EndsIn Recognizer.number.ends m.next := by
  unfold unsigned at h
  split at h
  next => cases h
  next d ds hrest =>
    split at h
    next base =>
      split at h
      next next hnext =>
        cases h
        have hd : c.Reads [d] ⟨c.pos + d.utf8Size, ds⟩ := by simp [Cursor.Reads, hrest]
        exact ((endsIn_of_digits hnext).of_reads hd).mono fun _ hch => ends_of_isDigitOf hch
      next => cases h
    next => exact (endsIn_of_decimal h).mono fun ch hch => by simp [Recognizer.ends, hch]

end Number

/-! ### Strings -/

namespace Quoted

/-- A segment ends in a quote or in a digit. -/
theorem endsIn_of_segment {start : Nat} {d : Cursor} (h : segment start c = .ok (some d)) :
    c.EndsIn Recognizer.string.ends d := by
  unfold segment at h
  split at h
  next opened hopened =>
    dsimp only at h
    split at h
    next closed hclosed =>
      cases h
      obtain ⟨quote, -, hr⟩ := Cursor.eat_eq_some_iff.mp hopened
      -- A quoted run ends in its quote.
      refine ((Cursor.endsIn_of_eat hclosed).of_reads
        (hr.trans (Cursor.skipWhile_reads isQuotable opened))).mono fun ch hch => ?_
      simp [Recognizer.ends, hch]
    next => cases h
  next =>
    split at h
    next marked hmarked =>
      split at h
      next next' hnext =>
        cases h
        obtain ⟨mark, -, hr⟩ := Cursor.eat_eq_some_iff.mp hmarked
        -- A character code ends in a digit.
        refine ((Cursor.endsIn_of_eatRun hnext fun _ hch => hch).of_reads hr).mono fun ch hch => ?_
        simp [Recognizer.ends, hch]
      next => cases h
    next => cases h

/-- The last segment ends the string. -/
theorem endsIn_of_segments {start : Nat} {b d : Cursor} (hb : b.EndsIn Recognizer.string.ends c)
    (h : segments start c = .ok d) : b.EndsIn Recognizer.string.ends d := by
  fun_induction segments start c with
  | case1 => cases h
  | case2 c =>
    cases h
    exact hb
  | case3 c next hnext _ ih =>
    obtain ⟨s, ch, -, hr⟩ := hb
    exact ih ((endsIn_of_segment hnext).of_reads hr) h

/-- A string ends as its last segment does. -/
theorem endsIn_of_recognize (h : recognize c = .ok m) :
    c.EndsIn Recognizer.string.ends m.next := by
  unfold recognize at h
  split at h
  next => cases h
  next => cases h
  next next hnext =>
    split at h
    next => cases h
    next stop hstop =>
      cases h
      exact endsIn_of_segments (endsIn_of_segment hnext) hstop

end Quoted

/-! ### Names, punctuation, blanks and comments -/

/-- A name ends in a letter, a digit or an underscore. -/
theorem Name.endsIn_of_recognize (h : recognize c = .ok m) :
    c.EndsIn Recognizer.identifier.ends m.next := by
  have hpart (ch : Char) (hch : isNameStart ch) : isNamePart ch := by
    rcases Bool.or_eq_true_iff.mp hch with hch | hch <;> simp [isNamePart, hch]
  unfold recognize at h
  split at h
  next marked hmarked =>
    split at h
    next next hnext =>
      cases h
      obtain ⟨mark, -, hr⟩ := Cursor.eat_eq_some_iff.mp hmarked
      exact (Cursor.endsIn_of_eatRun hnext hpart).of_reads hr
    next => cases h
  next =>
    split at h
    next next hnext =>
      cases h
      exact Cursor.endsIn_of_eatRun hnext hpart
    next => cases h

/-- Punctuation is one mark, or two characters that form an operator. -/
theorem Punctuation.cases_of_recognize (h : recognize c = .ok m) :
    (∃ ch, isSymbol ch ∧ c.Reads [ch] m.next) ∨
      ∃ a b, isSymbolPair a b ∧ c.Reads [a, b] m.next := by
  have hsingle (h : recognizeSingle c = .ok m) : ∃ ch, isSymbol ch ∧ c.Reads [ch] m.next := by
    unfold recognizeSingle at h
    split at h
    next next hnext =>
      cases h
      exact Cursor.eat_eq_some_iff.mp hnext
    next => cases h
  unfold recognize at h
  split at h
  -- With two characters left it may be a pair.
  next a b rest hrest =>
    split at h
    next hpair =>
      cases h
      exact .inr ⟨a, b, hpair, hrest, rfl⟩
    next => exact .inl (hsingle h)
  next => exact .inl (hsingle h)

/-- Punctuation ends in one of its marks, also where it is a pair. -/
theorem Punctuation.endsIn_of_recognize (h : recognize c = .ok m) :
    c.EndsIn Recognizer.symbol.ends m.next := by
  have hcheck : ∀ p ∈ symbolPairs, isSymbol p.2 := by decide
  rcases cases_of_recognize h with ⟨ch, hch, hr⟩ | ⟨a, b, hpair, hr⟩
  · exact ⟨[], ch, hch, hr⟩
  · exact ⟨[a], b, hcheck (a, b) (List.contains_iff_mem.mp hpair), hr⟩

/-- A run of blanks ends in one. -/
theorem Blank.endsIn_of_recognize (h : recognize c = .ok m) :
    c.EndsIn Recognizer.blank.ends m.next := by
  unfold recognize at h
  split at h
  next next hnext =>
    cases h
    exact Cursor.endsIn_of_eatRun hnext fun _ hch => hch
  next => cases h

/-- A comment ends in its closer, or with the text. -/
theorem Comment.endsIn_of_recognize (h : recognize c = .ok m) :
    m.next.rest = [] ∨ c.EndsIn Recognizer.comment.ends m.next := by
  obtain ⟨form, hkind⟩ := kind_of_recognize h
  by_cases hline : form = .line
  · subst hline
    rcases feed_mem_or_rest_eq_nil h hkind with ⟨s, hs⟩ | hrest
    · exact .inr ⟨s, '\n', rfl, hs⟩
    · exact .inl hrest
  · obtain ⟨opened, ts, e, hopen, ⟨d, hcontents, hclose⟩, rfl⟩ :=
      (recognize_eq_ok_iff_closed hline).mp ⟨h, hkind⟩
    obtain ⟨s, hs, -⟩ := hcontents.exists_body
    -- A block comment ends with its closer.
    have hcloser : d.EndsIn Recognizer.comment.ends e := by
      cases form with
      | brace => exact ⟨[], '}', rfl, hclose⟩
      | paren => exact ⟨['*'], ')', rfl, hclose⟩
      | line => contradiction
    exact .inr (hcloser.of_reads (hopen.trans hs))

/-! ### All classes -/

/-- A match ends in a character of its class, or with the text. -/
theorem Recognizer.endsIn_of_run {r : Recognizer} (h : r.run c = .ok m) :
    m.next.rest = [] ∨ c.EndsIn r.ends m.next := by
  have hat := recognizeAt_of_run h
  cases r with
  | comment => exact Comment.endsIn_of_recognize hat
  | string => exact .inr (Quoted.endsIn_of_recognize hat)
  | identifier => exact .inr (Name.endsIn_of_recognize hat)
  | number =>
    obtain ⟨sign, hsign⟩ := Cursor.eatOptional_reads isSign c
    exact .inr ((Number.endsIn_of_unsigned hat).of_reads hsign)
  | symbol => exact .inr (Punctuation.endsIn_of_recognize hat)
  | blank => exact .inr (Blank.endsIn_of_recognize hat)

/-- No match stops inside an opener. -/
theorem Recognizer.not_opener_across {r : Recognizer} {s : List Char} (h : r.run c = .ok m)
    (hr : c.Reads (s ++ ['(']) m.next) : m.next.rest.head? ≠ some '*' := by
  intro hstar
  rcases endsIn_of_run h with hrest | hends
  · simp [hrest] at hstar
  -- Only punctuation ends in a parenthesis.
  have hsymbol : r = .symbol := by
    have hcheck : ∀ r : Recognizer, r.ends '(' → r = .symbol := by
      intro r
      cases r <;> decide
    exact hcheck r (hends.of_reads_concat hr)
  subst hsymbol
  have hat := recognizeAt_of_run h
  rcases Punctuation.cases_of_recognize hat with ⟨ch, -, hone⟩ | ⟨a, b, hpair, htwo⟩
  · -- A single parenthesis in front of the star would have been read together with it.
    have hsame : [] ++ [ch] = s ++ ['('] := hone.same hr
    obtain ⟨-, hch⟩ := List.append_inj' hsame rfl
    obtain rfl := List.singleton_inj.mp hch
    obtain ⟨cs, hcs⟩ := List.head?_eq_some_iff.mp hstar
    have hopen : c.Reads CommentForm.paren.opener ⟨c.pos + 2, cs⟩ :=
      ⟨by rw [hone.1, hcs]; rfl, rfl⟩
    have hnext : m.next.rest = cs :=
      congrArg (fun m : Match => m.next.rest)
        (Except.ok.inj (hat.symm.trans (Punctuation.recognize_of_opener hopen)))
    rw [hcs] at hnext
    exact List.cons_ne_self _ _ hnext
  -- No pair ends in a parenthesis.
  · have hsame : [a] ++ [b] = s ++ ['('] := htwo.same hr
    obtain ⟨-, hb⟩ := List.append_inj' hsame rfl
    obtain rfl := List.singleton_inj.mp hb
    have hcheck : ∀ p ∈ symbolPairs, p.2 ≠ '(' := by decide
    exact hcheck _ (List.contains_iff_mem.mp hpair) rfl

end PascalScan
