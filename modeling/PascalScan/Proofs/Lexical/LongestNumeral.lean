import PascalScan.Proofs.Lexical.Asking
import PascalScan.Proofs.Lexical.Failing
import PascalScan.Proofs.Lexical.Numeral
import PascalScan.Proofs.Text.Longest

/-!
# `PascalScan.Proofs.Lexical.LongestNumeral`: the class of numbers finds the longest one

Two markers commit. Behind the marker of a base this costs nothing: no shorter text is a number. But
behind a number without an exponent, an `e` commits as well, and there the text in front of it is a
number. So `1e` is not recognized although `1` is. `Number.Answers` says what is answered in each
case, and `Number.recognize_longest_numeral` that the class answers so.

The proof looks at the longest number only through what stands behind it: a digit, a point with
digits or an exponent would make a longer one, and where these are missing the readers stop
(`unsigned_of_longest`). Where no number stands, the first character tells what is missing
(`unsigned_of_forall_not`).
-/

set_option autoImplicit false

namespace PascalScan.Number

open Text

/-! ### What stands behind the longest number -/

section Longest

variable {u d : Cursor} {form : Form} {s : List Char}

/-- The longest number is not followed by a digit of its last base. -/
theorem isDigitOf_eq_false_of_longest (hmax : u.Longest IsUnsigned d) (h : Unsigned form s)
    (hr : u.Reads s d) : ∀ x ∈ d.rest.head?, isDigitOf form.lastBase x = false := by
  intro x hx
  obtain ⟨e, he⟩ := Cursor.exists_reads_of_head? hx
  by_cases hdigit : isDigitOf form.lastBase x
  · exact absurd ⟨form, h.snoc hdigit⟩ (hmax.not_append hr (by simp) he)
  · exact Bool.eq_false_iff.mpr hdigit

/-- If the longest number is digits, there is no fraction behind it. -/
theorem fraction_eq_none_of_longest (hmax : u.Longest IsUnsigned d) (h : Unsigned .whole s)
    (hr : u.Reads s d) : fraction d = none := by
  refine Option.eq_none_iff_forall_ne_some.mpr fun e he => ?_
  obtain ⟨t, ht, hread, -⟩ := fraction_eq_some_iff.mp he
  have hne : t ≠ [] := by
    obtain ⟨fs, rfl, -⟩ := ht
    simp
  exact hmax.not_append hr hne hread ⟨.fractional, h.append_fraction ht⟩

/-! ### What is answered about the longest number -/

/-- A decimal number without its exponent is read up to where no digit goes on with it. -/
theorem exists_whole_of_reads (h : Unsigned form s) (hplain : form.IsPlain) (hr : u.Reads s d)
    (hstop : ∀ x ∈ d.rest.head?, isDigit x = false)
    (hnone : form = .whole → fraction d = none) :
    ∃ whole, digits .decimal u = .ok whole ∧ (fraction whole).getD whole = d ∧
      (if (fraction whole).isSome then Kind.real else .integer .decimal) = form.kind := by
  obtain ⟨ds, fs, rfl, hds, hfs⟩ := h.split hplain
  obtain ⟨whole, hwhole, hfront⟩ := hr.split
  have hfs' : fs = [] ∧ fraction d = none ∨ IsFraction fs :=
    hfs.imp (fun hw => ⟨hw.2, hnone hw.1⟩) And.right
  obtain ⟨hdigits, hgetD, hsome⟩ := digits_of_reads hds.1 hds.forall_isDigitOf hfs' hwhole hfront hstop
  refine ⟨whole, hdigits, hgetD, ?_⟩
  -- Whether there is a fraction tells an integer from a real.
  rw [hsome]
  rcases hfs with ⟨rfl, rfl⟩ | ⟨rfl, xs, rfl, -, -⟩ <;> rfl

/-- In front of a digit, decimal digits are due. -/
theorem unsigned_of_plain (h : Unsigned form s) (hplain : form.IsPlain) (hr : u.Reads s d) :
    unsigned u = decimal u := by
  obtain ⟨ch, cs, rfl, hch⟩ := h.exists_digit hplain
  exact unsigned_of_not_marker hr.head?_eq (baseOfMarker?_eq_none_of_isDigit hch)

/-- A number in a marked base is recognized up to where no digit of the base goes on with it. -/
theorem unsigned_of_marked {marker : Char} {base : Base} {ds : List Char}
    (hmarker : (marker, base) ∈ markers) (hds : Digits base ds) (hr : u.Reads (marker :: ds) d)
    (hstop : ∀ x ∈ d.rest.head?, isDigitOf base x = false) :
    unsigned u = .ok ⟨.integer base, [], d⟩ := by
  obtain ⟨v, hv, hread⟩ := hr.split (s := [marker])
  have hrest : u.rest = marker :: v.rest := hv.1
  have hdigits : digits base ⟨u.pos + marker.utf8Size, v.rest⟩ = .ok d := by
    refine digits_eq_ok_iff.mpr ⟨ds, hds.1, hds.forall_isDigitOf, ⟨hread.1, ?_⟩, hstop⟩
    rw [hread.2, hv.2, byteSize_cons, byteSize_nil, Nat.add_zero]
  rw [unsigned_of_marker hrest (baseOfMarker?_eq_some_iff.mpr hmarker), hdigits]
  rfl

/-- A number with an exponent is recognized up to where no digit goes on with it. -/
theorem unsigned_of_exponential {marker : Char} {sign es : List Char} (hs : Unsigned form s)
    (hplain : form.IsPlain) (hmarker : marker ∈ exponentMarkers) (hsign : sign ∈ signs)
    (hes : Digits .decimal es) (hr : u.Reads (s ++ ([marker] ++ sign ++ es)) d)
    (hstop : ∀ x ∈ d.rest.head?, isDigit x = false) : unsigned u = .ok ⟨.real, [], d⟩ := by
  obtain ⟨front, hfront, hexp⟩ := hr.split
  obtain ⟨signed, hsigned, hread⟩ := hexp.split
  have hyes := isExponentMarker_iff_mem.mpr hmarker
  -- The number in front of the exponent ends there, since no digit and no point is a marker.
  obtain ⟨whole, hdigits, hgetD, -⟩ := exists_whole_of_reads hs hplain hfront
    (by simp [hexp.head?_eq, isDigit_eq_false_of_marker hyes])
    (fun _ => fraction_eq_none_of_ne_point (by simp [hexp.head?_eq, ne_point_of_marker hyes]))
  have hdigit : ∀ ch ∈ signed.rest.head?, isSign ch = false := by
    obtain ⟨x, xs, rfl, hx⟩ := hes.exists_cons
    simp [hread.head?_eq, isSign_eq_false_of_isDigit hx]
  have hexponent : exponent front = .ok (some d) :=
    exponent_eq_some_iff.mpr ⟨marker, sign, signed, es, hyes,
      isOptionalSign_of_mem_signs hsign hdigit, hsigned, hes.1, hes.forall_isDigitOf, hread, hstop⟩
  rw [unsigned_of_plain hs hplain hfront]
  exact decimal_eq_ok_iff.mpr ⟨whole, hdigits, .inl ⟨d, by rw [hgetD, hexponent], rfl⟩⟩

/-- A number without an exponent is recognized where neither a digit nor a fraction nor the marker of
an exponent goes on with it. -/
theorem unsigned_of_no_exponent (h : Unsigned form s) (hplain : form.IsPlain) (hr : u.Reads s d)
    (hstop : ∀ x ∈ d.rest.head?, isDigit x = false) (hnone : form = .whole → fraction d = none)
    (hgo : ∀ ch ∈ d.rest.head?, isExponentMarker ch = false) :
    unsigned u = .ok ⟨form.kind, [], d⟩ := by
  obtain ⟨whole, hdigits, hgetD, hkind⟩ := exists_whole_of_reads h hplain hr hstop hnone
  rw [unsigned_of_plain h hplain hr]
  refine decimal_eq_ok_iff.mpr ⟨whole, hdigits, .inr ⟨?_, ?_⟩⟩
  · rw [hgetD]
    exact exponent_eq_none_iff.mpr hgo
  · rw [hgetD, hkind]

/-- The longest number is recognized, if it has an exponent or no marker of one follows. -/
theorem unsigned_of_longest (hmax : u.Longest IsUnsigned d) (h : Unsigned form s)
    (hr : u.Reads s d)
    (hgo : form.IsPlain → ∀ ch ∈ d.rest.head?, isExponentMarker ch = false) :
    unsigned u = .ok ⟨form.kind, [], d⟩ := by
  have hstop := isDigitOf_eq_false_of_longest hmax h hr
  -- The longest number leaves no digit, no fraction and no exponent behind it.
  have hnone (hwhole : form = .whole) : fraction d = none :=
    fraction_eq_none_of_longest hmax (hwhole ▸ h) hr
  cases h with
  | marked hmarker hds => exact unsigned_of_marked hmarker hds hr hstop
  | whole hds =>
    exact unsigned_of_no_exponent (.whole hds) (.inl rfl) hr hstop hnone (hgo (.inl rfl))
  | fractional hds hfs =>
    exact unsigned_of_no_exponent (.fractional hds hfs) (.inr rfl) hr hstop hnone (hgo (.inr rfl))
  | exponential hs hplain hmarker hsign hes =>
    exact unsigned_of_exponential hs hplain hmarker hsign hes hr hstop

/-- A number without an exponent fails if the marker of one follows and no longer number is there. -/
theorem unsigned_of_longest_of_marker {marked : Cursor} (hmax : u.Longest IsUnsigned d)
    (h : Unsigned form s) (hplain : form.IsPlain) (hr : u.Reads s d)
    (hmarked : d.eat isExponentMarker = some marked) :
    unsigned u = .error (.onSpot .exponentDigitExpected (marked.eatOptional isSign).pos) := by
  obtain ⟨marker, hmarker, hread⟩ := Cursor.eat_eq_some_iff.mp hmarked
  obtain ⟨sign, hsign, hread'⟩ := eatOptional_isSign_eq_iff.mp (rfl : marked.eatOptional isSign = _)
  obtain ⟨ds, fs, rfl, hds, hfs⟩ := h.split hplain
  obtain ⟨ch, hch, hdigit⟩ : ∃ ch ∈ u.rest.head?, isDigit ch := by
    obtain ⟨ch, cs, hcs, hdigit⟩ := h.exists_digit hplain
    exact ⟨ch, by rw [hr.1, hcs]; rfl, hdigit⟩
  rw [unsigned_of_plain h hplain hr]
  refine (decimal_eq_error_iff_openExponent ⟨ch, hch, hdigit⟩).mpr ⟨_, ?_, rfl⟩
  refine ⟨ds, fs, marker, sign, ?_, hds.1, hds.forall_isDigitOf, hfs.imp And.right And.right, hmarker,
    hsign, ?_⟩
  · exact (hr.trans hread).trans hread'
  -- A digit behind the marker would make a longer number.
  intro x hx
  obtain ⟨e, he⟩ := Cursor.exists_reads_of_head? hx
  by_cases hyes : isDigit x
  · have hes : Digits .decimal [x] :=
      digits_of_forall (by simp) (by simpa [isDigitOf] using hyes)
    have hlonger : Unsigned .exponential (ds ++ fs ++ ([marker] ++ sign ++ [x])) :=
      .exponential h hplain (isExponentMarker_iff_mem.mp hmarker) hsign.mem_signs hes
    exact absurd ⟨.exponential, hlonger⟩
      (hmax.not_append hr (by simp) ((hread.trans hread').trans he))
  · exact Bool.eq_false_iff.mpr hyes

end Longest

/-! ### What is answered where there is no number -/

/-- The marker of a base. -/
def isBaseMarker (ch : Char) : Bool := (baseOfMarker? ch).isSome

/-- Where there is something to read and no number without a sign, digits are missing, behind the
marker of a base if there is one. -/
theorem unsigned_of_forall_not {u : Cursor} (hne : u.rest ≠ [])
    (hnone : ∀ s d, u.Reads s d → ¬ IsUnsigned s) :
    unsigned u = .error (.onSpot .digitExpected (u.eatOptional isBaseMarker).pos) := by
  obtain ⟨ch, cs, hrest⟩ := List.exists_cons_of_ne_nil hne
  have hread : u.Reads [ch] ⟨u.pos + ch.utf8Size, cs⟩ := ⟨hrest, by simp⟩
  cases hbase : baseOfMarker? ch with
  | some base =>
    -- With a digit behind it, the marker would begin a number.
    have hdigit : ∀ x ∈ cs.head?, isDigitOf base x = false := by
      intro x hx
      obtain ⟨xs, rfl⟩ := List.head?_eq_some_iff.mp hx
      by_cases hyes : isDigitOf base x
      · obtain ⟨d, hd⟩ := Cursor.exists_reads_of_isPrefix (c := u) (s := [ch, x])
          ⟨xs, by rw [hrest]; rfl⟩
        refine absurd ⟨.marked base, ?_⟩ (hnone _ d hd)
        exact .marked (baseOfMarker?_eq_some_iff.mp hbase)
          (digits_of_forall (by simp) (by simpa using hyes))
      · exact Bool.eq_false_iff.mpr hyes
    have heat : u.eat isBaseMarker = some ⟨u.pos + ch.utf8Size, cs⟩ :=
      Cursor.eat_eq_some_iff.mpr ⟨ch, by rw [isBaseMarker, hbase]; rfl, hread⟩
    rw [unsigned_of_marker hrest hbase, digits_eq_error_iff.mpr ⟨hdigit, rfl⟩,
      Cursor.eatOptional, heat]
    rfl
  | none =>
    -- A digit would be a number of its own.
    have hdigit : isDigit ch = false := by
      by_cases hyes : isDigit ch
      · have hdigits : Digits .decimal [ch] :=
          digits_of_forall (by simp) (by simpa [isDigitOf] using hyes)
        exact absurd ⟨.whole, .whole hdigits⟩ (hnone _ _ hread)
      · exact Bool.eq_false_iff.mpr hyes
    have heat : u.eat isBaseMarker = none :=
      Cursor.eat_eq_none_iff.mpr (by simp [hrest, isBaseMarker, hbase])
    have hdigits : digits .decimal u = .error (.onSpot .digitExpected u.pos) :=
      digits_eq_error_iff.mpr ⟨by simpa [hrest, isDigitOf] using hdigit, rfl⟩
    rw [unsigned_of_not_marker (by rw [hrest]; rfl) hbase, Cursor.eatOptional, heat,
      Option.getD_none]
    unfold decimal
    rw [hdigits]

/-! ### Behind a sign -/

/-- A number is what stands behind its sign. -/
theorem exists_numeral_iff {c d : Cursor} {form : Form} :
    (∃ s, c.Reads s d ∧ Numeral form s) ↔
      ∃ body, (c.eatOptional isSign).Reads body d ∧ Unsigned form body := by
  constructor
  · rintro ⟨_, hr, sign, hsign, body, rfl, hbody⟩
    obtain ⟨u, hu, hd⟩ := hr.split
    -- No number without a sign begins with one, so the class eats the sign that the grammar splits
    -- off.
    have hhead : ∀ ch ∈ u.rest.head?, isSign ch = false := by
      obtain ⟨ch, cs, rfl, hch⟩ := hbody.isSign_head
      simp [hd.1, hch]
    rw [eatOptional_isSign_eq_iff.mpr ⟨sign, isOptionalSign_of_mem_signs hsign hhead, hu⟩]
    exact ⟨body, hd, hbody⟩
  · intro ⟨body, hr, hbody⟩
    obtain ⟨sign, hsign, hu⟩ := eatOptional_isSign_eq_iff.mp (rfl : c.eatOptional isSign = _)
    exact ⟨sign ++ body, hu.trans hr, sign, hsign.mem_signs, body, rfl, hbody⟩

/-- The longest number ends where the longest one behind its sign does. -/
theorem longest_behind_sign {c d : Cursor} (h : c.Longest IsNumeral d) :
    (c.eatOptional isSign).Longest IsUnsigned d := by
  obtain ⟨s, hr, form, hs⟩ := h.belongs
  obtain ⟨body, hread, hbody⟩ := exists_numeral_iff.mp ⟨s, hr, hs⟩
  refine ⟨⟨body, hread, form, hbody⟩, fun {t e} he ⟨form', ht⟩ => ?_⟩
  obtain ⟨s', hr', hs'⟩ := exists_numeral_iff.mpr ⟨t, he, ht⟩
  exact h.le hr' ⟨form', hs'⟩

/-- With nothing behind the sign, the failure points there. -/
theorem unsigned_of_rest_eq_nil {u : Cursor} (h : u.rest = []) :
    unsigned u = .error (.onSpot .numberAfterSign u.pos) := by
  unfold unsigned
  rw [h]

/-! ### At an offset -/

/-- The offset behind the character at `i` if that is one of those to be passed, and `i` itself
otherwise. -/
def stepOver (passed text : List Char) (i : Nat) : Nat :=
  if (charAt? text i).any passed.contains then i + 1 else i

/-- A character that may be there is stepped over. -/
theorem pos_eatOptional {p : Char → Bool} {passed text : List Char} {c : Cursor}
    (hc : c.StandsIn text) (hpassed : ∀ ch, p ch ↔ ch ∈ passed)
    (hascii : passed.all fun ch => decide (IsAscii ch)) :
    (c.eatOptional p).pos = stepOver passed text c.pos := by
  unfold stepOver Cursor.eatOptional
  rw [hc.charAt?]
  -- All characters that may be passed are one byte wide.
  cases heat : c.eat p with
  | some d =>
    obtain ⟨ch, hch, hrest, hpos⟩ := Cursor.eat_eq_some_iff.mp heat
    have hmem := (hpassed ch).mp hch
    rw [if_pos (by simp [hrest, hmem])]
    simp [hpos, (isAscii_of_contains hascii (List.contains_iff_mem.mpr hmem)).utf8Size_eq_one]
  | none =>
    have hnot : ¬ c.rest.head?.any passed.contains := by
      rw [Option.any_eq_true]
      intro ⟨ch, hch, hmem⟩
      have hno := Cursor.eat_eq_none_iff.mp heat ch hch
      rw [(hpassed ch).mpr (List.contains_iff_mem.mp hmem)] at hno
      cases hno
    rw [if_neg hnot, Option.getD_none]

/-- A sign is stepped over. -/
theorem pos_eatOptional_isSign {text : List Char} {c : Cursor} (hc : c.StandsIn text) :
    (c.eatOptional isSign).pos = stepOver ['+', '-'] text c.pos :=
  pos_eatOptional hc (by simp [isSign]) (by decide)

/-- So is the marker of a base. -/
theorem pos_eatOptional_isBaseMarker {text : List Char} {c : Cursor} (hc : c.StandsIn text) :
    (c.eatOptional isBaseMarker).pos = stepOver ['$', '&', '%'] text c.pos := by
  refine pos_eatOptional hc (fun ch => ?_) (by decide)
  rw [isBaseMarker, Option.isSome_iff_exists]
  simp [baseOfMarker?_eq_some_iff, markers, exists_or]

/-- A sign is the last character of the text. -/
def EndsInSign (text : List Char) (pos : Nat) : Prop :=
  (∃ sign ∈ ['+', '-'], charAt? text pos = some sign) ∧ pos + 1 = byteSize text

/-- In a text that ends with a sign, nothing is left behind the sign, and only there. -/
theorem rest_eatOptional_eq_nil_iff {text : List Char} {c : Cursor} (hc : c.StandsIn text)
    (hlt : c.pos < byteSize text) :
    (c.eatOptional isSign).rest = [] ↔ EndsInSign text c.pos := by
  obtain ⟨sign, hsign⟩ := Cursor.eatOptional_reads isSign c
  rw [← (hc.of_reads hsign).pos_eq_byteSize_iff, pos_eatOptional_isSign hc]
  unfold stepOver EndsInSign
  have hany : (charAt? text c.pos).any ['+', '-'].contains
      ↔ ∃ sign ∈ ['+', '-'], charAt? text c.pos = some sign := by
    rw [Option.any_eq_true]
    simp [and_comm]
  -- Behind a sign, the end of the text is one byte further on.
  split
  next hyes => exact (and_iff_right (hany.mp hyes)).symm
  next hno =>
    constructor
    · intro hend
      omega
    · intro ⟨hyes, _⟩
      exact absurd (hany.mpr hyes) hno

/-- Where a number stands in the text, the part behind its sign stands behind the sign there. -/
theorem exists_unsigned_of_longestIn {text s : List Char} {c : Cursor} {form : Form} {stop : Nat}
    (hc : c.StandsIn text) (hmax : LongestIn IsNumeral text c.pos stop)
    (hs : slice? text c.pos stop = some s) (hform : Numeral form s) :
    ∃ d body, (c.eatOptional isSign).Longest IsUnsigned d ∧ d.pos = stop ∧ d.StandsIn text ∧
      (c.eatOptional isSign).Reads body d ∧ Unsigned form body := by
  obtain ⟨d, hlongest, rfl⟩ := hc.longestIn_iff.mp hmax
  obtain ⟨d', hr, hstop⟩ := hc.slice?_eq_some_iff.mp hs
  obtain ⟨t, ht, -⟩ := hlongest.belongs
  obtain rfl := (hc.of_reads hr).unique (hc.of_reads ht) hstop
  obtain ⟨body, hread, hbody⟩ := exists_numeral_iff.mp ⟨s, hr, hform⟩
  exact ⟨d', body, longest_behind_sign hlongest, rfl, hc.of_reads hr, hread, hbody⟩

/-- Where no number stands in the text, none stands behind a sign there. -/
theorem not_isUnsigned_of_forall_not {text s : List Char} {c d : Cursor} (hc : c.StandsIn text)
    (hnone : ∀ s stop, slice? text c.pos stop = some s → ¬ IsNumeral s)
    (hr : (c.eatOptional isSign).Reads s d) : ¬ IsUnsigned s := by
  intro ⟨form, hs⟩
  obtain ⟨t, ht, hform⟩ := exists_numeral_iff.mpr ⟨s, hr, hs⟩
  exact hnone t d.pos (hc.slice?_of_reads ht) ⟨form, hform⟩

/-- The marker of an exponent takes one byte, so its sign is looked for behind the next offset. -/
theorem exists_eat_of_exponentMarker {text : List Char} {d : Cursor} {marker : Char}
    (hd : d.StandsIn text) (hmarker : marker ∈ exponentMarkers)
    (hat : charAt? text d.pos = some marker) :
    ∃ marked, d.eat isExponentMarker = some marked ∧
      (marked.eatOptional isSign).pos = stepOver ['+', '-'] text (d.pos + 1) := by
  rw [hd.charAt?] at hat
  obtain ⟨marked, hread⟩ := Cursor.exists_reads_of_head? hat
  have hascii : IsAscii marker := isAscii_of_contains (by decide) (List.contains_iff_mem.mpr hmarker)
  have hnext : marked.pos = d.pos + 1 := by
    rw [hread.2, byteSize_cons, hascii.utf8Size_eq_one, byteSize_nil]
  refine ⟨marked, Cursor.eat_eq_some_iff.mpr ⟨marker, ?_, hread⟩, ?_⟩
  · exact isExponentMarker_iff_mem.mpr hmarker
  · rw [pos_eatOptional_isSign (hd.of_reads hread), hnext]

/-- What is answered about a number at an offset of the text. -/
structure Answers (text : List Char) (pos : Nat) (answer : Except Failure Token) : Prop where
  /-- Where a number stands there is a longest one. -/
  exists_longest : (∃ s stop, slice? text pos stop = some s ∧ IsNumeral s) →
    ∃ stop, LongestIn IsNumeral text pos stop
  /-- The longest number is recognized, unless the marker of an exponent follows one without. -/
  recognized : ∀ form s stop, LongestIn IsNumeral text pos stop →
    slice? text pos stop = some s → Numeral form s →
    ¬ (form.IsPlain ∧ ∃ marker ∈ exponentMarkers, charAt? text stop = some marker) →
    answer = .ok (.ofSpan form.kind pos stop [])
  /-- If the marker of an exponent does follow, its digits are missing. -/
  openExponent : ∀ form s stop, LongestIn IsNumeral text pos stop →
    slice? text pos stop = some s → Numeral form s → form.IsPlain →
    (∃ marker ∈ exponentMarkers, charAt? text stop = some marker) →
    ∃ f, answer = .error f ∧ f.Says "There must be at least one digit after the exponent"
      (stepOver ['+', '-'] text (stop + 1)) (stepOver ['+', '-'] text (stop + 1))
  /-- Where no number stands, the text may end behind a sign. -/
  signOnly : (∀ s stop, slice? text pos stop = some s → ¬ IsNumeral s) → EndsInSign text pos →
    ∃ f, answer = .error f ∧
      f.Says "There must be numbers after the sign" (byteSize text) (byteSize text)
  /-- Otherwise, digits are missing behind a sign and the marker of a base. -/
  noDigit : (∀ s stop, slice? text pos stop = some s → ¬ IsNumeral s) → ¬ EndsInSign text pos →
    ∃ f, answer = .error f ∧ f.Says "The number must contain at least one digit"
      (stepOver ['$', '&', '%'] text (stepOver ['+', '-'] text pos))
      (stepOver ['$', '&', '%'] text (stepOver ['+', '-'] text pos))

/-- Numbers are recognized by the longest match, and a marker of an exponent commits. -/
theorem recognize_longest_numeral (text : List Char) (pos : Nat) (hpos : IsBoundary text pos)
    (hlt : pos < byteSize text) :
    ∃ answer, Recognizer.number.recognize text pos = .ok answer ∧ Answers text pos answer := by
  obtain ⟨rest, hrest⟩ := hpos
  let c : Cursor := ⟨pos, rest⟩
  have hc : c.StandsIn text := hrest
  have hne : c.rest ≠ [] := fun hnil => Nat.ne_of_lt hlt (hc.pos_eq_byteSize_iff.mpr hnil)
  obtain ⟨sign, hsign⟩ := Cursor.eatOptional_reads isSign c
  have hu := hc.of_reads hsign
  -- One goal for each of the five answers that are owed.
  refine ⟨(unsigned (c.eatOptional isSign)).map (·.token c),
    Recognizer.recognize_of_rest_ne_nil hc hne, ?_, ?_, ?_, ?_, ?_⟩
  · intro ⟨s, stop, hs, hnumeral⟩
    obtain ⟨d, hr, -⟩ := hc.slice?_eq_some_iff.mp hs
    obtain ⟨e, he⟩ := Cursor.exists_longest hr hnumeral
    exact ⟨e.pos, hc.longestIn_iff.mpr ⟨e, he, rfl⟩⟩
  · intro form s stop hmax hs hform hgo
    obtain ⟨d, body, hlongest, rfl, hd, hr, hbody⟩ := exists_unsigned_of_longestIn hc hmax hs hform
    -- No exponent marker follows a plain number here, so the class does not commit to one.
    have hnext (hplain : form.IsPlain) (ch : Char) (hch : ch ∈ d.rest.head?) :
        isExponentMarker ch = false := by
      refine Bool.eq_false_iff.mpr fun hmarker => hgo ⟨hplain, ch, ?_, ?_⟩
      · exact isExponentMarker_iff_mem.mp hmarker
      · rw [hd.charAt?, hch]
    rw [unsigned_of_longest hlongest hbody hr hnext]
    rfl
  · intro form s stop hmax hs hform hplain ⟨marker, hmarker, hat⟩
    obtain ⟨d, body, hlongest, rfl, hd, hr, hbody⟩ := exists_unsigned_of_longestIn hc hmax hs hform
    obtain ⟨marked, hmarked, hpos⟩ := exists_eat_of_exponentMarker hd hmarker hat
    rw [unsigned_of_longest_of_marker hlongest hbody hplain hr hmarked, hpos]
    exact ⟨_, rfl, rfl, rfl, rfl⟩
  · intro hnone hend
    have hnil := (rest_eatOptional_eq_nil_iff hc hlt).mpr hend
    rw [unsigned_of_rest_eq_nil hnil, hu.pos_eq_byteSize_iff.mpr hnil]
    exact ⟨_, rfl, rfl, rfl, rfl⟩
  · intro hnone hend
    have hnil := mt (rest_eatOptional_eq_nil_iff hc hlt).mp hend
    rw [unsigned_of_forall_not hnil fun s d hr => not_isUnsigned_of_forall_not hc hnone hr,
      pos_eatOptional_isBaseMarker hu, pos_eatOptional_isSign hc]
    exact ⟨_, rfl, rfl, rfl, rfl⟩

/-- The fraction belongs to the number, the marker behind it commits, and the sign of the exponent
is passed before the failure. -/
theorem recognize_longest_numeral_of_open_exponent :
    ∃ answer, Recognizer.number.recognize "é-1.5e+.5".toList 2 = .ok answer ∧
      Answers "é-1.5e+.5".toList 2 answer ∧ answer = .error (.onSpot .exponentDigitExpected 8) := by
  obtain ⟨answer, hanswer, hsays⟩ :=
    recognize_longest_numeral "é-1.5e+.5".toList 2 (by decide) (by decide)
  have hfails : Recognizer.number.recognize "é-1.5e+.5".toList 2
      = .ok (.error (.onSpot .exponentDigitExpected 8)) := rfl
  exact ⟨answer, hanswer, hsays, Except.ok.inj (hanswer.symm.trans hfails)⟩

end PascalScan.Number
