import PascalScan.Proofs.Comment.Cut
import PascalScan.Proofs.Lexical.Leading
import PascalScan.Proofs.Lexical.MissingDigits

/-!
# `PascalScan.Proofs.Lexical.Cut`: a match does not need the text behind it

A lexical class looks ahead of what it recognizes: behind digits for a point or an exponent, behind
a mark of punctuation for a second one, behind an opener for the end of the comment. What it finds
there may decide where the match ends. But a match that has ended is not called in question when the
text behind it is taken away: `Recognizer.run_of_followedBy` says so for every class.

Failures are another matter. An attempt may fail for what stands far behind, and match where the
text is cut in front of that. A scan then takes another class for the one that had failed. The last
section says when this can happen. For comments it cannot, and for a number with a sign only if the
number fails behind its sign as well.
-/

set_option autoImplicit false

namespace PascalScan

open Text

variable {v : List Char} {c : Cursor} {m : Match}

/-! ### Numbers -/

namespace Number

/-- Digits that end in front of `v` are found without it. -/
theorem digits_of_followedBy {base : Base} {d : Cursor}
    (h : digits base (c.followedBy v) = .ok (d.followedBy v)) : digits base c = .ok d := by
  obtain ⟨ds, hne, hds, hr, hstop⟩ := digits_eq_ok_iff.mp h
  exact digits_eq_ok_iff.mpr ⟨ds, hne, hds, Cursor.reads_followedBy_iff.mp hr,
    fun x hx => hstop x (Cursor.mem_head?_followedBy hx)⟩

/-- So is a fraction. -/
theorem fraction_of_followedBy {d : Cursor}
    (h : fraction (c.followedBy v) = some (d.followedBy v)) : fraction c = some d := by
  obtain ⟨s, hs, hr, hstop⟩ := fraction_eq_some_iff.mp h
  exact fraction_eq_some_iff.mpr ⟨s, hs, Cursor.reads_followedBy_iff.mp hr,
    fun x hx => hstop x (Cursor.mem_head?_followedBy hx)⟩

/-- Where no fraction stands, none appears when the text is cut. -/
theorem fraction_eq_none_of_followedBy (h : fraction (c.followedBy v) = none) :
    fraction c = none := by
  unfold fraction at h ⊢
  cases heat : c.eat (· == '.') with
  | none => rfl
  | some point =>
    -- The point is there in the longer text too, so it is the digits that are missing.
    obtain ⟨ch, hch, hr⟩ := Cursor.eat_eq_some_iff.mp heat
    rw [Cursor.eat_eq_some_iff.mpr ⟨ch, hch, Cursor.reads_followedBy_iff.mpr hr⟩] at h
    exact Cursor.eatRun_eq_none_of_followedBy h

/-- So is an exponent. -/
theorem exponent_of_followedBy {d : Cursor}
    (h : exponent (c.followedBy v) = .ok (some (d.followedBy v))) : exponent c = .ok (some d) := by
  unfold exponent at h
  split at h
  next => cases h
  next marked hmarked =>
    dsimp only at h
    split at h
    next next hnext =>
      cases h
      -- From the end on back, the places in between are in front of the cut as well.
      obtain ⟨ch, cs, -, hdigits⟩ := Cursor.eatRun_reads hnext
      obtain ⟨signed, hsigned, -⟩ := Cursor.exists_eq_followedBy_of_reads hdigits
      obtain ⟨sign, hsign⟩ := Cursor.eatOptional_reads isSign marked
      rw [hsigned] at hsign hnext
      obtain ⟨marked, rfl, -⟩ := Cursor.exists_eq_followedBy_of_reads hsign
      unfold exponent
      rw [Cursor.eat_of_followedBy hmarked]
      dsimp only
      rw [Cursor.eatOptional_of_followedBy hsigned, Cursor.eatRun_of_followedBy hnext]
    next => cases h

/-- Where no exponent stands, none appears when the text is cut. -/
theorem exponent_eq_none_of_followedBy (h : exponent (c.followedBy v) = .ok none) :
    exponent c = .ok none := by
  unfold exponent at h
  split at h
  next hnone =>
    unfold exponent
    rw [Cursor.eat_eq_none_of_followedBy hnone]
  next =>
    dsimp only at h
    split at h <;> cases h

/-- Where a fraction may be missing, it is there or missing in both texts. -/
theorem getD_fraction_of_followedBy {d : Cursor}
    (h : (fraction (c.followedBy v)).getD (c.followedBy v) = d.followedBy v) :
    (fraction c).getD c = d ∧ (fraction c).isSome = (fraction (c.followedBy v)).isSome := by
  cases hfraction : fraction (c.followedBy v) with
  | none =>
    rw [hfraction, Option.getD_none] at h
    rw [fraction_eq_none_of_followedBy hfraction, Option.getD_none]
    exact ⟨Cursor.followedBy_inj h, rfl⟩
  | some next =>
    rw [hfraction, Option.getD_some] at h
    rw [h] at hfraction
    rw [fraction_of_followedBy hfraction, Option.getD_some]
    exact ⟨rfl, rfl⟩

/-- A decimal number that ends in front of `v` is found without it. -/
theorem decimal_of_followedBy (h : decimal (c.followedBy v) = .ok (m.followedBy v)) :
    decimal c = .ok m := by
  obtain ⟨whole, hwhole, hstop⟩ := decimal_eq_ok_iff.mp h
  -- The digits end in front of the cut, because what follows them does.
  have hfront {front : Cursor} (hgetD : (fraction whole).getD whole = front.followedBy v) :
      ∃ whole', digits .decimal c = .ok whole' ∧ (fraction whole').getD whole' = front ∧
        (fraction whole').isSome = (fraction whole).isSome := by
    obtain ⟨s, hs⟩ := getD_fraction_reads whole
    rw [hgetD] at hs
    obtain ⟨whole', rfl, -⟩ := Cursor.exists_eq_followedBy_of_reads hs
    exact ⟨whole', digits_of_followedBy hwhole, getD_fraction_of_followedBy hgetD⟩
  obtain ⟨kind, inner, next⟩ := m
  refine decimal_eq_ok_iff.mpr ?_
  rcases hstop with ⟨stop, hexponent, hm⟩ | ⟨hexponent, hm⟩
  · obtain ⟨rfl, rfl, rfl⟩ := Match.mk.inj hm
    obtain ⟨s, hs⟩ := exponent_reads hexponent
    obtain ⟨front, hgetD, -⟩ := Cursor.exists_eq_followedBy_of_reads hs
    obtain ⟨whole', hdigits, hgetD', -⟩ := hfront hgetD
    rw [hgetD] at hexponent
    exact ⟨whole', hdigits, .inl ⟨next, by rw [hgetD', exponent_of_followedBy hexponent], rfl⟩⟩
  · obtain ⟨rfl, rfl, hnext⟩ := Match.mk.inj hm
    obtain ⟨whole', hdigits, hgetD', hsome⟩ := hfront hnext.symm
    rw [← hnext] at hexponent
    refine ⟨whole', hdigits, .inr ⟨?_, ?_⟩⟩
    · rw [hgetD', exponent_eq_none_of_followedBy hexponent]
    · rw [hgetD', hsome]

/-- So is a number without a sign. -/
theorem unsigned_of_followedBy (h : unsigned (c.followedBy v) = .ok (m.followedBy v)) :
    unsigned c = .ok m := by
  have hne := (Match.readsFrom_of_followedBy (readsFrom_of_unsigned h)).rest_ne_nil
  obtain ⟨ch, cs, hrest⟩ := List.exists_cons_of_ne_nil hne
  have hfull : (c.followedBy v).rest = ch :: (cs ++ v) := by
    rw [Cursor.rest_followedBy, hrest, List.cons_append]
  unfold unsigned at h ⊢
  rw [hfull] at h
  rw [hrest]
  dsimp only at h ⊢
  -- Both texts begin with the same character, which says whether a marker comes first.
  cases hbase : baseOfMarker? ch with
  | none =>
    rw [hbase] at h
    exact decimal_of_followedBy h
  | some base =>
    obtain ⟨kind, inner, next⟩ := m
    rw [hbase] at h
    dsimp only at h ⊢
    split at h
    next stop hdigits =>
      cases h
      have hcut : digits base ⟨c.pos + ch.utf8Size, cs⟩ = .ok next := digits_of_followedBy hdigits
      rw [hcut]
    next => cases h

/-- And so is any number. -/
theorem recognize_of_followedBy (h : recognize (c.followedBy v) = .ok (m.followedBy v)) :
    recognize c = .ok m := by
  unfold recognize at h ⊢
  obtain ⟨sign, hsign⟩ := Cursor.eatOptional_reads isSign (c.followedBy v)
  obtain ⟨s, -, hs⟩ := readsFrom_of_unsigned h
  obtain ⟨signed, hsigned, -⟩ := Cursor.exists_eq_followedBy_of_reads hs
  rw [hsigned] at h
  rw [Cursor.eatOptional_of_followedBy hsigned]
  exact unsigned_of_followedBy h

end Number

/-! ### Strings -/

namespace Quoted

/-- A segment that ends in front of `v` is found without it. -/
theorem segment_of_followedBy {start : Nat} {d : Cursor}
    (h : segment start (c.followedBy v) = .ok (some (d.followedBy v))) :
    segment start c = .ok (some d) := by
  unfold segment at h
  split at h
  next opened hopened =>
    dsimp only at h
    split at h
    next closed hclosed =>
      cases h
      obtain ⟨quote, -, hquote⟩ := Cursor.eat_eq_some_iff.mp hclosed
      -- the closing quote is in front of `v`, and so is the body that was read before it
      obtain ⟨body, hbody, -⟩ := Cursor.exists_eq_followedBy_of_reads hquote
      have hskip := Cursor.skipWhile_reads isQuotable opened
      rw [hbody] at hskip hclosed
      obtain ⟨opened, rfl, -⟩ := Cursor.exists_eq_followedBy_of_reads hskip
      unfold segment
      rw [Cursor.eat_of_followedBy hopened]
      dsimp only
      rw [Cursor.skipWhile_of_followedBy hbody, Cursor.eat_of_followedBy hclosed]
    next => cases h
  next hquote =>
    split at h
    next marked hmarked =>
      split at h
      next next hnext =>
        cases h
        obtain ⟨digit, digits, -, hdigits⟩ := Cursor.eatRun_reads hnext
        -- the digits end in front of `v`, so the mark is there too
        obtain ⟨marked, rfl, -⟩ := Cursor.exists_eq_followedBy_of_reads hdigits
        unfold segment
        rw [Cursor.eat_eq_none_of_followedBy hquote, Cursor.eat_of_followedBy hmarked]
        dsimp only
        rw [Cursor.eatRun_of_followedBy hnext]
      next => cases h
    next => cases h

/-- Where no segment begins, none does when the text is cut. -/
theorem segment_eq_none_of_followedBy {start : Nat}
    (h : segment start (c.followedBy v) = .ok none) : segment start c = .ok none := by
  have hhead := not_leads_of_segment h
  have hquote : c.eat isQuote = none :=
    Cursor.eat_eq_none_iff.mpr fun ch hch => (hhead ch (Cursor.mem_head?_followedBy hch)).1
  have hmark : c.eat isCodeMark = none :=
    Cursor.eat_eq_none_iff.mpr fun ch hch => (hhead ch (Cursor.mem_head?_followedBy hch)).2
  unfold segment
  rw [hquote, hmark]

/-- A sequence of segments that ends in front of `v` is found without it. -/
theorem segments_of_followedBy {start : Nat} {d : Cursor}
    (h : segments start (c.followedBy v) = .ok (d.followedBy v)) : segments start c = .ok d := by
  -- the induction is on the loop over the longer text; `c` moves with it
  generalize hfull : c.followedBy v = full at h
  fun_induction segments start full generalizing c with
  | case1 => cases h
  | case2 full hsegment =>
    obtain rfl := Except.ok.inj h
    obtain rfl := Cursor.followedBy_inj hfull
    rw [segments_eq, segment_eq_none_of_followedBy hsegment]
  | case3 full next hsegment _ ih =>
    subst hfull
    obtain ⟨s, hs⟩ := segments_reads h
    obtain ⟨next, rfl, -⟩ := Cursor.exists_eq_followedBy_of_reads hs
    rw [segments_eq, segment_of_followedBy hsegment]
    exact ih rfl h

/-- So is a string. -/
theorem recognize_of_followedBy (h : recognize (c.followedBy v) = .ok (m.followedBy v)) :
    recognize c = .ok m := by
  obtain ⟨kind, inner, stop⟩ := m
  unfold recognize at h
  split at h
  next => cases h
  next => cases h
  next next hsegment =>
    split at h
    next => cases h
    next stop' hsegments =>
      cases h
      obtain ⟨s, hs⟩ := segments_reads hsegments
      obtain ⟨next, rfl, -⟩ := Cursor.exists_eq_followedBy_of_reads hs
      have hsegment' : segment c.pos c = .ok (some next) := segment_of_followedBy hsegment
      have hsegments' : segments c.pos next = .ok stop := segments_of_followedBy hsegments
      unfold recognize
      rw [hsegment']
      dsimp only
      rw [hsegments']

end Quoted

/-! ### Names, punctuation and blanks -/

/-- So is a name, with or without its ampersand. -/
theorem Name.recognize_of_followedBy (h : recognize (c.followedBy v) = .ok (m.followedBy v)) :
    recognize c = .ok m := by
  obtain ⟨kind, inner, next⟩ := m
  unfold recognize at h
  split at h
  next marked hmarked =>
    split at h
    next stop hnext =>
      cases h
      obtain ⟨ch, cs, -, hr⟩ := Cursor.eatRun_reads hnext
      obtain ⟨marked, rfl, -⟩ := Cursor.exists_eq_followedBy_of_reads hr
      unfold recognize
      rw [Cursor.eat_of_followedBy hmarked]
      dsimp only
      rw [Cursor.eatRun_of_followedBy hnext]
    next => cases h
  -- Without `v` there is no ampersand either.
  next hmark =>
    split at h
    next stop hnext =>
      cases h
      unfold recognize
      rw [Cursor.eat_eq_none_of_followedBy hmark]
      dsimp only
      rw [Cursor.eatRun_of_followedBy hnext]
    next => cases h

/-- So is a single mark of punctuation. -/
theorem Punctuation.recognizeSingle_of_followedBy
    (h : recognizeSingle (c.followedBy v) = .ok (m.followedBy v)) :
    recognizeSingle c = .ok m := by
  obtain ⟨kind, inner, next⟩ := m
  unfold recognizeSingle at h
  split at h
  next stop hnext =>
    cases h
    unfold recognizeSingle
    rw [Cursor.eat_of_followedBy hnext]
  next => cases h

/-- So is punctuation of one or two characters. -/
theorem Punctuation.recognize_of_followedBy
    (h : recognize (c.followedBy v) = .ok (m.followedBy v)) : recognize c = .ok m := by
  have hne := (Match.readsFrom_of_followedBy (readsFrom_of_recognize h)).rest_ne_nil
  obtain ⟨a, as, hrest⟩ := List.exists_cons_of_ne_nil hne
  have hfull : (c.followedBy v).rest = a :: (as ++ v) := by
    rw [Cursor.rest_followedBy, hrest, List.cons_append]
  obtain ⟨kind, inner, next⟩ := m
  unfold recognize at h ⊢
  rw [hfull] at h
  rw [hrest]
  cases as with
  | nil =>
    -- A second character that is cut off was not needed: the match has ended in front of it.
    dsimp only
    split at h
    next a' b cs heq =>
      split at h
      next =>
        have hcut : next.rest ++ v = cs :=
          congrArg (fun m : Match => m.next.rest) (Except.ok.inj h).symm
        have hv : v = b :: cs := (List.cons.inj heq).2
        have hlen := congrArg List.length hcut
        rw [hv, List.length_append, List.length_cons] at hlen
        omega
      next => exact recognizeSingle_of_followedBy h
    next => exact recognizeSingle_of_followedBy h
  | cons b cs =>
    dsimp only [List.cons_append] at h ⊢
    split at h
    next hpair =>
      rw [if_pos hpair]
      obtain ⟨rfl, rfl, hnext⟩ := Match.mk.inj (Except.ok.inj h)
      have hnext' : Cursor.followedBy v ⟨c.pos + byteSize [a, b], cs⟩ = next.followedBy v := hnext
      rw [← Cursor.followedBy_inj hnext']
    next hpair =>
      rw [if_neg hpair]
      exact recognizeSingle_of_followedBy h

/-- And so is a run of blanks. -/
theorem Blank.recognize_of_followedBy (h : recognize (c.followedBy v) = .ok (m.followedBy v)) :
    recognize c = .ok m := by
  obtain ⟨kind, inner, next⟩ := m
  unfold recognize at h
  split at h
  next stop hnext =>
    cases h
    unfold recognize
    rw [Cursor.eatRun_of_followedBy hnext]
  next => cases h

/-! ### All classes -/

/-- What a class matches in front of a cut, it matches when the text is cut. -/
theorem Recognizer.run_of_followedBy {r : Recognizer}
    (h : r.run (c.followedBy v) = .ok (m.followedBy v)) : r.run c = .ok m := by
  have hne := (Match.readsFrom_of_followedBy (run_readsFrom h)).rest_ne_nil
  have hat := recognizeAt_of_run h
  rw [run_of_rest_ne_nil hne]
  cases r with
  | comment => exact Comment.recognize_of_followedBy hat
  | string => exact Quoted.recognize_of_followedBy hat
  | identifier => exact Name.recognize_of_followedBy hat
  | number => exact Number.recognize_of_followedBy hat
  | symbol => exact Punctuation.recognize_of_followedBy hat
  | blank => exact Blank.recognize_of_followedBy hat

/-- What begins a comment of the cut text begins one of the whole text. -/
theorem Recognizer.exists_comment_followedBy (h : comment.run c = .ok m) :
    ∃ n, comment.run (c.followedBy v) = .ok n := by
  have hne : (c.followedBy v).rest ≠ [] := by simp [rest_ne_nil_of_run h]
  rw [run_of_rest_ne_nil hne]
  exact Comment.exists_recognize_followedBy (recognizeAt_of_run h)

/-! ### Numbers that fail for what stands behind a cut -/

/-- Behind its sign, a number begins with a digit or with the marker of a base. -/
theorem Number.not_isSign_of_unsigned (h : unsigned c = .ok m) :
    ∀ ch ∈ c.rest.head?, isSign ch = false := by
  intro ch hch
  obtain ⟨cs, hrest⟩ := List.head?_eq_some_iff.mp hch
  unfold unsigned at h
  rw [hrest] at h
  dsimp only at h
  -- what an unsigned number starts with is a base mark or a decimal digit
  cases hbase : baseOfMarker? ch with
  | some base => exact isSign_eq_false_of_marker hbase
  | none =>
    rw [hbase] at h
    obtain ⟨whole, hwhole, -⟩ := decimal_eq_ok_iff.mp h
    obtain ⟨ds, hne, hds, hr, -⟩ := digits_eq_ok_iff.mp hwhole
    obtain ⟨d, ds, rfl⟩ := List.exists_cons_of_ne_nil hne
    obtain rfl : ch = d := (List.cons.inj (hrest.symm.trans hr.1)).1
    exact isSign_eq_false_of_isDigit (hds ch (by simp))

/-- What may follow a sign is a number without one. -/
theorem Number.recognize_of_unsigned (h : unsigned c = .ok m) : recognize c = .ok m := by
  rw [recognize_of_not_sign (not_isSign_of_unsigned h), h]

/-- A number with a sign is what stands behind the sign. -/
theorem Number.recognize_of_sign {d : Cursor} {ch : Char} (hr : c.Reads [ch] d)
    (hsign : isSign ch) : recognize c = unsigned d := by
  unfold recognize
  rw [Cursor.eatOptional, Cursor.eat_eq_some_iff.mpr ⟨ch, hsign, hr⟩, Option.getD_some]

/-- No operator of two characters is a sign and what a number goes on with. -/
theorem Punctuation.isSymbolPair_eq_false_of_leads {a b : Char} (ha : isSign a)
    (hb : Recognizer.number.leads b) : isSymbolPair a b = false := by
  have hcheck : ∀ p ∈ symbolPairs, isSign p.1 = true → Recognizer.number.leads p.2 = false := by
    decide
  by_cases hpair : isSymbolPair a b
  · rw [hcheck (a, b) (List.contains_iff_mem.mp hpair) ha] at hb
    cases hb
  · exact Bool.eq_false_iff.mpr hpair

/-- Where a number and punctuation match, the punctuation is the sign of the number, and behind it
the number matches without its sign. -/
theorem Recognizer.sign_of_number_and_symbol {n : Match} (hn : number.run c = .ok n)
    (hm : symbol.run c = .ok m) :
    ∃ ch, isSign ch ∧ c.Reads [ch] m.next ∧ Number.unsigned m.next = .ok n := by
  obtain ⟨ch, hch, hnumber, hsymbol⟩ := exists_common_lead (getsOn_of_run hn) (getsOn_of_run hm)
  have hsign : isSign ch := by
    rcases of_leads_of_leads_symbol (by decide) hnumber hsymbol with ⟨hcomment, -⟩ | ⟨-, hsign⟩
    · cases hcomment
    · exact hsign
  obtain ⟨cs, hrest⟩ := List.head?_eq_some_iff.mp hch
  have hr : c.Reads [ch] ⟨c.pos + ch.utf8Size, cs⟩ := ⟨hrest, by simp⟩
  have hunsigned : Number.unsigned ⟨c.pos + ch.utf8Size, cs⟩ = .ok n := by
    rw [← Number.recognize_of_sign hr hsign]
    exact recognizeAt_of_run hn
  -- The punctuation ends behind the sign, since what follows there belongs to the number.
  have hnext : m.next = ⟨c.pos + ch.utf8Size, cs⟩ := by
    obtain ⟨x, hx, hleads⟩ : ∃ x ∈ cs.head?, Recognizer.number.leads x := by
      refine Number.leads_of_getsOn (c := ⟨c.pos + ch.utf8Size, cs⟩) ?_
      rw [Number.recognize_of_unsigned hunsigned]
      trivial
    obtain ⟨xs, rfl⟩ := List.head?_eq_some_iff.mp hx
    have hat : Punctuation.recognize c = .ok m := recognizeAt_of_run hm
    have hsingle : c.eat isSymbol = some ⟨c.pos + ch.utf8Size, x :: xs⟩ :=
      Cursor.eat_eq_some_iff.mpr ⟨ch, hsymbol, hr⟩
    unfold Punctuation.recognize Punctuation.recognizeSingle at hat
    rw [hrest] at hat
    dsimp only at hat
    rw [if_neg (by simp [Punctuation.isSymbolPair_eq_false_of_leads hsign hleads]), hsingle] at hat
    cases hat
    rfl
  rw [hnext]
  exact ⟨ch, hsign, hr, hunsigned⟩

/-- Where a number with a sign matches, it still does when the text goes on, provided that something
matches behind the sign up to the cut or a place in front of it. -/
theorem Recognizer.exists_number_followedBy {n m' : Match} {r : Recognizer}
    (hn : number.run c = .ok n) (hm : symbol.run c = .ok m)
    (hr : r.run (m.next.followedBy v) = .ok (m'.followedBy v)) :
    ∃ n', number.run (c.followedBy v) = .ok n' := by
  obtain ⟨ch, hsign, hread, hunsigned⟩ := sign_of_number_and_symbol hn hm
  have hcut : r.run m.next = .ok m' := run_of_followedBy hr
  have hrest := (Number.readsFrom_of_unsigned hunsigned).rest_ne_nil
  have hnumber : number.run m.next = .ok n :=
    (run_of_rest_ne_nil hrest).trans (Number.recognize_of_unsigned hunsigned)
  -- What matches behind the sign is the number itself.
  have hsymbol : r ≠ .symbol := by
    rintro rfl
    obtain ⟨ch', hsign', hread', -⟩ := sign_of_number_and_symbol hnumber hcut
    have hnot := Number.not_isSign_of_unsigned hunsigned ch' (by rw [hread'.1]; rfl)
    rw [hsign'] at hnot
    cases hnot
  obtain rfl := eq_of_run_of_run hsymbol (by decide) hcut hnumber
  have hfull : (c.followedBy v).Reads [ch] (m.next.followedBy v) :=
    Cursor.reads_followedBy_iff.mpr hread
  have hrec : Number.recognize (c.followedBy v) = .ok (m'.followedBy v) := by
    rw [Number.recognize_of_sign hfull hsign, ← Number.recognize_of_not_sign]
    · exact recognizeAt_of_run hr
    · intro x hx
      obtain ⟨y, hy⟩ := Option.isSome_iff_exists.mp (List.isSome_head?.mpr hrest)
      obtain rfl : x = y := Option.mem_unique hx (Cursor.mem_head?_followedBy hy)
      exact Number.not_isSign_of_unsigned hunsigned x hy
  exact ⟨_, (run_of_rest_ne_nil (Number.readsFrom_of_recognize hrec).rest_ne_nil).trans hrec⟩

end PascalScan
