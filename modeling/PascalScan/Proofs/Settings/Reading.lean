import PascalScan.Proofs.Json.Values
import PascalScan.Proofs.Settings.Members

/-!
# `PascalScan.Proofs.Settings.Reading`: settings are read from every text that gives them

`Written ms text` is the language of the texts that give the members `ms`: an object with the members
in any order, each with its name spelled in any way, or an array with the values by position. There
may be blanks between all tokens, and the value of a member with another name is any JSON value.

Each reading function has one law. It says what the function answers to a text of the language with
anything behind it, and leaves what comes behind. A text that gives no member twice is read as
`settingsOf ms`, any other one is refused (`ofJson?_eq_of_written`). Nothing else of the text
matters: not the order of its members, not the members with other names, and not whether it is an
object or an array (`ofJson_of_written`).
-/

set_option autoImplicit false

namespace PascalScan.Settings

open Text Json

/-! ### The language -/

/-- A string between quotes. -/
inductive StringText : String → List Char → Prop where
  | mk {s : String} {inside : List Char} (h : Spells inside s.toList) :
      StringText s ('"' :: (inside ++ ['"']))

/-- A truth value. -/
inductive BoolText : Bool → List Char → Prop where
  | yes : BoolText true ['t', 'r', 'u', 'e']
  | no : BoolText false ['f', 'a', 'l', 's', 'e']

/-- At least one item, with commas between the items and blanks around each. -/
inductive Listed {α : Type} (Item : α → List Char → Prop) : List α → List Char → Prop where
  | one {a : α} {before text after : List Char} (hbefore : AllBlank before)
      (hafter : AllBlank after) (ha : Item a text) : Listed Item [a] (before ++ (text ++ after))
  | more {a : α} {as : List α} {before text after rest : List Char} (hbefore : AllBlank before)
      (hafter : AllBlank after) (ha : Item a text) (has : Listed Item as rest) :
      Listed Item (a :: as) (before ++ (text ++ (after ++ ',' :: rest)))

/-- A bracket around items. -/
inductive Enclosed {α : Type} (b : Bracket) (Item : α → List Char → Prop) :
    List α → List Char → Prop where
  | empty {ws : List Char} (hws : AllBlank ws) :
      Enclosed b Item [] (b.opener :: (ws ++ [b.closer]))
  | full {as : List α} {inside : List Char} (has : Listed Item as inside) :
      Enclosed b Item as (b.opener :: (inside ++ [b.closer]))

/-- The text is a value for the member. -/
def Member.IsValue : Member → List Char → Prop
  | keywords words, text => Enclosed .array StringText words text
  | showBlanks shown, text => BoolText shown text
  | other _ _ _, text => WellFormed .value text

/-- The name of the member, a colon and a value. -/
inductive MemberText : Member → List Char → Prop where
  | mk {m : Member} {name before after value : List Char} (hname : Spells name m.name.toList)
      (hbefore : AllBlank before) (hafter : AllBlank after) (hvalue : m.IsValue value) :
      MemberText m ('"' :: (name ++ '"' :: (before ++ ':' :: (after ++ value))))

/-- The members that can be given by position. -/
inductive Positional : List Member → Prop where
  | none : Positional []
  | keywords (words : List String) : Positional [.keywords words]
  | both (words : List String) (shown : Bool) : Positional [.keywords words, .showBlanks shown]

/-- The text gives the members. -/
inductive Written : List Member → List Char → Prop where
  | object {ms : List Member} {before text after : List Char} (hbefore : AllBlank before)
      (hafter : AllBlank after) (h : Enclosed .object MemberText ms text) :
      Written ms (before ++ (text ++ after))
  | array {ms : List Member} {before text after : List Char} (hms : Positional ms)
      (hbefore : AllBlank before) (hafter : AllBlank after)
      (h : Enclosed .array Member.IsValue ms text) : Written ms (before ++ (text ++ after))

/-- Items begin as the first of them does, behind blanks. -/
theorem Listed.exists_start {α : Type} {Item : α → List Char → Prop} {as : List α}
    {text : List Char} {c : Char} (h : Listed Item as text) (hc : isBlank c = false)
    (hstart : ∀ a s, Item a s → ∃ more, s = c :: more) (rest : List Char) :
    ∃ more, dropBlanks (text ++ rest) = c :: more := by
  cases h with
  | one hbefore _ ha | more hbefore _ ha _ =>
    obtain ⟨more, rfl⟩ := hstart _ _ ha
    rw [List.append_assoc, dropBlanks_append hbefore]
    exact ⟨_, dropBlanks_cons hc _⟩

/-- A bracket begins with its opener, whatever is in it. -/
theorem Enclosed.exists_start {α : Type} {b : Bracket} {Item : α → List Char → Prop} {as : List α}
    {before text : List Char} (h : Enclosed b Item as text) (hbefore : AllBlank before)
    (rest : List Char) : ∃ more, dropBlanks (before ++ (text ++ rest)) = b.opener :: more := by
  have hblank : isBlank b.opener = false := by cases b <;> decide
  rw [dropBlanks_append hbefore]
  cases h with
  | empty | full => exact ⟨_, dropBlanks_cons hblank _⟩

/-- A string begins with a quote. -/
theorem StringText.exists_start (s : String) (text : List Char) (h : StringText s text) :
    ∃ more, text = '"' :: more := by
  cases h
  exact ⟨_, rfl⟩

/-- So does a member, with its name. -/
theorem MemberText.exists_start (m : Member) (text : List Char) (h : MemberText m text) :
    ∃ more, text = '"' :: more := by
  cases h
  exact ⟨_, rfl⟩

/-! ### Strings and truth values -/

section
variable {before : List Char} (hbefore : AllBlank before)
include hbefore

/-- A string is read from any text that spells it, with blanks in front. -/
theorem readString_append {s : String} {text : List Char} (h : StringText s text)
    (rest : List Char) : readString (before ++ (text ++ rest)) = .ok (s.toList, rest) := by
  obtain ⟨h⟩ := h
  rw [readString, dropBlanks_append hbefore, List.cons_append, List.append_assoc,
    dropBlanks_cons (by decide)]
  exact Quoted.read_of_spells h rest

/-- So is a truth value. -/
theorem readBool_append {shown : Bool} {text : List Char} (h : BoolText shown text)
    (rest : List Char) : readBool (before ++ (text ++ rest)) = .ok (shown, rest) := by
  rw [readBool, dropBlanks_append hbefore]
  cases h with
  | yes =>
    have hword : expect ['r', 'u', 'e'] ('r' :: 'u' :: 'e' :: rest) = .ok rest :=
      expect_eq_ok_iff.mpr rfl
    rw [List.cons_append, dropBlanks_cons (by decide)]
    exact congrArg (Except.map (true, ·)) hword
  | no =>
    have hword : expect ['a', 'l', 's', 'e'] ('a' :: 'l' :: 's' :: 'e' :: rest) = .ok rest :=
      expect_eq_ok_iff.mpr rfl
    rw [List.cons_append, dropBlanks_cons (by decide)]
    exact congrArg (Except.map (false, ·)) hword

end

/-! ### Arrays of strings -/

/-- Reads at least one more string. This is what the array asks for behind its bracket and behind
each comma. -/
def readStringsOn (found : List String) (cs : List Char) : Except Flaw (List String × List Char) :=
  (readString cs).bind fun s => readMoreStrings (String.ofList s.1 :: found) s.2

/-- Behind a string, a closing bracket ends the list. -/
theorem readMoreStrings_closer {ws : List Char} (h : AllBlank ws) (found : List String)
    (cs : List Char) : readMoreStrings found (ws ++ ']' :: cs) = .ok (found.reverse, cs) := by
  rw [readMoreStrings]
  simp only
  rw [dropBlanks_append h, dropBlanks_cons (by decide)]
  rfl

/-- A comma asks for another string. -/
theorem readMoreStrings_comma {ws : List Char} (h : AllBlank ws) (found : List String)
    (cs : List Char) : readMoreStrings found (ws ++ ',' :: cs) = readStringsOn found cs := by
  rw [readMoreStrings]
  simp only
  rw [dropBlanks_append h, dropBlanks_cons (by decide)]
  simp only [Char.reduceEq, if_false, if_true, readStringsOn]
  cases readString cs <;> rfl

/-- So all strings of a list are read, in their order. -/
theorem readStringsOn_append {words : List String} {text : List Char}
    (h : Listed StringText words text) (found : List String) (rest : List Char) :
    readStringsOn found (text ++ ']' :: rest) = .ok (found.reverse ++ words, rest) := by
  induction h generalizing found with
  | @one s before text after hbefore hafter hs =>
    rw [List.append_assoc, List.append_assoc, readStringsOn, readString_append hbefore hs]
    simp only [Except.bind, String.ofList_toList]
    rw [readMoreStrings_closer hafter, List.reverse_cons]
  | @more s words before text after more hbefore hafter hs _ ih =>
    rw [List.append_assoc, List.append_assoc, List.append_assoc, readStringsOn,
      readString_append hbefore hs]
    simp only [Except.bind, String.ofList_toList, List.cons_append]
    rw [readMoreStrings_comma hafter, ih, List.reverse_cons, List.append_assoc, List.singleton_append]

/-- An array that is not over at once has at least one string. -/
theorem readStrings_eq_readStringsOn {cs inside more : List Char} (h : dropBlanks cs = '[' :: inside)
    (hinside : dropBlanks inside = '"' :: more) : readStrings cs = readStringsOn [] inside := by
  rw [readStrings, h]
  simp only
  rw [hinside, readStringsOn]
  split
  next hcloser => cases hcloser
  next => cases readString inside <;> rfl

/-- A list of strings is read from its brackets, whether there is anything between them or not. -/
theorem readStrings_append {words : List String} {before text : List Char}
    (hbefore : AllBlank before) (h : Enclosed .array StringText words text) (rest : List Char) :
    readStrings (before ++ (text ++ rest)) = .ok (words, rest) := by
  cases h with
  | empty hws =>
    rw [readStrings, dropBlanks_append hbefore, List.cons_append, List.append_assoc,
      dropBlanks_cons (by decide)]
    simp only [Bracket.opener]
    rw [dropBlanks_append hws]
    rfl
  | @full _ inside has =>
    have hopen : dropBlanks (before ++ ('[' :: (inside ++ [']']) ++ rest)) =
        '[' :: (inside ++ ']' :: rest) := by
      rw [dropBlanks_append hbefore, List.cons_append, List.append_assoc,
        dropBlanks_cons (by decide), List.singleton_append]
    obtain ⟨more, hmore⟩ := has.exists_start (by decide) StringText.exists_start (']' :: rest)
    calc readStrings (before ++ ('[' :: (inside ++ [']']) ++ rest))
        = readStringsOn [] (inside ++ ']' :: rest) := readStrings_eq_readStringsOn hopen hmore
      _ = .ok (words, rest) := readStringsOn_append has [] rest

/-! ### Members by name -/

section
variable {name before after value : List Char} (m : Members) (member : Member)

/-- A member is read as far as its value goes, and taken if it is not there yet. -/
theorem readValue_append (hbefore : AllBlank before) (hafter : AllBlank after)
    (hvalue : member.IsValue value) {rest : List Char} (hrest : EndsValue rest) :
    readValue m member.name (before ++ ':' :: (after ++ (value ++ rest))) =
      (m.add member).map (·, rest) := by
  have hcolon := skipColon_append hbefore (after ++ (value ++ rest))
  -- A member that is there already is refused before its colon is looked for, by the reader as by
  -- `Members.add`.
  cases member with
  | keywords words =>
    have hname : (Member.keywords words).name = keywordsName := rfl
    have hread := readStrings_append hafter hvalue rest
    rw [readValue, if_pos hname, Members.add]
    split
    · rfl
    · simp only [hcolon, hread, bind, Except.bind]
      rfl
  | showBlanks shown =>
    have hname : (Member.showBlanks shown).name = showBlanksName := rfl
    have hother : showBlanksName ≠ keywordsName := by decide
    have hread := readBool_append hafter hvalue rest
    rw [readValue, hname, if_neg hother, if_pos rfl, Members.add]
    split
    · rfl
    · simp only [hcolon, hread, bind, Except.bind]
      rfl
  | other name hkeywords hshowBlanks =>
    have hname : (Member.other name hkeywords hshowBlanks).name = name := rfl
    have hskip := skipValue_of_wellFormed hafter hvalue hrest
    rw [readValue, hname, if_neg hkeywords, if_neg hshowBlanks]
    simp only [hcolon, hskip, bind, Except.bind]
    rfl

end

/-- A member is read from its name, colon and value, and is taken unless it is there already. -/
theorem readMember_append {member : Member} {text : List Char} (h : MemberText member text)
    (m : Members) {rest : List Char} (hrest : EndsValue rest) :
    readMember m (text ++ rest) = (m.add member).map (·, rest) := by
  obtain ⟨hname, hbefore, hafter, hvalue⟩ := h
  simp only [List.cons_append, List.append_assoc]
  rw [readMember, Quoted.read_of_spells hname]
  simp only [String.ofList_toList]
  exact readValue_append m member hbefore hafter hvalue hrest

/-- Reads at least one more member. This is what the object asks for behind its bracket and behind
each comma. -/
def readMembersOn (m : Members) (cs : List Char) : Except Flaw (Settings × List Char) :=
  (readMember m (dropBlanks cs)).bind fun found => readMoreMembers found.1 found.2

/-- Behind a member, a closing brace ends the object. -/
theorem readMoreMembers_closer {ws : List Char} (h : AllBlank ws) (m : Members) (cs : List Char) :
    readMoreMembers m (ws ++ '}' :: cs) = .ok (m.settings, cs) := by
  rw [readMoreMembers]
  simp only
  rw [dropBlanks_append h, dropBlanks_cons (by decide)]
  rfl

/-- A comma asks for another member. -/
theorem readMoreMembers_comma {ws : List Char} (h : AllBlank ws) (m : Members) (cs : List Char) :
    readMoreMembers m (ws ++ ',' :: cs) = readMembersOn m cs := by
  rw [readMoreMembers]
  simp only
  rw [dropBlanks_append h, dropBlanks_cons (by decide)]
  simp only [Char.reduceEq, if_false, if_true, readMembersOn]
  cases readMember m (dropBlanks cs) <;> rfl

/-- One more member, of which the blanks in front are read. -/
theorem readMembersOn_member {member : Member} {before text rest : List Char}
    (hbefore : AllBlank before) (h : MemberText member text) (m : Members)
    (hrest : EndsValue rest) :
    readMembersOn m (before ++ (text ++ rest)) = (m.add member).bind (readMoreMembers · rest) := by
  have hdrop : dropBlanks (before ++ (text ++ rest)) = text ++ rest := by
    obtain ⟨more, rfl⟩ := MemberText.exists_start member text h
    rw [dropBlanks_append hbefore, List.cons_append, dropBlanks_cons (by decide)]
  rw [readMembersOn, hdrop, readMember_append h m hrest]
  cases m.add member <;> rfl

/-- So all members are taken one after the other, up to the first that is refused. -/
theorem readMembersOn_append {ms : List Member} {text : List Char} (h : Listed MemberText ms text)
    (m : Members) (rest : List Char) :
    readMembersOn m (text ++ '}' :: rest) = (m.addAll ms).map fun m' => (m'.settings, rest) := by
  induction h generalizing m with
  | @one member before text after hbefore hafter hmember =>
    have hends : EndsValue (after ++ '}' :: rest) :=
      hafter.endsValue_append (endsValue_cons (by decide) rest)
    rw [List.append_assoc, List.append_assoc, readMembersOn_member hbefore hmember m hends,
      Members.addAll_cons]
    cases m.add member with
    | error flaw => rfl
    | ok m' => exact readMoreMembers_closer hafter m' rest
  | @more member ms before text after more hbefore hafter hmember _ ih =>
    have hends : EndsValue (after ++ ',' :: (more ++ '}' :: rest)) :=
      hafter.endsValue_append (endsValue_cons (by decide) _)
    rw [List.append_assoc, List.append_assoc, List.append_assoc, List.cons_append,
      readMembersOn_member hbefore hmember m hends, Members.addAll_cons]
    cases m.add member with
    | error flaw => rfl
    | ok m' => exact (readMoreMembers_comma hafter m' _).trans (ih m')

/-- An object that is not over at once has at least one member. -/
theorem readObject_eq_readMembersOn {cs more : List Char} (h : dropBlanks cs = '"' :: more) :
    readObject cs = readMembersOn ⟨none, none⟩ cs := by
  rw [readObject, readMembersOn, h]
  split
  next hcloser => cases hcloser
  next => cases readMember ⟨none, none⟩ ('"' :: more) <;> rfl

/-- The object behind its bracket. -/
theorem readObject_append {ms : List Member} {text : List Char}
    (h : Enclosed .object MemberText ms text) (rest : List Char) :
    ∃ inside, text ++ rest = '{' :: inside ∧
      readObject inside = (Members.addAll ⟨none, none⟩ ms).map fun m => (m.settings, rest) := by
  cases h with
  | @empty ws hws =>
    refine ⟨ws ++ '}' :: rest, by simp [Bracket.opener, Bracket.closer], ?_⟩
    rw [readObject, dropBlanks_append hws, dropBlanks_cons (by decide)]
    rfl
  | @full _ inside has =>
    refine ⟨inside ++ '}' :: rest, by simp [Bracket.opener, Bracket.closer], ?_⟩
    obtain ⟨more, hmore⟩ := has.exists_start (by decide) MemberText.exists_start ('}' :: rest)
    rw [readObject_eq_readMembersOn hmore]
    exact readMembersOn_append has ⟨none, none⟩ rest

/-! ### Values by position -/

/-- Behind the values by position, only the closing bracket may come. -/
theorem readArrayEnd_append {ws : List Char} (h : AllBlank ws) (s : Settings) (rest : List Char) :
    readArrayEnd s (ws ++ ']' :: rest) = .ok (s, rest) := by
  rw [readArrayEnd, dropBlanks_append h, dropBlanks_cons (by decide)]
  rfl

/-- The array behind its bracket. -/
theorem readPositional_append {ms : List Member} {text : List Char} (hms : Positional ms)
    (h : Enclosed .array Member.IsValue ms text) (rest : List Char) :
    ∃ inside, text ++ rest = '[' :: inside ∧ readPositional inside = .ok (settingsOf ms, rest) := by
  cases hms with
  | none =>
    cases h with
    | @empty ws hws =>
      refine ⟨ws ++ ']' :: rest, by simp [Bracket.opener, Bracket.closer], ?_⟩
      rw [readPositional, dropBlanks_append hws, dropBlanks_cons (by decide)]
      rfl
    | full has => cases has
  | keywords words =>
    cases h with
    | full has =>
      cases has with
      | @one _ before value after hbefore hafter hvalue =>
        -- The reader first asks whether the array is over. It is not where the words begin.
        have hwords : Enclosed .array StringText words value := hvalue
        obtain ⟨more, hmore⟩ := hwords.exists_start hbefore (after ++ ']' :: rest)
        refine ⟨before ++ (value ++ (after ++ ']' :: rest)),
          by simp [Bracket.opener, Bracket.closer], ?_⟩
        rw [readPositional, hmore]
        simp only [Bracket.opener, readStrings_append hbefore hwords]
        rw [dropBlanks_append hafter, dropBlanks_cons (by decide)]
        exact readArrayEnd_append hafter _ rest
      | more _ _ _ has => cases has
  | both words shown =>
    cases h with
    | full has =>
      cases has with
      | @more _ _ before value after inside hbefore hafter hvalue has =>
        cases has with
        | @one _ before' value' after' hbefore' hafter' hvalue' =>
          have hwords : Enclosed .array StringText words value := hvalue
          obtain ⟨more, hmore⟩ := hwords.exists_start hbefore
            (after ++ ',' :: (before' ++ (value' ++ (after' ++ ']' :: rest))))
          refine ⟨before ++ (value ++ (after ++ ',' ::
            (before' ++ (value' ++ (after' ++ ']' :: rest))))),
            by simp [Bracket.opener, Bracket.closer], ?_⟩
          rw [readPositional, hmore]
          simp only [Bracket.opener, readStrings_append hbefore hwords]
          rw [dropBlanks_append hafter, dropBlanks_cons (by decide)]
          simp only [readBool_append hbefore' hvalue']
          exact readArrayEnd_append hafter' _ rest
        | more _ _ _ has => cases has

/-! ### Whole texts -/

/-- By position, nothing can be given twice. -/
theorem Positional.not_repeats {ms : List Member} (h : Positional ms) : ¬Repeats ms := by
  cases h <;> simp [Repeats]

/-- Each text of the language has one answer, which the members decide. -/
theorem ofJson?_eq_of_written {ms : List Member} {text : List Char} (h : Written ms text) :
    ofJson? text = if Repeats ms then .error .mistyped else .ok (settingsOf ms) := by
  have hend {after : List Char} (hafter : AllBlank after) : (dropBlanks after).isEmpty := by
    have hdrop := dropBlanks_append hafter []
    rw [List.append_nil] at hdrop
    rw [hdrop]
    rfl
  cases h with
  | @object before text after hbefore hafter h =>
    obtain ⟨inside, hinside, hread⟩ := readObject_append h after
    rw [ofJson?, dropBlanks_append hbefore, hinside, dropBlanks_cons (by decide),
      ← Members.settings_addAll]
    simp only [hread]
    -- The object is read as its members are taken, and then only blanks are left.
    cases Members.addAll ⟨none, none⟩ ms with
    | error flaw => rfl
    | ok m => simp [Except.map, hend hafter]
  | @array before text after hms hbefore hafter h =>
    obtain ⟨inside, hinside, hread⟩ := readPositional_append hms h after
    rw [ofJson?, dropBlanks_append hbefore, hinside, dropBlanks_cons (by decide),
      if_neg hms.not_repeats]
    simp [hread, hend hafter]

/-- A text that gives no member twice is read as the settings that its members give, with the
default for each that is missing. A text that does give a member twice is refused. And any text with
the same members is read alike, whatever their order, whichever other members there are, and whether
it is an object or an array. -/
theorem ofJson_of_written {ms : List Member} {text : List Char} (h : Written ms text) :
    (¬Repeats ms → ofJson? text = .ok (settingsOf ms)) ∧
      (Repeats ms → ofJson? text = .error .mistyped) ∧
      ∀ ms' text', Written ms' text' →
        List.Perm (ms.filter Member.isKnown) (ms'.filter Member.isKnown) →
        ofJson? text = ofJson? text' := by
  have hanswer := ofJson?_eq_of_written h
  refine ⟨?_, ?_, ?_⟩
  · intro hms
    rw [hanswer, if_neg hms]
  · intro hms
    rw [hanswer, if_pos hms]
  · intro ms' text' h' hperm
    rw [hanswer, ofJson?_eq_of_written h']
    by_cases hms : Repeats ms
    · rw [if_pos hms, if_pos ((repeats_iff_of_perm hperm).mp hms)]
    · rw [if_neg hms, if_neg (mt (repeats_iff_of_perm hperm).mpr hms),
        settingsOf_eq_of_perm hperm hms]

/-- A member whose value holds brackets in strings and in other brackets, a name with an escape in
it, and blanks around all. The same words can be given by position, and they cannot be given twice. -/
theorem ofJson_of_written_of_brackets :
    ofJson? [' ', '{', '"', 'x', '"', ':', '[', '-', '0', '.', '5', 'e', '1', ',', '{', '"', ']', '"',
      ' ', ':', '"', '}', '"', '}', ']', ',', '"', '\\', 'u', '0', '0', '6', 'B', 'e', 'y', 'w', 'o',
      'r', 'd', 's', '"', ':', '[', '"', 'i', 'f', '"', ']', '}', '\n'] = .ok ⟨["if"], true⟩ ∧
    ofJson? ['[', '[', '"', 'i', 'f', '"', ']', ']'] = .ok ⟨["if"], true⟩ ∧
    ofJson? ['{', '"', 'k', 'e', 'y', 'w', 'o', 'r', 'd', 's', '"', ':', '[', ']', ',', '"', 'k', 'e',
      'y', 'w', 'o', 'r', 'd', 's', '"', ':', '[', ']', '}'] = .error .mistyped := by
  have hnil := allBlank_nil
  have hspace : AllBlank [' '] := by simp [AllBlank]
  have hline : AllBlank ['\n'] := by simp [AllBlank]
  have plain (s : String) (h : s.toList.all fun c => decide (IsPlain c)) :
      Spells s.toList s.toList :=
    spells_self fun c hc => of_decide_eq_true (List.all_eq_true.mp h c hc)
  have digits (ds : List Char) (hne : ds ≠ [])
      (h : ds.all ((Number.alphabet .decimal).contains ·)) : Number.Digits .decimal ds :=
    ⟨hne, fun c hc => List.contains_iff_mem.mp (List.all_eq_true.mp h c hc)⟩
  -- The value of the unknown member, from the inside out.
  have hnumber : WellFormed .value ['-', '0', '.', '5', 'e', '1'] :=
    .number (.negative (.mk ⟨digits ['0'] (by simp) (by decide), by simp⟩
      (.present (digits ['5'] (by simp) (by decide)))
      (@IsExponent.present 'e' [] ['1'] (by decide) (by decide)
        (digits ['1'] (by simp) (by decide)))))
  have hbracket (c : Char) (hc : IsPlain c) : IsStringText [c] := .plain hc .nil
  have hinner := WellFormed.full (b := .object)
    (.member (hbracket ']' (by decide)) hspace hnil (.string (hbracket '}' (by decide))))
  have harray := WellFormed.full (b := .array) (.more (.element hnumber) (.element hinner))
  have hother : MemberText (.other "x" (by decide) (by decide)) _ :=
    .mk (plain "x" (by decide)) hnil hnil harray
  have hif : StringText "if" _ := .mk (plain "if" (by decide))
  have hwords : Member.IsValue (.keywords ["if"]) ['[', '"', 'i', 'f', '"', ']'] :=
    Enclosed.full (b := .array) (.one hnil hnil hif)
  -- The first letter of the known name is written as an escape.
  have hescape : FourDigits ['0', '0', '6', 'B'] 'k'.toNat :=
    @FourDigits.mk '0' '0' '6' 'B' 0 0 6 11 (.inl rfl) (.inl rfl) (.inl rfl) (.inr rfl)
  have hname : Spells (['\\', 'u', '0', '0', '6', 'B'] ++ "eywords".toList) keywordsName.toList :=
    .cons (.unit hescape) (plain "eywords" (by decide))
  have hkeywords : MemberText (.keywords ["if"]) _ := .mk hname hnil hnil hwords
  have hagain : MemberText (.keywords []) _ :=
    .mk (plain keywordsName (by decide)) hnil hnil (Enclosed.empty hnil)
  have hobject := ofJson_of_written
    (.object hspace hline (.full (.more hnil hnil hother (.one hnil hnil hkeywords))))
  have hposition : Written [.keywords ["if"]] _ :=
    .array (.keywords _) hnil hnil (.full (.one hnil hnil hwords))
  have htwice := ofJson_of_written
    (.object hnil hnil (.full (.more hnil hnil hagain (.one hnil hnil hagain))))
  have hread := hobject.1 (by decide)
  exact ⟨hread, (hobject.2.2 _ _ hposition (.refl _)).symm.trans hread, htwice.2.1 (by decide)⟩

end PascalScan.Settings
