import PascalScan.Json.Skipping
import PascalScan.Settings.Basic

/-!
# `PascalScan.Settings.Reading`: settings from JSON

Settings are read from a JSON object with the members `keywords`, an array of strings, and
`emit_whitespace`, a truth value. Either may be missing and then has its default; other members
are passed over. A known member that is given twice is refused. The same settings may be given
by position, in an array of up to two values.

A value of the wrong type is refused as soon as that is certain: an array or object at its
opening bracket, any other value once it is read, so that a text which stops short inside it is
unfinished rather than of the wrong type.
-/

set_option autoImplicit false

namespace PascalScan

open Text Json

namespace Settings

/-! ### Values of a known type -/

/-- The flaw of a value that is complete, whatever it is. -/
def flawOnceRead {α : Type} : Except Flaw α → Flaw
  | .ok _ => .mistyped
  | .error flaw => flaw

/-- The flaw of a text in which a value of some other type is due. -/
def flawOfMistyped : List Char → Flaw
  | [] => .unfinished
  | 'n' :: cs => flawOnceRead (expect ['u', 'l', 'l'] cs)
  | 't' :: cs => flawOnceRead (expect ['r', 'u', 'e'] cs)
  | 'f' :: cs => flawOnceRead (expect ['a', 'l', 's', 'e'] cs)
  | '"' :: cs => flawOnceRead (Quoted.read cs)
  | '-' :: cs => Number.flawOf cs
  | '[' :: _ => .mistyped
  | '{' :: _ => .mistyped
  | c :: cs => if isDigit c then Number.flawOf (c :: cs) else .malformed

/-- Reads a truth value. -/
def readBool (cs : List Char) : Except Flaw (Bool × List Char) :=
  match dropBlanks cs with
  | 't' :: rest => (expect ['r', 'u', 'e'] rest).map (true, ·)
  | 'f' :: rest => (expect ['a', 'l', 's', 'e'] rest).map (false, ·)
  | rest => .error (flawOfMistyped rest)

/-- Reads a string. -/
def readString (cs : List Char) : Except Flaw (List Char × List Char) :=
  match dropBlanks cs with
  | '"' :: rest => Quoted.read rest
  | rest => .error (flawOfMistyped rest)

/-- Reading a string, with the blanks in front, leaves less to read. -/
theorem length_lt_of_readString {cs s rest : List Char} (h : readString cs = .ok (s, rest)) :
    rest.length < cs.length := by
  have hle := length_dropBlanks_le cs
  unfold readString at h
  split at h
  next mid hmid =>
    have := Quoted.length_lt_of_read h
    rw [hmid, List.length_cons] at hle
    omega
  next => cases h

/-- Reads on in an array of which the strings `found` are read, latest first. -/
def readMoreStrings (found : List String) (cs : List Char) :
    Except Flaw (List String × List Char) :=
  match hcs : dropBlanks cs with
  | [] => .error .unfinished
  | c :: rest =>
    if c = ']' then .ok (found.reverse, rest)
    else if c = ',' then
      match h : readString rest with
      | .ok (s, after) =>
        have : after.length < cs.length :=
          Nat.lt_trans (length_lt_of_readString h) (length_le_of_dropBlanks_eq hcs)
        readMoreStrings (String.ofList s :: found) after
      | .error flaw => .error flaw
    else .error .malformed
termination_by cs.length

/-- Reads an array of strings. -/
def readStrings (cs : List Char) : Except Flaw (List String × List Char) :=
  match dropBlanks cs with
  | '[' :: rest =>
    match dropBlanks rest with
    | ']' :: after => .ok ([], after)
    | _ =>
      match readString rest with
      | .ok (s, after) => readMoreStrings [String.ofList s] after
      | .error flaw => .error flaw
  | rest => .error (flawOfMistyped rest)

/-! ### Settings by position -/

/-- Reads the end of an array, in which no further value is due. -/
def readArrayEnd (s : Settings) (cs : List Char) : Except Flaw (Settings × List Char) :=
  match dropBlanks cs with
  | [] => .error .unfinished
  | ']' :: rest => .ok (s, rest)
  | _ => .error .malformed

/-- Reads settings by position, after the opening bracket. -/
def readPositional (cs : List Char) : Except Flaw (Settings × List Char) :=
  match dropBlanks cs with
  | ']' :: rest => .ok (default, rest)
  | _ =>
    match readStrings cs with
    | .error flaw => .error flaw
    | .ok (keywords, rest) =>
      match dropBlanks rest with
      | ',' :: after =>
        match readBool after with
        | .error flaw => .error flaw
        | .ok (showBlanks, last) => readArrayEnd ⟨keywords, showBlanks⟩ last
      | _ => readArrayEnd { default with keywords } rest

/-! ### Settings by name -/

/-- The members read so far. -/
structure Members where
  keywords : Option (List String)
  showBlanks : Option Bool
  deriving Repr, DecidableEq

/-- The settings that the members give, with defaults for those that are missing. -/
def Members.settings (m : Members) : Settings :=
  ⟨m.keywords.getD defaultKeywords, m.showBlanks.getD true⟩

/-- Reads the value of the member with the given name, which follows a colon. -/
def readValue (m : Members) (name : String) (cs : List Char) :
    Except Flaw (Members × List Char) :=
  if name = keywordsName then
    if m.keywords.isSome then .error .mistyped
    else do
      let (keywords, rest) ← readStrings (← skipColon cs)
      return ({ m with keywords := some keywords }, rest)
  else if name = showBlanksName then
    if m.showBlanks.isSome then .error .mistyped
    else do
      let (showBlanks, rest) ← readBool (← skipColon cs)
      return ({ m with showBlanks := some showBlanks }, rest)
  else do
    return (m, ← skipValue (← skipColon cs))

/-- Reads a member. -/
def readMember (m : Members) : List Char → Except Flaw (Members × List Char)
  | [] => .error .unfinished
  | '"' :: cs =>
    match Quoted.read cs with
    | .ok (name, rest) => readValue m (String.ofList name) rest
    | .error flaw => .error flaw
  | _ => .error .malformed

/-! ### Progress -/

/-- Reading a word for what it stands for leaves no more to read than there was. -/
theorem length_le_of_map_expect {word cs rest : List Char} {b c : Bool}
    (h : (expect word cs).map (b, ·) = .ok (c, rest)) : rest.length ≤ cs.length := by
  cases hword : expect word cs with
  | error flaw => rw [hword] at h; cases h
  | ok after =>
    rw [hword] at h
    cases h
    exact length_le_of_expect hword

/-- Neither does reading a truth value. -/
theorem length_le_of_readBool {cs rest : List Char} {b : Bool} (h : readBool cs = .ok (b, rest)) :
    rest.length ≤ cs.length := by
  unfold readBool at h
  split at h
  next mid hmid =>
    have := length_le_of_dropBlanks_eq hmid
    have := length_le_of_map_expect h
    simp only [List.length_cons] at *
    omega
  next mid hmid =>
    have := length_le_of_dropBlanks_eq hmid
    have := length_le_of_map_expect h
    simp only [List.length_cons] at *
    omega
  next => cases h

/-- Nor does reading the rest of a list of strings. -/
theorem length_le_of_readMoreStrings {found words : List String} {cs rest : List Char}
    (h : readMoreStrings found cs = .ok (words, rest)) : rest.length ≤ cs.length := by
  fun_induction readMoreStrings found cs with
  | case1 => cases h
  | case2 found cs after hcs =>
    cases h
    have := length_le_of_dropBlanks_eq hcs
    simp only [List.length_cons] at this
    omega
  | case3 =>
    rename_i hlt ih
    have := ih h
    omega
  | case4 => cases h
  | case5 => cases h

/-- Nor does reading a list of strings. -/
theorem length_le_of_readStrings {words : List String} {cs rest : List Char}
    (h : readStrings cs = .ok (words, rest)) : rest.length ≤ cs.length := by
  unfold readStrings at h
  split at h
  next mid hmid =>
    have := length_le_of_dropBlanks_eq hmid
    simp only [List.length_cons] at this
    split at h
    next after hafter =>
      cases h
      have := length_le_of_dropBlanks_eq hafter
      simp only [List.length_cons] at this
      omega
    next =>
      split at h
      next s after hs =>
        have := length_lt_of_readString hs
        have := length_le_of_readMoreStrings h
        omega
      next => cases h
  next => cases h

/-- A member has at least the colon in front of its value. -/
theorem length_lt_of_readValue {m m' : Members} {name : String} {cs rest : List Char}
    (h : readValue m name cs = .ok (m', rest)) : rest.length < cs.length := by
  -- Whatever the value is, the colon in front of it is read.
  have colon {mid : List Char} (hcolon : skipColon cs = .ok mid) (hle : rest.length ≤ mid.length) :
      rest.length < cs.length :=
    Nat.lt_of_le_of_lt hle (length_lt_of_skipColon hcolon)
  unfold readValue at h
  cases hcolon : skipColon cs with
  | error flaw =>
    simp only [hcolon, bind, Except.bind] at h
    repeat' split at h
    all_goals cases h
  | ok mid =>
    simp only [hcolon, bind, Except.bind] at h
    split at h
    · split at h
      · cases h
      · cases hwords : readStrings mid with
        | error flaw => simp only [hwords] at h; cases h
        | ok found =>
          simp only [hwords] at h
          cases h
          exact colon hcolon (length_le_of_readStrings hwords)
    · split at h
      · split at h
        · cases h
        · cases hbool : readBool mid with
          | error flaw => simp only [hbool] at h; cases h
          | ok found =>
            simp only [hbool] at h
            cases h
            exact colon hcolon (length_le_of_readBool hbool)
      · cases hskip : skipValue mid with
        | error flaw => simp only [hskip] at h; cases h
        | ok after =>
          simp only [hskip] at h
          cases h
          exact colon hcolon (length_le_of_skipLoop hskip)

/-- So reading a member leaves less to read, whatever its name is. -/
theorem length_lt_of_readMember {m m' : Members} {cs rest : List Char}
    (h : readMember m cs = .ok (m', rest)) : rest.length < cs.length := by
  unfold readMember at h
  split at h
  next => cases h
  next cs =>
    split at h
    next name mid hname =>
      have := Quoted.length_lt_of_read hname
      have := length_lt_of_readValue h
      simp only [List.length_cons]
      omega
    next => cases h
  next => cases h

/-! ### Whole objects and whole texts -/

/-- Reads on in an object of which the members `m` are read. -/
def readMoreMembers (m : Members) (cs : List Char) : Except Flaw (Settings × List Char) :=
  match hcs : dropBlanks cs with
  | [] => .error .unfinished
  | c :: rest =>
    if c = '}' then .ok (m.settings, rest)
    else if c = ',' then
      match h : readMember m (dropBlanks rest) with
      | .ok (m', after) =>
        have : after.length < cs.length := by
          have := length_lt_of_readMember h
          have := length_dropBlanks_le rest
          have := length_le_of_dropBlanks_eq hcs
          simp only [List.length_cons] at this
          omega
        readMoreMembers m' after
      | .error flaw => .error flaw
    else .error .malformed
termination_by cs.length

/-- Reads settings by name, after the opening bracket. -/
def readObject (cs : List Char) : Except Flaw (Settings × List Char) :=
  match dropBlanks cs with
  | '}' :: rest => .ok (default, rest)
  | cs =>
    match readMember ⟨none, none⟩ cs with
    | .ok (m, rest) => readMoreMembers m rest
    | .error flaw => .error flaw

/-- Reads settings from a JSON text, which may have blanks around it and nothing else. -/
def ofJson? (cs : List Char) : Except Flaw Settings :=
  let found :=
    match dropBlanks cs with
    | '[' :: rest => readPositional rest
    | '{' :: rest => readObject rest
    | rest => .error (flawOfMistyped rest)
  match found with
  | .error flaw => .error flaw
  | .ok (s, rest) => if (dropBlanks rest).isEmpty then .ok s else .error .malformed

end Settings

end PascalScan
