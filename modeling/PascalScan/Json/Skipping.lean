import PascalScan.Json.Number
import PascalScan.Json.Quoted

/-!
# `PascalScan.Json.Skipping`: passing over JSON values

The value of a member that nobody asks for is passed over, but it has to be JSON. Values nest
without limit, so the arrays and objects that are still open are kept in a list, innermost first,
and one loop (`skipLoop`) says after each token what may come next.
-/

set_option autoImplicit false

namespace PascalScan.Json

open Text

/-- A bracket that is still open. -/
inductive Bracket where
  | array
  | object
  deriving Repr, DecidableEq

/-- What is due next inside a bracket. -/
inductive Due where
  /-- A value. -/
  | value
  /-- The name of a member, with its colon and then the value. -/
  | member
  /-- A comma, or the end of the innermost bracket. -/
  | separator
  deriving Repr, DecidableEq

/-- Passes over a value other than an array or an object. -/
def skipScalar : List Char → Except Flaw (List Char)
  | [] => .error .unfinished
  | 'n' :: cs => expect ['u', 'l', 'l'] cs
  | 't' :: cs => expect ['r', 'u', 'e'] cs
  | 'f' :: cs => expect ['a', 'l', 's', 'e'] cs
  | '"' :: cs => Quoted.skip cs
  | '-' :: cs => Number.skip cs
  | c :: cs => if isDigit c then Number.skip (c :: cs) else .error .malformed

/-- Passes over a colon. -/
def skipColon (cs : List Char) : Except Flaw (List Char) :=
  match dropBlanks cs with
  | [] => .error .unfinished
  | ':' :: rest => .ok rest
  | _ => .error .malformed

/-- Passes over the name of a member and its colon. -/
def skipName : List Char → Except Flaw (List Char)
  | [] => .error .unfinished
  | '"' :: cs =>
    match Quoted.skip cs with
    | .ok rest => skipColon rest
    | .error flaw => .error flaw
  | _ => .error .malformed

/-! ### Progress -/

/-- Reading a word, which may be the empty one, leaves no more to read than there was. -/
theorem length_le_of_expect {word cs rest : List Char} (h : expect word cs = .ok rest) :
    rest.length ≤ cs.length := by
  rw [expect_eq_ok_iff.mp h, List.length_append]
  omega

/-- Passing over a word, a number or a string gets on. -/
theorem length_lt_of_skipScalar {cs rest : List Char} (h : skipScalar cs = .ok rest) :
    rest.length < cs.length := by
  unfold skipScalar at h
  split at h
  next => cases h
  next => exact Nat.lt_succ_of_le (length_le_of_expect h)
  next => exact Nat.lt_succ_of_le (length_le_of_expect h)
  next => exact Nat.lt_succ_of_le (length_le_of_expect h)
  next => exact Nat.lt_succ_of_lt (Quoted.length_lt_of_skip h)
  next => exact Nat.lt_succ_of_lt (Number.length_lt_of_skip h)
  next =>
    split at h
    · exact Number.length_lt_of_skip h
    · cases h

/-- So does passing over the colon of a member. -/
theorem length_lt_of_skipColon {cs rest : List Char} (h : skipColon cs = .ok rest) :
    rest.length < cs.length := by
  have hle := length_dropBlanks_le cs
  unfold skipColon at h
  split at h
  next => cases h
  next rest' hrest =>
    cases h
    rw [hrest, List.length_cons] at hle
    omega
  next => cases h

/-- So does passing over the name of a member. -/
theorem length_lt_of_skipName {cs rest : List Char} (h : skipName cs = .ok rest) :
    rest.length < cs.length := by
  unfold skipName at h
  split at h
  next => cases h
  next cs =>
    split at h
    next mid hmid =>
      have := Quoted.length_lt_of_skip hmid
      have := length_lt_of_skipColon h
      simp only [List.length_cons]
      omega
    next => cases h
  next => cases h

/-- What dropping blanks shows comes from the text. -/
theorem length_le_of_dropBlanks_eq {cs ds : List Char} (h : dropBlanks cs = ds) :
    ds.length ≤ cs.length :=
  h ▸ length_dropBlanks_le cs

/-! ### The loop -/

/-- The token that opens a bracket is read: what is due inside it. -/
def Bracket.due : Bracket → Due
  | array => .value
  | object => .member

/-- The character that closes a bracket. -/
def Bracket.closer : Bracket → Char
  | array => ']'
  | object => '}'

/-- The bracket that a character opens. -/
def Bracket.ofOpener? : Char → Option Bracket
  | '[' => some array
  | '{' => some object
  | _ => none

/-- Passes over what is due and then over all that the open brackets ask for. -/
def skipLoop (opened : List Bracket) (due : Due) (cs : List Char) : Except Flaw (List Char) :=
  match due, opened with
  | .separator, [] => .ok cs
  | .separator, bracket :: outer =>
    match hcs : dropBlanks cs with
    | [] => .error .unfinished
    | c :: rest =>
      have : rest.length < cs.length := length_le_of_dropBlanks_eq hcs
      if c = ',' then skipLoop (bracket :: outer) bracket.due rest
      else if c = bracket.closer then skipLoop outer .separator rest
      else .error .malformed
  | .member, opened =>
    match h : skipName (dropBlanks cs) with
    | .ok rest =>
      have : rest.length < cs.length :=
        Nat.lt_of_lt_of_le (length_lt_of_skipName h) (length_dropBlanks_le cs)
      skipLoop opened .value rest
    | .error flaw => .error flaw
  | .value, opened =>
    match hcs : dropBlanks cs with
    | [] => .error .unfinished
    | c :: rest =>
      have hrest : rest.length < cs.length := length_le_of_dropBlanks_eq hcs
      match Bracket.ofOpener? c with
      | some bracket =>
        -- An empty array or object is over at once.
        match hds : dropBlanks rest with
        | [] => .error .unfinished
        | d :: after =>
          have hafter : after.length < rest.length := length_le_of_dropBlanks_eq hds
          have : after.length < cs.length := Nat.lt_trans hafter hrest
          if d = bracket.closer then skipLoop opened .separator after
          else skipLoop (bracket :: opened) bracket.due rest
      | none =>
        match h : skipScalar (c :: rest) with
        | .ok after =>
          have : after.length < cs.length :=
            Nat.lt_of_lt_of_le (length_lt_of_skipScalar h) (length_le_of_dropBlanks_eq hcs)
          skipLoop opened .separator after
        | .error flaw => .error flaw
termination_by cs.length

/-- Passes over one value. -/
def skipValue (cs : List Char) : Except Flaw (List Char) := skipLoop [] .value cs

/-- What the loop leaves is part of what it was given. -/
theorem length_le_of_skipLoop {opened : List Bracket} {due : Due} {cs rest : List Char}
    (h : skipLoop opened due cs = .ok rest) : rest.length ≤ cs.length := by
  fun_induction skipLoop opened due cs with
  | case1 => cases h; simp
  | case2 | case5 | case7 | case8 | case9 | case13 => cases h
  | case3 | case4 | case6 | case10 | case11 | case12 =>
    -- The loop goes on with less to read.
    rename_i ih
    have := ih h
    omega

end PascalScan.Json
