import PascalScan.Json.Basic
import PascalScan.Text.Bytes

/-!
# `PascalScan.Json.Quoted`: JSON strings

`write` puts a string between quotes; `read` takes what follows an opening quote. A backslash
escapes: one character for quotes, backslashes and the usual control characters, or `u` and four
hexadecimal digits for a unit of UTF-16. Characters outside the Basic Multilingual Plane take two
such units, so a lone half of a pair names no character and is refused.

`skip` passes over a string whose contents do not matter. It asks less than `read`: a lone half
is as good as any other four digits.
-/

set_option autoImplicit false

namespace PascalScan.Json.Quoted

open Text

/-! ### Writing -/

/-- A hexadecimal digit below ten, or one of `a` to `f`. -/
def hexDigit (n : Nat) : Char :=
  if n < 10 then Char.ofNat ('0'.toNat + n) else Char.ofNat ('a'.toNat + n - 10)

/-- How a character stands between quotes: control characters are escaped, the frequent ones in
two characters, and so are quotes and backslashes; all else stands for itself. -/
def writeChar (c : Char) : List Char :=
  if c = '"' then ['\\', '"']
  else if c = '\\' then ['\\', '\\']
  else if c = '\x08' then ['\\', 'b']
  else if c = '\x0c' then ['\\', 'f']
  else if c = '\n' then ['\\', 'n']
  else if c = '\r' then ['\\', 'r']
  else if c = '\t' then ['\\', 't']
  else if c.toNat < 0x20 then
    ['\\', 'u', '0', '0', hexDigit (c.toNat / 16), hexDigit (c.toNat % 16)]
  else [c]

/-- A string between quotes. -/
def write (s : List Char) : List Char := '"' :: (s.flatMap writeChar ++ ['"'])

/-! ### Escapes -/

/-- The value of a hexadecimal digit, in either case. -/
def hexValue? (c : Char) : Option Nat :=
  if c.isDigit then some (c.toNat - '0'.toNat)
  else if 'a' ≤ c ∧ c ≤ 'f' then some (c.toNat - 'a'.toNat + 10)
  else if 'A' ≤ c ∧ c ≤ 'F' then some (c.toNat - 'A'.toNat + 10)
  else none

/-- The value of four hexadecimal digits. -/
def hexValue4? (a b c d : Char) : Option Nat := do
  return ((← hexValue? a) * 16 + (← hexValue? b)) * 256 + ((← hexValue? c) * 16 + (← hexValue? d))

/-- Reads four hexadecimal digits. Where fewer than four bytes are left the text stops short;
otherwise something else stands there. -/
def readHex4 : List Char → Except Flaw (Nat × List Char)
  | a :: b :: c :: d :: cs =>
    match hexValue4? a b c d with
    | some n => .ok (n, cs)
    | none => .error .malformed
  | cs => .error (if byteSize cs < 4 then .unfinished else .malformed)

/-- The first unit of a pair. -/
def isLeadingUnit (n : Nat) : Bool := 0xD800 ≤ n && n ≤ 0xDBFF

/-- The second unit of a pair. -/
def isTrailingUnit (n : Nat) : Bool := 0xDC00 ≤ n && n ≤ 0xDFFF

/-- The character that two units stand for. -/
def charOfPair (leading trailing : Nat) : Char :=
  Char.ofNat (0x10000 + (leading - 0xD800) * 0x400 + (trailing - 0xDC00))

/-- Reads the second unit of a pair, with its backslash and `u`. -/
def readTrailing (leading : Nat) : List Char → Except Flaw (Char × List Char)
  | '\\' :: 'u' :: cs =>
    match readHex4 cs with
    | .ok (n, rest) =>
      if isTrailingUnit n then .ok (charOfPair leading n, rest) else .error .malformed
    | .error flaw => .error flaw
  | [] => .error .unfinished
  | ['\\'] => .error .unfinished
  | _ => .error .malformed

/-- Reads what follows a backslash and `u`. -/
def readUnits (cs : List Char) : Except Flaw (Char × List Char) :=
  match readHex4 cs with
  | .ok (n, rest) =>
    if isTrailingUnit n then .error .malformed
    else if isLeadingUnit n then readTrailing n rest
    else .ok (Char.ofNat n, rest)
  | .error flaw => .error flaw

/-- The character that one character after a backslash stands for. -/
def unescape? : Char → Option Char
  | '"' => some '"'
  | '\\' => some '\\'
  | '/' => some '/'
  | 'b' => some '\x08'
  | 'f' => some '\x0c'
  | 'n' => some '\n'
  | 'r' => some '\r'
  | 't' => some '\t'
  | _ => none

/-- Reads what follows a backslash. -/
def readEscape : List Char → Except Flaw (Char × List Char)
  | [] => .error .unfinished
  | 'u' :: cs => readUnits cs
  | c :: cs =>
    match unescape? c with
    | some d => .ok (d, cs)
    | none => .error .malformed

/-- Passes over what follows a backslash. -/
def skipEscape : List Char → Except Flaw (List Char)
  | [] => .error .unfinished
  | 'u' :: cs =>
    match readHex4 cs with
    | .ok (_, rest) => .ok rest
    | .error flaw => .error flaw
  | c :: cs => if (unescape? c).isSome then .ok cs else .error .malformed

/-! ### Progress -/

/-- Four digits are read. -/
theorem length_lt_of_readHex4 {cs rest : List Char} {n : Nat} (h : readHex4 cs = .ok (n, rest)) :
    rest.length < cs.length := by
  unfold readHex4 at h
  split at h
  next a b c d cs =>
    split at h
    · cases h
      simp only [List.length_cons]
      omega
    · cases h
  next => cases h

/-- The second unit of a pair is not empty. -/
theorem length_lt_of_readTrailing {leading : Nat} {cs rest : List Char} {c : Char}
    (h : readTrailing leading cs = .ok (c, rest)) : rest.length < cs.length := by
  unfold readTrailing at h
  split at h
  next cs =>
    split at h
    next n rest' hn =>
      split at h
      · obtain ⟨-, rfl⟩ := Prod.mk.inj (Except.ok.inj h)
        have := length_lt_of_readHex4 hn
        simp only [List.length_cons]
        omega
      · cases h
    next => cases h
  all_goals cases h

/-- A unit or a pair of them is not empty. -/
theorem length_lt_of_readUnits {cs rest : List Char} {c : Char}
    (h : readUnits cs = .ok (c, rest)) : rest.length < cs.length := by
  unfold readUnits at h
  split at h
  next n rest' hn =>
    have hlt := length_lt_of_readHex4 hn
    split at h
    · cases h
    · split at h
      · exact Nat.lt_trans (length_lt_of_readTrailing h) hlt
      · cases h
        exact hlt
  next => cases h

/-- Neither is what follows a backslash, where it is read. -/
theorem length_lt_of_readEscape {cs rest : List Char} {c : Char}
    (h : readEscape cs = .ok (c, rest)) : rest.length < cs.length := by
  unfold readEscape at h
  split at h
  next => cases h
  next cs =>
    have := length_lt_of_readUnits h
    simp only [List.length_cons]
    omega
  next => split at h <;> cases h; simp

/-- Passing over what follows a backslash gets on as well. -/
theorem length_lt_of_skipEscape {cs rest : List Char} (h : skipEscape cs = .ok rest) :
    rest.length < cs.length := by
  unfold skipEscape at h
  split at h
  next => cases h
  next cs =>
    split at h
    next n rest' hn =>
      cases h
      have := length_lt_of_readHex4 hn
      simp only [List.length_cons]
      omega
    next => cases h
  next => split at h <;> cases h; simp

/-! ### Reading -/

/-- Reads on in a string of which `found` is read, latest first, up to and including the closing
quote. -/
def readLoop (found : List Char) : List Char → Except Flaw (List Char × List Char)
  | [] => .error .unfinished
  | c :: cs =>
    if c = '"' then .ok (found.reverse, cs)
    else if c = '\\' then
      match h : readEscape cs with
      | .ok (d, rest) =>
        have : rest.length < cs.length := length_lt_of_readEscape h
        readLoop (d :: found) rest
      | .error flaw => .error flaw
    else if c.toNat < 0x20 then .error .malformed
    else readLoop (c :: found) cs
termination_by cs => cs.length

/-- Reads a string, after its opening quote, up to and including the closing quote. -/
def read (cs : List Char) : Except Flaw (List Char × List Char) := readLoop [] cs

/-- Passes over a string, after its opening quote, up to and including the closing quote. -/
def skip : List Char → Except Flaw (List Char)
  | [] => .error .unfinished
  | c :: cs =>
    if c = '"' then .ok cs
    else if c = '\\' then
      match h : skipEscape cs with
      | .ok rest =>
        have : rest.length < cs.length := length_lt_of_skipEscape h
        skip rest
      | .error flaw => .error flaw
    else if c.toNat < 0x20 then .error .malformed
    else skip cs
termination_by cs => cs.length

/-- The rest of a string has at least its closing quote. -/
theorem length_lt_of_readLoop {found cs s rest : List Char}
    (h : readLoop found cs = .ok (s, rest)) : rest.length < cs.length := by
  fun_induction readLoop found cs with
  | case1 => cases h
  | case2 found cs => cases h; simp
  | case3 found cs d mid hmid hlt _ ih =>
    have := ih h
    simp only [List.length_cons]
    omega
  | case4 => cases h
  | case5 => cases h
  | case6 found c cs _ _ _ ih =>
    have := ih h
    simp only [List.length_cons]
    omega

/-- Reading a string leaves less to read. -/
theorem length_lt_of_read {cs s rest : List Char} (h : read cs = .ok (s, rest)) :
    rest.length < cs.length :=
  length_lt_of_readLoop h

/-- So does passing over it. -/
theorem length_lt_of_skip {cs rest : List Char} (h : skip cs = .ok rest) :
    rest.length < cs.length := by
  fun_induction skip cs with
  | case1 => cases h
  | case2 cs => cases h; simp
  | case3 cs mid hmid hlt _ ih =>
    have := ih h
    simp only [List.length_cons]
    omega
  | case4 => cases h
  | case5 => cases h
  | case6 c cs _ _ _ ih =>
    have := ih h
    simp only [List.length_cons]
    omega

end PascalScan.Json.Quoted
