import PascalScan.Lexical.Recognizer

/-!
# `PascalScan.Scan`: splitting a text into tokens

A scan goes through a text from a given offset. At each place it takes one `Step`: the first
lexical class that matches gives a token, a run of blanks is skipped, and where neither is found
the scan halts. Of the failures at the halting place it reports the one that got furthest beyond
it, the earliest of these if several got equally far.

The classes are tried in a given order; `scan` uses `Recognizer.priority`. `length_lt_of_emit`
and `length_lt_of_skip` are why the loop ends: each step but the last leaves less to read.
-/

set_option autoImplicit false

namespace PascalScan

open Text

/-! ### One step -/

/-- What happens at one place of a scan. -/
inductive Step where
  /-- A token is found. -/
  | emit (found : Match)
  /-- A run of blanks is passed over. -/
  | skip (next : Cursor)
  /-- Nothing matches. -/
  | halt (failure : Failure)

/-- The more telling of two failures at offset `pos`: the later one has to get strictly further,
and one that gets nowhere does not count. -/
def nearer (pos : Nat) (best : Option Failure) (f : Failure) : Option Failure :=
  if (best.elim pos Failure.furthest) < f.furthest then some f else best

/-- The first match among the classes of `order`, or the most telling of their failures. -/
def firstMatch (c : Cursor) : List Recognizer → Option Failure → Except (Option Failure) Match
  | [], best => .error best
  | r :: order, best =>
    match r.run c with
    | .ok m => .ok m
    | .error f => firstMatch c order (nearer c.pos best f)

/-- One step at a cursor with the classes tried in the given order. -/
def step (order : List Recognizer) (c : Cursor) : Step :=
  match firstMatch c order none with
  | .ok m => .emit m
  | .error best =>
    match Recognizer.blank.run c with
    | .ok m => .skip m.next
    | .error _ => .halt (best.getD (.onSpot .invalidSequence c.pos))

/-- A first match reads something, whichever class it is from. -/
theorem readsFrom_of_firstMatch {c : Cursor} {order : List Recognizer} {best : Option Failure}
    {m : Match} (h : firstMatch c order best = .ok m) : m.ReadsFrom c := by
  fun_induction firstMatch c order best with
  | case1 => cases h
  | case2 best r order m' hm =>
    cases h
    exact Recognizer.run_readsFrom hm
  | case3 best r order f hf ih => exact ih h

/-- A token leaves less to read. -/
theorem length_lt_of_emit {order : List Recognizer} {c : Cursor} {m : Match}
    (h : step order c = .emit m) : m.next.rest.length < c.rest.length := by
  unfold step at h
  split at h
  next m' hm =>
    cases h
    exact (readsFrom_of_firstMatch hm).length_lt
  next => split at h <;> cases h

/-- A run of blanks leaves less to read. -/
theorem length_lt_of_skip {order : List Recognizer} {c next : Cursor}
    (h : step order c = .skip next) : next.rest.length < c.rest.length := by
  unfold step at h
  split at h
  next => cases h
  next =>
    split at h
    next m hm =>
      cases h
      exact (Recognizer.run_readsFrom hm).length_lt
    next => cases h

/-! ### The whole scan -/

/-- Whether a scan got through its text. -/
inductive Status where
  | ok
  | fail
  deriving Repr, DecidableEq

namespace Status

/-- Both statuses. -/
def all : List Status := [ok, fail]

/-- The word under which a status is shown. -/
def name : Status → String
  | ok => "Ok"
  | fail => "Fail"

/-- The status with the given name, compared exactly. -/
def ofName? (s : String) : Option Status := all.find? (·.name == s)

end Status

/-- The outcome of a scan: the tokens found from offset `start` up to `stop`, and the failure
that halted it, if one did. -/
structure Scan where
  start : Nat
  stop : Nat
  tokens : List Token
  failure : Option Failure

/-- Goes on with a scan that began at offset `start` and has found `found`, latest first. -/
def scanLoop (order : List Recognizer) (start : Nat) (found : List Token) (c : Cursor) : Scan :=
  if c.rest.isEmpty then
    ⟨start, c.pos, found.reverse, none⟩
  else
    match h : step order c with
    | .emit m =>
      have : m.next.rest.length < c.rest.length := length_lt_of_emit h
      scanLoop order start (m.token c :: found) m.next
    | .skip next =>
      have : next.rest.length < c.rest.length := length_lt_of_skip h
      scanLoop order start found next
    | .halt failure => ⟨start, c.pos, found.reverse, some failure⟩
termination_by c.rest.length

/-- Scans from a cursor with the classes tried in the given order. -/
def scanAt (order : List Recognizer) (c : Cursor) : Scan := scanLoop order c.pos [] c

/-- Scans a text from byte offset `start` with the classes tried in the given order. -/
def scanFromWith (order : List Recognizer) (text : List Char) (start : Nat) :
    Except Misuse Scan :=
  match locate text start with
  | .boundary rest => .ok (scanAt order ⟨start, rest⟩)
  | .inside => .error .badSlice
  | .beyond => .error (.startPastEnd start)

/-- Scans a text from byte offset `start`. -/
def scanFrom (text : List Char) (start : Nat) : Except Misuse Scan :=
  scanFromWith Recognizer.priority text start

/-- Scans a whole text. -/
def scan (text : List Char) : Scan := scanAt Recognizer.priority ⟨0, text⟩

namespace Scan

/-- A scan is good when nothing halted it. -/
def status (s : Scan) : Status :=
  match s.failure with
  | none => .ok
  | some _ => .fail

/-- The number of bytes scanned. -/
def size (s : Scan) : Nat := s.stop - s.start

/-- The same scan in a text with `k` more bytes in front. -/
def shift (k : Nat) (s : Scan) : Scan :=
  ⟨s.start + k, s.stop + k, s.tokens.map (Token.shift k), s.failure.map (Failure.shift k)⟩

/-- The tokens of a scan that got through its text, or the failure that halted it with the
offset where it did. -/
def result (s : Scan) : Except (Failure × Nat) (List Token) :=
  match s.failure with
  | none => .ok s.tokens
  | some f => .error (f, s.stop)

end Scan

end PascalScan
