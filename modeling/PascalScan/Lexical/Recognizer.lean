import PascalScan.Lexical.Blank
import PascalScan.Lexical.Comment
import PascalScan.Lexical.Name
import PascalScan.Lexical.Number
import PascalScan.Lexical.Punctuation
import PascalScan.Lexical.Quoted

/-!
# `PascalScan.Lexical.Recognizer`: the lexical classes under one name

A `Recognizer` stands for one lexical class. `run` asks it at a cursor; `recognize` asks it at a
byte offset of a text, where the offset may turn out to have no meaning. `run_readsFrom` is the
law that the scanning loops rest on: whatever is recognized is not empty.
-/

set_option autoImplicit false

namespace PascalScan

open Text

/-- The lexical classes. -/
inductive Recognizer where
  | comment
  | string
  | identifier
  | number
  | symbol
  | blank
  deriving Repr, DecidableEq

namespace Recognizer

/-- All classes, in the order in which an editor tries them. -/
def all : List Recognizer := [comment, string, identifier, number, symbol, blank]

/-- The classes that make tokens, in the order in which they are tried: the first match wins. -/
def priority : List Recognizer := [comment, string, identifier, number, symbol]

/-- The word under which a class is shown. -/
def name : Recognizer → String
  | comment => "Comment"
  | string => "String"
  | identifier => "Identifier"
  | number => "Number"
  | symbol => "Symbol"
  | blank => "Whitespace"

/-- The class with the given name. -/
def ofName? (s : String) : Option Recognizer := all.find? (·.name == s)

/-- What each class recognizes where there is something to read. -/
def recognizeAt : Recognizer → Cursor → Attempt
  | comment => Comment.recognize
  | string => Quoted.recognize
  | identifier => Name.recognize
  | number => Number.recognize
  | symbol => Punctuation.recognize
  | blank => Blank.recognize

/-- Asks a class at a cursor. At the end of the text all classes fail alike. -/
def run (r : Recognizer) (c : Cursor) : Attempt :=
  if c.rest.isEmpty then .error (.onSpot .endOfInput c.pos) else r.recognizeAt c

/-- Whatever a class recognizes is a non-empty stretch that starts at the cursor. -/
theorem run_readsFrom {r : Recognizer} {c : Cursor} {m : Match} (h : r.run c = .ok m) :
    m.ReadsFrom c := by
  unfold run at h
  split at h
  · cases h
  · cases r with
    | comment => exact Comment.readsFrom_of_recognize h
    | string => exact Quoted.readsFrom_of_recognize h
    | identifier => exact Name.readsFrom_of_recognize h
    | number => exact Number.readsFrom_of_recognize h
    | symbol => exact Punctuation.readsFrom_of_recognize h
    | blank => exact Blank.readsFrom_of_recognize h

/-- Asks a class at byte offset `pos` of a text.

An offset past the end has no meaning for any class, and one inside a character has none for the
classes that read characters. The class of comments looks at bytes, and no byte inside a character
opens a comment, so there it has an answer (`Comment.recognize_comment_eq_recognizeBytes`). -/
def recognize (r : Recognizer) (text : List Char) (pos : Nat) : Except Misuse (Except Failure Token) :=
  match locate text pos with
  | .boundary rest => .ok ((r.run ⟨pos, rest⟩).map (·.token ⟨pos, rest⟩))
  | .inside =>
    match r with
    | comment => .ok (.error (.onSpot .notAComment pos))
    | _ => .error .badSlice
  | .beyond => .error (.startPastEnd pos)

end Recognizer

end PascalScan
