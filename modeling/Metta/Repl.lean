/-
# Metta.Repl -- a dialogue with a session

A dialogue reads lines and answers each with its results or with an error, until a line
says `exit` or the input ends.  Blank lines are skipped.  No character of the input is
lost between the lines (`flatten_lines`).
-/
import Metta.Session

namespace Metta.Repl

open Metta.Text

set_option autoImplicit false

/-- The lines of a text, each with the line feed that ends it; the last one may have none. -/
def lines : List Char → List (List Char)
  | [] => []
  | c :: cs =>
    if c = '\n' then [c] :: lines cs
    else
      match lines cs with
      | [] => [[c]]
      | l :: ls => (c :: l) :: ls

/-- The lines, put together, are the text. -/
theorem flatten_lines (cs : List Char) : (lines cs).flatten = cs := by
  induction cs with
  | nil => rfl
  | cons c cs ih =>
    unfold lines
    split
    · simp [ih]
    · cases h : lines cs with
      | nil => simpa [h] using ih
      | cons l ls => simpa [h] using ih

def banner : String := "MeTTa REPL\nType 'exit' to quit\n"

def prompt : String := "metta> "

/-- The results, one per line, up to the first that has no written form. -/
def answer : (results : List Atom) → String × Option Unwritable
  | [] => ("", none)
  | a :: as =>
    match a.written with
    | .ok text =>
      let (rest, fault) := answer as
      ("=> " ++ text ++ "\n" ++ rest, fault)
    | .error e => ("", some e)

def failure (message : String) : String := "Error: " ++ message ++ "\n"

def failed : LogRecord := ⟨.debug, "REPL evaluation failed"⟩

/-- The answer to a line, and the session after it.  A failure for another reason than the text of
the line is also reported. -/
def respond (line : String) (s : Session) : String × Session :=
  match Session.run line s with
  | .ok results s' =>
    match answer results with
    | (text, none) => (text, s')
    | (text, some e) => (text ++ failure e.message, { s' with world := s'.world.report failed })
  | .error (.malformed e) s' => (failure e.message, s')
  | .error e s' => (failure e.message, { s' with world := s'.world.report failed })

/-- The prompts and answers for a list of lines, and the session after them. -/
def converse : List (List Char) → Session → String × Session
  | [], s => (prompt, s)
  | line :: lines, s =>
    if trim line = "exit".toList then (prompt, s)
    else
      let (out, s) := if (trim line).isEmpty then ("", s) else respond (String.ofList line) s
      let (rest, s) := converse lines s
      (prompt ++ out ++ rest, s)

/-- All that a dialogue writes, and the session after it. -/
def dialogue (input : String) (s : Session) : String × Session :=
  let (out, s) := converse (lines input.toList) s
  (banner ++ out, s)

end Metta.Repl
