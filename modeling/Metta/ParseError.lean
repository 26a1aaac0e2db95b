/-
# Metta.ParseError -- what can be wrong with source text

A parse error is a flaw and the position at which it shows, counted in characters from
the start of the text.
-/
import Metta.Text.Quoted

namespace Metta

set_option autoImplicit false

/-- The ways in which source text can be malformed. -/
inductive Flaw where
  /-- An atom was asked for and none is left. -/
  | unexpectedEnd
  | unexpectedClose
  /-- A parenthesis opens although `limit` are open. -/
  | nestedDeeper (limit : Int)
  | unclosed
  | namelessVariable
  | unterminatedString
  /-- A character that neither continues nor ends the number before it. -/
  | strayInNumber (c : Char)
  /-- A whole number with a digit that has no decimal value. -/
  | undecimalInteger (literal : List Char)
  /-- A number with a point and a digit that has no decimal value. -/
  | undecimalFloat (literal : List Char)
  /-- A whole number with more digits than can be read. -/
  | tooManyDigits (count : Nat)
  /-- A number beyond the largest finite float. -/
  | outOfRange
deriving DecidableEq, Repr

namespace Flaw

/-- Whole numbers may have this many digits. -/
def maxIntegerDigits : Nat := 4300

/-- At most this much of a malformed whole number is shown. -/
def shownLiteral : Nat := 200

/-- What is said of a whole number with too many digits. -/
def overLimit (count : Nat) : String :=
  "Exceeds the limit (" ++ toString maxIntegerDigits ++
    " digits) for integer string conversion: value has " ++ toString count ++
    " digits; use sys.set_int_max_str_digits() to increase the limit"

def text : Flaw → String
  | unexpectedEnd => "Unexpected end of input"
  | unexpectedClose => "Unexpected ')'"
  | nestedDeeper limit => "Expression nesting deeper than " ++ toString limit
  | unclosed => "Unmatched '('"
  | namelessVariable => "Variable name expected after '$'"
  | unterminatedString => "Unterminated string literal"
  | strayInNumber c =>
    "Unexpected character " ++ String.ofList (Text.displayChars [c]) ++ " in number"
  | undecimalInteger literal =>
    "Invalid number literal: invalid literal for int() with base 10: " ++
      String.ofList ((Text.displayChars literal).take shownLiteral)
  | undecimalFloat literal =>
    "Invalid number literal: could not convert string to float: " ++
      String.ofList (Text.displayChars literal)
  | tooManyDigits count => "Invalid number literal: " ++ overLimit count
  | outOfRange => "Number literal out of range"

end Flaw

structure ParseError where
  flaw : Flaw
  position : Nat
deriving DecidableEq, Repr

def ParseError.message (e : ParseError) : String :=
  e.flaw.text ++ " at position " ++ toString e.position

end Metta
