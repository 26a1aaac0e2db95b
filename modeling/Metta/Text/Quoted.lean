/-
# Metta.Text.Quoted -- two written forms of a text

A string literal of the language stands between double quotes and escapes the
backslash, the double quote, the line feed and the tab (`literalForm`).

A text shown to a person, in messages and for specially tagged values, stands
between single quotes, or between double quotes when it holds a single quote and no
double quote; there every character that is not printable is written by number
(`displayForm`).
-/
import Metta.Text.Printable

namespace Metta.Text

set_option autoImplicit false

/-! ## String literals -/

/-- One character as it stands inside a string literal. -/
def escapeChar (c : Char) : List Char :=
  if c = '\\' then ['\\', '\\']
  else if c = '"' then ['\\', '"']
  else if c = '\n' then ['\\', 'n']
  else if c = '\t' then ['\\', 't']
  else [c]

def escape (cs : List Char) : List Char := cs.flatMap escapeChar

/-- What a character stands for after a backslash: itself, save for the three letters. -/
def unescapeChar (c : Char) : Char :=
  if c = 'n' then '\n' else if c = 't' then '\t' else if c = 'r' then '\r' else c

theorem escape_nil : escape [] = [] := rfl

theorem escape_cons (c : Char) (cs : List Char) : escape (c :: cs) = escapeChar c ++ escape cs := by
  simp [escape]

def literalForm (s : String) : String :=
  String.ofList ('"' :: escape s.toList ++ ['"'])

/-! ## Display -/

/-- A number below sixteen as a lower-case digit. -/
def hexDigit (n : Nat) : Char := Char.ofNat (if n < 10 then 48 + n else 87 + n)

/-- The last `width` hexadecimal digits of a number, with leading zeros. -/
def hexDigits : (width : Nat) → Nat → List Char
  | 0, _ => []
  | width + 1, n => hexDigits width (n / 16) ++ [hexDigit (n % 16)]

theorem length_hexDigits (width n : Nat) : (hexDigits width n).length = width := by
  induction width generalizing n with
  | zero => rfl
  | succ width ih => simp [hexDigits, ih]

/-- A character by number, in the shortest of the three widths that holds it. -/
def numberedChar (c : Char) : List Char :=
  if c.toNat < 0x100 then '\\' :: 'x' :: hexDigits 2 c.toNat
  else if c.toNat < 0x10000 then '\\' :: 'u' :: hexDigits 4 c.toNat
  else '\\' :: 'U' :: hexDigits 8 c.toNat

/-- One character as it stands between the quotes `quote` of a displayed text. -/
def displayChar (quote c : Char) : List Char :=
  if c = quote || c = '\\' then ['\\', c]
  else if c = '\n' then ['\\', 'n']
  else if c = '\r' then ['\\', 'r']
  else if c = '\t' then ['\\', 't']
  else if isPrintable c then [c]
  else numberedChar c

/-- The quotes of a displayed text: single ones unless that alone would need an escape. -/
def displayQuote (cs : List Char) : Char :=
  if cs.contains '\x27' && !cs.contains '"' then '"' else '\x27'

def displayChars (cs : List Char) : List Char :=
  let quote := displayQuote cs
  quote :: cs.flatMap (displayChar quote) ++ [quote]

def displayForm (s : String) : String := String.ofList (displayChars s.toList)

end Metta.Text
