/-
# Metta.Token -- source text as tokens

Source text is a sequence of tokens: parentheses and the leaves of atoms, which are
strings, variables, numbers and symbols.  Blanks and comments separate tokens; a
comment runs from a semicolon to the end of its line.  A piece of text that is no token
becomes a fault, and tokens are read on from where the fault was noticed.

`lexemeAt` reads what begins at one character and says how many further characters belong
to it.  `Token.scan` walks over the text once and records where each token starts and
where reading goes on behind it.

Main statement: a string that was escaped is read back, and nothing more is read
(`stringBody_escape`).
-/
import Metta.Atom
import Metta.Numeral
import Metta.Text.Blank

namespace Metta

open Metta.Text

set_option autoImplicit false

/-- What a token is. -/
inductive Lexeme where
  | opening
  | closing
  | leaf (a : Atom)
  /-- A flaw, noticed `offset` characters behind the start. -/
  | fault (flaw : Flaw) (offset : Nat)

structure Token where
  lexeme : Lexeme
  start : Nat
  /-- The position at which reading goes on. -/
  stop : Nat

namespace Token

/-- Characters at which a name or a number ends. -/
def isDelimiter (c : Char) : Bool :=
  isBlank c || c == '(' || c == ')' || c == '"' || c == ';'

/-- The characters of a name that begins here. -/
def name (cs : List Char) : List Char := cs.takeWhile fun c => !isDelimiter c

/-- The characters of a comment from behind its semicolon, without the line feed that ends it. -/
def comment (cs : List Char) : List Char := cs.takeWhile (· != '\n')

/-- Reads a string from behind its opening quote: its text, if a closing quote comes, and the
number of characters read.  A backslash at the very end is left unread. -/
def stringBody : List Char → Option (List Char) × Nat
  | [] => (none, 0)
  | '"' :: _ => (some [], 1)
  | ['\\'] => (none, 0)
  | '\\' :: c :: cs =>
    let (body, n) := stringBody cs
    (body.map (unescapeChar c :: ·), n + 2)
  | c :: cs =>
    let (body, n) := stringBody cs
    (body.map (c :: ·), n + 1)

/-- An escaped text is read back, together with its closing quote. -/
theorem stringBody_escape (cs rest : List Char) :
    stringBody (escape cs ++ '"' :: rest) = (some cs, (escape cs).length + 1) := by
  induction cs with
  | nil => simp [escape_nil, stringBody]
  | cons c cs ih =>
    rw [escape_cons, List.append_assoc, List.length_append, escapeChar]
    by_cases slash : c = '\\'
    · subst slash
      simp [stringBody, ih, unescapeChar]
      omega
    by_cases quote : c = '"'
    · subst quote
      simp [stringBody, ih, unescapeChar]
      omega
    by_cases feed : c = '\n'
    · subst feed
      simp [stringBody, ih, unescapeChar]
      omega
    by_cases tab : c = '\t'
    · subst tab
      simp [stringBody, ih, unescapeChar]
      omega
    simp [slash, quote, feed, tab, stringBody, ih]
    omega

def stringLexeme (cs : List Char) : Lexeme × Nat :=
  match stringBody cs with
  | (some body, n) => (.leaf (.ofScalar (.text (String.ofList body))), n)
  | (none, n) => (.fault .unterminatedString 0, n)

def variableLexeme (cs : List Char) : Lexeme × Nat :=
  match name cs with
  | [] => (.fault .namelessVariable 0, 0)
  | n => (.leaf (.var (String.ofList n) none), n.length)

/-- A number must be followed by a delimiter or by nothing. -/
def numberLexeme (c : Char) (cs : List Char) : Lexeme × Nat :=
  let more := Numeral.run true cs
  match (cs.drop more.length).head?.filter fun d => !isDelimiter d with
  | some d => (.fault (.strayInNumber d) (more.length + 1), more.length)
  | none =>
    match Numeral.read (c :: more) with
    | .ok l => (.leaf (.literal l), more.length)
    | .error flaw => (.fault flaw 0, more.length)

def symbolLexeme (c : Char) (cs : List Char) : Lexeme × Nat :=
  (.leaf (.symbol (String.ofList (c :: name cs))), (name cs).length)

/-- Reads what begins at `c` when `cs` follow it: a lexeme, or nothing for blanks and comments,
and the number of further characters it takes up. -/
def lexemeAt (c : Char) (cs : List Char) : Option Lexeme × Nat :=
  if isBlank c then (none, 0)
  else if c = ';' then (none, (comment cs).length)
  else if c = '(' then (some .opening, 0)
  else if c = ')' then (some .closing, 0)
  else
    let (l, n) :=
      if c = '"' then stringLexeme cs
      else if c = '$' then variableLexeme cs
      else if Numeral.starts c cs then numberLexeme c cs
      else symbolLexeme c cs
    (some l, n)

/-- The tokens of the text that begins at position `pos`, past the first `skip` characters. -/
def scan : (skip pos : Nat) → List Char → List Token
  | _, _, [] => []
  | skip + 1, pos, _ :: cs => scan skip (pos + 1) cs
  | 0, pos, c :: cs =>
    match lexemeAt c cs with
    | (none, n) => scan n (pos + 1) cs
    | (some l, n) => ⟨l, pos, pos + 1 + n⟩ :: scan n (pos + 1) cs

/-- The tokens of a text. -/
def ofText (text : String) : List Token := scan 0 0 text.toList

theorem scan_skip (skip pos : Nat) (cs : List Char) :
    scan skip pos cs = scan 0 (pos + skip) (cs.drop skip) := by
  induction skip generalizing pos cs with
  | zero => rfl
  | succ skip ih =>
    cases cs with
    | nil => simp [scan]
    | cons c cs =>
      rw [scan, ih, List.drop_succ_cons]
      congr 1
      omega

end Token

end Metta
