/-
# Metta.Reader -- atoms from tokens

A reader holds the tokens that are still to be read, the position reached, and the
number of parentheses it counts as open, which may not pass a limit.

`Reader.atom` reads one atom by recursive descent: an opening parenthesis is followed
by atoms up to the closing one.  After an error the reader stays where the error was
noticed and still counts the parentheses that were open, so that another atom can be
asked of it.  `Atom.parse` reads all atoms of a text.
-/
import Metta.Token

namespace Metta

set_option autoImplicit false

structure Reader where
  tokens : List Token
  position : Nat
  /-- How many parentheses count as open. -/
  nesting : Nat
  /-- How many may be. -/
  limit : Int
  /-- The length of the text. -/
  length : Nat

/-- A reading step: an outcome and the reader after it, whether it succeeds or not. -/
abbrev Read := EStateM ParseError Reader

namespace Reader

/-- The greatest nesting of expressions in source text, unless another is asked for. -/
def defaultLimit : Int := 200

def ofText (text : String) (limit : Int) : Reader :=
  ⟨Token.ofText text, 0, 0, limit, text.length⟩

/-- How many more parentheses may be opened. -/
def levels (r : Reader) : Nat := (r.limit - r.nesting).toNat

/-- The reader behind a token, with `rest` still to be read. -/
def after (r : Reader) (t : Token) (rest : List Token) : Reader :=
  { r with tokens := rest, position := t.stop }

/-- The reader in front of a token that it does not take. -/
def before (r : Reader) (t : Token) : Reader := { r with position := t.start }

/-- The reader at the end of the text. -/
def atEnd (r : Reader) : Reader := { r with position := r.length }

def opened (r : Reader) : Reader := { r with nesting := r.nesting + 1 }

def closed (r : Reader) : Reader := { r with nesting := r.nesting - 1 }

/-- Reads children with `child` up to the closing parenthesis that matches the one at `start`.
Every child takes a token, so as many children as there are tokens are enough. -/
def children (child : Read Atom) (start : Nat) : (atMost : Nat) → Read (List Atom)
  | 0 => fun r => .error ⟨.unclosed, start⟩ r.atEnd
  | atMost + 1 => fun r =>
    match r.tokens with
    | [] => .error ⟨.unclosed, start⟩ r.atEnd
    | t :: rest =>
      match t.lexeme with
      | .closing => .ok [] (r.after t rest).closed
      | _ =>
        match child r with
        | .error e r' => .error e r'
        | .ok c r' =>
          match children child start atMost r' with
          | .error e r'' => .error e r''
          | .ok cs r'' => .ok (c :: cs) r''

/-- Reads one atom in which at most `levels` parentheses are open at a time. -/
def atom (levels : Nat) : Read Atom := fun r =>
  match r.tokens with
  | [] => .error ⟨.unexpectedEnd, r.length⟩ r.atEnd
  | t :: rest =>
    match t.lexeme with
    | .leaf a => .ok a (r.after t rest)
    | .fault flaw offset => .error ⟨flaw, t.start + offset⟩ (r.after t rest)
    | .closing => .error ⟨.unexpectedClose, t.start⟩ (r.before t)
    | .opening =>
      match levels with
      | 0 => .error ⟨.nestedDeeper r.limit, t.start⟩ (r.before t)
      | levels + 1 =>
        match children (atom levels) t.start rest.length (r.after t rest).opened with
        | .error e r' => .error e r'
        | .ok cs r' => .ok (.expr cs) r'

/-- Reads the next atom. -/
def next : Read Atom := fun r => atom r.levels r

/-- Reads atoms to the end of the text.  Every atom takes a token. -/
def all : (atMost : Nat) → Read (List Atom)
  | 0 => fun r => .ok [] r.atEnd
  | atMost + 1 => fun r =>
    match r.tokens with
    | [] => .ok [] r.atEnd
    | _ :: _ =>
      match next r with
      | .error e r' => .error e r'
      | .ok a r' =>
        match all atMost r' with
        | .error e r'' => .error e r''
        | .ok as r'' => .ok (a :: as) r''

end Reader

namespace Atom

/-- The atoms of a text in which at most `limit` parentheses are open at a time. -/
def parseWithin (limit : Int) (text : String) : Except ParseError (List Atom) :=
  let r := Reader.ofText text limit
  match Reader.all r.tokens.length r with
  | .ok as _ => .ok as
  | .error e _ => .error e

/-- The atoms of a text. -/
def parse (text : String) : Except ParseError (List Atom) := parseWithin Reader.defaultLimit text

end Atom

end Metta
