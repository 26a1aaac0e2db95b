/-
# Metta.Command.Arguments -- options and positional arguments

A command takes options, which begin with a hyphen, in any order with at most one
positional argument.  An option may be shortened as long as only one begins so, and its
value may follow as the next argument or behind an equals sign.  Two hyphens end the
options.  Negative numbers and arguments with a blank in them are no options even if
they begin with a hyphen.

Arguments are told apart first (`classify`) and then taken one after the other
(`consume`).
-/
import Metta.Text.Whole

namespace Metta.Command

open Metta.Text

set_option autoImplicit false

/-- What a command accepts, besides help. -/
structure Grammar where
  /-- Options without a value. -/
  flags : List String
  /-- Options whose value is a whole number. -/
  numbers : List String
  /-- Whether there is a positional argument; it must then be given. -/
  positional : Bool

namespace Grammar

def help : List String := ["-h", "--help"]

def options (g : Grammar) : List String := help ++ g.flags ++ g.numbers

end Grammar

/-- Why arguments are not accepted. -/
inductive Refusal where
  /-- Help is asked for. -/
  | help
  /-- The arguments do not fit the grammar. -/
  | rejected
deriving DecidableEq, Repr

/-- What one argument is. -/
inductive Argument where
  | plain (text : String)
  /-- An option, perhaps with a value behind an equals sign. -/
  | option (name : String) (value : Option String)
  | unknown
  /-- Two hyphens. -/
  | separator
deriving DecidableEq, Repr

namespace Argument

/-- A hyphen and a number in plain notation. -/
def isNegativeNumber (cs : List Char) : Bool :=
  let isDecimal (c : Char) : Bool := (decimalValue? c).isSome
  match if cs.getLast? = some '\n' then cs.dropLast else cs with
  | '-' :: rest =>
    let whole := rest.takeWhile isDecimal
    match rest.drop whole.length with
    | [] => !whole.isEmpty
    | '.' :: fraction => !fraction.isEmpty && fraction.all isDecimal
    | _ => false
  | _ => false

/-- The part before the first equals sign and, if there is one, the part behind it. -/
def splitValue (cs : List Char) : List Char × Option String :=
  let before := cs.takeWhile (· != '=')
  match cs.drop before.length with
  | [] => (before, none)
  | _ :: value => (before, some (String.ofList value))

/-- The options that an argument may be short for, each with the value it carries. -/
def candidates (g : Grammar) (cs : List Char) : List (String × Option String) :=
  match cs with
  | '-' :: '-' :: _ =>
    let (start, value) := splitValue cs
    (g.options.filter fun o => start.isPrefixOf o.toList).map fun o => (o, value)
  | '-' :: c :: value =>
    g.options.filterMap fun o =>
      if o = String.ofList ['-', c] then some (o, some (String.ofList value))
      else if cs.isPrefixOf o.toList then some (o, none)
      else none
  | _ => []

/-- Tells what an argument is that comes before the end of the options. -/
def classifyOne (g : Grammar) (text : String) : Except Refusal Argument :=
  let cs := text.toList
  let (start, value) := splitValue cs
  if cs.head? != some '-' then .ok (.plain text)
  else if g.options.contains text then .ok (.option text none)
  else if cs.length = 1 then .ok (.plain text)
  else if value.isSome && g.options.contains (String.ofList start) then
    .ok (.option (String.ofList start) value)
  else
    match candidates g cs with
    | [(o, v)] => .ok (.option o v)
    | _ :: _ :: _ => .error .rejected
    | [] =>
      if isNegativeNumber cs || cs.contains ' ' then .ok (.plain text) else .ok .unknown

/-- Tells what each argument is. -/
def classify (g : Grammar) : List String → Except Refusal (List Argument)
  | [] => .ok []
  | text :: rest =>
    if text = "--" then .ok (.separator :: rest.map .plain)
    else do
      let a ← classifyOne g text
      let as ← classify g rest
      return a :: as

end Argument

/-- What is given as the value of an option that asks for a whole number. -/
inductive Amount where
  | number (n : Int)
  /-- Two hyphens behind the equals sign.  They are taken away, and nothing is left. -/
  | nothing
deriving DecidableEq, Repr

/-- Arguments as they were understood.  Of an option given twice the last value counts. -/
structure Arguments where
  flags : List String
  numbers : List (String × Amount)
  positional : Option String
  /-- Something is left over. -/
  surplus : Bool

namespace Arguments

def empty : Arguments := ⟨[], [], none, false⟩

def hasFlag (a : Arguments) (name : String) : Bool := a.flags.contains name

def amount? (a : Arguments) (name : String) : Option Amount := a.numbers.lookup name

def withNumber (a : Arguments) (name value : String) : Except Refusal Arguments :=
  let amount? := if value = "--" then some .nothing else (Whole.read? value.toList).map .number
  match amount? with
  | some amount => .ok { a with numbers := (name, amount) :: a.numbers }
  | none => .error .rejected

end Arguments

/-- How far the arguments have been taken. -/
structure Progress where
  arguments : Arguments
  /-- The option whose value comes next. -/
  awaiting : Option String
  /-- The argument before was the positional one. -/
  behindPositional : Bool

namespace Progress

def start : Progress := ⟨.empty, none, false⟩

def withArguments (a : Arguments) : Progress := ⟨a, none, false⟩

/-- Something that nothing asks for. -/
def surplus (p : Progress) : Progress := withArguments { p.arguments with surplus := true }

/-- May the positional argument still come? -/
def isFree (g : Grammar) (p : Progress) : Bool := g.positional && p.arguments.positional.isNone

/-- Options of one letter may be strung together behind one hyphen.  Help is the only one, so the
value that it seems to carry must ask for help again. -/
def asksForHelp (name : String) : (value : Option String) → Bool
  | none => Grammar.help.contains name
  | some v => name = "-h" && v != "" && v.toList.all (· == 'h')

/-- Takes an option and the value it carries. -/
def takeOption (g : Grammar) (p : Progress) (name : String) (value : Option String) :
    Except Refusal Progress :=
  if g.numbers.contains name then
    match value with
    | some v => return withArguments (← p.arguments.withNumber name v)
    | none => .ok { p with awaiting := some name, behindPositional := false }
  else if asksForHelp name value then .error .help
  else if value.isSome then .error .rejected
  else .ok (withArguments { p.arguments with flags := name :: p.arguments.flags })

/-- Takes one argument.  Two hyphens belong to the positional argument right behind or right before
them. -/
def take (g : Grammar) (p : Progress) (a : Argument) : Except Refusal Progress :=
  match p.awaiting, a with
  | some name, .plain v => return withArguments (← p.arguments.withNumber name v)
  | some _, _ => .error .rejected
  | none, .plain text =>
    if p.isFree g then
      .ok { p with arguments := { p.arguments with positional := some text }, behindPositional := true }
    else .ok p.surplus
  | none, .separator => if p.isFree g || p.behindPositional then .ok p else .ok p.surplus
  | none, .unknown => .ok p.surplus
  | none, .option name value => p.takeOption g name value

end Progress

namespace Arguments

/-- Takes arguments one after the other. -/
def consume (g : Grammar) (as : List Argument) : Except Refusal Progress :=
  as.foldlM (Progress.take g) .start

/-- Understands the arguments of a command. -/
def parse (g : Grammar) (texts : List String) : Except Refusal Arguments := do
  let p ← consume g (← Argument.classify g texts)
  let a := p.arguments
  if p.awaiting.isSome || a.surplus || (g.positional && a.positional.isNone) then .error .rejected
  else .ok a

end Arguments

end Metta.Command
