/-
# Metta.Command.Execute -- the commands

There are four commands: `run` evaluates a file, `eval` a text, `check` looks for
problems in a file, and `repl` holds a dialogue.  A command is first understood from its
arguments (`Command.ofArguments`) and then executed on what was read from the file it
names and from the input (`Command.execute`); all it does is to write text and to return
a code.
-/
import Metta.Check
import Metta.Command.Arguments
import Metta.Command.Files
import Metta.Host

namespace Metta

open Metta.Command

set_option autoImplicit false

/-- Options of the commands that evaluate. -/
structure EvaluationOptions where
  noPrelude : Bool
  maxSteps : Option Amount
  trace : Bool
  metrics : Bool

inductive Command where
  | run (path : String) (options : EvaluationOptions)
  | eval (code : String) (options : EvaluationOptions)
  | check (path : String) (maxDepth : Amount)
  | repl (options : EvaluationOptions)

/-- What the arguments of the program are understood as. -/
inductive Understood where
  | command (c : Command)
  /-- The first argument, if there is one, is not the name of a command. -/
  | noCommand
  | refused (r : Refusal)

/-- What an application that embeds the commands may set. -/
structure Configuration where
  settings : Settings := {}
  logLevel : String := "INFO"

/-- What a command writes and reports, and the code it returns. -/
structure Outcome where
  code : Nat
  output : String
  log : Log := #[]

/-- Why a command cannot be executed. -/
inductive CommandFault where
  | file (f : FileFault)
  | unknownLogLevel (name : String)
  /-- A number is compared with a bound that was given as nothing. -/
  | noBound (message : String)
  /-- The evaluation fails. -/
  | failed (f : Fault)

namespace Command

def evaluationGrammar (positional : Bool) : Grammar :=
  ⟨["--no-stdlib", "--trace", "--metrics"], ["--max-steps"], positional⟩

def checkGrammar : Grammar := ⟨[], ["--max-depth"], true⟩

def evaluationOptions (a : Arguments) : EvaluationOptions :=
  { noPrelude := a.hasFlag "--no-stdlib"
    maxSteps := a.amount? "--max-steps"
    trace := a.hasFlag "--trace"
    metrics := a.hasFlag "--metrics" }

/-- The nesting depth that `check` allows unless another is given. -/
def defaultMaxDepth : Amount := .number 32

def names : List String := ["run", "eval", "check", "repl"]

def usage : String := "Usage: protometta \x7b" ++ ",".intercalate names ++ "\x7d [options]\n"

/-- Understands the arguments of one command. -/
def parse (g : Grammar) (make : String → Arguments → Command) (args : List String) : Understood :=
  match Arguments.parse g args with
  | .ok a => .command (make (a.positional.getD "") a)
  | .error r => .refused r

/-- Understands a command line without the name of the program. -/
def ofArguments : List String → Understood
  | "run" :: args => parse (evaluationGrammar true) (fun p a => .run p (evaluationOptions a)) args
  | "eval" :: args => parse (evaluationGrammar true) (fun p a => .eval p (evaluationOptions a)) args
  | "check" :: args =>
    parse checkGrammar (fun p a => .check p ((a.amount? "--max-depth").getD defaultMaxDepth)) args
  | "repl" :: args => parse (evaluationGrammar false) (fun _ a => .repl (evaluationOptions a)) args
  | _ => .noCommand

/-- The file that a command reads. -/
def path? : Command → Option String
  | .run path _ | .check path _ => some path
  | .eval _ _ | .repl _ => none

/-! ## Execution -/

/-- Any of the three ways to end a line becomes a line feed. -/
def lineFeeds : List Char → List Char
  | [] => []
  | '\r' :: '\n' :: cs => '\n' :: lineFeeds cs
  | '\r' :: cs => '\n' :: lineFeeds cs
  | c :: cs => c :: lineFeeds cs

theorem notMem_lineFeeds (cs : List Char) : '\r' ∉ lineFeeds cs := by
  fun_induction lineFeeds cs with
  | case1 => simp
  | case2 cs ih => simpa using ih
  | case3 cs _ ih => simpa using ih
  | case4 c cs _ ret ih =>
    simp only [List.mem_cons, not_or]
    exact ⟨fun h => ret h.symm, ih⟩

/-- What is said when a number is compared with a bound that was given as nothing. -/
def noBound (relation : String) : String :=
  "'" ++ relation ++ "' not supported between instances of 'int' and 'list'"

/-- A rule that comes before all others and fails whatever is to be reduced. -/
def refusal : Rule :=
  ⟨"refusal", .var "any" none, .var "any" none, some (.failing (noBound "<")), 1⟩

/-- The settings of a host as the options want it.  A budget given as nothing is looked at once, and
then fails. -/
def hostSettings (config : Configuration) (options : EvaluationOptions) : Settings :=
  { config.settings with
    maxSteps :=
      match options.maxSteps with
      | none => config.settings.maxSteps
      | some (.number n) => n
      | some .nothing => 1
    trace := options.trace
    loadPrelude := !options.noPrelude }

/-- A host as the options want it, ready to run. -/
def host (config : Configuration) (options : EvaluationOptions) : Host :=
  let h := match Host.prepare (.start (hostSettings config options)) with
    | .ok _ h | .error _ h => h
  if options.maxSteps = some .nothing then
    let s := h.session
    { h with session := { s with world := s.world.change s.current (·.addRule refusal) } }
  else h

/-- The threshold of what is reported; traces are always reported. -/
def threshold (config : Configuration) (options : EvaluationOptions) : Except CommandFault Nat :=
  let name := if options.trace then "DEBUG" else config.logLevel
  match thresholdNamed? name with
  | some n => .ok n
  | none => .error (.unknownLogLevel name)

/-- What is said of a text that does not parse. -/
def malformed (e : ParseError) : String := "Error: " ++ e.message ++ "\n"

/-- Evaluates a text, writes its results, and reports what weighs at least `least`.  The only rule
with a guard that a command can meet is `refusal`. -/
def evaluate (code : String) (options : EvaluationOptions) (h : Host) (least : Nat) :
    Except CommandFault Outcome :=
  match Host.run code {} h with
  | .error (.malformed e) h => .ok ⟨1, malformed e, h.session.world.log.atLeast least⟩
  | .error (.evaluation (.guard e)) _ => .error (.noBound e.message)
  | .error f _ => .error (.failed f)
  | .ok results h =>
    match Repl.answer results with
    | (_, some e) => .error (.failed (.evaluation (.unwritable e)))
    | (text, none) =>
      let report := if options.metrics then h.metrics.summary.toJson.text ++ "\n" else ""
      .ok ⟨0, text ++ report, h.session.world.log.atLeast least⟩

/-- Evaluates a text on a host of its own. -/
def evaluateAlone (config : Configuration) (code : String) (options : EvaluationOptions) :
    Except CommandFault Outcome := do
  evaluate code options (host config options) (← threshold config options)

/-- Holds a dialogue with a host of its own. -/
def dialogueAlone (config : Configuration) (input : String) (options : EvaluationOptions) :
    Except CommandFault Outcome := do
  let least ← threshold config options
  let (output, s) := Repl.dialogue input (host config options).session
  return ⟨0, output, s.world.log.atLeast least⟩

/-- The verdict on a file whose atoms were checked. -/
def verdict (path : String) (atoms : List Atom) (problems : List Problem) : String :=
  let outcome := if problems.isEmpty then "OK" else toString problems.length ++ " problems"
  path ++ ": " ++ toString atoms.length ++ " forms, " ++ outcome ++ "\n"

/-- One line for each problem. -/
def listing (problems : List Problem) : Except Unwritable String := do
  return String.join ((← problems.mapM Problem.written).map fun line => "  " ++ line ++ "\n")

/-- Checks a text read from a file.  With no atom in it no depth is compared. -/
def checkText (path text : String) (bound : Amount) : Except CommandFault Outcome :=
  match Atom.parse text, bound with
  | .error e, _ => .ok { code := 1, output := malformed e }
  | .ok [], _ => .ok { code := 0, output := verdict path [] [] }
  | .ok _, .nothing => .error (.noBound (noBound ">"))
  | .ok atoms, .number maxDepth =>
    let problems := Check.program { maxDepth } atoms
    match listing problems with
    | .error e => .error (.failed (.evaluation (.unwritable e)))
    | .ok listed => .ok {
        code := if problems.isEmpty then 0 else 1
        output := listed ++ verdict path atoms problems }

/-- Goes on with the text of a file, with its lines ended by line feeds. -/
def withFile (path : String) (file : FileContent) (go : String → Except CommandFault Outcome) :
    Except CommandFault Outcome :=
  match file with
  | .missing => .ok { code := 1, output := "Error: File not found: " ++ path ++ "\n" }
  | .unreadable f => .error (.file f)
  | .text s => go (String.ofList (lineFeeds s.toList))

/-- Executes a command on the content of the file it names, if any, and on the input. -/
def execute (config : Configuration) (file : FileContent) (input : String) :
    Command → Except CommandFault Outcome
  | .run path options => withFile path file fun text => evaluateAlone config text options
  | .eval code options => evaluateAlone config code options
  | .check path maxDepth => withFile path file fun text => checkText path text maxDepth
  | .repl options => dialogueAlone config input options

end Command

end Metta
