/-
# Metta.Session -- an interpreter in use

A session owns a world, remembers which of its spaces is the current one, and whether
the prelude has been loaded.  Its operations (`Act`) take source text.  Text that does
not parse is a fault and changes nothing; an evaluation that fails is a fault too, and
what was changed before it stays changed.
-/
import Metta.Eval.Evaluate
import Metta.Prelude
import Metta.Reader

namespace Metta

set_option autoImplicit false

/-- Why an operation fails instead of answering. -/
inductive Fault where
  | malformed (e : ParseError)
  | evaluation (e : EvalFault)
  /-- The text of a rule's pattern or template holds no atom. -/
  | incompleteRule (name : String)

def Fault.message : Fault → String
  | malformed e => e.message
  | evaluation e => e.message
  | incompleteRule name => "Rule " ++ name ++ " needs a pattern and a template"

structure Session where
  settings : Settings
  world : World
  /-- The name of the current space. -/
  current : String
  preludeLoaded : Bool

/-- An operation on a session. -/
abbrev Act := EStateM Fault Session

namespace Session

/-- A session whose only space is empty. -/
def start (settings : Settings) : Session :=
  ⟨settings, ⟨[.named settings.spaceName], #[]⟩, settings.spaceName, false⟩

/-- The current space. -/
def space (s : Session) : Space := s.world.space s.current

/-- The names of the spaces in the order in which they were created. -/
def spaceNames (s : Session) : List String := s.world.spaces.map Space.name

/-- Runs an evaluation in the world of the session. -/
def evaluating {α : Type} (step : Eval α) : Act α := fun s =>
  match step s.world with
  | .ok x w => .ok x { s with world := w }
  | .error e w => .error (.evaluation e) { s with world := w }

/-- The atoms of a text. -/
def parsing (text : String) : Act (List Atom) := fun s =>
  match Atom.parse text with
  | .ok as => .ok as s
  | .error e => .error (.malformed e) s

def report (r : LogRecord) : Act Unit := evaluating (Eval.report r)

/-! ## Spaces -/

/-- Makes the space of a name the current one, and creates it if there is none. -/
def useSpace (name : String) : Act Unit := fun s =>
  match s.world.space? name with
  | some _ => .ok () { s with current := name }
  | none =>
    let spaces := s.world.spaces ++ [.named name]
    let created : LogRecord := ⟨.debug, "Created space '" ++ name ++ "'"⟩
    .ok () { s with current := name, world := { s.world with spaces }.report created }

/-! ## Evaluation -/

/-- All results of an atom evaluated against the current space. -/
def interpret (a : Atom) : Act (List Atom) := fun s =>
  evaluating (Eval.interpret s.settings s.current a) s

/-- All results of an atom evaluated against the registered space of a name, or against the current
space if there is none.  A space in no registry goes by the name under which it is entered in the
world (`World`). -/
def interpretIn (name : String) (a : Atom) : Act (List Atom) := fun s =>
  let self := if (s.world.space? name).isSome then name else s.current
  evaluating (Eval.interpret s.settings self a) s

/-- All results of several atoms, one after the other. -/
def interpretEach (as : List Atom) : Act (List Atom) := fun s =>
  evaluating (Eval.collect (Eval.interpret s.settings s.current) as) s

/-- All results of a text. -/
def run (code : String) : Act (List Atom) := do interpretEach (← parsing code)

/-- The first result of a text. -/
def eval (code : String) : Act (Option Atom) := return (← run code).head?

/-- Evaluates the prelude in the current space, once in a session. -/
def loadPrelude : Act Unit := do
  if (← get).preludeLoaded then return ()
  let _ ← run Prelude.source
  modify fun s => { s with preludeLoaded := true }
  report ⟨.info, "Loaded standard library into space '" ++ (← get).current ++ "'"⟩

/-! ## Atoms -/

/-- Adds an atom to the current space as it is, and says whether it was new. -/
def addAtom (a : Atom) : Act Bool := fun s =>
  .ok (s.space.add a).1 { s with world := s.world.change s.current fun space => (space.add a).2 }

/-- Adds the atoms of a text to the current space as they are. -/
def add (code : String) : Act Unit := do
  for a in ← parsing code do
    let _ ← addAtom a

/-- The matches in the current space of the first atom of a text, none if it holds no atom. -/
def query (pattern : String) : Act (List Bindings) := do
  match ← parsing pattern with
  | [] => return []
  | p :: _ => return (← get).space.query p

/-- A session as the settings want it, the prelude included. -/
def prepared (settings : Settings) : Session :=
  let s := start settings
  if settings.loadPrelude then
    match loadPrelude s with
    | .ok _ s' => s'
    | .error _ s' => s'
  else s

end Session

end Metta
