/-
# Metta.HostValue -- values handed in from outside

A host value is a scalar, nothing, or a collection.  Only scalars can be literals; of
other values a message shows the display form.
-/
import Metta.Literal

namespace Metta

set_option autoImplicit false

inductive HostValue where
  | nothing
  | scalar (v : Scalar)
  | list (items : List HostValue)
  | record (fields : List (String × HostValue))
deriving Inhabited

namespace HostValue

mutual

def display : HostValue → String
  | .nothing => "None"
  | .scalar v => v.display
  | .list items => "[" ++ ", ".intercalate (displayItems items) ++ "]"
  | .record fields => "\x7b" ++ ", ".intercalate (displayFields fields) ++ "\x7d"

def displayItems : List HostValue → List String
  | [] => []
  | v :: vs => display v :: displayItems vs

def displayFields : List (String × HostValue) → List String
  | [] => []
  | (name, v) :: fields => (Text.displayForm name ++ ": " ++ display v) :: displayFields fields

end

/-- A host value that is no scalar, and so no literal. -/
structure Unsupported where
  value : HostValue

def Unsupported.message (u : Unsupported) : String :=
  "Unsupported grounded value: " ++ u.value.display

def toLiteral : HostValue → Except Unsupported Literal
  | .scalar v => .ok (.ofScalar v)
  | v => .error ⟨v⟩

end HostValue

end Metta
