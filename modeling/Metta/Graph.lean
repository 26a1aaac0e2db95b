/-
# Metta.Graph -- nodes and links as atoms

A node of a typed hypergraph has a type and a name, a link a type and the atoms it
connects.  Both become expressions headed by the type.
-/
import Metta.Atom
import Metta.HostValue

namespace Metta.Graph

set_option autoImplicit false

/-- A node, or a link if it connects any atoms; a link has no use for a name. -/
def toAtom (type : String) (name : Option HostValue) (outgoing : List Atom) :
    Except HostValue.Unsupported Atom :=
  match outgoing, name with
  | [], none => .ok (.expr [.symbol type])
  | [], some v => do return .expr [.symbol type, .literal (← v.toLiteral)]
  | atoms, _ => .ok (.expr (.symbol type :: atoms))

end Metta.Graph
