import Metta.Text.Quoted
import Metta.Text.Digit
import Metta.Space
import Metta.Reader
import Metta.HostValue
import Metta.Main
import Metta.Check
import Metta.Graph
import Metta.Storage
import Metta.Unify
import Metta.Proofs.NormalForm
import Metta.Proofs.Rewriting
import Metta.Proofs.Limits
import Metta.Proofs.Isolation
import Metta.Proofs.Frozen
import Metta.Proofs.Matching
import Metta.Proofs.Rounding
import Metta.Proofs.Stack
import Metta.Proofs.Digits
import Metta.Proofs.Lexemes
import Metta.Proofs.Readable
import Metta.Proofs.RoundTrip
import Metta.Proofs.Solution
import Metta.Proofs.Unification
import Metta.Proofs.Spelled
import Metta.Proofs.History
import Metta.Proofs.Congruence
import Metta.Proofs.Contents
import Metta.Proofs.RuleCheck
import Metta.Proofs.Faults
import Metta.Proofs.Priority
import Metta.Proofs.Malformed
import Metta.Proofs.Quotation
import Metta.Proofs.Arity
import Metta.Proofs.Composition
import Metta.Proofs.Export
import Metta.Proofs.FailedCalls
import Metta.Proofs.Renaming
import Metta.Proofs.Merging
import Metta.Proofs.Querying
import Metta.Proofs.Rereading
import Metta.Proofs.Branches
import Metta.Proofs.GroundData
import Metta.Proofs.Dialogue
import Metta.Proofs.Window
import Metta.Proofs.Comparing
import Metta.Proofs.Ending
import Metta.Proofs.Duality
import Metta.Proofs.Lists
import Metta.Proofs.Stepwise
import Metta.Proofs.Termination
import Metta.Proofs.Ending
