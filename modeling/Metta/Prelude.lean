/-
# Metta.Prelude -- the rules every session may start with
-/

namespace Metta.Prelude

set_option autoImplicit false

/-- The prelude as source text. -/
def source : String := "
; Identity function
(= (id $x) $x)

; Function composition
(= (compose $f $g $x) ($f ($g $x)))

; List operations
(= (head ($x . $xs)) $x)
(= (tail ($x . $xs)) $xs)
(= (cons $x $xs) ($x . $xs))
(= (nil? ()) True)
(= (nil? ($x . $xs)) False)

; Boolean operations
(= (bool-not True) False)
(= (bool-not False) True)

; Equality
(= (eq $x $x) True)

; Type predicates
(= (symbol? $x) (: $x Symbol))
(= (expression? $x) (: $x Expression))
"

end Metta.Prelude
