/-
# Metta.Literal -- host values inside atoms

A literal is a scalar (a whole number of any size, a float, a text or a truth
value) with a tag.  The tag decides how the literal is written and nothing else;
usually it is the one that belongs to the scalar (`Scalar.tag`).

Two scalars are the same when their keys are (`Scalar.key?`): numbers are compared as
exact points of the number line, so `2` is the same as `2.0`, zero as minus zero,
and `2 ^ 53 + 1` is not the same as the float nearest to it.  A truth value is
never the same as a number, and a NaN is the same as nothing.

A literal may have a tag that does not fit its scalar, and a whole number may be too
long.  Then there is no written form, and `Literal.fault?` says why.
-/
import Metta.Number.Decimal
import Metta.ParseError

namespace Metta

open Metta.Number Metta.Text

set_option autoImplicit false

inductive Scalar where
  | int (n : Int)
  | float (x : Float)
  | text (s : String)
  | truth (b : Bool)
deriving DecidableEq

/-- What is left of a scalar once its representation is forgotten. -/
inductive Key where
  | number (p : Point)
  | text (s : String)
  | truth (b : Bool)
deriving DecidableEq

/-- What a scalar is worth as a float. -/
inductive FloatView where
  | value (x : Float)
  | tooLarge
  | notNumber

/-- Why something has no written form. -/
inductive Unwritable where
  /-- A whole number that is to be written as a float is too large for one. -/
  | tooLarge
  /-- A whole number has more digits than are written. -/
  | tooManyDigits
  /-- A scalar of another type is to be written as a text. -/
  | notText (type : String)
  /-- A text is to be written as a float. -/
  | notNumber
deriving DecidableEq, Repr

def Unwritable.message : Unwritable → String
  | tooLarge => "int too large to convert to float"
  | tooManyDigits =>
    "Exceeds the limit (" ++ toString Flaw.maxIntegerDigits ++
      " digits) for integer string conversion; use sys.set_int_max_str_digits() to increase the limit"
  | notText type => "'" ++ type ++ "' object has no attribute 'replace'"
  | notNumber => "must be real number, not str"

namespace Scalar

/-- The name of the type in messages. -/
def typeName : Scalar → String
  | int _ => "int"
  | float _ => "float"
  | text _ => "str"
  | truth _ => "bool"

/-- The tag of a scalar that was given none. -/
def tag : Scalar → String
  | int _ => "Number"
  | float _ => "Float"
  | text _ => "String"
  | truth _ => "Bool"

/-- A NaN has no key. -/
def key? : Scalar → Option Key
  | int n => some (.number (.finite n))
  | float x => (pointOf? x).map .number
  | text s => some (.text s)
  | truth b => some (.truth b)

def same (a b : Scalar) : Bool :=
  match a.key?, b.key? with
  | some k, some l => k == l
  | _, _ => false

def isNumber : Scalar → Bool
  | int _ | float _ => true
  | text _ | truth _ => false

/-- Whole numbers are rounded to the nearest float; those that round beyond the largest one are
too large. -/
def asFloat : Scalar → FloatView
  | int n =>
    match nearestInt? n with
    | some x => .value x
    | none => .tooLarge
  | float x => .value x
  | text _ | truth _ => .notNumber

/-- Zero, the empty text and false are falsy; a NaN is not zero. -/
def isTruthy : Scalar → Bool
  | int n => n != 0
  | float x => !(x == 0)
  | text s => s != ""
  | truth b => b

/-- How a scalar reads in messages: floats with an exponent where they are long, texts as a
display form. -/
def display : Scalar → String
  | int n => toString n
  | float x => String.ofList (Layout.compact x)
  | text s => displayForm s
  | truth b => if b then "True" else "False"

/-- A scalar as a positional float.  Texts, and whole numbers too large for a float, have no such
form (`Literal.fault?`) and are written out. -/
def positional : Scalar → String
  | int n =>
    match nearestInt? n with
    | some x => String.ofList (Layout.positional x)
    | none => toString n
  | float x => String.ofList (Layout.positional x)
  | text s => s
  | truth b => if b then "1.0" else "0.0"

end Scalar

structure Literal where
  value : Scalar
  tag : String
deriving DecidableEq

namespace Literal

def ofScalar (v : Scalar) : Literal := ⟨v, v.tag⟩

/-- A literal with the tag it is given; the empty tag stands for the scalar's own. -/
def tagged (v : Scalar) (tag : String) : Literal := ⟨v, if tag = "" then v.tag else tag⟩

def same (a b : Literal) : Bool := a.value.same b.value

/-- The written form goes by the tag.  It is one only where nothing stands against it (`fault?`). -/
def render (l : Literal) : String :=
  match l.tag, l.value with
  | "String", .text s => literalForm s
  | "Bool", v => if v.isTruthy then "true" else "false"
  | "Float", v => v.positional
  | _, v => v.display

/-- What stands against writing a literal as its tag asks. -/
def fault? (l : Literal) : Option Unwritable :=
  match l.tag, l.value with
  | "String", .text _ => none
  | "String", v => some (.notText v.typeName)
  | "Bool", _ => none
  | "Float", .text _ => some .notNumber
  | "Float", v => if v.asFloat matches .tooLarge then some .tooLarge else none
  | _, .int n =>
    if Flaw.maxIntegerDigits < Decimal.digitCount n.natAbs then some .tooManyDigits else none
  | _, _ => none

def isWritable (l : Literal) : Bool := l.fault?.isNone

end Literal

end Metta
