import Mathlib.Data.List.Basic
import Mathlib.Data.Int.Order.Basic

/-!
# Tightening a text (`helpFunctions.cpp`)

`tighten` copies a text without the white space it meets while a flag is off, and
flips the flag at every double quote it copies. It knows nothing of the backslash,
so an escaped quote flips the flag as well.
-/

namespace MyServer

/-- A byte as a (signed) `char`. -/
def charValue (b : UInt8) : ℤ := b.toInt8.toInt

/-- `isspace`, in the C locale. -/
def isspace (c : ℤ) : Bool := decide (9 ≤ c ∧ c ≤ 13 ∨ c = 32)

/-- The macro `Between`. -/
def between (x l h : ℤ) : Bool := decide (l ≤ x ∧ x ≤ h)

/-- The test of the loop: a white space byte, by a guard that keeps negative `char`s
away from `isspace`. -/
def isBlank (ch : UInt8) : Bool := between (charValue ch + 1) 0 256 && isspace (charValue ch)

/-- The loop of `tighten`, with its local `in_string`. -/
def tightenFrom (inString : Bool) : List UInt8 → List UInt8
  | [] => []
  | ch :: str =>
    if isBlank ch && inString == false then tightenFrom inString str
    else ch :: tightenFrom (if ch = 34 then !inString else inString) str

/-- `HelpFunctions::tighten` -/
def tighten (str : List UInt8) : List UInt8 := tightenFrom false str

end MyServer
