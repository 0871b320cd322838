import MyServer.Json
import Mathlib.Algebra.GroupWithZero.Nat

/-!
# Writing JSON text (`json_writer.cpp`)

`toStyledString` is the vendored `StyledWriter`: objects one member a line, indented by
three blanks, arrays on one line when they are short and flat. The writer appends to a
document and looks at its last byte to decide whether a line break is still needed;
`ind` is the length of `indentString_`.

`realText` is the text of a `double` (`sprintf` with `%#.16g`, trailing zeros cut).
-/

namespace MyServer

namespace Json

/-! ## Scalars -/

/-- The loop of `uintToString`; ten rounds are enough for 32 bits. -/
def uintLoop : ℕ → ℕ → List UInt8 → List UInt8
  | 0, _, current => current
  | k + 1, value, current =>
    let current := .ofNat (value % 10 + 48) :: current
    if value / 10 ≠ 0 then uintLoop k (value / 10) current else current

/-- `uintToString` -/
def uintToString (value : UInt32) : List UInt8 := uintLoop 10 value.toNat []

/-- `valueToString(Int)` -/
def intToString (value : Int32) : List UInt8 :=
  if value < 0 then 45 :: uintToString (-value).toUInt32 else uintToString value.toUInt32

/-- A hexadecimal digit, in upper case. -/
def hexDigit (n : ℕ) : UInt8 := .ofNat (if n < 10 then n + 48 else n + 55)

/-- `isControlCharacter` -/
def isControlCharacter (ch : UInt8) : Bool := 0 < ch && ch ≤ 0x1F

/-- The `switch` of `valueToQuotedString`. -/
def escapeChar (ch : UInt8) : List UInt8 :=
  if ch = 34 then [92, 34]
  else if ch = 92 then [92, 92]
  else if ch = 8 then [92, 98]
  else if ch = 12 then [92, 102]
  else if ch = 10 then [92, 110]
  else if ch = 13 then [92, 114]
  else if ch = 9 then [92, 116]
  else if isControlCharacter ch then
    [92, 117, 48, 48, hexDigit (ch.toNat / 16), hexDigit (ch.toNat % 16)]
  else [ch]

/-- The text between the quotes. The source copies a string without special characters
as it is, which is what escaping its characters one by one gives. -/
def escape (s : List UInt8) : List UInt8 := s.flatMap escapeChar

/-- `valueToQuotedString` -/
def valueToQuotedString (s : CString) : List UInt8 := 34 :: (escape s.val ++ [34])

/-- What `writeValue` hands to `pushValue`: the text of a scalar, or of an array or
object without elements. -/
def scalarText (realText : ℚ → List UInt8) : Json → List UInt8
  | null => [110, 117, 108, 108]
  | int n => intToString n
  | uint n => uintToString n
  | real q => realText q
  | str s => valueToQuotedString s
  | bool true => [116, 114, 117, 101]
  | bool false => [102, 97, 108, 115, 101]
  | arr _ => [91, 93]
  | obj _ => [123, 125]

/-! ## The styled writer -/

/-- `writeIndent` -/
def writeIndent (document : List UInt8) (ind : ℕ) : List UInt8 :=
  match document.getLast? with
  | none => document ++ List.replicate ind 32
  | some last =>
    if last = 32 then document
    else if last = 10 then document ++ List.replicate ind 32
    else document ++ 10 :: List.replicate ind 32

/-- `writeWithIndent` -/
def writeWithIndent (document : List UInt8) (ind : ℕ) (value : List UInt8) : List UInt8 :=
  writeIndent document ind ++ value

/-- The first half of `isMultineArray`: too many elements, or an element that has
elements. -/
def isNested (xs : List Json) : Bool :=
  74 ≤ xs.length * 3 || xs.any fun x => (x matches arr _ || x matches obj _) && 0 < x.size

/-- The second half: the length of the line. -/
def lineLength (texts : List (List UInt8)) : ℕ :=
  4 + (texts.length - 1) * 2 + (texts.map List.length).sum

/-- The separator after an element: none after the last one. -/
def separated {α : Type*} (document : List UInt8) (rest : List α) : List UInt8 :=
  if rest.isEmpty then document else document ++ [44]

/-- The elements of a multi-line array whose texts are already there. -/
def writeTexts (document : List UInt8) (ind : ℕ) : List (List UInt8) → List UInt8
  | [] => document
  | t :: ts => writeTexts (separated (writeWithIndent document ind t) ts) ind ts

mutual

/-- `writeValue` -/
def writeValue (realText : ℚ → List UInt8) (document : List UInt8) (ind : ℕ) : Json → List UInt8
  | arr xs =>
    if xs.isEmpty then document ++ scalarText realText (arr xs)
    else if isNested xs then
      let document := writeWithIndent document ind [91]
      let document := writeItems realText document (ind + 3) xs
      writeWithIndent document ind [93]
    else
      let childValues := xs.map (scalarText realText)
      if 74 ≤ lineLength childValues then
        let document := writeWithIndent document ind [91]
        let document := writeTexts document (ind + 3) childValues
        writeWithIndent document ind [93]
      else document ++ [91, 32] ++ List.intercalate [44, 32] childValues ++ [32, 93]
  | obj ms =>
    if ms.isEmpty then document ++ scalarText realText (obj ms)
    else
      let document := writeWithIndent document ind [123]
      let document := writeMembers realText document (ind + 3) ms
      writeWithIndent document ind [125]
  | v => document ++ scalarText realText v

/-- The loop over the elements of a multi-line array. -/
def writeItems (realText : ℚ → List UInt8) (document : List UInt8) (ind : ℕ) :
    List Json → List UInt8
  | [] => document
  | x :: xs =>
    let document := writeValue realText (writeIndent document ind) ind x
    writeItems realText (separated document xs) ind xs

/-- The loop over the members of an object. -/
def writeMembers (realText : ℚ → List UInt8) (document : List UInt8) (ind : ℕ) :
    List (CString × Json) → List UInt8
  | [] => document
  | (name, childValue) :: ms =>
    let document := writeWithIndent document ind (valueToQuotedString name) ++ [32, 58, 32]
    let document := writeValue realText document ind childValue
    writeMembers realText (separated document ms) ind ms

end

/-- `toStyledString` -/
def toStyledString (realText : ℚ → List UInt8) (v : Json) : List UInt8 :=
  writeValue realText [] 0 v ++ [10]

end Json

end MyServer
