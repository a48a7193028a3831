import CubridWebManager.Lib.JsText
import Mathlib.Data.Rat.Defs
import Mathlib.Algebra.Field.Rat

/-!
# Numerals

`readDecimal` reads a decimal numeral at the front of a text, in the grammar that `strtod` and JavaScript share, and
`number` reads a text that is a numeral as `Number(text)` does.  The values are exact, and an infinite number is none.
-/

namespace Numeral

open Nat (ofDigitChars)

def readSign : Text → ℤ × Text
  | '-' :: text => (-1, text)
  | '+' :: text => (1, text)
  | text => (1, text)

/-- `\d+(?:\.\d*)?|\.\d+`: the digits before the point and after it, and what is left. -/
def readMantissa (text : Text) : Option (Text × Text × Text) :=
  let whole := text.takeWhile Char.isDigit
  let rest := text.dropWhile Char.isDigit
  if whole = [] then
    if rest.head? = some '.' ∧ rest.tail.takeWhile Char.isDigit ≠ [] then
      some ([], rest.tail.takeWhile Char.isDigit, rest.tail.dropWhile Char.isDigit)
    else none
  else if rest.head? = some '.' then
    some (whole, rest.tail.takeWhile Char.isDigit, rest.tail.dropWhile Char.isDigit)
  else some (whole, [], rest)

/-- `[eE][+-]?\d+` -/
def readExponent (text : Text) : Option (ℤ × Text) :=
  if text.head? = some 'e' ∨ text.head? = some 'E' then
    let (sign, unsigned) := readSign text.tail
    let digits := unsigned.takeWhile Char.isDigit
    if digits = [] then none else some (sign * ofDigitChars 10 digits 0, unsigned.dropWhile Char.isDigit)
  else none

/-- The numeral at the front of the text, and what is left. -/
def readDecimal (text : Text) : Option (ℚ × Text) := do
  let (sign, unsigned) := readSign text
  let (whole, fraction, rest) ← readMantissa unsigned
  let (exponent, rest) := (readExponent rest).getD (0, rest)
  some (sign * ofDigitChars 10 (whole ++ fraction) 0 * 10 ^ (exponent - fraction.length), rest)

/-! ### `Number(text)` -/

def digitValue (c : Char) : ℕ :=
  if c.isDigit then c.toNat - '0'.toNat
  else if c.isAlpha then c.toLower.toNat - 'a'.toNat + 10
  else 36

def readRadix (base : ℕ) (digits : Text) : Option ℚ :=
  if digits ≠ [] ∧ digits.all (fun c => digitValue c < base) then
    some (digits.foldl (fun n c => base * n + digitValue c) 0 : ℕ)
  else none

/-- `Number(text)` for a text that is trimmed and not empty, unless it is NaN or infinite. -/
def number (text : Text) : Option ℚ :=
  let radix : Option ℕ := match text with
    | '0' :: c :: _ => [('x', 16), ('o', 8), ('b', 2)].lookup c.toLower
    | _ => none
  match radix with
  | some base => readRadix base (text.drop 2)
  | none => (readDecimal text).bind fun (x, rest) => if rest = [] then some x else none

example : number "-1.5e2".toList = some (-150) ∧ number "0x1F".toList = some 31 ∧ number "12kB".toList = none := by
  decide +kernel

end Numeral
