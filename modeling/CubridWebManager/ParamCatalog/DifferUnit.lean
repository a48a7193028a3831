import CubridWebManager.Lib.Double
import CubridWebManager.Lib.JsText

/-!
# Limits in the unit of a conf value

The catalog gives the limits of a parameter in the unit that the engine stores.  `differUnitBounds` turns them into
bounds for the value in the conf file, in the arithmetic of doubles.
-/

namespace CubridWebManager.ParamCatalog

open Double

inductive Datatype where
  | integer
  | bigint
  | float
  | boolean
  | string
  | keyword
  | integerList
  | none
  deriving DecidableEq

/-- The conversions of the engine that `differUnitBounds` knows; `other` stands for the rest. -/
inductive SetDup where
  | equalToOri
  | sizeToIoPages
  | sizeToLogPages
  | msecToSec
  | minToSec
  | other
  deriving DecidableEq

structure EngineCatalogDbParam where
  datatype : Datatype
  lowerLimit : Option Text
  upperLimit : Option Text
  setDup : Option SetDup

def intMax : ℚ := 2147483647

def loadPageSize : ℚ := 16384

/-! ### Numbers -/

/-- The number in a text of the form `/^-?\d+(\.\d+)?$/`. -/
def decimalValue (text : Text) : Option ℚ :=
  let sign : ℚ := if text.head? = some '-' then -1 else 1
  let unsigned := if text.head? = some '-' then text.tail else text
  let whole := unsigned.takeWhile Char.isDigit
  let fraction := unsigned.dropWhile Char.isDigit
  if whole = [] then none
  else if fraction = [] then some (sign * Nat.ofDigitChars 10 whole 0)
  else if fraction.head? = some '.' ∧ fraction.tail ≠ [] ∧ fraction.tail.all Char.isDigit then
    some (sign * (Nat.ofDigitChars 10 whole 0 + Nat.ofDigitChars 10 fraction.tail 0 / 10 ^ fraction.tail.length))
  else none

/-- The limit that the catalog gives, if it is a number. -/
def limit (text : Option Text) : Option ℚ := text.bind decimalValue

def numberOrUndefined (text : Option Text) : Option ℚ := (limit text).map nearest

/-! The arithmetic of doubles. -/

def add (x y : ℚ) : ℚ := nearest (x + y)

def sub (x y : ℚ) : ℚ := nearest (x - y)

def mul (x y : ℚ) : ℚ := nearest (x * y)

def div (x y : ℚ) : ℚ := nearest (x / y)

/-! ### The bounds -/

structure Bounds where
  min : Option ℚ
  max : Option ℚ
  deriving DecidableEq

/-- The value lies within the bounds that are there. -/
def Bounds.Within (b : Bounds) (v : ℤ) : Prop := (∀ m ∈ b.min, m ≤ v) ∧ ∀ m ∈ b.max, (v : ℚ) ≤ m

instance (b : Bounds) (v : ℤ) : Decidable (b.Within v) :=
  inferInstanceAs (Decidable ((∀ m ∈ b.min, m ≤ v) ∧ ∀ m ∈ b.max, (v : ℚ) ≤ m))

/-- The bounds of a size in pages with two decimals. -/
def floatSizeBounds (lower upper : Option ℚ) : Bounds :=
  let l := lower.map fun lower => (⌈mul lower 100⌉ : ℚ)
  let u := upper.map fun upper => (⌈mul upper 100⌉ : ℚ)
  { min := l.bind fun l => if 0 < l then some (add ⌊div (mul (sub l 1) loadPageSize) 100⌋ 1) else none
    max := u.map fun u => (⌊div (mul u loadPageSize) 100⌋ : ℚ) }

def sizeBounds (lower upper : Option ℚ) : Bounds :=
  let maxPages := min (upper.getD intMax) intMax
  { min := lower.bind fun lower => if 1 ≤ lower then some (add (mul (sub lower 1) loadPageSize) 1) else none
    max := some (mul maxPages loadPageSize) }

def msecBounds (lower upper : Option ℚ) : Bounds :=
  let maxSec := min (upper.getD intMax) intMax
  { min := lower.map fun lower => if 1 ≤ lower then add (mul (sub lower 1) 1000) 1 else lower
    max := some (mul maxSec 1000) }

def minBounds (lower upper : Option ℚ) : Bounds :=
  let maxSec := min (upper.getD intMax) intMax
  { min := lower.map fun lower => if 1 ≤ lower then (⌈div lower 60⌉ : ℚ) else lower
    max := some (⌊div maxSec 60⌋ : ℚ) }

def differUnitBounds (c : EngineCatalogDbParam) : Option Bounds :=
  let lower := numberOrUndefined c.lowerLimit
  let upper := numberOrUndefined c.upperLimit
  match c.setDup with
  | some .equalToOri => some { min := lower, max := upper }
  | some .sizeToIoPages | some .sizeToLogPages =>
    if c.datatype = .float then some (floatSizeBounds lower upper) else some (sizeBounds lower upper)
  | some .msecToSec => some (msecBounds lower upper)
  | some .minToSec => some (minBounds lower upper)
  | _ => none

example : differUnitBounds ⟨.float, some "0.049999".toList, some "16".toList, some .sizeToIoPages⟩ =
    some ⟨some 656, some 262144⟩ := by decide +kernel

end CubridWebManager.ParamCatalog
