import Mathlib.Algebra.GroupWithZero.Nat
import Mathlib.Data.List.Infix

/-!
# Text as JavaScript sees it

A text is the list of its characters.  `trim` and `utf16Length` follow `String.prototype.trim` and `.length`: white
space is what JavaScript calls white space or a line terminator, and the length counts UTF-16 units.
-/

abbrev Text := List Char

instance : LawfulBEq Text := inferInstance

instance : LawfulBEq (Option Text) := inferInstance

namespace Text

/-- The white space and the line terminators of JavaScript. -/
def isSpace (c : Char) : Bool :=
  let n := c.toNat
  (9 ≤ n && n ≤ 13) || n == 32 || n == 0xa0 || n == 0x1680 || (0x2000 ≤ n && n ≤ 0x200a) || n == 0x2028 ||
    n == 0x2029 || n == 0x202f || n == 0x205f || n == 0x3000 || n == 0xfeff

def trimStart (t : Text) : Text := t.dropWhile isSpace

def trimEnd (t : Text) : Text := (t.reverse.dropWhile isSpace).reverse

def trim (t : Text) : Text := trimEnd (trimStart t)

def utf16Length (t : Text) : Nat := (t.map fun c => if 0x10000 ≤ c.toNat then 2 else 1).sum

end Text
