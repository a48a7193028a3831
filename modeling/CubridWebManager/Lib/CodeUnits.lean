import CubridWebManager.Lib.Trim

/-!
# Strings of code units

A string of JavaScript or Java is a list of UTF-16 code units, surrogates included.
-/

abbrev CodeUnits := List UInt16

namespace CodeUnits

/-- A character of the basic plane. -/
def unit (c : Char) : UInt16 := c.toNat.toUInt16

def ofText (s : String) : CodeUnits := s.toList.map unit

/-- The white space and the line terminators of JavaScript. -/
def isSpace (u : UInt16) : Bool :=
  let n := u.toNat
  (9 ≤ n && n ≤ 13) || n == 32 || n == 0xa0 || n == 0x1680 || (0x2000 ≤ n && n ≤ 0x200a) || n == 0x2028 ||
    n == 0x2029 || n == 0x202f || n == 0x205f || n == 0x3000 || n == 0xfeff

/-- A printable unit of ASCII other than the space is not white space. -/
theorem isSpace_eq_false {u : UInt16} (h : 32 < u.toNat) (h' : u.toNat < 127) : isSpace u = false := by
  simp only [isSpace, Bool.or_eq_false_iff, Bool.and_eq_false_iff, decide_eq_false_iff_not, beq_eq_false_iff_ne]
  omega

end CodeUnits
