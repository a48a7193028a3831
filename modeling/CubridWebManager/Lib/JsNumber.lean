import CubridWebManager.Lib.Double
import CubridWebManager.Lib.JsText
import Mathlib.Data.List.DropRight

/-!
# Numbers as JavaScript sees them

A number is a double, an infinity or NaN; there is one zero.  `text` writes a number without a fraction as
`Number.prototype.toString` does: with the least digits that give the number back, and with an exponent from 22 digits
on.
-/

/-- The least number that is too large for a double. -/
@[irreducible] def JsNumber.overflow : ℚ := 2 ^ 1024

inductive JsNumber where
  | nan
  | infinity (negative : Bool)
  | finite (x : ℚ) (exact : Double.nearest x = x) (small : |x| < JsNumber.overflow)

namespace JsNumber

open Double

/-! ### Arithmetic -/

/-- The number next to a rational. -/
def ofRat (x : ℚ) : JsNumber :=
  if h : |nearest x| < overflow then finite (nearest x) (nearest_nearest x) h else infinity (x < 0)

/-- `n <= 0` -/
def leZero : JsNumber → Bool
  | nan => false
  | infinity negative => negative
  | finite x _ _ => x ≤ 0

def mul : JsNumber → JsNumber → JsNumber
  | finite x _ _, finite y _ _ => ofRat (x * y)
  | infinity a, infinity b => infinity (a ^^ b)
  | infinity a, finite y _ _ => if y = 0 then nan else infinity (a ^^ decide (y < 0))
  | finite x _ _, infinity b => if x = 0 then nan else infinity (b ^^ decide (x < 0))
  | _, _ => nan

def div : JsNumber → JsNumber → JsNumber
  | finite x _ _, finite y _ _ =>
    if y = 0 then (if x = 0 then nan else infinity (x < 0)) else ofRat (x / y)
  | finite _ _ _, infinity _ => ofRat 0
  | infinity a, finite y _ _ => infinity (a ^^ decide (y < 0))
  | _, _ => nan

/-- `Math.floor` -/
def floor : JsNumber → JsNumber
  | finite x _ _ => ofRat ⌊x⌋
  | n => n

section arithmetic

variable {x y : ℚ} {hx : nearest x = x} {hy : nearest y = y} {hx' : |x| < overflow} {hy' : |y| < overflow}

theorem mul_finite : (finite x hx hx').mul (finite y hy hy') = ofRat (x * y) := rfl

theorem div_finite (h : y ≠ 0) : (finite x hx hx').div (finite y hy hy') = ofRat (x / y) := if_neg h

theorem floor_finite : (finite x hx hx').floor = ofRat ⌊x⌋ := rfl

theorem pow_lt_overflow {k : ℕ} (hk : k < 1024) : (2 : ℚ) ^ k < overflow := by
  unfold overflow
  exact pow_lt_pow_right₀ one_lt_two hk

theorem ofRat_of_lt (h : |nearest x| < overflow) : ofRat x = finite (nearest x) (nearest_nearest x) h := dif_pos h

theorem ofRat_of_exact (h : nearest x = x) (hx : |x| < overflow) : ofRat x = finite x h hx := by
  have hx' : |nearest x| < overflow := h.symm ▸ hx
  rw [ofRat_of_lt hx']
  congr

theorem ofRat_of_le (hx : 0 < x) (h : overflow ≤ nearest x) : ofRat x = infinity false := by
  have h' : ¬|nearest x| < overflow := not_lt.2 (h.trans (le_abs_self _))
  rw [ofRat, dif_neg h', decide_eq_false (not_lt.2 hx.le)]

end arithmetic

/-! ### Text -/

/-- A multiple of `10 ^ j` next to `n` that is read as `n`, the closer one of two. -/
def rounded (n j : ℕ) : Option ℕ :=
  let low := n / 10 ^ j * 10 ^ j
  let high := low + 10 ^ j
  if nearest low = n ∧ (nearest high ≠ n ∨ n - low ≤ high - n) then some low
  else if nearest high = n then some high else none

/-- The number with the least digits that is read as `n`. -/
def shortest (n : ℕ) : ℕ := ((List.range 310).reverse.findSome? (rounded n)).getD n

/-- The text of a number without sign and fraction. -/
def wholeText (n : ℕ) : Text :=
  let digits := Nat.toDigits 10 (shortest n)
  if shortest n < 10 ^ 21 then digits
  else
    let fraction := digits.tail.rdropWhile (· = '0')
    digits.take 1 ++ (if fraction = [] then [] else '.' :: fraction) ++ "e+".toList ++
      Nat.toDigits 10 (digits.length - 1)

/-- The text of a number without a fraction. -/
def text : JsNumber → Text
  | nan => "NaN".toList
  | infinity negative => if negative then "-Infinity".toList else "Infinity".toList
  | finite x _ _ => if x < 0 then '-' :: wholeText ⌊-x⌋.toNat else wholeText ⌊x⌋.toNat

example : wholeText (2 ^ 70) = "1.1805916207174113e+21".toList := by decide +kernel

/-! ### Digits -/

theorem not_mem_toDigits {c : Char} (hc : c.isDigit = false) (n : ℕ) : c ∉ Nat.toDigits 10 n := by
  intro hmem
  rw [Nat.isDigit_of_mem_toDigits (by norm_num) (by norm_num) hmem] at hc
  cases hc

theorem toDigits_injective {m n : ℕ} (h : Nat.toDigits 10 m = Nat.toDigits 10 n) : m = n := by
  rw [← Nat.ofDigitChars_ten_toDigits (n := m), h, Nat.ofDigitChars_ten_toDigits]

/-- Neither white space nor punctuation other than the point and the signs. -/
def isNumeral (c : Char) : Bool := c.isAlphanum || c = '.' || c = '+' || c = '-'

theorem isNumeral_of_mem_toDigits {c : Char} {n : ℕ} (h : c ∈ Nat.toDigits 10 n) : isNumeral c = true := by
  have hdigit : c.isDigit = true := Nat.isDigit_of_mem_toDigits (by norm_num) (by norm_num) h
  simp [isNumeral, Char.isAlphanum, hdigit]

theorem isNumeral_of_mem_wholeText {c : Char} {n : ℕ} (h : c ∈ wholeText n) : isNumeral c = true := by
  have hdigits : ∀ d ∈ Nat.toDigits 10 (shortest n), isNumeral d = true := fun d hd => isNumeral_of_mem_toDigits hd
  unfold wholeText at h
  dsimp only at h
  split at h
  · exact hdigits c h
  · rw [List.mem_append, List.mem_append, List.mem_append] at h
    rcases h with ((h | h) | h) | h
    · exact hdigits c (List.mem_of_mem_take h)
    · split at h
      · cases h
      · rcases List.mem_cons.1 h with rfl | h
        · rfl
        · exact hdigits c (List.mem_of_mem_tail ((List.rdropWhile_prefix _ _).subset h))
    · rcases List.mem_cons.1 h with rfl | h
      · rfl
      · rw [List.mem_singleton.1 h]
        rfl
    · exact isNumeral_of_mem_toDigits h

/-- What the texts of numbers consist of. -/
theorem isNumeral_of_mem_text {c : Char} {n : JsNumber} (h : c ∈ n.text) : isNumeral c = true := by
  cases n with
  | nan =>
    have hall : ("NaN".toList.all isNumeral) = true := by decide
    exact List.all_eq_true.1 hall c h
  | infinity negative =>
    have hall : ("-Infinity".toList.all isNumeral) = true := by decide
    cases negative
    · exact List.all_eq_true.1 hall c (List.mem_cons_of_mem _ h)
    · exact List.all_eq_true.1 hall c h
  | finite x hx hx' =>
    rw [text] at h
    split at h
    · rcases List.mem_cons.1 h with rfl | h
      · rfl
      · exact isNumeral_of_mem_wholeText h
    · exact isNumeral_of_mem_wholeText h

theorem isSpace_of_isNumeral {c : Char} (h : isNumeral c = true) : Text.isSpace c = false := by
  unfold isNumeral Char.isAlphanum Char.isAlpha Char.isUpper Char.isLower Char.isDigit at h
  simp only [ge_iff_le, Bool.or_eq_true, Bool.and_eq_true, decide_eq_true_eq, UInt32.le_iff_toNat_le] at h
  have hn : c.val.toNat = c.toNat := rfl
  rw [hn] at h
  rcases h with (((hcode | rfl) | rfl) | rfl)
  · rw [← Bool.not_eq_true]
    simp only [Text.isSpace, Bool.or_eq_true, Bool.and_eq_true, decide_eq_true_eq, beq_iff_eq]
    change (65 ≤ c.toNat ∧ c.toNat ≤ 90 ∨ 97 ≤ c.toNat ∧ c.toNat ≤ 122) ∨ 48 ≤ c.toNat ∧ c.toNat ≤ 57 at hcode
    omega
  all_goals rfl

theorem nearest_of_rounded {n j m : ℕ} (h : rounded n j = some m) : nearest m = n := by
  unfold rounded at h
  dsimp only at h
  split at h
  · rename_i hlow
    rw [← Option.some.inj h]
    exact hlow.1
  · split at h
    · rename_i hhigh
      rw [← Option.some.inj h]
      exact hhigh
    · cases h

/-- The text is read as the number. -/
theorem nearest_shortest {n : ℕ} (hn : nearest n = n) : nearest (shortest n) = n := by
  unfold shortest
  cases hfind : (List.range 310).reverse.findSome? (rounded n) with
  | none => exact hn
  | some m =>
    obtain ⟨j, -, hj⟩ := List.exists_of_findSome?_eq_some hfind
    exact nearest_of_rounded hj

/-- Numbers below `2 ^ 53` are written in full. -/
theorem shortest_of_lt {n : ℕ} (hn : n < 2 ^ 53) : shortest n = n := by
  unfold shortest
  cases hfind : (List.range 310).reverse.findSome? (rounded n) with
  | none => rfl
  | some m =>
    obtain ⟨j, -, hj⟩ := List.exists_of_findSome?_eq_some hfind
    have hm := nearest_of_rounded hj
    by_cases hsmall : m < 2 ^ 53
    · have hint : nearest ((m : ℤ) : ℚ) = (m : ℤ) := nearest_intCast (by rw [Nat.abs_cast]; exact_mod_cast hsmall)
      rw [Int.cast_natCast, hm] at hint
      exact_mod_cast hint.symm
    · have hbig := le_nearest (x := (m : ℚ)) (by exact_mod_cast not_lt.1 hsmall)
      rw [hm] at hbig
      have : 2 ^ 53 ≤ n := by exact_mod_cast hbig
      omega

theorem wholeText_eq_iff {n m : ℕ} : wholeText n = Nat.toDigits 10 m ↔ shortest n = m ∧ m < 10 ^ 21 := by
  unfold wholeText
  dsimp only
  constructor
  · intro h
    by_cases hsmall : shortest n < 10 ^ 21
    · rw [if_pos hsmall] at h
      have heq := toDigits_injective h
      exact ⟨heq, heq ▸ hsmall⟩
    · rw [if_neg hsmall] at h
      refine absurd ?_ (not_mem_toDigits (c := 'e') rfl m)
      rw [← h]
      simp
  · rintro ⟨rfl, hsmall⟩
    rw [if_pos hsmall]

end JsNumber
