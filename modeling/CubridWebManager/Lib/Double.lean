import Mathlib.Data.Int.Log
import Mathlib.Data.Rat.Floor
import Mathlib.Tactic.Linarith
import Mathlib.Tactic.Positivity
import Mathlib.Tactic.Ring
import Mathlib.Tactic.FieldSimp

/-!
# Rounding to a double

A double stands for the rational number that it is, and `nearest` goes to the nearest one with 53 significant bits, to
the even one of two.  The exponent is not bounded: nothing overflows and nothing is subnormal.
-/

namespace Double

variable {x : ℚ} {n : ℤ} {d : ℕ}

def roundHalfEven (x : ℚ) : ℤ :=
  if x - ⌊x⌋ < 1 / 2 then ⌊x⌋ else if 1 / 2 < x - ⌊x⌋ then ⌊x⌋ + 1 else ⌊x⌋ + ⌊x⌋ % 2

/-- The distance of the doubles around `x`. -/
def ulp (x : ℚ) : ℚ := 2 ^ (Int.log 2 |x| - 52)

def nearest (x : ℚ) : ℚ := roundHalfEven (x / ulp x) * ulp x

/-! ### Integers -/

theorem abs_roundHalfEven_sub_le (x : ℚ) : |(roundHalfEven x : ℚ) - x| ≤ 1 / 2 := by
  have hlo := Int.floor_le x
  have hhi := Int.lt_floor_add_one x
  have hparity : (0 : ℚ) ≤ (⌊x⌋ % 2 : ℤ) ∧ ((⌊x⌋ % 2 : ℤ) : ℚ) ≤ 1 := by
    constructor
    · exact_mod_cast Int.emod_nonneg ⌊x⌋ two_ne_zero
    · exact_mod_cast (by omega : ⌊x⌋ % 2 ≤ 1)
  unfold roundHalfEven
  rw [abs_le]
  split_ifs <;> push_cast <;> constructor <;> linarith [hparity.1, hparity.2]

theorem roundHalfEven_intCast (n : ℤ) : roundHalfEven n = n := by
  rw [roundHalfEven, Int.floor_intCast, sub_self, if_pos (by norm_num)]

/-! ### Doubles -/

theorem ulp_pos (x : ℚ) : 0 < ulp x := zpow_pos two_pos _

theorem ulp_le (hx : x ≠ 0) : ulp x ≤ |x| / 2 ^ 52 := by
  have hlog : (2 : ℚ) ^ Int.log 2 |x| ≤ |x| := Int.zpow_log_le_self one_lt_two (abs_pos.2 hx)
  rw [ulp, zpow_sub₀ two_ne_zero]
  exact div_le_div_of_nonneg_right hlog (by positivity)

theorem abs_nearest_sub_le (x : ℚ) : |nearest x - x| ≤ |x| / 2 ^ 53 := by
  by_cases hx : x = 0
  · subst hx
    simp [nearest, roundHalfEven]
  · have hulp := ulp_pos x
    calc |nearest x - x| = |(roundHalfEven (x / ulp x) : ℚ) - x / ulp x| * ulp x := by
          rw [nearest, ← abs_of_pos hulp, ← abs_mul, abs_of_pos hulp, sub_mul, div_mul_cancel₀ _ hulp.ne']
      _ ≤ 1 / 2 * ulp x := by gcongr; exact abs_roundHalfEven_sub_le _
      _ ≤ 1 / 2 * (|x| / 2 ^ 52) := by gcongr; exact ulp_le hx
      _ = |x| / 2 ^ 53 := by ring

theorem half_le_nearest (hx : 0 ≤ x) : x / 2 ≤ nearest x := by
  have herror := (abs_le.1 (abs_nearest_sub_le x)).1
  rw [abs_of_nonneg hx] at herror
  have hsmall : x / 2 ^ 53 ≤ x / 2 := by gcongr; norm_num
  linarith

theorem nearest_le_two_mul (hx : 0 ≤ x) : nearest x ≤ 2 * x := by
  have herror := (abs_le.1 (abs_nearest_sub_le x)).2
  rw [abs_of_nonneg hx] at herror
  have hsmall : x / 2 ^ 53 ≤ x := div_le_self hx (by norm_num)
  linarith

theorem nearest_nonpos (hx : x ≤ 0) : nearest x ≤ 0 := by
  have herror := (abs_le.1 (abs_nearest_sub_le x)).2
  rw [abs_of_nonpos hx] at herror
  have hsmall : -x / 2 ^ 53 ≤ -x := div_le_self (by linarith) (by norm_num)
  linarith

theorem nearest_of_eq_mul {m : ℤ} (h : x = m * ulp x) : nearest x = x := by
  have hdiv : x / ulp x = m := (div_eq_iff (ulp_pos x).ne').2 h
  rw [nearest, hdiv, roundHalfEven_intCast, ← h]

/-- The integers below `2 ^ 53` are doubles. -/
theorem nearest_intCast (h : |n| < 2 ^ 53) : nearest n = n := by
  by_cases hn : n = 0
  · subst hn
    simp [nearest, roundHalfEven]
  · have hpos : (0 : ℚ) < |(n : ℚ)| := abs_pos.2 (Int.cast_ne_zero.2 hn)
    have hlog : Int.log 2 |(n : ℚ)| < 53 := by
      refine (Int.lt_zpow_iff_log_lt one_lt_two hpos).1 ?_
      rw [← Int.cast_abs]
      exact_mod_cast h
    obtain ⟨k, hk⟩ := Int.eq_ofNat_of_zero_le (by omega : 0 ≤ 52 - Int.log 2 |(n : ℚ)|)
    refine nearest_of_eq_mul (m := n * 2 ^ k) ?_
    have hexp : Int.log 2 |(n : ℚ)| - 52 = -(k : ℤ) := by omega
    rw [ulp, hexp, zpow_neg, zpow_natCast]
    push_cast
    field_simp

/-- The double next to an integer is an integer. -/
theorem exists_nearest_intCast (n : ℤ) : ∃ m : ℤ, nearest n = m := by
  by_cases h : |n| < 2 ^ 53
  · exact ⟨n, nearest_intCast h⟩
  · have hpos : (0 : ℚ) < |(n : ℚ)| := by
      refine abs_pos.2 (Int.cast_ne_zero.2 ?_)
      rintro rfl
      exact h (by norm_num)
    have hlog : 53 ≤ Int.log 2 |(n : ℚ)| := by
      refine (Int.zpow_le_iff_le_log one_lt_two hpos).1 ?_
      rw [← Int.cast_abs]
      exact_mod_cast not_lt.1 h
    obtain ⟨k, hk⟩ := Int.eq_ofNat_of_zero_le (by omega : 0 ≤ Int.log 2 |(n : ℚ)| - 52)
    refine ⟨roundHalfEven ((n : ℚ) / ulp n) * 2 ^ k, ?_⟩
    have hulp : ulp (n : ℚ) = 2 ^ k := by rw [ulp, hk, zpow_natCast]
    rw [nearest, hulp]
    push_cast
    rfl

/-- A fraction keeps its floor and its ceiling where doubles are closer than the fractions of its denominator. -/
theorem floor_nearest (hd : 0 < d) (hx : x * d = n) (hn : |n| < 2 ^ 53) : ⌊nearest x⌋ = ⌊x⌋ ∧ ⌈nearest x⌉ = ⌈x⌉ := by
  have hd' : (0 : ℚ) < d := Nat.cast_pos.2 hd
  by_cases hint : x = ⌊x⌋
  · have habs : |⌊x⌋| < 2 ^ 53 := by
      refine lt_of_le_of_lt ?_ hn
      have heq : ⌊x⌋ * (d : ℤ) = n := by
        rw [hint] at hx
        exact_mod_cast hx
      rw [← heq, abs_mul, Nat.abs_cast]
      exact le_mul_of_one_le_right (abs_nonneg _) (by exact_mod_cast hd)
    have hnearest : nearest x = x := by
      conv_lhs => rw [hint]
      rw [nearest_intCast habs, ← hint]
    rw [hnearest]
    exact ⟨rfl, rfl⟩
  · have hfloor : (⌊x⌋ : ℚ) < x := lt_of_le_of_ne (Int.floor_le x) (Ne.symm hint)
    have hlow : (⌊x⌋ : ℚ) * d + 1 ≤ n := by
      have hlt : (⌊x⌋ : ℚ) * d < n := by
        rw [← hx]
        exact mul_lt_mul_of_pos_right hfloor hd'
      have hlt' : ⌊x⌋ * (d : ℤ) < n := by exact_mod_cast hlt
      exact_mod_cast hlt'
    have hhigh : (n : ℚ) + 1 ≤ (⌊x⌋ + 1) * d := by
      have hlt : (n : ℚ) < (⌊x⌋ + 1) * d := by
        rw [← hx]
        exact mul_lt_mul_of_pos_right (Int.lt_floor_add_one x) hd'
      have hlt' : n < (⌊x⌋ + 1) * (d : ℤ) := by exact_mod_cast hlt
      exact_mod_cast hlt'
    have herror : |nearest x - x| * d < 1 := by
      calc |nearest x - x| * d ≤ |x| / 2 ^ 53 * d := by gcongr; exact abs_nearest_sub_le x
        _ = |x * d| / 2 ^ 53 := by rw [abs_mul, abs_of_pos hd']; ring
        _ < 1 := by
          rw [hx, div_lt_one (by positivity), ← Int.cast_abs]
          exact_mod_cast hn
    have hbetween : (⌊x⌋ : ℚ) < nearest x ∧ nearest x < ⌊x⌋ + 1 := by
      have habs := abs_lt.1 (by rwa [← lt_div_iff₀ hd'] at herror : |nearest x - x| < 1 / d)
      have hinv : 1 / (d : ℚ) * d = 1 := one_div_mul_cancel hd'.ne'
      constructor
      · refine lt_of_mul_lt_mul_right (a := (d : ℚ)) ?_ hd'.le
        nlinarith [habs.1]
      · refine lt_of_mul_lt_mul_right (a := (d : ℚ)) ?_ hd'.le
        nlinarith [habs.2]
    have hceil : ⌈x⌉ = ⌊x⌋ + 1 := by
      refine Int.ceil_eq_iff.2 ⟨?_, ?_⟩ <;> push_cast
      · linarith
      · exact (Int.lt_floor_add_one x).le
    refine ⟨Int.floor_eq_iff.2 ⟨hbetween.1.le, hbetween.2⟩, ?_⟩
    rw [hceil]
    refine Int.ceil_eq_iff.2 ⟨?_, ?_⟩ <;> push_cast
    · linarith [hbetween.1]
    · exact hbetween.2.le

/-! ### Scaling -/

theorem log_mul_zpow (hx : x ≠ 0) (e : ℤ) : Int.log 2 |x * 2 ^ e| = Int.log 2 |x| + e := by
  have hpos : 0 < |x| := abs_pos.2 hx
  have htwo : (0 : ℚ) < 2 ^ e := zpow_pos two_pos e
  have habs : |x * 2 ^ e| = |x| * 2 ^ e := by rw [abs_mul, abs_of_pos htwo]
  have hpos' : 0 < |x * 2 ^ e| := habs ▸ mul_pos hpos htwo
  refine le_antisymm (Int.lt_add_one_iff.1 ?_) ?_
  · refine (Int.lt_zpow_iff_log_lt one_lt_two hpos').1 ?_
    have hlt : |x| < 2 ^ (Int.log 2 |x| + 1) := Int.lt_zpow_succ_log_self one_lt_two |x|
    rw [habs, Nat.cast_ofNat, add_right_comm, zpow_add₀ two_ne_zero]
    gcongr
  · refine (Int.zpow_le_iff_le_log one_lt_two hpos').1 ?_
    have hle : (2 : ℚ) ^ Int.log 2 |x| ≤ |x| := Int.zpow_log_le_self one_lt_two hpos
    rw [habs, Nat.cast_ofNat, zpow_add₀ two_ne_zero]
    gcongr

/-- Powers of two do not take part in the rounding. -/
theorem nearest_mul_zpow (x : ℚ) (e : ℤ) : nearest (x * 2 ^ e) = nearest x * 2 ^ e := by
  by_cases hx : x = 0
  · subst hx
    simp [nearest, roundHalfEven]
  · have htwo : (2 : ℚ) ^ e ≠ 0 := zpow_ne_zero e two_ne_zero
    have hulp : ulp (x * 2 ^ e) = ulp x * 2 ^ e := by
      rw [ulp, ulp, log_mul_zpow hx, ← zpow_add₀ two_ne_zero]
      congr 1
      ring
    rw [nearest, nearest, hulp, mul_div_mul_right _ _ htwo, mul_assoc]

/-! ### Numbers that are doubles -/

theorem abs_roundHalfEven_le (hx : |x| < n) : |roundHalfEven x| ≤ n := by
  obtain ⟨hlo, hhi⟩ := abs_lt.1 hx
  have hfloor : -n ≤ ⌊x⌋ := Int.le_floor.2 (by push_cast; exact hlo.le)
  have hceil : ⌊x⌋ < n := Int.floor_lt.2 hhi
  rw [abs_le]
  unfold roundHalfEven
  split_ifs <;> omega

theorem abs_div_ulp_lt (x : ℚ) : |x / ulp x| < 2 ^ 53 := by
  have hlt : |x| < 2 ^ (Int.log 2 |x| + 1) := Int.lt_zpow_succ_log_self one_lt_two |x|
  rw [abs_div, abs_of_pos (ulp_pos x), div_lt_iff₀ (ulp_pos x), ulp]
  refine hlt.trans_eq ?_
  have hexp : Int.log 2 |x| + 1 = 53 + (Int.log 2 |x| - 52) := by ring
  rw [hexp, zpow_add₀ two_ne_zero]
  rfl

theorem nearest_nearest (x : ℚ) : nearest (nearest x) = nearest x := by
  by_cases hx : x = 0
  · subst hx
    simp [nearest, roundHalfEven]
  · have hbound : |roundHalfEven (x / ulp x)| ≤ 2 ^ 53 := by
      refine abs_roundHalfEven_le ?_
      push_cast
      exact abs_div_ulp_lt x
    have hinteger : nearest (roundHalfEven (x / ulp x) : ℚ) = roundHalfEven (x / ulp x) := by
      rcases hbound.lt_or_eq with hlt | heq
      · exact nearest_intCast hlt
      · -- the next power of two is a double as well
        obtain ⟨m, hm, hpow⟩ : ∃ m : ℤ, |m| < 2 ^ 53 ∧ roundHalfEven (x / ulp x) = m * 2 ^ 53 := by
          rcases (abs_eq (by norm_num)).1 heq with h | h
          · exact ⟨1, by norm_num, h⟩
          · exact ⟨-1, by norm_num, by omega⟩
        have hscale := nearest_mul_zpow (m : ℚ) 53
        rw [nearest_intCast hm] at hscale
        rw [hpow]
        exact_mod_cast hscale
    conv_lhs => rw [nearest.eq_def x, ulp, nearest_mul_zpow]
    rw [← ulp, hinteger, ← nearest.eq_def x]

theorem log_of_le (hx : 2 ^ 53 ≤ x) : 53 ≤ Int.log 2 |x| := by
  have hpos : 0 < x := lt_of_lt_of_le (by norm_num) hx
  rw [abs_of_pos hpos]
  exact (Int.zpow_le_iff_le_log one_lt_two hpos).1 (by exact_mod_cast hx)

theorem le_nearest (hx : 2 ^ 53 ≤ x) : 2 ^ 53 ≤ nearest x := by
  have hpos : 0 < x := lt_of_lt_of_le (by norm_num) hx
  have hlog : (2 : ℚ) ^ Int.log 2 |x| ≤ x := by
    rw [abs_of_pos hpos]
    exact Int.zpow_log_le_self one_lt_two hpos
  have hsplit : (2 : ℚ) ^ Int.log 2 |x| = 2 ^ 52 * ulp x := by
    have hexp : Int.log 2 |x| = 52 + (Int.log 2 |x| - 52) := by ring
    conv_lhs => rw [hexp, zpow_add₀ two_ne_zero]
    rfl
  have hfloor : 2 ^ 52 ≤ ⌊x / ulp x⌋ := by
    rw [hsplit] at hlog
    rw [Int.le_floor, le_div_iff₀ (ulp_pos x)]
    exact_mod_cast hlog
  have hround : (2 : ℚ) ^ 52 ≤ roundHalfEven (x / ulp x) := by
    have : 2 ^ 52 ≤ roundHalfEven (x / ulp x) := by
      unfold roundHalfEven
      split_ifs <;> omega
    exact_mod_cast this
  calc (2 : ℚ) ^ 53 ≤ 2 ^ Int.log 2 |x| := by
        exact_mod_cast zpow_le_zpow_right₀ (one_le_two (α := ℚ)) (log_of_le hx)
    _ = 2 ^ 52 * ulp x := hsplit
    _ ≤ nearest x := by
        rw [nearest]
        exact mul_le_mul_of_nonneg_right hround (ulp_pos x).le

/-- A double has no fraction from `2 ^ 53` on. -/
theorem eq_floor_of_le (hx : 2 ^ 53 ≤ x) (hdouble : nearest x = x) : x = ⌊x⌋ := by
  have hlog := log_of_le hx
  obtain ⟨k, hk⟩ := Int.eq_ofNat_of_zero_le (by omega : 0 ≤ Int.log 2 |x| - 52)
  have hint : x = ((roundHalfEven (x / ulp x) * 2 ^ k : ℤ) : ℚ) := by
    have hulp : ulp x = 2 ^ k := by rw [ulp, hk, zpow_natCast]
    conv_lhs => rw [← hdouble, nearest]
    rw [hulp]
    push_cast
    rfl
  rw [hint, Int.floor_intCast]

theorem nearest_floor (hx : 0 ≤ x) (hdouble : nearest x = x) : nearest (⌊x⌋ : ℚ) = ⌊x⌋ := by
  by_cases hbig : 2 ^ 53 ≤ x
  · rw [← eq_floor_of_le hbig hdouble, hdouble]
  · refine nearest_intCast ?_
    rw [abs_of_nonneg (Int.floor_nonneg.2 hx)]
    exact Int.floor_lt.2 (by push_cast; exact not_le.1 hbig)

end Double
