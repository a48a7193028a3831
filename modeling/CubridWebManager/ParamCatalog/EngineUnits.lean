import CubridWebManager.ParamCatalog.DifferUnit

/-!
# The bounds of a conf value and the engine's limits

The engine converts the value and compares it with the limits of the catalog.  Limits of at most two decimals are
multiplied by a hundred on the way to the bounds, and the product of two doubles may round up (`RoundsUp`).
-/

namespace CubridWebManager.ParamCatalog

open Double

/-! ### The engine -/

def enginePages (v : ℤ) : ℤ := ⌈(v : ℚ) / loadPageSize⌉

/-- Pages with two decimals, in hundredths. -/
def engineHundredths (v : ℤ) : ℤ := ⌈(v : ℚ) / loadPageSize * 100⌉

def engineFloatPages (v : ℤ) : ℚ := engineHundredths v / 100

def engineMsecToSec (v : ℤ) : ℤ := if 0 ≤ v then ⌈(v : ℚ) / 1000⌉ else v

def engineMinToSec (v : ℤ) : ℤ := if 0 ≤ v then 60 * v else v

/-- The value that the engine compares with the limits. -/
def engineValue (c : EngineCatalogDbParam) (v : ℤ) : ℚ :=
  match c.setDup with
  | some .sizeToIoPages | some .sizeToLogPages =>
    if c.datatype = .float then engineFloatPages v else enginePages v
  | some .msecToSec => engineMsecToSec v
  | some .minToSec => engineMinToSec v
  | _ => v

structure EngineAccepts (c : EngineCatalogDbParam) (v : ℤ) : Prop where
  lower : ∀ l ∈ limit c.lowerLimit, l ≤ engineValue c v
  upper : ∀ u ∈ limit c.upperLimit, engineValue c v ≤ u
  intMax : c.datatype = .integer → engineValue c v ≤ intMax

/-! ### The arithmetic of the bounds -/

section arithmetic

variable {n k v : ℤ} {x : ℚ}

theorem add_one (h : |n + 1| < 2 ^ 53) : add n 1 = (n + 1 : ℤ) := by
  rw [add, ← nearest_intCast h, Int.cast_add, Int.cast_one]

theorem sub_one (h : |n - 1| < 2 ^ 53) : sub n 1 = (n - 1 : ℤ) := by
  rw [sub, ← nearest_intCast h, Int.cast_sub, Int.cast_one]

theorem mul_natCast {f : ℕ} (h : |n * f| < 2 ^ 53) : mul n f = (n * f : ℤ) := by
  rw [mul, ← nearest_intCast h, Int.cast_mul, Int.cast_natCast]

theorem one_le_nearest_iff (n : ℤ) : 1 ≤ nearest n ↔ 1 ≤ n := by
  constructor
  · intro h
    by_contra hn
    have hle : (n : ℚ) ≤ 0 := by exact_mod_cast (by omega : n ≤ 0)
    linarith [nearest_nonpos hle]
  · intro h
    by_cases hsmall : |n| < 2 ^ 53
    · rw [nearest_intCast hsmall]
      exact_mod_cast h
    · rw [abs_of_pos (by omega)] at hsmall
      have hbig : (2 : ℚ) ≤ n := by exact_mod_cast (by omega : (2 : ℤ) ≤ n)
      linarith [half_le_nearest (x := (n : ℚ)) (by linarith)]

/-- The cap on the converted value: `INT_MAX` or the upper limit. -/
theorem exists_cap {upper : Option ℚ} (hint : ∀ u ∈ upper, ∃ n : ℤ, u = n) (hnonneg : ∀ u ∈ upper, 0 ≤ u) :
    ∃ M : ℤ, 0 ≤ M ∧ M < 2 ^ 31 ∧ min ((upper.map nearest).getD intMax) intMax = M ∧
      ∀ k : ℤ, k ≤ M ↔ (∀ u ∈ upper, (k : ℚ) ≤ u) ∧ (k : ℚ) ≤ intMax := by
  have hmax : intMax = ((2147483647 : ℤ) : ℚ) := by norm_num [intMax]
  cases upper with
  | none =>
    refine ⟨2147483647, by norm_num, by norm_num, ?_, fun k => ?_⟩
    · rw [Option.map_none, Option.getD_none, min_self, hmax]
    · rw [hmax, Int.cast_le]
      exact ⟨fun h => ⟨fun _ hu => absurd hu (Option.not_mem_none _), h⟩, fun h => h.2⟩
  | some u =>
    obtain ⟨n, rfl⟩ := hint u rfl
    have hn : 0 ≤ n := by exact_mod_cast hnonneg _ rfl
    refine ⟨min n 2147483647, by omega, by omega, ?_, fun k => ?_⟩
    · rw [Option.map_some, Option.getD_some, hmax, Int.cast_min]
      by_cases hsmall : |n| < 2 ^ 53
      · rw [nearest_intCast hsmall]
      · rw [abs_of_nonneg hn] at hsmall
        have hbig : ((2 * 2147483647 : ℤ) : ℚ) ≤ n := by exact_mod_cast (by omega : 2 * 2147483647 ≤ n)
        push_cast at hbig ⊢
        have hnear := half_le_nearest (x := (n : ℚ)) (by linarith)
        rw [min_eq_right (by linarith), min_eq_right (by linarith)]
    · simp only [Option.mem_some_iff, forall_eq', hmax, Int.cast_le]
      omega

/-- The least value above `n - 1` units of `f` each: exact, or above all that `INT_MAX` allows. -/
theorem low_bound (f : ℕ) (hf : 1 ≤ f) (hf' : f ≤ 16384) (hn : 1 ≤ n) :
    n < 2 ^ 38 ∧ add (mul (sub (nearest n) 1) f) 1 = ((n - 1) * f + 1 : ℤ) ∨
      2 ^ 38 ≤ n ∧ intMax * f < add (mul (sub (nearest n) 1) f) 1 := by
  by_cases hsmall : n < 2 ^ 38
  · left
    refine ⟨hsmall, ?_⟩
    have hprod : (n - 1) * f ≤ (n - 1) * 16384 := by gcongr; omega
    have hprod' : 0 ≤ (n - 1) * (f : ℤ) := by positivity
    rw [nearest_intCast (by rw [abs_lt]; omega), sub_one (by rw [abs_lt]; omega),
      mul_natCast (by rw [abs_lt]; omega), add_one (by rw [abs_lt]; omega)]
  · right
    refine ⟨not_lt.1 hsmall, ?_⟩
    have hn' : (2 : ℚ) ^ 38 ≤ n := by exact_mod_cast not_lt.1 hsmall
    have hf1 : (1 : ℚ) ≤ f := by exact_mod_cast hf
    have hnear := half_le_nearest (x := (n : ℚ)) (by linarith)
    have hsub : (2 : ℚ) ^ 35 ≤ sub (nearest n) 1 := by
      have := half_le_nearest (x := nearest n - 1) (by linarith)
      rw [sub]
      linarith
    have hmul : (2 : ℚ) ^ 34 * f ≤ mul (sub (nearest n) 1) f := by
      have hle : (2 : ℚ) ^ 35 * f ≤ sub (nearest n) 1 * f := by gcongr
      have := half_le_nearest (x := sub (nearest n) 1 * f) (by linarith)
      rw [mul]
      linarith
    have hadd := half_le_nearest (x := mul (sub (nearest n) 1) f + 1) (by linarith)
    rw [add]
    have hmax : intMax * f < 2 ^ 33 * f := by gcongr; norm_num [intMax]
    linarith

theorem high_bound (f : ℕ) (hf' : f ≤ 16384) (hn : 0 ≤ n) (hn' : n < 2 ^ 31) : mul n f = (n * f : ℤ) := by
  have hprod : n * f ≤ n * 16384 := by gcongr; omega
  have hprod' : 0 ≤ n * (f : ℤ) := by positivity
  exact mul_natCast (by rw [abs_lt]; omega)

end arithmetic

/-! ### Integer parameters -/

def IsSize (c : EngineCatalogDbParam) : Prop := c.setDup = some .sizeToIoPages ∨ c.setDup = some .sizeToLogPages

section integer

variable {c : EngineCatalogDbParam} {lower upper : Option ℚ} {v : ℤ}

/-- The least bound of `n` units of `f` each, for a value below the cap. -/
theorem low_bound_le_iff (f : ℕ) (hf : 1 ≤ f) (hf' : f ≤ 16384) {n M : ℤ} (hn : 1 ≤ n) (hM : M < 2 ^ 31)
    (hv : v ≤ M * f) : add (mul (sub (nearest n) 1) f) 1 ≤ v ↔ ¬v ≤ (n - 1) * f := by
  rcases low_bound f hf hf' hn with ⟨-, heq⟩ | ⟨hbig, hlt⟩
  · rw [heq, Int.cast_le]
    omega
  · have hf1 : (1 : ℤ) ≤ f := by exact_mod_cast hf
    have hcap : M * f ≤ 2147483647 * f := by gcongr; omega
    have hcap' : (v : ℚ) ≤ intMax * f := by
      have : v ≤ 2147483647 * f := by omega
      rw [intMax]
      exact_mod_cast this
    have hlow : M * f < (n - 1) * f := mul_lt_mul_of_pos_right (by omega) (by omega)
    constructor
    · intro h
      linarith
    · intro h
      omega

theorem enginePages_le_iff (v k : ℤ) : enginePages v ≤ k ↔ v ≤ k * 16384 := by
  rw [enginePages, Int.ceil_le, loadPageSize, div_le_iff₀ (by norm_num)]
  exact_mod_cast Iff.rfl

theorem within_sizeBounds (hl : ∀ l ∈ lower, ∃ n : ℤ, l = n) (hu : ∀ u ∈ upper, ∃ n : ℤ, u = n)
    (hnonneg : ∀ u ∈ upper, 0 ≤ u) (hv : 0 ≤ v) :
    (sizeBounds (lower.map nearest) (upper.map nearest)).Within v ↔
      (∀ l ∈ lower, l ≤ enginePages v) ∧ (∀ u ∈ upper, (enginePages v : ℚ) ≤ u) ∧ (enginePages v : ℚ) ≤ intMax := by
  obtain ⟨M, hM, hM', hmin, hcap⟩ := exists_cap hu hnonneg
  have hhigh : mul (M : ℚ) loadPageSize = (M * 16384 : ℤ) := high_bound 16384 le_rfl hM hM'
  rw [← hcap, enginePages_le_iff, Bounds.Within, sizeBounds]
  simp only [hmin, hhigh, Option.mem_some_iff, forall_eq', Int.cast_le]
  refine and_congr_left fun hcap => ?_
  cases lower with
  | none => simp
  | some l =>
    obtain ⟨n, rfl⟩ := hl l rfl
    simp only [Option.map_some, Option.bind_some, one_le_nearest_iff, Option.mem_some_iff, forall_eq', Int.cast_le]
    by_cases hn : 1 ≤ n
    · have hlow := low_bound_le_iff 16384 (by norm_num) le_rfl hn hM' hcap
      rw [if_pos hn, ← not_lt, ← Int.le_sub_one_iff, enginePages_le_iff]
      simpa [loadPageSize] using hlow
    · have hpos : 0 ≤ enginePages v := Int.ceil_nonneg (div_nonneg (by exact_mod_cast hv) (by norm_num [loadPageSize]))
      rw [if_neg hn]
      simp only [Option.not_mem_none, false_implies, implies_true, true_iff, ge_iff_le]
      omega

theorem ceil_msec_le_iff (v k : ℤ) : ⌈(v : ℚ) / 1000⌉ ≤ k ↔ v ≤ k * 1000 := by
  rw [Int.ceil_le, div_le_iff₀ (by norm_num)]
  exact_mod_cast Iff.rfl

theorem nearest_of_nonpos {n : ℤ} (hn : n ≤ 0) (h : (n : ℚ) < 0 → nearest n = n) : nearest (n : ℚ) = n := by
  rcases hn.lt_or_eq with hneg | rfl
  · exact h (by exact_mod_cast hneg)
  · exact nearest_intCast (by norm_num)

theorem within_msecBounds (hl : ∀ l ∈ lower, (∃ n : ℤ, l = n) ∧ (l < 0 → nearest l = l))
    (hu : ∀ u ∈ upper, ∃ n : ℤ, u = n) (hnonneg : ∀ u ∈ upper, 0 ≤ u) :
    (msecBounds (lower.map nearest) (upper.map nearest)).Within v ↔
      (∀ l ∈ lower, l ≤ engineMsecToSec v) ∧ (∀ u ∈ upper, (engineMsecToSec v : ℚ) ≤ u) ∧
        (engineMsecToSec v : ℚ) ≤ intMax := by
  obtain ⟨M, hM, hM', hmin, hcap⟩ := exists_cap hu hnonneg
  have hhigh : mul (M : ℚ) 1000 = (M * 1000 : ℤ) := high_bound 1000 (by norm_num) hM hM'
  have hsec : engineMsecToSec v ≤ M ↔ v ≤ M * 1000 := by
    rw [engineMsecToSec]
    split
    · exact ceil_msec_le_iff v M
    · constructor <;> intro <;> omega
  rw [← hcap, hsec, Bounds.Within, msecBounds]
  simp only [hmin, hhigh, Option.mem_some_iff, forall_eq', Int.cast_le]
  refine and_congr_left fun hcap => ?_
  cases lower with
  | none => simp
  | some l =>
    obtain ⟨⟨n, rfl⟩, hexact⟩ := hl l rfl
    simp only [Option.map_some, one_le_nearest_iff, Option.mem_some_iff, forall_eq', Int.cast_le]
    by_cases hn : 1 ≤ n
    · have hlow := low_bound_le_iff 1000 (by norm_num) (by norm_num) hn hM' hcap
      rw [if_pos hn, engineMsecToSec]
      split
      · rw [← not_lt (a := ⌈(v : ℚ) / 1000⌉), ← Int.le_sub_one_iff, ceil_msec_le_iff]
        simpa using hlow
      · rw [Nat.cast_ofNat] at hlow
        rw [hlow]
        constructor <;> intro <;> omega
    · rw [if_neg hn, nearest_of_nonpos (not_lt.1 fun h => hn h) hexact, Int.cast_le, engineMsecToSec]
      split
      · have hpos : 0 ≤ ⌈(v : ℚ) / 1000⌉ := Int.ceil_nonneg (by positivity)
        constructor <;> intro <;> omega
      · exact Iff.rfl

theorem floor_minutes {M : ℤ} (hM : 0 ≤ M) (hM' : M < 2 ^ 31) : ⌊div (M : ℚ) 60⌋ = M / 60 := by
  have hfloor := (floor_nearest (x := (M : ℚ) / 60) (d := 60) (n := M) (by norm_num) (by norm_num)
    (by rw [abs_of_nonneg hM]; omega)).1
  rw [div, hfloor]
  exact_mod_cast Rat.floor_intCast_div_natCast M 60

/-- The least number of minutes that gives `n` seconds, for a value below the cap. -/
theorem ceil_min_le_iff {n M : ℤ} (hn : 1 ≤ n) (hM : M < 2 ^ 31) (hv : v ≤ M / 60) :
    ⌈div (nearest n) 60⌉ ≤ v ↔ n ≤ 60 * v := by
  by_cases hsmall : |n| < 2 ^ 53
  · have hceil : ⌈div (nearest n) 60⌉ = ⌈(n : ℚ) / 60⌉ := by
      rw [nearest_intCast hsmall]
      exact (floor_nearest (x := (n : ℚ) / 60) (d := 60) (n := n) (by norm_num) (by norm_num) hsmall).2
    rw [hceil, Int.ceil_le, div_le_iff₀ (by norm_num), mul_comm 60]
    exact_mod_cast Iff.rfl
  · rw [abs_of_pos (by omega)] at hsmall
    have hbig : (2 : ℚ) ^ 53 ≤ n := by exact_mod_cast not_lt.1 hsmall
    have hnear := half_le_nearest (x := (n : ℚ)) (by linarith)
    have hdiv := half_le_nearest (x := nearest n / 60) (by linarith)
    have hv' : (v : ℚ) < 2 ^ 31 := by exact_mod_cast (by omega : v < 2 ^ 31)
    constructor
    · intro h
      have hle := Int.ceil_le.1 h
      rw [div] at hle
      linarith
    · intro h
      omega

theorem within_minBounds (hl : ∀ l ∈ lower, (∃ n : ℤ, l = n) ∧ (l < 0 → nearest l = l))
    (hu : ∀ u ∈ upper, ∃ n : ℤ, u = n) (hnonneg : ∀ u ∈ upper, 0 ≤ u) :
    (minBounds (lower.map nearest) (upper.map nearest)).Within v ↔
      (∀ l ∈ lower, l ≤ engineMinToSec v) ∧ (∀ u ∈ upper, (engineMinToSec v : ℚ) ≤ u) ∧
        (engineMinToSec v : ℚ) ≤ intMax := by
  obtain ⟨M, hM, hM', hmin, hcap⟩ := exists_cap hu hnonneg
  have hsec : engineMinToSec v ≤ M ↔ v ≤ M / 60 := by
    rw [engineMinToSec]
    split <;> constructor <;> intro <;> omega
  rw [← hcap, hsec, Bounds.Within, minBounds]
  simp only [hmin, floor_minutes hM hM', Option.mem_some_iff, forall_eq', Int.cast_le]
  refine and_congr_left fun hcap => ?_
  cases lower with
  | none => simp
  | some l =>
    obtain ⟨⟨n, rfl⟩, hexact⟩ := hl l rfl
    simp only [Option.map_some, one_le_nearest_iff, Option.mem_some_iff, forall_eq', Int.cast_le]
    by_cases hn : 1 ≤ n
    · rw [if_pos hn, Int.cast_le, ceil_min_le_iff hn hM' hcap, engineMinToSec]
      split
      · exact Iff.rfl
      · constructor <;> intro <;> omega
    · rw [if_neg hn, nearest_of_nonpos (not_lt.1 fun h => hn h) hexact, Int.cast_le, engineMinToSec]
      split
      · constructor <;> intro <;> omega
      · exact Iff.rfl

end integer

end CubridWebManager.ParamCatalog
