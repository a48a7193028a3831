import CubridWebManager.ParamCatalog.EngineUnits

/-!
# The bounds and the limits agree

The bounds of an integer parameter accept what the engine accepts, up to negative limits that are not doubles.  Those of
a size in pages with two decimals do so if and only if no limit rounds up on its way to hundredths (`Kept`).
-/

namespace CubridWebManager.ParamCatalog

open Double

/-- The entries with one of the four conversions, and the limits that they may have. -/
structure Covered (c : EngineCatalogDbParam) : Prop where
  setDup : IsSize c ∨ c.setDup = some .msecToSec ∨ c.setDup = some .minToSec
  datatype : c.datatype = .integer ∨ c.datatype = .float ∧ IsSize c
  limits : ∀ x, x ∈ limit c.lowerLimit ∨ x ∈ limit c.upperLimit →
    ∃ n : ℤ, (if c.datatype = .float then 100 * x else x) = n
  upper : ∀ u ∈ limit c.upperLimit, 0 ≤ u

/-- A value lies within the bounds if and only if the engine accepts it. -/
def Agrees (c : EngineCatalogDbParam) : Prop :=
  ∀ v : ℤ, (IsSize c → 0 ≤ v) → ((∃ b ∈ differUnitBounds c, b.Within v) ↔ EngineAccepts c v)

/-- The hundredfold of the limit, in doubles, exceeds what it should be. -/
def RoundsUp (x : ℚ) : Prop := 100 * x < mul (nearest x) 100

instance (x : ℚ) : Decidable (RoundsUp x) := inferInstanceAs (Decidable (100 * x < mul (nearest x) 100))

/-- No limit with two decimals rounds up.  Where the limits exclude every value, that may happen unless it makes room
for one. -/
structure Kept (lower upper : Option ℚ) : Prop where
  low : ∀ l ∈ lower, 0 < l → (∀ u ∈ upper, l ≤ u) → ¬RoundsUp l
  high : ∀ u ∈ upper, (∀ l ∈ lower, l ≤ u) → ¬RoundsUp u
  empty : ∀ l ∈ lower, ∀ u ∈ upper, 100 * l = 100 * u + 1 → RoundsUp u → RoundsUp l

/-- When the bounds and the limits agree. -/
def LimitsKept (c : EngineCatalogDbParam) : Prop :=
  if c.datatype = .float then Kept (limit c.lowerLimit) (limit c.upperLimit)
  else IsSize c ∨ ∀ l ∈ limit c.lowerLimit, l < 0 → nearest l = l

/-- The limits with two decimals are below `2 ^ 32` pages. -/
def SmallLimits (c : EngineCatalogDbParam) : Prop :=
  c.datatype = .float → ∀ x, x ∈ limit c.lowerLimit ∨ x ∈ limit c.upperLimit → |x| < 2 ^ 32

/-! ### Negative limits -/

section negative

variable {n v : ℤ} {upper : Option ℚ}

theorem nearest_neg (hn : n < 0) : nearest (n : ℚ) < 0 := by
  have hneg : (n : ℚ) < 0 := by exact_mod_cast hn
  have herror := (abs_le.1 (abs_nearest_sub_le (n : ℚ))).2
  rw [abs_of_neg hneg] at herror
  have hsmall : -(n : ℚ) / 2 ^ 53 < -n := div_lt_self (by linarith) (by norm_num)
  linarith

theorem exact_of_agrees (hn : n < 0) (h : ∀ v : ℤ, v < 0 → (nearest (n : ℚ) ≤ v ↔ n ≤ v)) :
    nearest (n : ℚ) = n := by
  obtain ⟨m, hm⟩ := exists_nearest_intCast n
  have hneg := nearest_neg hn
  rw [hm] at h hneg ⊢
  have hle : (m : ℚ) ≤ n := (h n hn).2 le_rfl
  have hge : n ≤ m := (h m (by exact_mod_cast hneg)).1 le_rfl
  exact le_antisymm hle (by exact_mod_cast hge)

theorem not_one_le_nearest (hn : n < 0) : ¬(1 : ℚ) ≤ nearest n := by linarith [nearest_neg hn]

theorem within_msecBounds_neg (hu : ∀ u ∈ upper, ∃ n : ℤ, u = n) (hnonneg : ∀ u ∈ upper, 0 ≤ u) (hn : n < 0)
    (hv : v < 0) :
    (msecBounds (some (nearest n)) (upper.map nearest)).Within v ↔ nearest (n : ℚ) ≤ v := by
  obtain ⟨M, hM, hM', hmin, -⟩ := exists_cap hu hnonneg
  have hhigh : mul (M : ℚ) 1000 = (M * 1000 : ℤ) := high_bound 1000 (by norm_num) hM hM'
  rw [Bounds.Within, msecBounds]
  simp only [hmin, hhigh, Option.map_some, if_neg (not_one_le_nearest hn), Option.mem_some_iff, forall_eq', Int.cast_le]
  exact and_iff_left (by omega)

theorem within_minBounds_neg (hu : ∀ u ∈ upper, ∃ n : ℤ, u = n) (hnonneg : ∀ u ∈ upper, 0 ≤ u) (hn : n < 0)
    (hv : v < 0) :
    (minBounds (some (nearest n)) (upper.map nearest)).Within v ↔ nearest (n : ℚ) ≤ v := by
  obtain ⟨M, hM, hM', hmin, -⟩ := exists_cap hu hnonneg
  rw [Bounds.Within, minBounds]
  simp only [hmin, floor_minutes hM hM', Option.map_some, if_neg (not_one_le_nearest hn), Option.mem_some_iff,
    forall_eq', Int.cast_le]
  exact and_iff_left (by omega)

end negative

/-! ### Sizes with two decimals -/

section float

variable {E k v : ℤ} {x : ℚ} {lower upper : Option ℚ}

/-- What rounding adds to the hundredths of a limit. -/
def up (x : ℚ) : ℤ := if RoundsUp x then 1 else 0

theorem ceil_hundredfold (hE : 100 * x = E) (hx : |x| < 2 ^ 32) : ⌈mul (nearest x) 100⌉ = E + up x := by
  have hfirst := abs_nearest_sub_le x
  have hsecond := abs_nearest_sub_le (nearest x * 100)
  have hclose : |mul (nearest x) 100 - E| < 1 := by
    have hnear : |nearest x| ≤ 2 * |x| := by
      have htri := abs_sub_abs_le_abs_sub (nearest x) x
      have hsmall : |x| / 2 ^ 53 ≤ |x| := div_le_self (abs_nonneg x) (by norm_num)
      linarith
    calc |mul (nearest x) 100 - E| = |(nearest (nearest x * 100) - nearest x * 100) + 100 * (nearest x - x)| := by
          rw [mul, ← hE]
          ring_nf
      _ ≤ |nearest x * 100| / 2 ^ 53 + 100 * (|x| / 2 ^ 53) := by
          refine (abs_add_le _ _).trans ?_
          rw [abs_mul 100, abs_of_pos (by norm_num : (0 : ℚ) < 100)]
          gcongr
      _ ≤ 2 * |x| * 100 / 2 ^ 53 + 100 * (|x| / 2 ^ 53) := by
          rw [abs_mul, abs_of_pos (by norm_num : (0 : ℚ) < 100)]
          gcongr
      _ < 1 := by linarith
  have hclose' := abs_lt.1 hclose
  unfold up
  split
  · rename_i hup
    rw [RoundsUp, hE] at hup
    rw [Int.ceil_eq_iff]
    push_cast
    constructor <;> linarith [hclose'.1, hclose'.2]
  · rename_i hup
    rw [RoundsUp, hE, not_lt] at hup
    rw [Int.ceil_eq_iff]
    push_cast
    constructor <;> linarith [hclose'.1, hclose'.2]

theorem up_eq (x : ℚ) : up x = 0 ∨ up x = 1 := by
  unfold up
  split
  · exact .inr rfl
  · exact .inl rfl

theorem up_of_roundsUp (h : RoundsUp x) : up x = 1 := if_pos h

theorem up_of_not_roundsUp (h : ¬RoundsUp x) : up x = 0 := if_neg h

theorem up_zero : up 0 = 0 := by
  have hnearest : nearest (0 : ℚ) ≤ 0 := nearest_nonpos le_rfl
  refine up_of_not_roundsUp (not_lt.2 ?_)
  rw [mul_zero]
  exact nearest_nonpos (mul_nonpos_of_nonpos_of_nonneg hnearest (by norm_num))

/-- The bound that hundredths `k` give is exact. -/
theorem floor_hundredths (hk : 0 ≤ k) (hk' : k < 2 ^ 39) :
    ⌊div (mul (k : ℚ) loadPageSize) 100⌋ = ⌊(k : ℚ) * loadPageSize / 100⌋ := by
  have hsmall : |k * (16384 : ℕ)| < 2 ^ 53 := by
    rw [abs_of_nonneg (by omega)]
    push_cast
    omega
  have hprod : mul (k : ℚ) loadPageSize = (k * (16384 : ℕ) : ℤ) := mul_natCast hsmall
  have hexact : (k : ℚ) * loadPageSize = (k * (16384 : ℕ) : ℤ) := by
    rw [loadPageSize]
    push_cast
    rfl
  rw [div, hprod, hexact]
  exact (floor_nearest (d := 100) (n := k * (16384 : ℕ)) (by norm_num) (by push_cast; ring) hsmall).1

theorem le_floor_iff (v k : ℤ) : v ≤ ⌊(k : ℚ) * loadPageSize / 100⌋ ↔ engineHundredths v ≤ k := by
  have hpage : (0 : ℚ) < loadPageSize := by norm_num [loadPageSize]
  rw [Int.le_floor, engineHundredths, Int.ceil_le, le_div_iff₀ (by norm_num), div_mul_eq_mul_div, div_le_iff₀ hpage]

theorem engineHundredths_nonneg (hv : 0 ≤ v) : 0 ≤ engineHundredths v := by
  have hv' : (0 : ℚ) ≤ v := by exact_mod_cast hv
  exact Int.ceil_nonneg (by norm_num [loadPageSize]; positivity)

/-- Every number of hundredths is that of some size. -/
theorem exists_engineHundredths (hk : 0 ≤ k) : ∃ v : ℤ, 0 ≤ v ∧ engineHundredths v = k := by
  refine ⟨⌊(k : ℚ) * loadPageSize / 100⌋, ?_, le_antisymm ((le_floor_iff _ _).1 le_rfl) ?_⟩
  · have hpos : (0 : ℚ) ≤ k := by exact_mod_cast hk
    exact Int.floor_nonneg.2 (by norm_num [loadPageSize]; positivity)
  · rw [engineHundredths, ← Int.sub_one_lt_iff, Int.lt_ceil]
    have hlt := Int.lt_floor_add_one ((k : ℚ) * loadPageSize / 100)
    push_cast
    rw [loadPageSize] at hlt ⊢
    linarith

/-- The upper limit in hundredths, as the bounds see it. -/
theorem le_max_iff (hE : 100 * x = E) (hx : 0 ≤ x) (hsmall : |x| < 2 ^ 32) :
    (v : ℚ) ≤ ⌊div (mul (⌈mul (nearest x) 100⌉ : ℚ) loadPageSize) 100⌋ ↔ engineHundredths v ≤ E + up x := by
  have hE' : 0 ≤ E := by
    have : (0 : ℚ) ≤ E := by linarith
    exact_mod_cast this
  have hbound : E < 100 * 2 ^ 32 := by
    rw [abs_of_nonneg hx] at hsmall
    have : (E : ℚ) < 100 * 2 ^ 32 := by linarith
    exact_mod_cast this
  have hup := up_eq x
  rw [ceil_hundredfold hE hsmall, floor_hundredths (by omega) (by omega), Int.cast_le, le_floor_iff]

/-- The lower limit in hundredths, as the bounds see it. -/
theorem min_le_iff (hE : 100 * x = E) (hsmall : |x| < 2 ^ 32) :
    (∀ m ∈ (if (0 : ℚ) < ⌈mul (nearest x) 100⌉ then
      some (add ⌊div (mul (sub (⌈mul (nearest x) 100⌉ : ℚ) 1) loadPageSize) 100⌋ 1) else none), m ≤ (v : ℚ)) ↔
        (0 < E → E + up x ≤ engineHundredths v) := by
  have hup := up_eq x
  rw [ceil_hundredfold hE hsmall]
  have hbound : E < 100 * 2 ^ 32 := by
    have : (E : ℚ) < 100 * 2 ^ 32 := by linarith [(abs_lt.1 hsmall).2]
    exact_mod_cast this
  by_cases hpos : 0 < E
  · have hfloor : ⌊((E + up x - 1 : ℤ) : ℚ) * loadPageSize / 100⌋ < 2 ^ 52 := by
      have hle : ((E + up x - 1 : ℤ) : ℚ) ≤ 100 * 2 ^ 32 := by exact_mod_cast (by omega : E + up x - 1 ≤ 100 * 2 ^ 32)
      rw [Int.floor_lt, loadPageSize]
      push_cast at hle ⊢
      linarith
    have hfloor' : 0 ≤ ⌊((E + up x - 1 : ℤ) : ℚ) * loadPageSize / 100⌋ := by
      have hle : (0 : ℚ) ≤ ((E + up x - 1 : ℤ) : ℚ) := by exact_mod_cast (by omega : 0 ≤ E + up x - 1)
      exact Int.floor_nonneg.2 (by norm_num [loadPageSize]; push_cast at hle; linarith)
    rw [if_pos (Int.cast_pos.2 (by omega)), sub_one (by rw [abs_lt]; omega), floor_hundredths (by omega) (by omega),
      add_one (by rw [abs_lt]; omega)]
    have hiff := le_floor_iff v (E + up x - 1)
    simp only [Option.mem_some_iff, forall_eq', Int.cast_le, hpos, true_implies]
    omega
  · have hnone : ¬0 < E + up x := by
      rcases lt_or_eq_of_le (not_lt.1 hpos) with hneg | hzero
      · omega
      · have hx : x = 0 := by
          rw [hzero] at hE
          simpa using hE
        rw [hzero, hx, up_zero]
        omega
    rw [if_neg fun h => hnone (Int.cast_pos.1 h)]
    simp [hpos]

theorem within_floatSizeBounds (hl : ∀ l ∈ lower, (∃ E : ℤ, 100 * l = E) ∧ |l| < 2 ^ 32)
    (hu : ∀ u ∈ upper, (∃ E : ℤ, 100 * u = E) ∧ |u| < 2 ^ 32) (hnonneg : ∀ u ∈ upper, 0 ≤ u) :
    (floatSizeBounds (lower.map nearest) (upper.map nearest)).Within v ↔
      (∀ l ∈ lower, 0 < l → 100 * l + up l ≤ engineHundredths v) ∧
        ∀ u ∈ upper, (engineHundredths v : ℚ) ≤ 100 * u + up u := by
  rw [Bounds.Within, floatSizeBounds]
  refine and_congr ?_ ?_
  · cases lower with
    | none => simp
    | some l =>
      obtain ⟨⟨E, hE⟩, hsmall⟩ := hl l rfl
      have hpos : 0 < E ↔ 0 < l := by
        rw [← Int.cast_pos (R := ℚ), ← hE]
        exact mul_pos_iff_of_pos_left (by norm_num)
      have hmin := min_le_iff (v := v) hE hsmall
      simp only [Option.map_some, Option.bind_some, Option.mem_some_iff, forall_eq'] at hmin ⊢
      rw [hmin, hpos, hE]
      exact_mod_cast Iff.rfl
  · cases upper with
    | none => simp
    | some u =>
      obtain ⟨⟨E, hE⟩, hsmall⟩ := hu u rfl
      simp only [Option.map_some, Option.mem_some_iff, forall_eq']
      rw [le_max_iff hE (hnonneg u rfl) hsmall, hE]
      exact_mod_cast Iff.rfl

/-- What the bounds and the limits of a size have to agree on, for each number of hundredths. -/
def HundredthsAgree (lower upper : Option ℚ) (k : ℤ) : Prop :=
  (∀ l ∈ lower, 0 < l → 100 * l + up l ≤ k) ∧ (∀ u ∈ upper, (k : ℚ) ≤ 100 * u + up u) ↔
    (∀ l ∈ lower, 100 * l ≤ k) ∧ ∀ u ∈ upper, (k : ℚ) ≤ 100 * u

theorem up_cast (x : ℚ) : (0 : ℚ) ≤ up x ∧ (up x : ℚ) ≤ 1 := by
  rcases up_eq x with h | h <;> rw [h] <;> norm_num

/-- Where every number of hundredths is decided alike, no limit rounds up. -/
theorem kept_of_hundredthsAgree (hl : ∀ l ∈ lower, ∃ E : ℤ, 100 * l = E) (hu : ∀ u ∈ upper, ∃ E : ℤ, 100 * u = E)
    (hnonneg : ∀ u ∈ upper, 0 ≤ u) (h : ∀ k : ℤ, 0 ≤ k → HundredthsAgree lower upper k) : Kept lower upper := by
  have hnonnegInt : ∀ {y : ℚ} {E : ℤ}, 0 ≤ y → 100 * y = E → 0 ≤ E := by
    intro y E hy hE
    have : (0 : ℚ) ≤ E := by linarith
    exact_mod_cast this
  constructor
  · intro l hlower hpos hle
    obtain ⟨E, hE⟩ := hl l hlower
    -- the limit itself is accepted by the engine
    have hexact : (∀ l' ∈ lower, 100 * l' ≤ (E : ℚ)) ∧ ∀ u ∈ upper, (E : ℚ) ≤ 100 * u := by
      refine ⟨fun l' hl' => ?_, fun u hu => ?_⟩
      · rw [Option.mem_unique hl' hlower, hE]
      · linarith [hle u hu]
    have hbounds := ((h E (hnonnegInt hpos.le hE)).2 hexact).1 l hlower hpos
    intro hup
    rw [up_of_roundsUp hup, Int.cast_one] at hbounds
    linarith
  · intro u hupper hle hup
    obtain ⟨E, hE⟩ := hu u hupper
    have hE0 := hnonnegInt (hnonneg u hupper) hE
    -- one hundredth above the limit is within the bounds
    have hbounds : (∀ l ∈ lower, 0 < l → 100 * l + up l ≤ ((E + 1 : ℤ) : ℚ)) ∧
        ∀ u' ∈ upper, ((E + 1 : ℤ) : ℚ) ≤ 100 * u' + up u' := by
      push_cast
      refine ⟨fun l hl _ => ?_, fun u' hu' => ?_⟩
      · linarith [hle l hl, (up_cast l).2]
      · rw [Option.mem_unique hu' hupper, up_of_roundsUp hup, Int.cast_one, hE]
    have hexact := ((h (E + 1) (by omega)).1 hbounds).2 u hupper
    push_cast at hexact
    linarith
  · intro l hlower u hupper hnext hup
    obtain ⟨E, hE⟩ := hl l hlower
    by_contra hdown
    have hpos : 0 < l := by linarith [hnonneg u hupper]
    -- the lower limit itself is within the bounds
    have hbounds : (∀ l' ∈ lower, 0 < l' → 100 * l' + up l' ≤ (E : ℚ)) ∧
        ∀ u' ∈ upper, (E : ℚ) ≤ 100 * u' + up u' := by
      refine ⟨fun l' hl' _ => ?_, fun u' hu' => ?_⟩
      · rw [Option.mem_unique hl' hlower, up_of_not_roundsUp hdown, Int.cast_zero, hE, add_zero]
      · rw [Option.mem_unique hu' hupper, up_of_roundsUp hup, Int.cast_one]
        linarith
    have hexact := ((h E (hnonnegInt hpos.le hE)).1 hbounds).2 u hupper
    linarith

theorem hundredthsAgree_of_kept (hl : ∀ l ∈ lower, ∃ E : ℤ, 100 * l = E) (hu : ∀ u ∈ upper, ∃ E : ℤ, 100 * u = E)
    (hnonneg : ∀ u ∈ upper, 0 ≤ u) (hkept : Kept lower upper) (hk : 0 ≤ k) : HundredthsAgree lower upper k := by
  have hk' : (0 : ℚ) ≤ k := by exact_mod_cast hk
  constructor
  · rintro ⟨hlow, hhigh⟩
    refine ⟨fun l hlower => ?_, fun u hupper => ?_⟩
    · rcases le_or_gt l 0 with hneg | hpos
      · linarith
      · linarith [hlow l hlower hpos, (up_cast l).1]
    · by_cases hup : RoundsUp u
      · by_contra hgt
        have hle := hhigh u hupper
        rw [up_of_roundsUp hup, Int.cast_one] at hle
        -- the limits exclude every value, and leave no room for the hundredth that is too much
        obtain ⟨l, hlower, hlt⟩ : ∃ l ∈ lower, u < l := by
          by_contra hnone
          refine hkept.high u hupper (fun l hlower => ?_) hup
          by_contra hlt
          exact hnone ⟨l, hlower, not_le.1 hlt⟩
        have hpos : 0 < l := (hnonneg u hupper).trans_lt hlt
        have hlow' := hlow l hlower hpos
        obtain ⟨E, hE⟩ := hl l hlower
        obtain ⟨F, hF⟩ := hu u hupper
        have hnext : E = F + 1 := by
          have h1 : F < E := by
            have : (F : ℚ) < E := by linarith
            exact_mod_cast this
          have h2 : E ≤ F + 1 := by
            have : (E : ℚ) ≤ F + 1 := by linarith [(up_cast l).1]
            exact_mod_cast this
          omega
        have hnext' : 100 * l = 100 * u + 1 := by
          rw [hE, hF, hnext]
          push_cast
          rfl
        have hupLower := hkept.empty l hlower u hupper hnext' hup
        rw [up_of_roundsUp hupLower, Int.cast_one] at hlow'
        linarith
      · have hle := hhigh u hupper
        rw [up_of_not_roundsUp hup, Int.cast_zero, add_zero] at hle
        exact hle
  · rintro ⟨hlow, hhigh⟩
    refine ⟨fun l hlower hpos => ?_, fun u hupper => ?_⟩
    · have hdown := hkept.low l hlower hpos fun u hupper => by linarith [hlow l hlower, hhigh u hupper]
      rw [up_of_not_roundsUp hdown, Int.cast_zero, add_zero]
      exact hlow l hlower
    · linarith [hhigh u hupper, (up_cast u).1]

end float

/-! ### The entries of the catalog -/

section catalog

variable {c : EngineCatalogDbParam}

theorem numberOrUndefined_eq (text : Option Text) : numberOrUndefined text = (limit text).map nearest := rfl

/-- The bounds and the limits are there as they are. -/
theorem agrees_at_iff {B : Bounds} {v : ℤ} (hbounds : differUnitBounds c = some B) :
    ((∃ b ∈ differUnitBounds c, b.Within v) ↔ EngineAccepts c v) ↔
      (B.Within v ↔ (∀ l ∈ limit c.lowerLimit, l ≤ engineValue c v) ∧
        (∀ u ∈ limit c.upperLimit, engineValue c v ≤ u) ∧ (c.datatype = .integer → engineValue c v ≤ intMax)) := by
  have haccepts : EngineAccepts c v ↔ (∀ l ∈ limit c.lowerLimit, l ≤ engineValue c v) ∧
      (∀ u ∈ limit c.upperLimit, engineValue c v ≤ u) ∧ (c.datatype = .integer → engineValue c v ≤ intMax) :=
    ⟨fun h => ⟨h.lower, h.upper, h.intMax⟩, fun h => ⟨h.1, h.2.1, h.2.2⟩⟩
  rw [haccepts, hbounds]
  simp only [Option.mem_some_iff, exists_eq_left']

theorem agrees_float (hc : Covered c) (hfloat : c.datatype = .float) (hsize : IsSize c)
    (hsmall : ∀ x, x ∈ limit c.lowerLimit ∨ x ∈ limit c.upperLimit → |x| < 2 ^ 32) :
    Agrees c ↔ Kept (limit c.lowerLimit) (limit c.upperLimit) := by
  have hbounds : differUnitBounds c = some (floatSizeBounds ((limit c.lowerLimit).map nearest)
      ((limit c.upperLimit).map nearest)) := by
    rcases hsize with h | h <;> simp only [differUnitBounds, h, hfloat, if_true] <;> rfl
  have hl : ∀ l ∈ limit c.lowerLimit, ∃ E : ℤ, 100 * l = E := by
    intro l hl
    simpa [hfloat] using hc.limits l (.inl hl)
  have hu : ∀ u ∈ limit c.upperLimit, ∃ E : ℤ, 100 * u = E := by
    intro u hu
    simpa [hfloat] using hc.limits u (.inr hu)
  have hagree : ∀ v, ((∃ b ∈ differUnitBounds c, b.Within v) ↔ EngineAccepts c v) ↔
      HundredthsAgree (limit c.lowerLimit) (limit c.upperLimit) (engineHundredths v) := by
    intro v
    have hvalue : engineValue c v = engineHundredths v / 100 := by
      rcases hsize with h | h <;> simp only [engineValue, h, hfloat, if_true] <;> rfl
    have hlow : ∀ l : ℚ, l ≤ engineHundredths v / 100 ↔ 100 * l ≤ engineHundredths v := by
      intro l
      rw [le_div_iff₀ (by norm_num), mul_comm]
    have hhigh : ∀ u : ℚ, (engineHundredths v : ℚ) / 100 ≤ u ↔ (engineHundredths v : ℚ) ≤ 100 * u := by
      intro u
      rw [div_le_iff₀ (by norm_num), mul_comm]
    rw [agrees_at_iff hbounds, HundredthsAgree, within_floatSizeBounds (fun l h => ⟨hl l h, hsmall l (.inl h)⟩)
      (fun u h => ⟨hu u h, hsmall u (.inr h)⟩) hc.upper, hvalue]
    simp only [hlow, hhigh, hfloat, reduceCtorEq, false_implies, and_true]
  constructor
  · intro h
    refine kept_of_hundredthsAgree hl hu hc.upper fun k hk => ?_
    obtain ⟨v, hv, rfl⟩ := exists_engineHundredths hk
    exact (hagree v).1 (h v fun _ => hv)
  · intro hkept v hv
    exact (hagree v).2 (hundredthsAgree_of_kept hl hu hc.upper hkept (engineHundredths_nonneg (hv hsize)))

theorem agrees_size (hc : Covered c) (hint : c.datatype = .integer) (hsize : IsSize c) : Agrees c := by
  have hbounds : differUnitBounds c = some (sizeBounds ((limit c.lowerLimit).map nearest)
      ((limit c.upperLimit).map nearest)) := by
    rcases hsize with h | h <;> simp only [differUnitBounds, h, hint, reduceCtorEq, if_false] <;> rfl
  have hlimits : ∀ x, x ∈ limit c.lowerLimit ∨ x ∈ limit c.upperLimit → ∃ n : ℤ, x = n := by
    intro x hx
    simpa [hint] using hc.limits x hx
  intro v hv
  have hvalue : engineValue c v = enginePages v := by
    rcases hsize with h | h <;> simp only [engineValue, h, hint, reduceCtorEq, if_false]
  rw [agrees_at_iff hbounds, within_sizeBounds (fun l h => hlimits l (.inl h)) (fun u h => hlimits u (.inr h)) hc.upper
    (hv hsize), hvalue]
  simp only [hint, true_implies]

/-- The two conversions of times, alike in all that the next result uses. -/
theorem agrees_time (hc : Covered c) (hint : c.datatype = .integer) (hsize : ¬IsSize c)
    (bounds : Option ℚ → Option ℚ → Bounds) (value : ℤ → ℤ)
    (hbounds : differUnitBounds c = some (bounds (numberOrUndefined c.lowerLimit) (numberOrUndefined c.upperLimit)))
    (hvalue : ∀ v, engineValue c v = value v) (hneg : ∀ v < 0, value v = v)
    (hwithin : ∀ {lower upper : Option ℚ} {v : ℤ}, (∀ l ∈ lower, (∃ n : ℤ, l = n) ∧ (l < 0 → nearest l = l)) →
      (∀ u ∈ upper, ∃ n : ℤ, u = n) → (∀ u ∈ upper, 0 ≤ u) →
      ((bounds (lower.map nearest) (upper.map nearest)).Within v ↔
        (∀ l ∈ lower, l ≤ value v) ∧ (∀ u ∈ upper, (value v : ℚ) ≤ u) ∧ (value v : ℚ) ≤ intMax))
    (hwithinNeg : ∀ {upper : Option ℚ} {n v : ℤ}, (∀ u ∈ upper, ∃ n : ℤ, u = n) → (∀ u ∈ upper, 0 ≤ u) → n < 0 → v < 0 →
      ((bounds (some (nearest n)) (upper.map nearest)).Within v ↔ nearest (n : ℚ) ≤ v)) :
    Agrees c ↔ ∀ l ∈ limit c.lowerLimit, l < 0 → nearest l = l := by
  have hlimits : ∀ x, x ∈ limit c.lowerLimit ∨ x ∈ limit c.upperLimit → ∃ n : ℤ, x = n := by
    intro x hx
    simpa [hint] using hc.limits x hx
  constructor
  · intro h l hl hnegative
    obtain ⟨n, rfl⟩ := hlimits l (.inl hl)
    have hn : n < 0 := by exact_mod_cast hnegative
    refine exact_of_agrees hn fun v hv => ?_
    have hv' : (v : ℚ) < 0 := by exact_mod_cast hv
    have hagree := (agrees_at_iff hbounds).1 (h v fun hs => absurd hs hsize)
    rw [numberOrUndefined_eq, numberOrUndefined_eq, hl, Option.map_some,
      hwithinNeg (fun u h => hlimits u (.inr h)) hc.upper hn hv, hvalue, hneg v hv] at hagree
    rw [hagree]
    simp only [Option.mem_some_iff, forall_eq', Int.cast_le]
    refine and_iff_left ⟨fun u hu => ?_, fun _ => ?_⟩
    · linarith [hc.upper u hu]
    · norm_num [intMax]
      linarith
  · intro hexact v hv
    rw [agrees_at_iff hbounds, numberOrUndefined_eq, numberOrUndefined_eq,
      hwithin (fun l h => ⟨hlimits l (.inl h), hexact l h⟩) (fun u h => hlimits u (.inr h)) hc.upper, hvalue]
    simp only [hint, true_implies]

theorem engineMsecToSec_neg {v : ℤ} (hv : v < 0) : engineMsecToSec v = v := if_neg (by omega)

theorem engineMinToSec_neg {v : ℤ} (hv : v < 0) : engineMinToSec v = v := if_neg (by omega)

theorem agrees_iff (hc : Covered c) (hsmall : SmallLimits c) : Agrees c ↔ LimitsKept c := by
  unfold LimitsKept
  rcases hc.datatype with hint | ⟨hfloat, hsize⟩
  · have hne : c.datatype ≠ .float := by
      rw [hint]
      exact Datatype.noConfusion
    rw [if_neg hne]
    rcases hc.setDup with hsize | hmsec | hmin
    · exact ⟨fun _ => .inl hsize, fun _ => agrees_size hc hint hsize⟩
    · have hsize : ¬IsSize c := by
        rw [IsSize, hmsec]
        decide
      rw [or_iff_right hsize]
      refine agrees_time hc hint hsize msecBounds engineMsecToSec ?_ ?_
        (fun _ => engineMsecToSec_neg) within_msecBounds within_msecBounds_neg
      · simp only [differUnitBounds, hmsec]
      · simp only [engineValue, hmsec, implies_true]
    · have hsize : ¬IsSize c := by
        rw [IsSize, hmin]
        decide
      rw [or_iff_right hsize]
      refine agrees_time hc hint hsize minBounds engineMinToSec ?_ ?_
        (fun _ => engineMinToSec_neg) within_minBounds within_minBounds_neg
      · simp only [differUnitBounds, hmin]
      · simp only [engineValue, hmin, implies_true]
  · rw [if_pos hfloat]
    exact agrees_float hc hfloat hsize (hsmall hfloat)

/-- The bounds agree with the limits where no limit rounds up, and below `2 ^ 32` pages only there. -/
theorem bounds_agree (hc : Covered c) :
    (LimitsKept c ∧ SmallLimits c → Agrees c) ∧ (SmallLimits c → Agrees c → LimitsKept c) :=
  ⟨fun h => (agrees_iff hc h.2).2 h.1, fun hsmall h => (agrees_iff hc hsmall).1 h⟩

end catalog

/-- A size in pages with two decimals, whose limits are `lower` and 16. -/
private def sizeFrom (lower : String) : EngineCatalogDbParam :=
  ⟨.float, some lower.toList, some "16".toList, some .sizeToIoPages⟩

private theorem decimalValue_sizes : decimalValue "16".toList = some 16 ∧
    decimalValue "0.05".toList = some (1 / 20) ∧ decimalValue "1.1".toList = some (11 / 10) := by
  decide +kernel

private theorem limits_sizeFrom {lower : String} {l : ℚ} (hlower : decimalValue lower.toList = some l) :
    limit (sizeFrom lower).lowerLimit = some l ∧ limit (sizeFrom lower).upperLimit = some 16 :=
  ⟨hlower, decimalValue_sizes.1⟩

private theorem covered_sizeFrom {lower : String} {l : ℚ} (hlower : decimalValue lower.toList = some l) {E : ℤ}
    (hE : 100 * l = E) : Covered (sizeFrom lower) := by
  obtain ⟨hl, hu⟩ := limits_sizeFrom hlower
  refine ⟨.inl (.inl rfl), .inr ⟨rfl, .inl rfl⟩, ?_, ?_⟩
  · intro x hx
    rw [hl, hu, Option.mem_some_iff, Option.mem_some_iff] at hx
    rw [sizeFrom, if_pos rfl]
    rcases hx with rfl | rfl
    · exact ⟨E, hE⟩
    · exact ⟨1600, by norm_num⟩
  · rw [hu]
    rintro _ ⟨⟩
    norm_num

theorem bounds_agree_sizeFrom : Covered (sizeFrom "0.05") ∧ LimitsKept (sizeFrom "0.05") ∧
    SmallLimits (sizeFrom "0.05") ∧ Agrees (sizeFrom "0.05") := by
  have hlower := decimalValue_sizes.2.1
  obtain ⟨hl, hu⟩ := limits_sizeFrom hlower
  have hcovered := covered_sizeFrom hlower (E := 5) (by norm_num)
  have hkept : LimitsKept (sizeFrom "0.05") := by
    rw [LimitsKept, if_pos (by rfl), hl, hu]
    constructor
    · rintro _ ⟨⟩ - -
      decide +kernel
    · rintro _ ⟨⟩ -
      decide +kernel
    · rintro _ ⟨⟩ _ ⟨⟩ h
      norm_num at h
  have hsmall : SmallLimits (sizeFrom "0.05") := by
    intro _ x hx
    rw [hl, hu, Option.mem_some_iff, Option.mem_some_iff] at hx
    rcases hx with rfl | rfl <;> norm_num [abs_lt]
  exact ⟨hcovered, hkept, hsmall, (bounds_agree hcovered).1 ⟨hkept, hsmall⟩⟩

/-- A limit of 1.1 pages becomes 111 hundredths, and the engine accepts a value that lies below the bounds. -/
theorem bounds_refuse : Covered (sizeFrom "1.1") ∧ ¬Agrees (sizeFrom "1.1") := by
  have hlower := decimalValue_sizes.2.2
  obtain ⟨hl, hu⟩ := limits_sizeFrom hlower
  refine ⟨covered_sizeFrom hlower (E := 110) (by norm_num), fun h => ?_⟩
  have hbounds : differUnitBounds (sizeFrom "1.1") = some ⟨some 18023, some 262144⟩ := by decide +kernel
  have hvalue : engineValue (sizeFrom "1.1") 18000 = 110 / 100 := by decide +kernel
  have hwithin := ((agrees_at_iff hbounds).1 (h 18000 fun _ => by norm_num)).2
    ⟨by rw [hl, hvalue]; rintro _ ⟨⟩; norm_num, by rw [hu, hvalue]; rintro _ ⟨⟩; norm_num, fun h => by cases h⟩
  exact absurd hwithin (by decide)

end CubridWebManager.ParamCatalog
