import CubridWebManager.UpdateCheck.Version
import Mathlib.Order.PiLex

/-!
# Engine versions

`compareEngineVersions` compares the first run of numbers in each of two texts, number by number.  The number it returns
tells how the keys of the texts compare (`tells_compareEngineVersions`): their numbers as doubles, padded with zeros, up
to the first one that is infinite, since the difference of two infinite ones is NaN.  So it orders the versions
totally, and by the numbers themselves where one of the versions has only small ones (`key_lt_iff`).
-/

namespace CubridWebManager.ParamCatalog

open JsNumber Comparator UpdateCheck

/-! ### The comparison -/

/-- The match of `\d+(?:\.\d+)*` at the start of a text that starts with a digit. -/
def matchRun : Text → Text
  | [] => []
  | c :: t => if c.isDigit || (c = '.' && t.head?.any Char.isDigit) then c :: matchRun t else []

def extractVersionNumber (version : Text) : Text :=
  match version.dropWhile fun c => !c.isDigit with
  | [] => ['0']
  | c :: t => matchRun (c :: t)

/-- The parts of the run as numbers. -/
def versionParts (version : Text) : List JsNumber := ((extractVersionNumber version).splitOn '.').map UpdateCheck.number

/-- `parts[i] || 0` -/
def part (parts : List JsNumber) (i : ℕ) : JsNumber := parts[i]?.getD (ofNat 0)

def compareEngineVersions (a b : Text) : JsNumber :=
  let partsA := versionParts a
  let partsB := versionParts b
  let diff i := (part partsA i).sub (part partsB i)
  match (List.range (max partsA.length partsB.length)).find? fun i => !(diff i).strictEq (ofNat 0) with
  | some i => diff i
  | none => ofNat 0

/-! ### Keys -/

/-- The numbers of a version. -/
def numbers (version : Text) : List ℕ := ((extractVersionNumber version).splitOn '.').map digitsValue

/-- The numbers of a version without end. -/
def nth (version : Text) (i : ℕ) : ℕ := (numbers version)[i]?.getD 0

theorem part_versionParts (version : Text) (i : ℕ) : part (versionParts version) i = ofNat (nth version i) := by
  simp only [part, versionParts, nth, numbers, List.getElem?_map]
  cases ((extractVersionNumber version).splitOn '.')[i]? <;> rfl

/-- The numbers as doubles; what comes after an infinite one does not count. -/
def doubles (ns : ℕ → ℕ) (i : ℕ) : WithTop ℚ := if ∀ j < i, value (ns j) ≠ ⊤ then value (ns i) else 0

def versionKey (version : Text) : Lex (ℕ → WithTop ℚ) := toLex (doubles (nth version))

theorem doubles_of_finite {ns : ℕ → ℕ} {i : ℕ} (h : ∀ j < i, value (ns j) ≠ ⊤) : doubles ns i = value (ns i) := if_pos h

/-- Sequences that agree through an infinite number are not told apart. -/
theorem doubles_eq_of_top {ms ns : ℕ → ℕ} {i : ℕ} (hagree : ∀ j ≤ i, value (ms j) = value (ns j))
    (htop : value (ms i) = ⊤) : doubles ms = doubles ns := by
  funext k
  unfold doubles
  rcases Nat.lt_or_ge i k with hlt | hle
  · rw [if_neg fun hall => hall i hlt htop, if_neg fun hall => hall i hlt (hagree i (Nat.le_refl i) ▸ htop)]
  · have hsame : (∀ j < k, value (ms j) ≠ ⊤) ↔ ∀ j < k, value (ns j) ≠ ⊤ := by
      refine forall₂_congr fun j hj => ?_
      rw [hagree j (by omega)]
    simp only [hsame, hagree k hle]

/-- The first numbers that differ decide. -/
theorem toLex_doubles_lt {ms ns : ℕ → ℕ} {i : ℕ} (hagree : ∀ j < i, value (ms j) = value (ns j))
    (hfinite : ∀ j < i, value (ms j) ≠ ⊤) (hlt : value (ms i) < value (ns i)) :
    toLex (doubles ms) < toLex (doubles ns) := by
  have hfinite' : ∀ j < i, value (ns j) ≠ ⊤ := fun j hj => hagree j hj ▸ hfinite j hj
  refine ⟨i, fun j hj => ?_, ?_⟩
  · show doubles ms j = doubles ns j
    rw [doubles_of_finite fun k hk => hfinite k (hk.trans hj), doubles_of_finite fun k hk => hfinite' k (hk.trans hj),
      hagree j hj]
  · show doubles ms i < doubles ns i
    rwa [doubles_of_finite hfinite, doubles_of_finite hfinite']

theorem sign_sub_eq_iff (m n : ℕ) :
    ((ofNat m).sub (ofNat n)).sign = some .eq ↔ value m = value n ∧ value m ≠ ⊤ := by
  rw [sign_sub_ofNat]
  by_cases htop : value m = ⊤ ∧ value n = ⊤
  · rw [if_pos htop]
    simp [htop.1]
  · rw [if_neg htop, Option.some.injEq, cmp_eq_eq_iff]
    refine ⟨fun heq => ⟨heq, fun hm => htop ⟨hm, heq ▸ hm⟩⟩, And.left⟩

theorem strictEq_ofNat_zero (r : JsNumber) : r.strictEq (ofNat 0) = decide (r.sign = some .eq) := by
  have hzero : ofNat 0 = ofRat 0 := by rw [ofNat, Nat.cast_zero]
  rw [hzero, strictEq_zero]

/-- The numbers that the loop goes through without returning are equal and finite. -/
theorem loop_none {a b : Text} {i : ℕ}
    (h : ((part (versionParts a) i).sub (part (versionParts b) i)).strictEq (ofNat 0) = true) :
    value (nth a i) = value (nth b i) ∧ value (nth a i) ≠ ⊤ := by
  rw [part_versionParts, part_versionParts, strictEq_ofNat_zero, decide_eq_true_iff] at h
  exact (sign_sub_eq_iff _ _).1 h

theorem nth_of_le {version : Text} {i : ℕ} (h : (versionParts version).length ≤ i) : nth version i = 0 := by
  have hlength : (numbers version).length = (versionParts version).length := by
    simp only [numbers, versionParts, List.length_map]
  rw [nth, List.getElem?_eq_none (hlength ▸ h), Option.getD_none]

/-- The number tells how the keys compare, and is NaN only where the versions have the same infinite number. -/
theorem tells_compareEngineVersions (a b : Text) :
    Tells (compareEngineVersions a b) (versionKey a) (versionKey b) (∃ i, value (nth a i) = ⊤) := by
  have hzero : value 0 ≠ ⊤ := by simp [value_of_lt]
  unfold compareEngineVersions
  dsimp only
  split
  · rename_i i hfind
    obtain ⟨hdiff, -, hbefore⟩ := List.find?_range_eq_some.1 hfind
    have hagree : ∀ j < i, value (nth a j) = value (nth b j) ∧ value (nth a j) ≠ ⊤ :=
      fun j hj => loop_none (by simpa using hbefore j hj)
    rw [part_versionParts, part_versionParts] at hdiff ⊢
    rw [strictEq_ofNat_zero, Bool.not_eq_true', decide_eq_false_iff_not, sign_sub_eq_iff] at hdiff
    rcases lt_trichotomy (value (nth a i)) (value (nth b i)) with hlt | heq | hgt
    · -- the first numbers that differ decide
      have hkeys : versionKey a < versionKey b :=
        toLex_doubles_lt (fun j hj => (hagree j hj).1) (fun j hj => (hagree j hj).2) hlt
      refine ⟨fun _ => ?_, fun hgt => absurd hgt hkeys.not_gt, fun heq => absurd heq hkeys.ne⟩
      rw [sign_sub_ofNat, if_neg fun htop => hlt.ne (htop.1.trans htop.2.symm), (cmp_eq_lt_iff _ _).2 hlt]
    · -- both are infinite
      have htop : value (nth a i) = ⊤ := by
        by_contra hne
        exact hdiff ⟨heq, hne⟩
      have hkeys : versionKey a = versionKey b := by
        refine congrArg toLex (doubles_eq_of_top (i := i) (fun j hj => ?_) htop)
        rcases Nat.lt_or_eq_of_le hj with hlt | rfl
        · exact (hagree j hlt).1
        · exact heq
      refine ⟨fun hlt => absurd hkeys hlt.ne, fun hgt => absurd hkeys hgt.ne', fun _ => .inr ⟨⟨i, htop⟩, ?_⟩⟩
      rw [sign_sub_ofNat, if_pos ⟨htop, heq ▸ htop⟩]
    · have hkeys : versionKey b < versionKey a :=
        toLex_doubles_lt (fun j hj => (hagree j hj).1.symm) (fun j hj => (hagree j hj).1 ▸ (hagree j hj).2) hgt
      refine ⟨fun hlt => absurd hlt hkeys.not_gt, fun _ => ?_, fun heq => absurd heq hkeys.ne'⟩
      rw [sign_sub_ofNat, if_neg fun htop => hgt.ne (htop.2.trans htop.1.symm), (cmp_eq_gt_iff _ _).2 hgt]
  · rename_i hfind
    have hall : ∀ i, value (nth a i) = value (nth b i) := by
      intro i
      rcases Nat.lt_or_ge i (max (versionParts a).length (versionParts b).length) with hlt | hge
      · exact (loop_none (by simpa using List.find?_range_eq_none.1 hfind i hlt)).1
      · rw [nth_of_le (le_of_max_le_left hge), nth_of_le (le_of_max_le_right hge)]
    have hkeys : versionKey a = versionKey b := by
      refine congrArg toLex (funext fun i => ?_)
      simp only [doubles, hall]
    refine ⟨fun hlt => absurd hkeys hlt.ne, fun hgt => absurd hkeys hgt.ne', fun _ => .inl ?_⟩
    rw [ofNat, Nat.cast_zero, sign_ofRat, cmp_self_eq_eq]

theorem exceeds_iff (a b : Text) : (compareEngineVersions a b).sign = some .gt ↔ versionKey b < versionKey a :=
  (tells_compareEngineVersions a b).exceeds_iff

theorem below_iff (a b : Text) : (compareEngineVersions a b).sign = some .lt ↔ versionKey a < versionKey b :=
  (tells_compareEngineVersions a b).below_iff

/-! ### Small numbers -/

theorem le_value {m : ℕ} (h : 2 ^ 53 ≤ m) : ((2 ^ 53 : ℚ) : WithTop ℚ) ≤ value m := by
  unfold value
  split
  · exact WithTop.coe_le_coe.2 (Double.le_nearest (by exact_mod_cast h))
  · exact le_top

theorem value_lt_of_lt {m n : ℕ} (hsmall : m < 2 ^ 53) (h : m < n) : value m < value n := by
  rcases Nat.lt_or_ge n (2 ^ 53) with hn | hn
  · rw [← cmp_eq_lt_iff, cmp_value hsmall hn, cmp_eq_lt_iff]
    exact h
  · rw [value_of_lt hsmall]
    refine lt_of_lt_of_le (WithTop.coe_lt_coe.2 ?_) (le_value hn)
    exact_mod_cast hsmall

/-- Where one of two sequences has only small numbers, they compare as the doubles do. -/
theorem doubles_lt_of_lt {ms ns : ℕ → ℕ} (hsmall : (∀ i, ms i < 2 ^ 53) ∨ ∀ i, ns i < 2 ^ 53) (h : toLex ms < toLex ns) :
    toLex (doubles ms) < toLex (doubles ns) := by
  obtain ⟨i, hagree, hlt⟩ := h
  have hagree : ∀ j < i, ms j = ns j := hagree
  have hlt : ms i < ns i := hlt
  have hms : ∀ j ≤ i, ms j < 2 ^ 53 := by
    intro j hj
    rcases hsmall with hsmall | hsmall
    · exact hsmall j
    · rcases Nat.lt_or_eq_of_le hj with hji | rfl
      · exact hagree j hji ▸ hsmall j
      · exact hlt.trans (hsmall j)
  refine toLex_doubles_lt (fun j hj => by rw [hagree j hj]) (fun j hj => ?_) (value_lt_of_lt (hms i (Nat.le_refl i)) hlt)
  rw [value_of_lt (hms j hj.le)]
  exact WithTop.coe_ne_top

theorem doubles_lt_iff {ms ns : ℕ → ℕ} (hsmall : (∀ i, ms i < 2 ^ 53) ∨ ∀ i, ns i < 2 ^ 53) :
    toLex (doubles ms) < toLex (doubles ns) ↔ toLex ms < toLex ns := by
  refine ⟨fun h => ?_, doubles_lt_of_lt hsmall⟩
  rcases lt_trichotomy (toLex ms) (toLex ns) with hlt | heq | hgt
  · exact hlt
  · rw [toLex_inj.1 heq] at h
    exact absurd h (lt_irrefl _)
  · exact absurd (doubles_lt_of_lt hsmall.symm hgt) h.not_gt

end CubridWebManager.ParamCatalog
