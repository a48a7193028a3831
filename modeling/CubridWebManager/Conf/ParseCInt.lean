import CubridWebManager.Conf.BrokerCollisions
import CubridWebManager.Lib.JsNumber
import CubridWebManager.Lib.Strtol

/-!
# The integers of the guards

`parseCInt` of `param-schema/validate-param-value.ts` reads an integer as `strtol` does, but with `parseInt`, which
rounds long numbers.  It accepts the integers of C that are an `int`, with their values, and nothing else
(`parseCInt_exact`): what is rounded is out of that range.
-/

namespace CubridWebManager.Conf

def CIntBase.radix : CIntBase → ℕ
  | .zero => 0
  | .ten => 10
  | .sixteen => 16

namespace CInteger

open Double (nearest)
open JsNumber (ofRat overflow)
open Numeral (readSign)
open Strtol (Digits Reads Subject Unsigned digitValue isDigit isDigit_spec readSign_of_ne reads_nil_iff subject_iff
  toLong value)

/-! ### Digits -/

variable {c : Char} {radix : ℕ} {digits : Text}

theorem digit?_eq (c : Char) : digit? c = if isDigit 16 c then some (digitValue c) else none := by
  have hle : ∀ a b : Char, a ≤ b ↔ a.toNat ≤ b.toNat := fun a b => Iff.rfl
  have hchars : '0'.toNat = 48 ∧ '9'.toNat = 57 ∧ 'a'.toNat = 97 ∧ 'f'.toNat = 102 ∧ 'z'.toNat = 122 ∧ 'A'.toNat = 65 ∧
      'F'.toNat = 70 ∧ 'Z'.toNat = 90 := by decide
  obtain ⟨h0, h9, ha, hf, hz, hA, hF, hZ⟩ := hchars
  simp only [digit?, isDigit, digitValue, hle, h0, h9, ha, hf, hz, hA, hF, hZ, decide_eq_true_eq]
  grind

theorem isAlphanum_of_isDigit (hradix : radix ≤ 36) (h : isDigit radix c = true) : c.isAlphanum = true := by
  have hle : ∀ a b : Char, a ≤ b ↔ a.val ≤ b.val := fun a b => Iff.rfl
  rw [isDigit, decide_eq_true_eq] at h
  unfold digitValue at h
  unfold Char.isAlphanum Char.isAlpha Char.isUpper Char.isLower Char.isDigit
  simp only [Bool.or_eq_true, Bool.and_eq_true, decide_eq_true_eq, ge_iff_le]
  split at h
  · exact .inr ‹_›
  · split at h
    · exact .inl (.inr ‹_›)
    · split at h
      · exact .inl (.inl ‹_›)
      · omega

/-! ### `parseInt` -/

def hexMark : Text → Bool
  | '0' :: x :: _ => x = 'x' || x = 'X'
  | _ => false

/-- `parseInt(text, radix)` -/
def parseInt (text : Text) (radix : ℕ) : JsNumber :=
  let (sign, body) := readSign text.trimStart
  let digits := (if radix = 16 ∧ hexMark body = true then body.drop 2 else body).takeWhile (isDigit radix)
  if digits = [] then .nan else ofRat (sign * value radix digits)

theorem hexMark_digits (hradix : radix ≤ 33) (h : Digits radix digits) : hexMark digits = false := by
  unfold hexMark
  split
  · rename_i x rest
    have hx := h.2 x (by simp)
    rw [isDigit, decide_eq_true_eq] at hx
    have hne : ∀ d : Char, digitValue d = 33 → x ≠ d := by
      rintro d hd rfl
      omega
    simp [hne 'x' (by decide), hne 'X' (by decide)]
  · rfl

/-- Digits of the radix are read to their end. -/
theorem parseInt_digits (hradix : radix ≤ 33) (h : Digits radix digits) :
    parseInt digits radix = ofRat (value radix digits) := by
  obtain ⟨c, rest, rfl⟩ := List.exists_cons_of_ne_nil h.1
  have hc := h.2 c List.mem_cons_self
  obtain ⟨-, hplus, hminus⟩ := isDigit_spec (by omega) hc
  have hspace : Text.isSpace c = false := JsNumber.isSpace_of_isNumeral (by
    rw [JsNumber.isNumeral, isAlphanum_of_isDigit (by omega) hc]
    rfl)
  have htrim : Text.trimStart (c :: rest) = c :: rest := by
    rw [Text.trimStart, List.dropWhile_cons_of_neg (by rw [hspace]; decide)]
  have htake : (c :: rest).takeWhile (isDigit radix) = c :: rest := List.takeWhile_eq_self_iff.2 h.2
  unfold parseInt
  rw [htrim, readSign_of_ne hplus hminus]
  have hmark : ¬ (radix = 16 ∧ hexMark (c :: rest) = true) := fun hmark => by
    rw [hexMark_digits hradix h] at hmark
    exact Bool.noConfusion hmark.2
  dsimp only
  rw [if_neg hmark, htake, if_neg (List.cons_ne_nil _ _), Int.cast_one, one_mul]

/-! ### `parseCInt` -/

/-- `/^[0-7]+$/`, `/^\d+$/` and `/^[0-9a-f]+$/i`, by their radix. -/
def valid (radix : ℕ) (digits : Text) : Bool := digits ≠ [] && digits.all (isDigit radix)

/-- `n >= -2147483648 && n <= 2147483647` -/
def inRange : JsNumber → Bool
  | .finite x _ _ => -2147483648 ≤ x && x ≤ 2147483647
  | _ => false

def parseCInt (s : Text) (base : CIntBase) : Option JsNumber :=
  let (sign, body) := readSign (s.dropWhile isIniSpace)
  let (radix, digits) := radixDigits base body
  if valid radix digits then
    let n := (ofRat sign).mul (parseInt digits radix)
    if inRange n then some n else none
  else none

/-! ### The numbers -/

/-- An `int` of 32 bits can hold the number. -/
def IsInt (n : ℤ) : Prop := -2 ^ 31 ≤ n ∧ n < 2 ^ 31

theorem valid_iff {radix : ℕ} {digits : Text} : valid radix digits = true ↔ Digits radix digits := by
  simp [valid, Digits]

theorem radixDigits_fst (base : CIntBase) (body : Text) :
    (radixDigits base body).1 = 8 ∨ (radixDigits base body).1 = 10 ∨ (radixDigits base body).1 = 16 := by
  unfold radixDigits
  split
  · exact .inr (.inr rfl)
  · cases base with
    | zero =>
      dsimp only
      split
      · exact .inl rfl
      · exact .inr (.inl rfl)
    | ten => exact .inr (.inl rfl)
    | sixteen => exact .inr (.inr rfl)

theorem hasHexPrefix_eq_false (hradix : radix ≤ 33) (h : Digits radix digits) : hasHexPrefix digits = false := by
  unfold hasHexPrefix
  split
  · rename_i x d rest
    have hx := h.2 x (by simp)
    rw [isDigit, decide_eq_true_eq] at hx
    have hne : ∀ d : Char, digitValue d = 33 → x ≠ d := by
      rintro d hd rfl
      omega
    simp [hne 'x' (by decide), hne 'X' (by decide)]
  · rfl

/-- Without a prefix the base alone tells the radix. -/
theorem radixDigits_of_unmarked {base : CIntBase} {body : Text} (h : hasHexPrefix body = false) :
    radixDigits base body = (match base with
      | .zero => if 1 < body.length ∧ body.head? = some '0' then 8 else 10
      | .ten => 10
      | .sixteen => 16, body) := by
  have hmarked : ¬ (base ≠ .ten ∧ hasHexPrefix body = true) := fun hmarked => by
    rw [h] at hmarked
    exact Bool.noConfusion hmarked.2
  unfold radixDigits
  rw [if_neg hmarked]
  cases base <;> rfl

theorem radixDigits_hex {base : CIntBase} {x : Char} (hbase : base ≠ .ten) (hx : x = 'x' ∨ x = 'X')
    (h : Digits 16 digits) : radixDigits base ('0' :: x :: digits) = (16, digits) := by
  obtain ⟨d, rest, rfl⟩ := List.exists_cons_of_ne_nil h.1
  have hmarked : hasHexPrefix ('0' :: x :: d :: rest) = true := by
    have hd := h.2 d List.mem_cons_self
    simp [hasHexPrefix, digit?_eq, hd, hx]
  unfold radixDigits
  rw [if_pos ⟨hbase, hmarked⟩]
  rfl

theorem unsigned_radixDigits {base : CIntBase} {b n : ℕ} {body : Text} (hb : base.radix = b) (h : Unsigned b body n) :
    Digits (radixDigits base body).1 (radixDigits base body).2 ∧
      n = value (radixDigits base body).1 (radixDigits base body).2 := by
  cases h with
  | digits hbase hds =>
    subst hb
    cases base with
    | zero => exact absurd hbase (by decide)
    | ten | sixteen =>
      rw [radixDigits_of_unmarked (hasHexPrefix_eq_false (by decide) hds)]
      exact ⟨hds, rfl⟩
  | hex hbase hx hds =>
    have hten : base ≠ .ten := by
      rintro rfl
      subst hb
      exact absurd hbase (by decide)
    rw [radixDigits_hex hten hx hds]
    exact ⟨hds, rfl⟩
  | @octal ds hds =>
    obtain rfl : base = .zero := by cases base <;> first | rfl | cases hb
    rw [radixDigits_of_unmarked (hasHexPrefix_eq_false (by decide) hds)]
    rcases ds with _ | ⟨d, rest⟩
    · exact ⟨⟨hds.1, List.forall_mem_singleton.2 rfl⟩, rfl⟩
    · rw [if_pos ⟨by simp, rfl⟩]
      exact ⟨hds, rfl⟩
  | decimal hds hzero =>
    obtain rfl : base = .zero := by cases base <;> first | rfl | cases hb
    rw [radixDigits_of_unmarked (hasHexPrefix_eq_false (by decide) hds), if_neg (fun h => hzero h.2)]
    exact ⟨hds, rfl⟩

theorem exists_of_hasHexPrefix {body : Text} (h : hasHexPrefix body = true) :
    ∃ x ds, body = '0' :: x :: ds ∧ (x = 'x' ∨ x = 'X') := by
  unfold hasHexPrefix at h
  split at h
  · rename_i x d rest
    exact ⟨x, d :: rest, rfl, (of_decide_eq_true h).1⟩
  · cases h

theorem unsigned_iff {base : CIntBase} {body : Text} {n : ℕ} :
    Unsigned base.radix body n ↔
      Digits (radixDigits base body).1 (radixDigits base body).2 ∧
        n = value (radixDigits base body).1 (radixDigits base body).2 := by
  refine ⟨unsigned_radixDigits rfl, ?_⟩
  rintro ⟨hds, rfl⟩
  by_cases hmarked : base ≠ .ten ∧ hasHexPrefix body = true
  · obtain ⟨x, ds, rfl, hx⟩ := exists_of_hasHexPrefix hmarked.2
    have hradix : radixDigits base ('0' :: x :: ds) = (16, ds) := by
      unfold radixDigits
      rw [if_pos hmarked]
      rfl
    rw [hradix] at hds ⊢
    refine .hex ?_ hx hds
    cases base with
    | zero => exact .inl rfl
    | ten => exact absurd rfl hmarked.1
    | sixteen => exact .inr rfl
  · unfold radixDigits at hds ⊢
    rw [if_neg hmarked] at hds ⊢
    cases base with
    | ten => exact .digits (by decide) hds
    | sixteen => exact .digits (by decide) hds
    | zero =>
      dsimp only at hds ⊢
      split at hds
      · rename_i hzero
        rw [if_pos hzero]
        obtain ⟨rest, rfl⟩ : ∃ rest, body = '0' :: rest := List.head?_eq_some_iff.1 hzero.2
        exact .octal hds
      · rename_i hzero
        rw [if_neg hzero]
        by_cases hhead : body.head? = some '0'
        · obtain ⟨rest, rfl⟩ : ∃ rest, body = '0' :: rest := List.head?_eq_some_iff.1 hhead
          obtain rfl : rest = [] := by
            rcases rest with _ | ⟨d, rest⟩
            · rfl
            · exact absurd ⟨by simp, hhead⟩ hzero
          exact .octal ⟨List.cons_ne_nil _ _, List.forall_mem_singleton.2 rfl⟩
        · exact .decimal hds hhead

theorem inRange_ofRat {x : ℚ} (h : nearest x = x) (hx : |x| < overflow) :
    inRange (ofRat x) = true ↔ -2147483648 ≤ x ∧ x ≤ 2147483647 := by
  rw [JsNumber.ofRat_of_exact h hx, inRange, Bool.and_eq_true, decide_eq_true_eq, decide_eq_true_eq]

theorem inRange_intCast {n : ℤ} (hn : |n| < 2 ^ 53) : inRange (ofRat n) = true ↔ IsInt n := by
  have hx : |(n : ℚ)| < overflow := by
    rw [← Int.cast_abs]
    exact lt_trans (by exact_mod_cast hn) (JsNumber.pow_lt_overflow (k := 53) (by decide))
  rw [inRange_ofRat (Double.nearest_intCast hn) hx]
  constructor
  · rintro ⟨hlow, hhigh⟩
    exact ⟨by exact_mod_cast hlow, by exact_mod_cast Int.lt_add_one_of_le (by exact_mod_cast hhigh : n ≤ 2147483647)⟩
  · rintro ⟨hlow, hhigh⟩
    exact ⟨by exact_mod_cast hlow, by exact_mod_cast Int.le_of_lt_add_one hhigh⟩

theorem mul_intCast {m n : ℤ} (hm : |m| < 2 ^ 53) (hn : |n| < 2 ^ 53) : (ofRat m).mul (ofRat n) = ofRat (m * n : ℤ) := by
  have hlt : ∀ k : ℤ, |k| < 2 ^ 53 → |(k : ℚ)| < overflow := fun k hk => by
    rw [← Int.cast_abs]
    exact lt_trans (by exact_mod_cast hk) (JsNumber.pow_lt_overflow (k := 53) (by decide))
  rw [JsNumber.ofRat_of_exact (Double.nearest_intCast hm) (hlt m hm),
    JsNumber.ofRat_of_exact (Double.nearest_intCast hn) (hlt n hn), JsNumber.mul_finite, Int.cast_mul]

theorem nearest_neg {x : ℚ} (h : nearest x = x) : nearest (-x) = -x := by
  refine Double.nearest_of_eq_mul (m := -Double.roundHalfEven (x / Double.ulp x)) ?_
  have hulp : Double.ulp (-x) = Double.ulp x := by rw [Double.ulp, Double.ulp, abs_neg]
  rw [hulp, Int.cast_neg, neg_mul, neg_inj]
  exact h.symm

/-- A number that is rounded is out of the range. -/
theorem not_inRange_mul {sign : ℤ} (hsign : sign = 1 ∨ sign = -1) {n : ℕ} (hn : 2 ^ 53 ≤ n) :
    inRange ((ofRat sign).mul (ofRat n)) = false := by
  have hone : |sign| < 2 ^ 53 := by rcases hsign with rfl | rfl <;> decide
  have hsmall : |(sign : ℚ)| < overflow := by
    rcases hsign with rfl | rfl <;>
      simpa using lt_trans one_lt_two (JsNumber.pow_lt_overflow (k := 1) (by decide))
  have hbig : (2 : ℚ) ^ 53 ≤ nearest n := Double.le_nearest (by exact_mod_cast hn)
  rw [JsNumber.ofRat_of_exact (Double.nearest_intCast hone) hsmall]
  by_cases hlt : |nearest (n : ℚ)| < overflow
  · rw [JsNumber.ofRat_of_lt hlt, JsNumber.mul_finite, ← Bool.not_eq_true]
    have hexact := Double.nearest_nearest (n : ℚ)
    generalize nearest (n : ℚ) = y at hbig hlt hexact
    rcases hsign with rfl | rfl
    · rw [Int.cast_one, one_mul, inRange_ofRat hexact hlt]
      rintro ⟨-, hhigh⟩
      linarith
    · rw [Int.cast_neg, Int.cast_one, neg_one_mul, inRange_ofRat (nearest_neg hexact) (by rwa [abs_neg])]
      rintro ⟨hlow, -⟩
      linarith
  · have hzero : (sign : ℚ) ≠ 0 := by rcases hsign with rfl | rfl <;> norm_num
    rw [JsNumber.ofRat, dif_neg hlt, JsNumber.mul, if_neg hzero]
    rfl

/-- The sign and the rounded digits are in the range if the number is, and then it is exact. -/
theorem inRange_mul {sign : ℤ} (hsign : sign = 1 ∨ sign = -1) (n : ℕ) :
    (inRange ((ofRat sign).mul (ofRat n)) = true ↔ IsInt (sign * n)) ∧
      (IsInt (sign * n) → (ofRat sign).mul (ofRat n) = ofRat (sign * n : ℤ)) := by
  have hone : |sign| < 2 ^ 53 := by rcases hsign with rfl | rfl <;> decide
  rcases lt_or_ge n (2 ^ 53) with hn | hn
  · have hn' : |(n : ℤ)| < 2 ^ 53 := by rw [Nat.abs_cast]; exact_mod_cast hn
    have hmul := mul_intCast hone hn'
    rw [Int.cast_natCast] at hmul
    have habs : |sign * n| < 2 ^ 53 := by
      rw [abs_mul]
      rcases hsign with rfl | rfl <;> simpa using hn'
    rw [hmul]
    exact ⟨inRange_intCast habs, fun _ => rfl⟩
  · have hnot : ¬ IsInt (sign * n) := by
      rintro ⟨hlow, hhigh⟩
      rcases hsign with rfl | rfl <;> omega
    rw [not_inRange_mul hsign hn]
    exact ⟨⟨fun h => Bool.noConfusion h, fun h => absurd h hnot⟩, fun h => absurd h hnot⟩

theorem toLong_of_isInt {v : ℤ} (h : IsInt (toLong v)) : toLong v = v := by
  unfold IsInt toLong at h
  unfold toLong
  omega

theorem readSign_fst (t : Text) : (readSign t).1 = 1 ∨ (readSign t).1 = -1 := by
  unfold readSign
  split
  · exact .inr rfl
  · exact .inl rfl
  · exact .inl rfl

/-- The number behind the sign. -/
def absolute (base : CIntBase) (body : Text) : JsNumber :=
  parseInt (radixDigits base body).2 (radixDigits base body).1

theorem parseCInt_eq (s : Text) (base : CIntBase) : parseCInt s base =
    let t := readSign (s.dropWhile isIniSpace)
    if valid (radixDigits base t.2).1 (radixDigits base t.2).2 then
      if inRange ((ofRat t.1).mul (absolute base t.2)) then some ((ofRat t.1).mul (absolute base t.2)) else none
    else none := rfl

theorem parseCInt_eq_some_iff {s : Text} {base : CIntBase} {x : JsNumber} :
    parseCInt s base = some x ↔ ∃ v, Subject base.radix (s.dropWhile isIniSpace) v ∧ IsInt v ∧ x = ofRat v := by
  have hbase : base.radix ≤ 36 := by cases base <;> decide
  rw [parseCInt_eq]
  dsimp only
  generalize s.dropWhile isIniSpace = t
  have hradix : (radixDigits base (readSign t).2).1 ≤ 33 := by
    rcases radixDigits_fst base (readSign t).2 with h | h | h <;> omega
  by_cases hvalid : Digits (radixDigits base (readSign t).2).1 (radixDigits base (readSign t).2).2
  · have habsolute : absolute base (readSign t).2 =
        ofRat (value (radixDigits base (readSign t).2).1 (radixDigits base (readSign t).2).2 : ℕ) :=
      parseInt_digits hradix hvalid
    rw [if_pos (valid_iff.2 hvalid), habsolute]
    generalize hn : value (radixDigits base (readSign t).2).1 (radixDigits base (readSign t).2).2 = n
    have hsubject : ∀ v, Subject base.radix t v ↔ v = (readSign t).1 * n := fun v => by
      rw [subject_iff hbase]
      constructor
      · rintro ⟨m, hm, rfl⟩
        rw [(unsigned_iff.1 hm).2, hn]
      · rintro rfl
        exact ⟨n, unsigned_iff.2 ⟨hvalid, hn.symm⟩, rfl⟩
    obtain ⟨hrange, hexact⟩ := inRange_mul (readSign_fst t) n
    constructor
    · intro h
      split at h
      · rename_i hin
        obtain rfl := Option.some.inj h
        exact ⟨_, (hsubject _).2 rfl, hrange.1 hin, hexact (hrange.1 hin)⟩
      · cases h
    · rintro ⟨v, hv, hint, rfl⟩
      obtain rfl := (hsubject v).1 hv
      rw [if_pos (hrange.2 hint), hexact hint]
  · rw [if_neg (fun h => hvalid (valid_iff.1 h))]
    constructor
    · intro h
      cases h
    · rintro ⟨v, hv, -⟩
      obtain ⟨n, hn, -⟩ := (subject_iff hbase).1 hv
      exact absurd (unsigned_iff.1 hn).1 hvalid

/-! ### The integers without rounding -/

theorem foldlM_digit? (hradix : radix ≤ 16) (start : ℕ) (digits : Text) :
    digits.foldlM (fun n c => ((digit? c).filter (· < radix)).map (radix * n + ·)) start =
      if digits.all (isDigit radix) then some (digits.foldl (fun n c => radix * n + digitValue c) start) else none := by
  induction digits generalizing start with
  | nil => rfl
  | cons c digits ih =>
    have hsixteen : isDigit radix c = true → isDigit 16 c = true := by
      simp only [isDigit, decide_eq_true_eq]
      omega
    rw [List.foldlM_cons, List.all_cons, List.foldl_cons, digit?_eq]
    by_cases hc : isDigit radix c = true
    · have hfilter : (some (digitValue c)).filter (· < radix) = some (digitValue c) :=
        Option.filter_eq_some_iff.2 ⟨rfl, hc⟩
      rw [if_pos (hsixteen hc), hfilter, Option.map_some, Option.bind_eq_bind, Option.bind_some, ih, hc, Bool.true_and]
    · have hfilter : (if isDigit 16 c = true then some (digitValue c) else none).filter (· < radix) = none := by
        refine Option.filter_eq_none_iff.2 fun n hn => ?_
        split at hn
        · obtain rfl := Option.some.inj hn
          exact hc
        · cases hn
      rw [hfilter]
      simp [hc]

theorem digitsValue_eq (hradix : radix ≤ 16) :
    digitsValue radix digits = if valid radix digits then some (value radix digits) else none := by
  unfold digitsValue valid value
  by_cases hnil : digits = []
  · simp [hnil]
  · rw [if_neg hnil, foldlM_digit? hradix]
    simp [hnil]

theorem signBody_of_ne (hplus : c ≠ '+') (hminus : c ≠ '-') (rest : Text) : signBody (c :: rest) = (false, c :: rest) := by
  unfold signBody
  split
  · rename_i heq
    cases heq
    exact absurd rfl hminus
  · rename_i heq
    cases heq
    exact absurd rfl hplus
  · rfl

theorem signBody_spec (t : Text) : (signBody t).2 = (readSign t).2 ∧
    ∀ n : ℤ, (if (signBody t).1 then -n else n) = (readSign t).1 * n := by
  rcases t with _ | ⟨c, rest⟩
  · exact ⟨rfl, fun n => (one_mul n).symm⟩
  · by_cases hminus : c = '-'
    · subst hminus
      exact ⟨rfl, fun n => (neg_one_mul n).symm⟩
    · by_cases hplus : c = '+'
      · subst hplus
        exact ⟨rfl, fun n => (one_mul n).symm⟩
      · rw [readSign_of_ne hplus hminus, signBody_of_ne hplus hminus]
        exact ⟨rfl, fun n => (one_mul n).symm⟩

theorem conf_parseCInt_eq (s : Text) (base : CIntBase) : Conf.parseCInt s base =
    let t := signBody (s.dropWhile isIniSpace)
    (((digitsValue (radixDigits base t.2).1 (radixDigits base t.2).2).bind fun n => some (n : ℤ)).map fun n =>
      if t.1 then -n else n).filter fun n => -2147483648 ≤ n ∧ n ≤ 2147483647 := rfl

/-- The rounding of `parseInt` makes no difference. -/
theorem parseCInt_eq_map (s : Text) (base : CIntBase) :
    parseCInt s base = (Conf.parseCInt s base).map fun n : ℤ => ofRat n := by
  rw [parseCInt_eq, conf_parseCInt_eq]
  dsimp only
  generalize s.dropWhile isIniSpace = t
  obtain ⟨hbody, hsign⟩ := signBody_spec t
  have hradix : (radixDigits base (readSign t).2).1 ≤ 16 := by
    rcases radixDigits_fst base (readSign t).2 with h | h | h <;> omega
  rw [hbody, digitsValue_eq hradix]
  split
  · rename_i hvalid
    have habsolute : absolute base (readSign t).2 =
        ofRat (value (radixDigits base (readSign t).2).1 (radixDigits base (readSign t).2).2 : ℕ) :=
      parseInt_digits (by omega) (valid_iff.1 hvalid)
    rw [habsolute, Option.bind_some, Option.map_some, hsign]
    generalize value (radixDigits base (readSign t).2).1 (radixDigits base (readSign t).2).2 = n
    obtain ⟨hrange, hexact⟩ := inRange_mul (readSign_fst t) n
    have hint : IsInt ((readSign t).1 * n) ↔ -2147483648 ≤ (readSign t).1 * n ∧ (readSign t).1 * n ≤ 2147483647 := by
      unfold IsInt
      omega
    split
    · rename_i hin
      have hfit := hrange.1 hin
      have hkeep : (some ((readSign t).1 * (n : ℤ))).filter (fun n => -2147483648 ≤ n ∧ n ≤ 2147483647) =
          some ((readSign t).1 * (n : ℤ)) := Option.filter_eq_some_iff.2 ⟨rfl, decide_eq_true (hint.1 hfit)⟩
      rw [hkeep, Option.map_some, hexact hfit]
    · rename_i hin
      have hdrop : (some ((readSign t).1 * (n : ℤ))).filter (fun n => -2147483648 ≤ n ∧ n ≤ 2147483647) = none := by
        refine Option.filter_eq_none_iff.2 fun m hm hmem => hin (hrange.2 (hint.2 ?_))
        obtain rfl := Option.some.inj hm
        exact of_decide_eq_true hmem
      rw [hdrop, Option.map_none]
  · rfl

/-- The integers that `strtol` makes of the whole text and that are an `int` are accepted, and nothing else is. -/
theorem parseCInt_exact (s : Text) (base : CIntBase) :
    (∀ x, parseCInt s base = some x ↔ ∃ n : ℤ, Reads base.radix s n [] ∧ IsInt n ∧ x = ofRat n) ∧
      (parseCInt s base = none ↔ ¬∃ n : ℤ, Reads base.radix s n [] ∧ IsInt n) := by
  have hsome : ∀ x, parseCInt s base = some x ↔ ∃ n : ℤ, Reads base.radix s n [] ∧ IsInt n ∧ x = ofRat n := by
    intro x
    have hbase : base.radix ≤ 36 := by cases base <;> decide
    rw [parseCInt_eq_some_iff]
    constructor
    · rintro ⟨v, hsubject, hint, rfl⟩
      have hlong : toLong v = v := by
        unfold toLong
        unfold IsInt at hint
        omega
      exact ⟨v, (reads_nil_iff hbase).2 ⟨v, hsubject, hlong.symm⟩, hint, rfl⟩
    · rintro ⟨n, hreads, hint, rfl⟩
      obtain ⟨v, hsubject, rfl⟩ := (reads_nil_iff hbase).1 hreads
      have hlong := toLong_of_isInt hint
      rw [hlong] at hint ⊢
      exact ⟨v, hsubject, hint, rfl⟩
  refine ⟨hsome, ?_⟩
  rw [Option.eq_none_iff_forall_ne_some]
  constructor
  · rintro h ⟨n, hreads, hint⟩
    exact h _ ((hsome _).2 ⟨n, hreads, hint, rfl⟩)
  · intro h x hx
    obtain ⟨n, hreads, hint, -⟩ := (hsome x).1 hx
    exact h ⟨n, hreads, hint⟩

end CInteger

end CubridWebManager.Conf
