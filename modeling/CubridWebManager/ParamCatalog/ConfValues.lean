import CubridWebManager.Lib.JsNumber
import CubridWebManager.Lib.Numeral
import CubridWebManager.Lib.Trim

/-!
# Sizes and times in conf notation

`bytesToConf` and `msecToConf` write a default as cubrid.conf would, with the largest unit that divides it, and
`parseEngineSizeToBytes` and the check of a time guard read such a value as the engine does: a number as `strtod` takes
it, and the rest as the unit.  A size is read as it was written, and a time is the only one that is accepted for it.
-/

namespace CubridWebManager.ParamCatalog

open JsNumber Numeral
open Nat (toDigits ofDigitChars)

/-! ### Writing -/

/-- `String(n)` -/
def numberText (n : ℤ) : Text := (ofRat n).text

/-- The largest of the units that divides the number. -/
def largestUnit (units : List (Text × ℤ)) (n : ℤ) : Option (Text × ℤ) := units.find? fun unit => n % unit.2 = 0

def sizeUnits : List (Text × ℤ) :=
  [("T".toList, 1024 ^ 4), ("G".toList, 1024 ^ 3), ("M".toList, 1024 ^ 2), ("K".toList, 1024)]

def timeUnits : List (Text × ℤ) := [("h".toList, 3600000), ("min".toList, 60000), ("s".toList, 1000)]

def bytesToConf (bytes : ℤ) : Text :=
  if bytes = 0 then ['0']
  else match largestUnit sizeUnits bytes with
    | some (unit, factor) => numberText (bytes / factor) ++ unit
    | none => numberText bytes

def msecToConf (ms : ℤ) : Text :=
  if ms ≤ 0 then numberText ms
  else match largestUnit timeUnits ms with
    | some (unit, factor) => numberText (ms / factor) ++ unit
    | none => numberText ms ++ "ms".toList

/-! ### Reading -/

/-- `[ \t\n\v\f\r]` -/
def isStrtodBlank (c : Char) : Bool := c = ' ' || (9 ≤ c.toNat && c.toNat ≤ 13)

/-- The numeric prefix that `strtod` would consume, and what is left. -/
def parseLeadingNumber (value : Text) : Option (JsNumber × Text) :=
  (readDecimal (value.dropWhile isStrtodBlank)).map fun (number, rest) => (ofRat number, rest)

/-- `ENGINE_SIZE_UNIT_BYTES`.  No letter beyond ASCII has one of these as its capital. -/
def engineSizeUnitBytes (unit : Text) : Option ℚ :=
  [("", 1), ("B", 1), ("K", 1024), ("KB", 1024), ("M", 1024 ^ 2), ("MB", 1024 ^ 2), ("G", 1024 ^ 3), ("GB", 1024 ^ 3),
    ("T", 1024 ^ 4), ("TB", 1024 ^ 4), ("P", 1024 ^ 5), ("PB", 1024 ^ 5)].lookup (String.ofList unit)

/-- `ENGINE_TIME_UNIT_MS` -/
def engineTimeUnitMs (unit : Text) : Option ℚ :=
  [("", 1), ("ms", 1), ("msec", 1), ("s", 1000), ("sec", 1000), ("min", 60000), ("h", 3600000)].lookup
    (String.ofList unit)

/-- `Math.trunc` -/
def trunc : JsNumber → JsNumber
  | finite x _ _ => ofRat (if x < 0 then ⌈x⌉ else ⌊x⌋)
  | n => n

/-- `n < bound` -/
def isBelow (n : JsNumber) (bound : ℤ) : Bool :=
  match n with
  | finite x _ _ => x < bound
  | infinity negative => negative
  | nan => false

/-- `n > bound` -/
def isAbove (n : JsNumber) (bound : ℤ) : Bool :=
  match n with
  | finite x _ _ => bound < x
  | infinity negative => !negative
  | nan => false

def parseEngineSizeToBytes (value : Text) : Option JsNumber :=
  match parseLeadingNumber value.trim with
  | none => none
  | some (number, rest) =>
    if isBelow number 0 then none
    else (engineSizeUnitBytes (rest.map Char.toUpper)).map fun factor => trunc (number.mul (ofRat factor))

/-- A guard of the kind `time`, in milliseconds. -/
structure TimeGuard where
  min : Option ℤ
  max : Option ℤ
  deriving DecidableEq

/-- `validateParamValue` for a guard of the kind `time`: the reason why the value is not valid. -/
def validateTimeValue (guard : TimeGuard) (value : Text) : Option Text :=
  if value = [] then none
  else match parseLeadingNumber value.trim with
    | none => some "Must be a number optionally followed by ms, s, min or h (e.g. 500ms or 30s)".toList
    | some (number, rest) =>
      let ms : Option JsNumber :=
        if isBelow number 0 then some (trunc number)
        else (engineTimeUnitMs (rest.map Char.toLower)).map fun factor => trunc (number.mul (ofRat factor))
      match ms with
      | none => some "Unit must be ms/msec, s/sec, min or h".toList
      | some ms =>
        match guard.min.filter (isBelow ms), guard.max.filter (isAbove ms) with
        | some min, _ => some ("Must be >= ".toList ++ numberText min ++ " ms".toList)
        | none, some max => some ("Must be <= ".toList ++ numberText max ++ " ms".toList)
        | none, none => none

example : validateTimeValue ⟨some 0, some 1000⟩ "1.5S".toList = some "Must be <= 1000 ms".toList := by decide +kernel

/-! ### Numbers -/

section

variable {n : ℤ}

theorem nearest_intCast_of_le (h : |n| ≤ 2 ^ 53) : Double.nearest n = n := by
  rcases h.lt_or_eq with hlt | heq
  · exact Double.nearest_intCast hlt
  · obtain ⟨m, hm, rfl⟩ : ∃ m : ℤ, |m| < 2 ^ 53 ∧ n = m * 2 ^ 53 := by
      rcases (abs_eq (by norm_num)).1 heq with h | h
      · exact ⟨1, by norm_num, by omega⟩
      · exact ⟨-1, by norm_num, by omega⟩
    have hscale := Double.nearest_mul_zpow (m : ℚ) 53
    rw [Double.nearest_intCast hm] at hscale
    exact_mod_cast hscale

theorem small_of_le (h : |n| ≤ 2 ^ 53) : |(n : ℚ)| < overflow := by
  have hcast : |(n : ℚ)| ≤ 2 ^ 53 := by exact_mod_cast h
  exact hcast.trans_lt (pow_lt_overflow (by norm_num))

/-- The integers up to `2 ^ 53` are numbers. -/
theorem ofRat_intCast (h : |n| ≤ 2 ^ 53) : ofRat n = finite n (nearest_intCast_of_le h) (small_of_le h) :=
  ofRat_of_exact _ _

theorem isBelow_ofRat (h : |n| ≤ 2 ^ 53) (bound : ℤ) : isBelow (ofRat n) bound = decide (n < bound) := by
  rw [ofRat_intCast h, isBelow]
  exact decide_eq_decide.2 Int.cast_lt

theorem isAbove_ofRat (h : |n| ≤ 2 ^ 53) (bound : ℤ) : isAbove (ofRat n) bound = decide (bound < n) := by
  rw [ofRat_intCast h, isAbove]
  exact decide_eq_decide.2 Int.cast_lt

theorem trunc_ofRat (h : |n| ≤ 2 ^ 53) : trunc (ofRat n) = ofRat n := by
  rw [ofRat_intCast h, trunc, Int.ceil_intCast, Int.floor_intCast, ite_self, ofRat_intCast h]

/-- A number of units is the number of bytes or milliseconds that it was divided from. -/
theorem mul_ofRat {k : ℤ} {factor : ℤ} (hk : |k| ≤ 2 ^ 53) (hfactor : |factor| ≤ 2 ^ 53)
    (h : k * factor = n) : (ofRat k).mul (ofRat factor) = ofRat n := by
  rw [ofRat_intCast hk, ofRat_intCast hfactor, mul_finite, ← h, Int.cast_mul]

theorem shortest_of_le {n : ℕ} (h : n ≤ 2 ^ 53) : shortest n = n := by
  rcases h.lt_or_eq with hlt | rfl
  · exact shortest_of_lt hlt
  · decide +kernel

theorem wholeText_of_le {n : ℕ} (h : n ≤ 2 ^ 53) : wholeText n = toDigits 10 n :=
  wholeText_eq_iff.2 ⟨shortest_of_le h, lt_of_le_of_lt h (by norm_num)⟩

/-- The digits of the number, and its sign. -/
theorem numberText_eq (h : |n| ≤ 2 ^ 53) :
    numberText n = if n < 0 then '-' :: toDigits 10 n.natAbs else toDigits 10 n.natAbs := by
  have hle : n.natAbs ≤ 2 ^ 53 := by
    rw [Int.abs_eq_natAbs] at h
    exact_mod_cast h
  have hneg : ((n : ℚ) < 0) = (n < 0) := propext Int.cast_lt_zero
  rw [numberText, ofRat_intCast h, text, ← Int.cast_neg, Int.floor_intCast, Int.floor_intCast]
  split_ifs with hlt hlt' hlt'
  · rw [← wholeText_of_le hle]
    congr 2
    omega
  · exact absurd (hneg ▸ hlt) hlt'
  · exact absurd (hneg.symm ▸ hlt') hlt
  · rw [← wholeText_of_le hle]
    congr 1
    omega

/-! ### Reading what was written -/

/-- No number goes on with this text. -/
def EndsNumber (rest : Text) : Prop := ∀ c ∈ rest.head?, c.isDigit = false ∧ c ≠ '.' ∧ c ≠ 'e' ∧ c ≠ 'E'

instance (rest : Text) : Decidable (EndsNumber rest) := Option.decidableForallMem rest.head?

variable {digits rest : Text}

theorem takeWhile_digits (hdigits : ∀ c ∈ digits, c.isDigit = true) (hrest : EndsNumber rest) :
    (digits ++ rest).takeWhile Char.isDigit = digits ∧ (digits ++ rest).dropWhile Char.isDigit = rest := by
  rw [List.takeWhile_append_of_pos hdigits, List.dropWhile_append_of_pos hdigits]
  cases rest with
  | nil => simp
  | cons c rest =>
    have hc := (hrest c rfl).1
    rw [List.takeWhile_cons_of_neg (by simp [hc]), List.dropWhile_cons_of_neg (by simp [hc]), List.append_nil]
    exact ⟨rfl, rfl⟩

theorem readMantissa_digits (hdigits : ∀ c ∈ digits, c.isDigit = true) (hne : digits ≠ []) (hrest : EndsNumber rest) :
    readMantissa (digits ++ rest) = some (digits, [], rest) := by
  obtain ⟨htake, hdrop⟩ := takeWhile_digits hdigits hrest
  have hpoint : rest.head? ≠ some '.' := fun h => (hrest '.' h).2.1 rfl
  rw [readMantissa, htake, hdrop, if_neg hne, if_neg hpoint]

theorem readExponent_of_ends (hrest : EndsNumber rest) : readExponent rest = none := by
  refine if_neg ?_
  rintro (h | h)
  · exact (hrest 'e' h).2.2.1 rfl
  · exact (hrest 'E' h).2.2.2 rfl

/-- What is in front of a digit: neither blanks nor, where there is no sign, a sign. -/
theorem readSign_digits (hdigits : ∀ c ∈ digits, c.isDigit = true) (hne : digits ≠ []) (rest : Text) :
    (digits ++ rest).dropWhile isStrtodBlank = digits ++ rest ∧ readSign (digits ++ rest) = (1, digits ++ rest) := by
  cases digits with
  | nil => exact absurd rfl hne
  | cons c digits =>
    have hc := hdigits c List.mem_cons_self
    have hblank : isStrtodBlank c = false := by
      simp only [Char.isDigit, ge_iff_le, Bool.and_eq_true, decide_eq_true_eq, UInt32.le_iff_toNat_le] at hc
      change 48 ≤ c.toNat ∧ c.toNat ≤ 57 at hc
      rw [isStrtodBlank, Bool.or_eq_false_iff, decide_eq_false_iff_not, Bool.and_eq_false_iff,
        decide_eq_false_iff_not, decide_eq_false_iff_not]
      refine ⟨?_, .inr (by omega)⟩
      rintro rfl
      exact absurd hc (by decide)
    refine ⟨List.dropWhile_cons_of_neg (by simp [hblank]), ?_⟩
    rw [List.cons_append, readSign.eq_def]
    split
    · rename_i heq
      rw [(List.cons.inj heq).1] at hc
      cases hc
    · rename_i heq
      rw [(List.cons.inj heq).1] at hc
      cases hc
    · rfl

theorem parseLeadingNumber_numberText (h : |n| ≤ 2 ^ 53) (hrest : EndsNumber rest) :
    parseLeadingNumber (numberText n ++ rest) = some (ofRat n, rest) := by
  have hdigits : ∀ c ∈ toDigits 10 n.natAbs, c.isDigit = true :=
    fun c hc => Nat.isDigit_of_mem_toDigits (by norm_num) (by norm_num) hc
  have hne : toDigits 10 n.natAbs ≠ [] := Nat.toDigits_ne_nil
  obtain ⟨hblank, hsign⟩ := readSign_digits hdigits hne rest
  have hmantissa := readMantissa_digits hdigits hne hrest
  have hvalue : ∀ sign : ℤ, sign * n.natAbs = n →
      (sign : ℚ) * ofDigitChars 10 (toDigits 10 n.natAbs ++ []) 0 * 10 ^ ((0 : ℤ) - ([] : Text).length) = n := by
    intro sign hn
    rw [List.append_nil, Nat.ofDigitChars_ten_toDigits, List.length_nil, Nat.cast_zero, sub_zero, zpow_zero, mul_one]
    calc (sign : ℚ) * n.natAbs = ((sign * (n.natAbs : ℤ) : ℤ) : ℚ) := by rw [Int.cast_mul, Int.cast_natCast]
      _ = n := by rw [hn]
  rw [numberText_eq h]
  split_ifs with hneg
  · have hdrop : ('-' :: toDigits 10 n.natAbs ++ rest).dropWhile isStrtodBlank = '-' :: (toDigits 10 n.natAbs ++ rest) :=
      List.dropWhile_cons_of_neg (by decide)
    have hread : readDecimal ('-' :: (toDigits 10 n.natAbs ++ rest)) = some ((n : ℚ), rest) := by
      simp only [readDecimal, readSign, hmantissa, readExponent_of_ends hrest, Option.bind_eq_bind, Option.bind_some,
        Option.getD_none]
      rw [hvalue (-1) (by omega)]
    rw [parseLeadingNumber, hdrop, hread, Option.map_some]
  · have hread : readDecimal (toDigits 10 n.natAbs ++ rest) = some ((n : ℚ), rest) := by
      rw [readDecimal, hsign]
      simp only [hmantissa, readExponent_of_ends hrest, Option.bind_eq_bind, Option.bind_some, Option.getD_none]
      rw [hvalue 1 (by omega)]
    rw [parseLeadingNumber, hblank, hread, Option.map_some]

theorem trim_numberText (n : ℤ) {unit : Text} (hunit : ∀ c ∈ unit, Text.isSpace c = false) :
    (numberText n ++ unit).trim = numberText n ++ unit := by
  have hall : ∀ c ∈ numberText n ++ unit, Text.isSpace c = false := by
    intro c hc
    rcases List.mem_append.1 hc with hc | hc
    · exact isSpace_of_isNumeral (isNumeral_of_mem_text hc)
    · exact hunit c hc
  exact Trim.trim_of_bare ⟨fun c hc => hall c (List.mem_of_mem_head? hc), fun c hc => hall c (List.mem_of_mem_getLast? hc)⟩

end

/-! ### The round trip -/

section

variable {n : ℤ} {units : List (Text × ℤ)} {unit : Text} {factor : ℤ}

theorem largestUnit_eq_some (h : largestUnit units n = some (unit, factor)) :
    (unit, factor) ∈ units ∧ n / factor * factor = n := by
  have hdvd : decide (n % factor = 0) = true := List.find?_some (p := fun unit : Text × ℤ => decide (n % unit.2 = 0)) h
  exact ⟨List.mem_of_find?_eq_some h, Int.ediv_mul_cancel (Int.dvd_of_emod_eq_zero (of_decide_eq_true hdvd))⟩

theorem abs_le_of_mul {k : ℤ} (h : |n| ≤ 2 ^ 53) (hfactor : 0 < factor) (hk : k * factor = n) : |k| ≤ 2 ^ 53 := by
  refine le_trans ?_ h
  rw [← hk, abs_mul]
  exact le_mul_of_one_le_right (abs_nonneg k) (by rw [abs_of_pos hfactor]; omega)

/-- A number of units is read as that many bytes. -/
theorem parseEngineSizeToBytes_text {k : ℤ} (hk : 0 ≤ k) (hk' : |k| ≤ 2 ^ 53) (hn : |n| ≤ 2 ^ 53)
    (hends : EndsNumber unit) (hspace : ∀ c ∈ unit, Text.isSpace c = false) (hfactor : |factor| ≤ 2 ^ 53)
    (hunit : engineSizeUnitBytes (unit.map Char.toUpper) = some (factor : ℚ)) (h : k * factor = n) :
    parseEngineSizeToBytes (numberText k ++ unit) = some (ofRat n) := by
  have hnonneg : isBelow (ofRat k) 0 = false := by
    rw [isBelow_ofRat hk', decide_eq_false (by omega)]
  rw [parseEngineSizeToBytes, trim_numberText k hspace, parseLeadingNumber_numberText hk' hends]
  simp only [hnonneg, hunit, Bool.false_eq_true, if_false, Option.map_some]
  rw [mul_ofRat hk' hfactor h, trunc_ofRat hn]

/-- How a text of units is read by the check of a time guard. -/
theorem validateTimeValue_text {k : ℤ} (guard : TimeGuard) (hk' : |k| ≤ 2 ^ 53) (hends : EndsNumber unit)
    (hspace : ∀ c ∈ unit, Text.isSpace c = false) {ms : ℤ} (hms : |ms| ≤ 2 ^ 53)
    (h : k < 0 ∧ k = ms ∨ 0 ≤ k ∧ |factor| ≤ 2 ^ 53 ∧ engineTimeUnitMs (unit.map Char.toLower) = some (factor : ℚ) ∧
      k * factor = ms) :
    validateTimeValue guard (numberText k ++ unit) = none ↔ (∀ m ∈ guard.min, m ≤ ms) ∧ ∀ m ∈ guard.max, ms ≤ m := by
  have hne : numberText k ++ unit ≠ [] := by
    rw [numberText_eq hk']
    split_ifs <;> simp [Nat.toDigits_ne_nil]
  have hread : (if isBelow (ofRat k) 0 then some (trunc (ofRat k))
      else (engineTimeUnitMs (unit.map Char.toLower)).map fun factor => trunc ((ofRat k).mul (ofRat factor))) =
      some (ofRat ms) := by
    rw [isBelow_ofRat hk']
    rcases h with ⟨hneg, rfl⟩ | ⟨hnonneg, hfactor, hunit, hmul⟩
    · rw [decide_eq_true hneg, if_pos rfl, trunc_ofRat hk']
    · rw [decide_eq_false (by omega), if_neg (by decide), hunit, Option.map_some, mul_ofRat hk' hfactor hmul,
        trunc_ofRat hms]
  rw [validateTimeValue, if_neg hne, trim_numberText k hspace, parseLeadingNumber_numberText hk' hends]
  simp only [hread, funext (isBelow_ofRat hms), funext (isAbove_ofRat hms)]
  cases hmin : guard.min with
  | none =>
    cases hmax : guard.max with
    | none => simp
    | some b =>
      by_cases hb : b < ms
      · simp [Option.filter, hb]
      · simp [Option.filter, hb]
        omega
  | some a =>
    by_cases ha : ms < a
    · simp [Option.filter, ha]
    · have ha' : a ≤ ms := by omega
      cases hmax : guard.max with
      | none => simp [Option.filter, ha, ha']
      | some b =>
        by_cases hb : b < ms
        · simp [Option.filter, ha, hb]
        · simp [Option.filter, ha, ha', hb]
          omega

/-! A default is read as it was written, and no other one is. -/

theorem parseEngineSizeToBytes_bytesToConf (hn : 0 ≤ n) (h : |n| ≤ 2 ^ 53) :
    parseEngineSizeToBytes (bytesToConf n) = some (ofRat n) := by
  have hplain : parseEngineSizeToBytes (numberText n) = some (ofRat n) := by
    have htext : parseEngineSizeToBytes (numberText n ++ []) = some (ofRat n) :=
      parseEngineSizeToBytes_text hn h h (by decide) (by simp) (by norm_num) (by decide) (mul_one n)
    rwa [List.append_nil] at htext
  unfold bytesToConf
  split_ifs with hzero
  · subst hzero
    have htext : numberText 0 = ['0'] := by rw [numberText_eq (by norm_num)]; decide
    rw [← htext]
    exact hplain
  · split
    · rename_i unit factor hunit
      obtain ⟨hmem, hmul⟩ := largestUnit_eq_some hunit
      -- the letter is a unit of the reader, with the same factor
      have hreader : ∀ u ∈ sizeUnits, 0 < u.2 ∧ |u.2| ≤ 2 ^ 53 ∧ EndsNumber u.1 ∧
          (u.1.all fun c => !Text.isSpace c) = true ∧ engineSizeUnitBytes (u.1.map Char.toUpper) = some (u.2 : ℚ) := by
        decide
      obtain ⟨hpos, hfactor, hends, hspace, hbytes⟩ := hreader _ hmem
      exact parseEngineSizeToBytes_text (Int.ediv_nonneg hn hpos.le) (abs_le_of_mul h hpos hmul) h hends
        (fun c hc => by simpa using List.all_eq_true.1 hspace c hc) hfactor hbytes hmul
    · exact hplain

theorem validateTimeValue_msecToConf (guard : TimeGuard) (h : |n| ≤ 2 ^ 53) :
    validateTimeValue guard (msecToConf n) = none ↔ (∀ m ∈ guard.min, m ≤ n) ∧ ∀ m ∈ guard.max, n ≤ m := by
  unfold msecToConf
  split_ifs with hle
  · have hcases : n < 0 ∧ n = n ∨ 0 ≤ n ∧ |(1 : ℤ)| ≤ 2 ^ 53 ∧
        engineTimeUnitMs (([] : Text).map Char.toLower) = some ((1 : ℤ) : ℚ) ∧ n * 1 = n := by
      rcases hle.lt_or_eq with hlt | rfl
      · exact .inl ⟨hlt, rfl⟩
      · exact .inr ⟨le_rfl, by norm_num, by decide, rfl⟩
    have htext := validateTimeValue_text guard h (by decide) (by simp) h hcases
    rwa [List.append_nil] at htext
  · split
    · rename_i unit factor hunit
      obtain ⟨hmem, hmul⟩ := largestUnit_eq_some hunit
      have hreader : ∀ u ∈ timeUnits, 0 < u.2 ∧ |u.2| ≤ 2 ^ 53 ∧ EndsNumber u.1 ∧
          (u.1.all fun c => !Text.isSpace c) = true ∧ engineTimeUnitMs (u.1.map Char.toLower) = some (u.2 : ℚ) := by
        decide
      obtain ⟨hpos, hfactor, hends, hspace, hms⟩ := hreader _ hmem
      exact validateTimeValue_text guard (abs_le_of_mul h hpos hmul) hends
        (fun c hc => by simpa using List.all_eq_true.1 hspace c hc) h
        (.inr ⟨Int.ediv_nonneg (by omega) hpos.le, hfactor, hms, hmul⟩)
    · exact validateTimeValue_text guard h (by decide) (by simp; decide) h
        (.inr ⟨by omega, by norm_num, by decide, mul_one n⟩)

theorem conf_value_round_trip :
    (∀ n : ℤ, 0 ≤ n → n ≤ 2 ^ 53 → parseEngineSizeToBytes (bytesToConf n) = some (ofRat n)) ∧
      ∀ n : ℤ, |n| ≤ 2 ^ 53 → validateTimeValue ⟨some n, some n⟩ (msecToConf n) = none ∧
        ∀ m : ℤ, m ≠ n → validateTimeValue ⟨some m, some m⟩ (msecToConf n) ≠ none := by
  refine ⟨fun n hn h => parseEngineSizeToBytes_bytesToConf hn (by rw [abs_of_nonneg hn]; exact h), fun n h => ⟨?_, ?_⟩⟩
  · rw [validateTimeValue_msecToConf _ h]
    simp
  · intro m hm
    rw [Ne, validateTimeValue_msecToConf _ h]
    simp only [Option.mem_some_iff, forall_eq']
    omega

theorem conf_value_round_trip_border : parseEngineSizeToBytes (bytesToConf (2 ^ 53)) = some (ofRat ((2 ^ 53 : ℤ) : ℚ)) ∧
    validateTimeValue ⟨some (-1), some (-1)⟩ (msecToConf (-1)) = none :=
  ⟨conf_value_round_trip.1 (2 ^ 53) (by norm_num) le_rfl, (conf_value_round_trip.2 (-1) (by norm_num)).1⟩

end

end CubridWebManager.ParamCatalog
