import CubridWebManager.Exvol.VolumeText

/-!
# Volumes that come back

A volume comes back from its text if and only if no semicolon and no blank field is in it, its size is at least a page,
and JavaScript's rounding and number text keep the number of pages (`volume_round_trips`).
-/

namespace CubridWebManager.Exvol

open Double JsNumber

/-- The number of pages, without rounding. -/
def exactPages (v : ExvolInfo) : Option ℚ :=
  match v.size, v.pagesize with
  | .finite x _ _, .finite p _ _ => some (x * 2 ^ 20 / p)
  | _, _ => none

/-- What the encoder writes is read back. -/
def RoundTrips (v : ExvolInfo) : Prop :=
  ∃ text parsed, convertExvolInfoToCmsFormat v = .ok text ∧ parseExvolString text = .ok parsed ∧
    parsed.type = Trim.trim Text.isSpace v.type ∧ parsed.path = Trim.trim Text.isSpace v.volpath ∧
    ∃ q ∈ exactPages v, ∃ n : ℕ, 0 < n ∧ ⌊q⌋ = n ∧ parsed.size = Nat.toDigits 10 n

/-- A number of pages keeps its whole part when it is rounded to a double and written down. -/
def KeepsWhole (q : ℚ) : Prop :=
  if q < 2 ^ 53 then ⌊nearest q⌋ = ⌊q⌋ else (shortest ⌊nearest q⌋.toNat : ℤ) = ⌊q⌋ ∧ q < 10 ^ 21

/-- The size in bytes is a number. -/
def BytesInRange (v : ExvolInfo) : Prop :=
  match v.size with
  | .finite x _ _ => x * 2 ^ 20 < overflow
  | _ => False

structure Encodable (v : ExvolInfo) : Prop where
  type : ';' ∉ v.type ∧ Trim.trim Text.isSpace v.type ≠ []
  volpath : ';' ∉ v.volpath ∧ Trim.trim Text.isSpace v.volpath ≠ []
  bytes : BytesInRange v
  pages : ∃ q ∈ exactPages v, 1 ≤ q ∧ KeepsWhole q

/-! ### The number of pages -/

section numbers

variable {x p q : ℚ} {n : ℕ}

theorem exact_mul_kilo (hx : nearest x = x) : nearest (x * 1024) = x * 1024 := by
  have hscale := nearest_mul_zpow x 10
  rw [hx] at hscale
  norm_num at hscale
  exact hscale

theorem kilo_eq : ∃ h hs, kilo = finite 1024 h hs := by
  have hsmall : |(1024 : ℚ)| < overflow := by
    rw [abs_of_pos (by norm_num)]
    exact lt_of_eq_of_lt (by norm_num) (pow_lt_overflow (k := 10) (by norm_num))
  have hexact : nearest (1024 : ℚ) = 1024 := by decide +kernel
  exact ⟨hexact, hsmall, ofRat_of_exact hexact hsmall⟩

theorem mul_kilo_of_lt (h : nearest x = x) (hs : |x| < overflow) (hx : 0 < x) (hlt : x * 1024 < overflow) :
    ∃ h' hs', (finite x h hs).mul kilo = finite (x * 1024) h' hs' := by
  obtain ⟨_, _, hkilo⟩ := kilo_eq
  have habs : |x * 1024| < overflow := by rwa [abs_of_pos (by linarith)]
  rw [hkilo, mul_finite, ofRat_of_exact (exact_mul_kilo h) habs]
  exact ⟨_, _, rfl⟩

theorem mul_kilo_of_le (h : nearest x = x) (hs : |x| < overflow) (hx : 0 < x) (hle : overflow ≤ x * 1024) :
    (finite x h hs).mul kilo = infinity false := by
  obtain ⟨_, _, hkilo⟩ := kilo_eq
  have hpos : 0 < x * 1024 := by linarith
  rw [hkilo, mul_finite, ofRat_of_le hpos]
  rwa [exact_mul_kilo h]

theorem infinity_mul_kilo : (infinity false).mul kilo = infinity false := by
  obtain ⟨_, _, hkilo⟩ := kilo_eq
  rw [hkilo, JsNumber.mul, if_neg (by norm_num)]
  rfl

/-- The size in bytes, unless it overflows. -/
theorem mul_mul_kilo (h : nearest x = x) (hs : |x| < overflow) (hx : 0 < x) :
    (x * 2 ^ 20 < overflow ∧ ∃ h' hs', ((finite x h hs).mul kilo).mul kilo = finite (x * 2 ^ 20) h' hs') ∨
      (¬x * 2 ^ 20 < overflow ∧ ((finite x h hs).mul kilo).mul kilo = infinity false) := by
  have hmega : x * 2 ^ 20 = x * 1024 * 1024 := by ring
  rw [hmega]
  by_cases hlt : x * 1024 * 1024 < overflow
  · obtain ⟨h', hs', heq⟩ := mul_kilo_of_lt h hs hx (by linarith)
    obtain ⟨h'', hs'', heq'⟩ := mul_kilo_of_lt h' hs' (by linarith) hlt
    exact .inl ⟨hlt, h'', hs'', by rw [heq, heq']⟩
  · refine .inr ⟨hlt, ?_⟩
    by_cases hfirst : x * 1024 < overflow
    · obtain ⟨h', hs', heq⟩ := mul_kilo_of_lt h hs hx hfirst
      rw [heq, mul_kilo_of_le h' hs' (by linarith) (not_lt.1 hlt)]
    · rw [mul_kilo_of_le h hs hx (not_lt.1 hfirst), infinity_mul_kilo]

theorem floor_ofRat (hq : 0 ≤ q) :
    (|nearest q| < overflow ∧ ∃ h hs, (ofRat q).floor = finite ⌊nearest q⌋ h hs) ∨
      (¬|nearest q| < overflow ∧ (ofRat q).floor = infinity false) := by
  have hpos : 0 ≤ nearest q := by linarith [half_le_nearest hq]
  by_cases hlt : |nearest q| < overflow
  · refine .inl ⟨hlt, ?_⟩
    have hfloor : |((⌊nearest q⌋ : ℤ) : ℚ)| < overflow := by
      rw [abs_of_nonneg (by exact_mod_cast Int.floor_nonneg.2 hpos)]
      rw [abs_of_nonneg hpos] at hlt
      exact lt_of_le_of_lt (Int.floor_le _) hlt
    rw [ofRat_of_lt hlt, floor_finite, ofRat_of_exact (nearest_floor hpos (nearest_nearest q)) hfloor]
    exact ⟨_, _, rfl⟩
  · refine .inr ⟨hlt, ?_⟩
    rw [ofRat, dif_neg hlt, decide_eq_false (not_lt.2 hq)]
    rfl

theorem floor_toNat_cast (hx : 0 ≤ x) : ((⌊x⌋.toNat : ℕ) : ℚ) = ⌊x⌋ := by
  have h : ((⌊x⌋.toNat : ℕ) : ℤ) = ⌊x⌋ := Int.toNat_of_nonneg (Int.floor_nonneg.2 hx)
  exact_mod_cast h

theorem nearest_floor_toNat (hx : 0 ≤ x) (h : nearest x = x) : nearest (⌊x⌋.toNat : ℕ) = (⌊x⌋.toNat : ℕ) := by
  rw [floor_toNat_cast hx, nearest_floor hx h]

theorem text_infinity_ne (n : ℕ) : (infinity false).text ≠ Nat.toDigits 10 n := by
  intro h
  refine absurd ?_ (not_mem_toDigits (c := 'y') rfl n)
  rw [← h]
  decide

theorem text_sizeInPages_iff {v : ExvolInfo} {hx : nearest x = x} {hp : nearest p = p} {hx' : |x| < overflow}
    {hp' : |p| < overflow} (hsize : v.size = finite x hx hx') (hpage : v.pagesize = finite p hp hp') (hx0 : 0 < x)
    (hp0 : 0 < p) : (sizeInPages v).text = Nat.toDigits 10 n ↔
      x * 2 ^ 20 < overflow ∧ shortest ⌊nearest (x * 2 ^ 20 / p)⌋.toNat = n ∧ n < 10 ^ 21 := by
  rw [sizeInPages, hsize, hpage]
  have hq : 0 ≤ x * 2 ^ 20 / p := by positivity
  have hqn : 0 ≤ nearest (x * 2 ^ 20 / p) := by linarith [half_le_nearest hq]
  rcases mul_mul_kilo hx hx' hx0 with ⟨hlt, h', hs', hbytes⟩ | ⟨hnlt, hbytes⟩
  · rw [hbytes, div_finite hp0.ne']
    rcases floor_ofRat hq with ⟨-, hf, hfs, hfloor⟩ | ⟨hinf, hfloor⟩
    · have hneg : ¬((⌊nearest (x * 2 ^ 20 / p)⌋ : ℤ) : ℚ) < 0 := by
        rw [not_lt]
        exact_mod_cast Int.floor_nonneg.2 hqn
      rw [hfloor, text, if_neg hneg, Int.floor_intCast, wholeText_eq_iff]
      exact (and_iff_right hlt).symm
    · rw [hfloor]
      refine iff_of_false (text_infinity_ne n) ?_
      rintro ⟨-, hshort, hn⟩
      -- the number that is written would be read as one that overflows
      have hread := nearest_shortest (nearest_floor_toNat hqn (nearest_nearest _))
      rw [hshort, floor_toNat_cast hqn] at hread
      have hn' : (n : ℚ) < 10 ^ 21 := by exact_mod_cast hn
      have hbig := pow_lt_overflow (k := 100) (by norm_num)
      have hlow := Int.lt_floor_add_one (nearest (x * 2 ^ 20 / p))
      have hup := nearest_le_two_mul (Nat.cast_nonneg (α := ℚ) n)
      rw [abs_of_nonneg hqn, not_lt] at hinf
      have hcontra : overflow - 1 < 2 * (10 : ℚ) ^ 21 := by
        calc overflow - 1 < (⌊nearest (x * 2 ^ 20 / p)⌋ : ℤ) := by linarith only [hinf, hlow]
          _ = nearest n := hread.symm
          _ < 2 * (10 : ℚ) ^ 21 := by linarith only [hup, hn']
      norm_num at hbig hcontra
      linarith only [hbig, hcontra]
  · rw [hbytes]
    refine iff_of_false ?_ fun h => hnlt h.1
    rw [JsNumber.div, decide_eq_false (not_lt.2 hp0.le)]
    exact text_infinity_ne n

/-- Below `2 ^ 53` the text keeps a whole number if and only if rounding does. -/
theorem keepsWhole_iff (hq : 0 ≤ q) :
    KeepsWhole q ↔ (shortest ⌊nearest q⌋.toNat : ℤ) = ⌊q⌋ ∧ q < 10 ^ 21 := by
  have hqn : 0 ≤ nearest q := by linarith [half_le_nearest hq]
  unfold KeepsWhole
  split
  · rename_i hsmall
    have hlt : ⌊q⌋ < 2 ^ 53 := Int.floor_lt.2 (by push_cast; exact hsmall)
    have hnonneg : 0 ≤ ⌊q⌋ := Int.floor_nonneg.2 hq
    constructor
    · intro heq
      refine ⟨?_, hsmall.trans (by norm_num)⟩
      rw [heq, shortest_of_lt (by omega)]
      omega
    · rintro ⟨heq, -⟩
      have hread := nearest_shortest (nearest_floor_toNat hqn (nearest_nearest q))
      have hcast : ((shortest ⌊nearest q⌋.toNat : ℕ) : ℚ) = (⌊q⌋ : ℤ) := by exact_mod_cast heq
      rw [hcast, nearest_intCast (by rw [abs_of_nonneg hnonneg]; exact hlt), floor_toNat_cast hqn] at hread
      exact_mod_cast hread.symm
  · exact Iff.rfl

end numbers

/-! ### The round trip -/

section roundTrip

variable {v : ExvolInfo} {text : Text}

theorem trim_text (n : JsNumber) : Trim.trim Text.isSpace n.text = n.text :=
  Trim.trim_of_bare ⟨fun _ hc => isSpace_of_isNumeral (isNumeral_of_mem_text (List.mem_of_mem_head? hc)),
    fun _ hc => isSpace_of_isNumeral (isNumeral_of_mem_text (List.mem_of_mem_getLast? hc))⟩

theorem separator_not_mem_text (n : JsNumber) : ';' ∉ n.text :=
  fun h => absurd (isNumeral_of_mem_text h) (by decide)

/-- What an accepted volume is like. -/
theorem of_accepted (h : convertExvolInfoToCmsFormat v = .ok text) :
    v.size.leZero = false ∧ v.pagesize.leZero = false ∧
      text = v.type ++ ';' :: ((sizeInPages v).text ++ ';' :: v.volpath) := by
  unfold convertExvolInfoToCmsFormat at h
  by_cases hempty : v.type = [] ∨ v.volpath = []
  · rw [if_pos hempty] at h
    cases h
  · rw [if_neg hempty] at h
    by_cases hsize : v.size.leZero ∨ v.pagesize.leZero
    · rw [if_pos hsize] at h
      cases h
    · rw [if_neg hsize] at h
      rw [not_or, Bool.not_eq_true, Bool.not_eq_true] at hsize
      exact ⟨hsize.1, hsize.2, (Except.ok.inj h).symm⟩

/-- The exact number of pages is there for positive numbers only. -/
theorem exactPages_eq_some_iff {q : ℚ} (hsize : v.size.leZero = false) (hpage : v.pagesize.leZero = false) :
    q ∈ exactPages v ↔ ∃ x p, (∃ h hs, v.size = finite x h hs) ∧ (∃ h hs, v.pagesize = finite p h hs) ∧
      0 < x ∧ 0 < p ∧ q = x * 2 ^ 20 / p := by
  unfold exactPages
  cases hx : v.size with
  | finite x h hs =>
    cases hp : v.pagesize with
    | finite p h' hs' =>
      rw [hx, leZero, decide_eq_false_iff_not, not_le] at hsize
      rw [hp, leZero, decide_eq_false_iff_not, not_le] at hpage
      constructor
      · rintro ⟨⟩
        exact ⟨x, p, ⟨h, hs, rfl⟩, ⟨h', hs', rfl⟩, hsize, hpage, rfl⟩
      · rintro ⟨x', p', ⟨_, _, hx'⟩, ⟨_, _, hp'⟩, -, -, rfl⟩
        obtain ⟨rfl⟩ := JsNumber.finite.inj hx'
        obtain ⟨rfl⟩ := JsNumber.finite.inj hp'
        rfl
    | nan => simp
    | infinity negative => simp
  | nan => simp
  | infinity negative => simp

/-- The text of the number of pages is that of the exact number. -/
theorem text_eq_iff {q : ℚ} {n : ℕ} (hsize : v.size.leZero = false) (hpage : v.pagesize.leZero = false)
    (hq : q ∈ exactPages v) (hn : ⌊q⌋ = n) :
    (sizeInPages v).text = Nat.toDigits 10 n ↔ BytesInRange v ∧ KeepsWhole q := by
  obtain ⟨x, p, ⟨hx, hx', hv⟩, ⟨hp, hp', hv'⟩, hx0, hp0, rfl⟩ := (exactPages_eq_some_iff hsize hpage).1 hq
  have hq0 : 0 ≤ x * 2 ^ 20 / p := by positivity
  have hbytes : BytesInRange v ↔ x * 2 ^ 20 < overflow := by rw [BytesInRange, hv]
  have hfull : n < 10 ^ 21 ↔ x * 2 ^ 20 / p < 10 ^ 21 := by
    have hfloor : ⌊x * 2 ^ 20 / p⌋ < (10 ^ 21 : ℤ) ↔ x * 2 ^ 20 / p < ((10 ^ 21 : ℤ) : ℚ) := Int.floor_lt
    rw [hn, Int.cast_pow, Int.cast_ofNat] at hfloor
    rw [← hfloor]
    exact_mod_cast Iff.rfl
  rw [text_sizeInPages_iff hv hv' hx0 hp0, hbytes, keepsWhole_iff hq0, hn, ← hfull]
  exact and_congr_right fun _ => and_congr_left fun _ => Int.natCast_inj.symm

/-- An accepted volume comes back from its text if and only if it can be encoded. -/
theorem volume_round_trips (h : convertExvolInfoToCmsFormat v = .ok text) : RoundTrips v ↔ Encodable v := by
  obtain ⟨hsize, hpage, htext⟩ := of_accepted h
  have hparse : ∀ p, parseExvolString (v.type ++ ';' :: (_ ++ ';' :: v.volpath)) = .ok p ↔ _ := fun _ =>
    parseExvolString_eq_ok_iff (separator_not_mem_text (sizeInPages v))
  rw [← htext] at hparse
  constructor
  · rintro ⟨text', p, hconvert, hok, -, -, q, hq, n, hpos, hfloor, hdigits⟩
    obtain rfl := Except.ok.inj (h.symm.trans hconvert)
    obtain ⟨⟨htype, hpath⟩, ⟨htype', -, hpath'⟩, rfl⟩ := (hparse p).1 hok
    dsimp only at hdigits
    rw [trim_text] at hdigits
    obtain ⟨hbytes, hkeeps⟩ := (text_eq_iff hsize hpage hq hfloor).1 hdigits
    have hone : 1 ≤ q := by
      have hle := Int.floor_le q
      have hn : (1 : ℚ) ≤ (⌊q⌋ : ℤ) := by exact_mod_cast (by omega : 1 ≤ ⌊q⌋)
      linarith
    exact ⟨⟨htype, htype'⟩, ⟨hpath, hpath'⟩, hbytes, q, hq, hone, hkeeps⟩
  · rintro ⟨⟨htype, htype'⟩, ⟨hpath, hpath'⟩, hbytes, q, hq, hone, hkeeps⟩
    have hnonneg : 1 ≤ ⌊q⌋ := Int.le_floor.2 (by exact_mod_cast hone)
    obtain ⟨n, hn⟩ := Int.eq_ofNat_of_zero_le (by omega : 0 ≤ ⌊q⌋)
    have hdigits := (text_eq_iff hsize hpage hq hn).2 ⟨hbytes, hkeeps⟩
    have hne : Trim.trim Text.isSpace (sizeInPages v).text ≠ [] := by
      rw [trim_text, hdigits]
      exact Nat.toDigits_ne_nil
    refine ⟨text, _, h, (hparse _).2 ⟨⟨htype, hpath⟩, ⟨htype', hne, hpath'⟩, rfl⟩, rfl, rfl, q, hq, n, by omega, hn, ?_⟩
    rw [trim_text, hdigits]

end roundTrip

private def number (x : ℚ) (exact : nearest x = x) (small : |x| < 2 ^ 100) : JsNumber :=
  .finite x exact (small.trans (pow_lt_overflow (by norm_num)))

/-- A volume of 512 MB with pages of 16 KB. -/
private def dataVolume : ExvolInfo where
  type := "data".toList
  size := number 512 (by decide +kernel) (by norm_num [abs_of_pos])
  pagesize := number 16384 (by decide +kernel) (by norm_num [abs_of_pos])
  volpath := "/path/to/dbname".toList

theorem volume_round_trips_data : RoundTrips dataVolume := by
  have haccepted : convertExvolInfoToCmsFormat dataVolume = .ok "data;32768;/path/to/dbname".toList := by
    decide +kernel
  refine (volume_round_trips haccepted).2 ⟨by decide, by decide, ?_, 32768, ?_, by norm_num, ?_⟩
  · have hsmall := pow_lt_overflow (k := 100) (by norm_num)
    show (512 : ℚ) * 2 ^ 20 < overflow
    norm_num at hsmall ⊢
    linarith
  · show (32768 : ℚ) ∈ some (512 * 2 ^ 20 / 16384 : ℚ)
    norm_num
  · rw [KeepsWhole, if_pos (by norm_num)]
    decide +kernel

/-- A volume of 1 MB with pages of 2 MB. -/
private def tinyVolume : ExvolInfo where
  type := "data".toList
  size := number 1 (by decide +kernel) (by norm_num)
  pagesize := number (2 ^ 21) (by decide +kernel) (by norm_num [abs_of_pos])
  volpath := "/path/to/dbname".toList

/-- A volume that is smaller than a page is written with no page at all. -/
theorem volume_lost : convertExvolInfoToCmsFormat tinyVolume = .ok "data;0;/path/to/dbname".toList ∧
    ¬RoundTrips tinyVolume := by
  refine ⟨by decide +kernel, ?_⟩
  rintro ⟨-, -, -, -, -, -, q, hq, n, hn, hfloor, -⟩
  have hhalf : (1 : ℚ) * 2 ^ 20 / 2 ^ 21 = q := Option.some.inj hq
  rw [← hhalf] at hfloor
  norm_num at hfloor
  omega

end CubridWebManager.Exvol
