import CubridWebManager.Lib.Comparator
import CubridWebManager.Lib.Trim
import Mathlib.Data.Char
import Mathlib.Data.Fin.VecNotation
import Mathlib.Data.Sum.Order

/-!
# Versions of releases

`libs/update-check/src/version.ts`: the tag of a release is read as a semantic version, and two versions are compared
by a number.  `precedence` is the key of a version in the order of semantic versioning, and the number tells how the
keys compare (`tells_compareVersions`): exactly for numbers below `2 ^ 53`, and in general with the numbers as doubles.
-/

namespace CubridWebManager.UpdateCheck

open JsNumber Comparator

/-! ### Parsing -/

/-- The groups of a match of `SEMVER_PATTERN`. -/
structure VersionGroups where
  major : Text
  minor : Text
  patch : Text
  prerelease : Option Text

structure ParsedVersion where
  core : Fin 3 → JsNumber
  prerelease : List Text

/-- `0|[1-9]\d*` -/
def isCoreNumber (t : Text) : Bool :=
  t = ['0'] || (t.all Char.isDigit && t.head?.any (· ≠ '0'))

/-- `[0-9A-Za-z-]+` -/
def isIdentifier (t : Text) : Bool := t ≠ [] && t.all fun c => c.isAlphanum || c = '-'

/-- `SEMVER_PATTERN.exec` -/
def execSemver (t : Text) : Option VersionGroups :=
  let core := t.takeWhile (· ≠ '-')
  match core.splitOn '.' with
  | [major, minor, patch] =>
    if isCoreNumber major && isCoreNumber minor && isCoreNumber patch then
      match t.drop core.length with
      | [] => some ⟨major, minor, patch, none⟩
      | _ :: prerelease =>
        if (prerelease.splitOn '.').all isIdentifier then some ⟨major, minor, patch, some prerelease⟩ else none
    else none
  | _ => none

/-- `.replace(/^v/i, '')` -/
def dropV : Text → Text
  | [] => []
  | c :: t => if c = 'v' || c = 'V' then t else c :: t

/-- `Number` of a text of digits. -/
def number (digits : Text) : JsNumber := ofNat (Nat.ofDigitChars 10 digits 0)

def VersionGroups.identifiers (g : VersionGroups) : List Text :=
  match g.prerelease with
  | some (c :: t) => (c :: t).splitOn '.'
  | _ => []

def VersionGroups.parsed (g : VersionGroups) : ParsedVersion where
  core := ![number g.major, number g.minor, number g.patch]
  prerelease := g.identifiers

def versionGroups (raw : Text) : Option VersionGroups := execSemver ((dropV raw.trim).takeWhile (· ≠ '+'))

def parseVersion (raw : Text) : Option ParsedVersion := (versionGroups raw).map VersionGroups.parsed

def isPrereleaseVersion (raw : Text) : Bool := ((parseVersion raw).map fun v => v.prerelease.length).getD 0 > 0

theorem takeWhile_append_plus (t build : Text) :
    (t ++ '+' :: build).takeWhile (· ≠ '+') = t.takeWhile (· ≠ '+') := by
  induction t with
  | nil => rfl
  | cons c t ih => rw [List.cons_append, List.takeWhile_cons, List.takeWhile_cons, ih]

theorem takeWhile_dropV (t build : Text) :
    (dropV (t ++ '+' :: build)).takeWhile (· ≠ '+') = (dropV t).takeWhile (· ≠ '+') := by
  cases t with
  | nil => rfl
  | cons c t =>
    rw [List.cons_append, dropV, dropV]
    split
    · exact takeWhile_append_plus t build
    · exact takeWhile_append_plus (c :: t) build

/-- Build metadata is ignored. -/
theorem versionGroups_build {raw : Text} (h : ∀ c ∈ raw.getLast?, Text.isSpace c = false) (build : Text) :
    versionGroups (raw ++ '+' :: build) = versionGroups raw := by
  have hplus : Text.isSpace '+' = false := rfl
  have hstart : (raw ++ '+' :: build).dropWhile Text.isSpace = raw.dropWhile Text.isSpace ++ '+' :: build := by
    rw [List.dropWhile_append]
    cases hraw : raw.dropWhile Text.isSpace with
    | nil => rfl
    | cons c t => rfl
  have hend : (raw.dropWhile Text.isSpace).rdropWhile Text.isSpace = raw.dropWhile Text.isSpace := by
    refine Trim.rdropWhile_of_last fun c hc => h c ?_
    have hraw : raw.takeWhile Text.isSpace ++ raw.dropWhile Text.isSpace = raw := List.takeWhile_append_dropWhile
    have hne : raw.dropWhile Text.isSpace ≠ [] := fun hnil => by simp [hnil] at hc
    rwa [← hraw, List.getLast?_append_of_ne_nil _ hne]
  have htrim : ∀ t : Text, t.trim = (t.dropWhile Text.isSpace).rdropWhile Text.isSpace := fun _ => rfl
  rw [versionGroups, versionGroups, htrim, htrim, hstart, Trim.rdropWhile_append_cons hplus, hend, takeWhile_dropV]

/-! ### Comparing -/

/-- `/^\d+$/` -/
def isNumeric (t : Text) : Bool := t ≠ [] && t.all Char.isDigit

/-- Identifiers are ASCII, so that the order of the code units is the order of the characters. -/
def compareIdentifiers (a b : Text) : JsNumber :=
  if isNumeric a && isNumeric b then (number a).sub (number b)
  else if isNumeric a ≠ isNumeric b then ofRat (if isNumeric a then -1 else 1)
  else ofRat (if a < b then -1 else if b < a then 1 else 0)

def compareVersions (a b : ParsedVersion) : JsNumber :=
  match (List.finRange 3).find? fun i => !(a.core i).strictEq (b.core i) with
  | some i => (a.core i).sub (b.core i)
  | none =>
    if a.prerelease.length = 0 ∨ b.prerelease.length = 0 then ofRat (b.prerelease.length - a.prerelease.length)
    else compareEntries compareIdentifiers a.prerelease b.prerelease

/-! ### Precedence -/

/-- The value of a text of digits. -/
def digitsValue (t : Text) : ℕ := Nat.ofDigitChars 10 t 0

/-- A version without a prerelease stands above its prereleases. -/
def prereleaseKey {κ : Type*} : List κ → WithTop (List κ)
  | [] => ⊤
  | k :: keys => (k :: keys : List κ)

namespace VersionGroups

/-- The numbers of a version. -/
def numbers (g : VersionGroups) : List ℕ :=
  [digitsValue g.major, digitsValue g.minor, digitsValue g.patch] ++ (g.identifiers.filter isNumeric).map digitsValue

/-- The numbers are below `2 ^ 53`. -/
def Exact (g : VersionGroups) : Prop := ∀ n ∈ g.numbers, n < 2 ^ 53

section key

variable {N : Type*} (read : ℕ → N) (silent : N → Prop)

/-- The identifiers that are numbers stand below the others. -/
def identifierKey (t : Text) : N ⊕ₗ Text :=
  if isNumeric t then Sum.inlₗ (read (digitsValue t)) else Sum.inrₗ t

def isSilent (k : N ⊕ₗ Text) : Prop := Sum.elim silent (fun _ => False) (ofLex k)

open Classical in
/-- The key of a version where numbers are told apart as far as `read` tells them apart, and a silent one hides the
identifiers behind it. -/
noncomputable def key (g : VersionGroups) : N ×ₗ N ×ₗ N ×ₗ WithTop (List (N ⊕ₗ Text)) :=
  toLex (read (digitsValue g.major), toLex (read (digitsValue g.minor), toLex (read (digitsValue g.patch),
    prereleaseKey (through (isSilent silent) (g.identifiers.map (identifierKey read))))))

end key

/-- The place of a version in the order of semantic versioning: by the three numbers, a prerelease below its release,
and prereleases by their identifiers, numbers by value and below texts. -/
def precedence (g : VersionGroups) : ℕ ×ₗ ℕ ×ₗ ℕ ×ₗ WithTop (List (ℕ ⊕ₗ Text)) :=
  toLex (digitsValue g.major, toLex (digitsValue g.minor, toLex (digitsValue g.patch,
    prereleaseKey (g.identifiers.map (identifierKey id)))))

open Classical in
theorem key_id (g : VersionGroups) : g.key id (fun _ => False) = g.precedence := by
  have hsilent : ∀ k : ℕ ⊕ₗ Text, ¬isSilent (fun _ => False) k := fun k hk => by
    rcases k with n | t
    · exact hk
    · exact hk
  rw [key, through_of_forall fun k _ => hsilent k]
  rfl

end VersionGroups

/-- How differences of numbers of `S` tell the values that `read` gives them. -/
structure Reads {N : Type*} [LinearOrder N] (read : ℕ → N) (silent : N → Prop) (S : Set ℕ) : Prop where
  tells : ∀ m ∈ S, ∀ n ∈ S, Tells ((ofNat m).sub (ofNat n)) (read m) (read n) (silent (read m))
  strictEq : ∀ m ∈ S, ∀ n ∈ S, (ofNat m).strictEq (ofNat n) = true ↔ read m = read n
  none : ∀ m ∈ S, ∀ n ∈ S, read m = read n → silent (read m) → ((ofNat m).sub (ofNat n)).sign = none

/-- All numbers, as doubles. -/
theorem reads_value : Reads value (· = ⊤) Set.univ where
  tells m _ n _ := by
    have hsign := sign_sub_ofNat m n
    by_cases h : value m = ⊤ ∧ value n = ⊤
    · rw [if_pos h] at hsign
      rw [h.1, h.2]
      exact ⟨fun hl => absurd hl (lt_irrefl _), fun hl => absurd hl (lt_irrefl _), fun _ => .inr ⟨rfl, hsign⟩⟩
    · rw [if_neg h] at hsign
      exact tells_of_sign hsign
  strictEq m _ n _ := by rw [strictEq_ofNat, decide_eq_true_iff]
  none m _ n _ heq htop := by rw [sign_sub_ofNat, if_pos ⟨htop, heq ▸ htop⟩]

/-- The numbers that are doubles, as they are. -/
theorem reads_id : Reads id (fun _ => False) {n | n < 2 ^ 53} where
  tells m hm n hn := by
    refine tells_of_sign ?_
    rw [sign_sub_ofNat, if_neg (by simp [value_of_lt hm]), cmp_value hm hn]
    rfl
  strictEq m hm n hn := by
    rw [strictEq_ofNat, decide_eq_true_iff, ← cmp_eq_eq_iff, cmp_value hm hn, cmp_eq_eq_iff]
    rfl
  none _ _ _ _ _ h := h.elim

section tells

open VersionGroups

variable {N : Type*} [LinearOrder N] {read : ℕ → N} {silent : N → Prop} {S : Set ℕ} {a b : Text}

theorem tells_compareIdentifiers (hread : Reads read silent S) (ha : isNumeric a → digitsValue a ∈ S)
    (hb : isNumeric b → digitsValue b ∈ S) :
    Tells (compareIdentifiers a b) (identifierKey read a) (identifierKey read b)
      (isSilent silent (identifierKey read a)) := by
  unfold compareIdentifiers identifierKey
  by_cases hna : isNumeric a <;> by_cases hnb : isNumeric b
  · rw [if_pos (by simp [hna, hnb]), if_pos hna, if_pos hnb]
    exact (hread.tells _ (ha hna) _ (hb hnb)).map Sum.Lex.inl_strictMono
  · have hlt : Sum.inlₗ (read (digitsValue a)) < (Sum.inrₗ b : N ⊕ₗ Text) := Sum.Lex.inl_lt_inr _ _
    have hsign : (ofRat (-1)).sign = some .lt := by
      rw [sign_ofRat, (cmp_eq_lt_iff _ _).2 (by norm_num)]
    simp only [hna, hnb, Bool.false_eq_true, Bool.and_false, if_false, if_true, ne_eq, Bool.true_eq_false,
      not_false_eq_true]
    exact ⟨fun _ => hsign, fun hl => absurd hl hlt.not_gt, fun hl => absurd hl hlt.ne⟩
  · have hlt : Sum.inlₗ (read (digitsValue b)) < (Sum.inrₗ a : N ⊕ₗ Text) := Sum.Lex.inl_lt_inr _ _
    have hsign : (ofRat 1).sign = some .gt := by
      rw [sign_ofRat, (cmp_eq_gt_iff _ _).2 (by norm_num)]
    simp only [hna, hnb, Bool.false_eq_true, Bool.false_and, if_false, if_true, ne_eq, Bool.false_eq_true,
      not_false_eq_true]
    exact ⟨fun hl => absurd hl hlt.not_gt, fun _ => hsign, fun hl => absurd hl hlt.ne'⟩
  · simp only [hna, hnb, Bool.false_eq_true, Bool.false_and, if_false, ne_eq, not_true_eq_false]
    refine Tells.map Sum.Lex.inr_strictMono (tells_of_sign ?_)
    rw [sign_ofRat]
    rcases lt_trichotomy a b with h | rfl | h
    · rw [if_pos h, (cmp_eq_lt_iff _ _).2 h, (cmp_eq_lt_iff _ _).2 (by norm_num)]
    · rw [if_neg (lt_irrefl _), if_neg (lt_irrefl _), (cmp_eq_eq_iff _ _).2 rfl, (cmp_eq_eq_iff _ _).2 rfl]
    · rw [if_neg h.not_gt, if_pos h, (cmp_eq_gt_iff _ _).2 h, (cmp_eq_gt_iff _ _).2 (by norm_num)]

omit [LinearOrder N] in
theorem isSilent_identifierKey {t : Text} (h : isSilent silent (identifierKey read t)) :
    isNumeric t ∧ silent (read (digitsValue t)) := by
  unfold identifierKey at h
  by_cases ht : isNumeric t
  · rw [if_pos ht] at h
    exact ⟨ht, h⟩
  · rw [if_neg ht] at h
    exact h.elim

theorem sign_compareIdentifiers_of_isSilent (hread : Reads read silent S) (ha : isNumeric a → digitsValue a ∈ S)
    (hb : isNumeric b → digitsValue b ∈ S) (heq : identifierKey read a = identifierKey read b)
    (h : isSilent silent (identifierKey read a)) : (compareIdentifiers a b).sign = none := by
  obtain ⟨hna, hsilent⟩ := isSilent_identifierKey h
  have hnb : isNumeric b := (isSilent_identifierKey (heq ▸ h)).1
  have hvalue : read (digitsValue a) = read (digitsValue b) := by
    rw [identifierKey, identifierKey, if_pos hna, if_pos hnb] at heq
    exact Sum.inl_injective (toLex.injective heq)
  rw [compareIdentifiers, if_pos (by simp [hna, hnb])]
  exact hread.none _ (ha hna) _ (hb hnb) hvalue hsilent

open Classical in
/-- The last part of the comparison: no prerelease on one side, or the identifiers. -/
theorem tells_prerelease (hread : Reads read silent S) {l l' : List Text}
    (hl : ∀ t ∈ l, isNumeric t → digitsValue t ∈ S) (hl' : ∀ t ∈ l', isNumeric t → digitsValue t ∈ S) :
    Tells
      (if l.length = 0 ∨ l'.length = 0 then ofRat (l'.length - l.length) else compareEntries compareIdentifiers l l')
      (prereleaseKey (through (isSilent silent) (l.map (identifierKey read))))
      (prereleaseKey (through (isSilent silent) (l'.map (identifierKey read))))
      (∃ t ∈ l, isSilent silent (identifierKey read t)) := by
  have hcoe : ∀ t (l : List Text), prereleaseKey (through (isSilent silent) ((t :: l).map (identifierKey read))) =
      (through (isSilent silent) ((t :: l).map (identifierKey read)) : WithTop (List (N ⊕ₗ Text))) := fun t l => by
    rw [List.map_cons, through]
    split <;> rfl
  cases l with
  | nil =>
    cases l' with
    | nil =>
      rw [if_pos (.inl rfl)]
      refine ⟨fun h => absurd h (lt_irrefl _), fun h => absurd h (lt_irrefl _), fun _ => .inl ?_⟩
      rw [sign_ofRat, sub_self, cmp_self_eq_eq]
    | cons t' l' =>
      have hlt : prereleaseKey (through (isSilent silent) ((t' :: l').map (identifierKey read))) < ⊤ := by
        rw [hcoe]
        exact WithTop.coe_lt_top _
      rw [if_pos (.inl rfl)]
      refine ⟨fun h => absurd h hlt.not_gt, fun _ => ?_, fun h => absurd h hlt.ne'⟩
      rw [sign_ofRat, (cmp_eq_gt_iff _ _).2]
      simp only [List.length_nil, Nat.cast_zero, sub_zero, List.length_cons]
      exact_mod_cast l'.length.succ_pos
  | cons t l =>
    cases l' with
    | nil =>
      have hlt : prereleaseKey (through (isSilent silent) ((t :: l).map (identifierKey read))) < ⊤ := by
        rw [hcoe]
        exact WithTop.coe_lt_top _
      rw [if_pos (.inr rfl)]
      refine ⟨fun _ => ?_, fun h => absurd h hlt.not_gt, fun h => absurd h hlt.ne⟩
      rw [sign_ofRat, (cmp_eq_lt_iff _ _).2]
      simp only [List.length_nil, Nat.cast_zero, zero_sub, List.length_cons, neg_lt_zero]
      exact_mod_cast l.length.succ_pos
    | cons t' l' =>
      rw [if_neg (by simp), hcoe, hcoe]
      refine Tells.map WithTop.coe_strictMono (tells_compareEntries ?_ ?_)
      · exact fun x hx y hy => tells_compareIdentifiers hread (hl x hx) (hl' y hy)
      · exact fun x hx y hy => sign_compareIdentifiers_of_isSilent hread (hl x hx) (hl' y hy)

end tells

namespace VersionGroups

variable {N : Type*} [LinearOrder N] {read : ℕ → N} {silent : N → Prop} {S : Set ℕ} {a b : VersionGroups}

/-- The first number that differs is compared, else the prereleases are. -/
theorem compareVersions_parsed (a b : VersionGroups) : compareVersions a.parsed b.parsed =
    if (number a.major).strictEq (number b.major) = true then
      if (number a.minor).strictEq (number b.minor) = true then
        if (number a.patch).strictEq (number b.patch) = true then
          if a.identifiers.length = 0 ∨ b.identifiers.length = 0 then
            ofRat (b.identifiers.length - a.identifiers.length)
          else compareEntries compareIdentifiers a.identifiers b.identifiers
        else (number a.patch).sub (number b.patch)
      else (number a.minor).sub (number b.minor)
    else (number a.major).sub (number b.major) := by
  have hindices : List.finRange 3 = [0, 1, 2] := rfl
  rw [compareVersions, hindices]
  by_cases hmajor : (number a.major).strictEq (number b.major) = true
  · by_cases hminor : (number a.minor).strictEq (number b.minor) = true
    · by_cases hpatch : (number a.patch).strictEq (number b.patch) = true
      · simp [parsed, hmajor, hminor, hpatch]
      · simp [parsed, hmajor, hminor, hpatch]
    · simp [parsed, hmajor, hminor]
  · simp [parsed, hmajor]

/-- The number tells how the keys of the versions compare. -/
theorem tells_compareVersions (hread : Reads read silent S) (ha : ∀ n ∈ a.numbers, n ∈ S)
    (hb : ∀ n ∈ b.numbers, n ∈ S) : Tells (compareVersions a.parsed b.parsed) (a.key read silent) (b.key read silent)
      (∃ t ∈ a.identifiers, isSilent silent (identifierKey read t)) := by
  have hidentifiers : ∀ {g : VersionGroups}, (∀ n ∈ g.numbers, n ∈ S) →
      ∀ t ∈ g.identifiers, isNumeric t → digitsValue t ∈ S := fun hg t ht hnumeric =>
    hg _ (List.mem_append_right _ (List.mem_map.2 ⟨t, List.mem_filter.2 ⟨ht, hnumeric⟩, rfl⟩))
  have hprerelease := tells_prerelease hread (hidentifiers ha) (hidentifiers hb)
  simp only [numbers, List.cons_append, List.nil_append, List.mem_cons, forall_eq_or_imp] at ha hb
  have hcore : ∀ {t t' : Text}, digitsValue t ∈ S → digitsValue t' ∈ S →
      ((number t).strictEq (number t') = true ↔ read (digitsValue t) = read (digitsValue t')) :=
    fun ht ht' => hread.strictEq _ ht _ ht'
  rw [compareVersions_parsed, key, key]
  by_cases hmajor : read (digitsValue a.major) = read (digitsValue b.major)
  · rw [if_pos ((hcore ha.1 hb.1).2 hmajor), hmajor]
    refine Tells.toLex_right ?_ _
    by_cases hminor : read (digitsValue a.minor) = read (digitsValue b.minor)
    · rw [if_pos ((hcore ha.2.1 hb.2.1).2 hminor), hminor]
      refine Tells.toLex_right ?_ _
      by_cases hpatch : read (digitsValue a.patch) = read (digitsValue b.patch)
      · rw [if_pos ((hcore ha.2.2.1 hb.2.2.1).2 hpatch), hpatch]
        exact hprerelease.toLex_right _
      · rw [if_neg (mt (hcore ha.2.2.1 hb.2.2.1).1 hpatch)]
        exact (hread.tells _ ha.2.2.1 _ hb.2.2.1).of_fst_ne hpatch _ _
    · rw [if_neg (mt (hcore ha.2.1 hb.2.1).1 hminor)]
      exact (hread.tells _ ha.2.1 _ hb.2.1).of_fst_ne hminor _ _
  · rw [if_neg (mt (hcore ha.1 hb.1).1 hmajor)]
    exact (hread.tells _ ha.1 _ hb.1).of_fst_ne hmajor _ _

/-- Numbers below `2 ^ 53` are compared exactly. -/
theorem tells_precedence (ha : a.Exact) (hb : b.Exact) :
    Tells (compareVersions a.parsed b.parsed) a.precedence b.precedence False := by
  rw [← key_id, ← key_id]
  refine (tells_compareVersions reads_id ha hb).mono fun ⟨t, _, ht⟩ => ?_
  exact (isSilent_identifierKey ht).2

/-- `compareVersions(a, b) <= 0` -/
def AtMost (a b : ParsedVersion) : Prop :=
  (compareVersions a b).sign = some .lt ∨ (compareVersions a b).sign = some .eq

theorem atMost_iff (ha : a.Exact) (hb : b.Exact) : AtMost a.parsed b.parsed ↔ a.precedence ≤ b.precedence := by
  have htells := tells_precedence ha hb
  unfold AtMost
  rcases lt_trichotomy a.precedence b.precedence with h | h | h
  · exact iff_of_true (.inl (htells.of_lt h)) h.le
  · exact iff_of_true (.inr ((htells.eq_iff not_false).2 h)) h.le
  · simp [htells.of_gt h, h]

/-- Among all versions, whatever their numbers, one exceeds another if its key does. -/
theorem exceeds_iff (a b : VersionGroups) :
    (compareVersions a.parsed b.parsed).sign = some .gt ↔ b.key value (· = ⊤) < a.key value (· = ⊤) :=
  (tells_compareVersions reads_value (fun _ _ => Set.mem_univ _) fun _ _ => Set.mem_univ _).exceeds_iff

end VersionGroups

end CubridWebManager.UpdateCheck
