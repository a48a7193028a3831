import CubridWebManager.Lib.Numeral
import Mathlib.Data.List.TakeWhile

/-!
# `strtol` of C

`strtol` skips white space and converts the longest part behind it that has the form of an integer of the base
(`Subject`).  A number that is too large for a `long` becomes the largest or the least one.
-/

namespace Strtol

open Numeral (readSign)

/-- `isspace` in the C locale. -/
def isSpace (c : Char) : Bool := c = ' ' || c = '\t' || c = '\n' || c = '\x0b' || c = '\x0c' || c = '\r'

/-- What a digit or a letter stands for; 36 is no digit. -/
def digitValue (c : Char) : ℕ :=
  if '0' ≤ c ∧ c ≤ '9' then c.toNat - '0'.toNat
  else if 'a' ≤ c ∧ c ≤ 'z' then c.toNat - 'a'.toNat + 10
  else if 'A' ≤ c ∧ c ≤ 'Z' then c.toNat - 'A'.toNat + 10
  else 36

def isDigit (radix : ℕ) (c : Char) : Bool := digitValue c < radix

/-- Digits of the radix, and at least one. -/
def Digits (radix : ℕ) (digits : Text) : Prop := digits ≠ [] ∧ ∀ c ∈ digits, isDigit radix c = true

def value (radix : ℕ) (digits : Text) : ℕ := digits.foldl (fun n c => radix * n + digitValue c) 0

/-- The text is an integer of the base, without a sign.  Base 0 takes the constants of C: decimal ones, octal ones,
which begin with 0, and hexadecimal ones. -/
inductive Unsigned : ℕ → Text → ℕ → Prop
  | digits {base : ℕ} {ds : Text} (hbase : 2 ≤ base) (hds : Digits base ds) : Unsigned base ds (value base ds)
  | hex {base : ℕ} {ds : Text} {x : Char} (hbase : base = 0 ∨ base = 16) (hx : x = 'x' ∨ x = 'X') (hds : Digits 16 ds) :
      Unsigned base ('0' :: x :: ds) (value 16 ds)
  | octal {ds : Text} (hds : Digits 8 ('0' :: ds)) : Unsigned 0 ('0' :: ds) (value 8 ds)
  | decimal {ds : Text} (hds : Digits 10 ds) (hzero : ds.head? ≠ some '0') : Unsigned 0 ds (value 10 ds)

/-- The text is an integer of the base. -/
inductive Subject (base : ℕ) : Text → ℤ → Prop
  | bare {t : Text} {n : ℕ} (h : Unsigned base t n) : Subject base t n
  | plus {t : Text} {n : ℕ} (h : Unsigned base t n) : Subject base ('+' :: t) n
  | minus {t : Text} {n : ℕ} (h : Unsigned base t n) : Subject base ('-' :: t) (-n)

/-- The nearest number that a `long` of 64 bits can hold. -/
def toLong (n : ℤ) : ℤ := max (-2 ^ 63) (min n (2 ^ 63 - 1))

/-- `strtol(s, &end, base)` converts a part of the text, gives `n` and leaves `rest`. -/
def Reads (base : ℕ) (s : Text) (n : ℤ) (rest : Text) : Prop :=
  ∃ spaces subject v, s = spaces ++ (subject ++ rest) ∧ (∀ c ∈ spaces, isSpace c = true) ∧ Subject base subject v ∧
    (∀ longer v', longer <+: subject ++ rest → Subject base longer v' → longer.length ≤ subject.length) ∧ n = toLong v

/-! ### The whole text -/

variable {base : ℕ} {t : Text} {n : ℕ}

/-- A digit of a radix up to 36 is no white space and no sign. -/
theorem isDigit_spec {radix : ℕ} {c : Char} (hradix : radix ≤ 36) (h : isDigit radix c = true) :
    isSpace c = false ∧ c ≠ '+' ∧ c ≠ '-' := by
  have hne : ∀ d : Char, digitValue d = 36 → c ≠ d := by
    rintro d hd rfl
    rw [isDigit, decide_eq_true_eq] at h
    omega
  refine ⟨?_, hne '+' (by decide), hne '-' (by decide)⟩
  simp only [isSpace, Bool.or_eq_false_iff, decide_eq_false_iff_not]
  exact ⟨⟨⟨⟨⟨hne _ (by decide), hne _ (by decide)⟩, hne _ (by decide)⟩, hne _ (by decide)⟩, hne _ (by decide)⟩,
    hne _ (by decide)⟩

/-- An integer without a sign begins with a digit. -/
theorem Unsigned.head (h : Unsigned base t n) (hbase : base ≤ 36) :
    ∃ c rest, t = c :: rest ∧ isSpace c = false ∧ c ≠ '+' ∧ c ≠ '-' := by
  have hdigits : ∀ {radix : ℕ} {ds : Text}, radix ≤ 36 → Digits radix ds →
      ∃ c rest, ds = c :: rest ∧ isSpace c = false ∧ c ≠ '+' ∧ c ≠ '-' := by
    intro radix ds hradix hds
    obtain ⟨c, rest, rfl⟩ := List.exists_cons_of_ne_nil hds.1
    exact ⟨c, rest, rfl, isDigit_spec hradix (hds.2 c List.mem_cons_self)⟩
  cases h with
  | digits _ hds => exact hdigits hbase hds
  | hex => exact ⟨'0', _, rfl, by decide⟩
  | octal => exact ⟨'0', _, rfl, by decide⟩
  | decimal hds => exact hdigits (by decide) hds

theorem readSign_of_ne {c : Char} (hplus : c ≠ '+') (hminus : c ≠ '-') (rest : Text) :
    readSign (c :: rest) = (1, c :: rest) := by
  unfold readSign
  split
  · rename_i heq
    cases heq
    exact absurd rfl hminus
  · rename_i heq
    cases heq
    exact absurd rfl hplus
  · rfl

theorem subject_iff (hbase : base ≤ 36) {v : ℤ} :
    Subject base t v ↔ ∃ n, Unsigned base (readSign t).2 n ∧ v = (readSign t).1 * n := by
  constructor
  · rintro (h | h | h)
    · obtain ⟨c, rest, rfl, -, hplus, hminus⟩ := h.head hbase
      have hsign := readSign_of_ne hplus hminus rest
      exact ⟨_, by rwa [hsign], by rw [hsign, one_mul]⟩
    · exact ⟨_, h, (one_mul _).symm⟩
    · exact ⟨_, h, (neg_one_mul _).symm⟩
  · rintro ⟨n, h, rfl⟩
    revert h
    unfold readSign
    split
    · intro h
      rw [neg_one_mul]
      exact .minus h
    · intro h
      rw [one_mul]
      exact .plus h
    · intro h
      rw [one_mul]
      exact .bare h

/-- An integer does not begin with white space. -/
theorem Subject.head {v : ℤ} (h : Subject base t v) (hbase : base ≤ 36) :
    ∃ c rest, t = c :: rest ∧ isSpace c = false := by
  cases h with
  | bare h =>
    obtain ⟨c, rest, rfl, hspace, -⟩ := h.head hbase
    exact ⟨c, rest, rfl, hspace⟩
  | plus => exact ⟨'+', _, rfl, by decide⟩
  | minus => exact ⟨'-', _, rfl, by decide⟩

/-- The whole of the text is converted if it is an integer behind the white space. -/
theorem reads_nil_iff (hbase : base ≤ 36) {s : Text} {n : ℤ} :
    Reads base s n [] ↔ ∃ v, Subject base (s.dropWhile isSpace) v ∧ n = toLong v := by
  constructor
  · rintro ⟨spaces, subject, v, rfl, hspaces, hsubject, -, rfl⟩
    obtain ⟨c, rest, rfl, hc⟩ := hsubject.head hbase
    refine ⟨v, ?_, rfl⟩
    rwa [List.append_nil, List.dropWhile_append_of_pos hspaces, List.dropWhile_cons_of_neg (by rw [hc]; decide)]
  · rintro ⟨v, hsubject, rfl⟩
    refine ⟨s.takeWhile isSpace, s.dropWhile isSpace, v, ?_, fun c hc => List.mem_takeWhile_imp hc, hsubject, ?_, rfl⟩
    · rw [List.append_nil, List.takeWhile_append_dropWhile]
    · intro longer v' hbegins _
      rw [List.append_nil] at hbegins
      exact hbegins.length_le

end Strtol
