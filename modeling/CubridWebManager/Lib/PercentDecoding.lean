import CubridWebManager.Lib.JsText

/-!
# `decodeURIComponent`

An escape is a percent sign and two hexadecimal digits, and stands for a byte; the bytes of a character in UTF-8 stand
next to each other.  The function throws where an escape is not complete or the bytes are not UTF-8.  Decoding makes a
text with an escape shorter (`length_decode_lt`), and leaves one without escapes as it is (`decode_of_not_mem`).
-/

namespace PercentDecoding

/-- A character that stands for itself, or the byte of an escape. -/
inductive Piece
  | char (c : Char)
  | byte (b : Nat)
  deriving DecidableEq

def hexDigit (c : Char) : Option Nat :=
  if c.isDigit then some (c.toNat - '0'.toNat)
  else if 'a' ≤ c ∧ c ≤ 'f' then some (c.toNat - 'a'.toNat + 10)
  else if 'A' ≤ c ∧ c ≤ 'F' then some (c.toNat - 'A'.toNat + 10)
  else none

/-- The text in pieces, or `none` if an escape is not complete. -/
def pieces : Text → Option (List Piece)
  | [] => some []
  | '%' :: h :: l :: t => do
    let high ← hexDigit h
    let low ← hexDigit l
    let rest ← pieces t
    some (.byte (16 * high + low) :: rest)
  | '%' :: _ => none
  | c :: t => (pieces t).map (.char c :: ·)

/-- The character with the code point, unless it has a shorter encoding than in `length` bytes or there is none. -/
def scalar (length n : Nat) : Option Char :=
  if (length = 2 ∧ 0x80 ≤ n) ∨ (length = 3 ∧ 0x800 ≤ n ∧ ¬ (0xD800 ≤ n ∧ n < 0xE000)) ∨
    (length = 4 ∧ 0x10000 ≤ n ∧ n < 0x110000) then some (Char.ofNat n) else none

/-- A byte `10xxxxxx` adds six bits. -/
def addBits (n : Nat) (b : Nat) : Option Nat := if 0x80 ≤ b ∧ b < 0xC0 then some (64 * n + b % 64) else none

/-- The bytes are read as UTF-8. -/
def join : List Piece → Option Text
  | [] => some []
  | .char c :: t => (join t).map (c :: ·)
  | .byte b :: t =>
    if b < 0x80 then (join t).map (Char.ofNat b :: ·)
    else if 0xC0 ≤ b ∧ b < 0xE0 then
      match t with
      | .byte b₁ :: t => do
        let c ← addBits (b % 32) b₁ >>= scalar 2
        (join t).map (c :: ·)
      | _ => none
    else if 0xE0 ≤ b ∧ b < 0xF0 then
      match t with
      | .byte b₁ :: .byte b₂ :: t => do
        let c ← addBits (b % 16) b₁ >>= fun n => addBits n b₂ >>= scalar 3
        (join t).map (c :: ·)
      | _ => none
    else if 0xF0 ≤ b ∧ b < 0xF8 then
      match t with
      | .byte b₁ :: .byte b₂ :: .byte b₃ :: t => do
        let c ← addBits (b % 8) b₁ >>= fun n => addBits n b₂ >>= fun n => addBits n b₃ >>= scalar 4
        (join t).map (c :: ·)
      | _ => none
    else none

def decodeURIComponent (t : Text) : Option Text := (pieces t).bind join

theorem length_of_map {c : Char} {ps : List Piece} {t : Text} (ih : ∀ {t : Text}, join ps = some t → t.length ≤ ps.length)
    (h : (join ps).map (c :: ·) = some t) : t.length ≤ ps.length + 1 := by
  obtain ⟨rest, hrest, rfl⟩ := Option.map_eq_some_iff.1 h
  exact Nat.succ_le_succ (ih hrest)

theorem length_join {ps : List Piece} {t : Text} (h : join ps = some t) : t.length ≤ ps.length := by
  fun_induction join ps generalizing t
  case case1 =>
    cases h
    exact Nat.le_refl 0
  case case2 ih => exact length_of_map ih h
  case case3 ih => exact length_of_map ih h
  case case4 ih =>
    obtain ⟨c, -, h⟩ := Option.bind_eq_some_iff.1 h
    have hle := length_of_map ih h
    simp only [List.length_cons]
    omega
  case case6 ih =>
    obtain ⟨c, -, h⟩ := Option.bind_eq_some_iff.1 h
    have hle := length_of_map ih h
    simp only [List.length_cons]
    omega
  case case8 ih =>
    obtain ⟨c, -, h⟩ := Option.bind_eq_some_iff.1 h
    have hle := length_of_map ih h
    simp only [List.length_cons]
    omega
  all_goals cases h

/-- An escape of three characters becomes one byte. -/
theorem length_pieces {t : Text} {ps : List Piece} (h : pieces t = some ps) :
    ps.length ≤ t.length ∧ ('%' ∈ t → ps.length < t.length) := by
  fun_induction pieces t generalizing ps
  case case1 =>
    cases h
    exact ⟨Nat.le_refl 0, nofun⟩
  case case2 ih =>
    simp only [bind, Option.bind_eq_some_iff, Option.some.injEq] at h
    obtain ⟨high, -, low, -, rest, hrest, rfl⟩ := h
    have hle := (ih hrest).1
    simp only [List.length_cons]
    exact ⟨by omega, fun _ => by omega⟩
  case case3 => cases h
  case case4 c t hc hc' ih =>
    obtain ⟨rest, hrest, rfl⟩ := Option.map_eq_some_iff.1 h
    obtain ⟨hle, hlt⟩ := ih hrest
    refine ⟨Nat.succ_le_succ hle, fun hmem => Nat.succ_lt_succ (hlt ?_)⟩
    exact (List.mem_cons.1 hmem).resolve_left fun heq => hc' heq.symm

theorem pieces_of_not_mem {t : Text} (h : '%' ∉ t) : pieces t = some (t.map .char) := by
  induction t with
  | nil => rfl
  | cons c t ih =>
    rw [List.mem_cons, not_or] at h
    rw [pieces, ih h.2]
    · rfl
    · rintro - - - rfl
      exact absurd rfl h.1
    · rintro rfl
      exact absurd rfl h.1

theorem join_map_char (t : Text) : join (t.map .char) = some t := by
  induction t with
  | nil => rfl
  | cons c t ih =>
    have hcons : join ((c :: t).map .char) = (join (t.map .char)).map (c :: ·) := rfl
    rw [hcons, ih, Option.map_some]

/-- A text without escapes stays as it is. -/
theorem decode_of_not_mem {t : Text} (h : '%' ∉ t) : decodeURIComponent t = some t := by
  rw [decodeURIComponent, pieces_of_not_mem h, Option.bind_some, join_map_char]

/-- A text with an escape becomes shorter. -/
theorem length_decode_lt {t s : Text} (h : decodeURIComponent t = some s) (hmem : '%' ∈ t) : s.length < t.length := by
  obtain ⟨ps, hps, hs⟩ := Option.bind_eq_some_iff.1 h
  exact Nat.lt_of_le_of_lt (length_join hs) ((length_pieces hps).2 hmem)

end PercentDecoding
