import CubridWebManager.Lib.JsNumber
import Mathlib.Data.List.Lex
import Mathlib.Data.Prod.Lex
import Mathlib.Order.WithBot

/-!
# Comparators that return a number

A comparator of JavaScript tells by the sign of a number which of two values comes first, and says nothing with NaN.
The difference of two natural numbers, each read as a double, has the sign of their order as doubles, except that two
numbers beyond the doubles give NaN (`sign_sub_ofNat`).  Two lists are compared entry by entry and then by length; their
order is the lexicographic order of keys (`sign_compareEntries`) as long as each entry is compared by its key, where the
keys from the first one on that may answer NaN are left out of account.
-/

namespace JsNumber

open Double

def sub : JsNumber → JsNumber → JsNumber
  | finite x _ _, finite y _ _ => ofRat (x - y)
  | infinity a, finite _ _ _ => infinity a
  | finite _ _ _, infinity b => infinity !b
  | infinity a, infinity b => if a = b then nan else infinity a
  | _, _ => nan

/-- `m === n` -/
def strictEq : JsNumber → JsNumber → Bool
  | finite x _ _, finite y _ _ => x = y
  | infinity a, infinity b => a = b
  | _, _ => false

/-- How a number compares with zero. -/
def sign : JsNumber → Option Ordering
  | nan => none
  | infinity negative => some (if negative then .lt else .gt)
  | finite x _ _ => some (cmp x 0)

/-- The number that a numeral of JavaScript stands for. -/
def ofNat (n : ℕ) : JsNumber := ofRat n

/-- A natural number among the doubles. -/
def value (n : ℕ) : WithTop ℚ := if |nearest n| < overflow then (nearest n : ℚ) else ⊤

theorem cmp_nearest (x : ℚ) : cmp (nearest x) 0 = cmp x 0 := by
  have herror := abs_le.1 (abs_nearest_sub_le x)
  rcases lt_trichotomy x 0 with hx | rfl | hx
  · have hsmall : -x / 2 ^ 53 ≤ -x / 2 := by
      gcongr
      · linarith
      · norm_num
    rw [abs_of_neg hx] at herror
    rw [(cmp_eq_lt_iff _ _).2 hx, cmp_eq_lt_iff _ _]
    linarith [herror.2]
  · have hzero : nearest 0 = 0 := by simp [nearest, roundHalfEven]
    rw [hzero]
  · rw [(cmp_eq_gt_iff _ _).2 hx, cmp_eq_gt_iff _ _]
    linarith [half_le_nearest hx.le]

/-- Rounding keeps the sign. -/
theorem sign_ofRat (x : ℚ) : (ofRat x).sign = some (cmp x 0) := by
  unfold ofRat
  by_cases h : |nearest x| < overflow
  · rw [dif_pos h, sign, cmp_nearest]
  · rw [dif_neg h]
    rcases lt_trichotomy x 0 with hx | rfl | hx
    · rw [decide_eq_true hx, sign, (cmp_eq_lt_iff _ _).2 hx, if_pos rfl]
    · refine absurd ?_ h
      have hpos : (0 : ℚ) < overflow := (by norm_num : (0 : ℚ) < 2 ^ 0).trans (pow_lt_overflow (by norm_num))
      simpa [nearest, roundHalfEven] using hpos
    · rw [decide_eq_false hx.not_gt, sign, (cmp_eq_gt_iff _ _).2 hx, if_neg Bool.false_ne_true]

theorem ofNat_eq (n : ℕ) :
    (∃ h h', ofNat n = finite (nearest n) h h' ∧ value n = (nearest n : ℚ)) ∨
      ofNat n = infinity false ∧ value n = ⊤ := by
  by_cases h : |nearest (n : ℚ)| < overflow
  · exact .inl ⟨nearest_nearest _, h, ofRat_of_lt h, if_pos h⟩
  · refine .inr ⟨?_, if_neg h⟩
    rw [ofNat, ofRat, dif_neg h, decide_eq_false (not_lt.2 n.cast_nonneg)]

theorem strictEq_ofNat (m n : ℕ) : (ofNat m).strictEq (ofNat n) = decide (value m = value n) := by
  rcases ofNat_eq m with ⟨_, _, hm, hm'⟩ | ⟨hm, hm'⟩ <;> rcases ofNat_eq n with ⟨_, _, hn, hn'⟩ | ⟨hn, hn'⟩ <;>
    simp [hm, hn, hm', hn', strictEq]

theorem sign_sub_ofNat (m n : ℕ) :
    ((ofNat m).sub (ofNat n)).sign =
      if value m = ⊤ ∧ value n = ⊤ then none else some (cmp (value m) (value n)) := by
  rcases ofNat_eq m with ⟨_, _, hm, hm'⟩ | ⟨hm, hm'⟩ <;> rcases ofNat_eq n with ⟨_, _, hn, hn'⟩ | ⟨hn, hn'⟩ <;>
    rw [hm, hn, hm', hn']
  · rw [if_neg (by simp)]
    have hcmp : cmp ((nearest m : ℚ) : WithTop ℚ) (nearest n : ℚ) = cmp (nearest (m : ℚ) - nearest n) 0 := by
      rcases lt_trichotomy (nearest (m : ℚ)) (nearest n) with h | h | h
      · rw [(cmp_eq_lt_iff _ _).2 (sub_neg.2 h), (cmp_eq_lt_iff _ _).2 (WithTop.coe_lt_coe.2 h)]
      · rw [h, cmp_self_eq_eq, sub_self, cmp_self_eq_eq]
      · rw [(cmp_eq_gt_iff _ _).2 (sub_pos.2 h), (cmp_eq_gt_iff _ _).2 (WithTop.coe_lt_coe.2 h)]
    rw [hcmp]
    exact sign_ofRat _
  · rw [if_neg (by simp), (cmp_eq_lt_iff _ _).2 (WithTop.coe_lt_top _)]
    rfl
  · rw [if_neg (by simp), (cmp_eq_gt_iff _ _).2 (WithTop.coe_lt_top _)]
    rfl
  · rw [if_pos ⟨rfl, rfl⟩]
    rfl

theorem value_of_lt {n : ℕ} (h : n < 2 ^ 53) : value n = ((n : ℚ) : WithTop ℚ) := by
  have hexact : nearest (n : ℚ) = n := by
    have hint := nearest_intCast (n := n) (by rw [Nat.abs_cast]; exact_mod_cast h)
    exact_mod_cast hint
  have hsmall : (n : ℚ) < 2 ^ 53 := by exact_mod_cast h
  rw [value, hexact, Nat.abs_cast, if_pos (hsmall.trans (pow_lt_overflow (by norm_num)))]

theorem cmp_value {m n : ℕ} (hm : m < 2 ^ 53) (hn : n < 2 ^ 53) : cmp (value m) (value n) = cmp m n := by
  rw [value_of_lt hm, value_of_lt hn]
  rcases lt_trichotomy m n with h | h | h
  · rw [(cmp_eq_lt_iff _ _).2 h, cmp_eq_lt_iff _ _]
    exact_mod_cast h
  · rw [h, cmp_self_eq_eq, cmp_self_eq_eq]
  · rw [(cmp_eq_gt_iff _ _).2 h, cmp_eq_gt_iff _ _]
    exact_mod_cast h

end JsNumber

namespace Comparator

open JsNumber

variable {α κ : Type*} [LinearOrder κ] {r : JsNumber} {x y z : κ} {mute : Prop}

/-- The sign of the number tells how two keys compare; for equal ones the number may be NaN where that is allowed. -/
structure Tells (r : JsNumber) (x y : κ) (mute : Prop) : Prop where
  of_lt : x < y → r.sign = some .lt
  of_gt : y < x → r.sign = some .gt
  of_eq : x = y → r.sign = some .eq ∨ mute ∧ r.sign = none

theorem Tells.exceeds_iff (h : Tells r x y mute) : r.sign = some .gt ↔ y < x := by
  refine ⟨fun hr => ?_, h.of_gt⟩
  rcases lt_trichotomy x y with hlt | heq | hgt
  · simp [h.of_lt hlt] at hr
  · rcases h.of_eq heq with h | h
    · simp [h] at hr
    · simp [h.2] at hr
  · exact hgt

theorem Tells.below_iff (h : Tells r x y mute) : r.sign = some .lt ↔ x < y := by
  refine ⟨fun hr => ?_, h.of_lt⟩
  rcases lt_trichotomy x y with hlt | heq | hgt
  · exact hlt
  · rcases h.of_eq heq with h | h
    · simp [h] at hr
    · simp [h.2] at hr
  · simp [h.of_gt hgt] at hr

theorem Tells.eq_iff (h : Tells r x y mute) (hmute : ¬mute) : r.sign = some .eq ↔ x = y := by
  refine ⟨fun hr => ?_, fun heq => (h.of_eq heq).resolve_right fun hr => hmute hr.1⟩
  rcases lt_trichotomy x y with hlt | heq | hgt
  · simp [h.of_lt hlt] at hr
  · exact heq
  · simp [h.of_gt hgt] at hr

theorem tells_of_sign (h : r.sign = some (cmp x y)) : Tells r x y mute :=
  ⟨fun hlt => by rw [h, (cmp_eq_lt_iff _ _).2 hlt], fun hgt => by rw [h, (cmp_eq_gt_iff _ _).2 hgt],
    fun heq => .inl (by rw [h, (cmp_eq_eq_iff _ _).2 heq])⟩

theorem Tells.mono {mute' : Prop} (h : Tells r x y mute) (hmute : mute → mute') : Tells r x y mute' :=
  ⟨h.of_lt, h.of_gt, fun heq => (h.of_eq heq).imp_right fun hr => ⟨hmute hr.1, hr.2⟩⟩

theorem Tells.of_fst_ne {β γ : Type*} [LinearOrder β] [LinearOrder γ] {b b' : β} {mute' : Prop} (h : Tells r b b' mute)
    (hne : b ≠ b') (c c' : γ) : Tells r (toLex (b, c)) (toLex (b', c')) mute' := by
  have hlt : ∀ {b b' : β} {c c' : γ}, b ≠ b' → toLex (b, c) < toLex (b', c') → b < b' := fun hne hl => by
    rcases Prod.Lex.toLex_lt_toLex.1 hl with hb | hb
    · exact hb
    · exact absurd hb.1 hne
  exact ⟨fun hl => h.of_lt (hlt hne hl), fun hl => h.of_gt (hlt hne.symm hl),
    fun hl => absurd (congrArg (fun p => (ofLex p).1) hl) hne⟩

theorem Tells.map {ι : Type*} [LinearOrder ι] {f : κ → ι} (hf : StrictMono f) (h : Tells r x y mute) :
    Tells r (f x) (f y) mute :=
  ⟨fun hl => h.of_lt (hf.lt_iff_lt.1 hl), fun hl => h.of_gt (hf.lt_iff_lt.1 hl), fun hl => h.of_eq (hf.injective hl)⟩

theorem Tells.toLex_right {β γ : Type*} [LinearOrder β] [LinearOrder γ] {c c' : γ} (h : Tells r c c' mute) (b : β) :
    Tells r (toLex (b, c)) (toLex (b, c')) mute :=
  h.map (f := fun c : γ => toLex (b, c)) fun _ _ hl => Prod.Lex.toLex_lt_toLex.2 (.inr ⟨rfl, hl⟩)

theorem strictMono_cons (k : κ) : StrictMono fun l : List κ => k :: l := fun _ _ h => List.Lex.cons h

/-! ### Lists -/

/-- The answer for the first entries that differ, and that for the lengths where one list begins the other. -/
def compareEntries (f : α → α → JsNumber) (a b : List α) : JsNumber :=
  ((List.zipWith f a b).find? fun r => !r.strictEq (ofRat 0)).getD (ofRat (a.length - b.length))

/-- The list through its first entry of some kind. -/
def through (p : α → Prop) [DecidablePred p] : List α → List α
  | [] => []
  | x :: l => if p x then [x] else x :: through p l

theorem through_of_forall {p : α → Prop} [DecidablePred p] {l : List α} (h : ∀ x ∈ l, ¬p x) : through p l = l := by
  induction l with
  | nil => rfl
  | cons x l ih =>
    rw [through, if_neg (h x List.mem_cons_self), ih fun y hy => h y (List.mem_cons_of_mem x hy)]

theorem strictEq_zero (r : JsNumber) : r.strictEq (ofRat 0) = decide (r.sign = some .eq) := by
  have hzero : Double.nearest 0 = 0 := by simp [Double.nearest, Double.roundHalfEven]
  have hsmall : |(0 : ℚ)| < overflow := by
    rw [abs_zero]
    exact (by norm_num : (0 : ℚ) < 2 ^ 0).trans (pow_lt_overflow (by norm_num))
  rw [ofRat_of_exact hzero hsmall]
  cases r with
  | nan => rfl
  | infinity negative => cases negative <;> rfl
  | finite x _ _ => exact decide_eq_decide.2 ((cmp_eq_eq_iff _ _).symm.trans Option.some_inj.symm)

theorem compareEntries_cons (f : α → α → JsNumber) (a b : α) (as bs : List α) :
    compareEntries f (a :: as) (b :: bs) = if (f a b).sign = some .eq then compareEntries f as bs else f a b := by
  unfold compareEntries
  rw [List.zipWith_cons_cons, List.find?_cons, strictEq_zero]
  by_cases h : (f a b).sign = some .eq
  · simp [h]
  · simp [h]

theorem compareEntries_nil (f : α → α → JsNumber) : (compareEntries f [] []).sign = some .eq := by
  rw [compareEntries, List.zipWith_nil_left, List.find?_nil, Option.getD_none, sign_ofRat, sub_self, cmp_self_eq_eq]

theorem compareEntries_nil_cons (f : α → α → JsNumber) (y : α) (b : List α) :
    (compareEntries f [] (y :: b)).sign = some .lt := by
  have hlength : (([] : List α).length : ℚ) - (y :: b).length < 0 := by
    simp only [List.length_nil, List.length_cons, Nat.cast_zero, zero_sub, neg_lt_zero]
    exact_mod_cast b.length.succ_pos
  rw [compareEntries, List.zipWith_nil_left, List.find?_nil, Option.getD_none, sign_ofRat,
    (cmp_eq_lt_iff _ _).2 hlength]

theorem compareEntries_cons_nil (f : α → α → JsNumber) (x : α) (a : List α) :
    (compareEntries f (x :: a) []).sign = some .gt := by
  have hlength : (0 : ℚ) < (x :: a).length - ([] : List α).length := by
    simp only [List.length_nil, List.length_cons, Nat.cast_zero, sub_zero]
    exact_mod_cast a.length.succ_pos
  rw [compareEntries, List.zipWith_nil_right, List.find?_nil, Option.getD_none, sign_ofRat,
    (cmp_eq_gt_iff _ _).2 hlength]

theorem nil_lt_through (p : κ → Prop) [DecidablePred p] (k : κ) (l : List κ) : [] < through p (k :: l) := by
  rw [through]
  split
  · exact List.Lex.nil
  · exact List.Lex.nil

theorem through_lt_through (p : κ → Prop) [DecidablePred p] {k k' : κ} (h : k < k') (l l' : List κ) :
    through p (k :: l) < through p (k' :: l') := by
  rw [through, through]
  split <;> split <;> exact List.Lex.rel h

/-- Entries that are compared by their keys give the lexicographic order of the keys.  Two entries of the kind `p` are
not told apart, and nothing behind them counts. -/
theorem tells_compareEntries {f : α → α → JsNumber} {key : α → κ} {p : κ → Prop} [DecidablePred p] {a b : List α}
    (h : ∀ x ∈ a, ∀ y ∈ b, Tells (f x y) (key x) (key y) (p (key x)))
    (hp : ∀ x ∈ a, ∀ y ∈ b, key x = key y → p (key x) → (f x y).sign = none) :
    Tells (compareEntries f a b) (through p (a.map key)) (through p (b.map key)) (∃ x ∈ a, p (key x)) := by
  induction a generalizing b with
  | nil =>
    cases b with
    | nil =>
      exact ⟨fun hl => absurd hl (lt_irrefl _), fun hl => absurd hl (lt_irrefl _), fun _ => .inl (compareEntries_nil f)⟩
    | cons y b =>
      have hlt := nil_lt_through p (key y) (b.map key)
      exact ⟨fun _ => compareEntries_nil_cons f y b, fun hl => absurd hl hlt.not_gt, fun hl => absurd hl hlt.ne⟩
  | cons x a ih =>
    cases b with
    | nil =>
      have hlt := nil_lt_through p (key x) (a.map key)
      exact ⟨fun hl => absurd hl hlt.not_gt, fun _ => compareEntries_cons_nil f x a, fun hl => absurd hl hlt.ne'⟩
    | cons y b =>
      have hxy := h x List.mem_cons_self y List.mem_cons_self
      rw [compareEntries_cons, List.map_cons, List.map_cons]
      rcases lt_trichotomy (key x) (key y) with hk | hk | hk
      · have hlt := through_lt_through p hk (a.map key) (b.map key)
        rw [if_neg (by simp [hxy.of_lt hk])]
        exact ⟨fun _ => hxy.of_lt hk, fun hl => absurd hl hlt.not_gt, fun hl => absurd hl hlt.ne⟩
      · rw [through, through, ← hk]
        by_cases hstop : p (key x)
        · have hnone := hp x List.mem_cons_self y List.mem_cons_self hk hstop
          rw [if_neg (by simp [hnone]), if_pos hstop, if_pos hstop]
          exact ⟨fun hl => absurd hl (lt_irrefl _), fun hl => absurd hl (lt_irrefl _),
            fun _ => .inr ⟨⟨x, List.mem_cons_self, hstop⟩, hnone⟩⟩
        · have hzero : (f x y).sign = some .eq := (hxy.of_eq hk).resolve_right fun hr => hstop hr.1
          have hrest := ih (fun x' hx' y' hy' => h x' (List.mem_cons_of_mem x hx') y' (List.mem_cons_of_mem y hy'))
            fun x' hx' y' hy' => hp x' (List.mem_cons_of_mem x hx') y' (List.mem_cons_of_mem y hy')
          rw [if_pos hzero, if_neg hstop, if_neg hstop]
          exact (hrest.map (strictMono_cons (key x))).mono fun ⟨x', hx', hpx⟩ => ⟨x', List.mem_cons_of_mem x hx', hpx⟩
      · have hlt := through_lt_through p hk (b.map key) (a.map key)
        rw [if_neg (by simp [hxy.of_gt hk])]
        exact ⟨fun hl => absurd hl hlt.not_gt, fun _ => hxy.of_gt hk, fun hl => absurd hl hlt.ne'⟩

/-! ### The greatest entry -/

/-- The better one of two, the first one where the comparison does not tell. -/
def better (R : α → α → Prop) [DecidableRel R] (best : Option α) (x : α) : Option α :=
  match best with
  | none => some x
  | some b => if R x b then some x else some b

/-- What one pass keeps, from a start on: a greatest element. -/
theorem foldl_better {R : α → α → Prop} [DecidableRel R] {b : α} {l : List α}
    (hirrefl : ∀ x ∈ b :: l, ¬R x x)
    (htrans : ∀ x ∈ b :: l, ∀ y ∈ b :: l, ∀ z ∈ b :: l, R x y → R y z → R x z) :
    ∃ m, l.foldl (better R) (some b) = some m ∧ (m = b ∨ m ∈ l ∧ R m b) ∧
      ∀ x ∈ b :: l, ¬R x m := by
  induction l generalizing b with
  | nil =>
    refine ⟨b, rfl, .inl rfl, fun x hx => ?_⟩
    rw [List.mem_singleton.1 hx]
    exact hirrefl b List.mem_cons_self
  | cons x l ih =>
    have hsub : ∀ y, ∀ z ∈ y :: l, y ∈ b :: x :: l → z ∈ b :: x :: l := fun y z hz hy => by
      rcases List.mem_cons.1 hz with rfl | hz
      · exact hy
      · exact List.mem_cons_of_mem _ (List.mem_cons_of_mem _ hz)
    have hb : b ∈ b :: x :: l := List.mem_cons_self
    have hx : x ∈ b :: x :: l := List.mem_cons_of_mem b List.mem_cons_self
    have hrest := fun y (hy : y ∈ b :: x :: l) => ih (b := y) (fun z hz => hirrefl z (hsub y z hz hy))
      fun u hu v hv w hw => htrans u (hsub y u hu hy) v (hsub y v hv hy) w (hsub y w hw hy)
    rw [List.foldl_cons, better]
    by_cases hxb : R x b
    · obtain ⟨m, hm, hmem, hmax⟩ := hrest x hx
      have hm' : m ∈ b :: x :: l := by
        rcases hmem with rfl | hmem
        · exact hx
        · exact List.mem_cons_of_mem _ (List.mem_cons_of_mem _ hmem.1)
      rw [if_pos hxb]
      refine ⟨m, hm, .inr ?_, fun y hy => ?_⟩
      · rcases hmem with rfl | hmem
        · exact ⟨List.mem_cons_self, hxb⟩
        · exact ⟨List.mem_cons_of_mem _ hmem.1, htrans m hm' x hx b hb hmem.2 hxb⟩
      · rcases List.mem_cons.1 hy with rfl | hy
        · exact fun hym => hmax x List.mem_cons_self (htrans x hx y hb m hm' hxb hym)
        · exact hmax y hy
    · obtain ⟨m, hm, hmem, hmax⟩ := hrest b hb
      rw [if_neg hxb]
      refine ⟨m, hm, hmem.imp_right fun h => ⟨List.mem_cons_of_mem _ h.1, h.2⟩, fun y hy => ?_⟩
      rcases List.mem_cons.1 hy with rfl | hy
      · exact hmax y List.mem_cons_self
      · rcases List.mem_cons.1 hy with rfl | hy
        · rcases hmem with rfl | hmem
          · exact hxb
          · have hm' : m ∈ b :: y :: l := List.mem_cons_of_mem _ (List.mem_cons_of_mem _ hmem.1)
            exact fun hym => hxb (htrans y hx m hm' b hb hym hmem.2)
        · exact hmax y (List.mem_cons_of_mem _ hy)

/-- One pass keeps nothing just if there is nothing, and else an element that no other one R. -/
theorem foldl_better_none {R : α → α → Prop} [DecidableRel R] {l : List α} (hirrefl : ∀ x ∈ l, ¬R x x)
    (htrans : ∀ x ∈ l, ∀ y ∈ l, ∀ z ∈ l, R x y → R y z → R x z) :
    match l.foldl (better R) none with
    | none => l = []
    | some m => m ∈ l ∧ ∀ x ∈ l, ¬R x m := by
  cases l with
  | nil => rfl
  | cons b l =>
    obtain ⟨m, hm, hmem, hmax⟩ := foldl_better hirrefl htrans
    rw [List.foldl_cons, better, hm]
    refine ⟨?_, hmax⟩
    rcases hmem with rfl | hmem
    · exact List.mem_cons_self
    · exact List.mem_cons_of_mem b hmem.1

end Comparator
