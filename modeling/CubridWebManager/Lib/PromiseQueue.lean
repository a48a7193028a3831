import Mathlib.Logic.Function.Basic

/-!
# Queues of promises

A queue for each key, made of promises: who joins the queue of a key makes a promise, which becomes the last one of the
queue, waits for the one that was the last before, if there was one, and resolves its own promise when it leaves.

`Orderly` ties the seats of those who have joined and not left together: one that is not the first of its key waits for
another.  So only one of a key goes ahead at a time (`Orderly.unique`), as long as nobody leaves who still waits.

`Tight` says that nothing else is waited for or kept, where everybody leaves by `leave`: then the first of a key is ready
(`Orderly.ready_iff`), and a queue that nobody is in is gone (`Orderly.tail_eq_none_iff`).
-/

structure PromiseQueue (κ : Type*) where
  /-- The last promise of each queue. -/
  tail : κ → Option Nat
  /-- The promises are numbered in the order in which they are made. -/
  made : Nat
  resolved : Nat → Bool

namespace PromiseQueue

variable {κ : Type*}

/-- The place of one who has joined: the promise that it waits for, and its own. -/
structure Seat (κ : Type*) where
  key : κ
  pending : Option Nat
  promise : Nat
  deriving DecidableEq

def empty : PromiseQueue κ := ⟨fun _ => none, 0, fun _ => false⟩

section

variable (q : PromiseQueue κ)

/-- The seat of one who joins the queue of the key now. -/
def seatFor (k : κ) : Seat κ := ⟨k, q.tail k, q.made⟩

/-- The promise that the seat waits for is resolved. -/
def ready (a : Seat κ) : Bool := a.pending.all q.resolved

variable [DecidableEq κ]

def join (k : κ) : PromiseQueue κ := { q with tail := Function.update q.tail k (some q.made), made := q.made + 1 }

def leave (a : Seat κ) : PromiseQueue κ :=
  { q with
    resolved := Function.update q.resolved a.promise true
    tail := if q.tail a.key = some a.promise then Function.update q.tail a.key none else q.tail }

/-- The promise of the seat is resolved, and stays the last one of its queue until `forget`. -/
def settle (a : Seat κ) : PromiseQueue κ := { q with resolved := Function.update q.resolved a.promise true }

/-- The last promise of a queue, when it is resolved, is dropped. -/
def forget (k : κ) : PromiseQueue κ :=
  { q with tail := if (q.tail k).any q.resolved then Function.update q.tail k none else q.tail }

end

variable {q : PromiseQueue κ} {a b : Seat κ} {ι : Type*} {seat : ι → Option (Seat κ)} {i j : ι}

theorem ready_settle [DecidableEq κ] (h : q.ready a = true) : (q.settle b).ready a = true := by
  unfold ready at h ⊢
  rw [Option.all_eq_true] at h ⊢
  intro p hp
  have hresolved := h p hp
  simp only [settle, Function.update_apply]
  split
  · rfl
  · exact hresolved

/-- Leaving is resolving the promise, and dropping it where it is the last one. -/
theorem leave_eq [DecidableEq κ] :
    q.leave a = if q.tail a.key = some a.promise then (q.settle a).forget a.key else q.settle a := by
  unfold leave settle forget
  split
  · rename_i hlast
    simp [hlast]
  · rfl

theorem ready_leave [DecidableEq κ] (h : q.ready a = true) : (q.leave b).ready a = true := ready_settle h

/-- How the seats of those who are in the queues are tied together. -/
structure Orderly (q : PromiseQueue κ) (seat : ι → Option (Seat κ)) : Prop where
  distinct : ∀ i j a b, seat i = some a → seat j = some b → a.promise = b.promise → i = j
  made : ∀ i a, seat i = some a → a.promise < q.made
  unresolved : ∀ i a, seat i = some a → q.resolved a.promise = false
  future : ∀ p, q.made ≤ p → q.resolved p = false
  /-- A seat that comes after another of its key waits for one that is not before that. -/
  waits : ∀ i j a b, seat i = some a → seat j = some b → a.key = b.key → a.promise < b.promise →
    ∃ n c, seat n = some c ∧ c.key = b.key ∧ b.pending = some c.promise ∧ a.promise ≤ c.promise
  /-- The last promise of a key is of a seat that is in its queue. -/
  last : ∀ i a, seat i = some a →
    ∃ n c, seat n = some c ∧ c.key = a.key ∧ q.tail a.key = some c.promise ∧ a.promise ≤ c.promise

namespace Orderly

theorem empty : Orderly (empty : PromiseQueue κ) fun _ : ι => none where
  distinct := nofun
  made := nofun
  unresolved := nofun
  future := fun _ _ => rfl
  waits := nofun
  last := nofun

/-- A seat that is ready is the first of its key. -/
theorem first (h : Orderly q seat) (hi : seat i = some a) (hj : seat j = some b) (hkey : a.key = b.key)
    (hready : q.ready b = true) : b.promise ≤ a.promise := by
  by_contra hlt
  obtain ⟨n, c, hn, -, hpending, -⟩ := h.waits i j a b hi hj hkey (Nat.lt_of_not_le hlt)
  simp only [ready, hpending, Option.all_some, h.unresolved n c hn, Bool.false_eq_true] at hready

/-- No two who are ready are in the queue of one key. -/
theorem unique (h : Orderly q seat) (hi : seat i = some a) (hj : seat j = some b) (hkey : a.key = b.key)
    (ha : q.ready a = true) (hb : q.ready b = true) : i = j :=
  h.distinct i j a b hi hj (Nat.le_antisymm (h.first hj hi hkey.symm ha) (h.first hi hj hkey hb))

variable [DecidableEq κ] [DecidableEq ι]

theorem join (h : Orderly q seat) (hi : seat i = none) (k : κ) :
    Orderly (q.join k) (Function.update seat i (some (q.seatFor k))) := by
  have hcases : ∀ j b, Function.update seat i (some (q.seatFor k)) j = some b →
      (j = i ∧ b = q.seatFor k) ∨ seat j = some b := by
    intro j b hj
    rw [Function.update_apply] at hj
    split at hj
    · rename_i heq
      exact .inl ⟨heq, (Option.some.inj hj).symm⟩
    · exact .inr hj
  have hnew : Function.update seat i (some (q.seatFor k)) i = some (q.seatFor k) := Function.update_self ..
  have hold : ∀ j b, seat j = some b → Function.update seat i (some (q.seatFor k)) j = some b := by
    intro j b hj
    rw [Function.update_of_ne, hj]
    rintro rfl
    cases hi.symm.trans hj
  refine ⟨fun j j' b b' hj hj' heq => ?_, fun j b hj => ?_, fun j b hj => ?_, fun p hp => h.future p (Nat.le_of_succ_le hp),
    fun j j' b b' hj hj' hkey hlt => ?_, fun j b hj => ?_⟩
  · rcases hcases j b hj with ⟨rfl, rfl⟩ | hold₁ <;> rcases hcases j' b' hj' with ⟨rfl, rfl⟩ | hold₂
    · rfl
    · exact absurd heq.symm (Nat.ne_of_lt (h.made j' b' hold₂))
    · exact absurd heq (Nat.ne_of_lt (h.made j b hold₁))
    · exact h.distinct j j' b b' hold₁ hold₂ heq
  · rcases hcases j b hj with ⟨rfl, rfl⟩ | hj
    · exact Nat.lt_succ_self _
    · exact Nat.lt_succ_of_lt (h.made j b hj)
  · rcases hcases j b hj with ⟨rfl, rfl⟩ | hj
    · exact h.future _ (Nat.le_refl _)
    · exact h.unresolved j b hj
  · rcases hcases j' b' hj' with ⟨rfl, rfl⟩ | hold₂
    · -- the new seat waits for the last promise of its key
      rcases hcases j b hj with ⟨rfl, rfl⟩ | hj
      · exact absurd hlt (Nat.lt_irrefl _)
      · obtain ⟨n, c, hn, hc, htail, hle⟩ := h.last j b hj
        rw [hkey] at hc htail
        exact ⟨n, c, hold n c hn, hc, htail, hle⟩
    · rcases hcases j b hj with ⟨rfl, rfl⟩ | hj
      · exact absurd (h.made j' b' hold₂) (Nat.lt_asymm hlt)
      · obtain ⟨n, c, hn, hc, hpending, hle⟩ := h.waits j j' b b' hj hold₂ hkey hlt
        exact ⟨n, c, hold n c hn, hc, hpending, hle⟩
  · by_cases hkey : b.key = k
    · refine ⟨i, q.seatFor k, hnew, hkey.symm, ?_, ?_⟩
      · rw [hkey]
        exact Function.update_self ..
      · rcases hcases j b hj with ⟨rfl, rfl⟩ | hj
        · exact Nat.le_refl _
        · exact Nat.le_of_lt (h.made j b hj)
    · rcases hcases j b hj with ⟨rfl, rfl⟩ | hj
      · exact absurd rfl hkey
      · obtain ⟨n, c, hn, hc, htail, hle⟩ := h.last j b hj
        exact ⟨n, c, hold n c hn, hc, (Function.update_of_ne hkey ..).trans htail, hle⟩

/-- Who leaves resolves its promise, and nobody who stays is last behind it. -/
theorem settle (h : Orderly q seat) (hi : seat i = some a) (hready : q.ready a = true) :
    Orderly (q.settle a) (Function.update seat i none) := by
  have hcases : ∀ j b, Function.update seat i none j = some b → j ≠ i ∧ seat j = some b := by
    intro j b hj
    rw [Function.update_apply] at hj
    split at hj
    · cases hj
    · rename_i hne
      exact ⟨hne, hj⟩
  have hother : ∀ j b, j ≠ i → seat j = some b → b.promise ≠ a.promise :=
    fun j b hne hj heq => hne (h.distinct j i b a hj hi heq)
  -- the seat that a seat which stays waits for, or is last with, stays too
  have hstays : ∀ n c j b, seat n = some c → j ≠ i → seat j = some b → c.key = b.key → b.promise ≤ c.promise →
      Function.update seat i none n = some c := by
    intro n c j b hn hne hj hkey hle
    rw [Function.update_of_ne, hn]
    rintro rfl
    obtain rfl := Option.some.inj (hi.symm.trans hn)
    exact hother j b hne hj (Nat.le_antisymm hle (h.first hj hi hkey.symm hready))
  have hresolved : ∀ p, p ≠ a.promise → (q.settle a).resolved p = q.resolved p := fun p hne => Function.update_of_ne hne ..
  refine ⟨fun j j' b b' hj hj' heq => ?_, fun j b hj => ?_, fun j b hj => ?_, fun p hp => ?_,
    fun j j' b b' hj hj' hkey hlt => ?_, fun j b hj => ?_⟩
  · exact h.distinct j j' b b' (hcases j b hj).2 (hcases j' b' hj').2 heq
  · exact h.made j b (hcases j b hj).2
  · obtain ⟨hne, hj⟩ := hcases j b hj
    rw [hresolved _ (hother j b hne hj)]
    exact h.unresolved j b hj
  · rw [hresolved p (Nat.ne_of_gt (Nat.lt_of_lt_of_le (h.made i a hi) hp))]
    exact h.future p hp
  · obtain ⟨hne, hj⟩ := hcases j b hj
    obtain ⟨n, c, hn, hc, hpending, hle⟩ := h.waits j j' b b' hj (hcases j' b' hj').2 hkey hlt
    exact ⟨n, c, hstays n c j b hn hne hj (hc.trans hkey.symm) hle, hc, hpending, hle⟩
  · obtain ⟨hne, hj⟩ := hcases j b hj
    obtain ⟨n, c, hn, hc, htail, hle⟩ := h.last j b hj
    exact ⟨n, c, hstays n c j b hn hne hj hc hle, hc, htail, hle⟩

/-- A queue whose last promise is resolved has nobody in it. -/
theorem forget (h : Orderly q seat) (k : κ) : Orderly (q.forget k) seat := by
  refine ⟨h.distinct, h.made, h.unresolved, h.future, h.waits, fun j b hj => ?_⟩
  obtain ⟨n, c, hn, hc, htail, hle⟩ := h.last j b hj
  refine ⟨n, c, hn, hc, ?_, hle⟩
  unfold PromiseQueue.forget
  dsimp only
  split
  · rename_i hresolved
    rw [Function.update_of_ne, htail]
    rintro rfl
    rw [htail, Option.any_some, h.unresolved n c hn] at hresolved
    cases hresolved
  · exact htail

/-- Who leaves has been ready, so nobody who stays waits for another than it. -/
theorem leave (h : Orderly q seat) (hi : seat i = some a) (hready : q.ready a = true) :
    Orderly (q.leave a) (Function.update seat i none) := by
  rw [leave_eq]
  split
  · exact (h.settle hi hready).forget a.key
  · exact h.settle hi hready

end Orderly

/-- What is the last promise of a key, or is waited for, belongs to a seat in the queue of the key, or is resolved. -/
structure Tight (q : PromiseQueue κ) (seat : ι → Option (Seat κ)) : Prop where
  tail : ∀ k p, q.tail k = some p → ∃ i a, seat i = some a ∧ a.key = k ∧ a.promise = p
  pending : ∀ i a p, seat i = some a → a.pending = some p →
    q.resolved p = true ∨ ∃ j b, seat j = some b ∧ b.key = a.key ∧ b.promise = p ∧ p < a.promise

namespace Tight

theorem empty : Tight (empty : PromiseQueue κ) fun _ : ι => none where
  tail := nofun
  pending := nofun

variable [DecidableEq κ] [DecidableEq ι]

theorem join (h : Tight q seat) (horderly : Orderly q seat) (hi : seat i = none) (k : κ) :
    Tight (q.join k) (Function.update seat i (some (q.seatFor k))) := by
  have hold : ∀ j b, seat j = some b → Function.update seat i (some (q.seatFor k)) j = some b := by
    intro j b hj
    rw [Function.update_of_ne, hj]
    rintro rfl
    cases hi.symm.trans hj
  refine ⟨fun k' p hp => ?_, fun j b p hj hp => ?_⟩
  · by_cases hk : k' = k
    · subst hk
      simp only [PromiseQueue.join, Function.update_self] at hp
      exact ⟨i, q.seatFor k', Function.update_self .., rfl, Option.some.inj hp⟩
    · simp only [PromiseQueue.join, Function.update_of_ne hk] at hp
      obtain ⟨n, c, hn, hc⟩ := h.tail k' p hp
      exact ⟨n, c, hold n c hn, hc⟩
  · rw [Function.update_apply] at hj
    split at hj
    · obtain rfl := Option.some.inj hj
      obtain ⟨n, c, hn, hkey, hc⟩ := h.tail k p hp
      refine .inr ⟨n, c, hold n c hn, hkey, hc, ?_⟩
      rw [← hc]
      exact horderly.made n c hn
    · refine (h.pending j b p hj hp).imp_right ?_
      rintro ⟨n, c, hn, hc⟩
      exact ⟨n, c, hold n c hn, hc⟩

theorem leave (h : Tight q seat) (hi : seat i = some a) : Tight (q.leave a) (Function.update seat i none) := by
  have hstays : ∀ j b, j ≠ i → seat j = some b → Function.update seat i none j = some b :=
    fun j b hne hj => (Function.update_of_ne hne ..).trans hj
  refine ⟨fun k p hp => ?_, fun j b p hj hp => ?_⟩
  · have hold : q.tail k = some p ∧ ¬ (a.key = k ∧ a.promise = p) := by
      simp only [PromiseQueue.leave] at hp
      split at hp
      · rename_i hlast
        rw [Function.update_apply] at hp
        split at hp
        · cases hp
        · rename_i hne
          exact ⟨hp, fun heq => hne heq.1.symm⟩
      · rename_i hlast
        refine ⟨hp, ?_⟩
        rintro ⟨rfl, rfl⟩
        exact hlast hp
    obtain ⟨n, c, hn, hkey, hc⟩ := h.tail k p hold.1
    refine ⟨n, c, hstays n c ?_ hn, hkey, hc⟩
    rintro rfl
    obtain rfl := Option.some.inj (hi.symm.trans hn)
    exact hold.2 ⟨hkey, hc⟩
  · rw [Function.update_apply] at hj
    split at hj
    · cases hj
    · show Function.update q.resolved a.promise true p = true ∨ _
      rcases h.pending j b p hj hp with hresolved | ⟨n, c, hn, hkey, hc, hlt⟩
      · by_cases hpa : p = a.promise
        · exact .inl (by rw [hpa, Function.update_self])
        · exact .inl (by rw [Function.update_of_ne hpa, hresolved])
      · by_cases hni : n = i
        · subst hni
          obtain rfl := Option.some.inj (hi.symm.trans hn)
          exact .inl (by rw [← hc, Function.update_self])
        · exact .inr ⟨n, c, hstays n c hni hn, hkey, hc, hlt⟩

end Tight

namespace Orderly

/-- The seats that are ready are the first of their keys. -/
theorem ready_iff (h : Orderly q seat) (htight : Tight q seat) (hi : seat i = some a) :
    q.ready a = true ↔ ∀ j b, seat j = some b → b.key = a.key → a.promise ≤ b.promise := by
  refine ⟨fun hready j b hj hkey => h.first hj hi hkey hready, fun hfirst => ?_⟩
  rw [ready, Option.all_eq_true]
  intro p hp
  rcases htight.pending i a p hi hp with hresolved | ⟨j, b, hj, hkey, rfl, hlt⟩
  · exact hresolved
  · exact absurd (hfirst j b hj hkey) (Nat.not_le_of_lt hlt)

theorem tail_eq_none_iff (h : Orderly q seat) (htight : Tight q seat) (k : κ) :
    q.tail k = none ↔ ∀ i a, seat i = some a → a.key ≠ k := by
  constructor
  · rintro hnone i a hi rfl
    obtain ⟨n, c, -, -, htail, -⟩ := h.last i a hi
    cases hnone.symm.trans htail
  · intro hnobody
    cases htail : q.tail k with
    | none => rfl
    | some p =>
      obtain ⟨i, a, hi, hkey, -⟩ := htight.tail k p htail
      exact absurd hkey (hnobody i a hi)

end Orderly

end PromiseQueue
