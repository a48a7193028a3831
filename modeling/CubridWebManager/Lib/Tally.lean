import CubridWebManager.Lib.Dict
import Mathlib.Algebra.BigOperators.Group.List.Lemmas
import Mathlib.Algebra.GroupWithZero.Nat
import Mathlib.Data.List.Perm.Basic

/-!
# Counting by key

A map of rows, each with a counter, that was built from a list of keys: a new key gets a row that counts one, and a key
that has a row counts one more.  The rows then belong to the keys of the list, each counts how often its key is there
(`Counts`), and together they count the whole list (`Counts.sum_eq`).
-/

namespace Tally

variable {κ ρ : Type*} [DecidableEq κ] {count : ρ → ℕ} {d : Dict κ ρ} {l : List κ} {k : κ} {row row' : ρ}

/-- The rows count the keys of the list. -/
structure Counts (count : ρ → ℕ) (d : Dict κ ρ) (l : List κ) : Prop where
  mem : ∀ k, k ∈ d.keys ↔ k ∈ l
  count : ∀ k row, d.get? k = some row → count row = l.count k

theorem counts_empty : Counts count (Dict.empty : Dict κ ρ) [] := by
  refine ⟨fun k => Iff.rfl, fun k row h => ?_⟩
  rw [Dict.get?_empty] at h
  cases h

/-- One more key: its row counts one more than it was there before. -/
theorem Counts.set (h : Counts count d l) (hrow : count row = l.count k + 1) :
    Counts count (d.set k row) (l ++ [k]) := by
  refine ⟨fun k' => ?_, fun k' row' hrow' => ?_⟩
  · rw [Dict.mem_keys_set, h.mem, List.mem_append, List.mem_singleton]
  · rw [Dict.get?_set] at hrow'
    by_cases hk : k' = k
    · rw [if_pos hk] at hrow'
      rw [← Option.some.inj hrow', hrow, hk, List.count_append, List.count_singleton_self]
    · rw [if_neg hk] at hrow'
      rw [h.count k' row' hrow', List.count_append, List.count_singleton, if_neg (by simpa using Ne.symm hk), add_zero]

theorem Counts.new (h : Counts count d l) (hk : d.get? k = none) (hrow : count row = 1) :
    Counts count (d.set k row) (l ++ [k]) := by
  refine h.set ?_
  have hnot : k ∉ l := by
    rw [← h.mem, Dict.mem_keys]
    simp [hk]
  rw [List.count_eq_zero_of_not_mem hnot, hrow]

theorem Counts.bump (h : Counts count d l) (hk : d.get? k = some row) (hrow : count row' = count row + 1) :
    Counts count (d.set k row') (l ++ [k]) := by
  refine h.set ?_
  rw [hrow, h.count k row hk]

/-- Together the rows count everything. -/
theorem Counts.sum_eq (h : Counts count d l) : (d.entries.map fun e => count e.2).sum = l.length := by
  have hperm : d.keys.Perm l.dedup := by
    refine (List.perm_ext_iff_of_nodup d.nodup l.nodup_dedup).2 fun k => ?_
    rw [List.mem_dedup]
    exact h.mem k
  calc (d.entries.map fun e => count e.2).sum = (d.entries.map fun e => l.count e.1).sum := by
        refine congrArg List.sum (List.map_congr_left fun e he => ?_)
        exact h.count e.1 e.2 (Dict.get?_eq_some_iff.2 he)
    _ = (d.keys.map fun k => l.count k).sum := by rw [Dict.keys, List.map_map]; rfl
    _ = (l.dedup.map fun k => l.count k).sum := (hperm.map _).sum_eq
    _ = l.length := l.sum_map_count_dedup_eq_length

section countP

variable {α : Type*} {p : α → Bool} {f : α → ℕ}

theorem countP_le_sum (l : List α) (h : ∀ x ∈ l, (if p x then 1 else 0) ≤ f x) : l.countP p ≤ (l.map f).sum := by
  induction l with
  | nil => exact le_rfl
  | cons x l ih =>
    have hx := h x List.mem_cons_self
    have hrest := ih fun y hy => h y (List.mem_cons_of_mem x hy)
    rw [List.countP_cons, List.map_cons, List.sum_cons]
    omega

/-- Numbers that are at least one where `p` holds add up to the number of places where it does just if none is more. -/
theorem sum_eq_countP_iff (l : List α) (h : ∀ x ∈ l, (if p x then 1 else 0) ≤ f x) :
    (l.map f).sum = l.countP p ↔ ∀ x ∈ l, f x = if p x then 1 else 0 := by
  induction l with
  | nil => simp
  | cons x l ih =>
    have hx := h x List.mem_cons_self
    have hl := countP_le_sum l fun y hy => h y (List.mem_cons_of_mem x hy)
    have ih := ih fun y hy => h y (List.mem_cons_of_mem x hy)
    rw [List.map_cons, List.sum_cons, List.countP_cons, List.forall_mem_cons, ← ih]
    omega

end countP

end Tally
