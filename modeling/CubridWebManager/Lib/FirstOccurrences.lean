import Mathlib.Data.List.Nodup

/-!
# First occurrences

`eraseDups` keeps the first occurrence of each element of a list.  What is left has no duplicates, and an element is
left out of it as it is left out of the list.
-/

namespace FirstOccurrences

variable {α : Type*} [BEq α] [LawfulBEq α]

theorem nodup_eraseDups (l : List α) : l.eraseDups.Nodup := by
  induction hn : l.length using Nat.strongRecOn generalizing l with
  | ind n ih =>
    cases l with
    | nil => exact List.nodup_nil
    | cons a l =>
      rw [List.eraseDups_cons, List.nodup_cons, List.mem_eraseDups]
      have hlt : (l.filter fun b => !b == a).length < n := by
        rw [← hn, List.length_cons]
        exact Nat.lt_succ_of_le (List.length_filter_le _ l)
      exact ⟨fun hmem => by simpa using (List.mem_filter.1 hmem).2, ih _ hlt _ rfl⟩

theorem filter_eraseDups (p : α → Bool) (l : List α) : l.eraseDups.filter p = (l.filter p).eraseDups := by
  induction hn : l.length using Nat.strongRecOn generalizing l with
  | ind n ih =>
    cases l with
    | nil => rfl
    | cons a l =>
      have hlt : (l.filter fun b => !b == a).length < n := by
        rw [← hn, List.length_cons]
        exact Nat.lt_succ_of_le (List.length_filter_le _ l)
      rw [List.eraseDups_cons]
      by_cases ha : p a = true
      · rw [List.filter_cons_of_pos ha, List.filter_cons_of_pos ha, List.eraseDups_cons, ih _ hlt _ rfl,
          List.filter_filter, List.filter_filter]
        simp only [Bool.and_comm]
      · rw [List.filter_cons_of_neg ha, List.filter_cons_of_neg ha, ih _ hlt _ rfl, List.filter_filter]
        refine congrArg _ (List.filter_congr fun b _ => ?_)
        by_cases hb : b = a
        · simp [hb, ha]
        · simp [hb]

theorem count_eraseDups {a : α} {l : List α} (h : a ∈ l) : l.eraseDups.count a = 1 :=
  List.count_eq_one_of_mem (nodup_eraseDups l) (List.mem_eraseDups.2 h)

end FirstOccurrences
