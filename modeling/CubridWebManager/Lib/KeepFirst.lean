import Mathlib.Data.List.Basic

/-!
# The first entries of a sorted list

A list that is sorted by a comparator and cut to its first `n` entries loses nothing while it has no more than `n`.  With
one entry more it loses the one that is sorted last (`Last`): none comes after it, and of the entries that compare
equal with it, it is the one that stood last (`take_mergeSort_of_last`).  Such an entry is always there (`exists_last`).
-/

namespace KeepFirst

variable {α β : Type*}

/-- The sign that a comparator gives is that of an order: the other way round it is the opposite one. -/
structure Consistent (cmp : α → α → Int) : Prop where
  flip : ∀ a b, cmp a b < 0 ↔ 0 < cmp b a
  trans : ∀ a b c, cmp a b ≤ 0 → cmp b c ≤ 0 → cmp a c ≤ 0

/-- The entries are compared by a key, the greater one first. -/
theorem Consistent.descending {cmp : α → α → Int} (h : Consistent cmp) (key : β → α) :
    Consistent fun a b => cmp (key b) (key a) where
  flip := fun a b => h.flip (key b) (key a)
  trans := fun a b c hab hbc => h.trans (key c) (key b) (key a) hbc hab

/-- The entry that a stable sort puts last. -/
def Last (cmp : α → α → Int) (l : List α) (a : α) : Prop :=
  ∃ l₁ l₂, l = l₁ ++ a :: l₂ ∧ (∀ b ∈ l₁, cmp b a ≤ 0) ∧ ∀ b ∈ l₂, cmp b a < 0

variable {cmp : α → α → Int} {l : List α}

theorem Last.mem {a : α} (h : Last cmp l a) : a ∈ l := by
  obtain ⟨l₁, l₂, rfl, -, -⟩ := h
  simp

section

variable (hcmp : Consistent cmp)

include hcmp

theorem Consistent.total (a b : α) : (decide (cmp a b ≤ 0) || decide (cmp b a ≤ 0)) = true := by
  have hflip := hcmp.flip b a
  simp only [Bool.or_eq_true, decide_eq_true_eq]
  omega

theorem exists_last (hne : l ≠ []) : ∃ a, Last cmp l a := by
  induction l with
  | nil => exact absurd rfl hne
  | cons a l ih =>
    rcases eq_or_ne l [] with rfl | hl
    · exact ⟨a, [], [], rfl, by simp, by simp⟩
    · obtain ⟨b, l₁, l₂, rfl, h₁, h₂⟩ := ih hl
      by_cases hab : cmp a b ≤ 0
      · refine ⟨b, a :: l₁, l₂, rfl, fun c hc => ?_, h₂⟩
        rcases List.mem_cons.1 hc with rfl | hc
        · exact hab
        · exact h₁ c hc
      · -- the head comes after the last one of the rest, and so after all of the rest
        have hba : cmp b a < 0 := (hcmp.flip b a).2 (by omega)
        have hle : ∀ c ∈ l₁ ++ b :: l₂, cmp c b ≤ 0 := by
          intro c hc
          rcases List.mem_append.1 hc with hc | hc
          · exact h₁ c hc
          · rcases List.mem_cons.1 hc with rfl | hc
            · have hself := hcmp.flip c c
              omega
            · exact Int.le_of_lt (h₂ c hc)
        refine ⟨a, [], l₁ ++ b :: l₂, rfl, by simp, fun c hc => ?_⟩
        rcases Decidable.em (cmp c a < 0) with hca | hca
        · exact hca
        · have hac : cmp a c ≤ 0 := by
            have hflip := hcmp.flip c a
            have hflip' := hcmp.flip a c
            omega
          exact absurd (hcmp.trans a c b hac (hle c hc)) hab

theorem mergeSort_of_last {a : α} (h : Last cmp l a) :
    ∃ l', (l.mergeSort fun b c => cmp b c ≤ 0) = l' ++ [a] := by
  have htrans : ∀ b c d, decide (cmp b c ≤ 0) = true → decide (cmp c d ≤ 0) = true → decide (cmp b d ≤ 0) = true := by
    intro b c d hbc hcd
    exact decide_eq_true (hcmp.trans b c d (of_decide_eq_true hbc) (of_decide_eq_true hcd))
  obtain ⟨l₁, l₂, rfl, h₁, h₂⟩ := h
  induction l₁ with
  | nil =>
    obtain ⟨front, back, hsorted, hrest, -⟩ :=
      List.mergeSort_cons htrans hcmp.total a l₂
    have hpairwise := List.pairwise_mergeSort htrans hcmp.total (a :: l₂)
    rw [hsorted, List.pairwise_append, List.pairwise_cons] at hpairwise
    rcases List.eq_nil_or_concat back with rfl | ⟨back, b, rfl⟩
    · exact ⟨front, by simpa using hsorted⟩
    · have hb : b ∈ l₂ := by
        have hmem : b ∈ l₂.mergeSort fun b c => cmp b c ≤ 0 := by rw [hrest]; simp
        exact List.mem_mergeSort.1 hmem
      have hab := of_decide_eq_true (hpairwise.2.1.1 b (by simp))
      have hflip := hcmp.flip b a
      have hba := h₂ b hb
      omega
  | cons b l₁ ih =>
    obtain ⟨l', hl'⟩ := ih fun c hc => h₁ c (List.mem_cons_of_mem _ hc)
    obtain ⟨front, back, hsorted, hrest, hfront⟩ :=
      List.mergeSort_cons htrans hcmp.total b (l₁ ++ a :: l₂)
    rw [List.cons_append, hsorted]
    rcases List.eq_nil_or_concat back with rfl | ⟨back, c, rfl⟩
    · have ha : a ∈ front := by
        rw [← List.append_nil front, ← hrest, hl']
        simp
      have hba := h₁ b List.mem_cons_self
      have hnot := hfront a ha
      simp [hba] at hnot
    · have hconcat : (front ++ back) ++ [c] = l' ++ [a] := by
        rw [← hl', hrest, List.append_assoc, List.concat_eq_append]
      obtain ⟨-, hlast⟩ := List.append_inj' hconcat rfl
      obtain rfl : c = a := by simpa using hlast
      exact ⟨front ++ b :: back, by simp⟩

/-- With one entry too many the last one is lost. -/
theorem take_mergeSort_of_last {n : Nat} (hlength : l.length = n + 1) {a : α} (h : Last cmp l a) :
    (a :: (l.mergeSort fun b c => cmp b c ≤ 0).take n).Perm l := by
  obtain ⟨l', hl'⟩ := mergeSort_of_last hcmp h
  have hperm := List.mergeSort_perm l fun b c => decide (cmp b c ≤ 0)
  have hn : l'.length = n := by
    have heq := hperm.length_eq
    rw [hl', List.length_append, hlength] at heq
    simpa using heq
  rw [hl', List.take_left' hn]
  exact (List.perm_append_singleton a l').symm.trans (hl' ▸ hperm)

end

variable (cmp) in
theorem take_mergeSort_of_length_le {n : Nat} (h : l.length ≤ n) :
    ((l.mergeSort fun b c => cmp b c ≤ 0).take n).Perm l := by
  have hperm := List.mergeSort_perm l fun b c => decide (cmp b c ≤ 0)
  rwa [List.take_of_length_le (by rw [hperm.length_eq]; exact h)]

end KeepFirst
