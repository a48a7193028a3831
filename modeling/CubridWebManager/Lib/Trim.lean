import Mathlib.Data.List.DropRight

/-!
# Trimming lists

`trim p l` is `l` without the elements at its two ends that satisfy `p`.  It is the middle part of `l` between two
parts that satisfy `p` throughout, where the middle part is `Bare`: neither its first nor its last element satisfies
`p` (`trim_parts`, `exists_trim_parts`).
-/

namespace Trim

variable {α : Type*} {p q : α → Bool} {l l' w w' m : List α} {x : α}

/-- The list without its elements at both ends that satisfy `p`. -/
def trim (p : α → Bool) (l : List α) : List α := (l.dropWhile p).rdropWhile p

/-- All elements satisfy `p`. -/
def All (p : α → Bool) (l : List α) : Prop := ∀ x ∈ l, p x = true

/-- Neither the first nor the last element satisfies `p`. -/
def Bare (p : α → Bool) (l : List α) : Prop := (∀ x ∈ l.head?, p x = false) ∧ ∀ x ∈ l.getLast?, p x = false

instance : Decidable (All p l) := inferInstanceAs (Decidable (∀ x ∈ l, p x = true))

theorem All.nil : All p ([] : List α) := fun _ h => absurd h List.not_mem_nil

theorem All.append (h : All p w) (h' : All p w') : All p (w ++ w') :=
  fun x hx => (List.mem_append.1 hx).elim (h x) (h' x)

theorem All.mono (h : All p w) (hpq : ∀ x, p x = true → q x = true) : All q w := fun x hx => hpq x (h x hx)

theorem All.not_mem (h : All p w) (hx : p x = false) : x ∉ w := fun hmem => by simp [h x hmem] at hx

theorem Bare.mono (h : Bare q l) (hpq : ∀ x, p x = true → q x = true) : Bare p l := by
  refine ⟨fun x hx => ?_, fun x hx => ?_⟩
  · by_contra hp
    rw [Bool.not_eq_false] at hp
    exact absurd (hpq x hp) (by simp [h.1 x hx])
  · by_contra hp
    rw [Bool.not_eq_false] at hp
    exact absurd (hpq x hp) (by simp [h.2 x hx])

/-! ### One end -/

theorem dropWhile_of_head (h : ∀ x ∈ l.head?, p x = false) : l.dropWhile p = l := by
  cases l with
  | nil => rfl
  | cons x l => simp [h x rfl]

theorem head_dropWhile (h : x ∈ (l.dropWhile p).head?) : p x = false := by
  induction l with
  | nil => cases h
  | cons y l ih =>
    rw [List.dropWhile_cons] at h
    split at h
    · exact ih h
    · rename_i hy
      obtain rfl := Option.some.inj h
      simpa using hy

theorem dropWhile_append_all (h : All p w) (l : List α) : (w ++ l).dropWhile p = l.dropWhile p :=
  List.dropWhile_append_of_pos h

theorem takeWhile_append_all (h : All p w) (hl : ∀ x ∈ l.head?, p x = false) : (w ++ l).takeWhile p = w := by
  rw [List.takeWhile_append_of_pos h]
  cases l with
  | nil => exact List.append_nil w
  | cons x l => simp [hl x rfl]

theorem takeWhile_append_of_mem (hmem : x ∈ w) (hx : p x = false) (l : List α) :
    (w ++ l).takeWhile p = w.takeWhile p := by
  induction w with
  | nil => cases hmem
  | cons y w ih =>
    rw [List.cons_append, List.takeWhile_cons, List.takeWhile_cons]
    split
    · rename_i hy
      rcases List.mem_cons.1 hmem with rfl | hmem
      · rw [hx] at hy
        cases hy
      · rw [ih hmem]
    · rfl

theorem exists_dropWhile_parts (p : α → Bool) (l : List α) : ∃ w, All p w ∧ l = w ++ l.dropWhile p :=
  ⟨l.takeWhile p, fun _ hx => List.mem_takeWhile_imp hx, List.takeWhile_append_dropWhile.symm⟩

theorem rdropWhile_append_all (h : All p w) (l : List α) : (l ++ w).rdropWhile p = l.rdropWhile p := by
  have hrev : All p w.reverse := fun x hx => h x (List.mem_reverse.1 hx)
  rw [List.rdropWhile, List.rdropWhile, List.reverse_append, dropWhile_append_all hrev]

theorem rdropWhile_of_last (h : ∀ x ∈ l.getLast?, p x = false) : l.rdropWhile p = l := by
  have hhead : ∀ x ∈ l.reverse.head?, p x = false := by
    rw [List.head?_reverse]
    exact h
  rw [List.rdropWhile, dropWhile_of_head hhead, List.reverse_reverse]

theorem last_rdropWhile (h : x ∈ (l.rdropWhile p).getLast?) : p x = false := by
  rw [List.rdropWhile, List.getLast?_reverse] at h
  exact head_dropWhile h

theorem exists_rdropWhile_parts (p : α → Bool) (l : List α) : ∃ w, All p w ∧ l = l.rdropWhile p ++ w := by
  obtain ⟨w, hw, heq⟩ := exists_dropWhile_parts p l.reverse
  refine ⟨w.reverse, fun x hx => hw x (List.mem_reverse.1 hx), ?_⟩
  rw [List.rdropWhile, ← List.reverse_append, ← heq, List.reverse_reverse]

theorem rdropWhile_eq_nil (h : All p l) : l.rdropWhile p = [] := List.rdropWhile_eq_nil_iff.2 h

/-- Only what follows the last element that is kept is trimmed. -/
theorem rdropWhile_append_of_ne_nil (l : List α) (h : w.rdropWhile p ≠ []) :
    (l ++ w).rdropWhile p = l ++ w.rdropWhile p := by
  obtain ⟨v, hv, heq⟩ := exists_rdropWhile_parts p w
  conv_lhs => rw [heq, ← List.append_assoc, rdropWhile_append_all hv]
  refine rdropWhile_of_last fun x hx => ?_
  rw [List.getLast?_append_of_ne_nil _ h] at hx
  exact last_rdropWhile hx

theorem rdropWhile_append_cons (hx : p x = false) (l w : List α) :
    (l ++ x :: w).rdropWhile p = l ++ x :: w.rdropWhile p := by
  obtain ⟨v, hv, heq⟩ := exists_rdropWhile_parts p w
  have hlast : ∀ y ∈ (l ++ x :: w.rdropWhile p).getLast?, p y = false := by
    intro y hy
    rw [List.getLast?_append_of_ne_nil _ (List.cons_ne_nil _ _), List.getLast?_cons] at hy
    cases hkept : (w.rdropWhile p).getLast? with
    | none =>
      rw [hkept] at hy
      exact Option.some.inj hy ▸ hx
    | some z =>
      rw [hkept] at hy
      exact Option.some.inj hy ▸ last_rdropWhile hkept
  conv_lhs => rw [heq, ← List.cons_append, ← List.append_assoc, rdropWhile_append_all hv]
  exact rdropWhile_of_last hlast

/-! ### Both ends -/

theorem bare_trim (p : α → Bool) (l : List α) : Bare p (trim p l) := by
  refine ⟨fun x hx => ?_, fun x hx => last_rdropWhile hx⟩
  obtain ⟨w, -, heq⟩ := exists_rdropWhile_parts p (l.dropWhile p)
  refine head_dropWhile (l := l) ?_
  rw [heq]
  cases h : (l.dropWhile p).rdropWhile p with
  | nil =>
    rw [trim, h] at hx
    cases hx
  | cons y m =>
    rw [trim, h] at hx
    exact hx

theorem head_trim_cons (hx : p x = false) (l : List α) : (trim p (x :: l)).head? = some x := by
  rw [trim, dropWhile_of_head (by rintro y ⟨⟩; exact hx)]
  obtain ⟨v, hv, hparts⟩ := exists_rdropWhile_parts p (x :: l)
  cases hend : (x :: l).rdropWhile p with
  | nil =>
    rw [hend, List.nil_append] at hparts
    rw [hv x (hparts ▸ List.mem_cons_self)] at hx
    cases hx
  | cons y m =>
    rw [hend] at hparts
    rw [(List.cons.inj hparts).1]
    rfl

theorem exists_trim_parts (p : α → Bool) (l : List α) : ∃ w w', All p w ∧ All p w' ∧ l = w ++ trim p l ++ w' := by
  obtain ⟨w, hw, heq⟩ := exists_dropWhile_parts p l
  obtain ⟨w', hw', heq'⟩ := exists_rdropWhile_parts p (l.dropWhile p)
  refine ⟨w, w', hw, hw', ?_⟩
  rw [trim, List.append_assoc, ← heq', ← heq]

theorem trim_of_bare (h : Bare p m) : trim p m = m := by
  rw [trim, dropWhile_of_head h.1, rdropWhile_of_last h.2]

theorem trim_eq_dropWhile (h : ∀ x ∈ l.dropWhile p, p x = false) : trim p l = l.dropWhile p :=
  rdropWhile_of_last fun x hx => h x (List.mem_of_mem_getLast? hx)

theorem trim_eq_rdropWhile (h : ∀ x ∈ l.rdropWhile p, p x = false) : trim p l = l.rdropWhile p := by
  obtain ⟨w, hw, heq⟩ := exists_rdropWhile_parts p l
  by_cases hnil : l.rdropWhile p = []
  · rw [hnil, List.nil_append] at heq
    rw [hnil, trim, heq, List.dropWhile_eq_nil_iff.2 hw]
    rfl
  · rw [trim, dropWhile_of_head]
    intro x hx
    rw [heq, List.head?_append_of_ne_nil _ hnil] at hx
    exact h x (List.mem_of_mem_head? hx)

theorem trim_append_left (h : All p w) (l : List α) : trim p (w ++ l) = trim p l := by
  rw [trim, dropWhile_append_all h, trim]

theorem trim_append_right (l : List α) (h : All p w) : trim p (l ++ w) = trim p l := by
  obtain ⟨v, hv, heq⟩ := exists_dropWhile_parts p l
  cases hl : l.dropWhile p with
  | nil =>
    rw [hl, List.append_nil] at heq
    subst heq
    rw [trim, dropWhile_append_all hv, trim, hl, List.dropWhile_eq_nil_iff.2 h]
  | cons x m =>
    have hx : p x = false := head_dropWhile (l := l) (by rw [hl]; rfl)
    have hhead : ∀ y ∈ (x :: m ++ w).head?, p y = false := fun y hy => Option.some.inj hy ▸ hx
    conv_lhs => rw [heq, List.append_assoc, trim_append_left hv, hl, trim, dropWhile_of_head hhead]
    rw [rdropWhile_append_all h, trim, hl]

theorem trim_parts (h : All p w) (hm : Bare p m) (h' : All p w') : trim p (w ++ m ++ w') = m := by
  rw [trim_append_right _ h', trim_append_left h, trim_of_bare hm]

theorem trim_eq_nil (h : All p l) : trim p l = [] := by
  rw [trim, List.dropWhile_eq_nil_iff.2 h]
  rfl

theorem all_of_trim_eq_nil (h : trim p l = []) : All p l := by
  obtain ⟨w, w', hw, hw', heq⟩ := exists_trim_parts p l
  rw [heq, h, List.append_nil]
  exact hw.append hw'

theorem mem_of_mem_trim (h : x ∈ trim p l) : x ∈ l := by
  obtain ⟨w, w', -, -, heq⟩ := exists_trim_parts p l
  rw [heq]
  exact List.mem_append_left _ (List.mem_append_right _ h)

theorem length_trim_le (p : α → Bool) (l : List α) : (trim p l).length ≤ l.length := by
  obtain ⟨w, w', -, -, heq⟩ := exists_trim_parts p l
  conv_rhs => rw [heq, List.length_append, List.length_append]
  omega

theorem count_trim [DecidableEq α] (hx : p x = false) (l : List α) : (trim p l).count x = l.count x := by
  have hzero : ∀ w : List α, All p w → w.count x = 0 := by
    intro w hw
    refine List.count_eq_zero.2 fun hmem => ?_
    rw [hw x hmem] at hx
    cases hx
  obtain ⟨w, w', hw, hw', heq⟩ := exists_trim_parts p l
  conv_rhs => rw [heq, List.count_append, List.count_append, hzero w hw, hzero w' hw']
  simp

/-- Where trimming at the front stops at an element that is not in `w`, all of `w` was trimmed. -/
theorem all_of_head_dropWhile (hx : x ∉ w) (h : ((w ++ l).dropWhile p).head? = some x) : All p w := by
  induction w with
  | nil => exact All.nil
  | cons y w ih =>
    rw [List.cons_append, List.dropWhile_cons] at h
    split at h
    · rename_i hy
      intro z hz
      rcases List.mem_cons.1 hz with rfl | hz
      · exact hy
      · exact ih (fun hmem => hx (List.mem_cons_of_mem _ hmem)) h z hz
    · obtain rfl := Option.some.inj h
      exact absurd List.mem_cons_self hx

theorem all_of_head_trim (hx : x ∉ w) (h : (trim p (w ++ l)).head? = some x) : All p w := by
  obtain ⟨v, -, heq⟩ := exists_rdropWhile_parts p ((w ++ l).dropWhile p)
  refine all_of_head_dropWhile hx (l := l) ?_
  have hne : ((w ++ l).dropWhile p).rdropWhile p ≠ [] := by
    rintro hnil
    rw [trim, hnil] at h
    cases h
  rw [heq, List.head?_append_of_ne_nil _ hne]
  exact h

/-- Where trimming at the end stops at an element that is not in `w`, all of `w` was trimmed. -/
theorem all_of_last_trim (hx : x ∉ w) (h : (trim p (l ++ w)).getLast? = some x) : All p w := by
  obtain ⟨v, -, heq⟩ := exists_dropWhile_parts p (l ++ w)
  have hne : ((l ++ w).dropWhile p).rdropWhile p ≠ [] := by
    rintro hnil
    rw [trim, hnil] at h
    cases h
  have hlast : ((l ++ w).rdropWhile p).getLast? = some x := by
    rw [heq, rdropWhile_append_of_ne_nil _ hne, List.getLast?_append_of_ne_nil _ hne]
    exact h
  rw [List.rdropWhile, List.getLast?_reverse, List.reverse_append] at hlast
  have hall := all_of_head_dropWhile (fun hmem => hx (List.mem_reverse.1 hmem)) hlast
  exact fun y hy => hall y (List.mem_reverse.2 hy)

/-- Trimming less first makes no difference. -/
theorem trim_trim (hpq : ∀ x, p x = true → q x = true) (l : List α) : trim q (trim p l) = trim q l := by
  obtain ⟨w, w', hw, hw', heq⟩ := exists_trim_parts p l
  conv_rhs => rw [heq, trim_append_right _ (hw'.mono hpq), trim_append_left (hw.mono hpq)]

end Trim
