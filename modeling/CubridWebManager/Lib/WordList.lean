import CubridWebManager.Lib.SepList

/-!
# Lists of words

`words q l` are the parts of `l` between the elements that `q` holds of, without the empty ones.  They are the items of
`l` between the separators `sep` just if no item has such an element in it (`words_eq_items`).  An element put in front of
a list, or behind it, changes only its first, or its last, item (`exists_items_cons`, `exists_items_concat`).
-/

namespace SepList

variable {α : Type*} [DecidableEq α] {sep x : α} {p q : α → Bool} {l w m : List α}

/-- The parts between the elements that `q` holds of, without the empty ones. -/
def words (q : α → Bool) (l : List α) : List (List α) := (l.splitOnP q).filter (· ≠ [])

theorem words_append_cons (a b : List α) (hx : q x = true) : words q (a ++ x :: b) = words q a ++ words q b := by
  rw [words, List.splitOnP_append_cons _ _ hx, List.filter_append, words, words]

theorem words_of_none (h : ∀ x ∈ l, q x = false) : words q l = [l].filter (· ≠ []) := by
  rw [words, List.splitOnP_eq_singleton h]

theorem words_all_append (hw : Trim.All q w) (l : List α) : words q (w ++ l) = words q l := by
  induction w with
  | nil => rfl
  | cons x w ih =>
    have hcons := words_append_cons [] (w ++ l) (hw x List.mem_cons_self)
    rw [List.nil_append, words_of_none (l := []) (fun x hx => absurd hx List.not_mem_nil)] at hcons
    rw [List.cons_append, hcons, ih fun y hy => hw y (List.mem_cons_of_mem _ hy)]
    rfl

theorem words_append_all (l : List α) (hw : Trim.All q w) : words q (l ++ w) = words q l := by
  induction w generalizing l with
  | nil => rw [List.append_nil]
  | cons x w ih =>
    have hall : Trim.All q w := fun y hy => hw y (List.mem_cons_of_mem _ hy)
    have hnil : words q w = words q [] := ih [] hall
    rw [words_append_cons _ _ (hw x List.mem_cons_self), hnil,
      words_of_none (l := []) (fun x hx => absurd hx List.not_mem_nil)]
    exact List.append_nil _

theorem not_mem_of_mem_words (h : m ∈ words q l) (hx : x ∈ m) : q x = false := by
  replace h := List.mem_of_mem_filter h
  induction l generalizing m with
  | nil =>
    rw [List.splitOnP_nil] at h
    rw [List.mem_singleton.1 h] at hx
    cases hx
  | cons y l ih =>
    rw [List.splitOnP_cons_eq_if_modifyHead] at h
    obtain ⟨t, ts, hsplit⟩ := List.exists_cons_of_ne_nil (List.splitOnP_ne_nil q l)
    split at h
    · rcases List.mem_cons.1 h with rfl | h
      · cases hx
      · exact ih hx h
    · rename_i hy
      rw [hsplit, List.modifyHead_cons] at h
      rcases List.mem_cons.1 h with rfl | h
      · rcases List.mem_cons.1 hx with rfl | hx
        · simpa using hy
        · exact ih hx (hsplit ▸ List.mem_cons_self)
      · exact ih hx (hsplit ▸ List.mem_cons_of_mem _ h)

/-- The words are the items, where these are words. -/
theorem words_eq_items (hpq : ∀ x, p x = true → q x = true) (hsep : q sep = true) (l : List α)
    (h : ∀ m ∈ items sep p l, ∀ x ∈ m, q x = false) : words q l = items sep p l := by
  by_cases hmem : sep ∈ l
  · obtain ⟨a, b, hl, -⟩ := List.eq_append_cons_of_mem hmem
    have hlength : a.length < l.length ∧ b.length < l.length := by
      rw [hl, List.length_append, List.length_cons]
      omega
    rw [hl, items_append_cons] at h
    rw [hl, words_append_cons a b hsep, items_append_cons,
      words_eq_items hpq hsep a fun m hm => h m (List.mem_append_left _ hm),
      words_eq_items hpq hsep b fun m hm => h m (List.mem_append_right _ hm)]
  · rw [items_of_not_mem hmem] at h ⊢
    obtain ⟨w, w', hw, hw', hl⟩ := Trim.exists_trim_parts p l
    have hwords : words q l = words q (Trim.trim p l) := by
      conv_lhs => rw [hl, words_append_all _ (hw'.mono hpq), words_all_append (hw.mono hpq)]
    rw [hwords]
    refine words_of_none fun x hx => h _ (List.mem_filter.2 ⟨List.mem_singleton_self _, ?_⟩) x hx
    exact decide_eq_true (List.ne_nil_of_mem hx)
termination_by l.length
decreasing_by
  · exact hlength.1
  · exact hlength.2

/-! ### An element at an end -/

theorem exists_items_cons (hx : p x = false) (hne : x ≠ sep) (l : List α) : ∃ a rest,
    items sep p (x :: l) = (x :: a.rdropWhile p) :: rest ∧ items sep p l = [Trim.trim p a].filter (· ≠ []) ++ rest := by
  have hfirst : ∀ a : List α, sep ∉ a → items sep p (x :: a) = [x :: a.rdropWhile p] := by
    intro a ha
    have htrim : Trim.trim p (x :: a) = x :: a.rdropWhile p := by
      rw [Trim.trim, List.dropWhile_cons_of_neg (by simp [hx])]
      by_cases hnil : a.rdropWhile p = []
      · have hall : Trim.All p a := fun y hy => List.rdropWhile_eq_nil_iff.1 hnil y hy
        have hcons := Trim.rdropWhile_append_all hall [x]
        rw [List.singleton_append] at hcons
        rw [hcons, hnil]
        exact Trim.rdropWhile_of_last fun y hy => by rw [← Option.some.inj hy]; exact hx
      · exact Trim.rdropWhile_append_of_ne_nil [x] hnil
    rw [items_of_not_mem (by simp [hne.symm, ha]), htrim]
    rfl
  by_cases hmem : sep ∈ l
  · obtain ⟨a, b, rfl, ha⟩ := List.eq_append_cons_of_mem hmem
    refine ⟨a, items sep p b, ?_, ?_⟩
    · rw [← List.cons_append, items_append_cons, hfirst a ha, List.singleton_append]
    · rw [items_append_cons, items_of_not_mem ha]
  · exact ⟨l, [], hfirst l hmem, by rw [items_of_not_mem hmem, List.append_nil]⟩

theorem exists_items_concat (hx : p x = false) (hne : x ≠ sep) (l : List α) : ∃ a init,
    items sep p (l ++ [x]) = init ++ [a.dropWhile p ++ [x]] ∧ items sep p l = init ++ [Trim.trim p a].filter (· ≠ []) := by
  have hlast : ∀ a : List α, sep ∉ a → items sep p (a ++ [x]) = [a.dropWhile p ++ [x]] := by
    intro a ha
    have hdrop : (a ++ [x]).dropWhile p = a.dropWhile p ++ [x] := by
      obtain ⟨w, hw, heq⟩ := Trim.exists_dropWhile_parts p a
      conv_lhs => rw [heq, List.append_assoc, Trim.dropWhile_append_all hw]
      refine Trim.dropWhile_of_head fun y hy => ?_
      rw [List.head?_append] at hy
      cases hhead : (a.dropWhile p).head? with
      | some z =>
        rw [hhead] at hy
        obtain rfl : z = y := Option.some.inj hy
        exact Trim.head_dropWhile hhead
      | none =>
        rw [hhead] at hy
        rw [← Option.some.inj hy]
        exact hx
    have htrim : Trim.trim p (a ++ [x]) = a.dropWhile p ++ [x] := by
      rw [Trim.trim, hdrop]
      refine Trim.rdropWhile_of_last fun y hy => ?_
      rw [List.getLast?_concat] at hy
      rw [← Option.some.inj hy]
      exact hx
    rw [items_of_not_mem (by simp [hne.symm, ha]), htrim]
    refine List.filter_eq_self.2 fun m hm => decide_eq_true ?_
    rw [List.mem_singleton.1 hm]
    exact List.append_ne_nil_of_right_ne_nil _ (List.cons_ne_nil _ _)
  by_cases hmem : sep ∈ l
  · -- the last separator
    obtain ⟨b, a, hrev, hb⟩ := List.eq_append_cons_of_mem (List.mem_reverse.2 hmem)
    have hl : l = a.reverse ++ sep :: b.reverse := by
      rw [← List.reverse_reverse l, hrev]
      simp
    have hb' : sep ∉ b.reverse := fun h => hb (List.mem_reverse.1 h)
    refine ⟨b.reverse, items sep p a.reverse, ?_, ?_⟩
    · rw [hl, List.append_assoc, List.cons_append, items_append_cons, hlast _ hb']
    · rw [hl, items_append_cons, items_of_not_mem hb']
  · exact ⟨l, [], hlast l hmem, by rw [items_of_not_mem hmem, List.nil_append]⟩

end SepList
