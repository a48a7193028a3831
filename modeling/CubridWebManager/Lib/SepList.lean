import CubridWebManager.Lib.Trim
import Mathlib.Data.List.Basic

/-!
# Lists with a separator

`items sep p l` are the parts of `l` between the separators, trimmed, without the empty ones.  What is trimmed from `l`
itself makes no difference (`items_append_all`, `items_all_append`), and a list that is put together from parts with the
separator between them has their items (`items_intercalate`).
-/

namespace SepList

variable {α : Type*} [DecidableEq α] {sep : α} {p : α → Bool} {l w m : List α}

/-- The parts between the separators, trimmed, without the empty ones. -/
def items (sep : α) (p : α → Bool) (l : List α) : List (List α) :=
  ((l.splitOn sep).map (Trim.trim p)).filter (· ≠ [])

/-- What an item is like. -/
structure IsItem (sep : α) (p : α → Bool) (m : List α) : Prop where
  ne_nil : m ≠ []
  bare : Trim.Bare p m
  not_mem : sep ∉ m

theorem not_mem_of_mem_splitOn (h : m ∈ l.splitOn sep) : sep ∉ m := by
  induction l generalizing m with
  | nil =>
    have hnil : m ∈ [([] : List α)] := by simpa using h
    rw [List.mem_singleton.1 hnil]
    exact List.not_mem_nil
  | cons x l ih =>
    rw [List.splitOn_cons_eq_if_modifyHead] at h
    split at h
    · rcases List.mem_cons.1 h with rfl | h
      · exact List.not_mem_nil
      · exact ih h
    · rename_i hx
      obtain ⟨t, ts, hsplit⟩ := List.exists_cons_of_ne_nil (List.splitOn_ne_nil sep l)
      rw [hsplit, List.modifyHead_cons] at h
      rcases List.mem_cons.1 h with rfl | h
      · have hne : sep ≠ x := fun heq => hx (by simp [heq])
        have ht : sep ∉ t := ih (hsplit ▸ List.mem_cons_self)
        simp [hne, ht]
      · exact ih (hsplit ▸ List.mem_cons_of_mem _ h)

theorem isItem_of_mem_items (h : m ∈ items sep p l) : IsItem sep p m := by
  obtain ⟨hmem, hne⟩ := List.mem_filter.1 h
  obtain ⟨part, hpart, rfl⟩ := List.mem_map.1 hmem
  exact ⟨of_decide_eq_true hne, Trim.bare_trim p part,
    fun hsep => not_mem_of_mem_splitOn hpart (Trim.mem_of_mem_trim hsep)⟩

theorem exists_mem_splitOn {x : α} (hx : x ∈ l) (hne : x ≠ sep) : ∃ part ∈ l.splitOn sep, x ∈ part := by
  induction l with
  | nil => cases hx
  | cons y l ih =>
    rw [List.splitOn_cons_eq_if_modifyHead]
    split
    · rename_i hy
      have hmem : x ∈ l := (List.mem_cons.1 hx).resolve_left fun heq => hne (heq.trans (beq_iff_eq.1 hy))
      obtain ⟨part, hpart, hxpart⟩ := ih hmem
      exact ⟨part, List.mem_cons_of_mem _ hpart, hxpart⟩
    · obtain ⟨t, ts, hsplit⟩ := List.exists_cons_of_ne_nil (List.splitOn_ne_nil sep l)
      rw [hsplit] at ih
      rw [hsplit, List.modifyHead_cons]
      rcases List.mem_cons.1 hx with rfl | hmem
      · exact ⟨x :: t, List.mem_cons_self, List.mem_cons_self⟩
      · obtain ⟨part, hpart, hxpart⟩ := ih hmem
        rcases List.mem_cons.1 hpart with rfl | hpart
        · exact ⟨y :: part, List.mem_cons_self, List.mem_cons_of_mem _ hxpart⟩
        · exact ⟨part, List.mem_cons_of_mem _ hpart, hxpart⟩

theorem mem_of_mem_splitOn {part : List α} {x : α} (hpart : part ∈ l.splitOn sep) (hx : x ∈ part) : x ∈ l := by
  induction l generalizing part with
  | nil =>
    have hnil : part ∈ [([] : List α)] := by simpa using hpart
    rw [List.mem_singleton.1 hnil] at hx
    cases hx
  | cons y l ih =>
    rw [List.splitOn_cons_eq_if_modifyHead] at hpart
    split at hpart
    · rcases List.mem_cons.1 hpart with rfl | hpart
      · cases hx
      · exact List.mem_cons_of_mem _ (ih hpart hx)
    · obtain ⟨t, ts, hsplit⟩ := List.exists_cons_of_ne_nil (List.splitOn_ne_nil sep l)
      rw [hsplit, List.modifyHead_cons] at hpart
      rcases List.mem_cons.1 hpart with rfl | hpart
      · rcases List.mem_cons.1 hx with rfl | hx
        · exact List.mem_cons_self
        · exact List.mem_cons_of_mem _ (ih (hsplit ▸ List.mem_cons_self) hx)
      · exact List.mem_cons_of_mem _ (ih (hsplit ▸ List.mem_cons_of_mem _ hpart) hx)

theorem mem_of_mem_items {x : α} (hm : m ∈ items sep p l) (hx : x ∈ m) : x ∈ l := by
  obtain ⟨hmem, -⟩ := List.mem_filter.1 hm
  obtain ⟨part, hpart, rfl⟩ := List.mem_map.1 hmem
  exact mem_of_mem_splitOn hpart (Trim.mem_of_mem_trim hx)

/-- What is neither a separator nor trimmed is in an item. -/
theorem items_ne_nil {x : α} (hx : x ∈ l) (hne : x ≠ sep) (hp : p x = false) : items sep p l ≠ [] := by
  obtain ⟨part, hpart, hxpart⟩ := exists_mem_splitOn hx hne
  refine List.ne_nil_of_mem (a := Trim.trim p part) (List.mem_filter.2 ⟨List.mem_map_of_mem hpart, ?_⟩)
  refine decide_eq_true fun hnil => ?_
  have hall := Trim.all_of_trim_eq_nil hnil x hxpart
  rw [hp] at hall
  cases hall

/-! ### Parts -/

theorem items_of_not_mem (h : sep ∉ l) : items sep p l = [Trim.trim p l].filter (· ≠ []) := by
  rw [items, List.splitOn_eq_singleton h, List.map_singleton]

theorem items_append_cons (a b : List α) : items sep p (a ++ sep :: b) = items sep p a ++ items sep p b := by
  rw [items, List.splitOn_append_cons_self, List.map_append, List.filter_append, items, items]

omit [DecidableEq α] in
theorem mem_of_mem_intercalate {parts : List (List α)} {x : α} (h : x ∈ [sep].intercalate parts) :
    x = sep ∨ ∃ part ∈ parts, x ∈ part := by
  induction parts with
  | nil => cases h
  | cons part parts ih =>
    by_cases hnil : parts = []
    · subst hnil
      rw [List.intercalate_singleton] at h
      exact .inr ⟨part, List.mem_cons_self, h⟩
    · rw [List.intercalate_cons_of_ne_nil hnil] at h
      simp only [List.mem_append, List.mem_singleton] at h
      rcases h with (h | h) | h
      · exact .inr ⟨part, List.mem_cons_self, h⟩
      · exact .inl h
      · rcases ih h with h | ⟨part', hpart', hx⟩
        · exact .inl h
        · exact .inr ⟨part', List.mem_cons_of_mem _ hpart', hx⟩

omit [DecidableEq α] in
/-- The last part is at the end. -/
theorem exists_intercalate_concat (parts : List (List α)) (part : List α) :
    ∃ init, [sep].intercalate (parts ++ [part]) = init ++ part := by
  induction parts with
  | nil => exact ⟨[], by simp⟩
  | cons first parts ih =>
    obtain ⟨init, hinit⟩ := ih
    refine ⟨first ++ [sep] ++ init, ?_⟩
    rw [List.cons_append, List.intercalate_cons_of_ne_nil (by simp), hinit]
    simp

/-- The items of a list put together from parts. -/
theorem items_intercalate {parts : List (List α)} (h : ∀ part ∈ parts, sep ∉ part) :
    items sep p ([sep].intercalate parts) = (parts.map (Trim.trim p)).filter (· ≠ []) := by
  cases parts with
  | nil => simp [items, Trim.trim]
  | cons part parts => rw [items, List.splitOn_intercalate sep h (List.cons_ne_nil _ _)]

/-- Parts that are the items but for what is trimmed. -/
theorem items_intercalate_eq {parts names : List (List α)} (hparts : ∀ part ∈ parts, sep ∉ part)
    (htrim : parts.map (Trim.trim p) = names) (hnames : ∀ name ∈ names, IsItem sep p name) :
    items sep p ([sep].intercalate parts) = names := by
  rw [items_intercalate hparts, htrim]
  exact List.filter_eq_self.2 fun name hname => decide_eq_true (hnames name hname).ne_nil

/-! ### Trimming the whole list -/

section trim

variable (hsep : p sep = false)

include hsep

theorem items_append_all (hw : Trim.All p w) (l : List α) : items sep p (l ++ w) = items sep p l := by
  have hlast : ∀ b : List α, sep ∉ b → items sep p (b ++ w) = items sep p b := by
    intro b hb
    have hbw : sep ∉ b ++ w := by
      rw [List.mem_append, not_or]
      exact ⟨hb, hw.not_mem hsep⟩
    rw [items_of_not_mem hbw, items_of_not_mem hb, Trim.trim_append_right _ hw]
  by_cases hmem : sep ∈ l
  · -- the last separator
    obtain ⟨b, a, hrev, hb⟩ := List.eq_append_cons_of_mem (List.mem_reverse.2 hmem)
    have hl : l = a.reverse ++ sep :: b.reverse := by
      rw [← List.reverse_reverse l, hrev]
      simp
    rw [hl, List.append_assoc, List.cons_append, items_append_cons, items_append_cons,
      hlast _ fun h => hb (List.mem_reverse.1 h)]
  · exact hlast l hmem

theorem items_all_append (hw : Trim.All p w) (l : List α) : items sep p (w ++ l) = items sep p l := by
  have hfirst : ∀ a : List α, sep ∉ a → items sep p (w ++ a) = items sep p a := by
    intro a ha
    have hwa : sep ∉ w ++ a := by
      rw [List.mem_append, not_or]
      exact ⟨hw.not_mem hsep, ha⟩
    rw [items_of_not_mem hwa, items_of_not_mem ha, Trim.trim_append_left hw]
  by_cases hmem : sep ∈ l
  · obtain ⟨a, b, rfl, ha⟩ := List.eq_append_cons_of_mem hmem
    rw [← List.append_assoc, items_append_cons, items_append_cons, hfirst a ha]
  · exact hfirst l hmem

/-- Trimming less, or the same, first makes no difference. -/
theorem items_trim {q : α → Bool} (hq : ∀ x, q x = true → p x = true) (l : List α) :
    items sep p (Trim.trim q l) = items sep p l := by
  obtain ⟨w, w', hw, hw', heq⟩ := Trim.exists_trim_parts q l
  conv_rhs => rw [heq, items_append_all hsep (hw'.mono hq), items_all_append hsep (hw.mono hq)]

theorem items_rdropWhile {q : α → Bool} (hq : ∀ x, q x = true → p x = true) (l : List α) :
    items sep p (l.rdropWhile q) = items sep p l := by
  obtain ⟨w, hw, heq⟩ := Trim.exists_rdropWhile_parts q l
  conv_rhs => rw [heq, items_append_all hsep (hw.mono hq)]

/-- The first element that is not trimmed begins the first item. -/
theorem head_items {x : α} (hx : (l.dropWhile p).head? = some x) (hne : x ≠ sep) :
    ∃ m ∈ (items sep p l).head?, m.head? = some x := by
  obtain ⟨w, hw, heq⟩ := Trim.exists_dropWhile_parts p l
  obtain ⟨t, ht⟩ := List.head?_eq_some_iff.1 hx
  have hpx : p x = false := Trim.head_dropWhile hx
  rw [ht] at heq
  have hfirst : ∀ a : List α, sep ∉ a → ∃ m, items sep p (x :: a) = [m] ∧ m.head? = some x := by
    intro a ha
    have htrim : (Trim.trim p (x :: a)).head? = some x := Trim.head_trim_cons hpx a
    refine ⟨_, ?_, htrim⟩
    have hxa : sep ∉ x :: a := by simp [hne.symm, ha]
    rw [items_of_not_mem hxa]
    refine List.filter_eq_self.2 fun m hm => decide_eq_true fun hnil => ?_
    rw [← List.mem_singleton.1 hm, hnil] at htrim
    cases htrim
  rw [heq, items_all_append hsep hw]
  by_cases hmem : sep ∈ t
  · obtain ⟨a, b, rfl, ha⟩ := List.eq_append_cons_of_mem hmem
    obtain ⟨m, hm, hhead⟩ := hfirst a ha
    refine ⟨m, ?_, hhead⟩
    rw [← List.cons_append, items_append_cons, hm]
    rfl
  · obtain ⟨m, hm, hhead⟩ := hfirst t hmem
    exact ⟨m, by rw [hm]; rfl, hhead⟩

theorem items_of_all (hl : Trim.All p l) : items sep p l = [] := by
  rw [items_of_not_mem (hl.not_mem hsep), Trim.trim_eq_nil hl]
  simp

end trim

end SepList
