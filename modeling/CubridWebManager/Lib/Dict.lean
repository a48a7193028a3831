import Mathlib.Data.List.Basic
import Mathlib.Data.List.Nodup

/-!
# Finite maps in insertion order

A `Dict` is a list of key–value pairs with distinct keys, in the order in which the keys were added: setting a key
that is present replaces its value in place, setting a new one appends it.  This is how the objects and maps of
JavaScript behave (for keys that are not array indices), and how a JSON file of one object reads back.
-/

structure Dict (κ : Type*) (α : Type*) where
  entries : List (κ × α)
  nodup : (entries.map Prod.fst).Nodup
  deriving DecidableEq

namespace Dict

variable {κ α : Type*}

def empty : Dict κ α := ⟨[], List.nodup_nil⟩

def keys (d : Dict κ α) : List κ := d.entries.map Prod.fst

/-- The pairs that satisfy `p`. -/
def filter (p : κ → α → Bool) (d : Dict κ α) : Dict κ α where
  entries := d.entries.filter fun e => p e.1 e.2
  nodup := d.nodup.sublist (List.Sublist.map _ List.filter_sublist)

variable [DecidableEq κ]

def get? (d : Dict κ α) (k : κ) : Option α := (d.entries.find? fun e => e.1 = k).map Prod.snd

def erase (d : Dict κ α) (k : κ) : Dict κ α := d.filter fun k' _ => k' ≠ k

private def setEntries (k : κ) (v : α) : List (κ × α) → List (κ × α)
  | [] => [(k, v)]
  | e :: es => if e.1 = k then (k, v) :: es else e :: setEntries k v es

private theorem mem_map_setEntries {k k' : κ} {v : α} {es : List (κ × α)} :
    k' ∈ (setEntries k v es).map Prod.fst ↔ k' = k ∨ k' ∈ es.map Prod.fst := by
  induction es with
  | nil => simp [setEntries]
  | cons e es ih =>
    unfold setEntries
    split
    · rename_i h
      simp only [List.map_cons, List.mem_cons, h]
      tauto
    · simp only [List.map_cons, List.mem_cons, ih]
      tauto

private theorem nodup_setEntries {k : κ} {v : α} {es : List (κ × α)} (h : (es.map Prod.fst).Nodup) :
    ((setEntries k v es).map Prod.fst).Nodup := by
  induction es with
  | nil => simp [setEntries]
  | cons e es ih =>
    rw [List.map_cons, List.nodup_cons] at h
    unfold setEntries
    split
    · rename_i he
      rw [List.map_cons, List.nodup_cons, ← he]
      exact h
    · rename_i he
      rw [List.map_cons, List.nodup_cons, mem_map_setEntries]
      exact ⟨by rintro (h' | h'); exacts [he h', h.1 h'], ih h.2⟩

/-- The value of `k` becomes `v`: in place if `k` is present, at the end otherwise. -/
def set (d : Dict κ α) (k : κ) (v : α) : Dict κ α := ⟨setEntries k v d.entries, nodup_setEntries d.nodup⟩

theorem get?_eq_some_iff {d : Dict κ α} {k : κ} {v : α} : d.get? k = some v ↔ (k, v) ∈ d.entries := by
  obtain ⟨es, hnd⟩ := d
  simp only [get?]
  induction es with
  | nil => simp
  | cons e es ih =>
    obtain ⟨k₀, v₀⟩ := e
    rw [List.map_cons, List.nodup_cons] at hnd
    by_cases h : k₀ = k
    · subst h
      simp only [List.find?_cons, decide_true, Option.map_some, Option.some.injEq, List.mem_cons, Prod.mk.injEq,
        true_and]
      exact ⟨fun h => .inl h.symm, fun h => h.elim Eq.symm fun h =>
        absurd (List.mem_map_of_mem (f := Prod.fst) h) hnd.1⟩
    · have hne : ¬ k = k₀ := fun h' => h h'.symm
      simp only [List.find?_cons, h, decide_false, List.mem_cons, Prod.mk.injEq, hne, false_and, false_or]
      exact ih hnd.2

theorem mem_keys {d : Dict κ α} {k : κ} : k ∈ d.keys ↔ ∃ v, d.get? k = some v := by
  simp [keys, get?_eq_some_iff]

@[simp] theorem get?_empty (k : κ) : (empty : Dict κ α).get? k = none := rfl

theorem get?_filter (p : κ → α → Bool) (d : Dict κ α) (k : κ) :
    (d.filter p).get? k = (d.get? k).filter fun v => p k v := by
  apply Option.ext
  intro v
  rw [get?_eq_some_iff, Option.filter_eq_some_iff, get?_eq_some_iff]
  simp [filter, List.mem_filter]

theorem get?_erase (d : Dict κ α) (k k' : κ) : (d.erase k).get? k' = if k' = k then none else d.get? k' := by
  rw [erase, get?_filter]
  split <;> cases d.get? k' <;> simp_all [Option.filter]

@[simp] theorem get?_erase_self (d : Dict κ α) (k : κ) : (d.erase k).get? k = none := by rw [get?_erase, if_pos rfl]

theorem get?_set (d : Dict κ α) (k k' : κ) (v : α) :
    (d.set k v).get? k' = if k' = k then some v else d.get? k' := by
  obtain ⟨es, hnd⟩ := d
  simp only [get?, set]
  clear hnd
  induction es with
  | nil => by_cases h : k = k' <;> simp [setEntries, h, eq_comm]
  | cons e es ih =>
    unfold setEntries
    by_cases he : e.1 = k
    · by_cases h : k' = k
      · simp [he, h]
      · have hk : ¬ k = k' := fun h' => h h'.symm
        simp [he, h, hk]
    · by_cases h : e.1 = k'
      · have hk : ¬ k' = k := fun h' => he (h.trans h')
        simp [h, hk]
      · simp only [he, ↓reduceIte, List.find?_cons, h, decide_false]
        exact ih

theorem mem_keys_set (d : Dict κ α) (k k' : κ) (v : α) : k' ∈ (d.set k v).keys ↔ k' ∈ d.keys ∨ k' = k := by
  rw [mem_keys, mem_keys, get?_set]
  by_cases h : k' = k
  · simp [h]
  · simp [h]

/-- A key of the pairs that satisfy `p` is a key. -/
theorem keys_filter_subset (p : κ → α → Bool) (d : Dict κ α) : (d.filter p).keys ⊆ d.keys :=
  (List.filter_sublist.map _).subset

/-- A new key goes to the end. -/
theorem entries_set_of_not_mem {d : Dict κ α} {k : κ} (h : k ∉ d.keys) (v : α) :
    (d.set k v).entries = d.entries ++ [(k, v)] := by
  obtain ⟨es, hnd⟩ := d
  simp only [set, keys] at h ⊢
  clear hnd
  induction es with
  | nil => rfl
  | cons e es ih =>
    rw [List.map_cons, List.mem_cons, not_or] at h
    rw [setEntries, if_neg (Ne.symm h.1), ih h.2, List.cons_append]

@[simp] theorem get?_set_self (d : Dict κ α) (k : κ) (v : α) : (d.set k v).get? k = some v := by
  rw [get?_set, if_pos rfl]

/-- The pairs one after another; of two with one key the last counts. -/
def ofList (es : List (κ × α)) : Dict κ α := es.foldl (fun d e => d.set e.1 e.2) .empty

/-- Every value is changed. -/
def map (f : α → α) (d : Dict κ α) : Dict κ α where
  entries := d.entries.map fun e => (e.1, f e.2)
  nodup := by
    have hkeys : (d.entries.map fun e => (e.1, f e.2)).map Prod.fst = d.entries.map Prod.fst := by simp
    rw [hkeys]
    exact d.nodup

theorem get?_map (f : α → α) (d : Dict κ α) (k : κ) : (d.map f).get? k = (d.get? k).map f := by
  simp only [get?, map, List.find?_map, Option.map_map]
  rfl

/-! ### The pairs, in any order -/

omit [DecidableEq κ] in
theorem nodup_entries (d : Dict κ α) : d.entries.Nodup := d.nodup.of_map

/-- To set a key is to leave out what it had and to add the new pair. -/
theorem set_perm (d : Dict κ α) (k : κ) (v : α) : (d.set k v).entries.Perm ((k, v) :: (d.erase k).entries) := by
  rw [List.perm_ext_iff_of_nodup (nodup_entries _)]
  · rintro ⟨k', v'⟩
    rw [← get?_eq_some_iff, get?_set, List.mem_cons, ← get?_eq_some_iff, get?_erase, Prod.mk.injEq]
    by_cases hk : k' = k <;> simp [hk, eq_comm]
  · refine List.nodup_cons.2 ⟨fun hmem => ?_, nodup_entries _⟩
    rw [← get?_eq_some_iff, get?_erase_self] at hmem
    cases hmem

theorem perm_erase {d : Dict κ α} {k : κ} {v : α} (h : d.get? k = some v) :
    d.entries.Perm ((k, v) :: (d.erase k).entries) := by
  rw [List.perm_ext_iff_of_nodup (nodup_entries _)]
  · rintro ⟨k', v'⟩
    rw [← get?_eq_some_iff, List.mem_cons, ← get?_eq_some_iff, get?_erase, Prod.mk.injEq]
    by_cases hk : k' = k
    · simp [hk, h, eq_comm]
    · simp [hk]
  · refine List.nodup_cons.2 ⟨fun hmem => ?_, nodup_entries _⟩
    rw [← get?_eq_some_iff, get?_erase_self] at hmem
    cases hmem

theorem erase_of_none {d : Dict κ α} {k : κ} (h : d.get? k = none) : d.erase k = d := by
  obtain ⟨es, hnd⟩ := d
  have hne : ∀ e ∈ es, e.1 ≠ k := by
    rintro ⟨k', v⟩ he rfl
    cases h.symm.trans (get?_eq_some_iff.2 he)
  simp only [erase, filter, mk.injEq, List.filter_eq_self]
  exact fun e he => decide_eq_true (hne e he)

/-- To set a key to what it has changes nothing. -/
theorem set_of_get? {d : Dict κ α} {k : κ} {v : α} (h : d.get? k = some v) : d.set k v = d := by
  obtain ⟨es, hnd⟩ := d
  have hmem := get?_eq_some_iff.1 h
  simp only [set, mk.injEq]
  clear h
  induction es with
  | nil => cases hmem
  | cons e es ih =>
    rw [List.map_cons, List.nodup_cons] at hnd
    unfold setEntries
    split
    · rename_i hk
      rcases List.mem_cons.1 hmem with rfl | hmem
      · rfl
      · exact absurd (hk ▸ List.mem_map_of_mem (f := Prod.fst) hmem) hnd.1
    · rename_i hk
      rcases List.mem_cons.1 hmem with rfl | hmem
      · exact absurd rfl hk
      · rw [ih hnd.2 hmem]

/-- Every pair of `d` is one of `d'`. -/
def Within (d d' : Dict κ α) : Prop := ∀ ⦃k v⦄, d.get? k = some v → d'.get? k = some v

theorem Within.refl (d : Dict κ α) : d.Within d := fun _ _ h => h

theorem Within.trans {d₁ d₂ d₃ : Dict κ α} (h : d₁.Within d₂) (h' : d₂.Within d₃) : d₁.Within d₃ :=
  fun _ _ hget => h' (h hget)

theorem erase_within (d : Dict κ α) (k : κ) : (d.erase k).Within d := by
  intro k' v h
  rw [get?_erase] at h
  split at h
  · cases h
  · exact h

end Dict
