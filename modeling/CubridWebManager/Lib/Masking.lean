import CubridWebManager.Lib.Json

/-!
# Masking the values under some keys

A JSON value with a mark in place of each value under a key that is `sensitive`, and without the fields whose key is not
`keep`.  The values of a JSON tree are found by paths of keys and indices, and `outline` is what a value shows without
its children.  The tree is `Masked` as it should be just if every key that is reached is kept (`masked_mask_iff`), and
to mask twice is to mask once (`mask_mask`).
-/

namespace Json

/-- The way from a value to a child. -/
inductive Step
  | key (k : String)
  | index (i : Nat)

def child? : Json → Step → Option Json
  | obj fields, .key k => fields.lookup k
  | arr items, .index i => items[i]?
  | _, _ => none

/-- The value that a path leads to. -/
def at? (v : Json) : List Step → Option Json
  | [] => some v
  | s :: path => (v.child? s).bind fun c => c.at? path

/-- A value without its children. -/
inductive Outline
  | null
  | bool (b : Bool)
  | number (n : Rat)
  | str (s : String)
  | arr (length : Nat)
  | obj (keys : List String)

def outline : Json → Outline
  | null => .null
  | bool b => .bool b
  | number n => .number n
  | str s => .str s
  | arr items => .arr items.length
  | obj fields => .obj (fields.map Prod.fst)

section mask

variable (keep sensitive : String → Bool) (mark : String)

mutual

def mask : Json → Json
  | arr items => arr (maskItems items)
  | obj fields => obj (maskFields fields)
  | v => v

def maskItems : List Json → List Json
  | [] => []
  | v :: items => mask v :: maskItems items

def maskFields : List (String × Json) → List (String × Json)
  | [] => []
  | (k, v) :: fields =>
    if keep k then (k, if sensitive k then str mark else mask v) :: maskFields fields else maskFields fields

end

/-- The values under sensitive keys are the mark, wherever they are, and everything that is reached without passing
such a key is there as it was: the keys of each object, the length of each array and each other value. -/
structure Masked (v w : Json) : Prop where
  marked : ∀ path k rest u, sensitive k = true → w.at? (path ++ .key k :: rest) = some u → u = str mark
  kept : ∀ path, (∀ k, .key k ∈ path → sensitive k = false) → (w.at? path).map outline = (v.at? path).map outline

/-- The keys that are reached without passing a sensitive one are kept. -/
def Keeps (v : Json) : Prop :=
  ∀ path fields, (∀ k, .key k ∈ path → sensitive k = false) → v.at? path = some (obj fields) →
    ∀ k ∈ fields.map Prod.fst, keep k = true

end mask

section mask

variable {keep sensitive : String → Bool} {mark : String} {v w c : Json} {s : Step} {k : String}

theorem maskItems_eq (items : List Json) :
    maskItems keep sensitive mark items = items.map (mask keep sensitive mark) := by
  induction items with
  | nil => rfl
  | cons v items ih => rw [maskItems, ih, List.map_cons]

theorem keys_maskFields (fields : List (String × Json)) :
    (maskFields keep sensitive mark fields).map Prod.fst = (fields.map Prod.fst).filter keep := by
  induction fields with
  | nil => rfl
  | cons f fields ih =>
    obtain ⟨k, v⟩ := f
    rw [maskFields, List.map_cons, List.filter_cons]
    split
    · rw [List.map_cons, ih]
    · exact ih

theorem lookup_maskFields (fields : List (String × Json)) (k : String) :
    (maskFields keep sensitive mark fields).lookup k =
      if keep k then (fields.lookup k).map fun v => if sensitive k then str mark else mask keep sensitive mark v
      else none := by
  induction fields with
  | nil => simp [maskFields]
  | cons f fields ih =>
    obtain ⟨k', v⟩ := f
    rw [maskFields, List.lookup_cons]
    by_cases hk : k = k'
    · subst hk
      by_cases hkeep : keep k = true
      · simp [hkeep]
      · simp [hkeep, ih]
    · have hne : (k == k') = false := beq_false_of_ne hk
      rw [hne]
      split
      · rw [List.lookup_cons, hne]
        exact ih
      · exact ih

mutual

/-- To mask twice is to mask once. -/
theorem mask_mask : ∀ v : Json, mask keep sensitive mark (mask keep sensitive mark v) = mask keep sensitive mark v
  | null => rfl
  | bool _ => rfl
  | number _ => rfl
  | str _ => rfl
  | arr items => by rw [mask, mask, maskItems_maskItems items]
  | obj fields => by rw [mask, mask, maskFields_maskFields fields]

theorem maskItems_maskItems : ∀ items : List Json,
    maskItems keep sensitive mark (maskItems keep sensitive mark items) = maskItems keep sensitive mark items
  | [] => rfl
  | v :: items => by rw [maskItems, maskItems, mask_mask v, maskItems_maskItems items]

theorem maskFields_maskFields : ∀ fields : List (String × Json),
    maskFields keep sensitive mark (maskFields keep sensitive mark fields) = maskFields keep sensitive mark fields
  | [] => rfl
  | (k, v) :: fields => by
    rw [maskFields]
    split
    · rename_i hkeep
      rw [maskFields, if_pos hkeep, maskFields_maskFields fields]
      split
      · rfl
      · rw [mask_mask v]
    · exact maskFields_maskFields fields

end

theorem child?_mask_key (v : Json) (k : String) :
    (mask keep sensitive mark v).child? (.key k) =
      if keep k then (v.child? (.key k)).map fun c => if sensitive k then str mark else mask keep sensitive mark c
      else none := by
  cases v with
  | obj fields => exact lookup_maskFields fields k
  | arr items => simp [mask, child?]
  | _ => simp [mask, child?]

theorem child?_mask_index (v : Json) (i : Nat) :
    (mask keep sensitive mark v).child? (.index i) = (v.child? (.index i)).map (mask keep sensitive mark) := by
  cases v with
  | arr items => simp [mask, child?, maskItems_eq]
  | _ => rfl

theorem at?_cons (v : Json) (s : Step) (path : List Step) : v.at? (s :: path) = (v.child? s).bind fun c => c.at? path :=
  rfl

/-- A text has no children. -/
theorem at?_str {path : List Step} (h : path ≠ []) (t : String) : (str t).at? path = none := by
  cases path with
  | nil => exact absurd rfl h
  | cons s path => cases s <;> rfl

/-- In a masked value a path with a sensitive key leads to the mark, and no further. -/
theorem marked_mask (path rest : List Step) (v u : Json) (hk : sensitive k = true)
    (h : (mask keep sensitive mark v).at? (path ++ .key k :: rest) = some u) : u = str mark := by
  induction path generalizing v with
  | nil =>
    obtain ⟨c, hc, hu⟩ := Option.bind_eq_some_iff.1 h
    rw [child?_mask_key] at hc
    by_cases hkeep : keep k = true
    · rw [if_pos hkeep] at hc
      obtain ⟨c', -, hmark⟩ := Option.map_eq_some_iff.1 hc
      rw [if_pos hk] at hmark
      rw [← hmark] at hu
      cases rest with
      | nil => exact (Option.some.inj hu).symm
      | cons s rest =>
        rw [at?_str (List.cons_ne_nil s rest)] at hu
        cases hu
    · rw [if_neg hkeep] at hc
      cases hc
  | cons s path ih =>
    rw [List.cons_append, at?_cons] at h
    obtain ⟨c, hc, hu⟩ := Option.bind_eq_some_iff.1 h
    cases s with
    | index i =>
      rw [child?_mask_index] at hc
      obtain ⟨c', -, rfl⟩ := Option.map_eq_some_iff.1 hc
      exact ih c' hu
    | key k' =>
      rw [child?_mask_key] at hc
      by_cases hkeep : keep k' = true
      · rw [if_pos hkeep] at hc
        obtain ⟨c', -, rfl⟩ := Option.map_eq_some_iff.1 hc
        by_cases hk' : sensitive k' = true
        · rw [if_pos hk', at?_str (by simp)] at hu
          cases hu
        · rw [if_neg hk'] at hu
          exact ih c' hu
      · rw [if_neg hkeep] at hc
        cases hc

theorem mem_keys_of_child? (h : v.child? (.key k) = some c) : ∃ fields, v = obj fields ∧ k ∈ fields.map Prod.fst := by
  cases v with
  | obj fields =>
    obtain ⟨l, l', hfields, -⟩ := List.lookup_eq_some_iff.1 h
    exact ⟨fields, rfl, List.mem_map.2 ⟨(k, c), by simp [hfields], rfl⟩⟩
  | _ => cases h

/-- A child that is kept and not under a sensitive key is masked in turn. -/
theorem child?_mask (hs : ∀ k, s = .key k → sensitive k = false) (hkeep : ∀ k, s = .key k → keep k = true) :
    (mask keep sensitive mark v).child? s = (v.child? s).map (mask keep sensitive mark) := by
  cases s with
  | index i => exact child?_mask_index v i
  | key k =>
    rw [child?_mask_key, if_pos (hkeep k rfl)]
    simp only [hs k rfl, Bool.false_eq_true, if_false]

theorem Keeps.keep_key (h : Keeps keep sensitive v) (hc : v.child? (.key k) = some c) : keep k = true := by
  obtain ⟨fields, rfl, hk⟩ := mem_keys_of_child? hc
  exact h [] fields (fun _ hk => absurd hk List.not_mem_nil) rfl k hk

theorem Keeps.child (h : Keeps keep sensitive v) (hs : ∀ k, s = .key k → sensitive k = false)
    (hc : v.child? s = some c) : Keeps keep sensitive c := by
  intro path fields hpath hfields
  refine h (s :: path) fields (fun k hk => ?_) ?_
  · rcases List.mem_cons.1 hk with rfl | hk
    · exact hs k rfl
    · exact hpath k hk
  · rw [at?_cons, hc]
    exact hfields

theorem kept_mask (path : List Step) (v : Json) (h : Keeps keep sensitive v)
    (hpath : ∀ k, .key k ∈ path → sensitive k = false) :
    ((mask keep sensitive mark v).at? path).map outline = (v.at? path).map outline := by
  induction path generalizing v with
  | nil =>
    cases v with
    | obj fields =>
      have hkeys := h [] fields (fun _ hk => absurd hk List.not_mem_nil) rfl
      simp only [at?, mask, outline, Option.map_some, keys_maskFields, List.filter_eq_self.2 hkeys]
    | arr items => simp [at?, mask, outline, maskItems_eq]
    | _ => rfl
  | cons s path ih =>
    have hs : ∀ k, s = .key k → sensitive k = false := fun k hk => hpath k (hk ▸ List.mem_cons_self)
    have hrest : ∀ k, Step.key k ∈ path → sensitive k = false := fun k hk => hpath k (List.mem_cons_of_mem s hk)
    rw [at?_cons, at?_cons]
    cases hc : v.child? s with
    | none =>
      have hnone : (mask keep sensitive mark v).child? s = none := by
        cases s with
        | index i => rw [child?_mask_index, hc, Option.map_none]
        | key k => rw [child?_mask_key, hc, Option.map_none, ite_self]
      simp only [hnone, Option.bind_none]
    | some c =>
      have hkeep : ∀ k, s = .key k → keep k = true := fun k hk => h.keep_key (hk ▸ hc)
      rw [child?_mask hs hkeep, hc]
      exact ih c (h.child hs hc) hrest

theorem Masked.child (h : Masked sensitive mark v w) (hs : ∀ k, s = .key k → sensitive k = false) {c' : Json}
    (hc : v.child? s = some c) (hc' : w.child? s = some c') : Masked sensitive mark c c' := by
  refine ⟨fun path k rest u hk hu => h.marked (s :: path) k rest u hk ?_, fun path hpath => ?_⟩
  · rw [List.cons_append, at?_cons, hc']
    exact hu
  · have hkept := h.kept (s :: path) fun k hk => ?_
    · rw [at?_cons, at?_cons, hc, hc'] at hkept
      exact hkept
    · rcases List.mem_cons.1 hk with rfl | hk
      · exact hs k rfl
      · exact hpath k hk

/-- The keys of an object are in the masked object, so they are kept. -/
theorem Masked.keep_keys {fields : List (String × Json)}
    (h : Masked sensitive mark (obj fields) (mask keep sensitive mark (obj fields))) :
    ∀ k ∈ fields.map Prod.fst, keep k = true := by
  have hkept := h.kept [] fun _ hk => absurd hk List.not_mem_nil
  simp only [at?, mask, outline, Option.map_some, Option.some.injEq, Outline.obj.injEq, keys_maskFields] at hkept
  exact List.filter_eq_self.1 hkept

/-- A value is masked as it should be just if all its keys outside the masked parts are kept. -/
theorem masked_mask_iff : Masked sensitive mark v (mask keep sensitive mark v) ↔ Keeps keep sensitive v := by
  refine ⟨fun h path => ?_, fun h => ⟨fun path k rest u => marked_mask path rest v u, fun path => kept_mask path v h⟩⟩
  induction path generalizing v with
  | nil =>
    rintro fields - hfields
    obtain rfl := Option.some.inj hfields
    exact h.keep_keys
  | cons s path ih =>
    intro fields hpath hfields
    have hs : ∀ k, s = .key k → sensitive k = false := fun k hk => hpath k (hk ▸ List.mem_cons_self)
    obtain ⟨c, hc, hat⟩ := Option.bind_eq_some_iff.1 hfields
    have hkeep : ∀ k, s = .key k → keep k = true := by
      rintro k rfl
      obtain ⟨fields', rfl, hk⟩ := mem_keys_of_child? hc
      exact h.keep_keys k hk
    have hc' : (mask keep sensitive mark v).child? s = some (mask keep sensitive mark c) := by
      rw [child?_mask hs hkeep, hc, Option.map_some]
    exact ih (h.child hs hc hc') fields (fun k hk => hpath k (List.mem_cons_of_mem s hk)) hat

end mask

end Json
