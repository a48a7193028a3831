import CubridWebManager.Lib.Dict
import Mathlib.Data.List.Nodup

/-!
# Keys that were seen before

One pass over a list of names with a key each, and a map from the keys seen so far to the name that each was first seen
with: `repeats` are the names whose key was seen before.  There is none just if the keys are distinct
(`repeats_eq_nil_iff`), each stands behind the name that its key was first seen with (`sublist_of_mem_repeats`), and a
key that `n` names have is repeated `n - 1` times (`count_repeats`).
-/

namespace FirstSeen

variable {α κ : Type*} [DecidableEq κ]

structure Repeat (α κ : Type*) where
  name : α
  key : κ
  first : α

/-- The name is kept for a key that is new. -/
def note (seen : Dict κ α) (name : α) (key : κ) : Dict κ α :=
  match seen.get? key with
  | some _ => seen
  | none => seen.set key name

def repeats (seen : Dict κ α) : List (α × κ) → List (Repeat α κ)
  | [] => []
  | (name, key) :: rest =>
    ((seen.get? key).map fun first => ⟨name, key, first⟩).toList ++ repeats (note seen name key) rest

variable {seen : Dict κ α} {name : α} {key : κ} {l : List (α × κ)}

theorem get?_note (seen : Dict κ α) (name : α) (key k : κ) :
    (note seen name key).get? k = (seen.get? k).or (if k = key then some name else none) := by
  unfold note
  cases hkey : seen.get? key with
  | some first =>
    by_cases heq : k = key
    · simp [heq, hkey]
    · simp [heq]
  | none =>
    rw [Dict.get?_set]
    by_cases heq : k = key
    · simp [heq, hkey]
    · simp [heq]

theorem repeats_eq_nil_iff :
    repeats seen l = [] ↔ (l.map Prod.snd).Nodup ∧ ∀ e ∈ l, seen.get? e.2 = none := by
  induction l generalizing seen with
  | nil => simp [repeats]
  | cons e l ih =>
    obtain ⟨name, key⟩ := e
    cases hkey : seen.get? key with
    | some first => simp [repeats, hkey]
    | none =>
      simp only [repeats, hkey, Option.map_none, Option.toList_none, List.nil_append, ih, List.map_cons,
        List.nodup_cons, List.mem_cons, forall_eq_or_imp, get?_note, true_and]
      constructor
      · rintro ⟨hnodup, hnew⟩
        refine ⟨⟨fun hmem => ?_, hnodup⟩, fun e he => ?_⟩
        · obtain ⟨e, he, rfl⟩ := List.mem_map.1 hmem
          have hnone := hnew e he
          simp [hkey] at hnone
        · have hnone := hnew e he
          cases hget : seen.get? e.2 with
          | none => rfl
          | some first => simp [hget] at hnone
      · rintro ⟨⟨hfirst, hnodup⟩, hnew⟩
        refine ⟨hnodup, fun e he => ?_⟩
        have hne : e.2 ≠ key := fun heq => hfirst (heq ▸ List.mem_map_of_mem he)
        simp [hnew e he, hne]

/-- The name that the key was first seen with is a name of the map, or stands before. -/
theorem sublist_or_get?_of_mem_repeats {r : Repeat α κ} (h : r ∈ repeats seen l) :
    seen.get? r.key = some r.first ∧ (r.name, r.key) ∈ l ∨ [(r.first, r.key), (r.name, r.key)].Sublist l := by
  induction l generalizing seen with
  | nil => cases h
  | cons e l ih =>
    obtain ⟨name, key⟩ := e
    rcases List.mem_append.1 h with hnow | hlater
    · cases hkey : seen.get? key with
      | none => simp [hkey] at hnow
      | some first =>
        simp only [hkey, Option.map_some, Option.toList_some, List.mem_singleton] at hnow
        subst hnow
        exact .inl ⟨hkey, List.mem_cons_self⟩
    · rcases ih hlater with ⟨hget, hmem⟩ | hsub
      · rw [get?_note] at hget
        cases hseen : seen.get? r.key with
        | some first =>
          rw [hseen] at hget
          exact .inl ⟨hget, List.mem_cons_of_mem _ hmem⟩
        | none =>
          by_cases heq : r.key = key
          · rw [hseen, Option.none_or, if_pos heq] at hget
            refine .inr ?_
            rw [heq, ← Option.some.inj hget]
            exact .cons_cons _ (List.singleton_sublist.2 (heq ▸ hmem))
          · simp [hseen, heq] at hget
      · exact .inr (.cons _ hsub)

theorem sublist_of_mem_repeats {r : Repeat α κ} (h : r ∈ repeats .empty l) :
    [(r.first, r.key), (r.name, r.key)].Sublist l := by
  rcases sublist_or_get?_of_mem_repeats h with ⟨hget, -⟩ | hsub
  · rw [Dict.get?_empty] at hget
    cases hget
  · exact hsub

theorem count_repeats_add (k : κ) : ((repeats seen l).filter fun r => r.key = k).length =
    (l.map Prod.snd).count k - if (seen.get? k).isSome then 0 else 1 := by
  induction l generalizing seen with
  | nil => simp [repeats]
  | cons e l ih =>
    obtain ⟨name, key⟩ := e
    rw [repeats, List.filter_append, List.length_append, ih, get?_note, List.map_cons, List.count_cons]
    by_cases heq : key = k
    · subst heq
      cases hkey : seen.get? key with
      | some first =>
        simp
        omega
      | none => simp
    · cases hkey : seen.get? key with
      | some first => simp [heq, Ne.symm heq]
      | none => simp [heq, Ne.symm heq]

/-- A key that `n` names have is repeated `n - 1` times. -/
theorem count_repeats (k : κ) :
    ((repeats (.empty : Dict κ α) l).filter fun r => r.key = k).length = (l.map Prod.snd).count k - 1 := by
  rw [count_repeats_add, Dict.get?_empty]
  rfl

end FirstSeen
