import Mathlib.Data.List.Induction

/-!
# What holds since an action

A store takes actions one after another: `after next s as` is its state after the actions `as`.  Where a property of the
state begins with some actions and ends with others, it holds after `as` just if an action of `as` began it and no later
one ended it (`holds_iff_since`).
-/

namespace Dispatch

variable {σ α : Type*} {next : σ → α → σ} {s : σ} {as : List α}

/-- The state after the actions. -/
def after (next : σ → α → σ) (s : σ) (as : List α) : σ := as.foldl next s

/-- Every action of the run has the property in the state in which it is taken. -/
def Throughout (next : σ → α → σ) (p : σ → α → Prop) (s : σ) (as : List α) : Prop :=
  ∀ before a rest, as = before ++ a :: rest → p (after next s before) a

/-- One of the actions begins something, and none after it ends it. -/
def Since (next : σ → α → σ) (begins ends : σ → α → Prop) (s : σ) (as : List α) : Prop :=
  ∃ before a rest, as = before ++ a :: rest ∧ begins (after next s before) a ∧
    Throughout next (fun s b => ¬ends s b) (after next s (before ++ [a])) rest

theorem after_append (as bs : List α) : after next s (as ++ bs) = after next (after next s as) bs := List.foldl_append

theorem after_concat (as : List α) (a : α) : after next s (as ++ [a]) = next (after next s as) a := after_append as [a]

theorem throughout_nil (p : σ → α → Prop) : Throughout next p s [] := by
  intro before a rest h
  simp at h

theorem throughout_concat {p : σ → α → Prop} {a : α} :
    Throughout next p s (as ++ [a]) ↔ Throughout next p s as ∧ p (after next s as) a := by
  constructor
  · refine fun h => ⟨fun before b rest heq => ?_, h as a [] rfl⟩
    refine h before b (rest ++ [a]) ?_
    rw [heq, List.append_assoc, List.cons_append]
  · rintro ⟨h, ha⟩ before b rest heq
    rcases List.eq_nil_or_concat rest with rfl | ⟨rest, c, rfl⟩
    · obtain ⟨rfl, hab⟩ := List.append_inj' heq rfl
      obtain rfl : a = b := List.singleton_inj.1 hab
      exact ha
    · rw [List.concat_eq_append, ← List.cons_append, ← List.append_assoc] at heq
      exact h before b rest (List.append_inj' heq rfl).1

variable {begins ends : σ → α → Prop}

theorem not_since_nil : ¬Since next begins ends s [] := by
  rintro ⟨before, a, rest, heq, -⟩
  simp at heq

theorem since_concat {a : α} :
    Since next begins ends s (as ++ [a]) ↔
      begins (after next s as) a ∨ Since next begins ends s as ∧ ¬ends (after next s as) a := by
  constructor
  · rintro ⟨before, b, rest, heq, hbegins, hlasts⟩
    rcases List.eq_nil_or_concat rest with rfl | ⟨rest, c, rfl⟩
    · obtain ⟨rfl, hab⟩ := List.append_inj' heq rfl
      obtain rfl : a = b := List.singleton_inj.1 hab
      exact .inl hbegins
    · rw [List.concat_eq_append] at heq hlasts
      rw [← List.cons_append, ← List.append_assoc] at heq
      obtain ⟨rfl, hac⟩ := List.append_inj' heq rfl
      obtain rfl : a = c := List.singleton_inj.1 hac
      obtain ⟨hrest, ha⟩ := throughout_concat.1 hlasts
      rw [← after_append, List.append_assoc, List.singleton_append] at ha
      exact .inr ⟨⟨before, b, rest, rfl, hbegins, hrest⟩, ha⟩
  · rintro (hbegins | ⟨⟨before, b, rest, rfl, hbegins, hrest⟩, ha⟩)
    · exact ⟨as, a, [], rfl, hbegins, throughout_nil _⟩
    · refine ⟨before, b, rest ++ [a], by simp, hbegins, throughout_concat.2 ⟨hrest, ?_⟩⟩
      rw [← after_append, List.append_assoc, List.singleton_append]
      exact ha

/-- A property that holds after an action just if the action begins it, or it held before and the action does not end
it, holds since it was begun. -/
theorem holds_iff_since {P : σ → Prop} (hstep : ∀ s a, P (next s a) ↔ begins s a ∨ P s ∧ ¬ends s a) (hs : ¬P s)
    (as : List α) : P (after next s as) ↔ Since next begins ends s as := by
  induction as using List.reverseRecOn with
  | nil => exact iff_of_false hs not_since_nil
  | append_singleton as a ih => rw [after_concat, hstep, since_concat, ih]

end Dispatch
