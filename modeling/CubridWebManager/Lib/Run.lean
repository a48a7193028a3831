import Mathlib.Logic.Relation

/-!
# Runs of a transition system

A system is given by its step function: `step s a` is the state after the action `a`, or `none` where `a` is not
enabled.  `Run step ok s as s'` says that the actions `as` lead from `s` to `s'`, every one of them meeting the
condition `ok` in the state in which it is taken.  The unconditional runs are those with `ok := Always`.

The rules used with it: an invariant of the steps is an invariant of the runs (`Run.invariant`), and a property that
every step either keeps or ends with a marked action lasts as long as no marked action is taken (`Run.lasts`).
-/

namespace Transition

variable {σ α : Type*}

/-- The condition that every action meets. -/
def Always : σ → α → Prop := fun _ _ => True

/-- The actions lead from the first state to the last, each meeting `ok` in the state it is taken in. -/
inductive Run (step : σ → α → Option σ) (ok : σ → α → Prop) : σ → List α → σ → Prop
  | nil (s : σ) : Run step ok s [] s
  | cons {s s₁ s' : σ} {a : α} {as : List α} (hok : ok s a) (hstep : step s a = some s₁)
      (hrun : Run step ok s₁ as s') : Run step ok s (a :: as) s'

variable {step : σ → α → Option σ} {ok : σ → α → Prop}

namespace Run

theorem append {s s₁ s' : σ} {as bs : List α} (h : Run step ok s as s₁) (h' : Run step ok s₁ bs s') :
    Run step ok s (as ++ bs) s' := by
  induction h with
  | nil s => exact h'
  | cons hok hstep _ ih => exact .cons hok hstep (ih h')

theorem single {s s' : σ} {a : α} (hok : ok s a) (h : step s a = some s') : Run step ok s [a] s' :=
  .cons hok h (.nil s')

theorem mono {ok' : σ → α → Prop} (himp : ∀ s a, ok s a → ok' s a) {s s' : σ} {as : List α}
    (h : Run step ok s as s') : Run step ok' s as s' := by
  induction h with
  | nil s => exact .nil s
  | cons hok hstep _ ih => exact .cons (himp _ _ hok) hstep ih

/-- A run whose actions all satisfy `p`. -/
theorem restrict {p : α → Prop} {s s' : σ} {as : List α} (h : Run step ok s as s') (hp : ∀ a ∈ as, p a) :
    Run step (fun s a => ok s a ∧ p a) s as s' := by
  induction h with
  | nil s => exact .nil s
  | cons hok hstep _ ih =>
    exact .cons ⟨hok, hp _ List.mem_cons_self⟩ hstep (ih fun a ha => hp a (List.mem_cons_of_mem _ ha))

/-- A run whose actions meet two conditions. -/
theorem both {ok' : σ → α → Prop} {s s' : σ} {as : List α} (h : Run step ok s as s') (h' : Run step ok' s as s') :
    Run step (fun s a => ok s a ∧ ok' s a) s as s' := by
  induction h with
  | nil s => exact .nil s
  | cons hok hstep _ ih =>
    cases h' with
    | cons hok' hstep' hrest =>
      obtain rfl := Option.some.inj (hstep.symm.trans hstep')
      exact .cons ⟨hok, hok'⟩ hstep (ih hrest)

/-- What every step meeting the condition keeps, every run keeps. -/
theorem invariant {I : σ → Prop} (hI : ∀ s a s', I s → ok s a → step s a = some s' → I s') {s s' : σ}
    {as : List α} (h : Run step ok s as s') (hs : I s) : I s' := by
  induction h with
  | nil s => exact hs
  | cons hok hstep _ ih => exact ih (hI _ _ _ hs hok hstep)

/-- A property `P` of the states with invariant `I` that only the actions marked by `ends` can end lasts through a
run without marked actions. -/
theorem lasts {I P : σ → Prop} {ends : σ → α → Prop}
    (hI : ∀ s a s', I s → ok s a → step s a = some s' → I s')
    (hP : ∀ s a s', I s → P s → ok s a → ¬ ends s a → step s a = some s' → P s') {s s' : σ} {as : List α}
    (h : Run step (fun s a => ok s a ∧ ¬ ends s a) s as s') (hs : I s) (hp : P s) : P s' :=
  (h.invariant (I := fun s => I s ∧ P s) (fun _ _ _ hi hok hstep =>
    ⟨hI _ _ _ hi.1 hok.1 hstep, hP _ _ _ hi.1 hi.2 hok.1 hok.2 hstep⟩) ⟨hs, hp⟩).2

/-- Where a step keeps an invariant just when it meets the condition, the runs of which every state has the invariant
are those whose steps all meet it. -/
theorem prefixes_iff {I : σ → Prop} (hI : ∀ s a s', I s → step s a = some s' → (I s' ↔ ok s a)) {s s' : σ} {as : List α}
    (h : Run step Always s as s') (hs : I s) :
    (∀ bs s₁, bs <+: as → Run step Always s bs s₁ → I s₁) ↔ Run step ok s as s' := by
  induction h with
  | nil s =>
    refine ⟨fun _ => .nil s, fun _ bs s₁ hbs hrun => ?_⟩
    obtain rfl := List.prefix_nil.1 hbs
    cases hrun
    exact hs
  | @cons s s₁ s' a as _ hstep hrun ih =>
    constructor
    · intro hall
      have hs₁ := hall [a] s₁ (List.prefix_cons_inj a |>.2 List.nil_prefix) (.single trivial hstep)
      refine .cons ((hI _ _ _ hs hstep).1 hs₁) hstep ((ih hs₁).1 fun bs s₂ hbs hrun₂ => ?_)
      exact hall (a :: bs) s₂ ((List.prefix_cons_inj a).2 hbs) (.cons trivial hstep hrun₂)
    · rintro (_ | ⟨hok, hstep', hrest⟩) bs s₂ hbs hrun₂
      obtain rfl := Option.some.inj (hstep'.symm.trans hstep)
      have hs₁ := (hI _ _ _ hs hstep).2 hok
      cases hrun₂ with
      | nil => exact hs
      | cons _ hstep₂ hrest₂ =>
        obtain ⟨rfl, htail⟩ := List.cons_prefix_cons.1 hbs
        obtain rfl := Option.some.inj (hstep₂.symm.trans hstep)
        exact (ih hs₁).2 hrest _ s₂ htail hrest₂

end Run

/-- The state after the actions, if each is enabled and meets the condition. -/
def runChecked (step : σ → α → Option σ) (ok : σ → α → Prop) [∀ s a, Decidable (ok s a)] : σ → List α → Option σ
  | s, [] => some s
  | s, a :: as => if ok s a then (step s a).bind fun s₁ => runChecked step ok s₁ as else none

/-- Running the actions builds a run. -/
theorem Run.of_runChecked [hd : ∀ s a, Decidable (ok s a)] {as : List α} {s s' : σ}
    (h : runChecked step ok s as = some s') : Run step ok s as s' := by
  induction as generalizing s with
  | nil =>
    obtain rfl : s = s' := Option.some.inj h
    exact .nil s
  | cons a as ih =>
    unfold runChecked at h
    split at h
    · rename_i hok
      obtain ⟨s₁, hstep, hrest⟩ := Option.bind_eq_some_iff.1 h
      exact .cons hok hstep (ih hrest)
    · cases h

/-- A run to a state with a decidable property, found by running the actions. -/
theorem exists_run [hd : ∀ s a, Decidable (ok s a)] {P : σ → Prop} [DecidablePred P] {s : σ} {as : List α}
    (h : (runChecked step ok s as).any (fun s' => decide (P s')) = true) : ∃ s', Run step ok s as s' ∧ P s' := by
  obtain ⟨s', hs', hp⟩ := (Option.any_eq_true _ _).1 h
  exact ⟨s', .of_runChecked hs', of_decide_eq_true hp⟩

instance : ∀ (s : σ) (a : α), Decidable (Always s a) := fun _ _ => inferInstanceAs (Decidable True)

end Transition
