import Mathlib.Algebra.BigOperators.Group.List.Basic
import Mathlib.Data.List.Chain
import Mathlib.Data.List.Induction
import Mathlib.Tactic.Abel

/-!
# Samples and baselines

A meter takes samples one after the other and measures each against the last one that it took, its baseline; a sample
that comes too soon after the baseline is passed over.  `taken` are the samples that it took, in order: each but the
first was measured against the one before it (`isChain_taken`).

What is gained from sample to sample telescopes where a gain is a difference (`sumGains_eq`), and where a sample starts
anew or goes on with the start of the one before it, the start is that of the longest run without a new one
(`exists_run`).
-/

namespace Baseline

variable {σ ι : Type*}

/-- The samples taken; `measure` makes one from the baseline and a reading. -/
def taken (tooSoon : σ → ι → Bool) (measure : Option σ → ι → σ) (readings : List ι) : List σ :=
  readings.foldl (fun samples i =>
    if samples.getLast?.any (tooSoon · i) then samples else samples ++ [measure samples.getLast? i]) []

/-- The baseline after the readings. -/
def baseline (tooSoon : σ → ι → Bool) (measure : Option σ → ι → σ) (readings : List ι) : Option σ :=
  readings.foldl (fun prev i => if prev.any (tooSoon · i) then prev else some (measure prev i)) none

variable {tooSoon : σ → ι → Bool} {measure : Option σ → ι → σ}

theorem taken_concat (readings : List ι) (i : ι) :
    taken tooSoon measure (readings ++ [i]) =
      if (taken tooSoon measure readings).getLast?.any (tooSoon · i) then taken tooSoon measure readings
      else taken tooSoon measure readings ++ [measure (taken tooSoon measure readings).getLast? i] := by
  rw [taken, List.foldl_append, ← taken]
  rfl

/-- The baseline is the last sample taken. -/
theorem baseline_eq (readings : List ι) :
    baseline tooSoon measure readings = (taken tooSoon measure readings).getLast? := by
  induction readings using List.reverseRecOn with
  | nil => rfl
  | append_singleton readings i ih =>
    rw [taken_concat, baseline, List.foldl_append, ← baseline, ih]
    show (if _ then _ else _) = _
    split
    · rfl
    · rw [List.getLast?_concat]

variable (tooSoon measure) in
/-- Every sample but the first was measured against the one before it. -/
theorem isChain_taken (readings : List ι) :
    (taken tooSoon measure readings).IsChain fun a b => ∃ i, tooSoon a i = false ∧ b = measure (some a) i := by
  induction readings using List.reverseRecOn with
  | nil => exact List.IsChain.nil
  | append_singleton readings i ih =>
    rw [taken_concat]
    split
    · exact ih
    · rename_i hsoon
      refine List.IsChain.append ih (List.isChain_singleton _) fun a ha b hb => ⟨i, ?_, ?_⟩
      · have hlast : (taken tooSoon measure readings).getLast? = some a := ha
        simpa [hlast] using hsoon
      · have hlast : (taken tooSoon measure readings).getLast? = some a := ha
        rw [← Option.some.inj hb, hlast]

variable (tooSoon measure) in
/-- The first sample was measured against none. -/
theorem head?_taken (readings : List ι) : ∀ a ∈ (taken tooSoon measure readings).head?, ∃ i, a = measure none i := by
  induction readings using List.reverseRecOn with
  | nil => nofun
  | append_singleton readings i ih =>
    rw [taken_concat]
    split
    · exact ih
    · intro a ha
      cases hsamples : taken tooSoon measure readings with
      | nil =>
        rw [hsamples] at ha
        exact ⟨i, (Option.some.inj ha).symm⟩
      | cons b samples =>
        rw [hsamples] at ha ih
        exact ih a ha

/-- A sample was measured against the one before it, or against none. -/
theorem exists_measure {readings : List ι} {before after : List σ} {b : σ}
    (hsplit : taken tooSoon measure readings = before ++ b :: after) :
    ∃ i, b = measure before.getLast? i ∧ ∀ a ∈ before.getLast?, tooSoon a i = false := by
  rcases List.eq_nil_or_concat' before with rfl | ⟨before, a, rfl⟩
  · obtain ⟨i, hi⟩ := head?_taken tooSoon measure readings b (by rw [hsplit]; rfl)
    exact ⟨i, hi, nofun⟩
  · have hchain := isChain_taken tooSoon measure readings
    rw [hsplit, List.append_assoc, List.singleton_append, List.isChain_append] at hchain
    obtain ⟨i, hsoon, hi⟩ := (List.isChain_cons_cons.1 hchain.2.1).1
    rw [List.getLast?_concat]
    refine ⟨i, hi, fun c hc => ?_⟩
    rw [← Option.some.inj hc]
    exact hsoon

/-- A reading that comes too soon changes nothing. -/
theorem taken_concat_of_tooSoon {readings : List ι} {prev : σ} {i : ι}
    (hprev : (taken tooSoon measure readings).getLast? = some prev) (hsoon : tooSoon prev i = true) :
    taken tooSoon measure (readings ++ [i]) = taken tooSoon measure readings := by
  rw [taken_concat, hprev, if_pos]
  exact hsoon

/-- A run of samples in which a relation holds from one to the next: each was also measured against the one before. -/
theorem isChain_run {readings : List ι} {before run after : List σ} {p : σ → σ → Prop}
    (hsplit : taken tooSoon measure readings = before ++ run ++ after) (hrun : run.IsChain p) :
    run.IsChain fun a b => (∃ i, tooSoon a i = false ∧ b = measure (some a) i) ∧ p a b := by
  have hchain := isChain_taken tooSoon measure readings
  rw [hsplit, List.append_assoc, List.isChain_append, List.isChain_append] at hchain
  rw [List.isChain_iff_getElem] at hrun ⊢
  intro k hk
  exact ⟨List.isChain_iff_getElem.1 hchain.2.1.1 k hk, hrun k hk⟩

/-! ### Gains -/

section gains

variable {α : Type*} [AddCommGroup α]

/-- What is gained from one sample to the next, over all of them. -/
def sumGains (gain : σ → σ → α) : List σ → α
  | a :: b :: samples => gain a b + sumGains gain (b :: samples)
  | _ => 0

theorem sumGains_eq {gain : σ → σ → α} (value : σ → α) {first : σ} {rest : List σ}
    (h : (first :: rest).IsChain fun a b => gain a b = value b - value a) :
    sumGains gain (first :: rest) = value ((first :: rest).getLast (List.cons_ne_nil _ _)) - value first := by
  induction rest generalizing first with
  | nil => simp [sumGains]
  | cons b rest ih =>
    rw [List.isChain_cons_cons] at h
    rw [sumGains, ih h.2, h.1, List.getLast_cons (List.cons_ne_nil b rest)]
    abel

end gains

/-! ### Runs without a new start -/

theorem eq_of_isChain {τ : Type*} {f : σ → τ} {first : σ} {same : List σ}
    (h : (first :: same).IsChain fun a b => f b = f a) : ∀ a ∈ same, f a = f first := by
  induction same generalizing first with
  | nil => nofun
  | cons b same ih =>
    rw [List.isChain_cons_cons] at h
    rintro a (_ | ⟨_, ha⟩)
    · exact h.1
    · exact (ih h.2 a ha).trans h.1

/-- Where every sample either starts anew or has the start of the one before it, the start of a sample is that of the
first one of a run in which no later one starts anew. -/
theorem exists_run {τ : Type*} {fresh : σ → σ → Prop} {start : σ → τ} {own : σ → τ} {samples : List σ}
    (hfirst : ∀ a ∈ samples.head?, start a = own a)
    (h : samples.IsChain fun a b => fresh a b ∧ start b = own b ∨ ¬fresh a b ∧ start b = start a)
    {before after : List σ} {b : σ} (hsplit : samples = before ++ b :: after) :
    ∃ earlier first same, before ++ [b] = earlier ++ first :: same ∧
      (first :: same).IsChain (fun a b => ¬fresh a b) ∧ (∀ a ∈ earlier.getLast?, fresh a first) ∧
      start b = own first := by
  induction before using List.reverseRecOn generalizing b after with
  | nil =>
    refine ⟨[], b, [], rfl, List.isChain_singleton _, nofun, hfirst b ?_⟩
    rw [hsplit]
    rfl
  | append_singleton before a ih =>
    have hpair := h
    rw [hsplit, List.append_assoc, List.singleton_append] at hpair
    rcases (List.isChain_cons_cons.1 (List.isChain_append.1 hpair).2.1).1 with ⟨hfresh, hstart⟩ | ⟨hsame, hstart⟩
    · refine ⟨before ++ [a], b, [], rfl, List.isChain_singleton _, fun c hc => ?_, hstart⟩
      rw [List.getLast?_concat] at hc
      rw [← Option.some.inj hc]
      exact hfresh
    · have hbefore : samples = before ++ a :: b :: after := by
        rw [hsplit, List.append_assoc, List.singleton_append]
      obtain ⟨earlier, first, same, hrun, hchain, hearlier, ha⟩ := ih hbefore
      refine ⟨earlier, first, same ++ [b], by rw [hrun]; simp, ?_, hearlier, hstart.trans ha⟩
      rw [← List.cons_append]
      refine List.IsChain.append hchain (List.isChain_singleton _) fun c hc d hd => ?_
      have hlast : (before ++ [a]).getLast? = some c := by
        rw [hrun, List.getLast?_append_of_ne_nil _ (List.cons_ne_nil _ _)]
        exact hc
      rw [List.getLast?_concat] at hlast
      rw [← Option.some.inj hlast, ← Option.some.inj hd]
      exact hsame

end Baseline
