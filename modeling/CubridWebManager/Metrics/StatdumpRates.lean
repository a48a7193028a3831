import CubridWebManager.Lib.Baseline
import CubridWebManager.Lib.Numeral
import Mathlib.Algebra.Order.Field.Rat
import Mathlib.Tactic.FieldSimp
import Mathlib.Tactic.Linarith

/-!
# Rates of the statdump counters

`statdump` reports counters since the database server started.  The dashboard derives rates from two samples: each
statdump is measured against the last sample that was kept, unless it comes less than a second after it.  Numbers and
times are exact.
-/

namespace CubridWebManager.Metrics

open Baseline

/-- From here on a number is rounded to infinity. -/
def finiteBound : ℚ := 2 ^ 1024 - 2 ^ 970

/-- A counter as it is reported, read as a number: the commas in it are left out. -/
def toCounter (raw : Option Text) : Option ℚ := do
  let text := Text.trim ((← raw).filter (· ≠ ','))
  if text = [] then none else (Numeral.number text).filter fun value => -finiteBound < value ∧ value < finiteBound

def minSampleIntervalMs : ℚ := 1000

/-- `now - prevSample.time < MIN_SAMPLE_INTERVAL_MS` -/
def tooSoon (prevTime now : ℚ) : Bool := now - prevTime < minSampleIntervalMs

def elapsedSec (prevTime now : ℚ) : ℚ := (now - prevTime) / 1000

theorem elapsedSec_pos {prevTime now : ℚ} (h : tooSoon prevTime now = false) : 0 < elapsedSec prevTime now := by
  rw [tooSoon, decide_eq_false_iff_not, not_lt] at h
  have hms : (0 : ℚ) < minSampleIntervalMs := by decide
  exact div_pos (hms.trans_le h) (by norm_num)

/-! ### The counters of a statdump -/

inductive Metric where
  | tps
  | fetchPerSec
  | dirtyPerSec
  | ioReadPerSec
  | ioWritePerSec
  deriving DecidableEq

def metrics : List Metric := [.tps, .fetchPerSec, .dirtyPerSec, .ioReadPerSec, .ioWritePerSec]

theorem mem_metrics (metric : Metric) : metric ∈ metrics := by cases metric <;> decide

/-- The fields whose values add up to a counter. -/
structure CounterSpec where
  required : List Text
  optional : List Text := []

def rateCounters : Metric → CounterSpec
  | .tps => ⟨["num_tran_commits".toList], ["num_tran_rollbacks".toList]⟩
  | .fetchPerSec => { required := ["num_data_page_fetches".toList] }
  | .dirtyPerSec => { required := ["num_data_page_dirties".toList] }
  | .ioReadPerSec => { required := ["num_file_ioreads".toList] }
  | .ioWritePerSec => { required := ["num_file_iowrites".toList] }

/-- The fields of a statdump, as texts. -/
abbrev Statdump := Text → Option Text

def readCounter (statdump : Statdump) (spec : CounterSpec) : Option ℚ := do
  let total ← spec.required.foldlM (fun total field => (toCounter (statdump field)).map (total + ·)) 0
  some (spec.optional.foldl (fun total field => total + (toCounter (statdump field)).getD 0) total)

/-! ### Samples -/

structure StatdumpSample where
  time : ℚ
  counters : Metric → Option ℚ
  rates : Metric → Option ℚ
  /-- When the counters last moved. -/
  unchangedSince : Option ℚ

/-- The rate of a counter that has grown from `previous` to `current`. -/
def rateOf (previous current : Option ℚ) (elapsed : ℚ) : Option ℚ :=
  match previous, current with
  | some p, some c => if elapsed ≤ 0 ∨ c < p then none else some ((c - p) / elapsed)
  | _, _ => none

def moved (counters counters' : Metric → Option ℚ) : Bool :=
  metrics.any fun metric => counters' metric ≠ counters metric

/-- The sample of a statdump that does not come too soon. -/
def statdumpSample (prevSample : Option StatdumpSample) (statdump : Statdump) (now : ℚ) : StatdumpSample :=
  let counters metric := readCounter statdump (rateCounters metric)
  { time := now
    counters
    rates metric := prevSample.bind fun prev =>
      rateOf (prev.counters metric) (counters metric) (elapsedSec prev.time now)
    unchangedSince := match prevSample with
      | none => some now
      | some prev => if moved prev.counters counters then some now else some (prev.unchangedSince.getD prev.time) }

def computeStatdumpRates (prevSample : Option StatdumpSample) (statdump : Statdump) (now : ℚ) :
    StatdumpSample × (Metric → Option ℚ) :=
  match prevSample.filter fun prev => tooSoon prev.time now with
  | some prev => (prev, prev.rates)
  | none => (statdumpSample prevSample statdump now, (statdumpSample prevSample statdump now).rates)

/-- The sample that is kept after the statdumps of a database, each with its time. -/
def keptStatdump (statdumps : List (Statdump × ℚ)) : Option StatdumpSample :=
  statdumps.foldl (fun prev r => some (computeStatdumpRates prev r.1 r.2).1) none

/-- The samples that were accepted, one after the other. -/
def acceptedStatdumps (statdumps : List (Statdump × ℚ)) : List StatdumpSample :=
  taken (fun prev r => tooSoon prev.time r.2) (fun prev r => statdumpSample prev r.1 r.2) statdumps

theorem computeStatdumpRates_fst (prev : Option StatdumpSample) (r : Statdump × ℚ) :
    some (computeStatdumpRates prev r.1 r.2).1 =
      if prev.any (fun p => tooSoon p.time r.2) then prev else some (statdumpSample prev r.1 r.2) := by
  cases prev with
  | none => rfl
  | some prev =>
    unfold computeStatdumpRates
    by_cases h : tooSoon prev.time r.2 = true
    · simp [Option.filter, h]
    · simp [Option.filter, h]

/-- What is kept is the last sample that was accepted. -/
theorem keptStatdump_eq (statdumps : List (Statdump × ℚ)) :
    keptStatdump statdumps = (acceptedStatdumps statdumps).getLast? := by
  rw [acceptedStatdumps, ← baseline_eq, keptStatdump, baseline]
  congr 1
  funext prev r
  exact computeStatdumpRates_fst prev r

/-! ### Rates -/

theorem rateOf_eq_some {previous current : Option ℚ} {elapsed rate : ℚ}
    (h : rateOf previous current elapsed = some rate) :
    ∃ p c, previous = some p ∧ current = some c ∧ p ≤ c ∧ 0 < elapsed ∧ rate * elapsed = c - p := by
  unfold rateOf at h
  split at h
  · rename_i p c
    split at h
    · cases h
    · rename_i hok
      rw [not_or, not_le, not_lt] at hok
      refine ⟨p, c, rfl, rfl, hok.2, hok.1, ?_⟩
      rw [← Option.some.inj h]
      exact div_mul_cancel₀ _ hok.1.ne'
  · cases h

theorem rateOf_of_le {p c elapsed : ℚ} (h : p ≤ c) (helapsed : 0 < elapsed) :
    rateOf (some p) (some c) elapsed = some ((c - p) / elapsed) := by
  rw [rateOf, if_neg]
  rintro (hneg | hlt)
  · exact absurd helapsed hneg.not_gt
  · exact absurd h hlt.not_ge

theorem rateOf_nonneg {previous current : Option ℚ} {elapsed rate : ℚ}
    (h : rateOf previous current elapsed = some rate) : 0 ≤ rate := by
  obtain ⟨p, c, -, -, hle, hpos, hrate⟩ := rateOf_eq_some h
  have hprod : 0 ≤ rate * elapsed := by rw [hrate]; linarith
  exact nonneg_of_mul_nonneg_left hprod hpos

theorem moved_eq_false {counters counters' : Metric → Option ℚ} :
    moved counters counters' = false ↔ counters' = counters := by
  rw [moved, List.any_eq_false]
  constructor
  · intro h
    funext metric
    simpa using h metric (mem_metrics metric)
  · rintro rfl metric -
    simp

/-! ### The laws of the samples of one database -/

/-- Every sample has the counter, and it never decreases. -/
def NeverDecreases {σ : Type*} (counter : σ → Option ℚ) (samples : List σ) : Prop :=
  samples.IsChain fun a b => ∃ p c, counter a = some p ∧ counter b = some c ∧ p ≤ c

/-- What a sample's rate makes in the time since the one before it. -/
def StatdumpSample.gain (metric : Metric) (a b : StatdumpSample) : ℚ :=
  (b.rates metric).getD 0 * elapsedSec a.time b.time

/-- What holds of the samples of one database after the statdumps. -/
structure StatdumpLaws (statdumps : List (Statdump × ℚ)) : Prop where
  kept : keptStatdump statdumps = (acceptedStatdumps statdumps).getLast?
  /-- A statdump that comes too soon changes nothing. -/
  tooSoon : ∀ prev, keptStatdump statdumps = some prev → ∀ statdump now, now - prev.time < minSampleIntervalMs →
    computeStatdumpRates (some prev) statdump now = (prev, prev.rates) ∧
      acceptedStatdumps (statdumps ++ [(statdump, now)]) = acceptedStatdumps statdumps
  telescopes : ∀ before first run after metric, acceptedStatdumps statdumps = before ++ (first :: run) ++ after →
    NeverDecreases (·.counters metric) (first :: run) →
      (first :: run).IsChain (fun _ b => (b.rates metric).isSome) ∧
        sumGains (StatdumpSample.gain metric) (first :: run) =
          (((first :: run).getLast (List.cons_ne_nil _ _)).counters metric).getD 0 - (first.counters metric).getD 0
  /-- Without a counter that has not decreased there is no rate, and none for the first sample. -/
  unrated : ∀ before b after metric rate, acceptedStatdumps statdumps = before ++ b :: after →
    b.rates metric = some rate → 0 ≤ rate ∧
      ∃ a ∈ before.getLast?, ∃ p c, a.counters metric = some p ∧ b.counters metric = some c ∧ p ≤ c
  frozen : ∀ before b after, acceptedStatdumps statdumps = before ++ b :: after →
    ∃ earlier first same, before ++ [b] = earlier ++ first :: same ∧ (∀ a ∈ same, a.counters = first.counters) ∧
      (∀ a ∈ earlier.getLast?, a.counters ≠ first.counters) ∧ b.unchangedSince = some first.time

variable {statdumps : List (Statdump × ℚ)} {before after : List StatdumpSample} {b : StatdumpSample} {metric : Metric}

theorem statdump_tooSoon {prev : StatdumpSample} {statdump : Statdump} {now : ℚ}
    (hkept : keptStatdump statdumps = some prev) (hsoon : now - prev.time < minSampleIntervalMs) :
    computeStatdumpRates (some prev) statdump now = (prev, prev.rates) ∧
      acceptedStatdumps (statdumps ++ [(statdump, now)]) = acceptedStatdumps statdumps := by
  have hdec : tooSoon prev.time now = true := decide_eq_true hsoon
  constructor
  · simp [computeStatdumpRates, Option.filter, hdec]
  · exact taken_concat_of_tooSoon ((keptStatdump_eq statdumps).symm.trans hkept) hdec

theorem statdump_gain {a b : StatdumpSample} {r : Statdump × ℚ} (hsoon : tooSoon a.time r.2 = false)
    (hb : b = statdumpSample (some a) r.1 r.2) {p c : ℚ} (hp : a.counters metric = some p)
    (hc : b.counters metric = some c) (hle : p ≤ c) :
    (b.rates metric).isSome ∧ StatdumpSample.gain metric a b = c - p := by
  have hpos := elapsedSec_pos hsoon
  have htime : b.time = r.2 := by rw [hb]; rfl
  have hrate : b.rates metric = some ((c - p) / elapsedSec a.time b.time) := by
    have hrates : b.rates metric = rateOf (a.counters metric) (b.counters metric) (elapsedSec a.time r.2) := by
      rw [hb]
      rfl
    rw [hrates, hp, hc, htime, rateOf_of_le hle hpos]
  refine ⟨by rw [hrate]; rfl, ?_⟩
  rw [StatdumpSample.gain, hrate, Option.getD_some, htime, div_mul_cancel₀ _ hpos.ne']

theorem statdump_telescopes {first : StatdumpSample} {run : List StatdumpSample}
    (h : acceptedStatdumps statdumps = before ++ (first :: run) ++ after)
    (hgrows : NeverDecreases (·.counters metric) (first :: run)) :
    (first :: run).IsChain (fun _ b => (b.rates metric).isSome) ∧
      sumGains (StatdumpSample.gain metric) (first :: run) =
        (((first :: run).getLast (List.cons_ne_nil _ _)).counters metric).getD 0 - (first.counters metric).getD 0 := by
  have hboth := isChain_run h hgrows
  constructor
  · refine hboth.imp fun a b hab => ?_
    obtain ⟨⟨r, hsoon, hb⟩, p, c, hp, hc, hle⟩ := hab
    exact (statdump_gain hsoon hb hp hc hle).1
  · refine sumGains_eq (fun s => (s.counters metric).getD 0) (hboth.imp fun a b hab => ?_)
    obtain ⟨⟨r, hsoon, hb⟩, p, c, (hp : a.counters metric = _), (hc : b.counters metric = _), hle⟩ := hab
    rw [(statdump_gain hsoon hb hp hc hle).2, hp, hc]
    rfl

theorem statdump_unrated {rate : ℚ} (h : acceptedStatdumps statdumps = before ++ b :: after)
    (hrate : b.rates metric = some rate) :
    0 ≤ rate ∧ ∃ a ∈ before.getLast?, ∃ p c, a.counters metric = some p ∧ b.counters metric = some c ∧ p ≤ c := by
  obtain ⟨r, hb, -⟩ := exists_measure h
  rw [hb] at hrate
  obtain ⟨a, ha, hrateOf⟩ := Option.bind_eq_some_iff.1 hrate
  obtain ⟨p, c, hp, hc, hle, -, -⟩ := rateOf_eq_some hrateOf
  refine ⟨rateOf_nonneg hrateOf, a, ha, p, c, hp, ?_, hle⟩
  rw [hb]
  exact hc

/-- The counters have moved: the sample is dated by its own time. -/
theorem unchangedSince_of_moved {prev : StatdumpSample} {r : Statdump × ℚ}
    (h : (statdumpSample (some prev) r.1 r.2).counters ≠ prev.counters) :
    (statdumpSample (some prev) r.1 r.2).unchangedSince = some r.2 := by
  refine if_pos ?_
  by_contra hmoved
  exact h (moved_eq_false.1 (Bool.eq_false_of_not_eq_true hmoved))

/-- The counters have not moved: the sample has the date of the one before it. -/
theorem unchangedSince_of_eq {prev : StatdumpSample} {r : Statdump × ℚ}
    (h : (statdumpSample (some prev) r.1 r.2).counters = prev.counters) :
    (statdumpSample (some prev) r.1 r.2).unchangedSince = some (prev.unchangedSince.getD prev.time) := by
  refine if_neg ?_
  rw [Bool.not_eq_true]
  exact moved_eq_false.2 h

theorem isSome_unchangedSince (prev : Option StatdumpSample) (r : Statdump × ℚ) :
    (statdumpSample prev r.1 r.2).unchangedSince.isSome := by
  cases prev with
  | none => rfl
  | some prev =>
    by_cases h : (statdumpSample (some prev) r.1 r.2).counters = prev.counters
    · rw [unchangedSince_of_eq h]
      rfl
    · rw [unchangedSince_of_moved h]
      rfl

theorem isChain_unchangedSince (statdumps : List (Statdump × ℚ)) :
    (acceptedStatdumps statdumps).IsChain fun a b =>
      b.counters ≠ a.counters ∧ b.unchangedSince = some b.time ∨
        ¬b.counters ≠ a.counters ∧ b.unchangedSince = a.unchangedSince := by
  refine (isChain_taken _ _ statdumps).imp_of_mem_imp fun a b ha _ hab => ?_
  obtain ⟨r, -, rfl⟩ := hab
  by_cases hsame : (statdumpSample (some a) r.1 r.2).counters = a.counters
  · refine .inr ⟨not_not.2 hsame, ?_⟩
    obtain ⟨before, after, hsplit⟩ := List.append_of_mem ha
    obtain ⟨r', hr', -⟩ := exists_measure hsplit
    obtain ⟨since, hsince⟩ := Option.isSome_iff_exists.1 (isSome_unchangedSince before.getLast? r')
    rw [← hr'] at hsince
    rw [unchangedSince_of_eq hsame, hsince]
    rfl
  · exact .inl ⟨hsame, unchangedSince_of_moved hsame⟩

theorem statdump_frozen (h : acceptedStatdumps statdumps = before ++ b :: after) :
    ∃ earlier first same, before ++ [b] = earlier ++ first :: same ∧ (∀ a ∈ same, a.counters = first.counters) ∧
      (∀ a ∈ earlier.getLast?, a.counters ≠ first.counters) ∧ b.unchangedSince = some first.time := by
  have hfirst : ∀ a ∈ (acceptedStatdumps statdumps).head?, a.unchangedSince = some a.time := by
    intro a ha
    obtain ⟨r, rfl⟩ := head?_taken _ _ statdumps a ha
    rfl
  obtain ⟨earlier, first, same, hrun, hchain, hearlier, hsince⟩ :=
    exists_run hfirst (isChain_unchangedSince statdumps) h
  refine ⟨earlier, first, same, hrun, ?_, fun a ha heq => hearlier a ha heq.symm, hsince⟩
  exact eq_of_isChain (hchain.imp fun a b => not_not.1)

theorem statdump_laws (statdumps : List (Statdump × ℚ)) : StatdumpLaws statdumps where
  kept := keptStatdump_eq statdumps
  tooSoon _ hkept _ _ hsoon := statdump_tooSoon hkept hsoon
  telescopes _ _ _ _ _ h hgrows := statdump_telescopes h hgrows
  unrated _ _ _ _ _ h hrate := statdump_unrated h hrate
  frozen _ _ _ h := statdump_frozen h

end CubridWebManager.Metrics
