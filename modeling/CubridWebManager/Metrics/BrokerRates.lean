import CubridWebManager.Lib.Dict
import CubridWebManager.Metrics.StatdumpRates
import Mathlib.Algebra.Order.BigOperators.Group.List

/-!
# Rates of the brokers of a host

`getbrokersinfo` reports counters of each broker.  The rates of a host add up what the brokers have gained that are in
two samples one after the other; a broker whose counter is missing or has decreased adds nothing.
-/

namespace CubridWebManager.Metrics

open Baseline

/-- A broker as it is reported. -/
structure BrokerInfo where
  name : Option Text
  tran : Option Text
  query : Option Text

/-- `{ result: [...] }`, an array with its first element's `broker`, or something else. -/
inductive BrokersResponse where
  | result (brokers : List BrokerInfo)
  | array (broker : Option (List BrokerInfo))
  | other

def extractBrokerList : BrokersResponse → List BrokerInfo
  | .result brokers => brokers
  | .array broker => broker.getD []
  | .other => []

structure BrokerCounters where
  tran : Option ℚ
  query : Option ℚ

inductive BrokerMetric where
  | tps
  | qps
  deriving DecidableEq

/-- The field that a metric is derived from. -/
def BrokerMetric.field : BrokerMetric → BrokerCounters → Option ℚ
  | .tps => BrokerCounters.tran
  | .qps => BrokerCounters.query

structure BrokerSample where
  time : ℚ
  counters : Dict Text BrokerCounters
  rates : BrokerMetric → Option ℚ

def readBrokers (response : BrokersResponse) : Dict Text BrokerCounters :=
  (extractBrokerList response).foldl (fun counters broker =>
    match broker.name with
    | none | some [] => counters
    | some name => counters.set name ⟨toCounter broker.tran, toCounter broker.query⟩) .empty

def counterOf (counters : Dict Text BrokerCounters) (metric : BrokerMetric) (name : Text) : Option ℚ :=
  (counters.get? name).bind metric.field

/-- What a broker has gained, if it can be compared. -/
def compared (previous current : Option ℚ) : Option ℚ :=
  match previous, current with
  | some p, some c => if c < p then none else some (c - p)
  | _, _ => none

def addGain (sum : ℚ × ℕ) : Option ℚ → ℚ × ℕ
  | none => sum
  | some delta => (sum.1 + delta, sum.2 + 1)

/-- The sum of what the brokers have gained, and how many of them could be compared. -/
def compareBrokers (prev counters : Dict Text BrokerCounters) (metric : BrokerMetric) : ℚ × ℕ :=
  counters.keys.foldl (fun sum name =>
    addGain sum (compared (counterOf prev metric name) (counterOf counters metric name))) (0, 0)

/-- The sample of an answer that does not come too soon. -/
def brokerSample (prevSample : Option BrokerSample) (response : BrokersResponse) (now : ℚ) : BrokerSample :=
  let counters := readBrokers response
  { time := now
    counters
    rates metric := prevSample.bind fun prev =>
      let sum := compareBrokers prev.counters counters metric
      if sum.2 > 0 then some (sum.1 / elapsedSec prev.time now)
      else if counters.keys.length = 0 then some 0
      else none }

def computeBrokerRates (prevSample : Option BrokerSample) (response : BrokersResponse) (now : ℚ) :
    BrokerSample × (BrokerMetric → Option ℚ) :=
  match prevSample.filter fun prev => tooSoon prev.time now with
  | some prev => (prev, prev.rates)
  | none => (brokerSample prevSample response now, (brokerSample prevSample response now).rates)

/-- The sample that is kept after the answers of a host, each with its time. -/
def keptBrokers (responses : List (BrokersResponse × ℚ)) : Option BrokerSample :=
  responses.foldl (fun prev r => some (computeBrokerRates prev r.1 r.2).1) none

/-- The samples that were accepted, one after the other. -/
def acceptedBrokers (responses : List (BrokersResponse × ℚ)) : List BrokerSample :=
  taken (fun prev r => tooSoon prev.time r.2) (fun prev r => brokerSample prev r.1 r.2) responses

theorem computeBrokerRates_fst (prev : Option BrokerSample) (r : BrokersResponse × ℚ) :
    some (computeBrokerRates prev r.1 r.2).1 =
      if prev.any (fun p => tooSoon p.time r.2) then prev else some (brokerSample prev r.1 r.2) := by
  cases prev with
  | none => rfl
  | some prev =>
    unfold computeBrokerRates
    by_cases h : tooSoon prev.time r.2 = true
    · simp [Option.filter, h]
    · simp [Option.filter, h]

/-- What is kept is the last sample that was accepted. -/
theorem keptBrokers_eq (responses : List (BrokersResponse × ℚ)) :
    keptBrokers responses = (acceptedBrokers responses).getLast? := by
  rw [acceptedBrokers, ← baseline_eq, keptBrokers, baseline]
  congr 1
  funext prev r
  exact computeBrokerRates_fst prev r

/-! ### What the brokers gain -/

/-- The brokers that can be compared have gained this much each. -/
def gains (prev counters : Dict Text BrokerCounters) (metric : BrokerMetric) : List ℚ :=
  counters.keys.filterMap fun name => compared (counterOf prev metric name) (counterOf counters metric name)

theorem foldl_addGain {β : Type*} (gain : β → Option ℚ) (l : List β) (sum : ℚ × ℕ) :
    l.foldl (fun sum x => addGain sum (gain x)) sum =
      (sum.1 + (l.filterMap gain).sum, sum.2 + (l.filterMap gain).length) := by
  induction l generalizing sum with
  | nil => simp
  | cons x l ih =>
    rw [List.foldl_cons, ih]
    cases hx : gain x with
    | none => rw [List.filterMap_cons_none hx, addGain]
    | some delta =>
      rw [List.filterMap_cons_some hx, List.sum_cons, List.length_cons, addGain]
      exact Prod.ext (add_assoc _ _ _) (by dsimp only; omega)

theorem compareBrokers_eq (prev counters : Dict Text BrokerCounters) (metric : BrokerMetric) :
    compareBrokers prev counters metric = ((gains prev counters metric).sum, (gains prev counters metric).length) := by
  rw [compareBrokers, foldl_addGain, zero_add, zero_add, gains]

theorem compared_eq_some {previous current : Option ℚ} {delta : ℚ} (h : compared previous current = some delta) :
    ∃ p c, previous = some p ∧ current = some c ∧ p ≤ c ∧ delta = c - p := by
  unfold compared at h
  split at h
  · rename_i p c
    split at h
    · cases h
    · rename_i hle
      exact ⟨p, c, rfl, rfl, not_lt.1 hle, (Option.some.inj h).symm⟩
  · cases h

theorem compared_of_le {p c : ℚ} (h : p ≤ c) : compared (some p) (some c) = some (c - p) := if_neg h.not_gt

theorem gains_nonneg {prev counters : Dict Text BrokerCounters} {metric : BrokerMetric} :
    0 ≤ (gains prev counters metric).sum := by
  refine List.sum_nonneg fun delta hdelta => ?_
  obtain ⟨name, -, hname⟩ := List.mem_filterMap.1 hdelta
  obtain ⟨p, c, -, -, hle, rfl⟩ := compared_eq_some hname
  exact sub_nonneg.2 hle

/-- The rate makes what the brokers have gained, unless no broker of some could be compared. -/
theorem rates_brokerSample {a : BrokerSample} {r : BrokersResponse × ℚ} (metric : BrokerMetric) :
    (brokerSample (some a) r.1 r.2).rates metric =
      if gains a.counters (readBrokers r.1) metric = [] ∧ (readBrokers r.1).keys ≠ [] then none
      else some ((gains a.counters (readBrokers r.1) metric).sum / elapsedSec a.time r.2) := by
  show (if (compareBrokers a.counters (readBrokers r.1) metric).2 > 0 then _ else _) = _
  rw [compareBrokers_eq]
  cases hgains : gains a.counters (readBrokers r.1) metric with
  | nil =>
    by_cases hkeys : (readBrokers r.1).keys = []
    · simp [hkeys]
    · simp [hkeys]
  | cons delta deltas => simp

/-! ### The laws of the samples of one host -/

/-- What the brokers of a sample have counted. -/
def BrokerSample.total (metric : BrokerMetric) (s : BrokerSample) : ℚ :=
  (s.counters.keys.map fun name => (counterOf s.counters metric name).getD 0).sum

/-- What a sample's rate makes in the time since the one before it. -/
def BrokerSample.gain (metric : BrokerMetric) (a b : BrokerSample) : ℚ :=
  (b.rates metric).getD 0 * elapsedSec a.time b.time

/-- The brokers are the same in every sample, each has the counter, and it never decreases. -/
def BrokersNeverDecrease (metric : BrokerMetric) (samples : List BrokerSample) : Prop :=
  samples.IsChain fun a b => (∀ name, name ∈ a.counters.keys ↔ name ∈ b.counters.keys) ∧
    ∀ name ∈ b.counters.keys, ∃ p c, counterOf a.counters metric name = some p ∧
      counterOf b.counters metric name = some c ∧ p ≤ c

/-- What holds of the samples of one host after the answers. -/
structure BrokerLaws (responses : List (BrokersResponse × ℚ)) : Prop where
  kept : keptBrokers responses = (acceptedBrokers responses).getLast?
  /-- An answer that comes too soon changes nothing. -/
  tooSoon : ∀ prev, keptBrokers responses = some prev → ∀ response now, now - prev.time < minSampleIntervalMs →
    computeBrokerRates (some prev) response now = (prev, prev.rates) ∧
      acceptedBrokers (responses ++ [(response, now)]) = acceptedBrokers responses
  telescopes : ∀ before first run after metric, acceptedBrokers responses = before ++ (first :: run) ++ after →
    BrokersNeverDecrease metric (first :: run) →
      (first :: run).IsChain (fun _ b => (b.rates metric).isSome) ∧
        sumGains (BrokerSample.gain metric) (first :: run) =
          ((first :: run).getLast (List.cons_ne_nil _ _)).total metric - first.total metric
  /-- There is no rate for the first sample, and none where no broker of some can be compared; else the rate makes what
  those brokers have gained, and it is not negative. -/
  rated : ∀ before b after metric, acceptedBrokers responses = before ++ b :: after →
    (b.rates metric = none ↔ ∀ a ∈ before.getLast?, gains a.counters b.counters metric = [] ∧ b.counters.keys ≠ []) ∧
      ∀ rate, b.rates metric = some rate → 0 ≤ rate ∧ ∃ a ∈ before.getLast?,
        rate * elapsedSec a.time b.time = (gains a.counters b.counters metric).sum

variable {responses : List (BrokersResponse × ℚ)} {before after : List BrokerSample} {b : BrokerSample}
  {metric : BrokerMetric}

theorem brokers_tooSoon {prev : BrokerSample} {response : BrokersResponse} {now : ℚ}
    (hkept : keptBrokers responses = some prev) (hsoon : now - prev.time < minSampleIntervalMs) :
    computeBrokerRates (some prev) response now = (prev, prev.rates) ∧
      acceptedBrokers (responses ++ [(response, now)]) = acceptedBrokers responses := by
  have hdec : tooSoon prev.time now = true := decide_eq_true hsoon
  constructor
  · simp [computeBrokerRates, Option.filter, hdec]
  · exact taken_concat_of_tooSoon ((keptBrokers_eq responses).symm.trans hkept) hdec

/-- Where every broker can be compared, they have gained the difference of what they have counted. -/
theorem gains_of_le {a b : BrokerSample} (metric : BrokerMetric)
    (hsame : ∀ name, name ∈ a.counters.keys ↔ name ∈ b.counters.keys)
    (hle : ∀ name ∈ b.counters.keys, ∃ p c, counterOf a.counters metric name = some p ∧
      counterOf b.counters metric name = some c ∧ p ≤ c) :
    (gains a.counters b.counters metric).length = b.counters.keys.length ∧
      (gains a.counters b.counters metric).sum = b.total metric - a.total metric := by
  have hperm : a.counters.keys.Perm b.counters.keys :=
    (List.perm_ext_iff_of_nodup a.counters.nodup b.counters.nodup).2 hsame
  have hgains : gains a.counters b.counters metric = b.counters.keys.map fun name =>
      (counterOf b.counters metric name).getD 0 - (counterOf a.counters metric name).getD 0 := by
    rw [gains, ← List.filterMap_eq_map]
    refine List.filterMap_congr fun name hname => ?_
    obtain ⟨p, c, hp, hc, hpc⟩ := hle name hname
    rw [Function.comp_apply, hp, hc, compared_of_le hpc, Option.getD_some, Option.getD_some]
  constructor
  · rw [hgains, List.length_map]
  · rw [hgains, BrokerSample.total, BrokerSample.total, (hperm.map _).sum_eq, eq_sub_iff_add_eq, ← List.sum_map_add]
    simp only [sub_add_cancel]

theorem broker_gain {a b : BrokerSample} {r : BrokersResponse × ℚ} (hsoon : tooSoon a.time r.2 = false)
    (hb : b = brokerSample (some a) r.1 r.2) (hsame : ∀ name, name ∈ a.counters.keys ↔ name ∈ b.counters.keys)
    (hle : ∀ name ∈ b.counters.keys, ∃ p c, counterOf a.counters metric name = some p ∧
      counterOf b.counters metric name = some c ∧ p ≤ c) :
    (b.rates metric).isSome ∧ BrokerSample.gain metric a b = b.total metric - a.total metric := by
  have hpos := elapsedSec_pos hsoon
  have htime : b.time = r.2 := by rw [hb]; rfl
  obtain ⟨hlength, hsum⟩ := gains_of_le metric hsame hle
  have hrate : b.rates metric = some ((gains a.counters b.counters metric).sum / elapsedSec a.time b.time) := by
    have hrates := rates_brokerSample (a := a) (r := r) metric
    rw [if_neg] at hrates
    · rw [hb]
      exact hrates
    · rintro ⟨hnil, hkeys⟩
      have hcounters : b.counters = readBrokers r.1 := by rw [hb]; rfl
      rw [hcounters, hnil] at hlength
      exact hkeys (List.length_eq_zero_iff.1 hlength.symm)
  refine ⟨by rw [hrate]; rfl, ?_⟩
  rw [BrokerSample.gain, hrate, Option.getD_some, htime, div_mul_cancel₀ _ hpos.ne', hsum]

theorem brokers_telescope {first : BrokerSample} {run : List BrokerSample}
    (h : acceptedBrokers responses = before ++ (first :: run) ++ after)
    (hgrows : BrokersNeverDecrease metric (first :: run)) :
    (first :: run).IsChain (fun _ b => (b.rates metric).isSome) ∧
      sumGains (BrokerSample.gain metric) (first :: run) =
        ((first :: run).getLast (List.cons_ne_nil _ _)).total metric - first.total metric := by
  have hboth := isChain_run h hgrows
  constructor
  · refine hboth.imp fun a b hab => ?_
    obtain ⟨⟨r, hsoon, hb⟩, hsame, hle⟩ := hab
    exact (broker_gain hsoon hb hsame hle).1
  · refine sumGains_eq (BrokerSample.total metric) (hboth.imp fun a b hab => ?_)
    obtain ⟨⟨r, hsoon, hb⟩, hsame, hle⟩ := hab
    exact (broker_gain hsoon hb hsame hle).2

theorem brokers_rated (h : acceptedBrokers responses = before ++ b :: after) :
    (b.rates metric = none ↔ ∀ a ∈ before.getLast?, gains a.counters b.counters metric = [] ∧ b.counters.keys ≠ []) ∧
      ∀ rate, b.rates metric = some rate → 0 ≤ rate ∧ ∃ a ∈ before.getLast?,
        rate * elapsedSec a.time b.time = (gains a.counters b.counters metric).sum := by
  obtain ⟨r, hb, hsoon⟩ := exists_measure h
  cases hlast : before.getLast? with
  | none =>
    have hnone : b.rates metric = none := by
      rw [hb, hlast]
      rfl
    rw [hnone]
    exact ⟨⟨fun _ => nofun, fun _ => rfl⟩, nofun⟩
  | some a =>
    have hpos := elapsedSec_pos (hsoon a hlast)
    rw [hlast] at hb
    have hrates : b.rates metric =
        if gains a.counters b.counters metric = [] ∧ b.counters.keys ≠ [] then none
        else some ((gains a.counters b.counters metric).sum / elapsedSec a.time b.time) := by
      rw [hb]
      exact rates_brokerSample metric
    have htime : b.time = r.2 := by rw [hb]; rfl
    rw [hrates, htime]
    constructor
    · constructor
      · rintro hnone c ⟨⟩
        by_contra hsome
        rw [if_neg hsome] at hnone
        cases hnone
      · intro hall
        exact if_pos (hall a rfl)
    · intro rate hrate
      split at hrate
      · cases hrate
      · rw [← Option.some.inj hrate]
        exact ⟨div_nonneg gains_nonneg hpos.le, a, rfl, by rw [div_mul_cancel₀ _ hpos.ne']⟩

theorem broker_laws (responses : List (BrokersResponse × ℚ)) : BrokerLaws responses where
  kept := keptBrokers_eq responses
  tooSoon _ hkept _ _ hsoon := brokers_tooSoon hkept hsoon
  telescopes _ _ _ _ _ h hgrows := brokers_telescope h hgrows
  rated _ _ _ _ h := brokers_rated h

theorem counter_rates : (∀ statdumps, StatdumpLaws statdumps) ∧ ∀ responses, BrokerLaws responses :=
  ⟨statdump_laws, broker_laws⟩

/-- Two brokers, one of which is started anew before the second answer. -/
def running : BrokersResponse :=
  .array (some [⟨some "query_editor".toList, some "9".toList, some "9".toList⟩,
    ⟨some "broker1".toList, some "9".toList, some "9".toList⟩])

def restarted : BrokersResponse :=
  .array (some [⟨some "query_editor".toList, some "1".toList, some "1".toList⟩,
    ⟨some "broker1".toList, some "9".toList, some "9".toList⟩])

/-- A broker that has decreased takes no rate from the others. -/
theorem counter_rates_other_broker : ¬ ∀ responses : List (BrokersResponse × ℚ), responses.IsChain (·.2 < ·.2) →
    ∀ before a b after metric name p c, acceptedBrokers responses = before ++ a :: b :: after →
      (∀ n, n ∈ a.counters.keys ↔ n ∈ b.counters.keys) → counterOf a.counters metric name = some p →
        counterOf b.counters metric name = some c → c < p → b.rates metric = none := by
  intro hall
  let a := brokerSample none running 0
  let b := brokerSample (some a) restarted 1000
  have haccepted : acceptedBrokers [(running, 0), (restarted, 1000)] = [] ++ a :: b :: [] := by
    have hsoon : tooSoon a.time 1000 = false := by decide +kernel
    exact if_neg (Bool.eq_false_iff.1 hsoon)
  have hkeys : a.counters.keys = b.counters.keys := by decide
  have hrate := hall _ (by decide) [] a b [] .tps "query_editor".toList 9 1 haccepted (fun n => by rw [hkeys])
    (by decide +kernel) (by decide +kernel) (by decide +kernel)
  exact absurd hrate (by decide +kernel)

end CubridWebManager.Metrics
