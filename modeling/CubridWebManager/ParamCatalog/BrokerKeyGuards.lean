import CubridWebManager.Lib.Dict
import CubridWebManager.ParamCatalog.EngineVersions
import Mathlib.Data.List.Perm.Basic

/-!
# The value rules of the broker's keys

A key's rules are for ranges of engine versions.  The ranges of a key lie apart, so that at most one of its rules applies
and their order does not matter (`resolveBrokerKeyGuards_perm`).  But a range that ends with the patch number 999 does not
close the release line: between it and the next range a version has no rule (`InGap`).
-/

namespace CubridWebManager.ParamCatalog

open JsNumber

/-! ### The rules -/

/-- The kinds of rules that the table has. -/
inductive ParamGuard
  | enum (options : List String)
  | int (min max : Option Int) (base : Nat)
  | brokerSize (defaultUnit : Char) (minKb maxKb : Option Int) (exactKb : Option (List Int))
  | brokerTime (maxSec : Int) (truncate : Bool)
  | string (nonEmpty : Bool)
  deriving DecidableEq

structure VersionedBrokerKeyGuard where
  key : String
  guard : ParamGuard
  minVersion : Option String
  maxVersion : Option String
  deriving DecidableEq

def onOff : ParamGuard := .enum ["ON", "OFF"]

/-- A rule for every version. -/
def always (key : String) (guard : ParamGuard) : VersionedBrokerKeyGuard := ⟨key, guard, none, none⟩

def brokerKeyGuards : List VersionedBrokerKeyGuard := [
  ⟨"APPL_SERVER", .enum ["CAS", "CAS_ORACLE", "CAS_MYSQL51", "CAS_MYSQL"], none, some "11.1.999"⟩,
  ⟨"APPL_SERVER", .enum ["CAS", "CAS_ORACLE", "CAS_MYSQL51", "CAS_MYSQL", "CAS_CGW"], some "11.2", some "11.4.999"⟩,
  ⟨"APPL_SERVER", .enum ["CAS", "CAS_CGW"], some "11.5", none⟩,
  always "ACCESS_LOG_MAX_SIZE" (.brokerSize 'K' (some 0) (some 2097152) none),
  always "NET_BUF_SIZE" (.brokerSize 'K' none none (some [16, 32, 48, 64])),
  always "CACHE_USER_INFO" onOff,
  always "ENABLE_MONITOR_HANG" onOff,
  always "ENABLE_MONITOR_SERVER" onOff,
  always "JDBC_CACHE" onOff,
  always "JDBC_CACHE_HINT_ONLY" onOff,
  always "REPLICA_ONLY" onOff,
  always "SHARD" onOff,
  always "SHARD_IGNORE_HINT" onOff,
  always "STRIPPED_COLUMN_NAME" onOff,
  always "TRIGGER_ACTION" onOff,
  always "JDBC_CACHE_LIFE_TIME" (.int none none 0),
  ⟨"JOB_QUEUE_SIZE", .int (some 0) (some 2048) 0, none, some "11.2.999"⟩,
  ⟨"JOB_QUEUE_SIZE", .int (some 0) (some 4096) 0, some "11.3", none⟩,
  always "MAX_NUM_DELAYED_HOSTS_LOOKUP" (.int (some (-1)) none 0),
  always "MAX_PREPARED_STMT_COUNT" (.int (some 1) none 0),
  always "SHARD_MAX_PREPARED_STMT_COUNT" (.int (some 1) none 0),
  always "SQL_LOG2" (.int (some 0) (some 3) 0),
  always "SHARD_CONNECTION_FILE" (.string true),
  always "SHARD_KEY_FILE" (.string true),
  always "SHARD_NUM_PROXY" (.int (some 0) (some 8) 0),
  always "SHARD_MAX_CLIENTS" (.int (some 0) (some 80000) 0),
  always "SHARD_PROXY_LOG" (.enum ["ALL", "ON", "SHARD", "SCHEDULE", "NOTICE", "TIMEOUT", "ERROR", "NONE", "OFF"]),
  always "SHARD_PROXY_LOG_MAX_SIZE" (.brokerSize 'K' (some 0) (some 1048576) none),
  always "SHARD_PROXY_SHM_ID" (.int none none 16),
  always "SHARD_PROXY_TIMEOUT" (.brokerTime 86400 true),
  always "SHARD_PROXY_CONN_WAIT_TIMEOUT" (.brokerTime 86400 true)]

/-- The rule is not skipped for the engine version. -/
def VersionedBrokerKeyGuard.applies (g : VersionedBrokerKeyGuard) (engineVersion : Text) : Bool :=
  !(g.minVersion.any fun m => m ≠ "" && (compareEngineVersions engineVersion m.toList).sign = some .lt) &&
    !(g.maxVersion.any fun m => m ≠ "" && (compareEngineVersions engineVersion m.toList).sign = some .gt)

/-- The loop of `resolveBrokerKeyGuards` over a list of rules. -/
def resolveGuards (rules : List VersionedBrokerKeyGuard) (engineVersion : Text) : Dict String ParamGuard :=
  rules.foldl (fun resolved g => if g.applies engineVersion then resolved.set g.key g.guard else resolved) .empty

def resolveBrokerKeyGuards (engineVersion : Text) : Dict String ParamGuard := resolveGuards brokerKeyGuards engineVersion

/-- The rules of a key that are selected. -/
def selected (rules : List VersionedBrokerKeyGuard) (engineVersion : Text) (key : String) : List VersionedBrokerKeyGuard :=
  rules.filter fun g => g.key = key && g.applies engineVersion

/-! ### The loop -/

/-- The last one of the rules that are selected counts. -/
theorem get?_resolveGuards (rules : List VersionedBrokerKeyGuard) (engineVersion : Text) (key : String) :
    (resolveGuards rules engineVersion).get? key =
      (selected rules engineVersion key).getLast?.map VersionedBrokerKeyGuard.guard := by
  induction rules using List.reverseRecOn with
  | nil => rfl
  | append_singleton rules g ih =>
    have hloop : resolveGuards (rules ++ [g]) engineVersion = if g.applies engineVersion then
        (resolveGuards rules engineVersion).set g.key g.guard else resolveGuards rules engineVersion := by
      rw [resolveGuards, List.foldl_append]
      rfl
    rw [hloop, selected, List.filter_append]
    by_cases happlies : g.applies engineVersion = true
    · rw [if_pos happlies, Dict.get?_set]
      by_cases hkey : g.key = key
      · simp [happlies, hkey]
      · simp [hkey, Ne.symm hkey, ih, selected]
    · simp [happlies, ih, selected]

/-! ### Ranges -/

/-- The version `a` comes before `b`. -/
def Before (a b : Text) : Prop := ∃ i < 4, (∀ j < i, nth a j = nth b j) ∧ nth a i < nth b i

instance (a b : Text) : Decidable (Before a b) := by
  unfold Before
  infer_instance

theorem Before.toLex_lt {a b : Text} (h : Before a b) : toLex (nth a) < toLex (nth b) := by
  obtain ⟨i, -, hagree, hlt⟩ := h
  exact ⟨i, hagree, hlt⟩

/-- The numbers of the version are small. -/
def Small (version : Text) : Prop := ∀ n ∈ numbers version, n < 2 ^ 53

instance (version : Text) : Decidable (Small version) :=
  inferInstanceAs (Decidable (∀ n ∈ numbers version, n < 2 ^ 53))

theorem Small.nth_lt {version : Text} (h : Small version) (i : ℕ) : nth version i < 2 ^ 53 := by
  unfold nth
  cases hn : (numbers version)[i]? with
  | none => simp
  | some n => exact h n (List.mem_of_getElem? hn)

/-- The bounds of the rule are versions with small numbers. -/
def VersionedBrokerKeyGuard.bounded (g : VersionedBrokerKeyGuard) : Bool :=
  (g.minVersion.all fun m => m ≠ "" && Small m.toList) && g.maxVersion.all fun m => m ≠ "" && Small m.toList

/-- A rule applies if the version lies in its range. -/
theorem applies_iff {g : VersionedBrokerKeyGuard} {engineVersion : Text} (h : g.bounded = true) :
    g.applies engineVersion = true ↔
      (∀ m, g.minVersion = some m → toLex (nth m.toList) ≤ toLex (nth engineVersion)) ∧
        ∀ m, g.maxVersion = some m → toLex (nth engineVersion) ≤ toLex (nth m.toList) := by
  obtain ⟨key, guard, minVersion, maxVersion⟩ := g
  simp only [VersionedBrokerKeyGuard.bounded, Bool.and_eq_true, Option.all_eq_true, decide_eq_true_eq] at h
  have hmin : ∀ m, minVersion = some m →
      ((compareEngineVersions engineVersion m.toList).sign = some .lt ↔ toLex (nth engineVersion) < toLex (nth m.toList)) :=
    fun m hm => (below_iff _ _).trans (doubles_lt_iff (.inr (h.1 m hm).2.nth_lt))
  have hmax : ∀ m, maxVersion = some m →
      ((compareEngineVersions engineVersion m.toList).sign = some .gt ↔ toLex (nth m.toList) < toLex (nth engineVersion)) :=
    fun m hm => (exceeds_iff _ _).trans (doubles_lt_iff (.inl (h.2 m hm).2.nth_lt))
  simp only [VersionedBrokerKeyGuard.applies, Bool.and_eq_true, Bool.not_eq_true', Option.any_eq_false,
    Bool.and_eq_false_iff, decide_eq_false_iff_not, not_not]
  refine and_congr (forall₂_congr fun m hm => ?_) (forall₂_congr fun m hm => ?_)
  · rw [hmin m hm]
    exact (or_iff_right (h.1 m hm).1).trans not_lt
  · rw [hmax m hm]
    exact (or_iff_right (h.2 m hm).1).trans not_lt

/-- The range of the first rule ends before that of the second one begins. -/
def Apart (g g' : VersionedBrokerKeyGuard) : Prop :=
  match g.maxVersion, g'.minVersion with
  | some a, some b => Before a.toList b.toList
  | _, _ => False

instance (g g' : VersionedBrokerKeyGuard) : Decidable (Apart g g') := by
  unfold Apart
  split <;> infer_instance

theorem Apart.not_both {g g' : VersionedBrokerKeyGuard} {engineVersion : Text} (h : Apart g g') (hg : g.bounded = true)
    (hg' : g'.bounded = true) (happlies : g.applies engineVersion = true) : g'.applies engineVersion = false := by
  unfold Apart at h
  split at h
  · rename_i a b ha hb
    by_contra hnot
    have hle := ((applies_iff hg).1 happlies).2 a ha
    have hge := ((applies_iff hg').1 (by simpa using hnot)).1 b hb
    exact absurd (hge.trans hle) h.toLex_lt.not_ge
  · exact h.elim

theorem bounded_brokerKeyGuards : ∀ g ∈ brokerKeyGuards, g.bounded = true := by decide

/-- The ranges of a key come one after the other. -/
theorem pairwise_brokerKeyGuards : brokerKeyGuards.Pairwise fun g g' => g.key = g'.key → Apart g g' := by decide

/-- At most one rule of a key is selected. -/
theorem length_selected_le (engineVersion : Text) (key : String) :
    (selected brokerKeyGuards engineVersion key).length ≤ 1 := by
  have hpairs : (selected brokerKeyGuards engineVersion key).Pairwise fun g g' => g.key = g'.key → Apart g g' :=
    pairwise_brokerKeyGuards.filter _
  have hmem : ∀ g ∈ selected brokerKeyGuards engineVersion key,
      g.bounded = true ∧ g.key = key ∧ g.applies engineVersion = true := by
    intro g hg
    obtain ⟨hrule, hselected⟩ := List.mem_filter.1 hg
    rw [Bool.and_eq_true, decide_eq_true_eq] at hselected
    exact ⟨bounded_brokerKeyGuards g hrule, hselected⟩
  match hl : selected brokerKeyGuards engineVersion key with
  | [] => exact Nat.zero_le 1
  | [_] => exact Nat.le_refl 1
  | g :: g' :: rest =>
    rw [hl] at hpairs hmem
    obtain ⟨hg, hkey, happlies⟩ := hmem g List.mem_cons_self
    obtain ⟨hg', hkey', happlies'⟩ := hmem g' (List.mem_cons_of_mem _ List.mem_cons_self)
    have hapart := (List.pairwise_cons.1 hpairs).1 g' List.mem_cons_self (hkey.trans hkey'.symm)
    rw [hapart.not_both hg hg' happlies] at happlies'
    cases happlies'

/-- So the order of the rules does not matter. -/
theorem resolveBrokerKeyGuards_perm {rules : List VersionedBrokerKeyGuard} (hperm : rules.Perm brokerKeyGuards)
    (engineVersion : Text) (key : String) :
    (resolveGuards rules engineVersion).get? key = (resolveBrokerKeyGuards engineVersion).get? key := by
  have hsame : (selected rules engineVersion key).Perm (selected brokerKeyGuards engineVersion key) := hperm.filter _
  have hle := length_selected_le engineVersion key
  rw [resolveBrokerKeyGuards, get?_resolveGuards, get?_resolveGuards]
  match hl : selected brokerKeyGuards engineVersion key with
  | [] =>
    rw [hl] at hsame
    rw [hsame.eq_nil]
  | [g] =>
    rw [hl] at hsame
    rw [List.perm_singleton.1 hsame]
  | _ :: _ :: _ =>
    rw [hl] at hle
    simp at hle

/-! ### The gaps -/

/-- The version is of the release line `x.y`, but comes after `x.y.999`. -/
def AboveLine (version : Text) (x y : ℕ) : Prop :=
  nth version 0 = x ∧ nth version 1 = y ∧ (999 < nth version 2 ∨ nth version 2 = 999 ∧ ∃ i, 3 ≤ i ∧ nth version i ≠ 0)

/-- The version is of a line that the ranges divide, and comes after the end of the range that should close it. -/
def InGap (version : Text) : Prop := AboveLine version 11 1 ∨ AboveLine version 11 2 ∨ AboveLine version 11 4

theorem between_iff {last next version : Text} {x y : ℕ} (hlast : numbers last = [x, y, 999])
    (hnext : numbers next = [x, y + 1]) :
    (toLex (nth last) < toLex (nth version) ∧ toLex (nth version) < toLex (nth next)) ↔ AboveLine version x y := by
  have hl : nth last 0 = x ∧ nth last 1 = y ∧ nth last 2 = 999 ∧ ∀ i, 3 ≤ i → nth last i = 0 := by
    refine ⟨by simp [nth, hlast], by simp [nth, hlast], by simp [nth, hlast], fun i hi => ?_⟩
    rw [nth, hlast, List.getElem?_eq_none (by simpa using hi), Option.getD_none]
  have hn : nth next 0 = x ∧ nth next 1 = y + 1 ∧ ∀ i, 2 ≤ i → nth next i = 0 := by
    refine ⟨by simp [nth, hnext], by simp [nth, hnext], fun i hi => ?_⟩
    rw [nth, hnext, List.getElem?_eq_none (by simpa using hi), Option.getD_none]
  obtain ⟨hl0, hl1, hl2, hl3⟩ := hl
  obtain ⟨hn0, hn1, hn2⟩ := hn
  unfold AboveLine
  constructor
  · rintro ⟨⟨i, hi, hlt⟩, ⟨j, hj, hlt'⟩⟩
    have hi : ∀ k < i, nth last k = nth version k := hi
    have hj : ∀ k < j, nth version k = nth next k := hj
    have hlt : nth last i < nth version i := hlt
    have hlt' : nth version j < nth next j := hlt'
    -- the version can fall below the next line only at the second number
    have hj1 : j = 1 := by
      rcases Nat.lt_trichotomy j 1 with h | h | h
      · obtain rfl : j = 0 := by omega
        rcases Nat.eq_zero_or_pos i with rfl | hi0
        · omega
        · have := hi 0 hi0
          omega
      · exact h
      · have := hn2 j h
        omega
    subst hj1
    have h0 := hj 0 Nat.one_pos
    have hi2 : 2 ≤ i := by
      by_contra hsmall
      have hcases : i = 0 ∨ i = 1 := by omega
      rcases hcases with rfl | rfl
      · omega
      · omega
    have h1 := hi 1 (by omega)
    refine ⟨by omega, by omega, ?_⟩
    rcases Nat.lt_or_eq_of_le hi2 with hi3 | rfl
    · have h2 := hi 2 hi3
      exact .inr ⟨by omega, i, hi3, by omega⟩
    · exact .inl (by omega)
  · rintro ⟨h0, h1, h2⟩
    refine ⟨?_, 1, fun k hk => ?_, ?_⟩
    · -- no number of the version is smaller, and one is greater
      have hle : nth last ≤ nth version := by
        intro k
        rcases k with _ | _ | _ | k
        · show nth last 0 ≤ nth version 0
          omega
        · show nth last 1 ≤ nth version 1
          omega
        · show nth last 2 ≤ nth version 2
          omega
        · rw [hl3 (k + 3) (by omega)]
          exact Nat.zero_le _
      refine lt_of_le_of_ne (Pi.toLex_monotone hle) fun heq => ?_
      have hsame : ∀ i, nth last i = nth version i := congrFun (toLex_inj.1 heq)
      rcases h2 with h2 | ⟨-, i, hi, hne⟩
      · have := hsame 2
        omega
      · exact hne ((hsame i).symm.trans (hl3 i hi))
    · show nth version k = nth next k
      obtain rfl : k = 0 := by omega
      omega
    · show nth version 1 < nth next 1
      omega

/-- Between the ranges of a key there are only the versions above a line that one of them ends with. -/
theorem selected_eq_one_iff (engineVersion : Text) (key : String) :
    (selected brokerKeyGuards engineVersion key).length = 1 ↔
      ∃ g ∈ brokerKeyGuards.filter fun g => g.key = key, g.applies engineVersion = true := by
  have hle := length_selected_le engineVersion key
  have hpos : 0 < (selected brokerKeyGuards engineVersion key).length ↔
      ∃ g ∈ brokerKeyGuards.filter fun g => g.key = key, g.applies engineVersion = true := by
    rw [List.length_pos_iff_exists_mem]
    simp only [selected, List.mem_filter, Bool.and_eq_true, decide_eq_true_eq, and_assoc]
  rw [← hpos]
  omega

theorem outside_iff {last next version : Text} {x y : ℕ} (hlast : numbers last = [x, y, 999])
    (hnext : numbers next = [x, y + 1]) :
    (toLex (nth version) ≤ toLex (nth last) ∨ toLex (nth next) ≤ toLex (nth version)) ↔ ¬ AboveLine version x y := by
  have hbetween : _ ↔ AboveLine version x y := between_iff hlast hnext
  constructor
  · rintro (hle | hge) habove
    · exact absurd hle (hbetween.2 habove).1.not_ge
    · exact absurd hge (hbetween.2 habove).2.not_ge
  · intro hnot
    by_contra hout
    rw [not_or] at hout
    exact hnot (hbetween.1 ⟨lt_of_not_ge hout.1, lt_of_not_ge hout.2⟩)

theorem one_jobQueueSize_iff (engineVersion : Text) :
    (selected brokerKeyGuards engineVersion "JOB_QUEUE_SIZE").length = 1 ↔ ¬ AboveLine engineVersion 11 2 := by
  have hrules : (brokerKeyGuards.filter fun g => g.key = "JOB_QUEUE_SIZE") =
      [⟨"JOB_QUEUE_SIZE", .int (some 0) (some 2048) 0, none, some "11.2.999"⟩,
        ⟨"JOB_QUEUE_SIZE", .int (some 0) (some 4096) 0, some "11.3", none⟩] := by
    decide
  have hlast : numbers "11.2.999".toList = [11, 2, 999] := by decide
  have hnext : numbers "11.3".toList = [11, 3] := by decide
  rw [selected_eq_one_iff, hrules, ← outside_iff hlast hnext]
  simp only [List.mem_cons, List.not_mem_nil, or_false, exists_eq_or_imp, exists_eq_left]
  rw [applies_iff (by decide), applies_iff (by decide)]
  simp

theorem one_applServer_iff (engineVersion : Text) : (selected brokerKeyGuards engineVersion "APPL_SERVER").length = 1 ↔
    ¬ AboveLine engineVersion 11 1 ∧ ¬ AboveLine engineVersion 11 4 := by
  have hrules : (brokerKeyGuards.filter fun g => g.key = "APPL_SERVER") =
      [⟨"APPL_SERVER", .enum ["CAS", "CAS_ORACLE", "CAS_MYSQL51", "CAS_MYSQL"], none, some "11.1.999"⟩,
        ⟨"APPL_SERVER", .enum ["CAS", "CAS_ORACLE", "CAS_MYSQL51", "CAS_MYSQL", "CAS_CGW"], some "11.2", some "11.4.999"⟩,
        ⟨"APPL_SERVER", .enum ["CAS", "CAS_CGW"], some "11.5", none⟩] := by
    decide
  have hlast : numbers "11.1.999".toList = [11, 1, 999] := by decide
  have hnext : numbers "11.2".toList = [11, 2] := by decide
  have hlast' : numbers "11.4.999".toList = [11, 4, 999] := by decide
  have hnext' : numbers "11.5".toList = [11, 5] := by decide
  have hfirst : Before "11.1.999".toList "11.5".toList := by decide
  have hmiddle : Before "11.1.999".toList "11.4.999".toList := by decide
  have hlater : Before "11.2".toList "11.5".toList := by decide
  rw [selected_eq_one_iff, hrules, ← outside_iff hlast hnext, ← outside_iff hlast' hnext']
  simp only [List.mem_cons, List.not_mem_nil, or_false, exists_eq_or_imp, exists_eq_left]
  rw [applies_iff (by decide), applies_iff (by decide), applies_iff (by decide)]
  simp only [reduceCtorEq, false_implies, implies_true, Option.some.injEq, forall_eq', true_and, and_true]
  constructor
  · rintro (h | ⟨h, h'⟩ | h)
    · exact ⟨.inl h, .inl (h.trans hmiddle.toLex_lt.le)⟩
    · exact ⟨.inr h, .inl h'⟩
    · exact ⟨.inr (hlater.toLex_lt.le.trans h), .inr h⟩
  · rintro ⟨h | h, h' | h'⟩
    · exact .inl h
    · exact .inl h
    · exact .inr (.inl ⟨h, h'⟩)
    · exact .inr (.inr h')

def HasRanges (key : String) : Prop :=
  ∃ g ∈ brokerKeyGuards, g.key = key ∧ (g.minVersion.isSome || g.maxVersion.isSome) = true

theorem hasRanges_iff {key : String} : HasRanges key ↔ key = "APPL_SERVER" ∨ key = "JOB_QUEUE_SIZE" := by
  have hall : ∀ g ∈ brokerKeyGuards, (g.minVersion.isSome || g.maxVersion.isSome) = true →
      g.key = "APPL_SERVER" ∨ g.key = "JOB_QUEUE_SIZE" := by
    decide
  constructor
  · rintro ⟨g, hg, rfl, hranges⟩
    exact hall g hg hranges
  · rintro (rfl | rfl)
    · exact ⟨_, List.mem_cons_self, rfl, rfl⟩
    · exact ⟨⟨"JOB_QUEUE_SIZE", .int (some 0) (some 4096) 0, some "11.3", none⟩, by decide, rfl, rfl⟩

/-- Each key with ranges has exactly one rule for the version. -/
def OneRuleEach (engineVersion : Text) : Prop :=
  ∀ key, HasRanges key → (selected brokerKeyGuards engineVersion key).length = 1

theorem oneRuleEach_iff (engineVersion : Text) : OneRuleEach engineVersion ↔ ¬ InGap engineVersion := by
  simp only [OneRuleEach, hasRanges_iff, forall_eq_or_imp, forall_eq, one_applServer_iff, one_jobQueueSize_iff, InGap,
    not_or]
  tauto

/-- `a` does not come after `b`. -/
def NotAfter (a b : Text) : Prop := (compareEngineVersions a b).sign ≠ some .gt

theorem notAfter_iff (a b : Text) : NotAfter a b ↔ versionKey a ≤ versionKey b := by
  rw [NotAfter, ne_eq, exceeds_iff]
  exact not_lt

/-- The versions are totally ordered, the order of the rules does not matter, and each key with ranges has exactly one
rule for the version unless it comes after the end `x.y.999` of a range within the line `x.y`. -/
theorem one_guard_each_iff (a b c engineVersion : Text) :
    ((NotAfter a b ∨ NotAfter b a) ∧ (NotAfter a b → NotAfter b c → NotAfter a c) ∧
      ((compareEngineVersions a b).sign = some .gt ↔ (compareEngineVersions b a).sign = some .lt)) ∧
    (∀ rules : List VersionedBrokerKeyGuard, rules.Perm brokerKeyGuards → ∀ key,
      (resolveGuards rules engineVersion).get? key = (resolveBrokerKeyGuards engineVersion).get? key) ∧
    (OneRuleEach engineVersion ↔ ¬ InGap engineVersion) := by
  simp only [notAfter_iff]
  refine ⟨⟨le_total _ _, le_trans, ?_⟩, fun rules hperm key => resolveBrokerKeyGuards_perm hperm engineVersion key,
    oneRuleEach_iff engineVersion⟩
  rw [exceeds_iff, below_iff]

/-- `11.1.1000` is above `11.1.999`, with which the first range of `APPL_SERVER` ends, and below `11.2`. -/
theorem one_guard_each_fails : ¬ OneRuleEach "11.1.1000".toList := by
  intro hone
  have hgap : InGap "11.1.1000".toList := .inl ⟨by decide, by decide, .inl (by decide)⟩
  exact (oneRuleEach_iff _).1 hone hgap

end CubridWebManager.ParamCatalog
