import CubridWebManager.Lifecycle.SelectedDatabases

/-!
# All databases of a list

`startAllDatabases` and `stopAllDatabases` act on the databases of a list and on all HA databases of the host.  Their
report names exactly those that the action applies to by the readings of the running databases (`AllReport`): a database
of the list that is not an HA one by the reading before everything else, an HA database by that reading too or, when it
fails, by one more.
-/

namespace CubridWebManager.Lifecycle

open Interaction

/-! ### The functions -/

/-- `startAllDatabasesUnlocked` and `stopAllDatabasesUnlocked` -/
def allDatabasesUnlocked (action : StartStop) (dbnames haDbNames : List DbName) (haNode : Bool) :
    Async BulkDatabaseActionResult := do
  let read ← attempt (readActiveDbnames (.all action dbnames haDbNames))
  -- when the running list can't be read, every listed database is tried
  let running := read.toOption
  let nonHaTargets := dbnames.filter fun d => d ∉ haDbNames && running.all fun running => appliesTo action running d
  let out ← if haNode then runHaNodeAction haDbNames action {} else runHaBulkAction haDbNames action {} running
  let results ← ExceptT.lift (mapWithConcurrency nonHaTargets 4 (nonHaCall action))
  pure (results.foldl addOutcome out)

def allName : StartStop → String
  | .start => "startAllDatabases"
  | .stop => "stopAllDatabases"

def allDatabases (lower : Text → Text) (action : StartStop) (dbnames : List DbName) (haNode : Bool) :
    Async BulkDatabaseActionResult := do
  assertNoActiveJob
  let haDbNames ← if haNode then getServiceHaDbNames lower else getHaDbNames
  holdingDatabases (haDbNames ++ dbnames) (allName action) (allDatabasesUnlocked action dbnames haDbNames haNode)

def startAllDatabases (lower : Text → Text) (dbnames : List DbName) (haNode : Bool) : Async BulkDatabaseActionResult :=
  allDatabases lower .start dbnames haNode

def stopAllDatabases (lower : Text → Text) (dbnames : List DbName) (haNode : Bool) : Async BulkDatabaseActionResult :=
  allDatabases lower .stop dbnames haNode

/-! ### The reading before everything else -/

/-- The names that start-info lists as running, read before all requests. -/
def Event.allRead : Event → Option (List DbName)
  | ⟨.startInfo (.all ..), .ok info⟩ => info.active
  | _ => none

def allReads (log : List Event) : List (List DbName) := log.filterMap Event.allRead

theorem allReads_append (log log' : List Event) : allReads (log ++ log') = allReads log ++ allReads log' :=
  List.filterMap_append

/-- One reading, which is of no use when it fails or has no list. -/
theorem runs_read {reader : Reader} {log : List Event} {result : Except Thrown (List DbName)}
    (h : Runs (readActiveDbnames reader).run log result) :
    ∃ answer : Except Thrown StartInfo, log = [⟨.startInfo reader, answer⟩] ∧
      result.toOption = answer.toOption.bind StartInfo.active := by
  rw [readActiveDbnames, ExceptT.run_bind, runs_bind] at h
  obtain ⟨l, answer, l', rfl, hread, hrest⟩ := h
  obtain rfl : l = [⟨.startInfo reader, answer⟩] := runs_query.1 hread
  refine ⟨answer, ?_⟩
  cases answer with
  | error e =>
    obtain ⟨rfl, rfl⟩ := runs_pure.1 hrest
    exact ⟨rfl, rfl⟩
  | ok info =>
    obtain ⟨dblist, active⟩ := info
    cases active with
    | none =>
      obtain ⟨rfl, rfl⟩ := runs_pure.1 hrest
      exact ⟨rfl, rfl⟩
    | some active =>
      obtain ⟨rfl, rfl⟩ := runs_pure.1 hrest
      exact ⟨rfl, rfl⟩

/-! ### The pool, for any list -/

theorem mem_names_foldl {results : List (DbName × Except Thrown Unit)} {out : BulkDatabaseActionResult} {d : DbName} :
    d ∈ (results.foldl addOutcome out).names ↔ d ∈ out.names ∨ d ∈ results.map Prod.fst := by
  rw [← List.count_pos_iff, count_names_foldl, ← List.count_pos_iff, ← List.count_pos_iff]
  omega

/-- Every database has its outcome, which is success only when CMS has accepted its request. -/
structure PoolOutcomes (dbnames : List DbName) (call : DbName → Call) (results : List (DbName × Except Thrown Unit))
    (log : List Event) : Prop where
  names : results.map Prod.fst = dbnames
  ok : ∀ d, (d, .ok ()) ∈ results → (call d, .ok ()) ∈ callAnswers log
  only : OnlyCalls dbnames call log

section pool

variable {dbnames : List DbName} {call : DbName → Call}

theorem poolOutcomes_of_sound {p : Pool Call Thrown} {log : List Event}
    (hsound : Pool.Sound (poolItems dbnames call) (callAnswers log) p) (honly : OnlyCalls dbnames call log)
    (hbusy : p.busy = []) :
    PoolOutcomes dbnames call ((dbnames.zip p.results).filterMap fun e => e.2.map (e.1, ·)) log := by
  obtain ⟨hlength, hfinal⟩ := hsound.final hbusy
  have hitem : ∀ i (hi : i < dbnames.length),
      (poolItems dbnames call)[i]? = some (.ensureDbLogin dbnames[i], [call dbnames[i]]) := by
    intro i hi
    rw [poolItems, List.getElem?_map, List.getElem?_eq_getElem hi]
    rfl
  rw [poolItems, List.length_map] at hlength
  obtain ⟨rs, hrs⟩ : ∃ rs : List (Except Thrown Unit), p.results = rs.map some := by
    refine exists_outcomes fun i hi => ?_
    obtain ⟨r, hr, -⟩ := hfinal i _ (hitem i (hlength ▸ hi))
    rw [List.getElem?_eq_getElem hi] at hr
    exact ⟨r, Option.some.inj hr⟩
  rw [hrs, List.length_map] at hlength
  rw [hrs, filterMap_zip]
  refine ⟨List.map_fst_zip (Nat.le_of_eq hlength.symm), fun d hmem => ?_, honly⟩
  obtain ⟨i, hi⟩ := List.mem_iff_getElem?.1 hmem
  rw [List.getElem?_zip_eq_some] at hi
  obtain ⟨hlt, rfl⟩ := List.getElem?_eq_some_iff.1 hi.1
  obtain ⟨r, hr, hok⟩ := hfinal i _ (hitem i hlt)
  rw [hrs, List.getElem?_map, hi.2, Option.map_some, Option.some.injEq, Option.some.injEq] at hr
  exact hok hr.symm (call dbnames[i]) (by simp)

theorem runs_mapWithConcurrency_outcomes {limit : Nat} {log : List Event} {results : List (DbName × Except Thrown Unit)}
    (h : Runs (mapWithConcurrency dbnames limit call) log results) : PoolOutcomes dbnames call results log := by
  refine h.of_recording ?_
  rw [mapWithConcurrency, meets_bind]
  refine Pool.meets_run
    (fun p s => Pool.Sound (poolItems dbnames call) (callAnswers s) p ∧ OnlyCalls dbnames call s)
    (fun p s hI => hI.1.nodup) ?_ ?_ _ ⟨Pool.sound_start limit _, ?_, ?_⟩ (Nat.le_refl _)
  · rintro p s ⟨hsound, honly⟩
    refine ⟨trivial, fun answer _ b hb => ?_⟩
    have hsettled := hsound.settle hb answer.2
    rw [← callAnswers_snoc hb] at hsettled
    exact ⟨hsettled, honly.snoc hb (hsound.working (List.mem_of_getElem? hb))⟩
  · rintro p s ⟨hsound, honly⟩ hbusy
    exact poolOutcomes_of_sound hsound honly hbusy
  · intro e he
    cases he
  · intro a ha
    cases ha

end pool

/-! ### The HA databases -/

/-- By the reading that is known, or else the one that is made for them, the action applies to the database. -/
def HaApplies (action : StartStop) (known : Option (List DbName)) (log : List Event) (d : DbName) : Prop :=
  (∀ running ∈ known, appliesTo action running d = true) ∧
    ∀ running ∈ bulkReads log action, appliesTo action running d = true

structure HaOutcomes (action : StartStop) (haDbNames : List DbName) (known : Option (List DbName)) (log : List Event)
    (res : BulkDatabaseActionResult) : Prop where
  names : ∀ d, d ∈ res.names ↔ d ∈ haDbNames ∧ HaApplies action known log d
  succeeded : ∀ d ∈ res.succeeded, (haCall action d, .ok ()) ∈ callAnswers log
  events : ∀ e ∈ log, IsPhaseEvent action e

theorem runs_runHaBulkAction_outcomes {action : StartStop} {haDbNames : List DbName} {known : Option (List DbName)}
    {log : List Event} {res : BulkDatabaseActionResult}
    (h : Runs (runHaBulkAction haDbNames action {} known).run log (.ok res)) :
    HaOutcomes action haDbNames known log res := by
  unfold runHaBulkAction at h
  split at h
  · rename_i hnone
    obtain ⟨rfl, rfl⟩ := runs_run_pure h
    exact ⟨fun d => by simp [hnone, BulkDatabaseActionResult.names], by simp, by simp⟩
  · obtain ⟨l, read, l', rfl, hread, hrest⟩ := runs_run_bind h
    have hread := runs_run_attempt hread
    have hreadEvents : (∀ e ∈ l, IsPhaseEvent action e) ∧ callAnswers l = [] ∧
        ((∀ running ∈ known, read = .ok running ∧ bulkReads l action = []) ∧
          (known = none → bulkReads l action = read.toOption.toList)) := by
      cases known with
      | some running =>
        obtain ⟨rfl, rfl⟩ := runs_pure.1 hread
        exact ⟨by simp, rfl, fun running' h => ⟨by rw [Option.mem_some_iff.1 h], rfl⟩, by simp⟩
      | none =>
        obtain ⟨answer, rfl, hresult⟩ := runs_read hread
        refine ⟨fun e he => .inl (by rw [List.mem_singleton.1 he]), rfl, by simp, fun _ => ?_⟩
        rw [hresult]
        cases answer with
        | error e => rfl
        | ok info => cases hactive : info.active <;> simp [bulkReads, Event.bulkRead, hactive, Except.toOption]
    obtain ⟨hevents, hanswers, hsome, hnone⟩ := hreadEvents
    cases read with
    | error e =>
      obtain ⟨rfl, rfl⟩ := runs_run_pure hrest
      rw [List.append_nil]
      have hknown : known = none := by
        cases known with
        | none => rfl
        | some running => exact absurd (hsome running rfl).1 (by simp)
      refine ⟨fun d => ?_, by simp, hevents⟩
      have hreads : bulkReads l action = [] := hnone hknown
      simp [HaApplies, hknown, hreads, BulkDatabaseActionResult.names, Function.comp_def]
    | ok running =>
      obtain ⟨l₁, results, l₂, rfl, hpool, hret⟩ := runs_run_bind hrest
      obtain ⟨rfl, rfl⟩ := runs_run_pure hret
      have hreport := runs_mapWithConcurrency_outcomes (runs_run_lift hpool)
      rw [List.append_nil]
      refine ⟨fun d => ?_, fun d hd => ?_, fun e he => ?_⟩
      · rw [mem_names_foldl, hreport.names, List.mem_filter, HaApplies, bulkReads_append,
          bulkReads_of_onlyCalls hreport.only.1, List.append_nil]
        cases known with
        | some running' =>
          obtain ⟨heq, hreads⟩ := hsome running' rfl
          obtain rfl := Except.ok.inj heq
          simp [hreads, BulkDatabaseActionResult.names]
        | none => simp [hnone rfl, BulkDatabaseActionResult.names, Except.toOption]
      · rw [callAnswers_append, hanswers, List.nil_append]
        exact hreport.ok d ((mem_succeeded_foldl.1 hd).resolve_left (by simp))
      · rcases List.mem_append.1 he with he | he
        · exact hevents e he
        · exact .inr (hreport.only.1 e he)

/-! ### The report -/

/-- The action applies to the database, by the readings that decide on it. -/
def Applies (action : StartStop) (log : List Event) (d : DbName) : Prop :=
  (∀ running ∈ allReads log, appliesTo action running d = true) ∧
    ∀ haDbNames ∈ haLists log, d ∈ haDbNames → ∀ running ∈ bulkReads log action, appliesTo action running d = true

/-- Exactly the databases of the list and the HA databases are reported, as far as the action applies to them. -/
structure AllReport (action : StartStop) (dbnames : List DbName) (log : List Event) (res : BulkDatabaseActionResult) :
    Prop where
  names : ∀ d, d ∈ res.names ↔ (d ∈ dbnames ∨ ∃ haDbNames ∈ haLists log, d ∈ haDbNames) ∧ Applies action log d
  succeeded : ∀ d ∈ res.succeeded, Accepted action d log

theorem allReads_of_phase {phase : StartStop} {log : List Event} (h : ∀ e ∈ log, IsPhaseEvent phase e) :
    allReads log = [] := by
  refine List.filterMap_eq_nil_iff.2 fun e he => ?_
  obtain ⟨q, a⟩ := e
  rcases h _ he with hq | ⟨out, hq⟩
  · obtain rfl : q = _ := hq
    rfl
  · obtain rfl : q = _ := hq
    rfl

/-- What the action does once it holds the databases. -/
structure UnlockedReport (action : StartStop) (dbnames haDbNames : List DbName) (log : List Event)
    (res : BulkDatabaseActionResult) : Prop where
  names : ∀ d, d ∈ res.names ↔ (d ∈ dbnames ∨ d ∈ haDbNames) ∧
    (∀ running ∈ allReads log, appliesTo action running d = true) ∧
      (d ∈ haDbNames → ∀ running ∈ bulkReads log action, appliesTo action running d = true)
  succeeded : ∀ d ∈ res.succeeded, Accepted action d log
  haLists : haLists log = []

theorem runs_allDatabasesUnlocked {action : StartStop} {dbnames haDbNames : List DbName} {log : List Event}
    {res : BulkDatabaseActionResult} (h : Runs (allDatabasesUnlocked action dbnames haDbNames false).run log (.ok res)) :
    UnlockedReport action dbnames haDbNames log res := by
  obtain ⟨l, read, l', rfl, hread, hrest⟩ := runs_run_bind h
  obtain ⟨l₁, out, l₂, rfl, hha, hrest⟩ := runs_run_bind hrest
  obtain ⟨l₃, results, l₄, rfl, hpool, hret⟩ := runs_run_bind hrest
  obtain ⟨rfl, rfl⟩ := runs_run_pure hret
  obtain ⟨answer, rfl, hresult⟩ := runs_read (runs_run_attempt hread)
  have hha := runs_runHaBulkAction_outcomes hha
  have hnonHa := runs_mapWithConcurrency_outcomes (runs_run_lift hpool)
  have hphase : ∀ e ∈ l₁ ++ l₃, IsPhaseEvent action e := by
    intro e he
    rcases List.mem_append.1 he with he | he
    · exact hha.events e he
    · exact .inr (hnonHa.only.1 e he)
  rw [List.append_nil]
  have hreads : bulkReads (⟨.startInfo (.all action dbnames haDbNames), answer⟩ :: (l₁ ++ l₃)) action =
      bulkReads l₁ action := by
    rw [← List.singleton_append, bulkReads_append, bulkReads_append, bulkReads_of_onlyCalls hnonHa.only.1,
      List.append_nil]
    cases answer <;> rfl
  have hall : allReads (⟨.startInfo (.all action dbnames haDbNames), answer⟩ :: (l₁ ++ l₃)) =
      read.toOption.toList := by
    rw [← List.singleton_append, allReads_append, allReads_of_phase hphase, List.append_nil, hresult]
    cases answer with
    | error e => rfl
    | ok info => cases hactive : info.active <;> simp [allReads, Event.allRead, hactive, Except.toOption]
  refine ⟨fun d => ?_, fun d hd => ?_, ?_⟩
  · show d ∈ (results.foldl addOutcome out).names ↔ _
    rw [mem_names_foldl, hha.names, hnonHa.names, List.mem_filter, HaApplies, List.singleton_append, hreads, hall]
    by_cases hd : d ∈ haDbNames
    · simp [hd]
    · cases read.toOption <;> simp [hd]
  · rw [← List.append_assoc, accepted_append, accepted_append, or_assoc]
    rcases mem_succeeded_foldl.1 hd with hd | hd
    · exact .inr (.inl (.inl (hha.succeeded d hd)))
    · exact .inr (.inr (.inr (hnonHa.ok d hd)))
  · rw [List.singleton_append]
    rw [← List.singleton_append, haLists_append, haLists_of_phase hphase]
    rfl

theorem allReads_of_hold {log : List Event} (h : ∀ e ∈ log, IsHoldEvent e) : allReads log = [] := by
  refine filterMap_of_hold ?_ h
  rintro ⟨q, a⟩ (hq | hq | ⟨hostKey, dbnames, action, hq⟩ | ⟨hostKey, dbnames, hq⟩) <;> obtain rfl : q = _ := hq <;> rfl

theorem runs_allDatabases {lower : Text → Text} {action : StartStop} {dbnames : List DbName} {log : List Event}
    {res : BulkDatabaseActionResult} (h : Runs (allDatabases lower action dbnames false).run log (.ok res)) :
    AllReport action dbnames log res := by
  obtain ⟨l, u, l', rfl, hjob, hrest⟩ := runs_run_bind h
  obtain ⟨l₁, haDbNames, l₂, rfl, hlist, hheld⟩ := runs_run_bind hrest
  obtain rfl : l₁ = [⟨.haDbNames, .ok haDbNames⟩] := runs_query.1 hlist
  obtain ⟨before, inner, after, rfl, hbefore, hafter, hinner⟩ := runs_holdingDatabases hheld
  have hreport := runs_allDatabasesUnlocked hinner
  have hjob := runs_assertNoActiveJob hjob
  -- what is decided on is in the part that holds the databases
  have hall : allReads (l ++ ([⟨.haDbNames, .ok haDbNames⟩] ++ (before ++ (inner ++ after)))) = allReads inner := by
    rw [allReads_append, allReads_append, allReads_append, allReads_append, allReads_of_hold hjob,
      allReads_of_hold hbefore, allReads_of_hold hafter, List.append_nil]
    rfl
  have hbulk : bulkReads (l ++ ([⟨.haDbNames, .ok haDbNames⟩] ++ (before ++ (inner ++ after)))) action =
      bulkReads inner action := by
    rw [bulkReads_append, bulkReads_append, bulkReads_silent (silent_of_hold hbefore) (silent_of_hold hafter),
      (silent_of_hold hjob).2.1]
    rfl
  have hlists : haLists (l ++ ([⟨.haDbNames, .ok haDbNames⟩] ++ (before ++ (inner ++ after)))) = [haDbNames] := by
    rw [haLists_append, haLists_append, haLists_silent (silent_of_hold hbefore) (silent_of_hold hafter),
      (silent_of_hold hjob).2.2.2, hreport.haLists]
    rfl
  refine ⟨fun d => ?_, fun d hd => ?_⟩
  · rw [hreport.names, Applies, hall, hbulk, hlists]
    simp
  · refine accepted_append.2 (.inr (accepted_append.2 (.inr (accepted_append.2 (.inr (accepted_append.2 (.inl ?_)))))))
    exact hreport.succeeded d hd

end CubridWebManager.Lifecycle
