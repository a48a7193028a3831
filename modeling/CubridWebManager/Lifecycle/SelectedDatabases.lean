import CubridWebManager.Lib.FirstOccurrences
import CubridWebManager.Lifecycle.PhaseReport

/-!
# The report on the selected databases

`runSelectedDatabasesAction` reports every selected database as succeeded, failed or skipped.  The HA databases among
them are looked up once more in the list of the running databases before each phase, and one that the phase does not
apply to any more is in none of the three lists.  So the report is complete just when no HA database changes its state
on its own between the readings (`Steady`).
-/

namespace CubridWebManager.Lifecycle

open Interaction

/-! ### The action -/

/-- The databases that the first reading says the action applies to. -/
def Target (action : SelectedDatabasesAction) (dbnames : List DbName) (log : List Event) (d : DbName) : Prop :=
  ∃ info ∈ selectedInfos log, ∃ running, info.active = some running ∧ d ∈ dbnames ∧
    selectedSkip action (info.dblist ++ running) running d = none

/-- The phases of the action apply to the database still when it is their turn. -/
def KeptAll (action : SelectedDatabasesAction) (haDbNames : List DbName) (log : List Event) (d : DbName) : Prop :=
  match action with
  | .start => Kept .start haDbNames log d
  | .stop => Kept .stop haDbNames log d
  | .restart => Kept .stop haDbNames log d ∧ (Accepted .stop d log → Kept .start haDbNames log d)

/-- When the running databases are read again, before the HA requests of a phase, the HA databases that are to be
stopped are running still and those that are to be started are not: in a restart the ones whose stop was accepted. -/
def Steady (action : SelectedDatabasesAction) (dbnames : List DbName) (log : List Event) : Prop :=
  ∀ d, Target action dbnames log d → ∀ haDbNames ∈ haLists log, KeptAll action haDbNames log d

/-- CMS has accepted the action for the database, a restart in both phases. -/
def ActionAccepted (action : SelectedDatabasesAction) (d : DbName) (log : List Event) : Prop :=
  match action with
  | .start => Accepted .start d log
  | .stop => Accepted .stop d log
  | .restart => Accepted .stop d log ∧ Accepted .start d log

section views

variable {phase : StartStop} {log : List Event} (h : ∀ e ∈ log, IsPhaseEvent phase e)
include h

theorem selectedInfos_of_phase : selectedInfos log = [] := by
  refine List.filterMap_eq_nil_iff.2 fun e he => ?_
  obtain ⟨q, a⟩ := e
  rcases h _ he with hq | ⟨out, hq⟩
  · obtain rfl : q = _ := hq
    rfl
  · obtain rfl : q = _ := hq
    rfl

theorem haLists_of_phase : haLists log = [] := by
  refine List.filterMap_eq_nil_iff.2 fun e he => ?_
  obtain ⟨q, a⟩ := e
  rcases h _ he with hq | ⟨out, hq⟩
  · obtain rfl : q = _ := hq
    rfl
  · obtain rfl : q = _ := hq
    rfl

theorem bulkReads_of_other {other : StartStop} (hne : phase ≠ other) : bulkReads log other = [] := by
  refine List.filterMap_eq_nil_iff.2 fun e he => ?_
  obtain ⟨q, a⟩ := e
  rcases h _ he with hq | ⟨out, hq⟩
  · obtain rfl : q = _ := hq
    cases a with
    | error e => rfl
    | ok info => exact if_neg hne
  · obtain rfl : q = _ := hq
    rfl

end views

theorem not_accepted_of_calls {phase other : StartStop} (hne : phase ≠ other) {log : List Event}
    (h : ∀ a ∈ callAnswers log, ∃ d, a.1 = .ensureDbLogin d ∨ a.1 = haCall phase d ∨ a.1 = nonHaCall phase d)
    (d : DbName) :
    ¬Accepted other d log := by
  rintro (hmem | hmem) <;> obtain ⟨d', hd'⟩ := h _ hmem <;> cases phase <;> cases other <;>
    simp_all [haCall, nonHaCall]

theorem count_filter_kept {dbs : List DbName} (hnodup : dbs.Nodup) (p : DbName → Prop) [DecidablePred p] (d : DbName) :
    (dbs.filter fun d => decide (p d)).count d = if d ∈ dbs ∧ p d then 1 else 0 := by
  split
  · rename_i h
    exact List.count_eq_one_of_mem (hnodup.filter _) (List.mem_filter.2 ⟨h.1, decide_eq_true h.2⟩)
  · rename_i h
    refine List.count_eq_zero_of_not_mem fun hmem => h ?_
    obtain ⟨hd, hp⟩ := List.mem_filter.1 hmem
    exact ⟨hd, of_decide_eq_true hp⟩

theorem count_addAll (out result : BulkDatabaseActionResult) (d : DbName) :
    (addAll out result).names.count d = out.names.count d + result.names.count d := by
  simp only [count_names, addAll, List.map_append, List.count_append]
  omega

/-- What the phases add to a report. -/
structure Added (action : SelectedDatabasesAction) (haDbNames targets : List DbName) (log : List Event)
    (out res : BulkDatabaseActionResult) : Prop where
  kept : ∀ d ∈ targets, KeptAll action haDbNames log d → res.names.count d = out.names.count d + 1
  dropped : ∀ d, ¬(d ∈ targets ∧ KeptAll action haDbNames log d) → res.names.count d = out.names.count d
  accepted : ∀ d ∈ res.succeeded, d ∈ out.succeeded ∨ ActionAccepted action d log
  selectedInfos : selectedInfos log = []
  haLists : haLists log = []

/-- One phase is the whole action. -/
theorem added_of_phase {phase : StartStop} {action : SelectedDatabasesAction} {haDbNames targets : List DbName}
    (hnodup : targets.Nodup) {log : List Event} {out result : BulkDatabaseActionResult}
    (h : PhaseReport phase haDbNames targets log result)
    (hkept : ∀ d, KeptAll action haDbNames log d ↔ Kept phase haDbNames log d)
    (haccepted : ∀ d, ActionAccepted action d log ↔ Accepted phase d log) :
    Added action haDbNames targets log out (addAll out result) where
  kept := by
    intro d hd hk
    rw [count_addAll, h.count, count_filter_kept hnodup, if_pos ⟨hd, (hkept d).1 hk⟩]
  dropped := by
    intro d hd
    rw [hkept] at hd
    rw [count_addAll, h.count, count_filter_kept hnodup, if_neg hd, Nat.add_zero]
  accepted := by
    intro d hd
    rw [haccepted, ← h.succeeded]
    exact List.mem_append.1 hd
  selectedInfos := selectedInfos_of_phase h.events
  haLists := haLists_of_phase h.events

theorem accepted_append {phase : StartStop} {log log' : List Event} {d : DbName} :
    Accepted phase d (log ++ log') ↔ Accepted phase d log ∨ Accepted phase d log' := by
  simp only [Accepted, callAnswers_append, List.mem_append]
  exact or_or_or_comm

/-- The report of a restart. -/
def restartReport (out stopped started : BulkDatabaseActionResult) : BulkDatabaseActionResult where
  succeeded := out.succeeded ++ started.succeeded
  failed := out.failed ++ stopped.failed.map (fun f => { f with phase := some .stop }) ++
    started.failed.map fun f => { f with phase := some .start }
  skipped := out.skipped ++ stopped.skipped ++ started.skipped

/-- A database whose stop was accepted is reported with the start, another one with the stop. -/
theorem count_restartReport (out stopped started : BulkDatabaseActionResult) (d : DbName) :
    (restartReport out stopped started).names.count d + stopped.succeeded.count d =
      out.names.count d + stopped.names.count d + started.names.count d := by
  have hphase : ∀ (phase : StartStop) (l : List FailedDatabase),
      (l.map fun f => { f with phase := some phase }).map FailedDatabase.dbname = l.map FailedDatabase.dbname := by
    intro phase l
    rw [List.map_map]
    rfl
  simp only [count_names, restartReport, List.map_append, List.count_append, hphase]
  omega

theorem added_of_phases {haDbNames targets : List DbName} (hnodup : targets.Nodup) {log log' : List Event}
    {out stopped started : BulkDatabaseActionResult} (hstop : PhaseReport .stop haDbNames targets log stopped)
    (hstart : PhaseReport .start haDbNames stopped.succeeded log' started) :
    Added .restart haDbNames targets (log ++ log') out (restartReport out stopped started) := by
  have hstopReads : bulkReads (log ++ log') .stop = bulkReads log .stop := by
    rw [bulkReads_append, bulkReads_of_other hstart.events (by decide), List.append_nil]
  have hstartReads : bulkReads (log ++ log') .start = bulkReads log' .start := by
    rw [bulkReads_append, bulkReads_of_other hstop.events (by decide), List.nil_append]
  have hstopKept : ∀ d, Kept .stop haDbNames (log ++ log') d ↔ Kept .stop haDbNames log d := by
    intro d
    rw [Kept, hstopReads, Kept]
  have hstartKept : ∀ d, Kept .start haDbNames (log ++ log') d ↔ Kept .start haDbNames log' d := by
    intro d
    rw [Kept, hstartReads, Kept]
  have hstopAccepted : ∀ d, Accepted .stop d (log ++ log') ↔ d ∈ stopped.succeeded := by
    intro d
    rw [accepted_append, hstop.succeeded]
    exact or_iff_left (not_accepted_of_calls (by decide) hstart.calls d)
  have hstartAccepted : ∀ d, Accepted .start d (log ++ log') ↔ d ∈ started.succeeded := by
    intro d
    rw [accepted_append, hstart.succeeded]
    exact or_iff_right (not_accepted_of_calls (by decide) hstop.calls d)
  -- what was stopped is among the targets, each of them once
  have hcountStopped := fun d => (hstop.count d).trans (count_filter_kept hnodup _ d)
  have hle : ∀ d, stopped.succeeded.count d ≤ stopped.names.count d := by
    intro d
    rw [count_names]
    omega
  have hnodupStopped : stopped.succeeded.Nodup := by
    refine List.nodup_iff_count_le_one.2 fun d => (hle d).trans ?_
    rw [hcountStopped]
    split <;> omega
  have hcountStarted := fun d => (hstart.count d).trans (count_filter_kept hnodupStopped _ d)
  have hsum := count_restartReport out stopped started
  have hkept : ∀ d, KeptAll .restart haDbNames (log ++ log') d ↔
      Kept .stop haDbNames log d ∧ (d ∈ stopped.succeeded → Kept .start haDbNames log' d) := by
    intro d
    rw [KeptAll, hstopKept, hstopAccepted, hstartKept]
  refine ⟨fun d hd hk => ?_, fun d hd => ?_, fun d hd => ?_, ?_, ?_⟩
  · obtain ⟨hk, hk'⟩ := (hkept d).1 hk
    have hone := hcountStopped d
    have htwo := hcountStarted d
    have hsumd := hsum d
    rw [if_pos ⟨hd, hk⟩] at hone
    by_cases hmem : d ∈ stopped.succeeded
    · rw [if_pos ⟨hmem, hk' hmem⟩] at htwo
      have hcount := List.count_eq_one_of_mem hnodupStopped hmem
      omega
    · rw [if_neg fun h => hmem h.1] at htwo
      have hcount := List.count_eq_zero_of_not_mem hmem
      omega
  · have hone := hcountStopped d
    have htwo := hcountStarted d
    have hsumd := hsum d
    have hled := hle d
    rw [hkept] at hd
    by_cases hk : d ∈ targets ∧ Kept .stop haDbNames log d
    · rw [if_pos hk] at hone
      have hmem : d ∈ stopped.succeeded := by
        by_contra hmem
        exact hd ⟨hk.1, hk.2, fun h => absurd h hmem⟩
      rw [if_neg fun h => hd ⟨hk.1, hk.2, fun _ => h.2⟩] at htwo
      have hcount := List.count_eq_one_of_mem hnodupStopped hmem
      omega
    · rw [if_neg hk] at hone
      have hmem : d ∉ stopped.succeeded := fun hmem => by
        have hcount := List.count_eq_one_of_mem hnodupStopped hmem
        omega
      rw [if_neg fun h => hmem h.1] at htwo
      omega
  · refine (List.mem_append.1 hd).imp id fun hmem => ⟨?_, (hstartAccepted d).2 hmem⟩
    have hcount : 0 < started.names.count d := by
      rw [count_names]
      have hpos := List.count_pos_iff.2 hmem
      omega
    rw [hcountStarted] at hcount
    split at hcount
    · rename_i h
      exact (hstopAccepted d).2 h.1
    · omega
  · rw [selectedInfos_append, selectedInfos_of_phase hstop.events, selectedInfos_of_phase hstart.events,
      List.append_nil]
  · rw [haLists_append, haLists_of_phase hstop.events, haLists_of_phase hstart.events, List.append_nil]

theorem runs_unlocked {action : SelectedDatabasesAction} {targets : List DbName} (hnodup : targets.Nodup)
    {out res : BulkDatabaseActionResult} {log : List Event}
    (h : Runs (runSelectedDatabasesActionUnlocked action targets out).run log (.ok res)) :
    ∃ haDbNames l, log = ⟨.haDbNames, .ok haDbNames⟩ :: l ∧ Added action haDbNames targets l out res := by
  obtain ⟨l, haDbNames, l', rfl, hread, hrest⟩ := runs_run_bind h
  obtain rfl : l = [⟨.haDbNames, .ok haDbNames⟩] := runs_query.1 hread
  refine ⟨haDbNames, l', rfl, ?_⟩
  cases action with
  | start =>
    obtain ⟨l₁, result, l₂, rfl, hphase, hret⟩ := runs_run_bind hrest
    obtain ⟨rfl, rfl⟩ := runs_run_pure hret
    rw [List.append_nil]
    exact added_of_phase hnodup (runs_runPhase hnodup hphase) (fun _ => Iff.rfl) fun _ => Iff.rfl
  | stop =>
    obtain ⟨l₁, result, l₂, rfl, hphase, hret⟩ := runs_run_bind hrest
    obtain ⟨rfl, rfl⟩ := runs_run_pure hret
    rw [List.append_nil]
    exact added_of_phase hnodup (runs_runPhase hnodup hphase) (fun _ => Iff.rfl) fun _ => Iff.rfl
  | restart =>
    obtain ⟨l₁, stopped, l₂, rfl, hstop, hrest⟩ := runs_run_bind hrest
    obtain ⟨l₃, started, l₄, rfl, hstart, hret⟩ := runs_run_bind hrest
    obtain ⟨rfl, rfl⟩ := runs_run_pure hret
    rw [List.append_nil]
    have hstopped := runs_runPhase hnodup hstop
    have hnodupStopped : stopped.succeeded.Nodup := by
      refine List.nodup_iff_count_le_one.2 fun d => ?_
      have hcount := (hstopped.count d).trans (count_filter_kept hnodup _ d)
      have hle : stopped.succeeded.count d ≤ stopped.names.count d := by
        rw [count_names]
        omega
      split at hcount <;> omega
    exact added_of_phases hnodup hstopped (runs_runPhase hnodupStopped hstart)

/-! ### The hold -/

/-- Nothing of the report is decided by these events. -/
def Silent (log : List Event) : Prop :=
  callAnswers log = [] ∧ (∀ phase, bulkReads log phase = []) ∧ selectedInfos log = [] ∧ haLists log = []

/-- What the job check and the hold leave in the log. -/
def IsHoldEvent (e : Event) : Prop :=
  e.1 = .activeJob ∨ e.1 = .findHost ∨ (∃ hostKey dbnames action, e.1 = .acquire hostKey dbnames action) ∨
    ∃ hostKey dbnames, e.1 = .release hostKey dbnames

theorem filterMap_of_hold {α : Type} {view : Event → Option α} (hview : ∀ e, IsHoldEvent e → view e = none)
    {log : List Event} (h : ∀ e ∈ log, IsHoldEvent e) : log.filterMap view = [] :=
  List.filterMap_eq_nil_iff.2 fun e he => hview e (h e he)

theorem silent_of_hold {log : List Event} (h : ∀ e ∈ log, IsHoldEvent e) : Silent log := by
  refine ⟨filterMap_of_hold ?_ h, fun phase => filterMap_of_hold ?_ h, filterMap_of_hold ?_ h,
    filterMap_of_hold ?_ h⟩ <;>
  · rintro ⟨q, a⟩ (hq | hq | ⟨hostKey, dbnames, action, hq⟩ | ⟨hostKey, dbnames, hq⟩) <;>
      obtain rfl : q = _ := hq <;> rfl

theorem runs_holdingDatabases {α : Type} {dbnames : List DbName} {action : String} {fn : Async α} {log : List Event}
    {a : α} (h : Runs (holdingDatabases dbnames action fn).run log (.ok a)) :
    ∃ before inner after, log = before ++ (inner ++ after) ∧ (∀ e ∈ before, IsHoldEvent e) ∧
      (∀ e ∈ after, IsHoldEvent e) ∧ Runs fn.run inner (.ok a) := by
  obtain ⟨l, hostKey, l', rfl, hfind, hheld⟩ := runs_run_bind h
  obtain rfl : l = [⟨.findHost, .ok hostKey⟩] := runs_query.1 hfind
  obtain ⟨l₁, busy, l₂, rfl, hacquire, hbody⟩ := runs_run_bind hheld
  obtain rfl : l₁ = [⟨.acquire hostKey dbnames action, busy⟩] := runs_query.1 (runs_run_lift hacquire)
  cases busy with
  | some busy => exact absurd hbody not_runs_throw
  | none =>
    obtain ⟨inner, result, l₃, rfl, hinner, hend⟩ := runs_run_bind hbody
    obtain ⟨l₄, u, l₅, rfl, hrelease, hresult⟩ := runs_run_bind hend
    obtain rfl : l₄ = [⟨.release hostKey dbnames, u⟩] := runs_query.1 (runs_run_lift hrelease)
    cases result with
    | error e => exact absurd hresult not_runs_throw
    | ok r =>
      obtain ⟨rfl, rfl⟩ := runs_run_pure hresult
      refine ⟨[⟨.findHost, .ok hostKey⟩, ⟨.acquire hostKey dbnames action, none⟩], inner,
        [⟨.release hostKey dbnames, u⟩], rfl, fun e he => ?_, fun e he => ?_, runs_run_attempt hinner⟩
      · simp only [List.mem_cons, List.not_mem_nil, or_false] at he
        rcases he with rfl | rfl
        · exact .inr (.inl rfl)
        · exact .inr (.inr (.inl ⟨hostKey, dbnames, action, rfl⟩))
      · rw [List.mem_singleton.1 he]
        exact .inr (.inr (.inr ⟨hostKey, dbnames, rfl⟩))

theorem runs_assertNoActiveJob {log : List Event} {u : Unit} (h : Runs assertNoActiveJob.run log (.ok u)) :
    ∀ e ∈ log, IsHoldEvent e := by
  obtain ⟨l, active, l', rfl, hask, hrest⟩ := runs_run_bind h
  obtain rfl : l = [⟨.activeJob, .ok active⟩] := runs_query.1 hask
  cases active with
  | some active => exact absurd hrest not_runs_throw
  | none =>
    obtain ⟨rfl, -⟩ := runs_run_pure hrest
    intro e he
    rw [List.append_nil, List.mem_singleton] at he
    exact .inl (congrArg Sigma.fst he)

/-! ### The report -/

/-- The report before anything is sent. -/
def skippedReport (action : SelectedDatabasesAction) (requested known running : List DbName) :
    BulkDatabaseActionResult where
  skipped := requested.filterMap fun dbname => (selectedSkip action known running dbname).map (⟨dbname, ·⟩)

theorem count_skippedReport (action : SelectedDatabasesAction) {requested : List DbName} (hnodup : requested.Nodup)
    (known running : List DbName) (d : DbName) :
    (skippedReport action requested known running).names.count d =
      if d ∈ requested ∧ selectedSkip action known running d ≠ none then 1 else 0 := by
  have hnames : (skippedReport action requested known running).names =
      requested.filter fun d => decide (selectedSkip action known running d ≠ none) := by
    show [] ++ ([] ++ List.map SkippedDatabase.dbname (List.filterMap _ requested)) = _
    rw [List.nil_append, List.nil_append, List.map_filterMap, ← List.filterMap_eq_filter]
    refine List.filterMap_congr fun d _ => ?_
    cases h : selectedSkip action known running d <;> simp [h, Option.guard]
  rw [hnames]
  exact count_filter_kept hnodup _ d

/-- The databases that something is sent for. -/
def selectedTargets (action : SelectedDatabasesAction) (requested known running : List DbName) : List DbName :=
  requested.filter fun dbname => selectedSkip action known running dbname = none

theorem mem_selectedTargets {action : SelectedDatabasesAction} {requested known running : List DbName} {d : DbName} :
    d ∈ selectedTargets action requested known running ↔
      d ∈ requested ∧ selectedSkip action known running d = none := by
  rw [selectedTargets, List.mem_filter, decide_eq_true_iff]

section views

variable {before inner after : List Event} (hbefore : Silent before) (hafter : Silent after)
include hbefore hafter

theorem callAnswers_silent : callAnswers (before ++ (inner ++ after)) = callAnswers inner := by
  rw [callAnswers_append, callAnswers_append, hbefore.1, hafter.1, List.nil_append, List.append_nil]

theorem bulkReads_silent (phase : StartStop) :
    bulkReads (before ++ (inner ++ after)) phase = bulkReads inner phase := by
  rw [bulkReads_append, bulkReads_append, hbefore.2.1, hafter.2.1, List.nil_append, List.append_nil]

theorem selectedInfos_silent : selectedInfos (before ++ (inner ++ after)) = selectedInfos inner := by
  rw [selectedInfos_append, selectedInfos_append, hbefore.2.2.1, hafter.2.2.1, List.nil_append, List.append_nil]

theorem haLists_silent : haLists (before ++ (inner ++ after)) = haLists inner := by
  rw [haLists_append, haLists_append, hbefore.2.2.2, hafter.2.2.2, List.nil_append, List.append_nil]

end views

/-- What the action has read at first, and what its phases have added to the report. -/
structure Reported (action : SelectedDatabasesAction) (requested : List DbName) (info : StartInfo)
    (running : List DbName) (log : List Event) (out : BulkDatabaseActionResult) : Prop where
  active : info.active = some running
  selectedInfos : selectedInfos log = [info]
  phases : let known := info.dblist ++ running
    let targets := selectedTargets action requested known running
    (targets = [] ∧ out = skippedReport action requested known running) ∨
      ∃ haDbNames, haLists log = [haDbNames] ∧ ∃ l, callAnswers log = callAnswers l ∧
        (∀ phase, bulkReads log phase = bulkReads l phase) ∧
        Added action haDbNames targets l (skippedReport action requested known running) out

/-- What is read and sent is not hidden behind events that decide nothing. -/
theorem Reported.silent {action : SelectedDatabasesAction} {requested : List DbName} {info : StartInfo}
    {running : List DbName} {before inner after : List Event} {out : BulkDatabaseActionResult} (hbefore : Silent before)
    (hafter : Silent after) (h : Reported action requested info running inner out) :
    Reported action requested info running (before ++ (inner ++ after)) out := by
  obtain ⟨hactive, hinfos, hphases⟩ := h
  refine ⟨hactive, ?_, ?_⟩
  · rw [selectedInfos_silent hbefore hafter, hinfos]
  · refine hphases.imp id ?_
    rintro ⟨haDbNames, hlists, l, hcalls, hreads, hadded⟩
    refine ⟨haDbNames, ?_, l, ?_, fun phase => ?_, hadded⟩
    · rw [haLists_silent hbefore hafter, hlists]
    · rw [callAnswers_silent hbefore hafter, hcalls]
    · rw [bulkReads_silent hbefore hafter, hreads]

theorem runs_runSelectedDatabasesAction {action : SelectedDatabasesAction} {dbnames : List DbName} {log : List Event}
    {out : BulkDatabaseActionResult} (h : Runs (runSelectedDatabasesAction action dbnames).run log (.ok out)) :
    ∃ info running, Reported action dbnames.eraseDups info running log out := by
  obtain ⟨l, u, l', rfl, hjob, hheld⟩ := runs_run_bind h
  have hquiet := silent_of_hold (runs_assertNoActiveJob hjob)
  obtain ⟨before, inner, after, rfl, hbefore, hafter, hinner⟩ := runs_holdingDatabases hheld
  obtain ⟨l₁, info, l₂, rfl, hinfo, hread⟩ := runs_run_bind hinner
  obtain rfl : l₁ = [⟨.startInfo .selected, .ok info⟩] := runs_query.1 hinfo
  obtain ⟨l₃, running, l₄, rfl, hrunning, hbody⟩ := runs_run_bind hread
  have hactive : info.active = some running ∧ l₃ = [] := by
    unfold activeDbnamesOf at hrunning
    split at hrunning
    · obtain ⟨rfl, rfl⟩ := runs_run_pure hrunning
      exact ⟨‹_›, rfl⟩
    · exact absurd hrunning not_runs_throw
  obtain ⟨hactive, rfl⟩ := hactive
  refine ⟨info, running, ?_⟩
  have hreported : Reported action dbnames.eraseDups info running (⟨.startInfo .selected, .ok info⟩ :: l₄) out := by
    have hrun : Runs (if selectedTargets action dbnames.eraseDups (info.dblist ++ running) running = [] then
        pure (skippedReport action dbnames.eraseDups (info.dblist ++ running) running)
      else
        runSelectedDatabasesActionUnlocked action
          (selectedTargets action dbnames.eraseDups (info.dblist ++ running) running)
          (skippedReport action dbnames.eraseDups (info.dblist ++ running) running)).run l₄ (.ok out) := hbody
    split at hrun
    · rename_i hnone
      obtain ⟨rfl, rfl⟩ := runs_run_pure hrun
      exact ⟨hactive, rfl, .inl ⟨hnone, rfl⟩⟩
    · have hnodup := (FirstOccurrences.nodup_eraseDups dbnames).filter
        fun d => decide (selectedSkip action (info.dblist ++ running) running d = none)
      obtain ⟨haDbNames, l, rfl, hadded⟩ := runs_unlocked hnodup hrun
      have hinfos : selectedInfos (⟨.startInfo .selected, .ok info⟩ :: ⟨.haDbNames, .ok haDbNames⟩ :: l) =
          info :: selectedInfos l := rfl
      have hlists : haLists (⟨.startInfo .selected, .ok info⟩ :: ⟨.haDbNames, .ok haDbNames⟩ :: l) =
          haDbNames :: haLists l := rfl
      refine ⟨hactive, ?_, .inr ⟨haDbNames, ?_, l, rfl, fun _ => rfl, hadded⟩⟩
      · rw [hinfos, hadded.selectedInfos]
      · rw [hlists, hadded.haLists]
  have hheld := hreported.silent (silent_of_hold hbefore) (silent_of_hold hafter)
  have hwhole := hheld.silent hquiet (⟨rfl, fun _ => rfl, rfl, rfl⟩ : Silent [])
  rw [List.append_nil] at hwhole
  exact hwhole

/-! ### The report is a partition -/

theorem keptAll_congr {action : SelectedDatabasesAction} {haDbNames : List DbName} {log log' : List Event}
    (hcalls : callAnswers log = callAnswers log') (hreads : ∀ phase, bulkReads log phase = bulkReads log' phase)
    (d : DbName) : KeptAll action haDbNames log d ↔ KeptAll action haDbNames log' d := by
  cases action <;> simp only [KeptAll, Kept, Accepted, hcalls, hreads]

theorem actionAccepted_congr {action : SelectedDatabasesAction} {log log' : List Event}
    (hcalls : callAnswers log = callAnswers log') (d : DbName) :
    ActionAccepted action d log ↔ ActionAccepted action d log' := by
  cases action <;> simp only [ActionAccepted, Accepted, hcalls]

/-- Every requested database is reported once, no other one is, and what is reported as done was accepted. -/
structure Partition (action : SelectedDatabasesAction) (dbnames : List DbName) (log : List Event)
    (out : BulkDatabaseActionResult) : Prop where
  once : ∀ d ∈ dbnames, out.names.count d = 1
  requested : ∀ d ∈ out.names, d ∈ dbnames
  accepted : ∀ d ∈ out.succeeded, ActionAccepted action d log

theorem Reported.target_iff {action : SelectedDatabasesAction} {dbnames : List DbName} {info : StartInfo}
    {running : List DbName} {log : List Event} {out : BulkDatabaseActionResult}
    (h : Reported action dbnames.eraseDups info running log out) (d : DbName) :
    Target action dbnames log d ↔ d ∈ selectedTargets action dbnames.eraseDups (info.dblist ++ running) running := by
  rw [mem_selectedTargets, List.mem_eraseDups, Target, h.selectedInfos]
  simp [h.active]

/-- A database is reported once if it is requested and, as a target, no phase has dropped it. -/
theorem Reported.count_eq_one {action : SelectedDatabasesAction} {dbnames : List DbName} {info : StartInfo}
    {running : List DbName} {log : List Event} {out : BulkDatabaseActionResult}
    (h : Reported action dbnames.eraseDups info running log out) {d : DbName} (hd : d ∈ dbnames)
    (hkept : Target action dbnames log d → ∀ haDbNames ∈ haLists log, KeptAll action haDbNames log d) :
    out.names.count d = 1 := by
  have hmem : d ∈ dbnames.eraseDups := List.mem_eraseDups.2 hd
  have hskipped := count_skippedReport action (FirstOccurrences.nodup_eraseDups dbnames) (info.dblist ++ running)
    running d
  rw [h.target_iff] at hkept
  rcases h.phases with ⟨hnone, rfl⟩ | ⟨haDbNames, hlists, l, hcalls, hreads, hadded⟩
  · have hnot : d ∉ selectedTargets action dbnames.eraseDups (info.dblist ++ running) running := by
      rw [hnone]
      exact List.not_mem_nil
    rw [hskipped, if_pos ⟨hmem, fun hskip => hnot (mem_selectedTargets.2 ⟨hmem, hskip⟩)⟩]
  · by_cases hskip : selectedSkip action (info.dblist ++ running) running d = none
    · have htarget := mem_selectedTargets.2 ⟨hmem, hskip⟩
      have hlist : haDbNames ∈ haLists log := by
        rw [hlists]
        exact List.mem_singleton_self _
      have hk := (keptAll_congr hcalls hreads d).1 (hkept htarget haDbNames hlist)
      rw [hadded.kept d htarget hk, hskipped, if_neg fun hne => hne.2 hskip]
    · have hnot : d ∉ selectedTargets action dbnames.eraseDups (info.dblist ++ running) running :=
        fun htarget => hskip (mem_selectedTargets.1 htarget).2
      rw [hadded.dropped d fun hk => hnot hk.1, hskipped, if_pos ⟨hmem, hskip⟩]

/-- A target that a phase has dropped is not reported. -/
theorem Reported.count_eq_zero {action : SelectedDatabasesAction} {dbnames : List DbName} {info : StartInfo}
    {running : List DbName} {log : List Event} {out : BulkDatabaseActionResult}
    (h : Reported action dbnames.eraseDups info running log out) {d : DbName} (htarget : Target action dbnames log d)
    {haDbNames : List DbName} (hlist : haDbNames ∈ haLists log) (hdropped : ¬KeptAll action haDbNames log d) :
    out.names.count d = 0 := by
  rw [h.target_iff] at htarget
  have hskip := (mem_selectedTargets.1 htarget).2
  rcases h.phases with ⟨hnone, rfl⟩ | ⟨haDbNames', hlists, l, hcalls, hreads, hadded⟩
  · rw [hnone] at htarget
    exact absurd htarget List.not_mem_nil
  · rw [hlists] at hlist
    obtain rfl := List.mem_singleton.1 hlist
    rw [hadded.dropped d fun hk => hdropped ((keptAll_congr hcalls hreads d).2 hk.2),
      count_skippedReport action (FirstOccurrences.nodup_eraseDups dbnames), if_neg fun hne => hne.2 hskip]

/-- Nothing else is reported. -/
theorem Reported.mem_of_mem_names {action : SelectedDatabasesAction} {dbnames : List DbName} {info : StartInfo}
    {running : List DbName} {log : List Event} {out : BulkDatabaseActionResult}
    (h : Reported action dbnames.eraseDups info running log out) {d : DbName} (hd : d ∈ out.names) : d ∈ dbnames := by
  by_contra hnot
  have hmem : d ∉ dbnames.eraseDups := fun hmem => hnot (List.mem_eraseDups.1 hmem)
  have hskipped := count_skippedReport action (FirstOccurrences.nodup_eraseDups dbnames) (info.dblist ++ running)
    running d
  rw [if_neg fun hne => hmem hne.1] at hskipped
  have hzero : out.names.count d = 0 := by
    rcases h.phases with ⟨-, rfl⟩ | ⟨haDbNames, -, l, -, -, hadded⟩
    · exact hskipped
    · rw [hadded.dropped d fun hk => hmem (mem_selectedTargets.1 hk.1).1, hskipped]
  exact List.count_eq_zero.1 hzero hd

/-- What is reported as succeeded was accepted. -/
theorem Reported.accepted {action : SelectedDatabasesAction} {dbnames : List DbName} {info : StartInfo}
    {running : List DbName} {log : List Event} {out : BulkDatabaseActionResult}
    (h : Reported action dbnames.eraseDups info running log out) {d : DbName} (hd : d ∈ out.succeeded) :
    ActionAccepted action d log := by
  rcases h.phases with ⟨-, rfl⟩ | ⟨haDbNames, -, l, hcalls, -, hadded⟩
  · exact absurd hd List.not_mem_nil
  · refine (actionAccepted_congr hcalls d).2 ((hadded.accepted d hd).resolve_left ?_)
    exact List.not_mem_nil

variable (action : SelectedDatabasesAction) (dbnames : List DbName) (log : List Event) (out : BulkDatabaseActionResult)

theorem selected_report_iff (h : Runs (runSelectedDatabasesAction action dbnames).run log (.ok out)) :
    Partition action dbnames log out ↔ Steady action dbnames log := by
  obtain ⟨info, running, hreported⟩ := runs_runSelectedDatabasesAction h
  constructor
  · intro hpartition d htarget haDbNames hlist
    by_contra hdropped
    have hzero := hreported.count_eq_zero htarget hlist hdropped
    obtain ⟨-, -, -, -, hd, -⟩ := htarget
    have hone := hpartition.once d hd
    omega
  · intro hsteady
    exact ⟨fun d hd => hreported.count_eq_one hd (hsteady d), fun d hd => hreported.mem_of_mem_names hd,
      fun d hd => hreported.accepted hd⟩

/-- A run that stops one database. -/
def stopLog : List Event :=
  [⟨.activeJob, .ok none⟩, ⟨.findHost, .ok "host"⟩, ⟨.acquire "host" [['d', 'b']] "stopSelectedDatabases", none⟩,
    ⟨.startInfo .selected, .ok ⟨[['d', 'b']], some [['d', 'b']]⟩⟩, ⟨.haDbNames, .ok []⟩,
    ⟨.calls [.ensureDbLogin ['d', 'b']], (0, .ok ())⟩, ⟨.calls [.stopdb ['d', 'b']], (0, .ok ())⟩,
    ⟨.release "host" [['d', 'b']], ()⟩]

theorem selected_report_stop : Partition .stop [['d', 'b']] stopLog { succeeded := [['d', 'b']] } := by
  have hrun : Runs (runSelectedDatabasesAction .stop [['d', 'b']]).run stopLog (.ok { succeeded := [['d', 'b']] }) :=
    .ask (.ask (.ask (.ask (.ask (.ask (.ask (.ask (.ret _))))))))
  refine (selected_report_iff .stop _ _ _ hrun).2 fun d _ haDbNames hlist hha => ?_
  obtain rfl : haDbNames = [] := List.mem_singleton.1 hlist
  cases hha

/-- A start of a database that the HA node has started itself by the second reading: it is in none of the lists. -/
theorem selected_report_fails :
    ¬∀ (action : SelectedDatabasesAction) (dbnames : List DbName) (log : List Event) (out : BulkDatabaseActionResult),
      Runs (runSelectedDatabasesAction action dbnames).run log (.ok out) → Partition action dbnames log out := by
  intro hall
  have hpartition := hall .start [['d', 'b']]
    [⟨.activeJob, .ok none⟩, ⟨.findHost, .ok "host"⟩, ⟨.acquire "host" [['d', 'b']] "startSelectedDatabases", none⟩,
      ⟨.startInfo .selected, .ok ⟨[['d', 'b']], some []⟩⟩, ⟨.haDbNames, .ok [['d', 'b']]⟩,
      ⟨.startInfo (.haBulk .start), .ok ⟨[['d', 'b']], some [['d', 'b']]⟩⟩, ⟨.release "host" [['d', 'b']], ()⟩]
    {} (.ask (.ask (.ask (.ask (.ask (.ask (.ask (.ret _))))))))
  exact absurd (hpartition.once ['d', 'b'] (List.mem_singleton_self _)) (by decide)

end CubridWebManager.Lifecycle
