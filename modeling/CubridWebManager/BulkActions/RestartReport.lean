import CubridWebManager.BulkActions.RestartAll

/-!
# What Restart All reports

A restart is to start again every database that its stop request has stopped, or to report it.  It does so just when the
start request, if one is sent, is answered, and every database that stays down is in the report of the stop or within the
reach of the start request (`restart_reports_iff`).  An HA database that is not in the list can be stopped and be neither:
without a database of the list to start, no start request is sent.
-/

namespace CubridWebManager.BulkActions

open Interaction Lifecycle

variable {lower : Text → Text}

/-! ### What a log says -/

abbrev Event (lower : Text → Text) := Σ q : Request, Answer lower q

def Event.bulkAnswer (action : StartStop) : Event lower → Option (Except Text BulkDatabaseActionResult)
  | ⟨.bulk action' _, served⟩ => if action' = action then some (Served.answer served) else none
  | ⟨.startInfo, _⟩ => none

/-- What the server has done of the request. -/
def Event.serverLog (action : StartStop) : Event lower → Option (List Lifecycle.Event)
  | ⟨.bulk action' _, served⟩ => if action' = action then some (Served.log served) else none
  | ⟨.startInfo, _⟩ => none

def Event.changed (action : StartStop) : Event lower → List DbName
  | ⟨.bulk action' _, served⟩ => if action' = action then Served.changed served else []
  | ⟨.startInfo, _⟩ => []

def Event.read : Event lower → Option (Option (List DbName))
  | ⟨.startInfo, info⟩ => some (activeDbnames info)
  | ⟨.bulk .., _⟩ => none

section

variable (log : List (Event lower))

def bulkAnswers (action : StartStop) : List (Except Text BulkDatabaseActionResult) :=
  log.filterMap (Event.bulkAnswer action)

def serverLogs (action : StartStop) : List (List Lifecycle.Event) := log.filterMap (Event.serverLog action)

/-- The databases that a request has started or stopped. -/
def changed (action : StartStop) : List DbName := log.flatMap (Event.changed action)

/-- What the client has read of the running databases, one reading after the other. -/
def reads : List (Option (List DbName)) := log.filterMap Event.read

end

/-- The databases that are failed or skipped. -/
def problems (res : BulkDatabaseActionResult) : List DbName :=
  res.failed.map FailedDatabase.dbname ++ res.skipped.map SkippedDatabase.dbname

def Report.names (r : Report) : List DbName :=
  r.failed.map FailedDatabase.dbname ++ r.skipped.map SkippedDatabase.dbname

/-! ### The claim -/

/-- What a restart of the databases promises. -/
structure LeavesNothingDown (elsewhere : List DbName) (log : List (Event lower)) (outcome : Except Text Report) :
    Prop where
  /-- A database that is stopped is started again, here or `elsewhere`, or it is reported. -/
  reported : ∀ d ∈ changed log .stop, d ∈ changed log .start ∨ d ∈ elsewhere ∨
    ∃ r, outcome = .ok r ∧ d ∈ r.names
  /-- No database is to be started that the reading just before shows running. -/
  stopped : ∀ before dbnames served after, log = before ++ ⟨.bulk .start dbnames, served⟩ :: after →
    ∃ read, (reads before).getLast? = some read ∧ ∀ active ∈ read, ∀ d ∈ dbnames, d ∉ active
  once : ∀ r, outcome = .ok r → r.names.Nodup

/-! ### When it keeps its promise -/

/-- The report of the stop has the database: as a problem or, without an answer, as one of the list that the next reading
does not show stopped. -/
def StopReports (dbnames : List DbName) (log : List (Event lower)) (d : DbName) : Prop :=
  ∃ answer ∈ bulkAnswers log .stop, match answer with
    | .ok res => d ∈ problems res
    | .error _ => d ∈ dbnames ∧ ∀ read ∈ (reads log).head?, ∀ active ∈ read, d ∈ active

/-- A start request is sent that goes for the database: one of the list that the last reading does not show running, or
an HA database of the server, which does not read it as running either. -/
def StartReaches (dbnames : List DbName) (log : List (Event lower)) (d : DbName) : Prop :=
  ∃ l ∈ serverLogs log .start,
    ((d ∈ dbnames ∧ ∀ read ∈ (reads log).getLast?, ∀ active ∈ read, d ∉ active) ∨
      ∃ haDbNames ∈ haLists l, d ∈ haDbNames) ∧ Applies .start l d

def StartAnswered (log : List (Event lower)) : Prop := ∀ answer ∈ bulkAnswers log .start, ∃ res, answer = .ok res

/-- The databases that fail to stop: those of the answer or, without one, those of the list that the next reading does
not show stopped. -/
def stopFailures (dbnames : List DbName) (log : List (Event lower)) : List DbName :=
  (bulkAnswers log .stop).flatMap fun
    | .ok res => res.failed.map FailedDatabase.dbname
    | .error _ => dbnames.filter fun d => (reads log).head?.all fun read => read.all fun active => d ∈ active

def startFailures (log : List (Event lower)) : List DbName :=
  (bulkAnswers log .start).flatMap fun
    | .ok res => res.failed.map FailedDatabase.dbname
    | .error _ => []

/-- The databases that an answer to the request has as skipped. -/
def skips (log : List (Event lower)) (action : StartStop) : List DbName :=
  (bulkAnswers log action).flatMap fun
    | .ok res => res.skipped.map SkippedDatabase.dbname
    | .error _ => []

structure Covers (elsewhere dbnames : List DbName) (log : List (Event lower)) : Prop where
  reached : ∀ d ∈ changed log .stop, d ∉ changed log .start → d ∉ elsewhere →
    StartAnswered log ∧ (StopReports dbnames log d ∨ StartReaches dbnames log d)
  failures : StartAnswered log → (stopFailures dbnames log ++ startFailures log).Nodup ∧
    ∀ d ∈ stopFailures dbnames log ++ startFailures log, d ∉ skips log .stop ++ skips log .start

/-! ### The runs -/

/-- The stop request, and what is read when it is lost. -/
inductive StopPart {dbnames : List DbName} (stop : Served lower .stop dbnames) :
    List (Event lower) → BulkDatabaseActionResult → Prop
  | answered {res : BulkDatabaseActionResult} (h : stop.answer = .ok res) : StopPart stop [] res
  | lost {error : Text} {info : ActiveList} (h : stop.answer = .error error) :
      StopPart stop [⟨.startInfo, info⟩] (lostStop dbnames (activeDbnames info) error)

/-- The start request, if there is something to start. -/
inductive StartPart (dbnames : List DbName) (stopResult : BulkDatabaseActionResult) :
    List (Event lower) → Except Text Report → Prop
  | unsent (h : dbnames = []) : StartPart dbnames stopResult [] (.ok (report stopResult {}))
  | answered {start : Served lower .start dbnames} {res : BulkDatabaseActionResult} (h : start.answer = .ok res) :
      StartPart dbnames stopResult [⟨.bulk .start dbnames, start⟩] (.ok (report stopResult res))
  | lost {start : Served lower .start dbnames} {error : Text} (h : start.answer = .error error) :
      StartPart dbnames stopResult [⟨.bulk .start dbnames, start⟩] (.error error)

theorem runs_dispatchBulk {action : StartStop} {dbnames : List DbName} {log : List (Event lower)}
    {result : Except Text BulkDatabaseActionResult} (h : Runs (dispatchBulk action dbnames).run log result) :
    ∃ served : Served lower action dbnames, log = [⟨.bulk action dbnames, served⟩] ∧ result = served.answer := by
  obtain ⟨l, served, l', rfl, hask, hret⟩ := runs_bind.1 h
  obtain rfl : l = [⟨.bulk action dbnames, served⟩] := runs_query.1 hask
  obtain ⟨rfl, rfl⟩ := runs_pure.1 hret
  exact ⟨served, rfl, rfl⟩

theorem runs_readActiveDbnames {log : List (Event lower)} {result : Except Text (Option (List DbName))}
    (h : Runs readActiveDbnames.run log result) :
    ∃ info : ActiveList, log = [⟨.startInfo, info⟩] ∧ result = .ok (activeDbnames info) := by
  obtain ⟨l, read, l', rfl, hread, hret⟩ := runs_bind.1 h
  obtain ⟨l₁, info, l₂, rfl, hask, hshown⟩ := runs_bind.1 hread
  obtain rfl : l₁ = [⟨.startInfo, info⟩] := runs_query.1 hask
  obtain ⟨rfl, rfl⟩ := runs_pure.1 hshown
  obtain ⟨rfl, rfl⟩ := runs_pure.1 hret
  exact ⟨info, rfl, rfl⟩

/-- The request that is tried does not end the program. -/
theorem runs_attempt_dispatchBulk {action : StartStop} {dbnames : List DbName} {log : List (Event lower)}
    {result : Except Text (Except Text BulkDatabaseActionResult)}
    (h : Runs (attempt (dispatchBulk action dbnames)).run log result) :
    ∃ served : Served lower action dbnames, log = [⟨.bulk action dbnames, served⟩] ∧ result = .ok served.answer := by
  obtain ⟨l, answer, l', rfl, hsend, hret⟩ := runs_bind.1 h
  obtain ⟨rfl, rfl⟩ := runs_pure.1 hret
  obtain ⟨served, rfl, rfl⟩ := runs_dispatchBulk hsend
  exact ⟨served, rfl, rfl⟩

theorem runs_startPhase (dbnames : List DbName) (stopResult : BulkDatabaseActionResult) {log : List (Event lower)}
    {outcome : Except Text Report}
    (h : Runs (do
      let activeAfterStop ← readActiveDbnames
      let startResult ← if toStart dbnames activeAfterStop = [] then pure {}
        else dispatchBulk .start (toStart dbnames activeAfterStop)
      pure (report stopResult startResult) : ExceptT Text (Interaction Request (Answer lower)) Report).run log outcome) :
    ∃ (info : ActiveList) (startLog : List (Event lower)), log = ⟨.startInfo, info⟩ :: startLog ∧
      StartPart (toStart dbnames (activeDbnames info)) stopResult startLog outcome := by
  rw [ExceptT.run_bind, runs_bind] at h
  obtain ⟨l, read, startLog, rfl, hread, hrest⟩ := h
  obtain ⟨info, rfl, rfl⟩ := runs_readActiveDbnames hread
  refine ⟨info, startLog, rfl, ?_⟩
  simp only at hrest
  split at hrest
  · rename_i hnone
    obtain ⟨rfl, rfl⟩ := runs_pure.1 hrest
    exact .unsent hnone
  · rw [ExceptT.run_bind, runs_bind] at hrest
    obtain ⟨l₁, answer, l₂, rfl, hstart, hret⟩ := hrest
    obtain ⟨start, rfl, rfl⟩ := runs_dispatchBulk hstart
    cases hanswer : start.answer with
    | ok startResult =>
      rw [hanswer] at hret
      obtain ⟨rfl, rfl⟩ := runs_pure.1 hret
      exact .answered hanswer
    | error error =>
      rw [hanswer] at hret
      obtain ⟨rfl, rfl⟩ := runs_pure.1 hret
      exact .lost hanswer

theorem runs_restartDatabasesInBulk {dbnames : List DbName} (hne : dbnames ≠ []) {log : List (Event lower)}
    {outcome : Except Text Report} (h : Runs (restartDatabasesInBulk dbnames).run log outcome) :
    ∃ (stop : Served lower .stop dbnames) (stopLog startLog : List (Event lower)) (info : ActiveList)
      (stopResult : BulkDatabaseActionResult),
      log = ⟨.bulk .stop dbnames, stop⟩ :: (stopLog ++ ⟨.startInfo, info⟩ :: startLog) ∧
        StopPart stop stopLog stopResult ∧
          StartPart (toStart dbnames (activeDbnames info)) stopResult startLog outcome := by
  rw [restartDatabasesInBulk, if_neg hne, ExceptT.run_bind, runs_bind] at h
  obtain ⟨l, stopped, l', rfl, hstop, hrest⟩ := h
  obtain ⟨stop, rfl, rfl⟩ := runs_attempt_dispatchBulk hstop
  cases hanswer : stop.answer with
  | ok res =>
    rw [hanswer] at hrest
    obtain ⟨info, startLog, rfl, hstart⟩ := runs_startPhase dbnames res hrest
    exact ⟨stop, [], startLog, info, res, rfl, .answered hanswer, hstart⟩
  | error error =>
    rw [hanswer] at hrest
    simp only at hrest
    rw [ExceptT.run_bind, runs_bind] at hrest
    obtain ⟨l₁, read, l₂, rfl, hread, hrest⟩ := hrest
    obtain ⟨info, rfl, rfl⟩ := runs_readActiveDbnames hread
    have hrest' := runs_startPhase dbnames (lostStop dbnames (activeDbnames info) error) hrest
    obtain ⟨info', startLog, rfl, hstart⟩ := hrest'
    exact ⟨stop, _, startLog, info', _, rfl, .lost hanswer, hstart⟩

/-! ### What a run says -/

/-- A log of the shape that a restart gives it. -/
structure Views {dbnames : List DbName} (stop : Served lower .stop dbnames) (stopLog startLog : List (Event lower))
    (info : ActiveList) (log : List (Event lower)) : Prop where
  stopAnswers : bulkAnswers log .stop = [stop.answer]
  startAnswers : bulkAnswers log .start = bulkAnswers startLog .start
  startLogs : serverLogs log .start = serverLogs startLog .start
  stopChanged : changed log .stop = stop.changed
  startChanged : changed log .start = changed startLog .start
  reads : reads log = reads stopLog ++ [activeDbnames info]

theorem views_of_parts {dbnames starts : List DbName} {stop : Served lower .stop dbnames}
    {stopLog startLog : List (Event lower)} {stopResult : BulkDatabaseActionResult} {outcome : Except Text Report}
    (hstop : StopPart stop stopLog stopResult) (info : ActiveList)
    (hstart : StartPart starts stopResult startLog outcome) :
    Views stop stopLog startLog info (⟨.bulk .stop dbnames, stop⟩ :: (stopLog ++ ⟨.startInfo, info⟩ :: startLog)) := by
  cases hstop <;> cases hstart <;> exact ⟨rfl, rfl, rfl, by simp [changed, Event.changed], rfl, rfl⟩

section parts

variable {dbnames : List DbName} {stop : Served lower .stop dbnames} {stopLog startLog : List (Event lower)}
  {info : ActiveList} {log : List (Event lower)} {stopResult : BulkDatabaseActionResult}

theorem head?_reads (hviews : Views stop stopLog startLog info log) {info' : ActiveList}
    (hlog : stopLog = [⟨.startInfo, info'⟩]) : (reads log).head? = some (activeDbnames info') := by
  rw [hviews.reads, hlog]
  rfl

theorem getLast?_reads (hviews : Views stop stopLog startLog info log) :
    (reads log).getLast? = some (activeDbnames info) := by
  rw [hviews.reads, List.getLast?_concat]

theorem stopReports_iff (hviews : Views stop stopLog startLog info log) (hstop : StopPart stop stopLog stopResult)
    (d : DbName) : StopReports dbnames log d ↔ d ∈ problems stopResult := by
  rw [StopReports, hviews.stopAnswers]
  cases hstop with
  | answered h => simp [h]
  | lost h =>
    have hread := head?_reads hviews rfl
    simp [h, hread, problems, lostStop, Option.all_eq_true]

theorem stopFailures_eq (hviews : Views stop stopLog startLog info log) (hstop : StopPart stop stopLog stopResult) :
    stopFailures dbnames log = stopResult.failed.map FailedDatabase.dbname := by
  rw [stopFailures, hviews.stopAnswers]
  cases hstop with
  | answered h => simp [h]
  | lost h =>
    have hread := head?_reads hviews rfl
    simp [h, hread, lostStop, Function.comp_def]

theorem skips_stop (hviews : Views stop stopLog startLog info log) (hstop : StopPart stop stopLog stopResult) :
    skips log .stop = stopResult.skipped.map SkippedDatabase.dbname := by
  rw [skips, hviews.stopAnswers]
  cases hstop with
  | answered h => simp [h]
  | lost h => simp [h, lostStop]

theorem mem_toStart (read : Option (List DbName)) (d : DbName) :
    d ∈ toStart dbnames read ↔ d ∈ dbnames ∧ ∀ active ∈ read, d ∉ active := by
  simp [toStart, Option.all_eq_true]

end parts

/-! ### The report -/

theorem map_tag (list : List FailedDatabase) (phase : StartStop) :
    (tag list phase).map FailedDatabase.dbname = list.map FailedDatabase.dbname := by
  rw [tag, List.map_map]
  rfl

theorem names_firstPerDatabase (list : List SkippedDatabase) :
    ((firstPerDatabase list).map SkippedDatabase.dbname).Nodup ∧
      ∀ d, d ∈ (firstPerDatabase list).map SkippedDatabase.dbname ↔ d ∈ list.map SkippedDatabase.dbname := by
  have hfold : ∀ (list kept : List SkippedDatabase), (kept.map SkippedDatabase.dbname).Nodup →
      ((list.foldl (fun skipped s => if s.dbname ∈ skipped.map SkippedDatabase.dbname then skipped else skipped ++ [s])
        kept).map SkippedDatabase.dbname).Nodup ∧
      ∀ d, d ∈ (list.foldl (fun skipped s => if s.dbname ∈ skipped.map SkippedDatabase.dbname then skipped
        else skipped ++ [s]) kept).map SkippedDatabase.dbname ↔
          d ∈ kept.map SkippedDatabase.dbname ∨ d ∈ list.map SkippedDatabase.dbname := by
    intro list
    induction list with
    | nil => exact fun kept hkept => ⟨hkept, fun d => by simp⟩
    | cons s list ih =>
      intro kept hkept
      rw [List.foldl_cons]
      split
      · rename_i hmem
        obtain ⟨hnodup, hiff⟩ := ih kept hkept
        refine ⟨hnodup, fun d => ?_⟩
        rw [hiff, List.map_cons, List.mem_cons]
        constructor
        · exact Or.imp id .inr
        · rintro (h | rfl | h)
          · exact .inl h
          · exact .inl hmem
          · exact .inr h
      · rename_i hmem
        have hnext : ((kept ++ [s]).map SkippedDatabase.dbname).Nodup := by
          rw [List.map_append, List.map_singleton]
          exact List.nodup_append_comm.1 (List.nodup_cons.2 ⟨hmem, hkept⟩)
        obtain ⟨hnodup, hiff⟩ := ih _ hnext
        refine ⟨hnodup, fun d => ?_⟩
        rw [hiff, List.map_append, List.map_singleton, List.mem_append, List.mem_singleton, List.map_cons, List.mem_cons,
          or_assoc]
  obtain ⟨hnodup, hiff⟩ := hfold list [] List.nodup_nil
  exact ⟨hnodup, fun d => (hiff d).trans (by simp)⟩

theorem mem_names_report (a b : BulkDatabaseActionResult) (d : DbName) :
    d ∈ (report a b).names ↔ d ∈ problems a ∨ d ∈ problems b := by
  rw [Report.names, List.mem_append, report, List.map_append, map_tag, map_tag, (names_firstPerDatabase _).2,
    List.map_append, problems, problems]
  simp only [List.mem_append]
  exact or_or_or_comm

theorem nodup_names_report (a b : BulkDatabaseActionResult) :
    (report a b).names.Nodup ↔
      (a.failed.map FailedDatabase.dbname ++ b.failed.map FailedDatabase.dbname).Nodup ∧
        ∀ d ∈ a.failed.map FailedDatabase.dbname ++ b.failed.map FailedDatabase.dbname,
          d ∉ a.skipped.map SkippedDatabase.dbname ++ b.skipped.map SkippedDatabase.dbname := by
  obtain ⟨hnodup, hiff⟩ := names_firstPerDatabase (a.skipped ++ b.skipped)
  rw [Report.names, report, List.nodup_append', List.map_append, map_tag, map_tag]
  refine and_congr_right fun _ => ?_
  rw [and_iff_right hnodup]
  refine forall₂_congr fun d _ => ?_
  rw [hiff, List.map_append]

/-- The list has one element with the property, at its end. -/
theorem eq_of_concat_eq {α : Type} {p : α → Prop} {l before after : List α} {x y : α} (hl : ∀ a ∈ l, ¬p a) (hy : p y)
    (h : l ++ [x] = before ++ y :: after) : before = l ∧ y = x := by
  induction l generalizing before with
  | nil =>
    cases before with
    | nil => exact ⟨rfl, (List.cons.inj h).1.symm⟩
    | cons b before => exact absurd (List.cons.inj h).2 (by simp)
  | cons a l ih =>
    cases before with
    | nil =>
      obtain rfl := (List.cons.inj h).1
      exact absurd hy (hl _ List.mem_cons_self)
    | cons b before =>
      obtain ⟨rfl, htail⟩ := List.cons.inj h
      obtain ⟨rfl, rfl⟩ := ih (fun a' ha => hl a' (List.mem_cons_of_mem _ ha)) htail
      exact ⟨rfl, rfl⟩

section

variable {dbnames : List DbName} {stop : Served lower .stop dbnames} {stopLog startLog log : List (Event lower)}
  {info : ActiveList} {stopResult : BulkDatabaseActionResult} {outcome : Except Text Report}

theorem reported_iff (hviews : Views stop stopLog startLog info log) (hstop : StopPart stop stopLog stopResult)
    (hstart : StartPart (toStart dbnames (activeDbnames info)) stopResult startLog outcome) {d : DbName}
    (hd : d ∉ changed log .start) :
    (∃ r, outcome = .ok r ∧ d ∈ r.names) ↔
      StartAnswered log ∧ (StopReports dbnames log d ∨ StartReaches dbnames log d) := by
  rw [stopReports_iff hviews hstop, StartAnswered, StartReaches, getLast?_reads hviews, hviews.startAnswers,
    hviews.startLogs]
  rw [hviews.startChanged] at hd
  have hto : d ∈ toStart dbnames (activeDbnames info) ↔ _ := mem_toStart _ d
  cases hstart with
  | unsent h =>
    simp [mem_names_report, problems, bulkAnswers, serverLogs]
  | @answered start res h =>
    have hreport := runs_allDatabases (start.arrives res h)
    have hnames := hreport.names d
    have hnot : d ∉ res.succeeded := by
      intro hmem
      refine hd ?_
      simpa [changed, Event.changed] using start.accepted d (hreport.succeeded d hmem)
    have hproblems : d ∈ problems res ↔ d ∈ res.names := by
      rw [BulkDatabaseActionResult.names, List.mem_append, or_iff_right hnot, problems]
    have hanswers : bulkAnswers [(⟨.bulk .start (toStart dbnames (activeDbnames info)), start⟩ : Event lower)] .start =
        [.ok res] := by simp [bulkAnswers, Event.bulkAnswer, h]
    have hlogs : serverLogs [(⟨.bulk .start (toStart dbnames (activeDbnames info)), start⟩ : Event lower)] .start =
        [start.log] := rfl
    rw [hanswers, hlogs]
    simp only [Except.ok.injEq, exists_eq_left', mem_names_report, hproblems, hnames, hto, List.mem_singleton,
      forall_eq, exists_eq', true_and, exists_eq_left, Option.mem_some_iff]
    simp
  | @lost start error h =>
    have hanswers : bulkAnswers [(⟨.bulk .start (toStart dbnames (activeDbnames info)), start⟩ : Event lower)] .start =
        [.error error] := by simp [bulkAnswers, Event.bulkAnswer, h]
    rw [hanswers]
    simp

theorem once_iff (hviews : Views stop stopLog startLog info log) (hstop : StopPart stop stopLog stopResult)
    (hstart : StartPart (toStart dbnames (activeDbnames info)) stopResult startLog outcome) :
    (∀ r, outcome = .ok r → r.names.Nodup) ↔ (StartAnswered log →
      (stopFailures dbnames log ++ startFailures log).Nodup ∧
        ∀ d ∈ stopFailures dbnames log ++ startFailures log, d ∉ skips log .stop ++ skips log .start) := by
  rw [stopFailures_eq hviews hstop, skips_stop hviews hstop, StartAnswered, startFailures, skips, hviews.startAnswers]
  cases hstart with
  | unsent h =>
    have hnames := nodup_names_report stopResult {}
    simpa [bulkAnswers] using hnames
  | @answered start res h =>
    have hanswers : bulkAnswers [(⟨.bulk .start (toStart dbnames (activeDbnames info)), start⟩ : Event lower)] .start =
        [.ok res] := by simp [bulkAnswers, Event.bulkAnswer, h]
    have hnames := nodup_names_report stopResult res
    rw [hanswers]
    simpa using hnames
  | @lost start error h =>
    have hanswers : bulkAnswers [(⟨.bulk .start (toStart dbnames (activeDbnames info)), start⟩ : Event lower)] .start =
        [.error error] := by simp [bulkAnswers, Event.bulkAnswer, h]
    rw [hanswers]
    simp

/-- The list of the start request comes from the reading that is made just before it. -/
theorem not_running_of_parts (hstop : StopPart stop stopLog stopResult)
    (hstart : StartPart (toStart dbnames (activeDbnames info)) stopResult startLog outcome)
    {before after : List (Event lower)} {dbnames' : List DbName} {served : Served lower .start dbnames'}
    (hsplit : (⟨.bulk .stop dbnames, stop⟩ : Event lower) :: (stopLog ++ ⟨.startInfo, info⟩ :: startLog) =
      before ++ ⟨.bulk .start dbnames', served⟩ :: after) :
    ∃ read, (reads before).getLast? = some read ∧ ∀ active ∈ read, ∀ d ∈ dbnames', d ∉ active := by
  have hearlier : ∀ e ∈ (⟨.bulk .stop dbnames, stop⟩ : Event lower) :: (stopLog ++ [⟨.startInfo, info⟩]),
      ¬∃ ds, e.1 = .bulk .start ds := by
    cases hstop <;> simp
  have hsent : ∀ start : Served lower .start (toStart dbnames (activeDbnames info)),
      startLog = [⟨.bulk .start (toStart dbnames (activeDbnames info)), start⟩] →
      ∃ read, (reads before).getLast? = some read ∧ ∀ active ∈ read, ∀ d ∈ dbnames', d ∉ active := by
    rintro start rfl
    have hsplit' : ((⟨.bulk .stop dbnames, stop⟩ : Event lower) :: (stopLog ++ [⟨.startInfo, info⟩])) ++
        [⟨.bulk .start (toStart dbnames (activeDbnames info)), start⟩] =
          before ++ ⟨.bulk .start dbnames', served⟩ :: after := by
      rw [← hsplit]
      simp
    obtain ⟨rfl, heq⟩ := eq_of_concat_eq (p := fun e : Event lower => ∃ ds, e.1 = .bulk .start ds) hearlier
      ⟨_, rfl⟩ hsplit'
    have hnames : dbnames' = toStart dbnames (activeDbnames info) := by
      have hrequest := congrArg Sigma.fst heq
      exact (Request.bulk.inj hrequest).2
    refine ⟨activeDbnames info, ?_, fun active hactive d hd => ?_⟩
    · rw [reads, ← List.cons_append, List.filterMap_append]
      exact List.getLast?_concat
    · rw [hnames, mem_toStart] at hd
      exact hd.2 active hactive
  cases hstart with
  | unsent h =>
    refine absurd ?_ (hearlier ⟨.bulk .start dbnames', served⟩ ?_)
    · exact ⟨dbnames', rfl⟩
    · rw [hsplit]
      simp
  | answered h => exact hsent _ rfl
  | lost h => exact hsent _ rfl

end

/-- A restart leaves nothing down that is not reported, and reports no database twice, just when the start request
reaches what the stop has left down and is answered, and no database has more than one problem. -/
theorem restart_reports_iff {dbnames : List DbName} {log : List (Event lower)} {outcome : Except Text Report}
    (h : Runs (restartDatabasesInBulk dbnames).run log outcome) (elsewhere : List DbName) :
    LeavesNothingDown elsewhere log outcome ↔ Covers elsewhere dbnames log := by
  rcases eq_or_ne dbnames [] with rfl | hne
  · obtain ⟨rfl, rfl⟩ := runs_pure.1 h
    constructor
    · intro _
      exact ⟨nofun, fun _ => by simp [stopFailures, startFailures, bulkAnswers]⟩
    · intro _
      exact ⟨nofun, by simp, fun r hr => by rw [← Except.ok.inj hr]; exact List.nodup_nil⟩
  · obtain ⟨stop, stopLog, startLog, info, stopResult, hlog, hstop, hstart⟩ := runs_restartDatabasesInBulk hne h
    have hviews : Views stop stopLog startLog info log := hlog ▸ views_of_parts hstop info hstart
    constructor
    · rintro ⟨hreported, -, honce⟩
      refine ⟨fun d hd hnot helsewhere => ?_, (once_iff hviews hstop hstart).1 honce⟩
      refine (reported_iff hviews hstop hstart hnot).1 ?_
      exact (hreported d hd).elim (absurd · hnot) fun h => h.elim (absurd · helsewhere) id
    · rintro ⟨hreached, hfailures⟩
      refine ⟨fun d hd => ?_, fun before dbnames' served after hsplit =>
        not_running_of_parts hstop hstart (hlog.symm.trans hsplit), (once_iff hviews hstop hstart).2 hfailures⟩
      by_cases hnot : d ∈ changed log .start
      · exact .inl hnot
      by_cases helsewhere : d ∈ elsewhere
      · exact .inr (.inl helsewhere)
      · exact .inr (.inr ((reported_iff hviews hstop hstart hnot).2 (hreached d hd hnot helsewhere)))

/-! #### Two runs -/

/-- The server starts or stops the database `db`, the only one. -/
def dbLog (action : StartStop) (active : List DbName) : List Lifecycle.Event :=
  [⟨.activeJob, .ok none⟩, ⟨.haDbNames, .ok []⟩, ⟨.findHost, .ok "host"⟩,
    ⟨.acquire "host" [['d', 'b']] (allName action), none⟩,
    ⟨.startInfo (.all action [['d', 'b']] []), .ok ⟨[['d', 'b']], some active⟩⟩,
    ⟨.calls [.ensureDbLogin ['d', 'b']], (⟨0, Nat.one_pos⟩, .ok ())⟩,
    ⟨.calls [nonHaCall action ['d', 'b']], (⟨0, Nat.one_pos⟩, .ok ())⟩,
    ⟨.release "host" [['d', 'b']], ()⟩]

theorem runs_dbLog_stop : Runs (allDatabases id .stop [['d', 'b']] false).run (dbLog .stop [['d', 'b']])
    (.ok { succeeded := [['d', 'b']] }) := .ask (.ask (.ask (.ask (.ask (.ask (.ask (.ask (.ret _))))))))

theorem runs_dbLog_start : Runs (allDatabases id .start [['d', 'b']] false).run (dbLog .start [])
    (.ok { succeeded := [['d', 'b']] }) := .ask (.ask (.ask (.ask (.ask (.ask (.ask (.ask (.ret _))))))))

theorem accepted_dbLog {action : StartStop} {active : List DbName} {d : DbName}
    (h : Accepted action d (dbLog action active)) : d ∈ [['d', 'b']] := by
  have hanswers : callAnswers (dbLog action active) =
      [(.ensureDbLogin ['d', 'b'], .ok ()), (nonHaCall action ['d', 'b'], .ok ())] := rfl
  rw [Accepted, hanswers] at h
  cases action <;> simpa [haCall, nonHaCall] using h

/-- A report of the server that arrives. -/
def servedOk {action : StartStop} {dbnames : List DbName} (log : List Lifecycle.Event) (res : BulkDatabaseActionResult)
    (changed : List DbName) (hrun : Runs (allDatabases id action dbnames false).run log (.ok res))
    (haccepted : ∀ d, Accepted action d log → d ∈ changed) : Served id action dbnames where
  log := log
  run := ⟨[], .ok res, by rwa [List.append_nil]⟩
  answer := .ok res
  arrives := by
    intro res' h
    rwa [← Except.ok.inj h]
  changed := changed
  accepted := haccepted

theorem restart_reports_one :
    let stop := servedOk _ _ [['d', 'b']] runs_dbLog_stop fun _ => accepted_dbLog
    let start := servedOk _ _ [['d', 'b']] runs_dbLog_start fun _ => accepted_dbLog
    LeavesNothingDown [] [⟨.bulk .stop [['d', 'b']], stop⟩, ⟨.startInfo, .ok (some [])⟩,
      ⟨.bulk .start [['d', 'b']], start⟩] (.ok {}) := by
  intro stop start
  have hrun : Runs (restartDatabasesInBulk [['d', 'b']]).run [⟨.bulk .stop [['d', 'b']], stop⟩,
      ⟨.startInfo, .ok (some [])⟩, ⟨.bulk .start [['d', 'b']], start⟩] (.ok {}) := .ask (.ask (.ask (.ret _)))
  refine (restart_reports_iff hrun []).2 ⟨fun d hd hnot => absurd hd hnot, fun _ => ?_⟩
  decide

/-- The HA database `ha` is stopped although it is not in the list. -/
def haLog : List Lifecycle.Event :=
  [⟨.activeJob, .ok none⟩, ⟨.haDbNames, .ok [['h', 'a']]⟩, ⟨.findHost, .ok "host"⟩,
    ⟨.acquire "host" [['h', 'a'], ['d', 'b']] "stopAllDatabases", none⟩,
    ⟨.startInfo (.all .stop [['d', 'b']] [['h', 'a']]), .ok ⟨[['d', 'b'], ['h', 'a']], some [['d', 'b'], ['h', 'a']]⟩⟩,
    ⟨.calls [.ensureDbLogin ['h', 'a']], (⟨0, Nat.one_pos⟩, .ok ())⟩,
    ⟨.calls [.haStop ['h', 'a']], (⟨0, Nat.one_pos⟩, .ok ())⟩,
    ⟨.calls [.ensureDbLogin ['d', 'b']], (⟨0, Nat.one_pos⟩, .error (.missingDbCredentials [] false))⟩,
    ⟨.release "host" [['h', 'a'], ['d', 'b']], ()⟩]

theorem runs_haLog : Runs (allDatabases id .stop [['d', 'b']] false).run haLog
    (.ok { succeeded := [['h', 'a']], skipped := [⟨['d', 'b'], skipNotLoggedIn⟩] }) :=
  .ask (.ask (.ask (.ask (.ask (.ask (.ask (.ask (.ask (.ret _)))))))))

theorem accepted_haLog {d : DbName} (h : Accepted .stop d haLog) : d ∈ [['h', 'a']] := by
  have hanswers : callAnswers haLog = [(.ensureDbLogin ['h', 'a'], .ok ()), (.haStop ['h', 'a'], .ok ()),
      (.ensureDbLogin ['d', 'b'], .error (.missingDbCredentials [] false))] := rfl
  rw [Accepted, hanswers] at h
  simpa [haCall, nonHaCall] using h

/-- The database of the list is not logged in and keeps running, so that there is nothing to start: the HA database stays
down and is not reported. -/
theorem restart_reports_fails :
    ¬∀ (lower : Text → Text) (dbnames : List DbName) (log : List (Event lower)) (outcome : Except Text Report)
      (elsewhere : List DbName),
      Runs (restartDatabasesInBulk dbnames).run log outcome → LeavesNothingDown elsewhere log outcome := by
  intro hall
  have hpromise := hall id [['d', 'b']]
    [⟨.bulk .stop [['d', 'b']], servedOk _ _ [['h', 'a']] runs_haLog fun _ => accepted_haLog⟩,
      ⟨.startInfo, .ok (some [some ['d', 'b']])⟩]
    (.ok { skipped := [⟨['d', 'b'], skipNotLoggedIn⟩] }) [] (.ask (.ask (.ret _)))
  rcases hpromise.reported ['h', 'a'] (List.mem_singleton_self _) with hstarted | helsewhere | ⟨r, hr, hmem⟩
  · cases hstarted
  · cases helsewhere
  · rw [← Except.ok.inj hr] at hmem
    exact absurd hmem (by decide)

end CubridWebManager.BulkActions
