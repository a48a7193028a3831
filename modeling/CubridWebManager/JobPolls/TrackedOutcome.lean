import CubridWebManager.JobPolls.TrackedEntries
import CubridWebManager.JobPolls.Tracking

/-!
# What becomes of a tracked job

A failed request says nothing about the job: the entry of a job is `failed` in the end just when the server's last
answer for it said so.  The invariant of a run is that the entry of a tracked job shows the last answer, and that what
its poll holds is that answer (`Phase.Follows`); the ends of the poll read the status off either of them.
-/

namespace CubridWebManager.JobPolls.Tracking

open Transition

/-! ### The invariant -/

/-- How the phase of a job goes with the last answer for it, in a list. -/
def Phase.Follows (jobId : String) (heard : Option JobRecord) (jobs : List JobRecord) : Phase → Prop
  | .untracked => True
  | .starting => heard = none
  | .polling _ lastKnownJob =>
    (∀ job ∈ jobs, job.id = some jobId → Shows heard job) ∧ FromPoll jobId heard lastKnownJob
  | .settled (.resolved job) =>
    ∃ answer, heard = some answer ∧ Served jobId answer ∧ job = getJob answer ∧ answer.lifecycle = some .succeeded
  | .settled (.rejected (.terminalFailure _ job)) =>
    ∃ answer, heard = some answer ∧ Served jobId answer ∧ job = getJob answer ∧ answer.lifecycle = some .failed
  | .settled (.rejected (.statusUnavailable _ id lastKnownJob)) =>
    id = jobId ∧ (∀ job ∈ jobs, job.id = some jobId → Shows heard job) ∧ FromPoll jobId heard lastKnownJob

theorem Phase.Follows.keeps {jobId : String} {heard : Option JobRecord} {prev next : List JobRecord} {phase : Phase}
    (h : phase.Follows jobId heard prev) (hkeeps : Keeps jobId prev next) : phase.Follows jobId heard next := by
  match phase, h with
  | .untracked, _ => trivial
  | .starting, h => exact h
  | .polling _ _, ⟨hshows, hpoll⟩ => exact ⟨hkeeps.shows hshows, hpoll⟩
  | .settled (.resolved _), h => exact h
  | .settled (.rejected (.terminalFailure _ _)), h => exact h
  | .settled (.rejected (.statusUnavailable _ _ _)), ⟨hid, hshows, hpoll⟩ => exact ⟨hid, hkeeps.shows hshows, hpoll⟩

structure Inv (heard : String → Option JobRecord) (s : State) : Prop where
  tidy : Tidy s.jobs
  follows : ∀ jobId, (s.phase jobId).Follows jobId (heard jobId) s.jobs

/-- The job that an action is about, the dismissal of its entry apart. -/
def Act.job : Act → Option String
  | .trackJob j _ | .restore j _ | .snapshot j _ | .snapshotError j | .answer j _ | .error j _ | .handle j => some j
  | .elapse _ | .dismissJob _ | .clearCompleted | .logout => none

theorem hear_of_ne {jobId : String} {a : Act} (h : a.job ≠ some jobId) (heard : Option JobRecord) :
    hear jobId heard a = heard := by
  cases a <;> simp_all [hear, Act.job]

variable {localeCompare : String → String → Int}

/-! ### The effect of a step -/

/-- What a step does that is about one job: the list stays tidy, the entries and the phases of the other jobs are kept,
and the phase and the entry of the job go with what has been heard. -/
structure Effect (jobId : String) (heard : Option JobRecord) (s s' : State) : Prop where
  tidy : Tidy s'.jobs
  keeps : ∀ other, other ≠ jobId → Keeps other s.jobs s'.jobs
  phases : ∀ other, other ≠ jobId → s'.phase other = s.phase other
  follows : (s'.phase jobId).Follows jobId heard s'.jobs

theorem Effect.inv {jobId : String} {heard heard' : String → Option JobRecord} {s s' : State} (hinv : Inv heard s)
    (h : Effect jobId (heard' jobId) s s') (hheard : ∀ other, other ≠ jobId → heard' other = heard other) :
    Inv heard' s' where
  tidy := h.tidy
  follows := by
    intro other
    by_cases hne : other = jobId
    · rw [hne]; exact h.follows
    · rw [hheard other hne, h.phases other hne]
      exact (hinv.follows other).keeps (h.keeps other hne)

section

variable {s : State} {jobId : String}

theorem stamped_normalize (now : String) {record fallback : JobRecord} (h : record.jobId = some (some jobId)) :
    Stamped jobId (normalizeTrackedJob now record fallback) := .inr (by simp [normalizeTrackedJob, h])

theorem served_getJob {job : JobRecord} (h : Served jobId job) : Served jobId (getJob job) := by
  rw [Served, getJob_jobId, getJob_outcomeUnknown]
  exact h

variable (localeCompare) in
/-- After `onUpdate` the entry of the job shows what the record says. -/
theorem onUpdate_spec (htidy : Tidy s.jobs) {record : JobRecord} {heard : Option JobRecord}
    (hid : record.jobId = some (some jobId)) (hconveys : Conveys heard record) :
    let jobs := (s.onUpdate localeCompare jobId record).jobs
    Tidy jobs ∧ (∀ other, other ≠ jobId → Keeps other s.jobs jobs) ∧
      ∀ job ∈ jobs, job.id = some jobId → Shows heard job := by
  have hstamped : Stamped jobId (normalizeTrackedJob s.now record {}) := stamped_normalize s.now hid
  refine ⟨tidy_upsertJob _ _ hstamped rfl htidy, fun other hne => keeps_upsertJob _ _ hstamped htidy hne, ?_⟩
  intro job hjob hjobid
  rcases mem_upsertJob _ _ hstamped htidy hjob with ⟨base, -, rfl⟩ | ⟨-, hne⟩
  · exact hconveys.shows s.now jobId base
  · exact absurd hjobid hne

/-- `onUpdate` and a phase that goes with what the record says. -/
theorem effect_onUpdate (htidy : Tidy s.jobs) {record : JobRecord} {heard : Option JobRecord} {phase : Phase}
    (hid : record.jobId = some (some jobId)) (hconveys : Conveys heard record)
    (hphase : ∀ jobs : List JobRecord, (∀ job ∈ jobs, job.id = some jobId → Shows heard job) →
      phase.Follows jobId heard jobs) :
    Effect jobId heard s ((s.onUpdate localeCompare jobId record).setPhase jobId phase) := by
  obtain ⟨htidy', hkeeps, hshows⟩ := onUpdate_spec localeCompare htidy hid hconveys
  refine ⟨htidy', hkeeps, fun other hne => Function.update_of_ne hne _ _, ?_⟩
  have hself : ((s.onUpdate localeCompare jobId record).setPhase jobId phase).phase jobId = phase :=
    Function.update_self _ _ _
  rw [hself]
  exact hphase _ hshows

/-- A step that leaves the list as it is. -/
theorem effect_setPhase (htidy : Tidy s.jobs) {heard : Option JobRecord} {phase : Phase}
    (hphase : phase.Follows jobId heard s.jobs) : Effect jobId heard s (s.setPhase jobId phase) := by
  refine ⟨htidy, fun _ _ => .of_subset fun _ hjob _ => hjob, fun other hne => Function.update_of_ne hne _ _, ?_⟩
  have hself : (s.setPhase jobId phase).phase jobId = phase := Function.update_self _ _ _
  rw [hself]
  exact hphase

theorem effect_trackJob (htidy : Tidy s.jobs) (previewJob : Option JobRecord) :
    Effect jobId none s
      (s.startTracking localeCompare jobId (previewJob.map fun p => { p with jobStatus := some (some "queued") })) := by
  cases previewJob with
  | none => exact effect_setPhase htidy rfl
  | some p => exact effect_onUpdate htidy rfl (conveys_queued rfl) fun _ hshows => ⟨hshows, fromPoll_none _ _⟩

theorem effect_snapshot (htidy : Tidy s.jobs) {job : JobRecord} (hjob : Served jobId job) :
    Effect jobId (some job) s
      ((s.onUpdate localeCompare jobId (getJob job)).setPhase jobId (.polling 0 none)) :=
  effect_onUpdate htidy (served_getJob hjob).1 (conveys_answer (lifecycle_getJob job) (getJob_finishedAt job))
    fun _ hshows => ⟨hshows, fromPoll_none _ _⟩

theorem effect_snapshotError (htidy : Tidy s.jobs) :
    Effect jobId none s
      ((s.upsert localeCompare jobId { jobStatus := some (some "queued") }).setPhase jobId (.polling 0 none)) := by
  have hstamped : Stamped jobId { jobStatus := some (some "queued") } := .inl rfl
  refine ⟨tidy_upsertJob _ _ hstamped rfl htidy, fun other hne => keeps_upsertJob _ _ hstamped htidy hne,
    fun other hne => Function.update_of_ne hne _ _, ?_⟩
  have hself : ((s.upsert localeCompare jobId { jobStatus := some (some "queued") }).setPhase jobId
      (.polling 0 none)).phase jobId = .polling 0 none := Function.update_self _ _ _
  rw [hself]
  refine ⟨fun job hjob hid => ?_, fromPoll_none _ _⟩
  rcases mem_upsertJob _ _ hstamped htidy hjob with ⟨base, -, rfl⟩ | ⟨-, hne⟩
  · exact shows_queued jobId base
  · exact absurd hid hne

theorem effect_answer (htidy : Tidy s.jobs) {job : JobRecord} (hjob : Served jobId job) :
    Effect jobId (some job) s
      ((s.onUpdate localeCompare jobId (getJob job)).setPhase jobId (.ofPolled (tickAnswer (getJob job)))) := by
  refine effect_onUpdate htidy (served_getJob hjob).1 (conveys_answer (lifecycle_getJob job) (getJob_finishedAt job))
    fun jobs hshows => ?_
  have hpolling : Phase.Follows jobId (some job) jobs (.polling 0 (some (getJob job))) :=
    ⟨hshows, fun _ h => ⟨job, rfl, hjob.1, (Option.some.inj h).symm⟩⟩
  unfold tickAnswer
  rw [lifecycle_getJob]
  match hlifecycle : job.lifecycle with
  | some .succeeded => exact ⟨job, rfl, hjob, rfl, hlifecycle⟩
  | some .failed => exact ⟨job, rfl, hjob, rfl, hlifecycle⟩
  | some .queued => exact hpolling
  | some .running => exact hpolling
  | none => exact hpolling

theorem effect_error (htidy : Tidy s.jobs) {message : String} {consecutiveErrors : Nat}
    {heard lastKnownJob : Option JobRecord}
    (h : Phase.Follows jobId heard s.jobs (.polling consecutiveErrors lastKnownJob)) :
    Effect jobId heard s
      (s.setPhase jobId (.ofPolled (tickError jobId message consecutiveErrors lastKnownJob))) := by
  refine effect_setPhase htidy ?_
  unfold tickError
  split
  · exact ⟨rfl, h⟩
  · exact h

variable (localeCompare) in
theorem effect_restore (htidy : Tidy s.jobs) {job : JobRecord} (hjob : Served jobId job)
    (huntracked : s.phase jobId = .untracked) :
    let updated := s.onUpdate localeCompare jobId job
    Effect jobId (some job) s updated ∧
      Effect jobId (some job) s (updated.startTracking localeCompare jobId (some job)) := by
  have hconveys : Conveys (some job) job := conveys_answer rfl rfl
  obtain ⟨htidy', hkeeps, -⟩ := onUpdate_spec localeCompare htidy hjob.1 hconveys
  refine ⟨⟨htidy', hkeeps, fun _ _ => rfl, ?_⟩, ?_⟩
  · show (s.phase jobId).Follows _ _ _
    rw [huntracked]
    trivial
  · have hsecond : Effect jobId (some job) (s.onUpdate localeCompare jobId job)
        ((s.onUpdate localeCompare jobId job).startTracking localeCompare jobId (some job)) :=
      effect_onUpdate htidy' rfl (conveys_answer rfl rfl) fun _ hshows => ⟨hshows, fromPoll_none _ _⟩
    exact ⟨hsecond.tidy, fun other hne => (hkeeps other hne).trans (hsecond.keeps other hne), hsecond.phases,
      hsecond.follows⟩

/-- The errors of a poll are about its job. -/
theorem of_follows {heard : Option JobRecord} {jobs : List JobRecord} {error : PollFailure}
    (h : Phase.Follows jobId heard jobs (.settled (.rejected error))) : error.Of jobId := by
  cases error with
  | terminalFailure message job =>
    obtain ⟨answer, -, hserved, rfl, -⟩ := h
    refine ⟨fun job hjob => ?_, fun job hjob => by cases hjob⟩
    obtain rfl : getJob answer = job := Option.some.inj hjob
    exact (served_getJob hserved).1
  | statusUnavailable message id lastKnownJob =>
    obtain ⟨-, -, hpoll⟩ := h
    refine ⟨fun job hjob => (by cases hjob), fun job hjob => ?_⟩
    obtain ⟨answer, -, hid, rfl⟩ := hpoll job hjob
    rw [getJob_jobId]
    exact hid

theorem effect_outcome (htidy : Tidy s.jobs) {heard : Option JobRecord} {outcome : PollOutcome}
    (h : Phase.Follows jobId heard s.jobs (.settled outcome)) :
    Effect jobId heard s (s.outcome localeCompare jobId outcome) := by
  cases outcome with
  | resolved job =>
    obtain ⟨answer, rfl, hserved, rfl, -⟩ := h
    exact effect_onUpdate htidy (served_getJob hserved).1
      (conveys_answer (lifecycle_getJob answer) (getJob_finishedAt answer)) fun _ _ => trivial
  | rejected error =>
    have hof := of_follows h
    refine ⟨tidy_interruptJob hof htidy, fun other hne => keeps_interruptJob hof hne,
      fun other hne => Function.update_of_ne hne _ _, ?_⟩
    have hself : (s.outcome localeCompare jobId (.rejected error)).phase jobId = .untracked :=
      Function.update_self _ _ _
    rw [hself]
    trivial

end

/-! ### The runs -/

theorem Inv.of_keeps {heard : String → Option JobRecord} {s s' : State} (hinv : Inv heard s) (htidy : Tidy s'.jobs)
    (hkeeps : ∀ jobId, Keeps jobId s.jobs s'.jobs)
    (hphase : ∀ jobId, s'.phase jobId = s.phase jobId ∨ s'.phase jobId = .untracked) : Inv heard s' where
  tidy := htidy
  follows := by
    intro jobId
    rcases hphase jobId with h | h
    · rw [h]; exact (hinv.follows jobId).keeps (hkeeps jobId)
    · rw [h]; trivial

theorem inv_logout {heard : String → Option JobRecord} {s : State} (hinv : Inv heard s) : Inv heard s.logout := by
  have htidy : Tidy s.logout.jobs := ⟨List.nodup_nil, Nat.zero_le _, by simp [State.logout]⟩
  refine hinv.of_keeps htidy (fun jobId => .of_subset ?_) fun jobId => ?_
  · simp [State.logout]
  · unfold State.logout
    cases hphase : s.phase jobId <;> simp [hphase]

variable {s s' : State} {heard : String → Option JobRecord}

/-- A step about one job has its effect on it. -/
theorem effect_of_step (hinv : Inv heard s) {a : Act} {jobId : String} (hjob : a.job = some jobId)
    (h : step localeCompare s a = some s') : Effect jobId (hear jobId (heard jobId) a) s s' := by
  have hfollows := hinv.follows jobId
  cases a with
  | elapse | dismissJob | clearCompleted | logout => cases hjob
  | trackJob j previewJob =>
    obtain rfl : j = jobId := Option.some.inj hjob
    cases hphase : s.phase j <;> simp only [step, hphase, reduceCtorEq, Option.some.injEq] at h
    subst h
    rw [hear, if_pos rfl]
    exact effect_trackJob hinv.tidy previewJob
  | restore j job =>
    obtain rfl : j = jobId := Option.some.inj hjob
    cases hphase : s.phase j <;> simp only [step, hphase, reduceCtorEq] at h
    split at h
    · rename_i hserved
      rw [hear, if_pos rfl]
      obtain ⟨hterminal, hactive⟩ := effect_restore localeCompare hinv.tidy hserved.1 hphase
      rw [← Option.some.inj h]
      split
      · exact hterminal
      · exact hactive
    · cases h
  | snapshot j job =>
    obtain rfl : j = jobId := Option.some.inj hjob
    cases hphase : s.phase j <;> simp only [step, hphase, reduceCtorEq] at h
    split at h
    · rename_i hserved
      rw [hear, if_pos rfl, ← Option.some.inj h]
      exact effect_snapshot hinv.tidy hserved
    · cases h
  | snapshotError j =>
    obtain rfl : j = jobId := Option.some.inj hjob
    cases hphase : s.phase j <;> simp only [step, hphase, reduceCtorEq] at h
    rw [hphase] at hfollows
    have hnone : heard j = none := hfollows
    show Effect j (heard j) s s'
    rw [← Option.some.inj h, hnone]
    exact effect_snapshotError hinv.tidy
  | answer j job =>
    obtain rfl : j = jobId := Option.some.inj hjob
    cases hphase : s.phase j <;> simp only [step, hphase, reduceCtorEq] at h
    split at h
    · rename_i hserved
      rw [hear, if_pos rfl, ← Option.some.inj h]
      exact effect_answer hinv.tidy hserved
    · cases h
  | error j message =>
    obtain rfl : j = jobId := Option.some.inj hjob
    cases hphase : s.phase j <;> simp only [step, hphase, reduceCtorEq] at h
    rw [hphase] at hfollows
    show Effect j (heard j) s s'
    rw [← Option.some.inj h]
    exact effect_error hinv.tidy hfollows
  | handle j =>
    obtain rfl : j = jobId := Option.some.inj hjob
    cases hphase : s.phase j <;> simp only [step, hphase, reduceCtorEq] at h
    rw [hphase] at hfollows
    show Effect j (heard j) s s'
    rw [← Option.some.inj h]
    exact effect_outcome hinv.tidy hfollows

theorem step_inv (hinv : Inv heard s) {a : Act} (h : step localeCompare s a = some s') :
    Inv (fun jobId => hear jobId (heard jobId) a) s' := by
  cases hjob : a.job with
  | some jobId =>
    refine Effect.inv hinv (effect_of_step hinv hjob h) fun other hne => hear_of_ne ?_ _
    rw [hjob]
    exact fun heq => hne (Option.some.inj heq).symm
  | none =>
    have hheard : (fun jobId => hear jobId (heard jobId) a) = heard :=
      funext fun jobId => hear_of_ne (by simp [hjob]) _
    rw [hheard]
    cases a with
    | elapse now =>
      obtain rfl := Option.some.inj h
      exact ⟨hinv.tidy, hinv.follows⟩
    | dismissJob jobId =>
      obtain rfl := Option.some.inj h
      exact hinv.of_keeps (tidy_dismissJob jobId hinv.tidy) (fun other => keeps_dismissJob jobId other s.jobs)
        fun _ => .inl rfl
    | clearCompleted =>
      obtain rfl := Option.some.inj h
      exact hinv.of_keeps (hinv.tidy.sublist List.filter_sublist)
        (fun _ => .of_subset fun _ hmem _ => List.mem_of_mem_filter hmem) fun _ => .inl rfl
    | logout =>
      obtain rfl := Option.some.inj h
      exact inv_logout hinv
    | trackJob | restore | snapshot | snapshotError | answer | error | handle => cases hjob

theorem run_inv {acts : List Act} (hrun : Run (step localeCompare) Always s acts s') :
    ∀ {heard : String → Option JobRecord}, Inv heard s →
      Inv (fun jobId => acts.foldl (hear jobId) (heard jobId)) s' := by
  induction hrun with
  | nil s => exact fun hinv => hinv
  | cons _ hstep _ ih => exact fun hinv => ih (step_inv hinv hstep)

/-! ### The end of the tracking -/

section

variable {jobId : String}

/-- At its end the entry of the job has the status of the last answer, whatever the poll ended with. -/
theorem outcome_jobStatus (hinv : Inv heard s) {outcome : PollOutcome} (hphase : s.phase jobId = .settled outcome)
    {job : JobRecord} (hjob : job ∈ (s.outcome localeCompare jobId outcome).jobs) (hid : job.id = some jobId) :
    job.jobStatus = some (some (shownStatus (heard jobId)).name) := by
  have hfollows := hinv.follows jobId
  rw [hphase] at hfollows
  cases outcome with
  | resolved record =>
    obtain ⟨answer, hheard, hserved, rfl, -⟩ := hfollows
    obtain ⟨-, -, hshows⟩ := onUpdate_spec localeCompare hinv.tidy (served_getJob hserved).1
      (conveys_answer (lifecycle_getJob answer) (getJob_finishedAt answer))
    rw [hheard]
    exact (hshows job hjob hid).jobStatus
  | rejected error =>
    rcases mem_interruptJob hjob with ⟨before, -, -, cur, hcur, hcurid, rfl⟩ | ⟨-, hne⟩
    · have hentry : (before.spread (interrupted s.now jobId error cur)).jobStatus =
          (interrupted s.now jobId error cur).jobStatus := rfl
      rw [hentry]
      cases error with
      | terminalFailure message record =>
        obtain ⟨answer, hheard, -, rfl, hfailed⟩ := hfollows
        rw [interrupted_terminalFailure s.now cur ((lifecycle_getJob answer).trans hfailed), hheard, shownStatus,
          Option.bind_some, hfailed, Option.getD_some, Lifecycle.name]
      | statusUnavailable message id lastKnownJob =>
        obtain ⟨rfl, hshows, hpoll⟩ := hfollows
        exact (interrupted_statusUnavailable s.now (hshows cur hcur hcurid) (hinv.tidy.plain cur hcur) hpoll).1
    · exact absurd hid hne

/-- After a poll that gave up the outcome is unknown. -/
theorem outcome_unknown (hinv : Inv heard s) {outcome : PollOutcome} (hphase : s.phase jobId = .settled outcome)
    (hgave : GaveUp outcome) {job : JobRecord} (hjob : job ∈ (s.outcome localeCompare jobId outcome).jobs)
    (hid : job.id = some jobId) : job.outcomeUnknown = some (some true) := by
  have hfollows := hinv.follows jobId
  rw [hphase] at hfollows
  rcases outcome with record | ⟨message, record⟩ | ⟨message, id, lastKnownJob⟩
  · exact hgave.elim
  · exact hgave.elim
  · obtain ⟨rfl, hshows, hpoll⟩ := hfollows
    rcases mem_interruptJob hjob with ⟨before, -, -, cur, hcur, hcurid, rfl⟩ | ⟨-, hne⟩
    · let entry := interrupted s.now id (.statusUnavailable message id lastKnownJob) cur
      have hentry : (before.spread entry).outcomeUnknown = entry.outcomeUnknown := rfl
      rw [hentry]
      exact (interrupted_statusUnavailable s.now (hshows cur hcur hcurid) (hinv.tidy.plain cur hcur) hpoll).2
    · exact absurd hid hne

theorem listed_onUpdate (hinv : Inv heard s) {record : JobRecord} (hid : record.jobId = some (some jobId))
    (h : Listed jobId s ∨ s.jobs.length < maxTracked) : Listed jobId (s.onUpdate localeCompare jobId record) :=
  exists_mem_upsertJob _ _ (stamped_normalize s.now hid) hinv.tidy h

theorem listed_outcome (hinv : Inv heard s) {outcome : PollOutcome} (hphase : s.phase jobId = .settled outcome)
    (h : Listed jobId s) : Listed jobId (s.outcome localeCompare jobId outcome) := by
  have hfollows := hinv.follows jobId
  rw [hphase] at hfollows
  cases outcome with
  | resolved record =>
    obtain ⟨answer, -, hserved, rfl, -⟩ := hfollows
    exact listed_onUpdate hinv (served_getJob hserved).1 (.inl h)
  | rejected error => exact exists_mem_interruptJob (of_follows hfollows) h

/-- After an answer of the server the outcome of the job is not unknown any more. -/
theorem onUpdate_outcomeUnknown (htidy : Tidy s.jobs) {record : JobRecord} (hserved : Served jobId record)
    {job : JobRecord} (hjob : job ∈ (s.onUpdate localeCompare jobId record).jobs) (hid : job.id = some jobId) :
    job.outcomeUnknown = some (some false) := by
  rcases mem_upsertJob _ _ (stamped_normalize s.now hserved.1) htidy hjob with ⟨base, -, rfl⟩ | ⟨-, hne⟩
  · rw [patched_outcomeUnknown, normalizeTrackedJob_outcomeUnknown, hserved.2, Option.some_or, Option.join_none,
      Option.getD_none]
  · exact absurd hid hne

theorem name_shownStatus_eq_failed {heard : Option JobRecord} :
    (shownStatus heard).name = "failed" ↔ heard.bind JobRecord.lifecycle = some .failed := by
  rw [Lifecycle.name_eq_failed, shownStatus]
  cases heard.bind JobRecord.lifecycle <;> simp

end

theorem inv_fresh (now : String) (dismissedJobIds : List String) :
    Inv (fun _ => none) (.fresh now dismissedJobIds) where
  tidy := ⟨List.nodup_nil, Nat.zero_le _, by simp [State.fresh]⟩
  follows := fun _ => trivial

/-- After an answer of the server for a job it is in the list, if it was or if there is room, and its outcome is not
unknown. -/
theorem answers_spec (hinv : Inv heard s) {a : Act} {jobId : String} (ha : a.Answers jobId)
    (h : step localeCompare s a = some s') :
    (Listed jobId s ∨ s.jobs.length < maxTracked → Listed jobId s') ∧
      ∀ job ∈ s'.jobs, job.id = some jobId → job.outcomeUnknown = some (some false) := by
  cases a with
  | restore j job =>
    obtain rfl : j = jobId := ha
    cases hphase : s.phase j <;> simp only [step, hphase, reduceCtorEq] at h
    split at h
    · rename_i hserved
      have hrecord : Served j { job with jobId := some (some j) } := ⟨rfl, hserved.1.2⟩
      obtain ⟨htidy, -, -⟩ := onUpdate_spec localeCompare (s := s) hinv.tidy hserved.1.1
        (conveys_answer rfl rfl)
      rw [← Option.some.inj h]
      split
      · exact ⟨listed_onUpdate hinv hserved.1.1, fun job hjob => onUpdate_outcomeUnknown hinv.tidy hserved.1 hjob⟩
      · exact ⟨fun hlisted => exists_mem_upsertJob _ _ (stamped_normalize s.now hrecord.1) htidy
          (.inl (listed_onUpdate hinv hserved.1.1 hlisted)), fun job hjob => onUpdate_outcomeUnknown htidy hrecord hjob⟩
    · cases h
  | snapshot j job =>
    obtain rfl : j = jobId := ha
    cases hphase : s.phase j <;> simp only [step, hphase, reduceCtorEq] at h
    split at h
    · rename_i hserved
      rw [← Option.some.inj h]
      have hgot := served_getJob hserved
      exact ⟨listed_onUpdate hinv hgot.1, fun job hjob => onUpdate_outcomeUnknown hinv.tidy hgot hjob⟩
    · cases h
  | answer j job =>
    obtain rfl : j = jobId := ha
    cases hphase : s.phase j <;> simp only [step, hphase, reduceCtorEq] at h
    split at h
    · rename_i hserved
      rw [← Option.some.inj h]
      have hgot := served_getJob hserved
      exact ⟨listed_onUpdate hinv hgot.1, fun job hjob => onUpdate_outcomeUnknown hinv.tidy hgot hjob⟩
    · cases h
  | elapse | trackJob | snapshotError | error | handle | dismissJob | clearCompleted | logout => exact ha.elim

/-- In every run, whatever answers and errors the polls see: when a poll has ended, the job's entry is `failed` in the
end if and only if the last answer of the server said so; if the poll gave up, the outcome is marked unknown, and the
status is the last one that the server reported, or `queued`.  A later answer takes the mark back. -/
theorem tracked_outcome (localeCompare : String → String → Int) (now : String) (dismissedJobIds : List String)
    (acts : List Act) (s : State) (hrun : Run (step localeCompare) Always (.fresh now dismissedJobIds) acts s)
    (jobId : String) :
    (∀ outcome, s.phase jobId = .settled outcome →
      ∃ s', step localeCompare s (.handle jobId) = some s' ∧ (Listed jobId s → Listed jobId s') ∧
        ∀ job ∈ s'.jobs, job.id = some jobId →
          (job.jobStatus.join = some "failed" ↔ lastStatus jobId acts = some .failed) ∧
            (GaveUp outcome → job.outcomeUnknown.join = some true ∧
              job.jobStatus.join = some ((lastStatus jobId acts).getD .queued).name)) ∧
      ∀ a s', a.Answers jobId → step localeCompare s a = some s' →
        (Listed jobId s ∨ s.jobs.length < maxTracked → Listed jobId s') ∧
          ∀ job ∈ s'.jobs, job.id = some jobId → job.outcomeUnknown.join = some false := by
  have hinv : Inv (fun jobId => lastAnswer jobId acts) s := run_inv hrun (inv_fresh now dismissedJobIds)
  constructor
  · intro outcome hphase
    refine ⟨s.outcome localeCompare jobId outcome, by simp only [step, hphase], listed_outcome hinv hphase,
      fun job hjob hid => ?_⟩
    have hstatus := outcome_jobStatus hinv hphase hjob hid
    rw [hstatus, Option.join_some, Option.some.injEq]
    refine ⟨name_shownStatus_eq_failed, fun hgave => ⟨?_, rfl⟩⟩
    rw [outcome_unknown hinv hphase hgave hjob hid, Option.join_some]
  · intro a s' ha hstep
    obtain ⟨hlisted, hknown⟩ := answers_spec hinv ha hstep
    refine ⟨hlisted, fun job hjob hid => ?_⟩
    rw [hknown job hjob hid, Option.join_some]

/-- A job that was running when three requests failed. -/
theorem tracked_outcome_running :
    let job : JobRecord := { jobId := some (some "7"), status := some (some "running") }
    let acts : List Act :=
      [.trackJob "7" none, .snapshot "7" job, .error "7" "Network unavailable", .error "7" "Network unavailable",
        .error "7" "Network unavailable"]
    ∃ s s', Run (step fun _ _ => 0) Always (.fresh "" []) acts s ∧ step (fun _ _ => 0) s (.handle "7") = some s' ∧
      ∃ job ∈ s'.jobs, job.id = some "7" ∧ job.outcomeUnknown.join = some true ∧
        job.jobStatus.join = some "running" := by
  intro job acts
  have hrun : Run (step fun _ _ => 0) Always (.fresh "" []) acts _ :=
    .cons trivial rfl (.cons trivial rfl (.cons trivial rfl (.cons trivial rfl (.cons trivial rfl (.nil _)))))
  obtain ⟨s', hstep, hlisted, hjobs⟩ := (tracked_outcome _ _ _ _ _ hrun "7").1 _ rfl
  have hjobid : (getJob job).jobId = some (some "7") := getJob_jobId job
  obtain ⟨entry, hentry, hid⟩ := hlisted (listed_onUpdate (inv_fresh "" []) hjobid (.inr (by decide)))
  exact ⟨_, s', hrun, hstep, entry, hentry, hid, (hjobs entry hentry hid).2 trivial⟩

end CubridWebManager.JobPolls.Tracking
