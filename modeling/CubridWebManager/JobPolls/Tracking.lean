import CubridWebManager.JobPolls.TrackedJob

/-!
# The tracking of jobs

`startTracking` puts a job into the list, from the record that its caller has or from a first request, and polls it;
every answer of the poll goes into the list, and so does what the poll ends with.  Any number of jobs are tracked at
once, while the user dismisses entries and logs out.

A caller that asks for a job that is tracked already joins its poll, which changes nothing here and is no step.
-/

namespace CubridWebManager.JobPolls.Tracking

/-- Where the tracking of a job stands. -/
inductive Phase
  | untracked
  /-- `await databaseJobApi.getJob(jobId)` of `startTracking` -/
  | starting
  | polling (consecutiveErrors : Nat) (lastKnownJob : Option JobRecord)
  /-- The poll's promise is settled, and its handlers have not run. -/
  | settled (outcome : PollOutcome)

structure State where
  /-- `new Date().toISOString()` -/
  now : String
  jobs : List JobRecord
  dismissedJobIds : List String
  phase : String → Phase

/-- The page has just been loaded, with the dismissed ids of the storage. -/
def State.fresh (now : String) (dismissedJobIds : List String) : State :=
  ⟨now, [], dismissedJobIds, fun _ => .untracked⟩

inductive Act
  | elapse (now : String)
  /-- `runJob` after the submission, or `trackJob`; a caller that has a preview of the job tracks it from there. -/
  | trackJob (jobId : String) (previewJob : Option JobRecord)
  /-- A job of `listRecent`, after the login. -/
  | restore (jobId : String) (job : JobRecord)
  /-- The first request of `startTracking` is answered, or fails. -/
  | snapshot (jobId : String) (job : JobRecord)
  | snapshotError (jobId : String)
  /-- A request of the poll is answered, or fails. -/
  | answer (jobId : String) (job : JobRecord)
  | error (jobId : String) (message : String)
  /-- `startTracking` goes on after the poll. -/
  | handle (jobId : String)
  | dismissJob (jobId : String)
  | clearCompleted
  | logout

/-- A record of this job as the server sends it: it has the job's id, and no `outcomeUnknown`. -/
def Served (jobId : String) (job : JobRecord) : Prop := job.jobId = some (some jobId) ∧ job.outcomeUnknown = none

instance (jobId : String) (job : JobRecord) : Decidable (Served jobId job) := inferInstanceAs (Decidable (_ ∧ _))

def Phase.ofPolled : Polled → Phase
  | .polling consecutiveErrors lastKnownJob => .polling consecutiveErrors lastKnownJob
  | .settled outcome => .settled outcome

section

variable (localeCompare : String → String → Int) (s : State)

namespace State

def setPhase (jobId : String) (phase : Phase) : State := { s with phase := Function.update s.phase jobId phase }

def upsert (jobId : String) (patch : JobRecord) : State :=
  { s with jobs := upsertJob localeCompare s.dismissedJobIds jobId patch s.jobs }

/-- `onUpdate` of `startTracking`. -/
def onUpdate (jobId : String) (serverJob : JobRecord) : State :=
  s.upsert localeCompare jobId (normalizeTrackedJob s.now serverJob {})

/-- `startTracking` up to its first `await`. -/
def startTracking (jobId : String) : Option JobRecord → State
  | some initialJob =>
    (s.onUpdate localeCompare jobId { initialJob with jobId := some (some jobId) }).setPhase jobId (.polling 0 none)
  | none => s.setPhase jobId .starting

/-- `startTracking` after the poll. -/
def outcome (jobId : String) : PollOutcome → State
  | .resolved job => (s.onUpdate localeCompare jobId job).setPhase jobId .untracked
  | .rejected error => { s with jobs := interruptJob s.now jobId error s.jobs }.setPhase jobId .untracked

def dismiss (jobId : String) : State :=
  { s with
    jobs := JobPolls.dismissJob jobId s.jobs
    dismissedJobIds := persistDismissedJobIds (addDismissed s.dismissedJobIds jobId) }

def clear : State :=
  { s with
    jobs := JobPolls.clearCompleted s.jobs
    dismissedJobIds := persistDismissedJobIds
      ((s.jobs.filter fun job => isTerminalCmsJobStatus job.jobStatus.join).foldl
        (fun ids job => (job.id.map (addDismissed ids)).getD ids) s.dismissedJobIds) }

/-- The list is emptied and the polls are cancelled; a first request and the handlers of a settled poll go on. -/
def logout : State :=
  { s with
    jobs := []
    phase := fun jobId =>
      match s.phase jobId with
      | .polling _ _ => .untracked
      | phase => phase }

end State

def step (s : State) : Act → Option State
  | .elapse now => some { s with now }
  | .trackJob jobId previewJob =>
    match s.phase jobId with
    | .untracked =>
      some (s.startTracking localeCompare jobId (previewJob.map fun p => { p with jobStatus := some (some "queued") }))
    | _ => none
  | .restore jobId job =>
    match s.phase jobId with
    | .untracked =>
      if Served jobId job ∧ jobId ∉ s.dismissedJobIds then
        let normalized := normalizeTrackedJob s.now job {}
        let s := s.upsert localeCompare jobId normalized
        some
          (if isTerminalCmsJobStatus normalized.jobStatus.join then s
          else s.startTracking localeCompare jobId (some job))
      else none
    | _ => none
  | .snapshot jobId job =>
    match s.phase jobId with
    | .starting =>
      if Served jobId job then some ((s.onUpdate localeCompare jobId (getJob job)).setPhase jobId (.polling 0 none))
      else none
    | _ => none
  | .snapshotError jobId =>
    match s.phase jobId with
    | .starting =>
      some ((s.upsert localeCompare jobId { jobStatus := some (some "queued") }).setPhase jobId (.polling 0 none))
    | _ => none
  | .answer jobId job =>
    match s.phase jobId with
    | .polling _ _ =>
      if Served jobId job then
        some ((s.onUpdate localeCompare jobId (getJob job)).setPhase jobId (.ofPolled (tickAnswer (getJob job))))
      else none
    | _ => none
  | .error jobId message =>
    match s.phase jobId with
    | .polling consecutiveErrors lastKnownJob =>
      some (s.setPhase jobId (.ofPolled (tickError jobId message consecutiveErrors lastKnownJob)))
    | _ => none
  | .handle jobId =>
    match s.phase jobId with
    | .settled outcome => some (s.outcome localeCompare jobId outcome)
    | _ => none
  | .dismissJob jobId => some (s.dismiss jobId)
  | .clearCompleted => some s.clear
  | .logout => some s.logout

end

/-! ### What the server said -/

/-- The last answer of the server for the job since its tracking began. -/
def hear (jobId : String) (heard : Option JobRecord) : Act → Option JobRecord
  | .trackJob j _ => if j = jobId then none else heard
  | .restore j job | .snapshot j job | .answer j job => if j = jobId then some job else heard
  | _ => heard

def lastAnswer (jobId : String) (acts : List Act) : Option JobRecord := acts.foldl (hear jobId) none

/-- The status that the server reported last, if it did. -/
def lastStatus (jobId : String) (acts : List Act) : Option Lifecycle := (lastAnswer jobId acts).bind JobRecord.lifecycle

/-- The server answers for the job. -/
def Act.Answers (jobId : String) : Act → Prop
  | .restore j _ | .snapshot j _ | .answer j _ => j = jobId
  | _ => False

/-- The poll has ended without knowing how the job went. -/
def GaveUp : PollOutcome → Prop
  | .rejected (.statusUnavailable _ _ _) => True
  | _ => False

/-- The job is in the list. -/
def Listed (jobId : String) (s : State) : Prop := ∃ job ∈ s.jobs, job.id = some jobId

end CubridWebManager.JobPolls.Tracking
