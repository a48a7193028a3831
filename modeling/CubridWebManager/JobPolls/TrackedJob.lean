import CubridWebManager.JobPolls.Runner
import CubridWebManager.Lib.Json

/-!
# The list of tracked jobs

The job tray lists the CMS jobs of the user.  Its entries are objects put together from the answers of the server, from
the entry there was before and from the error of a poll; `getCmsJobErrorResult` and `normalizeTrackedJob` compute them,
`upsertJob` puts them into the list.  Which of several objects gives a field depends on whether the others have the
field at all, so a field is modelled as present or absent, and present with a value or without one.
-/

namespace CubridWebManager.JobPolls

/-! ### The objects -/

/-- A property of an object: absent, or present with its value, which is `none` for `undefined` and `null`. -/
abbrev Slot (α : Type) := Option (Option α)

structure JobRecord where
  jobId : Slot String := none
  type : Slot String := none
  dbname : Slot String := none
  hostUid : Slot String := none
  jobStatus : Slot String := none
  status : Slot String := none
  outcomeUnknown : Slot Bool := none
  createdAt : Slot String := none
  startedAt : Slot String := none
  finishedAt : Slot String := none
  maintenanceSummary : Slot Json := none
  error : Slot JobError := none
  result : Slot Json := none
  warnings : Slot Json := none
  dismissed : Slot Bool := none

namespace JobRecord

/-- `{ ...a, ...b }` -/
def spread (a b : JobRecord) : JobRecord where
  jobId := b.jobId.or a.jobId
  type := b.type.or a.type
  dbname := b.dbname.or a.dbname
  hostUid := b.hostUid.or a.hostUid
  jobStatus := b.jobStatus.or a.jobStatus
  status := b.status.or a.status
  outcomeUnknown := b.outcomeUnknown.or a.outcomeUnknown
  createdAt := b.createdAt.or a.createdAt
  startedAt := b.startedAt.or a.startedAt
  finishedAt := b.finishedAt.or a.finishedAt
  maintenanceSummary := b.maintenanceSummary.or a.maintenanceSummary
  error := b.error.or a.error
  result := b.result.or a.result
  warnings := b.warnings.or a.warnings
  dismissed := b.dismissed.or a.dismissed

/-- The fields that the status is resolved from. -/
def toJob (r : JobRecord) : Job := ⟨r.jobStatus.join, r.status.join, r.finishedAt.join, r.error.join⟩

/-- `resolveCmsJobStatus` of the record. -/
def lifecycle (r : JobRecord) : Option Lifecycle := resolveCmsJobStatus (some r.toJob)

end JobRecord

def Lifecycle.name : Lifecycle → String
  | .queued => "queued"
  | .running => "running"
  | .succeeded => "succeeded"
  | .failed => "failed"

/-- `getJob` of `databaseJobApi`, with the job that the server sends. -/
def getJob (job : JobRecord) : JobRecord :=
  match job.lifecycle with
  | some resolved => { job with jobStatus := some (some resolved.name) }
  | none => job

/-! ### The poll, as the tracking of a job sees it -/

/-- The errors that the promise of `pollCmsJob` is rejected with. -/
inductive PollFailure
  /-- `jobTerminalFailure` -/
  | terminalFailure (message : String) (job : JobRecord)
  /-- `jobStatusUnavailable` -/
  | statusUnavailable (message : String) (jobId : String) (lastKnownJob : Option JobRecord)

namespace PollFailure

def message : PollFailure → String
  | terminalFailure message _ => message
  | statusUnavailable message _ _ => message

def job : PollFailure → Option JobRecord
  | terminalFailure _ job => some job
  | statusUnavailable _ _ _ => none

def jobStatusUnavailable : PollFailure → Bool
  | terminalFailure _ _ => false
  | statusUnavailable _ _ _ => true

def jobId : PollFailure → Option String
  | terminalFailure _ _ => none
  | statusUnavailable _ jobId _ => some jobId

def lastKnownJob : PollFailure → Option JobRecord
  | terminalFailure _ _ => none
  | statusUnavailable _ _ lastKnownJob => lastKnownJob

end PollFailure

inductive PollOutcome
  | resolved (job : JobRecord)
  | rejected (error : PollFailure)

/-- The poll goes on, or its promise is settled. -/
inductive Polled
  | polling (consecutiveErrors : Nat) (lastKnownJob : Option JobRecord)
  | settled (outcome : PollOutcome)

/-- `tick` with the job, after `onUpdate`. -/
def tickAnswer (job : JobRecord) : Polled :=
  match job.lifecycle with
  | some .succeeded => .settled (.resolved job)
  | some .failed => .settled (.rejected (.terminalFailure (formatCmsJobError (some job.toJob)) job))
  | _ => .polling 0 (some job)

/-- The `catch` of `tick`. -/
def tickError (jobId message : String) (consecutiveErrors : Nat) (lastKnownJob : Option JobRecord) : Polled :=
  if pollMaxRetries ≤ consecutiveErrors + 1 then .settled (.rejected (.statusUnavailable message jobId lastKnownJob))
  else .polling (consecutiveErrors + 1) lastKnownJob

/-! ### The entries -/

def getCmsJobErrorResult (error : PollFailure) (lastKnownJob previewJob : JobRecord) : JobRecord :=
  let job := ((previewJob.spread lastKnownJob).spread (error.lastKnownJob.getD {})).spread (error.job.getD {})
  let confirmedFailure := error.job.bind JobRecord.lifecycle = some .failed
  let outcomeUnknown := ¬ confirmedFailure ∧ (error.jobStatusUnavailable ∨ (truthy job.jobId.join).isSome)
  let message : JobError := ⟨truthy (some error.message)⟩
  { job with
    jobId := some (job.jobId.join <|> error.jobId)
    maintenanceSummary := some (job.maintenanceSummary.join <|> previewJob.maintenanceSummary.join)
    jobStatus := some (some (if outcomeUnknown then (job.lifecycle.getD .queued).name else "failed"))
    outcomeUnknown := some (some (decide outcomeUnknown))
    error := some (some (if confirmedFailure then job.error.join.getD message else message)) }

/-- With the time `now`, as a string, for a job that has none. -/
def normalizeTrackedJob (now : String) (serverJob fallback : JobRecord) : JobRecord :=
  let jobStatus := (serverJob.lifecycle.map Lifecycle.name <|> truthy fallback.jobStatus.join).getD "queued"
  { jobId := some (serverJob.jobId.join <|> fallback.jobId.join)
    type := some (serverJob.type.join <|> fallback.type.join)
    dbname := some (some ((serverJob.dbname.join <|> fallback.dbname.join).getD ""))
    hostUid := some (some ((serverJob.hostUid.join <|> fallback.hostUid.join).getD ""))
    jobStatus := some (some jobStatus)
    -- an answer of the server takes the warning of a lost connection back
    outcomeUnknown := some (some (serverJob.outcomeUnknown.join.getD false))
    createdAt := some (some ((serverJob.createdAt.join <|> fallback.createdAt.join).getD now))
    startedAt := some serverJob.startedAt.join
    finishedAt := some serverJob.finishedAt.join
    maintenanceSummary := some (serverJob.maintenanceSummary.join <|> fallback.maintenanceSummary.join)
    error := some (serverJob.error.join <|> fallback.error.join)
    result := some serverJob.result.join
    warnings := some (serverJob.warnings.join <|> fallback.warnings.join)
    dismissed := some (some (fallback.dismissed.join.getD false)) }

/-! ### The list -/

def maxTracked : Nat := 50

def maxDismissed : Nat := 200

def isTerminalCmsJobStatus (status : Option String) : Bool := status = some "succeeded" ∨ status = some "failed"

/-- The entry's `jobId`. -/
def JobRecord.id (j : JobRecord) : Option String := j.jobId.join

section

variable (localeCompare : String → String → Int)

def sortJobs (a b : JobRecord) : Int := localeCompare (b.createdAt.join.getD "") (a.createdAt.join.getD "")

def upsertJob (dismissedJobIds : List String) (jobId : String) (patch : JobRecord) (prev : List JobRecord) :
    List JobRecord :=
  let list :=
    match prev.findIdx? fun j => j.id = some jobId with
    | some idx => prev.modify idx fun j => { j.spread patch with jobId := some (some jobId) }
    | none =>
      let added : JobRecord :=
        { jobId := some (some jobId), dismissed := some (some (dismissedJobIds.contains jobId)) }
      added.spread patch :: prev
  (list.mergeSort fun a b => sortJobs localeCompare a b ≤ 0).take maxTracked

end

/-- What the `catch` of `startTracking` makes of the list. -/
def interruptJob (now jobId : String) (error : PollFailure) (prev : List JobRecord) : List JobRecord :=
  let cur := (prev.find? fun j => j.id = some jobId).getD {}
  let interrupted :=
    normalizeTrackedJob now (getCmsJobErrorResult error { cur with jobId := some (some jobId) } {}) cur
  prev.map fun j => if j.id = some jobId then j.spread interrupted else j

/-- `dismissedJobIdsRef.current.add(jobId)`, on a set in the order in which its members came. -/
def addDismissed (ids : List String) (jobId : String) : List String := if jobId ∈ ids then ids else ids ++ [jobId]

/-- The ids that are left after `persistDismissedJobIds`. -/
def persistDismissedJobIds (ids : List String) : List String := ids.drop (ids.length - maxDismissed)

def dismissJob (jobId : String) (prev : List JobRecord) : List JobRecord :=
  prev.flatMap fun job =>
    if job.id ≠ some jobId then [job]
    else if isTerminalCmsJobStatus job.jobStatus.join then []
    else [{ job with dismissed := some (some true) }]

def clearCompleted (prev : List JobRecord) : List JobRecord :=
  prev.filter fun job => !isTerminalCmsJobStatus job.jobStatus.join

end CubridWebManager.JobPolls
