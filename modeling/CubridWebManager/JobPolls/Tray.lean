import CubridWebManager.JobPolls.TrackedEntries
import CubridWebManager.Lib.KeepFirst
import CubridWebManager.Lib.Run

/-!
# The job tray

The tray shows the tracked jobs that are not dismissed (`visibleJobs`).  Updates of jobs, recent jobs of the server,
polls that end with an error, the X of an entry and the Clear button come in any order; the list is sorted by the times
that the server gives and cut at each update, and the ids of dismissed jobs live in a set that is cut as well.

Beside the state of the code stand the jobs that are still running as far as the updates say, and those that the user
has dismissed.  A state is `Kept` if every one of the first is in the list and none of the second is shown.  An update
keeps that just when it is `Fine`.
-/

namespace CubridWebManager.JobPolls.Tray

open KeepFirst

/-- The job of the entry has finished. -/
def ended (job : JobRecord) : Bool := isTerminalCmsJobStatus job.jobStatus.join

def visibleJobs (jobs : List JobRecord) : List JobRecord := jobs.filter fun j => !j.dismissed.join.getD false

structure State where
  jobs : List JobRecord
  dismissedJobIds : List String
  /-- The jobs that have been put into the list and not been reported as finished since. -/
  running : List String
  /-- The jobs that the user has dismissed, with the X or with Clear. -/
  hidden : List String

/-- The page has just been loaded, with the dismissed ids of the storage. -/
def State.fresh (dismissedJobIds : List String) : State := ⟨[], dismissedJobIds, [], dismissedJobIds⟩

inductive Act
  /-- An update, running or terminal, from a submission, an answer of the poll or its end. -/
  | upsertJob (jobId : String) (patch : JobRecord)
  /-- A job of `listRecent`. -/
  | restore (jobId : String) (patch : JobRecord)
  /-- The poll has ended with an error. -/
  | interrupt (now jobId : String) (error : PollFailure)
  | dismissJob (jobId : String)
  | clearCompleted
  /-- The page is loaded again, or the user logs out. -/
  | reload

/-- What the callers put into an entry: a status, and no id but the job's. -/
def Update (jobId : String) (patch : JobRecord) : Prop :=
  Stamped jobId patch ∧ patch.status = none ∧ patch.jobStatus.join.isSome = true

instance (jobId : String) (patch : JobRecord) : Decidable (Update jobId patch) :=
  inferInstanceAs (Decidable ((_ ∨ _) ∧ _))

instance (jobId : String) (error : PollFailure) : Decidable (error.Of jobId) :=
  inferInstanceAs (Decidable ((∀ job ∈ error.job, _) ∧ ∀ job ∈ error.lastKnownJob, _))

/-- The running jobs after a report on one. -/
def report (running : List String) (jobId : String) (status : Option String) : List String :=
  if isTerminalCmsJobStatus status then running.filter (· ≠ jobId) else running.insert jobId

/-- The ids of the jobs that Clear takes away. -/
def clearedIds (jobs : List JobRecord) : List String := (jobs.filter ended).filterMap JobRecord.id

section

variable (localeCompare : String → String → Int) (s : State)

namespace State

def upsert (jobId : String) (patch : JobRecord) : State :=
  { s with
    jobs := JobPolls.upsertJob localeCompare s.dismissedJobIds jobId patch s.jobs
    running := report s.running jobId patch.jobStatus.join }

def interrupt (now jobId : String) (error : PollFailure) : State :=
  { s with
    jobs := interruptJob now jobId error s.jobs
    running :=
      match s.jobs.find? fun j => j.id = some jobId with
      | some cur => report s.running jobId (interrupted now jobId error cur).jobStatus.join
      | none => s.running }

def dismiss (jobId : String) : State :=
  { s with
    jobs := JobPolls.dismissJob jobId s.jobs
    dismissedJobIds := persistDismissedJobIds (addDismissed s.dismissedJobIds jobId)
    hidden := jobId :: s.hidden }

def clear : State :=
  { s with
    jobs := JobPolls.clearCompleted s.jobs
    dismissedJobIds := persistDismissedJobIds ((clearedIds s.jobs).foldl addDismissed s.dismissedJobIds)
    hidden := clearedIds s.jobs ++ s.hidden }

end State

def step (s : State) : Act → Option State
  | .upsertJob jobId patch => if Update jobId patch then some (s.upsert localeCompare jobId patch) else none
  | .restore jobId patch =>
    if Update jobId patch then
      some (if jobId ∈ s.dismissedJobIds then s else s.upsert localeCompare jobId patch)
    else none
  | .interrupt now jobId error => if error.Of jobId then some (s.interrupt now jobId error) else none
  | .dismissJob jobId => some (s.dismiss jobId)
  | .clearCompleted => some s.clear
  | .reload => some { s with jobs := [], running := [] }

/-! ### What the tray is for -/

/-- The entry that the sort puts last: of the oldest entries the one farthest back. -/
def Oldest (jobs : List JobRecord) (job : JobRecord) : Prop := Last (sortJobs localeCompare) jobs job

namespace State

/-- Every running job is in the list, dismissed or not, and no job that the user dismissed is shown. -/
structure Kept : Prop where
  listed : ∀ jobId ∈ s.running, ∃ job ∈ s.jobs, job.id = some jobId ∧ ended job = false
  hidden : ∀ job ∈ visibleJobs s.jobs, ∀ jobId ∈ s.hidden, job.id ≠ some jobId

def Listed (jobId : String) : Prop := ∃ job ∈ s.jobs, job.id = some jobId

/-- What a new job brings is put into a full list. -/
def Overflows (jobId : String) : Prop := ¬ s.Listed jobId ∧ s.jobs.length = maxTracked

/-- The update takes no running job out of the list, and shows no job that the user dismissed. -/
structure Fits (jobId : String) (patch : JobRecord) : Prop where
  /-- The job that leaves a full list has finished. -/
  room : s.Overflows jobId →
    ∃ job, Oldest localeCompare ((newEntry s.dismissedJobIds jobId).spread patch :: s.jobs) job ∧ ended job = true
  /-- The update says that a dismissed job stays so, or leaves that to the entry or to the set of ids, or is cut off
  again. -/
  shown : jobId ∈ s.hidden →
    patch.dismissed.join = some true ∨
      (patch.dismissed = none ∧ (s.Listed jobId ∨ jobId ∈ s.dismissedJobIds)) ∨
      (s.Overflows jobId ∧ Oldest localeCompare ((newEntry s.dismissedJobIds jobId).spread patch :: s.jobs)
        ((newEntry s.dismissedJobIds jobId).spread patch))

end State

/-- The step neither takes a running job out of the list nor shows a dismissed one. -/
def Fine (s : State) : Act → Prop
  | .upsertJob jobId patch => s.Fits localeCompare jobId patch
  | .restore jobId patch => jobId ∉ s.dismissedJobIds → s.Fits localeCompare jobId patch
  | .interrupt _ _ _ | .dismissJob _ | .clearCompleted | .reload => True

end

end CubridWebManager.JobPolls.Tray
