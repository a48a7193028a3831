import CubridWebManager.Lib.Dict
import CubridWebManager.Lib.Run
import Mathlib.Algebra.GroupWithZero.Nat
import Mathlib.Logic.Function.Basic

/-!
# The polls of CMS jobs

The web client polls a job until it has succeeded or failed.  `pollCmsJob` makes the status requests, one after another
with a timer between them; `runCmsJobInBackground` keeps the poll of each job in the registry `activePolls`, so that
further callers share it and so that it can be cancelled.

A poll is given by what its loop waits for and by its two promises, the inner one of `pollCmsJob` and the outer one that
the callers have.  `onUpdate` is code of the callers, which may itself run or cancel polls, so its return is a step.
-/

namespace CubridWebManager.JobPolls

/-! ### The job record -/

structure JobError where
  message : Option String := none
  deriving DecidableEq

structure Job where
  jobStatus : Option String := none
  status : Option String := none
  finishedAt : Option String := none
  error : Option JobError := none
  deriving DecidableEq

inductive Lifecycle
  | queued
  | running
  | succeeded
  | failed
  deriving DecidableEq

/-- The members of `JOB_LIFECYCLE_STATUSES`. -/
def Lifecycle.ofString? : String → Option Lifecycle
  | "queued" => some .queued
  | "running" => some .running
  | "succeeded" => some .succeeded
  | "failed" => some .failed
  | _ => none

/-- A string that is there and not empty. -/
def truthy (value : Option String) : Option String := value.filter (· ≠ "")

def resolveCmsJobStatus : Option Job → Option Lifecycle
  | none => none
  | some job =>
    let lifecycle := truthy job.jobStatus <|> job.status.filter fun status => (Lifecycle.ofString? status).isSome
    lifecycle.bind Lifecycle.ofString? <|>
      (truthy job.finishedAt).map fun _ => if job.error.isSome then .failed else .succeeded

def formatCmsJobError (job : Option Job) : String := (job.bind fun j => j.error.bind fun e => truthy e.message).getD "Job failed"

/-! ### The polls -/

def pollMaxRetries : Nat := 3

def pollMinIntervalMs : Nat := 2000

def pollMaxIntervalMs : Nat := 30000

def adaptiveInterval (startedAt now : Nat) : Nat :=
  min (pollMinIntervalMs * 2 ^ ((now - startedAt) / (5 * 60 * 1000))) pollMaxIntervalMs

inductive PollError
  | terminalFailure (message : String) (job : Option Job)
  | statusUnavailable (message : String) (jobId : String) (lastKnownJob : Option Job)
  | cancelled
  deriving DecidableEq

inductive PollResult
  | resolved (job : Option Job)
  | rejected (error : PollError)
  deriving DecidableEq

/-- What the loop of a poll waits for. -/
inductive Loop
  /-- `await databaseJobApi.getJob(jobId)` -/
  | requesting
  /-- The return of `onUpdate`. -/
  | updating (job : Option Job)
  /-- The timer, or nothing any more. -/
  | idle
  deriving DecidableEq

structure Poll where
  jobId : String
  cancelled : Bool
  /-- When the timer goes off, if it is set. -/
  timer : Option Nat
  loop : Loop
  consecutiveErrors : Nat
  lastKnownJob : Option Job
  pollStartedAt : Nat
  /-- The promise of `pollCmsJob`, and whether its handlers have run. -/
  inner : Option PollResult
  handled : Bool
  /-- The promise of `runCmsJobInBackground`. -/
  outer : Option PollResult

/-- A promise takes the first result it gets. -/
def settleOnce (promise : Option PollResult) (result : PollResult) : Option PollResult := some (promise.getD result)

namespace Poll

variable (p : Poll)

/-- `cancel` of `pollCmsJob`. -/
def cancel : Poll := { p with cancelled := true, timer := none }

/-- `entry.cancel()` and `entry.reject(CANCELLED_ERROR)`. -/
def abandon : Poll := { p.cancel with outer := settleOnce p.outer (.rejected .cancelled) }

def finish (result : PollResult) : Poll := { p.cancel with inner := settleOnce p.inner result, loop := .idle }

/-- `timerId = setTimeout(tick, adaptiveInterval(pollStartedAt))` -/
def setTimeout (now : Nat) : Poll :=
  { p with timer := some (now + adaptiveInterval p.pollStartedAt now), loop := .idle }

/-- `tick`, up to its `await`. -/
def tick : Poll := if p.cancelled then { p with timer := none } else { p with timer := none, loop := .requesting }

/-- `tick` with the job, up to `onUpdate`. -/
def answered (job : Option Job) : Poll :=
  if p.cancelled then { p with loop := .idle }
  else { p with lastKnownJob := job, consecutiveErrors := 0, loop := .updating job }

/-- `tick` after `onUpdate`. -/
def updated (now : Nat) (job : Option Job) : Poll :=
  match resolveCmsJobStatus job with
  | some .succeeded => p.finish (.resolved job)
  | some .failed => p.finish (.rejected (.terminalFailure (formatCmsJobError job) job))
  | _ => p.setTimeout now

/-- The `catch` of `tick`. -/
def failed (now : Nat) (message : String) : Poll :=
  let p := { p with consecutiveErrors := p.consecutiveErrors + 1 }
  if pollMaxRetries ≤ p.consecutiveErrors then
    p.finish (.rejected (.statusUnavailable message p.jobId p.lastKnownJob))
  else p.setTimeout now

end Poll

structure State where
  now : Nat
  /-- The polls of the registry, by job. -/
  activePolls : Dict String Nat
  nextPoll : Nat
  polls : Nat → Poll
  /-- The status requests made so far, by poll. -/
  requests : List Nat

/-- The page has just been loaded. -/
def State.fresh (now : Nat) : State where
  now := now
  activePolls := .empty
  nextPoll := 0
  polls _ := ⟨"", true, none, .idle, 0, none, 0, none, true, none⟩
  requests := []

/-! ### The steps -/

inductive Act
  | elapse (ms : Nat)
  | runCmsJobInBackground (jobId : String)
  | cancelCmsJobPoll (jobId : String)
  | cancelAllCmsJobPolls
  | statusAnswer (i : Nat) (job : Option Job)
  | statusError (i : Nat) (message : String)
  /-- `onUpdate` returns. -/
  | updated (i : Nat)
  /-- The timer goes off. -/
  | timeout (i : Nat)
  /-- The handlers of the poll's promise. -/
  | handle (i : Nat)

namespace State

variable (s : State)

def setPoll (i : Nat) (p : Poll) : State := { s with polls := Function.update s.polls i p }

@[simp] theorem setPoll_self (i : Nat) (p : Poll) : (s.setPoll i p).polls i = p := Function.update_self ..

theorem setPoll_of_ne {i j : Nat} (h : j ≠ i) (p : Poll) : (s.setPoll i p).polls j = s.polls j := Function.update_of_ne h ..

def isCmsJobPolling (jobId : String) : Bool := (s.activePolls.get? jobId).isSome

/-- A new poll, whose first request is made at once. -/
def startPoll (jobId : String) : State :=
  { s.setPoll s.nextPoll ⟨jobId, false, none, .requesting, 0, none, s.now, none, false, none⟩ with
    activePolls := s.activePolls.set jobId s.nextPoll
    nextPoll := s.nextPoll + 1
    requests := s.requests ++ [s.nextPoll] }

def runCmsJobInBackground (jobId : String) : State :=
  match s.activePolls.get? jobId with
  | some _ => s
  | none => s.startPoll jobId

def abandon (i : Nat) : State := s.setPoll i (s.polls i).abandon

def cancelCmsJobPoll (jobId : String) : State :=
  match s.activePolls.get? jobId with
  | none => s
  | some i => { s.abandon i with activePolls := s.activePolls.erase jobId }

def cancelAllCmsJobPolls : State :=
  { (s.activePolls.entries.map Prod.snd).foldl abandon s with activePolls := .empty }

/-- The timer of the poll goes off. -/
def timeout (i : Nat) : State :=
  { s.setPoll i (s.polls i).tick with
    requests := if (s.polls i).cancelled then s.requests else s.requests ++ [i] }

/-- The handlers of the inner promise: the job's entry is deleted, and the outer promise is settled. -/
def handle (i : Nat) (result : PollResult) : State :=
  { s.setPoll i { s.polls i with handled := true, outer := settleOnce (s.polls i).outer result } with
    activePolls := s.activePolls.erase (s.polls i).jobId }

end State

def step (s : State) : Act → Option State
  | .elapse ms => some { s with now := s.now + ms }
  | .runCmsJobInBackground jobId => some (s.runCmsJobInBackground jobId)
  | .cancelCmsJobPoll jobId => some (s.cancelCmsJobPoll jobId)
  | .cancelAllCmsJobPolls => some s.cancelAllCmsJobPolls
  | .statusAnswer i job =>
    match (s.polls i).loop with
    | .requesting => some (s.setPoll i ((s.polls i).answered job))
    | _ => none
  | .statusError i message =>
    match (s.polls i).loop with
    | .requesting => some (s.setPoll i ((s.polls i).failed s.now message))
    | _ => none
  | .updated i =>
    match (s.polls i).loop with
    | .updating job => some (s.setPoll i ((s.polls i).updated s.now job))
    | _ => none
  | .timeout i =>
    match (s.polls i).timer with
    | some due => if due ≤ s.now then some (s.timeout i) else none
    | none => none
  | .handle i =>
    match (s.polls i).inner, (s.polls i).handled with
    | some result, false => some (s.handle i result)
    | _, _ => none

end CubridWebManager.JobPolls
