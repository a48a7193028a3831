import CubridWebManager.Lib.Json
import CubridWebManager.Lib.JsText
import CubridWebManager.Lib.Run

/-!
# Asynchronous tasks of CMS

A task that CMS may run asynchronously is submitted by `executeAsyncCmsJobRequest`, or asked about again by
`tryReconcileOrphanedJob` after a restart; both then leave it to `pollCmsAsyncJob`, which asks `gettaskstatus` until the
answer is final.  A task is given by the point it waits at, with the live local variables of the poller, and by what it
has sent, been answered and reported so far.  `lower` stands for `toLowerCase`.
-/

namespace Json

/-- `v?.[key]`, for a key that is no property of all values. -/
def prop? (v : Json) (key : String) : Option Json := v.ownFields.get? key

end Json

namespace CubridWebManager.CmsTask

/-! ### The answers of CMS -/

/-- `t.includes(part)` -/
def includes (t part : Text) : Bool := part <:+: t

/-- `.replace(/<end>\s*$/i, '')` -/
def dropEndMark (t : Text) : Text :=
  let rest := Text.trimEnd t
  if (rest.drop (rest.length - 5)).map Char.toLower = "<end>".toList then rest.take (rest.length - 5) else t

variable (lower : Text → Text)

def isInvalidTokenError (response : Json) : Bool :=
  match response.prop? "note" with
  | some (.str note) =>
    let lowerNote := lower (dropEndMark note.toList).trim
    includes lowerNote "invalid token".toList && includes lowerNote "reconnect".toList
  | _ => false

def isRunning (response : Json) : Bool :=
  match response.prop? "job-status" with
  | some (.str status) => status = "running"
  | _ => false

/-- The condition of the loop of `pollCmsAsyncJob`. -/
def keepsPolling (response : Json) : Bool := isRunning response || isInvalidTokenError lower response

/-! ### The limits -/

def cmsAsyncJobPollIntervalMs : Nat := 3000

def cmsAsyncJobFirstPollIntervalMs : Nat := 500

def cmsJobLongTimeoutHoursDefault : Nat := 12

/-- `getLongJobCmsTimeoutMs`, the variable `CMS_JOB_LONG_TIMEOUT_HOURS` being unset or a whole number of hours. -/
def getLongJobCmsTimeoutMs (hours? : Option Nat) : Nat :=
  let hours := hours?.getD cmsJobLongTimeoutHoursDefault
  if hours = 0 then cmsJobLongTimeoutHoursDefault * 60 * 60 * 1000 else hours * 60 * 60 * 1000

/-! ### The state of a task -/

/-- What `findHostInternal` answers, as far as a request needs it. -/
structure Host where
  address : String
  port : Nat
  token : Option String
  deriving DecidableEq

/-- The body of a request: `{ ...cmsRequest, token, async: 'yes' }` or `{ task: 'gettaskstatus', token, uuid }`. -/
inductive Body
  | submit (token : String)
  | gettaskstatus (token : String) (uuid : Option Json)

structure Post where
  url : String
  body : Body

def Host.url (host : Host) : String := s!"https://{host.address}:{host.port}/cm_api"

/-- Where the task comes from: `executeAsyncCmsJobRequest`, with or without `onUuid`, or `tryReconcileOrphanedJob`, with
the uuid that the job record persisted; a record without one is not asked about. -/
inductive Entry
  | submitted (onUuid : Bool)
  | reattached (cmsUuid : String) (huuid : cmsUuid ≠ "")
  deriving DecidableEq

/-- The local variables of `pollCmsAsyncJob`. -/
structure Poll where
  deadline : Nat
  currentUuid : Option Json
  uuidReported : Bool
  polls : Nat

/-- Where a task waits. -/
inductive Pc
  /-- `await findHostInternal`, before the first request. -/
  | hostLookup
  /-- The first request: the submission, or the `gettaskstatus` of `tryReconcileOrphanedJob`. -/
  | firstPost
  /-- `await options.onUuid(..)`. -/
  | report (response : Json) (p : Poll)
  /-- `await sleep(..)`. -/
  | sleep (wakeAt : Nat) (p : Poll)
  /-- `await findHostInternal` of a poll. -/
  | pollHost (p : Poll)
  /-- The `gettaskstatus` of a poll. -/
  | pollPost (p : Poll)
  | returned (response : Json) (polls : Nat)
  | threw (message : String)

structure Task where
  entry : Entry
  /-- The name of the task, for the error of `pollCmsAsyncJob`. -/
  task : String
  pc : Pc
  /-- The requests sent, in order. -/
  sent : List Post
  /-- The answers that came, in order. -/
  answers : List Json
  /-- The uuids `onUuid` was called with, as text. -/
  reported : List Json

/-! ### The steps of a task -/

namespace Task

variable (timeoutMs now : Nat) (t : Task)

/-- The condition of the loop is tested. -/
def loop (response : Json) (p : Poll) : Task :=
  if keepsPolling lower response then
    if p.deadline < now then
      { t with pc := .threw s!"CMS async job for task \"{t.task}\" did not finish within {timeoutMs}ms." }
    else
      let interval := if p.polls = 0 then cmsAsyncJobFirstPollIntervalMs else cmsAsyncJobPollIntervalMs
      { t with pc := .sleep (now + interval) p }
  else { t with pc := .returned response p.polls }

/-- `reportUuidIfNew`, and on to the loop where there is nothing to report. -/
def reportUuidIfNew (response : Json) (p : Poll) : Task :=
  match p.uuidReported, p.currentUuid, t.entry with
  | false, some uuid, .submitted true =>
    if uuid.truthy then
      { t with pc := .report response { p with uuidReported := true }, reported := t.reported ++ [uuid] }
    else t.loop lower timeoutMs now response p
  | _, _, _ => t.loop lower timeoutMs now response p

/-- `if (response?.uuid) currentUuid = response.uuid` -/
def nextUuid (response : Json) (p : Poll) : Poll :=
  match response.prop? "uuid" with
  | some uuid => if uuid.truthy then { p with currentUuid := some uuid } else p
  | none => p

def send (host : Host) (body : Body) : Task := { t with sent := t.sent ++ [⟨host.url, body⟩] }

/-- The host is found: the request goes out. -/
def receiveHost (host : Host) : Option Task :=
  let token := host.token.getD ""
  match t.pc with
  | .hostLookup =>
    match t.entry with
    | .submitted _ => some { t.send host (.submit token) with pc := .firstPost }
    | .reattached cmsUuid _ => some { t.send host (.gettaskstatus token (some (.str cmsUuid))) with pc := .firstPost }
  | .pollHost p => some { t.send host (.gettaskstatus token p.currentUuid) with pc := .pollPost p }
  | _ => none

/-- CMS answers. -/
def receiveAnswer (response : Json) : Option Task :=
  let t' := { t with answers := t.answers ++ [response] }
  match t.pc with
  | .firstPost =>
    some (t'.reportUuidIfNew lower timeoutMs now response ⟨now + timeoutMs, response.prop? "uuid", false, 0⟩)
  | .pollPost p => some (t'.reportUuidIfNew lower timeoutMs now response (nextUuid response p))
  | _ => none

/-- The timer of the sleep fires; it never does so early. -/
def wake : Option Task :=
  match t.pc with
  | .sleep wakeAt p => if wakeAt ≤ now then some { t with pc := .pollHost { p with polls := p.polls + 1 } } else none
  | _ => none

/-- `onUuid` is done. -/
def receiveReported : Option Task :=
  match t.pc with
  | .report response p => some (t.loop lower timeoutMs now response p)
  | _ => none

/-- What the task waits for throws. -/
def reject (message : String) : Option Task :=
  match t.pc with
  | .hostLookup | .firstPost | .report _ _ | .pollHost _ | .pollPost _ => some { t with pc := .threw message }
  | .sleep _ _ | .returned _ _ | .threw _ => none

end Task

/-- What arrives for a task. -/
inductive Event
  | host (host : Host)
  | answer (response : Json)
  | wake
  | reported
  | fail (message : String)

def Task.step (timeoutMs now : Nat) (t : Task) : Event → Option Task
  | .host host => t.receiveHost host
  | .answer response => t.receiveAnswer lower timeoutMs now response
  | .wake => t.wake now
  | .reported => t.receiveReported lower timeoutMs now
  | .fail message => t.reject message

/-- A task that has not sent anything yet. -/
def Task.start (entry : Entry) (task : String) : Task := ⟨entry, task, .hostLookup, [], [], []⟩

/-! ### A task with its clock -/

structure State where
  now : Nat
  task : Task

inductive Act
  | tick (ms : Nat)
  | event (e : Event)

def step (timeoutMs : Nat) (s : State) : Act → Option State
  | .tick ms => some { s with now := s.now + ms }
  | .event e => (s.task.step lower timeoutMs s.now e).map fun t => { s with task := t }

end CubridWebManager.CmsTask
