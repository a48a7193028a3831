import CubridWebManager.Jobs.State

/-!
# The steps of the job system

`step cfg s a` is the state after `a` arrives in `s`, or `none` where nothing waits for it.  The four groups of calls
have a step function each: the jobs, the purges and recoveries, and the start, stop and restart actions.
-/

namespace CubridWebManager.Jobs

variable (cfg : JobConfig)

/-! ### `createJob` and `runJob` -/

/-- `hostKey/dbname`, the key of the action lock. -/
def actionLockKey (hostKey dbname : String) : String := hostKey ++ "/" ++ dbname

/-- The first of `dbnames` already in progress on `hostKey`. -/
def busyDatabase (running : Dict String String) (hostKey : String) (dbnames : List String) : Option String :=
  dbnames.find? fun dbname => (running.get? (actionLockKey hostKey dbname)).isSome

/-- The entry a job writes. -/
def JobRequest.entry (r : JobRequest) (j : JobId) : OpEntry := ⟨j, cfg.getHashedValue r.userId⟩

/-- Whether the locked section of `createJob` takes over the entry of a job with this record. -/
def isStale (existingJob : Option CmsJobRecord) : Bool :=
  match existingJob with
  | none => true
  | some job => isTerminalJobStatus job.status

/-- The queued record of a new job. -/
def JobRequest.record (r : JobRequest) (j : JobId) (now : Nat) : CmsJobRecord where
  jobId := j
  userId := r.userId
  hostUid := r.hostUid
  dbname := r.lockDbname
  type := r.type
  status := .queued
  createdAt := now
  payload := r.payload

/-- The awaited file operation, lock or timer of job `j` is done. -/
def resumeJob (s : State) (j : JobId) : Option State :=
  let r := (s.procs j).request
  match (s.procs j).pc with
  | .hostLookup =>
    some (s.setPc j (if (busyDatabase s.running r.hostKey [r.lockDbname]).isSome then .ended else .lockWait))
  | .lockWait =>
    if s.lockHolder = none then some ({ s with lockHolder := some j }.setPc j .opsRead) else none
  | .opsRead =>
    match s.globalOps.get? r.operationKey with
    | some existing => some (s.setPc j (.existingRead s.globalOps existing))
    | none => some (s.setPc j (.opsWrite (s.globalOps.set r.operationKey (r.entry cfg j)) none))
  | .existingRead ops existing =>
    if isStale (s.getJob existing.userKey existing.jobId) then
      some (s.setPc j (.opsWrite ((ops.erase r.operationKey).set r.operationKey (r.entry cfg j)) (some existing)))
    else some (s.setPc j (.unlock false))
  | .opsWrite ops _ => some ({ s with globalOps := ops }.setPc j (.unlock true))
  | .unlock passed =>
    some ({ s with lockHolder := none }.setPc j (if passed then .recordSave (r.record j s.now) else .ended))
  | .recordSave record => some ((s.saveJob (cfg.getHashedValue r.userId) record).setPc j .scheduled)
  | .scheduled => some (s.setPc j .jobRead)
  | .jobRead =>
    match s.getJob (cfg.getHashedValue r.userId) j with
    | none => some (s.setPc j .ended)
    | some job => some (s.setPc j (.runningSave { job with status := .running, startedAt := some s.now }))
  | .runningSave job => some ((s.saveJob (cfg.getHashedValue r.userId) job).setPc j (.cmsCall job))
  | .uuidSave job => some ((s.saveJob (cfg.getHashedValue r.userId) job).setPc j (.cmsCall job))
  | .outcomeSave job => some ((s.saveJob (cfg.getHashedValue r.userId) job).setPc j .releaseWait)
  | .releaseWait =>
    if s.lockHolder = none then some ({ s with lockHolder := some j }.setPc j .releaseRead) else none
  | .releaseRead =>
    if (s.globalOps.get? r.operationKey).any fun e => e.jobId = j then
      some (s.setPc j (.releaseWrite (s.globalOps.erase r.operationKey)))
    else some (s.setPc j .releaseUnlock)
  | .releaseWrite ops => some ({ s with globalOps := ops }.setPc j .releaseUnlock)
  | .releaseUnlock => some ({ s with lockHolder := none }.setPc j .ended)
  | .absent | .cmsCall _ | .followUps _ | .ended => none

/-- The outcome is complete: `finally` stores it. -/
def State.finishJob (s : State) (j : JobId) (job : CmsJobRecord) : State :=
  s.setPc j (.outcomeSave { job with finishedAt := some s.now })

/-- The `catch` of `runJob`. -/
def failJob (job : CmsJobRecord) (message : String) : CmsJobRecord :=
  { job with status := .failed, error := some message }

/-- The awaited operation of job `j` fails.  An error under the lock releases it (`withLock`); a release error is only
logged. -/
def rejectJob (s : State) (j : JobId) (message : String) : Option State :=
  match (s.procs j).pc with
  | .hostLookup | .lockWait | .recordSave _ | .jobRead | .runningSave _ | .outcomeSave _ | .releaseWait =>
    some (s.setPc j .ended)
  | .opsRead | .existingRead _ _ | .opsWrite _ _ => some (s.setPc j (.unlock false))
  | .cmsCall job | .uuidSave job | .followUps job => some (s.finishJob j (failJob job message))
  | .releaseRead | .releaseWrite _ => some (s.setPc j .releaseUnlock)
  | .absent | .unlock _ | .scheduled | .releaseUnlock | .ended => none

/-- `onUuid`: the uuid of the CMS task is stored as soon as CMS returns it. -/
def receiveUuid (s : State) (j : JobId) (uuid : String) : Option State :=
  match (s.procs j).pc with
  | .cmsCall job =>
    if job.cmsUuid = some uuid then some s
    else some (s.setPc j (.uuidSave { job with cmsUuid := some uuid }))
  | _ => none

def receiveAnswer (s : State) (j : JobId) (outcome : CmsOutcome) : Option State :=
  match (s.procs j).pc with
  | .cmsCall job =>
    match outcome with
    | .succeeded _ => some (s.setPc j (.followUps (applyCmsOutcome job outcome)))
    | .failed _ => some (s.finishJob j (applyCmsOutcome job outcome))
  | _ => none

def finishFollowUps (s : State) (j : JobId) (warnings : List String) (startInfo : Option String) : Option State :=
  match (s.procs j).pc with
  | .followUps job =>
    let result := if job.type = .rename ∨ job.type = .copy then startInfo.or job.result else job.result
    some (s.finishJob j { job with warnings := job.warnings ++ warnings, result := result })
  | _ => none

def startJob (s : State) (request : JobRequest) : State :=
  { s with
    nextJob := s.nextJob + 1
    procs := Function.update s.procs s.nextJob ⟨request, .hostLookup⟩ }

/-! ### The purge and the orphan recovery -/

/-- `removeJobIdFromGlobalOperations` on the map it read. -/
def removeJobId (ops : GlobalOps) (jobId : JobId) : GlobalOps := ops.filter fun _ e => e.jobId ≠ jobId

/-- The purge goes on to its next file, or to the next user. -/
def PurgeCursor.next (c : PurgeCursor) : SweepPc :=
  match c.files with
  | j :: rest => .purgeRead { c with files := rest } j
  | [] => if c.users = [] then .idle else .purgeDir c.now c.users

def isActiveJobStatus (job : CmsJobRecord) : Bool := job.status = .queued ∨ job.status = .running

/-- The orphans of the user whose files are all read, newest first. -/
def RecoveryCursor.userOrphans (c : RecoveryCursor) : List (String × CmsJobRecord) :=
  ((c.jobs.mergeSort fun a b => b.createdAt ≤ a.createdAt).filter isActiveJobStatus).map fun job => (c.user, job)

/-- The record of an orphan that is given up on. -/
def interruptedJob (job : CmsJobRecord) (now : Nat) : CmsJobRecord :=
  { failJob job "Job interrupted because the API server restarted." with
    finishedAt := some (job.finishedAt.getD now) }

/-- The recovery goes on to its next orphan. -/
def nextOrphan (now : Nat) : List (String × CmsJobRecord) → SweepPc
  | [] => .idle
  | (user, job) :: rest =>
    if job.cmsUuid = none ∨ job.type = .create then
      .orphanSave { rest := rest, user := user, job := interruptedJob job now, reconciled := false }
    else .reconcile rest user job

/-- The recovery goes on to its next file, the next user, or the orphans it found. -/
def RecoveryCursor.next (c : RecoveryCursor) (now : Nat) : SweepPc :=
  match c.files with
  | j :: rest => .recoveryRead { c with files := rest } j
  | [] =>
    if c.users = [] then nextOrphan now (c.orphans ++ c.userOrphans)
    else .recoveryDir c.users (c.orphans ++ c.userOrphans)

/-- The awaited file operation of a purge or recovery is done. -/
def resumeSweep (s : State) (p : Nat) : Option State :=
  match s.sweeps p with
  | .purgeRead c j =>
    match s.getJob c.user j with
    | none => some (s.setSweep p (.purgeUnlink c j false))
    | some job =>
      some (s.setSweep p (if shouldRemove cfg c.now job then .purgeUnlink c j true else c.next))
  | .purgeUnlink c j removeEntries =>
    some ({ s with files := s.files.erase (c.user, j) }.setSweep p
      (if removeEntries then .purgeUserOps c j else c.next))
  | .purgeUserOps c j => some (s.setSweep p (.purgeGlobalRead c j))
  | .purgeGlobalRead c j =>
    if removeJobId s.globalOps j = s.globalOps then some (s.setSweep p c.next)
    else some (s.setSweep p (.purgeGlobalWrite c j (removeJobId s.globalOps j)))
  | .purgeGlobalWrite c _ ops => some ({ s with globalOps := ops }.setSweep p c.next)
  | .recoveryRead c j =>
    some (s.setSweep p ({ c with jobs := c.jobs ++ (s.getJob c.user j).toList }.next s.now))
  | .orphanSave c => some ((s.saveJob c.user c.job).setSweep p (.orphanUserOps c))
  | .orphanUserOps c => some (s.setSweep p (.orphanGlobalRead c))
  | .orphanGlobalRead c =>
    if removeJobId s.globalOps c.job.jobId = s.globalOps then some (s.setSweep p (nextOrphan s.now c.rest))
    else some (s.setSweep p (.orphanGlobalWrite c (removeJobId s.globalOps c.job.jobId)))
  | .orphanGlobalWrite c ops => some ({ s with globalOps := ops }.setSweep p (nextOrphan s.now c.rest))
  | .idle | .purgeRoot _ | .purgeDir _ _ | .recoveryRoot | .recoveryDir _ _ | .reconcile _ _ _ => none

/-- An error while an orphan is finalized: the first time it counts as not reconciled and the job is failed, after
that the recovery stops. -/
def OrphanCursor.reject (c : OrphanCursor) (now : Nat) : SweepPc :=
  if c.reconciled then .orphanSave { c with job := interruptedJob c.job now, reconciled := false } else .idle

/-- The awaited operation of a purge or recovery fails. -/
def rejectSweep (s : State) (p : Nat) : Option State :=
  match s.sweeps p with
  | .purgeRead c j => some (s.setSweep p (.purgeUnlink c j false))
  | .purgeUnlink c _ removeEntries => some (s.setSweep p (if removeEntries then .idle else c.next))
  | .purgeDir now (_ :: users) => some (s.setSweep p (PurgeCursor.next ⟨now, users, "", []⟩))
  | .purgeRoot _ | .purgeDir _ [] | .purgeUserOps _ _ | .purgeGlobalRead _ _ | .purgeGlobalWrite _ _ _
  | .recoveryRoot | .recoveryDir _ _ => some (s.setSweep p .idle)
  | .recoveryRead c _ => some (s.setSweep p (c.next s.now))
  | .reconcile rest user job =>
    some (s.setSweep p (.orphanSave
      { rest := rest, user := user, job := interruptedJob job s.now, reconciled := false }))
  | .orphanSave c | .orphanUserOps c | .orphanGlobalRead c | .orphanGlobalWrite c _ =>
    some (s.setSweep p (c.reject s.now))
  | .idle => none

/-- `readdir(root)` answers: the user directories, in any order. -/
def receiveUsers (s : State) (p : Nat) (users : List String) : Option State :=
  if users.Perm s.userKeys then
    match s.sweeps p with
    | .purgeRoot now => some (s.setSweep p (PurgeCursor.next ⟨now, users, "", []⟩))
    | .recoveryRoot => some (s.setSweep p (RecoveryCursor.next ⟨users, "", [], [], []⟩ s.now))
    | _ => none
  else none

/-- `readdir` of the first user's directory answers: its job files, in any order. -/
def receiveFiles (s : State) (p : Nat) (files : List JobId) : Option State :=
  match s.sweeps p with
  | .purgeDir now (user :: users) =>
    if files.Perm (s.jobFiles user) then some (s.setSweep p (PurgeCursor.next ⟨now, users, user, files⟩)) else none
  | .recoveryDir (user :: users) orphans =>
    if files.Perm (s.jobFiles user) then
      some (s.setSweep p (RecoveryCursor.next ⟨users, user, files, [], orphans⟩ s.now))
    else none
  | _ => none

/-- The outcome of an orphan's CMS task is known. -/
def receiveOutcome (s : State) (p : Nat) (outcome : CmsOutcome) : Option State :=
  match s.sweeps p with
  | .reconcile rest user job =>
    let done := applyCmsOutcome job outcome
    some (s.setSweep p (.orphanSave
      { rest := rest, user := user, job := { done with finishedAt := some (job.finishedAt.getD s.now) },
        reconciled := true }))
  | _ => none

/-! ### Start, stop and restart -/

namespace ActionProc

/-- The check passed: a single action is already holding its database, the others take their hold now. -/
def checked (a : ActionProc) : ActionProc :=
  match a.kind with
  | .single _ => { a with pc := .acting }
  | .selected dbnames => { a with pc := .holdHost dbnames.eraseDups }
  | .all _ => { a with pc := .haList }

/-- The check goes on to the next entry of the host. -/
def checkNext (a : ActionProc) : List (OperationKey × OpEntry) → ActionProc
  | [] => a.checked
  | e :: rest => { a with pc := .checkJob e rest }

end ActionProc

/-- `withDatabaseActionLock` takes `dbnames`, none of which is busy. -/
def hold (running : Dict String String) (hostKey action : String) (dbnames : List String) : Dict String String :=
  dbnames.foldl (fun m dbname => m.set (actionLockKey hostKey dbname) action) running

/-- The `finally` of `withDatabaseActionLock`. -/
def unhold (running : Dict String String) (hostKey : String) (dbnames : List String) : Dict String String :=
  dbnames.foldl (fun m dbname => m.erase (actionLockKey hostKey dbname)) running

/-- The action returns or throws: what it holds is released. -/
def State.endAction (s : State) (x : Nat) : State :=
  let a := s.actions x
  { s with running := unhold s.running a.hostKey a.held }.setAction x { a with held := [], pc := .ended }

def startAction (s : State) (hostKey action : String) (kind : ActionKind) : State :=
  let pc := match kind with
    | .single dbname => .holdHost [dbname]
    | .selected _ | .all _ => .checkHost
  { s with nextAction := s.nextAction + 1 }.setAction s.nextAction ⟨hostKey, action, kind, [], pc⟩

def resumeAction (s : State) (x : Nat) : Option State :=
  let a := s.actions x
  match a.pc with
  | .checkHost => some (s.setAction x { a with pc := .checkOps })
  | .checkOps => some (s.setAction x (a.checkNext (s.globalOps.entries.filter fun e => e.1.hostKey = a.hostKey)))
  | .checkJob e rest =>
    match s.getJob e.2.userKey e.2.jobId with
    | some job =>
      if isTerminalJobStatus job.status then some (s.setAction x (a.checkNext rest)) else some (s.endAction x)
    | none => some (s.setAction x (a.checkNext rest))
  | .holdHost dbnames =>
    let names := dbnames.eraseDups
    if (busyDatabase s.running a.hostKey names).isSome then some (s.endAction x)
    else
      let s := { s with running := hold s.running a.hostKey a.action names }
      match a.kind with
      | .single _ => some (s.setAction x { a with held := names, pc := .checkHost })
      | .selected _ | .all _ => some (s.setAction x { a with held := names, pc := .acting })
  | .absent | .haList | .acting | .ended => none

def receiveHaList (s : State) (x : Nat) (haDbNames : List String) : Option State :=
  let a := s.actions x
  match a.pc, a.kind with
  | .haList, .all dbnames => some (s.setAction x { a with pc := .holdHost (haDbNames ++ dbnames) })
  | _, _ => none

/-- The action returns, or what it waits for fails. -/
def finishAction (s : State) (x : Nat) : Option State :=
  match (s.actions x).pc with
  | .absent | .ended => none
  | _ => some (s.endAction x)

/-! ### All steps -/

def step (s : State) : Act → Option State
  | .tick ms => some { s with now := s.now + ms }
  | .createJob request => some (startJob s request)
  | .jobResume j => resumeJob cfg s j
  | .jobReject j message => rejectJob s j message
  | .cmsUuid j uuid => receiveUuid s j uuid
  | .cmsAnswer j outcome => receiveAnswer s j outcome
  | .followedUp j warnings startInfo => finishFollowUps s j warnings startInfo
  | .purge p => if s.sweeps p matches .idle then some (s.setSweep p (.purgeRoot s.now)) else none
  | .recover p => if s.sweeps p matches .idle then some (s.setSweep p .recoveryRoot) else none
  | .listUsers p users => receiveUsers s p users
  | .listFiles p files => receiveFiles s p files
  | .sweepResume p => resumeSweep cfg s p
  | .sweepReject p => rejectSweep s p
  | .reconciled p outcome => receiveOutcome s p outcome
  | .startAction hostKey action kind => some (startAction s hostKey action kind)
  | .actionResume x => resumeAction s x
  | .actionHaList x haDbNames => receiveHaList s x haDbNames
  | .actionEnd x => finishAction s x

/-- The API server has just started: no call is in progress and no lock is held.  The store is any earlier server's,
every file under its job's own id, and no id in it is drawn again. -/
structure Init (s : State) : Prop where
  procs : ∀ j, (s.procs j).pc = .absent
  sweeps : ∀ p, s.sweeps p = .idle
  actions : ∀ x, (s.actions x).pc = .absent
  held : ∀ x, (s.actions x).held = []
  lock : s.lockHolder = none
  running : s.running = Dict.empty
  fileIds : ∀ u j job, s.getJob u j = some job → job.jobId = j ∧ j < s.nextJob
  opIds : ∀ k e, s.globalOps.get? k = some e → e.jobId < s.nextJob

/-- The first start ever, with an empty store. -/
def State.empty : State where
  now := 0
  nextJob := 0
  files := Dict.empty
  globalOps := Dict.empty
  lockHolder := none
  procs _ := ⟨⟨"", "", "", .check, "", {}⟩, .absent⟩
  sweeps _ := .idle
  running := Dict.empty
  nextAction := 0
  actions _ := ⟨"", "", .all [], [], .absent⟩

theorem Init.empty : Init State.empty :=
  ⟨fun _ => rfl, fun _ => rfl, fun _ => rfl, fun _ => rfl, rfl, rfl, by simp [State.empty, State.getJob], by simp [State.empty]⟩

/-- The settings of the runs on fixed inputs: ids for hashes, a week and an hour. -/
def plainConfig : JobConfig := ⟨id, 604800000, 3600000⟩

def compactRequest (dbname : String) : JobRequest := ⟨"dba", "host1", "10.0.0.1:8001", .compact, dbname, {}⟩

/-- Job `j` goes on over `n` awaits. -/
def resumes (j : JobId) (n : Nat) : List Act := List.replicate n (.jobResume j)

end CubridWebManager.Jobs
