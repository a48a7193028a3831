import CubridWebManager.Jobs.Types

/-!
# The state of the job system

The files of the job store, the lock `jobs-ops-global`, the memory of the API server, and every call in progress: the
`createJob` calls with the workers they schedule, the purges, the orphan recoveries, and the start, stop and restart
actions on databases.  A call in progress is given by the point it waits at, with its live local variables, so a step
of the system is the code between two awaits: the awaited result arrives and the call runs on to its next await.

A file operation takes effect when its result arrives.  `saveJob` writes a temporary file and renames it, so only the
rename is visible; `operations/<userKey>.json` is read and written by nothing but the cleanup of old entries in it,
so it is left out and its cleanup is an await without effect here.
-/

namespace CubridWebManager.Jobs

/-- Where a `createJob` call or the worker it scheduled waits. -/
inductive JobPc
  | absent
  /-- `await this.hostKey(..)`. -/
  | hostLookup
  /-- `withLock`: the lock is requested. -/
  | lockWait
  /-- `await readGlobalOperations()`, under the lock. -/
  | opsRead
  /-- `await getJob(existing.userKey, existing.jobId)`, under the lock. -/
  | existingRead (ops : GlobalOps) (existing : OpEntry)
  /-- `await writeGlobalOperations(ops)`, under the lock; `existing` is the stale entry it replaces. -/
  | opsWrite (ops : GlobalOps) (existing : Option OpEntry)
  /-- The release of the lock, after the section returned or threw. -/
  | unlock (passed : Bool)
  /-- `await saveJob(uKey, record)`, the record being queued. -/
  | recordSave (record : CmsJobRecord)
  /-- `setImmediate`: the worker has not run yet. -/
  | scheduled
  /-- `runJob`: `await getJob(uKey, jobId)`. -/
  | jobRead
  /-- `await saveJob`, the status being running. -/
  | runningSave (job : CmsJobRecord)
  /-- `await executeCmsForJob`. -/
  | cmsCall (job : CmsJobRecord)
  /-- `onUuid`: `await saveJob` with the task's uuid. -/
  | uuidSave (job : CmsJobRecord)
  /-- `await followUpAfterSuccess` and the list refresh. -/
  | followUps (job : CmsJobRecord)
  /-- `finally`: `await saveJob` with the outcome. -/
  | outcomeSave (job : CmsJobRecord)
  /-- `finally`: `withLock`, the lock is requested. -/
  | releaseWait
  | releaseRead
  | releaseWrite (ops : GlobalOps)
  | releaseUnlock
  | ended

/-- A `createJob` call and its worker. -/
structure JobProc where
  request : JobRequest
  pc : JobPc

/-- The position of `purgeExpiredJobs` in its two loops: the clock it read, the users left, the current user and the
files left of that user. -/
structure PurgeCursor where
  now : Nat
  users : List String
  user : String
  files : List JobId

/-- The position of the startup recovery in listing the orphans. -/
structure RecoveryCursor where
  users : List String
  user : String
  files : List JobId
  jobs : List CmsJobRecord
  orphans : List (String × CmsJobRecord)

/-- An orphan being finalized: the orphans left after it, and whether `tryReconcileOrphanedJob` is what finalizes it
(an error then makes the recovery finalize the job again, as failed). -/
structure OrphanCursor where
  rest : List (String × CmsJobRecord)
  user : String
  job : CmsJobRecord
  reconciled : Bool

/-- Where a purge or an orphan recovery waits. -/
inductive SweepPc
  | idle
  /-- `await readdir(root)`. -/
  | purgeRoot (now : Nat)
  /-- `await stat` and `await readdir` of the first user's directory. -/
  | purgeDir (now : Nat) (users : List String)
  /-- `await readFile` of a job file. -/
  | purgeRead (c : PurgeCursor) (jobId : JobId)
  /-- `await unlink`; `removeEntries` is false for an unreadable file. -/
  | purgeUnlink (c : PurgeCursor) (jobId : JobId) (removeEntries : Bool)
  /-- `await removeJobIdFromOperations`. -/
  | purgeUserOps (c : PurgeCursor) (jobId : JobId)
  /-- `removeJobIdFromGlobalOperations`: `await readGlobalOperations()`. -/
  | purgeGlobalRead (c : PurgeCursor) (jobId : JobId)
  | purgeGlobalWrite (c : PurgeCursor) (jobId : JobId) (ops : GlobalOps)
  /-- `listOrphanedActiveJobs`: `await readdir(root)`. -/
  | recoveryRoot
  | recoveryDir (users : List String) (orphans : List (String × CmsJobRecord))
  | recoveryRead (c : RecoveryCursor) (jobId : JobId)
  /-- `await tryReconcileOrphanedJob`: the task's real outcome is asked for. -/
  | reconcile (rest : List (String × CmsJobRecord)) (user : String) (job : CmsJobRecord)
  /-- `finalizeOrphanedJob`: `await saveJob`. -/
  | orphanSave (c : OrphanCursor)
  | orphanUserOps (c : OrphanCursor)
  | orphanGlobalRead (c : OrphanCursor)
  | orphanGlobalWrite (c : OrphanCursor) (ops : GlobalOps)

/-- Which databases a start, stop or restart is asked for. -/
inductive ActionKind
  | single (dbname : String)
  | selected (dbnames : List String)
  | all (dbnames : List String)
  deriving DecidableEq

/-- Where a start, stop or restart action waits. -/
inductive ActionPc
  | absent
  /-- `hasActiveJobForHost`: `await this.hostKey(..)`. -/
  | checkHost
  /-- `await readGlobalOperations()`. -/
  | checkOps
  /-- `await getJob` for an entry of the host, with the entries left. -/
  | checkJob (entry : OperationKey × OpEntry) (rest : List (OperationKey × OpEntry))
  /-- `await getHaDbNames` of an all-database action. -/
  | haList
  /-- `holdingDatabases`: `await findHostInternal`. -/
  | holdHost (dbnames : List String)
  /-- Past the check and holding the databases: the requests to CMS. -/
  | acting
  | ended
  deriving DecidableEq

/-- A start, stop or restart action; `held` are the databases it holds in the action lock. -/
structure ActionProc where
  hostKey : String
  action : String
  kind : ActionKind
  held : List String
  pc : ActionPc

structure State where
  now : Nat
  /-- The next id `uuidv4` gives. -/
  nextJob : JobId
  /-- `jobs/<userKey>/<jobId>.json`. -/
  files : Dict (String × JobId) CmsJobRecord
  /-- `jobs/operations/_global.json`. -/
  globalOps : GlobalOps
  /-- The holder of the lock `jobs-ops-global`. -/
  lockHolder : Option JobId
  procs : JobId → JobProc
  sweeps : Nat → SweepPc
  /-- The action lock: `hostKey/dbname` to the action that holds it. -/
  running : Dict String String
  nextAction : Nat
  actions : Nat → ActionProc

/-- What arrives next. -/
inductive Act
  | tick (ms : Nat)
  | createJob (request : JobRequest)
  /-- The awaited operation of a job call or its worker succeeds. -/
  | jobResume (j : JobId)
  /-- It fails with an error of this message. -/
  | jobReject (j : JobId) (message : String)
  /-- CMS returns the task's uuid. -/
  | cmsUuid (j : JobId) (uuid : String)
  /-- CMS answers the job's task. -/
  | cmsAnswer (j : JobId) (outcome : CmsOutcome)
  /-- The follow-ups end, with warnings and (for a rename or copy) the refreshed list. -/
  | followedUp (j : JobId) (warnings : List String) (startInfo : Option String)
  | purge (p : Nat)
  | recover (p : Nat)
  /-- `readdir(root)` answers these users. -/
  | listUsers (p : Nat) (users : List String)
  /-- `readdir` of the first user's directory answers these files. -/
  | listFiles (p : Nat) (files : List JobId)
  | sweepResume (p : Nat)
  | sweepReject (p : Nat)
  /-- CMS tells the outcome of an orphan's task. -/
  | reconciled (p : Nat) (outcome : CmsOutcome)
  | startAction (hostKey action : String) (kind : ActionKind)
  | actionResume (x : Nat)
  /-- `getHaDbNames` answers these databases. -/
  | actionHaList (x : Nat) (haDbNames : List String)
  /-- The action returns or throws. -/
  | actionEnd (x : Nat)

namespace State

variable (s : State)

def setPc (j : JobId) (pc : JobPc) : State :=
  { s with procs := Function.update s.procs j { s.procs j with pc := pc } }

def setSweep (p : Nat) (pc : SweepPc) : State := { s with sweeps := Function.update s.sweeps p pc }

def setAction (x : Nat) (a : ActionProc) : State := { s with actions := Function.update s.actions x a }

def saveJob (userKey : String) (job : CmsJobRecord) : State :=
  { s with files := s.files.set (userKey, job.jobId) job }

def getJob (userKey : String) (jobId : JobId) : Option CmsJobRecord := s.files.get? (userKey, jobId)

/-- The user directories that hold a job file. -/
def userKeys : List String := (s.files.keys.map Prod.fst).dedup

def jobFiles (userKey : String) : List JobId := (s.files.keys.filter fun k => k.1 = userKey).map Prod.snd

end State

end CubridWebManager.Jobs
