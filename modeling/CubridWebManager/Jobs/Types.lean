import CubridWebManager.Lib.Dict

/-!
# Jobs and their records

The data of the job service: job types and statuses, the request bodies as far as the job code reads them, the job
record, the operations map that every user shares, and the key a job is registered under.

The operations map is keyed by the physical host (`address:port`) and one database name, `resolveJobDbname`: the
destination of a copy, the database itself for every other type.
-/

namespace CubridWebManager.Jobs

inductive CmsJobType
  | unload | load | create | optimize | check | compact | copy | addvol | rename | delete | backupdb | restore
  deriving DecidableEq, Repr

inductive CmsJobStatus
  | queued | running | succeeded | failed
  deriving DecidableEq, Repr

def isTerminalJobStatus : CmsJobStatus → Bool
  | .succeeded | .failed => true
  | .queued | .running => false

/-- The fields of the request bodies that the job code reads; a body has those of its own type. -/
structure CmsJobPayload where
  srcdbname : String := ""
  destdbname : String := ""
  move : String := "n"
  rename : String := ""
  repairdb : String := "n"
  removelog : Option String := none
  deriving DecidableEq, Repr

/-- A job id; `uuidv4` never gives the same one twice, so ids are drawn from a counter. -/
abbrev JobId := Nat

structure CmsJobRecord where
  jobId : JobId
  userId : String
  hostUid : String
  dbname : String
  type : CmsJobType
  status : CmsJobStatus
  createdAt : Nat
  startedAt : Option Nat := none
  finishedAt : Option Nat := none
  payload : CmsJobPayload
  result : Option String := none
  warnings : List String := []
  error : Option String := none
  cmsUuid : Option String := none
  deriving DecidableEq, Repr

/-- The key of the operations map: `JSON.stringify([hostKey, dbname])`, which reads back as the same pair. -/
structure OperationKey where
  hostKey : String
  dbname : String
  deriving DecidableEq, Repr

def buildOperationKey (hostKey dbname : String) : OperationKey := ⟨hostKey, dbname⟩

def resolveJobDbname (type : CmsJobType) (dbname : String) (payload : CmsJobPayload) : String :=
  if type = .copy then payload.destdbname else dbname

/-- An entry of `operations/_global.json`. -/
structure OpEntry where
  jobId : JobId
  userKey : String
  deriving DecidableEq, Repr

abbrev GlobalOps := Dict OperationKey OpEntry

/-- The arguments of `createJob`, with the `address:port` that the host lookup answers. -/
structure JobRequest where
  userId : String
  hostUid : String
  hostKey : String
  type : CmsJobType
  dbname : String
  payload : CmsJobPayload := {}
  deriving DecidableEq, Repr

namespace JobRequest

def lockDbname (r : JobRequest) : String := resolveJobDbname r.type r.dbname r.payload

def operationKey (r : JobRequest) : OperationKey := buildOperationKey r.hostKey r.lockDbname

end JobRequest

/-- How CMS answers a job's task: the mapped result, or the failure's message. -/
inductive CmsOutcome
  | succeeded (result : String)
  | failed (message : String)
  deriving DecidableEq, Repr

def applyCmsOutcome (job : CmsJobRecord) : CmsOutcome → CmsJobRecord
  | .succeeded result => { job with status := .succeeded, result := some result }
  | .failed message => { job with status := .failed, error := some message }

/-- The deployment's settings: the hash of user ids and the two cleanup ages, in milliseconds. -/
structure JobConfig where
  getHashedValue : String → String
  jobRetentionMs : Nat
  staleRunningJobMs : Nat

/-- The age test of `purgeExpiredJobs` on a record, for a purge that read the clock at `now`. -/
def shouldRemove (cfg : JobConfig) (now : Nat) (job : CmsJobRecord) : Bool :=
  if isTerminalJobStatus job.status then decide (job.finishedAt.getD job.createdAt + cfg.jobRetentionMs ≤ now)
  else decide (job.createdAt + cfg.staleRunningJobMs ≤ now)

end CubridWebManager.Jobs
