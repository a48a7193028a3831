import CubridWebManager.Lib.Json
import Mathlib.Logic.Function.Basic

/-!
# What the views have read of databases and brokers

The parts of the slices `databaseMonitoring`, `databaseOperation` and `broker` that cache what a read of one database or
one broker answered, and their reducers.  Some caches have a key for each database of each host (`dbKey`), some a key
for each name, and the volumes are one list.

Of an answer that is kept under a name only, the host that was asked is kept with it, so that it can be told whose it is.
-/

namespace CubridWebManager.ViewCaches

def dbKey (hostUid dbname : String) : String := hostUid ++ ":" ++ dbname

/-- `{ hostUid, dbname }` -/
structure Database where
  hostUid : String
  dbname : String
  hostUid_ne : hostUid ≠ ""
  dbname_ne : dbname ≠ ""

theorem Database.eq_iff {db db' : Database} : db.hostUid = db'.hostUid ∧ db.dbname = db'.dbname ↔ db = db' := by
  cases db
  cases db'
  simp

instance : DecidableEq Database := fun _ _ => decidable_of_iff _ Database.eq_iff

def Database.key (db : Database) : String := dbKey db.hostUid db.dbname

/-- What was answered, and the host that was asked. -/
structure Answer where
  hostUid : String
  body : Json

/-- `v || []` -/
def orEmpty : Option Json → Json
  | some v => if v.truthy then v else .arr []
  | none => .arr []

/-! ### The reads and what they are fulfilled with -/

inductive DbThunk
  | fetchDatabaseSpaceInfo | fetchDashboardVolumes | fetchDashboardLocks | fetchDashboardPerformance | fetchDashboardCAS
  | fetchDashboardData | fetchBackupSchedule | fetchQueryPlan | fetchDatabaseLogs | fetchLockInfo | fetchTransactionInfo
  deriving DecidableEq

/-- The response to `getVolumeInfo`. -/
structure VolumeInfo where
  spaceinfo : Option Json
  dbinfo : Option Json
  fileinfo : Option Json
  pagesize : Option Json
  logpagesize : Option Json

inductive DbPayload
  | fetchDatabaseSpaceInfo (data : VolumeInfo)
  | fetchDashboardVolumes (volumes : Json) (pagesize logpagesize : Option Json)
  | fetchDashboardLocks (locks : Json)
  | fetchDashboardPerformance (performance perfSample : Json)
  | fetchDashboardCAS (brokersCAS : Json)
  | fetchDashboardData
  | fetchBackupSchedule (schedules : Json)
  | fetchQueryPlan (plan : Json)
  | fetchDatabaseLogs (logs : Json)
  | fetchLockInfo (info : Json)
  | fetchTransactionInfo (info : Json)

def DbPayload.thunk : DbPayload → DbThunk
  | .fetchDatabaseSpaceInfo _ => .fetchDatabaseSpaceInfo
  | .fetchDashboardVolumes .. => .fetchDashboardVolumes
  | .fetchDashboardLocks _ => .fetchDashboardLocks
  | .fetchDashboardPerformance .. => .fetchDashboardPerformance
  | .fetchDashboardCAS _ => .fetchDashboardCAS
  | .fetchDashboardData => .fetchDashboardData
  | .fetchBackupSchedule _ => .fetchBackupSchedule
  | .fetchQueryPlan _ => .fetchQueryPlan
  | .fetchDatabaseLogs _ => .fetchDatabaseLogs
  | .fetchLockInfo _ => .fetchLockInfo
  | .fetchTransactionInfo _ => .fetchTransactionInfo

inductive BrokerThunk
  | fetchDetailedBrokerStatus | fetchBrokerLogs
  deriving DecidableEq

inductive BrokerPayload
  | fetchDetailedBrokerStatus (data : Json)
  | fetchBrokerLogs (logs : Json)

def BrokerPayload.thunk : BrokerPayload → BrokerThunk
  | .fetchDetailedBrokerStatus _ => .fetchDetailedBrokerStatus
  | .fetchBrokerLogs _ => .fetchBrokerLogs

/-- `LOGIN_GONE_TYPES` -/
inductive LoginGone
  | logoutDatabase | deleteDatabaseProfile | clearDatabaseLogin | loginLost

/-- A tab, by what its id names. -/
inductive Tab
  | brokerStatus (hostUid brokerName : String)
  /-- One of `db`, `db_space`, `vol_category`, `vol_info`, `table_info` and `view_info`. -/
  | ofDatabase (hostUid dbname : String)
  | other

inductive Action
  | dbPending (thunk : DbThunk) (db : Database)
  | dbFulfilled (db : Database) (payload : DbPayload)
  | dbRejected (thunk : DbThunk) (db : Database)
  | brokerPending (thunk : BrokerThunk) (hostUid brokerName : String)
  | brokerFulfilled (hostUid brokerName : String) (payload : BrokerPayload)
  | brokerRejected (thunk : BrokerThunk) (hostUid brokerName error : String)
  | volumesPending (hostUid : String)
  /-- The databases whose request was answered, with the answer. -/
  | volumesFulfilled (hostUid : String) (payload : List (String × Json))
  | volumesRejected (hostUid : String)
  | loginGone (type : LoginGone) (db : Database)
  | resetBrokerState
  | closeTab (tab : Tab)
  | closeHostTabs (hostUid : String)

/-! ### `databaseMonitoring` -/

inductive SectionStatus
  | loaded | error
  deriving DecidableEq

structure DashboardEntry where
  volumes : Json
  spaceInfo : Json
  locks : Json
  performance : Json
  brokersCAS : Json
  volumeSummary : Json
  pagesize : Option Json
  logpagesize : Option Json
  perfSample : Option Json
  volumesStatus : Option SectionStatus
  spaceInfoStatus : Option SectionStatus
  locksStatus : Option SectionStatus
  casStatus : Option SectionStatus

def emptyDashboardEntry : DashboardEntry where
  volumes := .arr []
  spaceInfo := .arr []
  locks := .arr []
  performance := .obj []
  brokersCAS := .arr []
  volumeSummary := .arr []
  pagesize := none
  logpagesize := none
  perfSample := none
  volumesStatus := none
  spaceInfoStatus := none
  locksStatus := none
  casStatus := none

structure SpaceInfo where
  volumes : Json
  summary : Json
  files : Json
  pagesize : Option Json
  logpagesize : Option Json

structure Monitoring where
  dashboardData : String → Option DashboardEntry
  dashboardLoading : String → Option Bool
  spaceInfo : String → Option SpaceInfo
  spaceInfoLoading : String → Option Bool
  volumes : List (String × Answer)
  volumesLoading : Bool

def Monitoring.initialState : Monitoring := ⟨fun _ => none, fun _ => none, fun _ => none, fun _ => none, [], false⟩

namespace Monitoring

variable (state : Monitoring)

/-- `state.dashboardData[key] = { ...existing, … }` with `existing = state.dashboardData[key] || emptyDashboardEntry()`. -/
def setEntry (key : String) (set : DashboardEntry → DashboardEntry) : Monitoring :=
  let existing := (state.dashboardData key).getD emptyDashboardEntry
  { state with dashboardData := Function.update state.dashboardData key (some (set existing)) }

def fulfilled (key : String) : DbPayload → Monitoring
  | .fetchDatabaseSpaceInfo data =>
    { state with
      spaceInfoLoading := Function.update state.spaceInfoLoading key (some false)
      spaceInfo := Function.update state.spaceInfo key
        (some ⟨orEmpty data.spaceinfo, orEmpty data.dbinfo, orEmpty data.fileinfo, data.pagesize, data.logpagesize⟩) }.setEntry
      key fun existing =>
        { existing with
          spaceInfo := orEmpty data.fileinfo
          volumeSummary := orEmpty data.dbinfo
          spaceInfoStatus := some .loaded }
  | .fetchDashboardVolumes volumes pagesize logpagesize =>
    state.setEntry key fun existing =>
      { existing with
        volumes := volumes
        pagesize := pagesize
        logpagesize := logpagesize
        volumesStatus := some .loaded }
  | .fetchDashboardPerformance performance perfSample =>
    state.setEntry key fun existing => { existing with performance := performance, perfSample := some perfSample }
  | .fetchDashboardCAS brokersCAS =>
    state.setEntry key fun existing => { existing with brokersCAS := brokersCAS, casStatus := some .loaded }
  | .fetchDashboardLocks locks =>
    state.setEntry key fun existing => { existing with locks := locks, locksStatus := some .loaded }
  | .fetchDashboardData => { state with dashboardLoading := Function.update state.dashboardLoading key (some false) }
  | _ => state

def rejected (key : String) : DbThunk → Monitoring
  | .fetchDatabaseSpaceInfo => state.setEntry key fun existing => { existing with spaceInfoStatus := some .error }
  | .fetchDashboardVolumes => state.setEntry key fun existing => { existing with volumesStatus := some .error }
  | .fetchDashboardCAS => state.setEntry key fun existing => { existing with casStatus := some .error }
  | .fetchDashboardLocks => state.setEntry key fun existing => { existing with locksStatus := some .error }
  | _ => state

/-- The entries of a database are deleted. -/
def drop (key : String) : Monitoring :=
  { state with
    dashboardData := Function.update state.dashboardData key none
    dashboardLoading := Function.update state.dashboardLoading key none
    spaceInfo := Function.update state.spaceInfo key none
    spaceInfoLoading := Function.update state.spaceInfoLoading key none }

def reduce : Action → Monitoring
  | .dbFulfilled db payload => state.fulfilled db.key payload
  | .dbRejected thunk db => state.rejected db.key thunk
  | .volumesPending _ => { state with volumesLoading := true }
  | .volumesFulfilled hostUid payload =>
    { state with volumesLoading := false, volumes := payload.map fun res => (res.1, ⟨hostUid, res.2⟩) }
  | .volumesRejected _ => { state with volumesLoading := false }
  | .closeTab (.ofDatabase hostUid dbname) => state.drop (dbKey hostUid dbname)
  | .closeHostTabs _ => { initialState with volumes := state.volumes, volumesLoading := state.volumesLoading }
  | .loginGone _ db => state.drop db.key
  | _ => state

end Monitoring

/-! ### `databaseOperation` -/

structure Operation where
  backupSchedules : String → Option Json
  backupSchedulesLoading : String → Option Bool
  backupSchedulesError : String → Option Bool
  queryPlans : String → Option Json
  queryPlansLoading : String → Option Bool
  queryPlansError : String → Option Bool
  lockInfo : String → Option Answer
  transactionInfo : String → Option Answer

def Operation.initialState : Operation :=
  ⟨fun _ => none, fun _ => none, fun _ => none, fun _ => none, fun _ => none, fun _ => none, fun _ => none, fun _ => none⟩

namespace Operation

variable (state : Operation)

def pending (key : String) : DbThunk → Operation
  | .fetchBackupSchedule => { state with backupSchedulesLoading := Function.update state.backupSchedulesLoading key (some true) }
  | .fetchQueryPlan => { state with queryPlansLoading := Function.update state.queryPlansLoading key (some true) }
  | _ => state

def fulfilled (db : Database) : DbPayload → Operation
  | .fetchBackupSchedule schedules =>
    { state with
      backupSchedulesLoading := Function.update state.backupSchedulesLoading db.key (some false)
      backupSchedules := Function.update state.backupSchedules db.key (some schedules)
      backupSchedulesError := Function.update state.backupSchedulesError db.key none }
  | .fetchQueryPlan plan =>
    { state with
      queryPlansLoading := Function.update state.queryPlansLoading db.key (some false)
      queryPlans := Function.update state.queryPlans db.key (some plan)
      queryPlansError := Function.update state.queryPlansError db.key none }
  | .fetchLockInfo info =>
    { state with lockInfo := Function.update state.lockInfo db.dbname (some ⟨db.hostUid, info⟩) }
  | .fetchTransactionInfo info =>
    { state with transactionInfo := Function.update state.transactionInfo db.dbname (some ⟨db.hostUid, info⟩) }
  | _ => state

def rejected (key : String) : DbThunk → Operation
  | .fetchBackupSchedule =>
    { state with
      backupSchedulesLoading := Function.update state.backupSchedulesLoading key (some false)
      backupSchedulesError := Function.update state.backupSchedulesError key (some true) }
  | .fetchQueryPlan =>
    { state with
      queryPlansLoading := Function.update state.queryPlansLoading key (some false)
      queryPlansError := Function.update state.queryPlansError key (some true) }
  | _ => state

def drop (key : String) : Operation :=
  { state with
    backupSchedules := Function.update state.backupSchedules key none
    backupSchedulesLoading := Function.update state.backupSchedulesLoading key none
    backupSchedulesError := Function.update state.backupSchedulesError key none
    queryPlans := Function.update state.queryPlans key none
    queryPlansLoading := Function.update state.queryPlansLoading key none
    queryPlansError := Function.update state.queryPlansError key none }

def reduce : Action → Operation
  | .dbPending thunk db => state.pending db.key thunk
  | .dbFulfilled db payload => state.fulfilled db payload
  | .dbRejected thunk db => state.rejected db.key thunk
  | .loginGone _ db => state.drop db.key
  | _ => state

end Operation

/-! ### `broker` -/

structure BrokerStatus where
  /-- `none` is `{}`. -/
  data : Option Answer
  loading : Bool
  error : Option String

structure Broker where
  detailedStatus : String → Option BrokerStatus
  logsByBroker : String → Option Answer
  logsLoadingCount : Nat
  logsLoading : Bool
  dbLogsByDb : String → Option Json
  dbLogsLoadingByDb : String → Option Bool
  dbLogsFailedByDb : String → Option Bool

def Broker.initialState : Broker := ⟨fun _ => none, fun _ => none, 0, false, fun _ => none, fun _ => none, fun _ => none⟩

namespace Broker

variable (state : Broker)

def logsSettled : Broker :=
  { state with
    logsLoadingCount := state.logsLoadingCount - 1
    logsLoading := decide (state.logsLoadingCount - 1 > 0) }

/-- A settled status read; there is no entry to update after a reset, and the reducer throws. -/
def statusSettled (brokerName : String) (set : BrokerStatus → BrokerStatus) : Broker :=
  match state.detailedStatus brokerName with
  | some status => { state with detailedStatus := Function.update state.detailedStatus brokerName (some (set status)) }
  | none => state

def brokerPending (brokerName : String) : BrokerThunk → Broker
  | .fetchDetailedBrokerStatus =>
    let status := (state.detailedStatus brokerName).getD ⟨none, true, none⟩
    { state with
      detailedStatus := Function.update state.detailedStatus brokerName (some { status with loading := true, error := none }) }
  | .fetchBrokerLogs => { state with logsLoadingCount := state.logsLoadingCount + 1, logsLoading := true }

def brokerFulfilled (hostUid brokerName : String) : BrokerPayload → Broker
  | .fetchDetailedBrokerStatus data =>
    state.statusSettled brokerName fun status => { status with loading := false, data := some ⟨hostUid, data⟩ }
  | .fetchBrokerLogs logs =>
    { state.logsSettled with logsByBroker := Function.update state.logsByBroker brokerName (some ⟨hostUid, logs⟩) }

def brokerRejected (brokerName error : String) : BrokerThunk → Broker
  | .fetchDetailedBrokerStatus =>
    state.statusSettled brokerName fun status => { status with loading := false, error := some error }
  | .fetchBrokerLogs => state.logsSettled

def reduce : Action → Broker
  | .brokerPending thunk _ brokerName => state.brokerPending brokerName thunk
  | .brokerFulfilled hostUid brokerName payload => state.brokerFulfilled hostUid brokerName payload
  | .brokerRejected thunk _ brokerName error => state.brokerRejected brokerName error thunk
  | .dbPending .fetchDatabaseLogs db =>
    { state with
      dbLogsLoadingByDb := Function.update state.dbLogsLoadingByDb db.key (some true)
      dbLogsFailedByDb := Function.update state.dbLogsFailedByDb db.key none }
  | .dbFulfilled db (.fetchDatabaseLogs logs) =>
    { state with
      dbLogsLoadingByDb := Function.update state.dbLogsLoadingByDb db.key none
      dbLogsByDb := Function.update state.dbLogsByDb db.key (some logs) }
  | .dbRejected .fetchDatabaseLogs db =>
    { state with
      dbLogsLoadingByDb := Function.update state.dbLogsLoadingByDb db.key none
      dbLogsFailedByDb := Function.update state.dbLogsFailedByDb db.key (some true) }
  | .resetBrokerState =>
    { state with
      detailedStatus := fun _ => none
      logsByBroker := fun _ => none
      dbLogsByDb := fun _ => none
      dbLogsLoadingByDb := fun _ => none
      dbLogsFailedByDb := fun _ => none }
  | .closeTab (.brokerStatus _ brokerName) =>
    { state with detailedStatus := Function.update state.detailedStatus brokerName none }
  | .loginGone _ db =>
    if db.hostUid = "" ∨ db.dbname = "" then state
    else
      { state with
        dbLogsByDb := Function.update state.dbLogsByDb db.key none
        dbLogsFailedByDb := Function.update state.dbLogsFailedByDb db.key none }
  | _ => state

/-- A login that is gone names a host and a database. -/
theorem reduce_loginGone (type : LoginGone) (db : Database) :
    state.reduce (.loginGone type db) =
      { state with
        dbLogsByDb := Function.update state.dbLogsByDb db.key none
        dbLogsFailedByDb := Function.update state.dbLogsFailedByDb db.key none } := by
  have hnames : ¬ (db.hostUid = "" ∨ db.dbname = "") := fun h => h.elim db.hostUid_ne db.dbname_ne
  rw [reduce, if_neg hnames]

end Broker

/-! ### The store -/

structure Store where
  monitoring : Monitoring
  operation : Operation
  broker : Broker

def Store.initialState : Store := ⟨.initialState, .initialState, .initialState⟩

def Store.reduce (store : Store) (action : Action) : Store :=
  ⟨store.monitoring.reduce action, store.operation.reduce action, store.broker.reduce action⟩

/-- A read that was sent. -/
inductive Request
  | ofDatabase (thunk : DbThunk) (db : Database)
  | ofBroker (thunk : BrokerThunk) (hostUid brokerName : String)
  | fetchDatabaseVolumes (hostUid : String)
  deriving DecidableEq

namespace Action

/-- The read that is sent with the action. -/
def sends : Action → Option Request
  | .dbPending thunk db => some (.ofDatabase thunk db)
  | .brokerPending thunk hostUid brokerName => some (.ofBroker thunk hostUid brokerName)
  | .volumesPending hostUid => some (.fetchDatabaseVolumes hostUid)
  | _ => none

/-- The read that the action settles. -/
def settles : Action → Option Request
  | .dbFulfilled db payload => some (.ofDatabase payload.thunk db)
  | .dbRejected thunk db => some (.ofDatabase thunk db)
  | .brokerFulfilled hostUid brokerName payload => some (.ofBroker payload.thunk hostUid brokerName)
  | .brokerRejected thunk hostUid brokerName _ => some (.ofBroker thunk hostUid brokerName)
  | .volumesFulfilled hostUid _ => some (.fetchDatabaseVolumes hostUid)
  | .volumesRejected hostUid => some (.fetchDatabaseVolumes hostUid)
  | _ => none

end Action

/-- The reads in flight after the action; a read is settled once, after it is sent. -/
def inFlightAfter (inFlight : List Request) (action : Action) : Option (List Request) :=
  match action.settles with
  | some request => if request ∈ inFlight then some (inFlight.erase request) else none
  | none => some (action.sends.toList ++ inFlight)

end CubridWebManager.ViewCaches
