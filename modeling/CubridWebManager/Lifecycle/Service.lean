import CubridWebManager.Lifecycle.Types

/-!
# Starting and stopping databases

The operations of the lifecycle service, function by function: start, stop and restart of one database, of the selected
ones, of all of a list, and of the whole service.  `lower` stands for `toLowerCase` in the reading of cubrid.conf.
-/

namespace CubridWebManager.Lifecycle

open Conf Interaction

/-! ### Requests -/

def ask (q : Query) : Program (Answer q) := query q

/-- The requests that are out: the first one that is answered, with its answer. -/
def awaitCalls (out : List Call) : Program (Fin out.length × Except Thrown Unit) := ask (.calls out)

/-- A request that is out alone. -/
def request (call : Call) : Async Unit := ExceptT.mk do
  let answer ← awaitCalls [call]
  pure answer.2

def hasActiveJobForHost : Async (Option ActiveJob) := ExceptT.mk (ask .activeJob)

def findHostKey : Async String := ExceptT.mk (ask .findHost)

def acquire (hostKey : String) (dbnames : List DbName) (action : String) : Async (Option (DbName × String)) :=
  ExceptT.lift (ask (.acquire hostKey dbnames action))

def release (hostKey : String) (dbnames : List DbName) : Async Unit := ExceptT.lift (ask (.release hostKey dbnames))

def sleep (ms : Nat) : Async Unit := ExceptT.lift (ask (.sleep ms))

def startInfo (reader : Reader) : Async StartInfo := ExceptT.mk (ask (.startInfo reader))

def getHaDbNames : Async (List DbName) := ExceptT.mk (ask .haDbNames)

def getCubridConf : Async (List Text) := ExceptT.mk (ask .cubridConf)

def switchBrokers (action : StartStop) : Async Unit := ExceptT.mk (ask (.brokers action))

/-- `haStartNode` and `haStopNode` -/
def haSwitchNode (action : StartStop) : Async Unit := ExceptT.mk (ask (.haNode action))

/-- What a TypeError of the reading of cubrid.conf throws. -/
def orTypeError {α : Type} : Option α → Async α
  | some a => pure a
  | none => throw (.other none "TypeError".toList)

/-- `getServiceHaDbNames` -/
def getServiceHaDbNames (lower : Text → Text) : Async (List DbName) := do
  let haDbNames ← getHaDbNames
  let cubridConf ← getCubridConf
  orTypeError (Conf.getServiceHaDbNames lower haDbNames cubridConf)

def ofExcept {α : Type} : Except Thrown α → Async α
  | .ok a => pure a
  | .error e => throw e

/-- Names start-info lists as running; throws if the list is missing. -/
def activeDbnamesOf (info : StartInfo) : Async (List DbName) :=
  match info.active with
  | some active => pure active
  | none => throw (.other none "Could not read which databases are running".toList)

def readActiveDbnames (reader : Reader) : Async (List DbName) := do
  let info ← startInfo reader
  activeDbnamesOf info

def assertNoActiveJob : Async Unit := do
  match ← hasActiveJobForHost with
  | some active => throw (.operationInProgress "Operation in progress".toList active)
  | none => pure ()

/-- Runs `fn` while it holds `dbnames`. -/
def holdingDatabases {α : Type} (dbnames : List DbName) (action : String) (fn : Async α) : Async α := do
  let hostKey ← findHostKey
  match ← acquire hostKey dbnames action with
  | some busy => throw (.databaseActionInProgress "Database action in progress".toList busy.1)
  | none =>
    let result ← attempt fn
    release hostKey dbnames
    ofExcept result

/-! ### One database -/

def startNonHaDatabase (dbname : DbName) : Async Unit := do
  request (.ensureDbLogin dbname)
  request (.startdb dbname)

def stopNonHaDatabase (dbname : DbName) : Async Unit := do
  request (.ensureDbLogin dbname)
  request (.stopdb dbname)

/-- `effectiveHaDbForDbname` -/
def effectiveHaDbForDbname (dbname : DbName) : Async Bool := do
  let haDbNames ← getHaDbNames
  pure (Text.trim dbname ∈ haDbNames)

def startDatabaseUnlocked (dbname : DbName) : Async StartInfo := do
  assertNoActiveJob
  let useHa ← effectiveHaDbForDbname dbname
  if useHa then
    request (.ensureDbLogin dbname)
    let info ← startInfo .single
    if dbname ∈ info.active.getD [] then pure info
    else
      request (.haStart dbname)
      startInfo .single
  else
    startNonHaDatabase dbname
    startInfo .single

/-- The loop of `stopDatabaseUnlocked` that waits for the database to leave the running list. -/
def awaitStopped (dbname : DbName) : Nat → Async (Option StartInfo)
  | 0 => pure none
  | tries + 1 => do
    sleep 2500
    match ← attempt (startInfo .single) with
    | .error _ => awaitStopped dbname tries
    | .ok latestInfo =>
      match latestInfo.active with
      | none => awaitStopped dbname tries
      | some active =>
        if active.all (· ≠ []) && dbname ∉ active then pure (some latestInfo) else awaitStopped dbname tries

def stopDatabaseUnlocked (dbname : DbName) : Async StartInfo := do
  assertNoActiveJob
  let useHa ← effectiveHaDbForDbname dbname
  if useHa then
    request (.ensureDbLogin dbname)
    request (.haStop dbname)
    startInfo .single
  else
    match ← attempt (stopNonHaDatabase dbname) with
    | .ok () => startInfo .single
    | .error error =>
      if isAmbiguousStopError error then
        match ← awaitStopped dbname 6 with
        | some latestInfo => pure latestInfo
        | none => throw error
      else throw error

def restartDatabaseUnlocked (dbname : DbName) : Async StartInfo := do
  assertNoActiveJob
  let useHa ← effectiveHaDbForDbname dbname
  if useHa then
    request (.ensureDbLogin dbname)
    request (.haStop dbname)
    request (.haStart dbname)
  else
    stopNonHaDatabase dbname
    startNonHaDatabase dbname
  startInfo .single

def startDatabase (dbname : DbName) : Async StartInfo :=
  holdingDatabases [dbname] "startDatabase" (startDatabaseUnlocked dbname)

def stopDatabase (dbname : DbName) : Async StartInfo :=
  holdingDatabases [dbname] "stopDatabase" (stopDatabaseUnlocked dbname)

def restartDatabase (dbname : DbName) : Async StartInfo :=
  holdingDatabases [dbname] "restartDatabase" (restartDatabaseUnlocked dbname)

/-! ### Lists of databases -/

def haCall : StartStop → DbName → Call
  | .start => .haStart
  | .stop => .haStop

def nonHaCall : StartStop → DbName → Call
  | .start => .startdb
  | .stop => .stopdb

/-- `mapWithConcurrency` over the databases, each with its login check before its request; the outcomes with the names
that they are of. -/
def mapWithConcurrency (dbnames : List DbName) (limit : Nat) (call : DbName → Call) :
    Program (List (DbName × Except Thrown Unit)) := do
  let pool := Pool.start limit (dbnames.map fun dbname => (Call.ensureDbLogin dbname, [call dbname]))
  let results ← Pool.run awaitCalls pool.remaining pool
  pure ((dbnames.zip results).filterMap fun e => e.2.map (e.1, ·))

/-- The state that the action applies to. -/
def appliesTo (action : StartStop) (running : List DbName) (dbname : DbName) : Bool :=
  match action with
  | .start => dbname ∉ running
  | .stop => dbname ∈ running

def runHaBulkAction (haDbNames : List DbName) (action : StartStop) (out : BulkDatabaseActionResult)
    (knownRunning : Option (List DbName)) : Async BulkDatabaseActionResult :=
  if haDbNames = [] then pure out
  else do
    let running ← attempt (match knownRunning with
      | some running => pure running
      | none => readActiveDbnames (.haBulk action))
    match running with
    | .error error => pure { out with
        failed := out.failed ++ haDbNames.map fun dbname => { dbname := dbname, error := error.message } }
    | .ok running =>
      let results ← ExceptT.lift (mapWithConcurrency (haDbNames.filter (appliesTo action running)) 1 (haCall action))
      pure (results.foldl addOutcome out)

/-- The names, separated by commas and spaces. -/
def joinNames (names : List DbName) : Text := List.intercalate ", ".toList names

def runHaNodeAction (haDbNames : List DbName) (action : StartStop) (out : BulkDatabaseActionResult) :
    Async BulkDatabaseActionResult :=
  if haDbNames = [] then pure out
  else do
    let sent ← attempt (haSwitchNode action)
    let sendError : Option Text := match sent with
      | .ok () => none
      | .error error => some error.message
    match ← attempt (readActiveDbnames (.haNode action)) with
    | .error error =>
      if action = .stop ∧ sendError = none then pure { out with succeeded := out.succeeded ++ [haNodeStep] }
      else
        let text : Text := match action with
          | .start => "Could not check whether the HA databases started: ".toList ++ error.message ++
              sendError.elim [] fun sendError => " (".toList ++ sendError ++ ")".toList
          | .stop => sendError.getD [] ++ " (could not read which databases are running: ".toList ++ error.message ++
              ")".toList
        pure { out with failed := out.failed ++ [{ dbname := haNodeStep, error := text }] }
    | .ok running =>
      let wrong := haDbNames.filter (appliesTo action running)
      if wrong = [] then pure { out with succeeded := out.succeeded ++ [haNodeStep] }
      else
        let text : Text := (match action with
          | .start => "Not running after the HA start".toList
          | .stop => "Still running after the HA stop".toList) ++ ": ".toList ++ joinNames wrong ++
            sendError.elim [] fun sendError => " (".toList ++ sendError ++ ")".toList
        pure { out with failed := out.failed ++ [{ dbname := haNodeStep, error := text }] }

/-! ### The selected databases -/

/-- `runPhase` of `runSelectedDatabasesActionUnlocked`. -/
def runPhase (haDbNames : List DbName) (phase : StartStop) (dbs : List DbName) : Async BulkDatabaseActionResult := do
  let phaseOut ← runHaBulkAction (dbs.filter (· ∈ haDbNames)) phase {} none
  let results ← ExceptT.lift (mapWithConcurrency (dbs.filter (· ∉ haDbNames)) 4 (nonHaCall phase))
  pure (results.foldl addOutcome phaseOut)

def addAll (out result : BulkDatabaseActionResult) : BulkDatabaseActionResult where
  succeeded := out.succeeded ++ result.succeeded
  failed := out.failed ++ result.failed
  skipped := out.skipped ++ result.skipped

def runSelectedDatabasesActionUnlocked (action : SelectedDatabasesAction) (targets : List DbName)
    (out : BulkDatabaseActionResult) : Async BulkDatabaseActionResult := do
  let haDbNames ← getHaDbNames
  match action with
  | .start =>
    let result ← runPhase haDbNames .start targets
    pure (addAll out result)
  | .stop =>
    let result ← runPhase haDbNames .stop targets
    pure (addAll out result)
  | .restart =>
    let stopped ← runPhase haDbNames .stop targets
    let started ← runPhase haDbNames .start stopped.succeeded
    pure
      { succeeded := out.succeeded ++ started.succeeded
        failed := out.failed ++ stopped.failed.map (fun f => { f with phase := some .stop }) ++
          started.failed.map fun f => { f with phase := some .start }
        skipped := out.skipped ++ stopped.skipped ++ started.skipped }

/-- Why a database is not acted on, if it is not. -/
def selectedSkip (action : SelectedDatabasesAction) (known running : List DbName) (dbname : DbName) : Option String :=
  if dbname ∉ known then some skipNotFound
  else if action = .start ∧ dbname ∈ running then some skipAlreadyRunning
  else if action ≠ .start ∧ dbname ∉ running then some skipNotRunning
  else none

def actionName : SelectedDatabasesAction → String
  | .start => "startSelectedDatabases"
  | .stop => "stopSelectedDatabases"
  | .restart => "restartSelectedDatabases"

def runSelectedDatabasesAction (action : SelectedDatabasesAction) (dbnames : List DbName) :
    Async BulkDatabaseActionResult := do
  assertNoActiveJob
  let requested := dbnames.eraseDups
  holdingDatabases requested (actionName action) do
    let info ← startInfo .selected
    let running ← activeDbnamesOf info
    let known := info.dblist ++ running
    let out : BulkDatabaseActionResult :=
      { skipped := requested.filterMap fun dbname => (selectedSkip action known running dbname).map (⟨dbname, ·⟩) }
    let targets := requested.filter fun dbname => selectedSkip action known running dbname = none
    if targets = [] then pure out else runSelectedDatabasesActionUnlocked action targets out

end CubridWebManager.Lifecycle
