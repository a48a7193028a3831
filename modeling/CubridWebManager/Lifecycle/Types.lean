import CubridWebManager.Conf.HaModeReaders
import CubridWebManager.Conf.AutostartReaders
import CubridWebManager.Lib.WorkerPool

/-!
# Starting and stopping databases: requests and answers

The operations of the lifecycle service are programs (`Interaction`) over the requests of `Query`: what they ask CMS and
the stores of the server for, and the holds they take and release.  Everything they find out is an answer; a database is
known by its name.
-/

namespace CubridWebManager.Lifecycle

open Conf

abbrev DbName := Text

inductive StartStop
  | start
  | stop
  deriving DecidableEq, Repr

inductive SelectedDatabasesAction
  | start
  | stop
  | restart
  deriving DecidableEq, Repr

/-! ### Errors -/

/-- What tells one `CmsError` from another. -/
structure CmsFailure where
  code : String
  message : Text
  /-- `additionalData.message` -/
  detail : Option Text := none
  /-- `additionalData.response.note` -/
  note : Option Text := none
  /-- The code and the message of `originalError`. -/
  original : Option (Option String × Option Text) := none
  deriving DecidableEq, Repr

structure ActiveJob where
  dbname : DbName
  jobId : Text
  deriving DecidableEq, Repr

inductive Thrown
  | cms (failure : CmsFailure)
  /-- `ensureDbLogin` finds no login; `loggedOut` is the reason that it gives. -/
  | missingDbCredentials (message : Text) (loggedOut : Bool)
  | operationInProgress (message : Text) (active : ActiveJob)
  | databaseActionInProgress (message : Text) (dbname : DbName)
  | other (code : Option String) (message : Text)
  deriving DecidableEq, Repr

def Thrown.message : Thrown → Text
  | .cms failure => failure.message
  | .missingDbCredentials message _ | .operationInProgress message _ | .databaseActionInProgress message _
  | .other _ message => message

/-- `/timeout/i.test(text)` -/
def mentionsTimeout (text : Text) : Bool := "timeout".toList <:+: text.map Char.toLower

def isConnectionCode (code : Option String) : Bool :=
  code = some "ECONNABORTED" || code = some "ETIMEDOUT" || code = some "ECONNRESET"

/-- The command may have reached the server. -/
def isAmbiguousStopError : Thrown → Bool
  | .cms failure =>
    failure.code = "NO_RESPONSE" || mentionsTimeout (failure.detail.getD failure.message) ||
      mentionsTimeout (failure.note.getD []) ||
      failure.original.any fun original => isConnectionCode original.1 || mentionsTimeout (original.2.getD [])
  | .other code message => isConnectionCode code || mentionsTimeout message
  | error => mentionsTimeout error.message

/-! ### Requests -/

/-- The answer of start-info: the databases of `dblist`, and those of `activelist` unless it has no list. -/
structure StartInfo where
  dblist : List DbName
  active : Option (List DbName)
  deriving DecidableEq, Repr

/-- Requests about one database: the login that it needs, and those that start or stop it. -/
inductive Call
  | ensureDbLogin (dbname : DbName)
  | startdb (dbname : DbName)
  | stopdb (dbname : DbName)
  | haStart (dbname : DbName)
  | haStop (dbname : DbName)
  deriving DecidableEq, Repr

/-- Where start-info is read. -/
inductive Reader
  /-- `startDatabase` and its like, for what they return or to see what is running. -/
  | single
  | selected
  | haBulk (action : StartStop)
  | haNode (action : StartStop)
  /-- `startAllDatabasesUnlocked` and `stopAllDatabasesUnlocked`, with the names they are to act on. -/
  | all (action : StartStop) (dbnames haDbNames : List DbName)
  | stopWholeService
  /-- `restartWholeService`: before it holds anything, once it does, and at its end. -/
  | restartHeld
  | restartBefore
  | restartAfter
  deriving DecidableEq, Repr

inductive Query
  /-- `hasActiveJobForHost` -/
  | activeJob
  /-- `findHostInternal`, for the address and port of the host. -/
  | findHost
  /-- `withDatabaseActionLock` takes the databases, unless one is held already. -/
  | acquire (hostKey : String) (dbnames : List DbName) (action : String)
  | release (hostKey : String) (dbnames : List DbName)
  | startInfo (reader : Reader)
  /-- `getHaDbNames`: the set of names, in its order. -/
  | haDbNames
  /-- The lines of cubrid.conf. -/
  | cubridConf
  | brokers (action : StartStop)
  /-- `ha_start` or `ha_stop` without a name. -/
  | haNode (action : StartStop)
  /-- The requests that are out at the same time. -/
  | calls (out : List Call)
  | sleep (ms : Nat)
  deriving DecidableEq, Repr

def Answer : Query → Type
  | .activeJob => Except Thrown (Option ActiveJob)
  | .findHost => Except Thrown String
  -- the database that is held already, with the action that holds it
  | .acquire .. => Option (DbName × String)
  | .release .. | .sleep _ => Unit
  | .startInfo _ => Except Thrown StartInfo
  | .haDbNames => Except Thrown (List DbName)
  | .cubridConf => Except Thrown (List Text)
  | .brokers _ | .haNode _ => Except Thrown Unit
  -- the request that is answered first, and its answer
  | .calls out => Fin out.length × Except Thrown Unit

abbrev Program (α : Type) := Interaction Query Answer α

/-- A program that may throw. -/
abbrev Async (α : Type) := ExceptT Thrown (Interaction Query Answer) α

/-! ### Results -/

structure FailedDatabase where
  dbname : DbName
  error : Text
  /-- Set only by a restart, for the step that failed. -/
  phase : Option StartStop := none
  deriving DecidableEq, Repr

structure SkippedDatabase where
  dbname : DbName
  reason : String
  deriving DecidableEq, Repr

structure BulkDatabaseActionResult where
  succeeded : List DbName := []
  failed : List FailedDatabase := []
  skipped : List SkippedDatabase := []
  deriving DecidableEq, Repr

structure ServiceFailure where
  name : Text
  error : Text
  deriving DecidableEq, Repr

structure ServiceSkip where
  name : Text
  reason : String
  phase : Option StartStop := none
  deriving DecidableEq, Repr

structure ServiceRestartResult where
  stopFailed : List ServiceFailure
  startFailed : List ServiceFailure
  skipped : List ServiceSkip
  leftStopped : List DbName
  deriving DecidableEq, Repr

/-- `HA_NODE_STEP` -/
def haNodeStep : Text := "HA databases (heartbeat)".toList

/-! #### `BULK_SKIP_REASON` -/

def skipNotFound : String := "Not a database on this host"
def skipAlreadyRunning : String := "Already running"
def skipNotRunning : String := "Not running"
def skipLoggedOut : String := "Logged out"
def skipNotLoggedIn : String := "Not logged in"

/-- `notLoggedInSkipReason` -/
def notLoggedInSkipReason : Thrown → Option String
  | .missingDbCredentials _ loggedOut => some (if loggedOut then skipLoggedOut else skipNotLoggedIn)
  | _ => none

/-- One database's settled result is added: succeeded, skipped (no login) or failed. -/
def addOutcome (out : BulkDatabaseActionResult) (outcome : DbName × Except Thrown Unit) : BulkDatabaseActionResult :=
  match outcome.2 with
  | .ok () => { out with succeeded := out.succeeded ++ [outcome.1] }
  | .error error =>
    match notLoggedInSkipReason error with
    | some reason => { out with skipped := out.skipped ++ [⟨outcome.1, reason⟩] }
    | none => { out with failed := out.failed ++ [{ dbname := outcome.1, error := error.message }] }

end CubridWebManager.Lifecycle
