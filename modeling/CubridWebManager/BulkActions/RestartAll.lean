import CubridWebManager.Lifecycle.AllDatabases

/-!
# Restart All

The client restarts the databases of a list in two requests, one that stops them all and one that starts them, and reads
in between which databases are running.  A request is served by the server's `allDatabases`, or it is lost on the way
there or back.
-/

namespace CubridWebManager.BulkActions

open Interaction Lifecycle

/-! ### Requests -/

inductive Request
  /-- `startAllDatabases` and `stopAllDatabases` -/
  | bulk (action : StartStop) (dbnames : List DbName)
  /-- `fetchDatabaseStartInfo` -/
  | startInfo
  deriving DecidableEq, Repr

/-- What becomes of a request to start or to stop all databases of a list. -/
structure Served (lower : Text → Text) (action : StartStop) (dbnames : List DbName) where
  /-- What the server has done of it. -/
  log : List Event
  run : ∃ rest outcome, Runs (allDatabases lower action dbnames false).run (log ++ rest) outcome
  /-- The server's report or, when it throws or the response is lost, the text of an error. -/
  answer : Except Text BulkDatabaseActionResult
  arrives : ∀ res, answer = .ok res → Runs (allDatabases lower action dbnames false).run log (.ok res)
  /-- The databases that are started or stopped by it: also those for which CMS has not answered, or with an error. -/
  changed : List DbName
  accepted : ∀ d, Accepted action d log → d ∈ changed

/-- The answer to the reading: an error, or the entries of `activelist.active` if that is a list, each with its name if
it has one. -/
abbrev ActiveList := Except Text (Option (List (Option DbName)))

def Answer (lower : Text → Text) : Request → Type
  | .bulk action dbnames => Served lower action dbnames
  | .startInfo => ActiveList

/-- The databases that are running; `none` when they can't be read or the answer is malformed. -/
def activeDbnames (info : ActiveList) : Option (List DbName) :=
  match info with
  | .error _ | .ok none => none
  | .ok (some entries) => entries.mapM fun name => name.filter (· ≠ [])

/-! ### The functions -/

structure Report where
  failed : List FailedDatabase := []
  skipped : List SkippedDatabase := []
  deriving DecidableEq, Repr

def tag (list : List FailedDatabase) (phase : StartStop) : List FailedDatabase :=
  list.map fun f => { f with phase := some phase }

/-- Of the entries about one database the first is kept. -/
def firstPerDatabase (list : List SkippedDatabase) : List SkippedDatabase :=
  list.foldl (fun skipped s => if s.dbname ∈ skipped.map SkippedDatabase.dbname then skipped else skipped ++ [s]) []

/-- The stop has failed for the databases that are not read as stopped. -/
def lostStop (dbnames : List DbName) (stillActive : Option (List DbName)) (error : Text) : BulkDatabaseActionResult where
  failed := (dbnames.filter fun d => stillActive.all fun active => d ∈ active).map fun dbname =>
    { dbname := dbname, error := error }

def toStart (dbnames : List DbName) (activeAfterStop : Option (List DbName)) : List DbName :=
  dbnames.filter fun d => activeAfterStop.all fun active => d ∉ active

def report (stopResult startResult : BulkDatabaseActionResult) : Report where
  failed := tag stopResult.failed .stop ++ tag startResult.failed .start
  skipped := firstPerDatabase (stopResult.skipped ++ startResult.skipped)

section

variable {lower : Text → Text}

def dispatchBulk (action : StartStop) (dbnames : List DbName) :
    ExceptT Text (Interaction Request (Answer lower)) BulkDatabaseActionResult := ExceptT.mk do
  let served ← query (A := Answer lower) (.bulk action dbnames)
  pure (Served.answer served)

def readActiveDbnames : ExceptT Text (Interaction Request (Answer lower)) (Option (List DbName)) := ExceptT.lift do
  let info ← query (A := Answer lower) .startInfo
  pure (activeDbnames info)

def restartDatabasesInBulk (dbnames : List DbName) : ExceptT Text (Interaction Request (Answer lower)) Report :=
  if dbnames = [] then pure {}
  else do
    let stopped ← attempt (dispatchBulk .stop dbnames)
    let stopResult ← match stopped with
      | .ok stopResult => pure stopResult
      | .error error => do
        let stillActive ← readActiveDbnames
        pure (lostStop dbnames stillActive error)
    let activeAfterStop ← readActiveDbnames
    let startResult ← if toStart dbnames activeAfterStop = [] then pure {}
      else dispatchBulk .start (toStart dbnames activeAfterStop)
    pure (report stopResult startResult)

end

end CubridWebManager.BulkActions
