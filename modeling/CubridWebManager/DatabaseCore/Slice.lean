import CubridWebManager.Lib.Json
import CubridWebManager.Lib.JsText
import Mathlib.Logic.Function.Basic
import Mathlib.Data.List.Infix

/-!
# The slice of the databases

The state of `databaseCoreSlice` and its reducers: the lists of each host's databases for the dashboards and for the
navigator, and the databases that are shown as logged in.

A list that is set to what it holds already is the same here as one that is kept.
-/

namespace CubridWebManager.DatabaseCore

/-! ### Keys -/

/-- A generated uid. -/
structure HostUid where
  uid : Text
  uid_ne : uid ≠ []
  colon_notMem : ':' ∉ uid
  deriving DecidableEq

/-- `{ hostUid, dbname }` -/
structure Database where
  hostUid : HostUid
  dbname : Text
  dbname_ne : dbname ≠ []
  deriving DecidableEq

def dbKey (hostUid : HostUid) (dbname : Text) : Text := hostUid.uid ++ ':' :: dbname

def Database.key (db : Database) : Text := dbKey db.hostUid db.dbname

/-! ### Start-info -/

/-- A list of the response: an array, a single element or nothing. -/
inductive Listed (α : Type)
  | many (items : List α)
  | one (item : α)
  | none

def Listed.toList {α : Type} : Listed α → List α
  | many items => items
  | one item => [item]
  | none => []

structure DbEntry where
  dbname : Text
  isProfileExists : Option Bool
  isLoggedIn : Option Bool
  isLoggedOut : Option Bool
  rest : List (String × Json)

inductive ActiveEntry
  | name (dbname : Text)
  | entry (entry : DbEntry)

def ActiveEntry.dbname : ActiveEntry → Text
  | name dbname => dbname
  | entry e => e.dbname

def ActiveEntry.entry? : ActiveEntry → Option DbEntry
  | name _ => none
  | entry e => some e

/-- `dblist.dbs`, `activelist.active` where there is an `activelist`, and `haDbNames`. -/
structure StartInfo where
  dbs : Option (Listed DbEntry)
  active : Option (Listed ActiveEntry)
  haDbNames : Option (List Text)

namespace StartInfo

def dbEntries (payload : StartInfo) : List DbEntry := (payload.dbs.map Listed.toList).getD []

def activeEntries (payload : StartInfo) : List ActiveEntry := (payload.active.map Listed.toList).getD []

def activeNames (payload : StartInfo) : List Text := (payload.activeEntries.map ActiveEntry.dbname).filter (· ≠ [])

/-- What is listed for an active database that `dblist` omits. -/
def missingEntry (payload : StartInfo) (dbname : Text) : DbEntry :=
  let activeEntry := (payload.activeEntries.filterMap ActiveEntry.entry?).find? (·.dbname = dbname)
  match activeEntry with
  | some ⟨_, isProfileExists, some isLoggedIn, isLoggedOut, _⟩ =>
    ⟨dbname, some (isProfileExists == some true), some isLoggedIn, some (isLoggedOut == some true), []⟩
  | _ => ⟨dbname, some false, none, none, []⟩

def mergedList (payload : StartInfo) (activeNames : List Text) : List DbEntry :=
  let knownNames := payload.dbEntries.map DbEntry.dbname
  let missingActiveNames := activeNames.filter fun name => !knownNames.contains name
  payload.dbEntries ++ missingActiveNames.map payload.missingEntry

/-- The names of the entries that have `isLoggedIn`, with it. -/
def loginEntries (payload : StartInfo) : List (Text × Bool) :=
  (payload.dbEntries ++ payload.activeEntries.filterMap ActiveEntry.entry?).filterMap fun e =>
    e.isLoggedIn.map (Prod.mk e.dbname)

def loggedIn (payload : StartInfo) : List Text := (payload.loginEntries.filter Prod.snd).map Prod.fst

end StartInfo

/-! ### The state -/

structure Core where
  databasesByHost : HostUid → Option (List DbEntry)
  activeDatabasesByHost : HostUid → Option (List Text)
  navigatorDatabasesByHost : HostUid → Option (List DbEntry)
  navigatorActiveDatabasesByHost : HostUid → Option (List Text)
  haDbNamesByHost : HostUid → Option (List Text)
  activeHostUid : Option HostUid
  selectedDatabase : Option Text
  selectedDatabaseSubItem : Option Text
  loggedInDatabases : List Text
  loggingInDatabases : Text → Option Bool
  loginChangedSeq : Text → Option Nat
  loadingByHost : HostUid → Bool
  /-- `{ requestId: foreground }`; each request has an id of its own. -/
  pendingReadsByHost : HostUid → List (Nat × Bool)
  appliedLiveSeqByHost : HostUid → Option Nat
  appliedNavigatorSeqByHost : HostUid → Option Nat

def initialState : Core where
  databasesByHost _ := none
  activeDatabasesByHost _ := none
  navigatorDatabasesByHost _ := none
  navigatorActiveDatabasesByHost _ := none
  haDbNamesByHost _ := none
  activeHostUid := none
  selectedDatabase := none
  selectedDatabaseSubItem := none
  loggedInDatabases := []
  loggingInDatabases _ := none
  loginChangedSeq _ := none
  loadingByHost _ := false
  pendingReadsByHost _ := []
  appliedLiveSeqByHost _ := none
  appliedNavigatorSeqByHost _ := none

/-- `if (!keys.includes(key)) keys.push(key)` -/
def pushKey (keys : List Text) (key : Text) : List Text := if keys.contains key then keys else keys ++ [key]

namespace Core

variable (state : Core)

/-! ### Logins -/

def noteLoginChange (hostUid : HostUid) (dbname : Text) (seq : Nat) : Core :=
  if dbname = [] then state
  else { state with loginChangedSeq := Function.update state.loginChangedSeq (dbKey hostUid dbname) (some seq) }

def pushLoggedIn (hostUid : HostUid) (dbname : Text) (seq : Nat) : Core :=
  { state with loggedInDatabases := pushKey state.loggedInDatabases (dbKey hostUid dbname) }.noteLoginChange
    hostUid dbname seq

def dropLoggedIn (hostUid : HostUid) (dbname : Text) (seq : Nat) : Core :=
  { state with loggedInDatabases := state.loggedInDatabases.filter (· ≠ dbKey hostUid dbname) }.noteLoginChange
    hostUid dbname seq

def markBulkSucceededLoggedIn (hostUid : HostUid) (succeeded : Option (List Text)) (seq : Nat) : Core :=
  (succeeded.getD []).foldl (fun state dbname => state.pushLoggedIn hostUid dbname seq) state

def changedSinceRequest (seq : Nat) (key : Text) : Bool := seq < (state.loginChangedSeq key).getD 0

def syncLoggedInFromStartInfo (payload : StartInfo) (hostUid : HostUid) (seq : Nat) : Core :=
  if payload.loginEntries.isEmpty then state
  else
    let inFlight := fun key => state.loggingInDatabases key == some true
    let kept := state.loggedInDatabases.filter fun key =>
      !(dbKey hostUid []).isPrefixOf key || inFlight key || state.changedSinceRequest seq key
    let reported := (payload.loggedIn.map (dbKey hostUid)).filter fun key => !state.changedSinceRequest seq key
    { state with loggedInDatabases := reported.foldl pushKey kept }

/-! ### The lists -/

def setActive (hostUid : HostUid) (updateLive updateNavigator : Bool) (newActive : List Text) : Core :=
  { state with
    activeDatabasesByHost :=
      if updateLive then Function.update state.activeDatabasesByHost hostUid (some newActive)
      else state.activeDatabasesByHost
    navigatorActiveDatabasesByHost :=
      if updateNavigator then Function.update state.navigatorActiveDatabasesByHost hostUid (some newActive)
      else state.navigatorActiveDatabasesByHost }

def setDatabases (hostUid : HostUid) (updateLive updateNavigator : Bool) (mergedList : List DbEntry) : Core :=
  { state with
    databasesByHost :=
      if updateLive then Function.update state.databasesByHost hostUid (some mergedList) else state.databasesByHost
    navigatorDatabasesByHost :=
      if updateNavigator then Function.update state.navigatorDatabasesByHost hostUid (some mergedList)
      else state.navigatorDatabasesByHost }

/-- Only the response of the active host may affect the selection. -/
def checkSelected (hostUid : HostUid) : Core :=
  let databases := (state.databasesByHost hostUid).getD []
  if state.activeHostUid = some hostUid ∧ databases.find? (fun db => some db.dbname = state.selectedDatabase) = none then
    { state with selectedDatabase := none, selectedDatabaseSubItem := none }
  else state

def setHaDbNames (hostUid : HostUid) : Option (List Text) → Core
  | some haDbNames => { state with haDbNamesByHost := Function.update state.haDbNamesByHost hostUid (some haDbNames) }
  | none => state

/-- Whether `dblist.dbs` is there and not empty as a value. -/
def dbsFound : Option (Listed DbEntry) → Bool
  | some .none | none => false
  | some _ => true

def parseDbResponse (payload : Option StartInfo) (hostUid : HostUid) (updateLive updateNavigator : Bool) (seq : Nat) :
    Core :=
  match payload with
  | none => state
  | some payload =>
    let state := if payload.active.isSome then state.setActive hostUid updateLive updateNavigator payload.activeNames
      else state
    let activeNames := if payload.active.isSome then payload.activeNames
      else (state.activeDatabasesByHost hostUid).getD []
    let state := if payload.dbs.isSome then
        state.setDatabases hostUid updateLive updateNavigator (payload.mergedList activeNames)
      else state
    let state := if dbsFound payload.dbs then state.checkSelected hostUid else state
    let state := if updateLive then state.syncLoggedInFromStartInfo payload hostUid seq else state
    if updateLive then state.setHaDbNames hostUid payload.haDbNames else state

def startRead (hostUid : HostUid) (requestId : Nat) (foreground : Bool) : Core :=
  { state with
    pendingReadsByHost :=
      Function.update state.pendingReadsByHost hostUid ((requestId, foreground) :: state.pendingReadsByHost hostUid)
    loadingByHost := if foreground then Function.update state.loadingByHost hostUid true else state.loadingByHost }

/-- None if the read does not belong to the connection of the host. -/
def settleRead (hostUid : HostUid) (requestId : Nat) : Option Core :=
  match (state.pendingReadsByHost hostUid).lookup requestId with
  | some foreground =>
    let reads := (state.pendingReadsByHost hostUid).filter (·.1 ≠ requestId)
    some { state with
      pendingReadsByHost := Function.update state.pendingReadsByHost hostUid reads
      loadingByHost :=
        if foreground then Function.update state.loadingByHost hostUid (reads.any Prod.snd) else state.loadingByHost }
  | none => none

def newerThanLive (hostUid : HostUid) (seq : Nat) : Bool := (state.appliedLiveSeqByHost hostUid).getD 0 < seq

def newerThanNavigator (hostUid : HostUid) (seq : Nat) : Bool := (state.appliedNavigatorSeqByHost hostUid).getD 0 < seq

/-- The marks of the views that are updated. -/
def claim (hostUid : HostUid) (updateLive updateNavigator : Bool) (seq : Nat) : Core :=
  { state with
    appliedLiveSeqByHost :=
      if updateLive then Function.update state.appliedLiveSeqByHost hostUid (some seq) else state.appliedLiveSeqByHost
    appliedNavigatorSeqByHost :=
      if updateNavigator then Function.update state.appliedNavigatorSeqByHost hostUid (some seq)
      else state.appliedNavigatorSeqByHost }

def applyStartInfo (hostUid : HostUid) (payload : Option StartInfo) (seq : Nat) (isBackground : Bool) : Core :=
  let updateLive := state.newerThanLive hostUid seq
  let updateNavigator := !isBackground && state.newerThanNavigator hostUid seq
  let state := state.claim hostUid updateLive updateNavigator seq
  if updateLive || updateNavigator then state.parseDbResponse payload hostUid updateLive updateNavigator seq else state

end Core

/-! ### The reducers -/

/-- The result of an action that carries start-info. -/
inductive InfoResult
  | startDatabase (db : Database) (response : Option StartInfo)
  | stopDatabase (db : Database) (response : Option StartInfo)
  | registerDatabase (db : Database) (response : Option StartInfo)
  | deleteDatabaseProfile (db : Database) (response : Option StartInfo)

inductive LoginResult
  | startAllDatabases (hostUid : HostUid) (succeeded : Option (List Text))
  | stopAllDatabases (hostUid : HostUid) (succeeded : Option (List Text))
  | runSelectedDatabasesAction (hostUid : HostUid) (succeeded : Option (List Text))
  | loginDatabase (db : Database)
  | logoutDatabase (db : Database)

/-- An action that is not the result of a request to the server. -/
inductive LocalAction
  | setSelectedDatabase (dbname : Option Text)
  | setSelectedDatabaseSubItem (subItem : Option Text)
  | setSelectedHost (hostUid : Option HostUid)
  | loginPending (db : Database)
  | loginRejected (db : Database)
  | clearDatabaseLoginsForHost (hostUid : HostUid)

def InfoResult.db : InfoResult → Database
  | startDatabase db _ | stopDatabase db _ | registerDatabase db _ | deleteDatabaseProfile db _ => db

def InfoResult.response : InfoResult → Option StartInfo
  | startDatabase _ response | stopDatabase _ response | registerDatabase _ response
  | deleteDatabaseProfile _ response => response

namespace Core

variable (state : Core)

def fetchDatabaseStartInfoPending (hostUid : HostUid) (requestId : Nat) (isBackground : Bool) : Core :=
  state.startRead hostUid requestId (!isBackground)

def fetchDatabaseStartInfoFulfilled (hostUid : HostUid) (requestId : Nat) (isBackground : Bool)
    (payload : Option StartInfo) (seq : Nat) : Core :=
  match state.settleRead hostUid requestId with
  | some state => state.applyStartInfo hostUid payload seq isBackground
  | none => state

/-- A view is emptied. -/
def clearLists (hostUid : HostUid) (clearLive clearNavigator : Bool) : Core :=
  (state.setDatabases hostUid clearLive clearNavigator []).setActive hostUid clearLive clearNavigator []

def fetchDatabaseStartInfoRejected (hostUid : HostUid) (requestId : Nat) (isBackground : Bool) (seq : Nat) : Core :=
  match state.settleRead hostUid requestId with
  | some state =>
    if isBackground then state
    else
      let updateLive := state.newerThanLive hostUid seq
      let updateNavigator := state.newerThanNavigator hostUid seq
      (state.claim hostUid updateLive updateNavigator seq).clearLists hostUid updateLive updateNavigator
  | none => state

/-- `startDatabase.fulfilled`, `stopDatabase.fulfilled`, `registerDatabase.fulfilled` and
`deleteDatabaseProfile.fulfilled`. -/
def infoFulfilled (seq : Nat) : InfoResult → Core
  | .startDatabase db response | .stopDatabase db response =>
    (state.applyStartInfo db.hostUid response seq false).pushLoggedIn db.hostUid db.dbname seq
  | .registerDatabase db response =>
    if response.isSome then state.applyStartInfo db.hostUid response seq false else state
  | .deleteDatabaseProfile db response =>
    let state := state.dropLoggedIn db.hostUid db.dbname seq
    if response.isSome then state.applyStartInfo db.hostUid response seq false else state

def loginFulfilled (seq : Nat) : LoginResult → Core
  | .startAllDatabases hostUid succeeded | .stopAllDatabases hostUid succeeded
  | .runSelectedDatabasesAction hostUid succeeded => state.markBulkSucceededLoggedIn hostUid succeeded seq
  | .loginDatabase db =>
    { state with loggingInDatabases := Function.update state.loggingInDatabases db.key (some false) }.pushLoggedIn
      db.hostUid db.dbname seq
  | .logoutDatabase db => state.dropLoggedIn db.hostUid db.dbname seq

def clearDatabaseLogin (db : Database) (seq : Nat) : Core :=
  { state with loggingInDatabases := Function.update state.loggingInDatabases db.key none }.dropLoggedIn
    db.hostUid db.dbname seq

def localAction : LocalAction → Core
  | .setSelectedDatabase dbname =>
    if state.selectedDatabase ≠ dbname then { state with selectedDatabase := dbname, selectedDatabaseSubItem := none }
    else state
  | .setSelectedDatabaseSubItem subItem => { state with selectedDatabaseSubItem := subItem }
  | .setSelectedHost hostUid => { state with activeHostUid := hostUid }
  | .loginPending db => { state with loggingInDatabases := Function.update state.loggingInDatabases db.key (some true) }
  | .loginRejected db =>
    { state with loggingInDatabases := Function.update state.loggingInDatabases db.key (some false) }
  | .clearDatabaseLoginsForHost hostUid =>
    { state with
      loggedInDatabases := state.loggedInDatabases.filter fun key => !(dbKey hostUid []).isPrefixOf key
      loggingInDatabases := fun key =>
        if (dbKey hostUid []).isPrefixOf key then none else state.loggingInDatabases key }

def closeHostTabs (hostUid : HostUid) (seq : Nat) : Core :=
  { state with
    databasesByHost := Function.update state.databasesByHost hostUid none
    activeDatabasesByHost := Function.update state.activeDatabasesByHost hostUid none
    navigatorDatabasesByHost := Function.update state.navigatorDatabasesByHost hostUid none
    navigatorActiveDatabasesByHost := Function.update state.navigatorActiveDatabasesByHost hostUid none
    haDbNamesByHost := Function.update state.haDbNamesByHost hostUid none
    appliedLiveSeqByHost := Function.update state.appliedLiveSeqByHost hostUid (some seq)
    appliedNavigatorSeqByHost := Function.update state.appliedNavigatorSeqByHost hostUid (some seq)
    pendingReadsByHost := Function.update state.pendingReadsByHost hostUid []
    loadingByHost := Function.update state.loadingByHost hostUid false }

end Core

end CubridWebManager.DatabaseCore
