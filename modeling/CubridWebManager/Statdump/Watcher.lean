import CubridWebManager.Lib.Dict
import CubridWebManager.Lib.JsText
import CubridWebManager.Lib.PromiseQueue
import CubridWebManager.Lib.Run

/-!
# The statdump watchers

CMS keeps a statdump watcher on a database from `start_statdump` to `stop_statdump`, and never ends one by itself.  The
API server therefore keeps a lease for each watcher, which every start renews, and sweeps the leases that were not
renewed in time.  The calls to CMS for one host and database queue up in a chain of promises.

A call is given by the point it waits at.  The host lookup and the request of `executeCmsRequest` are one await, with
CMS answering or the call failing before CMS has the request.
-/

namespace CubridWebManager.Statdump

/-! ### The requests and their answers -/

def statdumpWatcherIntervalSec : Nat := 60

def statdumpWatcherLeaseTtlMs : Nat := 150 * 1000

def statdumpWatcherTarget (dbname : String) : String := dbname ++ "@127.0.0.1"

/-- `JSON.stringify([hostUid, dbname])`, which reads back as the same pair. -/
structure LeaseKey where
  hostUid : String
  dbname : String
  deriving DecidableEq

def statdumpLeaseKey (hostUid dbname : String) : LeaseKey := ⟨hostUid, dbname⟩

structure CmsRequest where
  task : String
  dbname : String
  interval : Option String := none
  deriving DecidableEq

/-- How CMS answers: with success, or with an error and its `note`. -/
inductive Answer
  | success
  | failure (note : String)

/-- What `startStatDumpWatcher` and `stopStatDumpWatcher` return. -/
inductive WatcherResponse
  | running (alreadyRunning : Bool)
  | stopped (wasRunning : Bool)
  deriving DecidableEq

/-- `/part/i.test(note)`, for a part of lower case letters and blanks. -/
def noteHas (part note : String) : Bool := part.toList <:+: note.toList.map Char.toLower

/-- What the call of a start does with the answer: it returns or throws. -/
def startResult : Answer → Option WatcherResponse
  | .success => some (.running false)
  | .failure note => if noteHas "already running" note then some (.running true) else none

/-- `sendStopStatdump` with the answer. -/
def stopResult : Answer → Option WatcherResponse
  | .success => some (.stopped true)
  | .failure note => if noteHas "no statdump running" note then some (.stopped false) else none

/-! ### The state -/

/-- A lease is an object: each start makes a new one, which its `id` tells apart.  It has its key's host and database. -/
structure Lease where
  id : Nat
  userId : String
  renewedAt : Nat

/-- What a call to CMS is made for. -/
inductive Method
  | start
  /-- `stopStatDumpWatcher`, with the lease that it read. -/
  | stop (lease : Option Nat)
  /-- The stop of `sweepExpiredStatdumpLeases`. -/
  | expire
  deriving DecidableEq

def Method.isStart : Method → Bool
  | .start => true
  | .stop _ | .expire => false

inductive Phase
  | absent
  /-- `await ensureDbLogin(..)` of a start. -/
  | login
  /-- In the chain of promises of its key. -/
  | queued
  /-- `await executeCmsRequest(..)`. -/
  | sent
  /-- The promise of the chain is settled, and the caller has not gone on yet. -/
  | settled (result : Option WatcherResponse)
  | returned (response : WatcherResponse)
  | threw
  deriving DecidableEq

structure Call where
  method : Method
  userId : String
  key : LeaseKey
  /-- The place in the chain, from the moment it has one. -/
  seat : Option (PromiseQueue.Seat LeaseKey)
  /-- The lease that a start made. -/
  lease : Option Nat
  phase : Phase

def Call.cmsRequest (c : Call) : CmsRequest :=
  if c.method.isStart then
    ⟨"start_statdump", statdumpWatcherTarget c.key.dbname, some (toString statdumpWatcherIntervalSec)⟩
  else ⟨"stop_statdump", statdumpWatcherTarget c.key.dbname, none⟩

def Call.result (c : Call) (answer : Answer) : Option WatcherResponse :=
  if c.method.isStart then startResult answer else stopResult answer

/-- A request that CMS has answered. -/
structure Executed where
  call : Nat
  request : CmsRequest
  successful : Bool

structure State where
  now : Nat
  statdumpLeases : Dict LeaseKey Lease
  /-- The leases made so far. -/
  leases : Nat
  /-- `statdumpCalls`, with the promises in it. -/
  statdumpCalls : PromiseQueue LeaseKey
  nextCall : Nat
  calls : Nat → Call
  /-- What CMS has answered, in order. -/
  executed : List Executed

/-- The server has just started. -/
def State.fresh (now : Nat) : State where
  now := now
  statdumpLeases := Dict.empty
  leases := 0
  statdumpCalls := .empty
  nextCall := 0
  calls _ := ⟨.expire, "", ⟨"", ""⟩, none, none, .absent⟩
  executed := []

/-! ### The steps -/

inductive Act
  | tick (ms : Nat)
  | startStatDumpWatcher (userId hostUid dbname : String)
  | stopStatDumpWatcher (userId hostUid dbname : String)
  | sweepExpiredStatdumpLeases
  /-- `ensureDbLogin` resolves. -/
  | loggedIn (i : Nat)
  | loginFailed (i : Nat)
  /-- The promise before it is settled, and the call goes ahead. -/
  | send (i : Nat)
  | answer (i : Nat) (a : Answer)
  /-- The call fails before CMS has the request. -/
  | fail (i : Nat)
  /-- The caller goes on. -/
  | resume (i : Nat)
  /-- The cleanup of `statdumpCalls` after the last promise of a chain. -/
  | forget (key : LeaseKey)

namespace State

variable (s : State)

def setCall (i : Nat) (c : Call) : State := { s with calls := Function.update s.calls i c }

def setPhase (i : Nat) (phase : Phase) : State := s.setCall i { s.calls i with phase := phase }

/-- `serializeStatdumpCall`: the call joins the chain of its key. -/
def serializeStatdumpCall (i : Nat) (method : Method) (userId : String) (key : LeaseKey) (lease : Option Nat) : State :=
  { s with statdumpCalls := s.statdumpCalls.join key }.setCall i
    ⟨method, userId, key, some (s.statdumpCalls.seatFor key), lease, .queued⟩

/-- A lease of the sweep's list: it is dropped, and its watcher's stop joins the chain. -/
def sweepLease (e : LeaseKey × Lease) : State :=
  { { s with statdumpLeases := s.statdumpLeases.erase e.1 }.serializeStatdumpCall s.nextCall .expire e.2.userId e.1 none
    with nextCall := s.nextCall + 1 }

def expired : List (LeaseKey × Lease) :=
  s.statdumpLeases.entries.filter fun e => e.2.renewedAt + statdumpWatcherLeaseTtlMs ≤ s.now

def sweep : State := s.expired.foldl sweepLease s

def startWatcher (userId hostUid dbname : String) : State :=
  { s.setCall s.nextCall ⟨.start, userId, statdumpLeaseKey hostUid dbname, none, none, .login⟩ with
    nextCall := s.nextCall + 1 }

/-- The user of a start is logged in to the database: the lease is renewed, and the call joins the chain. -/
def renew (i : Nat) : State :=
  let c := s.calls i
  { s with statdumpLeases := s.statdumpLeases.set c.key ⟨s.leases, c.userId, s.now⟩, leases := s.leases + 1
    }.serializeStatdumpCall i .start c.userId c.key (some s.leases)

def stopWatcher (userId hostUid dbname : String) : State :=
  let key := statdumpLeaseKey hostUid dbname
  { s.serializeStatdumpCall s.nextCall (.stop ((s.statdumpLeases.get? key).map Lease.id)) userId key none with
    nextCall := s.nextCall + 1 }

/-- The promise of the call is settled. -/
def settle (i : Nat) (a : PromiseQueue.Seat LeaseKey) (result : Option WatcherResponse) : State :=
  { s with statdumpCalls := s.statdumpCalls.settle a }.setPhase i (.settled result)

/-- `if (this.statdumpLeases.get(key) === lease) this.statdumpLeases.delete(key)` -/
def dropLease (key : LeaseKey) (lease : Option Nat) : State :=
  if (s.statdumpLeases.get? key).map Lease.id = lease then
    { s with statdumpLeases := s.statdumpLeases.erase key }
  else s

/-- The caller has the result. -/
def finish (i : Nat) (result : Option WatcherResponse) : State :=
  match result, (s.calls i).method with
  | none, _ => s.setPhase i .threw
  | some response, .stop lease => (s.dropLease (s.calls i).key lease).setPhase i (.returned response)
  | some response, _ => s.setPhase i (.returned response)

end State

def step (s : State) : Act → Option State
  | .tick ms => some { s with now := s.now + ms }
  | .startStatDumpWatcher userId hostUid dbname => some (s.startWatcher userId hostUid dbname)
  | .stopStatDumpWatcher userId hostUid dbname => some (s.stopWatcher userId hostUid dbname)
  | .sweepExpiredStatdumpLeases => some s.sweep
  | .loggedIn i => if (s.calls i).phase = .login then some (s.renew i) else none
  | .loginFailed i => if (s.calls i).phase = .login then some (s.setPhase i .threw) else none
  | .send i =>
    match (s.calls i).phase, (s.calls i).seat with
    | .queued, some a => if s.statdumpCalls.ready a then some (s.setPhase i .sent) else none
    | _, _ => none
  | .answer i answer =>
    match (s.calls i).phase, (s.calls i).seat with
    | .sent, some a =>
      let c := s.calls i
      let executed : Executed := ⟨i, c.cmsRequest, (c.result answer).isSome⟩
      some ({ s with executed := s.executed ++ [executed] }.settle i a (c.result answer))
    | _, _ => none
  | .fail i =>
    match (s.calls i).phase, (s.calls i).seat with
    | .sent, some a => some (s.settle i a none)
    | _, _ => none
  | .resume i =>
    match (s.calls i).phase with
    | .settled result => some (s.finish i result)
    | _ => none
  | .forget key => some { s with statdumpCalls := s.statdumpCalls.forget key }

end CubridWebManager.Statdump
