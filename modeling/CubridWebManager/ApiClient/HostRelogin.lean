import CubridWebManager.ApiClient.TokenRefresh

/-!
# The silent re-login to a host

On a 401 of a host session the response interceptor revokes the host's login, logs in again and sends the request once
more, without the user.  A circuit breaker counts these failures for each host and opens the reconnect modal in place of
another cycle when there are too many of them within a window of time.

A login to the host is a request like any other, and its answer goes through the interceptors as well.  The 401s of the
app session are those of `CubridWebManager.ApiClient.TokenRefresh`.
-/

namespace CubridWebManager.ApiClient.HostRelogin

abbrev HostUid := String

def autoReloginMaxAttempts : Nat := 3

def autoReloginWindowMs : Nat := 15000

/-- An entry of `hostAutoReloginFailures`. -/
structure FailureEntry where
  count : Nat
  windowStart : Nat
  deriving DecidableEq

/-! ### The calls -/

/-- Where a call is that revokes the login, logs in and is sent again. -/
inductive Cycle
  | importing
  /-- `await refreshingHosts.get(hostUid)`, the login `l`. -/
  | loggingIn (l : Nat)
  deriving DecidableEq

inductive Phase
  | absent
  /-- The import of a silent login, before its request. -/
  | starting
  /-- The request is out. -/
  | sent
  | cycle (at_ : Cycle)
  /-- The import before the reconnect modal is opened. -/
  | openingModal
  /-- A 401 of the app session. -/
  | appSession
  | answered
  /-- Answered with success, in a login that takes the answer for a failure. -/
  | refused
  | rejected
  deriving DecidableEq

structure Call where
  route : Route
  /-- `__issuedAt` -/
  issuedAt : Nat
  /-- `_retry` -/
  retry : Bool
  phase : Phase

inductive Dispatched
  | revokeHostLogin (hostUid : HostUid)
  | openReconnectModal (hostUid : HostUid)
  deriving DecidableEq

/-- A 401 that the circuit breaker counted: it started another cycle, or tripped the breaker.  `windowStart` is the time
of the first failure of the window it falls into. -/
structure Failure where
  call : Nat
  hostUid : HostUid
  windowStart : Nat
  tripped : Bool
  deriving DecidableEq

structure State where
  now : Nat
  lastLoginSuccessAt : HostUid → Option Nat
  reconnectingHosts : HostUid → Bool
  /-- The promise of a silent login, by the call that it makes. -/
  refreshingHosts : HostUid → Option Nat
  hostAutoReloginFailures : HostUid → Option FailureEntry
  nextCall : Nat
  calls : Nat → Call
  dispatched : List Dispatched
  /-- The failures counted so far, in order. -/
  failures : List Failure

/-- The page has just been loaded. -/
def State.fresh (now : Nat) : State where
  now := now
  lastLoginSuccessAt _ := none
  reconnectingHosts _ := false
  refreshingHosts _ := none
  hostAutoReloginFailures _ := none
  nextCall := 0
  calls _ := ⟨{}, 0, false, .absent⟩
  dispatched := []
  failures := []

/-! ### The steps -/

inductive Act
  | tick (ms : Nat)
  /-- A request is sent, a login of the user's among them. -/
  | call (route : Route)
  /-- An answer with success; a login may take what it says for a failure. -/
  | answer (c : Nat) (accepted : Bool)
  /-- An error that is no 401. -/
  | fail (c : Nat)
  | unauthorized (c : Nat) (isAppSessionError isInvalidTokenError : Bool)
  /-- The import that the call awaits. -/
  | imported (c : Nat) (ok : Bool)
  /-- The call goes on after the login it awaits. -/
  | resume (c : Nat)
  /-- `clearReconnectingHost`, by the reconnect modal. -/
  | clearReconnectingHost (hostUid : HostUid)

namespace State

variable (s : State)

def setCall (c : Nat) (call : Call) : State := { s with calls := Function.update s.calls c call }

@[simp] theorem setCall_self (c : Nat) (call : Call) : (s.setCall c call).calls c = call := Function.update_self ..

theorem setCall_of_ne {c c' : Nat} (h : c' ≠ c) (call : Call) : (s.setCall c call).calls c' = s.calls c' :=
  Function.update_of_ne h ..

def setPhase (c : Nat) (phase : Phase) : State := s.setCall c { s.calls c with phase := phase }

def newCall (route : Route) (phase : Phase) : State :=
  { s.setCall s.nextCall ⟨route, s.now, false, phase⟩ with nextCall := s.nextCall + 1 }

def isStaleHostRequest (hostUid : HostUid) (c : Nat) : Bool :=
  (s.calls c).issuedAt < (s.lastLoginSuccessAt hostUid).getD 0

/-- The interceptor on a success. -/
def answered (c : Nat) : State :=
  match (s.calls c).route.hostUid with
  | none => s
  | some hostUid =>
    { s with
      lastLoginSuccessAt :=
        if (s.calls c).route.isHostLoginRequest then Function.update s.lastLoginSuccessAt hostUid (some s.now)
        else s.lastLoginSuccessAt
      hostAutoReloginFailures := Function.update s.hostAutoReloginFailures hostUid none }

/-- `reconnectingHosts.add(hostUid)`, and the import before the modal is opened. -/
def openModal (c : Nat) (hostUid : HostUid) : State :=
  { s with reconnectingHosts := Function.update s.reconnectingHosts hostUid true }.setPhase c .openingModal

/-- The entry after another failure. -/
def failureEntry (hostUid : HostUid) : FailureEntry :=
  match s.hostAutoReloginFailures hostUid with
  | some entry =>
    if s.now - entry.windowStart < autoReloginWindowMs then { entry with count := entry.count + 1 } else ⟨1, s.now⟩
  | none => ⟨1, s.now⟩

/-- The window of the last failure of the host, if there was one. -/
def lastWindow (hostUid : HostUid) : Option Nat :=
  ((s.failures.filter fun f => f.hostUid = hostUid).getLast?).map Failure.windowStart

/-- The window that a failure falls into now: the one that runs, or a new one. -/
def window (hostUid : HostUid) : Nat :=
  match s.lastWindow hostUid with
  | some windowStart => if s.now - windowStart < autoReloginWindowMs then windowStart else s.now
  | none => s.now

/-- The failure is counted, and the circuit breaker decides. -/
def countFailure (c : Nat) (hostUid : HostUid) : State :=
  let entry := s.failureEntry hostUid
  let tripped : Bool := autoReloginMaxAttempts < entry.count
  let counted : State :=
    { s with
      hostAutoReloginFailures := Function.update s.hostAutoReloginFailures hostUid (some entry)
      failures := s.failures ++ [⟨c, hostUid, s.window hostUid, tripped⟩] }
  if tripped then counted.openModal c hostUid else counted.setPhase c (.cycle .importing)

/-- The interceptor on a 401. -/
def unauthorized (c : Nat) (isAppSessionError isInvalidTokenError : Bool) : State :=
  let call := s.calls c
  if call.retry then s.setPhase c .rejected
  else
    match call.route.hostUid with
    | none => s.setPhase c .appSession
    | some hostUid =>
      if isAppSessionError then s.setPhase c .appSession
      else if call.route.isHostLoginRequest then s.setPhase c .rejected
      else if s.reconnectingHosts hostUid then s.setPhase c .rejected
      else if s.isStaleHostRequest hostUid c then s.setPhase c .rejected
      else if isInvalidTokenError then s.openModal c hostUid
      else s.countFailure c hostUid

/-- The `catch` of a cycle. -/
def cycleFailed (c : Nat) (hostUid : HostUid) : State :=
  let s := { s with refreshingHosts := Function.update s.refreshingHosts hostUid none }
  if s.reconnectingHosts hostUid || s.isStaleHostRequest hostUid c then s.setPhase c .rejected
  else s.openModal c hostUid

/-- `loginToHost`, whose promise is set as the host's. -/
def silentLogin (hostUid : HostUid) : State :=
  { s with refreshingHosts := Function.update s.refreshingHosts hostUid (some s.nextCall) }.newCall
    { hostUid := some hostUid, isHostLoginRequest := true } .starting

/-- The cycle after its import: the login is revoked, and a new one is made unless one is under way. -/
def relogin (c : Nat) (hostUid : HostUid) : State :=
  let s := { s with dispatched := s.dispatched ++ [Dispatched.revokeHostLogin hostUid] }
  match s.refreshingHosts hostUid with
  | some l => s.setPhase c (.cycle (.loggingIn l))
  | none => (s.silentLogin hostUid).setPhase c (.cycle (.loggingIn s.nextCall))

/-- The request is sent once more. -/
def retry (c : Nat) (hostUid : HostUid) : State :=
  { s with refreshingHosts := Function.update s.refreshingHosts hostUid none }.setCall c
    { s.calls c with issuedAt := s.now, retry := true, phase := .sent }

end State

def step (s : State) : Act → Option State
  | .tick ms => some { s with now := s.now + ms }
  | .call route => some (s.newCall route .sent)
  | .answer c accepted =>
    match (s.calls c).phase with
    | .sent => some ((s.answered c).setPhase c (if accepted then .answered else .refused))
    | _ => none
  | .fail c =>
    match (s.calls c).phase with
    | .sent => some (s.setPhase c .rejected)
    | _ => none
  | .unauthorized c isAppSessionError isInvalidTokenError =>
    match (s.calls c).phase with
    | .sent => some (s.unauthorized c isAppSessionError isInvalidTokenError)
    | _ => none
  | .imported c ok =>
    match (s.calls c).phase, (s.calls c).route.hostUid with
    | .starting, _ =>
      some (if ok then s.setCall c { s.calls c with issuedAt := s.now, phase := .sent } else s.setPhase c .rejected)
    | .cycle .importing, some hostUid => some (if ok then s.relogin c hostUid else s.cycleFailed c hostUid)
    | .openingModal, some hostUid =>
      some ((if ok then { s with dispatched := s.dispatched ++ [Dispatched.openReconnectModal hostUid] }
        else { s with reconnectingHosts := Function.update s.reconnectingHosts hostUid false }).setPhase c .rejected)
    | _, _ => none
  | .resume c =>
    match (s.calls c).phase, (s.calls c).route.hostUid with
    | .cycle (.loggingIn l), some hostUid =>
      match (s.calls l).phase with
      | .answered => some (s.retry c hostUid)
      | .refused | .rejected => some (s.cycleFailed c hostUid)
      | _ => none
    | _, _ => none
  | .clearReconnectingHost hostUid =>
    some { s with reconnectingHosts := Function.update s.reconnectingHosts hostUid false }

end CubridWebManager.ApiClient.HostRelogin
