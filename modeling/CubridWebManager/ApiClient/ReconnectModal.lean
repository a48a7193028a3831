import CubridWebManager.ApiClient.HostRelogin

/-!
# The reconnect modal

A host whose session is lost is kept in two places: in `reconnectingHosts` of the api client, which drops the further
401s of the host, and in `reconnectQueue` of the host slice, whose first host the reconnect modal asks the user about.
A login to a host that succeeds takes the host off the queue, whoever made it; the modal takes the first host off the
queue when it closes.  Only the modal takes a host out of `reconnectingHosts`, except where the modal cannot be opened.

The handlers of the modal await their imports before they close it, and the modal can be closed while a reconnect is
under way, so that more than one of them may be running.
-/

namespace CubridWebManager.ApiClient.ReconnectModal

open HostRelogin (HostUid Dispatched)

/-! ### The host slice -/

structure HostSlice where
  hosts : List HostUid
  authorizedHosts : List HostUid
  reconnectQueue : List HostUid

namespace HostSlice

variable (slice : HostSlice)

def openReconnectModal (hostUid : HostUid) : HostSlice :=
  if hostUid ≠ "" ∧ hostUid ∉ slice.reconnectQueue then
    { slice with reconnectQueue := slice.reconnectQueue ++ [hostUid] }
  else slice

def closeReconnectModal : HostSlice := { slice with reconnectQueue := slice.reconnectQueue.tail }

def revokeHostLogin (hostUid : HostUid) : HostSlice :=
  { slice with authorizedHosts := slice.authorizedHosts.filter (· ≠ hostUid) }

/-- `loginToHost.fulfilled` -/
def loginFulfilled (hostUid : HostUid) : HostSlice where
  hosts := slice.hosts
  authorizedHosts :=
    if hostUid ∈ slice.authorizedHosts then slice.authorizedHosts else slice.authorizedHosts ++ [hostUid]
  reconnectQueue := slice.reconnectQueue.filter (· ≠ hostUid)

def applyHostGroupsResponse (hosts : List HostUid) : HostSlice :=
  { slice with
    hosts := hosts
    authorizedHosts := slice.authorizedHosts.filter (· ∈ hosts) }

def purgeHostClientState (hostUid : HostUid) : HostSlice :=
  { slice with authorizedHosts := slice.authorizedHosts.filter (· ≠ hostUid) }

/-- `deleteHost.fulfilled`, with the hosts that are left. -/
def hostDeleted (hostUid : HostUid) (hosts : List HostUid) : HostSlice :=
  (slice.applyHostGroupsResponse hosts).purgeHostClientState hostUid

/-- The actions that the api client dispatches. -/
def reduce : Dispatched → HostSlice
  | .revokeHostLogin hostUid => slice.revokeHostLogin hostUid
  | .openReconnectModal hostUid => slice.openReconnectModal hostUid

end HostSlice

/-! ### The handlers -/

inductive Handler
  /-- `handleReconnect`, at the login that is the call `l`. -/
  | loggingIn (hostUid : HostUid) (l : Nat)
  /-- `handleReconnect` after its login, at the imports before it closes the modal. -/
  | reconnected (hostUid : HostUid)
  /-- `handleDisconnect`, at its imports. -/
  | disconnecting (hostUid : HostUid)
  deriving DecidableEq

def Handler.hostUid : Handler → HostUid
  | .loggingIn hostUid _ | .reconnected hostUid | .disconnecting hostUid => hostUid

/-- A close of the modal: the host whose handler closed it, and the host that was taken off the queue. -/
structure Close where
  handled : HostUid
  removed : Option HostUid
  deriving DecidableEq

structure State where
  api : HostRelogin.State
  slice : HostSlice
  /-- The logins that have been dispatched as fulfilled. -/
  fulfilled : Nat → Bool
  isReconnecting : Bool
  handlers : List Handler
  /-- The closes so far. -/
  closed : List Close

/-- The page has just been loaded, and the hosts have been fetched. -/
def State.loaded (now : Nat) (hosts authorizedHosts : List HostUid) : State where
  api := .fresh now
  slice := { hosts := hosts, authorizedHosts := authorizedHosts, reconnectQueue := [] }
  fulfilled _ := false
  isReconnecting := false
  handlers := []
  closed := []

/-! ### The steps -/

inductive Act
  /-- A step of the api client. -/
  | api (a : HostRelogin.Act)
  /-- The refresh of the app session is over that the call waits for; where it went well, the request is sent again. -/
  | appSessionOver (c : Nat) (ok : Bool)
  /-- The login is dispatched as fulfilled. -/
  | loginFulfilled (l : Nat)
  | hostDeleted (hostUid : HostUid) (hosts : List HostUid)
  | handleReconnect
  | handleDisconnect
  /-- The `then` of the handler's login. -/
  | reconnected (i : Nat)
  /-- The `catch` of the handler's login. -/
  | reconnectFailed (i : Nat)
  /-- The handler closes the modal. -/
  | close (i : Nat)

/-- The steps of the api client that it takes by itself.  `getHostUidFromUrl` gives no empty uid. -/
def byItself : HostRelogin.Act → Bool
  | .clearReconnectingHost _ => false
  | .call route => route.hostUid ≠ some ""
  | _ => true

namespace State

variable (s : State)

/-- The api client has made a step, and the store takes what it dispatched.  A modal that opens forgets a reconnect that
it was waiting for. -/
def withApi (api : HostRelogin.State) : State :=
  let slice := (api.dispatched.drop s.api.dispatched.length).foldl HostSlice.reduce s.slice
  { s with
    api := api
    slice := slice
    isReconnecting := s.isReconnecting && (s.slice.reconnectQueue ≠ [] || slice.reconnectQueue = []) }

def clearReconnectingHost (hostUid : HostUid) : HostRelogin.State :=
  { s.api with reconnectingHosts := Function.update s.api.reconnectingHosts hostUid false }

/-- `handleReconnect` up to its login. -/
def handleReconnect (reconnectHostUid : HostUid) : State :=
  { s with
    api := s.api.newCall { hostUid := some reconnectHostUid, isHostLoginRequest := true } .sent
    isReconnecting := true
    handlers := s.handlers ++ [.loggingIn reconnectHostUid s.api.nextCall] }

/-- `handleDisconnect` up to its imports. -/
def handleDisconnect (reconnectHostUid : HostUid) : State :=
  { s with
    api := s.clearReconnectingHost reconnectHostUid
    slice := s.slice.revokeHostLogin reconnectHostUid
    handlers := s.handlers ++ [.disconnecting reconnectHostUid] }

/-- The handler at `i`, of the host, closes the modal and is done. -/
def close (i : Nat) (hostUid : HostUid) : State :=
  { s with
    slice := s.slice.closeReconnectModal
    handlers := s.handlers.eraseIdx i
    closed := s.closed ++ [⟨hostUid, s.slice.reconnectQueue.head?⟩] }

end State

def step (s : State) : Act → Option State
  | .api a => if byItself a then (HostRelogin.step s.api a).map s.withApi else none
  | .appSessionOver c ok =>
    match (s.api.calls c).phase with
    | .appSession =>
      some { s with
        api :=
          if ok then s.api.setCall c { s.api.calls c with issuedAt := s.api.now, retry := true, phase := .sent }
          else s.api.setPhase c .rejected }
    | _ => none
  | .loginFulfilled l =>
    match (s.api.calls l).phase, (s.api.calls l).route.hostUid with
    | .answered, some hostUid =>
      if (s.api.calls l).route.isHostLoginRequest ∧ s.fulfilled l = false then
        some { s with
          slice := s.slice.loginFulfilled hostUid
          fulfilled := Function.update s.fulfilled l true }
      else none
    | _, _ => none
  | .hostDeleted hostUid hosts => some { s with slice := s.slice.hostDeleted hostUid hosts }
  | .handleReconnect =>
    match s.slice.reconnectQueue.head? with
    | some reconnectHostUid =>
      if s.isReconnecting ∨ reconnectHostUid = "" then none else some (s.handleReconnect reconnectHostUid)
    | none => none
  | .handleDisconnect => s.slice.reconnectQueue.head?.map s.handleDisconnect
  | .reconnected i =>
    match s.handlers[i]? with
    | some (.loggingIn hostUid l) =>
      if s.fulfilled l then
        some { s with
          api := s.clearReconnectingHost hostUid
          handlers := s.handlers.set i (.reconnected hostUid) }
      else none
    | _ => none
  | .reconnectFailed i =>
    match s.handlers[i]? with
    | some (.loggingIn _ l) =>
      if (s.api.calls l).phase = .refused ∨ (s.api.calls l).phase = .rejected then
        some { s with
          isReconnecting := false
          handlers := s.handlers.eraseIdx i }
      else none
    | _ => none
  | .close i =>
    match s.handlers[i]? with
    | some (.reconnected hostUid) | some (.disconnecting hostUid) => some (s.close i hostUid)
    | _ => none

end CubridWebManager.ApiClient.ReconnectModal
