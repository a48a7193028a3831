import CubridWebManager.HostTree.Groups
import CubridWebManager.Lib.Run

/-!
# What the client knows of its hosts

The host slice keeps the list of hosts, and for single hosts whether the client is logged in to them, what it knows of
their HA nodes and environment, and why a login failed.  Requests are answered in any order.  The answers that bring a
new list take what is kept of other hosts away; those about one host are written down as they come.
-/

namespace CubridWebManager.HostTree

open Transition

/-- The requests about hosts. -/
inductive Request
  | fetchHosts
  | addHost
  | editHost (hostUid : String)
  | moveHost (hostUid : String)
  | deleteHost (hostUid : String)
  /-- The hosts that the group has when the request is made. -/
  | deleteHostGroup (groupId : String) (removedHostUids : List String)
  | loginToHost (hostUid : String)
  | refreshHaInfo (hostUid : String)
  | fetchHostEnv (hostUid : String)
  deriving DecidableEq

/-- What a request is answered with. -/
inductive Answer (HaInfo Env : Type)
  | hostGroups (hostGroups : HostGroups) (keyed : Keyed hostGroups)
  | haInfo (haInfo : HaInfo)
  | env (env : Env)
  | rejected (message : Text)

structure State (HaInfo Env : Type) where
  hosts : List Host := []
  hostGroups : HostGroups := .empty
  authorizedHosts : List String := []
  authorizedHostsHydrated : Bool := false
  /-- A host whose environment could not be read has `none`. -/
  hostEnvs : Dict String (Option Env) := .empty
  haInfo : Dict String HaInfo
  hostsAwaitingHaLogin : List String := []
  selectedHostUid : Option String := none
  selectedGroupUid : Option String := none
  hostAuthErrors : Dict String Text := .empty
  skipAutoHostLogin : Bool := false
  isBatchHostLogin : Bool := false
  error : Option Text := none
  loginErrorHostUid : Option String := none
  reconnectQueue : List String := []
  /-- The requests on their way. -/
  pending : List Request := []

section reducers

variable {HaInfo Env : Type} (s : State HaInfo Env)

/-! ### Helpers of the reducers -/

def addUid (uid : String) (uids : List String) : List String := if uid ∈ uids then uids else uids ++ [uid]

def purgeHostClientState (hostUid : String) : State HaInfo Env :=
  { s with
    authorizedHosts := s.authorizedHosts.filter (· ≠ hostUid)
    haInfo := s.haInfo.erase hostUid
    hostEnvs := s.hostEnvs.erase hostUid
    hostAuthErrors := s.hostAuthErrors.erase hostUid }

def clearHostLoginError (hostUid : String) : State HaInfo Env :=
  match s.hostAuthErrors.get? hostUid with
  | none => s
  | some message =>
    let own := s.loginErrorHostUid = some hostUid ∧ s.error = some message
    { s with
      error := if own then none else s.error
      loginErrorHostUid := if own then none else s.loginErrorHostUid
      hostAuthErrors := s.hostAuthErrors.erase hostUid }

/-- The uids of the hosts in the list. -/
def State.uids : List String := s.hosts.map Host.uid

def applyHostGroupsResponse (hostGroups : HostGroups) : State HaInfo Env :=
  let validUids := (flattenHostsFromGroups hostGroups).map Host.uid
  { s with
    hostGroups
    hosts := flattenHostsFromGroups hostGroups
    authorizedHosts := s.authorizedHosts.filter (· ∈ validUids)
    haInfo := s.haInfo.filter fun uid _ => uid ∈ validUids
    hostEnvs := s.hostEnvs.filter fun uid _ => uid ∈ validUids
    hostAuthErrors := s.hostAuthErrors.filter fun uid _ => uid ∈ validUids }

/-- A text that counts as true. -/
def truthy (text : Option String) : Bool := text.any (· ≠ "")

/-- The first half of `syncHostSelection`. -/
def syncSelectedHost : State HaInfo Env :=
  if truthy s.selectedHostUid then
    let groupId := s.selectedHostUid.bind (findGroupIdForHost s.hostGroups)
    if truthy groupId then { s with selectedGroupUid := groupId } else { s with selectedHostUid := none }
  else s

def syncHostSelection : State HaInfo Env :=
  let s := syncSelectedHost s
  if truthy s.selectedGroupUid && (s.selectedGroupUid.bind s.hostGroups.get?).isNone then
    { s with selectedGroupUid := none }
  else s

/-! ### The reducers -/

def fetchHostsFulfilled (hostGroups : HostGroups) (now : Nat) : State HaInfo Env :=
  let s := applyHostGroupsResponse s hostGroups
  if s.authorizedHostsHydrated then s
  else
    { s with
      authorizedHosts := s.hosts.foldl (fun uids host =>
        if host.cmsSessionExpiresAt.any (now < ·) then addUid host.uid uids else uids) s.authorizedHosts
      authorizedHostsHydrated := true }

/-- The first host of the new list that the old one does not have. -/
def newHost (hostGroups : HostGroups) : Option Host := (flattenHostsFromGroups hostGroups).find? (·.uid ∉ s.uids)

def addHostFulfilled (hostGroups : HostGroups) : State HaInfo Env :=
  let newHost := newHost s hostGroups
  let s := applyHostGroupsResponse s hostGroups
  match newHost with
  | none => s
  | some host =>
    let s := { s with hostsAwaitingHaLogin := addUid host.uid s.hostsAwaitingHaLogin }
    if s.skipAutoHostLogin then s
    else
      { s with selectedHostUid := some host.uid, selectedGroupUid := findGroupIdForHost s.hostGroups host.uid }

/-- The first host with this uid has been logged in to for the first time. -/
def clearInitialLogin (hostUid : String) : List Host → List Host
  | [] => []
  | host :: hosts =>
    if host.uid = hostUid then { host with initialLogin := some false } :: hosts
    else host :: clearInitialLogin hostUid hosts

def loginToHostFulfilled (hostUid : String) (haInfo : HaInfo) : State HaInfo Env :=
  let s := clearHostLoginError s hostUid
  let s := { s with
    authorizedHosts := addUid hostUid s.authorizedHosts
    reconnectQueue := s.reconnectQueue.filter (· ≠ hostUid)
    haInfo := s.haInfo.set hostUid haInfo }
  let host : Option Host := s.hosts.find? (·.uid = hostUid)
  if host.bind Host.initialLogin = some true then
    { s with
      hostsAwaitingHaLogin := addUid hostUid s.hostsAwaitingHaLogin
      hosts := clearInitialLogin hostUid s.hosts }
  else s

def loginToHostRejected (hostUid : String) (message : Text) : State HaInfo Env :=
  let s := { s with hostAuthErrors := s.hostAuthErrors.set hostUid message }
  if s.isBatchHostLogin then s else { s with error := some message, loginErrorHostUid := some hostUid }

def refreshHaInfoFulfilled (hostUid : String) (haInfo : HaInfo) : State HaInfo Env :=
  { s with haInfo := s.haInfo.set hostUid haInfo }

def deleteHostFulfilled (hostUid : String) (hostGroups : HostGroups) : State HaInfo Env :=
  syncHostSelection (purgeHostClientState (applyHostGroupsResponse s hostGroups) hostUid)

def editHostFulfilled (hostGroups : HostGroups) : State HaInfo Env := applyHostGroupsResponse s hostGroups

def moveHostFulfilled (hostGroups : HostGroups) : State HaInfo Env :=
  syncHostSelection (applyHostGroupsResponse s hostGroups)

def deleteHostGroupFulfilled (hostGroups : HostGroups) (removedHostUids : List String) : State HaInfo Env :=
  let s := applyHostGroupsResponse s hostGroups
  let s := if s.selectedHostUid.any (· ∈ removedHostUids) then { s with selectedHostUid := none } else s
  removedHostUids.foldl purgeHostClientState (syncHostSelection s)

def fetchHostEnvFulfilled (hostUid : String) (env : Env) : State HaInfo Env :=
  { s with hostEnvs := s.hostEnvs.set hostUid (some env) }

def fetchHostEnvRejected (hostUid : String) : State HaInfo Env :=
  if (s.hostEnvs.get? hostUid).isNone then { s with hostEnvs := s.hostEnvs.set hostUid none } else s

/-! ### The steps -/

def pendingReducer : Request → State HaInfo Env
  | .loginToHost hostUid => clearHostLoginError s hostUid
  | .refreshHaInfo _ | .fetchHostEnv _ => s
  | _ => { s with error := none }

def settledReducer (now : Nat) : Request → Answer HaInfo Env → Option (State HaInfo Env)
  | .fetchHosts, .hostGroups hostGroups _ => some (fetchHostsFulfilled s hostGroups now)
  | .addHost, .hostGroups hostGroups _ => some (addHostFulfilled s hostGroups)
  | .editHost _, .hostGroups hostGroups _ => some (editHostFulfilled s hostGroups)
  | .moveHost _, .hostGroups hostGroups _ => some (moveHostFulfilled s hostGroups)
  | .deleteHost hostUid, .hostGroups hostGroups _ => some (deleteHostFulfilled s hostUid hostGroups)
  | .deleteHostGroup _ removedHostUids, .hostGroups hostGroups _ =>
    some (deleteHostGroupFulfilled s hostGroups removedHostUids)
  | .loginToHost hostUid, .haInfo haInfo => some (loginToHostFulfilled s hostUid haInfo)
  | .refreshHaInfo hostUid, .haInfo haInfo => some (refreshHaInfoFulfilled s hostUid haInfo)
  | .fetchHostEnv hostUid, .env env => some (fetchHostEnvFulfilled s hostUid env)
  | .loginToHost hostUid, .rejected message => some (loginToHostRejected s hostUid message)
  | .refreshHaInfo _, .rejected _ => some s
  | .fetchHostEnv hostUid, .rejected _ => some (fetchHostEnvRejected s hostUid)
  | _, .rejected message => some { s with error := some message }
  | _, _ => none

end reducers

inductive Act (HaInfo Env : Type)
  | setSkipAutoHostLogin (skip : Bool)
  /-- A batch of logins begins or ends. -/
  | loginHostsBatch (running : Bool)
  | pending (request : Request)
  | settled (request : Request) (answer : Answer HaInfo Env) (now : Nat)

variable {HaInfo Env : Type}

/-- The request names the hosts that the group has now. -/
def Request.current (s : State HaInfo Env) : Request → Bool
  | .deleteHostGroup groupId removedHostUids =>
    removedHostUids = ((s.hostGroups.get? groupId).map fun group => group.entries.keys).getD []
  | _ => true

def step (s : State HaInfo Env) : Act HaInfo Env → Option (State HaInfo Env)
  | .setSkipAutoHostLogin skip => some { s with skipAutoHostLogin := skip }
  | .loginHostsBatch running => some { s with isBatchHostLogin := running }
  | .pending request =>
    if request.current s then some { pendingReducer s request with pending := request :: s.pending } else none
  | .settled request answer now =>
    if request ∈ s.pending then
      (settledReducer s now request answer).map fun s' => { s' with pending := s.pending.erase request }
    else none

/-- When the page is loaded, what was known of the HA nodes of the hosts is read from the storage. -/
def initial (stored : Dict String HaInfo) : State HaInfo Env := { haInfo := stored }

end CubridWebManager.HostTree
