import CubridWebManager.HostGroups.Util
import CubridWebManager.HostTree.HostSlice

/-!
# The HA peers of a host

A login tells the nodes of an HA cluster.  The functions of `haPeerUtils.js` match them with the registered hosts and
plan which hosts are to be moved to the group of the host that was logged in to.  `toLowerCase` is the method of the
strings.
-/

namespace CubridWebManager.HostTree

open HostGroups (User HostInfo HostGroupInfo readHostGroups readGroupHosts registered moveHostToGroup ungroupedGroupId)

/-! ### What the server sends -/

/-- A host as it is sent to the client; `expiresAt` is when its session with CMS is expected to expire. -/
def toSafeHost (expiresAt : HostInfo → Option Nat) (host : HostInfo) : Host where
  uid := host.uid
  id := host.id
  address := host.address
  port := host.port
  hostAlias := host.hostAlias
  initialLogin := some (host.initialLogin.getD true)
  cmsSessionExpiresAt := expiresAt host

def safeHosts (expiresAt : HostInfo → Option Nat) (hosts : Dict String HostInfo) : Dict String Host where
  entries := hosts.entries.map fun e => (e.1, toSafeHost expiresAt e.2)
  nodup := by
    rw [List.map_map]
    exact hosts.nodup

def safeGroups (expiresAt : HostInfo → Option Nat) (groups : Dict String HostGroupInfo) : HostGroups where
  entries := groups.entries.map fun e => (e.1, ⟨e.2.name, some (safeHosts expiresAt (readGroupHosts e.2))⟩)
  nodup := by
    rw [List.map_map]
    exact groups.nodup

def sanitizeHostGroups (expiresAt : HostInfo → Option Nat) (user : User) : HostGroups :=
  let out := safeGroups expiresAt (readHostGroups user)
  if (out.get? ungroupedGroupId).isSome then out
  else out.set ungroupedGroupId ⟨"Ungrouped".toList, some .empty⟩

/-! ### Matching -/

/-- A node of the cluster as CMS reports it. -/
structure HaNode where
  ip : Option Text
  hostname : Option Text
  state : Option Text
  deriving DecidableEq

section matching

variable (toLowerCase : Text → Text)

def normalizeIdent (value : Text) : Text := toLowerCase value.trim

def isLoopback (addr : Text) : Bool :=
  let value := normalizeIdent toLowerCase addr
  value = "localhost".toList || value = "127.0.0.1".toList

/-- Whether one is the short name of the other. -/
def hostnameMatches (a b : Text) : Bool :=
  let left := normalizeIdent toLowerCase a
  let right := normalizeIdent toLowerCase b
  if left = [] || right = [] then false
  else if left = right then true
  else if '.' ∈ left && '.' ∈ right then false
  else
    let leftShort := left.takeWhile (· ≠ '.')
    leftShort ≠ [] && leftShort = right.takeWhile (· ≠ '.')

def hostMatchesHaPeer (host : Host) (peer : HaNode) : Bool :=
  let hAddr := normalizeIdent toLowerCase (host.address.getD "").toList
  let nIp := normalizeIdent toLowerCase (peer.ip.getD [])
  let nHost := normalizeIdent toLowerCase (peer.hostname.getD [])
  if hAddr = nIp || hAddr = nHost then true
  else if nIp ≠ [] && (hAddr = nIp || hostnameMatches toLowerCase hAddr nIp) then true
  else if isLoopback toLowerCase hAddr && (isLoopback toLowerCase nIp || isLoopback toLowerCase nHost) then true
  else if '.' ∈ hAddr && nHost ≠ [] && '.' ∉ nHost then false
  else hostnameMatches toLowerCase hAddr nHost

def findHostMatchingHaPeer (hosts : List Host) (peer : HaNode) (excludeHostUid : String) : Option Host :=
  hosts.find? fun host =>
    if excludeHostUid ≠ "" && host.uid = excludeHostUid then false else hostMatchesHaPeer toLowerCase host peer

/-! ### The plan of a merge -/

structure MergePeer where
  hostUid : String
  hostAlias : Text
  address : Option String
  port : Option Int
  fromGroupId : String
  fromGroupName : Text
  haRole : Text
  deriving DecidableEq

structure MergePlan where
  anchorHostUid : String
  targetGroupId : String
  targetGroupName : Text
  peers : List MergePeer
  deriving DecidableEq

/-- `hostGroups[groupId]?.name || 'Group'` -/
def groupName (hostGroups : HostGroups) (groupId : String) : Text :=
  match hostGroups.get? groupId with
  | none => "Group".toList
  | some group => if group.name = [] then "Group".toList else group.name

/-- The peer that a matched host makes, if it is in another group. -/
def mergePeer (hostGroups : HostGroups) (targetGroupId : String) (node : HaNode) (matched : Host) : Option MergePeer :=
  match findGroupIdForHost hostGroups matched.uid with
  | none => none
  | some fromGroupId =>
    if fromGroupId = "" || fromGroupId = targetGroupId then none
    else some {
      hostUid := matched.uid
      hostAlias := match matched.hostAlias with
        | none | some [] => (matched.id.getD "").toList
        | some name => name
      address := matched.address
      port := matched.port
      fromGroupId
      fromGroupName := groupName hostGroups fromGroupId
      haRole := toLowerCase (node.state.getD []).trim }

/-- The peers found, and the uids of the hosts that were matched. -/
structure MergeScan where
  peers : List MergePeer := []
  seenUids : List String := []

def scanNode (hostGroups : HostGroups) (targetGroupId anchorHostUid : String) (scan : MergeScan) (node : HaNode) :
    MergeScan :=
  match findHostMatchingHaPeer toLowerCase (flattenHostsFromGroups hostGroups) node anchorHostUid with
  | none => scan
  | some matched =>
    if matched.uid ∈ scan.seenUids then scan
    else
      { peers := scan.peers ++ (mergePeer toLowerCase hostGroups targetGroupId node matched).toList
        seenUids := matched.uid :: scan.seenUids }

def findHaPeersNeedingMerge (hostGroups : HostGroups) (haNodes : List HaNode) (anchorHostUid : String) :
    Option MergePlan :=
  match findGroupIdForHost hostGroups anchorHostUid with
  | none => none
  | some targetGroupId =>
    if targetGroupId = "" || haNodes = [] then none
    else
      let peers := (haNodes.foldl (scanNode toLowerCase hostGroups targetGroupId anchorHostUid) {}).peers
      if peers = [] then none
      else some { anchorHostUid, targetGroupId, targetGroupName := groupName hostGroups targetGroupId, peers }

/-! ### Following a plan up -/

/-- What a login has found out of the nodes of the cluster. -/
structure HaLogin where
  haNodes : Option (List HaNode)

/-- A host of the same group that a login has linked. -/
structure LinkedPeer where
  hostUid : String
  hostAlias : Text
  address : Option String
  port : Option Int
  haRole : Text
  deriving DecidableEq

/-- A modal that a login has put off, with what it is to show. -/
inductive FollowUp
  | discovery (nodes : List HaNode) (groupId : Option String) (anchorHostUid : String)
  | merge (plan : MergePlan)
  | clusterLink (anchorHostUid : String) (targetGroupId : Option String) (targetGroupName : Text)
    (peers : List LinkedPeer)
  deriving DecidableEq

def FollowUp.anchorHostUid : FollowUp → String
  | .discovery _ _ anchorHostUid => anchorHostUid
  | .merge plan => plan.anchorHostUid
  | .clusterLink anchorHostUid _ _ _ => anchorHostUid

/-- What a follow-up opens, with the groups as they are now. -/
def haFollowUpAction {Env : Type} (followUp : FollowUp) (hostState : Option (State HaLogin Env)) : Option FollowUp :=
  match hostState with
  | none => some followUp
  | some s =>
    if followUp.anchorHostUid = "" then some followUp
    else
      let current := findGroupIdForHost s.hostGroups followUp.anchorHostUid
      match followUp with
      | .merge plan =>
        let haNodes := ((s.haInfo.get? plan.anchorHostUid).bind HaLogin.haNodes).getD []
        (findHaPeersNeedingMerge toLowerCase s.hostGroups haNodes plan.anchorHostUid).map .merge
      | .discovery nodes groupId anchorHostUid => some (.discovery nodes (current.or groupId) anchorHostUid)
      | .clusterLink anchorHostUid _ targetGroupName peers =>
        let name := match current.bind s.hostGroups.get? with
          | none => targetGroupName
          | some group => if group.name = [] then targetGroupName else group.name
        some (.clusterLink anchorHostUid current name peers)

end matching

/-- `mergeHaPeers` moves one host after the other to the group, until one cannot be moved. -/
def moveAll (targetGroupId : String) : List String → User → Option User
  | [], user => some user
  | hostUid :: hostUids, user =>
    match (moveHostToGroup user hostUid targetGroupId).1 with
    | (true, user') => moveAll targetGroupId hostUids user'
    | (false, _) => none

end CubridWebManager.HostTree
