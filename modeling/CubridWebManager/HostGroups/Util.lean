import CubridWebManager.HostGroups.State

/-!
# Operations on the host groups of a record

The functions of `host-group.util.ts`.  A group or a host is looked up as a property of an object, so one that every
object inherits is found as well; what is then assigned to it changes no record but the object that all share, and it is
not stored with a record: `JSON.stringify` leaves a method out.
-/

namespace CubridWebManager.HostGroups

open JsObject

/-- `UNGROUPED_GROUP_ID`. -/
def ungroupedGroupId : String := "__ungrouped__"

/-- `MAX_HOST_ALIAS_LENGTH`. -/
def maxHostAliasLength : Nat := 100

def readHostGroups (user : User) : Dict String HostGroupInfo := user.hostGroups.getD .empty

def readGroupHosts (group : HostGroupInfo) : Dict String HostInfo := group.hosts.getD .empty

def ensureUngroupedGroup (user : User) : User :=
  if (get (readHostGroups user) ungroupedGroupId).isSome then user
  else
    let group : HostGroupInfo := ⟨"Ungrouped".toList, none, none, some .empty⟩
    { user with hostGroups := some ((readHostGroups user).set ungroupedGroupId group) }

/-! ### Finding hosts -/

structure HostRef where
  groupId : String
  group : HostGroupInfo
  host : Found HostInfo

def findHostRef (user : User) (hostUid : String) : Option HostRef :=
  (readHostGroups user).entries.findSome? fun e =>
    (get (readGroupHosts e.2) hostUid).map fun host => ⟨e.1, e.2, host⟩

def countAllHosts (user : User) : Nat :=
  ((readHostGroups user).entries.map fun e => (readGroupHosts e.2).keys.length).sum

/-- The hosts of all groups, each with its key. -/
def registered (user : User) : List (String × HostInfo) :=
  (readHostGroups user).entries.flatMap fun e => (readGroupHosts e.2).entries

/-- The callback of `forEachHost` skips this host. -/
def excluded (excludeHostUid : Option String) (host : HostInfo) : Bool :=
  excludeHostUid.any fun uid => uid ≠ "" && host.uid = uid

/-- What tells two connections from each other. -/
structure Connection where
  address : Option String
  port : Option Int
  id : Option String
  deriving DecidableEq

def HostInfo.connection (host : HostInfo) : Connection := ⟨host.address, host.port, host.id⟩

def findDuplicateHost (user : User) (candidate : Connection) (excludeHostUid : Option String) : Option HostInfo :=
  ((registered user).map Prod.snd).find? fun host => !excluded excludeHostUid host && host.connection = candidate

def hasSameDefinedAlias (a b : Option Text) : Bool :=
  let left := (a.map Text.trim).getD []
  let right := (b.map Text.trim).getD []
  left ≠ [] && right ≠ [] && left = right

def findDuplicateAlias (user : User) (hostAlias : Option Text) (excludeHostUid : Option String) : Option HostInfo :=
  ((registered user).map Prod.snd).find? fun host =>
    !excluded excludeHostUid host && hasSameDefinedAlias host.hostAlias hostAlias

/-! ### Groups -/

/-- `/^[\p\x7bL\x7d\p\x7bN\x7d]/u.test(name)`, where `letter` tells the letters and numbers of Unicode. -/
def isValidGroupNameStart (letter : Char → Bool) (name : Text) : Bool := name.head?.any letter

def createEmptyGroup (user : User) (name : Text) (groupId createdAt : String) : User :=
  let trimmed := name.trim
  let group : HostGroupInfo := ⟨if trimmed = [] then "Group".toList else trimmed, none, some createdAt, some .empty⟩
  { user with hostGroups := some (assign (readHostGroups user) groupId group) }

def deleteGroup (user : User) (groupId : String) : Bool × User :=
  if groupId = ungroupedGroupId then (false, user)
  else
    match get (readHostGroups user) groupId with
    | none => (false, user)
    | some _ => (true, { user with hostGroups := some ((readHostGroups user).erase groupId) })

/-- The new name of a group, or why it cannot be. -/
def checkGroupName (letter : Char → Bool) (groupId : String) (name : Option Text) : Except String Text :=
  if groupId = ungroupedGroupId then .error "CANNOT_RENAME_UNGROUPED"
  else
    let trimmed := (name.getD []).trim
    if trimmed = [] then .error "BLANK_GROUP_NAME_NOT_ALLOWED"
    else if isValidGroupNameStart letter trimmed then .ok trimmed
    else .error "GROUP_NAME_INVALID_START"

/-- The new default host of a group with these hosts, or why it cannot be. -/
def checkDefaultHost (hosts : Dict String HostInfo) (next : Option String) : Except String (Option String) :=
  match next with
  | none => .ok none
  | some uid => if uid ≠ "" && (get hosts uid).isNone then .error "DEFAULT_HOST_NOT_IN_GROUP" else .ok (some uid)

/-- The name after the update. -/
def patchedName (letter : Char → Bool) (groupId : String) (group : HostGroupInfo) (patch : GroupPatch) :
    Except String Text :=
  match patch.name with
  | none => .ok group.name
  | some name => checkGroupName letter groupId name

/-- The default host after the update. -/
def patchedDefault (group : HostGroupInfo) (patch : GroupPatch) : Except String (Option String) :=
  match patch.defaultHostUid with
  | none => .ok group.defaultHostUid
  | some next => checkDefaultHost (readGroupHosts group) next

/-- `updateGroup` for a group of the record. -/
def updateOwnGroup (letter : Char → Bool) (groupId : String) (group : HostGroupInfo) (patch : GroupPatch) :
    Except String HostGroupInfo := do
  let name ← patchedName letter groupId group patch
  let defaultHostUid ← patchedDefault group patch
  return { group with name, defaultHostUid }

/-- `updateGroup` for an inherited object: it has no hosts, and the name of a method is read-only. -/
def updateInherited (letter : Char → Bool) (groupId : String) (object : Inherited) (patch : GroupPatch) :
    Outcome String Unit :=
  let named : Outcome String Unit :=
    match patch.name with
    | none => .pure ()
    | some name =>
      match checkGroupName letter groupId name, object with
      | .error code, _ => .throw code
      | .ok _, .prototype => ⟨.ok (), [(object, "name")]⟩
      | .ok _, .method _ => .throw "Cannot assign to read only property 'name' of function"
  match named.result, patch.defaultHostUid with
  | .error code, _ => ⟨.error code, named.assigned⟩
  | .ok _, none => named
  | .ok _, some next =>
    match checkDefaultHost .empty next with
    | .error code => ⟨.error code, named.assigned⟩
    | .ok _ => ⟨.ok (), named.assigned ++ [(object, "defaultHostUid")]⟩

def updateGroup (letter : Char → Bool) (user : User) (groupId : String) (patch : GroupPatch) :
    Outcome String (Bool × User) :=
  match get (readHostGroups user) groupId with
  | none => .pure (false, user)
  | some (.own group) =>
    ⟨(updateOwnGroup letter groupId group patch).map fun group =>
      (true, { user with hostGroups := some ((readHostGroups user).set groupId group) }), []⟩
  | some (.inherited object) =>
    let updated := updateInherited letter groupId object patch
    ⟨updated.result.map fun _ => (true, user), updated.assigned⟩

/-! ### Hosts -/

/-- The group takes a host, which becomes its default if it has none. -/
def HostGroupInfo.receive (group : HostGroupInfo) (hostUid : String) (host : Found HostInfo) : HostGroupInfo :=
  { group with
    hosts := some (match host with
      | .own host => assign (readGroupHosts group) hostUid host
      | .inherited _ => (readGroupHosts group).erase hostUid)
    defaultHostUid := if group.defaultHostUid.all (· = "") then some hostUid else group.defaultHostUid }

/-- An inherited object takes a host. -/
def received (object : Inherited) : List Assigned := [(object, "hosts"), (object, "defaultHostUid")]

/-- The group loses a host; if that was its default, the first that remains becomes it. -/
def HostGroupInfo.without (group : HostGroupInfo) (hostUid : String) : HostGroupInfo :=
  let hosts := (readGroupHosts group).erase hostUid
  { group with
    hosts := some hosts
    defaultHostUid :=
      if group.defaultHostUid = some hostUid then hosts.entries.head?.map fun e => e.2.uid else group.defaultHostUid }

def addHostToGroup (user : User) (groupId : String) (host : HostInfo) : Outcome String User :=
  match get (readHostGroups user) groupId with
  | none => .throw ("Host group not found: " ++ groupId)
  | some (.own group) =>
    .pure { user with hostGroups := some ((readHostGroups user).set groupId (group.receive host.uid (.own host))) }
  | some (.inherited object) => ⟨.ok user, received object⟩

def moveHostToGroup (user : User) (hostUid targetGroupId : String) : (Bool × User) × List Assigned :=
  match findHostRef user hostUid with
  | none => ((false, user), [])
  | some ref =>
    if ref.groupId = targetGroupId then ((true, user), [])
    else
      let user := if targetGroupId = ungroupedGroupId then ensureUngroupedGroup user else user
      match get (readHostGroups user) targetGroupId with
      | none => ((false, user), [])
      | some targetGroup =>
        let groups := (readHostGroups user).set ref.groupId (ref.group.without hostUid)
        match targetGroup with
        | .own group =>
          ((true, { user with hostGroups := some (groups.set targetGroupId (group.receive hostUid ref.host)) }), [])
        | .inherited object => ((true, { user with hostGroups := some groups }), received object)

def removeHostFromUser (user : User) (hostUid : String) : Bool × User :=
  match findHostRef user hostUid with
  | none => (false, user)
  | some ref =>
    (true, { user with hostGroups := some ((readHostGroups user).set ref.groupId (ref.group.without hostUid)) })

end CubridWebManager.HostGroups
