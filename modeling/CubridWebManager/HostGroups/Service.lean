import CubridWebManager.HostGroups.Util

/-!
# The host service

The operations of `host.service.ts`, each as what it does to the record that `atomicUpdateUser` has read: the record it
returns is stored, and nothing is stored when it throws.  `step` is one call for one user of a server.
-/

namespace CubridWebManager.HostGroups

open JsObject

/-! ### Errors -/

def groupNotFound (field groupId : String) : HostError :=
  .invalidFormat field "GROUP_NOT_FOUND" (some ("Group \"" ++ groupId ++ "\" does not exist.")) none

def invalidNameStart (name : Text) : HostError :=
  .invalidFormat "name" "GROUP_NAME_INVALID_START"
    (some ("\"" ++ String.ofList name ++ "\" is not a valid group name — it must start with a letter or digit.")) none

def blankName : HostError :=
  .invalidFormat "name" "BLANK_GROUP_NAME_NOT_ALLOWED" (some "A group name is required.") none

/-! ### Operations -/

/-- The alias of a host that may be added. -/
def checkNewHost (user : User) (hostInfo : AddHostPayload) : Except HostError Text :=
  if 400 ≤ countAllHosts user then .error (.exceedMaxHosts 400)
  else
    let hostAlias := (hostInfo.hostAlias.map Text.trim).getD []
    if hostAlias = [] then
      .error (.invalidFormat "alias" "MISSING_OR_BLANK_ALIAS" (some "An alias is required to add a host.") none)
    else if maxHostAliasLength < hostAlias.utf16Length then
      .error (.invalidFormat "alias" "ALIAS_TOO_LONG" none (some maxHostAliasLength))
    else
      match findDuplicateHost user ⟨some hostInfo.address, some hostInfo.port, some hostInfo.id⟩ none with
      | some duplicate => .error (.duplicatedHost duplicate.uid)
      | none =>
        match findDuplicateAlias user (some hostAlias) none with
        | some duplicate => .error (.duplicatedAlias duplicate.uid (some hostAlias))
        | none => .ok hostAlias

def newHost (hostInfo : AddHostPayload) (hostAlias : Text) (uid : String) : HostInfo where
  uid := uid
  id := some hostInfo.id
  address := some hostInfo.address
  port := some hostInfo.port
  password := some hostInfo.password
  hostAlias := some hostAlias
  initialLogin := some true
  token := none
  cmsTokenIssuedAt := none
  cmsTokenActiveTimeSec := none
  dbProfiles := some .empty

def addHost (user : User) (hostInfo : AddHostPayload) (uid : String) : Outcome HostError User :=
  let user := { user with hostGroups := some (readHostGroups user) }
  match checkNewHost user hostInfo with
  | .error e => .throw e
  | .ok hostAlias =>
    let host := newHost hostInfo hostAlias uid
    match hostInfo.groupId.filter (· ≠ "") with
    | some groupId =>
      if (get (readHostGroups user) groupId).isNone then .throw (groupNotFound "groupId" groupId)
      else (addHostToGroup user groupId host).mapError .unexpected
    | none => (addHostToGroup (ensureUngroupedGroup user) ungroupedGroupId host).mapError .unexpected

def createHostGroup (letter : Char → Bool) (user : User) (name : Text) (groupId createdAt : String) :
    Outcome HostError User :=
  let trimmed := name.trim
  if trimmed = [] then .throw blankName
  else if isValidGroupNameStart letter trimmed then .pure (createEmptyGroup user trimmed groupId createdAt)
  else .throw (invalidNameStart trimmed)

def updateHostGroup (letter : Char → Bool) (user : User) (groupId : String) (patch : GroupPatch) :
    Outcome HostError User :=
  let updated := (updateGroup letter user groupId patch).mapError fun code =>
    if code = "BLANK_GROUP_NAME_NOT_ALLOWED" then blankName
    else if code = "GROUP_NAME_INVALID_START" then
      invalidNameStart (patch.name.elim "undefined".toList fun name => name.getD "null".toList)
    else if code = "DEFAULT_HOST_NOT_IN_GROUP" then
      .invalidFormat "defaultHostUid" "DEFAULT_HOST_NOT_IN_GROUP"
        (some "The default host must already be a member of this group.") none
    else if code = "CANNOT_RENAME_UNGROUPED" then
      .invalidFormat "name" "CANNOT_RENAME_UNGROUPED" (some "The \"Ungrouped\" bucket cannot be renamed.") none
    else .unexpected code
  match updated.result with
  | .error e => ⟨.error e, updated.assigned⟩
  | .ok (true, user) => ⟨.ok user, updated.assigned⟩
  | .ok (false, _) => ⟨.error (groupNotFound "groupId" groupId), updated.assigned⟩

def deleteHostGroup (user : User) (groupId : String) : Outcome HostError User :=
  if groupId = ungroupedGroupId then
    .throw (.invalidFormat "groupId" "CANNOT_DELETE_UNGROUPED" (some "The \"Ungrouped\" bucket cannot be deleted.") none)
  else .pure (deleteGroup user groupId).2

/-- The fields of the host that was found; an inherited object has none of them. -/
def existingHost : Found HostInfo → HostInfo
  | .own host => host
  | .inherited _ => ⟨"", none, none, none, none, none, none, none, none, none, none⟩

/-- The alias after an update. -/
def proposedAlias (existing : HostInfo) (hostInfo : UpdateHostRequest) : Except HostError (Option Text) :=
  match hostInfo.hostAlias with
  | none => .ok existing.hostAlias
  | some hostAlias =>
    let trimmed := (hostAlias.getD "null".toList).trim
    if trimmed = [] then
      .error (.invalidFormat "alias" "BLANK_ALIAS_NOT_ALLOWED" (some "The alias cannot be blank.") none)
    else if maxHostAliasLength < trimmed.utf16Length then
      .error (.invalidFormat "alias" "ALIAS_TOO_LONG" none (some maxHostAliasLength))
    else .ok (some trimmed)

/-- The server and CMS account, as texts. -/
def targetOf (address : Option String) (port : Option Int) (id password : Option String) : List String :=
  [address.getD "undefined", port.elim "undefined" toString, id.getD "undefined", password.getD "undefined"]

/-- The host after an update. -/
def updatedHost (existing : HostInfo) (hostUid : String) (hostInfo : UpdateHostRequest) (hostAlias : Option Text) :
    HostInfo :=
  let address := hostInfo.address <|> existing.address
  let port := hostInfo.port <|> existing.port
  let id := hostInfo.id <|> existing.id
  let password := hostInfo.password <|> existing.password
  let sameTarget := targetOf existing.address existing.port existing.id existing.password =
    targetOf address port id password
  { uid := hostUid
    id, address, port, password
    initialLogin := some (existing.initialLogin.getD true)
    hostAlias
    token := hostInfo.token <|> existing.token
    cmsTokenIssuedAt := if sameTarget then existing.cmsTokenIssuedAt else none
    cmsTokenActiveTimeSec := if sameTarget then existing.cmsTokenActiveTimeSec else none
    dbProfiles := some ((hostInfo.dbProfiles <|> existing.dbProfiles).getD .empty) }

def updateHost (user : User) (hostUid : String) (hostInfo : UpdateHostRequest) : Outcome HostError User :=
  match findHostRef user hostUid with
  | none => .throw (.noSuchHost hostUid)
  | some ref =>
    let existing := existingHost ref.host
    match proposedAlias existing hostInfo with
    | .error e => .throw e
    | .ok hostAlias =>
      let host := updatedHost existing hostUid hostInfo hostAlias
      match findDuplicateHost user host.connection (some hostUid) with
      | some duplicate => .throw (.duplicatedHost duplicate.uid)
      | none =>
        match findDuplicateAlias user hostAlias (some hostUid) with
        | some duplicate => .throw (.duplicatedAlias duplicate.uid hostAlias)
        | none =>
          match ref.group.hosts with
          | none => .throw (.unexpected "Cannot set properties of undefined")
          | some hosts =>
            let group := { ref.group with hosts := some (assign hosts hostUid host) }
            .pure { user with hostGroups := some ((readHostGroups user).set ref.groupId group) }

def moveHost (user : User) (hostUid targetGroupId : String) : Outcome HostError User :=
  match moveHostToGroup user hostUid targetGroupId with
  | ((true, user), assigned) => ⟨.ok user, assigned⟩
  | ((false, user), assigned) =>
    match findHostRef user hostUid with
    | none => ⟨.error (.noSuchHost hostUid), assigned⟩
    | some _ => ⟨.error (groupNotFound "targetGroupId" targetGroupId), assigned⟩

def deleteHost (user : User) (hostUid : String) : Outcome HostError User :=
  match removeHostFromUser user hostUid with
  | (true, user) => .pure user
  | (false, _) => .throw (.noSuchHost hostUid)

/-! ### Calls -/

/-- A call of the service; the ids that it draws and the time are given with it. -/
inductive Call
  | addHost (hostInfo : AddHostPayload) (uid : String)
  | updateHost (hostUid : String) (hostInfo : UpdateHostRequest)
  | moveHost (hostUid targetGroupId : String)
  | deleteHost (hostUid : String)
  | createHostGroup (name : Text) (groupId createdAt : String)
  | updateHostGroup (groupId : String) (patch : GroupPatch)
  | deleteHostGroup (groupId : String)

/-- What the call does to the record. -/
def Call.modify (letter : Char → Bool) (user : User) : Call → Outcome HostError User
  | .addHost hostInfo uid => HostGroups.addHost user hostInfo uid
  | .updateHost hostUid hostInfo => HostGroups.updateHost user hostUid hostInfo
  | .moveHost hostUid targetGroupId => HostGroups.moveHost user hostUid targetGroupId
  | .deleteHost hostUid => HostGroups.deleteHost user hostUid
  | .createHostGroup name groupId createdAt => HostGroups.createHostGroup letter user name groupId createdAt
  | .updateHostGroup groupId patch => HostGroups.updateHostGroup letter user groupId patch
  | .deleteHostGroup groupId => HostGroups.deleteHostGroup user groupId

/-- The id that the call draws. -/
def Call.drawn? : Call → Option String
  | .addHost _ uid => some uid
  | .createHostGroup _ groupId _ => some groupId
  | _ => none

/-- `uuidv4` gives an id that is a key of no group and of no host, and no name of a property that is inherited. -/
def User.unused (user : User) (uid : String) : Bool :=
  (readHostGroups user).keys.all (· ≠ uid) && (registered user).all (·.1 ≠ uid) && (inherited? uid).isNone &&
    uid ≠ ungroupedGroupId && uid ≠ ""

/-- The stored records, and what has been assigned to the objects that all objects inherit. -/
structure Server where
  users : Dict String User
  assigned : List Assigned

def Server.fresh : Server := ⟨.empty, []⟩

/-- `atomicUpdateUser`. -/
def atomicUpdateUser (s : Server) (id : String) (modifier : User → Outcome HostError User) :
    Except HostError Unit × Server :=
  match s.users.get? id with
  | none => (.error (.userNotFound id), s)
  | some user =>
    let outcome := modifier user
    match outcome.result with
    | .ok user => (.ok (), ⟨s.users.set id user, s.assigned ++ outcome.assigned⟩)
    | .error e => (.error e, { s with assigned := s.assigned ++ outcome.assigned })

inductive Act
  /-- `createUser`. -/
  | register (id : String)
  | call (id : String) (c : Call)

/-- A call, with what it answers; a server whose inherited objects have been changed is not followed any further. -/
def run (letter : Char → Bool) (s : Server) (id : String) (c : Call) : Option (Except HostError Unit × Server) :=
  if s.assigned = [] ∧ (s.users.get? id).all fun user => c.drawn?.all user.unused then
    some (atomicUpdateUser s id (c.modify letter))
  else none

def step (letter : Char → Bool) (s : Server) : Act → Option Server
  | .register id => if (s.users.get? id).isSome then some s else some { s with users := s.users.set id ⟨some .empty⟩ }
  | .call id c => (run letter s id c).map Prod.snd

end CubridWebManager.HostGroups
