import CubridWebManager.Lib.Dict
import CubridWebManager.Lib.JsText

/-!
# Hosts, CMS tokens and database logins

The stored host record with its CMS token and database profiles, the cache entry of a database login, the activity
record of a token, and the operations on them that run without an await: `updateHost` under the user lock,
`isDbLoginActive`, and the activity records' `noteCmsTokenUse`, `closeCmsToken` and `forgetCmsToken`.
-/

namespace CubridWebManager.Session

/-- A token; CMS issues no token twice, so tokens are drawn from a counter, and a later one is larger. -/
abbrev Token := Nat

/-- The server and CMS account that a host record stands for. -/
structure Target where
  address : String
  port : Nat
  id : String
  password : String
  deriving DecidableEq, Repr

/-- `https://address:port/cm_api`. -/
abbrev Url := String × Nat

def Target.url (t : Target) : Url := (t.address, t.port)

structure DbProfile where
  id : String
  password : String
  loggedOut : Bool := false
  deriving DecidableEq, Repr

structure HostInfo where
  address : String
  port : Nat
  id : String
  password : String
  hostAlias : Text
  initialLogin : Bool := true
  token : Option Token := none
  cmsTokenIssuedAt : Option Nat := none
  cmsTokenActiveTimeSec : Option Nat := none
  dbProfiles : Dict String DbProfile := Dict.empty
  deriving DecidableEq

def HostInfo.target (h : HostInfo) : Target := ⟨h.address, h.port, h.id, h.password⟩

/-- A host of a user, by `userId` and `hostUid`. -/
structure HostRef where
  userId : String
  hostUid : String
  deriving DecidableEq, Repr

/-- A database of a host: the key `userId:hostUid:dbname`. -/
structure DbKey where
  ref : HostRef
  dbname : String
  deriving DecidableEq, Repr

abbrev Hosts := Dict HostRef HostInfo

/-! ### `updateHost` -/

/-- The body of an update, as the request DTO lets it through: no token and no profiles. -/
structure UpdateHostRequest where
  address : Option String := none
  port : Option Nat := none
  id : Option String := none
  password : Option String := none
  hostAlias : Option Text := none
  deriving DecidableEq, Repr

def UpdateHostRequest.nextTarget (r : UpdateHostRequest) (existingHost : HostInfo) : Target where
  address := r.address.getD existingHost.address
  port := r.port.getD existingHost.port
  id := r.id.getD existingHost.id
  password := r.password.getD existingHost.password

def maxHostAliasLength : Nat := 100

/-- The alias after the update, `none` when the update is refused for it. -/
def UpdateHostRequest.proposedAlias (r : UpdateHostRequest) (existingHost : HostInfo) : Option Text :=
  match r.hostAlias with
  | none => some existingHost.hostAlias
  | some text =>
    if text.trim = [] ∨ maxHostAliasLength < text.trim.utf16Length then none else some text.trim

/-- The other hosts of the same user. -/
def otherHosts (hosts : Hosts) (ref : HostRef) : List HostInfo :=
  (hosts.entries.filter fun e => e.1.userId = ref.userId ∧ e.1 ≠ ref).map Prod.snd

def findDuplicateHost (hosts : Hosts) (ref : HostRef) (candidate : Target) : Bool :=
  (otherHosts hosts ref).any fun h =>
    h.address = candidate.address ∧ h.port = candidate.port ∧ h.id = candidate.id

def hasSameDefinedAlias (a b : Text) : Bool := a.trim ≠ [] ∧ b.trim ≠ [] ∧ a.trim = b.trim

def findDuplicateAlias (hosts : Hosts) (ref : HostRef) (text : Text) : Bool :=
  (otherHosts hosts ref).any fun h => hasSameDefinedAlias h.hostAlias text

/-- The updated record, `none` when the update is refused.  The token stays with the record whatever its new target
is. -/
def updatedHost (hosts : Hosts) (ref : HostRef) (r : UpdateHostRequest) : Option HostInfo := do
  let existingHost ← hosts.get? ref
  let text ← r.proposedAlias existingHost
  let next := r.nextTarget existingHost
  if findDuplicateHost hosts ref next then none
  else if findDuplicateAlias hosts ref text then none
  else
    let sameTarget := existingHost.target = next
    some
      { address := next.address
        port := next.port
        id := next.id
        password := next.password
        hostAlias := text
        initialLogin := existingHost.initialLogin
        token := existingHost.token
        cmsTokenIssuedAt := if sameTarget then existingHost.cmsTokenIssuedAt else none
        cmsTokenActiveTimeSec := if sameTarget then existingHost.cmsTokenActiveTimeSec else none
        dbProfiles := existingHost.dbProfiles }

/-! ### The database login cache -/

/-- A cache entry; `ref` tells one entry object from another. -/
structure DbLogin where
  ref : Nat
  loggedInAt : Nat
  hostToken : Option Token
  dbUser : String
  deriving DecidableEq, Repr

/-- `DBMT_LOGIN_TTL_MS`. -/
def dbmtLoginTtlMs : Nat := 2 * 60 * 60 * 1000

def isDbLoginActive (cache : Dict DbKey DbLogin) (now : Nat) (key : DbKey) (hostToken : Option Token) : Bool :=
  match cache.get? key with
  | none => false
  | some cached => cached.hostToken = hostToken ∧ now - cached.loggedInAt < dbmtLoginTtlMs

/-! ### Token activity -/

structure TokenActivity where
  acceptedAt : Nat := 0
  rejected : Bool := false
  closedAt : Option Nat := none
  touchedAt : Nat
  deriving DecidableEq, Repr

/-- The activity records, with the count of notes since the last sweep. -/
structure TokenActivities where
  activity : Dict Token TokenActivity
  notesSinceSweep : Nat

namespace TokenActivities

def empty : TokenActivities := ⟨Dict.empty, 0⟩

/-- `CMS_TOKEN_ACTIVITY_RETENTION_MS`. -/
def retentionMs : Nat := 24 * 60 * 60 * 1000

def sweepEveryNotes : Nat := 256

def sweep (activity : Dict Token TokenActivity) (now : Nat) : Dict Token TokenActivity :=
  activity.filter fun _ entry => entry.rejected ∨ now - entry.touchedAt ≤ retentionMs

def noteCmsTokenUse (a : TokenActivities) (token : Option Token) (rejected : Bool) (startedAt now : Nat) :
    TokenActivities :=
  match token with
  | none => a
  | some token =>
    let old := (a.activity.get? token).getD { touchedAt := now }
    let touched := { old with touchedAt := now }
    let entry :=
      if rejected then { touched with rejected := true }
      else if !old.rejected && old.closedAt.all fun closedAt => closedAt < startedAt then
        { touched with acceptedAt := now }
      else touched
    let activity := a.activity.set token entry
    if sweepEveryNotes ≤ a.notesSinceSweep + 1 then ⟨sweep activity now, 0⟩ else ⟨activity, a.notesSinceSweep + 1⟩

def closeCmsToken (a : TokenActivities) (token : Option Token) (now : Nat) : TokenActivities :=
  match token with
  | none => a
  | some token =>
    let old := (a.activity.get? token).getD { touchedAt := now }
    { a with activity := a.activity.set token { old with acceptedAt := 0, closedAt := some now, touchedAt := now } }

def forgetCmsToken (a : TokenActivities) (token : Option Token) : TokenActivities :=
  match token with
  | none => a
  | some token => { a with activity := a.activity.erase token }

end TokenActivities

end CubridWebManager.Session
