import CubridWebManager.Session.Types

/-!
# The state of the session system

The user files (as the map of host records), the memory of the API server, what CMS has issued, received and accepted,
and every call in progress: host logins, authenticated requests, database logins, the background re-logins after a
host login, logouts and profile deletions.  A call in progress is given by the await it stands at, with its live local
variables.

A user file is read and written under the user lock, so a read and an atomic update take effect at one moment.  The
requests to one CMS address are served one at a time in the order in which they came; CMS handles a request when it is
served, and its answer arrives then.
-/

namespace CubridWebManager.Session

abbrev ThreadId := Nat

/-- A request with the host's token: where it goes, by the host record it was made from. -/
structure CmsRequest where
  target : Target
  token : Option Token
  issuedAt : Nat
  deriving DecidableEq, Repr

/-- What `loginDatabase` keeps from its host lookup. -/
structure DbLoginCall where
  generation : Nat
  hostToken : Option Token
  dbUser : String
  /-- The profile was marked as logged out. -/
  loggedOut : Bool
  deriving DecidableEq, Repr

/-- The arguments of `relogin`, with the re-login it comes after. -/
structure Relogin where
  login : DbLogin
  newToken : Token
  generation : Nat
  earlier : Option ThreadId
  deriving DecidableEq, Repr

/-- Where a call waits. -/
inductive Pc
  | absent
  /-- `login`: `await loadUserById`. -/
  | loginLoad
  /-- `await postPublic` of the login task. -/
  | loginQueued (target : Target)
  /-- CMS answered with a token: `await atomicUpdateUser`. -/
  | loginAnswered (target : Target) (token : Token)
  /-- The update is done. -/
  | loginStored (token : Token)
  /-- `rememberTokenActiveTime`: `await getAllSystemParam`. -/
  | activeTimeRead (token : Token)
  | activeTimeStore (token : Token) (seconds : Nat)
  /-- `executeCmsRequest`: `await findHostInternal`. -/
  | requestHost
  | requestQueued (request : CmsRequest)
  /-- `loginDatabase`: `await findHostInternal`. -/
  | dbLoginHost (client : Option (String × String)) (generation : Nat)
  /-- `executeCmsRequest` of the login: `await findHostInternal`. -/
  | dbLoginRequest (call : DbLoginCall)
  | dbLoginQueued (call : DbLoginCall) (request : CmsRequest)
  | dbLoginAnswered (call : DbLoginCall) (request : CmsRequest)
  /-- `await setProfileLoggedOut(.., false, generation)`. -/
  | clearMark (generation : Nat)
  /-- `relogin`: waits for the earlier re-login. -/
  | reloginWait (r : Relogin)
  | reloginHost (r : Relogin)
  | reloginRequest (r : Relogin)
  | reloginQueued (r : Relogin) (request : CmsRequest)
  | reloginAnswered (r : Relogin) (request : CmsRequest)
  /-- The token check: `await findHostInternal`. -/
  | reloginCheck (r : Relogin) (request : CmsRequest)
  /-- The re-login is over; its `then` callback has not run. -/
  | reloginDone
  /-- `logoutDatabase`: `await setProfileLoggedOut(.., true)`. -/
  | logoutMark
  | logoutFinish
  /-- `deleteDbProfile`: `await atomicUpdateUser`. -/
  | profileDelete
  | profileForget
  | ended
  deriving DecidableEq

/-- A call; `dbname` is empty for the calls on a host. -/
structure Thread where
  ref : HostRef
  dbname : String
  pc : Pc
  deriving DecidableEq

def Thread.key (t : Thread) : DbKey := ⟨t.ref, t.dbname⟩

/-- A token as CMS issued it: for which login, and to which target. -/
structure Issue where
  token : Token
  ref : HostRef
  target : Target
  deriving DecidableEq, Repr

/-- A `dbmtuserlogin` that CMS accepted. -/
structure Accepted where
  url : Url
  token : Option Token
  dbname : String
  deriving DecidableEq, Repr

structure State where
  now : Nat
  hosts : Hosts
  dbLoginCache : Dict DbKey DbLogin
  /-- The identity of the next cache entry. -/
  nextLogin : Nat
  logoutGenerations : Dict DbKey Nat
  pendingRelogins : Dict DbKey ThreadId
  activities : TokenActivities
  nextThread : ThreadId
  threads : ThreadId → Thread
  /-- `hostRequestQueue`: the calls that wait for each address. -/
  queue : Url → List ThreadId
  nextToken : Token
  issued : List Issue
  /-- The requests with a token field that were sent. -/
  sent : List CmsRequest
  accepted : List Accepted
  /-- The time of the last login that the user made to a database, until the user logs out or forgets its profile. -/
  userLogins : Dict DbKey Nat

/-- How CMS handles a request: it accepts it, refuses it (perhaps for its token), or accepts it with an answer that is
lost. -/
inductive CmsReply
  | accepted
  | refused (invalidToken : Bool)
  | lost
  deriving DecidableEq, Repr

inductive Act
  | tick (ms : Nat)
  | login (ref : HostRef)
  | request (ref : HostRef)
  | loginDatabase (key : DbKey) (client : Option (String × String))
  | logoutDatabase (key : DbKey)
  | deleteDbProfile (key : DbKey)
  | updateHost (ref : HostRef) (body : UpdateHostRequest)
  | disconnect (ref : HostRef)
  /-- What the call waits for is done. -/
  | resume (t : ThreadId)
  /-- It fails. -/
  | reject (t : ThreadId)
  /-- CMS handles the first request that waits for this address. -/
  | reply (url : Url) (r : CmsReply)
  /-- The host's `cm.conf` is read. -/
  | activeTime (t : ThreadId) (seconds : Nat)
  deriving DecidableEq

namespace State

variable (s : State)

def setPc (t : ThreadId) (pc : Pc) : State :=
  { s with threads := Function.update s.threads t { s.threads t with pc := pc } }

def setHost (ref : HostRef) (h : HostInfo) : State := { s with hosts := s.hosts.set ref h }

/-- A new call. -/
def spawn (ref : HostRef) (dbname : String) (pc : Pc) : State :=
  { s with nextThread := s.nextThread + 1, threads := Function.update s.threads s.nextThread ⟨ref, dbname, pc⟩ }

def logoutGeneration (key : DbKey) : Nat := (s.logoutGenerations.get? key).getD 0

/-- The stored token of a host. -/
def storedToken (ref : HostRef) : Option Token := (s.hosts.get? ref).bind HostInfo.token

def isDbLoginActive (key : DbKey) (hostToken : Option Token) : Bool :=
  Session.isDbLoginActive s.dbLoginCache s.now key hostToken

end State

end CubridWebManager.Session
