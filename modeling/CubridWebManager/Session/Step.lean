import CubridWebManager.Session.State

/-!
# The steps of the session system

`step s a` is the state after `a` arrives in `s`, or `none` where nothing waits for it.
-/

namespace CubridWebManager.Session

/-! ### Host login -/

/-- The call waits in the queue of the address it sends to. -/
def State.enqueue (s : State) (t : ThreadId) (url : Url) (pc : Pc) : State :=
  { s with queue := Function.update s.queue url (s.queue url ++ [t]) }.setPc t pc

/-- The atomic update of `login`, on the record it finds. -/
def storeToken (h : HostInfo) (token : Token) (now : Nat) : HostInfo :=
  { h with token := some token, initialLogin := false, cmsTokenIssuedAt := some now, cmsTokenActiveTimeSec := none }

/-- One cache entry of `restoreDbLoginsAfterHostLogin`. -/
def restoreOne (ref : HostRef) (newToken : Token) (s : State) (entry : DbKey × DbLogin) : State :=
  let (key, login) := entry
  if key.ref ≠ ref ∨ login.hostToken = some newToken then s
  else if dbmtLoginTtlMs ≤ s.now - login.loggedInAt then { s with dbLoginCache := s.dbLoginCache.erase key }
  else
    let relogin : Relogin :=
      { login := login
        newToken := newToken
        generation := s.logoutGeneration key
        earlier := s.pendingRelogins.get? key }
    { s with pendingRelogins := s.pendingRelogins.set key s.nextThread }.spawn ref key.dbname (.reloginWait relogin)

def restoreDbLoginsAfterHostLogin (s : State) (ref : HostRef) (newToken : Token) : State :=
  s.dbLoginCache.entries.foldl (restoreOne ref newToken) s

/-- The awaited operation of a host login is done. -/
def resumeLogin (s : State) (t : ThreadId) : Option State :=
  let ref := (s.threads t).ref
  match (s.threads t).pc with
  | .loginLoad =>
    match s.hosts.get? ref with
    | none => some (s.setPc t .ended)
    | some h => some (s.enqueue t h.target.url (.loginQueued h.target))
  | .loginAnswered _ token =>
    match s.hosts.get? ref with
    | none => some (s.setPc t .ended)
    | some persisted =>
      let activities :=
        if persisted.token = some token then s.activities else s.activities.forgetCmsToken persisted.token
      some (({ s with activities := activities }.setHost ref (storeToken persisted token s.now)).setPc t
        (.loginStored token))
  | .loginStored token => some ((restoreDbLoginsAfterHostLogin s ref token).setPc t (.activeTimeRead token))
  | .activeTimeStore token seconds =>
    match s.hosts.get? ref with
    | some persisted =>
      if persisted.token = some token then
        some ((s.setHost ref { persisted with cmsTokenActiveTimeSec := some seconds }).setPc t .ended)
      else some (s.setPc t .ended)
    | none => some (s.setPc t .ended)
  | _ => none

/-! ### Requests with the host's token -/

/-- `executeCmsRequest` from the host record it looked up. -/
def State.makeRequest (s : State) (h : HostInfo) : CmsRequest := ⟨h.target, h.token, s.now⟩

def resumeRequest (s : State) (t : ThreadId) : Option State :=
  match (s.threads t).pc with
  | .requestHost =>
    match s.hosts.get? (s.threads t).ref with
    | none => some (s.setPc t .ended)
    | some h => some (s.enqueue t h.target.url (.requestQueued (s.makeRequest h)))
  | _ => none

/-! ### Database login, logout and profile deletion -/

/-- `DBAuthResolver.resolve`: the database user that the login is made for, `none` without credentials. -/
def resolveDbUser (h : HostInfo) (dbname : String) (client : Option (String × String)) : Option String :=
  match client with
  | some (id, _) => some id
  | none => (h.dbProfiles.get? dbname).map DbProfile.id

/-- The profile of the database, if there is one, is changed. -/
def HostInfo.mapProfile (h : HostInfo) (dbname : String) (f : DbProfile → DbProfile) : HostInfo :=
  match h.dbProfiles.get? dbname with
  | none => h
  | some profile => { h with dbProfiles := h.dbProfiles.set dbname (f profile) }

/-- `setProfileLoggedOut` under the user lock. -/
def State.setProfileLoggedOut (s : State) (key : DbKey) (loggedOut : Bool) : State :=
  match s.hosts.get? key.ref with
  | none => s
  | some h => s.setHost key.ref (h.mapProfile key.dbname fun profile => { profile with loggedOut := loggedOut })

def resumeDbLogin (s : State) (t : ThreadId) : Option State :=
  let key := (s.threads t).key
  match (s.threads t).pc with
  | .dbLoginHost client generation =>
    match s.hosts.get? key.ref with
    | none => some (s.setPc t .ended)
    | some h =>
      match resolveDbUser h key.dbname client with
      | none => some (s.setPc t .ended)
      | some dbUser =>
        some (s.setPc t (.dbLoginRequest
          { generation := generation
            hostToken := h.token
            dbUser := dbUser
            loggedOut := (h.dbProfiles.get? key.dbname).any DbProfile.loggedOut }))
  | .dbLoginRequest call =>
    match s.hosts.get? key.ref with
    | none => some (s.setPc t .ended)
    | some h => some (s.enqueue t h.target.url (.dbLoginQueued call (s.makeRequest h)))
  | .dbLoginAnswered call _ =>
    if s.logoutGeneration key ≠ call.generation then some (s.setPc t .ended)
    else
      some ({ s with
        dbLoginCache := s.dbLoginCache.set key ⟨s.nextLogin, s.now, call.hostToken, call.dbUser⟩
        nextLogin := s.nextLogin + 1
        userLogins := s.userLogins.set key s.now }.setPc t
          (if call.loggedOut then .clearMark call.generation else .ended))
  | .clearMark generation =>
    if s.logoutGeneration key ≠ generation then some (s.setPc t .ended)
    else some ((s.setProfileLoggedOut key false).setPc t .ended)
  | _ => none

def resumeLogout (s : State) (t : ThreadId) : Option State :=
  let key := (s.threads t).key
  match (s.threads t).pc with
  | .logoutMark => some ((s.setProfileLoggedOut key true).setPc t .logoutFinish)
  | .logoutFinish =>
    some ({ s with
      logoutGenerations := s.logoutGenerations.set key (s.logoutGeneration key + 1)
      dbLoginCache := s.dbLoginCache.erase key
      pendingRelogins := s.pendingRelogins.erase key
      userLogins := s.userLogins.erase key }.setPc t .ended)
  | .profileDelete =>
    match s.hosts.get? key.ref with
    | none => some (s.setPc t .profileForget)
    | some h =>
      some ((s.setHost key.ref { h with dbProfiles := h.dbProfiles.erase key.dbname }).setPc t .profileForget)
  | .profileForget =>
    some ({ s with
      dbLoginCache := s.dbLoginCache.erase key
      userLogins := s.userLogins.erase key }.setPc t .ended)
  | _ => none

/-! ### The re-logins after a host login -/

/-- `stillOld`: the cache has the entry that is replaced, or none. -/
def State.stillOld (s : State) (key : DbKey) (login : DbLogin) : Bool :=
  (s.dbLoginCache.get? key).all fun current => current.ref = login.ref

/-- `dropOld`. -/
def State.dropOld (s : State) (key : DbKey) (login : DbLogin) : State :=
  if (s.dbLoginCache.get? key).any fun current => current.ref = login.ref then
    { s with dbLoginCache := s.dbLoginCache.erase key }
  else s

def Pc.isOver : Pc → Bool
  | .reloginDone | .ended => true
  | _ => false

def resumeRelogin (s : State) (t : ThreadId) : Option State :=
  let key := (s.threads t).key
  match (s.threads t).pc with
  | .reloginWait r =>
    if r.earlier.all fun e => (s.threads e).pc.isOver then
      some (s.setPc t (if s.stillOld key r.login then .reloginHost r else .reloginDone))
    else none
  | .reloginHost r =>
    match s.hosts.get? key.ref with
    | none => some ((s.dropOld key r.login).setPc t .reloginDone)
    | some h =>
      if (h.dbProfiles.get? key.dbname).any (fun profile => !profile.loggedOut && profile.id = r.login.dbUser) ∧
          h.token = some r.newToken then
        some (s.setPc t (.reloginRequest r))
      else some ((s.dropOld key r.login).setPc t .reloginDone)
  | .reloginRequest r =>
    match s.hosts.get? key.ref with
    | none => some ((s.dropOld key r.login).setPc t .reloginDone)
    | some h => some (s.enqueue t h.target.url (.reloginQueued r (s.makeRequest h)))
  | .reloginAnswered r request =>
    some (s.setPc t (if s.logoutGeneration key = r.generation then .reloginCheck r request else .reloginDone))
  | .reloginCheck r _ =>
    match s.hosts.get? key.ref with
    | none => some ((s.dropOld key r.login).setPc t .reloginDone)
    | some h =>
      if h.token = some r.newToken ∧ s.stillOld key r.login then
        some ({ s with
          dbLoginCache := s.dbLoginCache.set key ⟨s.nextLogin, r.login.loggedInAt, some r.newToken, r.login.dbUser⟩
          nextLogin := s.nextLogin + 1 }.setPc t .reloginDone)
      else some (s.setPc t .reloginDone)
  | .reloginDone =>
    some ((if s.pendingRelogins.get? key = some t then
      { s with pendingRelogins := s.pendingRelogins.erase key } else s).setPc t .ended)
  | _ => none

/-! ### All steps -/

/-- The awaited operation of call `t` is done. -/
def resume (s : State) (t : ThreadId) : Option State :=
  resumeLogin s t <|> resumeRequest s t <|> resumeDbLogin s t <|> resumeLogout s t <|> resumeRelogin s t

/-- The awaited operation of call `t` fails. -/
def reject (s : State) (t : ThreadId) : Option State :=
  match (s.threads t).pc with
  | .loginLoad | .loginAnswered _ _ | .activeTimeRead _ | .activeTimeStore _ _ | .requestHost | .dbLoginHost _ _
  | .dbLoginRequest _ | .clearMark _ | .logoutMark | .profileDelete => some (s.setPc t .ended)
  | .reloginHost r | .reloginRequest r | .reloginCheck r _ =>
    some ((s.dropOld (s.threads t).key r.login).setPc t .reloginDone)
  | _ => none

/-- The bookkeeping of a request with the host's token that was sent and, unless the answer is lost, answered. -/
def State.deliver (s : State) (request : CmsRequest) (r : CmsReply) : State :=
  { s with
    sent := s.sent ++ [request]
    activities :=
      match r with
      | .accepted => s.activities.noteCmsTokenUse request.token false request.issuedAt s.now
      | .refused invalidToken => s.activities.noteCmsTokenUse request.token invalidToken request.issuedAt s.now
      | .lost => s.activities }

/-- CMS accepts a `dbmtuserlogin`. -/
def State.acceptDbLogin (s : State) (request : CmsRequest) (dbname : String) : State :=
  { s with accepted := s.accepted ++ [⟨request.target.url, request.token, dbname⟩] }

/-- CMS issues a token. -/
def State.issue (s : State) (ref : HostRef) (target : Target) : State :=
  { s with nextToken := s.nextToken + 1, issued := s.issued ++ [⟨s.nextToken, ref, target⟩] }

/-- CMS handles the request that call `t`, now out of the queue, waits for. -/
def handle (s : State) (t : ThreadId) (r : CmsReply) : Option State :=
  let thread := s.threads t
  match thread.pc, r with
  | .loginQueued target, .accepted =>
    some ((s.issue thread.ref target).setPc t (.loginAnswered target s.nextToken))
  | .loginQueued target, .lost => some ((s.issue thread.ref target).setPc t .ended)
  | .loginQueued _, .refused _ => some (s.setPc t .ended)
  | .requestQueued request, r => some ((s.deliver request r).setPc t .ended)
  | .dbLoginQueued call request, .accepted =>
    some (((s.deliver request r).acceptDbLogin request thread.dbname).setPc t (.dbLoginAnswered call request))
  | .dbLoginQueued _ request, .lost =>
    some (((s.deliver request r).acceptDbLogin request thread.dbname).setPc t .ended)
  | .dbLoginQueued _ request, .refused _ => some ((s.deliver request r).setPc t .ended)
  | .reloginQueued rl request, .accepted =>
    some (((s.deliver request r).acceptDbLogin request thread.dbname).setPc t (.reloginAnswered rl request))
  | .reloginQueued rl request, .lost =>
    some ((((s.deliver request r).acceptDbLogin request thread.dbname).dropOld thread.key rl.login).setPc t .reloginDone)
  | .reloginQueued rl request, .refused _ =>
    some (((s.deliver request r).dropOld thread.key rl.login).setPc t .reloginDone)
  | _, _ => none

def reply (s : State) (url : Url) (r : CmsReply) : Option State :=
  match s.queue url with
  | [] => none
  | t :: rest => handle { s with queue := Function.update s.queue url rest } t r

/-- The answer of `cm.conf` to `rememberTokenActiveTime`. -/
def receiveActiveTime (s : State) (t : ThreadId) (seconds : Nat) : Option State :=
  match (s.threads t).pc with
  | .activeTimeRead token => some (s.setPc t (.activeTimeStore token seconds))
  | _ => none

/-- `updateHost` under the user lock. -/
def updateHost (s : State) (ref : HostRef) (body : UpdateHostRequest) : Option State := do
  let existingHost ← s.hosts.get? ref
  let h ← updatedHost s.hosts ref body
  let activities :=
    if existingHost.target = h.target then s.activities else s.activities.forgetCmsToken existingHost.token
  some ({ s with activities := activities }.setHost ref h)

/-- `disconnect` under the user lock. -/
def disconnect (s : State) (ref : HostRef) : Option State := do
  let persisted ← s.hosts.get? ref
  some ({ s with activities := s.activities.closeCmsToken persisted.token s.now }.setHost ref
    { persisted with cmsTokenIssuedAt := none })

def step (s : State) : Act → Option State
  | .tick ms => some { s with now := s.now + ms }
  | .login ref => some (s.spawn ref "" .loginLoad)
  | .request ref => some (s.spawn ref "" .requestHost)
  | .loginDatabase key client =>
    some (s.spawn key.ref key.dbname (.dbLoginHost client (s.logoutGeneration key)))
  | .logoutDatabase key => some (s.spawn key.ref key.dbname .logoutMark)
  | .deleteDbProfile key => some (s.spawn key.ref key.dbname .profileDelete)
  | .updateHost ref body => updateHost s ref body
  | .disconnect ref => disconnect s ref
  | .resume t => resume s t
  | .reject t => reject s t
  | .reply url r => reply s url r
  | .activeTime t seconds => receiveActiveTime s t seconds

/-- The API server has just started, and no host has been logged in to yet. -/
structure Init (s : State) : Prop where
  threads : ∀ t, (s.threads t).pc = .absent
  tokens : ∀ ref h, s.hosts.get? ref = some h → h.token = none
  cache : s.dbLoginCache = Dict.empty
  issued : s.issued = []
  sent : s.sent = []
  accepted : s.accepted = []
  userLogins : s.userLogins = Dict.empty

/-- The API server with these host records, just started. -/
def State.fresh (hosts : Hosts) : State where
  now := 0
  hosts := hosts
  dbLoginCache := Dict.empty
  nextLogin := 0
  logoutGenerations := Dict.empty
  pendingRelogins := Dict.empty
  activities := .empty
  nextThread := 0
  threads _ := ⟨⟨"", ""⟩, "", .absent⟩
  queue _ := []
  nextToken := 0
  issued := []
  sent := []
  accepted := []
  userLogins := Dict.empty

theorem Init.fresh {hosts : Hosts} (h : ∀ ref h, hosts.get? ref = some h → h.token = none) :
    Init (State.fresh hosts) where
  threads _ := rfl
  tokens := h
  cache := rfl
  issued := rfl
  sent := rfl
  accepted := rfl
  userLogins := rfl

/-! A user with one host, on which one database has a saved profile. -/

def demoHost : HostInfo where
  address := "10.0.0.1"
  port := 8001
  id := "admin"
  password := "secret"
  hostAlias := ['h', '1']
  dbProfiles := Dict.empty.set "demodb" ⟨"dba", "", false⟩

def demoRef : HostRef := ⟨"user1", "host1"⟩

def demoDb : DbKey := ⟨demoRef, "demodb"⟩

def State.demo : State := .fresh (Dict.empty.set demoRef demoHost)

theorem Init.demo : Init State.demo := by
  refine .fresh fun ref h hh => ?_
  rw [Dict.get?_set] at hh
  split at hh
  · obtain rfl := Option.some.inj hh
    rfl
  · cases hh

/-- The call goes on `n` times. -/
def resumes (t : ThreadId) (n : Nat) : List Act := List.replicate n (.resume t)

/-- CMS accepts a request of the host. -/
def demoAccept : Act := .reply demoHost.target.url .accepted

/-- Call `t`, a new host login, up to the start of the re-logins. -/
def demoLogin (t : ThreadId) : List Act := [.login demoRef, .resume t, demoAccept] ++ resumes t 2

/-- Call `t`, a login to the database with its profile. -/
def demoDbLogin (t : ThreadId) : List Act :=
  [.loginDatabase demoDb none] ++ resumes t 2 ++ [demoAccept, .resume t]

end CubridWebManager.Session
