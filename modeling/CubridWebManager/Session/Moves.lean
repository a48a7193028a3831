import CubridWebManager.Session.Step
import CubridWebManager.Lib.Run

/-!
# What a step of the session system can do

`Move` has a constructor for every kind of transition of a call, with the guard it passed and what it writes, and
`step_move` says that every step is one of them, a new call, or an operation on a host record.  Of the host records the
invariants look at the target, the stored token and the profiles; a step that leaves the first two as they are, and adds
no profile, relates its states by `SameSessions`.
-/

namespace CubridWebManager.Session

/-! ### What the invariants look at -/

namespace State

variable (s : State)

/-- The target of a host. -/
def target? (ref : HostRef) : Option Target := (s.hosts.get? ref).map HostInfo.target

/-- The saved profile of a database. -/
def profile? (key : DbKey) : Option DbProfile := (s.hosts.get? key.ref).bind fun h => h.dbProfiles.get? key.dbname

end State

/-- No target and no stored token differs, and there is no new profile. -/
structure SameSessions (s s₁ : State) : Prop where
  target : ∀ ref, s₁.target? ref = s.target? ref
  token : ∀ ref, s₁.storedToken ref = s.storedToken ref
  profile : ∀ key, s.profile? key = none → s₁.profile? key = none

namespace Pc

/-- The request with the host's token that the call waits to be served. -/
def queued? : Pc → Option CmsRequest
  | .requestQueued request | .dbLoginQueued _ request | .reloginQueued _ request => some request
  | _ => none

/-- The logout generation that a login or re-login started with, as long as it may still write the cache. -/
def generation? : Pc → Option Nat
  | .dbLoginHost _ generation => some generation
  | .dbLoginRequest call | .dbLoginQueued call _ | .dbLoginAnswered call _ => some call.generation
  | .reloginWait r | .reloginHost r | .reloginRequest r | .reloginQueued r _ | .reloginAnswered r _
  | .reloginCheck r _ => some r.generation
  | _ => none

/-- The re-login that the call makes. -/
def relogin? : Pc → Option Relogin
  | .reloginWait r | .reloginHost r | .reloginRequest r | .reloginQueued r _ | .reloginAnswered r _
  | .reloginCheck r _ => some r
  | _ => none

end Pc

/-! ### The moves of a call -/

/-- The moves of a call on `ref` that only go on to the next await. -/
inductive PcMove (s : State) (ref : HostRef) : Pc → Pc → Prop
  | sendLogin {h : HostInfo} (hh : s.hosts.get? ref = some h) : PcMove s ref .loginLoad (.loginQueued h.target)
  | sendRequest {h : HostInfo} (hh : s.hosts.get? ref = some h) :
    PcMove s ref .requestHost (.requestQueued (s.makeRequest h))
  | lookUp {client : Option (String × String)} {generation : Nat} {h : HostInfo} {dbUser : String} {loggedOut : Bool}
    (hh : s.hosts.get? ref = some h) :
    PcMove s ref (.dbLoginHost client generation) (.dbLoginRequest ⟨generation, h.token, dbUser, loggedOut⟩)
  | sendDbLogin {call : DbLoginCall} {h : HostInfo} (hh : s.hosts.get? ref = some h) :
    PcMove s ref (.dbLoginRequest call) (.dbLoginQueued call (s.makeRequest h))
  | takeTurn {r : Relogin} : PcMove s ref (.reloginWait r) (.reloginHost r)
  | profileFound {r : Relogin} : PcMove s ref (.reloginHost r) (.reloginRequest r)
  | sendRelogin {r : Relogin} {h : HostInfo} (hh : s.hosts.get? ref = some h) :
    PcMove s ref (.reloginRequest r) (.reloginQueued r (s.makeRequest h))
  | checkToken {r : Relogin} {request : CmsRequest} :
    PcMove s ref (.reloginAnswered r request) (.reloginCheck r request)
  | readActiveTime {token : Token} {seconds : Nat} :
    PcMove s ref (.activeTimeRead token) (.activeTimeStore token seconds)

/-- The points before and after an update of the host record that changes no target and no token. -/
inductive EditMove : Pc → Pc → Prop
  | activeTime {token : Token} {seconds : Nat} : EditMove (.activeTimeStore token seconds) .ended
  | clearMark {generation : Nat} : EditMove (.clearMark generation) .ended
  | mark : EditMove .logoutMark .logoutFinish
  | deleteProfile : EditMove .profileDelete .profileForget

/-- The points before and after CMS accepts a database login. -/
inductive Answered : Pc → CmsRequest → Pc → Prop
  | dbLogin {call : DbLoginCall} {request : CmsRequest} :
    Answered (.dbLoginQueued call request) request (.dbLoginAnswered call request)
  | relogin {r : Relogin} {request : CmsRequest} :
    Answered (.reloginQueued r request) request (.reloginAnswered r request)

/-- `Move s t a old new s₁`: on the action `a` the call `t` moves from `old` to `new`, and what else changes makes `s`
into `s₁`. -/
inductive Move (s : State) (t : ThreadId) (a : Act) : Pc → Pc → State → Prop
  | pc {old new : Pc} {q : Url → List ThreadId} (hmove : PcMove s (s.threads t).ref old new) :
    Move s t a old new { s with queue := q }
  | stop {old new : Pc} {q : Url → List ThreadId} {p : Dict DbKey ThreadId} {c : Dict DbKey DbLogin}
    (hold : old ≠ .absent) (hnew : new.isOver = true) (hcache : c.Within s.dbLoginCache)
    (hlogin : ∀ target token, old = .loginAnswered target token →
      s.hosts.get? (s.threads t).ref = none ∨ a = .reject t) :
    Move s t a old new { s with queue := q, pendingRelogins := p, dbLoginCache := c }
  | issue {target : Target} {q : Url → List ThreadId} :
    Move s t a (.loginQueued target) (.loginAnswered target s.nextToken)
      ({ s with queue := q }.issue (s.threads t).ref target)
  | issueLost {target : Target} {q : Url → List ThreadId} {url : Url} (hact : a = .reply url .lost)
    (hhead : (s.queue url).head? = some t) :
    Move s t a (.loginQueued target) .ended ({ s with queue := q }.issue (s.threads t).ref target)
  | serve {old new : Pc} {request : CmsRequest} {q : Url → List ThreadId} {activities : TokenActivities}
    {accepted : List Accepted} {c : Dict DbKey DbLogin} (hreq : old.queued? = some request)
    (hnew : new.isOver = true) (haccepted : s.accepted ⊆ accepted) (hcache : c.Within s.dbLoginCache) :
    Move s t a old new { s with
      queue := q, sent := s.sent ++ [request], activities := activities, accepted := accepted
      dbLoginCache := c }
  | accept {old new : Pc} {request : CmsRequest} {q : Url → List ThreadId} {activities : TokenActivities}
    (hanswer : Answered old request new) :
    Move s t a old new { s with
      queue := q, sent := s.sent ++ [request], activities := activities
      accepted := s.accepted ++ [⟨request.target.url, request.token, (s.threads t).dbname⟩] }
  | store {target : Target} {token : Token} {h : HostInfo} {activities : TokenActivities} (hact : a = .resume t)
    (hh : s.hosts.get? (s.threads t).ref = some h) :
    Move s t a (.loginAnswered target token) (.loginStored token)
      ({ s with activities := activities }.setHost (s.threads t).ref (storeToken h token s.now))
  | edit {old new : Pc} {hosts : Hosts} (hmove : EditMove old new) (hsame : SameSessions s { s with hosts := hosts })
    (hforget : new = .profileForget → State.profile? { s with hosts := hosts } (s.threads t).key = none) :
    Move s t a old new { s with hosts := hosts }
  | write {call : DbLoginCall} {request : CmsRequest} {new : Pc} (hact : a = .resume t)
    (hgeneration : s.logoutGeneration (s.threads t).key = call.generation)
    (hnew : new = .ended ∨ new = .clearMark call.generation) :
    Move s t a (.dbLoginAnswered call request) new { s with
      dbLoginCache := s.dbLoginCache.set (s.threads t).key ⟨s.nextLogin, s.now, call.hostToken, call.dbUser⟩
      nextLogin := s.nextLogin + 1
      userLogins := s.userLogins.set (s.threads t).key s.now }
  | rewrite {r : Relogin} {request : CmsRequest} {h : HostInfo} (hact : a = .resume t)
    (hh : s.hosts.get? (s.threads t).ref = some h) (htoken : h.token = some r.newToken)
    (hold : s.stillOld (s.threads t).key r.login = true) :
    Move s t a (.reloginCheck r request) .reloginDone { s with
      dbLoginCache := s.dbLoginCache.set (s.threads t).key
        ⟨s.nextLogin, r.login.loggedInAt, some r.newToken, r.login.dbUser⟩
      nextLogin := s.nextLogin + 1 }
  | logout : Move s t a .logoutFinish .ended { s with
      logoutGenerations := s.logoutGenerations.set (s.threads t).key (s.logoutGeneration (s.threads t).key + 1)
      dbLoginCache := s.dbLoginCache.erase (s.threads t).key
      pendingRelogins := s.pendingRelogins.erase (s.threads t).key
      userLogins := s.userLogins.erase (s.threads t).key }
  | forget : Move s t a .profileForget .ended { s with
      dbLoginCache := s.dbLoginCache.erase (s.threads t).key
      userLogins := s.userLogins.erase (s.threads t).key }

/-- The first point of a new call. -/
inductive Start (s : State) (ref : HostRef) (dbname : String) : Pc → Prop
  | login : Start s ref dbname .loginLoad
  | request : Start s ref dbname .requestHost
  | loginDatabase {client : Option (String × String)} :
    Start s ref dbname (.dbLoginHost client (s.logoutGeneration ⟨ref, dbname⟩))
  | logoutDatabase : Start s ref dbname .logoutMark
  | deleteDbProfile : Start s ref dbname .profileDelete

/-- `Restored s ref token s₁`: from `s` to `s₁` the re-logins of the host were started, one for a live login each. -/
structure Restored (s : State) (ref : HostRef) (token : Token) (s₁ : State) : Prop where
  rest : { s₁ with
    dbLoginCache := s.dbLoginCache, pendingRelogins := s.pendingRelogins, nextThread := s.nextThread
    threads := s.threads } = s
  cache : s₁.dbLoginCache.Within s.dbLoginCache
  next : s.nextThread ≤ s₁.nextThread
  thread : ∀ i, s₁.threads i = s.threads i ∨ s.nextThread ≤ i ∧ i < s₁.nextThread ∧
    ∃ key login earlier, s.dbLoginCache.get? key = some login ∧
      s₁.threads i = ⟨key.ref, key.dbname, .reloginWait ⟨login, token, s.logoutGeneration key, earlier⟩⟩

/-- The kinds of steps of the system. -/
inductive StepMove (s : State) (a : Act) : State → Prop
  | tick (ms : Nat) : StepMove s a { s with now := s.now + ms }
  | start {ref : HostRef} {dbname : String} {pc : Pc} (hstart : Start s ref dbname pc) :
    StepMove s a (s.spawn ref dbname pc)
  | updateHost {ref : HostRef} {body : UpdateHostRequest} {existingHost h : HostInfo} {activities : TokenActivities}
    (hact : a = .updateHost ref body) (hh : s.hosts.get? ref = some existingHost)
    (hupdate : updatedHost s.hosts ref body = some h) :
    StepMove s a ({ s with activities := activities }.setHost ref h)
  | disconnect {hosts : Hosts} {activities : TokenActivities} (hsame : SameSessions s { s with hosts := hosts }) :
    StepMove s a { s with hosts := hosts, activities := activities }
  | restore {t : ThreadId} {token : Token} {s₁ : State} (hpc : (s.threads t).pc = .loginStored token)
    (hrestored : Restored s (s.threads t).ref token s₁) : StepMove s a (s₁.setPc t (.activeTimeRead token))
  | call {t : ThreadId} {new : Pc} {s₁ : State} (hmove : Move s t a (s.threads t).pc new s₁) :
    StepMove s a (s₁.setPc t new)

/-! ### Host records -/

section setHost

variable (s : State) (ref ref' : HostRef) (h : HostInfo)

theorem target?_setHost :
    (s.setHost ref h).target? ref' = if ref' = ref then some h.target else s.target? ref' := by
  simp only [State.target?, State.setHost, Dict.get?_set]
  split <;> rfl

theorem storedToken_setHost :
    (s.setHost ref h).storedToken ref' = if ref' = ref then h.token else s.storedToken ref' := by
  simp only [State.storedToken, State.setHost, Dict.get?_set]
  split <;> rfl

theorem profile?_setHost (key : DbKey) :
    (s.setHost ref h).profile? key = if key.ref = ref then h.dbProfiles.get? key.dbname else s.profile? key := by
  simp only [State.profile?, State.setHost, Dict.get?_set]
  split <;> rfl

end setHost

namespace SameSessions

variable {s : State} {ref : HostRef} {h h' : HostInfo}

theorem refl (s : State) : SameSessions s s := ⟨fun _ => rfl, fun _ => rfl, fun _ h => h⟩

/-- The new record of a host has the target and the token of the old one, and no new profile. -/
theorem setHost (hh : s.hosts.get? ref = some h) (htarget : h'.target = h.target) (htoken : h'.token = h.token)
    (hprofile : ∀ dbname, h.dbProfiles.get? dbname = none → h'.dbProfiles.get? dbname = none) :
    SameSessions s (s.setHost ref h') := by
  refine ⟨fun ref' => ?_, fun ref' => ?_, fun key hnone => ?_⟩
  · rw [target?_setHost]
    split
    · rename_i heq
      simp [State.target?, heq, hh, htarget]
    · rfl
  · rw [storedToken_setHost]
    split
    · rename_i heq
      simp [State.storedToken, heq, hh, htoken]
    · rfl
  · rw [profile?_setHost]
    split
    · rename_i heq
      simp only [State.profile?, heq, hh, Option.bind_some] at hnone
      exact hprofile _ hnone
    · exact hnone

end SameSessions

theorem get?_mapProfile {h : HostInfo} {dbname dbname' : String} {f : DbProfile → DbProfile}
    (hnone : h.dbProfiles.get? dbname' = none) : (h.mapProfile dbname f).dbProfiles.get? dbname' = none := by
  unfold HostInfo.mapProfile
  split
  · exact hnone
  · rename_i profile hprofile
    have hne : dbname' ≠ dbname := by
      rintro rfl
      simp [hnone] at hprofile
    simpa [Dict.get?_set, hne] using hnone

/-- `setProfileLoggedOut` is an update that keeps the sessions. -/
theorem setProfileLoggedOut_hosts (s : State) (key : DbKey) (loggedOut : Bool) :
    ∃ hosts, s.setProfileLoggedOut key loggedOut = { s with hosts := hosts } ∧
      SameSessions s { s with hosts := hosts } := by
  unfold State.setProfileLoggedOut
  split
  · exact ⟨s.hosts, rfl, .refl s⟩
  · rename_i h hh
    have htarget : (h.mapProfile key.dbname fun p => { p with loggedOut := loggedOut }).target = h.target := by
      unfold HostInfo.mapProfile
      split <;> rfl
    have htoken : (h.mapProfile key.dbname fun p => { p with loggedOut := loggedOut }).token = h.token := by
      unfold HostInfo.mapProfile
      split <;> rfl
    exact ⟨_, rfl, .setHost hh htarget htoken fun _ hnone => get?_mapProfile hnone⟩

/-! ### The re-logins after a host login -/

namespace Restored

variable {s s₁ : State} {ref : HostRef} {token : Token}

theorem refl (s : State) (ref : HostRef) (token : Token) : Restored s ref token s where
  rest := rfl
  cache := Dict.Within.refl _
  next := Nat.le_refl _
  thread _ := .inl rfl

theorem logoutGeneration (h : Restored s ref token s₁) (key : DbKey) :
    s₁.logoutGeneration key = s.logoutGeneration key :=
  congrArg (fun s => s.logoutGeneration key) h.rest

theorem restoreOne (h : Restored s ref token s₁) {e : DbKey × DbLogin}
    (he : s.dbLoginCache.get? e.1 = some e.2) : Restored s ref token (restoreOne ref token s₁ e) := by
  obtain ⟨key, login⟩ := e
  simp only [Session.restoreOne]
  split
  · exact h
  · rename_i hkey
    have href : key.ref = ref := by
      by_contra hne
      exact hkey (.inl hne)
    split
    · exact ⟨h.rest, (Dict.erase_within _ _).trans h.cache, h.next, h.thread⟩
    · refine ⟨h.rest, h.cache, Nat.le_succ_of_le h.next, fun i => ?_⟩
      simp only [State.spawn]
      by_cases hi : i = s₁.nextThread
      · subst hi
        exact .inr ⟨h.next, Nat.lt_succ_self _, key, login, s₁.pendingRelogins.get? key, he,
          by simp [h.logoutGeneration, href]⟩
      · rw [Function.update_of_ne hi]
        rcases h.thread i with hold | ⟨hge, hlt, hnew⟩
        · exact .inl hold
        · exact .inr ⟨hge, Nat.lt_succ_of_lt hlt, hnew⟩

theorem foldl {es : List (DbKey × DbLogin)} (hes : ∀ e ∈ es, s.dbLoginCache.get? e.1 = some e.2)
    (h : Restored s ref token s₁) : Restored s ref token (es.foldl (Session.restoreOne ref token) s₁) := by
  induction es generalizing s₁ with
  | nil => exact h
  | cons e es ih =>
    exact ih (fun e' he' => hes e' (List.mem_cons_of_mem _ he')) (h.restoreOne (hes e List.mem_cons_self))

end Restored

theorem restored (s : State) (ref : HostRef) (token : Token) :
    Restored s ref token (restoreDbLoginsAfterHostLogin s ref token) :=
  .foldl (fun _ he => Dict.get?_eq_some_iff.2 he) (.refl s ref token)

/-! ### Every step is one of these -/

theorem StepMove.of_pc {s s₁ s' : State} {a : Act} {t : ThreadId} {old new : Pc} (hpc : (s.threads t).pc = old)
    (hmove : Move s t a old new s₁) (hs' : s₁.setPc t new = s') : StepMove s a s' := by
  subst hpc hs'
  exact .call hmove

/-- The call is over, and nothing else changes. -/
theorem StepMove.over {s s' : State} {a : Act} {t : ThreadId} {old new : Pc} (hpc : (s.threads t).pc = old)
    (hold : old ≠ .absent) (hnew : new.isOver = true)
    (hlogin : ∀ target token, old = .loginAnswered target token →
      s.hosts.get? (s.threads t).ref = none ∨ a = .reject t) (hs' : s.setPc t new = s') : StepMove s a s' :=
  .of_pc hpc (.stop (q := s.queue) (p := s.pendingRelogins) hold hnew (Dict.Within.refl _) hlogin) hs'

theorem dropOld_eq (s : State) (key : DbKey) (login : DbLogin) :
    ∃ cache, s.dropOld key login = { s with dbLoginCache := cache } ∧ cache.Within s.dbLoginCache := by
  unfold State.dropOld
  split
  · exact ⟨_, rfl, Dict.erase_within _ _⟩
  · exact ⟨_, rfl, Dict.Within.refl _⟩

/-- A re-login that drops the login it was to replace. -/
theorem StepMove.dropped {s : State} {a : Act} {t : ThreadId} {old : Pc} (hpc : (s.threads t).pc = old)
    (hold : old ≠ .absent) (hlogin : ∀ target token, old ≠ .loginAnswered target token) (key : DbKey)
    (login : DbLogin) : StepMove s a ((s.dropOld key login).setPc t .reloginDone) := by
  obtain ⟨cache, hdrop, hcache⟩ := dropOld_eq s key login
  rw [hdrop]
  exact .of_pc hpc (.stop (q := s.queue) (p := s.pendingRelogins) hold rfl hcache
    fun target token heq => absurd heq (hlogin target token)) rfl

section resume

variable {s s' : State} {t : ThreadId}

theorem resumeLogin_move (h : resumeLogin s t = some s') : StepMove s (.resume t) s' := by
  simp only [resumeLogin] at h
  split at h
  · rename_i hpc
    split at h
    · obtain rfl := Option.some.inj h
      exact .over hpc (by simp) rfl (by simp) rfl
    · rename_i host hh
      obtain rfl := Option.some.inj h
      exact .of_pc hpc (.pc (.sendLogin hh)) rfl
  · rename_i target token hpc
    split at h
    · rename_i hnone
      obtain rfl := Option.some.inj h
      exact .over hpc (by simp) rfl (fun _ _ _ => .inl hnone) rfl
    · rename_i persisted hh
      obtain rfl := Option.some.inj h
      exact .of_pc hpc (.store rfl hh) rfl
  · rename_i token hpc
    obtain rfl := Option.some.inj h
    exact .restore hpc (restored _ _ _)
  · rename_i token seconds hpc
    split at h
    · rename_i persisted hh
      split at h
      · obtain rfl := Option.some.inj h
        have hsame : SameSessions s
            (s.setHost (s.threads t).ref { persisted with cmsTokenActiveTimeSec := some seconds }) :=
          .setHost hh rfl rfl fun _ hnone => hnone
        exact .of_pc hpc (.edit .activeTime hsame (by simp)) rfl
      · obtain rfl := Option.some.inj h
        exact .over hpc (by simp) rfl (by simp) rfl
    · obtain rfl := Option.some.inj h
      exact .over hpc (by simp) rfl (by simp) rfl
  · cases h

theorem resumeRequest_move (h : resumeRequest s t = some s') : StepMove s (.resume t) s' := by
  simp only [resumeRequest] at h
  split at h
  · rename_i hpc
    split at h
    · obtain rfl := Option.some.inj h
      exact .over hpc (by simp) rfl (by simp) rfl
    · rename_i host hh
      obtain rfl := Option.some.inj h
      exact .of_pc hpc (.pc (.sendRequest hh)) rfl
  · cases h

theorem resumeDbLogin_move (h : resumeDbLogin s t = some s') : StepMove s (.resume t) s' := by
  simp only [resumeDbLogin] at h
  split at h
  · rename_i client generation hpc
    split at h
    · obtain rfl := Option.some.inj h
      exact .over hpc (by simp) rfl (by simp) rfl
    · rename_i host hh
      split at h
      · obtain rfl := Option.some.inj h
        exact .over hpc (by simp) rfl (by simp) rfl
      · obtain rfl := Option.some.inj h
        exact .of_pc hpc (.pc (q := s.queue) (.lookUp hh)) rfl
  · rename_i call hpc
    split at h
    · obtain rfl := Option.some.inj h
      exact .over hpc (by simp) rfl (by simp) rfl
    · rename_i host hh
      obtain rfl := Option.some.inj h
      exact .of_pc hpc (.pc (.sendDbLogin hh)) rfl
  · rename_i call request hpc
    split at h
    · obtain rfl := Option.some.inj h
      exact .over hpc (by simp) rfl (by simp) rfl
    · rename_i hgeneration
      obtain rfl := Option.some.inj h
      refine .of_pc hpc (.write rfl (not_not.1 hgeneration) ?_) rfl
      split
      · exact .inr rfl
      · exact .inl rfl
  · rename_i generation hpc
    split at h
    · obtain rfl := Option.some.inj h
      exact .over hpc (by simp) rfl (by simp) rfl
    · obtain rfl := Option.some.inj h
      obtain ⟨hosts, heq, hsame⟩ := setProfileLoggedOut_hosts s (s.threads t).key false
      rw [heq]
      exact .of_pc hpc (.edit .clearMark hsame (by simp)) rfl
  · cases h

theorem resumeLogout_move (h : resumeLogout s t = some s') : StepMove s (.resume t) s' := by
  simp only [resumeLogout] at h
  split at h
  · rename_i hpc
    obtain rfl := Option.some.inj h
    obtain ⟨hosts, heq, hsame⟩ := setProfileLoggedOut_hosts s (s.threads t).key true
    rw [heq]
    exact .of_pc hpc (.edit .mark hsame (by simp)) rfl
  · rename_i hpc
    obtain rfl := Option.some.inj h
    exact .of_pc hpc .logout rfl
  · rename_i hpc
    split at h
    · rename_i hnone
      obtain rfl := Option.some.inj h
      have hsame : SameSessions s { s with hosts := s.hosts } := .refl s
      refine .of_pc hpc (.edit .deleteProfile hsame fun _ => ?_) rfl
      exact Option.bind_eq_none_iff.2 fun host hh => absurd (hnone.symm.trans hh) (by simp)
    · rename_i host hh
      obtain rfl := Option.some.inj h
      have hsame : SameSessions s (s.setHost (s.threads t).ref
          { host with dbProfiles := host.dbProfiles.erase (s.threads t).dbname }) := by
        refine .setHost hh rfl rfl fun dbname hnone => ?_
        rw [Dict.get?_erase]
        split
        · rfl
        · exact hnone
      refine .of_pc hpc (.edit .deleteProfile hsame fun _ => ?_) rfl
      exact (profile?_setHost ..).trans (by simp [Thread.key])
  · rename_i hpc
    obtain rfl := Option.some.inj h
    exact .of_pc hpc .forget rfl
  · cases h

theorem resumeRelogin_move (h : resumeRelogin s t = some s') : StepMove s (.resume t) s' := by
  simp only [resumeRelogin] at h
  split at h
  · rename_i r hpc
    split at h
    · obtain rfl := Option.some.inj h
      split
      · exact .of_pc hpc (.pc (q := s.queue) .takeTurn) rfl
      · exact .over hpc (by simp) rfl (by simp) rfl
    · cases h
  · rename_i r hpc
    split at h
    · obtain rfl := Option.some.inj h
      exact .dropped hpc (by simp) (by simp) _ _
    · split at h
      · obtain rfl := Option.some.inj h
        exact .of_pc hpc (.pc (q := s.queue) .profileFound) rfl
      · obtain rfl := Option.some.inj h
        exact .dropped hpc (by simp) (by simp) _ _
  · rename_i r hpc
    split at h
    · obtain rfl := Option.some.inj h
      exact .dropped hpc (by simp) (by simp) _ _
    · rename_i host hh
      obtain rfl := Option.some.inj h
      exact .of_pc hpc (.pc (.sendRelogin hh)) rfl
  · rename_i r request hpc
    obtain rfl := Option.some.inj h
    split
    · exact .of_pc hpc (.pc (q := s.queue) .checkToken) rfl
    · exact .over hpc (by simp) rfl (by simp) rfl
  · rename_i r request hpc
    split at h
    · obtain rfl := Option.some.inj h
      exact .dropped hpc (by simp) (by simp) _ _
    · rename_i host hh
      split at h
      · rename_i hwrite
        obtain rfl := Option.some.inj h
        exact .of_pc hpc (.rewrite rfl hh hwrite.1 hwrite.2) rfl
      · obtain rfl := Option.some.inj h
        exact .over hpc (by simp) rfl (by simp) rfl
  · rename_i hpc
    obtain rfl := Option.some.inj h
    split
    · exact .of_pc hpc (.stop (q := s.queue) (by simp) rfl (Dict.Within.refl _) (by simp)) rfl
    · exact .over hpc (by simp) rfl (by simp) rfl
  · cases h

theorem resume_move (h : resume s t = some s') : StepMove s (.resume t) s' := by
  simp only [resume, Option.orElse_eq_orElse, Option.orElse_eq_or, Option.or_eq_some_iff] at h
  rcases h with h | ⟨-, h | ⟨-, h | ⟨-, h | ⟨-, h⟩⟩⟩⟩
  · exact resumeLogin_move h
  · exact resumeRequest_move h
  · exact resumeDbLogin_move h
  · exact resumeLogout_move h
  · exact resumeRelogin_move h

theorem reject_move (h : reject s t = some s') : StepMove s (.reject t) s' := by
  simp only [reject] at h
  split at h
  all_goals
    rename_i hpc
    first
      | (obtain rfl := Option.some.inj h
         first
           | exact .over hpc nofun rfl (fun _ _ _ => .inr rfl) rfl
           | exact .dropped hpc nofun nofun _ _)
      | cases h

end resume

/-- CMS handles the request of the call that waits first for the address. -/
theorem reply_move {s s' : State} {url : Url} {r : CmsReply} (h : reply s url r = some s') :
    StepMove s (.reply url r) s' := by
  unfold reply at h
  split at h
  · cases h
  · rename_i t rest hqueue
    simp only [handle] at h
    split at h
    · rename_i target hpc
      obtain rfl := Option.some.inj h
      exact .of_pc hpc .issue rfl
    · rename_i target hpc
      obtain rfl := Option.some.inj h
      exact .of_pc hpc (.issueLost rfl (by rw [hqueue]; rfl)) rfl
    · rename_i target _ hpc
      obtain rfl := Option.some.inj h
      exact .of_pc hpc (.stop (p := s.pendingRelogins) nofun rfl (Dict.Within.refl _) nofun) rfl
    · rename_i request r hpc
      obtain rfl := Option.some.inj h
      exact .of_pc hpc (.serve rfl rfl (List.Subset.refl _) (Dict.Within.refl _)) rfl
    · rename_i call request hpc
      obtain rfl := Option.some.inj h
      exact .of_pc hpc (.accept .dbLogin) rfl
    · rename_i call request hpc
      obtain rfl := Option.some.inj h
      exact .of_pc hpc (.serve rfl rfl (List.subset_append_left _ _) (Dict.Within.refl _)) rfl
    · rename_i call request _ hpc
      obtain rfl := Option.some.inj h
      exact .of_pc hpc (.serve rfl rfl (List.Subset.refl _) (Dict.Within.refl _)) rfl
    · rename_i rl request hpc
      obtain rfl := Option.some.inj h
      exact .of_pc hpc (.accept .relogin) rfl
    · rename_i rl request hpc
      obtain rfl := Option.some.inj h
      obtain ⟨c, hdrop, hcache⟩ := dropOld_eq
        ((State.deliver { s with queue := Function.update s.queue url rest } request .lost).acceptDbLogin request
          (s.threads t).dbname) (s.threads t).key rl.login
      rw [hdrop]
      exact .of_pc hpc (.serve rfl rfl (List.subset_append_left _ _) hcache) rfl
    · rename_i rl request invalidToken hpc
      obtain rfl := Option.some.inj h
      obtain ⟨c, hdrop, hcache⟩ := dropOld_eq
        (State.deliver { s with queue := Function.update s.queue url rest } request (.refused invalidToken))
        (s.threads t).key rl.login
      rw [hdrop]
      exact .of_pc hpc (.serve rfl rfl (List.Subset.refl _) hcache) rfl
    · cases h

theorem disconnect_move {s s' : State} {ref : HostRef} (h : disconnect s ref = some s') :
    StepMove s (.disconnect ref) s' := by
  obtain ⟨persisted, hh, hs'⟩ := Option.bind_eq_some_iff.1 h
  obtain rfl := Option.some.inj hs'
  have hsame : SameSessions s (s.setHost ref { persisted with cmsTokenIssuedAt := none }) :=
    .setHost hh rfl rfl fun _ hnone => hnone
  exact .disconnect hsame

theorem updateHost_move {s s' : State} {ref : HostRef} {body : UpdateHostRequest}
    (h : updateHost s ref body = some s') : StepMove s (.updateHost ref body) s' := by
  obtain ⟨existingHost, hh, h⟩ := Option.bind_eq_some_iff.1 h
  obtain ⟨host, hupdate, hs'⟩ := Option.bind_eq_some_iff.1 h
  obtain rfl := Option.some.inj hs'
  exact .updateHost rfl hh hupdate

theorem step_move {s s' : State} {a : Act} (h : step s a = some s') : StepMove s a s' := by
  cases a with
  | tick ms =>
    obtain rfl := Option.some.inj h
    exact .tick ms
  | login ref =>
    obtain rfl := Option.some.inj h
    exact .start .login
  | request ref =>
    obtain rfl := Option.some.inj h
    exact .start .request
  | loginDatabase key client =>
    obtain rfl := Option.some.inj h
    exact .start .loginDatabase
  | logoutDatabase key =>
    obtain rfl := Option.some.inj h
    exact .start .logoutDatabase
  | deleteDbProfile key =>
    obtain rfl := Option.some.inj h
    exact .start .deleteDbProfile
  | updateHost ref body => exact updateHost_move h
  | disconnect ref => exact disconnect_move h
  | resume t => exact resume_move h
  | reject t => exact reject_move h
  | reply url r => exact reply_move h
  | activeTime t seconds =>
    simp only [step, receiveActiveTime] at h
    split at h
    · rename_i token hpc
      obtain rfl := Option.some.inj h
      exact .of_pc hpc (.pc (q := s.queue) .readActiveTime) rfl
    · cases h

/-! ### The calls after a step -/

@[simp] theorem setPc_self (s : State) (t : ThreadId) (pc : Pc) :
    (s.setPc t pc).threads t = { s.threads t with pc := pc } := Function.update_self ..

theorem setPc_of_ne (s : State) {t i : ThreadId} (h : i ≠ t) (pc : Pc) : (s.setPc t pc).threads i = s.threads i :=
  Function.update_of_ne h ..

namespace Move

variable {s s₁ : State} {t : ThreadId} {a : Act} {old new : Pc}

theorem threads (h : Move s t a old new s₁) : s₁.threads = s.threads := by
  cases h <;> rfl

theorem nextThread (h : Move s t a old new s₁) : s₁.nextThread = s.nextThread := by
  cases h <;> rfl

theorem ne_absent (h : Move s t a old new s₁) : old ≠ .absent := by
  cases h with
  | stop hold => exact hold
  | pc hmove => cases hmove <;> nofun
  | edit hmove => cases hmove <;> nofun
  | accept hanswer => cases hanswer <;> nofun
  | serve hreq =>
    rintro rfl
    cases hreq
  | _ => nofun

end Move

/-- What holds of every call after a step: it holds of the calls as they were, of the new ones, and of the one that
moved. -/
theorem StepMove.forall_threads {s s' : State} {a : Act} (hstep : StepMove s a s')
    (hfresh : ∀ i, s.nextThread ≤ i → (s.threads i).pc = .absent) {P : ThreadId → Thread → Prop}
    (hold : ∀ i, P i (s.threads i))
    (hstart : ∀ ref dbname pc, Start s ref dbname pc → s' = s.spawn ref dbname pc → P s.nextThread ⟨ref, dbname, pc⟩)
    (hrestore : ∀ t i key login token earlier, (s.threads t).pc = .loginStored token → s.nextThread ≤ i →
      i < s'.nextThread → s.dbLoginCache.get? key = some login →
      P i ⟨key.ref, key.dbname, .reloginWait ⟨login, token, s.logoutGeneration key, earlier⟩⟩)
    (hstored : ∀ t token, (s.threads t).pc = .loginStored token →
      P t { s.threads t with pc := .activeTimeRead token })
    (hmove : ∀ t new s₁, Move s t a (s.threads t).pc new s₁ → s' = s₁.setPc t new →
      P t { s.threads t with pc := new }) (i : ThreadId) : P i (s'.threads i) := by
  cases hstep with
  | tick | updateHost | disconnect => exact hold i
  | @start ref dbname pc hs =>
    by_cases hi : i = s.nextThread
    · subst hi
      simpa [State.spawn] using hstart ref dbname pc hs rfl
    · simpa [State.spawn, Function.update_of_ne hi] using hold i
  | @restore t token s₁ hpc hrestored =>
    by_cases hi : i = t
    · subst hi
      rcases hrestored.thread i with heq | ⟨hge, hlt, key, login, earlier, hget, heq⟩
      · rw [setPc_self, heq]
        exact hstored i token hpc
      · cases hpc.symm.trans (hfresh i hge)
    · rw [setPc_of_ne _ hi]
      rcases hrestored.thread i with heq | ⟨hge, hlt, key, login, earlier, hget, heq⟩
      · rw [heq]
        exact hold i
      · rw [heq]
        exact hrestore t i key login token earlier hpc hge hlt hget
  | @call t new s₁ hm =>
    by_cases hi : i = t
    · subst hi
      rw [setPc_self, hm.threads]
      exact hmove i new s₁ hm rfl
    · rw [setPc_of_ne _ hi, hm.threads]
      exact hold i

/-- A call that has not been made yet is absent. -/
def Fresh (s : State) : Prop := ∀ i, s.nextThread ≤ i → (s.threads i).pc = .absent

theorem nextThread_step {s s' : State} {a : Act} (hstep : StepMove s a s') : s.nextThread ≤ s'.nextThread := by
  cases hstep with
  | tick | updateHost | disconnect => exact Nat.le_refl _
  | start => exact Nat.le_succ _
  | restore hpc hrestored => exact hrestored.next
  | call hmove => exact Nat.le_of_eq hmove.nextThread.symm

theorem Fresh.step {s s' : State} {a : Act} (h : Fresh s) (hstep : StepMove s a s') : Fresh s' := by
  have hnext := nextThread_step hstep
  refine hstep.forall_threads h (P := fun i th => s'.nextThread ≤ i → th.pc = .absent)
    (fun i hi => h i (Nat.le_trans hnext hi)) (fun ref dbname pc hs heq hi => ?_)
    (fun t i key login token earlier _ _ hlt _ hi => absurd hi (Nat.not_le_of_lt hlt))
    (fun t token hpc hi => ?_) fun t new s₁ hmove heq hi => absurd (h t (Nat.le_trans hnext hi)) hmove.ne_absent
  · subst heq
    exact absurd hi (Nat.not_succ_le_self _)
  · cases hpc.symm.trans (h t (Nat.le_trans hnext hi))

end CubridWebManager.Session
