import CubridWebManager.Session.LogoutWins
import CubridWebManager.Session.Tokens

/-!
# Forgetting a saved login

After a delete or a rename `deleteDbProfile` forgets the saved profile of the database and its cached login; a rename
does so for both names.  Unlike a logout it draws no generation, so a login or re-login of the database that is on its
way writes the cache after it (`forgetting_sticks_fails`).

The login stays forgotten just when no call from before writes it (`forgetting_sticks_iff`); where none is on its way,
it stays forgotten until a login or registration called since succeeds (`forgetting_sticks_alone`).
-/

namespace CubridWebManager.Session

open Transition

/-! ### Registration of profiles -/

/-- The session system, with the registrations of profiles that wait for the user lock. -/
structure ProfileState where
  session : State
  nextSave : Nat
  saves : Nat → Option (DbKey × DbProfile)

inductive ProfileAct
  | session (a : Act)
  | saveDatabaseProfile (key : DbKey) (databaseId : String) (databasePassword : Option String)
  /-- The user file is updated. -/
  | saved (i : Nat)
  /-- The update fails. -/
  | notSaved (i : Nat)
  deriving DecidableEq

def missing (text : String) : Bool := (Text.trim text.toList).isEmpty

/-- `saveDatabaseProfile` up to `await atomicUpdateUser`; without a name or a user it throws. -/
def ProfileState.startSave (s : ProfileState) (key : DbKey) (databaseId : String) (databasePassword : Option String) :
    ProfileState :=
  if missing key.dbname || missing databaseId then s
  else
    { s with
      nextSave := s.nextSave + 1
      saves := Function.update s.saves s.nextSave (some (key, ⟨databaseId, databasePassword.getD "", false⟩)) }

/-- The update of the user; without the host it throws. -/
def State.saveProfile (s : State) (key : DbKey) (profile : DbProfile) : State :=
  match s.hosts.get? key.ref with
  | none => s
  | some host => s.setHost key.ref { host with dbProfiles := host.dbProfiles.set key.dbname profile }

def ProfileState.endSave (s : ProfileState) (i : Nat) : ProfileState :=
  { s with saves := Function.update s.saves i none }

def profileStep (s : ProfileState) : ProfileAct → Option ProfileState
  | .session a => (step s.session a).map fun session => { s with session := session }
  | .saveDatabaseProfile key databaseId databasePassword => some (s.startSave key databaseId databasePassword)
  | .saved i => (s.saves i).map fun e => { s with session := s.session.saveProfile e.1 e.2 }.endSave i
  | .notSaved i => (s.saves i).map fun _ => s.endSave i

/-! ### What brings a login back -/

/-- No login of the database is live under any token, and no profile is saved. -/
def Forgotten (key : DbKey) (s : State) : Prop :=
  (∀ token, s.isDbLoginActive key token = false) ∧ s.profile? key = none

/-- A re-login is about to put a login of the database in the cache that has not expired. -/
def ReloginFills (key : DbKey) (s : State) : Act → Prop
  | .resume t => (s.threads t).key = key ∧ ∃ r ∈ (s.threads t).pc.checking?, s.storedToken key.ref = some r.newToken ∧
      s.stillOld key r.login = true ∧ s.now < r.login.loggedInAt + dbmtLoginTtlMs
  | _ => False

/-- A registration for the database is about to be saved. -/
def Saves (key : DbKey) (s : ProfileState) (i : Nat) : Prop :=
  ∃ e ∈ s.saves i, e.1 = key ∧ s.session.hosts.get? key.ref ≠ none

/-- A login from `first` on, or a registration from `firstSave` on, succeeds. -/
def Renewed (key : DbKey) (first : ThreadId) (firstSave : Nat) (s : ProfileState) : ProfileAct → Prop
  | .session a => LoginSucceeds key first s.session a
  | .saved i => firstSave ≤ i ∧ Saves key s i
  | _ => False

/-- No earlier login, no re-login and no earlier registration succeeds. -/
def OldCallsLapse (key : DbKey) (first : ThreadId) (firstSave : Nat) (s : ProfileState) : ProfileAct → Prop
  | .session a =>
    (LoginSucceeds key 0 s.session a → LoginSucceeds key first s.session a) ∧ ¬ReloginFills key s.session a
  | .saved i => Saves key s i → firstSave ≤ i
  | _ => True

/-- No profile of the database is saved. -/
def NoSave (key : DbKey) (s : ProfileState) : ProfileAct → Prop
  | .saved i => ¬Saves key s i
  | _ => True

/-! ### Steps -/

/-- What the cache has of the database has expired, and no profile is saved. -/
def Lapsed (key : DbKey) (s : State) : Prop :=
  (∀ e, s.dbLoginCache.get? key = some e → e.loggedInAt + dbmtLoginTtlMs ≤ s.now) ∧ s.profile? key = none

theorem forgotten_iff {key : DbKey} {s : State} : Forgotten key s ↔ Lapsed key s := by
  refine and_congr_left fun _ => ?_
  simp only [State.isDbLoginActive, isDbLoginActive]
  cases hget : s.dbLoginCache.get? key with
  | none => simp
  | some e =>
    simp only [Option.some.injEq, forall_eq']
    constructor
    · intro hall
      have hactive := hall e.hostToken
      simp only [true_and, decide_eq_false_iff_not, Nat.not_lt] at hactive
      have httl : 0 < dbmtLoginTtlMs := by decide
      omega
    · intro hexpired token
      have hnot : ¬s.now - e.loggedInAt < dbmtLoginTtlMs := by omega
      simp [hnot]

theorem now_step {s s' : State} {a : Act} (hstep : StepMove s a s') : s.now ≤ s'.now := by
  cases hstep with
  | tick ms => exact Nat.le_add_right _ _
  | start | updateHost | disconnect => exact Nat.le_refl _
  | restore hpc hrestored => exact Nat.le_of_eq (congrArg State.now hrestored.rest).symm
  | @call t new s₁ hmove =>
    generalize (s.threads t).pc = old at hmove
    cases hmove <;> exact Nat.le_refl _

/-- A login that succeeds is live. -/
theorem cache_of_loginSucceeds {key : DbKey} {first : ThreadId} {s s' : State} {a : Act}
    (h : LoginSucceeds key first s a) (hstep : step s a = some s') :
    ∃ e, s'.dbLoginCache.get? key = some e ∧ s'.now < e.loggedInAt + dbmtLoginTtlMs := by
  have httl : 0 < dbmtLoginTtlMs := by decide
  cases a with
  | resume t =>
    obtain ⟨-, rfl, call, hcall, hgeneration⟩ := h
    cases hpc : (s.threads t).pc <;> rw [hpc] at hcall <;> cases hcall
    simp only [step, resume, resumeLogin, resumeRequest, resumeDbLogin, hpc, hgeneration, ne_eq, not_true_eq_false,
      if_false] at hstep
    obtain rfl := Option.some.inj hstep
    refine ⟨⟨s.nextLogin, s.now, call.hostToken, call.dbUser⟩, Dict.get?_set_self .., ?_⟩
    show s.now < s.now + dbmtLoginTtlMs
    omega
  | _ => exact absurd h id

/-- A re-login that is in time leaves a live login. -/
theorem cache_of_reloginFills {key : DbKey} {s s' : State} {a : Act} (h : ReloginFills key s a)
    (hstep : step s a = some s') :
    ∃ e, s'.dbLoginCache.get? key = some e ∧ s'.now < e.loggedInAt + dbmtLoginTtlMs := by
  cases a with
  | resume t =>
    obtain ⟨rfl, r, hr, htoken, hold, hnow⟩ := h
    cases hpc : (s.threads t).pc <;> rw [hpc] at hr <;> cases hr
    obtain ⟨host, hhost, htoken⟩ := Option.bind_eq_some_iff.1 htoken
    have hhost' : s.hosts.get? (s.threads t).key.ref = some host := hhost
    simp only [step, resume, resumeLogin, resumeRequest, resumeDbLogin, resumeLogout, resumeRelogin, hpc, hhost',
      htoken, hold, and_self, if_true] at hstep
    obtain rfl := Option.some.inj hstep
    exact ⟨⟨s.nextLogin, r.login.loggedInAt, some r.newToken, r.login.dbUser⟩, Dict.get?_set_self .., hnow⟩
  | _ => exact absurd h id

/-- A step of the session system brings the login back just when a login or a re-login goes through. -/
theorem Lapsed.session_step {key : DbKey} {s s' : State} {a : Act} (h : Lapsed key s) (hstep : step s a = some s') :
    Lapsed key s' ↔ ¬LoginSucceeds key 0 s a ∧ ¬ReloginFills key s a := by
  have hmove := step_move hstep
  constructor
  · intro hs'
    refine ⟨fun hlogin => ?_, fun hrelogin => ?_⟩
    · obtain ⟨e, hget, hlive⟩ := cache_of_loginSucceeds hlogin hstep
      exact absurd hlive (Nat.not_lt.2 (hs'.1 e hget))
    · obtain ⟨e, hget, hlive⟩ := cache_of_reloginFills hrelogin hstep
      exact absurd hlive (Nat.not_lt.2 (hs'.1 e hget))
  · rintro ⟨hlogin, hrelogin⟩
    refine ⟨fun e hget => ?_, profile_step hmove h.2⟩
    have hnow := now_step hmove
    cases cache_step hmove hget with
    | kept hold => exact Nat.le_trans (h.1 e hold) hnow
    | @login t call request hact hpc hkey hgeneration =>
      subst hact
      exact absurd ⟨Nat.zero_le t, hkey, call, by rw [hpc]; rfl, hgeneration⟩ hlogin
    | @relogin t r request hact hpc hkey htoken hslot he =>
      subst hact he
      by_contra hlive
      refine hrelogin ⟨hkey, r, by rw [hpc]; rfl, htoken, hslot, ?_⟩
      have hlive' : ¬r.login.loggedInAt + dbmtLoginTtlMs ≤ s'.now := hlive
      omega

/-! ### Registrations -/

theorem profile?_saveProfile (s : State) (key key' : DbKey) (profile : DbProfile) :
    (s.saveProfile key profile).profile? key' =
      if key' = key ∧ s.hosts.get? key.ref ≠ none then some profile else s.profile? key' := by
  unfold State.saveProfile
  split
  · rename_i hnone
    simp [hnone]
  · rename_i host hhost
    rw [profile?_setHost]
    by_cases hkey : key' = key
    · subst hkey
      simp [hhost]
    · simp only [hkey, false_and, if_false]
      split
      · rename_i href
        have hname : key'.dbname ≠ key.dbname := fun hname => hkey (by cases key; cases key'; simp_all)
        simp only [State.profile?, href, hhost, Option.bind_some, Dict.get?_set, if_neg hname]
      · rfl

theorem saveProfile_cache (s : State) (key : DbKey) (profile : DbProfile) :
    (s.saveProfile key profile).dbLoginCache = s.dbLoginCache ∧ (s.saveProfile key profile).now = s.now := by
  unfold State.saveProfile
  split <;> exact ⟨rfl, rfl⟩

theorem saveProfile_threads (s : State) (key : DbKey) (profile : DbProfile) :
    (s.saveProfile key profile).threads = s.threads ∧ (s.saveProfile key profile).nextThread = s.nextThread := by
  unfold State.saveProfile
  split <;> exact ⟨rfl, rfl⟩

theorem startSave_session (s : ProfileState) (key : DbKey) (databaseId : String) (databasePassword : Option String) :
    (s.startSave key databaseId databasePassword).session = s.session := by
  unfold ProfileState.startSave
  split <;> rfl

theorem saved_session {s s' : ProfileState} {i : Nat} (hstep : profileStep s (.saved i) = some s') :
    ∃ e, s.saves i = some e ∧ s'.session = s.session.saveProfile e.1 e.2 := by
  obtain ⟨e, he, rfl⟩ := Option.map_eq_some_iff.1 hstep
  exact ⟨e, he, rfl⟩

theorem LoginSucceeds.mono {key : DbKey} {first : ThreadId} {s : State} {a : Act} (h : LoginSucceeds key first s a) :
    LoginSucceeds key 0 s a := by
  cases a with
  | resume t => exact ⟨Nat.zero_le t, h.2⟩
  | _ => exact h

/-- What brings the login back is an earlier call, a re-login, or a call since. -/
theorem Lapsed.step {key : DbKey} {s s' : ProfileState} {a : ProfileAct} (h : Lapsed key s.session)
    (first : ThreadId) (firstSave : Nat) (hstep : profileStep s a = some s') :
    Lapsed key s'.session ↔ OldCallsLapse key first firstSave s a ∧ ¬Renewed key first firstSave s a := by
  cases a with
  | session a =>
    obtain ⟨session, hsession, rfl⟩ := Option.map_eq_some_iff.1 hstep
    have hmono : LoginSucceeds key first s.session a → LoginSucceeds key 0 s.session a := fun h => h.mono
    refine (h.session_step hsession).trans ?_
    simp only [OldCallsLapse, Renewed]
    tauto
  | saveDatabaseProfile key' databaseId databasePassword =>
    obtain rfl := Option.some.inj hstep
    rw [startSave_session]
    exact iff_of_true h ⟨trivial, id⟩
  | saved i =>
    obtain ⟨e, he, hsession⟩ := saved_session hstep
    obtain ⟨hcache, hnow⟩ := saveProfile_cache s.session e.1 e.2
    have hsaves : Saves key s i ↔ key = e.1 ∧ s.session.hosts.get? e.1.ref ≠ none := by
      simp only [Saves, he, Option.mem_def, Option.some.injEq, exists_eq_left']
      constructor
      · rintro ⟨rfl, hhost⟩
        exact ⟨rfl, hhost⟩
      · rintro ⟨rfl, hhost⟩
        exact ⟨rfl, hhost⟩
    have hlapsed : Lapsed key s'.session ↔ ¬Saves key s i := by
      rw [hsession, Lapsed, hcache, hnow, profile?_saveProfile, hsaves]
      split
      · rename_i hsave
        simp [hsave]
      · rename_i hsave
        exact iff_of_true h hsave
    rw [hlapsed]
    simp only [OldCallsLapse, Renewed]
    constructor
    · exact fun hnot => ⟨fun hsave => absurd hsave hnot, fun hsave => hnot hsave.2⟩
    · exact fun hboth hsave => hboth.2 ⟨hboth.1 hsave, hsave⟩
  | notSaved i =>
    obtain ⟨e, -, rfl⟩ := Option.map_eq_some_iff.1 hstep
    exact iff_of_true h ⟨trivial, id⟩

/-- Where no profile of the database is saved, none appears. -/
theorem profile_profileStep {key : DbKey} {s s' : ProfileState} {a : ProfileAct} (hok : NoSave key s a)
    (hnone : s.session.profile? key = none) (hstep : profileStep s a = some s') : s'.session.profile? key = none := by
  cases a with
  | session a =>
    obtain ⟨session, hsession, rfl⟩ := Option.map_eq_some_iff.1 hstep
    exact profile_step (step_move hsession) hnone
  | saveDatabaseProfile key' databaseId databasePassword =>
    obtain rfl := Option.some.inj hstep
    rwa [startSave_session]
  | saved i =>
    obtain ⟨e, he, hsession⟩ := saved_session hstep
    rw [hsession, profile?_saveProfile, if_neg]
    · exact hnone
    · rintro ⟨rfl, hhost⟩
      exact hok ⟨e, he, rfl, hhost⟩
  | notSaved i =>
    obtain ⟨e, -, rfl⟩ := Option.map_eq_some_iff.1 hstep
    exact hnone

/-! ### The two steps of `deleteDbProfile` -/

/-- The profile is gone once it is deleted. -/
theorem profile_of_delete {key : DbKey} {s s' : ProfileState} {t : ThreadId}
    (hkey : (s.session.threads t).key = key) (hpc : (s.session.threads t).pc = .profileDelete)
    (hstep : profileStep s (.session (.resume t)) = some s') : s'.session.profile? key = none := by
  obtain ⟨session, hsession, rfl⟩ := Option.map_eq_some_iff.1 hstep
  subst hkey
  simp only [step, resume, resumeLogin, resumeRequest, resumeDbLogin, resumeLogout, hpc] at hsession
  cases hhost : s.session.hosts.get? (s.session.threads t).key.ref with
  | none =>
    rw [hhost] at hsession
    obtain rfl := Option.some.inj hsession
    show State.profile? s.session _ = none
    simp [State.profile?, hhost]
  | some host =>
    rw [hhost] at hsession
    obtain rfl := Option.some.inj hsession
    refine (profile?_setHost ..).trans ?_
    simp

/-- The login is gone from the cache once it is forgotten. -/
theorem cache_of_forget {key : DbKey} {s s' : ProfileState} {t : ThreadId}
    (hkey : (s.session.threads t).key = key) (hpc : (s.session.threads t).pc = .profileForget)
    (hstep : profileStep s (.session (.resume t)) = some s') : s'.session.dbLoginCache.get? key = none := by
  obtain ⟨session, hsession, rfl⟩ := Option.map_eq_some_iff.1 hstep
  subst hkey
  simp only [step, resume, resumeLogin, resumeRequest, resumeDbLogin, resumeLogout, hpc] at hsession
  obtain rfl := Option.some.inj hsession
  exact Dict.get?_erase_self _ _

/-- `deleteDbProfile` of call `t`, from the state in which it deletes the profile to the one in which it has forgotten
the login; no profile of the database is saved in between. -/
structure Forgets (key : DbKey) (t : ThreadId) (s₁ s₄ : ProfileState) : Prop where
  key_eq : (s₁.session.threads t).key = key
  delete : (s₁.session.threads t).pc = .profileDelete
  between : ∃ s₂ bs s₃, profileStep s₁ (.session (.resume t)) = some s₂ ∧ Run profileStep (NoSave key) s₂ bs s₃ ∧
    (s₃.session.threads t).key = key ∧ (s₃.session.threads t).pc = .profileForget ∧
    profileStep s₃ (.session (.resume t)) = some s₄

theorem Forgets.gone {key : DbKey} {t : ThreadId} {s₁ s₄ : ProfileState} (h : Forgets key t s₁ s₄) :
    s₄.session.dbLoginCache.get? key = none ∧ s₄.session.profile? key = none := by
  obtain ⟨hkey, hdelete, s₂, bs, s₃, hdeleted, hrun, hkey₃, hforget, hforgot⟩ := h
  have hnone := hrun.invariant (I := fun s => s.session.profile? key = none)
    (fun _ _ _ hnone hok hstep => profile_profileStep hok hnone hstep) (profile_of_delete hkey hdelete hdeleted)
  exact ⟨cache_of_forget hkey₃ hforget hforgot, profile_profileStep (a := ProfileAct.session _) trivial hnone hforgot⟩

theorem Forgets.lapsed {key : DbKey} {t : ThreadId} {s₁ s₄ : ProfileState} (h : Forgets key t s₁ s₄) :
    Lapsed key s₄.session := by
  refine ⟨fun e hget => ?_, h.gone.2⟩
  rw [h.gone.1] at hget
  cases hget

/-! ### No call on its way -/

/-- No login, re-login or registration of the database is on its way. -/
structure Alone (key : DbKey) (s : ProfileState) : Prop where
  calls : ∀ i, (s.session.threads i).key = key → (s.session.threads i).pc.generation? = none
  saves : ∀ i e, s.saves i = some e → e.1 ≠ key

/-- The database has neither login nor profile, and what is on its way was called from `first` and `firstSave` on. -/
structure Since (key : DbKey) (first : ThreadId) (firstSave : Nat) (s : ProfileState) : Prop where
  fresh : Fresh s.session
  first_le : first ≤ s.session.nextThread
  firstSave_le : firstSave ≤ s.nextSave
  cache : s.session.dbLoginCache.get? key = none
  profile : s.session.profile? key = none
  calls : ∀ i g, (s.session.threads i).key = key → (s.session.threads i).pc.generation? = some g →
    first ≤ i ∧ (s.session.threads i).pc.relogin? = none
  saves : ∀ i e, s.saves i = some e → e.1 = key → firstSave ≤ i

namespace Since

variable {key : DbKey} {first : ThreadId} {firstSave : Nat} {s s' : ProfileState}

/-- No call that is left is an earlier one, so none brings the login back. -/
theorem oldCallsLapse (h : Since key first firstSave s) (a : ProfileAct) : OldCallsLapse key first firstSave s a := by
  cases a with
  | session a =>
    cases a with
    | resume t =>
      constructor
      · rintro ⟨-, hkey, call, hcall, hgeneration⟩
        have hg : (s.session.threads t).pc.generation? = some call.generation := by
          cases hpc : (s.session.threads t).pc <;> rw [hpc] at hcall <;> cases hcall
          rfl
        exact ⟨(h.calls t _ hkey hg).1, hkey, call, hcall, hgeneration⟩
      · rintro ⟨hkey, r, hr, -⟩
        have hpc : (s.session.threads t).pc.generation? = some r.generation ∧
            (s.session.threads t).pc.relogin? = some r := by
          cases hpc : (s.session.threads t).pc <;> rw [hpc] at hr <;> cases hr
          exact ⟨rfl, rfl⟩
        have hnone := (h.calls t _ hkey hpc.1).2
        rw [hpc.2] at hnone
        cases hnone
    | _ => exact ⟨fun hlogin => absurd hlogin id, id⟩
  | saved i =>
    rintro ⟨e, he, hkey, -⟩
    exact h.saves i e he hkey
  | _ => trivial

theorem session_calls (h : Since key first firstSave s) {a : Act} {session : State}
    (hstep : StepMove s.session a session) (i : ThreadId) (g : Nat) (hkey : (session.threads i).key = key) (hg : (session.threads i).pc.generation? = some g) :
    first ≤ i ∧ (session.threads i).pc.relogin? = none := by
  revert g
  refine hstep.forall_threads h.fresh
    (P := fun i th => th.key = key → ∀ g, th.pc.generation? = some g → first ≤ i ∧ th.pc.relogin? = none)
    (fun i hkey g hg => h.calls i g hkey hg) (fun ref dbname pc hs _ hkey g hg => ?_)
    (fun u i key' login token earlier _ hge _ hget hkey g hg => ?_) (fun t token _ _ g hg => ?_)
    (fun t new s₁ hmove _ hkey g hg => ?_) i hkey
  · cases hs <;> exact ⟨h.first_le, rfl⟩
  · -- no re-login of the database starts, for there is no login to restore
    obtain rfl : key' = key := hkey
    exact absurd (hget.symm.trans h.cache) nofun
  · simp [Pc.generation?] at hg
  · obtain ⟨hold, hsame⟩ := hmove.generation hg
    have hcalls := h.calls t g hkey hold
    exact ⟨hcalls.1, hsame.trans hcalls.2⟩

/-- A registration is over. -/
theorem endSave (h : Since key first firstSave s) (i : Nat) {session : State}
    (hthreads : session.threads = s.session.threads ∧ session.nextThread = s.session.nextThread)
    (hcache : session.dbLoginCache = s.session.dbLoginCache) (hprofile : session.profile? key = none) :
    Since key first firstSave ({ s with session := session }.endSave i) where
  fresh j hj := by
    have hold := h.fresh j (hthreads.2 ▸ hj)
    exact (congrArg (fun threads => (threads j).pc) hthreads.1).trans hold
  first_le := by
    show first ≤ session.nextThread
    rw [hthreads.2]
    exact h.first_le
  firstSave_le := h.firstSave_le
  cache := hcache ▸ h.cache
  profile := hprofile
  calls j g hkey hg := by
    have hthread : session.threads j = s.session.threads j := congrFun hthreads.1 j
    change (session.threads j).key = key at hkey
    change (session.threads j).pc.generation? = some g at hg
    show first ≤ j ∧ (session.threads j).pc.relogin? = none
    rw [hthread] at hkey hg ⊢
    exact h.calls j g hkey hg
  saves j e he hkey := by
    by_cases hj : j = i
    · subst hj
      simp [ProfileState.endSave] at he
    · exact h.saves j e (by simpa [ProfileState.endSave, Function.update_of_ne hj] using he) hkey

theorem step (h : Since key first firstSave s) {a : ProfileAct} (hnot : ¬Renewed key first firstSave s a)
    (hstep : profileStep s a = some s') : Since key first firstSave s' := by
  have hlapse := h.oldCallsLapse a
  cases a with
  | session a =>
    obtain ⟨session, hsession, rfl⟩ := Option.map_eq_some_iff.1 hstep
    have hmove := step_move hsession
    refine ⟨h.fresh.step hmove, Nat.le_trans h.first_le (nextThread_step hmove), h.firstSave_le, ?_,
      profile_step hmove h.profile, h.session_calls hmove, h.saves⟩
    by_contra hsome
    obtain ⟨e, hget⟩ := Option.ne_none_iff_exists'.1 hsome
    cases cache_step hmove hget with
    | kept hold => exact absurd (hold.symm.trans h.cache) nofun
    | @login t call request hact hpc hkey hgeneration =>
      subst hact
      exact hnot (hlapse.1 ⟨Nat.zero_le t, hkey, call, by rw [hpc]; rfl, hgeneration⟩)
    | @relogin t r request hact hpc hkey =>
      have hnone := (h.calls t r.generation hkey (by rw [hpc]; rfl)).2
      rw [hpc] at hnone
      cases hnone
  | saveDatabaseProfile key' databaseId databasePassword =>
    obtain rfl := Option.some.inj hstep
    unfold ProfileState.startSave
    split
    · exact h
    · refine ⟨h.fresh, h.first_le, Nat.le_succ_of_le h.firstSave_le, h.cache, h.profile, h.calls, fun i e he hkey => ?_⟩
      by_cases hi : i = s.nextSave
      · exact hi ▸ h.firstSave_le
      · exact h.saves i e (by simpa [Function.update_of_ne hi] using he) hkey
  | saved i =>
    have hnone : s'.session.profile? key = none :=
      profile_profileStep (a := .saved i) (fun hsave => hnot ⟨hlapse hsave, hsave⟩) h.profile hstep
    obtain ⟨e, he, rfl⟩ := Option.map_eq_some_iff.1 hstep
    exact h.endSave i (saveProfile_threads _ _ _) (saveProfile_cache _ _ _).1 hnone
  | notSaved i =>
    obtain ⟨e, -, rfl⟩ := Option.map_eq_some_iff.1 hstep
    exact h.endSave i ⟨rfl, rfl⟩ rfl h.profile

end Since

/-! ### The main result -/

/-- Where no call of the database is on its way when the login is forgotten, it stays so until one called since
succeeds. -/
theorem forgetting_sticks_alone {key : DbKey} {t : ThreadId} {s₁ s₄ s : ProfileState} {cs : List ProfileAct}
    (hforgets : Forgets key t s₁ s₄) (hfresh : Fresh s₄.session) (halone : Alone key s₄)
    (hafter : Run profileStep (fun s a => ¬Renewed key s₄.session.nextThread s₄.nextSave s a) s₄ cs s) :
    Forgotten key s.session := by
  have hsince : Since key s₄.session.nextThread s₄.nextSave s₄ := by
    refine ⟨hfresh, Nat.le_refl _, Nat.le_refl _, hforgets.gone.1, hforgets.gone.2, fun i g hkey hg => ?_,
      fun i e he hkey => ?_⟩
    · rw [halone.calls i hkey] at hg
      cases hg
    · exact absurd hkey (halone.saves i e he)
  have hend := hafter.invariant (fun _ _ _ h hnot hstep => h.step hnot hstep) hsince
  refine forgotten_iff.2 ⟨fun e hget => ?_, hend.profile⟩
  rw [hend.cache] at hget
  cases hget

variable (key : DbKey) (first : ThreadId) (firstSave : Nat)

/-- Once a saved login is forgotten, and as long as no login or registration called since succeeds, the login stays
forgotten just when no earlier call brings it back. -/
theorem forgetting_sticks_iff (s₁ s₄ s : ProfileState) (cs : List ProfileAct) (t : ThreadId)
    (hforgets : Forgets key t s₁ s₄)
    (hafter : Run profileStep (fun s a => ¬Renewed key first firstSave s a) s₄ cs s) :
    (∀ ds s', ds <+: cs → Run profileStep Always s₄ ds s' → Forgotten key s'.session) ↔
      Run profileStep (OldCallsLapse key first firstSave) s₄ cs s := by
  have hrun : Run profileStep Always s₄ cs s := hafter.mono fun _ _ _ => trivial
  have hstep : ∀ s a s', Lapsed key s.session → profileStep s a = some s' →
      (Lapsed key s'.session ↔ OldCallsLapse key first firstSave s a ∧ ¬Renewed key first firstSave s a) :=
    fun _ _ _ h hstep => h.step first firstSave hstep
  simp only [forgotten_iff]
  rw [hrun.prefixes_iff (I := fun s => Lapsed key s.session) hstep hforgets.lapsed]
  exact ⟨fun h => h.mono fun _ _ hok => hok.1, fun h => h.both hafter⟩

/-- The demo user, without registrations on their way. -/
def ProfileState.demo : ProfileState := ⟨State.demo, 0, fun _ => none⟩

/-- Acts of the session system. -/
def sessionActs (as : List Act) : List ProfileAct := as.map .session

/-- The follow-up of a delete, while no call of the database is on its way. -/
theorem forgetting_sticks_alone_delete : ∃ s₁ s₄ s,
    profileStep .demo (.session (.deleteDbProfile demoDb)) = some s₁ ∧ Forgets demoDb 0 s₁ s₄ ∧ Alone demoDb s₄ ∧
      Run profileStep Always s₄ (sessionActs [.tick 1000]) s ∧ Forgotten demoDb s.session := by
  obtain ⟨s₁, s₄, hdelete, hforgets, hfresh, halone⟩ : ∃ s₁ s₄,
      profileStep .demo (.session (.deleteDbProfile demoDb)) = some s₁ ∧ Forgets demoDb 0 s₁ s₄ ∧
        Fresh s₄.session ∧ Alone demoDb s₄ := by
    refine ⟨_, _, rfl, ⟨rfl, rfl, _, [], _, rfl, .nil _, rfl, rfl, rfl⟩, fun i (hi : 1 ≤ i) => ?_, fun i _ => ?_,
      fun i e he => ?_⟩
    · obtain ⟨i, rfl⟩ := Nat.exists_eq_add_of_le' hi
      rfl
    · cases i <;> rfl
    · cases he
  have htick : ∀ ok : ProfileState → ProfileAct → Prop, ok s₄ (.session (.tick 1000)) →
      Run profileStep ok s₄ (sessionActs [.tick 1000]) _ := fun _ hok => .single hok rfl
  exact ⟨s₁, s₄, _, hdelete, hforgets, halone, htick Always trivial,
    forgetting_sticks_alone hforgets hfresh halone (htick _ id)⟩

/-- The two steps of `deleteDbProfile`, one after the other, from a run to its first one. -/
theorem exists_forgets {as : List Act} {key : DbKey} {t : ThreadId} {P : ProfileState → ProfileState → Bool}
    (h : ((runChecked profileStep Always .demo (sessionActs as)).any fun s₁ =>
      decide ((s₁.session.threads t).key = key ∧ (s₁.session.threads t).pc = .profileDelete) &&
        (profileStep s₁ (.session (.resume t))).any fun s₂ =>
          decide ((s₂.session.threads t).key = key ∧ (s₂.session.threads t).pc = .profileForget) &&
            (profileStep s₂ (.session (.resume t))).any fun s₄ => P s₁ s₄) = true) :
    ∃ s₁ s₄, Run profileStep Always .demo (sessionActs as) s₁ ∧ Forgets key t s₁ s₄ ∧ P s₁ s₄ = true := by
  obtain ⟨s₁, hrun, h⟩ := (Option.any_eq_true _ _).1 h
  obtain ⟨hdelete, h⟩ := (Bool.and_eq_true _ _).mp h
  obtain ⟨s₂, hdeleted, h⟩ := (Option.any_eq_true _ _).1 h
  obtain ⟨hforget, h⟩ := (Bool.and_eq_true _ _).mp h
  obtain ⟨s₄, hforgot, hp⟩ := (Option.any_eq_true _ _).1 h
  obtain ⟨hkey, hpc⟩ := of_decide_eq_true hdelete
  obtain ⟨hkey₂, hpc₂⟩ := of_decide_eq_true hforget
  exact ⟨s₁, s₄, .of_runChecked hrun, ⟨hkey, hpc, s₂, [], s₂, hdeleted, .nil s₂, hkey₂, hpc₂, hforgot⟩, hp⟩

/-- A login, and the follow-up of a delete after it. -/
theorem forgetting_sticks_delete : ∃ s₁ s₄ s, Run profileStep Always .demo
      (sessionActs (demoLogin 0 ++ demoDbLogin 1 ++ [.deleteDbProfile demoDb])) s₁ ∧
    s₁.session.isDbLoginActive demoDb (some 0) = true ∧ Forgets demoDb 2 s₁ s₄ ∧
    Run profileStep (OldCallsLapse demoDb 3 0) s₄ (sessionActs [.tick 1000]) s ∧ Forgotten demoDb s.session := by
  have hstart : ∃ s₁ s₄, Run profileStep Always .demo
        (sessionActs (demoLogin 0 ++ demoDbLogin 1 ++ [.deleteDbProfile demoDb])) s₁ ∧ Forgets demoDb 2 s₁ s₄ ∧
      s₁.session.isDbLoginActive demoDb (some 0) = true :=
    exists_forgets (P := fun s₁ _ => s₁.session.isDbLoginActive demoDb (some 0)) (by decide)
  obtain ⟨s₁, s₄, hrun, hforgets, hactive⟩ := hstart
  have hlapse : Run profileStep (OldCallsLapse demoDb 3 0) s₄ (sessionActs [.tick 1000]) _ :=
    .single (a := ProfileAct.session (.tick 1000)) ⟨id, id⟩ rfl
  have hafter : Run profileStep (fun s a => ¬Renewed demoDb 3 0 s a) s₄ (sessionActs [.tick 1000]) _ :=
    .single (a := ProfileAct.session (.tick 1000)) id rfl
  exact ⟨s₁, s₄, _, hrun, hactive, hforgets, hlapse,
    (forgetting_sticks_iff demoDb 3 0 s₁ s₄ _ _ 2 hforgets hafter).2 hlapse _ _ List.prefix_rfl
      (hlapse.mono fun _ _ _ => trivial)⟩

/-- A login that is called before the follow-up of a delete, and accepted after it. -/
theorem forgetting_sticks_fails : ∃ s₁ s₄ s, Run profileStep Always .demo
      (sessionActs (demoLogin 0 ++ [.loginDatabase demoDb none] ++ resumes 1 2 ++ [.deleteDbProfile demoDb])) s₁ ∧
    Forgets demoDb 2 s₁ s₄ ∧ Run profileStep (fun s a => ¬Renewed demoDb s₄.session.nextThread s₄.nextSave s a) s₄
      (sessionActs [demoAccept, .resume 1]) s ∧ ¬Forgotten demoDb s.session := by
  have hstart : ∃ s₁ s₄, Run profileStep Always .demo
        (sessionActs (demoLogin 0 ++ [.loginDatabase demoDb none] ++ resumes 1 2 ++ [.deleteDbProfile demoDb])) s₁ ∧
      Forgets demoDb 2 s₁ s₄ ∧ (decide (1 < s₄.session.nextThread) &&
        (runChecked profileStep Always s₄ (sessionActs [demoAccept, .resume 1])).any
          fun s => s.session.isDbLoginActive demoDb (some 0)) = true :=
    exists_forgets (P := fun _ s₄ => decide (1 < s₄.session.nextThread) &&
      (runChecked profileStep Always s₄ (sessionActs [demoAccept, .resume 1])).any
        fun s => s.session.isDbLoginActive demoDb (some 0)) (by decide)
  obtain ⟨s₁, s₄, hrun, hforgets, hp⟩ := hstart
  obtain ⟨hlt, hany⟩ := (Bool.and_eq_true _ _).mp hp
  obtain ⟨s, hafter, hactive⟩ := (Option.any_eq_true _ _).1 hany
  refine ⟨s₁, s₄, s, hrun, hforgets, ?_, fun hforgotten => ?_⟩
  · obtain _ | ⟨-, haccept, hrest⟩ := Run.of_runChecked hafter
    obtain _ | ⟨-, hresume, hnil⟩ := hrest
    cases hnil
    refine .cons id haccept (.cons (fun hrenewed => ?_) hresume (.nil s))
    exact absurd hrenewed.1 (Nat.not_le.2 (of_decide_eq_true hlt))
  · rw [hforgotten.1] at hactive
    cases hactive

end CubridWebManager.Session
