import CubridWebManager.Session.Moves

/-!
# A database logout wins

Every logout of a database draws a new logout generation, and a login or re-login that started under an older one does
not write the cache; except that a re-login looks at the generation before it waits for the host record once more, so a
logout that completes during that wait leaves an empty slot that the re-login fills (`logout_wins_fails`).

Where a re-login that finds the slot empty still has the current generation (`ReloginsCurrent`), the logout lasts until
a login called after it succeeds.  The invariant is that no call from before the logout has the current generation, and
no re-login was started since (`LoggedOut`).
-/

namespace CubridWebManager.Session

open Transition

/-! ### Generations -/

theorem PcMove.generation {s : State} {ref : HostRef} {old new : Pc} (h : PcMove s ref old new) {g : Nat}
    (hg : new.generation? = some g) : old.generation? = some g := by
  cases h <;> exact hg

theorem PcMove.relogin {s : State} {ref : HostRef} {old new : Pc} (h : PcMove s ref old new) :
    new.relogin? = old.relogin? := by
  cases h <;> rfl

theorem Pc.generation_of_over {pc : Pc} (h : pc.isOver = true) : pc.generation? = none := by
  cases pc <;> first | rfl | cases h

/-- A call never changes its generation. -/
theorem Move.generation {s s₁ : State} {t : ThreadId} {a : Act} {old new : Pc} (h : Move s t a old new s₁) {g : Nat}
    (hg : new.generation? = some g) : old.generation? = some g ∧ new.relogin? = old.relogin? := by
  cases h with
  | pc hmove => exact ⟨hmove.generation hg, hmove.relogin⟩
  | stop _ hnew | serve _ hnew =>
    rw [Pc.generation_of_over hnew] at hg
    cases hg
  | accept hanswer => cases hanswer <;> exact ⟨hg, rfl⟩
  | edit hmove => cases hmove <;> cases hg
  | write _ _ hnew => rcases hnew with rfl | rfl <;> cases hg
  | issue | issueLost | store | rewrite | logout | forget => cases hg

/-- The logout generation of a database grows with every logout. -/
theorem Move.logoutGeneration {s s₁ : State} {t : ThreadId} {a : Act} {old new : Pc} (h : Move s t a old new s₁)
    (key : DbKey) : s.logoutGeneration key ≤ s₁.logoutGeneration key := by
  cases h with
  | logout =>
    simp only [State.logoutGeneration, Dict.get?_set]
    split
    · rename_i hkey
      subst hkey
      exact Nat.le_succ _
    · exact Nat.le_refl _
  | _ => exact Nat.le_refl _

theorem logoutGeneration_step {s s' : State} {a : Act} (hstep : StepMove s a s') (key : DbKey) :
    s.logoutGeneration key ≤ s'.logoutGeneration key := by
  cases hstep with
  | tick | start | updateHost | disconnect => exact Nat.le_refl _
  | restore hpc hrestored => exact Nat.le_of_eq (hrestored.logoutGeneration key).symm
  | call hmove => exact hmove.logoutGeneration key

/-- The calls are those that were made, and none has a generation that is still to come. -/
structure Bounded (s : State) : Prop where
  fresh : Fresh s
  generation : ∀ i g, (s.threads i).pc.generation? = some g → g ≤ s.logoutGeneration (s.threads i).key

namespace Bounded

variable {s s' : State}

theorem step (h : Bounded s) {a : Act} (hstep : StepMove s a s') : Bounded s' := by
  have hgrows := logoutGeneration_step hstep
  refine ⟨h.fresh.step hstep, ?_⟩
  refine hstep.forall_threads h.fresh
    (P := fun _ th => ∀ g, th.pc.generation? = some g → g ≤ s'.logoutGeneration th.key)
    (fun i g hg => ?_) (fun ref dbname pc hs _ g hg => ?_) (fun u i key login token earlier _ _ _ _ g hg => ?_)
    (fun t token _ g hg => ?_) fun t new s₁ hmove _ g hg => ?_
  · exact Nat.le_trans (h.generation i g hg) (hgrows _)
  · cases hs with
    | loginDatabase =>
      obtain rfl := Option.some.inj hg
      exact hgrows _
    | login | request | logoutDatabase | deleteDbProfile => cases hg
  · obtain rfl := Option.some.inj hg
    exact hgrows _
  · cases hg
  · exact Nat.le_trans (h.generation t g (hmove.generation hg).1) (hgrows _)

theorem of_init (h : Init s) : Bounded s where
  fresh i _ := h.threads i
  generation i g hg := by
    rw [h.threads i] at hg
    cases hg

end Bounded

/-! ### Writes of the login cache -/

namespace Pc

/-- CMS accepted the login, which is about to write the cache if there was no logout. -/
def answered? : Pc → Option DbLoginCall
  | .dbLoginAnswered call _ => some call
  | _ => none

/-- The re-login is about to check the token and the slot. -/
def checking? : Pc → Option Relogin
  | .reloginCheck r _ => some r
  | _ => none

end Pc

/-- `CacheWrite s s' a key e`: the entry `e` of a database after the step from `s` to `s'` is the one before, or was
written by a login or a re-login of it. -/
inductive CacheWrite (s s' : State) (a : Act) (key : DbKey) (e : DbLogin) : Prop
  | kept (hget : s.dbLoginCache.get? key = some e)
  | login {t : ThreadId} {call : DbLoginCall} {request : CmsRequest} (hact : a = .resume t)
    (hpc : (s.threads t).pc = .dbLoginAnswered call request) (hkey : (s.threads t).key = key)
    (hgeneration : s.logoutGeneration key = call.generation)
    (he : e = ⟨s.nextLogin, s.now, call.hostToken, call.dbUser⟩) (hnext : s'.nextLogin = s.nextLogin + 1)
    (hlogins : s'.userLogins = s.userLogins.set key s.now)
  | relogin {t : ThreadId} {r : Relogin} {request : CmsRequest} (hact : a = .resume t)
    (hpc : (s.threads t).pc = .reloginCheck r request) (hkey : (s.threads t).key = key)
    (htoken : s.storedToken key.ref = some r.newToken) (hslot : s.stillOld key r.login = true)
    (he : e = ⟨s.nextLogin, r.login.loggedInAt, some r.newToken, r.login.dbUser⟩)
    (hnext : s'.nextLogin = s.nextLogin + 1) (hlogins : s'.userLogins = s.userLogins)

theorem Move.cache {s s₁ : State} {t : ThreadId} {a : Act} {old new : Pc} (h : Move s t a old new s₁)
    (hpc : (s.threads t).pc = old) {key : DbKey} {e : DbLogin} (hget : s₁.dbLoginCache.get? key = some e) :
    CacheWrite s (s₁.setPc t new) a key e := by
  cases h with
  | pc | issue | issueLost | accept | store | edit => exact .kept hget
  | stop _ _ hcache => exact .kept (hcache hget)
  | serve _ _ _ hcache => exact .kept (hcache hget)
  | logout | forget => exact .kept (Dict.erase_within _ _ hget)
  | write hact hgeneration =>
    simp only [Dict.get?_set] at hget
    split at hget
    · rename_i hkey
      subst hkey
      exact .login hact hpc rfl hgeneration (Option.some.inj hget).symm rfl rfl
    · exact .kept hget
  | rewrite hact hh htoken hslot =>
    simp only [Dict.get?_set] at hget
    split at hget
    · rename_i hkey
      subst hkey
      have hstored : s.storedToken (s.threads t).key.ref = some _ :=
        Option.bind_eq_some_iff.2 ⟨_, hh, htoken⟩
      exact .relogin hact hpc rfl hstored hslot (Option.some.inj hget).symm rfl rfl
    · exact .kept hget

theorem cache_step {s s' : State} {a : Act} (hstep : StepMove s a s') {key : DbKey} {e : DbLogin}
    (hget : s'.dbLoginCache.get? key = some e) : CacheWrite s s' a key e := by
  cases hstep with
  | tick | start | updateHost | disconnect => exact .kept hget
  | restore hpc hrestored => exact .kept (hrestored.cache hget)
  | call hmove => exact hmove.cache rfl hget

/-! ### After a logout -/

/-- A re-login that would fill an empty slot still has the current logout generation. -/
def ReloginsCurrent (s : State) : Act → Prop
  | .resume t => ∀ r ∈ (s.threads t).pc.checking?, s.storedToken (s.threads t).ref = some r.newToken →
      s.dbLoginCache.get? (s.threads t).key = none → s.logoutGeneration (s.threads t).key = r.generation
  | _ => True

instance (s : State) (a : Act) : Decidable (ReloginsCurrent s a) :=
  match a with
  | .resume _ => by unfold ReloginsCurrent; infer_instance
  | .tick _ | .login _ | .request _ | .loginDatabase _ _ | .logoutDatabase _ | .deleteDbProfile _ | .updateHost _ _
  | .disconnect _ | .reject _ | .reply _ _ | .activeTime _ _ => isTrue trivial

/-- A `loginDatabase` of the database that is one of the calls from `first` on succeeds. -/
def LoginSucceeds (key : DbKey) (first : ThreadId) (s : State) : Act → Prop
  | .resume t => first ≤ t ∧ (s.threads t).key = key ∧
      ∃ call ∈ (s.threads t).pc.answered?, s.logoutGeneration key = call.generation
  | _ => False

instance (key : DbKey) (first : ThreadId) (s : State) (a : Act) : Decidable (LoginSucceeds key first s a) :=
  match a with
  | .resume _ => by unfold LoginSucceeds; infer_instance
  | .tick _ | .login _ | .request _ | .loginDatabase _ _ | .logoutDatabase _ | .deleteDbProfile _ | .updateHost _ _
  | .disconnect _ | .reject _ | .reply _ _ | .activeTime _ _ => isFalse id

/-- The database is not logged in to, and of the calls that may write its login those from before `first`, and the
re-logins, have an old generation. -/
structure LoggedOut (key : DbKey) (first : ThreadId) (s : State) : Prop where
  bounded : Bounded s
  first_le : first ≤ s.nextThread
  cache : s.dbLoginCache.get? key = none
  old : ∀ i g, (s.threads i).key = key → (s.threads i).pc.generation? = some g → g < s.logoutGeneration key ∨
    first ≤ i ∧ (s.threads i).pc.relogin? = none

namespace LoggedOut

variable {s s' : State} {key : DbKey} {first : ThreadId}

/-- A login under the current generation was called since, so its success is one of those that end it. -/
theorem cache_step (h : LoggedOut key first s) {a : Act} (hok : ReloginsCurrent s a)
    (hnot : ¬ LoginSucceeds key first s a) (hstep : StepMove s a s') : s'.dbLoginCache.get? key = none := by
  by_contra hsome
  obtain ⟨e, hget⟩ := Option.ne_none_iff_exists'.1 hsome
  cases Session.cache_step hstep hget with
  | kept hold => exact absurd (hold.symm.trans h.cache) nofun
  | @login t call request hact hpc hkey hgeneration =>
    subst hact
    have hg : (s.threads t).pc.generation? = some call.generation := by rw [hpc]; rfl
    rcases h.old t _ hkey hg with hlt | ⟨hge, -⟩
    · exact absurd hgeneration (Nat.ne_of_gt hlt)
    · exact hnot ⟨hge, hkey, call, by rw [hpc]; rfl, hgeneration⟩
  | @relogin t r request hact hpc hkey htoken =>
    subst hact hkey
    have hg : (s.threads t).pc.generation? = some r.generation := by rw [hpc]; rfl
    have hcurrent := hok r (by rw [hpc]; rfl) htoken h.cache
    rcases h.old t _ rfl hg with hlt | ⟨-, hnone⟩
    · exact absurd hcurrent (Nat.ne_of_gt hlt)
    · rw [hpc] at hnone
      cases hnone

theorem step (h : LoggedOut key first s) {a : Act} (hok : ReloginsCurrent s a) (hnot : ¬ LoginSucceeds key first s a)
    (hstep : StepMove s a s') : LoggedOut key first s' := by
  have hgrows := logoutGeneration_step hstep key
  refine ⟨h.bounded.step hstep, Nat.le_trans h.first_le (nextThread_step hstep), h.cache_step hok hnot hstep, ?_⟩
  refine hstep.forall_threads h.bounded.fresh
    (P := fun i th => ∀ g, th.key = key → th.pc.generation? = some g →
      g < s'.logoutGeneration key ∨ first ≤ i ∧ th.pc.relogin? = none)
    (fun i g hkey hg => ?_) (fun ref dbname pc hs _ g hkey hg => ?_)
    (fun u i key' login token earlier _ hge _ hget g hkey hg => ?_) (fun t token _ g _ hg => ?_)
    fun t new s₁ hmove _ g hkey hg => ?_
  · exact (h.old i g hkey hg).imp_left fun hlt => Nat.lt_of_lt_of_le hlt hgrows
  · -- a call made now is one of those since the logout
    cases hs <;> exact .inr ⟨h.first_le, rfl⟩
  · -- no re-login of the database starts, for there is no login to restore
    obtain rfl : key' = key := hkey
    exact absurd (hget.symm.trans h.cache) nofun
  · cases hg
  · obtain ⟨hold, hsame⟩ := hmove.generation hg
    rcases h.old t g hkey hold with hlt | ⟨hge, hnone⟩
    · exact .inl (Nat.lt_of_lt_of_le hlt hgrows)
    · exact .inr ⟨hge, hsame.trans hnone⟩

/-- A logout that completes leaves the database so. -/
theorem of_logout (hb : Bounded s) {t : ThreadId} (hpc : (s.threads t).pc = .logoutFinish)
    (hout : Session.step s (.resume t) = some s') : LoggedOut (s.threads t).key s'.nextThread s' := by
  refine ⟨hb.step (step_move hout), Nat.le_refl _, ?_, fun i g hkey hg => .inl ?_⟩
  all_goals
    simp only [Session.step, resume, resumeLogin, resumeRequest, resumeDbLogin, resumeLogout, hpc] at hout
    obtain rfl := Option.some.inj hout
  · exact Dict.get?_erase_self _ _
  · have hnew : State.logoutGeneration (State.setPc { s with
        logoutGenerations := s.logoutGenerations.set (s.threads t).key (s.logoutGeneration (s.threads t).key + 1)
        dbLoginCache := s.dbLoginCache.erase (s.threads t).key
        pendingRelogins := s.pendingRelogins.erase (s.threads t).key
        userLogins := s.userLogins.erase (s.threads t).key } t .ended) (s.threads t).key =
          s.logoutGeneration (s.threads t).key + 1 := by
      simp [State.logoutGeneration, State.setPc]
    rw [hnew]
    by_cases hi : i = t
    · subst hi
      simp [Pc.generation?] at hg
    · rw [setPc_of_ne _ hi] at hkey hg
      rw [← hkey]
      exact Nat.lt_succ_of_le (hb.generation i g hg)

end LoggedOut

/-! ### The main result -/

/-- Once a logout of a database has completed, the database is not logged in to under any token, as long as no login
that was called since succeeds. -/
theorem logout_wins {s₀ s₁ s₂ s : State} {as bs : List Act} (hinit : Init s₀)
    (hrun : Run step ReloginsCurrent s₀ as s₁) {t : ThreadId} (hpc : (s₁.threads t).pc = .logoutFinish)
    (hout : step s₁ (.resume t) = some s₂)
    (hafter : Run step (fun s a => ReloginsCurrent s a ∧ ¬ LoginSucceeds (s₁.threads t).key s₂.nextThread s a) s₂ bs s)
    (token : Option Token) : s.isDbLoginActive (s₁.threads t).key token = false := by
  have hb : Bounded s₁ := hrun.invariant (fun _ _ _ hb _ hstep => hb.step (step_move hstep)) (.of_init hinit)
  have hout' : LoggedOut (s₁.threads t).key s₂.nextThread s :=
    hafter.invariant (fun _ _ _ h hok hstep => h.step hok.1 hok.2 (step_move hstep)) (.of_logout hb hpc hout)
  simp only [State.isDbLoginActive, isDbLoginActive, hout'.cache]

/-- A login, a new host login whose re-login has passed the generation check, and a logout of the database up to its
last step. -/
def logoutBesideRelogin : List Act :=
  demoLogin 0 ++ demoDbLogin 1 ++ demoLogin 2 ++ resumes 3 3 ++ [demoAccept, .resume 3, .logoutDatabase demoDb, .resume 4]

/-- A logout after the re-login is done. -/
theorem logout_wins_relogin : ∃ s₁ s₂, Init State.demo ∧
    Run step ReloginsCurrent State.demo (demoLogin 0 ++ demoDbLogin 1 ++ demoLogin 2 ++ resumes 3 3 ++
      [demoAccept] ++ resumes 3 2 ++ [.logoutDatabase demoDb, .resume 4]) s₁ ∧
    step s₁ (.resume 4) = some s₂ ∧ s₁.isDbLoginActive demoDb (some 1) = true ∧
    s₂.isDbLoginActive demoDb (some 1) = false := by
  have hrun : ∃ s₁, Run step ReloginsCurrent State.demo (demoLogin 0 ++ demoDbLogin 1 ++ demoLogin 2 ++ resumes 3 3 ++
      [demoAccept] ++ resumes 3 2 ++ [.logoutDatabase demoDb, .resume 4]) s₁ ∧
      s₁.isDbLoginActive demoDb (some 1) = true ∧ (s₁.threads 4).pc = .logoutFinish ∧ (s₁.threads 4).key = demoDb ∧
      (step s₁ (.resume 4)).isSome = true := exists_run (by decide)
  obtain ⟨s₁, hrun, hactive, hpc, hkey, hsome⟩ := hrun
  obtain ⟨s₂, hout⟩ := Option.isSome_iff_exists.1 hsome
  have hwins := logout_wins .demo hrun hpc hout (.nil s₂) (some 1)
  rw [hkey] at hwins
  exact ⟨s₁, s₂, .demo, hrun, hout, hactive, hwins⟩

/-- The re-login goes on after the logout and fills the empty slot. -/
theorem logout_wins_fails : Init State.demo ∧ ∃ s₁ s₂ s, Run step Always State.demo logoutBesideRelogin s₁ ∧
    (s₁.threads 4).pc = .logoutFinish ∧ (s₁.threads 4).key = demoDb ∧ step s₁ (.resume 4) = some s₂ ∧
    Run step (fun s a => ¬ LoginSucceeds demoDb s₂.nextThread s a) s₂ [.resume 3] s ∧
    s.isDbLoginActive demoDb (some 1) = true := by
  have hrun : ∃ s₁, Run step Always State.demo logoutBesideRelogin s₁ ∧
      (s₁.threads 4).pc = .logoutFinish ∧ (s₁.threads 4).key = demoDb ∧
      ((step s₁ (.resume 4)).any fun s₂ =>
        (runChecked step (fun s a => ¬ LoginSucceeds demoDb s₂.nextThread s a) s₂ [.resume 3]).any fun s =>
          decide (s.isDbLoginActive demoDb (some 1) = true)) = true := exists_run (by decide)
  obtain ⟨s₁, hrun, hpc, hkey, hafter⟩ := hrun
  obtain ⟨s₂, hout, hafter⟩ := (Option.any_eq_true _ _).1 hafter
  obtain ⟨s, hrun', hactive⟩ := exists_run hafter
  exact ⟨.demo, s₁, s₂, s, hrun, hpc, hkey, hout, hrun', hactive⟩

end CubridWebManager.Session
