import CubridWebManager.Jobs.MapHistory

/-!
# Jobs against start, stop and restart

`createJob` looks at the action lock before it asks for the lock `jobs-ops-global`, and publishes its entry after it
has got it; a bulk action looks at the operations map before it takes its hold, a single one after.  So either side can
miss the other (`action_job_exclusive_fails`).

Where no job is published on a database after an action that names it has read the map, and the action finds the
record of every job that it meets still open (`GuardsMeet`), an action past its check holds no database of a registered
job.  The invariant that carries this, `Watched`, says that an action that has read the map still has the entry of
every such job before it in its check.
-/

namespace CubridWebManager.Jobs

open Transition

variable {cfg : JobConfig}

/-! ### What an action names, and when it has read the map -/

namespace ActionKind

/-- The databases that the action is asked for. -/
def asked : ActionKind → List String
  | .single dbname => [dbname]
  | .selected dbnames | .all dbnames => dbnames

end ActionKind

namespace ActionProc

/-- The databases that the action holds or is to hold, as far as they are known; an all-database action adds those of
the HA list. -/
def names (a : ActionProc) : List String :=
  match a.pc with
  | .holdHost dbnames => dbnames
  | .acting => a.held
  | _ => a.kind.asked

/-- The action has read the operations map for its check, and has not ended. -/
def hasRead (a : ActionProc) : Bool :=
  match a.pc with
  | .checkJob _ _ | .haList | .acting => true
  | .holdHost _ => !a.kind.isSingle
  | _ => false

/-- The entry whose job's record the check is reading. -/
def checked? (a : ActionProc) : Option (OperationKey × OpEntry) :=
  match a.pc with
  | .checkJob e _ => some e
  | _ => none

/-- The entries left in the check. -/
def left (a : ActionProc) : List (OperationKey × OpEntry) :=
  match a.pc with
  | .checkJob e rest => e :: rest
  | _ => []

end ActionProc

/-- The call wrote its entry and its worker has not finished. -/
def JobPc.published : JobPc → Bool
  | .unlock passed => passed
  | .recordSave _ | .scheduled | .jobRead | .runningSave _ | .cmsCall _ | .uuidSave _ | .followUps _ | .outcomeSave _
  | .releaseWait | .releaseRead | .releaseWrite _ | .releaseUnlock => true
  | _ => false

/-- Job `j` is registered in the operations map and its worker has not finished. -/
def Registered (cfg : JobConfig) (s : State) (j : JobId) : Prop :=
  s.globalOps.get? (s.key j) = some (entryOf cfg s j) ∧ (s.procs j).pc.published = true

instance (s : State) (j : JobId) : Decidable (Registered cfg s j) := inferInstanceAs (Decidable (_ ∧ _))

/-- No job is published on a database named by an action that has read the map; the check finds the record of a
registered job open; no database of a registered job comes in with the HA list; and no purge or recovery runs. -/
def GuardsMeet (cfg : JobConfig) (s : State) : Act → Prop
  | .jobResume j => (s.procs j).pc.publishing = true → ∀ x < s.nextAction, (s.actions x).hasRead = true →
      (s.actions x).hostKey = (s.key j).hostKey → (s.key j).dbname ∉ (s.actions x).names
  | .actionResume x => ∀ e ∈ (s.actions x).checked?, Registered cfg s e.2.jobId → e.1.dbname ∈ (s.actions x).names →
      isOpen (s.getJob e.2.userKey e.2.jobId) = true
  | .actionHaList x haDbNames => ∀ e ∈ s.globalOps.entries, Registered cfg s e.2.jobId →
      e.1.hostKey = (s.actions x).hostKey → e.1.dbname ∉ haDbNames
  | .purge _ | .recover _ => False
  | _ => True

instance (s : State) (a : Act) : Decidable (GuardsMeet cfg s a) :=
  match a with
  | .jobResume _ | .actionResume _ | .actionHaList _ _ => by unfold GuardsMeet; infer_instance
  | .purge _ | .recover _ => isFalse id
  | .tick _ | .createJob _ | .jobReject _ _ | .cmsUuid _ _ | .cmsAnswer _ _ | .followedUp _ _ _ | .listUsers _ _
  | .listFiles _ _ | .sweepResume _ | .sweepReject _ | .reconciled _ _ | .startAction _ _ _ | .actionEnd _ =>
    isTrue trivial

/-! ### Registered jobs -/

theorem JobEvent.published {old new : JobPc} (h : JobEvent old new) (hnew : new.published = true) :
    old.published = true := by
  cases h with
  | giveUp | stop => cases hnew
  | uuid | uuidKnown | answered => rfl
  | finish hold => cases old <;> first | rfl | cases hold
  | releaseSkip hold => cases old <;> first | rfl | cases hold

theorem JobMove.published {s s₁ : State} {j : JobId} {old new : JobPc} (h : JobMove cfg s j old new s₁)
    (hnew : new.published = true) : old.published = true ∨ old.publishing = true := by
  cases h with
  | event hevent => exact .inl (hevent.published hnew)
  | publish => exact .inr rfl
  | passed | saved | run | loaded | started | uuidSaved | outcomeSaved | releaseLock | releaseFound | release =>
    exact .inl rfl
  | pass | lock | found | free | takeOver | refused | released => cases hnew

theorem published_step {s s' : State} {a : Act} (hstep : step cfg s a = some s') {j : JobId}
    (hj : (s'.procs j).pc.published = true) :
    (s.procs j).pc.published = true ∨ a = .jobResume j ∧ (s.procs j).pc.publishing = true := by
  cases step_move hstep with
  | start request =>
    by_cases hne : j = s.nextJob
    · subst hne
      simp only [startJob, Function.update_self] at hj
      cases hj
    · exact .inl (by simpa [startJob, Function.update_of_ne hne] using hj)
  | @job i new s₁ hmove =>
    by_cases hij : j = i
    · subst hij
      rw [setPc_self] at hj
      exact (hmove.published hj).imp_right fun h => ⟨rfl, h⟩
    · rw [setPc_of_ne _ _ hij, hmove.procs] at hj
      exact .inl hj
  | @event _ i new hact hevent =>
    by_cases hij : j = i
    · subst hij
      rw [setPc_self] at hj
      exact .inl (hevent.published hj)
    · rw [setPc_of_ne _ _ hij] at hj
      exact .inl hj
  | sweep hmove => exact .inl (hmove.procs ▸ hj)
  | walk | tick | startAction | action => exact .inl hj

theorem JobPc.mayAdd_of_published {pc : JobPc} (h : pc.published = true) : pc.mayAdd = false := by
  cases pc <;> first | rfl | cases h

/-- A registered job was registered before the step, under the same key, or the step wrote its entry. -/
theorem registered_step {s s' : State} {a : Act} (hc : MapConsistent cfg s) (hok : UnlockedWritesFit s a)
    (hstep : step cfg s a = some s') {j : JobId} (hj : Registered cfg s' j) :
    (Registered cfg s j ∧ s'.key j = s.key j ∧ entryOf cfg s' j = entryOf cfg s j) ∨
      a = .jobResume j ∧ (s.procs j).pc.publishing = true ∧ s'.key j = s.key j := by
  have hdrawn : ∀ {pc}, (s.procs j).pc = pc → pc ≠ .absent → (s'.procs j).request = (s.procs j).request :=
    fun hpc hne => request_step hstep (hc.wellFormed.drawn hpc hne)
  rcases published_step hstep hj.2 with hpub | ⟨hact, hpub⟩
  · have hreq := hdrawn rfl (by intro h; rw [h] at hpub; cases hpub)
    have hkey : s'.key j = s.key j := by simp only [State.key, hreq]
    have hentry : entryOf cfg s' j = entryOf cfg s j := by simp only [entryOf, hreq]
    refine .inl ⟨⟨?_, hpub⟩, hkey, hentry⟩
    have hget := hj.1
    rw [hkey, hentry] at hget
    rcases (map_edit hc.inHand hok hstep).entry_new hget with hold | hadd
    · exact hold
    · simp [entryOf, JobRequest.entry, JobPc.mayAdd_of_published hpub] at hadd
  · have hreq := hdrawn rfl (by intro h; rw [h] at hpub; cases hpub)
    exact .inr ⟨hact, hpub, by simp only [State.key, hreq]⟩

/-! ### The invariant -/

/-- What a single action holds or is to hold is the database it is asked for. -/
def ActionProc.Single (a : ActionProc) : Prop :=
  a.kind.isSingle = true → (∀ dbname ∈ a.held, dbname ∈ a.kind.asked) ∧
    ∀ dbnames, a.pc = .holdHost dbnames → ∀ dbname ∈ dbnames, dbname ∈ a.kind.asked

structure Watched (cfg : JobConfig) (s : State) : Prop where
  consistent : MapConsistent cfg s
  idle : ∀ p, s.sweeps p = .idle
  fresh : ∀ x, s.nextAction ≤ x → (s.actions x).pc = .absent
  single : ∀ x, (s.actions x).Single
  watched : ∀ x j, (s.actions x).hasRead = true → Registered cfg s j → (s.actions x).hostKey = (s.key j).hostKey →
    (s.key j).dbname ∈ (s.actions x).names → (s.key j, entryOf cfg s j) ∈ (s.actions x).left

/-- Without a purge or recovery none is ever under way. -/
theorem idle_step {s s' : State} {a : Act} (hidle : ∀ p, s.sweeps p = .idle) (hok : GuardsMeet cfg s a)
    (hstep : step cfg s a = some s') : ∀ p, s'.sweeps p = .idle := by
  cases step_move hstep with
  | start | event | tick | startAction | action => exact hidle
  | job hmove => exact fun p => (congrFun hmove.sweeps p).trans (hidle p)
  | sweep hmove => simp [step, resumeSweep, hidle] at hstep
  | walk hact hwalk =>
    cases a with
    | purge | recover => exact absurd hok id
    | listUsers | listFiles | sweepResume | sweepReject | reconciled =>
      simp [step, receiveUsers, receiveFiles, resumeSweep, rejectSweep, receiveOutcome, hidle] at hstep
    | _ => simp [Act.sweep?] at hact

theorem UnlockedWritesFit.of_idle {s : State} (hidle : ∀ p, s.sweeps p = .idle) (a : Act) :
    UnlockedWritesFit s a := by
  cases a with
  | sweepResume p =>
    intro r hr
    simp [hidle p, SweepPc.removing] at hr
  | _ => trivial

/-! ### Every step keeps it -/

namespace ActionProc

variable (a : ActionProc) (l : List (OperationKey × OpEntry))

@[simp] theorem checked_hostKey : a.checked.hostKey = a.hostKey := by
  unfold checked
  split <;> rfl

@[simp] theorem checkNext_hostKey : (a.checkNext l).hostKey = a.hostKey := by
  cases l <;> simp [checkNext]

@[simp] theorem checked_left : a.checked.left = [] := by
  unfold checked
  split <;> rfl

/-- The check has exactly the entries that it goes on with before it. -/
@[simp] theorem checkNext_left : (a.checkNext l).left = l := by
  cases l with
  | nil => exact a.checked_left
  | cons e rest => rfl

variable {a l}

theorem Single.checkNext (h : a.Single) : (a.checkNext l).Single := by
  cases l with
  | cons e rest => exact fun hsingle => ⟨(h hsingle).1, by simp [ActionProc.checkNext]⟩
  | nil =>
    simp only [ActionProc.checkNext, checked]
    split
    · exact fun hsingle => ⟨(h hsingle).1, by simp⟩
    · rename_i hkind
      simp [Single, hkind, ActionKind.isSingle]
    · exact fun hsingle => ⟨(h hsingle).1, by simp⟩

theorem checkNext_names (h : a.Single) {dbname : String} (hname : dbname ∈ (a.checkNext l).names) :
    dbname ∈ a.kind.asked := by
  cases l with
  | cons e rest => exact hname
  | nil =>
    simp only [ActionProc.checkNext, checked] at hname
    split at hname
    · rename_i hkind
      exact (h (by simp [hkind, ActionKind.isSingle])).1 _ hname
    · rename_i hkind
      rw [hkind]
      exact List.mem_eraseDups.1 hname
    · exact hname

end ActionProc

theorem ActionMove.ne_absent {s : State} {x : Nat} {a a' : ActionProc} {act : Act} (h : ActionMove s x a act a') :
    a.pc ≠ .absent := by
  cases h <;> simp_all

theorem ActionMove.hostKey {s : State} {x : Nat} {a a' : ActionProc} {act : Act} (h : ActionMove s x a act a') :
    a'.hostKey = a.hostKey := by
  cases h with
  | read | skip => exact a.checkNext_hostKey _
  | _ => rfl

theorem ActionMove.single {s : State} {x : Nat} {a a' : ActionProc} {act : Act} (hmove : ActionMove s x a act a')
    (h : a.Single) : a'.Single := by
  cases hmove with
  | read | skip => exact h.checkNext
  | host => exact fun hs => ⟨(h hs).1, by simp⟩
  | haList hpc hkind =>
    intro hs
    simp [hkind, ActionKind.isSingle] at hs
  | holdSingle hpc hkind =>
    exact fun hs => ⟨fun dbname hd => (h hs).2 _ hpc dbname (List.mem_eraseDups.1 hd), by simp⟩
  | holdBulk hpc hkind =>
    intro hs
    simp [hkind] at hs
  | done => exact fun hs => ⟨by simp, by simp⟩

/-- An action that has read the map keeps the entry of a registered job on a database it names before it. -/
theorem ActionMove.watched {s : State} {x : Nat} {a' : ActionProc} {act : Act}
    (hmove : ActionMove s x (s.actions x) act a') (hsingle : (s.actions x).Single) (hok : GuardsMeet cfg s act)
    {j : JobId} (hreg : Registered cfg s j) (hhost : (s.actions x).hostKey = (s.key j).hostKey)
    (hread : a'.hasRead = true) (hname : (s.key j).dbname ∈ a'.names)
    (hold : (s.actions x).hasRead = true → (s.key j).dbname ∈ (s.actions x).names →
      (s.key j, entryOf cfg s j) ∈ (s.actions x).left) : (s.key j, entryOf cfg s j) ∈ a'.left := by
  cases hmove with
  | host | holdSingle | done => simp [ActionProc.hasRead] at hread
  | read hpc =>
    rw [ActionProc.checkNext_left, List.mem_filter]
    exact ⟨Dict.get?_eq_some_iff.1 hreg.1, by simpa using hhost.symm⟩
  | @skip e rest hpc hclosed =>
    have hasked : (s.key j).dbname ∈ (s.actions x).names := by
      simpa only [ActionProc.names, hpc] using ActionProc.checkNext_names hsingle hname
    have hmem := hold (by simp [ActionProc.hasRead, hpc]) hasked
    rw [ActionProc.checkNext_left]
    simp only [ActionProc.left, hpc] at hmem
    rcases List.mem_cons.1 hmem with rfl | hrest
    · have hopen := hok (s.key j, entryOf cfg s j) (by simp [ActionProc.checked?, hpc]) hreg hasked
      rw [hclosed] at hopen
      cases hopen
    · exact hrest
  | @haList dbnames haDbNames hpc hkind =>
    rcases List.mem_append.1 hname with hha | hasked
    · exact absurd hha (hok (s.key j, entryOf cfg s j) (Dict.get?_eq_some_iff.1 hreg.1) hreg hhost.symm)
    · have hmem := hold (by simp [ActionProc.hasRead, hpc])
        (by simpa only [ActionProc.names, hpc, hkind, ActionKind.asked] using hasked)
      simp [ActionProc.left, hpc] at hmem
  | holdBulk hpc hkind =>
    have hmem := hold (by simp [ActionProc.hasRead, hpc, hkind])
      (by simpa only [ActionProc.names, hpc] using List.mem_eraseDups.1 hname)
    simp [ActionProc.left, hpc] at hmem

theorem startAction_single (s : State) (hostKey action : String) (kind : ActionKind) :
    ((startAction s hostKey action kind).actions s.nextAction).Single := by
  have hself : (startAction s hostKey action kind).actions s.nextAction =
      ⟨hostKey, action, kind, [], match kind with
        | .single dbname => .holdHost [dbname]
        | .selected _ | .all _ => .checkHost⟩ := Function.update_self ..
  rw [hself]
  cases kind with
  | single dbname => exact fun _ => ⟨by simp, by rintro _ ⟨⟩ _ hd; exact hd⟩
  | selected | all => exact fun _ => ⟨by simp, by simp⟩

theorem startAction_hasRead (s : State) (hostKey action : String) (kind : ActionKind) :
    ((startAction s hostKey action kind).actions s.nextAction).hasRead = false := by
  have hself : (startAction s hostKey action kind).actions s.nextAction =
      ⟨hostKey, action, kind, [], match kind with
        | .single dbname => .holdHost [dbname]
        | .selected _ | .all _ => .checkHost⟩ := Function.update_self ..
  rw [hself]
  cases kind <;> rfl

namespace Watched

variable {s s' : State}

/-- The actions do not move. -/
theorem frame (h : Watched cfg s) {a : Act} (hok : GuardsMeet cfg s a) (hstep : step cfg s a = some s')
    (hactions : s'.actions = s.actions) (hnext : s'.nextAction = s.nextAction) : Watched cfg s' := by
  have hfit := UnlockedWritesFit.of_idle h.idle a
  refine ⟨h.consistent.step hfit hstep, idle_step h.idle hok hstep, by rw [hactions, hnext]; exact h.fresh,
    by rw [hactions]; exact h.single, fun x j hread hreg hhost hname => ?_⟩
  rw [hactions] at hread hhost hname ⊢
  rcases registered_step h.consistent hfit hstep hreg with ⟨hold, hkey, hentry⟩ | ⟨rfl, hpub, hkey⟩
  · rw [hkey] at hhost hname
    rw [hkey, hentry]
    exact h.watched x j hread hold hhost hname
  · rw [hkey] at hhost hname
    have hx : x < s.nextAction := by
      by_contra hge
      simp [ActionProc.hasRead, h.fresh x (Nat.le_of_not_lt hge)] at hread
    exact absurd hname (hok hpub x hx hread hhost)

theorem step (h : Watched cfg s) {a : Act} (hok : GuardsMeet cfg s a) (hstep : step cfg s a = some s') :
    Watched cfg s' := by
  have hfit := UnlockedWritesFit.of_idle h.idle a
  cases step_move hstep with
  | tick | start | event | walk => exact h.frame hok hstep rfl rfl
  | job hmove => exact h.frame hok hstep hmove.actions.1 hmove.actions.2
  | sweep hmove => exact h.frame hok hstep hmove.actions.1 hmove.actions.2
  | startAction hostKey action kind =>
    have hactions : ∀ {x}, x ≠ s.nextAction → (startAction s hostKey action kind).actions x = s.actions x :=
      fun hne => Function.update_of_ne hne _ _
    refine ⟨h.consistent.step hfit hstep, h.idle, fun x hx => ?_, fun x => ?_, fun x j hread hreg hhost hname => ?_⟩
    · have hle : s.nextAction + 1 ≤ x := hx
      rw [hactions (Nat.ne_of_gt hle)]
      exact h.fresh x (Nat.le_of_succ_le hle)
    · by_cases hx : x = s.nextAction
      · subst hx
        exact startAction_single s hostKey action kind
      · rw [hactions hx]
        exact h.single x
    · by_cases hx : x = s.nextAction
      · subst hx
        simp [startAction_hasRead] at hread
      · rw [hactions hx] at hread hhost hname ⊢
        exact h.watched x j hread hreg hhost hname
  | @action _ x a' running hmove =>
    have hother : ∀ {y}, y ≠ x → ({ s with running := running }.setAction x a').actions y = s.actions y :=
      fun hne => Function.update_of_ne hne _ _
    have hself : ({ s with running := running }.setAction x a').actions x = a' := Function.update_self ..
    refine ⟨h.consistent.step hfit hstep, h.idle, fun y hy => ?_, fun y => ?_, fun y j hread hreg hhost hname => ?_⟩
    · have hyx : y ≠ x := by
        rintro rfl
        exact hmove.ne_absent (h.fresh y hy)
      rw [hother hyx]
      exact h.fresh y hy
    · by_cases hyx : y = x
      · subst hyx
        rw [hself]
        exact hmove.single (h.single y)
      · rw [hother hyx]
        exact h.single y
    · by_cases hyx : y = x
      · subst hyx
        rw [hself] at hread hhost hname ⊢
        rw [hmove.hostKey] at hhost
        exact hmove.watched (h.single y) hok hreg hhost hread hname fun hr hn => h.watched y j hr hreg hhost hn
      · rw [hother hyx] at hread hhost hname ⊢
        exact h.watched y j hread hreg hhost hname

theorem of_init (h : Init s) : Watched cfg s where
  consistent := .of_init h
  idle := h.sweeps
  fresh x _ := h.actions x
  single x _ := ⟨by simp [h.held x], by simp [h.actions x]⟩
  watched x j hread := by simp [ActionProc.hasRead, h.actions x] at hread

theorem run {s₀ : State} {as : List Act} (hrun : Run (Jobs.step cfg) (GuardsMeet cfg) s₀ as s) (hinit : Init s₀) :
    Watched cfg s :=
  hrun.invariant (fun _ _ _ hs hok hstep => hs.step hok hstep) (of_init hinit)

end Watched

/-! ### The main result -/

/-- The action is past its active-job check and holds the database on the host. -/
def ActionProc.Holds (a : ActionProc) (hostKey dbname : String) : Prop :=
  a.pc = .acting ∧ a.hostKey = hostKey ∧ dbname ∈ a.held

instance (a : ActionProc) (hostKey dbname : String) : Decidable (a.Holds hostKey dbname) :=
  inferInstanceAs (Decidable (_ ∧ _))

/-- In a run of jobs and actions whose guards meet, no action past its check holds the database of a registered job
whose worker has not finished. -/
theorem action_job_exclusive {s₀ s : State} {as : List Act} (hinit : Init s₀)
    (hrun : Run (step cfg) (GuardsMeet cfg) s₀ as s) {j : JobId} (hreg : Registered cfg s j) {x : Nat} :
    ¬ (s.actions x).Holds (s.key j).hostKey (s.key j).dbname := by
  rintro ⟨hpc, hhost, hheld⟩
  have hmem := (Watched.run hrun hinit).watched x j (by simp [ActionProc.hasRead, hpc]) hreg hhost
    (by simpa only [ActionProc.names, hpc] using hheld)
  simp [ActionProc.left, hpc] at hmem

/-- A job and a stop of its database: the stop's check finds the job, and the stop ends. -/
def stopBesideJob : List Act :=
  [.createJob (compactRequest "demodb")] ++ resumes 0 8 ++
    [.startAction "10.0.0.1:8001" "stopDatabase" (.single "demodb")] ++ List.replicate 4 (.actionResume 0)

theorem action_job_exclusive_stop : ∃ s, Run (step plainConfig) (GuardsMeet plainConfig) State.empty stopBesideJob s ∧
    Registered plainConfig s 0 ∧ ¬ (s.actions 0).Holds (s.key 0).hostKey (s.key 0).dbname := by
  have hrun : ∃ s, Run (step plainConfig) (GuardsMeet plainConfig) State.empty stopBesideJob s ∧
      Registered plainConfig s 0 := exists_run (by decide)
  obtain ⟨s, hrun, hreg⟩ := hrun
  exact ⟨s, hrun, hreg, action_job_exclusive .empty hrun hreg⟩

/-- The job looks at the action lock before the stop takes its hold, and publishes its entry after the stop has read
the map. -/
theorem action_job_exclusive_fails : Init State.empty ∧ ∃ s, Run (step plainConfig) Always State.empty
    ([.createJob (compactRequest "demodb"), .jobResume 0,
      .startAction "10.0.0.1:8001" "stopDatabase" (.single "demodb")] ++ List.replicate 3 (.actionResume 0) ++
      resumes 0 3) s ∧
    Registered plainConfig s 0 ∧ (s.actions 0).Holds (s.key 0).hostKey (s.key 0).dbname :=
  ⟨.empty, exists_run (by decide)⟩

end CubridWebManager.Jobs
