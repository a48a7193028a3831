import CubridWebManager.Jobs.MutualExclusion

/-!
# Jobs that act on two databases

A job is registered under one name (`resolveJobDbname`), but a copy also acts on its source and a rename on the new
name.  The lock keeps apart two active jobs that share the name both are registered under; it does not see the second
name (`active_jobs_disjoint_fails`).

Where no job is published beside an active one that shares a second name with it (`SecondNamesFree`), the active jobs
of one host act on disjoint databases, but for those that they all only read.
-/

namespace CubridWebManager.Jobs

open Transition

variable {cfg : JobConfig}

namespace JobRequest

/-- The databases that the job's task reads or writes on CMS. -/
def touched (r : JobRequest) : List String :=
  match r.type with
  | .copy => [r.payload.srcdbname, r.payload.destdbname]
  | .rename => [r.dbname, r.payload.rename]
  | .unload | .load | .create | .optimize | .check | .compact | .addvol | .delete | .backupdb | .restore => [r.dbname]

/-- Whether the task writes this one of them: an unload, a plain check and a backup that keeps the archive logs only
read, and a copy writes its source when it removes it. -/
def writes (r : JobRequest) (dbname : String) : Bool :=
  match r.type with
  | .unload => false
  | .check => r.payload.repairdb = "y"
  | .backupdb => r.payload.removelog.getD "y" = "y"
  | .copy => dbname = r.payload.destdbname ∨ r.payload.move = "y"
  | .load | .create | .optimize | .compact | .addvol | .rename | .delete | .restore => true

/-- Two jobs of one host share no database that one of them writes, other than one that both are registered under. -/
def SecondNamesApart (r r' : JobRequest) : Prop :=
  r.hostKey = r'.hostKey → ∀ d ∈ r.touched, d ∈ r'.touched → ¬ (d = r.lockDbname ∧ d = r'.lockDbname) →
    r.writes d = false ∧ r'.writes d = false

instance (r r' : JobRequest) : Decidable (r.SecondNamesApart r') := by
  unfold SecondNamesApart
  infer_instance

theorem SecondNamesApart.symm {r r' : JobRequest} (h : r.SecondNamesApart r') : r'.SecondNamesApart r :=
  fun hhost d hd hd' hlock => (h hhost.symm d hd' hd fun hl => hlock ⟨hl.2, hl.1⟩).symm

end JobRequest

/-- A job that is published shares no second name with an active job. -/
def SecondNamesFree (s : State) : Act → Prop
  | .jobResume j => (s.procs j).pc.publishing = true → ∀ i < s.nextJob, s.Active i →
      (s.procs i).request.SecondNamesApart (s.procs j).request
  | _ => True

instance (s : State) (a : Act) : Decidable (SecondNamesFree s a) :=
  match a with
  | .jobResume _ => by unfold SecondNamesFree; infer_instance
  | .tick _ | .createJob _ | .jobReject _ _ | .cmsUuid _ _ | .cmsAnswer _ _ | .followedUp _ _ _ | .purge _ | .recover _
  | .listUsers _ _ | .listFiles _ _ | .sweepResume _ | .sweepReject _ | .reconciled _ _ | .startAction _ _ _
  | .actionResume _ | .actionHaList _ _ | .actionEnd _ => isTrue trivial

/-! ### Who becomes active -/

theorem JobEvent.active {old new : JobPc} (h : JobEvent old new) (hnew : new.active = true) : old.active = true := by
  cases h with
  | giveUp | stop | releaseSkip => simp [JobPc.active] at hnew
  | uuid | uuidKnown | answered => rfl
  | finish hold => cases old <;> simp_all [JobPc.working, JobPc.active]

theorem JobMove.active {s s₁ : State} {j : JobId} {old new : JobPc} (h : JobMove cfg s j old new s₁)
    (hnew : new.active = true) : old.active = true ∨ old.publishing = true := by
  cases h with
  | event hevent => exact .inl (hevent.active hnew)
  | publish => exact .inr rfl
  | passed | saved | run | loaded | started | uuidSaved => exact .inl rfl
  | _ => simp [JobPc.active] at hnew

/-- A job becomes active by the write of its entry only. -/
theorem active_step {s s' : State} {a : Act} (hstep : step cfg s a = some s') {j : JobId} (hj : s'.Active j) :
    s.Active j ∨ a = .jobResume j ∧ (s.procs j).pc.publishing = true := by
  cases step_move hstep with
  | start request =>
    by_cases hne : j = s.nextJob
    · subst hne
      simp [State.Active, startJob, JobPc.active] at hj
    · exact .inl (by simpa [State.Active, startJob, Function.update_of_ne hne] using hj)
  | @job i new s₁ hmove =>
    by_cases hij : j = i
    · subst hij
      rw [State.Active, setPc_self] at hj
      exact (hmove.active hj).imp_right fun h => ⟨rfl, h⟩
    · rw [State.Active, setPc_of_ne _ _ hij, hmove.procs] at hj
      exact .inl hj
  | @event _ i new hact hevent =>
    by_cases hij : j = i
    · subst hij
      rw [State.Active, setPc_self] at hj
      exact .inl (hevent.active hj)
    · rw [State.Active, setPc_of_ne _ _ hij] at hj
      exact .inl hj
  | sweep hmove => exact .inl (by rwa [State.Active, State.setSweep, hmove.procs] at hj)
  | walk | tick | startAction | action => exact .inl hj

/-! ### The main result -/

def ActiveApart (s : State) : Prop :=
  ∀ i j, s.Active i → s.Active j → i ≠ j → (s.procs i).request.SecondNamesApart (s.procs j).request

theorem ActiveApart.step {s s' : State} {a : Act} (h : ActiveApart s) (hw : WellFormed cfg s)
    (hok : SecondNamesFree s a) (hstep : step cfg s a = some s') : ActiveApart s' := by
  have hdrawn : ∀ {i}, s.Active i ∨ a = .jobResume i ∧ (s.procs i).pc.publishing = true → i < s.nextJob := by
    intro i hi
    refine hw.drawn rfl fun habs => ?_
    rcases hi with hi | ⟨-, hi⟩
    · simp [State.Active, habs, JobPc.active] at hi
    · simp [habs, JobPc.publishing] at hi
  intro i j hi hj hne
  have hi := active_step hstep hi
  have hj := active_step hstep hj
  rw [request_step hstep (hdrawn hi), request_step hstep (hdrawn hj)]
  rcases hi with hi | ⟨hact, hpi⟩
  · rcases hj with hj | ⟨hact, hpj⟩
    · exact h i j hi hj hne
    · subst hact
      exact hok hpj i (hdrawn (.inl hi)) hi
  · subst hact
    rcases hj with hj | ⟨hact, -⟩
    · exact (hok hpi j (hdrawn (.inl hj)) hj).symm
    · cases hact
      exact absurd rfl hne

theorem ActiveApart.run {s₀ s : State} {as : List Act} (hinit : Init s₀)
    (hrun : Run (Jobs.step cfg) SecondNamesFree s₀ as s) : ActiveApart s := by
  have hboth := hrun.invariant (I := fun s => WellFormed cfg s ∧ ActiveApart s)
    (fun _ _ _ hs hok hstep => ⟨hs.1.step hstep, hs.2.step hs.1 hok hstep⟩)
    ⟨.of_init hinit, fun i j hi _ _ => by simp [State.Active, hinit.procs i, JobPc.active] at hi⟩
  exact hboth.2

/-- In a run that keeps the entries of active jobs and publishes no job beside an active one that shares a second name
with it, two active jobs of one host share no database that one of them writes. -/
theorem active_jobs_disjoint {s₀ s : State} {as : List Act} (hinit : Init s₀)
    (hrun : Run (step cfg) (fun t a => KeepsActiveEntries t a ∧ SecondNamesFree t a) s₀ as s) {i j : JobId}
    (hi : s.Active i) (hj : s.Active j) (hne : i ≠ j) (hhost : (s.key i).hostKey = (s.key j).hostKey) {d : String}
    (hdi : d ∈ (s.procs i).request.touched) (hdj : d ∈ (s.procs j).request.touched) :
    (s.procs i).request.writes d = false ∧ (s.procs j).request.writes d = false := by
  have hapart := ActiveApart.run hinit (hrun.mono fun _ _ h => h.2) i j hi hj hne hhost d hdi hdj
  refine hapart ?_
  -- a database that both are registered under is the key of one entry
  rintro ⟨hli, hlj⟩
  have hkey : s.key i = s.key j := by
    simp only [State.key, JobRequest.operationKey, buildOperationKey, OperationKey.mk.injEq] at hhost ⊢
    exact ⟨hhost, hli.symm.trans hlj⟩
  exact hne ((Exclusive.run (hrun.mono fun _ _ h => h.1) hinit).eq_of_key hi hj hkey)

def copyRequest (src dest : String) : JobRequest :=
  ⟨"dba", "host1", "10.0.0.1:8001", .copy, src, { srcdbname := src, destdbname := dest, move := "y" }⟩

def unloadRequest (dbname : String) : JobRequest := ⟨"dba", "host1", "10.0.0.1:8001", .unload, dbname, {}⟩

/-- A moving copy and an unload of a third database are active together. -/
theorem active_jobs_disjoint_copy : ∃ s, Run (step plainConfig)
      (fun t a => KeepsActiveEntries t a ∧ SecondNamesFree t a) State.empty
      ([.createJob (copyRequest "demodb" "copydb"), .createJob (unloadRequest "testdb")] ++ resumes 0 6 ++ resumes 1 6) s ∧
    (s.Active 0 ∧ s.Active 1 ∧ (s.key 0).hostKey = (s.key 1).hostKey) ∧
    ∀ d ∈ (s.procs 0).request.touched, d ∈ (s.procs 1).request.touched → (s.procs 0).request.writes d = false := by
  have hrun : ∃ s, Run (step plainConfig) (fun t a => KeepsActiveEntries t a ∧ SecondNamesFree t a) State.empty
      ([.createJob (copyRequest "demodb" "copydb"), .createJob (unloadRequest "testdb")] ++ resumes 0 6 ++ resumes 1 6)
      s ∧ s.Active 0 ∧ s.Active 1 ∧ (s.key 0).hostKey = (s.key 1).hostKey := exists_run (by decide)
  obtain ⟨s, hrun, hactive⟩ := hrun
  exact ⟨s, hrun, hactive, fun d hd hd' =>
    (active_jobs_disjoint .empty hrun hactive.1 hactive.2.1 (by decide) hactive.2.2 hd hd').1⟩

/-- An unload of a database and a copy that removes it are active together. -/
theorem active_jobs_disjoint_fails : Init State.empty ∧ ∃ s, Run (step plainConfig) Always State.empty
    ([.createJob (copyRequest "demodb" "copydb"), .createJob (unloadRequest "demodb")] ++ resumes 0 6 ++ resumes 1 6) s ∧
    s.Active 0 ∧ s.Active 1 ∧ (s.key 0).hostKey = (s.key 1).hostKey ∧ "demodb" ∈ (s.procs 0).request.touched ∧
    "demodb" ∈ (s.procs 1).request.touched ∧ (s.procs 0).request.writes "demodb" = true :=
  ⟨.empty, exists_run (by decide)⟩

end CubridWebManager.Jobs
