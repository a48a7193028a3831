import CubridWebManager.Jobs.Orphans

/-!
# The status of a job moves one way

A job's status is to go from queued to running to succeeded or failed, and its record is not to change after that.  The
worker stores the record as it goes; the startup recovery stores records too, of jobs that it takes for orphans.  It
takes any queued or running record for one, also that of a job created while it lists the files
(`status_one_way_fails`).

Where the recovery only reads records of jobs without a call in progress, the worker's position says what its file may
say (`JobPc.Stores`), and the recovery's copies are of dead jobs (`OrphansFit`); so no one stores a record over a later
one (`status_one_way`).
-/

namespace CubridWebManager.Jobs

open Transition Relation

variable {cfg : JobConfig}

/-! ### What the call of a job says about its record -/

namespace JobPc

/-- The statuses that the file of the job may have while its call is here. -/
def Stores (pc : JobPc) (status : CmsJobStatus) : Prop :=
  match pc with
  | .hostLookup | .lockWait | .opsRead | .existingRead _ _ | .opsWrite _ _ | .unlock _ | .recordSave _ => False
  | .scheduled | .jobRead | .runningSave _ => status = .queued
  | .cmsCall _ | .uuidSave _ | .followUps _ | .outcomeSave _ => status = .running
  | .absent | .releaseWait | .releaseRead | .releaseWrite _ | .releaseUnlock | .ended => True

/-- The status of the record in the hand of the call. -/
def HandFits : JobPc → Prop
  | .recordSave job => job.status = .queued ∧ job.cmsUuid = none
  | .runningSave job | .cmsCall job | .uuidSave job => job.status = .running
  | .followUps job | .outcomeSave job => isTerminalJobStatus job.status = true
  | _ => True

theorem HandFits.of_none {pc : JobPc} (h : pc.record = none) : pc.HandFits := by
  cases pc <;> first | trivial | cases h

end JobPc

/-- A queued record is stored at the first write only. -/
theorem JobPc.HandFits.first_save {pc : JobPc} {job : CmsJobRecord} (h : pc.HandFits) (hstoring : pc.storing = some job)
    (hstatus : job.status = .queued) : pc = .recordSave job := by
  cases pc <;> cases hstoring
  · rfl
  · cases h.symm.trans hstatus
  · cases h.symm.trans hstatus
  · simp only [JobPc.HandFits, hstatus] at h
    cases h

theorem RecordMove.hand {s : State} {j : JobId} {old new : JobPc} (h : RecordMove cfg s j old new)
    (hold : old.HandFits) : new.HandFits := by
  cases h with
  | none hnew => exact .of_none hnew
  | created => exact ⟨rfl, rfl⟩
  | loaded => exact rfl
  | started | uuid | uuidSaved => exact hold
  | answered => exact rfl
  | finish hworking hrecord hid hcreated hfinished hstatus =>
    rcases hstatus with hterminal | ⟨rfl, heq⟩
    · exact hterminal
    · simp only [JobPc.HandFits, heq] at hold ⊢
      exact hold

theorem JobEvent.stores {old new : JobPc} (h : JobEvent old new) {status : CmsJobStatus} (hold : old.Stores status) :
    new.Stores status := by
  cases h with
  | giveUp hlock hadd => cases old <;> first | exact hold | cases hadd
  | uuid | uuidKnown | answered => exact hold
  | finish hworking => cases old <;> first | exact hold | cases hworking
  | stop | releaseSkip => trivial

/-- The file of a job fits its call after a move of the call. -/
theorem JobMove.stores {s s₁ : State} {j : JobId} {old new : JobPc} (h : JobMove cfg s j old new s₁)
    (hid : ∀ job, old.record = some job → job.jobId = j) (hhand : old.HandFits)
    (hold : ∀ f, s.getJob (entryOf cfg s j).userKey j = some f → old.Stores f.status) {f : CmsJobRecord}
    (hf : s₁.getJob (entryOf cfg s j).userKey j = some f) : new.Stores f.status := by
  have hsaved : ∀ {job}, old.record = some job →
      (s.saveJob (entryOf cfg s j).userKey job).getJob (entryOf cfg s j).userKey j = some f → f = job := by
    intro job hjob hget
    rw [getJob_saveJob, if_pos ⟨rfl, (hid job hjob).symm⟩] at hget
    exact (Option.some.inj hget).symm
  cases h with
  | event hevent => exact hevent.stores (hold f hf)
  | saved =>
    obtain rfl := hsaved rfl hf
    exact hhand.1
  | started | uuidSaved =>
    obtain rfl := hsaved rfl hf
    exact hhand
  | pass | lock | found | free | takeOver | publish | passed | refused => exact (hold f hf).elim
  | run | loaded => exact hold f hf
  | _ => trivial

/-! ### The invariant -/

/-- The recovery is the one numbered `q`. -/
structure OneWay (cfg : JobConfig) (q : Nat) (s : State) : Prop where
  hand : ∀ j, (s.procs j).pc.HandFits
  stores : ∀ j f, s.getJob (entryOf cfg s j).userKey j = some f → (s.procs j).pc.Stores f.status
  queued : QueuedFresh s
  others : ∀ p, p ≠ q → (s.sweeps p).recovering = false
  orphans : OrphansFit s (s.sweeps q)

/-- A recovery starts. -/
def Act.recovers : Act → Bool
  | .recover _ => true
  | _ => false

theorem SweepStep.recovering {s s₁ : State} {p : Nat} {a : Act} {old new : SweepPc}
    (h : SweepStep cfg s p a old new s₁) (ha : a.recovers = false) (hold : old.recovering = false) :
    new.recovering = false := by
  cases h with
  | recover => cases ha
  | users | files | skip | spare | keep | purgeDone | purgeGlobalWrite => exact PurgeCursor.next_recovering _
  | unlink =>
    split
    · rfl
    · exact PurgeCursor.next_recovering _
  | purge | stop | missing | unreadable | doom | purgeUserOps | purgeGlobalRead => rfl
  | again hfinalizing =>
    cases old <;> cases hfinalizing <;> cases hold
  | _ => cases hold

theorem JobMove.alive {s s₁ : State} {j : JobId} {old new : JobPc} (h : JobMove cfg s j old new s₁) :
    old.dead = false := by
  cases h with
  | event hevent =>
    cases hevent with
    | giveUp hlock => cases old <;> first | rfl | cases hlock
    | finish hworking => cases old <;> first | rfl | cases hworking
    | stop hstops => cases old <;> first | rfl | cases hstops
    | releaseSkip hreleases => cases old <;> first | rfl | cases hreleases
    | _ => rfl
  | _ => rfl

theorem dead_step {s s' : State} {a : Act} (hstep : step cfg s a = some s') {j : JobId} (hj : j < s.nextJob)
    (hdead : (s.procs j).pc.dead = true) : (s'.procs j).pc = (s.procs j).pc := by
  rcases pc_step hstep j with heq | ⟨rfl, -⟩ | ⟨s₁, hmove⟩
  · exact heq
  · exact absurd hj (Nat.lt_irrefl _)
  · rw [hmove.alive] at hdead
    cases hdead

theorem JobPc.dead_of_storing {pc : JobPc} {job : CmsJobRecord} (h : pc.storing = some job) : pc.dead = false := by
  cases pc <;> first | rfl | cases h

theorem hands_step {s s' : State} {a : Act} (h : ∀ j, (s.procs j).pc.HandFits) (hstep : step cfg s a = some s')
    (j : JobId) : (s'.procs j).pc.HandFits := by
  cases record_step hstep with
  | tick | action => exact h j
  | start request =>
    by_cases hj : j = s.nextJob
    · subst hj
      simp [startJob, JobPc.HandFits]
    · simpa [startJob, Function.update_of_ne hj] using h j
  | @job a i s' hpc hframe =>
    by_cases hij : j = i
    · subst hij
      rcases hpc with heq | hmove
      · exact heq ▸ h j
      · exact hmove.hand (h j)
    · exact hframe.others j hij ▸ h j
  | @sweep a p new s₁ hsweep =>
    have hprocs : (s₁.setSweep p new).procs = s.procs := hsweep.frame.2.2.1
    exact hprocs ▸ h j

namespace OneWay

variable {q : Nat} {s s' : State}

/-- A record that is about to be stored for an orphan is the next one of its file, and no call of the job is left. -/
theorem current (h : OneWay cfg q s) {p : Nat} {c : OrphanCursor} (hsweep : s.sweeps p = .orphanSave c) :
    CurrentFits s c ∧ (s.procs c.job.jobId).pc.dead = true := by
  by_cases hp : p = q
  · subst hp
    exact ⟨h.orphans.current c hsweep, h.orphans.finalizing c (by rw [hsweep]; rfl)⟩
  · have hquiet := h.others p hp
    rw [hsweep] at hquiet
    cases hquiet

theorem stores_of_dead {pc : JobPc} (h : pc.dead = true) (status : CmsJobStatus) : pc.Stores status := by
  cases pc <;> first | trivial | cases h

theorem step_stores (h : OneWay cfg q s) (hw : WellFormed cfg s) {a : Act} (hstep : step cfg s a = some s') (j : JobId)
    (f : CmsJobRecord) (hf : s'.getJob (entryOf cfg s' j).userKey j = some f) : (s'.procs j).pc.Stores f.status := by
  cases step_move hstep with
  | tick | startAction | action | walk => exact h.stores j f hf
  | start request =>
    by_cases hj : j = s.nextJob
    · subst hj
      exact absurd (hw.files _ _ f hf).2.1 (Nat.lt_irrefl _)
    · have hproc : (startJob s request).procs j = s.procs j := by simp [startJob, Function.update_of_ne hj]
      rw [entryOf, hproc] at hf
      exact hproc ▸ h.stores j f hf
  | @event _ i new hact hevent =>
    rw [setPc_entryOf] at hf
    by_cases hij : j = i
    · subst hij
      rw [setPc_self]
      exact hevent.stores (h.stores j f hf)
    · rw [setPc_of_ne _ _ hij]
      exact h.stores j f hf
  | @job i new s₁ hmove =>
    have hentry : entryOf cfg (s₁.setPc i new) j = entryOf cfg s j := by
      rw [setPc_entryOf, entryOf, hmove.procs, ← entryOf]
    rw [hentry, setPc_getJob] at hf
    by_cases hij : j = i
    · subst hij
      rw [setPc_self]
      exact hmove.stores (fun job hjob => hw.record_jobId hjob) (h.hand j) (h.stores j) hf
    · rw [setPc_of_ne _ _ hij, hmove.procs]
      rcases hmove.getJob (entryOf cfg s j).userKey j with heq | ⟨job, hstoring, -, hid, -⟩
      · exact h.stores j f (heq ▸ hf)
      · exact absurd (hid.trans (hw.record_jobId (JobPc.record_of_storing hstoring))) hij
  | @sweep p s₁ sw hmove =>
    cases hmove with
    | walk | read | write => exact h.stores j f hf
    | unlink k =>
      refine h.stores j f ?_
      simp only [State.getJob, State.setSweep, entryOf, Dict.get?_erase] at hf
      split at hf
      · cases hf
      · exact hf
    | @save _ user job hsaving =>
      change (s.saveJob user job).getJob (entryOf cfg s j).userKey j = some f at hf
      rw [getJob_saveJob] at hf
      split at hf
      · rename_i heq
        refine stores_of_dead ?_ _
        cases hsw : s.sweeps p <;> rw [hsw] at hsaving <;> cases hsaving
        rw [heq.2]
        exact (h.current hsw).2
      · exact h.stores j f hf

theorem step_queued (h : OneWay cfg q s) (hw : WellFormed cfg s) {a : Act} (hstep : step cfg s a = some s') :
    QueuedFresh s' := by
  intro u j f hf hstatus
  rcases file_step hw hstep u j with heq | hnone | ⟨hstoring, -, hget⟩ | ⟨hsweep, -, -, hget⟩
  · exact h.queued u j f (heq ▸ hf) hstatus
  · rw [hnone] at hf
    cases hf
  · rename_i job
    obtain rfl : job = f := Option.some.inj (hget.symm.trans hf)
    have hhand := h.hand j
    rw [hhand.first_save hstoring hstatus] at hhand
    exact hhand.2
  · rename_i p c
    obtain rfl : c.job = f := Option.some.inj (hget.symm.trans hf)
    have hterminal := (h.current hsweep).1.terminal
    rw [hstatus] at hterminal
    cases hterminal

theorem step_others (h : OneWay cfg q s) {a : Act} (ha : a.recovers = false) (hstep : step cfg s a = some s') (p : Nat)
    (hp : p ≠ q) : (s'.sweeps p).recovering = false := by
  cases record_step hstep with
  | tick | start | action => exact h.others p hp
  | job hpc hframe => exact hframe.sweeps ▸ h.others p hp
  | @sweep a p' new s₁ hsweep =>
    by_cases hpp : p = p'
    · subst hpp
      rw [setSweep_self]
      exact hsweep.recovering ha (h.others p hp)
    · rw [setSweep_of_ne _ _ hpp, hsweep.frame.2.2.2]
      exact h.others p hp

/-- A step that is not the recovery's stores no file of a dead job. -/
theorem keep_orphans (h : OneWay cfg q s) (hw : WellFormed cfg s) {a : Act} (hstep : step cfg s a = some s')
    (hsweep : s'.sweeps q = s.sweeps q) (hfiles : ∀ u i f, (s.procs i).pc.dead = true → s'.getJob u i = some f →
      s.getJob u i = some f) : OrphansFit s' (s'.sweeps q) := by
  rw [hsweep]
  refine h.orphans.mono fun i hi hdead => ⟨?_, fun u f hf => hfiles u i f hdead hf⟩
  rw [dead_step hstep (hw.sweeps q i hi).1 hdead]
  exact hdead

theorem step_orphans (h : OneWay cfg q s) (hw : WellFormed cfg s) {a : Act} (hok : RecoveryMeets s a)
    (hstep : step cfg s a = some s') : OrphansFit s' (s'.sweeps q) := by
  cases record_step hstep with
  | tick | start | action => exact h.keep_orphans hw hstep rfl fun _ _ _ _ hf => hf
  | @job a i s' hpc hframe =>
    refine h.keep_orphans hw hstep (hframe.sweeps ▸ rfl) fun u j f hdead hf => ?_
    rcases hframe.files u j with heq | ⟨job, hstoring, -, hid, -⟩
    · exact heq ▸ hf
    · rw [hid.trans (hw.record_jobId (JobPc.record_of_storing hstoring)), JobPc.dead_of_storing hstoring] at hdead
      cases hdead
  | @sweep a p new s₁ hsweep =>
    by_cases hp : q = p
    · subst hp
      rw [setSweep_self]
      exact h.orphans.sweepStep hw h.queued hok hsweep
    · refine h.keep_orphans hw hstep ?_ fun u j f _ hf => ?_
      · rw [setSweep_of_ne _ _ hp, hsweep.frame.2.2.2]
      · rcases hsweep.getJob u j with heq | ⟨-, hnone⟩ | ⟨c, hc, -, -, -⟩
        · exact heq ▸ hf
        · cases hnone.symm.trans hf
        · have hquiet := h.others p (Ne.symm hp)
          rw [hc] at hquiet
          cases hquiet

theorem step (h : OneWay cfg q s) (hw : WellFormed cfg s) {a : Act} (hok : RecoveryMeets s a)
    (ha : a.recovers = false) (hstep : Jobs.step cfg s a = some s') : OneWay cfg q s' where
  hand := hands_step h.hand hstep
  stores := h.step_stores hw hstep
  queued := h.step_queued hw hstep
  others := h.step_others ha hstep
  orphans := h.step_orphans hw hok hstep

/-- The server starts, and its recovery with it. -/
theorem of_start {s₀ s₁ : State} (hinit : Init s₀) (hqueued : QueuedFresh s₀)
    (hstart : Jobs.step cfg s₀ (.recover q) = some s₁) : OneWay cfg q s₁ := by
  simp only [Jobs.step, Option.ite_none_right_eq_some, Option.some.injEq] at hstart
  obtain ⟨-, rfl⟩ := hstart
  have hpc : ∀ j, ((s₀.setSweep q .recoveryRoot).procs j).pc = .absent := hinit.procs
  refine ⟨fun j => ?_, fun j f _ => ?_, hqueued, fun p hp => ?_, ?_⟩
  · rw [hpc]
    trivial
  · rw [hpc]
    trivial
  · rw [setSweep_of_ne _ _ hp, hinit.sweeps]
    rfl
  · rw [setSweep_self]
    exact .of_listed .nil rfl rfl (fun _ heq => by cases heq) (fun _ heq => SweepPc.noConfusion heq)
      fun _ _ _ heq => SweepPc.noConfusion heq

/-! ### One step of the status -/

/-- A record that takes the place of another one has the same status or the next one, and no record takes the place of
one that says the job has ended. -/
theorem status (h : OneWay cfg q s) (hw : WellFormed cfg s) {a : Act} (hstep : Jobs.step cfg s a = some s') {u : String}
    {j : JobId} {r r' : CmsJobRecord} (hr : s.getJob u j = some r) (hr' : s'.getJob u j = some r') :
    r' = r ∨ isTerminalJobStatus r.status = false ∧ (r'.status = r.status ∨ StatusStep r.status r'.status) := by
  rcases file_step hw hstep u j with heq | hnone | ⟨hstoring, rfl, hget⟩ | ⟨hsweep, rfl, rfl, hget⟩
  · exact .inl (Option.some.inj (hr'.symm.trans (heq.trans hr)))
  · cases hnone.symm.trans hr'
  · rename_i job
    obtain rfl : job = r' := Option.some.inj (hget.symm.trans hr')
    have hhand := h.hand j
    have hstores := h.stores j r hr
    right
    cases hpc : (s.procs j).pc <;> rw [hpc] at hstoring hhand hstores <;> cases hstoring
    · exact hstores.elim
    · rw [hstores, hhand]
      exact ⟨rfl, .inr .start⟩
    · rw [hstores, hhand]
      exact ⟨rfl, .inl rfl⟩
    · rw [hstores]
      refine ⟨rfl, .inr ?_⟩
      simp only [JobPc.HandFits] at hhand
      cases hs : job.status with
      | succeeded => exact .succeed
      | failed => exact .fail
      | queued | running =>
        rw [hs] at hhand
        cases hhand
  · rename_i p c
    obtain rfl : c.job = r' := Option.some.inj (hget.symm.trans hr')
    have hnext := (h.current hsweep).1.stored r hr
    exact .inr ⟨hnext.active, .inr hnext⟩

/-- The recovery spares the file and the entry of a job with a call in progress. -/
theorem spares (h : OneWay cfg q s) {a : Act} (hok : RecoveryMeets s a) {p : Nat} (ha : a.sweep? = some p)
    (hrecovering : (s.sweeps p).recovering = true) (hstep : Jobs.step cfg s a = some s') {j : JobId}
    (halive : (s.procs j).pc.dead = false) :
    (∀ u, s'.getJob u j = s.getJob u j) ∧
      ∀ k e, s.globalOps.get? k = some e → e.jobId = j → s'.globalOps.get? k = some e := by
  have hp : p = q := by
    by_contra hne
    rw [h.others p hne] at hrecovering
    cases hrecovering
  subst hp
  have hdead : ∀ {c}, (s.sweeps p).finalizing = some c → c.job.jobId ≠ j := by
    rintro c hc rfl
    rw [h.orphans.finalizing c hc] at halive
    cases halive
  obtain ⟨new, s₁, hmove, rfl⟩ := sweep_step ha hstep
  generalize hsw : s.sweeps p = old at hmove hrecovering hdead
  cases hmove with
  | unlink | purgeGlobalWrite => cases hrecovering
  | @orphanSave c =>
    refine ⟨fun u => ?_, fun k e he _ => he⟩
    change (s.saveJob c.user c.job).getJob u j = _
    rw [getJob_saveJob, if_neg fun heq => hdead rfl heq.2.symm]
  | @orphanGlobalWrite c ops =>
    rw [RecoveryMeets, hsw] at hok
    refine ⟨fun u => rfl, fun k e he hej => ?_⟩
    exact hok.kept he fun heq => hdead rfl (heq.symm.trans hej)
  | _ => exact ⟨fun u => rfl, fun k e he _ => he⟩

end OneWay

/-! ### What is over does not come back -/

/-- The call is before the first write of its record, or at it. -/
def JobPc.unsaved : JobPc → Bool
  | .hostLookup | .lockWait | .opsRead | .existingRead _ _ | .opsWrite _ _ | .unlock _ | .recordSave _ => true
  | _ => false

/-- The call stores no record any more. -/
def JobPc.closed : JobPc → Bool
  | .absent | .releaseWait | .releaseRead | .releaseWrite _ | .releaseUnlock | .ended => true
  | _ => false

theorem JobMove.unsaved {s s₁ : State} {j : JobId} {old new : JobPc} (h : JobMove cfg s j old new s₁)
    (hold : old.unsaved = false) : new.unsaved = false := by
  cases h with
  | event hevent =>
    cases hevent with
    | giveUp hlock hadd => cases old <;> cases hold <;> cases hadd
    | _ => rfl
  | run | loaded | started | uuidSaved | outcomeSaved | releaseLock | releaseFound | release | released => rfl
  | _ => cases hold

theorem JobMove.closed {s s₁ : State} {j : JobId} {old new : JobPc} (h : JobMove cfg s j old new s₁)
    (hold : old.closed = true) : new.closed = true := by
  cases h with
  | event hevent =>
    cases hevent with
    | giveUp hlock hadd => cases old <;> cases hold <;> cases hadd
    | finish hworking => cases old <;> cases hold <;> cases hworking
    | stop | releaseSkip => rfl
    | _ => cases hold
  | releaseLock | releaseFound | release | released => rfl
  | _ => cases hold

/-- The files that a recovery may still store. -/
def SweepPc.toStore : SweepPc → List (String × JobId)
  | .orphanSave c => (c.user, c.job.jobId) :: c.rest.map fileOf
  | sw => sw.pending.map fileOf

/-- The record of job `j` in the directory of user `u` has been stored, and says queued no more. -/
structure Begun (cfg : JobConfig) (u : String) (j : JobId) (s : State) : Prop where
  drawn : j < s.nextJob
  call : u = (entryOf cfg s j).userKey → (s.procs j).pc.unsaved = false
  file : ∀ f, s.getJob u j = some f → f.status ≠ .queued

/-- The record `r` of job `j` is the last one in the directory of user `u`. -/
structure Sealed (cfg : JobConfig) (q : Nat) (u : String) (j : JobId) (r : CmsJobRecord) (s : State) : Prop where
  drawn : j < s.nextJob
  call : u = (entryOf cfg s j).userKey → (s.procs j).pc.closed = true
  orphans : (u, j) ∉ (s.sweeps q).toStore
  file : ∀ f, s.getJob u j = some f → f = r

theorem entryOf_step {s s' : State} {a : Act} (hstep : step cfg s a = some s') {j : JobId} (hj : j < s.nextJob) :
    entryOf cfg s' j = entryOf cfg s j := by
  simp only [entryOf, request_step hstep hj]

namespace OneWay

variable {q : Nat} {s s' : State}

theorem begun (h : OneWay cfg q s) (hw : WellFormed cfg s) {u : String} {j : JobId} {r : CmsJobRecord}
    (hr : s.getJob u j = some r) (hstatus : r.status ≠ .queued) : Begun cfg u j s where
  drawn := (hw.files u j r hr).2.1
  call huser := by
    subst huser
    have hstores := h.stores j r hr
    cases hpc : (s.procs j).pc <;> rw [hpc] at hstores <;> first | rfl | exact hstores.elim
  file f hf := by rwa [← Option.some.inj (hr.symm.trans hf)]

theorem begun_step (h : OneWay cfg q s) (hw : WellFormed cfg s) {a : Act} (hstep : Jobs.step cfg s a = some s')
    {u : String} {j : JobId} (hbegun : Begun cfg u j s) : Begun cfg u j s' where
  drawn := Nat.lt_of_lt_of_le hbegun.drawn (nextJob_step hstep)
  call huser := by
    rw [entryOf_step hstep hbegun.drawn] at huser
    rcases pc_step hstep j with heq | ⟨rfl, -⟩ | ⟨s₁, hmove⟩
    · exact heq ▸ hbegun.call huser
    · exact absurd hbegun.drawn (Nat.lt_irrefl _)
    · exact hmove.unsaved (hbegun.call huser)
  file f hf := by
    rcases file_step hw hstep u j with heq | hnone | ⟨hstoring, huser, hget⟩ | ⟨hsweep, -, -, hget⟩
    · exact hbegun.file f (heq ▸ hf)
    · cases hnone.symm.trans hf
    · rename_i job
      obtain rfl : job = f := Option.some.inj (hget.symm.trans hf)
      intro hstatus
      have hcall := hbegun.call huser
      rw [(h.hand j).first_save hstoring hstatus] at hcall
      cases hcall
    · rename_i p c
      obtain rfl : c.job = f := Option.some.inj (hget.symm.trans hf)
      intro hstatus
      have hterminal := (h.current hsweep).1.terminal
      rw [hstatus] at hterminal
      cases hterminal

theorem seals (h : OneWay cfg q s) (hw : WellFormed cfg s) {u : String} {j : JobId} {r : CmsJobRecord}
    (hr : s.getJob u j = some r) (hstatus : isTerminalJobStatus r.status = true) : Sealed cfg q u j r s where
  drawn := (hw.files u j r hr).2.1
  call huser := by
    subst huser
    have hstores := h.stores j r hr
    cases hpc : (s.procs j).pc <;> rw [hpc] at hstores
    case absent | releaseWait | releaseRead | releaseWrite | releaseUnlock | ended => rfl
    case scheduled | jobRead | runningSave | cmsCall | uuidSave | followUps | outcomeSave =>
      rw [show r.status = _ from hstores] at hstatus
      cases hstatus
    all_goals exact hstores.elim
  orphans hmem := by
    have hpending : (u, j) ∉ (s.sweeps q).pending.map fileOf := by
      intro hk
      obtain ⟨x, hx, heq⟩ := List.mem_map.1 hk
      have hfits := h.orphans.list.fits x hx
      have hactive := hfits.active
      obtain ⟨rfl, rfl⟩ := Prod.mk.inj heq
      rw [← hfits.stored r hr, hstatus] at hactive
      cases hactive
    cases hsw : s.sweeps q with
    | orphanSave c =>
      rw [hsw] at hmem hpending
      rcases List.mem_cons.1 hmem with heq | hmem
      · obtain ⟨rfl, rfl⟩ := Prod.mk.inj heq
        have hactive := ((h.current hsw).1.stored r hr).active
        rw [hstatus] at hactive
        cases hactive
      · exact hpending hmem
    | _ =>
      rw [hsw] at hmem hpending
      exact hpending hmem
  file f hf := Option.some.inj (hf.symm.trans hr)

end OneWay

theorem nextOrphan_toStore {now : Nat} {l : List Orphan} {k : String × JobId} (hk : k ∈ (nextOrphan now l).toStore) :
    k ∈ l.map fileOf := by
  unfold nextOrphan at hk
  split at hk
  · cases hk
  · split at hk <;> exact hk

theorem RecoveryCursor.next_toStore {c : RecoveryCursor} {now : Nat} {k : String × JobId}
    (hk : k ∈ (c.next now).toStore) : k ∈ (c.orphans ++ c.found).map fileOf := by
  have hperm : (c.orphans ++ c.userOrphans).Perm (c.orphans ++ c.found) := c.found_perm.append_left _
  unfold RecoveryCursor.next at hk
  split at hk
  · exact hk
  · split at hk
    · exact (hperm.map fileOf).mem_iff.1 (nextOrphan_toStore hk)
    · exact (hperm.map fileOf).mem_iff.1 hk

/-- A recovery comes to store a file that it has read, the job being queued or running. -/
theorem SweepStep.toStore {s s₁ : State} {p : Nat} {a : Act} {old new : SweepPc} (h : SweepStep cfg s p a old new s₁)
    (hagain : ∀ c, a = .sweepReject p → old.finalizing = some c → c.reconciled = true → old = .orphanSave c)
    (hids : ∀ u j job, s.getJob u j = some job → job.jobId = j) {k : String × JobId} (hk : k ∈ new.toStore) :
    k ∈ old.toStore ∨ ∃ job, s.getJob k.1 k.2 = some job ∧ isActiveJobStatus job = true := by
  have hquiet : ∀ {sw : SweepPc}, sw.recovering = false → sw.toStore = [] := fun {sw} hsw => by
    cases sw <;> first | rfl | cases hsw
  cases h with
  | purge | recover | stop | missing | unreadable | doom | purgeUserOps | purgeGlobalRead => cases hk
  | users | files | skip | spare | keep | purgeDone | purgeGlobalWrite =>
    rw [hquiet (PurgeCursor.next_recovering _)] at hk
    cases hk
  | unlink =>
    rw [hquiet (by split <;> first | rfl | exact PurgeCursor.next_recovering _)] at hk
    cases hk
  | orphanUsers =>
    cases RecoveryCursor.next_toStore hk
  | @orphanFiles user users orphans files hperm =>
    have hk := RecoveryCursor.next_toStore hk
    rw [show orphans ++ RecoveryCursor.found ⟨users, user, files, [], orphans⟩ = orphans from List.append_nil _] at hk
    exact .inl hk
  | @orphanRead c j =>
    have hk := RecoveryCursor.next_toStore hk
    obtain ⟨x, hx, rfl⟩ := List.mem_map.1 hk
    rcases List.mem_append.1 hx with hx | hx
    · exact .inl (List.mem_map_of_mem (List.mem_append_left _ hx))
    · obtain ⟨job, hjob, rfl⟩ := List.mem_map.1 hx
      obtain ⟨hjob, hactive⟩ := List.mem_filter.1 hjob
      rcases List.mem_append.1 hjob with hjob | hjob
      · refine .inl (List.mem_map_of_mem (List.mem_append_right _ (List.mem_map.2 ⟨job, ?_, rfl⟩)))
        exact List.mem_filter.2 ⟨hjob, hactive⟩
      · have hget : s.getJob c.user j = some job := Option.mem_toList.1 hjob
        refine .inr ⟨job, ?_, hactive⟩
        rw [fileOf, hids _ _ _ hget]
        exact hget
  | orphanUnread => exact .inl (RecoveryCursor.next_toStore hk)
  | @reconciled rest user job outcome =>
    refine .inl ?_
    rcases List.mem_cons.1 hk with rfl | hk
    · rw [show (_, _) = fileOf (user, job) from congrArg _ (applyCmsOutcome_jobId job outcome)]
      exact List.mem_cons_self
    · exact List.mem_cons_of_mem _ hk
  | interrupted => exact .inl hk
  | orphanSave => exact .inl (List.mem_cons_of_mem _ hk)
  | orphanUserOps | orphanGlobalRead => exact .inl hk
  | orphanDone | orphanGlobalWrite => exact .inl (nextOrphan_toStore hk)
  | @again _ c hold hreconciled =>
    rw [hagain c rfl hold hreconciled]
    exact .inl hk

theorem OneWay.sealed_step {q : Nat} {s s' : State} (h : OneWay cfg q s) (hw : WellFormed cfg s) {a : Act}
    (hok : RecoveryMeets s a) (hstep : Jobs.step cfg s a = some s') {u : String} {j : JobId} {r : CmsJobRecord}
    (hr : isTerminalJobStatus r.status = true) (hsealed : Sealed cfg q u j r s) : Sealed cfg q u j r s' where
  drawn := Nat.lt_of_lt_of_le hsealed.drawn (nextJob_step hstep)
  call huser := by
    rw [entryOf_step hstep hsealed.drawn] at huser
    rcases pc_step hstep j with heq | ⟨rfl, -⟩ | ⟨s₁, hmove⟩
    · exact heq ▸ hsealed.call huser
    · exact absurd hsealed.drawn (Nat.lt_irrefl _)
    · exact hmove.closed (hsealed.call huser)
  orphans hmem := by
    cases record_step hstep with
    | tick | start | action => exact hsealed.orphans hmem
    | job hpc hframe => exact hsealed.orphans (hframe.sweeps ▸ hmem)
    | @sweep a p new s₁ hsweep =>
      by_cases hp : q = p
      · subst hp
        rw [setSweep_self] at hmem
        have hagain : ∀ c, a = .sweepReject q → (s.sweeps q).finalizing = some c → c.reconciled = true →
            s.sweeps q = .orphanSave c := by
          rintro c rfl hc hreconciled
          exact hok.again hc hreconciled
        rcases hsweep.toStore hagain (fun u j job hjob => (hw.files u j job hjob).1) hmem with hold | ⟨job, hget, hactive⟩
        · exact hsealed.orphans hold
        · rw [hsealed.file job hget, isActiveJobStatus_eq, hr] at hactive
          cases hactive
      · rw [setSweep_of_ne _ _ hp, hsweep.frame.2.2.2] at hmem
        exact hsealed.orphans hmem
  file f hf := by
    rcases file_step hw hstep u j with heq | hnone | ⟨hstoring, huser, -⟩ | ⟨hsweep, rfl, rfl, -⟩
    · exact hsealed.file f (heq ▸ hf)
    · cases hnone.symm.trans hf
    · have hcall := hsealed.call huser
      cases hpc : (s.procs j).pc <;> rw [hpc] at hstoring hcall <;> cases hstoring <;> cases hcall
    · rename_i p c
      by_cases hp : p = q
      · subst hp
        refine absurd ?_ hsealed.orphans
        rw [hsweep]
        exact List.mem_cons_self
      · have hquiet := h.others p hp
        rw [hsweep] at hquiet
        cases hquiet

/-! ### The main result -/

/-- The recovery meets its conditions, and it is the only one. -/
def StartupMeets (s : State) (a : Act) : Prop := RecoveryMeets s a ∧ a.recovers = false

instance (s : State) (a : Act) : Decidable (StartupMeets s a) := inferInstanceAs (Decidable (_ ∧ _))

/-- The step takes the status of each record that stays one step on at most, changes no record that says its job has
ended, and, where it is the recovery's, spares the file and the entry of every job with a call in progress. -/
structure StepsOneWay (s : State) (a : Act) (s' : State) : Prop where
  status : ∀ u j r r', s.getJob u j = some r → s'.getJob u j = some r' →
    r' = r ∨ isTerminalJobStatus r.status = false ∧ (r'.status = r.status ∨ StatusStep r.status r'.status)
  spares : ∀ p, a.sweep? = some p → (s.sweeps p).recovering = true → ∀ j, (s.procs j).pc.dead = false →
    (∀ u, s'.getJob u j = s.getJob u j) ∧
      ∀ k e, s.globalOps.get? k = some e → e.jobId = j → s'.globalOps.get? k = some e

/-- Whatever is stored for a job in `s'` comes after what is stored for it in `s`, and is the same where that says that
the job has ended. -/
def ComesAfter (s s' : State) : Prop :=
  ∀ u j r r', s.getJob u j = some r → s'.getJob u j = some r' →
    ReflTransGen StatusStep r.status r'.status ∧ (isTerminalJobStatus r.status = true → r' = r)

theorem OneWay.run {q : Nat} {s s' : State} {as : List Act} (hrun : Run (Jobs.step cfg) StartupMeets s as s')
    (hw : WellFormed cfg s) (h : OneWay cfg q s) : WellFormed cfg s' ∧ OneWay cfg q s' :=
  hrun.invariant (I := fun s => WellFormed cfg s ∧ OneWay cfg q s)
    (fun _ _ _ hs hok hstep => ⟨hs.1.step hstep, hs.2.step hs.1 hok.1 hok.2 hstep⟩) ⟨hw, h⟩

theorem OneWay.comesAfter {q : Nat} {s s' : State} {as : List Act} (hrun : Run (Jobs.step cfg) StartupMeets s as s')
    (hw : WellFormed cfg s) (h : OneWay cfg q s) : ComesAfter s s' := by
  intro u j r r' hr hr'
  have hbegun : r.status ≠ .queued → r'.status ≠ .queued := fun hstatus =>
    (hrun.invariant (I := fun s => (WellFormed cfg s ∧ OneWay cfg q s) ∧ Begun cfg u j s)
      (fun _ _ _ hs hok hstep => ⟨⟨hs.1.1.step hstep, hs.1.2.step hs.1.1 hok.1 hok.2 hstep⟩,
        hs.1.2.begun_step hs.1.1 hstep hs.2⟩) ⟨⟨hw, h⟩, h.begun hw hr hstatus⟩).2.file r' hr'
  have hsealed : isTerminalJobStatus r.status = true → r' = r := fun hstatus =>
    (hrun.invariant (I := fun s => (WellFormed cfg s ∧ OneWay cfg q s) ∧ Sealed cfg q u j r s)
      (fun _ _ _ hs hok hstep => ⟨⟨hs.1.1.step hstep, hs.1.2.step hs.1.1 hok.1 hok.2 hstep⟩,
        hs.1.2.sealed_step hs.1.1 hok.1 hstep hstatus hs.2⟩) ⟨⟨hw, h⟩, h.seals hw hr hstatus⟩).2.file r' hr'
  refine ⟨?_, hsealed⟩
  cases hs : r.status with
  | succeeded | failed =>
    rw [hsealed (by rw [hs]; rfl), hs]
  | running =>
    cases hs' : r'.status with
    | queued => exact absurd hs' (hbegun (by rw [hs]; exact nofun))
    | running => exact .refl
    | succeeded => exact .single .succeed
    | failed => exact .single .fail
  | queued =>
    cases hs' : r'.status with
    | queued => exact .refl
    | running => exact .single .start
    | succeeded => exact .tail (.single .start) .succeed
    | failed => exact .single .giveUp

/-- The server starts, its recovery with it.  In a run in which the recovery reads no queued or running record of a job
with a call in progress, writes no map that is out of date, and does not fail between storing a known outcome and the
next orphan: every step goes one way, and what any later run stores comes after what is stored. -/
theorem status_one_way {s₀ s₁ s : State} {q : Nat} {as : List Act} (hinit : Init s₀) (hqueued : QueuedFresh s₀)
    (hstart : step cfg s₀ (.recover q) = some s₁) (hrun : Run (step cfg) StartupMeets s₁ as s) :
    QueuedFresh s ∧ (∀ a s', StartupMeets s a → step cfg s a = some s' → StepsOneWay s a s') ∧
      ∀ bs s', Run (step cfg) StartupMeets s bs s' → ComesAfter s s' := by
  have hw₁ : WellFormed cfg s₁ := (WellFormed.of_init hinit).step hstart
  obtain ⟨hw, h⟩ := (OneWay.of_start hinit hqueued hstart).run hrun hw₁
  refine ⟨h.queued, fun a s' hok hstep => ⟨fun u j r r' hr hr' => h.status hw hstep hr hr', ?_⟩,
    fun bs s' hlater => h.comesAfter hlater hw⟩
  exact fun p ha hrecovering j halive => h.spares hok.1 ha hrecovering hstep halive

/-- The store of a server that was stopped while it polled the task of a job. -/
def crashedStore : State :=
  { State.empty with
    nextJob := 1
    files := Dict.empty.set ("dba", 0) { compactRequest "demodb" |>.record 0 0 with status := .running, cmsUuid := some "7" }
    globalOps := Dict.empty.set (compactRequest "demodb").operationKey ⟨0, "dba"⟩ }

theorem crashedStore_init : Init crashedStore ∧ QueuedFresh crashedStore := by
  have hfile : ∀ u j job, crashedStore.getJob u j = some job → j = 0 ∧ job.jobId = 0 ∧ job.status = .running := by
    intro u j job hjob
    simp only [State.getJob, crashedStore, Dict.get?_set, Dict.get?_empty] at hjob
    split at hjob
    · rename_i hkey
      cases hjob
      exact ⟨(Prod.mk.inj hkey).2, rfl, rfl⟩
    · cases hjob
  refine ⟨⟨fun _ => rfl, fun _ => rfl, fun _ => rfl, fun _ => rfl, rfl, rfl, fun u j job hjob => ?_, fun k e he => ?_⟩,
    fun u j job hjob hstatus => ?_⟩
  · obtain ⟨rfl, hid, -⟩ := hfile u j job hjob
    exact ⟨hid, Nat.one_pos⟩
  · simp only [crashedStore, Dict.get?_set, Dict.get?_empty] at he
    split at he
    · cases he
      exact Nat.one_pos
    · cases he
  · cases (hfile u j job hjob).2.2.symm.trans hstatus

/-- The recovery finds the job of the earlier server and asks about it; a new job starts meanwhile. -/
theorem status_one_way_orphan : ∃ s₁ s, step plainConfig crashedStore (.recover 0) = some s₁ ∧
    Run (step plainConfig) StartupMeets s₁ ([.listUsers 0 ["dba"], .listFiles 0 [0], .sweepResume 0,
      .createJob (compactRequest "testdb")] ++ resumes 1 9 ++ [.reconciled 0 (.succeeded "ok"), .sweepResume 0]) s ∧
    (s.getJob "dba" 0).map (·.status) = some .succeeded ∧ (s.getJob "dba" 1).map (·.status) = some .running ∧
    ∀ bs s', Run (step plainConfig) StartupMeets s bs s' → ComesAfter s s' := by
  obtain ⟨s₁, hstart⟩ : ∃ s₁, step plainConfig crashedStore (.recover 0) = some s₁ := ⟨_, rfl⟩
  have hrun : ∃ s, Run (step plainConfig) StartupMeets s₁ ([.listUsers 0 ["dba"], .listFiles 0 [0], .sweepResume 0,
      .createJob (compactRequest "testdb")] ++ resumes 1 9 ++ [.reconciled 0 (.succeeded "ok"), .sweepResume 0]) s ∧
      (s.getJob "dba" 0).map (·.status) = some .succeeded ∧ (s.getJob "dba" 1).map (·.status) = some .running := by
    obtain rfl := Option.some.inj hstart
    exact exists_run (by decide +kernel)
  obtain ⟨s, hrun, hold, hnew⟩ := hrun
  exact ⟨s₁, s, hstart, hrun, hold, hnew,
    (status_one_way crashedStore_init.1 crashedStore_init.2 hstart hrun).2.2⟩

/-- A job is created while the recovery lists the files: the recovery fails its record under the worker, which stores its
success over that. -/
theorem status_one_way_fails : Init State.empty ∧ QueuedFresh State.empty ∧ ∃ s₁ s₂ s₃ s₄,
    step plainConfig State.empty (.recover 0) = some s₁ ∧
    Run (step plainConfig) Always s₁ ([.createJob (compactRequest "demodb")] ++ resumes 0 9 ++
      [.listUsers 0 ["dba"], .listFiles 0 [0], .sweepResume 0]) s₂ ∧
    (s₂.procs 0).pc.dead = false ∧ (s₂.getJob "dba" 0).map (·.status) = some .running ∧
    Run (step plainConfig) Always s₂ [.sweepResume 0] s₃ ∧ (s₃.getJob "dba" 0).map (·.status) = some .failed ∧
    Run (step plainConfig) Always s₃ [.cmsAnswer 0 (.succeeded "ok"), .followedUp 0 [] none, .jobResume 0] s₄ ∧
    (s₄.getJob "dba" 0).map (·.status) = some .succeeded := by
  refine ⟨.empty, fun u j job hjob => by simp [State.empty, State.getJob] at hjob, ?_⟩
  obtain ⟨s₁, hstart⟩ : ∃ s₁, step plainConfig State.empty (.recover 0) = some s₁ := ⟨_, rfl⟩
  have hrun : ∃ s, Run (step plainConfig) Always s₁ ([.createJob (compactRequest "demodb")] ++ resumes 0 9 ++
      [.listUsers 0 ["dba"], .listFiles 0 [0], .sweepResume 0]) s ∧
      (s.procs 0).pc.dead = false ∧ (s.getJob "dba" 0).map (·.status) = some .running ∧
      ((runChecked (step plainConfig) Always s [.sweepResume 0]).any fun s' =>
        decide ((s'.getJob "dba" 0).map (·.status) = some .failed ∧
          ((runChecked (step plainConfig) Always s' [.cmsAnswer 0 (.succeeded "ok"), .followedUp 0 [] none,
            .jobResume 0]).any fun s'' => decide ((s''.getJob "dba" 0).map (·.status) = some .succeeded)) = true)) =
        true := by
    obtain rfl := Option.some.inj hstart
    exact exists_run (by decide +kernel)
  obtain ⟨s₂, hrun₂, hdead, hrunning, hrest⟩ := hrun
  obtain ⟨s₃, hrun₃, hfailed, hrest⟩ := exists_run hrest
  obtain ⟨s₄, hrun₄, hsucceeded⟩ := exists_run hrest
  exact ⟨s₁, s₂, s₃, s₄, hstart, hrun₂, hdead, hrunning, hrun₃, hfailed, hrun₄, hsucceeded⟩

end CubridWebManager.Jobs
