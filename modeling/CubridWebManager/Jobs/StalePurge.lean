import CubridWebManager.CmsTask.Poll
import CubridWebManager.Jobs.MapHistory
import CubridWebManager.Jobs.Records

/-!
# The purge and the jobs that are still at work

A purge removes the record of a queued or running job from the age of `getStaleRunningJobMs` on: an hour more than a
request of a long job may take.  But the life of a worker is the sum of two such times, since the deadline of the
polling starts when the submission is answered (`stale_purge_spares_fails`).

As long as no worker is that old, and no purge fails to read a record, no purge touches a job that waits for CMS
(`stale_purge_spares`).  The copies of a record that workers, recoveries and files hold all have one `createdAt`, and no
end before it; so what a purge comes to remove is as old as it thinks (`Dated`).
-/

namespace CubridWebManager.Jobs

open Transition

variable {cfg : JobConfig}

/-! ### The default settings -/

/-- `getJobRetentionMs`, the variable `CMS_JOB_RETENTION_HOURS` being unset or a whole number of hours. -/
def getJobRetentionMs (hours? : Option Nat) : Nat :=
  let hours := hours?.getD 24
  if hours = 0 then 24 * 60 * 60 * 1000 else hours * 60 * 60 * 1000

/-- `getStaleRunningJobMs`, likewise for `CMS_JOB_STALE_RUNNING_HOURS` and `CMS_JOB_LONG_TIMEOUT_HOURS`. -/
def getStaleRunningJobMs (hours? longHours? : Option Nat) : Nat :=
  let defaultHours := CmsTask.getLongJobCmsTimeoutMs longHours? / (60 * 60 * 1000) + 1
  let hours := hours?.getD defaultHours
  if hours = 0 then CmsTask.getLongJobCmsTimeoutMs longHours? + 60 * 60 * 1000 else hours * 60 * 60 * 1000

def defaultConfig (getHashedValue : String → String) : JobConfig where
  getHashedValue := getHashedValue
  jobRetentionMs := getJobRetentionMs none
  staleRunningJobMs := getStaleRunningJobMs none none

/-! ### All copies of a record are of one age -/

/-- What the copies of the record of job `j` satisfy, in the hand of its call, in the files and in the hands of
recoveries; and what holds where a purge is removing the job, or has listed a file of it that is gone. -/
structure Copied (s : State) (j : JobId) (P : CmsJobRecord → Prop) (Q : Prop) : Prop where
  record : ∀ job, (s.procs j).pc.record = some job → P job
  files : ∀ u job, s.getJob u j = some job → P job
  copies : ∀ p, ∀ job ∈ (s.sweeps p).copies, job.jobId = j → P job
  listed : ∀ p u, (u, j) ∈ (s.sweeps p).listed → s.getJob u j = none → Q
  doomed : ∀ p, (s.sweeps p).doomed = some j → Q

/-- Before the record of the job exists. -/
def JobPc.unborn : JobPc → Bool
  | .absent | .hostLookup | .lockWait | .opsRead | .existingRead _ _ | .opsWrite _ _ | .unlock _ => true
  | _ => false

/-- No purge has read a later clock. -/
def ClocksRead (s : State) : Prop := ∀ p n, (s.sweeps p).purgeNow = some n → n ≤ s.now

/-- The act is not a failure of a purge to read a record. -/
def ReadsRecord (s : State) : Act → Prop
  | .sweepReject p => match s.sweeps p with
    | .purgeRead _ _ => False
    | _ => True
  | _ => True

namespace Copied

variable {s s' : State} {j : JobId} {P P' : CmsJobRecord → Prop} {Q Q' : Prop}

theorem mono (h : Copied s j P Q) (hP : ∀ job, P job → P' job) (hQ : Q → Q') : Copied s j P' Q' where
  record job hjob := hP job (h.record job hjob)
  files u job hjob := hP job (h.files u job hjob)
  copies p job hjob hid := hP job (h.copies p job hjob hid)
  listed p u hk hnone := hQ (h.listed p u hk hnone)
  doomed p hj := hQ (h.doomed p hj)

/-- The system moves without a change of job `j`, the files and the purges and recoveries. -/
theorem same (h : Copied s j P Q) (hpc : (s'.procs j).pc.record = none ∨ (s'.procs j).pc = (s.procs j).pc)
    (hfiles : s'.files = s.files) (hsweeps : s'.sweeps = s.sweeps) : Copied s' j P Q where
  record job hjob := by
    rcases hpc with hnone | heq
    · rw [hnone] at hjob
      cases hjob
    · exact h.record job (heq ▸ hjob)
  files u job hjob := h.files u job (by rwa [State.getJob, ← hfiles])
  copies p job hjob hid := h.copies p job (hsweeps ▸ hjob) hid
  listed p u hk hnone := h.listed p u (hsweeps ▸ hk) (by rwa [State.getJob, ← hfiles])
  doomed p hj := h.doomed p (hsweeps ▸ hj)

/-- A call goes on. -/
theorem jobStep (h : Copied s j P Q) (hw : WellFormed cfg s) {i : JobId} (hframe : CallFrame cfg s i s')
    (hrecord : ∀ job, (s'.procs j).pc.record = some job → P job) : Copied s' j P Q where
  record := hrecord
  files u job hjob := by
    rcases hframe.files u j with heq | ⟨job', hstoring, -, hj, hget⟩
    · exact h.files u job (heq ▸ hjob)
    · have hheld := JobPc.record_of_storing hstoring
      obtain rfl : j = i := hj.trans (hw.record_jobId hheld)
      obtain rfl : job' = job := Option.some.inj (hget.symm.trans hjob)
      exact h.record job' hheld
  copies p job hjob hid := h.copies p job (hframe.sweeps ▸ hjob) hid
  listed p u hk hnone := by
    rcases hframe.files u j with heq | ⟨job', -, -, -, hget⟩
    · exact h.listed p u (hframe.sweeps ▸ hk) (heq ▸ hnone)
    · rw [hget] at hnone
      cases hnone
  doomed p hj := h.doomed p (hframe.sweeps ▸ hj)

/-- A purge or recovery goes on. -/
theorem sweepStep (h : Copied s j P Q) (hclock : ClocksRead s) (hrevise : ∀ x y, P x → Revises s x y → P y)
    (hold : ∀ n job, P job → n ≤ s.now → shouldRemove cfg n job = true → Q) {a : Act} (hreads : ReadsRecord s a)
    {p : Nat} {new : SweepPc} {s₁ : State} (hstep : SweepStep cfg s p a (s.sweeps p) new s₁)
    (hw : WellFormed cfg s) : Copied (s₁.setSweep p new) j P Q := by
  obtain ⟨-, -, hprocs, hsweeps⟩ := hstep.frame
  have hget : ∀ u, (s₁.setSweep p new).getJob u j = s₁.getJob u j := fun _ => rfl
  have hother : ∀ {q}, q ≠ p → (s₁.setSweep p new).sweeps q = s.sweeps q := fun hq => by
    rw [setSweep_of_ne _ _ hq, hsweeps]
  -- a file that is gone was gone before, or is the one that the purge removes
  have hgone : ∀ u, s₁.getJob u j = none → s.getJob u j = none ∨ Q := by
    intro u hnone
    rcases hstep.getJob u j with heq | ⟨hdoomed, -⟩ | ⟨c, -, -, -, hc⟩
    · exact .inl (heq ▸ hnone)
    · exact .inr (h.doomed p hdoomed)
    · rw [hc] at hnone
      cases hnone
  refine ⟨fun job hjob => h.record job ?_, fun u job hjob => ?_, fun q job hjob hid => ?_, fun q u hk hnone => ?_,
    fun q hj => ?_⟩
  · rw [← hprocs]
    exact hjob
  · rcases hstep.getJob u j with heq | ⟨-, hnone⟩ | ⟨c, hc, -, hid, hget'⟩
    · exact h.files u job (heq ▸ hjob)
    · rw [hget, hnone] at hjob
      cases hjob
    · obtain rfl : c.job = job := Option.some.inj (hget'.symm.trans hjob)
      exact h.copies p c.job (by rw [hc]; exact List.mem_cons_self) hid.symm
  · by_cases hq : q = p
    · subst hq
      rw [setSweep_self] at hjob
      obtain ⟨x, hx | ⟨u, i, hx⟩, hrev⟩ := hstep.copies hjob
      · exact hrevise x job (h.copies q x hx (hrev.jobId ▸ hid)) hrev
      · have hi : i = j := (hw.files u i x hx).1.symm.trans (hrev.jobId ▸ hid)
        exact hrevise x job (h.files u x (hi ▸ hx)) hrev
    · exact h.copies q job (hother hq ▸ hjob) hid
  · rcases hgone u hnone with hwas | hQ
    · by_cases hq : q = p
      · subst hq
        rw [setSweep_self] at hk
        rcases hstep.listed hk with hk | hsome
        · exact h.listed q u hk hwas
        · rw [hwas] at hsome
          cases hsome
      · exact h.listed q u (hother hq ▸ hk) hwas
    · exact hQ
  · by_cases hq : q = p
    · subst hq
      rw [setSweep_self] at hj
      rcases hstep.doomed hj with hj | ⟨u, hk, hnone⟩ | ⟨n, u, job, hn, hjob, hremove⟩ | ⟨rfl, c, hc⟩
      · exact h.doomed q hj
      · exact h.listed q u hk hnone
      · exact hold n job (h.files u job hjob) (hclock q n hn) hremove
      · rw [ReadsRecord, hc] at hreads
        exact hreads.elim
    · exact h.doomed q (hother hq ▸ hj)

theorem step (h : Copied s j P Q) (hw : WellFormed cfg s) (hclock : ClocksRead s)
    (hrevise : ∀ x y, P x → Revises s x y → P y)
    (hold : ∀ n job, P job → n ≤ s.now → shouldRemove cfg n job = true → Q)
    (hborn : (s.procs j).pc = .unlock true → (s'.procs j).pc.record ≠ none → P ((s.procs j).request.record j s.now))
    {a : Act} (hreads : ReadsRecord s a) (hstep : step cfg s a = some s') : Copied s' j P Q := by
  cases record_step hstep with
  | tick => exact h.same (.inr rfl) rfl rfl
  | start request =>
    refine h.same ?_ rfl rfl
    by_cases hj : j = s.nextJob
    · subst hj
      exact .inl (by simp [startJob, JobPc.record])
    · exact .inr (by simp [startJob, Function.update_of_ne hj])
  | @job a i s' hpc hframe =>
    refine h.jobStep hw hframe fun job hjob => ?_
    by_cases hij : j = i
    · subst hij
      rcases hpc with heq | hmove
      · exact h.record job (heq ▸ hjob)
      · rcases hmove.record hjob with ⟨x, hx | ⟨u, hx⟩, hrev⟩ | ⟨hunlock, rfl⟩
        · exact hrevise x job (h.record x hx) hrev
        · exact hrevise x job (h.files u x hx) hrev
        · exact hborn hunlock (by simp [hjob])
    · rw [hframe.others j hij] at hjob
      exact h.record job hjob
  | sweep hsweep => exact h.sweepStep hclock hrevise hold hreads hsweep hw
  | action => exact h.same (.inr rfl) rfl rfl

end Copied

/-! ### The age of a record -/

/-- The record was created at `t` and did not end before. -/
structure Fits (t : Nat) (job : CmsJobRecord) : Prop where
  createdAt : job.createdAt = t
  finishedAt : ∀ f, job.finishedAt = some f → t ≤ f

theorem Fits.revises {s : State} {t : Nat} (ht : t ≤ s.now) {x y : CmsJobRecord} (h : Fits t x) (hrev : Revises s x y) :
    Fits t y where
  createdAt := hrev.createdAt.trans h.createdAt
  finishedAt f hf := by
    rcases hrev.finishedAt f hf with hf | rfl
    · exact h.finishedAt f hf
    · exact ht

/-- A record that a purge removes is as old as a queued or running one must be, since the ended ones are kept longer. -/
theorem Fits.stale {t n now : Nat} (hages : cfg.staleRunningJobMs ≤ cfg.jobRetentionMs) {job : CmsJobRecord}
    (h : Fits t job) (hn : n ≤ now) (hremove : shouldRemove cfg n job = true) : t + cfg.staleRunningJobMs ≤ now := by
  unfold shouldRemove at hremove
  split at hremove
  · have hend : t ≤ job.finishedAt.getD job.createdAt := by
      cases hf : job.finishedAt with
      | none => exact Nat.le_of_eq h.createdAt.symm
      | some f => exact h.finishedAt f hf
    have := of_decide_eq_true hremove
    omega
  · have := of_decide_eq_true hremove
    rw [h.createdAt] at this
    omega

/-- The record of job `j` has one age, in all its copies; a purge removes it from the age of `staleRunningJobMs` on. -/
structure Dated (cfg : JobConfig) (s : State) (j : JobId) : Prop where
  unborn : (s.procs j).pc.unborn = true → Copied s j (fun _ => False) False
  born : ∃ t ≤ s.now, Copied s j (Fits t) (t + cfg.staleRunningJobMs ≤ s.now)

theorem JobPc.record_of_unborn {pc : JobPc} (h : pc.unborn = true) : pc.record = none := by
  cases pc <;> first | rfl | cases h

theorem JobMove.unborn {s s₁ : State} {j : JobId} {old new : JobPc} (h : JobMove cfg s j old new s₁)
    (hnew : new.unborn = true) : old.unborn = true := by
  cases h with
  | event hevent =>
    cases hevent with
    | giveUp hlock hadd => cases old <;> first | rfl | cases hadd
    | _ => cases hnew
  | pass | lock | found | free | takeOver | publish => rfl
  | _ => cases hnew

theorem unborn_step {s s' : State} {a : Act} (hw : WellFormed cfg s) (hstep : step cfg s a = some s') {j : JobId}
    (hnew : (s'.procs j).pc.unborn = true) : (s.procs j).pc.unborn = true := by
  rcases pc_step hstep j with heq | ⟨rfl, -⟩ | ⟨s₁, hmove⟩
  · exact heq ▸ hnew
  · rw [hw.fresh _ (Nat.le_refl _)]
    rfl
  · exact hmove.unborn hnew

theorem now_step {s s' : State} {a : Act} (hstep : step cfg s a = some s') : s.now ≤ s'.now := by
  cases record_step hstep with
  | tick => exact Nat.le_add_right _ _
  | start | action => exact Nat.le_refl _
  | job hpc hframe => exact Nat.le_of_eq hframe.now.symm
  | sweep hsweep => exact Nat.le_of_eq hsweep.frame.1.symm

theorem ClocksRead.step {s s' : State} {a : Act} (h : ClocksRead s) (hstep : step cfg s a = some s') :
    ClocksRead s' := by
  intro p n hn
  have hnow := now_step hstep
  cases record_step hstep with
  | tick | start | action => exact Nat.le_trans (h p n hn) hnow
  | job hpc hframe => exact Nat.le_trans (h p n (hframe.sweeps ▸ hn)) hnow
  | @sweep a q new s₁ hsweep =>
    by_cases hp : p = q
    · subst hp
      rw [setSweep_self] at hn
      rcases hsweep.purgeNow hn with hn | rfl
      · exact Nat.le_trans (h p n hn) hnow
      · exact hnow
    · rw [setSweep_of_ne _ _ hp, hsweep.frame.2.2.2] at hn
      exact Nat.le_trans (h p n hn) hnow

theorem Dated.step (hages : cfg.staleRunningJobMs ≤ cfg.jobRetentionMs) {s s' : State} {j : JobId} (h : Dated cfg s j)
    (hw : WellFormed cfg s) (hclock : ClocksRead s) {a : Act} (hreads : ReadsRecord s a)
    (hstep : step cfg s a = some s') : Dated cfg s' j := by
  have hnow := now_step hstep
  -- the record is created now, where it is not there yet
  have hborn : ∃ t ≤ s.now, Copied s j (Fits t) (t + cfg.staleRunningJobMs ≤ s.now) ∧
      ((s.procs j).pc.unborn = true → t = s.now) := by
    by_cases hpc : (s.procs j).pc.unborn = true
    · exact ⟨s.now, Nat.le_refl _, (h.unborn hpc).mono (fun _ hf => hf.elim) False.elim, fun _ => rfl⟩
    · obtain ⟨t, ht, hcopied⟩ := h.born
      exact ⟨t, ht, hcopied, fun hyes => absurd hyes hpc⟩
  constructor
  · intro hnew
    refine (h.unborn (unborn_step hw hstep hnew)).step hw hclock (fun _ _ hf _ => hf) (fun _ _ hf _ _ => hf)
      (fun _ hrecord => ?_) hreads hstep
    exact hrecord (JobPc.record_of_unborn hnew)
  · obtain ⟨t, ht, hcopied, hfresh⟩ := hborn
    refine ⟨t, Nat.le_trans ht hnow, (hcopied.step hw hclock (fun _ _ hfits hrev => hfits.revises ht hrev)
      (fun _ _ hfits hn hremove => hfits.stale hages hn hremove) (fun hunlock _ => ⟨?_, ?_⟩) hreads hstep).mono
      (fun _ hf => hf) fun hq => Nat.le_trans hq hnow⟩
    · exact (hfresh (by rw [hunlock]; rfl)).symm
    · intro f hf
      cases hf

/-! ### The main result -/

/-- The record of a worker that waits for the answer to its CMS task, or polls the task. -/
def JobPc.waiting : JobPc → Option CmsJobRecord
  | .cmsCall job | .uuidSave job => some job
  | _ => none

theorem JobPc.record_of_waiting {pc : JobPc} {job : CmsJobRecord} (h : pc.waiting = some job) :
    pc.record = some job := by
  cases pc <;> cases h <;> rfl

/-- No worker that waits for CMS has the age from which a purge removes its job. -/
def WorkersYoung (cfg : JobConfig) (s : State) : Prop :=
  ∀ j < s.nextJob, ∀ job ∈ (s.procs j).pc.waiting, s.now < job.createdAt + cfg.staleRunningJobMs

instance (s : State) : Decidable (WorkersYoung cfg s) := inferInstanceAs (Decidable (∀ j < _, ∀ job ∈ _, _))

/-- A purge removes a file or an entry while the workers are young, and writes the map that is on disk less the entries
of the job that it removes. -/
def RemovesFit (cfg : JobConfig) (s : State) : Act → Prop
  | .sweepResume p => match s.sweeps p with
    | .purgeUnlink _ _ _ => WorkersYoung cfg s
    | .purgeGlobalWrite _ j ops => WorkersYoung cfg s ∧ SameEntries ops (removeJobId s.globalOps j)
    | _ => True
  | _ => True

/-- No purge fails to read a record, and what it removes fits. -/
def PurgeMeets (cfg : JobConfig) (s : State) (a : Act) : Prop := ReadsRecord s a ∧ RemovesFit cfg s a

instance (s : State) (a : Act) : Decidable (ReadsRecord s a) := by
  delta ReadsRecord
  induction a using Act.casesOn <;> dsimp only <;> try exact .isTrue trivial
  case sweepReject p => generalize s.sweeps p = pc; induction pc using SweepPc.casesOn <;> dsimp only <;> infer_instance

instance (s : State) (a : Act) : Decidable (RemovesFit cfg s a) := by
  delta RemovesFit
  induction a using Act.casesOn <;> dsimp only <;> try exact .isTrue trivial
  case sweepResume p => generalize s.sweeps p = pc; induction pc using SweepPc.casesOn <;> dsimp only <;> infer_instance

instance (s : State) (a : Act) : Decidable (PurgeMeets cfg s a) := inferInstanceAs (Decidable (_ ∧ _))

theorem dated_run (hages : cfg.staleRunningJobMs ≤ cfg.jobRetentionMs) {s₀ s : State} {as : List Act} (hinit : Init s₀)
    (hrun : Run (step cfg) (PurgeMeets cfg) s₀ as s) {j : JobId} (hj : s₀.nextJob ≤ j) : Dated cfg s j := by
  have hfile : ∀ u job, s₀.getJob u j ≠ some job := fun u job hjob =>
    Nat.lt_irrefl _ (Nat.lt_of_le_of_lt hj (hinit.fileIds u j job hjob).2)
  have hcopied : ∀ {P Q}, Copied s₀ j P Q := fun {P Q} =>
    { record := fun job hjob => by simp [hinit.procs j, JobPc.record] at hjob
      files := fun u job hjob => absurd hjob (hfile u job)
      copies := fun p job hjob => by simp [hinit.sweeps p, SweepPc.copies] at hjob
      listed := fun p u hk => by simp [hinit.sweeps p, SweepPc.listed] at hk
      doomed := fun p hd => by simp [hinit.sweeps p, SweepPc.doomed] at hd }
  have hclock : ClocksRead s₀ := fun p n hn => by simp [hinit.sweeps p, SweepPc.purgeNow] at hn
  have hall := hrun.invariant (I := fun s => WellFormed cfg s ∧ ClocksRead s ∧ Dated cfg s j)
    (fun _ _ _ hs hok hstep => ⟨hs.1.step hstep, hs.2.1.step hstep, hs.2.2.step hages hs.1 hs.2.1 hok.1 hstep⟩)
    ⟨.of_init hinit, hclock, fun _ => hcopied, s₀.now, Nat.le_refl _, hcopied⟩
  exact hall.2.2

/-- A purge that removes job `j` does not find its worker waiting for CMS. -/
theorem Dated.not_doomed {s : State} {j : JobId} {p : Nat} (h : Dated cfg s j) (hw : WellFormed cfg s)
    (hyoung : WorkersYoung cfg s) (hwait : (s.procs j).pc.waiting.isSome = true) :
    (s.sweeps p).doomed ≠ some j := by
  intro hdoomed
  obtain ⟨job, hjob⟩ := Option.isSome_iff_exists.1 hwait
  obtain ⟨t, -, hcopied⟩ := h.born
  have hold := hcopied.doomed p hdoomed
  have hdrawn : j < s.nextJob := hw.drawn rfl fun habsent => by simp [habsent, JobPc.waiting] at hwait
  have hnow := hyoung j hdrawn job hjob
  rw [(hcopied.record job (JobPc.record_of_waiting hjob)).createdAt] at hnow
  omega

/-- With the default settings, in a run in which no worker waits for CMS at the age of thirteen hours when a purge
removes something, no purge fails to read a record and no purge writes a map that is out of date, a purge removes
neither the record nor the operations entry of a job whose worker waits for its CMS task or polls it. -/
theorem stale_purge_spares {getHashedValue : String → String} {s₀ s s' : State} {as : List Act} {a : Act} {p : Nat}
    (hinit : Init s₀)
    (hrun : Run (step (defaultConfig getHashedValue)) (PurgeMeets (defaultConfig getHashedValue)) s₀ as s)
    (hok : PurgeMeets (defaultConfig getHashedValue) s a) (hsweep : a.sweep? = some p)
    (hpurge : (s.sweeps p).purgeNow.isSome = true) (hstep : step (defaultConfig getHashedValue) s a = some s')
    {j : JobId} (hwait : (s.procs j).pc.waiting.isSome = true) :
    (∀ u, s'.getJob u j = s.getJob u j) ∧
      ∀ k e, s.globalOps.get? k = some e → e.jobId = j → s'.globalOps.get? k = some e := by
  have hw : WellFormed (defaultConfig getHashedValue) s := .run hrun hinit
  have hj : s₀.nextJob ≤ j := by
    by_contra hlt
    rw [absent_run hrun hinit (Nat.lt_of_not_le hlt)] at hwait
    cases hwait
  have hages : (defaultConfig getHashedValue).staleRunningJobMs ≤ (defaultConfig getHashedValue).jobRetentionMs := by
    simp only [defaultConfig]
    decide
  have hdated := dated_run hages hinit hrun hj
  have hspared : WorkersYoung (defaultConfig getHashedValue) s → (s.sweeps p).doomed ≠ some j :=
    fun hyoung => hdated.not_doomed hw hyoung hwait
  obtain ⟨new, s₁, hmove, rfl⟩ := sweep_step hsweep hstep
  have hfit := hok.2
  generalize hsw : s.sweeps p = old at hmove hpurge hspared
  cases hmove with
  | @unlink c i removeEntries =>
    rw [RemovesFit, hsw] at hfit
    have hne : i ≠ j := fun heq => hspared hfit (congrArg some heq)
    refine ⟨fun u => ?_, fun k e he _ => he⟩
    have hkey : ¬ (u, j) = (c.user, i) := fun heq => hne (Prod.mk.inj heq).2.symm
    simp only [State.getJob, State.setSweep, Dict.get?_erase, if_neg hkey]
  | @purgeGlobalWrite c i ops =>
    rw [RemovesFit, hsw] at hfit
    have hne : i ≠ j := fun heq => hspared hfit.1 (congrArg some heq)
    refine ⟨fun u => rfl, fun k e he hej => ?_⟩
    exact hfit.2.kept he fun heq => hne (heq.symm.trans hej)
  | orphanSave | orphanGlobalWrite => cases hpurge
  | _ => exact ⟨fun u => rfl, fun k e he _ => he⟩

/-- A job that ended a day ago, and one whose worker has just come to its CMS call: a purge comes to remove the first. -/
def purgeBesideWorker : List Act :=
  [.createJob (compactRequest "demodb")] ++ resumes 0 9 ++
    [.cmsAnswer 0 (.succeeded "ok"), .followedUp 0 [] none] ++ resumes 0 5 ++
    [.tick 86400000, .createJob (compactRequest "testdb")] ++ resumes 1 9 ++
    [.purge 0, .listUsers 0 ["dba"], .listFiles 0 [0, 1], .sweepResume 0]

theorem stale_purge_spares_second : ∃ s s', Run (step (defaultConfig id)) (PurgeMeets (defaultConfig id)) State.empty
    purgeBesideWorker s ∧ step (defaultConfig id) s (.sweepResume 0) = some s' ∧
    s.getJob "dba" 0 ≠ none ∧ s'.getJob "dba" 0 = none ∧ s'.getJob "dba" 1 = s.getJob "dba" 1 := by
  have hrun : ∃ s, Run (step (defaultConfig id)) (PurgeMeets (defaultConfig id)) State.empty purgeBesideWorker s ∧
      PurgeMeets (defaultConfig id) s (.sweepResume 0) ∧ (s.sweeps 0).purgeNow.isSome = true ∧
      (s.procs 1).pc.waiting.isSome = true ∧ s.getJob "dba" 0 ≠ none ∧
      ((step (defaultConfig id) s (.sweepResume 0)).any fun s' => s'.getJob "dba" 0 = none) = true :=
    exists_run (by decide)
  obtain ⟨s, hrun, hok, hpurge, hwait, hthere, hgone⟩ := hrun
  obtain ⟨s', hstep, hgone⟩ := (Option.any_eq_true _ _).1 hgone
  exact ⟨s, s', hrun, hstep, hthere, of_decide_eq_true hgone,
    (stale_purge_spares .empty hrun hok rfl hpurge hstep hwait).1 "dba"⟩

/-- The submission is answered a second before its timeout of twelve hours, and the worker polls from then on; an hour
later the hourly purge removes its record and its entry, eleven hours before the deadline of the polling. -/
theorem stale_purge_spares_fails : Init State.empty ∧
    (∃ s s', Run (step (defaultConfig id)) Always State.empty
      ([.createJob (compactRequest "demodb")] ++ resumes 0 9 ++ [.tick 43199000, .cmsUuid 0 "7", .jobResume 0,
        .tick 3601000, .purge 0, .listUsers 0 ["dba"], .listFiles 0 [0]]) s ∧
      s.now = 46800000 ∧ s.getJob "dba" 0 ≠ none ∧ s.globalOps.get? (s.key 0) ≠ none ∧
      Run (step (defaultConfig id)) Always s (List.replicate 5 (.sweepResume 0)) s' ∧
      s'.now = 46800000 ∧ (s'.procs 0).pc.waiting.isSome = true ∧ s'.getJob "dba" 0 = none ∧
      s'.globalOps.get? (s'.key 0) = none) ∧
    ∃ t, Run (CmsTask.step (List.map Char.toLower) (CmsTask.getLongJobCmsTimeoutMs none)) Always
      ⟨0, .start (.submitted true) "compactdb"⟩
      [.event (.host ⟨"10.0.0.1", 8001, none⟩), .tick 43199000,
        .event (.answer (.obj [("uuid", .str "7"), ("job-status", .str "running")])), .event .reported, .tick 500,
        .event .wake, .event (.host ⟨"10.0.0.1", 8001, none⟩), .tick 3600500] t ∧
      t.now = 46800000 ∧ (match t.task.pc with | .pollPost p => decide (t.now + 39599000 = p.deadline) | _ => false) = true := by
  refine ⟨.empty, ?_, exists_run (by decide)⟩
  have hrun : ∃ s, Run (step (defaultConfig id)) Always State.empty
      ([.createJob (compactRequest "demodb")] ++ resumes 0 9 ++ [.tick 43199000, .cmsUuid 0 "7", .jobResume 0,
        .tick 3601000, .purge 0, .listUsers 0 ["dba"], .listFiles 0 [0]]) s ∧
      s.now = 46800000 ∧ s.getJob "dba" 0 ≠ none ∧ s.globalOps.get? (s.key 0) ≠ none ∧
      ((runChecked (step (defaultConfig id)) Always s (List.replicate 5 (.sweepResume 0))).any fun s' =>
        decide (s'.now = 46800000 ∧ (s'.procs 0).pc.waiting.isSome = true ∧ s'.getJob "dba" 0 = none ∧
          s'.globalOps.get? (s'.key 0) = none)) = true := exists_run (by decide)
  obtain ⟨s, hrun, hnow, hfile, hentry, hpurge⟩ := hrun
  obtain ⟨s', hrun', hend⟩ := exists_run hpurge
  exact ⟨s, s', hrun, hnow, hfile, hentry, hrun', hend⟩

end CubridWebManager.Jobs
