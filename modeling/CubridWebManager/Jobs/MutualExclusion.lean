import CubridWebManager.Jobs.WellFormed

/-!
# Two jobs on one database

The entry of a job is published under the lock `jobs-ops-global`, its record only after the lock is released, and a
missing record makes an entry stale.  So `createJob` can take over the entry of a job that has just passed
(`exclusive_fails`), and a purge, which rewrites the map without the lock, can drop the entry of an active job.

Where neither happens (`KeepsActiveEntries`), the lock does its work: every active job's entry is in the map
(`Registered`), and no two active jobs have one key.  The invariant that carries this says that the map in the hand
of a locked section has the entries of all active jobs, and that the record of an active job, if it is on disk, is not
terminal.
-/

namespace CubridWebManager.Jobs

open Transition

variable {cfg : JobConfig}

/-- The entry whose job's record the locked section is reading. -/
def JobPc.existing : JobPc → Option OpEntry
  | .existingRead _ existing => some existing
  | _ => none

/-- The step finds the record of no active job missing, drops no active job's entry from the map, and gives no active
job's record an outcome. -/
def KeepsActiveEntries (s : State) : Act → Prop
  | .jobResume j =>
    ∀ e ∈ (s.procs j).pc.existing, s.Active e.jobId → (s.getJob e.userKey e.jobId).isSome = true
  | .sweepResume p =>
    (∀ r ∈ (s.sweeps p).removing, ∀ e ∈ s.globalOps.entries, s.Active e.2.jobId → r.2.get? e.1 = some e.2) ∧
      ∀ r ∈ (s.sweeps p).saving, ¬ s.Active r.2.jobId
  | _ => True

instance (s : State) (a : Act) : Decidable (KeepsActiveEntries s a) :=
  match a with
  | .jobResume _ | .sweepResume _ => by unfold KeepsActiveEntries; infer_instance
  | .tick _ | .createJob _ | .jobReject _ _ | .cmsUuid _ _ | .cmsAnswer _ _ | .followedUp _ _ _ | .purge _ | .recover _
  | .listUsers _ _ | .listFiles _ _ | .sweepReject _ | .reconciled _ _ | .startAction _ _ _ | .actionResume _
  | .actionHaList _ _ | .actionEnd _ => isTrue trivial

/-! ### The invariant -/

/-- The record in the hand of a call whose job's outcome is not known. -/
def JobPc.unfinished : JobPc → Option CmsJobRecord
  | .recordSave job | .runningSave job | .cmsCall job | .uuidSave job => some job
  | _ => none

/-- The entries of all active jobs are in the map. -/
def HasActive (cfg : JobConfig) (s : State) (ops : GlobalOps) : Prop :=
  ∀ i, s.Active i → ops.get? (s.key i) = some (entryOf cfg s i)

structure PcExclusive (cfg : JobConfig) (s : State) (j : JobId) (pc : JobPc) : Prop where
  snapshot : ∀ ops, pc.snapshot = some ops → HasActive cfg s ops
  own : ∀ ops existing, pc = .opsWrite ops existing → ops.get? (s.key j) = some (entryOf cfg s j)
  found : ∀ ops existing, pc = .existingRead ops existing → ops.get? (s.key j) = some existing
  unfinished : ∀ job, pc.unfinished = some job → isTerminalJobStatus job.status = false

structure Exclusive (cfg : JobConfig) (s : State) : Prop where
  registered : HasActive cfg s s.globalOps
  records : ∀ i, s.Active i → ∀ job, s.getJob (entryOf cfg s i).userKey i = some job →
    isTerminalJobStatus job.status = false
  procs : ∀ j, PcExclusive cfg s j (s.procs j).pc

theorem PcExclusive.of_quiet {s : State} {j : JobId} {pc : JobPc} (hsnap : pc.snapshot = none)
    (hunf : ∀ job, pc.unfinished = some job → isTerminalJobStatus job.status = false) : PcExclusive cfg s j pc where
  snapshot ops hops := by simp [hsnap] at hops
  own ops existing hpc := by rw [hpc] at hsnap; cases hsnap
  found ops existing hpc := by rw [hpc] at hsnap; cases hsnap
  unfinished := hunf

theorem PcExclusive.mono {s s' : State} {j : JobId} {pc : JobPc} (h : PcExclusive cfg s j pc)
    (hact : ∀ i, s'.Active i → s.Active i) (hkey : ∀ i, s'.key i = s.key i)
    (hentry : ∀ i, entryOf cfg s' i = entryOf cfg s i) : PcExclusive cfg s' j pc where
  snapshot ops hops i hi := by
    rw [hkey, hentry]
    exact h.snapshot ops hops i (hact i hi)
  own ops existing hpc := by
    rw [hkey, hentry]
    exact h.own ops existing hpc
  found ops existing hpc := by
    rw [hkey]
    exact h.found ops existing hpc
  unfinished := h.unfinished

theorem JobPc.holdsLock_of_snapshot {pc : JobPc} {ops : GlobalOps} (h : pc.snapshot = some ops) :
    pc.holdsLock = true := by
  cases pc <;> simp_all [JobPc.snapshot, JobPc.holdsLock]

namespace Exclusive

variable {s : State}

/-- Two active jobs with one key are one job: the map has one entry for it. -/
theorem eq_of_key (h : Exclusive cfg s) {i j : JobId} (hi : s.Active i) (hj : s.Active j) (hkey : s.key i = s.key j) :
    i = j := by
  have hentry : some (entryOf cfg s i) = some (entryOf cfg s j) := by
    rw [← h.registered i hi, ← h.registered j hj, hkey]
  exact congrArg OpEntry.jobId (Option.some.inj hentry)

/-! ### Each change of the state keeps it -/

theorem active_setPc {i j : JobId} {pc : JobPc} (hact : pc.active = true → s.Active j)
    (hi : (s.setPc j pc).Active i) : s.Active i := by
  by_cases hij : i = j
  · subst hij
    exact hact (by simpa [State.Active] using hi)
  · rwa [State.Active, setPc_of_ne _ _ hij] at hi

theorem setPc (h : Exclusive cfg s) {j : JobId} {pc : JobPc} (hact : pc.active = true → s.Active j)
    (hpc : PcExclusive cfg s j pc) : Exclusive cfg (s.setPc j pc) := by
  have hsub : ∀ i, (s.setPc j pc).Active i → s.Active i := fun i hi => active_setPc hact hi
  refine ⟨fun i hi => ?_, fun i hi job hjob => ?_, fun i => ?_⟩
  · simpa using h.registered i (hsub i hi)
  · exact h.records i (hsub i hi) job (by simpa using hjob)
  · by_cases hij : i = j
    · subst hij
      rw [setPc_self]
      exact hpc.mono hsub (by simp) (by simp)
    · rw [setPc_of_ne _ _ hij]
      exact (h.procs i).mono hsub (by simp) (by simp)

theorem setOps (h : Exclusive cfg s) {ops : GlobalOps} (hops : HasActive cfg s ops) :
    Exclusive cfg { s with globalOps := ops } :=
  ⟨hops, h.records, fun i => (h.procs i).mono (fun _ hi => hi) (fun _ => rfl) fun _ => rfl⟩

theorem setLock (h : Exclusive cfg s) (holder : Option JobId) : Exclusive cfg { s with lockHolder := holder } :=
  ⟨h.registered, h.records, fun i => (h.procs i).mono (fun _ hi => hi) (fun _ => rfl) fun _ => rfl⟩

theorem setSweep (h : Exclusive cfg s) (p : Nat) (sw : SweepPc) : Exclusive cfg (s.setSweep p sw) :=
  ⟨h.registered, h.records, fun i => (h.procs i).mono (fun _ hi => hi) (fun _ => rfl) fun _ => rfl⟩

theorem frame (h : Exclusive cfg s) {now nextAction : Nat} {running : Dict String String}
    {actions : Nat → ActionProc} :
    Exclusive cfg { s with now := now, running := running, nextAction := nextAction, actions := actions } :=
  ⟨h.registered, h.records, fun i => (h.procs i).mono (fun _ hi => hi) (fun _ => rfl) fun _ => rfl⟩

theorem saveJob (h : Exclusive cfg s) (u : String) {job : CmsJobRecord}
    (hjob : s.Active job.jobId → isTerminalJobStatus job.status = false) : Exclusive cfg (s.saveJob u job) := by
  refine ⟨h.registered, fun i hi job' hjob' => ?_,
    fun i => (h.procs i).mono (fun _ hi => hi) (fun _ => rfl) fun _ => rfl⟩
  rw [getJob_saveJob] at hjob'
  split at hjob'
  · rename_i heq
    cases hjob'
    exact hjob (heq.2 ▸ hi)
  · exact h.records i hi job' hjob'

theorem eraseFile (h : Exclusive cfg s) (k : String × JobId) :
    Exclusive cfg { s with files := s.files.erase k } := by
  refine ⟨h.registered, fun i hi job hjob => ?_,
    fun i => (h.procs i).mono (fun _ hi => hi) (fun _ => rfl) fun _ => rfl⟩
  simp only [State.getJob, Dict.get?_erase] at hjob
  split at hjob
  · cases hjob
  · exact h.records i hi job hjob

theorem startJob (h : Exclusive cfg s) (request : JobRequest) :
    Exclusive cfg (startJob s request) := by
  have hprocs : ∀ {i}, i ≠ s.nextJob → (Jobs.startJob s request).procs i = s.procs i := fun hi => by
    simp [Jobs.startJob, Function.update_of_ne hi]
  have hne : ∀ {i}, (Jobs.startJob s request).Active i → i ≠ s.nextJob := by
    rintro i hi rfl
    simp [State.Active, Jobs.startJob, JobPc.active] at hi
  have hact : ∀ {i}, (Jobs.startJob s request).Active i → s.Active i := fun hi => by
    rwa [State.Active, hprocs (hne hi)] at hi
  have hhas : ∀ ops, HasActive cfg s ops → HasActive cfg (Jobs.startJob s request) ops := fun ops hops i hi => by
    simpa [State.key, entryOf, hprocs (hne hi)] using hops i (hact hi)
  refine ⟨hhas _ h.registered, fun i hi job hjob => ?_, fun i => ?_⟩
  · refine h.records i (hact hi) job ?_
    rw [entryOf, hprocs (hne hi)] at hjob
    exact hjob
  · by_cases hi : i = s.nextJob
    · subst hi
      simpa [Jobs.startJob] using PcExclusive.of_quiet rfl (by simp [JobPc.unfinished])
    · rw [hprocs hi]
      have hpc := h.procs i
      refine ⟨fun ops hops => hhas ops (hpc.snapshot ops hops), ?_, ?_, hpc.unfinished⟩
      · simpa [State.key, entryOf, hprocs hi] using hpc.own
      · simpa [State.key, hprocs hi] using hpc.found

/-! ### Every move keeps it -/

/-- An active job whose key has an entry in the map is the job of that entry. -/
theorem eq_existing {i : JobId} (hi : s.Active i) {k : OperationKey} {e : OpEntry} {ops : GlobalOps}
    (hhas : HasActive cfg s ops) (hget : ops.get? k = some e) (hkey : s.key i = k) :
    e = entryOf cfg s i := by
  have hreg := hhas i hi
  rw [hkey, hget] at hreg
  exact Option.some.inj hreg

/-- The job that writes its entry becomes active: it has no record yet, and the map it writes has all entries. -/
theorem publish (h : Exclusive cfg s) (hw : WellFormed cfg s) {j : JobId} {ops : GlobalOps}
    {existing : Option OpEntry} (hpc : (s.procs j).pc = .opsWrite ops existing) :
    Exclusive cfg ({ s with globalOps := ops }.setPc j (.unlock true)) := by
  have hhas : HasActive cfg ({ s with globalOps := ops }.setPc j (.unlock true)) ops := by
    intro i hi
    by_cases hij : i = j
    · subst hij
      rw [setPc_key, setPc_entryOf]
      exact (h.procs i).own ops existing hpc
    · have hi : s.Active i := by rwa [State.Active, setPc_of_ne _ _ hij] at hi
      rw [setPc_key, setPc_entryOf]
      exact (h.procs j).snapshot ops (by rw [hpc]; rfl) i hi
  refine ⟨hhas, fun i hi job hjob => ?_, fun i => ?_⟩
  · rw [setPc_entryOf] at hjob
    have hjob : s.getJob (entryOf cfg s i).userKey i = some job := hjob
    by_cases hij : i = j
    · subst hij
      have hsettled := (hw.files _ _ _ hjob).2.2
      simp [hpc, JobPc.mayAdd] at hsettled
    · have hi : s.Active i := by rwa [State.Active, setPc_of_ne _ _ hij] at hi
      exact h.records i hi job hjob
  · by_cases hij : i = j
    · subst hij
      rw [setPc_self]
      exact .of_quiet rfl (by simp [JobPc.unfinished])
    · rw [setPc_of_ne _ _ hij]
      -- only the holder of the lock has a map in its hand
      have hsnap : (s.procs i).pc.snapshot = none := by
        by_contra hne
        obtain ⟨ops', hops'⟩ := Option.ne_none_iff_exists'.1 hne
        have hi := hw.lock i (JobPc.holdsLock_of_snapshot hops')
        have hj := hw.lock j (by simp [hpc, JobPc.holdsLock])
        exact hij (Option.some.inj (hi.symm.trans hj))
      exact .of_quiet hsnap (h.procs i).unfinished

section

attribute [local simp] JobPc.active JobPc.unfinished

theorem jobEvent (h : Exclusive cfg s) {j : JobId} {old new : JobPc} (hpc : (s.procs j).pc = old)
    (hevent : JobEvent old new) : Exclusive cfg (s.setPc j new) := by
  have hactive : old.active = true → s.Active j := fun ha => by rw [State.Active, hpc]; exact ha
  have hunf := (h.procs j).unfinished
  rw [hpc] at hunf
  cases hevent with
  | giveUp hlock hadd => exact h.setPc (by simp) (.of_quiet rfl (by simp))
  | @uuid job uuid =>
    refine h.setPc (fun _ => hactive rfl) (.of_quiet rfl ?_)
    rintro _ ⟨⟩
    exact hunf job rfl
  | uuidKnown => exact h.setPc (fun _ => hactive rfl) (.of_quiet rfl hunf)
  | answered hid => exact h.setPc (fun _ => hactive rfl) (.of_quiet rfl (by simp))
  | finish hold hrecord hid =>
    refine h.setPc (fun _ => hactive ?_) (.of_quiet rfl (by simp))
    cases old <;> simp_all [JobPc.working]
  | stop hold => exact h.setPc (by simp) (.of_quiet rfl (by simp))
  | releaseSkip hold => exact h.setPc (by simp) (.of_quiet rfl (by simp))

theorem jobMove (h : Exclusive cfg s) (hw : WellFormed cfg s) {j : JobId} {old new : JobPc} {s₁ : State}
    (hpc : (s.procs j).pc = old) (hmove : JobMove cfg s j old new s₁)
    (hok : ∀ e ∈ old.existing, s.Active e.jobId → (s.getJob e.userKey e.jobId).isSome = true) :
    Exclusive cfg (s₁.setPc j new) := by
  have hactive : old.active = true → s.Active j := fun ha => by rw [State.Active, hpc]; exact ha
  have hnot : old.active = false → ¬ s.Active j := fun ha hj => by rw [State.Active, hpc, ha] at hj; cases hj
  have hunf := (h.procs j).unfinished
  rw [hpc] at hunf
  cases hmove with
  | event hevent => exact h.jobEvent hpc hevent
  | pass hfree => exact h.setPc (by simp) (.of_quiet rfl (by simp))
  | lock hnone => exact (h.setLock _).setPc (by simp) (.of_quiet rfl (by simp))
  | @found existing hget =>
    refine h.setPc (by simp) ⟨?_, by simp, ?_, by simp⟩
    · rintro _ ⟨⟩
      exact h.registered
    · rintro _ _ ⟨⟩
      exact hget
  | free hget =>
    refine h.setPc (by simp) ⟨?_, ?_, by simp, by simp⟩
    · rintro _ ⟨⟩ i hi
      have hreg := h.registered i hi
      have hne : s.key i ≠ s.key j := fun hkey => by rw [hkey, hget] at hreg; cases hreg
      rw [Dict.get?_set, if_neg hne, hreg]
    · rintro _ _ ⟨⟩
      exact Dict.get?_set_self _ _ _
  | @takeOver ops existing hstale =>
    have hhas := (h.procs j).snapshot ops (by rw [hpc]; rfl)
    have hfound := (h.procs j).found ops existing hpc
    refine h.setPc (by simp) ⟨?_, ?_, by simp, by simp⟩
    · rintro _ ⟨⟩ i hi
      have hne : s.key i ≠ s.key j := by
        intro hkey
        have he := eq_existing hi hhas hfound hkey
        subst he
        obtain ⟨job, hjob⟩ := Option.isSome_iff_exists.1 (hok _ rfl hi)
        have hjob' : s.getJob (entryOf cfg s i).userKey i = some job := hjob
        simp [isStale, hjob, h.records i hi job hjob'] at hstale
      rw [Dict.get?_set, if_neg hne, Dict.get?_erase, if_neg hne]
      exact hhas i hi
    · rintro _ _ ⟨⟩
      exact Dict.get?_set_self _ _ _
  | publish => exact h.publish hw hpc
  | passed =>
    refine (h.setLock none).setPc (fun _ => hactive rfl) (.of_quiet rfl ?_)
    rintro _ ⟨⟩
    rfl
  | refused => exact (h.setLock none).setPc (by simp) (.of_quiet rfl (by simp))
  | @saved job =>
    refine (h.saveJob _ fun _ => hunf job rfl).setPc (fun _ => hactive rfl) (.of_quiet rfl (by simp))
  | run => exact h.setPc (fun _ => hactive rfl) (.of_quiet rfl (by simp))
  | loaded hget =>
    refine h.setPc (fun _ => hactive rfl) (.of_quiet rfl ?_)
    rintro _ ⟨⟩
    rfl
  | @started job =>
    exact (h.saveJob _ fun _ => hunf job rfl).setPc (fun _ => hactive rfl) (.of_quiet rfl hunf)
  | @uuidSaved job =>
    exact (h.saveJob _ fun _ => hunf job rfl).setPc (fun _ => hactive rfl) (.of_quiet rfl hunf)
  | @outcomeSaved job =>
    have hnew : Exclusive cfg (s.setPc j .releaseWait) :=
      h.setPc (by simp) (.of_quiet rfl (by simp))
    refine hnew.saveJob _ fun hact => ?_
    rw [hw.record_jobId (hpc ▸ rfl : (s.procs j).pc.record = some job)] at hact
    simp [State.Active] at hact
  | releaseLock hnone =>
    exact (h.setLock _).setPc (by simp) (.of_quiet rfl (by simp))
  | @releaseFound e hget hown =>
    refine h.setPc (by simp) ⟨?_, by simp, by simp, by simp⟩
    rintro _ ⟨⟩ i hi
    have hne : s.key i ≠ s.key j := by
      intro hkey
      have he := eq_existing hi h.registered hget hkey
      have hij : i = j := by rw [← hown, he]; rfl
      exact hnot rfl (hij ▸ hi)
    rw [Dict.get?_erase, if_neg hne]
    exact h.registered i hi
  | @release ops =>
    exact (h.setOps ((h.procs j).snapshot ops (by rw [hpc]; rfl))).setPc (by simp)
      (.of_quiet rfl (by simp))
  | released => exact (h.setLock none).setPc (by simp) (.of_quiet rfl (by simp))

end

theorem sweepMove (h : Exclusive cfg s) {p : Nat} {sw : SweepPc} {s₁ : State} (hmove : SweepMove s p s₁ sw)
    (hok : KeepsActiveEntries s (.sweepResume p)) : Exclusive cfg (s₁.setSweep p sw) := by
  cases hmove with
  | walk hwalk | read hids hread => exact h.setSweep p sw
  | unlink k hwalk => exact (h.eraseFile k).setSweep p sw
  | save hsaving hwalk =>
    exact (h.saveJob _ fun hact => absurd hact (hok.2 _ hsaving)).setSweep p sw
  | write hremoving hwalk =>
    refine (h.setOps fun i hi => ?_).setSweep p sw
    exact hok.1 _ hremoving _ (Dict.get?_eq_some_iff.1 (h.registered i hi)) hi

theorem step (h : Exclusive cfg s) (hw : WellFormed cfg s) {a : Act} {s' : State} (hok : KeepsActiveEntries s a)
    (hstep : step cfg s a = some s') : Exclusive cfg s' := by
  cases step_move hstep with
  | start request => exact h.startJob request
  | job hmove => exact h.jobMove hw rfl hmove hok
  | event hact hevent => exact h.jobEvent rfl hevent
  | sweep hmove => exact h.sweepMove hmove hok
  | walk hact hwalk => exact h.setSweep _ _
  | tick | startAction | action => exact h.frame

theorem of_init (h : Init s) : Exclusive cfg s where
  registered i hi := by simp [State.Active, h.procs i, JobPc.active] at hi
  records i hi := by simp [State.Active, h.procs i, JobPc.active] at hi
  procs j := by
    rw [h.procs j]
    exact .of_quiet rfl (by simp [JobPc.unfinished])

/-- Every state of a run that keeps the entries of active jobs is exclusive. -/
theorem run {s₀ : State} {as : List Act} (hrun : Run (Jobs.step cfg) KeepsActiveEntries s₀ as s) (hinit : Init s₀) :
    Exclusive cfg s := by
  have hboth := hrun.invariant (I := fun s => WellFormed cfg s ∧ Exclusive cfg s)
    (fun _ _ _ hs hok hstep => ⟨hs.1.step hstep, hs.2.step hs.1 hok hstep⟩) ⟨.of_init hinit, of_init hinit⟩
  exact hboth.2

end Exclusive

/-! ### The main result -/

/-- In a run whose steps find no active job's record missing and drop no active job's entry, two active jobs never have
the same host and lock database. -/
theorem active_jobs_exclusive {s₀ s : State} {as : List Act} (hinit : Init s₀)
    (hrun : Run (step cfg) KeepsActiveEntries s₀ as s) {i j : JobId} (hi : s.Active i) (hj : s.Active j)
    (hkey : s.key i = s.key j) : i = j :=
  (Exclusive.run hrun hinit).eq_of_key hi hj hkey

/-- Jobs on two databases pass, and a third one, on the first database, is refused. -/
def threeJobs : List Act :=
  [.createJob (compactRequest "demodb"), .createJob (compactRequest "testdb"), .createJob (compactRequest "demodb")] ++
    resumes 0 6 ++ resumes 1 6 ++ resumes 2 5

theorem active_jobs_exclusive_three : ∃ s, Run (step plainConfig) KeepsActiveEntries State.empty threeJobs s ∧
    (s.Active 0 ∧ s.Active 1) ∧ ∀ j, s.Active j → s.key 0 = s.key j → 0 = j := by
  have hrun : ∃ s, Run (step plainConfig) KeepsActiveEntries State.empty threeJobs s ∧ s.Active 0 ∧ s.Active 1 :=
    exists_run (by decide)
  obtain ⟨s, hrun, hactive⟩ := hrun
  exact ⟨s, hrun, hactive, fun j hj hkey => active_jobs_exclusive .empty hrun hactive.1 hj hkey⟩

/-- Two calls for one database pass when the second comes between the first one's entry and its record. -/
theorem active_jobs_exclusive_fails : Init State.empty ∧ ∃ s, Run (step plainConfig) Always State.empty
    ([.createJob (compactRequest "demodb"), .createJob (compactRequest "demodb")] ++
      resumes 0 5 ++ resumes 1 5) s ∧
    s.Active 0 ∧ s.Active 1 ∧ s.key 0 = s.key 1 :=
  ⟨.empty, exists_run (by decide)⟩

end CubridWebManager.Jobs
