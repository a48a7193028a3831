import CubridWebManager.Jobs.Moves
import CubridWebManager.Lib.Run

/-!
# Well-formed states of the job system

The facts that hold in every reachable state, whatever the order of the steps: only the job that holds the lock
`jobs-ops-global` is inside a locked section, every job id in a file, in the operations map or in the hands of a purge
or recovery belongs to a job that will not write the map any more (`Settled`), and a worker handles its own record.
-/

namespace CubridWebManager.Jobs

open Transition

variable {cfg : JobConfig}

namespace State

variable (s : State)

def Active (j : JobId) : Prop := (s.procs j).pc.active = true

instance (j : JobId) : Decidable (s.Active j) := inferInstanceAs (Decidable (_ = true))

/-- `j` is drawn, and does not write the operations map in `createJob` any more. -/
def Settled (j : JobId) : Prop := j < s.nextJob ∧ (s.procs j).pc.mayAdd = false

end State

/-! ### Simp lemmas for the parts of a state -/

section Simp

variable (s : State) (i j : JobId) (pc : JobPc) (p : Nat) (sw : SweepPc) (x : Nat) (a : ActionProc)

@[simp] theorem setPc_self : ((s.setPc j pc).procs j) = { s.procs j with pc := pc } := by simp [State.setPc]

theorem setPc_of_ne {i j : JobId} (h : i ≠ j) : (s.setPc j pc).procs i = s.procs i := by
  simp [State.setPc, Function.update_of_ne h]

@[simp] theorem setPc_request : ((s.setPc j pc).procs i).request = (s.procs i).request := by
  by_cases h : i = j
  · subst h; simp
  · rw [setPc_of_ne _ _ h]

@[simp] theorem setPc_key : (s.setPc j pc).key i = s.key i := by simp [State.key]
@[simp] theorem setPc_entryOf : entryOf cfg (s.setPc j pc) i = entryOf cfg s i := by simp [entryOf]
@[simp] theorem setPc_globalOps : (s.setPc j pc).globalOps = s.globalOps := rfl
@[simp] theorem setPc_files : (s.setPc j pc).files = s.files := rfl
@[simp] theorem setPc_lockHolder : (s.setPc j pc).lockHolder = s.lockHolder := rfl
@[simp] theorem setPc_nextJob : (s.setPc j pc).nextJob = s.nextJob := rfl
@[simp] theorem setPc_sweeps : (s.setPc j pc).sweeps = s.sweeps := rfl
@[simp] theorem setPc_getJob (u : String) : (s.setPc j pc).getJob u i = s.getJob u i := rfl
@[simp] theorem setSweep_self : (s.setSweep p sw).sweeps p = sw := by simp [State.setSweep]
theorem setSweep_of_ne {p q : Nat} (h : q ≠ p) : (s.setSweep p sw).sweeps q = s.sweeps q := by
  simp [State.setSweep, Function.update_of_ne h]

theorem getJob_saveJob (u u' : String) (job : CmsJobRecord) :
    (s.saveJob u job).getJob u' i = if u' = u ∧ i = job.jobId then some job else s.getJob u' i := by
  simp [State.saveJob, State.getJob, Dict.get?_set]

end Simp

/-! ### The invariant -/

/-- Every id in the map is settled. -/
def OpsSettled (s : State) (ops : GlobalOps) : Prop := ∀ k e, ops.get? k = some e → s.Settled e.jobId

/-- What a call in progress holds: its own record, and a map of settled ids (and, before its write, its own entry). -/
structure PcWf (cfg : JobConfig) (s : State) (j : JobId) (pc : JobPc) : Prop where
  record : ∀ job, pc.record = some job → job.jobId = j
  snapshot : ∀ ops, pc.snapshot = some ops → ∀ k e, ops.get? k = some e → s.Settled e.jobId ∨ k = s.key j ∧
    e = entryOf cfg s j ∧ pc.mayAdd = true

structure WellFormed (cfg : JobConfig) (s : State) : Prop where
  lock : ∀ j, (s.procs j).pc.holdsLock = true → s.lockHolder = some j
  fresh : ∀ j, s.nextJob ≤ j → (s.procs j).pc = .absent
  files : ∀ u j job, s.getJob u j = some job → job.jobId = j ∧ s.Settled j
  ops : OpsSettled s s.globalOps
  procs : ∀ j, PcWf cfg s j (s.procs j).pc
  sweeps : ∀ p, ∀ i ∈ (s.sweeps p).ids, s.Settled i
  snapshots : ∀ p j ops, (s.sweeps p).removing = some (j, ops) → OpsSettled s ops

/-! ### Each change of the state keeps it -/

theorem PcWf.of_none {s : State} {j : JobId} {pc : JobPc} (hr : pc.record = none) (hs : pc.snapshot = none) :
    PcWf cfg s j pc :=
  ⟨fun job h => by simp [hr] at h, fun ops h => by simp [hs] at h⟩

theorem PcWf.mono {s s' : State} {j : JobId} {pc : JobPc} (h : PcWf cfg s j pc)
    (hset : ∀ i, s.Settled i → s'.Settled i) (hkey : s'.key j = s.key j)
    (hentry : entryOf cfg s' j = entryOf cfg s j) : PcWf cfg s' j pc := by
  refine ⟨h.record, fun ops hops k e he => ?_⟩
  rw [hkey, hentry]
  exact (h.snapshot ops hops k e he).imp_left (hset _)

theorem OpsSettled.erase {s : State} {ops : GlobalOps} (h : OpsSettled s ops) (k : OperationKey) :
    OpsSettled s (ops.erase k) := by
  intro k' e he
  rw [Dict.get?_erase] at he
  split at he
  · cases he
  · exact h k' e he

theorem get?_removeJobId (ops : GlobalOps) (j : JobId) (k : OperationKey) :
    (removeJobId ops j).get? k = (ops.get? k).filter fun e => e.jobId ≠ j := Dict.get?_filter _ ops k

theorem OpsSettled.removeJobId {s : State} {ops : GlobalOps} (h : OpsSettled s ops) (j : JobId) :
    OpsSettled s (removeJobId ops j) := by
  intro k e he
  rw [get?_removeJobId, Option.filter_eq_some_iff] at he
  exact h k e he.1

namespace WellFormed

variable {s : State}

theorem settled_setPc {j : JobId} {pc : JobPc} (hadd : pc.mayAdd = true → (s.procs j).pc.mayAdd = true) {i : JobId}
    (hi : s.Settled i) : (s.setPc j pc).Settled i := by
  refine ⟨hi.1, ?_⟩
  by_cases hij : i = j
  · subst hij
    have := hi.2
    simp only [setPc_self]
    cases hm : pc.mayAdd <;> simp_all
  · rw [setPc_of_ne _ _ hij]
    exact hi.2

variable (h : WellFormed cfg s)
include h

theorem drawn {j : JobId} {pc : JobPc} (hpc : (s.procs j).pc = pc) (hne : pc ≠ .absent) : j < s.nextJob := by
  by_contra hlt
  exact hne (hpc ▸ h.fresh j (Nat.le_of_not_lt hlt))

theorem setPc {j : JobId} {pc : JobPc} (hj : j < s.nextJob) (hlock : pc.holdsLock = true → s.lockHolder = some j)
    (hadd : pc.mayAdd = true → (s.procs j).pc.mayAdd = true) (hpc : PcWf cfg s j pc) :
    WellFormed cfg (s.setPc j pc) := by
  have hset : ∀ i, s.Settled i → (s.setPc j pc).Settled i := fun i hi => settled_setPc hadd hi
  refine ⟨fun i hi => ?_, fun i hi => ?_, fun u i job hjob => ?_, fun k e he => hset _ (h.ops k e he), fun i => ?_,
    fun p i hi => hset i (h.sweeps p i hi), fun p i ops hops k e he => hset _ (h.snapshots p i ops hops k e he)⟩
  · by_cases hij : i = j
    · subst hij
      exact hlock (by simpa using hi)
    · rw [setPc_of_ne _ _ hij] at hi
      exact h.lock i hi
  · have hij : i ≠ j := fun hij => Nat.lt_irrefl _ (Nat.lt_of_lt_of_le hj (hij ▸ hi))
    rw [setPc_of_ne _ _ hij]
    exact h.fresh i hi
  · exact ⟨(h.files u i job hjob).1, hset i (h.files u i job hjob).2⟩
  · by_cases hij : i = j
    · subst hij
      rw [setPc_self]
      exact hpc.mono hset (by simp) (by simp)
    · rw [setPc_of_ne _ _ hij]
      exact (h.procs i).mono hset (by simp) (by simp)

theorem acquire (j : JobId) (hnone : s.lockHolder = none) : WellFormed cfg { s with lockHolder := some j } :=
  ⟨fun i hi => by simp [h.lock i hi] at hnone, h.fresh, h.files, h.ops,
    fun i => (h.procs i).mono (fun _ hi => hi) rfl rfl, h.sweeps, h.snapshots⟩

theorem release {j : JobId} (hheld : s.lockHolder = some j) (hj : (s.procs j).pc.holdsLock = false) :
    WellFormed cfg { s with lockHolder := none } := by
  refine ⟨fun i hi => ?_, h.fresh, h.files, h.ops, fun i => (h.procs i).mono (fun _ hi => hi) rfl rfl, h.sweeps,
    h.snapshots⟩
  have hij : i = j := by simpa [h.lock i hi] using hheld
  subst hij
  simp [hj] at hi

theorem setOps {ops : GlobalOps} (hops : OpsSettled s ops) : WellFormed cfg { s with globalOps := ops } :=
  ⟨h.lock, h.fresh, h.files, hops, fun i => (h.procs i).mono (fun _ hi => hi) rfl rfl, h.sweeps, h.snapshots⟩

theorem saveJob (u : String) {job : CmsJobRecord} (hjob : s.Settled job.jobId) :
    WellFormed cfg (s.saveJob u job) := by
  refine ⟨h.lock, h.fresh, fun u' i job' hi => ?_, h.ops, fun i => (h.procs i).mono (fun _ hi => hi) rfl rfl,
    h.sweeps, h.snapshots⟩
  rw [getJob_saveJob] at hi
  split at hi
  · rename_i heq
    cases hi
    exact ⟨heq.2.symm, heq.2 ▸ hjob⟩
  · exact h.files u' i job' hi

theorem eraseFile (k : String × JobId) : WellFormed cfg { s with files := s.files.erase k } := by
  refine ⟨h.lock, h.fresh, fun u i job hi => ?_, h.ops, fun i => (h.procs i).mono (fun _ hi => hi) rfl rfl,
    h.sweeps, h.snapshots⟩
  simp only [State.getJob, Dict.get?_erase] at hi
  split at hi
  · cases hi
  · exact h.files u i job hi

theorem setSweep {p : Nat} {sw : SweepPc} (hids : ∀ i ∈ sw.ids, s.Settled i)
    (hsnap : ∀ j ops, sw.removing = some (j, ops) → OpsSettled s ops) : WellFormed cfg (s.setSweep p sw) := by
  refine ⟨h.lock, h.fresh, h.files, h.ops, fun i => (h.procs i).mono (fun _ hi => hi) rfl rfl, fun q i hi => ?_,
    fun q k ops hops => ?_⟩
  · by_cases hq : q = p
    · subst hq
      rw [setSweep_self] at hi
      exact hids i hi
    · rw [setSweep_of_ne _ _ hq] at hi
      exact h.sweeps q i hi
  · by_cases hq : q = p
    · subst hq
      rw [setSweep_self] at hops
      exact hsnap k ops hops
    · rw [setSweep_of_ne _ _ hq] at hops
      exact h.snapshots q k ops hops

/-- The clock, the action lock and the actions play no part. -/
theorem frame {now nextAction : Nat} {running : Dict String String} {actions : Nat → ActionProc} :
    WellFormed cfg { s with now := now, running := running, nextAction := nextAction, actions := actions } :=
  ⟨h.lock, h.fresh, h.files, h.ops, fun i => (h.procs i).mono (fun _ hi => hi) rfl rfl, h.sweeps, h.snapshots⟩

theorem startJob (request : JobRequest) : WellFormed cfg (startJob s request) := by
  have hne : ∀ {i}, s.Settled i → i ≠ s.nextJob := fun hi => Nat.ne_of_lt hi.1
  have hprocs : ∀ {i}, i ≠ s.nextJob → (Jobs.startJob s request).procs i = s.procs i := fun hi => by
    simp [Jobs.startJob, Function.update_of_ne hi]
  have hset : ∀ i, s.Settled i → (Jobs.startJob s request).Settled i := fun i hi =>
    ⟨Nat.lt_succ_of_lt hi.1, by rw [hprocs (hne hi)]; exact hi.2⟩
  refine ⟨fun i hi => ?_, fun i hi => ?_, fun u i job hjob => ?_, fun k e he => hset _ (h.ops k e he), fun i => ?_,
    fun p i hi => hset i (h.sweeps p i hi), fun p i ops hops k e he => hset _ (h.snapshots p i ops hops k e he)⟩
  · by_cases hij : i = s.nextJob
    · subst hij
      simp [Jobs.startJob, JobPc.holdsLock] at hi
    · rw [hprocs hij] at hi
      exact h.lock i hi
  · have hle : s.nextJob + 1 ≤ i := hi
    rw [hprocs (Nat.ne_of_gt hle)]
    exact h.fresh i (Nat.le_of_succ_le hle)
  · exact ⟨(h.files u i job hjob).1, hset i (h.files u i job hjob).2⟩
  · by_cases hij : i = s.nextJob
    · subst hij
      simpa [Jobs.startJob] using PcWf.of_none rfl rfl
    · rw [hprocs hij]
      exact (h.procs i).mono hset (by simp [State.key, hprocs hij]) (by simp [entryOf, hprocs hij])

/-! ### Every move keeps it -/

theorem pcWf {j : JobId} {pc : JobPc} (hpc : (s.procs j).pc = pc) : PcWf cfg s j pc := hpc ▸ h.procs j

/-- The record in a call's hand is of its own job. -/
theorem record_jobId {j : JobId} {job : CmsJobRecord} (hjob : (s.procs j).pc.record = some job) : job.jobId = j :=
  (h.procs j).record job hjob

/-- The map a call is about to write, when it is done with adding to it. -/
theorem snapshot_settled {j : JobId} {ops : GlobalOps} (hops : (s.procs j).pc.snapshot = some ops)
    {s' : State} (hset : ∀ i, s.Settled i → s'.Settled i)
    (hown : (s.procs j).pc.mayAdd = true → s'.Settled j) : OpsSettled s' ops := by
  intro k e he
  rcases (h.procs j).snapshot ops hops k e he with hold | ⟨-, rfl, hadd⟩
  · exact hset _ hold
  · exact hown hadd

/-- A call that moves inside or outside the locked sections, with no map in its hand. -/
theorem move {j : JobId} {old new : JobPc} (hpc : (s.procs j).pc = old) (hne : old ≠ .absent)
    (hlock : new.holdsLock = true → old.holdsLock = true) (hadd : new.mayAdd = true → old.mayAdd = true)
    (hrecord : ∀ job, new.record = some job → job.jobId = j) (hsnap : new.snapshot = none) :
    WellFormed cfg (s.setPc j new) :=
  h.setPc (h.drawn hpc hne) (fun hl => h.lock j (hpc ▸ hlock hl)) (hpc ▸ hadd)
    ⟨hrecord, fun ops hops => by simp [hsnap] at hops⟩

/-- A call that moves inside its locked section, with a map in its hand. -/
theorem moveSnapshot {j : JobId} {old new : JobPc} {ops : GlobalOps} (hpc : (s.procs j).pc = old)
    (hne : old ≠ .absent) (hlock : old.holdsLock = true) (hadd : new.mayAdd = true → old.mayAdd = true)
    (hrecord : new.record = none) (hsnap : new.snapshot = some ops)
    (hops : ∀ k e, ops.get? k = some e → s.Settled e.jobId ∨ k = s.key j ∧ e = entryOf cfg s j ∧ new.mayAdd = true) :
    WellFormed cfg (s.setPc j new) := by
  refine h.setPc (h.drawn hpc hne) (fun _ => h.lock j (hpc ▸ hlock)) (hpc ▸ hadd)
    ⟨fun job hjob => by simp [hrecord] at hjob, fun ops' hops' => ?_⟩
  rw [hsnap] at hops'
  cases hops'
  exact hops

/-- A call that stores the record in its hand and moves on. -/
theorem moveSave {j : JobId} {old new : JobPc} {job : CmsJobRecord} (u : String) (hpc : (s.procs j).pc = old)
    (hne : old ≠ .absent) (hrecord : old.record = some job) (hadd : new.mayAdd = false)
    (hnew : WellFormed cfg (s.setPc j new)) : WellFormed cfg ((s.saveJob u job).setPc j new) := by
  have hj : job.jobId = j := h.record_jobId (hpc ▸ hrecord)
  refine hnew.saveJob u ?_
  rw [hj]
  exact ⟨h.drawn hpc hne, by simpa using hadd⟩

/-- The call that holds the lock lets it go and moves on. -/
theorem moveRelease {j : JobId} {old new : JobPc} (hpc : (s.procs j).pc = old) (hheld : old.holdsLock = true)
    (hfree : new.holdsLock = false) (hnew : WellFormed cfg (s.setPc j new)) :
    WellFormed cfg ({ s with lockHolder := none }.setPc j new) :=
  hnew.release (h.lock j (hpc ▸ hheld)) (by simpa using hfree)

section

attribute [local simp] JobPc.holdsLock JobPc.mayAdd JobPc.record

theorem jobEvent {j : JobId} {old new : JobPc} (hpc : (s.procs j).pc = old) (hevent : JobEvent old new) :
    WellFormed cfg (s.setPc j new) := by
  have hrec : ∀ job, old.record = some job → job.jobId = j := fun job hjob => h.record_jobId (hpc ▸ hjob)
  cases hevent with
  | giveUp hlock hadd =>
    exact h.move hpc (by rintro rfl; simp at hlock) (fun _ => hlock) (fun _ => hadd)
      (by simp) rfl
  | @uuid job uuid =>
    refine h.move hpc (by simp) (by simp) (by simp) ?_ rfl
    rintro _ ⟨⟩
    exact hrec job rfl
  | uuidKnown => exact h.move hpc (by simp) (by simp) (by simp) hrec rfl
  | @answered job job' hid =>
    refine h.move hpc (by simp) (by simp) (by simp) ?_ rfl
    rintro _ ⟨⟩
    exact hid.trans (hrec job rfl)
  | @finish old job job' hold hrecord hid =>
    refine h.move hpc (by rintro rfl; simp [JobPc.working] at hold) (by simp)
      (by simp) ?_ rfl
    rintro _ ⟨⟩
    exact hid.trans (hrec _ hrecord)
  | stop hold =>
    exact h.move hpc (by rintro rfl; simp [JobPc.stops] at hold) (by simp) (by simp)
      (by simp) rfl
  | releaseSkip hold =>
    exact h.move hpc (by rintro rfl; simp [JobPc.releases] at hold) (fun _ => JobPc.holdsLock_of_releases hold)
      (by simp) (by simp) rfl

theorem jobMove {j : JobId} {old new : JobPc} {s₁ : State} (hpc : (s.procs j).pc = old)
    (hmove : JobMove cfg s j old new s₁) : WellFormed cfg (s₁.setPc j new) := by
  have hrec : ∀ job, old.record = some job → job.jobId = j := fun job hjob => h.record_jobId (hpc ▸ hjob)
  cases hmove with
  | event hevent => exact h.jobEvent hpc hevent
  | pass hfree =>
    exact h.move hpc (by simp) (by simp) (by simp) (by simp) rfl
  | lock hnone =>
    exact (h.acquire j hnone).setPc (h.drawn hpc (by simp)) (fun _ => rfl) (by simp [hpc])
      (.of_none rfl rfl)
  | found hget =>
    exact h.moveSnapshot hpc (by simp) rfl (by simp) rfl rfl fun k e he => .inl (h.ops k e he)
  | free hget =>
    refine h.moveSnapshot hpc (by simp) rfl (by simp) rfl rfl fun k e he => ?_
    rw [Dict.get?_set] at he
    split at he
    · rename_i hk
      cases he
      exact .inr ⟨hk, rfl, rfl⟩
    · exact .inl (h.ops k e he)
  | @takeOver ops existing hstale =>
    refine h.moveSnapshot hpc (by simp) rfl (by simp) rfl rfl fun k e he => ?_
    rw [Dict.get?_set] at he
    split at he
    · rename_i hk
      cases he
      exact .inr ⟨hk, rfl, rfl⟩
    · rw [Dict.get?_erase] at he
      split at he
      · cases he
      · exact (h.pcWf hpc).snapshot ops rfl k e he
  | @publish ops existing =>
    have hnew : WellFormed cfg (s.setPc j (.unlock true)) :=
      h.move hpc (by simp) (fun _ => rfl) (by simp) (by simp) rfl
    refine hnew.setOps (h.snapshot_settled (by rw [hpc]; rfl) ?_ fun _ => ?_)
    · exact fun i hi => settled_setPc (by simp) hi
    · exact ⟨h.drawn hpc (by simp), by simp⟩
  | passed =>
    exact h.moveRelease hpc rfl rfl
      (h.move hpc (by simp) (by simp) (by simp) (by rintro _ ⟨⟩; rfl) rfl)
  | refused =>
    exact h.moveRelease hpc rfl rfl
      (h.move hpc (by simp) (by simp) (by simp) (by simp) rfl)
  | saved =>
    exact h.moveSave _ hpc (by simp) rfl rfl
      (h.move hpc (by simp) (by simp) (by simp) (by simp) rfl)
  | run =>
    exact h.move hpc (by simp) (by simp) (by simp) (by simp) rfl
  | loaded hget =>
    refine h.move hpc (by simp) (by simp) (by simp) ?_ rfl
    rintro _ ⟨⟩
    exact (h.files _ _ _ hget).1
  | started =>
    exact h.moveSave _ hpc (by simp) rfl rfl
      (h.move hpc (by simp) (by simp) (by simp) hrec rfl)
  | uuidSaved =>
    exact h.moveSave _ hpc (by simp) rfl rfl
      (h.move hpc (by simp) (by simp) (by simp) hrec rfl)
  | outcomeSaved =>
    exact h.moveSave _ hpc (by simp) rfl rfl
      (h.move hpc (by simp) (by simp) (by simp) (by simp) rfl)
  | releaseLock hnone =>
    exact (h.acquire j hnone).setPc (h.drawn hpc (by simp)) (fun _ => rfl) (by simp)
      (.of_none rfl rfl)
  | releaseFound hget hown =>
    exact h.moveSnapshot hpc (by simp) rfl (by simp) rfl rfl
      fun k e he => .inl (h.ops.erase _ k e he)
  | @release ops =>
    have hnew : WellFormed cfg (s.setPc j .releaseUnlock) :=
      h.move hpc (by simp) (fun _ => rfl) (by simp) (by simp) rfl
    refine hnew.setOps (h.snapshot_settled (by rw [hpc]; rfl) ?_ fun hadd => ?_)
    · exact fun i hi => settled_setPc (by simp) hi
    · simp [hpc] at hadd
  | released =>
    exact h.moveRelease hpc rfl rfl
      (h.move hpc (by simp) (by simp) (by simp) (by simp) rfl)

end

theorem keepsIds {p : Nat} {sw : SweepPc} (hids : KeepsIds s p sw) : ∀ i ∈ sw.ids, s.Settled i := by
  intro i hi
  rcases hids i hi with hold | ⟨u, k, job, hjob, hi | hi⟩
  · exact h.sweeps p i hold
  · exact hi ▸ (h.files u k job hjob).2
  · rw [hi, (h.files u k job hjob).1]
    exact (h.files u k job hjob).2

theorem walk {p : Nat} {sw : SweepPc} (hwalk : SweepWalk s p sw) : WellFormed cfg (s.setSweep p sw) :=
  h.setSweep (h.keepsIds hwalk.ids) fun j ops hops => by simp [hwalk.quiet] at hops

theorem sweepMove {p : Nat} {sw : SweepPc} {s₁ : State} (hmove : SweepMove s p s₁ sw) :
    WellFormed cfg (s₁.setSweep p sw) := by
  cases hmove with
  | walk hwalk => exact h.walk hwalk
  | unlink k hwalk => exact (h.walk hwalk).eraseFile k
  | @save sw user job hsaving hwalk =>
    refine (h.walk hwalk).saveJob user (h.sweeps p _ ?_)
    cases hsw : s.sweeps p <;> simp_all [SweepPc.saving, SweepPc.ids]
  | @read sw j hids hread =>
    refine h.setSweep (h.keepsIds hids) fun i ops hops => ?_
    rw [hread] at hops
    cases hops
    exact h.ops.removeJobId j
  | write hremoving hwalk => exact (h.walk hwalk).setOps (h.snapshots p _ _ hremoving)

/-- Every step keeps the invariant. -/
theorem step {a : Act} {s' : State} (hstep : step cfg s a = some s') : WellFormed cfg s' := by
  cases step_move hstep with
  | start request => exact h.startJob request
  | job hmove => exact h.jobMove rfl hmove
  | event hact hevent => exact h.jobEvent rfl hevent
  | sweep hmove => exact h.sweepMove hmove
  | walk hact hwalk => exact h.walk hwalk
  | tick | startAction | action => exact h.frame

omit h in
theorem of_init (h : Init s) : WellFormed cfg s where
  lock j hj := by simp [h.procs j, JobPc.holdsLock] at hj
  fresh j _ := h.procs j
  files u j job hjob := ⟨(h.fileIds u j job hjob).1, (h.fileIds u j job hjob).2, by simp [h.procs j, JobPc.mayAdd]⟩
  ops k e he := ⟨h.opIds k e he, by simp [h.procs, JobPc.mayAdd]⟩
  procs j := by
    rw [h.procs j]
    exact .of_none rfl rfl
  sweeps p i hi := by simp [h.sweeps p, SweepPc.ids] at hi
  snapshots p j ops hops := by simp [h.sweeps p, SweepPc.removing] at hops

omit h in
/-- Every reachable state is well formed. -/
theorem run {ok : State → Act → Prop} {as : List Act} {s' : State} (hrun : Run (Jobs.step cfg) ok s as s')
    (hinit : Init s) : WellFormed cfg s' :=
  hrun.invariant (fun _ _ _ hs _ hstep => hs.step hstep) (of_init hinit)

end WellFormed

/-! ### Jobs stay settled, and keep their key -/

theorem settled_of_procs {s s' : State} {i : JobId} (hprocs : s'.procs = s.procs) (hnext : s'.nextJob = s.nextJob)
    (hi : s.Settled i) : s'.Settled i := by
  rwa [State.Settled, hprocs, hnext]

/-- A job that does not write the map in `createJob` any more never does. -/
theorem settled_step {s s' : State} {a : Act} (hstep : step cfg s a = some s') {i : JobId} (hi : s.Settled i) :
    s'.Settled i := by
  cases step_move hstep with
  | start request =>
    have hne : i ≠ s.nextJob := Nat.ne_of_lt hi.1
    refine ⟨Nat.lt_succ_of_lt hi.1, ?_⟩
    simpa [startJob, Function.update_of_ne hne] using hi.2
  | job hmove =>
    exact WellFormed.settled_setPc (by rw [hmove.procs]; exact hmove.mayAdd)
      (settled_of_procs hmove.procs hmove.nextJob hi)
  | event hact hevent => exact WellFormed.settled_setPc (by simp [hevent.mayAdd]) hi
  | sweep hmove => exact settled_of_procs hmove.procs hmove.nextJob hi
  | walk | tick | startAction | action => exact hi

/-- A call keeps its arguments. -/
theorem request_step {s s' : State} {a : Act} (hstep : step cfg s a = some s') {j : JobId} (hj : j < s.nextJob) :
    (s'.procs j).request = (s.procs j).request := by
  cases step_move hstep with
  | start request => simp [startJob, Function.update_of_ne (Nat.ne_of_lt hj)]
  | job hmove => simp [hmove.procs]
  | event hact hevent => simp
  | sweep hmove => exact congrArg (fun procs => (procs j).request) hmove.procs
  | walk | tick | startAction | action => rfl

end CubridWebManager.Jobs
