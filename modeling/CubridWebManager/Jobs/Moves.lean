import CubridWebManager.Jobs.Step

/-!
# What a step of the job system can do

The steps of a job call, of a purge or recovery and of the whole system, as relations: `JobMove` has a constructor for
every kind of transition of a `createJob` call or its worker, with the guard it passed and what it writes, and
`SweepMove` does the same for the purges and recoveries.  `step_move` says that every step is one of these, so the
invariants are proved by cases on the moves and never unfold the step functions.
-/

namespace CubridWebManager.Jobs

variable {cfg : JobConfig}

/-! ### The points a call waits at -/

namespace JobPc

/-- Inside a locked section. -/
def holdsLock : JobPc → Bool
  | .opsRead | .existingRead _ _ | .opsWrite _ _ | .unlock _ | .releaseRead | .releaseWrite _ | .releaseUnlock => true
  | _ => false

/-- Before the write of the operations map in `createJob`. -/
def mayAdd : JobPc → Bool
  | .hostLookup | .lockWait | .opsRead | .existingRead _ _ | .opsWrite _ _ => true
  | _ => false

/-- About to write the new entry. -/
def publishing : JobPc → Bool
  | .opsWrite _ _ => true
  | _ => false

/-- The job passed the locked section of `createJob`, and its worker, still to run or running, has not stored the
outcome: the job is queued or running. -/
def active : JobPc → Bool
  | .unlock passed => passed
  | .recordSave _ | .scheduled | .jobRead | .runningSave _ | .cmsCall _ | .uuidSave _ | .followUps _
  | .outcomeSave _ => true
  | _ => false

/-- The outcome of the job is completed from this point. -/
def working : JobPc → Bool
  | .cmsCall _ | .uuidSave _ | .followUps _ => true
  | _ => false

/-- The points at which an error ends the call, outside the locked sections. -/
def stops : JobPc → Bool
  | .hostLookup | .lockWait | .recordSave _ | .jobRead | .runningSave _ | .outcomeSave _ | .releaseWait => true
  | _ => false

/-- Inside the locked section of the release. -/
def releases : JobPc → Bool
  | .releaseRead | .releaseWrite _ => true
  | _ => false

/-- The record the call holds. -/
def record : JobPc → Option CmsJobRecord
  | .recordSave job | .runningSave job | .cmsCall job | .uuidSave job | .followUps job | .outcomeSave job => some job
  | _ => none

/-- The operations map the call holds. -/
def snapshot : JobPc → Option GlobalOps
  | .existingRead ops _ | .opsWrite ops _ | .releaseWrite ops => some ops
  | _ => none

end JobPc

namespace State

/-- The key job `j` registers under. -/
def key (s : State) (j : JobId) : OperationKey := (s.procs j).request.operationKey

end State

/-- The entry job `j` writes. -/
def entryOf (cfg : JobConfig) (s : State) (j : JobId) : OpEntry := (s.procs j).request.entry cfg j

/-! ### The moves of a job call -/

/-- The moves of a call that write nothing and take no map in hand: an error, an answer of CMS, or a check that
refuses. -/
inductive JobEvent : JobPc → JobPc → Prop
  | giveUp {old : JobPc} (hlock : old.holdsLock = true) (hadd : old.mayAdd = true) : JobEvent old (.unlock false)
  | uuid {job : CmsJobRecord} {uuid : String} :
    JobEvent (.cmsCall job) (.uuidSave { job with cmsUuid := some uuid })
  | uuidKnown {job : CmsJobRecord} : JobEvent (.cmsCall job) (.cmsCall job)
  | answered {job job' : CmsJobRecord} (hid : job'.jobId = job.jobId) : JobEvent (.cmsCall job) (.followUps job')
  | finish {old : JobPc} {job job' : CmsJobRecord} (hold : old.working = true) (hrecord : old.record = some job)
    (hid : job'.jobId = job.jobId) : JobEvent old (.outcomeSave job')
  | stop {old : JobPc} (hold : old.stops = true) : JobEvent old .ended
  | releaseSkip {old : JobPc} (hold : old.releases = true) : JobEvent old .releaseUnlock

/-- `JobMove cfg s j old new s₁`: the call of job `j` moves from `old` to `new`, and what it writes on the way makes
`s` into `s₁`. -/
inductive JobMove (cfg : JobConfig) (s : State) (j : JobId) : JobPc → JobPc → State → Prop
  | event {old new : JobPc} (hevent : JobEvent old new) : JobMove cfg s j old new s
  | pass (hfree : busyDatabase s.running (s.procs j).request.hostKey [(s.procs j).request.lockDbname] = none) :
    JobMove cfg s j .hostLookup .lockWait s
  | lock (hnone : s.lockHolder = none) : JobMove cfg s j .lockWait .opsRead { s with lockHolder := some j }
  | found {existing : OpEntry} (hget : s.globalOps.get? (s.key j) = some existing) :
    JobMove cfg s j .opsRead (.existingRead s.globalOps existing) s
  | free (hget : s.globalOps.get? (s.key j) = none) :
    JobMove cfg s j .opsRead (.opsWrite (s.globalOps.set (s.key j) (entryOf cfg s j)) none) s
  | takeOver {ops : GlobalOps} {existing : OpEntry} (hstale : isStale (s.getJob existing.userKey existing.jobId)) :
    JobMove cfg s j (.existingRead ops existing)
      (.opsWrite ((ops.erase (s.key j)).set (s.key j) (entryOf cfg s j)) (some existing)) s
  | publish {ops : GlobalOps} {existing : Option OpEntry} :
    JobMove cfg s j (.opsWrite ops existing) (.unlock true) { s with globalOps := ops }
  | passed : JobMove cfg s j (.unlock true) (.recordSave ((s.procs j).request.record j s.now))
      { s with lockHolder := none }
  | refused : JobMove cfg s j (.unlock false) .ended { s with lockHolder := none }
  | saved {job : CmsJobRecord} : JobMove cfg s j (.recordSave job) .scheduled (s.saveJob (entryOf cfg s j).userKey job)
  | run : JobMove cfg s j .scheduled .jobRead s
  | loaded {job : CmsJobRecord} (hget : s.getJob (entryOf cfg s j).userKey j = some job) :
    JobMove cfg s j .jobRead (.runningSave { job with status := .running, startedAt := some s.now }) s
  | started {job : CmsJobRecord} :
    JobMove cfg s j (.runningSave job) (.cmsCall job) (s.saveJob (entryOf cfg s j).userKey job)
  | uuidSaved {job : CmsJobRecord} :
    JobMove cfg s j (.uuidSave job) (.cmsCall job) (s.saveJob (entryOf cfg s j).userKey job)
  | outcomeSaved {job : CmsJobRecord} :
    JobMove cfg s j (.outcomeSave job) .releaseWait (s.saveJob (entryOf cfg s j).userKey job)
  | releaseLock (hnone : s.lockHolder = none) :
    JobMove cfg s j .releaseWait .releaseRead { s with lockHolder := some j }
  | releaseFound {e : OpEntry} (hget : s.globalOps.get? (s.key j) = some e) (hown : e.jobId = j) :
    JobMove cfg s j .releaseRead (.releaseWrite (s.globalOps.erase (s.key j))) s
  | release {ops : GlobalOps} : JobMove cfg s j (.releaseWrite ops) .releaseUnlock { s with globalOps := ops }
  | released : JobMove cfg s j .releaseUnlock .ended { s with lockHolder := none }

theorem JobPc.holdsLock_of_releases {pc : JobPc} (h : pc.releases = true) : pc.holdsLock = true := by
  cases pc <;> simp_all [JobPc.releases, JobPc.holdsLock]

theorem JobEvent.snapshot {old new : JobPc} (h : JobEvent old new) : new.snapshot = none := by
  cases h <;> rfl

theorem JobEvent.mayAdd {old new : JobPc} (h : JobEvent old new) : new.mayAdd = false := by
  cases h <;> rfl

/-- A call that is past its write of the map in `createJob` does not come back to it. -/
theorem JobMove.mayAdd {s s₁ : State} {j : JobId} {old new : JobPc} (h : JobMove cfg s j old new s₁)
    (hnew : new.mayAdd = true) : old.mayAdd = true := by
  cases h with
  | event hevent => simp [hevent.mayAdd] at hnew
  | _ => first | rfl | simp [JobPc.mayAdd] at hnew

theorem JobMove.procs {s s₁ : State} {j : JobId} {old new : JobPc} (h : JobMove cfg s j old new s₁) :
    s₁.procs = s.procs := by
  cases h <;> rfl

theorem JobMove.nextJob {s s₁ : State} {j : JobId} {old new : JobPc} (h : JobMove cfg s j old new s₁) :
    s₁.nextJob = s.nextJob := by
  cases h <;> rfl

theorem JobMove.sweeps {s s₁ : State} {j : JobId} {old new : JobPc} (h : JobMove cfg s j old new s₁) :
    s₁.sweeps = s.sweeps := by
  cases h <;> rfl

theorem JobMove.actions {s s₁ : State} {j : JobId} {old new : JobPc} (h : JobMove cfg s j old new s₁) :
    s₁.actions = s.actions ∧ s₁.nextAction = s.nextAction := by
  cases h <;> exact ⟨rfl, rfl⟩

theorem applyCmsOutcome_jobId (job : CmsJobRecord) (outcome : CmsOutcome) :
    (applyCmsOutcome job outcome).jobId = job.jobId := by
  cases outcome <;> rfl

theorem resumeJob_move {s s' : State} {j : JobId} (hstep : resumeJob cfg s j = some s') :
    ∃ new s₁, JobMove cfg s j (s.procs j).pc new s₁ ∧ s' = s₁.setPc j new := by
  cases hpc : (s.procs j).pc with
  | hostLookup =>
    simp only [resumeJob, hpc, Option.some.injEq] at hstep
    subst hstep
    split
    · exact ⟨_, _, .event (.stop rfl), rfl⟩
    · rename_i hfree
      exact ⟨_, _, .pass (by simpa using hfree), rfl⟩
  | lockWait =>
    simp only [resumeJob, hpc, Option.ite_none_right_eq_some, Option.some.injEq] at hstep
    obtain ⟨hnone, rfl⟩ := hstep
    exact ⟨_, _, .lock hnone, rfl⟩
  | opsRead =>
    simp only [resumeJob, hpc] at hstep
    split at hstep
    · rename_i existing hget
      cases hstep
      exact ⟨_, _, .found hget, rfl⟩
    · rename_i hget
      cases hstep
      exact ⟨_, _, .free hget, rfl⟩
  | existingRead ops existing =>
    simp only [resumeJob, hpc] at hstep
    split at hstep
    · rename_i hstale
      cases hstep
      exact ⟨_, _, .takeOver hstale, rfl⟩
    · cases hstep
      exact ⟨_, _, .event (.giveUp rfl rfl), rfl⟩
  | unlock passed =>
    simp only [resumeJob, hpc, Option.some.injEq] at hstep
    subst hstep
    cases passed with
    | true => exact ⟨_, _, .passed, rfl⟩
    | false => exact ⟨_, _, .refused, rfl⟩
  | jobRead =>
    simp only [resumeJob, hpc] at hstep
    split at hstep
    · cases hstep
      exact ⟨_, _, .event (.stop rfl), rfl⟩
    · rename_i job hget
      cases hstep
      exact ⟨_, _, .loaded hget, rfl⟩
  | releaseWait =>
    simp only [resumeJob, hpc, Option.ite_none_right_eq_some, Option.some.injEq] at hstep
    obtain ⟨hnone, rfl⟩ := hstep
    exact ⟨_, _, .releaseLock hnone, rfl⟩
  | releaseRead =>
    simp only [resumeJob, hpc] at hstep
    split at hstep
    · rename_i hany
      obtain ⟨e, hget, hown⟩ := (Option.any_eq_true _ _).1 hany
      cases hstep
      exact ⟨_, _, .releaseFound hget (by simpa using hown), rfl⟩
    · cases hstep
      exact ⟨_, _, .event (.releaseSkip rfl), rfl⟩
  | opsWrite =>
    simp only [resumeJob, hpc, Option.some.injEq] at hstep
    exact ⟨_, _, .publish, hstep.symm⟩
  | recordSave =>
    simp only [resumeJob, hpc, Option.some.injEq] at hstep
    exact ⟨_, _, .saved, hstep.symm⟩
  | scheduled =>
    simp only [resumeJob, hpc, Option.some.injEq] at hstep
    exact ⟨_, _, .run, hstep.symm⟩
  | runningSave =>
    simp only [resumeJob, hpc, Option.some.injEq] at hstep
    exact ⟨_, _, .started, hstep.symm⟩
  | uuidSave =>
    simp only [resumeJob, hpc, Option.some.injEq] at hstep
    exact ⟨_, _, .uuidSaved, hstep.symm⟩
  | outcomeSave =>
    simp only [resumeJob, hpc, Option.some.injEq] at hstep
    exact ⟨_, _, .outcomeSaved, hstep.symm⟩
  | releaseWrite =>
    simp only [resumeJob, hpc, Option.some.injEq] at hstep
    exact ⟨_, _, .release, hstep.symm⟩
  | releaseUnlock =>
    simp only [resumeJob, hpc, Option.some.injEq] at hstep
    exact ⟨_, _, .released, hstep.symm⟩
  | absent | cmsCall | followUps | ended => simp [resumeJob, hpc] at hstep

theorem finishJob_event {s : State} {j : JobId} {old : JobPc} {job job' : CmsJobRecord} (hold : old.working = true)
    (hrecord : old.record = some job) (hid : job'.jobId = job.jobId) :
    ∃ new, JobEvent old new ∧ s.finishJob j job' = s.setPc j new :=
  ⟨.outcomeSave { job' with finishedAt := some s.now }, .finish hold hrecord hid, rfl⟩

theorem rejectJob_event {s s' : State} {j : JobId} {message : String} (hstep : rejectJob s j message = some s') :
    ∃ new, JobEvent (s.procs j).pc new ∧ s' = s.setPc j new := by
  cases hpc : (s.procs j).pc with
  | hostLookup | lockWait | recordSave | jobRead | runningSave | outcomeSave | releaseWait =>
    simp only [rejectJob, hpc, Option.some.injEq] at hstep
    exact ⟨_, .stop rfl, hstep.symm⟩
  | opsRead | existingRead | opsWrite =>
    simp only [rejectJob, hpc, Option.some.injEq] at hstep
    exact ⟨_, .giveUp rfl rfl, hstep.symm⟩
  | releaseRead | releaseWrite =>
    simp only [rejectJob, hpc, Option.some.injEq] at hstep
    exact ⟨_, .releaseSkip rfl, hstep.symm⟩
  | cmsCall job | uuidSave job | followUps job =>
    simp only [rejectJob, hpc, Option.some.injEq] at hstep
    subst hstep
    exact finishJob_event rfl rfl rfl
  | absent | unlock | scheduled | releaseUnlock | ended => simp [rejectJob, hpc] at hstep

theorem setPc_pc (s : State) (j : JobId) : s.setPc j (s.procs j).pc = s := by
  simp [State.setPc]

theorem receiveUuid_event {s s' : State} {j : JobId} {uuid : String} (hstep : receiveUuid s j uuid = some s') :
    ∃ new, JobEvent (s.procs j).pc new ∧ s' = s.setPc j new := by
  unfold receiveUuid at hstep
  split at hstep
  · rename_i job hpc
    rw [hpc]
    split at hstep
    · cases hstep
      exact ⟨_, .uuidKnown, by rw [← hpc, setPc_pc]⟩
    · cases hstep
      exact ⟨_, .uuid, rfl⟩
  · cases hstep

theorem receiveAnswer_event {s s' : State} {j : JobId} {outcome : CmsOutcome}
    (hstep : receiveAnswer s j outcome = some s') :
    ∃ new, JobEvent (s.procs j).pc new ∧ s' = s.setPc j new := by
  unfold receiveAnswer at hstep
  split at hstep
  · rename_i job hpc
    rw [hpc]
    split at hstep
    · cases hstep
      exact ⟨_, .answered (applyCmsOutcome_jobId _ _), rfl⟩
    · cases hstep
      exact finishJob_event rfl rfl (applyCmsOutcome_jobId job _)
  · cases hstep

theorem finishFollowUps_event {s s' : State} {j : JobId} {warnings : List String} {startInfo : Option String}
    (hstep : finishFollowUps s j warnings startInfo = some s') :
    ∃ new, JobEvent (s.procs j).pc new ∧ s' = s.setPc j new := by
  unfold finishFollowUps at hstep
  split at hstep
  · rename_i job hpc
    rw [hpc]
    cases hstep
    exact finishJob_event rfl rfl rfl
  · cases hstep

/-! ### The moves of a purge or recovery -/

/-- The ids of the jobs that a purge or recovery has read the record of. -/
def SweepPc.ids : SweepPc → List JobId
  | .purgeUnlink _ j removeEntries => if removeEntries then [j] else []
  | .purgeUserOps _ j | .purgeGlobalRead _ j | .purgeGlobalWrite _ j _ => [j]
  | .recoveryDir _ orphans => orphans.map (·.2.jobId)
  | .recoveryRead c _ => c.jobs.map (·.jobId) ++ c.orphans.map (·.2.jobId)
  | .reconcile rest _ job => job.jobId :: rest.map (·.2.jobId)
  | .orphanSave c | .orphanUserOps c | .orphanGlobalRead c | .orphanGlobalWrite c _ =>
    c.job.jobId :: c.rest.map (·.2.jobId)
  | _ => []

/-- The job whose entry a purge or recovery is about to remove, with the map it is about to write. -/
def SweepPc.removing : SweepPc → Option (JobId × GlobalOps)
  | .purgeGlobalWrite _ j ops => some (j, ops)
  | .orphanGlobalWrite c ops => some (c.job.jobId, ops)
  | _ => none

theorem SweepPc.mem_ids_of_removing {sw : SweepPc} {j : JobId} {ops : GlobalOps} (h : sw.removing = some (j, ops)) :
    j ∈ sw.ids := by
  cases sw <;> simp_all [SweepPc.removing, SweepPc.ids]

/-- The record an orphan recovery is about to store, with the user it stores it for. -/
def SweepPc.saving : SweepPc → Option (String × CmsJobRecord)
  | .orphanSave c => some (c.user, c.job)
  | _ => none

theorem PurgeCursor.next_ids (c : PurgeCursor) : c.next.ids = [] := by
  unfold PurgeCursor.next
  split
  · rfl
  · split <;> rfl

theorem PurgeCursor.next_removing (c : PurgeCursor) : c.next.removing = none := by
  unfold PurgeCursor.next
  split
  · rfl
  · split <;> rfl

theorem nextOrphan_ids (now : Nat) (orphans : List (String × CmsJobRecord)) :
    (nextOrphan now orphans).ids = orphans.map (·.2.jobId) := by
  unfold nextOrphan
  split
  · rfl
  · split <;> rfl

theorem nextOrphan_removing (now : Nat) (orphans : List (String × CmsJobRecord)) :
    (nextOrphan now orphans).removing = none := by
  unfold nextOrphan
  split
  · rfl
  · split <;> rfl

/-- The ids of the records a recovery has read so far. -/
def RecoveryCursor.ids (c : RecoveryCursor) : List JobId := c.jobs.map (·.jobId) ++ c.orphans.map (·.2.jobId)

theorem RecoveryCursor.userOrphans_ids {c : RecoveryCursor} {i : JobId}
    (hi : i ∈ c.userOrphans.map (·.2.jobId)) : i ∈ c.jobs.map (·.jobId) := by
  simp only [userOrphans, List.map_map, List.mem_map, List.mem_filter, List.mem_mergeSort] at hi ⊢
  obtain ⟨job, ⟨hjob, -⟩, rfl⟩ := hi
  exact ⟨job, hjob, rfl⟩

theorem RecoveryCursor.next_ids {c : RecoveryCursor} {now : Nat} {i : JobId} (hi : i ∈ (c.next now).ids) :
    i ∈ c.ids := by
  unfold RecoveryCursor.next at hi
  split at hi
  · exact hi
  · have hsub : i ∈ (c.orphans ++ c.userOrphans).map (·.2.jobId) → i ∈ c.ids := fun hi => by
      rw [List.map_append, List.mem_append] at hi
      exact List.mem_append.2 (hi.elim .inr fun hi => .inl (userOrphans_ids hi))
    split at hi
    · rw [nextOrphan_ids] at hi
      exact hsub hi
    · exact hsub hi

theorem RecoveryCursor.next_removing (c : RecoveryCursor) (now : Nat) : (c.next now).removing = none := by
  unfold RecoveryCursor.next
  split
  · rfl
  · split
    · exact nextOrphan_removing _ _
    · rfl

/-- The ids of `sw` are those that the purge or recovery `p` holds already, and ids of files. -/
def KeepsIds (s : State) (p : Nat) (sw : SweepPc) : Prop :=
  ∀ i ∈ sw.ids, i ∈ (s.sweeps p).ids ∨ ∃ u k job, s.getJob u k = some job ∧ (i = k ∨ i = job.jobId)

theorem KeepsIds.of_subset {s : State} {p : Nat} {sw : SweepPc} (h : ∀ i ∈ sw.ids, i ∈ (s.sweeps p).ids) :
    KeepsIds s p sw := fun i hi => .inl (h i hi)

theorem KeepsIds.of_nil {s : State} {p : Nat} {sw : SweepPc} (h : sw.ids = []) : KeepsIds s p sw :=
  .of_subset (by simp [h])

/-- `SweepWalk s p sw`: the purge or recovery `p` moves on to `sw`, with nothing to write in its hand. -/
structure SweepWalk (s : State) (p : Nat) (sw : SweepPc) : Prop where
  ids : KeepsIds s p sw
  quiet : sw.removing = none

/-- `SweepMove s p s₁ sw`: the purge or recovery `p` moves on to `sw`, and what it writes makes `s` into `s₁`. -/
inductive SweepMove (s : State) (p : Nat) : State → SweepPc → Prop
  | walk {sw : SweepPc} (hwalk : SweepWalk s p sw) : SweepMove s p s sw
  | unlink {sw : SweepPc} (k : String × JobId) (hwalk : SweepWalk s p sw) :
    SweepMove s p { s with files := s.files.erase k } sw
  | save {sw : SweepPc} {user : String} {job : CmsJobRecord} (hsaving : (s.sweeps p).saving = some (user, job))
    (hwalk : SweepWalk s p sw) : SweepMove s p (s.saveJob user job) sw
  | read {sw : SweepPc} {j : JobId} (hids : KeepsIds s p sw)
    (hread : sw.removing = some (j, removeJobId s.globalOps j)) : SweepMove s p s sw
  | write {sw : SweepPc} {j : JobId} {ops : GlobalOps} (hremoving : (s.sweeps p).removing = some (j, ops))
    (hwalk : SweepWalk s p sw) : SweepMove s p { s with globalOps := ops } sw

theorem SweepMove.procs {s s₁ : State} {p : Nat} {sw : SweepPc} (h : SweepMove s p s₁ sw) : s₁.procs = s.procs := by
  cases h <;> rfl

theorem SweepMove.nextJob {s s₁ : State} {p : Nat} {sw : SweepPc} (h : SweepMove s p s₁ sw) :
    s₁.nextJob = s.nextJob := by
  cases h <;> rfl

theorem SweepMove.actions {s s₁ : State} {p : Nat} {sw : SweepPc} (h : SweepMove s p s₁ sw) :
    s₁.actions = s.actions ∧ s₁.nextAction = s.nextAction := by
  cases h <;> exact ⟨rfl, rfl⟩

theorem purgeNext_walk (s : State) (p : Nat) (c : PurgeCursor) : SweepWalk s p c.next :=
  ⟨.of_nil c.next_ids, c.next_removing⟩

theorem orphanNext_walk {s : State} {p : Nat} {orphans : List (String × CmsJobRecord)}
    (hids : ∀ i ∈ orphans.map (·.2.jobId), i ∈ (s.sweeps p).ids) :
    SweepWalk s p (nextOrphan s.now orphans) :=
  ⟨.of_subset (by rw [nextOrphan_ids]; exact hids), nextOrphan_removing _ _⟩

theorem resumeSweep_move {s s' : State} {p : Nat} (hstep : resumeSweep cfg s p = some s') :
    ∃ s₁ sw, SweepMove s p s₁ sw ∧ s' = s₁.setSweep p sw := by
  cases hsw : s.sweeps p with
  | purgeRead c j =>
    simp only [resumeSweep, hsw] at hstep
    split at hstep
    · cases hstep
      exact ⟨_, _, .walk ⟨.of_nil rfl, rfl⟩, rfl⟩
    · rename_i job hjob
      cases hstep
      split
      · refine ⟨_, _, .walk ⟨fun i hi => .inr ⟨c.user, j, job, hjob, .inl ?_⟩, rfl⟩, rfl⟩
        simpa [SweepPc.ids] using hi
      · exact ⟨_, _, .walk (purgeNext_walk s p c), rfl⟩
  | purgeUnlink c j removeEntries =>
    simp only [resumeSweep, hsw, Option.some.injEq] at hstep
    subst hstep
    refine ⟨_, _, .unlink (c.user, j) ⟨?_, ?_⟩, rfl⟩
    · cases removeEntries with
      | true => exact .of_subset (by simp [hsw, SweepPc.ids])
      | false => exact .of_nil c.next_ids
    · cases removeEntries with
      | true => rfl
      | false => exact c.next_removing
  | purgeUserOps c j =>
    simp only [resumeSweep, hsw, Option.some.injEq] at hstep
    subst hstep
    exact ⟨_, _, .walk ⟨.of_subset (by simp [hsw, SweepPc.ids]), rfl⟩, rfl⟩
  | purgeGlobalRead c j =>
    simp only [resumeSweep, hsw] at hstep
    split at hstep
    · cases hstep
      exact ⟨_, _, .walk (purgeNext_walk s p c), rfl⟩
    · cases hstep
      exact ⟨_, _, .read (.of_subset (by simp [hsw, SweepPc.ids])) rfl, rfl⟩
  | purgeGlobalWrite c j ops =>
    simp only [resumeSweep, hsw, Option.some.injEq] at hstep
    subst hstep
    exact ⟨_, _, .write (by rw [hsw]; rfl) (purgeNext_walk s p c), rfl⟩
  | recoveryRead c j =>
    simp only [resumeSweep, hsw, Option.some.injEq] at hstep
    subst hstep
    refine ⟨_, _, .walk ⟨fun i hi => ?_, RecoveryCursor.next_removing _ _⟩, rfl⟩
    have hi := RecoveryCursor.next_ids hi
    simp only [RecoveryCursor.ids, List.map_append, List.mem_append] at hi
    rw [hsw]
    rcases hi with (hi | hi) | hi
    · exact .inl (List.mem_append_left _ hi)
    · simp only [List.mem_map, Option.mem_toList] at hi
      obtain ⟨job, hjob, rfl⟩ := hi
      exact .inr ⟨c.user, j, job, hjob, .inr rfl⟩
    · exact .inl (List.mem_append_right _ hi)
  | orphanSave c =>
    simp only [resumeSweep, hsw, Option.some.injEq] at hstep
    subst hstep
    exact ⟨_, _, .save (by rw [hsw]; rfl) ⟨.of_subset (by simp [hsw, SweepPc.ids]), rfl⟩, rfl⟩
  | orphanUserOps c =>
    simp only [resumeSweep, hsw, Option.some.injEq] at hstep
    subst hstep
    exact ⟨_, _, .walk ⟨.of_subset (by simp [hsw, SweepPc.ids]), rfl⟩, rfl⟩
  | orphanGlobalRead c =>
    simp only [resumeSweep, hsw] at hstep
    split at hstep
    · cases hstep
      exact ⟨_, _, .walk (orphanNext_walk fun i hi => hsw ▸ List.mem_cons_of_mem _ hi), rfl⟩
    · cases hstep
      exact ⟨_, _, .read (.of_subset (by simp [hsw, SweepPc.ids])) rfl, rfl⟩
  | orphanGlobalWrite c ops =>
    simp only [resumeSweep, hsw, Option.some.injEq] at hstep
    subst hstep
    exact ⟨_, _, .write (by rw [hsw]; rfl) (orphanNext_walk fun i hi => hsw ▸ List.mem_cons_of_mem _ hi), rfl⟩
  | idle | purgeRoot | purgeDir | recoveryRoot | recoveryDir | reconcile => simp [resumeSweep, hsw] at hstep

/-- The write of a purge or recovery that is about to remove a job's entries. -/
theorem resumeSweep_write {s s' : State} {p : Nat} {j : JobId} {ops : GlobalOps}
    (hremoving : (s.sweeps p).removing = some (j, ops)) (hstep : resumeSweep cfg s p = some s') :
    s'.globalOps = ops := by
  cases hsw : s.sweeps p with
  | purgeGlobalWrite c j' ops' =>
    simp only [resumeSweep, hsw, Option.some.injEq] at hstep
    rw [hsw] at hremoving
    cases hremoving
    rw [← hstep]
    rfl
  | orphanGlobalWrite c ops' =>
    simp only [resumeSweep, hsw, Option.some.injEq] at hstep
    rw [hsw] at hremoving
    cases hremoving
    rw [← hstep]
    rfl
  | _ => simp [hsw, SweepPc.removing] at hremoving

theorem orphanReject_walk {s : State} {p : Nat} {c : OrphanCursor}
    (hids : ∀ i ∈ c.job.jobId :: c.rest.map (·.2.jobId), i ∈ (s.sweeps p).ids) :
    SweepWalk s p (c.reject s.now) := by
  unfold OrphanCursor.reject
  split
  · exact ⟨.of_subset hids, rfl⟩
  · exact ⟨.of_nil rfl, rfl⟩

theorem rejectSweep_walk {s s' : State} {p : Nat} (hstep : rejectSweep s p = some s') :
    ∃ sw, SweepWalk s p sw ∧ s' = s.setSweep p sw := by
  cases hsw : s.sweeps p with
  | purgeRead c j =>
    simp only [rejectSweep, hsw, Option.some.injEq] at hstep
    exact ⟨_, ⟨.of_nil rfl, rfl⟩, hstep.symm⟩
  | purgeUnlink c j removeEntries =>
    simp only [rejectSweep, hsw, Option.some.injEq] at hstep
    subst hstep
    split
    · exact ⟨_, ⟨.of_nil rfl, rfl⟩, rfl⟩
    · exact ⟨_, purgeNext_walk s p c, rfl⟩
  | purgeDir now users =>
    cases users with
    | nil =>
      simp only [rejectSweep, hsw, Option.some.injEq] at hstep
      exact ⟨_, ⟨.of_nil rfl, rfl⟩, hstep.symm⟩
    | cons user users =>
      simp only [rejectSweep, hsw, Option.some.injEq] at hstep
      exact ⟨_, purgeNext_walk s p _, hstep.symm⟩
  | recoveryRead c j =>
    simp only [rejectSweep, hsw, Option.some.injEq] at hstep
    refine ⟨_, ⟨.of_subset fun i hi => ?_, RecoveryCursor.next_removing _ _⟩, hstep.symm⟩
    exact hsw ▸ RecoveryCursor.next_ids hi
  | reconcile rest user job =>
    simp only [rejectSweep, hsw, Option.some.injEq] at hstep
    exact ⟨_, ⟨.of_subset (by simp [hsw, SweepPc.ids, interruptedJob, failJob]), rfl⟩, hstep.symm⟩
  | orphanSave c | orphanUserOps c | orphanGlobalRead c | orphanGlobalWrite c ops =>
    simp only [rejectSweep, hsw, Option.some.injEq] at hstep
    exact ⟨_, orphanReject_walk (by simp [hsw, SweepPc.ids]), hstep.symm⟩
  | purgeRoot | purgeUserOps | purgeGlobalRead | purgeGlobalWrite | recoveryRoot | recoveryDir =>
    simp only [rejectSweep, hsw, Option.some.injEq] at hstep
    exact ⟨_, ⟨.of_nil rfl, rfl⟩, hstep.symm⟩
  | idle => simp [rejectSweep, hsw] at hstep

theorem receiveUsers_walk {s s' : State} {p : Nat} {users : List String}
    (hstep : receiveUsers s p users = some s') : ∃ sw, SweepWalk s p sw ∧ s' = s.setSweep p sw := by
  unfold receiveUsers at hstep
  split at hstep
  · split at hstep
    · cases hstep
      exact ⟨_, purgeNext_walk s p _, rfl⟩
    · cases hstep
      refine ⟨_, ⟨.of_subset fun i hi => ?_, RecoveryCursor.next_removing _ _⟩, rfl⟩
      simpa [RecoveryCursor.ids] using RecoveryCursor.next_ids hi
    · cases hstep
  · cases hstep

theorem receiveFiles_walk {s s' : State} {p : Nat} {files : List JobId}
    (hstep : receiveFiles s p files = some s') : ∃ sw, SweepWalk s p sw ∧ s' = s.setSweep p sw := by
  unfold receiveFiles at hstep
  split at hstep
  · split at hstep
    · cases hstep
      exact ⟨_, purgeNext_walk s p _, rfl⟩
    · cases hstep
  · rename_i user users orphans hsw
    split at hstep
    · cases hstep
      refine ⟨_, ⟨.of_subset fun i hi => ?_, RecoveryCursor.next_removing _ _⟩, rfl⟩
      rw [hsw]
      simpa [RecoveryCursor.ids, SweepPc.ids] using RecoveryCursor.next_ids hi
    · cases hstep
  · cases hstep

theorem receiveOutcome_walk {s s' : State} {p : Nat} {outcome : CmsOutcome}
    (hstep : receiveOutcome s p outcome = some s') : ∃ sw, SweepWalk s p sw ∧ s' = s.setSweep p sw := by
  unfold receiveOutcome at hstep
  split at hstep
  · rename_i rest user job hsw
    cases hstep
    exact ⟨_, ⟨.of_subset (by simp [hsw, SweepPc.ids, applyCmsOutcome_jobId]), rfl⟩, rfl⟩
  · cases hstep

/-! ### The moves of an action -/

def ActionKind.isSingle : ActionKind → Bool
  | .single _ => true
  | _ => false

/-- The check stops at this record: the job is neither gone nor done. -/
def isOpen (job : Option CmsJobRecord) : Bool :=
  match job with
  | none => false
  | some job => !isTerminalJobStatus job.status

/-- `ActionMove s x a act a'`: on `act`, action `x`, which is at `a`, moves on to `a'`. -/
inductive ActionMove (s : State) (x : Nat) (a : ActionProc) : Act → ActionProc → Prop
  | host (hpc : a.pc = .checkHost) : ActionMove s x a (.actionResume x) { a with pc := .checkOps }
  | read (hpc : a.pc = .checkOps) :
    ActionMove s x a (.actionResume x) (a.checkNext (s.globalOps.entries.filter fun e => e.1.hostKey = a.hostKey))
  | skip {e : OperationKey × OpEntry} {rest : List (OperationKey × OpEntry)} (hpc : a.pc = .checkJob e rest)
    (hclosed : isOpen (s.getJob e.2.userKey e.2.jobId) = false) :
    ActionMove s x a (.actionResume x) (a.checkNext rest)
  | haList {dbnames haDbNames : List String} (hpc : a.pc = .haList) (hkind : a.kind = .all dbnames) :
    ActionMove s x a (.actionHaList x haDbNames) { a with pc := .holdHost (haDbNames ++ dbnames) }
  | holdSingle {dbnames : List String} (hpc : a.pc = .holdHost dbnames) (hkind : a.kind.isSingle = true) :
    ActionMove s x a (.actionResume x) { a with held := dbnames.eraseDups, pc := .checkHost }
  | holdBulk {dbnames : List String} (hpc : a.pc = .holdHost dbnames) (hkind : a.kind.isSingle = false) :
    ActionMove s x a (.actionResume x) { a with held := dbnames.eraseDups, pc := .acting }
  | done {act : Act} (hact : act = .actionResume x ∨ act = .actionEnd x) (hpc : a.pc ≠ .absent) :
    ActionMove s x a act { a with held := [], pc := .ended }

theorem resumeAction_move {s s' : State} {x : Nat} (hstep : resumeAction s x = some s') :
    ∃ a' running, ActionMove s x (s.actions x) (.actionResume x) a' ∧
      s' = { s with running := running }.setAction x a' := by
  unfold resumeAction at hstep
  cases hpc : (s.actions x).pc with
  | checkHost =>
    simp only [hpc, Option.some.injEq] at hstep
    subst hstep
    exact ⟨_, _, .host hpc, rfl⟩
  | checkOps =>
    simp only [hpc, Option.some.injEq] at hstep
    subst hstep
    exact ⟨_, _, .read hpc, rfl⟩
  | checkJob e rest =>
    simp only [hpc] at hstep
    cases hjob : s.getJob e.2.userKey e.2.jobId with
    | none =>
      simp only [hjob, Option.some.injEq] at hstep
      subst hstep
      exact ⟨_, _, .skip hpc (by rw [hjob]; rfl), rfl⟩
    | some job =>
      simp only [hjob] at hstep
      split at hstep
      · rename_i hterm
        cases hstep
        exact ⟨_, _, .skip hpc (by simp [hjob, isOpen, hterm]), rfl⟩
      · cases hstep
        exact ⟨_, _, .done (.inl rfl) (by simp [hpc]), rfl⟩
  | holdHost dbnames =>
    simp only [hpc] at hstep
    split at hstep
    · cases hstep
      exact ⟨_, _, .done (.inl rfl) (by simp [hpc]), rfl⟩
    · split at hstep
      · rename_i hkind
        cases hstep
        exact ⟨_, _, .holdSingle hpc (by simp [hkind, ActionKind.isSingle]), rfl⟩
      · rename_i hkind
        cases hstep
        exact ⟨_, _, .holdBulk hpc (by simp [hkind, ActionKind.isSingle]), rfl⟩
      · rename_i hkind
        cases hstep
        exact ⟨_, _, .holdBulk hpc (by simp [hkind, ActionKind.isSingle]), rfl⟩
  | absent | haList | acting | ended => simp [hpc] at hstep

theorem receiveHaList_move {s s' : State} {x : Nat} {haDbNames : List String}
    (hstep : receiveHaList s x haDbNames = some s') :
    ∃ a' running, ActionMove s x (s.actions x) (.actionHaList x haDbNames) a' ∧
      s' = { s with running := running }.setAction x a' := by
  unfold receiveHaList at hstep
  dsimp only at hstep
  split at hstep
  · rename_i hpc hkind
    cases hstep
    exact ⟨_, _, .haList hpc hkind, rfl⟩
  · cases hstep

theorem finishAction_move {s s' : State} {x : Nat} (hstep : finishAction s x = some s') :
    ∃ a' running, ActionMove s x (s.actions x) (.actionEnd x) a' ∧
      s' = { s with running := running }.setAction x a' := by
  unfold finishAction at hstep
  split at hstep
  · cases hstep
  · cases hstep
  · rename_i habsent hended
    cases hstep
    exact ⟨_, _, .done (.inr rfl) habsent, rfl⟩

/-! ### The moves of the system -/

/-- The job that the act arrives at. -/
def Act.job? : Act → Option JobId
  | .jobResume j | .jobReject j _ | .cmsUuid j _ | .cmsAnswer j _ | .followedUp j _ _ => some j
  | _ => none

/-- The purge or recovery that the act starts or arrives at. -/
def Act.sweep? : Act → Option Nat
  | .purge p | .recover p | .listUsers p _ | .listFiles p _ | .sweepResume p | .sweepReject p | .reconciled p _ => some p
  | _ => none

/-- Every step lets time pass, starts a job call or an action, or moves one of the calls in progress. -/
inductive StepMove (cfg : JobConfig) (s : State) : Act → State → Prop
  | tick (ms : Nat) : StepMove cfg s (.tick ms) { s with now := s.now + ms }
  | start (request : JobRequest) : StepMove cfg s (.createJob request) (startJob s request)
  | job {j : JobId} {new : JobPc} {s₁ : State} (hmove : JobMove cfg s j (s.procs j).pc new s₁) :
    StepMove cfg s (.jobResume j) (s₁.setPc j new)
  | event {a : Act} {j : JobId} {new : JobPc} (hact : a.job? = some j) (hevent : JobEvent (s.procs j).pc new) :
    StepMove cfg s a (s.setPc j new)
  | sweep {p : Nat} {s₁ : State} {sw : SweepPc} (hmove : SweepMove s p s₁ sw) :
    StepMove cfg s (.sweepResume p) (s₁.setSweep p sw)
  | walk {a : Act} {p : Nat} {sw : SweepPc} (hact : a.sweep? = some p) (hwalk : SweepWalk s p sw) :
    StepMove cfg s a (s.setSweep p sw)
  | startAction (hostKey action : String) (kind : ActionKind) :
    StepMove cfg s (.startAction hostKey action kind) (startAction s hostKey action kind)
  | action {a : Act} {x : Nat} {a' : ActionProc} (running : Dict String String)
    (hmove : ActionMove s x (s.actions x) a a') : StepMove cfg s a ({ s with running := running }.setAction x a')

theorem StepMove.of_event {s s' : State} {a : Act} {j : JobId} (hact : a.job? = some j)
    (h : ∃ new, JobEvent (s.procs j).pc new ∧ s' = s.setPc j new) : StepMove cfg s a s' := by
  obtain ⟨new, hevent, rfl⟩ := h
  exact .event hact hevent

theorem StepMove.of_walk {s s' : State} {a : Act} {p : Nat} (hact : a.sweep? = some p)
    (h : ∃ sw, SweepWalk s p sw ∧ s' = s.setSweep p sw) : StepMove cfg s a s' := by
  obtain ⟨sw, hwalk, rfl⟩ := h
  exact .walk hact hwalk

theorem StepMove.of_action {s s' : State} {a : Act} {x : Nat}
    (h : ∃ a' running, ActionMove s x (s.actions x) a a' ∧ s' = { s with running := running }.setAction x a') :
    StepMove cfg s a s' := by
  obtain ⟨a', running, hmove, rfl⟩ := h
  exact .action running hmove

/-- Every step is one of the moves. -/
theorem step_move {s s' : State} {a : Act} (hstep : step cfg s a = some s') : StepMove cfg s a s' := by
  cases a with
  | tick ms =>
    cases hstep
    exact .tick ms
  | createJob request =>
    cases hstep
    exact .start request
  | jobResume j =>
    obtain ⟨new, s₁, hmove, rfl⟩ := resumeJob_move hstep
    exact .job hmove
  | jobReject j message => exact .of_event rfl (rejectJob_event hstep)
  | cmsUuid j uuid => exact .of_event rfl (receiveUuid_event hstep)
  | cmsAnswer j outcome => exact .of_event rfl (receiveAnswer_event hstep)
  | followedUp j warnings startInfo => exact .of_event rfl (finishFollowUps_event hstep)
  | purge p | recover p =>
    simp only [step, Option.ite_none_right_eq_some, Option.some.injEq] at hstep
    exact .of_walk rfl ⟨_, ⟨.of_nil rfl, rfl⟩, hstep.2.symm⟩
  | listUsers p users => exact .of_walk rfl (receiveUsers_walk hstep)
  | listFiles p files => exact .of_walk rfl (receiveFiles_walk hstep)
  | sweepResume p =>
    obtain ⟨s₁, sw, hmove, rfl⟩ := resumeSweep_move hstep
    exact .sweep hmove
  | sweepReject p => exact .of_walk rfl (rejectSweep_walk hstep)
  | reconciled p outcome => exact .of_walk rfl (receiveOutcome_walk hstep)
  | startAction hostKey action kind =>
    cases hstep
    exact .startAction hostKey action kind
  | actionResume x => exact .of_action (resumeAction_move hstep)
  | actionHaList x haDbNames => exact .of_action (receiveHaList_move hstep)
  | actionEnd x => exact .of_action (finishAction_move hstep)

end CubridWebManager.Jobs
