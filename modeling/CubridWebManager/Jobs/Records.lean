import CubridWebManager.Jobs.WellFormed

/-!
# Where records go

How the record that a call holds comes about (`RecordMove`), what each step of a purge or recovery does (`SweepStep`),
and which steps change the file of a job (`file_step`): a worker stores its own record, a recovery the orphan that it
finalizes, and a purge deletes.
-/

namespace CubridWebManager.Jobs

open Transition

variable {cfg : JobConfig}

/-! ### The record in the hand of a call -/

/-- The record that the call has stored when it goes on from here. -/
def JobPc.storing : JobPc → Option CmsJobRecord
  | .recordSave job | .runningSave job | .uuidSave job | .outcomeSave job => some job
  | _ => none

/-- The call of job `j` goes on, and its record with it. -/
inductive RecordMove (cfg : JobConfig) (s : State) (j : JobId) : JobPc → JobPc → Prop
  | none {old new : JobPc} (hnew : new.record = none) : RecordMove cfg s j old new
  | created : RecordMove cfg s j (.unlock true) (.recordSave ((s.procs j).request.record j s.now))
  | loaded {job : CmsJobRecord} (hget : s.getJob (entryOf cfg s j).userKey j = some job) :
    RecordMove cfg s j .jobRead (.runningSave { job with status := .running, startedAt := some s.now })
  | started {job : CmsJobRecord} : RecordMove cfg s j (.runningSave job) (.cmsCall job)
  | uuid {job : CmsJobRecord} {uuid : String} :
    RecordMove cfg s j (.cmsCall job) (.uuidSave { job with cmsUuid := some uuid })
  | uuidSaved {job : CmsJobRecord} : RecordMove cfg s j (.uuidSave job) (.cmsCall job)
  | answered {job : CmsJobRecord} {result : String} :
    RecordMove cfg s j (.cmsCall job) (.followUps (applyCmsOutcome job (.succeeded result)))
  | finish {old : JobPc} {job job' : CmsJobRecord} (hold : old.working = true) (hrecord : old.record = some job)
    (hid : job'.jobId = job.jobId) (hcreated : job'.createdAt = job.createdAt) (hfinished : job'.finishedAt = some s.now)
    (hstatus : isTerminalJobStatus job'.status = true ∨ old = .followUps job ∧ job'.status = job.status) :
    RecordMove cfg s j old (.outcomeSave job')

theorem applyCmsOutcome_createdAt (job : CmsJobRecord) (outcome : CmsOutcome) :
    (applyCmsOutcome job outcome).createdAt = job.createdAt := by
  cases outcome <;> rfl

theorem applyCmsOutcome_terminal (job : CmsJobRecord) (outcome : CmsOutcome) :
    isTerminalJobStatus (applyCmsOutcome job outcome).status = true := by
  cases outcome <;> rfl

/-- `y` is `x`, perhaps with an outcome that came now. -/
structure Revises (s : State) (x y : CmsJobRecord) : Prop where
  jobId : y.jobId = x.jobId
  createdAt : y.createdAt = x.createdAt
  finishedAt : ∀ f, y.finishedAt = some f → x.finishedAt = some f ∨ f = s.now

theorem Revises.refl (s : State) (x : CmsJobRecord) : Revises s x x := ⟨rfl, rfl, fun _ hf => .inl hf⟩

/-- A record given its end, where it has none yet. -/
theorem Revises.of_end {s : State} {x y : CmsJobRecord} (hid : y.jobId = x.jobId) (hcreated : y.createdAt = x.createdAt)
    (hfinished : y.finishedAt = some (x.finishedAt.getD s.now)) : Revises s x y := by
  refine ⟨hid, hcreated, fun f hf => ?_⟩
  rw [hfinished, Option.some.injEq] at hf
  cases hx : x.finishedAt with
  | none => exact .inr (by rw [← hf, hx, Option.getD_none])
  | some f' => exact .inl (by rw [← hf, hx, Option.getD_some])

/-- The record in the hand of a call after a move is the one it had or read, perhaps with an outcome, or is new. -/
theorem RecordMove.record {s : State} {j : JobId} {old new : JobPc} (h : RecordMove cfg s j old new) {y : CmsJobRecord}
    (hy : new.record = some y) : (∃ x, (old.record = some x ∨ ∃ u, s.getJob u j = some x) ∧ Revises s x y) ∨
      old = .unlock true ∧ y = (s.procs j).request.record j s.now := by
  cases h with
  | none hnew =>
    rw [hnew] at hy
    cases hy
  | created =>
    cases hy
    exact .inr ⟨rfl, rfl⟩
  | @loaded job hget =>
    cases hy
    exact .inl ⟨job, .inr ⟨_, hget⟩, rfl, rfl, fun _ hf => .inl hf⟩
  | started | uuidSaved =>
    cases hy
    exact .inl ⟨_, .inl rfl, .refl s _⟩
  | uuid | answered =>
    cases hy
    exact .inl ⟨_, .inl rfl, rfl, rfl, fun _ hf => .inl hf⟩
  | finish hold hrecord hid hcreated hfinished =>
    cases hy
    exact .inl ⟨_, .inl hrecord, hid, hcreated, fun f hf => .inr (Option.some.inj (hf.symm.trans hfinished))⟩

theorem resumeJob_record {s s' : State} {j : JobId} (hstep : resumeJob cfg s j = some s') :
    RecordMove cfg s j (s.procs j).pc (s'.procs j).pc := by
  cases hpc : (s.procs j).pc with
  | hostLookup =>
    simp only [resumeJob, hpc, Option.some.injEq] at hstep
    subst hstep
    refine .none ?_
    rw [setPc_self]
    dsimp only
    split <;> rfl
  | lockWait | releaseWait =>
    simp only [resumeJob, hpc, Option.ite_none_right_eq_some, Option.some.injEq] at hstep
    obtain ⟨-, rfl⟩ := hstep
    exact .none (by rw [setPc_self]; rfl)
  | opsRead | existingRead | releaseRead =>
    simp only [resumeJob, hpc] at hstep
    split at hstep <;> cases hstep <;> exact .none (by rw [setPc_self]; rfl)
  | unlock passed =>
    simp only [resumeJob, hpc, Option.some.injEq] at hstep
    subst hstep
    cases passed with
    | true =>
      rw [setPc_self]
      exact .created
    | false => exact .none (by rw [setPc_self]; rfl)
  | jobRead =>
    simp only [resumeJob, hpc] at hstep
    split at hstep
    · cases hstep
      exact .none (by rw [setPc_self]; rfl)
    · rename_i job hget
      cases hstep
      rw [setPc_self]
      exact .loaded hget
  | runningSave job =>
    simp only [resumeJob, hpc, Option.some.injEq] at hstep
    subst hstep
    rw [setPc_self]
    exact .started
  | uuidSave job =>
    simp only [resumeJob, hpc, Option.some.injEq] at hstep
    subst hstep
    rw [setPc_self]
    exact .uuidSaved
  | opsWrite | recordSave | scheduled | outcomeSave | releaseWrite | releaseUnlock =>
    simp only [resumeJob, hpc, Option.some.injEq] at hstep
    subst hstep
    exact .none (by rw [setPc_self]; rfl)
  | absent | cmsCall | followUps | ended => simp [resumeJob, hpc] at hstep

theorem finishJob_record {s : State} {j : JobId} {job job' : CmsJobRecord} (hold : (s.procs j).pc.working = true)
    (hrecord : (s.procs j).pc.record = some job) (hid : job'.jobId = job.jobId) (hcreated : job'.createdAt = job.createdAt)
    (hstatus : isTerminalJobStatus job'.status = true ∨ (s.procs j).pc = .followUps job ∧ job'.status = job.status) :
    RecordMove cfg s j (s.procs j).pc ((s.finishJob j job').procs j).pc := by
  rw [State.finishJob, setPc_self]
  exact .finish hold hrecord hid hcreated rfl hstatus

theorem rejectJob_record {s s' : State} {j : JobId} {message : String} (hstep : rejectJob s j message = some s') :
    RecordMove cfg s j (s.procs j).pc (s'.procs j).pc := by
  cases hpc : (s.procs j).pc with
  | hostLookup | lockWait | recordSave | jobRead | runningSave | outcomeSave | releaseWait | opsRead | existingRead
  | opsWrite | releaseRead | releaseWrite =>
    simp only [rejectJob, hpc, Option.some.injEq] at hstep
    subst hstep
    exact .none (by rw [setPc_self]; rfl)
  | cmsCall job | uuidSave job | followUps job =>
    simp only [rejectJob, hpc, Option.some.injEq] at hstep
    subst hstep
    have hrecord : (s.procs j).pc.record = some job := by rw [hpc]; rfl
    rw [← hpc]
    exact finishJob_record (by rw [hpc]; rfl) hrecord rfl rfl (.inl rfl)
  | absent | unlock | scheduled | releaseUnlock | ended => simp [rejectJob, hpc] at hstep

theorem receiveUuid_record {s s' : State} {j : JobId} {uuid : String} (hstep : receiveUuid s j uuid = some s') :
    (s'.procs j).pc = (s.procs j).pc ∨ RecordMove cfg s j (s.procs j).pc (s'.procs j).pc := by
  unfold receiveUuid at hstep
  split at hstep
  · rename_i job hpc
    split at hstep
    · exact .inl (Option.some.inj hstep ▸ rfl)
    · cases hstep
      rw [hpc, setPc_self]
      exact .inr .uuid
  · cases hstep

theorem receiveAnswer_record {s s' : State} {j : JobId} {outcome : CmsOutcome}
    (hstep : receiveAnswer s j outcome = some s') : RecordMove cfg s j (s.procs j).pc (s'.procs j).pc := by
  unfold receiveAnswer at hstep
  split at hstep
  · rename_i job hpc
    split at hstep
    · cases hstep
      rw [hpc, setPc_self]
      exact .answered
    · cases hstep
      exact finishJob_record (by rw [hpc]; rfl) (by rw [hpc]; rfl) (applyCmsOutcome_jobId _ _)
        (applyCmsOutcome_createdAt _ _) (.inl (applyCmsOutcome_terminal _ _))
  · cases hstep

theorem finishFollowUps_record {s s' : State} {j : JobId} {warnings : List String} {startInfo : Option String}
    (hstep : finishFollowUps s j warnings startInfo = some s') :
    RecordMove cfg s j (s.procs j).pc (s'.procs j).pc := by
  unfold finishFollowUps at hstep
  split at hstep
  · rename_i job hpc
    cases hstep
    have hrecord : (s.procs j).pc.record = some job := by rw [hpc]; rfl
    exact finishJob_record (by rw [hpc]; rfl) hrecord rfl rfl (.inr ⟨hpc, rfl⟩)
  · cases hstep

/-! ### The steps of a purge or recovery -/

/-- The orphan that is being finalized. -/
def SweepPc.finalizing : SweepPc → Option OrphanCursor
  | .orphanSave c | .orphanUserOps c | .orphanGlobalRead c | .orphanGlobalWrite c _ => some c
  | _ => none

/-- `SweepStep cfg s p a old new s₁`: the purge or recovery `p` goes on from `old` to `new` as `a` arrives, and what it
writes makes `s` into `s₁`. -/
inductive SweepStep (cfg : JobConfig) (s : State) (p : Nat) : Act → SweepPc → SweepPc → State → Prop
  | purge : SweepStep cfg s p (.purge p) .idle (.purgeRoot s.now) s
  | recover : SweepStep cfg s p (.recover p) .idle .recoveryRoot s
  | stop {a : Act} {old : SweepPc} : SweepStep cfg s p a old .idle s
  | users {now : Nat} {users : List String} (hperm : users.Perm s.userKeys) :
    SweepStep cfg s p (.listUsers p users) (.purgeRoot now) (PurgeCursor.next ⟨now, users, "", []⟩) s
  | files {now : Nat} {user : String} {users : List String} {files : List JobId}
    (hperm : files.Perm (s.jobFiles user)) : SweepStep cfg s p (.listFiles p files) (.purgeDir now (user :: users))
      (PurgeCursor.next ⟨now, users, user, files⟩) s
  | skip {now : Nat} {user : String} {users : List String} : SweepStep cfg s p (.sweepReject p)
      (.purgeDir now (user :: users)) (PurgeCursor.next ⟨now, users, "", []⟩) s
  | missing {c : PurgeCursor} {j : JobId} (hget : s.getJob c.user j = none) :
    SweepStep cfg s p (.sweepResume p) (.purgeRead c j) (.purgeUnlink c j false) s
  | unreadable {c : PurgeCursor} {j : JobId} :
    SweepStep cfg s p (.sweepReject p) (.purgeRead c j) (.purgeUnlink c j false) s
  | doom {c : PurgeCursor} {j : JobId} {job : CmsJobRecord} (hget : s.getJob c.user j = some job)
    (hdoom : shouldRemove cfg c.now job = true) :
    SweepStep cfg s p (.sweepResume p) (.purgeRead c j) (.purgeUnlink c j true) s
  | spare {c : PurgeCursor} {j : JobId} : SweepStep cfg s p (.sweepResume p) (.purgeRead c j) c.next s
  | unlink {c : PurgeCursor} {j : JobId} {removeEntries : Bool} :
    SweepStep cfg s p (.sweepResume p) (.purgeUnlink c j removeEntries)
      (if removeEntries then .purgeUserOps c j else c.next) { s with files := s.files.erase (c.user, j) }
  | keep {c : PurgeCursor} {j : JobId} : SweepStep cfg s p (.sweepReject p) (.purgeUnlink c j false) c.next s
  | purgeUserOps {c : PurgeCursor} {j : JobId} :
    SweepStep cfg s p (.sweepResume p) (.purgeUserOps c j) (.purgeGlobalRead c j) s
  | purgeGlobalRead {c : PurgeCursor} {j : JobId} : SweepStep cfg s p (.sweepResume p) (.purgeGlobalRead c j)
      (.purgeGlobalWrite c j (removeJobId s.globalOps j)) s
  | purgeDone {c : PurgeCursor} {j : JobId} : SweepStep cfg s p (.sweepResume p) (.purgeGlobalRead c j) c.next s
  | purgeGlobalWrite {c : PurgeCursor} {j : JobId} {ops : GlobalOps} :
    SweepStep cfg s p (.sweepResume p) (.purgeGlobalWrite c j ops) c.next { s with globalOps := ops }
  | orphanUsers {users : List String} (hperm : users.Perm s.userKeys) : SweepStep cfg s p (.listUsers p users)
      .recoveryRoot (RecoveryCursor.next ⟨users, "", [], [], []⟩ s.now) s
  | orphanFiles {user : String} {users : List String} {orphans : List (String × CmsJobRecord)} {files : List JobId}
    (hperm : files.Perm (s.jobFiles user)) : SweepStep cfg s p (.listFiles p files)
      (.recoveryDir (user :: users) orphans) (RecoveryCursor.next ⟨users, user, files, [], orphans⟩ s.now) s
  | orphanRead {c : RecoveryCursor} {j : JobId} : SweepStep cfg s p (.sweepResume p) (.recoveryRead c j)
      (RecoveryCursor.next { c with jobs := c.jobs ++ (s.getJob c.user j).toList } s.now) s
  | orphanUnread {c : RecoveryCursor} {j : JobId} :
    SweepStep cfg s p (.sweepReject p) (.recoveryRead c j) (c.next s.now) s
  | reconciled {rest : List (String × CmsJobRecord)} {user : String} {job : CmsJobRecord} {outcome : CmsOutcome} :
    SweepStep cfg s p (.reconciled p outcome) (.reconcile rest user job)
      (.orphanSave ⟨rest, user, { applyCmsOutcome job outcome with finishedAt := some (job.finishedAt.getD s.now) }, true⟩) s
  | interrupted {rest : List (String × CmsJobRecord)} {user : String} {job : CmsJobRecord} :
    SweepStep cfg s p (.sweepReject p) (.reconcile rest user job)
      (.orphanSave ⟨rest, user, interruptedJob job s.now, false⟩) s
  | orphanSave {c : OrphanCursor} :
    SweepStep cfg s p (.sweepResume p) (.orphanSave c) (.orphanUserOps c) (s.saveJob c.user c.job)
  | orphanUserOps {c : OrphanCursor} : SweepStep cfg s p (.sweepResume p) (.orphanUserOps c) (.orphanGlobalRead c) s
  | orphanGlobalRead {c : OrphanCursor} : SweepStep cfg s p (.sweepResume p) (.orphanGlobalRead c)
      (.orphanGlobalWrite c (removeJobId s.globalOps c.job.jobId)) s
  | orphanDone {c : OrphanCursor} :
    SweepStep cfg s p (.sweepResume p) (.orphanGlobalRead c) (nextOrphan s.now c.rest) s
  | orphanGlobalWrite {c : OrphanCursor} {ops : GlobalOps} : SweepStep cfg s p (.sweepResume p)
      (.orphanGlobalWrite c ops) (nextOrphan s.now c.rest) { s with globalOps := ops }
  | again {old : SweepPc} {c : OrphanCursor} (hold : old.finalizing = some c) (hreconciled : c.reconciled = true) :
    SweepStep cfg s p (.sweepReject p) old
      (.orphanSave { c with job := interruptedJob c.job s.now, reconciled := false }) s

theorem resumeSweep_step {s s' : State} {p : Nat} (hstep : resumeSweep cfg s p = some s') :
    ∃ new s₁, SweepStep cfg s p (.sweepResume p) (s.sweeps p) new s₁ ∧ s' = s₁.setSweep p new := by
  cases hsw : s.sweeps p with
  | purgeRead c j =>
    simp only [resumeSweep, hsw] at hstep
    split at hstep
    · rename_i hget
      cases hstep
      exact ⟨_, _, .missing hget, rfl⟩
    · rename_i job hget
      cases hstep
      split
      · rename_i hdoom
        exact ⟨_, _, .doom hget hdoom, rfl⟩
      · exact ⟨_, _, .spare, rfl⟩
  | purgeUnlink c j removeEntries =>
    simp only [resumeSweep, hsw, Option.some.injEq] at hstep
    exact ⟨_, _, .unlink, hstep.symm⟩
  | purgeUserOps c j =>
    simp only [resumeSweep, hsw, Option.some.injEq] at hstep
    exact ⟨_, _, .purgeUserOps, hstep.symm⟩
  | purgeGlobalRead c j =>
    simp only [resumeSweep, hsw] at hstep
    split at hstep
    · cases hstep
      exact ⟨_, _, .purgeDone, rfl⟩
    · cases hstep
      exact ⟨_, _, .purgeGlobalRead, rfl⟩
  | purgeGlobalWrite c j ops =>
    simp only [resumeSweep, hsw, Option.some.injEq] at hstep
    exact ⟨_, _, .purgeGlobalWrite, hstep.symm⟩
  | recoveryRead c j =>
    simp only [resumeSweep, hsw, Option.some.injEq] at hstep
    exact ⟨_, _, .orphanRead, hstep.symm⟩
  | orphanSave c =>
    simp only [resumeSweep, hsw, Option.some.injEq] at hstep
    exact ⟨_, _, .orphanSave, hstep.symm⟩
  | orphanUserOps c =>
    simp only [resumeSweep, hsw, Option.some.injEq] at hstep
    exact ⟨_, _, .orphanUserOps, hstep.symm⟩
  | orphanGlobalRead c =>
    simp only [resumeSweep, hsw] at hstep
    split at hstep
    · cases hstep
      exact ⟨_, _, .orphanDone, rfl⟩
    · cases hstep
      exact ⟨_, _, .orphanGlobalRead, rfl⟩
  | orphanGlobalWrite c ops =>
    simp only [resumeSweep, hsw, Option.some.injEq] at hstep
    exact ⟨_, _, .orphanGlobalWrite, hstep.symm⟩
  | idle | purgeRoot | purgeDir | recoveryRoot | recoveryDir | reconcile => simp [resumeSweep, hsw] at hstep

theorem rejectSweep_step {s s' : State} {p : Nat} (hstep : rejectSweep s p = some s') :
    ∃ new s₁, SweepStep cfg s p (.sweepReject p) (s.sweeps p) new s₁ ∧ s' = s₁.setSweep p new := by
  have hagain : ∀ {c : OrphanCursor}, (s.sweeps p).finalizing = some c → s' = s.setSweep p (c.reject s.now) →
      ∃ new s₁, SweepStep cfg s p (.sweepReject p) (s.sweeps p) new s₁ ∧ s' = s₁.setSweep p new := by
    intro c hold heq
    unfold OrphanCursor.reject at heq
    split at heq
    · rename_i hreconciled
      exact ⟨_, _, .again hold hreconciled, heq⟩
    · exact ⟨_, _, .stop, heq⟩
  cases hsw : s.sweeps p with
  | purgeRead c j =>
    simp only [rejectSweep, hsw, Option.some.injEq] at hstep
    exact ⟨_, _, .unreadable, hstep.symm⟩
  | purgeUnlink c j removeEntries =>
    simp only [rejectSweep, hsw, Option.some.injEq] at hstep
    cases removeEntries with
    | true => exact ⟨_, _, .stop, hstep.symm⟩
    | false => exact ⟨_, _, .keep, hstep.symm⟩
  | purgeDir now users =>
    cases users with
    | nil =>
      simp only [rejectSweep, hsw, Option.some.injEq] at hstep
      exact ⟨_, _, .stop, hstep.symm⟩
    | cons user users =>
      simp only [rejectSweep, hsw, Option.some.injEq] at hstep
      exact ⟨_, _, .skip, hstep.symm⟩
  | recoveryRead c j =>
    simp only [rejectSweep, hsw, Option.some.injEq] at hstep
    exact ⟨_, _, .orphanUnread, hstep.symm⟩
  | reconcile rest user job =>
    simp only [rejectSweep, hsw, Option.some.injEq] at hstep
    exact ⟨_, _, .interrupted, hstep.symm⟩
  | orphanSave c | orphanUserOps c | orphanGlobalRead c | orphanGlobalWrite c ops =>
    simp only [rejectSweep, hsw, Option.some.injEq] at hstep
    rw [← hsw]
    exact hagain (by rw [hsw]; rfl) hstep.symm
  | purgeRoot | purgeUserOps | purgeGlobalRead | purgeGlobalWrite | recoveryRoot | recoveryDir =>
    simp only [rejectSweep, hsw, Option.some.injEq] at hstep
    exact ⟨_, _, .stop, hstep.symm⟩
  | idle => simp [rejectSweep, hsw] at hstep

theorem sweep_step {s s' : State} {a : Act} {p : Nat} (ha : a.sweep? = some p) (hstep : step cfg s a = some s') :
    ∃ new s₁, SweepStep cfg s p a (s.sweeps p) new s₁ ∧ s' = s₁.setSweep p new := by
  cases a with
  | purge q =>
    obtain rfl := Option.some.inj ha
    simp only [step, Option.ite_none_right_eq_some, Option.some.injEq] at hstep
    obtain ⟨hidle, rfl⟩ := hstep
    cases hsw : s.sweeps q <;> simp only [hsw, Bool.false_eq_true] at hidle
    exact ⟨_, _, .purge, rfl⟩
  | recover q =>
    obtain rfl := Option.some.inj ha
    simp only [step, Option.ite_none_right_eq_some, Option.some.injEq] at hstep
    obtain ⟨hidle, rfl⟩ := hstep
    cases hsw : s.sweeps q <;> simp only [hsw, Bool.false_eq_true] at hidle
    exact ⟨_, _, .recover, rfl⟩
  | listUsers q users =>
    obtain rfl := Option.some.inj ha
    simp only [step, receiveUsers] at hstep
    split at hstep
    · rename_i hperm
      split at hstep
      · rename_i now hsw
        cases hstep
        exact ⟨_, _, hsw ▸ .users hperm, rfl⟩
      · rename_i hsw
        cases hstep
        exact ⟨_, _, hsw ▸ .orphanUsers hperm, rfl⟩
      · cases hstep
    · cases hstep
  | listFiles q files =>
    obtain rfl := Option.some.inj ha
    simp only [step, receiveFiles] at hstep
    split at hstep
    · rename_i now user users hsw
      split at hstep
      · rename_i hperm
        cases hstep
        exact ⟨_, _, hsw ▸ .files hperm, rfl⟩
      · cases hstep
    · rename_i user users orphans hsw
      split at hstep
      · rename_i hperm
        cases hstep
        exact ⟨_, _, hsw ▸ .orphanFiles hperm, rfl⟩
      · cases hstep
    · cases hstep
  | sweepResume q =>
    obtain rfl := Option.some.inj ha
    exact resumeSweep_step hstep
  | sweepReject q =>
    obtain rfl := Option.some.inj ha
    exact rejectSweep_step hstep
  | reconciled q outcome =>
    obtain rfl := Option.some.inj ha
    simp only [step, receiveOutcome] at hstep
    split at hstep
    · rename_i rest user job hsw
      cases hstep
      exact ⟨_, _, hsw ▸ .reconciled, rfl⟩
    · cases hstep
  | _ => cases ha

/-! ### The records and files that a purge or recovery has in hand -/

namespace SweepPc

/-- The copies of records that a recovery holds. -/
def copies : SweepPc → List CmsJobRecord
  | .recoveryDir _ orphans => orphans.map Prod.snd
  | .recoveryRead c _ => c.jobs ++ c.orphans.map Prod.snd
  | .reconcile rest _ job => job :: rest.map Prod.snd
  | .orphanSave c | .orphanUserOps c | .orphanGlobalRead c | .orphanGlobalWrite c _ => c.job :: c.rest.map Prod.snd
  | _ => []

/-- The files that a purge has still to read, with their users. -/
def listed : SweepPc → List (String × JobId)
  | .purgeRead c j => (j :: c.files).map fun i => (c.user, i)
  | .purgeUnlink c _ _ | .purgeUserOps c _ | .purgeGlobalRead c _ | .purgeGlobalWrite c _ _ =>
    c.files.map fun i => (c.user, i)
  | _ => []

/-- The job that a purge is removing. -/
def doomed : SweepPc → Option JobId
  | .purgeUnlink _ j _ | .purgeUserOps _ j | .purgeGlobalRead _ j | .purgeGlobalWrite _ j _ => some j
  | _ => none

/-- The clock that a purge read. -/
def purgeNow : SweepPc → Option Nat
  | .purgeRoot now | .purgeDir now _ => some now
  | .purgeRead c _ | .purgeUnlink c _ _ | .purgeUserOps c _ | .purgeGlobalRead c _ | .purgeGlobalWrite c _ _ =>
    some c.now
  | _ => none

theorem copies_of_finalizing {sw : SweepPc} {c : OrphanCursor} (h : sw.finalizing = some c) :
    sw.copies = c.job :: c.rest.map Prod.snd := by
  cases sw <;> cases h <;> rfl

end SweepPc

theorem PurgeCursor.next_copies (c : PurgeCursor) : c.next.copies = [] := by
  unfold PurgeCursor.next
  split
  · rfl
  · split <;> rfl

theorem PurgeCursor.next_doomed (c : PurgeCursor) : c.next.doomed = none := by
  unfold PurgeCursor.next
  split
  · rfl
  · split <;> rfl

theorem PurgeCursor.next_listed (c : PurgeCursor) {k : String × JobId} (hk : k ∈ c.next.listed) :
    k ∈ c.files.map fun i => (c.user, i) := by
  unfold PurgeCursor.next at hk
  split at hk
  · rename_i j rest hfiles
    rw [hfiles]
    exact hk
  · split at hk <;> cases hk

theorem PurgeCursor.next_purgeNow (c : PurgeCursor) {n : Nat} (hn : c.next.purgeNow = some n) : n = c.now := by
  unfold PurgeCursor.next at hn
  split at hn
  · exact (Option.some.inj hn).symm
  · split at hn
    · cases hn
    · exact (Option.some.inj hn).symm

theorem nextOrphan_listed (now : Nat) (orphans : List (String × CmsJobRecord)) :
    (nextOrphan now orphans).listed = [] ∧ (nextOrphan now orphans).doomed = none ∧
      (nextOrphan now orphans).purgeNow = none := by
  unfold nextOrphan
  split
  · exact ⟨rfl, rfl, rfl⟩
  · split <;> exact ⟨rfl, rfl, rfl⟩

theorem RecoveryCursor.next_listed (c : RecoveryCursor) (now : Nat) :
    (c.next now).listed = [] ∧ (c.next now).doomed = none ∧ (c.next now).purgeNow = none := by
  unfold RecoveryCursor.next
  split
  · exact ⟨rfl, rfl, rfl⟩
  · split
    · exact nextOrphan_listed _ _
    · exact ⟨rfl, rfl, rfl⟩

theorem nextOrphan_copies {s : State} {orphans : List (String × CmsJobRecord)} {y : CmsJobRecord}
    (hy : y ∈ (nextOrphan s.now orphans).copies) : ∃ x ∈ orphans.map Prod.snd, Revises s x y := by
  unfold nextOrphan at hy
  split at hy
  · cases hy
  · rename_i user job rest
    split at hy
    · rcases List.mem_cons.1 hy with rfl | hy
      · exact ⟨job, List.mem_cons_self, .of_end rfl rfl rfl⟩
      · exact ⟨y, List.mem_cons_of_mem _ hy, .refl s y⟩
    · exact ⟨y, hy, .refl s y⟩

theorem RecoveryCursor.mem_userOrphans {c : RecoveryCursor} {y : CmsJobRecord}
    (hy : y ∈ c.userOrphans.map Prod.snd) : y ∈ c.jobs := by
  simp only [userOrphans, List.map_map, List.mem_map, List.mem_filter, List.mem_mergeSort] at hy
  obtain ⟨job, ⟨hjob, -⟩, rfl⟩ := hy
  exact hjob

theorem RecoveryCursor.next_copies {s : State} {c : RecoveryCursor} {y : CmsJobRecord}
    (hy : y ∈ (c.next s.now).copies) : ∃ x ∈ c.jobs ++ c.orphans.map Prod.snd, Revises s x y := by
  have hall : ∀ {x}, x ∈ (c.orphans ++ c.userOrphans).map Prod.snd → x ∈ c.jobs ++ c.orphans.map Prod.snd := by
    intro x hx
    rw [List.map_append, List.mem_append] at hx
    exact List.mem_append.2 (hx.symm.imp_left mem_userOrphans)
  unfold RecoveryCursor.next at hy
  split at hy
  · exact ⟨y, hy, .refl s y⟩
  · split at hy
    · obtain ⟨x, hx, hrev⟩ := nextOrphan_copies hy
      exact ⟨x, hall hx, hrev⟩
    · exact ⟨y, hall hy, .refl s y⟩

namespace SweepStep

variable {s s₁ : State} {p : Nat} {a : Act} {old new : SweepPc}

/-- The copies that a recovery holds after a step are those it held and the one it read, perhaps with an outcome. -/
theorem copies (h : SweepStep cfg s p a old new s₁) {y : CmsJobRecord} (hy : y ∈ new.copies) :
    ∃ x, (x ∈ old.copies ∨ ∃ u i, s.getJob u i = some x) ∧ Revises s x y := by
  have hkept : ∀ {x}, x ∈ old.copies → Revises s x y →
      ∃ x, (x ∈ old.copies ∨ ∃ u i, s.getJob u i = some x) ∧ Revises s x y := fun hx hrev => ⟨_, .inl hx, hrev⟩
  cases h with
  | purge | recover | stop | missing | unreadable | doom | purgeUserOps | purgeGlobalRead => cases hy
  | users | files | skip | spare | keep | purgeDone | purgeGlobalWrite =>
    rw [PurgeCursor.next_copies] at hy
    cases hy
  | unlink =>
    split at hy
    · cases hy
    · rw [PurgeCursor.next_copies] at hy
      cases hy
  | orphanUsers =>
    obtain ⟨x, hx, -⟩ := RecoveryCursor.next_copies hy
    cases hx
  | orphanFiles | orphanUnread =>
    obtain ⟨x, hx, hrev⟩ := RecoveryCursor.next_copies hy
    exact hkept hx hrev
  | @orphanRead c j =>
    obtain ⟨x, hx, hrev⟩ := RecoveryCursor.next_copies hy
    rw [List.append_assoc, List.mem_append, List.mem_append] at hx
    rcases hx with hx | hx | hx
    · exact hkept (List.mem_append_left _ hx) hrev
    · exact ⟨x, .inr ⟨c.user, j, Option.mem_toList.1 hx⟩, hrev⟩
    · exact hkept (List.mem_append_right _ hx) hrev
  | reconciled =>
    rcases List.mem_cons.1 hy with rfl | hy
    · exact hkept List.mem_cons_self (.of_end (applyCmsOutcome_jobId _ _) (applyCmsOutcome_createdAt _ _) rfl)
    · exact hkept (List.mem_cons_of_mem _ hy) (.refl s y)
  | interrupted =>
    rcases List.mem_cons.1 hy with rfl | hy
    · exact hkept List.mem_cons_self (.of_end rfl rfl rfl)
    · exact hkept (List.mem_cons_of_mem _ hy) (.refl s y)
  | orphanSave | orphanUserOps | orphanGlobalRead => exact hkept hy (.refl s y)
  | orphanDone | orphanGlobalWrite =>
    obtain ⟨x, hx, hrev⟩ := nextOrphan_copies hy
    exact hkept (List.mem_cons_of_mem _ hx) hrev
  | again hold =>
    rw [SweepPc.copies_of_finalizing hold] at hkept ⊢
    rcases List.mem_cons.1 hy with rfl | hy
    · exact hkept List.mem_cons_self (.of_end rfl rfl rfl)
    · exact hkept (List.mem_cons_of_mem _ hy) (.refl s y)

/-- The files that a purge has still to read are those it had before, and files that are there. -/
theorem listed (h : SweepStep cfg s p a old new s₁) {k : String × JobId} (hk : k ∈ new.listed) :
    k ∈ old.listed ∨ (s.getJob k.1 k.2).isSome = true := by
  cases h with
  | purge | recover | stop | reconciled | interrupted | orphanSave | orphanUserOps | orphanGlobalRead | again => cases hk
  | missing | unreadable | doom => exact .inl (List.mem_cons_of_mem _ hk)
  | users | skip =>
    cases PurgeCursor.next_listed _ hk
  | @files now user users files hperm =>
    obtain ⟨i, hi, rfl⟩ := List.mem_map.1 (PurgeCursor.next_listed _ hk)
    obtain ⟨k', hk', rfl⟩ := List.mem_map.1 (hperm.mem_iff.1 hi)
    obtain ⟨hmem, huser⟩ := List.mem_filter.1 hk'
    obtain ⟨job, hjob⟩ := Dict.mem_keys.1 hmem
    have hkey : (user, k'.2) = k' := by rw [← of_decide_eq_true huser]
    exact .inr (by simpa only [State.getJob, hkey] using Option.isSome_iff_exists.2 ⟨job, hjob⟩)
  | spare => exact .inl (List.mem_cons_of_mem _ (PurgeCursor.next_listed _ hk))
  | keep | purgeDone | purgeGlobalWrite => exact .inl (PurgeCursor.next_listed _ hk)
  | unlink =>
    split at hk
    · exact .inl hk
    · exact .inl (PurgeCursor.next_listed _ hk)
  | purgeUserOps | purgeGlobalRead => exact .inl hk
  | orphanUsers | orphanFiles | orphanRead | orphanUnread =>
    rw [(RecoveryCursor.next_listed _ _).1] at hk
    cases hk
  | orphanDone | orphanGlobalWrite =>
    rw [(nextOrphan_listed _ _).1] at hk
    cases hk

/-- A purge comes to remove a job whose file is gone, is old enough, or cannot be read. -/
theorem doomed (h : SweepStep cfg s p a old new s₁) {j : JobId} (hj : new.doomed = some j) :
    old.doomed = some j ∨ (∃ u, (u, j) ∈ old.listed ∧ s.getJob u j = none) ∨
      (∃ n u job, old.purgeNow = some n ∧ s.getJob u j = some job ∧ shouldRemove cfg n job = true) ∨
      a = .sweepReject p ∧ ∃ c, old = .purgeRead c j := by
  cases h with
  | missing hget =>
    cases hj
    exact .inr (.inl ⟨_, List.mem_cons_self, hget⟩)
  | unreadable =>
    cases hj
    exact .inr (.inr (.inr ⟨rfl, _, rfl⟩))
  | doom hget hdoom =>
    cases hj
    exact .inr (.inr (.inl ⟨_, _, _, rfl, hget, hdoom⟩))
  | unlink =>
    split at hj
    · exact .inl hj
    · rw [PurgeCursor.next_doomed] at hj
      cases hj
  | purgeUserOps | purgeGlobalRead => exact .inl hj
  | users | files | skip | spare | keep | purgeDone | purgeGlobalWrite =>
    rw [PurgeCursor.next_doomed] at hj
    cases hj
  | orphanUsers | orphanFiles | orphanRead | orphanUnread =>
    rw [(RecoveryCursor.next_listed _ _).2.1] at hj
    cases hj
  | orphanDone | orphanGlobalWrite =>
    rw [(nextOrphan_listed _ _).2.1] at hj
    cases hj
  | _ => cases hj

theorem purgeNow (h : SweepStep cfg s p a old new s₁) {n : Nat} (hn : new.purgeNow = some n) :
    old.purgeNow = some n ∨ n = s.now := by
  cases h with
  | purge => exact .inr (Option.some.inj hn).symm
  | users | files | skip | spare | keep | purgeDone | purgeGlobalWrite =>
    exact .inl (PurgeCursor.next_purgeNow _ hn ▸ rfl)
  | unlink =>
    split at hn
    · exact .inl hn
    · exact .inl (PurgeCursor.next_purgeNow _ hn ▸ rfl)
  | missing | unreadable | doom | purgeUserOps | purgeGlobalRead => exact .inl hn
  | orphanUsers | orphanFiles | orphanRead | orphanUnread =>
    rw [(RecoveryCursor.next_listed _ _).2.2] at hn
    cases hn
  | orphanDone | orphanGlobalWrite =>
    rw [(nextOrphan_listed _ _).2.2] at hn
    cases hn
  | _ => cases hn

/-- A file changes when a purge removes it and when a recovery stores the record of its orphan. -/
theorem getJob (h : SweepStep cfg s p a old new s₁) (u : String) (i : JobId) :
    s₁.getJob u i = s.getJob u i ∨ old.doomed = some i ∧ s₁.getJob u i = none ∨
      ∃ c, old = .orphanSave c ∧ u = c.user ∧ i = c.job.jobId ∧ s₁.getJob u i = some c.job := by
  cases h with
  | @unlink c j removeEntries =>
    simp only [State.getJob, Dict.get?_erase, Prod.mk.injEq]
    split
    · rename_i heq
      exact .inr (.inl ⟨congrArg some heq.2.symm, rfl⟩)
    · exact .inl rfl
  | @orphanSave c =>
    rw [getJob_saveJob]
    split
    · rename_i heq
      exact .inr (.inr ⟨c, rfl, heq.1, heq.2, rfl⟩)
    · exact .inl rfl
  | _ => exact .inl rfl

theorem frame (h : SweepStep cfg s p a old new s₁) :
    s₁.now = s.now ∧ s₁.nextJob = s.nextJob ∧ s₁.procs = s.procs ∧ s₁.sweeps = s.sweeps := by
  cases h <;> exact ⟨rfl, rfl, rfl, rfl⟩

end SweepStep

/-! ### The call of one job in a step -/

theorem pc_step {s s' : State} {a : Act} (hstep : step cfg s a = some s') (j : JobId) :
    (s'.procs j).pc = (s.procs j).pc ∨ j = s.nextJob ∧ (s'.procs j).pc = .hostLookup ∨
      ∃ s₁, JobMove cfg s j (s.procs j).pc (s'.procs j).pc s₁ := by
  cases step_move hstep with
  | start request =>
    by_cases hj : j = s.nextJob
    · subst hj
      exact .inr (.inl ⟨rfl, by simp [startJob]⟩)
    · exact .inl (by simp [startJob, Function.update_of_ne hj])
  | @job i new s₁ hmove =>
    by_cases hij : j = i
    · subst hij
      exact .inr (.inr ⟨s₁, by rwa [setPc_self]⟩)
    · exact .inl (by rw [setPc_of_ne _ _ hij, hmove.procs])
  | @event _ i new hact hevent =>
    by_cases hij : j = i
    · subst hij
      exact .inr (.inr ⟨s, by rw [setPc_self]; exact .event hevent⟩)
    · exact .inl (by rw [setPc_of_ne _ _ hij])
  | sweep hmove => exact .inl (congrArg (fun procs => (procs j).pc) hmove.procs)
  | walk | tick | startAction | action => exact .inl rfl

theorem JobMove.ne_absent {s s₁ : State} {j : JobId} {old new : JobPc} (h : JobMove cfg s j old new s₁) :
    old ≠ .absent := by
  rintro rfl
  cases h with
  | event hevent =>
    cases hevent with
    | giveUp hlock => cases hlock
    | finish hold => cases hold
    | stop hold => cases hold
    | releaseSkip hold => cases hold

/-- A job of an earlier server has no call here. -/
theorem absent_step {s s' : State} {a : Act} (hstep : step cfg s a = some s') {j : JobId} (hj : j < s.nextJob)
    (habsent : (s.procs j).pc = .absent) : (s'.procs j).pc = .absent := by
  rcases pc_step hstep j with heq | ⟨rfl, -⟩ | ⟨s₁, hmove⟩
  · exact heq.trans habsent
  · exact absurd hj (Nat.lt_irrefl _)
  · exact absurd habsent hmove.ne_absent

theorem nextJob_step {s s' : State} {a : Act} (hstep : step cfg s a = some s') : s.nextJob ≤ s'.nextJob := by
  cases step_move hstep with
  | start request => exact Nat.le_succ _
  | job hmove => exact Nat.le_of_eq hmove.nextJob.symm
  | sweep hmove => exact Nat.le_of_eq hmove.nextJob.symm
  | event | walk | tick | startAction | action => exact Nat.le_refl _

/-- The jobs drawn before a run have no call in it. -/
theorem absent_run {ok : State → Act → Prop} {s₀ s : State} {as : List Act} (hrun : Run (step cfg) ok s₀ as s)
    (hinit : Init s₀) {j : JobId} (hj : j < s₀.nextJob) : (s.procs j).pc = .absent := by
  have hboth := hrun.invariant (I := fun s => s₀.nextJob ≤ s.nextJob ∧ (s.procs j).pc = .absent)
    (fun _ _ _ hs _ hstep => ⟨Nat.le_trans hs.1 (nextJob_step hstep),
      absent_step hstep (Nat.lt_of_lt_of_le hj hs.1) hs.2⟩) ⟨Nat.le_refl _, hinit.procs j⟩
  exact hboth.2

/-! ### All steps -/

/-- What a step of the call of job `j` does to the rest of the system: it may store the record in the call's hand. -/
structure CallFrame (cfg : JobConfig) (s : State) (j : JobId) (s' : State) : Prop where
  now : s'.now = s.now
  nextJob : s'.nextJob = s.nextJob
  sweeps : s'.sweeps = s.sweeps
  others : ∀ i, i ≠ j → s'.procs i = s.procs i
  request : (s'.procs j).request = (s.procs j).request
  files : ∀ u i, s'.getJob u i = s.getJob u i ∨ ∃ job, (s.procs j).pc.storing = some job ∧
    u = (entryOf cfg s j).userKey ∧ i = job.jobId ∧ s'.getJob u i = some job

theorem JobMove.getJob {s s₁ : State} {j : JobId} {old new : JobPc} (h : JobMove cfg s j old new s₁) (u : String)
    (i : JobId) : s₁.getJob u i = s.getJob u i ∨ ∃ job, old.storing = some job ∧
      u = (entryOf cfg s j).userKey ∧ i = job.jobId ∧ s₁.getJob u i = some job := by
  have hsave : ∀ job, old.storing = some job →
      (s.saveJob (entryOf cfg s j).userKey job).getJob u i = s.getJob u i ∨ ∃ job', old.storing = some job' ∧
        u = (entryOf cfg s j).userKey ∧ i = job'.jobId ∧
        (s.saveJob (entryOf cfg s j).userKey job).getJob u i = some job' := by
    intro job hjob
    rw [getJob_saveJob]
    split
    · rename_i heq
      exact .inr ⟨job, hjob, heq.1, heq.2, rfl⟩
    · exact .inl rfl
  cases h with
  | saved | started | uuidSaved | outcomeSaved => exact hsave _ rfl
  | _ => exact .inl rfl

theorem JobMove.now {s s₁ : State} {j : JobId} {old new : JobPc} (h : JobMove cfg s j old new s₁) : s₁.now = s.now := by
  cases h <;> rfl

theorem JobMove.frame {s s₁ : State} {j : JobId} {new : JobPc} (h : JobMove cfg s j (s.procs j).pc new s₁) :
    CallFrame cfg s j (s₁.setPc j new) := by
  refine ⟨h.now, h.nextJob, h.sweeps, fun i hne => ?_, ?_, fun u i => ?_⟩
  · rw [setPc_of_ne _ _ hne, h.procs]
  · rw [setPc_request, h.procs]
  · exact h.getJob u i

/-- What a step does, as far as records are concerned. -/
inductive RecordStep (cfg : JobConfig) (s : State) : Act → State → Prop
  | tick (ms : Nat) : RecordStep cfg s (.tick ms) { s with now := s.now + ms }
  | start (request : JobRequest) : RecordStep cfg s (.createJob request) (startJob s request)
  | job {a : Act} {j : JobId} {s' : State}
    (hpc : (s'.procs j).pc = (s.procs j).pc ∨ RecordMove cfg s j (s.procs j).pc (s'.procs j).pc)
    (hframe : CallFrame cfg s j s') : RecordStep cfg s a s'
  | sweep {a : Act} {p : Nat} {new : SweepPc} {s₁ : State} (hstep : SweepStep cfg s p a (s.sweeps p) new s₁) :
    RecordStep cfg s a (s₁.setSweep p new)
  | action {a : Act} {x nextAction : Nat} {action : ActionProc} {running : Dict String String} :
    RecordStep cfg s a ({ s with nextAction := nextAction, running := running }.setAction x action)

theorem record_step {s s' : State} {a : Act} (hstep : step cfg s a = some s') : RecordStep cfg s a s' := by
  have hmove := step_move hstep
  have hevent : ∀ {j : JobId}, a.job? = some j →
      ((s'.procs j).pc = (s.procs j).pc ∨ RecordMove cfg s j (s.procs j).pc (s'.procs j).pc) →
      RecordStep cfg s a s' := by
    intro j ha hpc
    cases hmove with
    | @job j' new s₁ hjob =>
      obtain rfl := Option.some.inj ha
      exact .job hpc hjob.frame
    | @event a' j' new hact hevent =>
      have hj : j = j' := Option.some.inj (ha.symm.trans hact)
      subst hj
      exact .job hpc (JobMove.event hevent).frame
    | tick | start | startAction => cases ha
    | sweep => cases ha
    | walk hact => cases a <;> cases ha <;> cases hact
    | action running haction =>
      cases haction with
      | done hact => rcases hact with rfl | rfl <;> cases ha
      | _ => cases ha
  cases a with
  | tick ms =>
    cases hstep
    exact .tick ms
  | createJob request =>
    cases hstep
    exact .start request
  | jobResume j => exact hevent rfl (.inr (resumeJob_record hstep))
  | jobReject j message => exact hevent rfl (.inr (rejectJob_record hstep))
  | cmsUuid j uuid => exact hevent rfl (receiveUuid_record hstep)
  | cmsAnswer j outcome => exact hevent rfl (.inr (receiveAnswer_record hstep))
  | followedUp j warnings startInfo => exact hevent rfl (.inr (finishFollowUps_record hstep))
  | purge p | recover p | listUsers p _ | listFiles p _ | sweepResume p | sweepReject p | reconciled p _ =>
    obtain ⟨new, s₁, hsweep, rfl⟩ := sweep_step rfl hstep
    exact .sweep hsweep
  | startAction hostKey action kind =>
    cases hstep
    exact .action
  | actionResume x =>
    obtain ⟨a', running, -, rfl⟩ := resumeAction_move hstep
    exact .action
  | actionHaList x haDbNames =>
    obtain ⟨a', running, -, rfl⟩ := receiveHaList_move hstep
    exact .action
  | actionEnd x =>
    obtain ⟨a', running, -, rfl⟩ := finishAction_move hstep
    exact .action

/-- What becomes of the file of job `j` in a step. -/
inductive FileStep (cfg : JobConfig) (s s' : State) (u : String) (j : JobId) : Prop
  | same (heq : s'.getJob u j = s.getJob u j)
  | removed (hnone : s'.getJob u j = none)
  | call {job : CmsJobRecord} (hstoring : (s.procs j).pc.storing = some job) (huser : u = (entryOf cfg s j).userKey)
    (hget : s'.getJob u j = some job)
  | orphan {p : Nat} {c : OrphanCursor} (hsweep : s.sweeps p = .orphanSave c) (huser : u = c.user)
    (hid : j = c.job.jobId) (hget : s'.getJob u j = some c.job)

theorem JobPc.record_of_storing {pc : JobPc} {job : CmsJobRecord} (h : pc.storing = some job) :
    pc.record = some job := by
  cases pc <;> cases h <;> rfl

theorem file_step {s s' : State} {a : Act} (hw : WellFormed cfg s) (hstep : step cfg s a = some s') (u : String)
    (j : JobId) : FileStep cfg s s' u j := by
  cases record_step hstep with
  | tick | start | action => exact .same rfl
  | @job a i s' hpc hframe =>
    rcases hframe.files u j with heq | ⟨job, hstoring, huser, hj, hget⟩
    · exact .same heq
    · obtain rfl : j = i := hj.trans (hw.record_jobId (JobPc.record_of_storing hstoring))
      exact .call hstoring huser hget
  | @sweep a p new s₁ hsweep =>
    rcases hsweep.getJob u j with heq | ⟨-, hnone⟩ | ⟨c, hc, huser, hid, hget⟩
    · exact .same heq
    · exact .removed hnone
    · exact .orphan hc huser hid hget

end CubridWebManager.Jobs
