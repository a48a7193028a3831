import CubridWebManager.Jobs.OneWay

/-!
# A worker that fails

An error at an await of `runJob` is to end with the job's record closed, so that the entry of the job does not turn the
next job on its database away.  The `try` block begins after the record is read and saved as running, and the outcome is
saved in `finally` before the entry is removed; an error at one of these three awaits leaves the record queued or
running and the entry in place (`failed_worker_releases_fails`).

At every other await the record is saved with the failure, or has been saved with the outcome, and nobody opens it again
(`failed_worker_releases_iff`).
-/

namespace CubridWebManager.Jobs

open Transition

variable {cfg : JobConfig}

/-! ### The awaits of `runJob` -/

namespace JobPc

/-- `runJob` waits for something that can fail. -/
def inRunJob : JobPc → Bool
  | .jobRead | .runningSave _ | .cmsCall _ | .uuidSave _ | .followUps _ | .outcomeSave _ | .releaseWait | .releaseRead
  | .releaseWrite _ => true
  | _ => false

/-- The awaits that no `catch` of `runJob` covers and that come before the record is closed. -/
def uncovered : JobPc → Bool
  | .jobRead | .runningSave _ | .outcomeSave _ => true
  | _ => false

/-- The outcome is saved, and the entry is being removed. -/
def pastOutcome : JobPc → Bool
  | .releaseWait | .releaseRead | .releaseWrite _ | .releaseUnlock => true
  | _ => false

end JobPc

/-- The record of job `j` says that it has ended, or is gone. -/
def Closed (cfg : JobConfig) (s : State) (j : JobId) : Prop :=
  ∀ job, s.getJob (entryOf cfg s j).userKey j = some job → isTerminalJobStatus job.status = true

/-- Job `j` is over, and in whatever order things go on, its entry turns no `createJob` away. -/
structure Releases (cfg : JobConfig) (s : State) (j : JobId) : Prop where
  closed : Closed cfg s j
  accepts : ∀ as s', Run (step cfg) Always s as s' → ∀ i ops, (s'.procs i).pc = .existingRead ops (entryOf cfg s j) →
    ∃ s'', step cfg s' (.jobResume i) = some s'' ∧ (s''.procs i).pc.publishing = true

/-! ### What stays true of the records -/

/-- What is stored for an orphan says that its job has ended. -/
def OrphansEnd (s : State) : Prop :=
  ∀ p c, (s.sweeps p).finalizing = some c → isTerminalJobStatus c.job.status = true

theorem PurgeCursor.next_finalizing (c : PurgeCursor) : c.next.finalizing = none := by
  unfold PurgeCursor.next
  split
  · rfl
  · split <;> rfl

theorem nextOrphan_ends {now : Nat} {orphans : List (String × CmsJobRecord)} {c : OrphanCursor}
    (h : (nextOrphan now orphans).finalizing = some c) : isTerminalJobStatus c.job.status = true := by
  unfold nextOrphan at h
  split at h
  · cases h
  · split at h <;> cases h
    rfl

theorem RecoveryCursor.next_ends {r : RecoveryCursor} {now : Nat} {c : OrphanCursor}
    (h : (r.next now).finalizing = some c) : isTerminalJobStatus c.job.status = true := by
  unfold RecoveryCursor.next at h
  split at h
  · cases h
  · split at h
    · exact nextOrphan_ends h
    · cases h

theorem SweepStep.ends {s s₁ : State} {p : Nat} {a : Act} {old new : SweepPc} (h : SweepStep cfg s p a old new s₁)
    (hold : ∀ c, old.finalizing = some c → isTerminalJobStatus c.job.status = true) {c : OrphanCursor}
    (hc : new.finalizing = some c) : isTerminalJobStatus c.job.status = true := by
  cases h with
  | purge | recover | stop | missing | unreadable | doom | purgeUserOps | purgeGlobalRead => cases hc
  | users | files | skip | spare | keep | purgeDone | purgeGlobalWrite =>
    rw [PurgeCursor.next_finalizing] at hc
    cases hc
  | unlink =>
    split at hc
    · cases hc
    · rw [PurgeCursor.next_finalizing] at hc
      cases hc
  | orphanUsers | orphanFiles | orphanRead | orphanUnread => exact RecoveryCursor.next_ends hc
  | reconciled =>
    cases hc
    exact applyCmsOutcome_terminal _ _
  | interrupted | again =>
    cases hc
    rfl
  | orphanSave | orphanUserOps | orphanGlobalRead =>
    cases hc
    exact hold _ rfl
  | orphanDone | orphanGlobalWrite => exact nextOrphan_ends hc

theorem OrphansEnd.step {s s' : State} {a : Act} (h : OrphansEnd s) (hstep : step cfg s a = some s') :
    OrphansEnd s' := by
  intro p c hc
  cases record_step hstep with
  | tick | start | action => exact h p c hc
  | job hpc hframe => exact h p c (hframe.sweeps ▸ hc)
  | @sweep a q new s₁ hsweep =>
    by_cases hpq : p = q
    · subst hpq
      rw [setSweep_self] at hc
      exact hsweep.ends (h p) hc
    · rw [setSweep_of_ne _ _ hpq, hsweep.frame.2.2.2] at hc
      exact h p c hc

/-- The file of a job that is closed is opened again only by a call that has an open record in its hand. -/
theorem Closed.step {s s' : State} {a : Act} {j : JobId} (h : Closed cfg s j) (hw : WellFormed cfg s)
    (horphans : OrphansEnd s) (hj : j < s.nextJob)
    (hstoring : ∀ job, (s.procs j).pc.storing = some job → isTerminalJobStatus job.status = true)
    (hstep : step cfg s a = some s') : Closed cfg s' j := by
  intro job hjob
  rw [entryOf_step hstep hj] at hjob
  rcases file_step hw hstep (entryOf cfg s j).userKey j with heq | hnone | ⟨hcall, -, hget⟩ | ⟨hsweep, -, -, hget⟩
  · exact h job (heq ▸ hjob)
  · cases hnone.symm.trans hjob
  · obtain rfl := Option.some.inj (hget.symm.trans hjob)
    exact hstoring _ hcall
  · obtain rfl := Option.some.inj (hget.symm.trans hjob)
    exact horphans _ _ (by rw [hsweep]; rfl)

theorem JobPc.storing_of_pastOutcome {pc : JobPc} (h : pc.pastOutcome = true) : pc.storing = none := by
  cases pc <;> first | rfl | cases h

theorem JobEvent.pastOutcome {old new : JobPc} (h : JobEvent old new) (hnew : new.pastOutcome = true) :
    old.pastOutcome = true := by
  cases h with
  | releaseSkip hold => cases old <;> first | rfl | cases hold
  | giveUp | uuid | uuidKnown | answered | finish | stop => cases hnew

/-- The one way to the release is over the save of the outcome. -/
theorem JobMove.pastOutcome {s s₁ : State} {j : JobId} {old new : JobPc} (h : JobMove cfg s j old new s₁)
    (hnew : new.pastOutcome = true) : old.pastOutcome = true ∨
      ∃ job, old = .outcomeSave job ∧ s₁ = s.saveJob (entryOf cfg s j).userKey job := by
  cases h with
  | event hevent => exact .inl (hevent.pastOutcome hnew)
  | outcomeSaved => exact .inr ⟨_, rfl, rfl⟩
  | releaseLock | releaseFound | release => exact .inl rfl
  | _ => cases hnew

/-- What every reachable state says of the workers: a worker that releases its entry has saved the outcome. -/
structure Accounted (cfg : JobConfig) (s : State) : Prop where
  wellFormed : WellFormed cfg s
  hands : ∀ j, (s.procs j).pc.HandFits
  orphans : OrphansEnd s
  closed : ∀ j, (s.procs j).pc.pastOutcome = true → Closed cfg s j

theorem Accounted.of_init {s : State} (h : Init s) : Accounted cfg s where
  wellFormed := .of_init h
  hands j := by
    rw [h.procs]
    trivial
  orphans p c hc := by
    rw [h.sweeps] at hc
    cases hc
  closed j hj := by
    rw [h.procs] at hj
    cases hj

theorem Accounted.step_closed {s s' : State} {a : Act} (h : Accounted cfg s) (hstep : step cfg s a = some s')
    {j : JobId} (hj : (s'.procs j).pc.pastOutcome = true) : Closed cfg s' j := by
  by_cases hold : (s.procs j).pc.pastOutcome = true
  · have hdrawn : j < s.nextJob := h.wellFormed.drawn rfl fun habsent => by
      rw [habsent] at hold
      cases hold
    exact (h.closed j hold).step h.wellFormed h.orphans hdrawn
      (fun job hjob => by rw [JobPc.storing_of_pastOutcome hold] at hjob; cases hjob) hstep
  · -- the step saves the outcome
    obtain ⟨job, new, hpc, rfl⟩ : ∃ job new, (s.procs j).pc = .outcomeSave job ∧
        s' = (s.saveJob (entryOf cfg s j).userKey job).setPc j new := by
      cases step_move hstep with
      | tick | startAction | action | walk => exact absurd hj hold
      | start request =>
        by_cases hnew : j = s.nextJob
        · subst hnew
          simp [startJob, JobPc.pastOutcome] at hj
        · exact absurd (by simpa [startJob, Function.update_of_ne hnew] using hj) hold
      | @event _ i new hact hevent =>
        by_cases hij : j = i
        · subst hij
          rw [setPc_self] at hj
          exact absurd (hevent.pastOutcome hj) hold
        · exact absurd (by rwa [setPc_of_ne _ _ hij] at hj) hold
      | @job i new s₁ hmove =>
        by_cases hij : j = i
        · subst hij
          rw [setPc_self] at hj
          rcases hmove.pastOutcome hj with hpast | ⟨job, hpc, rfl⟩
          · exact absurd hpast hold
          · exact ⟨job, new, hpc, rfl⟩
        · exact absurd (by rwa [setPc_of_ne _ _ hij, hmove.procs] at hj) hold
      | sweep hmove => exact absurd ((congrArg (fun procs => (procs j).pc.pastOutcome) hmove.procs).symm.trans hj) hold
    intro f hf
    have hid : job.jobId = j := h.wellFormed.record_jobId (by rw [hpc]; rfl)
    rw [setPc_entryOf, setPc_getJob] at hf
    change (s.saveJob (entryOf cfg s j).userKey job).getJob (entryOf cfg s j).userKey j = some f at hf
    rw [getJob_saveJob, if_pos ⟨rfl, hid.symm⟩] at hf
    obtain rfl := Option.some.inj hf
    have hfits := h.hands j
    rwa [hpc] at hfits

theorem Accounted.step {s s' : State} {a : Act} (h : Accounted cfg s) (hstep : step cfg s a = some s') :
    Accounted cfg s' where
  wellFormed := h.wellFormed.step hstep
  hands := hands_step h.hands hstep
  orphans := h.orphans.step hstep
  closed _ hj := h.step_closed hstep hj

/-! ### After the failure -/

/-- A step that does not arrive at a job leaves its call where it is. -/
theorem pc_step_of_ne {s s' : State} {a : Act} {j : JobId} (ha : a.job? ≠ some j) (hj : j < s.nextJob)
    (hstep : step cfg s a = some s') : (s'.procs j).pc = (s.procs j).pc := by
  cases step_move hstep with
  | tick | startAction | action | walk => rfl
  | start request => simp [startJob, Function.update_of_ne (Nat.ne_of_lt hj)]
  | @event _ i new hact hevent =>
    have hij : j ≠ i := fun hij => ha (hact.trans (congrArg some hij.symm))
    rw [setPc_of_ne _ _ hij]
  | @job i new s₁ hmove =>
    have hij : j ≠ i := fun hij => ha (congrArg some hij.symm)
    rw [setPc_of_ne _ _ hij, hmove.procs]
  | sweep hmove => exact congrArg (fun procs => (procs j).pc) hmove.procs

/-- The outcome is known, and the call goes on to save it or to remove the entry. -/
def InFinally (s : State) (j : JobId) : Prop :=
  (∃ job, (s.procs j).pc = .outcomeSave job) ∨ (s.procs j).pc.pastOutcome = true

/-- What job `j` waits for fails. -/
def Act.rejects (j : JobId) : Act → Bool
  | .jobReject i _ => decide (i = j)
  | _ => false

/-- The worker has not ended yet, and the step is no failure of what it waits for. -/
def GoesOn (j : JobId) (s : State) (a : Act) : Prop := (s.procs j).pc.dead = false ∧ a.rejects j = false

instance (j : JobId) (s : State) (a : Act) : Decidable (GoesOn j s a) := inferInstanceAs (Decidable (_ ∧ _))

theorem outcomeSave_step {s s' : State} {a : Act} {j : JobId} {job : CmsJobRecord}
    (hpc : (s.procs j).pc = .outcomeSave job) (hj : j < s.nextJob) (hok : GoesOn j s a)
    (hstep : step cfg s a = some s') : (s'.procs j).pc = .outcomeSave job ∨ (s'.procs j).pc = .releaseWait := by
  by_cases ha : a.job? = some j
  · cases a with
    | jobResume i =>
      obtain rfl := Option.some.inj ha
      simp only [step, resumeJob, hpc, Option.some.injEq] at hstep
      subst hstep
      exact .inr (by rw [setPc_self])
    | jobReject i message =>
      obtain rfl := Option.some.inj ha
      exact absurd hok.2 (by simp [Act.rejects])
    | cmsUuid i | cmsAnswer i | followedUp i =>
      obtain rfl := Option.some.inj ha
      simp [step, receiveUuid, receiveAnswer, finishFollowUps, hpc] at hstep
    | _ => cases ha
  · exact .inl ((pc_step_of_ne ha hj hstep).trans hpc)

theorem JobMove.of_pastOutcome {s s₁ : State} {j : JobId} {old new : JobPc} (h : JobMove cfg s j old new s₁)
    (hold : old.pastOutcome = true) : new.pastOutcome = true ∨ new = .ended := by
  cases h with
  | event hevent =>
    cases hevent with
    | giveUp _ hadd => cases old <;> cases hold <;> cases hadd
    | uuid | uuidKnown | answered => cases hold
    | finish hworking => cases old <;> cases hold <;> cases hworking
    | stop => exact .inr rfl
    | releaseSkip => exact .inl rfl
  | releaseLock | releaseFound | release => exact .inl rfl
  | released => exact .inr rfl
  | _ => cases hold

/-- A call in `finally` stays there until it has ended with its record closed. -/
theorem InFinally.step {s s' : State} {a : Act} {j : JobId} (h : InFinally s j) (hs : Accounted cfg s)
    (hj : j < s.nextJob) (hok : GoesOn j s a) (hstep : step cfg s a = some s') :
    InFinally s' j ∨ (s'.procs j).pc = .ended ∧ Closed cfg s' j := by
  rcases h with ⟨job, hpc⟩ | hpast
  · rcases outcomeSave_step hpc hj hok hstep with hsame | hwait
    · exact .inl (.inl ⟨job, hsame⟩)
    · exact .inl (.inr (by rw [hwait]; rfl))
  · rcases pc_step hstep j with heq | ⟨rfl, -⟩ | ⟨s₁, hmove⟩
    · exact .inl (.inr (heq ▸ hpast))
    · exact absurd hj (Nat.lt_irrefl _)
    · refine (hmove.of_pastOutcome hpast).imp .inr fun hended => ⟨hended, ?_⟩
      refine (hs.closed j hpast).step hs.wellFormed hs.orphans hj (fun job hjob => ?_) hstep
      rw [JobPc.storing_of_pastOutcome hpast] at hjob
      cases hjob

/-- A job that has ended with its record closed stays so. -/
theorem ended_run {s s' : State} {as : List Act} {j : JobId} (hs : Accounted cfg s) (hj : j < s.nextJob)
    (hended : (s.procs j).pc = .ended) (hclosed : Closed cfg s j) (hrun : Run (step cfg) Always s as s') :
    Closed cfg s' j ∧ entryOf cfg s' j = entryOf cfg s j := by
  have hall := hrun.invariant (I := fun s' => Accounted cfg s' ∧ j < s'.nextJob ∧ (s'.procs j).pc = .ended ∧
      Closed cfg s' j ∧ entryOf cfg s' j = entryOf cfg s j) ?_ ⟨hs, hj, hended, hclosed, rfl⟩
  · exact hall.2.2.2
  · rintro s₁ a s₂ ⟨hs₁, hj₁, hended₁, hclosed₁, hentry⟩ - hstep
    refine ⟨hs₁.step hstep, Nat.lt_of_lt_of_le hj₁ (nextJob_step hstep), ?_, ?_, (entryOf_step hstep hj₁).trans hentry⟩
    · rw [dead_step hstep hj₁ (by rw [hended₁]; rfl), hended₁]
    · exact hclosed₁.step hs₁.wellFormed hs₁.orphans hj₁ (fun job hjob => by rw [hended₁] at hjob; cases hjob) hstep

theorem Releases.of_closed {s : State} {j : JobId} (hs : Accounted cfg s) (hj : j < s.nextJob)
    (hended : (s.procs j).pc = .ended) (hclosed : Closed cfg s j) : Releases cfg s j where
  closed := hclosed
  accepts := by
    intro as s' hrun i ops hpc
    obtain ⟨hclosed', hentry⟩ := ended_run hs hj hended hclosed hrun
    have hstale : isStale (s'.getJob (entryOf cfg s j).userKey (entryOf cfg s j).jobId) = true := by
      rw [← hentry]
      cases hget : s'.getJob (entryOf cfg s' j).userKey (entryOf cfg s' j).jobId with
      | none => rfl
      | some job => exact hclosed' job hget
    simp only [step, resumeJob, hpc, if_pos hstale]
    refine ⟨_, rfl, ?_⟩
    rw [setPc_self]
    rfl

/-! ### One failure -/

theorem Accounted.run {s s' : State} {as : List Act} (h : Accounted cfg s) (hrun : Run (Jobs.step cfg) Always s as s') :
    Accounted cfg s' :=
  hrun.invariant (fun _ _ _ hs _ hstep => hs.step hstep) h

/-- Where the call is after the failure. -/
theorem reject_step {s s' : State} {j : JobId} {message : String} (hs : Accounted cfg s)
    (hawait : (s.procs j).pc.inRunJob = true) (hstep : step cfg s (.jobReject j message) = some s') :
    (s.procs j).pc.uncovered = true ∧ s' = s.setPc j .ended ∨
      (s.procs j).pc.uncovered = false ∧ (InFinally s' j ∨ (s'.procs j).pc = .ended ∧ Closed cfg s' j) := by
  change rejectJob s j message = some s' at hstep
  have hclosed := hs.closed j
  cases hpc : (s.procs j).pc with
  | jobRead | runningSave | outcomeSave =>
    simp only [rejectJob, hpc, Option.some.injEq] at hstep
    exact .inl ⟨rfl, hstep.symm⟩
  | cmsCall job | uuidSave job | followUps job =>
    simp only [rejectJob, hpc, Option.some.injEq] at hstep
    subst hstep
    exact .inr ⟨rfl, .inl (.inl ⟨_, by rw [State.finishJob, setPc_self]⟩)⟩
  | releaseWait =>
    simp only [rejectJob, hpc, Option.some.injEq] at hstep
    subst hstep
    rw [hpc] at hclosed
    refine .inr ⟨rfl, .inr ⟨by rw [setPc_self], fun job hjob => ?_⟩⟩
    rw [setPc_entryOf, setPc_getJob] at hjob
    exact hclosed rfl job hjob
  | releaseRead | releaseWrite =>
    simp only [rejectJob, hpc, Option.some.injEq] at hstep
    subst hstep
    exact .inr ⟨rfl, .inl (.inr (by rw [setPc_self]; rfl))⟩
  | _ =>
    rw [hpc] at hawait
    cases hawait

/-- Nothing goes on at a worker that has ended. -/
theorem run_of_ended {s s' : State} {as : List Act} {j : JobId} (hended : (s.procs j).pc = .ended)
    (hrun : Run (step cfg) (GoesOn j) s as s') : s' = s := by
  cases hrun with
  | nil => rfl
  | cons hok =>
    have hdead := hok.1
    rw [hended] at hdead
    cases hdead

theorem InFinally.run {s s' : State} {as : List Act} {j : JobId} (h : InFinally s j) (hs : Accounted cfg s)
    (hj : j < s.nextJob) (hrun : Run (Jobs.step cfg) (GoesOn j) s as s') (hended : (s'.procs j).pc = .ended) :
    Closed cfg s' j := by
  have hall := hrun.invariant (I := fun s' => (Accounted cfg s' ∧ j < s'.nextJob) ∧
      (InFinally s' j ∨ (s'.procs j).pc = .ended ∧ Closed cfg s' j)) ?_ ⟨⟨hs, hj⟩, .inl h⟩
  · rcases hall.2 with (⟨job, hpc⟩ | hpast) | hclosed
    · rw [hpc] at hended
      cases hended
    · rw [hended] at hpast
      cases hpast
    · exact hclosed.2
  · rintro s₁ a s₂ ⟨⟨hs₁, hj₁⟩, hat⟩ hok hstep
    refine ⟨⟨hs₁.step hstep, Nat.lt_of_lt_of_le hj₁ (nextJob_step hstep)⟩, ?_⟩
    rcases hat with hin | hend
    · exact hin.step hs₁ hj₁ hok hstep
    · have hdead := hok.1
      rw [hend.1] at hdead
      cases hdead

variable (cfg)

/-- A single failure at an await of `runJob`: the next jobs get by just when no uncovered await has left the record
open. -/
theorem failed_worker_releases_iff (s₀ s₁ s₂ s : State) (as bs : List Act) (j : JobId) (message : String)
    (hinit : Init s₀) (hrun : Run (step cfg) Always s₀ as s₁) (hawait : (s₁.procs j).pc.inRunJob = true)
    (hfault : step cfg s₁ (.jobReject j message) = some s₂) (hrest : Run (step cfg) (GoesOn j) s₂ bs s)
    (hended : (s.procs j).pc = .ended) :
    Releases cfg s j ↔ ((s₁.procs j).pc.uncovered = true → Closed cfg s₁ j) := by
  have hs₁ : Accounted cfg s₁ := (Accounted.of_init hinit).run hrun
  have hs₂ : Accounted cfg s₂ := hs₁.step hfault
  have hj₁ : j < s₁.nextJob := hs₁.wellFormed.drawn rfl fun habsent => by
    rw [habsent] at hawait
    cases hawait
  have hj₂ : j < s₂.nextJob := Nat.lt_of_lt_of_le hj₁ (nextJob_step hfault)
  have hs : Accounted cfg s := hs₂.run (hrest.mono fun _ _ _ => trivial)
  have hj : j < s.nextJob :=
    hrest.invariant (fun _ _ _ hlt _ hstep => Nat.lt_of_lt_of_le hlt (nextJob_step hstep)) hj₂
  rcases reject_step hs₁ hawait hfault with ⟨huncovered, rfl⟩ | ⟨hcovered, hin | ⟨hend, hclosed⟩⟩
  · -- the failure ends the call at once, with the record as it was
    obtain rfl := run_of_ended (by rw [setPc_self]) hrest
    constructor
    · intro hreleases _ job hjob
      exact hreleases.closed job (by rwa [setPc_entryOf, setPc_getJob])
    · intro hclosed
      refine .of_closed hs hj hended fun job hjob => ?_
      rw [setPc_entryOf, setPc_getJob] at hjob
      exact hclosed huncovered job hjob
  · exact iff_of_true (.of_closed hs hj hended (hin.run hs₂ hj₂ hrest hended)) fun h => by simp [hcovered] at h
  · obtain rfl := run_of_ended hend hrest
    exact iff_of_true (.of_closed hs hj hended hclosed) fun h => by simp [hcovered] at h

/-- CMS does not answer: the job is saved as failed, and its entry removed. -/
theorem failed_worker_releases_timeout : ∃ s, Run (step plainConfig) Always State.empty
    ([.createJob (compactRequest "demodb")] ++ resumes 0 9 ++ [.jobReject 0 "timeout"] ++ resumes 0 5) s ∧
    Releases plainConfig s 0 := by
  have hrun : ∃ s₁, Run (step plainConfig) Always State.empty
      ([.createJob (compactRequest "demodb")] ++ resumes 0 9) s₁ ∧
      (s₁.procs 0).pc.inRunJob = true ∧ (s₁.procs 0).pc.uncovered = false ∧
      ((step plainConfig s₁ (.jobReject 0 "timeout")).any fun s₂ =>
        (runChecked (step plainConfig) (GoesOn 0) s₂ (resumes 0 5)).any
          fun s => (s.procs 0).pc matches .ended) = true :=
    exists_run (by decide)
  obtain ⟨s₁, hrun, hawait, hcovered, hany⟩ := hrun
  obtain ⟨s₂, hfault, hany⟩ := (Option.any_eq_true _ _).1 hany
  obtain ⟨s, hrest, hmatch⟩ := (Option.any_eq_true _ _).1 hany
  have hrest := Run.of_runChecked hrest
  have hended : (s.procs 0).pc = .ended := by
    cases hpc : (s.procs 0).pc <;> rw [hpc] at hmatch <;> first | rfl | cases hmatch
  refine ⟨s, (hrun.append (.single trivial hfault)).append (hrest.mono fun _ _ _ => trivial), ?_⟩
  refine (failed_worker_releases_iff plainConfig _ s₁ s₂ s _ _ 0 "timeout" .empty hrun hawait hfault hrest hended).2 ?_
  intro huncovered
  rw [hcovered] at huncovered
  cases huncovered

/-- The record cannot be saved as running, and the next job on the database finds the entry. -/
theorem runningSave_fails : ∃ s₁, Run (step plainConfig) Always State.empty
    ([.createJob (compactRequest "demodb")] ++ resumes 0 8) s₁ ∧
    (s₁.procs 0).pc.inRunJob = true ∧ ((step plainConfig s₁ (.jobReject 0 "EIO")).any fun s₂ =>
      ((s₂.procs 0).pc matches .ended) &&
        (s₂.getJob (entryOf plainConfig s₂ 0).userKey 0).any (fun job => !isTerminalJobStatus job.status) &&
        (runChecked (step plainConfig) Always s₂ (.createJob (compactRequest "demodb") :: resumes 1 4)).any
          fun s₃ => (s₃.procs 1).pc matches .unlock false) = true :=
  exists_run (by decide)

/-- The save as running fails: the record stays queued, and the next job on the database is turned away. -/
theorem failed_worker_releases_fails : Init State.empty ∧ ∃ s₁ s₂, Run (step plainConfig) Always State.empty
    ([.createJob (compactRequest "demodb")] ++ resumes 0 8) s₁ ∧ (s₁.procs 0).pc.inRunJob = true ∧
    step plainConfig s₁ (.jobReject 0 "EIO") = some s₂ ∧ (s₂.procs 0).pc = .ended ∧ ¬Releases plainConfig s₂ 0 ∧
    ∃ s₃, Run (step plainConfig) Always s₂ (.createJob (compactRequest "demodb") :: resumes 1 4) s₃ ∧
      (s₃.procs 1).pc = .unlock false := by
  obtain ⟨s₁, hrun, hawait, hany⟩ := runningSave_fails
  obtain ⟨s₂, hfault, hany⟩ := (Option.any_eq_true _ _).1 hany
  simp only [Bool.and_eq_true] at hany
  obtain ⟨⟨hmatch, hopen⟩, hrefused⟩ := hany
  obtain ⟨job, hjob, hstatus⟩ := (Option.any_eq_true _ _).1 hopen
  obtain ⟨s₃, hnext, hunlock⟩ := (Option.any_eq_true _ _).1 hrefused
  refine ⟨.empty, s₁, s₂, hrun, hawait, hfault, ?_, fun hreleases => ?_, s₃, .of_runChecked hnext, ?_⟩
  · cases hpc : (s₂.procs 0).pc <;> rw [hpc] at hmatch <;> first | rfl | cases hmatch
  · rw [hreleases.closed job hjob] at hstatus
    cases hstatus
  · cases hpc : (s₃.procs 1).pc with
    | unlock passed =>
      rw [hpc] at hunlock
      cases passed with
      | true => cases hunlock
      | false => rfl
    | _ =>
      rw [hpc] at hunlock
      cases hunlock

end CubridWebManager.Jobs
