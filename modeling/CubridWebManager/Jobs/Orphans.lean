import CubridWebManager.Jobs.Records
import CubridWebManager.Jobs.MapHistory
import Mathlib.Data.List.Dedup

/-!
# The orphans that a recovery has listed

The startup recovery lists the jobs whose records say queued or running, keeps copies of the records, and finalizes them
one after another, with a poll of CMS between two of them.  Where it only lists jobs without a call in this process, its
copies agree with the files until it stores them (`OrphansFit`): nobody else stores the record of such a job.
-/

namespace CubridWebManager.Jobs

open Transition

variable {cfg : JobConfig}

/-- The steps that a job's status may take. -/
inductive StatusStep : CmsJobStatus → CmsJobStatus → Prop
  | start : StatusStep .queued .running
  | succeed : StatusStep .running .succeeded
  | fail : StatusStep .running .failed
  | giveUp : StatusStep .queued .failed

/-- No call of the job is in progress, and none will be. -/
def JobPc.dead : JobPc → Bool
  | .absent | .ended => true
  | _ => false

theorem isActiveJobStatus_eq (job : CmsJobRecord) : isActiveJobStatus job = !isTerminalJobStatus job.status := by
  unfold isActiveJobStatus
  cases job.status <;> rfl

/-! ### What a recovery has still to do -/

abbrev Orphan := String × CmsJobRecord

/-- The file of an orphan. -/
def fileOf (x : Orphan) : String × JobId := (x.1, x.2.jobId)

/-- The orphans among the records of a user that are read. -/
def RecoveryCursor.found (c : RecoveryCursor) : List Orphan :=
  (c.jobs.filter isActiveJobStatus).map fun job => (c.user, job)

theorem RecoveryCursor.found_perm (c : RecoveryCursor) : c.userOrphans.Perm c.found :=
  ((List.mergeSort_perm c.jobs fun a b => b.createdAt ≤ a.createdAt).filter _).map _

namespace SweepPc

/-- The orphans that the recovery has listed and not begun to finalize. -/
def pending : SweepPc → List Orphan
  | .recoveryDir _ orphans => orphans
  | .recoveryRead c _ => c.orphans ++ c.found
  | .reconcile rest user job => (user, job) :: rest
  | .orphanSave c | .orphanUserOps c | .orphanGlobalRead c | .orphanGlobalWrite c _ => c.rest
  | _ => []

/-- The files that the recovery has listed and not read. -/
def unread : SweepPc → List (String × JobId)
  | .recoveryRead c j => (j :: c.files).map fun i => (c.user, i)
  | _ => []

/-- The users whose files the recovery has not listed. -/
def usersLeft : SweepPc → List String
  | .recoveryDir users _ => users
  | .recoveryRead c _ => c.users
  | _ => []

def recovering : SweepPc → Bool
  | .recoveryRoot | .recoveryDir _ _ | .recoveryRead _ _ | .reconcile _ _ _ | .orphanSave _ | .orphanUserOps _
  | .orphanGlobalRead _ | .orphanGlobalWrite _ _ => true
  | _ => false

theorem mem_ids_of_pending {sw : SweepPc} {x : Orphan} (hx : x ∈ sw.pending) : x.2.jobId ∈ sw.ids := by
  cases sw with
  | recoveryDir users orphans => exact List.mem_map_of_mem hx
  | recoveryRead c j =>
    rcases List.mem_append.1 hx with hx | hx
    · exact List.mem_append_right _ (List.mem_map_of_mem hx)
    · obtain ⟨job, hjob, rfl⟩ := List.mem_map.1 hx
      exact List.mem_append_left _ (List.mem_map_of_mem (List.mem_of_mem_filter hjob))
  | reconcile rest user job =>
    rcases List.mem_cons.1 hx with rfl | hx
    · exact List.mem_cons_self
    · exact List.mem_cons_of_mem _ (List.mem_map_of_mem hx)
  | orphanSave c | orphanUserOps c | orphanGlobalRead c | orphanGlobalWrite c ops =>
    exact List.mem_cons_of_mem _ (List.mem_map_of_mem hx)
  | _ => cases hx

theorem mem_ids_of_finalizing {sw : SweepPc} {c : OrphanCursor} (hc : sw.finalizing = some c) :
    c.job.jobId ∈ sw.ids := by
  cases sw <;> cases hc <;> exact List.mem_cons_self

end SweepPc

/-! ### What holds of it -/

/-- The copy of an orphan agrees with its file, which nobody else writes. -/
structure OrphanFits (s : State) (x : Orphan) : Prop where
  active : isTerminalJobStatus x.2.status = false
  dead : (s.procs x.2.jobId).pc.dead = true
  fresh : x.2.status = .queued → x.2.cmsUuid = none
  stored : ∀ f, s.getJob x.1 x.2.jobId = some f → f.status = x.2.status

/-- The record that the recovery is about to store is the next one of the file. -/
structure CurrentFits (s : State) (c : OrphanCursor) : Prop where
  terminal : isTerminalJobStatus c.job.status = true
  stored : ∀ f, s.getJob c.user c.job.jobId = some f → StatusStep f.status c.job.status
  other : (c.user, c.job.jobId) ∉ c.rest.map fileOf

/-- The orphans of a list agree with their files, and no two of them have one file. -/
structure ListFits (s : State) (l : List Orphan) : Prop where
  fits : ∀ x ∈ l, OrphanFits s x
  files : (l.map fileOf).Nodup

structure OrphansFit (s : State) (sw : SweepPc) : Prop where
  list : ListFits s sw.pending
  unread : sw.unread.Nodup
  listed : ∀ x ∈ sw.pending, fileOf x ∉ sw.unread
  users : sw.usersLeft.Nodup
  pendingUsers : ∀ x ∈ sw.pending, x.1 ∉ sw.usersLeft
  unreadUsers : ∀ k ∈ sw.unread, k.1 ∉ sw.usersLeft
  finalizing : ∀ c, sw.finalizing = some c → (s.procs c.job.jobId).pc.dead = true
  current : ∀ c, sw = .orphanSave c → CurrentFits s c
  reconciling : ∀ rest user job, sw = .reconcile rest user job → job.cmsUuid ≠ none

theorem StatusStep.of_active {status : CmsJobStatus} (h : isTerminalJobStatus status = false) :
    StatusStep status .failed := by
  cases status with
  | queued => exact .giveUp
  | running => exact .fail
  | succeeded | failed => cases h

theorem StatusStep.active {status status' : CmsJobStatus} (h : StatusStep status status') :
    isTerminalJobStatus status = false := by
  cases h <;> rfl

namespace ListFits

variable {s : State} {l l' : List Orphan}

theorem nil : ListFits s [] := ⟨fun x hx => by simp at hx, List.nodup_nil⟩

theorem perm (h : ListFits s l) (hperm : l'.Perm l) : ListFits s l' :=
  ⟨fun x hx => h.fits x (hperm.mem_iff.1 hx), ((hperm.map fileOf).nodup_iff).2 h.files⟩

theorem tail {x : Orphan} (h : ListFits s (x :: l)) : ListFits s l :=
  ⟨fun y hy => h.fits y (List.mem_cons_of_mem _ hy), (List.nodup_cons.1 h.files).2⟩

/-- The first orphan of the list is given up on. -/
theorem interrupted {user : String} {job : CmsJobRecord} {rest : List Orphan} (h : ListFits s ((user, job) :: rest))
    (now : Nat) : CurrentFits s ⟨rest, user, interruptedJob job now, false⟩ where
  terminal := rfl
  stored f hf := by
    have hfits := h.fits _ List.mem_cons_self
    have hstatus : f.status = job.status := hfits.stored f hf
    rw [hstatus]
    exact .of_active hfits.active
  other := (List.nodup_cons.1 h.files).1

/-- The outcome of the first orphan of the list is known. -/
theorem reconciled {user : String} {job : CmsJobRecord} {rest : List Orphan} (h : ListFits s ((user, job) :: rest))
    (huuid : job.cmsUuid ≠ none) (outcome : CmsOutcome) (finishedAt : Option Nat) :
    CurrentFits s ⟨rest, user, { applyCmsOutcome job outcome with finishedAt := finishedAt }, true⟩ where
  terminal := applyCmsOutcome_terminal _ _
  stored f hf := by
    have hfits := h.fits _ List.mem_cons_self
    have hstatus : f.status = job.status := by
      refine hfits.stored f ?_
      cases outcome <;> exact hf
    have hrunning : job.status = .running := by
      have hactive := hfits.active
      have hfresh := hfits.fresh
      cases hs : job.status with
      | running => rfl
      | queued => exact absurd (hfresh hs) huuid
      | succeeded | failed =>
        rw [hs] at hactive
        cases hactive
    rw [hstatus, hrunning]
    cases outcome with
    | succeeded => exact .succeed
    | failed => exact .fail
  other := by
    have hother := (List.nodup_cons.1 h.files).1
    cases outcome <;> exact hother

end ListFits

namespace OrphansFit

variable {s : State}

/-- A purge, or a call that is idle, has nothing to do as a recovery. -/
theorem of_quiet {sw : SweepPc} (h : sw.recovering = false) : OrphansFit s sw := by
  have hpending : sw.pending = [] := by cases sw <;> first | rfl | cases h
  have hunread : sw.unread = [] := by cases sw <;> first | rfl | cases h
  have husers : sw.usersLeft = [] := by cases sw <;> first | rfl | cases h
  have hfinalizing : sw.finalizing = none := by cases sw <;> first | rfl | cases h
  refine ⟨?_, ?_, ?_, ?_, ?_, ?_, ?_, ?_, ?_⟩
  · rw [hpending]
    exact .nil
  · rw [hunread]
    exact List.nodup_nil
  · simp [hpending]
  · rw [husers]
    exact List.nodup_nil
  · simp [hpending]
  · simp [hunread]
  · simp [hfinalizing]
  · rintro c rfl
    cases h
  · rintro rest user job rfl
    cases h

/-- The recovery has listed everything. -/
theorem of_listed {sw : SweepPc} (hlist : ListFits s sw.pending) (hunread : sw.unread = []) (husers : sw.usersLeft = [])
    (hfinalizing : ∀ c, sw.finalizing = some c → (s.procs c.job.jobId).pc.dead = true)
    (hcurrent : ∀ c, sw = .orphanSave c → CurrentFits s c)
    (hreconciling : ∀ rest user job, sw = .reconcile rest user job → job.cmsUuid ≠ none) : OrphansFit s sw where
  list := hlist
  unread := hunread ▸ List.nodup_nil
  listed := by simp [hunread]
  users := husers ▸ List.nodup_nil
  pendingUsers := by simp [husers]
  unreadUsers := by simp [hunread]
  finalizing := hfinalizing
  current := hcurrent
  reconciling := hreconciling

/-- The recovery comes to store the record of an orphan. -/
theorem orphanSave {c : OrphanCursor} (hlist : ListFits s c.rest) (hcurrent : CurrentFits s c)
    (hdead : (s.procs c.job.jobId).pc.dead = true) : OrphansFit s (.orphanSave c) := by
  refine of_listed hlist rfl rfl (fun c' heq => ?_) (fun c' heq => ?_) fun _ _ _ heq => SweepPc.noConfusion heq
  · rw [← Option.some.inj heq]
    exact hdead
  · rw [← SweepPc.orphanSave.inj heq]
    exact hcurrent

/-- The recovery is past the write of the record. -/
theorem of_stored {sw : SweepPc} {c : OrphanCursor} (hsw : sw.finalizing = some c) (hlist : ListFits s c.rest)
    (hdead : (s.procs c.job.jobId).pc.dead = true) (hnot : ∀ c, sw ≠ .orphanSave c) : OrphansFit s sw := by
  refine of_listed ?_ ?_ ?_ (fun c' heq => ?_) (fun c heq => absurd heq (hnot c)) fun rest user job heq => ?_
  · cases sw <;> cases hsw <;> exact hlist
  · cases sw <;> cases hsw <;> rfl
  · cases sw <;> cases hsw <;> rfl
  · rw [← Option.some.inj (hsw.symm.trans heq)]
    exact hdead
  · rw [heq] at hsw
    cases hsw

/-- The recovery turns to its next orphan. -/
theorem nextOrphan {l : List Orphan} (h : ListFits s l) (now : Nat) : OrphansFit s (nextOrphan now l) := by
  unfold Jobs.nextOrphan
  split
  · exact of_quiet rfl
  · rename_i user job rest
    split
    · exact orphanSave h.tail (h.interrupted now) (h.fits _ List.mem_cons_self).dead
    · rename_i hreconcile
      refine of_listed h rfl rfl (fun _ heq => by cases heq) (fun _ heq => SweepPc.noConfusion heq)
        fun rest' user' job' heq hnone => ?_
      rw [← (SweepPc.reconcile.inj heq).2.2] at hnone
      exact hreconcile (.inl hnone)

end OrphansFit

/-- The position of a recovery in its listing. -/
structure CursorFits (s : State) (c : RecoveryCursor) : Prop where
  list : ListFits s (c.orphans ++ c.found)
  unread : c.files.Nodup
  listed : ∀ x ∈ c.orphans ++ c.found, fileOf x ∉ c.files.map fun i => (c.user, i)
  users : c.users.Nodup
  pendingUsers : ∀ x ∈ c.orphans ++ c.found, x.1 ∉ c.users
  unreadUsers : c.files = [] ∨ c.user ∉ c.users

theorem CursorFits.next {s : State} {c : RecoveryCursor} (h : CursorFits s c) (now : Nat) :
    OrphansFit s (c.next now) := by
  have hperm : (c.orphans ++ c.userOrphans).Perm (c.orphans ++ c.found) := c.found_perm.append_left _
  unfold RecoveryCursor.next
  split
  · rename_i j rest hfiles
    have hnodup := h.unread
    have hlisted := h.listed
    rw [hfiles] at hnodup hlisted
    refine ⟨h.list, ?_, hlisted, h.users, h.pendingUsers, ?_,
      fun _ heq => (by cases heq), fun _ heq => SweepPc.noConfusion heq, fun _ _ _ heq => SweepPc.noConfusion heq⟩
    · exact hnodup.map fun _ _ heq => (Prod.mk.inj heq).2
    · intro k hk
      obtain ⟨i, -, rfl⟩ := List.mem_map.1 hk
      rcases h.unreadUsers with hnil | huser
      · rw [hfiles] at hnil
        cases hnil
      · exact huser
  · split
    · exact .nextOrphan (h.list.perm hperm) now
    · exact {
        list := h.list.perm hperm
        unread := List.nodup_nil
        listed := fun _ _ hk => List.not_mem_nil hk
        users := h.users
        pendingUsers := fun x hx => h.pendingUsers x (hperm.mem_iff.1 hx)
        unreadUsers := fun _ hk => absurd hk List.not_mem_nil
        finalizing := fun _ heq => by cases heq
        current := fun _ heq => SweepPc.noConfusion heq
        reconciling := fun _ _ _ heq => SweepPc.noConfusion heq }

/-! ### The steps of the recovery -/

/-- The recovery reads no queued or running record of a job with a call in progress, writes the map that is on disk less
the entries of its orphan, and does not fail between the write of a known outcome and the next orphan. -/
def RecoveryMeets (s : State) : Act → Prop
  | .sweepResume p => match s.sweeps p with
    | .recoveryRead c j => ∀ job ∈ s.getJob c.user j, isActiveJobStatus job = true → (s.procs j).pc.dead = true
    | .orphanGlobalWrite c ops => SameEntries ops (removeJobId s.globalOps c.job.jobId)
    | _ => True
  | .sweepReject p => match s.sweeps p with
    | .orphanUserOps c | .orphanGlobalRead c | .orphanGlobalWrite c _ => c.reconciled = false
    | _ => True
  | _ => True

instance (s : State) (a : Act) : Decidable (RecoveryMeets s a) := by
  delta RecoveryMeets
  induction a using Act.casesOn <;> dsimp only <;> try exact .isTrue trivial
  case sweepResume p => generalize s.sweeps p = pc; induction pc using SweepPc.casesOn <;> dsimp only <;> infer_instance
  case sweepReject p => generalize s.sweeps p = pc; induction pc using SweepPc.casesOn <;> dsimp only <;> infer_instance

/-- Where an orphan with a known outcome is given up on, its record is not stored yet. -/
theorem RecoveryMeets.again {s : State} {p : Nat} {c : OrphanCursor} (hok : RecoveryMeets s (.sweepReject p))
    (hold : (s.sweeps p).finalizing = some c) (hreconciled : c.reconciled = true) : s.sweeps p = .orphanSave c := by
  cases hsw : s.sweeps p <;> rw [hsw] at hold <;> cases hold
  · rfl
  all_goals
    rw [RecoveryMeets, hsw] at hok
    rw [hok] at hreconciled
    cases hreconciled

/-- A queued record has no uuid of a CMS task. -/
def QueuedFresh (s : State) : Prop := ∀ u j job, s.getJob u j = some job → job.status = .queued → job.cmsUuid = none

theorem PurgeCursor.next_recovering (c : PurgeCursor) : c.next.recovering = false := by
  unfold PurgeCursor.next
  split
  · rfl
  · split <;> rfl

theorem ListFits.mono {s s' : State} {l : List Orphan} (h : ListFits s l)
    (hkeep : ∀ x ∈ l, (s.procs x.2.jobId).pc.dead = true → (s'.procs x.2.jobId).pc.dead = true ∧
      ∀ f, s'.getJob x.1 x.2.jobId = some f → s.getJob x.1 x.2.jobId = some f) : ListFits s' l := by
  refine ⟨fun x hx => ?_, h.files⟩
  have hfits := h.fits x hx
  obtain ⟨hdead, hfiles⟩ := hkeep x hx hfits.dead
  exact ⟨hfits.active, hdead, hfits.fresh, fun f hf => hfits.stored f (hfiles f hf)⟩

namespace OrphansFit

variable {s s' : State} {p : Nat} {sw : SweepPc}

/-- The calls of the orphans stay dead, and no file of an orphan is stored. -/
theorem mono (h : OrphansFit s sw) (hkeep : ∀ i ∈ sw.ids, (s.procs i).pc.dead = true →
    (s'.procs i).pc.dead = true ∧ ∀ u f, s'.getJob u i = some f → s.getJob u i = some f) : OrphansFit s' sw := by
  refine { h with
    list := h.list.mono fun x hx hdead => ?_
    finalizing := fun c hc => (hkeep _ (SweepPc.mem_ids_of_finalizing hc) (h.finalizing c hc)).1
    current := fun c hc => ?_ }
  · obtain ⟨hdead', hfiles⟩ := hkeep _ (SweepPc.mem_ids_of_pending hx) hdead
    exact ⟨hdead', hfiles _⟩
  · have hfits := h.current c hc
    have hfinal : sw.finalizing = some c := by rw [hc]; rfl
    obtain ⟨-, hfiles⟩ := hkeep _ (SweepPc.mem_ids_of_finalizing hfinal) (h.finalizing c hfinal)
    exact ⟨hfits.terminal, fun f hf => hfits.stored f (hfiles _ f hf), hfits.other⟩

theorem same (h : OrphansFit s sw) (hprocs : s'.procs = s.procs) (hfiles : s'.files = s.files) : OrphansFit s' sw :=
  h.mono fun i _ hdead => ⟨hprocs ▸ hdead, fun u f hf => by rwa [State.getJob, ← hfiles]⟩

/-- The recovery lists the files of a user. -/
theorem listFiles {user : String} {users : List String} {orphans : List Orphan} {files : List JobId}
    (h : OrphansFit s (.recoveryDir (user :: users) orphans)) (hfiles : files.Nodup) :
    CursorFits s ⟨users, user, files, [], orphans⟩ := by
  have hpending : orphans ++ RecoveryCursor.found ⟨users, user, files, [], orphans⟩ = orphans := List.append_nil _
  refine ⟨?_, hfiles, ?_, h.users.of_cons, ?_, .inr (List.nodup_cons.1 h.users).1⟩
  · rw [hpending]
    exact h.list
  · intro x hx hmem
    rw [hpending] at hx
    obtain ⟨i, -, heq⟩ := List.mem_map.1 hmem
    refine h.pendingUsers x hx ?_
    rw [← (Prod.mk.inj heq).1]
    exact List.mem_cons_self
  · intro x hx hmem
    rw [hpending] at hx
    exact h.pendingUsers x hx (List.mem_cons_of_mem _ hmem)

/-- The recovery gives up reading a file, or reads a record that says the job has ended. -/
theorem skipFile {c : RecoveryCursor} {j : JobId} (h : OrphansFit s (.recoveryRead c j)) {jobs : List CmsJobRecord}
    (hjobs : jobs.filter isActiveJobStatus = c.jobs.filter isActiveJobStatus) :
    CursorFits s { c with jobs := jobs } := by
  have hfound : RecoveryCursor.found { c with jobs := jobs } = c.found := by
    simp only [RecoveryCursor.found, hjobs]
  have hunread : ((j :: c.files).map fun i => (c.user, i)).Nodup := h.unread
  refine ⟨?_, (List.Nodup.of_map _ hunread).of_cons, ?_, h.users, ?_, .inr (h.unreadUsers (c.user, j) List.mem_cons_self)⟩
  · rw [hfound]
    exact h.list
  · intro x hx hmem
    rw [hfound] at hx
    exact h.listed x hx (List.mem_cons_of_mem _ hmem)
  · intro x hx
    rw [hfound] at hx
    exact h.pendingUsers x hx

/-- The recovery finds an orphan. -/
theorem readFile {c : RecoveryCursor} {j : JobId} (h : OrphansFit s (.recoveryRead c j)) (hqueued : QueuedFresh s)
    {job : CmsJobRecord} (hget : s.getJob c.user j = some job) (hid : job.jobId = j)
    (hactive : isActiveJobStatus job = true) (hdead : (s.procs j).pc.dead = true) :
    CursorFits s { c with jobs := c.jobs ++ [job] } := by
  subst hid
  have hfound : RecoveryCursor.found { c with jobs := c.jobs ++ [job] } = c.found ++ [(c.user, job)] := by
    simp only [RecoveryCursor.found, List.filter_append, List.map_append, List.filter_cons, hactive, if_true,
      List.filter_nil, List.map_cons, List.map_nil]
  have hmem : ∀ {x}, x ∈ c.orphans ++ (c.found ++ [(c.user, job)]) ↔ x ∈ c.orphans ++ c.found ∨ x = (c.user, job) := by
    intro x
    rw [← List.append_assoc, List.mem_append, List.mem_singleton]
  have hunread : ((job.jobId :: c.files).map fun i => (c.user, i)).Nodup := h.unread
  have hnew : OrphanFits s (c.user, job) := by
    refine ⟨?_, hdead, hqueued _ _ job hget, fun f hf => ?_⟩
    · rw [isActiveJobStatus_eq] at hactive
      simpa using hactive
    · rw [Option.some.inj (hf.symm.trans hget)]
  refine ⟨⟨?_, ?_⟩, (List.Nodup.of_map _ hunread).of_cons, ?_, h.users, ?_,
    .inr (h.unreadUsers (c.user, job.jobId) List.mem_cons_self)⟩
  · intro x hx
    rw [hfound, hmem] at hx
    rcases hx with hx | rfl
    · exact h.list.fits x hx
    · exact hnew
  · rw [hfound, ← List.append_assoc, List.map_append, List.nodup_append]
    refine ⟨h.list.files, List.nodup_singleton _, fun k hk k' hk' => ?_⟩
    obtain ⟨x, hx, rfl⟩ := List.mem_map.1 hk
    rintro rfl
    refine h.listed x hx ?_
    rw [List.mem_singleton.1 hk']
    exact List.mem_cons_self
  · intro x hx hlater
    rw [hfound, hmem] at hx
    rcases hx with hx | rfl
    · exact h.listed x hx (List.mem_cons_of_mem _ hlater)
    · exact (List.nodup_cons.1 hunread).1 hlater
  · intro x hx
    rw [hfound, hmem] at hx
    rcases hx with hx | rfl
    · exact h.pendingUsers x hx
    · exact h.unreadUsers (c.user, job.jobId) List.mem_cons_self

/-- The recovery stores the record of an orphan. -/
theorem stored {c : OrphanCursor} (h : OrphansFit s (.orphanSave c)) :
    OrphansFit (s.saveJob c.user c.job) (.orphanUserOps c) := by
  refine of_stored (c := c) rfl (h.list.mono fun x hx hdead => ⟨hdead, fun f hf => ?_⟩) (h.finalizing c rfl)
    fun _ heq => SweepPc.noConfusion heq
  rw [getJob_saveJob] at hf
  split at hf
  · rename_i heq
    refine absurd ?_ (h.current c rfl).other
    rw [← heq.1, ← heq.2]
    exact List.mem_map_of_mem hx
  · exact hf

/-- Storing the record of an orphan fails, and the orphan is given up on. -/
theorem saveAgain {c : OrphanCursor} (h : OrphansFit s (.orphanSave c)) (now : Nat) :
    OrphansFit s (.orphanSave { c with job := interruptedJob c.job now, reconciled := false }) := by
  have hcurrent := h.current c rfl
  refine orphanSave h.list ⟨rfl, fun f hf => ?_, hcurrent.other⟩ (h.finalizing c rfl)
  exact .of_active (hcurrent.stored f hf).active

theorem sweepStep (h : OrphansFit s (s.sweeps p)) (hw : WellFormed cfg s) (hqueued : QueuedFresh s) {a : Act}
    (hok : RecoveryMeets s a) {new : SweepPc} {s₁ : State} (hstep : SweepStep cfg s p a (s.sweeps p) new s₁) :
    OrphansFit (s₁.setSweep p new) new := by
  generalize hsw : s.sweeps p = old at h hstep
  suffices hnew : OrphansFit s₁ new from hnew.same rfl rfl
  cases hstep with
  | purge | stop | missing | unreadable | doom | purgeUserOps | purgeGlobalRead => exact of_quiet rfl
  | users | files | skip | spare | keep | purgeDone | purgeGlobalWrite => exact of_quiet (PurgeCursor.next_recovering _)
  | unlink =>
    split
    · exact of_quiet rfl
    · exact of_quiet (PurgeCursor.next_recovering _)
  | recover =>
    exact of_listed .nil rfl rfl (fun _ heq => by cases heq) (fun _ heq => SweepPc.noConfusion heq)
      fun _ _ _ heq => SweepPc.noConfusion heq
  | @orphanUsers users hperm =>
    have husers : users.Nodup := hperm.nodup_iff.2 (List.nodup_dedup _)
    exact CursorFits.next (c := ⟨users, "", [], [], []⟩)
      ⟨.nil, List.nodup_nil, by simp, husers, by simp [RecoveryCursor.found], .inl rfl⟩ s.now
  | @orphanFiles user users orphans files hperm =>
    have hkeys : (s.files.keys.filter fun k => k.1 = user).Nodup := s.files.nodup.filter _
    have hfiles : files.Nodup := by
      refine hperm.nodup_iff.2 (hkeys.map_on fun k hk k' hk' heq => ?_)
      have huser := of_decide_eq_true (List.mem_filter.1 hk).2
      have huser' := of_decide_eq_true (List.mem_filter.1 hk').2
      exact Prod.ext (huser.trans huser'.symm) heq
    exact (h.listFiles hfiles).next s.now
  | @orphanRead c j =>
    rw [RecoveryMeets, hsw] at hok
    cases hget : s.getJob c.user j with
    | none => exact (h.skipFile (congrArg _ (List.append_nil _))).next s.now
    | some job =>
      by_cases hactive : isActiveJobStatus job = true
      · exact (h.readFile hqueued hget (hw.files _ _ _ hget).1 hactive (hok job hget hactive)).next s.now
      · refine (h.skipFile ?_).next s.now
        simp [List.filter_append, hactive]
  | @orphanUnread c j => exact (h.skipFile (Eq.refl (c.jobs.filter _))).next s.now
  | @reconciled rest user job outcome =>
    refine orphanSave h.list.tail (h.list.reconciled (h.reconciling _ _ _ rfl) _ _) ?_
    have hdead := (h.list.fits (user, job) List.mem_cons_self).dead
    rwa [← applyCmsOutcome_jobId job outcome] at hdead
  | interrupted =>
    exact orphanSave h.list.tail (h.list.interrupted _) (h.list.fits _ List.mem_cons_self).dead
  | orphanSave => exact h.stored
  | orphanUserOps | orphanGlobalRead =>
    exact of_stored rfl h.list (h.finalizing _ rfl) fun _ heq => SweepPc.noConfusion heq
  | orphanDone => exact nextOrphan h.list s.now
  | orphanGlobalWrite => exact (nextOrphan h.list s.now).same rfl rfl
  | @again _ c hold hreconciled =>
    rw [← hsw, hok.again (hsw ▸ hold) hreconciled] at h
    exact h.saveAgain s.now

end OrphansFit

end CubridWebManager.Jobs
