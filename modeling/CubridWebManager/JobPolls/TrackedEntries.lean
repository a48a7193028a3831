import CubridWebManager.JobPolls.TrackedJob
import Mathlib.Data.List.Nodup

/-!
# The entries of the list of tracked jobs

What the operations on the list do to its entries.  An entry `Shows` the last answer of the server for its job: it has
that answer's status, or `queued`.  The list is kept `Tidy`, an operation on one job `Keeps` the entries of the others,
and a poll that gives up leaves the status that the entry shows.
-/

namespace CubridWebManager.JobPolls

/-! ### The status of a record -/

theorem Lifecycle.ofString?_name (l : Lifecycle) : Lifecycle.ofString? l.name = some l := by cases l <;> rfl

theorem Lifecycle.name_ne_empty (l : Lifecycle) : l.name ≠ "" := by cases l <;> decide

theorem Lifecycle.name_eq_failed {l : Lifecycle} : l.name = "failed" ↔ l = .failed := by
  cases l <;> simp [Lifecycle.name]

theorem truthy_name (l : Lifecycle) : truthy (some l.name) = some l.name := by
  simp [truthy, Option.filter, l.name_ne_empty]

/-- A lifecycle status in `jobStatus` is the status. -/
theorem JobRecord.lifecycle_of_jobStatus {r : JobRecord} {l : Lifecycle} (h : r.jobStatus = some (some l.name)) :
    r.lifecycle = some l := by
  simp [JobRecord.lifecycle, JobRecord.toJob, resolveCmsJobStatus, h, truthy_name, Lifecycle.ofString?_name]

/-- A record has no status if `jobStatus` is no lifecycle status, or is not there and neither is `status` one, and if
the job has not finished. -/
theorem JobRecord.lifecycle_eq_none {r : JobRecord} :
    r.lifecycle = none ↔
      ((truthy r.jobStatus.join).or (r.status.join.filter fun s => (Lifecycle.ofString? s).isSome)).bind
        Lifecycle.ofString? = none ∧ truthy r.finishedAt.join = none := by
  simp only [JobRecord.lifecycle, JobRecord.toJob, resolveCmsJobStatus, Option.orElse_eq_orElse, Option.orElse_eq_or]
  rw [Option.or_eq_none_iff, Option.map_eq_none_iff]

theorem getJob_of_lifecycle {r : JobRecord} {l : Lifecycle} (h : r.lifecycle = some l) :
    getJob r = { r with jobStatus := some (some l.name) } := by
  simp only [getJob, h]

theorem getJob_of_none {r : JobRecord} (h : r.lifecycle = none) : getJob r = r := by
  simp only [getJob, h]

theorem lifecycle_getJob (r : JobRecord) : (getJob r).lifecycle = r.lifecycle := by
  cases h : r.lifecycle with
  | none => rw [getJob_of_none h, h]
  | some l => rw [getJob_of_lifecycle h]; exact JobRecord.lifecycle_of_jobStatus rfl

@[simp] theorem getJob_jobId (r : JobRecord) : (getJob r).jobId = r.jobId := by unfold getJob; split <;> rfl

@[simp] theorem getJob_outcomeUnknown (r : JobRecord) : (getJob r).outcomeUnknown = r.outcomeUnknown := by
  unfold getJob; split <;> rfl

@[simp] theorem getJob_finishedAt (r : JobRecord) : (getJob r).finishedAt = r.finishedAt := by
  unfold getJob; split <;> rfl

/-! ### The poll -/

/-- The result of the poll's promise, with what the polls' model has of a record. -/
def PollOutcome.result : PollOutcome → PollResult
  | .resolved job => .resolved (some job.toJob)
  | .rejected (.terminalFailure message job) => .rejected (.terminalFailure message (some job.toJob))
  | .rejected (.statusUnavailable message jobId lastKnownJob) =>
    .rejected (.statusUnavailable message jobId (lastKnownJob.map JobRecord.toJob))

/-- The poll as the tracking sees it is the poll of the polls' model. -/
def Polled.Of (p : Poll) : Polled → Prop
  | .polling consecutiveErrors lastKnownJob =>
    p.inner = none ∧ p.consecutiveErrors = consecutiveErrors ∧ p.lastKnownJob = lastKnownJob.map JobRecord.toJob
  | .settled outcome => p.inner = some outcome.result

/-! ### The entries -/

/-- The status that an entry shows for a job of which the server said this last. -/
def shownStatus (heard : Option JobRecord) : Lifecycle := (heard.bind JobRecord.lifecycle).getD .queued

/-- The entry shows the last answer; where that has no status, the job has not finished by it. -/
structure Shows (heard : Option JobRecord) (entry : JobRecord) : Prop where
  jobStatus : entry.jobStatus = some (some (shownStatus heard).name)
  unfinished : ∀ answer, heard = some answer → answer.lifecycle = none → truthy entry.finishedAt.join = none

theorem normalizeTrackedJob_jobStatus (now : String) (r : JobRecord) :
    (normalizeTrackedJob now r {}).jobStatus = some (some (r.lifecycle.getD .queued).name) := by
  cases h : r.lifecycle <;> simp [normalizeTrackedJob, h, truthy, Lifecycle.name]

theorem normalizeTrackedJob_of_lifecycle {now : String} {r fallback : JobRecord} {l : Lifecycle}
    (h : r.lifecycle = some l) : (normalizeTrackedJob now r fallback).jobStatus = some (some l.name) := by
  simp [normalizeTrackedJob, h]

/-- The entry of the job, after a patch. -/
def patched (jobId : String) (patch base : JobRecord) : JobRecord :=
  { base.spread patch with jobId := some (some jobId) }

section

variable (jobId : String) (patch base : JobRecord)

@[simp] theorem patched_id : (patched jobId patch base).id = some jobId := rfl

@[simp] theorem patched_jobStatus : (patched jobId patch base).jobStatus = patch.jobStatus.or base.jobStatus := rfl

@[simp] theorem patched_status : (patched jobId patch base).status = patch.status.or base.status := rfl

@[simp] theorem patched_outcomeUnknown :
    (patched jobId patch base).outcomeUnknown = patch.outcomeUnknown.or base.outcomeUnknown := rfl

@[simp] theorem patched_finishedAt : (patched jobId patch base).finishedAt = patch.finishedAt.or base.finishedAt := rfl

end

@[simp] theorem normalizeTrackedJob_finishedAt (now : String) (r fallback : JobRecord) :
    (normalizeTrackedJob now r fallback).finishedAt = some r.finishedAt.join := rfl

@[simp] theorem normalizeTrackedJob_status (now : String) (r fallback : JobRecord) :
    (normalizeTrackedJob now r fallback).status = none := rfl

@[simp] theorem normalizeTrackedJob_outcomeUnknown (now : String) (r fallback : JobRecord) :
    (normalizeTrackedJob now r fallback).outcomeUnknown = some (some (r.outcomeUnknown.join.getD false)) := rfl

/-- The record says what was heard of the job. -/
structure Conveys (heard : Option JobRecord) (record : JobRecord) : Prop where
  lifecycle : record.lifecycle.getD .queued = shownStatus heard
  unfinished : ∀ answer, heard = some answer → answer.lifecycle = none → truthy record.finishedAt.join = none

/-- An answer says what it says. -/
theorem conveys_answer {record answer : JobRecord} (hlifecycle : record.lifecycle = answer.lifecycle)
    (hfinished : record.finishedAt = answer.finishedAt) : Conveys (some answer) record where
  lifecycle := by rw [hlifecycle, shownStatus, Option.bind_some]
  unfinished := by
    intro a ha h
    cases ha
    rw [hfinished]
    exact (JobRecord.lifecycle_eq_none.1 h).2

/-- A record of a queued job says no more than what is known of a job that nothing was heard of. -/
theorem conveys_queued {record : JobRecord} (h : record.jobStatus = some (some "queued")) : Conveys none record where
  lifecycle := by
    rw [JobRecord.lifecycle_of_jobStatus (l := .queued) h, Option.getD_some, shownStatus, Option.bind_none,
      Option.getD_none]
  unfinished := by
    intro a ha
    cases ha

/-- An entry that gets a record shows what the record says. -/
theorem Conveys.shows {heard : Option JobRecord} {record : JobRecord} (h : Conveys heard record) (now jobId : String)
    (base : JobRecord) : Shows heard (patched jobId (normalizeTrackedJob now record {}) base) where
  jobStatus := by rw [patched_jobStatus, normalizeTrackedJob_jobStatus, h.lifecycle, Option.some_or]
  unfinished := by
    intro answer ha hnone
    rw [patched_finishedAt, normalizeTrackedJob_finishedAt, Option.some_or]
    exact h.unfinished answer ha hnone

/-- The entry that gets the status `queued` shows it. -/
theorem shows_queued (jobId : String) (base : JobRecord) :
    Shows none (patched jobId { jobStatus := some (some "queued") } base) where
  jobStatus := by
    rw [patched_jobStatus, Option.some_or, shownStatus, Option.bind_none, Option.getD_none, Lifecycle.name]
  unfinished := by
    intro a ha
    cases ha

/-! ### The list -/

theorem exists_split_of_findIdx? {α : Type} {p : α → Bool} {l : List α} {idx : Nat} (h : l.findIdx? p = some idx) :
    ∃ l₁ a l₂, l = l₁ ++ a :: l₂ ∧ l₁.length = idx ∧ p a = true := by
  obtain ⟨hlt, hp, -⟩ := List.findIdx?_eq_some_iff_getElem.1 h
  refine ⟨l.take idx, l[idx], l.drop (idx + 1), ?_, List.length_take_of_le (Nat.le_of_lt hlt), hp⟩
  rw [List.getElem_cons_drop hlt, List.take_append_drop]

theorem modify_split {α : Type} (f : α → α) (l₁ : List α) (a : α) (l₂ : List α) :
    (l₁ ++ a :: l₂).modify l₁.length f = l₁ ++ f a :: l₂ := by
  induction l₁ with
  | nil => rfl
  | cons b l₁ ih => simp only [List.cons_append, List.length_cons, List.modify_succ_cons, ih]

/-- What is put into the entry of a job keeps its id. -/
def Stamped (jobId : String) (patch : JobRecord) : Prop := patch.jobId = none ∨ patch.jobId = some (some jobId)

theorem spread_eq_patched {jobId : String} {base patch : JobRecord} (hbase : base.jobId = some (some jobId))
    (hpatch : Stamped jobId patch) : base.spread patch = patched jobId patch base := by
  have hid : (base.spread patch).jobId = some (some jobId) := by
    rcases hpatch with h | h <;> simp [JobRecord.spread, h, hbase]
  rw [patched, ← hid]

/-- The entry that a job gets when it comes into the list. -/
def newEntry (dismissedJobIds : List String) (jobId : String) : JobRecord :=
  { jobId := some (some jobId), dismissed := some (some (dismissedJobIds.contains jobId)) }

/-- Before the list is sorted and cut, the entry of the job is replaced, or there is none and one is added. -/
theorem upsertJob_eq (localeCompare : String → String → Int) (dismissedJobIds : List String) {jobId : String}
    {patch : JobRecord} (hpatch : Stamped jobId patch) (prev : List JobRecord) :
    ∃ list : List JobRecord, upsertJob localeCompare dismissedJobIds jobId patch prev =
        (list.mergeSort fun a b => sortJobs localeCompare a b ≤ 0).take maxTracked ∧
      ((∃ l₁ j l₂, prev = l₁ ++ j :: l₂ ∧ j.id = some jobId ∧ list = l₁ ++ patched jobId patch j :: l₂) ∨
        ((∀ j ∈ prev, j.id ≠ some jobId) ∧
          list = patched jobId patch (newEntry dismissedJobIds jobId) :: prev)) := by
  refine ⟨_, rfl, ?_⟩
  cases h : prev.findIdx? fun j => decide (j.id = some jobId) with
  | some idx =>
    obtain ⟨l₁, j, l₂, rfl, rfl, hj⟩ := exists_split_of_findIdx? h
    exact .inl ⟨l₁, j, l₂, rfl, of_decide_eq_true hj, modify_split _ l₁ j l₂⟩
  | none =>
    refine .inr ⟨fun j hj => of_decide_eq_false (List.findIdx?_eq_none_iff.1 h j hj), ?_⟩
    rw [← spread_eq_patched rfl hpatch, newEntry]

/-- The list is sorted and cut, so that its order says nothing more. -/
theorem upsertJob_perm (localeCompare : String → String → Int) (dismissedJobIds : List String) {jobId : String}
    {patch : JobRecord} (hpatch : Stamped jobId patch) (prev : List JobRecord) :
    ∃ list : List JobRecord, upsertJob localeCompare dismissedJobIds jobId patch prev = list.take maxTracked ∧
      ((∃ l₁ j l₂, prev = l₁ ++ j :: l₂ ∧ j.id = some jobId ∧ list.Perm (patched jobId patch j :: (l₁ ++ l₂))) ∨
        (∃ base : JobRecord, base.status = none ∧ (∀ j ∈ prev, j.id ≠ some jobId) ∧
          list.Perm (patched jobId patch base :: prev))) := by
  obtain ⟨list, heq, h⟩ := upsertJob_eq localeCompare dismissedJobIds hpatch prev
  refine ⟨_, heq, ?_⟩
  rcases h with ⟨l₁, j, l₂, rfl, hj, rfl⟩ | ⟨hnew, rfl⟩
  · exact .inl ⟨l₁, j, l₂, rfl, hj, (List.mergeSort_perm _ _).trans List.perm_middle⟩
  · exact .inr ⟨newEntry dismissedJobIds jobId, rfl, hnew, List.mergeSort_perm _ _⟩

/-- The list is one of entries with distinct ids, of a bounded length, without a field `status`. -/
structure Tidy (jobs : List JobRecord) : Prop where
  distinct : (jobs.map JobRecord.id).Nodup
  bounded : jobs.length ≤ maxTracked
  plain : ∀ job ∈ jobs, job.status = none

theorem Tidy.unique {jobs : List JobRecord} (h : Tidy jobs) {a b : JobRecord} (ha : a ∈ jobs) (hb : b ∈ jobs)
    (hid : a.id = b.id) : a = b := List.inj_on_of_nodup_map h.distinct ha hb hid

/-- The entry of the job in the second list is as in the first, but perhaps dismissed. -/
def Keeps (jobId : String) (prev next : List JobRecord) : Prop :=
  ∀ job ∈ next, job.id = some jobId →
    ∃ before ∈ prev, before.id = some jobId ∧ job.jobStatus = before.jobStatus ∧ job.finishedAt = before.finishedAt

theorem Keeps.of_subset {jobId : String} {prev next : List JobRecord}
    (h : ∀ job ∈ next, job.id = some jobId → job ∈ prev) : Keeps jobId prev next :=
  fun job hjob hid => ⟨job, h job hjob hid, hid, rfl, rfl⟩

theorem Keeps.shows {jobId : String} {prev next : List JobRecord} {heard : Option JobRecord} (h : Keeps jobId prev next)
    (hprev : ∀ job ∈ prev, job.id = some jobId → Shows heard job) :
    ∀ job ∈ next, job.id = some jobId → Shows heard job := by
  intro job hjob hid
  obtain ⟨before, hbefore, hid', hstatus, hfinished⟩ := h job hjob hid
  obtain ⟨hshown, hunfinished⟩ := hprev before hbefore hid'
  exact ⟨hstatus.trans hshown, hfinished ▸ hunfinished⟩

theorem Keeps.trans {jobId : String} {first second third : List JobRecord} (h : Keeps jobId first second)
    (h' : Keeps jobId second third) : Keeps jobId first third := by
  intro job hjob hid
  obtain ⟨mid, hmid, hmidid, hstatus, hfinished⟩ := h' job hjob hid
  obtain ⟨before, hbefore, hbeforeid, hstatus', hfinished'⟩ := h mid hmid hmidid
  exact ⟨before, hbefore, hbeforeid, hstatus.trans hstatus', hfinished.trans hfinished'⟩

section upsert

variable (localeCompare : String → String → Int) (dismissedJobIds : List String) {jobId : String} {patch : JobRecord}
  {prev : List JobRecord}

/-- The entry of the job is the patched one, and the other entries were there before. -/
theorem mem_upsertJob (hpatch : Stamped jobId patch) (hprev : Tidy prev) {job : JobRecord}
    (hjob : job ∈ upsertJob localeCompare dismissedJobIds jobId patch prev) :
    (∃ base : JobRecord, base.status = none ∧ job = patched jobId patch base) ∨ (job ∈ prev ∧ job.id ≠ some jobId) := by
  obtain ⟨list, heq, h⟩ := upsertJob_perm localeCompare dismissedJobIds hpatch prev
  have hlist : job ∈ list := List.mem_of_mem_take (heq ▸ hjob)
  rcases h with ⟨l₁, j, l₂, rfl, hj, hperm⟩ | ⟨base, hbase, hnew, hperm⟩
  · rcases List.mem_cons.1 (hperm.mem_iff.1 hlist) with rfl | hrest
    · exact .inl ⟨j, hprev.plain j (by simp), rfl⟩
    · have hmem : job ∈ l₁ ++ j :: l₂ := by
        rcases List.mem_append.1 hrest with h | h <;> simp [h]
      have hnodup := hprev.distinct
      rw [(List.perm_middle.map _).nodup_iff, List.map_cons, List.nodup_cons] at hnodup
      refine .inr ⟨hmem, fun hid => hnodup.1 ?_⟩
      exact List.mem_map.2 ⟨job, hrest, hid.trans hj.symm⟩
  · rcases List.mem_cons.1 (hperm.mem_iff.1 hlist) with rfl | hrest
    · exact .inl ⟨base, hbase, rfl⟩
    · exact .inr ⟨hrest, hnew job hrest⟩

theorem tidy_upsertJob (hpatch : Stamped jobId patch) (hstatus : patch.status = none) (hprev : Tidy prev) :
    Tidy (upsertJob localeCompare dismissedJobIds jobId patch prev) where
  distinct := by
    obtain ⟨list, heq, h⟩ := upsertJob_perm localeCompare dismissedJobIds hpatch prev
    rw [heq]
    refine List.Nodup.sublist ((List.take_sublist _ _).map _) ?_
    rcases h with ⟨l₁, j, l₂, rfl, hj, hperm⟩ | ⟨base, hbase, hnew, hperm⟩
    · have hnodup := hprev.distinct
      rw [(List.perm_middle.map _).nodup_iff] at hnodup
      rw [(hperm.map _).nodup_iff]
      simpa only [List.map_cons, patched_id, hj] using hnodup
    · rw [(hperm.map _).nodup_iff, List.map_cons, List.nodup_cons, patched_id]
      refine ⟨fun hmem => ?_, hprev.distinct⟩
      obtain ⟨j, hj, hid⟩ := List.mem_map.1 hmem
      exact hnew j hj hid
  bounded := List.length_take_le _ _
  plain := by
    intro job hjob
    rcases mem_upsertJob localeCompare dismissedJobIds hpatch hprev hjob with ⟨base, hbase, rfl⟩ | ⟨hmem, -⟩
    · rw [patched_status, hstatus, Option.none_or, hbase]
    · exact hprev.plain job hmem

/-- A job that is in the list stays there, and one that is not is added where there is room. -/
theorem exists_mem_upsertJob (hpatch : Stamped jobId patch) (hprev : Tidy prev)
    (h : (∃ job ∈ prev, job.id = some jobId) ∨ prev.length < maxTracked) :
    ∃ job ∈ upsertJob localeCompare dismissedJobIds jobId patch prev, job.id = some jobId := by
  obtain ⟨list, heq, hlist⟩ := upsertJob_perm localeCompare dismissedJobIds hpatch prev
  have hbound := hprev.bounded
  obtain ⟨base, hperm, hlength⟩ : ∃ base, patched jobId patch base ∈ list ∧ list.length ≤ maxTracked := by
    rcases hlist with ⟨l₁, j, l₂, rfl, hj, hperm⟩ | ⟨base, hbase, hnew, hperm⟩
    · refine ⟨j, hperm.mem_iff.2 List.mem_cons_self, ?_⟩
      rw [hperm.length_eq]
      simpa [Nat.add_assoc] using hbound
    · refine ⟨base, hperm.mem_iff.2 List.mem_cons_self, ?_⟩
      rw [hperm.length_eq]
      rcases h with ⟨job, hjob, hid⟩ | hroom
      · exact absurd hid (hnew job hjob)
      · exact hroom
  rw [heq, List.take_of_length_le hlength]
  exact ⟨_, hperm, patched_id _ _ _⟩

/-- The entries of the other jobs stay as they are. -/
theorem keeps_upsertJob (hpatch : Stamped jobId patch) (hprev : Tidy prev) {other : String} (hne : other ≠ jobId) :
    Keeps other prev (upsertJob localeCompare dismissedJobIds jobId patch prev) := by
  refine .of_subset fun job hjob hid => ?_
  rcases mem_upsertJob localeCompare dismissedJobIds hpatch hprev hjob with ⟨base, -, rfl⟩ | ⟨hmem, -⟩
  · rw [patched_id] at hid
    exact absurd (Option.some.inj hid).symm hne
  · exact hmem

end upsert

/-! ### The end of a poll -/

/-- What the poll holds of the job is the last answer. -/
def FromPoll (jobId : String) (heard lastKnownJob : Option JobRecord) : Prop :=
  ∀ job, lastKnownJob = some job →
    ∃ answer, heard = some answer ∧ answer.jobId = some (some jobId) ∧ job = getJob answer

theorem fromPoll_none (jobId : String) (heard : Option JobRecord) : FromPoll jobId heard none := by
  intro job h
  cases h

/-- The job in an error is the one that the poll is of. -/
def PollFailure.Of (jobId : String) (error : PollFailure) : Prop :=
  (∀ job, error.job = some job → job.jobId = some (some jobId)) ∧
    ∀ job, error.lastKnownJob = some job → job.jobId = some (some jobId)

/-- A record that the last known one is spread over has the status of the last answer, if it shows that itself. -/
theorem lifecycle_spread {jobId : String} {heard lastKnownJob : Option JobRecord} {cur : JobRecord}
    (hcur : Shows heard cur) (hplain : cur.status = none) (hpoll : FromPoll jobId heard lastKnownJob) :
    ((cur.spread (lastKnownJob.getD {})).lifecycle).getD .queued = shownStatus heard := by
  have hunspread : ∀ record : JobRecord, record.jobStatus = none →
      (cur.spread record).lifecycle = some (shownStatus heard) := by
    intro record hnone
    apply JobRecord.lifecycle_of_jobStatus
    simp only [JobRecord.spread, hnone, Option.none_or, hcur.jobStatus]
  cases lastKnownJob with
  | none => rw [Option.getD_none, hunspread {} rfl, Option.getD_some]
  | some job =>
    obtain ⟨answer, rfl, -, rfl⟩ := hpoll job rfl
    rw [Option.getD_some]
    cases hlifecycle : answer.lifecycle with
    | some l =>
      have hstatus : (cur.spread (getJob answer)).lifecycle = some l := by
        apply JobRecord.lifecycle_of_jobStatus
        simp only [getJob_of_lifecycle hlifecycle, JobRecord.spread, Option.some_or]
      rw [hstatus, shownStatus, Option.bind_some, hlifecycle]
    | none =>
      rw [getJob_of_none hlifecycle]
      have hshown : shownStatus (some answer) = .queued := by
        rw [shownStatus, Option.bind_some, hlifecycle, Option.getD_none]
      cases hstatus : answer.jobStatus with
      | none => rw [hunspread answer hstatus, Option.getD_some]
      | some status =>
        -- the answer has the field, so its own status counts, which is none
        obtain ⟨hnone, hunfinished⟩ := JobRecord.lifecycle_eq_none.1 hlifecycle
        have hspread : (cur.spread answer).lifecycle = none := by
          refine JobRecord.lifecycle_eq_none.2 ⟨?_, ?_⟩
          · simpa only [JobRecord.spread, hstatus, hplain, Option.some_or, Option.or_none] using hnone
          · cases hfinished : answer.finishedAt with
            | none =>
              have hend := hcur.unfinished answer rfl hlifecycle
              simpa only [JobRecord.spread, hfinished, Option.none_or] using hend
            | some finished => simpa only [JobRecord.spread, hfinished, Option.some_or] using hunfinished
        rw [hspread, hshown, Option.getD_none]

@[simp] theorem JobRecord.spread_empty (r : JobRecord) : r.spread {} = r := by simp [JobRecord.spread]

@[simp] theorem JobRecord.empty_spread (r : JobRecord) : JobRecord.spread {} r = r := by simp [JobRecord.spread]

theorem JobRecord.spread_id {jobId : String} (a : JobRecord) {b : JobRecord} (hb : b.jobId = some (some jobId)) :
    (a.spread b).id = some jobId := by
  simp [JobRecord.id, JobRecord.spread, hb]

section

variable (now : String) {jobId : String} (cur : JobRecord)

/-- The entry that is made of the error. -/
def interrupted (now jobId : String) (error : PollFailure) (cur : JobRecord) : JobRecord :=
  normalizeTrackedJob now (getCmsJobErrorResult error { cur with jobId := some (some jobId) } {}) cur

/-- After a reported failure the entry is `failed`. -/
theorem interrupted_terminalFailure {message : String} {job : JobRecord} (h : job.lifecycle = some .failed) :
    (interrupted now jobId (.terminalFailure message job) cur).jobStatus = some (some "failed") := by
  have hresult : (getCmsJobErrorResult (.terminalFailure message job)
      { cur with jobId := some (some jobId) } {}).jobStatus = some (some Lifecycle.failed.name) := by
    simp [getCmsJobErrorResult, PollFailure.job, h, Lifecycle.name]
  exact normalizeTrackedJob_of_lifecycle (JobRecord.lifecycle_of_jobStatus hresult)

variable {cur} {heard lastKnownJob : Option JobRecord}

/-- After a poll that gave up the entry has the last status that the server reported, and its outcome is unknown. -/
theorem interrupted_statusUnavailable {message : String} (hcur : Shows heard cur) (hplain : cur.status = none)
    (hpoll : FromPoll jobId heard lastKnownJob) :
    let entry := interrupted now jobId (.statusUnavailable message jobId lastKnownJob) cur
    entry.jobStatus = some (some (shownStatus heard).name) ∧ entry.outcomeUnknown = some (some true) := by
  have hshows : Shows heard { cur with jobId := some (some jobId) } := ⟨hcur.jobStatus, hcur.unfinished⟩
  have hlifecycle := lifecycle_spread hshows hplain hpoll
  have hresult : (getCmsJobErrorResult (.statusUnavailable message jobId lastKnownJob)
      { cur with jobId := some (some jobId) } {}).jobStatus = some (some (shownStatus heard).name) := by
    simp [getCmsJobErrorResult, PollFailure.job, PollFailure.lastKnownJob, PollFailure.jobStatusUnavailable, hlifecycle]
  refine ⟨normalizeTrackedJob_of_lifecycle (JobRecord.lifecycle_of_jobStatus hresult), ?_⟩
  rw [interrupted, normalizeTrackedJob_outcomeUnknown]
  simp [getCmsJobErrorResult, PollFailure.job, PollFailure.jobStatusUnavailable]

theorem interrupted_jobId {error : PollFailure} (herror : error.Of jobId) (cur : JobRecord) :
    (interrupted now jobId error cur).jobId = some (some jobId) := by
  have hresult : (getCmsJobErrorResult error { cur with jobId := some (some jobId) } {}).jobId = some (some jobId) := by
    cases error with
    | terminalFailure message job => simp [getCmsJobErrorResult, JobRecord.spread, PollFailure.job, herror.1 job rfl]
    | statusUnavailable message id lastKnownJob =>
      cases lastKnownJob with
      | none => simp [getCmsJobErrorResult, PollFailure.job, PollFailure.lastKnownJob]
      | some job =>
        simp [getCmsJobErrorResult, JobRecord.spread, PollFailure.job, PollFailure.lastKnownJob, herror.2 job rfl]
  simp [interrupted, normalizeTrackedJob, hresult]

end

/-- An entry after the interruption: an entry of the job is overwritten, the others stay. -/
theorem mem_interruptJob {now jobId : String} {error : PollFailure} {prev : List JobRecord} {job : JobRecord}
    (hjob : job ∈ interruptJob now jobId error prev) :
    (∃ before ∈ prev, before.id = some jobId ∧ ∃ cur ∈ prev, cur.id = some jobId ∧
      job = before.spread (interrupted now jobId error cur)) ∨ (job ∈ prev ∧ job.id ≠ some jobId) := by
  obtain ⟨before, hbefore, rfl⟩ := List.mem_map.1 hjob
  by_cases hid : before.id = some jobId
  · obtain ⟨cur, hcur⟩ : ∃ cur, prev.find? (fun j => decide (j.id = some jobId)) = some cur :=
      Option.isSome_iff_exists.1 (List.find?_isSome.2 ⟨before, hbefore, decide_eq_true hid⟩)
    have hcurid : cur.id = some jobId := by simpa using List.find?_some hcur
    refine .inl ⟨before, hbefore, hid, cur, List.mem_of_find?_eq_some hcur, hcurid, ?_⟩
    simp only [hid, if_true, hcur, Option.getD_some, interrupted]
  · rw [if_neg hid]
    exact .inr ⟨hbefore, hid⟩

theorem map_id_interruptJob (now : String) {jobId : String} {error : PollFailure} (herror : error.Of jobId)
    (prev : List JobRecord) : (interruptJob now jobId error prev).map JobRecord.id = prev.map JobRecord.id := by
  rw [interruptJob, List.map_map]
  refine List.map_congr_left fun j _ => ?_
  rw [Function.comp_apply]
  split
  · rename_i hid
    exact (JobRecord.spread_id _ (interrupted_jobId now herror _)).trans hid.symm
  · rfl

theorem tidy_interruptJob {now jobId : String} {error : PollFailure} (herror : error.Of jobId) {prev : List JobRecord}
    (hprev : Tidy prev) : Tidy (interruptJob now jobId error prev) where
  distinct := by rw [map_id_interruptJob now herror]; exact hprev.distinct
  bounded := by
    have hlength := congrArg List.length (map_id_interruptJob now herror prev)
    rw [List.length_map, List.length_map] at hlength
    rw [hlength]
    exact hprev.bounded
  plain := by
    intro job hjob
    rcases mem_interruptJob hjob with ⟨before, hbefore, -, cur, -, -, rfl⟩ | ⟨hmem, -⟩
    · simp only [JobRecord.spread, interrupted, normalizeTrackedJob_status, Option.none_or, hprev.plain before hbefore]
    · exact hprev.plain job hmem

theorem keeps_interruptJob {now jobId : String} {error : PollFailure} (herror : error.Of jobId) {prev : List JobRecord}
    {other : String} (hne : other ≠ jobId) : Keeps other prev (interruptJob now jobId error prev) := by
  refine .of_subset fun job hjob hid => ?_
  rcases mem_interruptJob hjob with ⟨before, -, -, cur, -, -, rfl⟩ | ⟨hmem, -⟩
  · rw [JobRecord.spread_id _ (interrupted_jobId now herror cur)] at hid
    exact absurd (Option.some.inj hid).symm hne
  · exact hmem

theorem exists_mem_interruptJob {now jobId : String} {error : PollFailure} (herror : error.Of jobId)
    {prev : List JobRecord} (h : ∃ job ∈ prev, job.id = some jobId) :
    ∃ job ∈ interruptJob now jobId error prev, job.id = some jobId := by
  obtain ⟨job, hjob, hid⟩ := h
  have hmem : some jobId ∈ (interruptJob now jobId error prev).map JobRecord.id := by
    rw [map_id_interruptJob now herror]
    exact List.mem_map.2 ⟨job, hjob, hid⟩
  exact List.mem_map.1 hmem

/-! ### Dismissals -/

theorem dismissJob_eq (jobId : String) (prev : List JobRecord) :
    dismissJob jobId prev =
      (prev.filter fun job => !(decide (job.id = some jobId) && isTerminalCmsJobStatus job.jobStatus.join)).map
        fun job => if job.id = some jobId then { job with dismissed := some (some true) } else job := by
  induction prev with
  | nil => rfl
  | cons job prev ih =>
    have htail := ih
    simp only [dismissJob] at htail ⊢
    rw [List.flatMap_cons, htail, List.filter_cons]
    by_cases hid : job.id = some jobId <;> cases isTerminalCmsJobStatus job.jobStatus.join <;> simp [hid]

theorem keeps_dismissJob (jobId other : String) (prev : List JobRecord) : Keeps other prev (dismissJob jobId prev) := by
  intro job hjob hid
  rw [dismissJob_eq] at hjob
  obtain ⟨before, hbefore, rfl⟩ := List.mem_map.1 hjob
  refine ⟨before, (List.mem_filter.1 hbefore).1, ?_⟩
  split at hid <;> simp_all [JobRecord.id]

theorem tidy_dismissJob (jobId : String) {prev : List JobRecord} (hprev : Tidy prev) :
    Tidy (dismissJob jobId prev) where
  distinct := by
    rw [dismissJob_eq, List.map_map]
    have hids : (JobRecord.id ∘ fun job : JobRecord =>
        if job.id = some jobId then { job with dismissed := some (some true) } else job) = JobRecord.id := by
      funext job
      rw [Function.comp_apply]
      split <;> rfl
    rw [hids]
    exact hprev.distinct.sublist (List.filter_sublist.map _)
  bounded := by
    rw [dismissJob_eq, List.length_map]
    exact Nat.le_trans (List.length_filter_le _ _) hprev.bounded
  plain := by
    intro job hjob
    rw [dismissJob_eq] at hjob
    obtain ⟨before, hbefore, rfl⟩ := List.mem_map.1 hjob
    have hplain := hprev.plain before (List.mem_filter.1 hbefore).1
    split
    · exact hplain
    · exact hplain

theorem Tidy.sublist {prev next : List JobRecord} (hprev : Tidy prev) (h : next.Sublist prev) : Tidy next where
  distinct := hprev.distinct.sublist (h.map _)
  bounded := Nat.le_trans h.length_le hprev.bounded
  plain := fun job hjob => hprev.plain job (h.subset hjob)

end CubridWebManager.JobPolls
