import CubridWebManager.JobPolls.Tray
import Mathlib.Data.List.Dedup

/-!
# No running job leaves the job tray

An update puts the entry of its job before the others, and at most the last entry of a full list is lost
(`upsertJob_cases`).  So the update keeps the running jobs in the list and the dismissed ones out of sight just when it
is fine (`kept_upsert_iff`); the other steps always do.  Whatever the steps, the list stays short and without repeats.
-/

namespace CubridWebManager.JobPolls.Tray

open Transition KeepFirst

variable {localeCompare : String → String → Int} {s s' : State} {jobId : String} {patch : JobRecord}

theorem mem_report {running : List String} {status : Option String} {other : String} :
    other ∈ report running jobId status ↔
      (other = jobId ∧ isTerminalCmsJobStatus status = false) ∨ (other ≠ jobId ∧ other ∈ running) := by
  unfold report
  split
  · rename_i hterminal
    simp [hterminal, and_comm]
  · rename_i hterminal
    rw [List.mem_insert_iff, Bool.eq_false_iff.2 hterminal]
    by_cases hother : other = jobId <;> simp [hother]

theorem mem_visibleJobs {jobs : List JobRecord} {job : JobRecord} :
    job ∈ visibleJobs jobs ↔ job ∈ jobs ∧ job.dismissed.join ≠ some true := by
  rw [visibleJobs, List.mem_filter]
  rcases job.dismissed.join with _ | _ | _ <;> simp

/-- The list has the form that the operations give it, and its running jobs are known. -/
structure Sound (s : State) : Prop where
  tidy : Tidy s.jobs
  named : ∀ job ∈ s.jobs, ∃ jobId, job.id = some jobId
  tracked : ∀ job ∈ s.jobs, ended job = false → ∀ jobId, job.id = some jobId → jobId ∈ s.running

/-! ### An update -/

section

variable (localeCompare)

/-- The entry of the job is replaced, or is added, and in a full list the last one is lost. -/
theorem upsertJob_cases (hcmp : Consistent localeCompare) (dismissedJobIds : List String)
    (hpatch : Stamped jobId patch) {prev : List JobRecord} (hprev : prev.length ≤ maxTracked) :
    let next := JobPolls.upsertJob localeCompare dismissedJobIds jobId patch prev
    let added := patched jobId patch (newEntry dismissedJobIds jobId) :: prev
    (∃ base rest, prev.Perm (base :: rest) ∧ base.id = some jobId ∧ next.Perm (patched jobId patch base :: rest)) ∨
      (∀ j ∈ prev, j.id ≠ some jobId) ∧
        (prev.length < maxTracked ∧ next.Perm added ∨
          prev.length = maxTracked ∧ ∀ last, Last (sortJobs localeCompare) added last → (last :: next).Perm added) := by
  intro next added
  obtain ⟨list, heq, ⟨l₁, j, l₂, rfl, hj, rfl⟩ | ⟨hnew, rfl⟩⟩ := upsertJob_eq localeCompare dismissedJobIds hpatch prev
  · refine .inl ⟨j, l₁ ++ l₂, List.perm_middle, hj, ?_⟩
    have hlength : (l₁ ++ patched jobId patch j :: l₂).length ≤ maxTracked := by simpa using hprev
    have hperm := take_mergeSort_of_length_le (sortJobs localeCompare) hlength
    exact (heq ▸ hperm).trans List.perm_middle
  · refine .inr ⟨hnew, ?_⟩
    simp only [next, heq]
    rcases Nat.lt_or_eq_of_le hprev with hlt | hfull
    · exact .inl ⟨hlt, take_mergeSort_of_length_le (sortJobs localeCompare) hlt⟩
    · exact .inr ⟨hfull, fun last hlast => take_mergeSort_of_last (hcmp.descending _) (congrArg (· + 1) hfull) hlast⟩

end

theorem ended_patched {base : JobRecord} (hupdate : Update jobId patch) :
    ended (patched jobId patch base) = isTerminalCmsJobStatus patch.jobStatus.join := by
  obtain ⟨-, -, hstatus⟩ := hupdate
  unfold ended
  rw [patched_jobStatus]
  cases hpatch : patch.jobStatus with
  | none =>
    rw [hpatch] at hstatus
    cases hstatus
  | some status => rw [Option.some_or]

@[simp] theorem patched_dismissed (base : JobRecord) :
    (patched jobId patch base).dismissed = patch.dismissed.or base.dismissed := rfl

/-- What the entry of the job is made of: the entry there was, or a new one. -/
def Base (s : State) (jobId : String) (base : JobRecord) : Prop :=
  base ∈ s.jobs ∧ base.id = some jobId ∨ ¬ s.Listed jobId ∧ base = newEntry s.dismissedJobIds jobId

/-- The entries after an update: that of the job and those of the others, but for the last one of a full list. -/
theorem mem_upsert (hcmp : Consistent localeCompare) (hsound : Sound s) (hupdate : Update jobId patch) :
    ∃ base, Base s jobId base ∧
      (¬ s.Overflows jobId ∧
          (∀ job, job ∈ (s.upsert localeCompare jobId patch).jobs ↔
            job = patched jobId patch base ∨ job ∈ s.jobs ∧ job.id ≠ some jobId) ∨
        s.Overflows jobId ∧ base = newEntry s.dismissedJobIds jobId ∧
          ∀ last, Oldest localeCompare (patched jobId patch base :: s.jobs) last →
            ∀ job, job ∈ (s.upsert localeCompare jobId patch).jobs ↔
              (job = patched jobId patch base ∨ job ∈ s.jobs) ∧ job.id ≠ last.id) := by
  have hdistinct := hsound.tidy.distinct
  rcases upsertJob_cases localeCompare hcmp s.dismissedJobIds hupdate.1 hsound.tidy.bounded with
    ⟨base, rest, hjobs, hid, hnext⟩ | ⟨hnew, ⟨hlt, hnext⟩ | ⟨hfull, hnext⟩⟩
  · have hbase : base ∈ s.jobs := hjobs.mem_iff.2 List.mem_cons_self
    refine ⟨base, .inl ⟨hbase, hid⟩, .inl ⟨fun h => h.1 ⟨base, hbase, hid⟩, fun job => ?_⟩⟩
    rw [(hjobs.map _).nodup_iff, List.map_cons, List.nodup_cons, hid] at hdistinct
    have hrest : job ∈ rest ↔ job ∈ s.jobs ∧ job.id ≠ some jobId := by
      constructor
      · intro hjob
        exact ⟨hjobs.mem_iff.2 (List.mem_cons_of_mem _ hjob), fun h => hdistinct.1 (List.mem_map.2 ⟨job, hjob, h⟩)⟩
      · rintro ⟨hjob, hne⟩
        rcases List.mem_cons.1 (hjobs.mem_iff.1 hjob) with rfl | hjob
        · exact absurd hid hne
        · exact hjob
    rw [← hrest, ← List.mem_cons]
    exact hnext.mem_iff
  · have hunlisted : ¬ s.Listed jobId := fun ⟨job, hjob, hid⟩ => hnew job hjob hid
    refine ⟨_, .inr ⟨hunlisted, rfl⟩, .inl ⟨fun h => absurd h.2 (Nat.ne_of_lt hlt), fun job => ?_⟩⟩
    have hothers : job ∈ s.jobs ↔ job ∈ s.jobs ∧ job.id ≠ some jobId := ⟨fun h => ⟨h, hnew job h⟩, And.left⟩
    rw [← hothers, ← List.mem_cons]
    exact hnext.mem_iff
  · have hunlisted : ¬ s.Listed jobId := fun ⟨job, hjob, hid⟩ => hnew job hjob hid
    refine ⟨_, .inr ⟨hunlisted, rfl⟩, .inr ⟨⟨hunlisted, hfull⟩, rfl, fun last hlast job => ?_⟩⟩
    have hperm := hnext last hlast
    have hnodup : ((last :: (s.upsert localeCompare jobId patch).jobs).map JobRecord.id).Nodup := by
      rw [State.upsert, (hperm.map _).nodup_iff, List.map_cons, List.nodup_cons, patched_id]
      refine ⟨fun hmem => ?_, hdistinct⟩
      obtain ⟨j, hj, hid⟩ := List.mem_map.1 hmem
      exact hnew j hj hid
    rw [List.map_cons, List.nodup_cons] at hnodup
    rw [← List.mem_cons]
    constructor
    · intro hjob
      exact ⟨hperm.mem_iff.1 (List.mem_cons_of_mem _ hjob), fun h => hnodup.1 (List.mem_map.2 ⟨job, hjob, h⟩)⟩
    · rintro ⟨hjob, hne⟩
      rcases List.mem_cons.1 (hperm.mem_iff.2 hjob) with rfl | hjob
      · exact absurd rfl hne
      · exact hjob

theorem sound_upsert (hsound : Sound s) (hupdate : Update jobId patch) :
    Sound (s.upsert localeCompare jobId patch) where
  tidy := tidy_upsertJob _ _ hupdate.1 hupdate.2.1 hsound.tidy
  named := by
    intro job hjob
    rcases mem_upsertJob _ _ hupdate.1 hsound.tidy hjob with ⟨base, -, rfl⟩ | ⟨hmem, -⟩
    · exact ⟨jobId, patched_id _ _ _⟩
    · exact hsound.named job hmem
  tracked := by
    intro job hjob hrunning id hid
    rcases mem_upsertJob _ _ hupdate.1 hsound.tidy hjob with ⟨base, -, rfl⟩ | ⟨hmem, hne⟩
    · rw [patched_id] at hid
      rw [ended_patched hupdate] at hrunning
      exact mem_report.2 (.inl ⟨(Option.some.inj hid).symm, hrunning⟩)
    · exact mem_report.2 (.inr ⟨fun h => hne (h ▸ hid), hsound.tracked job hmem hrunning id hid⟩)

/-- A dismissed job stays out of sight just when its entry is dismissed or is not there. -/
theorem hidden_upsert_iff (hkept : s.Kept) {base : JobRecord} {next : List JobRecord}
    (hnext : ∀ job ∈ next, job = patched jobId patch base ∨ job ∈ s.jobs ∧ job.id ≠ some jobId) :
    (∀ job ∈ visibleJobs next, ∀ id ∈ s.hidden, job.id ≠ some id) ↔
      (jobId ∈ s.hidden → patched jobId patch base ∈ next → (patched jobId patch base).dismissed.join = some true) := by
  constructor
  · intro h hhidden hentry
    by_contra hshown
    exact h _ (mem_visibleJobs.2 ⟨hentry, hshown⟩) jobId hhidden (patched_id _ _ _)
  · intro h job hjob id hid heq
    obtain ⟨hmem, hshown⟩ := mem_visibleJobs.1 hjob
    rcases hnext job hmem with rfl | ⟨hold, -⟩
    · obtain rfl : jobId = id := Option.some.inj heq
      exact hshown (h hid hmem)
    · exact hkept.hidden job (mem_visibleJobs.2 ⟨hold, hshown⟩) id hid heq

/-- The entry is dismissed if the update says so, or leaves a dismissal that there is. -/
theorem dismissed_patched_iff (hkept : s.Kept) (hhidden : jobId ∈ s.hidden) {base : JobRecord}
    (hbase : Base s jobId base) :
    (patched jobId patch base).dismissed.join = some true ↔
      patch.dismissed.join = some true ∨ patch.dismissed = none ∧ (s.Listed jobId ∨ jobId ∈ s.dismissedJobIds) := by
  rw [patched_dismissed]
  cases hpatch : patch.dismissed with
  | some dismissed => simp
  | none =>
    rw [Option.none_or]
    rcases hbase with ⟨hmem, hid⟩ | ⟨hunlisted, rfl⟩
    · have hdismissed : base.dismissed.join = some true := by
        by_contra hshown
        exact hkept.hidden base (mem_visibleJobs.2 ⟨hmem, hshown⟩) jobId hhidden hid
      have hlisted : s.Listed jobId := ⟨base, hmem, hid⟩
      simp [hdismissed, hlisted]
    · simp [newEntry, hunlisted]

/-- The running jobs are all there before the list is cut. -/
theorem exists_running (hkept : s.Kept) (hupdate : Update jobId patch) (base : JobRecord) {id : String}
    (hid : id ∈ (s.upsert localeCompare jobId patch).running) :
    ∃ job, (job = patched jobId patch base ∨ job ∈ s.jobs ∧ job.id ≠ some jobId) ∧ job.id = some id ∧
      ended job = false := by
  rcases mem_report.1 hid with ⟨rfl, hrunning⟩ | ⟨hne, hmem⟩
  · exact ⟨_, .inl rfl, patched_id _ _ _, (ended_patched hupdate).trans hrunning⟩
  · obtain ⟨job, hjob, hjobid, hrunning⟩ := hkept.listed id hmem
    refine ⟨job, .inr ⟨hjob, fun h => hne ?_⟩, hjobid, hrunning⟩
    exact Option.some.inj (hjobid.symm.trans h)

/-- Of a full list and the entry of a new job, the entries have distinct ids. -/
theorem unique_overflow (hsound : Sound s) (hover : s.Overflows jobId) {base a b : JobRecord}
    (ha : a ∈ patched jobId patch base :: s.jobs) (hb : b ∈ patched jobId patch base :: s.jobs) (hid : a.id = b.id) :
    a = b := by
  rcases List.mem_cons.1 ha with rfl | ha <;> rcases List.mem_cons.1 hb with rfl | hb
  · rfl
  · exact absurd ⟨b, hb, hid.symm.trans (patched_id _ _ _)⟩ hover.1
  · exact absurd ⟨a, ha, hid.trans (patched_id _ _ _)⟩ hover.1
  · exact hsound.tidy.unique ha hb hid

theorem exists_oldest (hcmp : Consistent localeCompare) (job : JobRecord) (jobs : List JobRecord) :
    ∃ last, Oldest localeCompare (job :: jobs) last :=
  exists_last (hcmp.descending fun j : JobRecord => j.createdAt.join.getD "") (List.cons_ne_nil job jobs)

/-- An update keeps the running jobs in the list and the dismissed ones out of sight just when it fits. -/
theorem kept_upsert_iff (hcmp : Consistent localeCompare) (hsound : Sound s) (hkept : s.Kept)
    (hupdate : Update jobId patch) :
    (s.upsert localeCompare jobId patch).Kept ↔ s.Fits localeCompare jobId patch := by
  obtain ⟨base, hbase, ⟨hroom, hmem⟩ | ⟨hover, rfl, hmem⟩⟩ := mem_upsert hcmp hsound hupdate
  · have hhidden := hidden_upsert_iff hkept fun job hjob => (hmem job).1 hjob
    have hentry := (hmem _).2 (.inl rfl)
    constructor
    · rintro ⟨-, hidden⟩
      refine ⟨fun h => absurd h hroom, fun h => ?_⟩
      exact ((dismissed_patched_iff hkept h hbase).1 (hhidden.1 hidden h hentry)).imp_right .inl
    · intro hfits
      refine ⟨fun id hid => ?_, hhidden.2 fun h _ => (dismissed_patched_iff hkept h hbase).2 ?_⟩
      · obtain ⟨job, hjob, hrunning⟩ := exists_running hkept hupdate base hid
        exact ⟨job, (hmem job).2 hjob, hrunning⟩
      · rcases hfits.shown h with hdismissed | hdismissed | ⟨hover, -⟩
        · exact .inl hdismissed
        · exact .inr hdismissed
        · exact absurd hover hroom
  · have hspread : (newEntry s.dismissedJobIds jobId).spread patch =
        patched jobId patch (newEntry s.dismissedJobIds jobId) := spread_eq_patched rfl hupdate.1
    obtain ⟨last, hlast⟩ :=
      exists_oldest hcmp (patched jobId patch (newEntry s.dismissedJobIds jobId)) s.jobs
    have hnext : ∀ job ∈ (s.upsert localeCompare jobId patch).jobs,
        job = patched jobId patch (newEntry s.dismissedJobIds jobId) ∨ job ∈ s.jobs ∧ job.id ≠ some jobId :=
      fun job hjob => ((hmem last hlast job).1 hjob).1.imp_right fun h => ⟨h, fun hid => hover.1 ⟨job, h, hid⟩⟩
    have hhidden := hidden_upsert_iff hkept hnext
    constructor
    · rintro ⟨listed, hidden⟩
      refine ⟨fun _ => ⟨last, hspread ▸ hlast, ?_⟩, fun h => ?_⟩
      · -- a running job that is lost would have to be in the list
        by_contra hended
        obtain ⟨id, hid⟩ : ∃ id, last.id = some id ∧ id ∈ (s.upsert localeCompare jobId patch).running := by
          rcases List.mem_cons.1 hlast.mem with rfl | hold
          · rw [ended_patched hupdate] at hended
            exact ⟨jobId, patched_id _ _ _, mem_report.2 (.inl ⟨rfl, Bool.eq_false_iff.2 hended⟩)⟩
          · obtain ⟨id, hid⟩ := hsound.named last hold
            refine ⟨id, hid, mem_report.2 (.inr ⟨fun h => hover.1 ⟨last, hold, h ▸ hid⟩, ?_⟩)⟩
            exact hsound.tracked last hold (Bool.eq_false_iff.2 hended) id hid
        obtain ⟨job, hjob, hjobid, -⟩ := listed id hid.2
        exact ((hmem last hlast job).1 hjob).2 (hjobid.trans hid.1.symm)
      · by_cases hentry : patched jobId patch (newEntry s.dismissedJobIds jobId) ∈
          (s.upsert localeCompare jobId patch).jobs
        · exact ((dismissed_patched_iff hkept h hbase).1 (hhidden.1 hidden h hentry)).imp_right .inl
        · refine .inr (.inr ⟨hover, ?_⟩)
          have hid : (patched jobId patch (newEntry s.dismissedJobIds jobId)).id = last.id := by
            by_contra hne
            exact hentry ((hmem last hlast _).2 ⟨.inl rfl, hne⟩)
          rw [hspread, unique_overflow hsound hover List.mem_cons_self hlast.mem hid]
          exact unique_overflow hsound hover List.mem_cons_self hlast.mem hid ▸ hlast
    · intro hfits
      refine ⟨fun id hid => ?_, hhidden.2 fun h hentry => ?_⟩
      · obtain ⟨last, hlast, hended⟩ := hfits.room hover
        rw [hspread] at hlast
        obtain ⟨job, hjob, hjobid, hrunning⟩ := exists_running hkept hupdate (newEntry s.dismissedJobIds jobId) hid
        have hcons := hjob.imp_right And.left
        refine ⟨job, (hmem last hlast job).2 ⟨hcons, fun heq => ?_⟩, hjobid, hrunning⟩
        rw [unique_overflow hsound hover (List.mem_cons.2 hcons) hlast.mem heq, hended] at hrunning
        cases hrunning
      · rcases hfits.shown h with hdismissed | hdismissed | ⟨-, hlast⟩
        · exact (dismissed_patched_iff hkept h hbase).2 (.inl hdismissed)
        · exact (dismissed_patched_iff hkept h hbase).2 (.inr hdismissed)
        · rw [hspread] at hlast
          exact absurd rfl ((hmem _ hlast _).1 hentry).2

/-! ### The end of a poll -/

theorem mem_interruptJob_of_ne {now : String} {error : PollFailure} {job : JobRecord} (hjob : job ∈ s.jobs)
    (hne : job.id ≠ some jobId) : job ∈ interruptJob now jobId error s.jobs :=
  List.mem_map.2 ⟨job, hjob, if_neg hne⟩

/-- After the interruption the job has the interrupted entry, and the others have theirs. -/
theorem mem_interrupt {now : String} {error : PollFailure} (hsound : Sound s) {job : JobRecord}
    (hjob : job ∈ (s.interrupt now jobId error).jobs) :
    (∃ cur ∈ s.jobs, cur.id = some jobId ∧ s.jobs.find? (fun j => j.id = some jobId) = some cur ∧
        job = cur.spread (interrupted now jobId error cur)) ∨ job ∈ s.jobs ∧ job.id ≠ some jobId := by
  rcases mem_interruptJob hjob with ⟨before, hbefore, hid, cur, hcur, hcurid, rfl⟩ | hmem
  · obtain rfl := hsound.tidy.unique hbefore hcur (hid.trans hcurid.symm)
    obtain ⟨found, hfound⟩ : ∃ found, s.jobs.find? (fun j => decide (j.id = some jobId)) = some found :=
      Option.isSome_iff_exists.1 (List.find?_isSome.2 ⟨before, hbefore, decide_eq_true hid⟩)
    have hfoundid : found.id = some jobId := by simpa using List.find?_some hfound
    obtain rfl := hsound.tidy.unique (List.mem_of_find?_eq_some hfound) hbefore (hfoundid.trans hid.symm)
    exact .inl ⟨found, hbefore, hid, hfound, rfl⟩
  · exact .inr hmem

theorem ended_interrupted {now : String} {error : PollFailure} (cur : JobRecord) :
    ended (cur.spread (interrupted now jobId error cur)) =
      isTerminalCmsJobStatus (interrupted now jobId error cur).jobStatus.join := rfl

theorem sound_interrupt {now : String} {error : PollFailure} (herror : error.Of jobId) (hsound : Sound s) :
    Sound (s.interrupt now jobId error) where
  tidy := tidy_interruptJob herror hsound.tidy
  named := by
    intro job hjob
    rcases mem_interrupt hsound hjob with ⟨cur, -, -, -, rfl⟩ | ⟨hmem, -⟩
    · exact ⟨jobId, JobRecord.spread_id _ (interrupted_jobId now herror cur)⟩
    · exact hsound.named job hmem
  tracked := by
    intro job hjob hrunning id hid
    rcases mem_interrupt hsound hjob with ⟨cur, -, -, hfound, rfl⟩ | ⟨hmem, hne⟩
    · rw [JobRecord.spread_id _ (interrupted_jobId now herror cur)] at hid
      rw [ended_interrupted] at hrunning
      simp only [State.interrupt, hfound]
      exact mem_report.2 (.inl ⟨(Option.some.inj hid).symm, hrunning⟩)
    · have hold := hsound.tracked job hmem hrunning id hid
      simp only [State.interrupt]
      split
      · exact mem_report.2 (.inr ⟨fun h => hne (h ▸ hid), hold⟩)
      · exact hold

theorem kept_interrupt {now : String} {error : PollFailure} (herror : error.Of jobId) (hsound : Sound s)
    (hkept : s.Kept) : (s.interrupt now jobId error).Kept where
  listed := by
    intro id hid
    have hother : id ≠ jobId → id ∈ s.running →
        ∃ job ∈ (s.interrupt now jobId error).jobs, job.id = some id ∧ ended job = false := by
      intro hne hrunning
      obtain ⟨job, hjob, hjobid, hended⟩ := hkept.listed id hrunning
      refine ⟨job, mem_interruptJob_of_ne hjob fun h => hne ?_, hjobid, hended⟩
      exact Option.some.inj (hjobid.symm.trans h)
    cases hfound : s.jobs.find? fun j => decide (j.id = some jobId) with
    | some cur =>
      simp only [State.interrupt, hfound] at hid
      rcases mem_report.1 hid with ⟨rfl, hended⟩ | ⟨hne, hrunning⟩
      · have hcurid : cur.id = some id := by simpa using List.find?_some hfound
        refine ⟨_, List.mem_map.2 ⟨cur, List.mem_of_find?_eq_some hfound, ?_⟩,
          JobRecord.spread_id cur (interrupted_jobId now herror cur), hended⟩
        simp only [if_pos hcurid, hfound, Option.getD_some, interrupted]
      · exact hother hne hrunning
    | none =>
      simp only [State.interrupt, hfound] at hid
      refine hother (fun h => ?_) hid
      obtain ⟨job, hjob, hjobid, -⟩ := hkept.listed id hid
      exact absurd (h ▸ hjobid) (by simpa using List.find?_eq_none.1 hfound job hjob)
  hidden := by
    intro job hjob id hid heq
    obtain ⟨hmem, hshown⟩ := mem_visibleJobs.1 hjob
    rcases mem_interrupt hsound hmem with ⟨cur, hcur, hcurid, -, rfl⟩ | ⟨hold, -⟩
    · -- the entry that the interrupted one is made of was dismissed
      rw [JobRecord.spread_id _ (interrupted_jobId now herror cur)] at heq
      have hdismissed : cur.dismissed.join = some true := by
        by_contra hcurshown
        exact hkept.hidden cur (mem_visibleJobs.2 ⟨hcur, hcurshown⟩) id hid (hcurid.trans heq)
      have hentry : (cur.spread (interrupted now jobId error cur)).dismissed =
          some (some (cur.dismissed.join.getD false)) := rfl
      rw [hentry, hdismissed] at hshown
      exact hshown rfl
    · exact hkept.hidden job (mem_visibleJobs.2 ⟨hold, hshown⟩) id hid heq

/-! ### Dismissals -/

/-- After a dismissal: the entry of the job is gone if it had finished, and dismissed otherwise. -/
theorem mem_dismiss {job : JobRecord} :
    job ∈ (s.dismiss jobId).jobs ↔
      (job ∈ s.jobs ∧ job.id ≠ some jobId) ∨
        ∃ before ∈ s.jobs, before.id = some jobId ∧ ended before = false ∧
          job = { before with dismissed := some (some true) } := by
  rw [State.dismiss, dismissJob, List.mem_flatMap]
  constructor
  · rintro ⟨before, hbefore, hmem⟩
    split at hmem
    · rename_i hne
      rw [List.mem_singleton.1 hmem]
      exact .inl ⟨hbefore, hne⟩
    · rename_i hid
      split at hmem
      · cases hmem
      · rename_i hended
        exact .inr ⟨before, hbefore, not_not.1 hid, Bool.eq_false_iff.2 hended, List.mem_singleton.1 hmem⟩
  · rintro (⟨hjob, hne⟩ | ⟨before, hbefore, hid, hended, rfl⟩)
    · exact ⟨job, hjob, by simp [hne]⟩
    · refine ⟨before, hbefore, ?_⟩
      rw [ended] at hended
      rw [if_neg (not_not.2 hid), if_neg (Bool.eq_false_iff.1 hended)]
      exact List.mem_singleton_self _

theorem sound_dismiss (hsound : Sound s) : Sound (s.dismiss jobId) where
  tidy := tidy_dismissJob jobId hsound.tidy
  named := by
    intro job hjob
    rcases mem_dismiss.1 hjob with ⟨hmem, -⟩ | ⟨before, hbefore, hid, -, rfl⟩
    · exact hsound.named job hmem
    · exact ⟨jobId, hid⟩
  tracked := by
    intro job hjob hrunning id hid
    rcases mem_dismiss.1 hjob with ⟨hmem, -⟩ | ⟨before, hbefore, -, hended, rfl⟩
    · exact hsound.tracked job hmem hrunning id hid
    · exact hsound.tracked before hbefore hended id hid

theorem kept_dismiss (hkept : s.Kept) : (s.dismiss jobId).Kept where
  listed := by
    intro id hid
    obtain ⟨job, hjob, hjobid, hended⟩ := hkept.listed id hid
    by_cases heq : job.id = some jobId
    · exact ⟨_, mem_dismiss.2 (.inr ⟨job, hjob, heq, hended, rfl⟩), hjobid, hended⟩
    · exact ⟨job, mem_dismiss.2 (.inl ⟨hjob, heq⟩), hjobid, hended⟩
  hidden := by
    intro job hjob id hid heq
    obtain ⟨hmem, hshown⟩ := mem_visibleJobs.1 hjob
    rcases mem_dismiss.1 hmem with ⟨hold, hne⟩ | ⟨before, -, -, -, rfl⟩
    · rcases List.mem_cons.1 hid with rfl | hid
      · exact hne heq
      · exact hkept.hidden job (mem_visibleJobs.2 ⟨hold, hshown⟩) id hid heq
    · exact hshown rfl

theorem mem_clear {job : JobRecord} : job ∈ s.clear.jobs ↔ job ∈ s.jobs ∧ ended job = false := by
  rw [State.clear, clearCompleted, List.mem_filter, Bool.not_eq_true', ended]

theorem sound_clear (hsound : Sound s) : Sound s.clear where
  tidy := hsound.tidy.sublist List.filter_sublist
  named := fun job hjob => hsound.named job (mem_clear.1 hjob).1
  tracked := fun job hjob => hsound.tracked job (mem_clear.1 hjob).1

theorem kept_clear (hsound : Sound s) (hkept : s.Kept) : s.clear.Kept where
  listed := by
    intro id hid
    obtain ⟨job, hjob, hjobid, hended⟩ := hkept.listed id hid
    exact ⟨job, mem_clear.2 ⟨hjob, hended⟩, hjobid, hended⟩
  hidden := by
    intro job hjob id hid heq
    obtain ⟨hmem, hshown⟩ := mem_visibleJobs.1 hjob
    obtain ⟨hold, hended⟩ := mem_clear.1 hmem
    rcases List.mem_append.1 hid with hcleared | hid
    · -- an entry of the same id has been cleared away
      obtain ⟨cleared, hcleared, hclearedid⟩ := List.mem_filterMap.1 hcleared
      obtain ⟨hclearedmem, hclearedended⟩ := List.mem_filter.1 hcleared
      rw [hsound.tidy.unique hclearedmem hold (hclearedid.trans heq.symm), hended] at hclearedended
      cases hclearedended
    · exact hkept.hidden job (mem_visibleJobs.2 ⟨hold, hshown⟩) id hid heq

/-! ### Runs -/

theorem sound_empty {dismissedJobIds hidden : List String} : Sound ⟨[], dismissedJobIds, [], hidden⟩ where
  tidy := ⟨List.nodup_nil, Nat.zero_le _, by simp⟩
  named := by simp
  tracked := by simp

theorem kept_empty {dismissedJobIds hidden : List String} : State.Kept ⟨[], dismissedJobIds, [], hidden⟩ where
  listed := by simp
  hidden := by simp [visibleJobs]

theorem sound_step {a : Act} (hsound : Sound s) (h : step localeCompare s a = some s') : Sound s' := by
  cases a with
  | upsertJob jobId patch =>
    obtain ⟨hupdate, rfl⟩ := Option.ite_some_none_eq_some.1 h
    exact sound_upsert hsound hupdate
  | restore jobId patch =>
    obtain ⟨hupdate, rfl⟩ := Option.ite_some_none_eq_some.1 h
    split
    · exact hsound
    · exact sound_upsert hsound hupdate
  | interrupt now jobId error =>
    obtain ⟨herror, rfl⟩ := Option.ite_some_none_eq_some.1 h
    exact sound_interrupt herror hsound
  | dismissJob jobId => exact Option.some.inj h ▸ sound_dismiss hsound
  | clearCompleted => exact Option.some.inj h ▸ sound_clear hsound
  | reload => exact Option.some.inj h ▸ sound_empty

/-- A step keeps the running jobs in the list and the dismissed ones out of sight just when it is fine. -/
theorem kept_step_iff (hcmp : Consistent localeCompare) {a : Act} (hsound : Sound s) (hkept : s.Kept)
    (h : step localeCompare s a = some s') : s'.Kept ↔ Fine localeCompare s a := by
  cases a with
  | upsertJob jobId patch =>
    obtain ⟨hupdate, rfl⟩ := Option.ite_some_none_eq_some.1 h
    exact kept_upsert_iff hcmp hsound hkept hupdate
  | restore jobId patch =>
    obtain ⟨hupdate, rfl⟩ := Option.ite_some_none_eq_some.1 h
    unfold Fine
    split
    · rename_i hdismissed
      exact ⟨fun _ hnot => absurd hdismissed hnot, fun _ => hkept⟩
    · rename_i hnot
      rw [kept_upsert_iff hcmp hsound hkept hupdate]
      exact ⟨fun hfits _ => hfits, fun hfits => hfits hnot⟩
  | interrupt now jobId error =>
    obtain ⟨herror, rfl⟩ := Option.ite_some_none_eq_some.1 h
    exact iff_of_true (kept_interrupt herror hsound hkept) trivial
  | dismissJob jobId => exact iff_of_true (Option.some.inj h ▸ kept_dismiss hkept) trivial
  | clearCompleted => exact iff_of_true (Option.some.inj h ▸ kept_clear hsound hkept) trivial
  | reload => exact iff_of_true (Option.some.inj h ▸ kept_empty) trivial

/-- However updates, dismissals and restored jobs follow one another, the list has at most 50 jobs with distinct ids.
No running job has left it and no dismissed one has been shown, all the way, if and only if every step was fine. -/
theorem tray_keeps_iff (localeCompare : String → String → Int) (hcmp : Consistent localeCompare)
    (dismissedJobIds : List String) (acts : List Act) (s : State)
    (hrun : Run (step localeCompare) Always (.fresh dismissedJobIds) acts s) :
    (s.jobs.length ≤ maxTracked ∧ (s.jobs.map JobRecord.id).Nodup) ∧
      ((∀ before s₁, before <+: acts → Run (step localeCompare) Always (.fresh dismissedJobIds) before s₁ → s₁.Kept) ↔
        Run (step localeCompare) (Fine localeCompare) (.fresh dismissedJobIds) acts s) := by
  have hsound : ∀ {bs s₁}, Run (step localeCompare) Always (.fresh dismissedJobIds) bs s₁ → Sound s₁ := by
    intro bs s₁ h
    exact h.invariant (fun _ _ _ hi _ hstep => sound_step hi hstep) sound_empty
  have hone : ∀ s a s', Sound s ∧ s.Kept → step localeCompare s a = some s' →
      (Sound s' ∧ s'.Kept ↔ Fine localeCompare s a) := by
    intro s a s' hi hstep
    rw [and_iff_right (sound_step hi.1 hstep)]
    exact kept_step_iff hcmp hi.1 hi.2 hstep
  have hiff := Run.prefixes_iff hone hrun ⟨sound_empty, kept_empty⟩
  refine ⟨⟨(hsound hrun).tidy.bounded, (hsound hrun).tidy.distinct⟩, hiff.symm.trans ?_ |>.symm⟩
  exact ⟨fun h bs s₁ hbs hrun₁ => (h bs s₁ hbs hrun₁).2, fun h bs s₁ hbs hrun₁ => ⟨hsound hrun₁, h bs s₁ hbs hrun₁⟩⟩

theorem consistent_zero : Consistent fun _ _ : String => (0 : Int) :=
  ⟨fun _ _ => Iff.rfl, fun _ _ _ _ _ => Int.le_refl 0⟩

/-- A queued job that is dismissed stays in the list, out of sight. -/
theorem tray_keeps_queued :
    let acts : List Act := [.upsertJob "7" { jobStatus := some (some "queued") }, .dismissJob "7"]
    ∃ s, Run (step fun _ _ => 0) Always (.fresh []) acts s ∧ s.Kept ∧ s.running = ["7"] ∧ s.hidden = ["7"] := by
  intro acts
  have hrun : Run (step fun _ _ => 0) Always (.fresh []) acts _ := .cons trivial rfl (.cons trivial rfl (.nil _))
  have hfine : Run (step fun _ _ => 0) (Fine fun _ _ => 0) (.fresh []) acts _ :=
    .cons ⟨fun h => absurd h.2 (by decide), fun h => absurd h (by decide)⟩ rfl (.cons trivial rfl (.nil _))
  exact ⟨_, hrun,
    (tray_keeps_iff _ consistent_zero [] acts _ hrun).2.2 hfine acts _ (List.prefix_refl acts) hrun, rfl, rfl⟩

/-- A running job is dismissed, and the next answer of its poll shows it again. -/
theorem tray_keeps_fails :
    ¬ ∀ (dismissedJobIds : List String) (acts : List Act) (s : State),
      Run (step fun _ _ => 0) (fun s a => ∀ s', step (fun _ _ => 0) s a = some s' → s'.running.length ≤ maxTracked)
        (.fresh dismissedJobIds) acts s → s.Kept := by
  intro h
  let job : JobRecord := { jobId := some (some "7"), status := some (some "running") }
  let patch := normalizeTrackedJob "" (getJob job) {}
  let acts : List Act := [.upsertJob "7" patch, .dismissJob "7", .upsertJob "7" patch]
  let s₁ := State.upsert (fun _ _ => 0) (.fresh []) "7" patch
  let s₂ := s₁.dismiss "7"
  let s₃ := s₂.upsert (fun _ _ => 0) "7" patch
  have hfew : ∀ {s : State} {a} (next : State), step (fun _ _ => 0) s a = some next →
      next.running.length ≤ maxTracked →
      ∀ s', step (fun _ _ => 0) s a = some s' → s'.running.length ≤ maxTracked := by
    intro s a next hstep hlength s' hs'
    rw [← Option.some.inj (hstep.symm.trans hs')]
    exact hlength
  have hrun : Run (step fun _ _ => 0)
      (fun s a => ∀ s', step (fun _ _ => 0) s a = some s' → s'.running.length ≤ maxTracked) (.fresh []) acts s₃ :=
    .cons (hfew s₁ rfl (by decide)) rfl (.cons (hfew s₂ rfl (by decide)) rfl
      (.cons (hfew s₃ rfl (by decide)) rfl (.nil s₃)))
  have hupdate : Update "7" patch := by decide
  have hsound : Sound s₂ := sound_dismiss (sound_upsert sound_empty hupdate)
  have hkept : s₂.Kept :=
    kept_dismiss ((kept_upsert_iff consistent_zero sound_empty kept_empty hupdate).2
      ⟨fun h => absurd h.2 (by decide), fun h => absurd h (by decide)⟩)
  have hpatch : Stamped "7" patch := .inr rfl
  obtain ⟨before, hbefore, hbeforeid, -⟩ := hkept.listed "7" List.mem_cons_self
  obtain ⟨entry, hentry, hid⟩ := exists_mem_upsertJob (fun _ _ => 0) s₂.dismissedJobIds hpatch hsound.tidy
    (.inl ⟨before, hbefore, hbeforeid⟩)
  refine (h [] acts s₃ hrun).hidden entry (mem_visibleJobs.2 ⟨hentry, ?_⟩) "7" List.mem_cons_self hid
  rcases mem_upsertJob _ _ hpatch hsound.tidy hentry with ⟨base, -, rfl⟩ | ⟨-, hne⟩
  · intro hdismissed
    cases hdismissed
  · exact absurd hid hne

end CubridWebManager.JobPolls.Tray
