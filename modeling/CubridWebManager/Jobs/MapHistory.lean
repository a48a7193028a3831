import CubridWebManager.Jobs.WellFormed

/-!
# The history of the operations map

`createJob` and the release at the end of `runJob` rewrite the operations map under the lock; the purge and the orphan
recovery (`removeJobIdFromGlobalOperations`) do so without it.  So a purge can write back a map that is out of date
(`globalOps_no_lost_update_fails`).

Where the unlocked writers do not meet another writer (`UnlockedWritesFit`), no update is lost: `MapEdit` says that
every step changes the map by the edit of its own writer and nothing else.  The invariant that carries this,
`MapInHand`, says that the map in the hand of a locked section differs from the map on disk at the section's own key
only.
-/

namespace CubridWebManager.Jobs

open Transition

variable {cfg : JobConfig}

/-- The two maps have the same entries. -/
def SameEntries (ops ops' : GlobalOps) : Prop :=
  (∀ e ∈ ops.entries, e ∈ ops'.entries) ∧ ∀ e ∈ ops'.entries, e ∈ ops.entries

instance (ops ops' : GlobalOps) : Decidable (SameEntries ops ops') := inferInstanceAs (Decidable (_ ∧ _))

theorem SameEntries.get? {ops ops' : GlobalOps} (h : SameEntries ops ops') (k : OperationKey) :
    ops.get? k = ops'.get? k := by
  apply Option.ext
  intro e
  rw [Dict.get?_eq_some_iff, Dict.get?_eq_some_iff]
  exact ⟨h.1 (k, e), h.2 (k, e)⟩

/-- A map written without the entries of job `j` keeps those of the other jobs. -/
theorem SameEntries.kept {ops ops' : GlobalOps} {j : JobId} (h : SameEntries ops' (removeJobId ops j)) {k : OperationKey}
    {e : OpEntry} (he : ops.get? k = some e) (hne : e.jobId ≠ j) : ops'.get? k = some e := by
  calc ops'.get? k = (removeJobId ops j).get? k := h.get? k
    _ = (ops.get? k).filter fun e => e.jobId ≠ j := get?_removeJobId _ _ _
    _ = some e := by rw [he, Option.filter_some, if_pos (by simpa using hne)]

/-- The map that the locked section of a call with key `k` is going to write, but for its own entry. -/
def JobPc.pending (k : OperationKey) : JobPc → Option GlobalOps
  | .existingRead ops _ => some (ops.erase k)
  | .opsWrite ops _ | .releaseWrite ops => some ops
  | _ => none

/-- A purge or recovery that writes the map without the lock writes the map on disk less the entries of the job it
removes, and a locked section that is under way is not going to bring these back. -/
def UnlockedWritesFit (s : State) : Act → Prop
  | .sweepResume p => ∀ r ∈ (s.sweeps p).removing, SameEntries r.2 (removeJobId s.globalOps r.1) ∧
      ∀ j ∈ s.lockHolder, ∀ ops ∈ (s.procs j).pc.pending (s.key j), ∀ e ∈ ops.entries, e.2.jobId ≠ r.1
  | _ => True

instance (s : State) (a : Act) : Decidable (UnlockedWritesFit s a) := by
  delta UnlockedWritesFit
  induction a using Act.casesOn <;> dsimp only <;> infer_instance

/-! ### The map in the hand of a locked section -/

/-- The two maps agree off the key `k`. -/
def AgreeOff (k : OperationKey) (ops ops' : GlobalOps) : Prop := ∀ k', k' ≠ k → ops.get? k' = ops'.get? k'

/-- The map in the hand of job `j`, which holds the lock, is the one on disk but for the entry at the job's own key:
there it has the entry it found (which a purge may have removed since), its own new entry, or no entry any more. -/
def MapInHand (cfg : JobConfig) (s : State) (j : JobId) : JobPc → Prop
  | .existingRead ops existing => ops.get? (s.key j) = some existing ∧ AgreeOff (s.key j) ops s.globalOps ∧
      ∀ e, s.globalOps.get? (s.key j) = some e → e = existing
  | .opsWrite ops existing => ops.get? (s.key j) = some (entryOf cfg s j) ∧ AgreeOff (s.key j) ops s.globalOps ∧
      ∀ e, s.globalOps.get? (s.key j) = some e → some e = existing
  | .releaseWrite ops => ops.get? (s.key j) = none ∧ AgreeOff (s.key j) ops s.globalOps ∧
      ∀ e, s.globalOps.get? (s.key j) = some e → e.jobId = j
  | _ => True

def MapsInHand (cfg : JobConfig) (s : State) : Prop := ∀ j, MapInHand cfg s j (s.procs j).pc

theorem MapInHand.of_free {s : State} {j : JobId} {pc : JobPc} (h : pc.snapshot = none) : MapInHand cfg s j pc := by
  cases pc <;> first | exact trivial | simp [JobPc.snapshot] at h

theorem MapInHand.of_same {s s' : State} {j : JobId} {pc : JobPc} (hops : s'.globalOps = s.globalOps)
    (hkey : s'.key j = s.key j) (hentry : entryOf cfg s' j = entryOf cfg s j) (h : MapInHand cfg s j pc) :
    MapInHand cfg s' j pc := by
  cases pc <;> first | exact trivial | simpa only [MapInHand, hops, hkey, hentry] using h

/-- Off the lock there is no map in hand. -/
theorem WellFormed.snapshot_of_ne {s : State} (hw : WellFormed cfg s) {i j : JobId}
    (hj : (s.procs j).pc.holdsLock = true) (hne : i ≠ j) : (s.procs i).pc.snapshot = none := by
  by_contra hsome
  obtain ⟨ops, hops⟩ := Option.ne_none_iff_exists'.1 hsome
  have hi : (s.procs i).pc.holdsLock = true := by
    cases hpc : (s.procs i).pc <;> simp_all [JobPc.snapshot, JobPc.holdsLock]
  exact hne (Option.some.inj ((hw.lock i hi).symm.trans (hw.lock j hj)))

theorem AgreeOff.set {k : OperationKey} {ops ops' : GlobalOps} (h : AgreeOff k ops ops') (e : OpEntry) :
    AgreeOff k (ops.set k e) ops' := by
  intro k' hk'
  rw [Dict.get?_set, if_neg hk']
  exact h k' hk'

theorem AgreeOff.erase {k : OperationKey} {ops ops' : GlobalOps} (h : AgreeOff k ops ops') :
    AgreeOff k (ops.erase k) ops' := by
  intro k' hk'
  rw [Dict.get?_erase, if_neg hk']
  exact h k' hk'

namespace MapsInHand

variable {s : State}

/-- A call moves without a write of the map. -/
theorem setPc (h : MapsInHand cfg s) {s₁ : State} {j : JobId} {new : JobPc} (hprocs : s₁.procs = s.procs)
    (hops : s₁.globalOps = s.globalOps) (hnew : MapInHand cfg s j new) : MapsInHand cfg (s₁.setPc j new) := by
  have hkey : ∀ i, (s₁.setPc j new).key i = s.key i := fun i => by simp [State.key, hprocs]
  have hentry : ∀ i, entryOf cfg (s₁.setPc j new) i = entryOf cfg s i := fun i => by simp [entryOf, hprocs]
  intro i
  by_cases hij : i = j
  · subst hij
    rw [setPc_self]
    exact hnew.of_same hops (hkey i) (hentry i)
  · rw [setPc_of_ne _ _ hij, hprocs]
    exact (h i).of_same hops (hkey i) (hentry i)

/-- The holder of the lock writes the map; nobody else has one in hand. -/
theorem write (hw : WellFormed cfg s) {j : JobId} {new : JobPc} (hheld : (s.procs j).pc.holdsLock = true)
    (ops : GlobalOps) (hnew : new.snapshot = none) : MapsInHand cfg ({ s with globalOps := ops }.setPc j new) := by
  intro i
  by_cases hij : i = j
  · subst hij
    rw [setPc_self]
    exact .of_free hnew
  · rw [setPc_of_ne _ _ hij]
    exact .of_free (hw.snapshot_of_ne hheld hij)

theorem jobMove (h : MapsInHand cfg s) (hw : WellFormed cfg s) {j : JobId} {new : JobPc} {s₁ : State}
    (hmove : JobMove cfg s j (s.procs j).pc new s₁) : MapsInHand cfg (s₁.setPc j new) := by
  generalize hpc : (s.procs j).pc = old at hmove
  have hj := h j
  rw [hpc] at hj
  cases hmove with
  | event hevent => exact h.setPc rfl rfl (.of_free hevent.snapshot)
  | @found existing hget =>
    refine h.setPc rfl rfl ⟨hget, fun _ _ => rfl, fun e he => ?_⟩
    rw [hget] at he
    exact (Option.some.inj he).symm
  | free hget =>
    refine h.setPc rfl rfl ⟨Dict.get?_set_self _ _ _, AgreeOff.set (fun _ _ => rfl) _, fun e he => ?_⟩
    rw [hget] at he
    cases he
  | @takeOver ops existing hstale =>
    refine h.setPc rfl rfl ⟨Dict.get?_set_self _ _ _, hj.2.1.erase.set _, fun e he => ?_⟩
    rw [hj.2.2 e he]
  | releaseFound hget hown =>
    refine h.setPc rfl rfl ⟨Dict.get?_erase_self _ _, AgreeOff.erase fun _ _ => rfl, fun e he => ?_⟩
    rw [hget] at he
    exact Option.some.inj he ▸ hown
  | publish | release => exact write hw (by rw [hpc]; rfl) _ rfl
  | pass | lock | passed | refused | saved | run | loaded | started | uuidSaved | outcomeSaved | releaseLock
  | released => exact h.setPc rfl rfl (.of_free rfl)

/-- An unlocked write that meets no other writer. -/
theorem unlockedWrite (h : MapsInHand cfg s) (hw : WellFormed cfg s) {p : Nat} {sw : SweepPc} {i : JobId}
    {ops : GlobalOps} (hremoving : (s.sweeps p).removing = some (i, ops))
    (hok : UnlockedWritesFit s (.sweepResume p)) :
    MapsInHand cfg ({ s with globalOps := ops }.setSweep p sw) := by
  obtain ⟨hsame, hpending⟩ := hok _ hremoving
  have hget : ∀ k, ops.get? k = (s.globalOps.get? k).filter fun e => e.jobId ≠ i := fun k => by
    rw [hsame.get? k, get?_removeJobId]
  intro j
  have hj := h j
  change MapInHand cfg _ j (s.procs j).pc
  cases hsnap : (s.procs j).pc.snapshot with
  | none => exact .of_free hsnap
  | some ops' =>
    have hheld : s.lockHolder = some j := hw.lock j (by
      cases hpc : (s.procs j).pc <;> simp_all [JobPc.snapshot, JobPc.holdsLock])
    have hpend := hpending j hheld
    -- the map that the section will write has no entry of the removed job, so it still agrees with the one on disk
    have hagree : ∀ {mine pend : GlobalOps}, AgreeOff (s.key j) mine s.globalOps →
        (∀ e ∈ pend.entries, e.2.jobId ≠ i) → AgreeOff (s.key j) pend mine → AgreeOff (s.key j) mine ops := by
      intro mine pend hoff hno heq k hk
      rw [hget, ← hoff k hk]
      cases hmine : mine.get? k with
      | none => rfl
      | some e =>
        have hmem : pend.get? k = some e := (heq k hk).trans hmine
        have hne : e.jobId ≠ i := hno _ (Dict.get?_eq_some_iff.1 hmem)
        rw [Option.filter_some, if_pos (by simpa using hne)]
    have hsub : ∀ {e}, ops.get? (s.key j) = some e → s.globalOps.get? (s.key j) = some e := fun he => by
      rw [hget, Option.filter_eq_some_iff] at he
      exact he.1
    cases hpc : (s.procs j).pc with
    | existingRead mine existing =>
      rw [hpc] at hj hpend
      exact ⟨hj.1, hagree hj.2.1 (hpend _ rfl) (AgreeOff.erase fun _ _ => rfl), fun e he => hj.2.2 e (hsub he)⟩
    | opsWrite mine existing | releaseWrite mine =>
      rw [hpc] at hj hpend
      exact ⟨hj.1, hagree hj.2.1 (hpend _ rfl) fun _ _ => rfl, fun e he => hj.2.2 e (hsub he)⟩
    | _ => simp [hpc, JobPc.snapshot] at hsnap

theorem same (h : MapsInHand cfg s) {s' : State} (hprocs : s'.procs = s.procs) (hops : s'.globalOps = s.globalOps) :
    MapsInHand cfg s' := by
  intro j
  rw [hprocs]
  exact (h j).of_same hops (by simp [State.key, hprocs]) (by simp [entryOf, hprocs])

theorem startJob (h : MapsInHand cfg s) (request : JobRequest) : MapsInHand cfg (startJob s request) := by
  intro j
  by_cases hj : j = s.nextJob
  · subst hj
    simp only [Jobs.startJob, Function.update_self]
    exact trivial
  · have hproc : (Jobs.startJob s request).procs j = s.procs j := by simp [Jobs.startJob, Function.update_of_ne hj]
    rw [hproc]
    exact MapInHand.of_same (s := s) rfl (by simp [State.key, hproc]) (by simp [entryOf, hproc]) (h j)

theorem step (h : MapsInHand cfg s) (hw : WellFormed cfg s) {a : Act} {s' : State} (hok : UnlockedWritesFit s a)
    (hstep : step cfg s a = some s') : MapsInHand cfg s' := by
  cases step_move hstep with
  | start request => exact h.startJob request
  | job hmove => exact h.jobMove hw hmove
  | event hact hevent => exact h.setPc rfl rfl (.of_free hevent.snapshot)
  | sweep hmove =>
    cases hmove with
    | write hremoving hwalk => exact h.unlockedWrite hw hremoving hok
    | walk | unlink | save | read => exact h.same rfl rfl
  | walk | tick | startAction | action => exact h.same rfl rfl

theorem of_init (h : Init s) : MapsInHand cfg s := fun j => by
  rw [h.procs j]
  exact trivial

end MapsInHand

/-! ### What a step does to the map -/

/-- A step changes the map by the edit of its writer only. -/
inductive MapEdit (cfg : JobConfig) (s : State) : Act → GlobalOps → Prop
  | none {a : Act} {ops : GlobalOps} (hsame : ∀ k, ops.get? k = s.globalOps.get? k) : MapEdit cfg s a ops
  /-- `createJob` adds its entry, in the place of the entry it takes over. -/
  | add {j : JobId} {ops ops' : GlobalOps} {existing : Option OpEntry} (hpc : (s.procs j).pc = .opsWrite ops' existing)
    (hget : ops.get? (s.key j) = some (entryOf cfg s j)) (hoff : AgreeOff (s.key j) ops s.globalOps)
    (hold : ∀ e, s.globalOps.get? (s.key j) = some e → some e = existing) : MapEdit cfg s (.jobResume j) ops
  /-- `runJob` releases its own entry. -/
  | release {j : JobId} {ops ops' : GlobalOps} (hpc : (s.procs j).pc = .releaseWrite ops')
    (hget : ops.get? (s.key j) = .none) (hoff : AgreeOff (s.key j) ops s.globalOps)
    (hold : ∀ e, s.globalOps.get? (s.key j) = some e → e.jobId = j) : MapEdit cfg s (.jobResume j) ops
  /-- A purge or recovery removes the entries of one job. -/
  | remove {p : Nat} {j : JobId} {ops ops' : GlobalOps} (hremoving : (s.sweeps p).removing = some (j, ops'))
    (hget : ∀ k, ops.get? k = (s.globalOps.get? k).filter fun e => e.jobId ≠ j) : MapEdit cfg s (.sweepResume p) ops

theorem map_edit {s s' : State} {a : Act} (hm : MapsInHand cfg s)
    (hok : UnlockedWritesFit s a) (hstep : step cfg s a = some s') : MapEdit cfg s a s'.globalOps := by
  cases step_move hstep with
  | @job j new s₁ hmove =>
    generalize hpc : (s.procs j).pc = old at hmove
    have hj := hm j
    rw [hpc] at hj
    cases hmove with
    | publish => exact .add hpc hj.1 hj.2.1 hj.2.2
    | release => exact .release hpc hj.1 hj.2.1 hj.2.2
    | _ => exact .none fun _ => rfl
  | @sweep p s₁ sw hmove =>
    cases hmove with
    | write hremoving hwalk =>
      refine .remove hremoving fun k => ?_
      rw [← get?_removeJobId]
      exact (hok _ hremoving).1.get? k
    | walk | unlink | save | read => exact .none fun _ => rfl
  | start | event | walk | tick | startAction | action => exact .none fun _ => rfl

/-! ### The main result -/

/-- The worker of the call is releasing its entry. -/
def JobPc.releasing : JobPc → Bool
  | .releaseWrite _ => true
  | _ => false

/-- The entry that the call is about to replace by its own. -/
def JobPc.takesOver : JobPc → Option OpEntry
  | .opsWrite _ existing => existing
  | _ => none

/-- The step is what may end the entry `e` at `k`: the release by its own worker, a takeover of this entry, or a
removal of its job. -/
def EndsEntry (s : State) (k : OperationKey) (e : OpEntry) : Act → Prop
  | .jobResume j => j = e.jobId ∧ (s.procs j).pc.releasing = true ∨ s.key j = k ∧ (s.procs j).pc.takesOver = some e
  | .sweepResume p => (s.sweeps p).removing.map Prod.fst = some e.jobId
  | _ => False

instance (s : State) (k : OperationKey) (e : OpEntry) (a : Act) : Decidable (EndsEntry s k e a) :=
  match a with
  | .jobResume _ | .sweepResume _ => by unfold EndsEntry; infer_instance
  | .tick _ | .createJob _ | .jobReject _ _ | .cmsUuid _ _ | .cmsAnswer _ _ | .followedUp _ _ _ | .purge _ | .recover _
  | .listUsers _ _ | .listFiles _ _ | .sweepReject _ | .reconciled _ _ | .startAction _ _ _ | .actionResume _
  | .actionHaList _ _ | .actionEnd _ => isFalse id

theorem MapEdit.entry_stays {s : State} {a : Act} {ops : GlobalOps} (h : MapEdit cfg s a ops) {k : OperationKey}
    {e : OpEntry} (hget : s.globalOps.get? k = some e) (hends : ¬ EndsEntry s k e a) : ops.get? k = some e := by
  cases h with
  | none hsame => rw [hsame, hget]
  | @add j _ _ existing hpc hget' hoff hold =>
    have hne : k ≠ s.key j := by
      rintro rfl
      exact hends (.inr ⟨rfl, by rw [hpc]; exact (hold e hget).symm⟩)
    rw [hoff k hne, hget]
  | @release j _ _ hpc hget' hoff hold =>
    have hne : k ≠ s.key j := by
      rintro rfl
      exact hends (.inl ⟨(hold e hget).symm, by rw [hpc]; rfl⟩)
    rw [hoff k hne, hget]
  | @remove p j _ _ hremoving hget' =>
    have hne : e.jobId ≠ j := by
      rintro rfl
      exact hends (by simp [EndsEntry, hremoving])
    rw [hget', hget, Option.filter_some, if_pos (by simpa using hne)]

/-- Only `createJob` adds an entry, its own: no writer brings an entry back. -/
theorem MapEdit.entry_new {s : State} {a : Act} {ops : GlobalOps} (h : MapEdit cfg s a ops) {k : OperationKey}
    {e : OpEntry} (hget : ops.get? k = some e) :
    s.globalOps.get? k = some e ∨ (s.procs e.jobId).pc.mayAdd = true := by
  cases h with
  | none hsame => exact .inl (hsame k ▸ hget)
  | @add j _ _ _ hpc hget' hoff hold =>
    by_cases hk : k = s.key j
    · subst hk
      rw [hget'] at hget
      cases hget
      exact .inr (by simp [entryOf, JobRequest.entry, hpc, JobPc.mayAdd])
    · exact .inl (hoff k hk ▸ hget)
  | @release j _ _ hpc hget' hoff hold =>
    by_cases hk : k = s.key j
    · rw [hk, hget'] at hget
      cases hget
    · exact .inl (hoff k hk ▸ hget)
  | remove hremoving hget' =>
    rw [hget', Option.filter_eq_some_iff] at hget
    exact .inl hget.1

/-- The invariant of the runs considered here. -/
structure MapConsistent (cfg : JobConfig) (s : State) : Prop where
  wellFormed : WellFormed cfg s
  inHand : MapsInHand cfg s

namespace MapConsistent

variable {s s' : State}

theorem step (h : MapConsistent cfg s) {a : Act} (hok : UnlockedWritesFit s a) (hstep : step cfg s a = some s') :
    MapConsistent cfg s' := ⟨h.wellFormed.step hstep, h.inHand.step h.wellFormed hok hstep⟩

theorem run {as : List Act} (hrun : Run (Jobs.step cfg) UnlockedWritesFit s as s') (h : MapConsistent cfg s) :
    MapConsistent cfg s' :=
  hrun.invariant (fun _ _ _ hs hok hstep => hs.step hok hstep) h

theorem of_init (h : Init s) : MapConsistent cfg s := ⟨.of_init h, .of_init h⟩

end MapConsistent

/-- An entry stays in the map until its own worker's release, a takeover of it or a removal of its job. -/
theorem MapConsistent.entry_stays {s s' : State} (h : MapConsistent cfg s) {k : OperationKey} {e : OpEntry}
    (hget : s.globalOps.get? k = some e) {as : List Act}
    (hrun : Run (Jobs.step cfg) (fun t a => UnlockedWritesFit t a ∧ ¬ EndsEntry t k e a) s as s') :
    s'.globalOps.get? k = some e :=
  hrun.lasts (P := fun t => t.globalOps.get? k = some e) (fun _ _ _ ht hok hstep => ht.step hok hstep)
    (fun _ _ _ ht hp hok hends hstep => (map_edit ht.inHand hok hstep).entry_stays hp hends) h hget

/-- A set of entries of settled jobs that are not in the map stays out of it. -/
theorem MapConsistent.entries_absent {s s' : State} (h : MapConsistent cfg s) {P : OperationKey → OpEntry → Prop}
    (hsettled : ∀ k e, P k e → s.Settled e.jobId) (habsent : ∀ k e, P k e → s.globalOps.get? k ≠ some e)
    {as : List Act} (hrun : Run (Jobs.step cfg) UnlockedWritesFit s as s') :
    ∀ k e, P k e → s'.globalOps.get? k ≠ some e := by
  have hinv := hrun.invariant
    (I := fun t => MapConsistent cfg t ∧ ∀ k e, P k e → t.Settled e.jobId ∧ t.globalOps.get? k ≠ some e) ?_
    ⟨h, fun k e hp => ⟨hsettled k e hp, habsent k e hp⟩⟩
  · exact fun k e hp => (hinv.2 k e hp).2
  · rintro t a t' ⟨ht, hpt⟩ hok hstep
    refine ⟨ht.step hok hstep, fun k e hp => ⟨settled_step hstep (hpt k e hp).1, fun hget => ?_⟩⟩
    rcases (map_edit ht.inHand hok hstep).entry_new hget with hold | hadd
    · exact (hpt k e hp).2 hold
    · simp [(hpt k e hp).1.2] at hadd

/-- In a run whose unlocked writes meet no other writer: an entry stays until what may end it; an entry that is gone
never returns; and no entry of a job that a purge or recovery removed is ever in the map again. -/
theorem globalOps_no_lost_update {s₀ s : State} {as : List Act} (hinit : Init s₀)
    (hrun : Run (step cfg) UnlockedWritesFit s₀ as s) :
    (∀ k e, s.globalOps.get? k = some e → ∀ bs s',
      Run (step cfg) (fun t b => UnlockedWritesFit t b ∧ ¬ EndsEntry t k e b) s bs s' →
      s'.globalOps.get? k = some e) ∧
    (∀ k e a s₁, s.globalOps.get? k = some e → UnlockedWritesFit s a → step cfg s a = some s₁ →
      s₁.globalOps.get? k ≠ some e → ∀ bs s', Run (step cfg) UnlockedWritesFit s₁ bs s' →
      s'.globalOps.get? k ≠ some e) ∧
    ∀ p j ops s₁, (s.sweeps p).removing = some (j, ops) → UnlockedWritesFit s (.sweepResume p) →
      step cfg s (.sweepResume p) = some s₁ → ∀ bs s', Run (step cfg) UnlockedWritesFit s₁ bs s' →
      ∀ k e, s'.globalOps.get? k = some e → e.jobId ≠ j := by
  have hs : MapConsistent cfg s := (MapConsistent.of_init hinit).run hrun
  refine ⟨fun k e hget bs s' hrun' => hs.entry_stays hget hrun', fun k e a s₁ hget hok hstep hgone bs s' hrun' => ?_,
    fun p j ops s₁ hremoving hok hstep bs s' hrun' k e hget hej => ?_⟩
  · refine (hs.step hok hstep).entries_absent (P := fun k' e' => k' = k ∧ e' = e) ?_ ?_ hrun' k e ⟨rfl, rfl⟩
    · rintro _ _ ⟨rfl, rfl⟩
      exact settled_step hstep (hs.wellFormed.ops _ _ hget)
    · rintro _ _ ⟨rfl, rfl⟩
      exact hgone
  · have hsettled : s.Settled j := hs.wellFormed.sweeps p j (SweepPc.mem_ids_of_removing hremoving)
    refine (hs.step hok hstep).entries_absent (P := fun _ e' => e'.jobId = j) ?_ ?_ hrun' k e hej hget
    · rintro _ e' rfl
      exact settled_step hstep hsettled
    · intro k' e' hej' hget'
      rw [resumeSweep_write hremoving hstep, (hok _ hremoving).1.get? k', get?_removeJobId,
        Option.filter_eq_some_iff] at hget'
      simp [hej'] at hget'

/-- A job of an hour ago, and a purge that has read the operations map to remove its entry. -/
def purgeOfOldJob : List Act :=
  [.createJob (compactRequest "olddb")] ++ resumes 0 6 ++
    [.tick 3600000, .purge 0, .listUsers 0 ["dba"], .listFiles 0 [0]] ++ List.replicate 4 (.sweepResume 0)

/-- The purge is done before the next job starts: that job's entry stays until something ends it. -/
theorem globalOps_no_lost_update_purge : ∃ s, Run (step plainConfig) UnlockedWritesFit State.empty
    (purgeOfOldJob ++ [.sweepResume 0, .createJob (compactRequest "demodb")] ++ resumes 1 5) s ∧
    s.globalOps.get? (s.key 1) = some (entryOf plainConfig s 1) ∧
    ∀ bs s', Run (step plainConfig)
      (fun t b => UnlockedWritesFit t b ∧ ¬ EndsEntry t (s.key 1) (entryOf plainConfig s 1) b) s bs s' →
      s'.globalOps.get? (s.key 1) = some (entryOf plainConfig s 1) := by
  have hrun : ∃ s, Run (step plainConfig) UnlockedWritesFit State.empty
      (purgeOfOldJob ++ [.sweepResume 0, .createJob (compactRequest "demodb")] ++ resumes 1 5) s ∧
      s.globalOps.get? (s.key 1) = some (entryOf plainConfig s 1) := exists_run (by decide)
  obtain ⟨s, hrun, hget⟩ := hrun
  exact ⟨s, hrun, hget, (globalOps_no_lost_update .empty hrun).1 _ _ hget⟩

/-- The next job's entry is written between the purge's read and its write: the write, which is none of what may end
the entry, drops it. -/
theorem globalOps_no_lost_update_fails : Init State.empty ∧ ∃ s, Run (step plainConfig) Always State.empty
    (purgeOfOldJob ++ [.createJob (compactRequest "demodb")] ++ resumes 1 5) s ∧
    s.globalOps.get? (s.key 1) = some (entryOf plainConfig s 1) ∧
    ¬ EndsEntry s (s.key 1) (entryOf plainConfig s 1) (.sweepResume 0) ∧
    (step plainConfig s (.sweepResume 0)).map (fun s' => s'.globalOps.get? (s.key 1)) = some none :=
  ⟨.empty, exists_run (by decide)⟩

end CubridWebManager.Jobs
