import CubridWebManager.CmsTask.Poll

/-!
# A task asks about itself only

Every `gettaskstatus` of a task is to name the task by a uuid that CMS gave for it, or that the job record persisted.
The poller carries the uuid beside the answers, and asks with what it has: so the answer that it starts from must name
the task, unless it is final.  After that the uuid is never lost again (`Tracked`).
-/

namespace CubridWebManager.CmsTask

open Transition

variable {lower : Text → Text} {timeoutMs : Nat}

/-! ### What is claimed of a task -/

/-- CMS gave this uuid for the task, or the job record persisted it. -/
def Task.Given (t : Task) (uuid : Json) : Prop :=
  uuid.truthy = true ∧ ((∃ cmsUuid huuid, t.entry = .reattached cmsUuid huuid ∧ uuid = .str cmsUuid) ∨
    ∃ response ∈ t.answers, response.prop? "uuid" = some uuid)

def Post.isSubmit (post : Post) : Bool :=
  match post.body with
  | .submit _ => true
  | .gettaskstatus _ _ => false

/-- The uuid that the request asks about, where it is a `gettaskstatus`. -/
def Post.asks? (post : Post) : Option (Option Json) :=
  match post.body with
  | .submit _ => none
  | .gettaskstatus _ uuid => some uuid

structure OwnTask (lower : Text → Text) (t : Task) : Prop where
  asks : ∀ post ∈ t.sent, ∀ uuid?, post.asks? = some uuid? → ∃ uuid, uuid? = some uuid ∧ t.Given uuid
  submits : t.sent.countP Post.isSubmit ≤ 1
  reports : t.reported.length ≤ 1
  final : ∀ response polls, t.pc = .returned response polls →
    isRunning response = false ∧ isInvalidTokenError lower response = false

/-! ### The invariant -/

/-- The locals of the poller, where it is at work. -/
def Pc.poll? : Pc → Option Poll
  | .report _ p | .sleep _ p | .pollHost p | .pollPost p => some p
  | .hostLookup | .firstPost | .returned _ _ | .threw _ => none

/-- The first request has not been sent or answered. -/
def Pc.isFirst : Pc → Bool
  | .hostLookup | .firstPost => true
  | _ => false

/-- The poller knows the uuid of its task. -/
structure Tracked (lower : Text → Text) (t : Task) : Prop extends OwnTask lower t where
  uuid : ∀ p, t.pc.poll? = some p → ∃ uuid, p.currentUuid = some uuid ∧ t.Given uuid
  unreported : ∀ p, t.pc.poll? = some p → p.uuidReported = false → t.reported = []
  unsent : t.pc = .hostLookup → t.sent = []
  first : t.pc.isFirst = true → t.reported = []

theorem Task.Given.receive {t : Task} {uuid : Json} (h : t.Given uuid) (response : Json) :
    Task.Given { t with answers := t.answers ++ [response] } uuid := by
  obtain ⟨htruthy, hpersisted | ⟨given, hmem, hget⟩⟩ := h
  · exact ⟨htruthy, .inl hpersisted⟩
  · exact ⟨htruthy, .inr ⟨given, List.mem_append_left _ hmem, hget⟩⟩

namespace Tracked

variable {t t' : Task} {now : Nat}

theorem start (entry : Entry) (task : String) : Tracked lower (.start entry task) :=
  ⟨⟨nofun, Nat.zero_le _, Nat.zero_le _, nofun⟩, nofun, nofun, fun _ => rfl, fun _ => rfl⟩

/-- The task gives up. -/
theorem threw (h : Tracked lower t) (message : String) : Tracked lower { t with pc := .threw message } :=
  ⟨⟨h.asks, h.submits, h.reports, nofun⟩, nofun, nofun, nofun, nofun⟩

end Tracked

/-- What the loop is entered with. -/
structure LoopReady (lower : Text → Text) (t : Task) (response : Json) (p : Poll) : Prop where
  asks : ∀ post ∈ t.sent, ∀ uuid?, post.asks? = some uuid? → ∃ uuid, uuid? = some uuid ∧ t.Given uuid
  submits : t.sent.countP Post.isSubmit ≤ 1
  reports : t.reported.length ≤ 1
  unreported : p.uuidReported = false → t.reported = []
  uuid : keepsPolling lower response = true → ∃ uuid, p.currentUuid = some uuid ∧ t.Given uuid

namespace LoopReady

variable {t : Task} {response : Json} {p : Poll} {now : Nat}

theorem loop (h : LoopReady lower t response p) : Tracked lower (t.loop lower timeoutMs now response p) := by
  unfold Task.loop
  split
  · rename_i hkeeps
    split
    · exact ⟨⟨h.asks, h.submits, h.reports, nofun⟩, nofun, nofun, nofun, nofun⟩
    · refine ⟨⟨h.asks, h.submits, h.reports, nofun⟩, ?_, ?_, nofun, nofun⟩
      · intro p' hp
        obtain rfl := Option.some.inj hp
        exact h.uuid hkeeps
      · intro p' hp hunreported
        obtain rfl := Option.some.inj hp
        exact h.unreported hunreported
  · rename_i hfinal
    refine ⟨⟨h.asks, h.submits, h.reports, ?_⟩, nofun, nofun, nofun, nofun⟩
    intro response' polls heq
    obtain ⟨rfl, -⟩ := Pc.returned.inj heq
    exact Bool.or_eq_false_iff.1 (Bool.eq_false_iff.2 hfinal)

theorem reportUuidIfNew (h : LoopReady lower t response p)
    (hgiven : ∀ uuid, p.currentUuid = some uuid → uuid.truthy = true → t.Given uuid) :
    Tracked lower (t.reportUuidIfNew lower timeoutMs now response p) := by
  unfold Task.reportUuidIfNew
  split
  · rename_i uuid hnew huuid hentry
    split
    · rename_i htruthy
      have hreported : (t.reported ++ [uuid]).length ≤ 1 := by
        rw [h.unreported hnew]
        exact Nat.le_refl 1
      refine ⟨⟨h.asks, h.submits, hreported, nofun⟩, ?_, ?_, nofun, nofun⟩
      · intro p' hp
        obtain rfl := Option.some.inj hp
        exact ⟨uuid, huuid, hgiven uuid huuid htruthy⟩
      · intro p' hp hunreported
        obtain rfl := Option.some.inj hp
        cases hunreported
    · exact h.loop
  · exact h.loop

end LoopReady

/-! ### One step -/

/-- The answer is final or names the task. -/
def NamesTask (lower : Text → Text) (response : Json) : Prop :=
  keepsPolling lower response = true → (response.prop? "uuid").any Json.truthy = true

instance (response : Json) : Decidable (NamesTask lower response) :=
  inferInstanceAs (Decidable (_ → _))

/-- The answer to the first request of a task is final or names the task. -/
def FirstNamesTask (lower : Text → Text) (t : Task) : Event → Prop
  | .answer response => t.pc matches .firstPost → NamesTask lower response
  | _ => True

namespace Tracked

variable {t t' : Task} {now : Nat}

/-- A request goes out. -/
theorem send (h : Tracked lower t) {post : Post} {pc : Pc}
    (hasks : ∀ uuid?, post.asks? = some uuid? → ∃ uuid, uuid? = some uuid ∧ t.Given uuid)
    (hsubmit : post.isSubmit = true → t.sent = [])
    (hpoll : ∀ p, pc.poll? = some p → t.pc.poll? = some p)
    (hpc : pc.isFirst = true → t.pc.isFirst = true) (hlookup : pc ≠ .hostLookup)
    (hfinal : ∀ response polls, pc ≠ .returned response polls) :
    Tracked lower { t with sent := t.sent ++ [post], pc := pc } := by
  refine ⟨⟨fun post' hmem => ?_, ?_, h.reports, fun response polls heq => absurd heq (hfinal response polls)⟩,
    fun p hp => h.uuid p (hpoll p hp), fun p hp => h.unreported p (hpoll p hp), fun heq => absurd heq hlookup,
    fun heq => h.first (hpc heq)⟩
  · rcases List.mem_append.1 hmem with hold | hnew
    · exact h.asks post' hold
    · obtain rfl := List.mem_singleton.1 hnew
      exact hasks
  · rw [List.countP_append, List.countP_singleton]
    split
    · rename_i hpost
      rw [hsubmit hpost]
      exact Nat.le_refl 1
    · exact h.submits

theorem receiveHost (h : Tracked lower t) {host : Host} (hstep : t.receiveHost host = some t') : Tracked lower t' := by
  unfold Task.receiveHost at hstep
  split at hstep
  · rename_i hpc
    have hfirst : Pc.isFirst .firstPost = true → t.pc.isFirst = true := fun _ => by rw [hpc]; rfl
    split at hstep
    · obtain rfl := Option.some.inj hstep
      exact h.send nofun (fun _ => h.unsent hpc) nofun hfirst nofun nofun
    · rename_i cmsUuid huuid hentry
      obtain rfl := Option.some.inj hstep
      refine h.send (fun uuid? hasks => ?_) nofun nofun hfirst nofun nofun
      obtain rfl := Option.some.inj hasks
      exact ⟨_, rfl, decide_eq_true huuid, .inl ⟨cmsUuid, huuid, hentry, rfl⟩⟩
  · rename_i p hpc
    obtain rfl := Option.some.inj hstep
    have hpoll : t.pc.poll? = some p := by rw [hpc]; rfl
    refine h.send (fun uuid? huuid => ?_) nofun (fun p' hp => ?_) nofun nofun nofun
    · obtain rfl := Option.some.inj huuid
      exact h.uuid p hpoll
    · obtain rfl := Option.some.inj hp
      exact hpoll
  · cases hstep

theorem receiveAnswer (h : Tracked lower t) {response : Json} (hnames : FirstNamesTask lower t (.answer response))
    (hstep : t.receiveAnswer lower timeoutMs now response = some t') : Tracked lower t' := by
  have hasks : ∀ post ∈ t.sent, ∀ uuid?, post.asks? = some uuid? →
      ∃ uuid, uuid? = some uuid ∧ Task.Given { t with answers := t.answers ++ [response] } uuid := by
    intro post hpost uuid? huuid
    obtain ⟨uuid, heq, hgiven⟩ := h.asks post hpost uuid? huuid
    exact ⟨uuid, heq, hgiven.receive response⟩
  have hown : ∀ uuid, response.prop? "uuid" = some uuid → uuid.truthy = true →
      Task.Given { t with answers := t.answers ++ [response] } uuid :=
    fun uuid hget htruthy => ⟨htruthy, .inr ⟨response, List.mem_append_right _ (List.mem_singleton_self _), hget⟩⟩
  unfold Task.receiveAnswer at hstep
  split at hstep
  · -- the first answer: its uuid is all there is
    rename_i hpc
    obtain rfl := Option.some.inj hstep
    have hreported : t.reported = [] := h.first (by rw [hpc]; rfl)
    refine LoopReady.reportUuidIfNew ⟨hasks, h.submits, h.reports, fun _ => hreported, fun hkeeps => ?_⟩ hown
    have hany := hnames (by rw [hpc]) hkeeps
    obtain ⟨uuid, hget, htruthy⟩ := (Option.any_eq_true _ _).1 hany
    exact ⟨uuid, hget, hown uuid hget htruthy⟩
  · -- an answer to a poll: the uuid before it stands unless it gives another
    rename_i p hpc
    obtain rfl := Option.some.inj hstep
    have hpoll : t.pc.poll? = some p := by rw [hpc]; rfl
    obtain ⟨uuid, huuid, hgiven⟩ := h.uuid p hpoll
    have hunreported : (Task.nextUuid response p).uuidReported = p.uuidReported := by
      unfold Task.nextUuid
      split
      · split <;> rfl
      · rfl
    have hcurrent : ∃ uuid', (Task.nextUuid response p).currentUuid = some uuid' ∧
        Task.Given { t with answers := t.answers ++ [response] } uuid' := by
      unfold Task.nextUuid
      split
      · rename_i uuid' hget
        split
        · rename_i htruthy
          exact ⟨uuid', rfl, hown uuid' hget htruthy⟩
        · exact ⟨uuid, huuid, hgiven.receive response⟩
      · exact ⟨uuid, huuid, hgiven.receive response⟩
    refine LoopReady.reportUuidIfNew ⟨hasks, h.submits, h.reports, fun hnew => ?_, fun _ => hcurrent⟩ ?_
    · rw [hunreported] at hnew
      exact h.unreported p hpoll hnew
    · intro uuid₁ heq _
      obtain ⟨uuid₂, heq₂, hgiven₂⟩ := hcurrent
      obtain rfl := Option.some.inj (heq.symm.trans heq₂)
      exact hgiven₂
  · cases hstep

theorem wake (h : Tracked lower t) (hstep : t.wake now = some t') : Tracked lower t' := by
  unfold Task.wake at hstep
  split at hstep
  · rename_i wakeAt p hpc
    split at hstep
    · obtain rfl := Option.some.inj hstep
      have hpoll : t.pc.poll? = some p := by rw [hpc]; rfl
      refine ⟨⟨h.asks, h.submits, h.reports, nofun⟩, fun p' hp => ?_, fun p' hp => ?_, nofun, nofun⟩
      · obtain rfl := Option.some.inj hp
        exact h.uuid p hpoll
      · obtain rfl := Option.some.inj hp
        exact h.unreported p hpoll
    · cases hstep
  · cases hstep

theorem receiveReported (h : Tracked lower t) (hstep : t.receiveReported lower timeoutMs now = some t') :
    Tracked lower t' := by
  unfold Task.receiveReported at hstep
  split at hstep
  · rename_i response p hpc
    obtain rfl := Option.some.inj hstep
    have hpoll : t.pc.poll? = some p := by rw [hpc]; rfl
    exact LoopReady.loop ⟨h.asks, h.submits, h.reports, h.unreported p hpoll, fun _ => h.uuid p hpoll⟩
  · cases hstep

theorem reject (h : Tracked lower t) {message : String} (hstep : t.reject message = some t') : Tracked lower t' := by
  unfold Task.reject at hstep
  split at hstep
  any_goals cases hstep
  all_goals exact h.threw message

theorem step (h : Tracked lower t) {e : Event} (hnames : FirstNamesTask lower t e)
    (hstep : t.step lower timeoutMs now e = some t') : Tracked lower t' := by
  cases e with
  | host host => exact h.receiveHost hstep
  | answer response => exact h.receiveAnswer hnames hstep
  | wake => exact h.wake hstep
  | reported => exact h.receiveReported hstep
  | fail message => exact h.reject hstep

end Tracked

/-! ### Runs -/

/-- In every step of the run, the answer to the first request is final or names the task. -/
def FirstAnswerNames (lower : Text → Text) (s : State) : Act → Prop
  | .tick _ => True
  | .event e => FirstNamesTask lower s.task e

instance (s : State) : ∀ a, Decidable (FirstAnswerNames lower s a)
  | .tick _ => inferInstanceAs (Decidable True)
  | .event (.answer _) => inferInstanceAs (Decidable (_ → _))
  | .event (.host _) | .event .wake | .event .reported | .event (.fail _) => inferInstanceAs (Decidable True)

theorem tracked_run {entry : Entry} {task : String} {now : Nat} {as : List Act} {s : State}
    (h : Run (step lower timeoutMs) (FirstAnswerNames lower) ⟨now, .start entry task⟩ as s) : Tracked lower s.task := by
  refine h.invariant (I := fun s => Tracked lower s.task) (fun s a s' hs hok hstep => ?_) (.start entry task)
  cases a with
  | tick ms => exact Option.some.inj hstep ▸ hs
  | event e =>
    obtain ⟨t', ht, rfl⟩ := Option.map_eq_some_iff.1 hstep
    exact hs.step hok ht

/-! ### After the first answer -/

namespace Task

variable {t t' : Task} {now : Nat}

theorem isFirst_loop (response : Json) (p : Poll) : (t.loop lower timeoutMs now response p).pc.isFirst = false := by
  unfold loop
  split
  · split <;> rfl
  · rfl

theorem isFirst_reportUuidIfNew (response : Json) (p : Poll) :
    (t.reportUuidIfNew lower timeoutMs now response p).pc.isFirst = false := by
  unfold reportUuidIfNew
  split
  · split
    · rfl
    · exact isFirst_loop response p
  · exact isFirst_loop response p

/-- There is one first request. -/
theorem isFirst_step (h : t.pc.isFirst = false) {e : Event} (hstep : t.step lower timeoutMs now e = some t') :
    t'.pc.isFirst = false := by
  cases e with
  | host host =>
    simp only [step, receiveHost] at hstep
    split at hstep
    · rename_i hpc
      rw [hpc] at h
      cases h
    · exact Option.some.inj hstep ▸ rfl
    · cases hstep
  | answer response =>
    simp only [step, receiveAnswer] at hstep
    split at hstep
    · exact Option.some.inj hstep ▸ isFirst_reportUuidIfNew ..
    · exact Option.some.inj hstep ▸ isFirst_reportUuidIfNew ..
    · cases hstep
  | wake =>
    simp only [step, wake] at hstep
    split at hstep
    · split at hstep
      · exact Option.some.inj hstep ▸ rfl
      · cases hstep
    · cases hstep
  | reported =>
    simp only [step, receiveReported] at hstep
    split at hstep
    · exact Option.some.inj hstep ▸ isFirst_loop ..
    · cases hstep
  | fail message =>
    simp only [step, reject] at hstep
    split at hstep
    any_goals cases hstep
    all_goals rfl

end Task

theorem firstNamesTask_of_isFirst {t : Task} (h : t.pc.isFirst = false) (e : Event) : FirstNamesTask lower t e := by
  cases e with
  | answer response =>
    intro hpc
    cases hcase : t.pc <;> simp_all [Pc.isFirst]
  | _ => trivial

/-- A task that is past its first request keeps track of its uuid whatever comes. -/
theorem Tracked.later {s s' : State} {as : List Act} (h : Tracked lower s.task) (hfirst : s.task.pc.isFirst = false)
    (hrun : Run (CmsTask.step lower timeoutMs) Always s as s') : Tracked lower s'.task := by
  refine (hrun.invariant (I := fun s => Tracked lower s.task ∧ s.task.pc.isFirst = false)
    (fun s a s' hs _ hstep => ?_) ⟨h, hfirst⟩).1
  cases a with
  | tick ms => exact Option.some.inj hstep ▸ hs
  | event e =>
    obtain ⟨t', ht, rfl⟩ := Option.map_eq_some_iff.1 hstep
    exact ⟨hs.1.step (firstNamesTask_of_isFirst hs.2 e) ht, Task.isFirst_step hs.2 ht⟩

/-- A poll that starts from an answer which does not name the task asks about nothing. -/
theorem exists_unnamed_poll {s s' : State} {response : Json} (hpc : s.task.pc = .firstPost)
    (hstep : step lower timeoutMs s (.event (.answer response)) = some s') (hnames : ¬ NamesTask lower response) :
    ∃ bs s'', Run (step lower timeoutMs) Always s' bs s'' ∧ ¬ OwnTask lower s''.task := by
  obtain ⟨hkeeps, huuid⟩ := Classical.not_imp.1 hnames
  let p : Poll := ⟨s.now + timeoutMs, response.prop? "uuid", false, 0⟩
  let t : Task := { s.task with answers := s.task.answers ++ [response] }
  have hloop : t.reportUuidIfNew lower timeoutMs s.now response p = t.loop lower timeoutMs s.now response p := by
    unfold Task.reportUuidIfNew
    split
    · rename_i uuid _ hget _
      rw [if_neg]
      intro htruthy
      exact huuid ((Option.any_eq_true _ _).2 ⟨uuid, hget, htruthy⟩)
    · rfl
  have hsleep : t.loop lower timeoutMs s.now response p =
      { t with pc := .sleep (s.now + cmsAsyncJobFirstPollIntervalMs) p } := by
    unfold Task.loop
    rw [if_pos hkeeps, if_neg (Nat.not_lt.2 (Nat.le_add_right _ _))]
    rfl
  have hs' : s' = ⟨s.now, { t with pc := .sleep (s.now + cmsAsyncJobFirstPollIntervalMs) p }⟩ := by
    simp only [step, Task.step, Task.receiveAnswer, hpc, Option.map_some, Option.some.injEq] at hstep
    rw [← hstep]
    exact congrArg _ (hloop.trans hsleep)
  subst hs'
  let host : Host := ⟨"localhost", 8001, none⟩
  let post : Post := ⟨host.url, .gettaskstatus "" (response.prop? "uuid")⟩
  let woken : Poll := { p with polls := 1 }
  let asked : Task := { t with pc := .pollPost woken, sent := t.sent ++ [post] }
  have hrun : Run (step lower timeoutMs) Always
      ⟨s.now, { t with pc := .sleep (s.now + cmsAsyncJobFirstPollIntervalMs) p }⟩
      [.tick cmsAsyncJobFirstPollIntervalMs, .event .wake, .event (.host host)]
      ⟨s.now + cmsAsyncJobFirstPollIntervalMs, asked⟩ := by
    have hwake : step lower timeoutMs ⟨s.now + cmsAsyncJobFirstPollIntervalMs,
        { t with pc := .sleep (s.now + cmsAsyncJobFirstPollIntervalMs) p }⟩ (.event .wake) =
        some ⟨s.now + cmsAsyncJobFirstPollIntervalMs, { t with pc := .pollHost woken }⟩ := by
      simp only [step, Task.step, Task.wake, if_pos (Nat.le_refl _), Option.map_some]
      rfl
    exact .cons trivial rfl (.cons trivial hwake (.cons trivial rfl (.nil _)))
  refine ⟨_, _, hrun, fun hown => ?_⟩
  obtain ⟨uuid, hget, htruthy, -⟩ := hown.asks post (List.mem_append_right _ (List.mem_singleton_self _)) _ rfl
  exact huuid ((Option.any_eq_true _ _).2 ⟨uuid, hget, htruthy⟩)

/-- Where the answer to the first request is final or names the task, the task asks about itself only, is submitted and
reported at most once, and returns a final answer; and where it is neither, a poll follows that asks about nothing. -/
theorem asks_own_task {entry : Entry} {task : String} {now : Nat} {as : List Act} {s : State}
    (hrun : Run (step lower timeoutMs) (FirstAnswerNames lower) ⟨now, .start entry task⟩ as s) :
    OwnTask lower s.task ∧ ∀ response s', s.task.pc = .firstPost →
      step lower timeoutMs s (.event (.answer response)) = some s' →
      ((∀ bs s'', Run (step lower timeoutMs) Always s' bs s'' → OwnTask lower s''.task) ↔
        NamesTask lower response) := by
  have htracked := tracked_run hrun
  refine ⟨htracked.toOwnTask, fun response s' hpc hstep => ⟨fun hall => ?_, fun hnames bs s'' hafter => ?_⟩⟩
  · by_contra hnot
    obtain ⟨bs, s'', hafter, hfails⟩ := exists_unnamed_poll hpc hstep hnot
    exact hfails (hall bs s'' hafter)
  · obtain ⟨t', ht, rfl⟩ := Option.map_eq_some_iff.1 hstep
    have hfirst : FirstNamesTask lower s.task (.answer response) := fun _ => hnames
    have hnext : Tracked lower t' := htracked.step hfirst ht
    refine (hnext.later ?_ hafter).toOwnTask
    simp only [Task.step, Task.receiveAnswer, hpc, Option.some.injEq] at ht
    exact ht ▸ Task.isFirst_reportUuidIfNew ..

def demoHost : Host := ⟨"10.0.0.1", 8001, some "token"⟩

def runningResponse : Json := .obj [("uuid", .str "7"), ("job-status", .str "running")]

def invalidTokenResponse : Json :=
  .obj [("note", .str "Request is rejected due to invalid token. Please reconnect.")]

def demoActs : List Act :=
  [.event (.host demoHost), .event (.answer runningResponse), .event .reported, .tick 500, .event .wake,
    .event (.host demoHost), .event (.answer invalidTokenResponse)]

/-- The submission is answered `running`, the uuid is reported, and the task is asked about once. -/
theorem asks_own_task_running : ∃ s, Run (step (List.map Char.toLower) (getLongJobCmsTimeoutMs none))
    (FirstAnswerNames (List.map Char.toLower)) ⟨0, .start (.submitted true) "compactdb"⟩ demoActs s ∧
    s.task.sent.length = 2 ∧ OwnTask (List.map Char.toLower) s.task := by
  have hexists : ∃ s, Run (step (List.map Char.toLower) (getLongJobCmsTimeoutMs none))
      (FirstAnswerNames (List.map Char.toLower)) ⟨0, .start (.submitted true) "compactdb"⟩ demoActs s ∧
      s.task.sent.length = 2 := exists_run (by decide +kernel)
  obtain ⟨s, hrun, hsent⟩ := hexists
  exact ⟨s, hrun, hsent, (asks_own_task hrun).1⟩

/-- A job is asked about again after a restart, before the host is logged in to again: the uuid that its record persisted
is lost with the first answer. -/
theorem asks_own_task_fails : ¬ ∀ entry task now as s,
    Run (step (List.map Char.toLower) (getLongJobCmsTimeoutMs none)) Always ⟨now, .start entry task⟩ as s →
      OwnTask (List.map Char.toLower) s.task := by
  intro h
  obtain ⟨s, hrun, hnothing⟩ := @exists_run State Act (step (List.map Char.toLower) (getLongJobCmsTimeoutMs none)) Always
    _ (fun s : State => (s.task.sent.getLast?.bind Post.asks?).any Option.isNone = true) _
    ⟨0, .start (.reattached "7" (by decide)) "compact"⟩
    [.event (.host demoHost), .event (.answer invalidTokenResponse), .tick 500, .event .wake, .event (.host demoHost)]
    (by decide +kernel)
  obtain ⟨uuid?, hasked, hnone⟩ := (Option.any_eq_true _ _).1 hnothing
  obtain ⟨post, hpost, hasks⟩ := Option.bind_eq_some_iff.1 hasked
  obtain ⟨uuid, rfl, -⟩ := (h _ _ _ _ s hrun).asks post (List.mem_of_getLast? hpost) uuid? hasks
  cases hnone

end CubridWebManager.CmsTask
