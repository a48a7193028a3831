import CubridWebManager.JobPolls.Runner

/-!
# The registry of the live polls

Every poll that is not cancelled is in the registry under its job, so that a job has at most one, and cancelling all of
them ends all status requests (`poll_registry_tracks`), as long as the handlers of a poll find no other poll's entry for
their job.  A poll that was cancelled may still settle, when its request comes back: if its job is polled again by then,
its handlers delete the entry of the new poll (`poll_registry_loses`).
-/

namespace CubridWebManager.JobPolls

open Transition

/-! ### The property -/

def State.requestsOf (s : State) (i : Nat) : Nat := s.requests.count i

structure Tracked (s : State) : Prop where
  /-- A poll that is not cancelled, and so not finished either, is the one in the registry. -/
  registered : ∀ i < s.nextPoll, (s.polls i).cancelled = false → s.activePolls.get? (s.polls i).jobId = some i
  finished : ∀ i < s.nextPoll, (s.polls i).inner ≠ none → (s.polls i).cancelled = true
  unique : ∀ i j, i < s.nextPoll → j < s.nextPoll → (s.polls i).cancelled = false → (s.polls j).cancelled = false →
    (s.polls i).jobId = (s.polls j).jobId → i = j

/-- When the handlers of a poll run, its job has no entry in the registry that is another poll's. -/
def OwnEntry (s : State) : Act → Prop
  | .handle i => (s.activePolls.get? (s.polls i).jobId).all (· = i) = true
  | _ => True

instance : ∀ (s : State) (a : Act), Decidable (OwnEntry s a)
  | _, .handle _ => inferInstanceAs (Decidable (_ = true))
  | _, .elapse _ | _, .runCmsJobInBackground _ | _, .cancelCmsJobPoll _ | _, .cancelAllCmsJobPolls
  | _, .statusAnswer .. | _, .statusError .. | _, .updated _ | _, .timeout _ => isTrue trivial

/-! ### A poll goes on -/

/-- What the loop of a poll and its cancelling do: they never revive it, and never take a result back. -/
structure Goes (p p' : Poll) : Prop where
  jobId : p'.jobId = p.jobId
  cancelled : p.cancelled = true → p'.cancelled = true
  inner : p'.inner ≠ none → p.inner ≠ none ∨ p'.cancelled = true
  outer : ∀ result, p.outer = some result → p'.outer = some result

namespace Goes

variable {p p' p'' : Poll}

theorem refl (p : Poll) : Goes p p := ⟨rfl, id, .inl, fun _ => id⟩

theorem trans (h : Goes p p') (h' : Goes p' p'') : Goes p p'' where
  jobId := h'.jobId.trans h.jobId
  cancelled hc := h'.cancelled (h.cancelled hc)
  inner hne := by
    rcases h'.inner hne with hinner | hcancelled
    · exact (h.inner hinner).imp_right h'.cancelled
    · exact .inr hcancelled
  outer result hresult := h'.outer result (h.outer result hresult)

theorem abandon (p : Poll) : Goes p p.abandon :=
  ⟨rfl, fun _ => rfl, fun _ => .inr rfl, fun result h => by rw [Poll.abandon, settleOnce, h]; rfl⟩

theorem finish (p : Poll) (result : PollResult) : Goes p (p.finish result) := ⟨rfl, fun _ => rfl, fun _ => .inr rfl, fun _ => id⟩

theorem setTimeout (p : Poll) (now : Nat) : Goes p (p.setTimeout now) := ⟨rfl, id, .inl, fun _ => id⟩

theorem tick (p : Poll) : Goes p p.tick := by
  unfold Poll.tick
  split <;> exact ⟨rfl, id, .inl, fun _ => id⟩

theorem answered (p : Poll) (job : Option Job) : Goes p (p.answered job) := by
  unfold Poll.answered
  split <;> exact ⟨rfl, id, .inl, fun _ => id⟩

theorem updated (p : Poll) (now : Nat) (job : Option Job) : Goes p (p.updated now job) := by
  unfold Poll.updated
  split
  · exact finish p _
  · exact finish p _
  · exact setTimeout p now

theorem failed (p : Poll) (now : Nat) (message : String) : Goes p (p.failed now message) := by
  have hcount : Goes p { p with consecutiveErrors := p.consecutiveErrors + 1 } := ⟨rfl, id, .inl, fun _ => id⟩
  unfold Poll.failed
  simp only
  split
  · exact hcount.trans (finish _ _)
  · exact hcount.trans (setTimeout _ now)

theorem handled (p : Poll) (result : PollResult) : Goes p { p with handled := true, outer := settleOnce p.outer result } :=
  ⟨rfl, id, .inl, fun result h => by rw [settleOnce, h]; rfl⟩

end Goes

/-! ### What a step does -/

/-- The polls go on, and cancelled ones make no request. -/
structure Moves (s s' : State) : Prop where
  polls : ∀ i < s.nextPoll, Goes (s.polls i) (s'.polls i)
  nextPoll : s.nextPoll ≤ s'.nextPoll
  requests : ∀ i < s.nextPoll, (s.polls i).cancelled = true → s'.requestsOf i = s.requestsOf i

variable {s s' : State} {a : Act} {i : Nat}

namespace Moves

theorem refl (s : State) : Moves s s := ⟨fun i _ => .refl (s.polls i), Nat.le_refl _, fun _ _ _ => rfl⟩

theorem trans {s₁ s₂ s₃ : State} (h : Moves s₁ s₂) (h' : Moves s₂ s₃) : Moves s₁ s₃ where
  polls i hi := (h.polls i hi).trans (h'.polls i (Nat.lt_of_lt_of_le hi h.nextPoll))
  nextPoll := Nat.le_trans h.nextPoll h'.nextPoll
  requests i hi hc := by
    rw [h'.requests i (Nat.lt_of_lt_of_le hi h.nextPoll) ((h.polls i hi).cancelled hc), h.requests i hi hc]

theorem setPoll (s : State) (i : Nat) {p : Poll} (hp : Goes (s.polls i) p) : Moves s (s.setPoll i p) where
  polls j _ := by
    by_cases heq : j = i
    · rw [heq, State.setPoll_self]
      exact hp
    · rw [State.setPoll_of_ne s heq]
      exact .refl _
  nextPoll := Nat.le_refl _
  requests _ _ _ := rfl

/-- The registry is no poll's. -/
theorem registry (h : Moves s s') (activePolls : Dict String Nat) : Moves s { s' with activePolls := activePolls } :=
  ⟨h.polls, h.nextPoll, h.requests⟩

theorem abandonAll (l : List Nat) (s : State) : Moves s (l.foldl State.abandon s) := by
  induction l generalizing s with
  | nil => exact .refl s
  | cons i l ih => exact (setPoll s i (.abandon _)).trans (ih _)

theorem startPoll (s : State) (jobId : String) : Moves s (s.startPoll jobId) where
  polls i hi := by
    have hother : (s.startPoll jobId).polls i = s.polls i := State.setPoll_of_ne s (Nat.ne_of_lt hi) _
    rw [hother]
    exact .refl _
  nextPoll := Nat.le_succ _
  requests i hi _ := by
    have hne : s.nextPoll ≠ i := Nat.ne_of_gt hi
    simp [State.requestsOf, State.startPoll, hne]

theorem timeout (s : State) (i : Nat) : Moves s (s.timeout i) where
  polls := (setPoll s i (.tick _)).polls
  nextPoll := Nat.le_refl _
  requests j _ hc := by
    simp only [State.requestsOf, State.timeout]
    split
    · rfl
    · rename_i hlive
      have hne : i ≠ j := by
        rintro rfl
        exact hlive hc
      simp [hne]

end Moves

theorem moves_of_step (h : step s a = some s') : Moves s s' := by
  cases a with
  | elapse ms =>
    obtain rfl := Option.some.inj h
    exact ⟨fun i _ => .refl (s.polls i), Nat.le_refl _, fun _ _ _ => rfl⟩
  | runCmsJobInBackground jobId =>
    obtain rfl := Option.some.inj h
    unfold State.runCmsJobInBackground
    split
    · exact .refl s
    · exact .startPoll s jobId
  | cancelCmsJobPoll jobId =>
    obtain rfl := Option.some.inj h
    unfold State.cancelCmsJobPoll
    split
    · exact .refl s
    · exact (Moves.setPoll s _ (.abandon _)).registry _
  | cancelAllCmsJobPolls =>
    obtain rfl := Option.some.inj h
    exact (Moves.abandonAll _ s).registry _
  | statusAnswer i job =>
    simp only [step] at h
    split at h
    · obtain rfl := Option.some.inj h
      exact .setPoll s i (.answered _ job)
    · cases h
  | statusError i message =>
    simp only [step] at h
    split at h
    · obtain rfl := Option.some.inj h
      exact .setPoll s i (.failed _ s.now message)
    · cases h
  | updated i =>
    simp only [step] at h
    split at h
    · obtain rfl := Option.some.inj h
      exact .setPoll s i (.updated _ s.now _)
    · cases h
  | timeout i =>
    simp only [step] at h
    split at h
    · split at h
      · obtain rfl := Option.some.inj h
        exact .timeout s i
      · cases h
    · cases h
  | handle i =>
    simp only [step] at h
    split at h
    · obtain rfl := Option.some.inj h
      exact (Moves.setPoll s i (.handled _ _)).registry _
    · cases h

/-! ### The invariant -/

structure Inv (s : State) : Prop where
  entry : ∀ jobId i, s.activePolls.get? jobId = some i → i < s.nextPoll ∧ (s.polls i).jobId = jobId
  registered : ∀ i < s.nextPoll, (s.polls i).cancelled = false → s.activePolls.get? (s.polls i).jobId = some i
  finished : ∀ i < s.nextPoll, (s.polls i).inner ≠ none → (s.polls i).cancelled = true

theorem Inv.fresh (now : Nat) : Inv (State.fresh now) where
  entry _ _ h := by cases h
  registered _ h := by cases h
  finished _ h := by cases h

theorem Inv.tracked (h : Inv s) : Tracked s where
  registered := h.registered
  finished := h.finished
  unique i j hi hj hci hcj heq := by
    have hregistered := h.registered i hi hci
    rw [heq, h.registered j hj hcj] at hregistered
    exact (Option.some.inj hregistered).symm

/-- Some entries are deleted, of polls that are cancelled by then. -/
theorem Inv.moves (h : Inv s) (hm : Moves s s') (hnext : s'.nextPoll = s.nextPoll)
    (hless : ∀ jobId i, s'.activePolls.get? jobId = some i → s.activePolls.get? jobId = some i)
    (hkept : ∀ i < s.nextPoll, (s'.polls i).cancelled = false → s.activePolls.get? (s.polls i).jobId = some i →
      s'.activePolls.get? (s.polls i).jobId = some i) : Inv s' where
  entry jobId i hentry := by
    obtain ⟨hi, hjob⟩ := h.entry jobId i (hless jobId i hentry)
    exact ⟨hnext ▸ hi, (hm.polls i hi).jobId.trans hjob⟩
  registered i hi hlive := by
    rw [hnext] at hi
    rw [(hm.polls i hi).jobId]
    have hlive' : (s.polls i).cancelled = false :=
      Bool.eq_false_iff.2 fun hc => Bool.eq_false_iff.1 hlive ((hm.polls i hi).cancelled hc)
    exact hkept i hi hlive (h.registered i hi hlive')
  finished i hi hinner := by
    rw [hnext] at hi
    exact ((hm.polls i hi).inner hinner).elim (fun hold => (hm.polls i hi).cancelled (h.finished i hi hold)) id

theorem cancelled_abandonAll (l : List Nat) (s : State) (hi : i ∈ l) : ((l.foldl State.abandon s).polls i).cancelled = true := by
  induction l generalizing s with
  | nil => cases hi
  | cons j l ih =>
    rw [List.foldl_cons]
    by_cases hmem : i ∈ l
    · exact ih (s.abandon j) hmem
    · obtain rfl := (List.mem_cons.1 hi).resolve_right hmem
      have hfirst : ((s.abandon i).polls i).cancelled = true := by
        rw [State.abandon, State.setPoll_self]
        rfl
      clear ih hi
      generalize s.abandon i = t at hfirst
      induction l generalizing t with
      | nil => exact hfirst
      | cons k l ih =>
        rw [List.mem_cons, not_or] at hmem
        refine ih hmem.2 (t.abandon k) ?_
        rw [State.abandon, State.setPoll_of_ne t hmem.1]
        exact hfirst

theorem nextPoll_abandonAll (l : List Nat) (s : State) : (l.foldl State.abandon s).nextPoll = s.nextPoll := by
  induction l generalizing s with
  | nil => rfl
  | cons i l ih => exact ih (s.abandon i)

theorem Inv.startPoll (h : Inv s) {jobId : String} (hnone : s.activePolls.get? jobId = none) : Inv (s.startPoll jobId) := by
  have hself : (s.startPoll jobId).polls s.nextPoll = ⟨jobId, false, none, .requesting, 0, none, s.now, none, false, none⟩ :=
    State.setPoll_self ..
  have hother : ∀ {i}, i < s.nextPoll → (s.startPoll jobId).polls i = s.polls i := fun hi =>
    State.setPoll_of_ne s (Nat.ne_of_lt hi) _
  have hentries : ∀ jobId', (s.startPoll jobId).activePolls.get? jobId' =
      if jobId' = jobId then some s.nextPoll else s.activePolls.get? jobId' := fun jobId' => Dict.get?_set ..
  refine ⟨fun jobId' i hentry => ?_, fun i hi hlive => ?_, fun i hi hinner => ?_⟩
  · rw [hentries] at hentry
    split at hentry
    · rename_i heq
      obtain rfl := Option.some.inj hentry
      exact ⟨Nat.lt_succ_self _, by rw [hself, heq]⟩
    · obtain ⟨hi, hjob⟩ := h.entry jobId' i hentry
      exact ⟨Nat.lt_succ_of_lt hi, by rw [hother hi, hjob]⟩
  · rcases Nat.lt_succ_iff_lt_or_eq.1 hi with hi | rfl
    · rw [hother hi] at hlive ⊢
      have hregistered := h.registered i hi hlive
      rw [hentries, if_neg (by rintro heq; rw [heq, hnone] at hregistered; cases hregistered)]
      exact hregistered
    · rw [hself, hentries, if_pos rfl]
  · rcases Nat.lt_succ_iff_lt_or_eq.1 hi with hi | rfl
    · rw [hother hi] at hinner ⊢
      exact h.finished i hi hinner
    · rw [hself] at hinner
      exact (hinner rfl).elim

/-- All the polls there are get cancelled. -/
theorem Inv.cancelled_cancelAll (h : Inv s) (hi : i < s.nextPoll) : (s.cancelAllCmsJobPolls.polls i).cancelled = true := by
  by_cases hc : (s.polls i).cancelled = true
  · exact ((Moves.abandonAll _ s).polls i hi).cancelled hc
  · have hregistered := h.registered i hi (Bool.eq_false_iff.2 hc)
    exact cancelled_abandonAll _ s (List.mem_map_of_mem (Dict.get?_eq_some_iff.1 hregistered))

theorem Inv.step (h : Inv s) (hok : OwnEntry s a) (hstep : JobPolls.step s a = some s') : Inv s' := by
  have hm := moves_of_step hstep
  cases a with
  | elapse ms =>
    obtain rfl := Option.some.inj hstep
    exact h.moves hm rfl (fun _ _ => id) fun _ _ _ => id
  | runCmsJobInBackground jobId =>
    obtain rfl := Option.some.inj hstep
    unfold State.runCmsJobInBackground
    split
    · exact h
    · rename_i hnone
      exact h.startPoll hnone
  | cancelCmsJobPoll jobId =>
    obtain rfl := Option.some.inj hstep
    unfold State.cancelCmsJobPoll at hm ⊢
    split at hm
    · exact h
    rename_i i hentry
    refine h.moves hm rfl (fun jobId' j hj => ?_) fun j hj hlive hregistered => ?_
    · rw [Dict.get?_erase] at hj
      split at hj
      · cases hj
      · exact hj
    · rw [Dict.get?_erase, if_neg]
      · exact hregistered
      · rintro heq
        rw [heq, hentry] at hregistered
        obtain rfl := Option.some.inj hregistered
        have habandoned : ((s.abandon i).polls i).cancelled = true := by
          rw [State.abandon, State.setPoll_self]
          rfl
        rw [show ({ s.abandon i with activePolls := s.activePolls.erase jobId } : State).polls i = (s.abandon i).polls i from rfl,
          habandoned] at hlive
        cases hlive
  | cancelAllCmsJobPolls =>
    obtain rfl := Option.some.inj hstep
    refine h.moves hm (nextPoll_abandonAll _ s) (fun _ _ hj => by cases hj) fun j hj hlive _ => ?_
    rw [h.cancelled_cancelAll hj] at hlive
    cases hlive
  | statusAnswer i job =>
    simp only [JobPolls.step] at hstep
    split at hstep
    · obtain rfl := Option.some.inj hstep
      exact h.moves hm rfl (fun _ _ => id) fun _ _ _ => id
    · cases hstep
  | statusError i message =>
    simp only [JobPolls.step] at hstep
    split at hstep
    · obtain rfl := Option.some.inj hstep
      exact h.moves hm rfl (fun _ _ => id) fun _ _ _ => id
    · cases hstep
  | updated i =>
    simp only [JobPolls.step] at hstep
    split at hstep
    · obtain rfl := Option.some.inj hstep
      exact h.moves hm rfl (fun _ _ => id) fun _ _ _ => id
    · cases hstep
  | timeout i =>
    simp only [JobPolls.step] at hstep
    split at hstep
    · split at hstep
      · obtain rfl := Option.some.inj hstep
        exact h.moves hm rfl (fun _ _ => id) fun _ _ _ => id
      · cases hstep
    · cases hstep
  | handle i =>
    simp only [JobPolls.step] at hstep
    split at hstep
    · rename_i result hinner hhandled
      obtain rfl := Option.some.inj hstep
      refine h.moves hm rfl (fun jobId' j hj => ?_) fun j hj hlive hregistered => ?_
      · rw [State.handle, Dict.get?_erase] at hj
        split at hj
        · cases hj
        · exact hj
      · rw [State.handle, Dict.get?_erase, if_neg]
        · exact hregistered
        · rintro heq
          -- The entry of the job is the poll's own, and the poll is finished.
          have hown : (s.activePolls.get? (s.polls i).jobId).all (· = i) = true := hok
          rw [← heq, hregistered] at hown
          obtain rfl : j = i := of_decide_eq_true hown
          have hcancelled := h.finished j hj (by rw [hinner]; exact Option.some_ne_none _)
          rw [(hm.polls j hj).cancelled hcancelled] at hlive
          cases hlive
    · cases hstep

/-! ### The runs -/

theorem inv_run {as : List Act} (h : Inv s) (hrun : Run step OwnEntry s as s') : Inv s' :=
  hrun.invariant (fun _ _ _ hi hok hstep => hi.step hok hstep) h

theorem moves_run {ok : State → Act → Prop} {as : List Act} (hrun : Run step ok s as s') : Moves s s' := by
  induction hrun with
  | nil s => exact .refl s
  | cons _ hstep _ ih => exact (moves_of_step hstep).trans ih

theorem poll_registry_tracks {now : Nat} {as : List Act} {s : State} (h : Run step OwnEntry (.fresh now) as s) :
    Tracked s ∧
    (∀ as' s', Run step OwnEntry s.cancelAllCmsJobPolls as' s' → ∀ i < s.nextPoll,
      s'.requestsOf i = s.cancelAllCmsJobPolls.requestsOf i) ∧
    ∀ a s' i result, step s a = some s' → i < s.nextPoll → (s.polls i).outer = some result →
      (s'.polls i).outer = some result := by
  have hinv := inv_run (Inv.fresh now) h
  refine ⟨hinv.tracked, fun as' s' hrun i hi => ?_, fun a s' i result hstep hi => ?_⟩
  · have hnext : i < s.cancelAllCmsJobPolls.nextPoll := Nat.lt_of_lt_of_eq hi (nextPoll_abandonAll _ s).symm
    exact (moves_run hrun).requests i hnext (hinv.cancelled_cancelAll hi)
  · exact ((moves_of_step hstep).polls i hi).outer result

/-- A poll that is cancelled while its request is out and whose job is polled again, with the request failing late. -/
theorem poll_registry_tracks_restart : ∃ s, Run step OwnEntry (.fresh 0)
    [.runCmsJobInBackground "job", .cancelAllCmsJobPolls, .runCmsJobInBackground "job", .statusError 0 "timeout"] s ∧
    s.isCmsJobPolling "job" = true ∧ Tracked s := by
  obtain ⟨s, hrun, hpolling⟩ : ∃ s, Run step OwnEntry (.fresh 0)
      [.runCmsJobInBackground "job", .cancelAllCmsJobPolls, .runCmsJobInBackground "job", .statusError 0 "timeout"] s ∧
      s.isCmsJobPolling "job" = true := exists_run (by decide)
  exact ⟨s, hrun, hpolling, (poll_registry_tracks hrun).1⟩

/-- The first poll of the job has failed twice when it is cancelled, and its third request fails after the job is polled
again: the new poll is out of the registry. -/
theorem poll_registry_loses : ∃ s, Run step Always (.fresh 0)
    [.runCmsJobInBackground "job", .statusError 0 "timeout", .elapse 2000, .timeout 0, .statusError 0 "timeout",
      .elapse 2000, .timeout 0, .cancelAllCmsJobPolls, .runCmsJobInBackground "job", .statusError 0 "timeout", .handle 0] s ∧
    ¬ Tracked s := by
  obtain ⟨s, hrun, hnext, hlive, hnone⟩ : ∃ s, Run step Always (.fresh 0)
      [.runCmsJobInBackground "job", .statusError 0 "timeout", .elapse 2000, .timeout 0, .statusError 0 "timeout",
        .elapse 2000, .timeout 0, .cancelAllCmsJobPolls, .runCmsJobInBackground "job", .statusError 0 "timeout",
        .handle 0] s ∧ (1 < s.nextPoll ∧ (s.polls 1).cancelled = false ∧ s.activePolls.get? (s.polls 1).jobId = none) :=
    exists_run (by decide)
  refine ⟨s, hrun, fun htracked => ?_⟩
  rw [htracked.registered 1 hnext hlive] at hnone
  cases hnone

end CubridWebManager.JobPolls
