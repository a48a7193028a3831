import CubridWebManager.Lib.PromiseQueue
import CubridWebManager.Lib.Run

/-!
# `withHostConfigQueue`

A call takes the last place in the queue of its key, waits for the promise that was the last one there, runs its body,
and in its `finally` resolves its own promise and takes it out of the map if it still is the last one.
`withHostQueue` of the client for CMS requests is the same with a map of its own, and logs.
-/

namespace CubridWebManager.Concurrency

open Transition PromiseQueue

variable {κ β ε : Type}

inductive Phase (β ε : Type)
  | waiting
  | inBody
  /-- The body has settled, and the `finally` has not run yet. -/
  | settled (outcome : Except ε β)
  /-- The call has given its caller the outcome of the body. -/
  | ended (outcome : Except ε β)

namespace Phase

def outcome? : Phase β ε → Option (Except ε β)
  | settled outcome => some outcome
  | ended outcome => some outcome
  | _ => none

def isOver : Phase β ε → Bool
  | ended _ => true
  | _ => false

end Phase

structure QueueCall (κ β ε : Type) where
  seat : Seat κ
  phase : Phase β ε

/-- The map of the queues, and the calls, numbered in the order in which they are made. -/
structure QueueState (κ β ε : Type) where
  hostConfigQueues : PromiseQueue κ
  calls : Nat → Option (QueueCall κ β ε)

inductive QueueAct (κ β ε : Type)
  | call (key : κ)
  /-- Call `i` goes on after `await pending` and runs its body. -/
  | resume (i : Nat)
  /-- The body of call `i` resolves or rejects. -/
  | settle (i : Nat) (outcome : Except ε β)
  /-- Call `i` runs its `finally`. -/
  | leave (i : Nat)

namespace QueueState

def initial : QueueState κ β ε := ⟨.empty, fun _ => none⟩

def setPhase (s : QueueState κ β ε) (i : Nat) (c : QueueCall κ β ε) (phase : Phase β ε) : QueueState κ β ε :=
  { s with calls := Function.update s.calls i (some { c with phase := phase }) }

/-- The place in the queues that the call has until its `finally`. -/
def seat (s : QueueState κ β ε) (i : Nat) : Option (Seat κ) :=
  (s.calls i).bind fun c => if c.phase.isOver then none else some c.seat

end QueueState

variable [DecidableEq κ]

def queueStep (s : QueueState κ β ε) : QueueAct κ β ε → Option (QueueState κ β ε)
  | .call key =>
    some {
      hostConfigQueues := s.hostConfigQueues.join key
      calls := Function.update s.calls s.hostConfigQueues.made (some ⟨s.hostConfigQueues.seatFor key, .waiting⟩) }
  | .resume i =>
    (s.calls i).bind fun c => match c.phase with
      | .waiting => if s.hostConfigQueues.ready c.seat then some (s.setPhase i c .inBody) else none
      | _ => none
  | .settle i outcome =>
    (s.calls i).bind fun c => match c.phase with
      | .inBody => some (s.setPhase i c (.settled outcome))
      | _ => none
  | .leave i =>
    (s.calls i).bind fun c => match c.phase with
      | .settled outcome =>
        some { s.setPhase i c (.ended outcome) with hostConfigQueues := s.hostConfigQueues.leave c.seat }
      | _ => none

/-- What a step can do, by the call that it is about. -/
theorem queueStep_cases {s s' : QueueState κ β ε} {act : QueueAct κ β ε} (h : queueStep s act = some s') :
    (∃ key, act = .call key ∧ s' = {
      hostConfigQueues := s.hostConfigQueues.join key
      calls := Function.update s.calls s.hostConfigQueues.made (some ⟨s.hostConfigQueues.seatFor key, .waiting⟩) }) ∨
    (∃ i c, act = .resume i ∧ s.calls i = some c ∧ c.phase = .waiting ∧ s.hostConfigQueues.ready c.seat = true ∧
      s' = s.setPhase i c .inBody) ∨
    (∃ i c outcome, act = .settle i outcome ∧ s.calls i = some c ∧ c.phase = .inBody ∧
      s' = s.setPhase i c (.settled outcome)) ∨
    ∃ i c outcome, act = .leave i ∧ s.calls i = some c ∧ c.phase = .settled outcome ∧
      s' = { s.setPhase i c (.ended outcome) with hostConfigQueues := s.hostConfigQueues.leave c.seat } := by
  cases act with
  | call key => exact .inl ⟨key, rfl, (Option.some.inj h).symm⟩
  | resume i =>
    simp only [queueStep, Option.bind_eq_some_iff] at h
    obtain ⟨c, hc, h⟩ := h
    split at h
    · rename_i hphase
      split at h
      · rename_i hready
        exact .inr (.inl ⟨i, c, rfl, hc, hphase, hready, (Option.some.inj h).symm⟩)
      · cases h
    · cases h
  | settle i outcome =>
    simp only [queueStep, Option.bind_eq_some_iff] at h
    obtain ⟨c, hc, h⟩ := h
    split at h
    · rename_i hphase
      exact .inr (.inr (.inl ⟨i, c, outcome, rfl, hc, hphase, (Option.some.inj h).symm⟩))
    · cases h
  | leave i =>
    simp only [queueStep, Option.bind_eq_some_iff] at h
    obtain ⟨c, hc, h⟩ := h
    split at h
    · rename_i outcome hphase
      exact .inr (.inr (.inr ⟨i, c, outcome, rfl, hc, hphase, (Option.some.inj h).symm⟩))
    · cases h

/-- The calls that are not over are in their queues; a call that has started has been ready, and those of its key before
it are over. -/
structure InOrder (s : QueueState κ β ε) : Prop where
  orderly : Orderly s.hostConfigQueues s.seat
  tight : Tight s.hostConfigQueues s.seat
  numbered : ∀ i c, s.calls i = some c → c.seat.promise = i ∧ i < s.hostConfigQueues.made
  ready : ∀ i c, s.calls i = some c → c.phase ≠ .waiting → c.phase.isOver = false →
    s.hostConfigQueues.ready c.seat = true
  before : ∀ i j c d, s.calls i = some c → s.calls j = some d → d.seat.key = c.seat.key → j < i → c.phase ≠ .waiting →
    d.phase.isOver = true

section

variable {s s' : QueueState κ β ε} {i j : Nat} {c d : QueueCall κ β ε}

omit [DecidableEq κ] in
theorem seat_eq_some_iff {a : Seat κ} :
    s.seat i = some a ↔ ∃ c, s.calls i = some c ∧ c.phase.isOver = false ∧ c.seat = a := by
  simp only [QueueState.seat, Option.bind_eq_some_iff, Option.ite_none_left_eq_some, Option.some.injEq,
    Bool.not_eq_true]

omit [DecidableEq κ] in
theorem seat_eq_some (hc : s.calls i = some c) (hover : c.phase.isOver = false) : s.seat i = some c.seat := by
  simp [QueueState.seat, hc, hover]

omit [DecidableEq κ] in
/-- A call keeps its place, unless it is over. -/
theorem seat_update (q : PromiseQueue κ) :
    (⟨q, Function.update s.calls i (some c)⟩ : QueueState κ β ε).seat =
      Function.update s.seat i (if c.phase.isOver then none else some c.seat) := by
  funext j
  by_cases hj : j = i
  · subst hj
    simp [QueueState.seat]
  · simp [QueueState.seat, hj]

namespace InOrder

omit [DecidableEq κ] in
theorem initial : InOrder (QueueState.initial : QueueState κ β ε) where
  orderly := .empty
  tight := .empty
  numbered := nofun
  ready := nofun
  before := nofun

omit [DecidableEq κ] in
theorem calls_made (h : InOrder s) : s.calls s.hostConfigQueues.made = none := by
  by_contra hsome
  obtain ⟨c, hc⟩ := Option.ne_none_iff_exists'.1 hsome
  exact Nat.lt_irrefl _ (h.numbered _ c hc).2

omit [DecidableEq κ] in
/-- A call that is ready is the first of its key: those before it are over. -/
theorem over_of_ready (h : InOrder s) (hc : s.calls i = some c) (hover : c.phase.isOver = false)
    (hready : s.hostConfigQueues.ready c.seat = true) (hd : s.calls j = some d) (hkey : d.seat.key = c.seat.key)
    (hlt : j < i) : d.phase.isOver = true := by
  by_contra hnot
  have hfirst := h.orderly.first (seat_eq_some hd (by simpa using hnot)) (seat_eq_some hc hover) hkey hready
  rw [(h.numbered i c hc).1, (h.numbered j d hd).1] at hfirst
  omega

theorem call (h : InOrder s) (key : κ) : InOrder {
    hostConfigQueues := s.hostConfigQueues.join key
    calls := Function.update s.calls s.hostConfigQueues.made (some ⟨s.hostConfigQueues.seatFor key, .waiting⟩) } := by
  have hfree := h.calls_made
  have hseat : s.seat s.hostConfigQueues.made = none := by
    simp [QueueState.seat, hfree]
  have hnew := seat_update (s := s) (i := s.hostConfigQueues.made)
    (c := (⟨s.hostConfigQueues.seatFor key, .waiting⟩ : QueueCall κ β ε)) (s.hostConfigQueues.join key)
  refine ⟨?_, ?_, fun i c hc => ?_, fun i c hc hphase hover => ?_, fun i j c d hc hd hkey hlt hphase => ?_⟩
  · rw [hnew]
    exact h.orderly.join hseat key
  · rw [hnew]
    exact h.tight.join h.orderly hseat key
  · simp only [Function.update_apply] at hc
    split at hc
    · rename_i heq
      obtain rfl := Option.some.inj hc
      rw [heq]
      exact ⟨rfl, Nat.lt_succ_self _⟩
    · obtain ⟨hpromise, hlt⟩ := h.numbered i c hc
      exact ⟨hpromise, Nat.lt_succ_of_lt hlt⟩
  · simp only [Function.update_apply] at hc
    split at hc
    · obtain rfl := Option.some.inj hc
      exact absurd rfl hphase
    · exact h.ready i c hc hphase hover
  · simp only [Function.update_apply] at hc hd
    split at hc
    · obtain rfl := Option.some.inj hc
      exact absurd rfl hphase
    · split at hd
      · -- the new call comes after all others
        rename_i heq
        have hlast := (h.numbered i c hc).2
        omega
      · exact h.before i j c d hc hd hkey hlt hphase

omit [DecidableEq κ] in
/-- A call changes its phase, and stays in its queue. -/
theorem setPhase {phase : Phase β ε} (h : InOrder s) (hc : s.calls i = some c) (hover : c.phase.isOver = false)
    (hready : s.hostConfigQueues.ready c.seat = true) (hphase : phase.isOver = false) : InOrder (s.setPhase i c phase) := by
  have hseat := seat_eq_some hc hover
  have hsame : (s.setPhase i c phase).seat = s.seat := by
    rw [QueueState.setPhase, seat_update, if_neg (by simp [hphase]), ← hseat, Function.update_eq_self]
  refine ⟨?_, ?_, fun j d hd => ?_, fun j d hd hstarted hnot => ?_, fun j k d e hd he hkey hlt hstarted => ?_⟩
  · rw [hsame]
    exact h.orderly
  · rw [hsame]
    exact h.tight
  · simp only [QueueState.setPhase, Function.update_apply] at hd
    split at hd
    · rename_i heq
      obtain rfl := Option.some.inj hd
      rw [heq]
      exact h.numbered i c hc
    · exact h.numbered j d hd
  · simp only [QueueState.setPhase, Function.update_apply] at hd
    split at hd
    · obtain rfl := Option.some.inj hd
      exact hready
    · exact h.ready j d hd hstarted hnot
  · simp only [QueueState.setPhase, Function.update_apply] at hd he
    split at hd
    · rename_i heq
      obtain rfl := Option.some.inj hd
      split at he
      · omega
      · rw [heq] at hlt
        exact h.over_of_ready hc hover hready he hkey hlt
    · split at he
      · rename_i heq
        obtain rfl := Option.some.inj he
        rw [heq] at hlt
        have hcover := h.before j i d c hd hc hkey hlt hstarted
        rw [hover] at hcover
        cases hcover
      · exact h.before j k d e hd he hkey hlt hstarted

theorem leave {outcome : Except ε β} (h : InOrder s) (hc : s.calls i = some c) (hphase : c.phase = .settled outcome) :
    InOrder { s.setPhase i c (.ended outcome) with hostConfigQueues := s.hostConfigQueues.leave c.seat } := by
  have hover : c.phase.isOver = false := by rw [hphase]; rfl
  have hstarted : c.phase ≠ .waiting := by rw [hphase]; exact nofun
  have hseat := seat_eq_some hc hover
  have hnew := seat_update (s := s) (i := i) (c := { c with phase := .ended outcome }) (s.hostConfigQueues.leave c.seat)
  refine ⟨?_, ?_, fun j d hd => ?_, fun j d hd hother hnot => ?_, fun j k d e hd he hkey hlt hother => ?_⟩
  · rw [QueueState.setPhase, hnew]
    exact h.orderly.leave hseat (h.ready i c hc hstarted hover)
  · rw [QueueState.setPhase, hnew]
    exact h.tight.leave hseat
  · simp only [QueueState.setPhase, Function.update_apply] at hd
    split at hd
    · rename_i heq
      obtain rfl := Option.some.inj hd
      rw [heq]
      exact h.numbered i c hc
    · exact h.numbered j d hd
  · simp only [QueueState.setPhase, Function.update_apply] at hd
    split at hd
    · obtain rfl := Option.some.inj hd
      cases hnot
    · exact ready_leave (h.ready j d hd hother hnot)
  · simp only [QueueState.setPhase, Function.update_apply] at hd he
    split at he
    · obtain rfl := Option.some.inj he
      rfl
    · split at hd
      · rename_i heq
        obtain rfl := Option.some.inj hd
        rw [heq] at hlt
        exact h.before i k c e hc he hkey hlt hstarted
      · exact h.before j k d e hd he hkey hlt hother

theorem step {act : QueueAct κ β ε} (h : InOrder s) (hstep : queueStep s act = some s') : InOrder s' := by
  rcases queueStep_cases hstep with ⟨key, -, rfl⟩ | ⟨i, c, -, hc, hphase, hready, rfl⟩ |
    ⟨i, c, outcome, -, hc, hphase, rfl⟩ | ⟨i, c, outcome, -, hc, hphase, rfl⟩
  · exact h.call key
  · exact h.setPhase hc (by rw [hphase]; rfl) hready rfl
  · have hready := h.ready i c hc (by rw [hphase]; exact nofun) (by rw [hphase]; rfl)
    exact h.setPhase hc (by rw [hphase]; rfl) hready rfl
  · exact h.leave hc hphase

theorem of_run {acts : List (QueueAct κ β ε)} (h : Run queueStep Always .initial acts s) : InOrder s :=
  h.invariant (fun _ _ _ hs _ hstep => hs.step hstep) initial

end InOrder

/-! ### The outcomes -/

/-- The outcome of a call's body, once it has settled. -/
def QueueState.outcome? (s : QueueState κ β ε) (i : Nat) : Option (Except ε β) :=
  (s.calls i).bind fun c => c.phase.outcome?

omit [DecidableEq κ] in
theorem outcome?_update (q : PromiseQueue κ) (i j : Nat) (c : QueueCall κ β ε) :
    (⟨q, Function.update s.calls i (some c)⟩ : QueueState κ β ε).outcome? j =
      if j = i then c.phase.outcome? else s.outcome? j := by
  by_cases hj : j = i
  · subst hj
    simp [QueueState.outcome?]
  · simp [QueueState.outcome?, hj]

theorem outcome?_step {act : QueueAct κ β ε} (h : InOrder s) (hstep : queueStep s act = some s') (i : Nat)
    (outcome : Except ε β) : s'.outcome? i = some outcome ↔ s.outcome? i = some outcome ∨ act = .settle i outcome := by
  rcases queueStep_cases hstep with ⟨key, rfl, rfl⟩ | ⟨j, c, rfl, hc, hphase, -, rfl⟩ |
    ⟨j, c, result, rfl, hc, hphase, rfl⟩ | ⟨j, c, result, rfl, hc, hphase, rfl⟩
  · rw [outcome?_update]
    split
    · rename_i heq
      simp [heq, QueueState.outcome?, h.calls_made, Phase.outcome?]
    · simp
  · rw [QueueState.setPhase, outcome?_update]
    split
    · rename_i heq
      simp [heq, QueueState.outcome?, hc, hphase, Phase.outcome?]
    · simp
  · rw [QueueState.setPhase, outcome?_update]
    split
    · rename_i heq
      simp [heq, QueueState.outcome?, hc, hphase, Phase.outcome?]
    · rename_i hne
      simp [Ne.symm hne]
  · rw [QueueState.setPhase, outcome?_update]
    split
    · rename_i heq
      simp [heq, QueueState.outcome?, hc, hphase, Phase.outcome?]
    · simp

theorem outcome?_run {acts : List (QueueAct κ β ε)} (h : InOrder s) (hrun : Run queueStep Always s acts s') (i : Nat)
    (outcome : Except ε β) : s'.outcome? i = some outcome ↔ s.outcome? i = some outcome ∨ .settle i outcome ∈ acts := by
  induction hrun with
  | nil s => simp
  | cons _ hstep _ ih =>
    rw [ih (h.step hstep), outcome?_step h hstep, List.mem_cons, or_assoc]
    simp only [eq_comm]

/-- What the queue promises in a state that a run has reached. -/
structure FifoMutex (acts : List (QueueAct κ β ε)) (s : QueueState κ β ε) : Prop where
  noOverlap : ∀ i j c d, s.calls i = some c → s.calls j = some d → c.seat.key = d.seat.key → c.phase = .inBody →
    d.phase = .inBody → i = j
  /-- When a body starts, the calls of the key made before it are over. -/
  callOrder : ∀ i j c d, s.calls i = some c → s.calls j = some d → d.seat.key = c.seat.key → j < i →
    c.phase ≠ .waiting → d.phase.isOver = true
  /-- A call need not wait for anything but the calls of its key made before it, however they end. -/
  resumes : ∀ i c, s.calls i = some c → ((queueStep s (.resume i)).isSome = true ↔
    c.phase = .waiting ∧ ∀ j d, s.calls j = some d → d.seat.key = c.seat.key → j < i → d.phase.isOver = true)
  settles : ∀ i c, s.calls i = some c → c.phase = .inBody → ∀ outcome, (queueStep s (.settle i outcome)).isSome = true
  leaves : ∀ i c outcome, s.calls i = some c → c.phase = .settled outcome → (queueStep s (.leave i)).isSome = true
  /-- A call gives its caller what its own body has settled with. -/
  outcome : ∀ i outcome, .settle i outcome ∈ acts ↔
    ∃ c, s.calls i = some c ∧ (c.phase = .settled outcome ∨ c.phase = .ended outcome)
  entry : ∀ key, (s.hostConfigQueues.tail key).isSome = true ↔
    ∃ i c, s.calls i = some c ∧ c.seat.key = key ∧ c.phase.isOver = false

/-- For any calls with any keys, in any order of steps: `withHostConfigQueue` is a mutex for each key that serves its
calls in order, whether their bodies resolve or reject. -/
theorem withHostConfigQueue_fifo (acts : List (QueueAct κ β ε)) (s : QueueState κ β ε)
    (h : Run queueStep Always .initial acts s) : FifoMutex acts s := by
  have hinv := InOrder.of_run h
  have hbegins : (QueueState.initial : QueueState κ β ε).outcome? = fun _ => none := rfl
  refine ⟨fun i j c d hc hd hkey hcin hdin => ?_, hinv.before, fun i c hc => ⟨fun hresumes => ?_, ?_⟩,
    fun i c hc hphase outcome => ?_, fun i c outcome hc hphase => ?_, fun i outcome => ?_, fun key => ?_⟩
  · have hseat := seat_eq_some hc (by rw [hcin]; rfl)
    have hseat' := seat_eq_some hd (by rw [hdin]; rfl)
    exact hinv.orderly.unique hseat hseat' hkey (hinv.ready i c hc (by rw [hcin]; exact nofun) (by rw [hcin]; rfl))
      (hinv.ready j d hd (by rw [hdin]; exact nofun) (by rw [hdin]; rfl))
  · obtain ⟨s', hstep⟩ := Option.isSome_iff_exists.1 hresumes
    rcases queueStep_cases hstep with ⟨key, hact, -⟩ | ⟨j, d, hact, hd, hphase, hready, -⟩ | ⟨j, d, outcome, hact, -⟩ |
      ⟨j, d, outcome, hact, -⟩
    · cases hact
    · obtain rfl := QueueAct.resume.inj hact
      obtain rfl := Option.some.inj (hc.symm.trans hd)
      exact ⟨hphase, fun k e he hkey hlt => hinv.over_of_ready hc (by rw [hphase]; rfl) hready he hkey hlt⟩
    · cases hact
    · cases hact
  · rintro ⟨hphase, hbefore⟩
    have hseat := seat_eq_some hc (by rw [hphase]; rfl)
    have hready : s.hostConfigQueues.ready c.seat = true := by
      refine (hinv.orderly.ready_iff hinv.tight hseat).2 fun j a hj hkey => ?_
      obtain ⟨d, hd, hover, rfl⟩ := seat_eq_some_iff.1 hj
      rw [(hinv.numbered i c hc).1, (hinv.numbered j d hd).1]
      by_contra hlt
      have hdover := hbefore j d hd hkey (by omega)
      rw [hover] at hdover
      cases hdover
    simp [queueStep, hc, hphase, hready]
  · simp [queueStep, hc, hphase]
  · simp [queueStep, hc, hphase]
  · have hout := outcome?_run .initial h i outcome
    rw [hbegins] at hout
    simp only [reduceCtorEq, false_or] at hout
    rw [← hout, QueueState.outcome?, Option.bind_eq_some_iff]
    refine exists_congr fun c => and_congr_right fun _ => ?_
    cases c.phase <;> simp [Phase.outcome?]
  · have hnone := hinv.orderly.tail_eq_none_iff hinv.tight key
    rw [← Option.ne_none_iff_isSome, ne_eq, hnone]
    simp only [ne_eq, not_forall, not_not, exists_prop]
    constructor
    · rintro ⟨i, a, hi, hkey⟩
      obtain ⟨c, hc, hover, rfl⟩ := seat_eq_some_iff.1 hi
      exact ⟨i, c, hc, hkey, hover⟩
    · rintro ⟨i, c, hc, hkey, hover⟩
      exact ⟨i, c.seat, seat_eq_some hc hover, hkey⟩

/-- Three calls, the second one for another key: the body of the first rejects, and the third one waits for its end. -/
theorem withHostConfigQueue_fifo_three : ∃ s : QueueState String Nat String,
    Run queueStep Always .initial [.call "a", .call "b", .resume 0, .call "a", .resume 1, .settle 0 (.error "down"),
      .leave 0, .resume 2, .settle 1 (.ok 1), .leave 1] s ∧
    s.hostConfigQueues.tail "a" = some 2 ∧ s.hostConfigQueues.tail "b" = none ∧
    FifoMutex [.call "a", .call "b", .resume 0, .call "a", .resume 1, .settle 0 (.error "down"),
      .leave 0, .resume 2, .settle 1 (.ok 1), .leave 1] s := by
  obtain ⟨s, hs, ha, hb⟩ : ∃ s : QueueState String Nat String,
      runChecked queueStep Always .initial [.call "a", .call "b", .resume 0, .call "a", .resume 1,
        .settle 0 (.error "down"), .leave 0, .resume 2, .settle 1 (.ok 1), .leave 1] = some s ∧
      s.hostConfigQueues.tail "a" = some 2 ∧ s.hostConfigQueues.tail "b" = none := ⟨_, rfl, by decide, by decide⟩
  have hrun := Run.of_runChecked hs
  exact ⟨s, hrun, ha, hb, withHostConfigQueue_fifo _ s hrun⟩

end

end CubridWebManager.Concurrency
