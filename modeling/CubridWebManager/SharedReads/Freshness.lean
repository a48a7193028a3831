import CubridWebManager.SharedReads.Slots
import Mathlib.Algebra.BigOperators.Group.Finset.Piecewise

/-!
# Shared reads are fresh and bounded

A key has at most one run that is launched and not settled.  A fresh read is told the outcome of a run that was launched
after it was made, an ordinary one that of the run that was current; nobody is told a rejection, and a key whose requests
are all answered has no entry (`shared_reads_hold`).
-/

namespace CubridWebManager.SharedReads

open Transition
open Finset (range)

variable {κ V E : Type} {s s' : State κ V E}

/-! ### The property -/

/-- The steps of the promises, which need nothing from outside. -/
def Act.internal : Act κ V E → Bool
  | .call _ | .resolve _ | .settle _ | .launch _ | .deliver _ => true
  | .nextSeq | .request .. | .finish .. => false

/-- The promise takes the outcome of a run that is called and not settled. -/
def State.waits (s : State κ V E) (p : Nat) : Prop :=
  ∃ r, (s.promises p).run = some r ∧ (s.runs r).called = true ∧ (s.runs r).outcome = none

/-- A step of the promises is possible. -/
def State.goesOn [DecidableEq κ] (s : State κ V E) : Prop := ∃ a s', a.internal = true ∧ step s a = some s'

/-! The steps that runs, promises and requests have left: a promise without a run has two, of which one is its run's. -/

def Launched.work (r : Launched κ V E) : Nat := if r.called then 0 else 1

def Promise.work (p : Promise κ V E) : Nat :=
  (if p.run.isNone then 2 else 0) + (if p.state.isNone then 1 else 0) + (if p.tracked then 1 else 0)

def Request.work (q : Request κ V E) : Nat := if q.result.isNone then 1 else 0

def State.work (s : State κ V E) : Nat :=
  (∑ r ∈ range s.nextRun, (s.runs r).work) + (∑ p ∈ range s.nextPromise, (s.promises p).work) +
    ∑ q ∈ range s.nextRequest, (s.requests q).work

structure FreshAndBounded [DecidableEq κ] (s : State κ V E) : Prop where
  /-- A key has at most one run in flight. -/
  single : ∀ r < s.nextRun, ∀ r' < s.nextRun, (s.runs r).key = (s.runs r').key → (s.runs r).outcome = none →
    (s.runs r').outcome = none → r = r'
  /-- The run in flight is that of the current promise. -/
  inFlight : ∀ r < s.nextRun, (s.runs r).outcome = none →
    ∃ entry, s.entries (s.runs r).key = some entry ∧ (s.promises entry.current).run = some r
  /-- A fresh request is told the outcome of a run launched after it was made. -/
  fresh : ∀ q < s.nextRequest, ∀ result, (s.requests q).result = some result → (s.requests q).fresh = true →
    ∃ r, (s.runs r).settled = some result ∧ (s.runs r).key = (s.requests q).key ∧ (s.requests q).runsBefore ≤ r ∧
      (s.requests q).seqBefore < (s.runs r).seq
  /-- An ordinary one is told the outcome of the run of the promise that was current, or of the run it launched. -/
  ordinary : ∀ q < s.nextRequest, ∀ result, (s.requests q).result = some result → (s.requests q).fresh = false →
    ∃ r, (s.runs r).settled = some result ∧ (s.runs r).key = (s.requests q).key ∧
      match (s.requests q).current with
      | some c => (s.promises c).run = some r
      | none => r = (s.requests q).runsBefore
  unrejected : ∀ p error, (s.promises p).state ≠ some (.rejected error)
  /-- A promise is settled when its run is. -/
  settles : ∀ p r settled, (s.promises p).run = some r → (s.runs r).settled = some settled →
    (s.promises p).state = some settled ∨
    step s (.resolve p) = some (s.setPromise p { s.promises p with state := some settled })
  /-- A request that is not answered waits for its run or the one before it, or a promise can go on, and the promises go
  on for finitely many steps only. -/
  progress : ∀ q < s.nextRequest, (s.requests q).result = none →
    s.goesOn ∨ s.waits (s.requests q).promise ∨
      ∃ c, (s.promises (s.requests q).promise).previous = some c ∧ s.waits c
  bounded : ∀ as s', Run step (fun _ a => a.internal = true) s as s' → as.length ≤ s.work
  /-- A key whose requests are answered has no entry. -/
  empties : ∀ key, (∀ q < s.nextRequest, (s.requests q).key = key → (s.requests q).result ≠ none) → s.entries key = none

/-! ### What the invariant gives -/

section Steps

variable [DecidableEq κ] {a : Act κ V E}

namespace Inv

variable {p r : Nat}

omit [DecidableEq κ] in
/-- The promise of a run that is not settled is the current one of its key. -/
theorem current_of_unsettled (h : Inv s) (hr : (s.promises p).run = some r) (hnone : (s.runs r).outcome = none) :
    ∃ entry, s.entries (s.runs r).key = some entry ∧ entry.current = p := by
  obtain ⟨hp, -, hkey⟩ := h.run p r hr
  have hpending : (s.promises p).state = none := by
    rw [Option.eq_none_iff_forall_ne_some]
    intro settled hsettled
    obtain ⟨r', hr', hout⟩ := h.state p settled hsettled
    rw [hr] at hr'
    obtain rfl := Option.some.inj hr'
    rw [Launched.settled_eq_none hnone] at hout
    cases hout
  have htracked : (s.promises p).tracked = true := by
    rw [← Bool.not_eq_false]
    exact fun ht => h.untracked p hp ht hpending
  obtain ⟨entry, hentry, hcurrent | hnext⟩ := h.entry p hp htracked
  · exact ⟨entry, hkey ▸ hentry, hcurrent⟩
  · obtain ⟨-, -, -, hfree, -⟩ := h.next _ entry p hentry hnext
    rw [hfree] at hr
    cases hr

omit [DecidableEq κ] in
theorem single (h : Inv s) {r' : Nat} (hr : r < s.nextRun) (hr' : r' < s.nextRun)
    (hkey : (s.runs r).key = (s.runs r').key) (hnone : (s.runs r).outcome = none)
    (hnone' : (s.runs r').outcome = none) : r = r' := by
  obtain ⟨p, hp⟩ := h.owner r hr
  obtain ⟨p', hp'⟩ := h.owner r' hr'
  obtain ⟨entry, hentry, rfl⟩ := h.current_of_unsettled hp hnone
  obtain ⟨entry', hentry', rfl⟩ := h.current_of_unsettled hp' hnone'
  rw [hkey, hentry'] at hentry
  obtain rfl := Option.some.inj hentry
  exact Option.some.inj (hp.symm.trans hp')

omit [DecidableEq κ] in
/-- What a request is told is the outcome of a run of its key. -/
theorem told (h : Inv s) {q : Nat} (hq : q < s.nextRequest) {result : Settled V E}
    (hresult : (s.requests q).result = some result) : ∃ r, (s.promises (s.requests q).promise).run = some r ∧
      (s.runs r).settled = some result ∧ (s.runs r).key = (s.requests q).key := by
  obtain ⟨r, hr, hsettled⟩ := h.state _ result (h.delivered q result hresult).1
  exact ⟨r, hr, hsettled, (h.run _ r hr).2.2.trans (h.request q hq).2.1⟩

/-- A promise with a run waits for it, or a step of it is possible, or it is settled and `track` has reacted. -/
theorem goes (h : Inv s) (hr : (s.promises p).run = some r) :
    s.goesOn ∨ s.waits p ∨
      ∃ result, (s.promises p).state = some (.fulfilled result) ∧ s.passed p = true := by
  obtain ⟨hp, hlt, -⟩ := h.run p r hr
  cases hcalled : (s.runs r).called with
  | false => exact .inl ⟨.call r, _, rfl, if_pos ⟨hlt, hcalled⟩⟩
  | true =>
    cases hout : (s.runs r).outcome with
    | none => exact .inr (.inl ⟨r, hr, hcalled, hout⟩)
    | some outcome =>
      have hsettlement : s.settlement p = (s.runs r).settled := by rw [State.settlement, hr]
      cases hstate : (s.promises p).state with
      | none =>
        have hsettled : ∃ settled, (s.runs r).settled = some settled := by
          rw [Launched.settled, hout]
          exact ⟨_, rfl⟩
        obtain ⟨settled, hsettled⟩ := hsettled
        refine .inl ⟨.resolve p, s.setPromise p { s.promises p with state := some settled }, rfl, ?_⟩
        simp only [SharedReads.step, hstate, hsettlement, hsettled]
      | some settled =>
        cases settled with
        | rejected error => exact absurd rfl (h.settled_of_state hstate error)
        | fulfilled result =>
          cases htracked : (s.promises p).tracked with
          | true =>
            refine .inl ⟨.settle p, s.settle p, rfl, ?_⟩
            simp only [SharedReads.step, hstate, htracked, if_true]
          | false =>
            refine .inr (.inr ⟨result, rfl, (State.passed_iff h).2 ⟨?_, htracked⟩⟩)
            rw [hstate]
            simp

/-- The run of a queued promise can be launched when `track` has reacted on the promise before it. -/
theorem launches (hp : p < s.nextPromise) (hfree : (s.promises p).run = none) {c : Nat}
    (hprevious : (s.promises p).previous = some c) {result : ReadResult V E}
    (hc : (s.promises c).state = some (.fulfilled result)) (hpassed : s.passed c = true) :
    s.goesOn := by
  refine ⟨.launch p, s.launch p (s.promises p), rfl, ?_⟩
  simp only [SharedReads.step, hfree, hprevious, hc]
  exact if_pos ⟨hp, hpassed⟩

theorem progress (h : Inv s) {q : Nat} (hq : q < s.nextRequest) (hresult : (s.requests q).result = none) :
    s.goesOn ∨ s.waits (s.requests q).promise ∨
      ∃ c, (s.promises (s.requests q).promise).previous = some c ∧ s.waits c := by
  obtain ⟨hp, -⟩ := h.request q hq
  cases hrun : (s.promises (s.requests q).promise).run with
  | some r =>
    rcases h.goes hrun with hgo | hwaits | ⟨-, -, hpassed⟩
    · exact .inl hgo
    · exact .inr (.inl hwaits)
    · exact .inl ⟨.deliver q, _, rfl, if_pos ⟨hq, by rw [hresult]; rfl, hpassed⟩⟩
  | none =>
    obtain ⟨c, hcp, hprevious, hslot⟩ := h.queued _ hp hrun
    cases hcrun : (s.promises c).run with
    | some r =>
      rcases h.goes hcrun with hgo | hwaits | ⟨result, hstate, hpassed⟩
      · exact .inl hgo
      · exact .inr (.inr ⟨c, hprevious, hwaits⟩)
      · exact .inl (launches hp hrun hprevious hstate hpassed)
    | none =>
      -- the promise before it is queued too, behind one that is settled, or else it would not be the current one
      have hc := Nat.lt_trans hcp hp
      have hctracked : (s.promises c).tracked = true := by
        rw [← Bool.not_eq_false]
        intro ht
        obtain ⟨settled, hsettled⟩ := Option.ne_none_iff_exists'.1 (h.untracked c hc ht)
        obtain ⟨r, hr, -⟩ := h.state c settled hsettled
        rw [hcrun] at hr
        cases hr
      have hentry := hslot hctracked
      obtain ⟨-, hkey, -⟩ := h.current _ _ hentry
      obtain ⟨d, hdc, hdprevious, hdslot⟩ := h.queued c hc hcrun
      have hdtracked : (s.promises d).tracked = false := by
        rw [← Bool.not_eq_true]
        intro ht
        have hold := hdslot ht
        rw [hkey, hentry] at hold
        exact Nat.ne_of_gt hdc (congrArg Entry.current (Option.some.inj hold))
      obtain ⟨settled, hsettled⟩ := Option.ne_none_iff_exists'.1 (h.untracked d (Nat.lt_trans hdc hc) hdtracked)
      cases settled with
      | rejected error => exact absurd rfl (h.settled_of_state hsettled error)
      | fulfilled result =>
        refine .inl (launches hc hcrun hdprevious hsettled ((State.passed_iff h).2 ⟨?_, hdtracked⟩))
        rw [hsettled]
        exact nofun

omit [DecidableEq κ] in
theorem empties (h : Inv s) (hreq : Requested s) {key : κ}
    (hall : ∀ q < s.nextRequest, (s.requests q).key = key → (s.requests q).result ≠ none) : s.entries key = none := by
  rw [Option.eq_none_iff_forall_ne_some]
  intro entry hentry
  obtain ⟨hlt, hkey, htracked⟩ := h.current key entry hentry
  obtain ⟨q, hq, hqp⟩ := hreq entry.current hlt
  obtain ⟨-, hqkey, -⟩ := h.request q hq
  rw [hqp, hkey] at hqkey
  obtain ⟨result, hresult⟩ := Option.ne_none_iff_exists'.1 (hall q hq hqkey.symm)
  have htold := (h.delivered q result hresult).2
  rw [hqp, htracked] at htold
  cases htold

end Inv

end Steps

/-! ### The promises come to an end -/

/-- A sum loses what one of its terms loses. -/
theorem sum_update {β : Type*} (g : Nat → β) (work : β → Nat) {i n k : Nat} (hi : i < n) {x : β}
    (hx : work (g i) = work x + k) :
    ∑ j ∈ range n, work (g j) = (∑ j ∈ range n, work (Function.update g i x j)) + k := by
  have hmem : i ∈ range n := Finset.mem_range.2 hi
  have hcomp : (fun j => work (Function.update g i x j)) = Function.update (fun j => work (g j)) i (work x) :=
    Function.comp_update work g i x
  rw [hcomp, Finset.sum_update_of_mem hmem, Finset.sum_eq_add_sum_sdiff_singleton_of_mem hmem fun j => work (g j), hx]
  omega

namespace State

variable (s) {p q r k : Nat}

theorem work_setRun (hr : r < s.nextRun) {run : Launched κ V E} (hk : (s.runs r).work = run.work + k) :
    s.work = (s.setRun r run).work + k := by
  simp only [work, setRun, sum_update s.runs Launched.work hr hk]
  omega

theorem work_setPromise (hp : p < s.nextPromise) {promise : Promise κ V E}
    (hk : (s.promises p).work = promise.work + k) : s.work = (s.setPromise p promise).work + k := by
  simp only [work, setPromise, sum_update s.promises Promise.work hp hk]
  omega

theorem work_setRequest (hq : q < s.nextRequest) {request : Request κ V E}
    (hk : (s.requests q).work = request.work + k) : s.work = (s.setRequest q request).work + k := by
  simp only [work, setRequest, sum_update s.requests Request.work hq hk]
  omega

/-- The new run is still to be called. -/
theorem work_launch (hp : p < s.nextPromise) (hrun : (s.promises p).run = none) :
    s.work = (s.launch p (s.promises p)).work + 1 := by
  let run : Launched κ V E := ⟨(s.promises p).key, s.lastSeq + 1, false, none⟩
  let s₁ : State κ V E :=
    { s with lastSeq := s.lastSeq + 1, nextRun := s.nextRun + 1, runs := Function.update s.runs s.nextRun run }
  have hruns : ∑ r ∈ range (s.nextRun + 1), (Function.update s.runs s.nextRun run r).work =
      (∑ r ∈ range s.nextRun, (s.runs r).work) + 1 := by
    rw [Finset.sum_range_succ, Function.update_self]
    have hold : ∀ r ∈ range s.nextRun, (Function.update s.runs s.nextRun run r).work = (s.runs r).work :=
      fun r hr => by rw [Function.update_of_ne (Nat.ne_of_lt (Finset.mem_range.1 hr))]
    rw [Finset.sum_congr rfl hold]
    rfl
  have hlaunched : s₁.work = s.work + 1 := by
    simp only [s₁, work, hruns]
    omega
  have hgiven : (s.promises p).work = ({ s.promises p with run := some s.nextRun } : Promise κ V E).work + 2 := by
    simp [Promise.work, hrun]
    omega
  have hwork : s₁.work = (s.launch p (s.promises p)).work + 2 := s₁.work_setPromise hp hgiven
  omega

end State

section Steps

variable [DecidableEq κ] {a : Act κ V E}

theorem work_step (h : Inv s) (ha : a.internal = true) (hstep : step s a = some s') : s.work = s'.work + 1 := by
  cases a with
  | nextSeq => cases ha
  | request key fresh => cases ha
  | finish r outcome => cases ha
  | call r =>
    obtain ⟨⟨hr, hcalled⟩, hstep⟩ := Option.ite_none_right_eq_some.1 hstep
    obtain rfl := Option.some.inj hstep
    exact s.work_setRun hr (by simp [Launched.work, hcalled])
  | resolve p =>
    simp only [SharedReads.step] at hstep
    split at hstep
    · rename_i settled hstate hsettled
      obtain rfl := Option.some.inj hstep
      obtain ⟨r, hr, -⟩ := h.settlement hsettled
      refine s.work_setPromise (h.run p r hr).1 ?_
      simp [Promise.work, hstate]
      omega
    · cases hstep
  | settle p =>
    simp only [SharedReads.step] at hstep
    split at hstep
    · rename_i result hstate
      obtain ⟨htracked, hstep⟩ := Option.ite_none_right_eq_some.1 hstep
      obtain rfl := Option.some.inj hstep
      obtain ⟨entry, hentry, hcurrent⟩ := h.current_of_settled (by rw [hstate]; simp) htracked
      rw [s.settle_eq hentry hcurrent]
      exact s.work_setPromise (h.lt_of_state hstate) (by simp [Promise.work, htracked])
    · cases hstep
  | launch p =>
    simp only [SharedReads.step] at hstep
    split at hstep
    · rename_i c hrun hprevious
      split at hstep
      · obtain ⟨⟨hp, -⟩, hstep⟩ := Option.ite_none_right_eq_some.1 hstep
        obtain rfl := Option.some.inj hstep
        exact s.work_launch hp hrun
      · cases hstep
    · cases hstep
  | deliver q =>
    obtain ⟨⟨hq, hnone, hpassed⟩, hstep⟩ := Option.ite_none_right_eq_some.1 hstep
    obtain rfl := Option.some.inj hstep
    have hstate := ((State.passed_iff h).1 hpassed).1
    refine s.work_setRequest hq ?_
    simp [Request.work, hnone, hstate]

theorem work_run (h : Inv s) {as : List (Act κ V E)} (hrun : Run step (fun _ a => a.internal = true) s as s') :
    as.length + s'.work ≤ s.work := by
  induction hrun with
  | nil s => exact Nat.le_of_eq (Nat.zero_add _)
  | cons ha hstep _ ih =>
    have hlt := work_step h ha hstep
    have hrest := ih (inv_step h hstep)
    rw [List.length_cons]
    omega

theorem Inv.freshAndBounded (h : Inv s) (hreq : Requested s) : FreshAndBounded s where
  single _ hr _ hr' := h.single hr hr'
  inFlight r hr hnone := by
    obtain ⟨p, hp⟩ := h.owner r hr
    obtain ⟨entry, hentry, rfl⟩ := h.current_of_unsettled hp hnone
    exact ⟨entry, hentry, hp⟩
  fresh q hq result hresult hfresh := by
    obtain ⟨r, hr, hsettled, hkey⟩ := h.told hq hresult
    exact ⟨r, hsettled, hkey, h.fresh q hq hfresh r hr⟩
  ordinary q hq result hresult hfresh := by
    obtain ⟨r, hr, hsettled, hkey⟩ := h.told hq hresult
    refine ⟨r, hsettled, hkey, ?_⟩
    have hjoined := h.ordinary q hq hfresh
    unfold State.joined at hjoined
    cases hcurrent : (s.requests q).current with
    | some c =>
      rw [hcurrent] at hjoined
      exact hjoined ▸ hr
    | none =>
      rw [hcurrent] at hjoined
      exact Option.some.inj (hr.symm.trans hjoined)
  unrejected p error hp := absurd rfl (h.settled_of_state hp error)
  settles p r settled hr hsettled := by
    cases hstate : (s.promises p).state with
    | none =>
      have hsettlement : s.settlement p = some settled := by
        rw [State.settlement, hr]
        exact hsettled
      refine .inr ?_
      simp only [step, hstate, hsettlement]
    | some settled' =>
      obtain ⟨r', hr', hsettled'⟩ := h.state p settled' hstate
      obtain rfl := Option.some.inj (hr.symm.trans hr')
      exact .inl (hsettled'.symm.trans hsettled)
  progress _ hq hresult := h.progress hq hresult
  bounded as s' hrun := Nat.le_trans (Nat.le_add_right _ _) (work_run h hrun)
  empties _ hall := h.empties hreq hall

end Steps

/-! ### The result -/

/-- Shared reads are fresh and bounded, in every order of requests, of runs that settle and of the steps between. -/
theorem shared_reads_hold [DecidableEq κ] (key : κ) (as : List (Act κ V E)) (s : State κ V E)
    (hrun : Run step Always (State.fresh key) as s) : FreshAndBounded s := by
  have hinv : Inv s ∧ Requested s := hrun.invariant (I := fun s => Inv s ∧ Requested s)
    (fun s a s' h _ hstep => ⟨inv_step h.1 hstep, requested_step h.2 h.1 hstep⟩) ⟨.init key, nofun⟩
  exact hinv.1.freshAndBounded hinv.2

/-- A fresh read that waits for the one in flight. -/
theorem shared_reads_hold_queued : ∃ s : State String Nat String,
    ((s.requests 0).result = some (.fulfilled (.ok 7 1)) ∧ (s.requests 1).result = some (.fulfilled (.failed "timeout" 2)) ∧
      s.entries "h" = none) ∧ FreshAndBounded s := by
  obtain ⟨s, hrun, hs⟩ : ∃ s, Run step Always (State.fresh "h" : State String Nat String)
      [.request "h" false, .call 0, .request "h" true, .finish 0 (.ok 7), .resolve 0, .settle 0, .deliver 0, .launch 1,
        .call 1, .finish 1 (.error "timeout"), .resolve 1, .settle 1, .deliver 1] s ∧
      ((s.requests 0).result = some (.fulfilled (.ok 7 1)) ∧
        (s.requests 1).result = some (.fulfilled (.failed "timeout" 2)) ∧ s.entries "h" = none) :=
    exists_run (by decide)
  exact ⟨s, hs, shared_reads_hold "h" _ s hrun⟩

end CubridWebManager.SharedReads
