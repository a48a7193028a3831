import CubridWebManager.Lib.Run
import Mathlib.Data.List.Nodup
import Mathlib.Data.List.Perm.Subperm

/-!
# `mapWithConcurrency`

Several workers take the items of a list from one shared counter and call `fn` for each.  A call throws at once or
gives a promise; the promises settle in any order, and a worker goes on some time after the promise that it awaits has
settled.

* One worker's loop up to its next `await` keeps the bookkeeping of the calls (`runWorker_spec`);
* every step keeps what the workers hold apart from what is finished (`Bookkeeping.step`);
* so every item is processed once, within the limit (`mapWithConcurrency_sound`).
-/

namespace CubridWebManager.Concurrency

open Transition

variable {α β ε : Type}

/-- Where a worker is in its loop. -/
inductive Worker (β ε : Type)
  /-- The promise of the call for the item `current` has not settled. -/
  | awaiting (current : Nat)
  /-- That promise has settled, and the worker has not gone on yet. -/
  | resuming (current : Nat) (outcome : Except ε β)
  | returned (result : Except ε Unit)

namespace Worker

def awaits : Worker β ε → Nat → Bool
  | awaiting current, i => current == i
  | _, _ => false

/-- The item that the worker is at. -/
def item? : Worker β ε → Option Nat
  | awaiting current => some current
  | resuming current _ => some current
  | returned _ => none

def resumes : Worker β ε → Bool
  | resuming _ _ => true
  | _ => false

theorem awaits_iff {w : Worker β ε} {i : Nat} : w.awaits i = true ↔ w = .awaiting i := by
  cases w <;> simp [awaits]

end Worker

structure MapState (α β ε : Type) where
  nextIndex : Nat
  /-- An entry is `none` as long as nothing is stored in it. -/
  results : List (Option (Except ε β))
  workers : List (Worker β ε)
  /-- The calls to `fn` so far, in order. -/
  calls : List (α × Nat)
  /-- How the promises of the calls have settled so far. -/
  settled : List (Nat × Except ε β)

inductive MapAct (β ε : Type)
  /-- The promise of the call for the item `i` settles. -/
  | settle (i : Nat) (outcome : Except ε β)
  | resume (worker : Nat)

/-- How the promises settle in a list of actions. -/
def MapAct.settlement? : MapAct β ε → Option (Nat × Except ε β)
  | settle i outcome => some (i, outcome)
  | resume _ => none

def MapState.store (s : MapState α β ε) (i : Nat) (outcome : Except ε β) : MapState α β ε :=
  { s with results := s.results.set i (some outcome) }

section

variable (fn : α → Nat → Option ε)

/-- `runWorker` from the head of its loop up to its next `await` or its end; `left` are the items from `nextIndex` on.
A call to `fn` that throws is caught, and the loop goes on. -/
def runWorker : List α → MapState α β ε → MapState α β ε × Worker β ε
  | [], s => (s, .returned (.ok ()))
  | item :: left, s =>
    let current := s.nextIndex
    let s := { s with nextIndex := current + 1, calls := s.calls ++ [(item, current)] }
    match fn item current with
    | some reason => runWorker left (s.store current (.error reason))
    | none => (s, .awaiting current)

variable (items : List α)

/-- The calls of `runWorker` by `Array.from`, one after the other. -/
def startWorkers : Nat → MapState α β ε → MapState α β ε
  | 0, s => s
  | count + 1, s =>
    let (s, worker) := runWorker fn (items.drop s.nextIndex) s
    startWorkers count { s with workers := s.workers ++ [worker] }

def workerCount (limit : Int) : Nat := (max 1 (min limit items.length)).toNat

def initial : MapState α β ε :=
  { nextIndex := 0, results := List.replicate items.length none, workers := [], calls := [], settled := [] }

/-- `mapWithConcurrency` up to its `await`. -/
def mapWithConcurrency (limit : Int) : MapState α β ε :=
  startWorkers fn items (workerCount items limit) (initial items)

def step (s : MapState α β ε) : MapAct β ε → Option (MapState α β ε)
  | .settle i outcome =>
    (s.workers.findIdx? (·.awaits i)).map fun worker =>
      { s with workers := s.workers.set worker (.resuming i outcome), settled := s.settled ++ [(i, outcome)] }
  | .resume worker =>
    match s.workers[worker]? with
    | some (.resuming current outcome) =>
      let (s, w) := runWorker fn (items.drop s.nextIndex) (s.store current outcome)
      some { s with workers := s.workers.set worker w }
    | _ => none

end

/-- `Promise.all`: the first worker that has rejected decides, and without one all must have returned. -/
def promiseAll : List (Worker β ε) → Option (Except ε Unit)
  | [] => some (.ok ())
  | .returned (.error e) :: _ => some (.error e)
  | .returned (.ok ()) :: ws => promiseAll ws
  | _ :: ws =>
    match promiseAll ws with
    | some (.error e) => some (.error e)
    | _ => none

namespace MapState

/-- What the promise of `mapWithConcurrency` has settled with. -/
def answer (s : MapState α β ε) : Option (Except ε (List (Option (Except ε β)))) :=
  (promiseAll s.workers).map fun result => result.map fun _ => s.results

/-- The calls that have not settled. -/
def inFlight (s : MapState α β ε) : List Nat :=
  s.workers.filterMap fun w => match w with
    | .awaiting i => some i
    | _ => none

/-- The items that a worker is at. -/
def held (s : MapState α β ε) : List Nat := s.workers.filterMap Worker.item?

end MapState

/-! ### The bookkeeping -/

section

variable (fn : α → Nat → Option ε)

/-- What the call for the item came to: it threw, or its promise settled. -/
def Outcome (settled : List (Nat × Except ε β)) (item : α) (i : Nat) (outcome : Except ε β) : Prop :=
  match fn item i with
  | some reason => outcome = .error reason
  | none => (i, outcome) ∈ settled

/-- The calls are those for the items before `nextIndex`; apart from those that are `held`, they have their results. -/
structure Progress (items : List α) (s : MapState α β ε) (held : List Nat) : Prop where
  le : s.nextIndex ≤ items.length
  length : s.results.length = items.length
  calls : s.calls = items.zipIdx.take s.nextIndex
  nodup : held.Nodup
  called : ∀ i ∈ held, i < s.nextIndex
  done : ∀ i < s.nextIndex, i ∉ held → ∃ item outcome, items[i]? = some item ∧ s.results[i]? = some (some outcome) ∧
    Outcome fn s.settled item i outcome

end

variable {fn : α → Nat → Option ε} {items : List α} {s s' : MapState α β ε} {held held' : List Nat} {limit : Int}

/-! ### One step -/

theorem runWorker_frame (fn : α → Nat → Option ε) (left : List α) (s : MapState α β ε) :
    (runWorker fn left s).1.workers = s.workers ∧ (runWorker fn left s).1.settled = s.settled := by
  induction left generalizing s with
  | nil => exact ⟨rfl, rfl⟩
  | cons item left ih =>
    unfold runWorker
    dsimp only
    split
    · exact ih _
    · exact ⟨rfl, rfl⟩

theorem resumes_runWorker (fn : α → Nat → Option ε) (left : List α) (s : MapState α β ε) : (runWorker fn left s).2.resumes = false := by
  induction left generalizing s with
  | nil => rfl
  | cons item left ih =>
    unfold runWorker
    dsimp only
    split
    · exact ih _
    · rfl

theorem startWorkers_frame (count : Nat) (s : MapState α β ε) :
    (startWorkers fn items count s).workers.length = s.workers.length + count ∧
      (startWorkers fn items count s).settled = s.settled := by
  induction count generalizing s with
  | zero => exact ⟨rfl, rfl⟩
  | succ count ih =>
    obtain ⟨hworkers, hsettled⟩ := runWorker_frame fn (items.drop s.nextIndex) s
    unfold startWorkers
    dsimp only
    obtain ⟨hlength, hsame⟩ := ih { (runWorker fn (items.drop s.nextIndex) s).1 with
      workers := (runWorker fn (items.drop s.nextIndex) s).1.workers ++ [(runWorker fn (items.drop s.nextIndex) s).2] }
    rw [hlength, hsame, hworkers, hsettled, List.length_append, List.length_singleton]
    exact ⟨by omega, rfl⟩

theorem exists_split_set {w : Worker β ε} {ws : List (Worker β ε)} {n : Nat} (h : ws[n]? = some w) (w' : Worker β ε) :
    ∃ ws₁ ws₂, ws = ws₁ ++ w :: ws₂ ∧ ws.set n w' = ws₁ ++ w' :: ws₂ := by
  obtain ⟨hlt, rfl⟩ := List.getElem?_eq_some_iff.1 h
  obtain ⟨ws₁, ws₂, hws, -, hset⟩ := List.exists_of_set hlt
  exact ⟨ws₁, ws₂, hws, hset⟩

/-- Either a promise settles, or a worker whose promise has settled stores the outcome and goes on. -/
theorem step_cases {act : MapAct β ε} (h : step fn items s act = some s') :
    (∃ i outcome ws₁ ws₂, act = .settle i outcome ∧ s.workers = ws₁ ++ .awaiting i :: ws₂ ∧
      s' = { s with workers := ws₁ ++ .resuming i outcome :: ws₂, settled := s.settled ++ [(i, outcome)] }) ∨
    ∃ worker i outcome ws₁ ws₂, act = .resume worker ∧ s.workers = ws₁ ++ .resuming i outcome :: ws₂ ∧
      s' = { (runWorker fn (items.drop s.nextIndex) (s.store i outcome)).1 with
        workers := ws₁ ++ (runWorker fn (items.drop s.nextIndex) (s.store i outcome)).2 :: ws₂ } := by
  cases act with
  | settle i outcome =>
    simp only [step, Option.map_eq_some_iff] at h
    obtain ⟨worker, hfind, rfl⟩ := h
    obtain ⟨hlt, hawaits, -⟩ := List.findIdx?_eq_some_iff_getElem.1 hfind
    have hworker := List.getElem?_eq_some_iff.2 ⟨hlt, Worker.awaits_iff.1 hawaits⟩
    obtain ⟨ws₁, ws₂, hworkers, hset⟩ := exists_split_set hworker (.resuming i outcome)
    exact .inl ⟨i, outcome, ws₁, ws₂, rfl, hworkers, by rw [hset]⟩
  | resume worker =>
    simp only [step] at h
    split at h
    · rename_i i outcome hworker
      obtain ⟨ws₁, ws₂, hworkers, hset⟩ := exists_split_set hworker
        (runWorker fn (items.drop s.nextIndex) (s.store i outcome)).2
      refine .inr ⟨worker, i, outcome, ws₁, ws₂, rfl, hworkers, ?_⟩
      rw [← Option.some.inj h, (runWorker_frame _ _ _).1, ← hset]
      rfl
    · cases h

/-! ### What a step keeps -/

theorem Outcome.mono {settled settled' : List (Nat × Except ε β)} {item : α} {i : Nat} {outcome : Except ε β}
    (h : Outcome fn settled item i outcome) (hsub : settled ⊆ settled') : Outcome fn settled' item i outcome := by
  unfold Outcome at h ⊢
  split
  · rename_i reason hreason
    rw [hreason] at h
    exact h
  · rename_i hnone
    rw [hnone] at h
    exact hsub h

theorem getElem?_of_drop {n : Nat} {item : α} {left : List α} (h : items.drop n = item :: left) : items[n]? = some item := by
  rw [← List.head?_drop, h, List.head?_cons]

namespace Progress

theorem perm (h : Progress fn items s held) (hperm : held.Perm held') : Progress fn items s held' where
  le := h.le
  length := h.length
  calls := h.calls
  nodup := hperm.nodup_iff.1 h.nodup
  called i hi := h.called i (hperm.mem_iff.2 hi)
  done i hi hnot := h.done i hi fun hmem => hnot (hperm.mem_iff.1 hmem)

/-- The workers take no part in it. -/
theorem congr (h : Progress fn items s held) (hnext : s'.nextIndex = s.nextIndex) (hresults : s'.results = s.results)
    (hcalls : s'.calls = s.calls) (hsettled : s.settled ⊆ s'.settled) : Progress fn items s' held where
  le := hnext ▸ h.le
  length := hresults ▸ h.length
  calls := by rw [hcalls, hnext, h.calls]
  nodup := h.nodup
  called i hi := hnext ▸ h.called i hi
  done i hi hnot := by
    obtain ⟨item, outcome, hitem, hresult, hout⟩ := h.done i (hnext ▸ hi) hnot
    exact ⟨item, outcome, hitem, hresults ▸ hresult, hout.mono hsettled⟩

/-- The result of an item that was held is stored. -/
theorem store {i : Nat} {item : α} {outcome : Except ε β} (h : Progress fn items s (i :: held))
    (hitem : items[i]? = some item) (hout : Outcome fn s.settled item i outcome) :
    Progress fn items (s.store i outcome) held where
  le := h.le
  length := List.length_set.trans h.length
  calls := h.calls
  nodup := (List.nodup_cons.1 h.nodup).2
  called j hj := h.called j (List.mem_cons_of_mem _ hj)
  done j hj hnot := by
    by_cases hji : j = i
    · subst hji
      have hlt : j < s.results.length := by
        have hle := h.le
        have hlength := h.length
        have hlt : j < s.nextIndex := hj
        omega
      exact ⟨item, outcome, hitem, List.getElem?_set_self hlt, hout⟩
    · obtain ⟨item', outcome', hitem', hresult, hout'⟩ := h.done j hj (by simp [hji, hnot])
      refine ⟨item', outcome', hitem', ?_, hout'⟩
      rw [MapState.store, List.getElem?_set_ne (Ne.symm hji), hresult]

/-- The next item is called, and held until its result is stored. -/
theorem call {item : α} {left : List α} (h : Progress fn items s held) (hleft : items.drop s.nextIndex = item :: left) :
    Progress fn items { s with nextIndex := s.nextIndex + 1, calls := s.calls ++ [(item, s.nextIndex)] }
      (s.nextIndex :: held) where
  le := by
    have hlength := congrArg List.length hleft
    simp only [List.length_drop, List.length_cons] at hlength
    show s.nextIndex + 1 ≤ items.length
    omega
  length := h.length
  calls := by
    have hitem : items.zipIdx[s.nextIndex]? = some (item, s.nextIndex) := by
      rw [List.getElem?_zipIdx, getElem?_of_drop hleft]
      simp
    show s.calls ++ [(item, s.nextIndex)] = items.zipIdx.take (s.nextIndex + 1)
    rw [List.take_add_one, hitem, h.calls, Option.toList_some]
  nodup := List.nodup_cons.2 ⟨fun hmem => Nat.lt_irrefl _ (h.called _ hmem), h.nodup⟩
  called i hi := by
    rcases List.mem_cons.1 hi with rfl | hi
    · exact Nat.lt_succ_self _
    · exact Nat.lt_succ_of_lt (h.called i hi)
  done i hi hnot := by
    rw [List.mem_cons, not_or] at hnot
    have hlt : i < s.nextIndex := by
      have hlt : i < s.nextIndex + 1 := hi
      omega
    exact h.done i hlt hnot.2

/-- The calls are those for the items before `nextIndex`. -/
theorem mem_calls (h : Progress fn items s held) {item : α} {i : Nat} :
    (item, i) ∈ s.calls ↔ i < s.nextIndex ∧ items[i]? = some item := by
  rw [h.calls, List.mem_iff_getElem?]
  constructor
  · rintro ⟨n, hn⟩
    rw [List.getElem?_take] at hn
    split at hn
    · rename_i hlt
      rw [List.getElem?_zipIdx, Option.map_eq_some_iff] at hn
      obtain ⟨item', hitem, heq⟩ := hn
      obtain ⟨rfl, rfl⟩ := Prod.mk.inj heq
      rw [Nat.zero_add]
      exact ⟨hlt, hitem⟩
    · cases hn
  · rintro ⟨hlt, hitem⟩
    refine ⟨i, ?_⟩
    rw [List.getElem?_take_of_lt hlt, List.getElem?_zipIdx, hitem, Option.map_some, Nat.zero_add]

end Progress

/-- The loop of one worker: it takes items until a call gives a promise, or until there are no more. -/
theorem runWorker_spec {left : List α} (h : Progress fn items s held) (hleft : items.drop s.nextIndex = left) :
    s.nextIndex ≤ (runWorker fn left s).1.nextIndex ∧
      (((runWorker fn left s).2 = .returned (.ok ()) ∧ (runWorker fn left s).1.nextIndex = items.length ∧
          Progress fn items (runWorker fn left s).1 held) ∨
        ∃ i item, (runWorker fn left s).2 = .awaiting i ∧ s.nextIndex ≤ i ∧ items[i]? = some item ∧ fn item i = none ∧
          Progress fn items (runWorker fn left s).1 (i :: held)) := by
  induction left generalizing s with
  | nil =>
    have hall : s.nextIndex = items.length := Nat.le_antisymm h.le (List.drop_eq_nil_iff.1 hleft)
    exact ⟨Nat.le_refl _, .inl ⟨rfl, hall, h⟩⟩
  | cons item left ih =>
    have hitem := getElem?_of_drop hleft
    have hcall := h.call hleft
    unfold runWorker
    dsimp only
    split
    · -- the call throws, and the loop goes on
      rename_i reason hthrow
      have hout : Outcome fn s.settled item s.nextIndex (.error reason : Except ε β) := by
        rw [Outcome, hthrow]
      have hrest : items.drop (s.nextIndex + 1) = left := by
        rw [← List.tail_drop, hleft, List.tail_cons]
      obtain ⟨hle, hend⟩ := ih (hcall.store hitem hout) hrest
      refine ⟨Nat.le_of_succ_le hle, hend.imp_right ?_⟩
      rintro ⟨i, item', hw, hi, hrest⟩
      exact ⟨i, item', hw, Nat.le_of_succ_le hi, hrest⟩
    · rename_i hnone
      exact ⟨Nat.le_succ _, .inr ⟨s.nextIndex, item, rfl, Nat.le_refl _, hitem, hnone, hcall⟩⟩

/-- What holds of the workers and of the promises, whatever has settled so far. -/
structure Bookkeeping (fn : α → Nat → Option ε) (items : List α) (s : MapState α β ε) : Prop where
  progress : Progress fn items s s.held
  promised : ∀ w ∈ s.workers, ∀ i, w.item? = some i → ∃ item, items[i]? = some item ∧ fn item i = none
  unsettled : ∀ i, .awaiting i ∈ s.workers → ∀ outcome, (i, outcome) ∉ s.settled
  resuming : ∀ i outcome, .resuming i outcome ∈ s.workers → (i, outcome) ∈ s.settled
  settledOnce : (s.settled.map Prod.fst).Nodup
  settledCalled : ∀ p ∈ s.settled, p.1 < s.nextIndex
  returned : ∀ result, .returned result ∈ s.workers → result = .ok () ∧ s.nextIndex = items.length

namespace Bookkeeping

/-- A worker goes through its loop, and is put among the others. -/
theorem advance {ws₁ ws₂ : List (Worker β ε)} (h : Bookkeeping fn items { s with workers := ws₁ ++ ws₂ }) :
    Bookkeeping fn items { (runWorker fn (items.drop s.nextIndex) s).1 with
      workers := ws₁ ++ (runWorker fn (items.drop s.nextIndex) s).2 :: ws₂ } := by
  have hprogress : Progress fn items s ((ws₁ ++ ws₂).filterMap Worker.item?) :=
    h.progress.congr rfl rfl rfl (List.Subset.refl _)
  have hsettled := (runWorker_frame fn (items.drop s.nextIndex) s).2
  obtain ⟨hle, hend⟩ := runWorker_spec hprogress rfl
  generalize runWorker fn (items.drop s.nextIndex) s = r at hsettled hle hend ⊢
  have hmem : ∀ w, w ∈ ws₁ ++ r.2 :: ws₂ → w = r.2 ∨ w ∈ ws₁ ++ ws₂ := by
    intro w hw
    rw [List.mem_append, List.mem_cons] at hw
    rw [List.mem_append]
    tauto
  have hnew : ∀ i, r.2.item? = some i → s.nextIndex ≤ i ∧ r.2 = .awaiting i := by
    intro i hi
    rcases hend with ⟨hw, -⟩ | ⟨j, item, hw, hj, -⟩
    · rw [hw] at hi
      cases hi
    · rw [hw] at hi
      obtain rfl : j = i := Option.some.inj hi
      exact ⟨hj, hw⟩
  refine ⟨?_, fun w hw i hi => ?_, fun i hi outcome hout => ?_, fun i outcome hi => ?_, ?_, fun p hp => ?_, fun result hr => ?_⟩
  · show Progress fn items _ ((ws₁ ++ r.2 :: ws₂).filterMap Worker.item?)
    rcases hend with ⟨hw, -, hp⟩ | ⟨i, item, hw, -, -, -, hp⟩
    · rw [hw, List.filterMap_append, List.filterMap_cons_none rfl, ← List.filterMap_append]
      exact hp.congr rfl rfl rfl (List.Subset.refl _)
    · have hheld : (Worker.awaiting i :: ws₂).filterMap Worker.item? = i :: ws₂.filterMap Worker.item? :=
        List.filterMap_cons_some rfl
      rw [hw, List.filterMap_append, hheld]
      rw [List.filterMap_append] at hp
      exact (hp.perm List.perm_middle.symm).congr rfl rfl rfl (List.Subset.refl _)
  · rcases hmem w hw with rfl | hold
    · rcases hend with ⟨hw, -⟩ | ⟨j, item, hw, -, hitem, hnone, -⟩
      · rw [hw] at hi
        cases hi
      · rw [hw] at hi
        obtain rfl : j = i := Option.some.inj hi
        exact ⟨item, hitem, hnone⟩
    · exact h.promised w hold i hi
  · have hout : (i, outcome) ∈ s.settled := hsettled ▸ hout
    rcases hmem _ hi with heq | hold
    · have hge := (hnew i (by rw [← heq]; rfl)).1
      exact Nat.not_lt.2 hge (h.settledCalled _ hout)
    · exact h.unsettled i hold outcome hout
  · show (i, outcome) ∈ r.1.settled
    rw [hsettled]
    rcases hmem _ hi with heq | hold
    · have hw := (hnew i (by rw [← heq]; rfl)).2
      rw [hw] at heq
      cases heq
    · exact h.resuming i outcome hold
  · show (r.1.settled.map Prod.fst).Nodup
    rw [hsettled]
    exact h.settledOnce
  · have hp : p ∈ s.settled := hsettled ▸ hp
    exact Nat.lt_of_lt_of_le (h.settledCalled p hp) hle
  · rcases hmem _ hr with heq | hold
    · rcases hend with ⟨hw, hall, -⟩ | ⟨j, item, hw, -⟩
      · rw [hw] at heq
        exact ⟨Worker.returned.inj heq, hall⟩
      · rw [hw] at heq
        cases heq
    · obtain ⟨hok, hall⟩ := h.returned result hold
      refine ⟨hok, Nat.le_antisymm ?_ (hall ▸ hle)⟩
      rcases hend with ⟨-, -, hp⟩ | ⟨j, item, -, -, -, -, hp⟩
      · exact hp.le
      · exact hp.le

theorem startWorkers (h : Bookkeeping fn items s) (count : Nat) : Bookkeeping fn items (startWorkers fn items count s) := by
  induction count generalizing s with
  | zero => exact h
  | succ count ih =>
    have hws : s.workers ++ [] = s.workers := List.append_nil _
    have hold : Bookkeeping fn items { s with workers := s.workers ++ [] } := by
      rw [hws]
      exact h
    have hnew := ih hold.advance
    have hworkers := (runWorker_frame fn (items.drop s.nextIndex) s).1
    unfold Concurrency.startWorkers
    dsimp only
    rw [hworkers]
    exact hnew

theorem initial : Bookkeeping fn items (initial items : MapState α β ε) := by
  refine ⟨⟨Nat.zero_le _, List.length_replicate, rfl, List.nodup_nil, ?_, ?_⟩, ?_, ?_, ?_, List.nodup_nil, ?_, ?_⟩
  all_goals simp [Concurrency.initial, MapState.held]

theorem settle {i : Nat} {outcome : Except ε β} {ws₁ ws₂ : List (Worker β ε)} (h : Bookkeeping fn items s)
    (hworkers : s.workers = ws₁ ++ .awaiting i :: ws₂) :
    Bookkeeping fn items
      { s with workers := ws₁ ++ .resuming i outcome :: ws₂, settled := s.settled ++ [(i, outcome)] } := by
  have hmem : Worker.awaiting i ∈ s.workers := by
    rw [hworkers]
    exact List.mem_append_right _ List.mem_cons_self
  -- the item is no other worker's
  have hheld : s.held = (ws₁ ++ .resuming i outcome :: ws₂).filterMap Worker.item? := by
    rw [MapState.held, hworkers, List.filterMap_append, List.filterMap_append]
    rfl
  have hcases : ∀ w, w ∈ ws₁ ++ .resuming i outcome :: ws₂ → w = .resuming i outcome ∨ w ∈ s.workers := by
    intro w hw
    rw [hworkers, List.mem_append, List.mem_cons]
    rw [List.mem_append, List.mem_cons] at hw
    tauto
  have hother : Worker.awaiting i ∉ ws₁ ++ .resuming i outcome :: ws₂ := by
    intro hi
    have hnodup := h.progress.nodup
    rw [hheld, List.filterMap_append] at hnodup
    have hitem : (Worker.resuming i outcome :: ws₂).filterMap Worker.item? = i :: ws₂.filterMap Worker.item? :=
      List.filterMap_cons_some rfl
    rw [hitem, List.nodup_middle, List.nodup_cons, List.mem_append] at hnodup
    rw [List.mem_append, List.mem_cons] at hi
    rcases hi with hi | hi | hi
    · exact hnodup.1 (.inl (List.mem_filterMap.2 ⟨_, hi, rfl⟩))
    · cases hi
    · exact hnodup.1 (.inr (List.mem_filterMap.2 ⟨_, hi, rfl⟩))
  have hfresh : ∀ o, (i, o) ∉ s.settled := h.unsettled i hmem
  refine ⟨?_, fun w hw j hj => ?_, fun j hj o ho => ?_,
    fun j o hj => ?_, ?_, fun p hp => ?_, fun result hr => ?_⟩
  · show Progress fn items _ ((ws₁ ++ .resuming i outcome :: ws₂).filterMap Worker.item?)
    rw [← hheld]
    exact h.progress.congr rfl rfl rfl (List.subset_append_left _ _)
  · rcases hcases w hw with rfl | hw
    · obtain rfl : i = j := Option.some.inj hj
      exact h.promised _ hmem i rfl
    · exact h.promised w hw j hj
  · rcases hcases _ hj with heq | hold
    · cases heq
    · rcases List.mem_append.1 ho with ho | ho
      · exact h.unsettled j hold o ho
      · obtain ⟨rfl, rfl⟩ := Prod.mk.inj (List.mem_singleton.1 ho)
        exact hother hj
  · rcases hcases _ hj with heq | hold
    · obtain ⟨rfl, rfl⟩ := Worker.resuming.inj heq
      exact List.mem_append_right _ List.mem_cons_self
    · exact List.mem_append_left _ (h.resuming j o hold)
  · show ((s.settled ++ [(i, outcome)]).map Prod.fst).Nodup
    rw [List.map_append, List.map_singleton, List.nodup_append_comm, List.singleton_append, List.nodup_cons]
    refine ⟨fun hi => ?_, h.settledOnce⟩
    obtain ⟨⟨j, o⟩, hp, rfl⟩ := List.mem_map.1 hi
    exact hfresh o hp
  · rcases List.mem_append.1 hp with hp | hp
    · exact h.settledCalled p hp
    · rw [List.mem_singleton.1 hp]
      refine h.progress.called i (List.mem_filterMap.2 ⟨_, hmem, rfl⟩)
  · rcases hcases _ hr with heq | hold
    · cases heq
    · exact h.returned result hold

theorem resume {i : Nat} {outcome : Except ε β} {ws₁ ws₂ : List (Worker β ε)} (h : Bookkeeping fn items s)
    (hworkers : s.workers = ws₁ ++ .resuming i outcome :: ws₂) :
    Bookkeeping fn items { (runWorker fn (items.drop s.nextIndex) (s.store i outcome)).1 with
      workers := ws₁ ++ (runWorker fn (items.drop s.nextIndex) (s.store i outcome)).2 :: ws₂ } := by
  refine advance (s := s.store i outcome) ?_
  have hsub : ws₁ ++ ws₂ ⊆ s.workers := by
    rw [hworkers]
    exact List.append_subset.2 ⟨List.subset_append_left _ _, fun w hw => by simp [hw]⟩
  have hmem : Worker.resuming i outcome ∈ s.workers := by
    rw [hworkers]
    exact List.mem_append_right _ List.mem_cons_self
  obtain ⟨item, hitem, hnone⟩ := h.promised _ hmem i rfl
  have hheld : s.held.Perm (i :: (ws₁ ++ ws₂).filterMap Worker.item?) := by
    have hi : (Worker.resuming i outcome :: ws₂).filterMap Worker.item? = i :: ws₂.filterMap Worker.item? :=
      List.filterMap_cons_some rfl
    rw [MapState.held, hworkers, List.filterMap_append, List.filterMap_append, hi]
    exact List.perm_middle
  have hout : Outcome fn s.settled item i outcome := by
    rw [Outcome, hnone]
    exact h.resuming i outcome hmem
  exact ⟨((h.progress.perm hheld).store hitem hout).congr rfl rfl rfl (List.Subset.refl _),
    fun w hw => h.promised w (hsub hw), fun j hj => h.unsettled j (hsub hj), fun j o hj => h.resuming j o (hsub hj),
    h.settledOnce, h.settledCalled, fun result hr => h.returned result (hsub hr)⟩

theorem step {act : MapAct β ε} (h : Bookkeeping fn items s) (hstep : Concurrency.step fn items s act = some s') :
    Bookkeeping fn items s' := by
  rcases step_cases hstep with ⟨i, outcome, ws₁, ws₂, -, hworkers, rfl⟩ | ⟨worker, i, outcome, ws₁, ws₂, -, hworkers, rfl⟩
  · exact h.settle hworkers
  · exact h.resume hworkers

theorem of_run {acts : List (MapAct β ε)}
    (h : Run (Concurrency.step fn items) Always (mapWithConcurrency fn items limit) acts s) :
    Bookkeeping fn items s := by
  exact h.invariant (fun _ _ _ hs _ hstep => hs.step hstep) (initial.startWorkers _)

end Bookkeeping

/-! ### Whole runs -/

theorem step_frame {act : MapAct β ε} (h : step fn items s act = some s') :
    s'.workers.length = s.workers.length ∧ s'.settled = s.settled ++ act.settlement?.toList := by
  rcases step_cases h with ⟨i, outcome, ws₁, ws₂, rfl, hworkers, rfl⟩ | ⟨worker, i, outcome, ws₁, ws₂, rfl, hworkers, rfl⟩
  · rw [hworkers]
    exact ⟨by simp, rfl⟩
  · rw [hworkers]
    refine ⟨by simp, ?_⟩
    show (runWorker fn (items.drop s.nextIndex) (s.store i outcome)).1.settled = s.settled ++ []
    rw [(runWorker_frame _ _ _).2, List.append_nil]
    rfl

theorem settled_run {acts : List (MapAct β ε)} (h : Run (step fn items) Always s acts s') :
    s'.settled = s.settled ++ acts.filterMap MapAct.settlement? := by
  induction h with
  | nil s => exact (List.append_nil _).symm
  | @cons s s₁ s' act acts _ hstep _ ih =>
    rw [ih, (step_frame hstep).2, List.append_assoc]
    cases act <;> rfl

theorem length_workers_run {acts : List (MapAct β ε)}
    (h : Run (step fn items) Always (mapWithConcurrency fn items limit) acts s) :
    s.workers.length = workerCount items limit := by
  refine h.invariant (I := fun s => s.workers.length = workerCount items limit) (fun s act s' hs _ hstep => ?_) ?_
  · rw [(step_frame hstep).1, hs]
  · exact (startWorkers_frame _ _).1.trans (Nat.zero_add _)

/-! ### The promises that settle -/

namespace MapState

/-- What is left to do: two steps for a promise that has not settled, one if its worker has not gone on yet. -/
def rank (items : List α) (s : MapState α β ε) : Nat :=
  2 * (items.length - s.settled.length) + s.workers.countP Worker.resumes

theorem mem_inFlight {i : Nat} : i ∈ s.inFlight ↔ .awaiting i ∈ s.workers := by
  unfold inFlight
  rw [List.mem_filterMap]
  constructor
  · rintro ⟨w, hw, hi⟩
    cases w with
    | awaiting j =>
      obtain rfl : j = i := Option.some.inj hi
      exact hw
    | resuming j outcome => cases hi
    | returned result => cases hi
  · exact fun hi => ⟨_, hi, rfl⟩

theorem inFlight_sublist : s.inFlight.Sublist s.held := by
  unfold inFlight held
  induction s.workers with
  | nil => exact .slnil
  | cons w ws ih =>
    cases w with
    | awaiting i => exact ih.cons_cons i
    | resuming i outcome => exact ih.cons i
    | returned result => exact ih

end MapState

namespace Bookkeeping

theorem length_settled_le (h : Bookkeeping fn items s) : s.settled.length ≤ items.length := by
  have hsub : s.settled.map Prod.fst ⊆ List.range items.length := by
    intro i hi
    obtain ⟨p, hp, rfl⟩ := List.mem_map.1 hi
    have hlt := h.settledCalled p hp
    have hle := h.progress.le
    exact List.mem_range.2 (by omega)
  have hlength := (h.settledOnce.subperm hsub).length_le
  rwa [List.length_map, List.length_range] at hlength

theorem rank_step {act : MapAct β ε} (h : Bookkeeping fn items s) (hstep : Concurrency.step fn items s act = some s') :
    s'.rank items + 1 = s.rank items := by
  have hle := (h.step hstep).length_settled_le
  unfold MapState.rank
  rcases step_cases hstep with ⟨i, outcome, ws₁, ws₂, -, hworkers, rfl⟩ | ⟨worker, i, outcome, ws₁, ws₂, -, hworkers, rfl⟩
  · simp only [List.length_append, List.length_singleton] at hle
    simp only [hworkers, List.countP_append, List.countP_cons, List.length_append, List.length_singleton]
    simp [Worker.resumes]
    omega
  · have hsettled := (runWorker_frame fn (items.drop s.nextIndex) (s.store i outcome)).2
    have hw := resumes_runWorker fn (items.drop s.nextIndex) (s.store i outcome)
    generalize runWorker fn (items.drop s.nextIndex) (s.store i outcome) = r at hsettled hw ⊢
    have hsettled : r.1.settled = s.settled := hsettled
    simp only [hworkers, hsettled, List.countP_append, List.countP_cons, hw]
    simp [Worker.resumes]
    omega

theorem rank_run {acts : List (MapAct β ε)} (h : Bookkeeping fn items s)
    (hrun : Run (Concurrency.step fn items) Always s acts s') : s'.rank items + acts.length = s.rank items := by
  induction hrun with
  | nil s => rfl
  | cons _ hstep _ ih =>
    have hrest := ih (h.step hstep)
    have hone := h.rank_step hstep
    rw [List.length_cons]
    omega

/-- A call whose promise has not settled is awaited. -/
theorem awaiting_of_called {i : Nat} {item : α} (h : Bookkeeping fn items s) (hcall : (item, i) ∈ s.calls)
    (hpromise : fn item i = none) (hnot : ∀ outcome, (i, outcome) ∉ s.settled) : .awaiting i ∈ s.workers := by
  obtain ⟨hlt, hitem⟩ := h.progress.mem_calls.1 hcall
  have hheld : i ∈ s.held := by
    by_contra hi
    obtain ⟨item', outcome, hitem', -, hout⟩ := h.progress.done i hlt hi
    obtain rfl : item = item' := Option.some.inj (hitem.symm.trans hitem')
    rw [Outcome, hpromise] at hout
    exact hnot outcome hout
  obtain ⟨w, hw, hi⟩ := List.mem_filterMap.1 hheld
  cases w with
  | awaiting j =>
    obtain rfl : j = i := Option.some.inj hi
    exact hw
  | resuming j outcome =>
    obtain rfl : j = i := Option.some.inj hi
    exact absurd (h.resuming j outcome hw) (hnot outcome)
  | returned result => cases hi

end Bookkeeping

theorem promiseAll_error {ws : List (Worker β ε)} {reason : ε} (h : promiseAll ws = some (.error reason)) :
    .returned (.error reason) ∈ ws := by
  induction ws with
  | nil => cases h
  | cons w ws ih =>
    unfold promiseAll at h
    split at h
    · cases h
    · rename_i e ws' heq
      obtain ⟨rfl, rfl⟩ := List.cons.inj heq
      obtain rfl := Except.error.inj (Option.some.inj h)
      exact List.mem_cons_self
    · rename_i ws' heq
      obtain ⟨rfl, rfl⟩ := List.cons.inj heq
      exact List.mem_cons_of_mem _ (ih h)
    · rename_i w' ws' _ _ heq
      obtain ⟨rfl, rfl⟩ := List.cons.inj heq
      split at h
      · rename_i e hrest
        exact List.mem_cons_of_mem _ (ih (hrest.trans h))
      · cases h

theorem promiseAll_ok {ws : List (Worker β ε)} (h : promiseAll ws = some (.ok ())) :
    ∀ w ∈ ws, w = .returned (.ok ()) := by
  induction ws with
  | nil => exact nofun
  | cons w ws ih =>
    unfold promiseAll at h
    split at h
    · rename_i heq
      cases heq
    · cases h
    · rename_i ws' heq
      obtain ⟨rfl, rfl⟩ := List.cons.inj heq
      exact List.forall_mem_cons.2 ⟨rfl, ih h⟩
    · split at h <;> cases h

theorem promiseAll_none {ws : List (Worker β ε)} (h : promiseAll ws = none) : ∃ w ∈ ws, ∃ i, w.item? = some i := by
  induction ws with
  | nil => cases h
  | cons w ws ih =>
    cases w with
    | awaiting i => exact ⟨_, List.mem_cons_self, i, rfl⟩
    | resuming i outcome => exact ⟨_, List.mem_cons_self, i, rfl⟩
    | returned result =>
      cases result with
      | error e => cases h
      | ok u =>
        obtain ⟨w, hw, hi⟩ := ih h
        exact ⟨w, List.mem_cons_of_mem _ hw, hi⟩

/-- What `mapWithConcurrency` promises in a state that a run has reached. -/
structure Sound (fn : α → Nat → Option ε) (items : List α) (limit : Int) (acts : List (MapAct β ε)) (s : MapState α β ε) :
    Prop where
  /-- The calls are made for the items in order, each at most once. -/
  calls : s.calls <+: items.zipIdx
  settled : s.settled = acts.filterMap MapAct.settlement?
  settledOnce : (s.settled.map Prod.fst).Nodup
  inFlight : ∀ i, i ∈ s.inFlight ↔
    (∃ item, (item, i) ∈ s.calls ∧ fn item i = none) ∧ ∀ outcome, (i, outcome) ∉ s.settled
  withinLimit : s.inFlight.Nodup ∧ (s.inFlight.length : Int) ≤ max 1 limit
  /-- Every promise may settle next, in any way. -/
  anyOrder : ∀ i ∈ s.inFlight, ∀ outcome, (step fn items s (.settle i outcome)).isSome
  neverRejects : ∀ reason, s.answer ≠ some (.error reason)
  ends : s.answer = none → s.inFlight ≠ [] ∨ ∃ worker, (step fn items s (.resume worker)).isSome
  short : acts.length ≤ 2 * items.length
  outcomes : ∀ results, s.answer = some (.ok results) → s.calls = items.zipIdx ∧ results.length = items.length ∧
    ∀ i item, items[i]? = some item → ∃ outcome, results[i]? = some (some outcome) ∧ Outcome fn s.settled item i outcome

/-- Whatever `fn` does and in whatever order its promises settle: every item is processed once, with at most the limit
of calls in flight, and the result is fulfilled with the outcomes of the items. -/
theorem mapWithConcurrency_sound (fn : α → Nat → Option ε) (items : List α) (limit : Int) (acts : List (MapAct β ε))
    (s : MapState α β ε) (h : Run (step fn items) Always (mapWithConcurrency fn items limit) acts s) :
    Sound fn items limit acts s := by
  have hbook := Bookkeeping.of_run h
  have hstart : (mapWithConcurrency fn items limit : MapState α β ε).settled = [] := (startWorkers_frame _ _).2
  have hsettled : s.settled = acts.filterMap MapAct.settlement? := by
    rw [settled_run h, hstart, List.nil_append]
  have hlength := length_workers_run h
  have hcount : 0 < workerCount items limit ∧ (workerCount items limit : Int) ≤ max 1 limit := by
    unfold workerCount
    omega
  refine ⟨?_, hsettled, hbook.settledOnce, fun i => ?_, ⟨?_, ?_⟩, fun i hi outcome => ?_, fun reason hreason => ?_,
    fun hnone => ?_, ?_, fun results hresults => ?_⟩
  · rw [hbook.progress.calls]
    exact List.take_prefix _ _
  · rw [MapState.mem_inFlight]
    constructor
    · intro hi
      obtain ⟨item, hitem, hpromise⟩ := hbook.promised _ hi i rfl
      have hlt := hbook.progress.called i (List.mem_filterMap.2 ⟨_, hi, rfl⟩)
      exact ⟨⟨item, hbook.progress.mem_calls.2 ⟨hlt, hitem⟩, hpromise⟩, hbook.unsettled i hi⟩
    · rintro ⟨⟨item, hcall, hpromise⟩, hnot⟩
      exact hbook.awaiting_of_called hcall hpromise hnot
  · exact MapState.inFlight_sublist.nodup hbook.progress.nodup
  · have hle : s.inFlight.length ≤ s.workers.length := List.length_filterMap_le _ _
    omega
  · have hany : s.workers.any (·.awaits i) = true :=
      List.any_eq_true.2 ⟨_, MapState.mem_inFlight.1 hi, Worker.awaits_iff.2 rfl⟩
    simp only [step, Option.isSome_map, List.findIdx?_isSome, hany]
  · simp only [MapState.answer, Option.map_eq_some_iff] at hreason
    obtain ⟨result, hall, herror⟩ := hreason
    cases result with
    | error e => cases (hbook.returned _ (promiseAll_error hall)).1
    | ok u => cases herror
  · rw [MapState.answer, Option.map_eq_none_iff] at hnone
    obtain ⟨w, hw, i, hi⟩ := promiseAll_none hnone
    cases w with
    | awaiting j => exact .inl (List.ne_nil_of_mem (MapState.mem_inFlight.2 hw))
    | resuming j outcome =>
      obtain ⟨worker, hworker⟩ := List.mem_iff_getElem?.1 hw
      refine .inr ⟨worker, ?_⟩
      simp only [step, hworker, Option.isSome_some]
    | returned result => cases hi
  · have hbegin : Bookkeeping fn items (mapWithConcurrency fn items limit : MapState α β ε) := Bookkeeping.initial.startWorkers _
    have hrank := hbegin.rank_run h
    have hzero : (mapWithConcurrency fn items limit : MapState α β ε).workers.countP Worker.resumes = 0 := by
      rw [List.countP_eq_zero]
      intro w hw hresumes
      cases w with
      | resuming i outcome =>
        have hi := hbegin.resuming i outcome hw
        rw [hstart] at hi
        cases hi
      | awaiting i => cases hresumes
      | returned result => cases hresumes
    simp only [MapState.rank, hzero, hstart, List.length_nil] at hrank
    omega
  · simp only [MapState.answer, Option.map_eq_some_iff] at hresults
    obtain ⟨result, hall, hok⟩ := hresults
    cases result with
    | error e => cases hok
    | ok u =>
      obtain rfl : s.results = results := Except.ok.inj hok
      have hreturned := promiseAll_ok hall
      have hend : s.nextIndex = items.length := by
        obtain ⟨w, hw⟩ := List.exists_mem_of_length_pos (hlength ▸ hcount.1)
        exact (hbook.returned _ (hreturned w hw ▸ hw)).2
      refine ⟨?_, hbook.progress.length, fun i item hitem => ?_⟩
      · rw [hbook.progress.calls, hend, List.take_of_length_le (by simp)]
      · have hlt : i < s.nextIndex := by
          rw [hend]
          exact (List.getElem?_eq_some_iff.1 hitem).1
        have hnot : i ∉ s.held := by
          intro hi
          obtain ⟨w, hw, hat⟩ := List.mem_filterMap.1 hi
          rw [hreturned w hw] at hat
          cases hat
        obtain ⟨item', outcome, hitem', hresult, hout⟩ := hbook.progress.done i hlt hnot
        obtain rfl : item = item' := Option.some.inj (hitem.symm.trans hitem')
        exact ⟨outcome, hresult, hout⟩

/-- The call for the second of three items throws, and the promises of the others settle in the order of the list, the
last one with an error. -/
theorem mapWithConcurrency_sound_three : ∃ s : MapState Nat String String,
    Run (step (fun item _ => if item = 20 then some "bad" else none) [10, 20, 30]) Always
      (mapWithConcurrency (fun item _ => if item = 20 then some "bad" else none) [10, 20, 30] 2)
      [.settle 0 (.ok "ten"), .settle 2 (.error "down"), .resume 1, .resume 0] s ∧
    s.answer = some (.ok [some (.ok "ten"), some (.error "bad"), some (.error "down")]) ∧
    Sound (fun item _ => if item = 20 then some "bad" else none) [10, 20, 30] 2
      [.settle 0 (.ok "ten"), .settle 2 (.error "down"), .resume 1, .resume 0] s := by
  obtain ⟨s, hs, hanswer⟩ : ∃ s : MapState Nat String String,
      runChecked (step (fun item _ => if item = 20 then some "bad" else none) [10, 20, 30]) Always
        (mapWithConcurrency (fun item _ => if item = 20 then some "bad" else none) [10, 20, 30] 2)
        [.settle 0 (.ok "ten"), .settle 2 (.error "down"), .resume 1, .resume 0] = some s ∧
      s.answer = some (.ok [some (.ok "ten"), some (.error "bad"), some (.error "down")]) := ⟨_, rfl, rfl⟩
  have hrun := Run.of_runChecked hs
  exact ⟨s, hrun, hanswer, mapWithConcurrency_sound _ _ _ _ s hrun⟩

end CubridWebManager.Concurrency
