import CubridWebManager.Lib.LastWriter
import CubridWebManager.Lib.Run
import Mathlib.Data.Nat.Basic
import Mathlib.Logic.Function.Basic

/-!
# The views of a host's lists

What a slice keeps of the lists of a host: the live lists, the lists of the navigator, each with the number of the newest
answer it took, and the reads that are pending on the host's connection.  A slice is given by its reducers, and
`Slice.Meets` says that they do to the views what is said here.

The system around it hands out the numbers: a read takes the one with which its request was sent, by itself or by another
read, an action's result takes one when it returns, and each is settled at any time later.
-/

namespace CubridWebManager.ListViews

open LastWriter

/-! ### The views -/

structure HostViews (L : Type) where
  live : Register Nat L
  navigator : Register Nat L
  /-- `{ requestId: foreground }`; each request has an id of its own. -/
  reads : List (Nat × Bool)
  loading : Bool

inductive Answer (L : Type)
  | lists (lists : L)
  | failed

/-- The lists that are not there, the empty ones, and whether a failed background read empties the live ones. -/
structure Policy (L : Type) where
  absent : L
  empty : L
  backgroundFailure : Bool

namespace Policy

variable {L : Type} (policy : Policy L)

/-- What a settled read makes of the live lists, if it may. -/
def live (isBackground : Bool) : Answer L → Option L
  | .lists lists => some lists
  | .failed => if isBackground && !policy.backgroundFailure then none else some policy.empty

/-- A background read never moves the navigator. -/
def navigator (isBackground : Bool) : Answer L → Option L
  | .lists lists => if isBackground then none else some lists
  | .failed => if isBackground then none else some policy.empty

end Policy

namespace HostViews

variable {L : Type} (v : HostViews L)

def closed (policy : Policy L) (seq : Nat) : HostViews L := ⟨⟨seq, policy.absent⟩, ⟨seq, policy.absent⟩, [], false⟩

def pending (requestId : Nat) (foreground : Bool) : HostViews L :=
  { v with reads := (requestId, foreground) :: v.reads, loading := foreground || v.loading }

def receive (policy : Policy L) (seq : Nat) (isBackground : Bool) (answer : Answer L) : HostViews L :=
  { v with
    live := ((policy.live isBackground answer).map (v.live.offer seq)).getD v.live
    navigator := ((policy.navigator isBackground answer).map (v.navigator.offer seq)).getD v.navigator }

/-- The read is no longer pending. -/
def unpend (requestId : Nat) (foreground : Bool) : HostViews L :=
  let reads := v.reads.filter (·.1 ≠ requestId)
  { v with reads := reads, loading := if foreground then reads.any (·.2) else v.loading }

/-- A read that is settled, if it belongs to the connection. -/
def settle (policy : Policy L) (requestId seq : Nat) (isBackground : Bool) (answer : Answer L) : HostViews L :=
  match v.reads.lookup requestId with
  | some foreground => (v.unpend requestId foreground).receive policy seq isBackground answer
  | none => v

end HostViews

/-! ### A slice -/

/-- The reducers of a slice `S`, for hosts `H`, whose reads answer with a payload `P` and whose actions return a
result `R`; those of the actions `O` do not touch the views. -/
structure Slice (H S P R O : Type) where
  init : S
  pending : S → (hostUid : H) → (requestId : Nat) → (isBackground : Bool) → S
  fulfilled : S → (hostUid : H) → (requestId : Nat) → (isBackground : Bool) → P → (seq : Nat) → S
  rejected : S → (hostUid : H) → (requestId : Nat) → (isBackground : Bool) → (seq : Nat) → S
  applied : S → R → (seq : Nat) → S
  closeHostTabs : S → (hostUid : H) → (seq : Nat) → S
  other : S → O → S

/-- How the views are read off the slice, and the lists off an answer that carries them. -/
structure Reading (H S P R L : Type) where
  views : S → H → HostViews L
  policy : Policy L
  lists : P → Option L
  hostUid : R → H
  resultLists : R → Option L

/-- The reducers do to the views of the host what is said above, and nothing to those of other hosts; a settled read that
is not pending does nothing at all. -/
structure Slice.Meets {H S P R O L : Type} [DecidableEq H] (slice : Slice H S P R O) (reading : Reading H S P R L) :
    Prop where
  init : reading.views slice.init = fun _ => .closed reading.policy 0
  pending : ∀ s hostUid requestId isBackground, reading.views (slice.pending s hostUid requestId isBackground) =
    Function.update (reading.views s) hostUid ((reading.views s hostUid).pending requestId (!isBackground))
  fulfilled : ∀ s hostUid requestId isBackground payload seq lists, reading.lists payload = some lists →
    reading.views (slice.fulfilled s hostUid requestId isBackground payload seq) =
      Function.update (reading.views s) hostUid
        ((reading.views s hostUid).settle reading.policy requestId seq isBackground (.lists lists))
  rejected : ∀ s hostUid requestId isBackground seq,
    reading.views (slice.rejected s hostUid requestId isBackground seq) =
      Function.update (reading.views s) hostUid
        ((reading.views s hostUid).settle reading.policy requestId seq isBackground .failed)
  fulfilled_stale : ∀ s hostUid requestId isBackground payload seq,
    (reading.views s hostUid).reads.lookup requestId = none → slice.fulfilled s hostUid requestId isBackground payload seq = s
  rejected_stale : ∀ s hostUid requestId isBackground seq, (reading.views s hostUid).reads.lookup requestId = none →
    slice.rejected s hostUid requestId isBackground seq = s
  applied : ∀ s result seq lists, reading.resultLists result = some lists →
    reading.views (slice.applied s result seq) = Function.update (reading.views s) (reading.hostUid result)
      ((reading.views s (reading.hostUid result)).receive reading.policy seq false (.lists lists))
  closeHostTabs : ∀ s hostUid seq, reading.views (slice.closeHostTabs s hostUid seq) =
    Function.update (reading.views s) hostUid (.closed reading.policy seq)
  other : ∀ s action, reading.views (slice.other s action) = reading.views s

/-- An answer that the views of a host receive after a change to them. -/
theorem update_receive {H L : Type} [DecidableEq H] {views views' : H → HostViews L} {hostUid : H} {v : HostViews L}
    (h : views' = Function.update views hostUid v) (policy : Policy L) (seq : Nat) (isBackground : Bool)
    (answer : Answer L) :
    Function.update views' hostUid ((views' hostUid).receive policy seq isBackground answer) =
      Function.update views hostUid (v.receive policy seq isBackground answer) := by
  rw [h, Function.update_self, Function.update_idem]

/-! ### The system -/

/-- A read, from its pending action to the settled one, or the result of an action, from its return to its action. -/
structure Task (H R : Type) where
  hostUid : H
  isBackground : Bool
  /-- The number of a read that is sent, or of a result. -/
  seq : Option Nat
  result : Option R
  /-- The host was closed since. -/
  stale : Bool

structure State (H S R L : Type) where
  slice : S
  lastSeq : Nat
  /-- The numbers that were handed out and that nothing has taken. -/
  unclaimed : List Nat
  nextTask : Nat
  tasks : Nat → Option (Task H R)
  /-- What the answers since the start offered to each view of each host. -/
  liveOffers : H → List (Nat × L)
  navigatorOffers : H → List (Nat × L)

inductive Act (H P R O : Type)
  | nextSeq
  | pending (hostUid : H) (isBackground : Bool)
  /-- The read has a request, its own or one that was sent before. -/
  | launch (id seq : Nat)
  | fulfilled (id : Nat) (payload : P)
  | rejected (id : Nat)
  | returned (result : R) (seq : Nat)
  | applied (id : Nat)
  | closeHostTabs (hostUid : H)
  | other (action : O)

/-- The task, when the host is closed. -/
def Task.close {H R : Type} [DecidableEq H] (task : Task H R) (hostUid : H) : Task H R :=
  if task.hostUid = hostUid ∧ task.result.isNone = true then { task with stale := true } else task

/-- The task is a read that was sent. -/
def Task.sent {H R : Type} (task : Task H R) : Option Nat := if task.result.isNone then task.seq else none

namespace State

variable {H S P R L : Type} [DecidableEq H] (reading : Reading H S P R L) (s : State H S R L)

def addTask (task : Task H R) : State H S R L :=
  { s with nextTask := s.nextTask + 1, tasks := Function.update s.tasks s.nextTask (some task) }

def removeTask (id : Nat) : State H S R L := { s with tasks := Function.update s.tasks id none }

def addOffers (hostUid : H) (seq : Nat) (live navigator : Option L) : State H S R L :=
  { s with
    liveOffers := Function.update s.liveOffers hostUid ((live.map (Prod.mk seq)).toList ++ s.liveOffers hostUid)
    navigatorOffers :=
      Function.update s.navigatorOffers hostUid ((navigator.map (Prod.mk seq)).toList ++ s.navigatorOffers hostUid) }

/-- The answer to a read of a connection that is still there is one of the offers. -/
def answered (task : Task H R) (seq : Nat) (answer : Option (Answer L)) : State H S R L :=
  match answer with
  | some answer =>
    if task.stale then s
    else
      s.addOffers task.hostUid seq (reading.policy.live task.isBackground answer)
        (reading.policy.navigator task.isBackground answer)
  | none => s

end State

variable {H S P R O L : Type} [DecidableEq H]

def Slice.start (slice : Slice H S P R O) : State H S R L :=
  ⟨slice.init, 0, [], 0, fun _ => none, fun _ => [], fun _ => []⟩

def step (slice : Slice H S P R O) (reading : Reading H S P R L) (s : State H S R L) :
    Act H P R O → Option (State H S R L)
  | .nextSeq => some { s with lastSeq := s.lastSeq + 1, unclaimed := (s.lastSeq + 1) :: s.unclaimed }
  | .pending hostUid isBackground =>
    some ({ s with slice := slice.pending s.slice hostUid s.nextTask isBackground }.addTask
      ⟨hostUid, isBackground, none, none, false⟩)
  | .launch id seq =>
    match s.tasks id with
    | some task =>
      if task.seq.isNone = true ∧ seq ∈ s.unclaimed then
        some { s with
          unclaimed := s.unclaimed.erase seq
          tasks := Function.update s.tasks id (some { task with seq := some seq }) }
      else none
    | none => none
  | .fulfilled id payload =>
    match s.tasks id with
    | some task =>
      task.sent.map fun seq =>
        { (s.removeTask id).answered reading task seq ((reading.lists payload).map .lists) with
          slice := slice.fulfilled s.slice task.hostUid id task.isBackground payload seq }
    | none => none
  | .rejected id =>
    match s.tasks id with
    | some task =>
      task.sent.map fun seq =>
        { (s.removeTask id).answered reading task seq (some .failed) with
          slice := slice.rejected s.slice task.hostUid id task.isBackground seq }
    | none => none
  | .returned result seq =>
    if seq ∈ s.unclaimed then
      some ({ s with unclaimed := s.unclaimed.erase seq }.addTask
        ⟨reading.hostUid result, false, some seq, some result, false⟩)
    else none
  | .applied id =>
    match s.tasks id with
    | some ⟨_, _, some seq, some result, _⟩ =>
      some { ((s.removeTask id).addOffers (reading.hostUid result) seq
          (reading.resultLists result) (reading.resultLists result)) with
        slice := slice.applied s.slice result seq }
    | _ => none
  | .closeHostTabs hostUid =>
    some { s.addOffers hostUid (s.lastSeq + 1) (some reading.policy.absent) (some reading.policy.absent) with
      slice := slice.closeHostTabs s.slice hostUid (s.lastSeq + 1)
      lastSeq := s.lastSeq + 1
      tasks := fun id => (s.tasks id).map (·.close hostUid) }
  | .other action => some { s with slice := slice.other s.slice action }

/-- An answer that is applied carries both lists. -/
def Carries (reading : Reading H S P R L) (s : State H S R L) : Act H P R O → Prop
  | .fulfilled _ payload => (reading.lists payload).isSome = true
  | .applied id => ((s.tasks id).bind Task.result).all (fun result => (reading.resultLists result).isSome) = true
  | _ => True

instance (reading : Reading H S P R L) : ∀ (s : State H S R L) (a : Act H P R O), Decidable (Carries reading s a)
  | _, .fulfilled .. | _, .applied _ => inferInstanceAs (Decidable (_ = true))
  | _, .nextSeq | _, .pending .. | _, .launch .. | _, .rejected _ | _, .returned .. | _, .closeHostTabs _
  | _, .other _ => isTrue trivial

end CubridWebManager.ListViews
