import CubridWebManager.Lib.PromiseQueue
import Mathlib.Data.List.Induction
import Mathlib.Data.List.Nodup

/-!
# Updates of a store that is read and written whole

A store holds objects that can only be read and written whole.  An operation joins the queue of its key, if it has one,
reads its object, computes from that what it writes, has it written and leaves the queue; an operation that writes
blindly does not read.  The store carries out a request at some time while the operation waits for the answer; whatever
an operation waits for may fail, and the answer to a request that was carried out may be lost.

`Exclusive` is the condition that makes the operations safe: when the store carries out a write, no other operation has
read the object and not written it yet, but for those that are in the queue of the same key.
-/

/-- The operations on a store. -/
structure UpdateProtocol (Op κ ι Content View Request : Type*) where
  /-- The queue that the operation joins. -/
  key? : Op → Option κ
  object : Op → ι
  /-- What the operation writes if it does not read. -/
  blind? : Op → Option Request
  /-- What a read of an object answers. -/
  view : ι → Content → View
  /-- What the operation writes: `none` if it throws, and `some none` if there is nothing to write. -/
  edit : Op → View → Option (Option Request)
  /-- What a write makes of an object. -/
  apply : ι → Content → Request → Content

namespace ReadModifyWrite

open PromiseQueue

variable {Op κ ι Content View Request : Type*}

/-- How an operation ended; `lost` if it threw although its write was carried out. -/
inductive Result
  | failed
  | lost
  | unchanged
  | written
  deriving DecidableEq

/-- What an operation that is not in a queue, or whose turn it is, waits for. -/
inductive Phase (View Request : Type*)
  | entered
  | asked
  | answered (view : View)
  | sent (view? : Option View) (request : Request)
  | stored
  | leaving (result : Result)
  deriving DecidableEq

inductive Pc (Op κ View Request : Type*)
  | idle
  /-- It waits for what tells it its key. -/
  | called (op : Op)
  | queued (op : Op) (seat : Seat κ)
  | running (op : Op) (seat : Option (Seat κ)) (phase : Phase View Request)
  | done (op : Op) (result : Result)
  deriving DecidableEq

/-- A write that the store has carried out. -/
structure Write (Op Request : Type*) where
  thread : Nat
  op : Op
  request : Request

structure State (Op κ ι Content View Request : Type*) where
  threads : Nat → Pc Op κ View Request
  nextThread : Nat
  queue : PromiseQueue κ
  contents : ι → Content
  /-- The writes that were carried out, the last one at the end. -/
  history : List (Write Op Request)

/-- Nothing has been called. -/
def start (contents : ι → Content) : State Op κ ι Content View Request := ⟨fun _ => .idle, 0, .empty, contents, []⟩

inductive Act (Op : Type*)
  | call (op : Op)
  /-- What the thread waits for is there. -/
  | resume (thread : Nat)
  /-- The store carries out the request of the thread. -/
  | serve (thread : Nat)
  /-- What the thread waits for fails. -/
  | fail (thread : Nat)

section step

def State.setPc (s : State Op κ ι Content View Request) (t : Nat) (pc : Pc Op κ View Request) :
    State Op κ ι Content View Request :=
  { s with threads := Function.update s.threads t pc }

/-- What an operation does after what it waited for. -/
def resumePhase [DecidableEq κ] (P : UpdateProtocol Op κ ι Content View Request)
    (s : State Op κ ι Content View Request) (t : Nat) (op : Op) (seat : Option (Seat κ)) :
    Phase View Request → Option (State Op κ ι Content View Request)
  | .entered =>
    match P.blind? op with
    | some request => some (s.setPc t (.running op seat (.sent none request)))
    | none => some (s.setPc t (.running op seat .asked))
  | .answered view =>
    match P.edit op view with
    | none => some (s.setPc t (.running op seat (.leaving .failed)))
    | some none => some (s.setPc t (.running op seat (.leaving .unchanged)))
    | some (some request) => some (s.setPc t (.running op seat (.sent (some view) request)))
  | .stored => some (s.setPc t (.running op seat (.leaving .written)))
  | .leaving result => some ({ s with queue := seat.elim s.queue s.queue.leave }.setPc t (.done op result))
  | .asked | .sent _ _ => none

def resume [DecidableEq κ] (P : UpdateProtocol Op κ ι Content View Request) (s : State Op κ ι Content View Request)
    (t : Nat) : Option (State Op κ ι Content View Request) :=
  match s.threads t with
  | .called op =>
    match P.key? op with
    | some k => some ({ s with queue := s.queue.join k }.setPc t (.queued op (s.queue.seatFor k)))
    | none => some (s.setPc t (.running op none .entered))
  | .queued op seat => if s.queue.ready seat then some (s.setPc t (.running op (some seat) .entered)) else none
  | .running op seat phase => resumePhase P s t op seat phase
  | .idle | .done _ _ => none

def serve [DecidableEq ι] (P : UpdateProtocol Op κ ι Content View Request) (s : State Op κ ι Content View Request)
    (t : Nat) : Option (State Op κ ι Content View Request) :=
  match s.threads t with
  | .running op seat .asked =>
    some (s.setPc t (.running op seat (.answered (P.view (P.object op) (s.contents (P.object op))))))
  | .running op seat (.sent _ request) =>
    let content := P.apply (P.object op) (s.contents (P.object op)) request
    some ({ s with
      contents := Function.update s.contents (P.object op) content
      history := s.history ++ [Write.mk t op request] }.setPc t (.running op seat .stored))
  | _ => none

def fail (s : State Op κ ι Content View Request) (t : Nat) : Option (State Op κ ι Content View Request) :=
  match s.threads t with
  | .called op => some (s.setPc t (.done op .failed))
  | .running op seat .stored => some (s.setPc t (.running op seat (.leaving .lost)))
  | .running _ _ (.leaving _) => none
  | .running op seat _ => some (s.setPc t (.running op seat (.leaving .failed)))
  | _ => none

def step [DecidableEq κ] [DecidableEq ι] (P : UpdateProtocol Op κ ι Content View Request)
    (s : State Op κ ι Content View Request) : Act Op → Option (State Op κ ι Content View Request)
  | .call op => some ({ s with nextThread := s.nextThread + 1 }.setPc s.nextThread (.called op))
  | .resume t => resume P s t
  | .serve t => serve P s t
  | .fail t => fail s t

end step

/-! ### What a step can do -/

section moves

variable (P : UpdateProtocol Op κ ι Content View Request)

/-- A thread goes on, and nothing else changes. -/
inductive Quiet (s : State Op κ ι Content View Request) : Pc Op κ View Request → Pc Op κ View Request → Prop
  | refuse {op : Op} : Quiet s (.called op) (.done op .failed)
  | unqueued {op : Op} (hkey : P.key? op = none) : Quiet s (.called op) (.running op none .entered)
  | enter {op : Op} {seat : Seat κ} (hready : s.queue.ready seat = true) :
    Quiet s (.queued op seat) (.running op (some seat) .entered)
  | blind {op : Op} {seat : Option (Seat κ)} {request : Request} (hblind : P.blind? op = some request) :
    Quiet s (.running op seat .entered) (.running op seat (.sent none request))
  | ask {op : Op} {seat : Option (Seat κ)} (hblind : P.blind? op = none) :
    Quiet s (.running op seat .entered) (.running op seat .asked)
  | answer {op : Op} {seat : Option (Seat κ)} : Quiet s (.running op seat .asked)
    (.running op seat (.answered (P.view (P.object op) (s.contents (P.object op)))))
  | edit {op : Op} {seat : Option (Seat κ)} {view : View} {request : Request}
    (hedit : P.edit op view = some (some request)) :
    Quiet s (.running op seat (.answered view)) (.running op seat (.sent (some view) request))
  | keep {op : Op} {seat : Option (Seat κ)} {view : View} (hedit : P.edit op view = some none) :
    Quiet s (.running op seat (.answered view)) (.running op seat (.leaving .unchanged))
  | throw {op : Op} {seat : Option (Seat κ)} {phase : Phase View Request} (hstored : phase ≠ .stored)
    (hleaving : ∀ result, phase ≠ .leaving result) :
    Quiet s (.running op seat phase) (.running op seat (.leaving .failed))
  | finish {op : Op} {seat : Option (Seat κ)} :
    Quiet s (.running op seat .stored) (.running op seat (.leaving .written))
  | lose {op : Op} {seat : Option (Seat κ)} : Quiet s (.running op seat .stored) (.running op seat (.leaving .lost))

variable [DecidableEq κ] [DecidableEq ι]

/-- The kinds of steps. -/
inductive Moves (s : State Op κ ι Content View Request) : Act Op → State Op κ ι Content View Request → Prop
  | call (op : Op) : Moves s (.call op) ({ s with nextThread := s.nextThread + 1 }.setPc s.nextThread (.called op))
  | quiet {a : Act Op} {t : Nat} {pc : Pc Op κ View Request} (hquiet : Quiet P s (s.threads t) pc)
    (hlost : ∀ op seat, pc = .running op seat (.leaving .lost) → a = .fail t) : Moves s a (s.setPc t pc)
  | join {t : Nat} {op : Op} {k : κ} (hpc : s.threads t = .called op) (hkey : P.key? op = some k) :
    Moves s (.resume t) ({ s with queue := s.queue.join k }.setPc t (.queued op (s.queue.seatFor k)))
  | leave {t : Nat} {op : Op} {seat : Option (Seat κ)} {result : Result}
    (hpc : s.threads t = .running op seat (.leaving result)) :
    Moves s (.resume t) ({ s with queue := seat.elim s.queue s.queue.leave }.setPc t (.done op result))
  | write {t : Nat} {op : Op} {seat : Option (Seat κ)} {view? : Option View} {request : Request}
    (hpc : s.threads t = .running op seat (.sent view? request)) :
    Moves s (.serve t) ({ s with
      contents := Function.update s.contents (P.object op) (P.apply (P.object op) (s.contents (P.object op)) request)
      history := s.history ++ [Write.mk t op request] }.setPc t (.running op seat .stored))

variable {P} {s s' : State Op κ ι Content View Request} {a : Act Op}

theorem moves_resume {t : Nat} (h : resume P s t = some s') : Moves P s (.resume t) s' := by
  unfold resume at h
  split at h
  · rename_i op hpc
    split at h <;> obtain rfl := Option.some.inj h
    · rename_i k hkey
      exact .join hpc hkey
    · rename_i hkey
      exact .quiet (hpc ▸ .unqueued hkey) nofun
  · rename_i op seat hpc
    split at h
    · rename_i hready
      obtain rfl := Option.some.inj h
      exact .quiet (hpc ▸ .enter hready) nofun
    · cases h
  · rename_i op seat phase hpc
    unfold resumePhase at h
    split at h
    · split at h <;> obtain rfl := Option.some.inj h
      · rename_i request hblind
        exact .quiet (hpc ▸ .blind hblind) nofun
      · rename_i hblind
        exact .quiet (hpc ▸ .ask hblind) nofun
    · split at h <;> obtain rfl := Option.some.inj h
      · exact .quiet (hpc ▸ .throw nofun nofun) nofun
      · rename_i hedit
        exact .quiet (hpc ▸ .keep hedit) nofun
      · rename_i request hedit
        exact .quiet (hpc ▸ .edit hedit) nofun
    · obtain rfl := Option.some.inj h
      exact .quiet (hpc ▸ .finish) nofun
    · obtain rfl := Option.some.inj h
      exact .leave hpc
    · cases h
    · cases h
  · cases h
  · cases h

theorem moves_serve {t : Nat} (h : serve P s t = some s') : Moves P s (.serve t) s' := by
  unfold serve at h
  split at h
  · rename_i op seat hpc
    obtain rfl := Option.some.inj h
    exact .quiet (hpc ▸ .answer) nofun
  · rename_i op seat view? request hpc
    obtain rfl := Option.some.inj h
    exact .write hpc
  · cases h

theorem moves_fail {t : Nat} (h : fail s t = some s') : Moves P s (.fail t) s' := by
  unfold fail at h
  split at h
  · rename_i op hpc
    obtain rfl := Option.some.inj h
    exact .quiet (hpc ▸ .refuse) nofun
  · rename_i op seat hpc
    obtain rfl := Option.some.inj h
    exact .quiet (hpc ▸ .lose) fun _ _ _ => rfl
  · cases h
  · rename_i op seat phase hstored hleaving hpc
    obtain rfl := Option.some.inj h
    exact .quiet (hpc ▸ .throw hstored hleaving) nofun
  · cases h

theorem step_moves (h : step P s a = some s') : Moves P s a s' := by
  cases a with
  | call op =>
    obtain rfl := Option.some.inj h
    exact .call op
  | resume t => exact moves_resume h
  | serve t => exact moves_serve h
  | fail t => exact moves_fail h

end moves

end ReadModifyWrite
