import CubridWebManager.Lib.Run
import Mathlib.Logic.Function.Basic

/-!
# Shared reads

`createSharedReads` shares the reads of a key: an ordinary read joins the one in flight, a `fresh` one waits for it and
shares the next.  The keys, and the values and errors of the runs, are arbitrary.

A promise is given by the run whose outcome it takes.  That of a queued read has none until the promise before it is
settled, and then launches one.  The first reaction on every promise is the one that `track` adds, which updates the
entry of its key; the launch of the next run and the callers' reactions come after it.
-/

namespace CubridWebManager.SharedReads

variable {κ V E : Type}

/-- `{ ok: true, value, seq }` or `{ ok: false, error, seq }`. -/
inductive ReadResult (V E : Type)
  | ok (value : V) (seq : Nat)
  | failed (error : E) (seq : Nat)
  deriving DecidableEq

/-- How a promise is settled. -/
inductive Settled (V E : Type)
  | fulfilled (result : ReadResult V E)
  | rejected (error : E)
  deriving DecidableEq

/-- A request that is sent, from `launch` to the settling of what `run(seq)` returns. -/
structure Launched (κ V E : Type) where
  key : κ
  seq : Nat
  called : Bool
  outcome : Option (Except E V)

/-- `.then((value) => ({ ok: true, value, seq }), (error) => ({ ok: false, error, seq }))` -/
def Launched.settled (r : Launched κ V E) : Option (Settled V E) :=
  r.outcome.map fun outcome =>
    match outcome with
    | .ok value => .fulfilled (.ok value r.seq)
    | .error error => .fulfilled (.failed error r.seq)

structure Promise (κ V E : Type) where
  key : κ
  /-- The promise whose `then` it is, if it was queued. -/
  previous : Option Nat
  /-- The run whose outcome it takes, once there is one. -/
  run : Option Nat
  state : Option (Settled V E)
  /-- The reaction of `track` has not run yet. -/
  tracked : Bool

structure Entry where
  current : Nat
  next : Option Nat
  deriving DecidableEq

/-- A call of the function that `createSharedReads` returns. -/
structure Request (κ V E : Type) where
  key : κ
  fresh : Bool
  /-- The promise it was given. -/
  promise : Nat
  /-- What its caller was told. -/
  result : Option (Settled V E)
  /-- When it was made: the promise that was current, the runs launched and the last number handed out. -/
  current : Option Nat
  runsBefore : Nat
  seqBefore : Nat

structure State (κ V E : Type) where
  lastSeq : Nat
  entries : κ → Option Entry
  nextRun : Nat
  runs : Nat → Launched κ V E
  nextPromise : Nat
  promises : Nat → Promise κ V E
  nextRequest : Nat
  requests : Nat → Request κ V E

/-- Nothing has been read; `key` fills the places that are not in use. -/
def State.fresh (key : κ) : State κ V E where
  lastSeq := 0
  entries _ := none
  nextRun := 0
  runs _ := ⟨key, 0, false, none⟩
  nextPromise := 0
  promises _ := ⟨key, none, none, none, false⟩
  nextRequest := 0
  requests _ := ⟨key, false, 0, none, none, 0, 0⟩

/-! ### The steps -/

inductive Act (κ V E : Type)
  /-- A number is handed out to something else. -/
  | nextSeq
  | request (key : κ) (fresh : Bool)
  /-- `run(seq)` is called. -/
  | call (r : Nat)
  /-- What `run(seq)` returned is settled. -/
  | finish (r : Nat) (outcome : Except E V)
  /-- The promise takes the outcome of its run, or the rejection of the promise before it. -/
  | resolve (p : Nat)
  /-- The reaction of `track`. -/
  | settle (p : Nat)
  /-- The reaction that launches the run of a queued promise. -/
  | launch (p : Nat)
  /-- The caller of a request goes on. -/
  | deliver (q : Nat)

namespace State

variable (s : State κ V E)

def setRun (r : Nat) (run : Launched κ V E) : State κ V E :=
  { s with runs := Function.update s.runs r run }

def setPromise (p : Nat) (promise : Promise κ V E) : State κ V E :=
  { s with promises := Function.update s.promises p promise }

def setRequest (q : Nat) (request : Request κ V E) : State κ V E :=
  { s with requests := Function.update s.requests q request }

/-- The promise, with a run launched for it. -/
def launch (p : Nat) (promise : Promise κ V E) : State κ V E :=
  { s with
    lastSeq := s.lastSeq + 1
    nextRun := s.nextRun + 1
    runs := Function.update s.runs s.nextRun ⟨promise.key, s.lastSeq + 1, false, none⟩ }.setPromise p
      { promise with run := some s.nextRun }

/-- The first read of the key. -/
def readFirst [DecidableEq κ] (key : κ) : State κ V E :=
  { s.launch s.nextPromise ⟨key, none, none, none, true⟩ with
    nextPromise := s.nextPromise + 1
    entries := Function.update s.entries key (some ⟨s.nextPromise, none⟩) }

/-- `entry.next = track(key, entry.current.then(() => launch(run)))` -/
def queueRead [DecidableEq κ] (key : κ) (current : Nat) : State κ V E :=
  { s.setPromise s.nextPromise ⟨key, some current, none, none, true⟩ with
    nextPromise := s.nextPromise + 1
    entries := Function.update s.entries key (some ⟨current, some s.nextPromise⟩) }

/-- The request gets the promise. -/
def give (request : Request κ V E) : State κ V E :=
  { s with
    nextRequest := s.nextRequest + 1
    requests := Function.update s.requests s.nextRequest request }

def request [DecidableEq κ] (key : κ) (fresh : Bool) : State κ V E :=
  let given (promise : Nat) : Request κ V E :=
    ⟨key, fresh, promise, none, (s.entries key).map Entry.current, s.nextRun, s.lastSeq⟩
  match s.entries key with
  | none => (s.readFirst key).give (given s.nextPromise)
  | some entry =>
    if fresh then
      match entry.next with
      | some next => s.give (given next)
      | none => (s.queueRead key entry.current).give (given s.nextPromise)
    else s.give (given entry.current)

/-- `settle(key, promise)` -/
def settle [DecidableEq κ] (p : Nat) : State κ V E :=
  let key := (s.promises p).key
  let s := s.setPromise p { s.promises p with tracked := false }
  match s.entries key with
  | none => s
  | some entry =>
    if entry.current = p then { s with entries := Function.update s.entries key (entry.next.map fun next => ⟨next, none⟩) }
    else s

/-- The promise is settled, and the reaction of `track`, if it runs, has run. -/
def passed (p : Nat) : Bool :=
  match (s.promises p).state with
  | some (.fulfilled _) => !(s.promises p).tracked
  | some (.rejected _) => true
  | none => false

/-- What a pending promise is settled with. -/
def settlement (p : Nat) : Option (Settled V E) :=
  match (s.promises p).run with
  | some r => (s.runs r).settled
  | none =>
    match (s.promises p).previous.bind fun c => (s.promises c).state with
    | some (.rejected error) => some (.rejected error)
    | _ => none

end State

def step [DecidableEq κ] (s : State κ V E) : Act κ V E → Option (State κ V E)
  | .nextSeq => some { s with lastSeq := s.lastSeq + 1 }
  | .request key fresh => some (s.request key fresh)
  | .call r =>
    if r < s.nextRun ∧ (s.runs r).called = false then
      some (s.setRun r { s.runs r with called := true })
    else none
  | .finish r outcome =>
    if (s.runs r).called = true ∧ (s.runs r).outcome.isNone = true then
      some (s.setRun r { s.runs r with outcome := some outcome })
    else none
  | .resolve p =>
    match (s.promises p).state, s.settlement p with
    | none, some settled => some (s.setPromise p { s.promises p with state := some settled })
    | _, _ => none
  | .settle p =>
    match (s.promises p).state with
    | some (.fulfilled _) => if (s.promises p).tracked then some (s.settle p) else none
    | _ => none
  | .launch p =>
    match (s.promises p).run, (s.promises p).previous with
    | none, some c =>
      match (s.promises c).state with
      | some (.fulfilled _) => if p < s.nextPromise ∧ s.passed c = true then some (s.launch p (s.promises p)) else none
      | _ => none
    | _, _ => none
  | .deliver q =>
    if q < s.nextRequest ∧ (s.requests q).result.isNone = true ∧ s.passed (s.requests q).promise = true then
      some (s.setRequest q { s.requests q with result := (s.promises (s.requests q).promise).state })
    else none

end CubridWebManager.SharedReads
