import CubridWebManager.Lib.ReadModifyWrite
import CubridWebManager.Lib.Run

/-!
# No update is lost

In a run whose steps are `Exclusive`, every write that the store carries out is made from the content that it replaces
(`Ok.made`), and what the store then holds is what all writes make of it one after another (`Ok.contents`).  Where the
operations on an object are all in the queue of one key, every step is exclusive (`exclusive_of_key`).
-/

namespace ReadModifyWrite

open PromiseQueue Transition

variable {Op κ ι Content View Request : Type*}

/-! ### The steps of one thread -/

namespace Pc

def seat? : Pc Op κ View Request → Option (Seat κ)
  | queued _ seat => some seat
  | running _ seat _ => seat
  | _ => none

/-- The view that the operation has and has not written from. -/
def held? : Pc Op κ View Request → Option (Op × View)
  | running op _ (.answered view) | running op _ (.sent (some view) _) => some (op, view)
  | _ => none

/-- The operation whose write the store is asked to carry out. -/
def sending? : Pc Op κ View Request → Option Op
  | running op _ (.sent _ _) => some op
  | _ => none

/-- The operation whose write has been carried out. -/
def wrote? : Pc Op κ View Request → Option Op
  | running op _ .stored | running op _ (.leaving .lost) | running op _ (.leaving .written) | done op .lost
  | done op .written => some op
  | _ => none

end Pc

section protocol

variable (P : UpdateProtocol Op κ ι Content View Request)

/-- What the phase says of the operation. -/
def Phase.Ok (op : Op) : Phase View Request → Prop
  | .asked | .answered _ => P.blind? op = none
  | .sent none request => P.blind? op = some request
  | .sent (some view) request => P.blind? op = none ∧ P.edit op view = some (some request)
  | .leaving .unchanged => ∃ view, P.edit op view = some none
  | _ => True

def Pc.Ok : Pc Op κ View Request → Prop
  | .queued op seat => P.key? op = some seat.key
  | .running op seat phase => P.key? op = seat.map Seat.key ∧ phase.Ok P op
  | .done op .unchanged => ∃ view, P.edit op view = some none
  | _ => True

/-- When the store carries out a write, no other operation holds a view of the object, but for those in the queue of the
same key. -/
def Exclusive [DecidableEq κ] [DecidableEq ι] (s : State Op κ ι Content View Request) : Act Op → Prop
  | .serve t => ∀ op ∈ (s.threads t).sending?, ∀ t' < s.nextThread, t' ≠ t → ∀ e ∈ (s.threads t').held?,
    P.object e.1 = P.object op → (P.key? op).isSome ∧ P.key? e.1 = P.key? op
  | _ => True

/-- What the operation would write, given the content of its object. -/
def requestFor (op : Op) (content : Content) : Option Request :=
  match P.blind? op with
  | some request => some request
  | none => (P.edit op (P.view (P.object op) content)).join

/-- What the operation makes of the content of its object when nothing comes between. -/
def performOp (o : ι) (content : Content) (op : Op) : Content :=
  (requestFor P op content).elim content (P.apply o content)

/-- The contents after these writes. -/
def after [DecidableEq ι] (contents : ι → Content) (history : List (Write Op Request)) : ι → Content :=
  history.foldl (fun c w =>
    Function.update c (P.object w.op) (P.apply (P.object w.op) (c (P.object w.op)) w.request)) contents

/-- The writes of the object. -/
def writesOf [DecidableEq ι] (o : ι) (history : List (Write Op Request)) : List (Write Op Request) :=
  history.filter fun w => P.object w.op = o

end protocol

variable {P : UpdateProtocol Op κ ι Content View Request} {s s' : State Op κ ι Content View Request}
  {pc pc' : Pc Op κ View Request} {a : Act Op}

instance [DecidableEq κ] [DecidableEq ι] : Decidable (Exclusive P s a) := by
  unfold Exclusive
  split <;> infer_instance

theorem after_concat [DecidableEq ι] (contents : ι → Content) (history : List (Write Op Request))
    (w : Write Op Request) : after P contents (history ++ [w]) = Function.update (after P contents history)
      (P.object w.op) (P.apply (P.object w.op) (after P contents history (P.object w.op)) w.request) := by
  rw [after, List.foldl_append, List.foldl_cons, List.foldl_nil, after]

namespace Quiet

theorem seat? (h : Quiet P s pc pc') : pc'.seat? = pc.seat? := by
  cases h <;> rfl

theorem wrote? (h : Quiet P s pc pc') : pc'.wrote? = pc.wrote? := by
  cases h with
  | @throw op seat phase hstored hleaving =>
    cases phase with
    | stored => exact absurd rfl hstored
    | leaving result => exact absurd rfl (hleaving result)
    | _ => rfl
  | _ => rfl

/-- A view that is held after the step was held before, or has just been read. -/
theorem held? (h : Quiet P s pc pc') {op : Op} {view : View} (hheld : pc'.held? = some (op, view)) :
    pc.held? = some (op, view) ∨ view = P.view (P.object op) (s.contents (P.object op)) := by
  cases h with
  | answer =>
    cases hheld
    exact .inr rfl
  | edit => exact .inl hheld
  | _ => cases hheld

theorem ok (h : Quiet P s pc pc') (hok : pc.Ok P) : pc'.Ok P := by
  cases h with
  | refuse => trivial
  | unqueued hkey => exact ⟨hkey, trivial⟩
  | enter => exact ⟨hok, trivial⟩
  | blind hblind => exact ⟨hok.1, hblind⟩
  | ask hblind => exact ⟨hok.1, hblind⟩
  | answer => exact hok
  | edit hedit => exact ⟨hok.1, hok.2, hedit⟩
  | keep hedit => exact ⟨hok.1, _, hedit⟩
  | throw => exact ⟨hok.1, trivial⟩
  | finish => exact ⟨hok.1, trivial⟩
  | lose => exact ⟨hok.1, trivial⟩

/-- Who is running with a seat after the step was so before, or its turn has come. -/
theorem ready (h : Quiet P s pc pc') {op : Op} {seat : Seat κ} {phase : Phase View Request}
    (hpc' : pc' = .running op (some seat) phase) :
    s.queue.ready seat = true ∨ ∃ phase', pc = .running op (some seat) phase' := by
  cases h with
  | refuse => cases hpc'
  | unqueued => cases hpc'
  | enter hready =>
    cases hpc'
    exact .inl hready
  | _ =>
    cases hpc'
    exact .inr ⟨_, rfl⟩

theorem not_idle (h : Quiet P s pc pc') : pc ≠ .idle := by
  rintro rfl
  cases h

end Quiet

/-! ### The queues -/

theorem setPc_apply (s : State Op κ ι Content View Request) (t : Nat) (pc : Pc Op κ View Request) (t' : Nat) :
    (s.setPc t pc).threads t' = if t' = t then pc else s.threads t' := Function.update_apply ..

theorem seats_setPc (s : State Op κ ι Content View Request) (t : Nat) (pc : Pc Op κ View Request) :
    (fun t' => ((s.setPc t pc).threads t').seat?) = Function.update (fun t' => (s.threads t').seat?) t pc.seat? := by
  funext t'
  rw [setPc_apply, Function.update_apply]
  split <;> rfl

/-- A step that leaves the thread its seat. -/
theorem seats_setPc_same {t : Nat} (h : pc.seat? = (s.threads t).seat?) :
    (fun t' => ((s.setPc t pc).threads t').seat?) = fun t' => (s.threads t').seat? := by
  rw [seats_setPc, h]
  exact Function.update_eq_self t fun t' => (s.threads t').seat?

structure Queued (P : UpdateProtocol Op κ ι Content View Request) (s : State Op κ ι Content View Request) : Prop where
  fresh : ∀ t, s.nextThread ≤ t → s.threads t = .idle
  ok : ∀ t, (s.threads t).Ok P
  orderly : Orderly s.queue fun t => (s.threads t).seat?
  ready : ∀ t op seat phase, s.threads t = .running op (some seat) phase → s.queue.ready seat = true

namespace Queued

theorem start (initial : ι → Content) : Queued P (start initial) :=
  ⟨fun _ _ => rfl, fun _ => trivial, .empty, nofun⟩

theorem lt (h : Queued P s) {t : Nat} (ht : s.threads t ≠ .idle) : t < s.nextThread := by
  by_contra hge
  exact ht (h.fresh t (Nat.le_of_not_lt hge))

/-- Nobody else in the queue of its key is running. -/
theorem unique (h : Queued P s) {t t' : Nat} {op op' : Op} {seat seat' : Option (Seat κ)} {phase phase' : Phase View Request}
    (ht : s.threads t = .running op seat phase) (ht' : s.threads t' = .running op' seat' phase')
    (hsome : (P.key? op).isSome) (hkey : P.key? op' = P.key? op) : t' = t := by
  have hok := h.ok t
  have hok' := h.ok t'
  rw [ht] at hok
  rw [ht'] at hok'
  cases seat with
  | none =>
    rw [hok.1] at hsome
    cases hsome
  | some a =>
    cases seat' with
    | none =>
      rw [hok.1, hok'.1] at hkey
      cases hkey
    | some b =>
      rw [hok.1, hok'.1, Option.map_some, Option.map_some, Option.some.injEq] at hkey
      exact h.orderly.unique (congrArg Pc.seat? ht') (congrArg Pc.seat? ht) hkey (h.ready t' op' b phase' ht')
        (h.ready t op a phase ht)

variable [DecidableEq κ] [DecidableEq ι]

theorem step (h : Queued P s) (hmoves : Moves P s a s') : Queued P s' := by
  cases hmoves with
  | call op =>
    have hidle := h.fresh s.nextThread (Nat.le_refl _)
    refine ⟨fun t ht => ?_, fun t => ?_, ?_, fun t op' seat phase hpc => ?_⟩
    · rw [setPc_apply, if_neg (Nat.ne_of_gt ht)]
      exact h.fresh t (Nat.le_of_succ_le ht)
    · rw [setPc_apply]
      split
      · trivial
      · exact h.ok t
    · rw [seats_setPc_same]
      · exact h.orderly
      · exact (congrArg Pc.seat? hidle).symm
    · rw [setPc_apply] at hpc
      split at hpc
      · cases hpc
      · exact h.ready t op' seat phase hpc
  | @quiet _ t pc hquiet _ =>
    refine ⟨fun t' ht' => ?_, fun t' => ?_, ?_, fun t' op' seat phase hpc => ?_⟩
    · rw [setPc_apply, if_neg]
      · exact h.fresh t' ht'
      · rintro rfl
        exact hquiet.not_idle (h.fresh t' ht')
    · rw [setPc_apply]
      split
      · exact hquiet.ok (h.ok t)
      · exact h.ok t'
    · rw [seats_setPc_same hquiet.seat?]
      exact h.orderly
    · rw [setPc_apply] at hpc
      split at hpc
      · rcases hquiet.ready hpc with hready | ⟨phase', hphase'⟩
        · exact hready
        · exact h.ready t op' seat phase' hphase'
      · exact h.ready t' op' seat phase hpc
  | @join t op k hpc hkey =>
    have hnone : (s.threads t).seat? = none := congrArg Pc.seat? hpc
    refine ⟨fun t' ht' => ?_, fun t' => ?_, ?_, fun t' op' seat phase hpc' => ?_⟩
    · rw [setPc_apply, if_neg]
      · exact h.fresh t' ht'
      · rintro rfl
        cases hpc.symm.trans (h.fresh t' ht')
    · rw [setPc_apply]
      split
      · exact hkey
      · exact h.ok t'
    · rw [seats_setPc]
      exact h.orderly.join hnone k
    · rw [setPc_apply] at hpc'
      split at hpc'
      · cases hpc'
      · exact h.ready t' op' seat phase hpc'
  | @leave t op seat result hpc =>
    have hok := h.ok t
    rw [hpc] at hok
    refine ⟨fun t' ht' => ?_, fun t' => ?_, ?_, fun t' op' seat' phase hpc' => ?_⟩
    · rw [setPc_apply, if_neg]
      · exact h.fresh t' ht'
      · rintro rfl
        cases hpc.symm.trans (h.fresh t' ht')
    · rw [setPc_apply]
      split
      · cases result with
        | unchanged => exact hok.2
        | _ => trivial
      · exact h.ok t'
    · cases seat with
      | none =>
        rw [seats_setPc_same]
        · exact h.orderly
        · exact (congrArg Pc.seat? hpc).symm
      | some b =>
        rw [seats_setPc]
        exact h.orderly.leave (congrArg Pc.seat? hpc) (h.ready t op b _ hpc)
    · rw [setPc_apply] at hpc'
      split at hpc'
      · cases hpc'
      · have hready := h.ready t' op' seat' phase hpc'
        cases seat with
        | none => exact hready
        | some b => exact ready_leave hready
  | @write t op seat view? request hpc =>
    have hok := h.ok t
    rw [hpc] at hok
    refine ⟨fun t' ht' => ?_, fun t' => ?_, ?_, fun t' op' seat' phase hpc' => ?_⟩
    · rw [setPc_apply, if_neg]
      · exact h.fresh t' ht'
      · rintro rfl
        cases hpc.symm.trans (h.fresh t' ht')
    · rw [setPc_apply]
      split
      · exact ⟨hok.1, trivial⟩
      · exact h.ok t'
    · rw [seats_setPc_same]
      · exact h.orderly
      · exact (congrArg Pc.seat? hpc).symm
    · rw [setPc_apply] at hpc'
      split at hpc'
      · rename_i heq
        cases hpc'
        exact h.ready t op seat' _ hpc
      · exact h.ready t' op' seat' phase hpc'

theorem run {ok : State Op κ ι Content View Request → Act Op → Prop} {initial : ι → Content} {as : List (Act Op)}
    (hrun : Run (ReadModifyWrite.step P) ok (ReadModifyWrite.start initial) as s) : Queued P s :=
  hrun.invariant (fun _ _ _ h _ hstep => h.step (step_moves hstep)) (.start initial)

end Queued

/-! ### Who has written -/

/-- The operations whose writes have been carried out, each once. -/
structure Recorded (s : State Op κ ι Content View Request) : Prop where
  wrote : ∀ t op, (s.threads t).wrote? = some op ↔ ∃ w ∈ s.history, w.thread = t ∧ w.op = op
  nodup : (s.history.map Write.thread).Nodup

namespace Recorded

theorem start (initial : ι → Content) : Recorded (start initial : State Op κ ι Content View Request) := by
  refine ⟨fun t op => ⟨nofun, ?_⟩, List.nodup_nil⟩
  rintro ⟨w, hw, -⟩
  cases hw

/-- A step that carries out no write and is not of one who has written. -/
theorem setPc (h : Recorded s) {t : Nat} (hpc : pc.wrote? = (s.threads t).wrote?) : Recorded (s.setPc t pc) := by
  refine ⟨fun t' op => ?_, h.nodup⟩
  rw [setPc_apply]
  split
  · rename_i heq
    rw [hpc, heq]
    exact h.wrote t op
  · exact h.wrote t' op

variable [DecidableEq κ] [DecidableEq ι]

theorem step (h : Recorded s) (hqueued : Queued P s) (hmoves : Moves P s a s') : Recorded s' := by
  cases hmoves with
  | call op =>
    have hidle := hqueued.fresh s.nextThread (Nat.le_refl _)
    have hnone : (s.threads s.nextThread).wrote? = none := congrArg Pc.wrote? hidle
    exact setPc (s := { s with nextThread := s.nextThread + 1 }) ⟨h.wrote, h.nodup⟩ hnone.symm
  | quiet hquiet => exact h.setPc hquiet.wrote?
  | @join t op k hpc hkey =>
    have hnone : (s.threads t).wrote? = none := congrArg Pc.wrote? hpc
    exact setPc (s := { s with queue := s.queue.join k }) ⟨h.wrote, h.nodup⟩ hnone.symm
  | @leave t op seat result hpc =>
    have hsame : (Pc.done op result : Pc Op κ View Request).wrote? = (s.threads t).wrote? := by
      rw [hpc]
      cases result <;> rfl
    exact setPc (s := { s with queue := seat.elim s.queue s.queue.leave }) ⟨h.wrote, h.nodup⟩ hsame
  | @write t op seat view? request hpc =>
    have hnone : (s.threads t).wrote? = none := congrArg Pc.wrote? hpc
    have hnew : ∀ w ∈ s.history, w.thread ≠ t := by
      rintro w hw rfl
      have hsome := (h.wrote w.thread w.op).2 ⟨w, hw, rfl, rfl⟩
      cases hnone.symm.trans hsome
    refine ⟨fun t' op' => ?_, ?_⟩
    · rw [setPc_apply]
      simp only [State.setPc, List.mem_append, List.mem_singleton]
      split
      · rename_i heq
        subst heq
        constructor
        · intro hwrote
          exact ⟨_, .inr rfl, rfl, Option.some.inj hwrote⟩
        · rintro ⟨w, hw | rfl, hthread, hop⟩
          · exact absurd hthread (hnew w hw)
          · exact congrArg some hop
      · rename_i hne
        rw [h.wrote]
        constructor
        · rintro ⟨w, hw, hthread, hop⟩
          exact ⟨w, .inl hw, hthread, hop⟩
        · rintro ⟨w, hw | rfl, hthread, hop⟩
          · exact ⟨w, hw, hthread, hop⟩
          · exact absurd hthread.symm hne
    · simp only [State.setPc, List.map_append, List.map_cons, List.map_nil]
      refine List.nodup_append.2 ⟨h.nodup, List.nodup_singleton t, fun t' ht' t'' ht'' heq => ?_⟩
      obtain ⟨w, hw, rfl⟩ := List.mem_map.1 ht'
      exact hnew w hw (heq.trans (List.mem_singleton.1 ht''))

theorem run {ok : State Op κ ι Content View Request → Act Op → Prop} {initial : ι → Content} {as : List (Act Op)}
    (hrun : Run (ReadModifyWrite.step P) ok (ReadModifyWrite.start initial) as s) : Recorded s :=
  (hrun.invariant (I := fun s => Queued P s ∧ Recorded s) (fun _ _ _ h _ hstep =>
    ⟨h.1.step (step_moves hstep), h.2.step h.1 (step_moves hstep)⟩) ⟨.start initial, .start initial⟩).2

end Recorded

/-- No call has failed after its write was carried out. -/
def NoneLost (s : State Op κ ι Content View Request) : Prop :=
  ∀ t op, s.threads t ≠ .done op .lost ∧ ∀ seat, s.threads t ≠ .running op seat (.leaving .lost)

namespace NoneLost

theorem setPc (h : NoneLost s) {t : Nat}
    (hpc : ∀ op, pc ≠ .done op .lost ∧ ∀ seat, pc ≠ .running op seat (.leaving .lost)) : NoneLost (s.setPc t pc) := by
  intro t' op
  rw [setPc_apply]
  split
  · exact hpc op
  · exact h t' op

/-- When all calls have ended, those that have succeeded with a write are those whose writes were carried out. -/
theorem done_iff (h : NoneLost s) (hrecorded : Recorded s)
    (hended : ∀ t, s.threads t = .idle ∨ ∃ op result, s.threads t = .done op result) (t : Nat) (op : Op) :
    s.threads t = .done op .written ↔ ∃ w ∈ s.history, w.thread = t ∧ w.op = op := by
  rw [← hrecorded.wrote]
  constructor
  · intro hdone
    rw [hdone]
    rfl
  · intro hwrote
    rcases hended t with hidle | ⟨op', result, hdone⟩
    · rw [hidle] at hwrote
      cases hwrote
    · rw [hdone] at hwrote
      cases result with
      | lost => exact absurd hdone (h t op').1
      | written =>
        rw [hdone, Option.some.inj hwrote]
      | _ => cases hwrote

variable [DecidableEq κ] [DecidableEq ι]

theorem step (h : NoneLost s) (hfail : ∀ t, a = .fail t → (s.threads t).wrote? = none) (hmoves : Moves P s a s') :
    NoneLost s' := by
  cases hmoves with
  | call op => exact setPc (s := { s with nextThread := s.nextThread + 1 }) h fun op => ⟨nofun, nofun⟩
  | @quiet _ t pc hquiet hlost =>
    refine h.setPc fun op => ⟨?_, ?_⟩
    · rintro rfl
      cases hpc : s.threads t <;> rw [hpc] at hquiet <;> cases hquiet
    · rintro seat rfl
      have hnone := hfail t (hlost op seat rfl)
      have hwrote := hquiet.wrote?
      rw [hnone] at hwrote
      cases hwrote
  | @join t op k hpc hkey => exact setPc (s := { s with queue := s.queue.join k }) h fun op => ⟨nofun, nofun⟩
  | @leave t op seat result hpc =>
    refine setPc (s := { s with queue := seat.elim s.queue s.queue.leave }) h fun op' => ⟨?_, nofun⟩
    rintro heq
    cases heq
    exact (h t op).2 seat hpc
  | @write t op seat view? request hpc =>
    exact setPc (s := { s with
      contents := Function.update s.contents (P.object op) (P.apply (P.object op) (s.contents (P.object op)) request)
      history := s.history ++ [Write.mk t op request] }) h fun op' => ⟨nofun, nofun⟩

theorem run {ok : State Op κ ι Content View Request → Act Op → Prop} {initial : ι → Content} {as : List (Act Op)}
    (hfail : ∀ s a, ok s a → ∀ t, a = .fail t → (s.threads t).wrote? = none)
    (hrun : Run (ReadModifyWrite.step P) ok (ReadModifyWrite.start initial) as s) : NoneLost s :=
  hrun.invariant (fun s a _ h hok hstep => h.step (hfail s a hok) (step_moves hstep)) fun _ _ => ⟨nofun, nofun⟩

end NoneLost

/-! ### What is written -/

/-- Nothing was lost: the views that are held are of what the store holds, that is what all writes have made one after
another, and each of them is what its operation makes of what it found. -/
structure Kept [DecidableEq ι] (P : UpdateProtocol Op κ ι Content View Request) (initial : ι → Content)
    (s : State Op κ ι Content View Request) : Prop where
  held : ∀ t op view, (s.threads t).held? = some (op, view) → view = P.view (P.object op) (s.contents (P.object op))
  contents : s.contents = after P initial s.history
  made : ∀ h₁ w h₂, s.history = h₁ ++ w :: h₂ →
    requestFor P w.op (after P initial h₁ (P.object w.op)) = some w.request

namespace Kept

variable [DecidableEq ι] {initial : ι → Content}

theorem start : Kept P initial (start initial) := by
  refine ⟨nofun, rfl, fun h₁ w h₂ heq => ?_⟩
  cases h₁ <;> cases heq

/-- A step after which no thread holds a view that was not held before. -/
theorem setPc (h : Kept P initial s) {t : Nat} (hpc : ∀ op view, pc.held? = some (op, view) →
    (s.threads t).held? = some (op, view) ∨ view = P.view (P.object op) (s.contents (P.object op))) :
    Kept P initial (s.setPc t pc) := by
  refine ⟨fun t' op view hheld => ?_, h.contents, h.made⟩
  rw [setPc_apply] at hheld
  split at hheld
  · rcases hpc op view hheld with hold | hnew
    · exact h.held t op view hold
    · exact hnew
  · exact h.held t' op view hheld

/-- What is sent is what the operation makes of what the store holds. -/
theorem requestFor_of_sent (h : Kept P initial s) (hqueued : Queued P s) {t : Nat} {op : Op} {seat : Option (Seat κ)}
    {view? : Option View} {request : Request} (hpc : s.threads t = .running op seat (.sent view? request)) :
    requestFor P op (s.contents (P.object op)) = some request := by
  have hok := hqueued.ok t
  rw [hpc] at hok
  cases view? with
  | none =>
    have hblind : P.blind? op = some request := hok.2
    simp only [requestFor, hblind]
  | some view =>
    obtain ⟨-, hblind, hedit⟩ := hok
    have hview := h.held t op view (congrArg Pc.held? hpc)
    simp only [requestFor, hblind, ← hview, hedit, Option.join_some]

theorem after_eq_foldl (h : Kept P initial s) (o : ι) {h₁ h₂ : List (Write Op Request)} (heq : s.history = h₁ ++ h₂) :
    after P initial h₁ o = ((writesOf P o h₁).map Write.op).foldl (performOp P o) (initial o) := by
  induction h₁ using List.reverseRecOn generalizing h₂ with
  | nil => rfl
  | append_singleton h₁ w ih =>
    rw [List.append_assoc] at heq
    have hmade := h.made h₁ w h₂ heq
    rw [after_concat, Function.update_apply, writesOf, List.filter_append, List.map_append, List.foldl_append,
      ← writesOf, ← ih heq]
    split
    · rename_i hobject
      subst hobject
      simp [performOp, hmade]
    · rename_i hobject
      simp [Ne.symm hobject]

/-- The operations that have written the object, applied one after another. -/
theorem serial (h : Kept P initial s) (o : ι) :
    s.contents o = ((writesOf P o s.history).map Write.op).foldl (performOp P o) (initial o) := by
  rw [h.contents]
  exact h.after_eq_foldl o (List.append_nil _).symm

/-- Each of them succeeds in its place. -/
theorem serial_some (h : Kept P initial s) (o : ι) {h₁ h₂ : List (Write Op Request)} {w : Write Op Request}
    (heq : writesOf P o s.history = h₁ ++ w :: h₂) :
    requestFor P w.op ((h₁.map Write.op).foldl (performOp P o) (initial o)) = some w.request ∧
      ∃ l₁ l₂, s.history = l₁ ++ w :: l₂ ∧ writesOf P o l₂ = h₂ := by
  obtain ⟨l₁, l, hhistory, rfl, hl⟩ := List.filter_eq_append_iff.1 heq
  obtain ⟨l₀, l₂, rfl, hl₀, hobject, rfl⟩ := List.filter_eq_cons_iff.1 hl
  rw [← List.append_assoc] at hhistory
  have hmade := h.made (l₁ ++ l₀) w l₂ hhistory
  have hnone : writesOf P o l₀ = [] := List.filter_eq_nil_iff.2 hl₀
  have hbefore := h.after_eq_foldl o hhistory
  rw [writesOf, List.filter_append, ← writesOf, ← writesOf, hnone, List.append_nil] at hbefore
  refine ⟨?_, l₁ ++ l₀, l₂, hhistory, rfl⟩
  rw [of_decide_eq_true hobject, hbefore] at hmade
  exact hmade

/-- What a write has made true of the object stays true if the later writes of the object keep it. -/
theorem lasts (h : Kept P initial s) {Q : Content → Prop} {h₁ h₂ : List (Write Op Request)} {w : Write Op Request}
    (heq : s.history = h₁ ++ w :: h₂) (hw : Q (after P initial (h₁ ++ [w]) (P.object w.op)))
    (hkeep : ∀ w' ∈ h₂, P.object w'.op = P.object w.op → ∀ c, requestFor P w'.op c = some w'.request → Q c →
      Q (P.apply (P.object w.op) c w'.request)) : Q (s.contents (P.object w.op)) := by
  rw [h.contents, heq]
  have hprefix : ∀ h₃ h₄, h₂ = h₃ ++ h₄ → Q (after P initial (h₁ ++ w :: h₃) (P.object w.op)) := by
    intro h₃
    induction h₃ using List.reverseRecOn with
    | nil => exact fun _ _ => hw
    | append_singleton h₃ w' ih =>
      intro h₄ heq'
      rw [List.append_assoc] at heq'
      have hlast := ih _ heq'
      have hmade := h.made (h₁ ++ w :: h₃) w' h₄ (by rw [heq, heq']; simp)
      rw [← List.cons_append, ← List.append_assoc, after_concat, Function.update_apply]
      split
      · rename_i hobject
        rw [← hobject] at hmade ⊢
        exact hkeep w' (by rw [heq']; simp) hobject.symm _ hmade hlast
      · exact hlast
  exact hprefix h₂ [] (List.append_nil _).symm

variable [DecidableEq κ]

theorem step (h : Kept P initial s) (hqueued : Queued P s) (hexclusive : Exclusive P s a) (hmoves : Moves P s a s') :
    Kept P initial s' := by
  cases hmoves with
  | call op => exact setPc (s := { s with nextThread := s.nextThread + 1 }) ⟨h.held, h.contents, h.made⟩ nofun
  | quiet hquiet => exact h.setPc fun op view hheld => hquiet.held? hheld
  | @join t op k hpc hkey => exact setPc (s := { s with queue := s.queue.join k }) ⟨h.held, h.contents, h.made⟩ nofun
  | @leave t op seat result hpc =>
    exact setPc (s := { s with queue := seat.elim s.queue s.queue.leave }) ⟨h.held, h.contents, h.made⟩ nofun
  | @write t op seat view? request hpc =>
    have hsending : op ∈ (s.threads t).sending? := congrArg Pc.sending? hpc
    have hrequest := h.requestFor_of_sent hqueued hpc
    refine ⟨fun t' op' view hheld => ?_, ?_, fun h₁ w h₂ heq => ?_⟩
    · rw [setPc_apply] at hheld
      split at hheld
      · cases hheld
      · rename_i hne
        simp only [State.setPc, Function.update_apply]
        split
        · -- another view of the object: it would be of the same queue
          rename_i hobject
          have hlt : t' < s.nextThread := hqueued.lt fun hidle => by
            rw [hidle] at hheld
            cases hheld
          obtain ⟨hsome, hkey⟩ := hexclusive op hsending t' hlt hne (op', view) hheld hobject
          obtain ⟨seat', phase', hpc'⟩ : ∃ seat' phase', s.threads t' = .running op' seat' phase' := by
            unfold Pc.held? at hheld
            split at hheld
            · rename_i hpc'
              cases hheld
              exact ⟨_, _, hpc'⟩
            · rename_i hpc'
              cases hheld
              exact ⟨_, _, hpc'⟩
            · cases hheld
          exact absurd (hqueued.unique hpc hpc' hsome hkey) hne
        · exact h.held t' op' view hheld
    · simp only [State.setPc, after_concat, ← h.contents]
    · rcases List.eq_nil_or_concat h₂ with rfl | ⟨h₂, w', rfl⟩
      · obtain ⟨hhistory, hw⟩ := List.append_inj' heq rfl
        obtain rfl := List.head_eq_of_cons_eq hw
        rw [← hhistory, ← h.contents]
        exact hrequest
      · rw [List.concat_eq_append, ← List.cons_append, ← List.append_assoc] at heq
        exact h.made h₁ w h₂ (List.append_inj' heq rfl).1

theorem run {as : List (Act Op)} (hrun : Run (ReadModifyWrite.step P) (Exclusive P) (ReadModifyWrite.start initial) as s) :
    Kept P initial s :=
  (hrun.invariant (I := fun s => Queued P s ∧ Kept P initial s) (fun _ _ _ h hok hstep =>
    ⟨h.1.step (step_moves hstep), h.2.step h.1 hok (step_moves hstep)⟩) ⟨.start initial, .start⟩).2

end Kept

/-- The operations on an object are in the queue of one key. -/
theorem exclusive_of_key [DecidableEq κ] [DecidableEq ι]
    (hkey : ∀ op op', P.object op' = P.object op → (P.key? op).isSome ∧ P.key? op' = P.key? op)
    (s : State Op κ ι Content View Request) (a : Act Op) : Exclusive P s a := by
  unfold Exclusive
  split
  · exact fun op _ _ _ _ e _ hobject => hkey op e.1 hobject
  · trivial

end ReadModifyWrite
