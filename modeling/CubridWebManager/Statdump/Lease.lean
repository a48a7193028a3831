import CubridWebManager.Statdump.Watcher

/-!
# A watcher has a lease

The calls of one host and database go to CMS one at a time, in the order in which they were made (`Chained`); and the
lease of a start, or a newer one, is there until a stop is made after the start (`Leased`).  So where all is quiet and
the last request that CMS answered is a successful start, there is a lease (`statdump_leased`): a stop made after that
start would have come to CMS after it.
-/

namespace CubridWebManager.Statdump

open Transition PromiseQueue

/-! ### The chain of the calls -/

namespace Phase

/-- The call is in the chain. -/
def waiting : Phase → Bool
  | .queued | .sent => true
  | _ => false

/-- The promise of the call in the chain is settled. -/
def isOver : Phase → Bool
  | .settled _ | .returned _ | .threw => true
  | _ => false

/-- The call has a place in the chain, or had one. -/
def placed : Phase → Bool
  | .queued | .sent | .settled _ | .returned _ => true
  | _ => false

def begun : Phase → Bool
  | .sent | .settled _ | .returned _ | .threw => true
  | _ => false

theorem begun_of_over {phase : Phase} (h : phase.isOver = true) : phase.begun = true := by
  cases phase <;> first | rfl | cases h

end Phase

/-- The place of a call that is in the chain. -/
def State.seatOf (s : State) (i : Nat) : Option (Seat LeaseKey) :=
  if (s.calls i).phase.waiting then (s.calls i).seat else none

structure Chained (s : State) : Prop where
  orderly : Orderly s.statdumpCalls s.seatOf
  undrawn : ∀ i, s.nextCall ≤ i → (s.calls i).phase = .absent
  seated : ∀ i, (s.calls i).phase.placed = true → (s.calls i).seat.isSome = true
  placed : ∀ i a, (s.calls i).seat = some a → (s.calls i).phase.waiting = true ∨ (s.calls i).phase.isOver = true
  key : ∀ i a, (s.calls i).seat = some a → a.key = (s.calls i).key
  made : ∀ i a, (s.calls i).seat = some a → a.promise < s.statdumpCalls.made
  distinct : ∀ i j a b, (s.calls i).seat = some a → (s.calls j).seat = some b → a.promise = b.promise → i = j
  ready : ∀ i a, (s.calls i).phase = .sent → (s.calls i).seat = some a → s.statdumpCalls.ready a = true
  began : ∀ i j a b, (s.calls i).seat = some a → (s.calls j).seat = some b → a.key = b.key → a.promise < b.promise →
    (s.calls j).phase.begun = true → (s.calls i).phase.isOver = true

section Simp

variable (s : State) (i : Nat)

@[simp] theorem setCall_self (c : Call) : (s.setCall i c).calls i = c := Function.update_self ..

theorem setCall_of_ne {i j : Nat} (c : Call) (h : j ≠ i) : (s.setCall i c).calls j = s.calls j :=
  Function.update_of_ne h ..

@[simp] theorem setPhase_seat (phase : Phase) (j : Nat) : ((s.setPhase i phase).calls j).seat = (s.calls j).seat := by
  by_cases h : j = i
  · subst h
    simp [State.setPhase]
  · rw [State.setPhase, setCall_of_ne _ _ h]

@[simp] theorem setPhase_method (phase : Phase) (j : Nat) :
    ((s.setPhase i phase).calls j).method = (s.calls j).method := by
  by_cases h : j = i
  · subst h
    simp [State.setPhase]
  · rw [State.setPhase, setCall_of_ne _ _ h]

@[simp] theorem setPhase_lease (phase : Phase) (j : Nat) :
    ((s.setPhase i phase).calls j).lease = (s.calls j).lease := by
  by_cases h : j = i
  · subst h
    simp [State.setPhase]
  · rw [State.setPhase, setCall_of_ne _ _ h]

@[simp] theorem setPhase_key (phase : Phase) (j : Nat) : ((s.setPhase i phase).calls j).key = (s.calls j).key := by
  by_cases h : j = i
  · subst h
    simp [State.setPhase]
  · rw [State.setPhase, setCall_of_ne _ _ h]

@[simp] theorem setPhase_self (phase : Phase) : ((s.setPhase i phase).calls i).phase = phase := by
  simp [State.setPhase]

theorem setPhase_of_ne {i j : Nat} (phase : Phase) (h : j ≠ i) :
    ((s.setPhase i phase).calls j).phase = (s.calls j).phase := by
  rw [State.setPhase, setCall_of_ne _ _ h]

end Simp

namespace Chained

variable {s : State} {i : Nat}

/-- A call in the chain keeps its place when its phase changes within the chain, and gives it up when it leaves. -/
theorem seatOf_setPhase (phase : Phase) : (s.setPhase i phase).seatOf =
    Function.update s.seatOf i (if phase.waiting then (s.calls i).seat else none) := by
  funext j
  rw [State.seatOf, setPhase_seat]
  by_cases h : j = i
  · subst h
    rw [setPhase_self, Function.update_self]
  · rw [setPhase_of_ne _ _ h, Function.update_of_ne h, State.seatOf]

/-- A call changes its phase, and its promise may be settled with that. -/
theorem rephase (h : Chained s) {phase : Phase} {q : PromiseQueue LeaseKey} (hdrawn : i < s.nextCall)
    (horderly : Orderly q (Function.update s.seatOf i (if phase.waiting then (s.calls i).seat else none)))
    (hmade : q.made = s.statdumpCalls.made)
    (hready : ∀ a, s.statdumpCalls.ready a = true → q.ready a = true)
    (hseated : phase.placed = true → (s.calls i).seat.isSome = true)
    (hplaced : phase.waiting = true ∨ phase.isOver = true)
    (hsent : phase = .sent → ∀ a, (s.calls i).seat = some a → q.ready a = true)
    (hover : (s.calls i).phase.isOver = true → phase.isOver = true)
    (hbegun : phase.begun = true → ∀ j a b, (s.calls j).seat = some a → (s.calls i).seat = some b → a.key = b.key →
      a.promise < b.promise → (s.calls j).phase.isOver = true) :
    Chained ({ s with statdumpCalls := q }.setPhase i phase) := by
  have hself : (({ s with statdumpCalls := q }.setPhase i phase).calls i).phase = phase := setPhase_self ..
  have hother : ∀ {j}, j ≠ i → (({ s with statdumpCalls := q }.setPhase i phase).calls j).phase = (s.calls j).phase :=
    fun hne => setPhase_of_ne _ _ hne
  have hseat : ∀ j, (({ s with statdumpCalls := q }.setPhase i phase).calls j).seat = (s.calls j).seat :=
    fun j => setPhase_seat ..
  refine ⟨?_, fun j hj => ?_, fun j hj => ?_, fun j a hj => ?_, fun j a hj => ?_, fun j a hj => ?_,
    fun j j' a b hj hj' => ?_, fun j a hj ha => ?_, fun j j' a b hj hj' hkey hlt hb => ?_⟩
  · rw [seatOf_setPhase]
    exact horderly
  · rw [hother (Nat.ne_of_gt (Nat.lt_of_lt_of_le hdrawn hj))]
    exact h.undrawn j hj
  · rw [hseat]
    by_cases hji : j = i
    · subst hji
      exact hseated (hself ▸ hj)
    · exact h.seated j (hother hji ▸ hj)
  · rw [hseat] at hj
    by_cases hji : j = i
    · subst hji
      rw [hself]
      exact hplaced
    · rw [hother hji]
      exact h.placed j a hj
  · rw [hseat] at hj
    rw [setPhase_key]
    exact h.key j a hj
  · rw [hseat] at hj
    exact hmade ▸ h.made j a hj
  · rw [hseat] at hj hj'
    exact h.distinct j j' a b hj hj'
  · rw [hseat] at ha
    by_cases hji : j = i
    · subst hji
      exact hsent (hself.symm.trans hj) a ha
    · exact hready a (h.ready j a (hother hji ▸ hj) ha)
  · rw [hseat] at hj hj'
    have hbefore : (s.calls j).phase.isOver = true := by
      by_cases hji : j' = i
      · subst hji
        rw [hself] at hb
        exact hbegun hb j a b hj hj' hkey hlt
      · exact h.began j j' a b hj hj' hkey hlt (hother hji ▸ hb)
    by_cases hji : j = i
    · subst hji
      rw [hself]
      exact hover hbefore
    · rw [hother hji]
      exact hbefore

/-- A call outside the chain changes its phase. -/
theorem outside (h : Chained s) {phase : Phase} (hdrawn : i < s.nextCall) (hold : (s.calls i).phase.waiting = false)
    (hseat : (s.calls i).phase.isOver = true ∨ (s.calls i).seat = none) (hnew : phase.waiting = false)
    (hover : phase.isOver = true) (hplaced : phase.placed = true → (s.calls i).seat.isSome = true) :
    Chained (s.setPhase i phase) := by
  have hnone : s.seatOf i = none := by rw [State.seatOf, hold, if_neg Bool.false_ne_true]
  refine h.rephase hdrawn ?_ rfl (fun _ ha => ha) hplaced (.inr hover) ?_ (fun _ => hover) fun _ j a b hj hi hkey hlt => ?_
  · rw [hnew, if_neg Bool.false_ne_true, ← hnone, Function.update_eq_self]
    exact h.orderly
  · rintro rfl
    cases hnew
  · rcases hseat with hover' | hnoseat
    · exact h.began j i a b hj hi hkey hlt (Phase.begun_of_over hover')
    · cases hnoseat.symm.trans hi

theorem drawn (h : Chained s) (hi : (s.calls i).phase ≠ .absent) : i < s.nextCall := by
  by_contra hlt
  exact hi (h.undrawn i (Nat.le_of_not_lt hlt))

/-- The promise that the call waits for is resolved, and the call goes ahead. -/
theorem send (h : Chained s) {a : Seat LeaseKey} (hqueued : (s.calls i).phase = .queued) (hi : (s.calls i).seat = some a)
    (hready : s.statdumpCalls.ready a = true) : Chained (s.setPhase i .sent) := by
  have hseat : s.seatOf i = some a := by rw [State.seatOf, hqueued, hi]; rfl
  refine h.rephase (h.drawn (by rw [hqueued]; exact nofun)) ?_ rfl (fun _ ha => ha) (fun _ => by rw [hi]; rfl) (.inl rfl)
    (fun _ b hb => ?_) (fun hover => ?_) fun _ j b c hj hc hkey hlt => ?_
  · change Orderly _ (Function.update s.seatOf i (s.calls i).seat)
    rw [hi, ← hseat, Function.update_eq_self]
    exact h.orderly
  · rwa [← Option.some.inj (hi.symm.trans hb)]
  · rw [hqueued] at hover
    cases hover
  · obtain rfl := Option.some.inj (hi.symm.trans hc)
    refine (h.placed j b hj).resolve_left fun hwaiting => ?_
    have hj' : s.seatOf j = some b := by rw [State.seatOf, hwaiting, if_pos rfl, hj]
    exact Nat.lt_irrefl _ (Nat.lt_of_lt_of_le hlt (h.orderly.first hj' hseat hkey hready))

/-- The request is answered or fails. -/
theorem settle (h : Chained s) {a : Seat LeaseKey} (hsent : (s.calls i).phase = .sent) (hi : (s.calls i).seat = some a)
    (result : Option WatcherResponse) : Chained (s.settle i a result) := by
  have hseat : s.seatOf i = some a := by rw [State.seatOf, hsent, hi]; rfl
  refine h.rephase (h.drawn (by rw [hsent]; exact nofun)) ?_ rfl (fun _ ha => ready_settle ha) (fun _ => by rw [hi]; rfl)
    (.inr rfl) nofun (fun _ => rfl) fun _ j b c hj hc hkey hlt => ?_
  · exact h.orderly.settle hseat (h.ready i a hsent hi)
  · exact h.began j i b c hj hc hkey hlt (by rw [hsent]; rfl)

/-- A call that has not been in a chain joins the chain of its key. -/
theorem join (h : Chained s) {s' : State} {c : Call} (hcalls : s'.calls = Function.update s.calls i c)
    (hqueue : s'.statdumpCalls = s.statdumpCalls.join c.key) (hseat : c.seat = some (s.statdumpCalls.seatFor c.key))
    (hqueued : c.phase = .queued) (hn : s.nextCall ≤ s'.nextCall) (hi : i < s'.nextCall)
    (hwaiting : (s.calls i).phase.waiting = false) (hover : (s.calls i).phase.isOver = false) : Chained s' := by
  have hself : s'.calls i = c := by rw [hcalls, Function.update_self]
  have hother : ∀ {j}, j ≠ i → s'.calls j = s.calls j := fun hne => by rw [hcalls, Function.update_of_ne hne]
  have hnone : s.seatOf i = none := by rw [State.seatOf, hwaiting, if_neg Bool.false_ne_true]
  have hseatOf : s'.seatOf = Function.update s.seatOf i (some (s.statdumpCalls.seatFor c.key)) := by
    funext j
    by_cases hji : j = i
    · subst hji
      rw [State.seatOf, hself, hqueued, Function.update_self, ← hseat]
      rfl
    · rw [State.seatOf, hother hji, Function.update_of_ne hji, State.seatOf]
  -- the calls with a place are the new one, and those that had one
  have hcases : ∀ {j a}, (s'.calls j).seat = some a →
      j = i ∧ a = s.statdumpCalls.seatFor c.key ∨ j ≠ i ∧ (s.calls j).seat = some a := by
    intro j a hj
    by_cases hji : j = i
    · subst hji
      rw [hself, hseat] at hj
      exact .inl ⟨rfl, (Option.some.inj hj).symm⟩
    · exact .inr ⟨hji, hother hji ▸ hj⟩
  have hnew : ∀ {j a}, (s.calls j).seat = some a → a.promise ≠ s.statdumpCalls.made :=
    fun hj => Nat.ne_of_lt (h.made _ _ hj)
  refine ⟨?_, fun j hj => ?_, fun j hj => ?_, fun j a hj => ?_, fun j a hj => ?_, fun j a hj => ?_,
    fun j j' a b hj hj' heq => ?_, fun j a hj ha => ?_, fun j j' a b hj hj' hkey hlt hb => ?_⟩
  · rw [hqueue, hseatOf]
    exact h.orderly.join hnone c.key
  · rw [hother (Nat.ne_of_gt (Nat.lt_of_lt_of_le hi hj))]
    exact h.undrawn j (Nat.le_trans hn hj)
  · by_cases hji : j = i
    · subst hji
      rw [hself, hseat]
      rfl
    · rw [hother hji] at hj ⊢
      exact h.seated j hj
  · rcases hcases hj with ⟨rfl, -⟩ | ⟨hji, hj⟩
    · rw [hself, hqueued]
      exact .inl rfl
    · rw [hother hji]
      exact h.placed j a hj
  · rcases hcases hj with ⟨rfl, rfl⟩ | ⟨hji, hj⟩
    · rw [hself]
      rfl
    · rw [hother hji]
      exact h.key j a hj
  · rw [hqueue]
    rcases hcases hj with ⟨rfl, rfl⟩ | ⟨hji, hj⟩
    · exact Nat.lt_succ_self _
    · exact Nat.lt_succ_of_lt (h.made j a hj)
  · rcases hcases hj with ⟨rfl, rfl⟩ | ⟨hji, hj⟩ <;> rcases hcases hj' with ⟨rfl, rfl⟩ | ⟨hji', hj'⟩
    · rfl
    · exact absurd heq.symm (hnew hj')
    · exact absurd heq (hnew hj)
    · exact h.distinct j j' a b hj hj' heq
  · have hji : j ≠ i := by
      rintro rfl
      rw [hself, hqueued] at hj
      cases hj
    rw [hother hji] at hj ha
    rw [hqueue]
    exact h.ready j a hj ha
  · rcases hcases hj' with ⟨rfl, rfl⟩ | ⟨hji', hj'⟩
    · rw [hself, hqueued] at hb
      cases hb
    · rw [hother hji'] at hb
      rcases hcases hj with ⟨rfl, rfl⟩ | ⟨hji, hj⟩
      · exact absurd (h.made j' b hj') (Nat.lt_asymm hlt)
      · rw [hother hji]
        exact h.began j j' a b hj hj' hkey hlt hb

/-- A call arrives that has to wait for the login first. -/
theorem arrive (h : Chained s) {s' : State} {c : Call} (hcalls : s'.calls = Function.update s.calls s.nextCall c)
    (hqueue : s'.statdumpCalls = s.statdumpCalls) (hseat : c.seat = none) (hlogin : c.phase = .login)
    (hn : s'.nextCall = s.nextCall + 1) : Chained s' := by
  have hself : s'.calls s.nextCall = c := by rw [hcalls, Function.update_self]
  have hother : ∀ {j}, j ≠ s.nextCall → s'.calls j = s.calls j := fun hne => by
    rw [hcalls, Function.update_of_ne hne]
  have hplaced : ∀ {j a}, (s'.calls j).seat = some a → s'.calls j = s.calls j := by
    intro j a hj
    refine hother ?_
    rintro rfl
    rw [hself, hseat] at hj
    cases hj
  have hseatOf : s'.seatOf = s.seatOf := by
    funext j
    by_cases hj : j = s.nextCall
    · subst hj
      rw [State.seatOf, State.seatOf, hself, hlogin, h.undrawn _ (Nat.le_refl _)]
      rfl
    · rw [State.seatOf, State.seatOf, hother hj]
  refine ⟨?_, fun j hj => ?_, fun j hj => ?_, fun j a hj => ?_, fun j a hj => ?_, fun j a hj => ?_,
    fun j j' a b hj hj' heq => ?_, fun j a hj ha => ?_, fun j j' a b hj hj' hkey hlt hb => ?_⟩
  · rw [hqueue, hseatOf]
    exact h.orderly
  · rw [hn] at hj
    rw [hother (Nat.ne_of_gt hj)]
    exact h.undrawn j (Nat.le_of_succ_le hj)
  · have hji : j ≠ s.nextCall := by
      rintro rfl
      rw [hself, hlogin] at hj
      cases hj
    rw [hother hji] at hj ⊢
    exact h.seated j hj
  · have heq := hplaced hj
    rw [heq] at hj ⊢
    exact h.placed j a hj
  · have heq := hplaced hj
    rw [heq] at hj ⊢
    exact h.key j a hj
  · have hsame := hplaced hj
    rw [hsame] at hj
    rw [hqueue]
    exact h.made j a hj
  · have hsame := hplaced hj
    have hsame' := hplaced hj'
    rw [hsame] at hj
    rw [hsame'] at hj'
    exact h.distinct j j' a b hj hj' heq
  · have hsame := hplaced ha
    rw [hsame] at hj ha
    rw [hqueue]
    exact h.ready j a hj ha
  · have hsame := hplaced hj
    have hsame' := hplaced hj'
    rw [hsame'] at hj' hb
    rw [hsame] at hj ⊢
    exact h.began j j' a b hj hj' hkey hlt hb

/-- Nothing changes for the calls, and for the chains no more than that old promises are dropped. -/
theorem same (h : Chained s) {s' : State} (hcalls : s'.calls = s.calls) (hn : s'.nextCall = s.nextCall)
    (horderly : Orderly s'.statdumpCalls s.seatOf) (hmade : s'.statdumpCalls.made = s.statdumpCalls.made)
    (hresolved : s'.statdumpCalls.resolved = s.statdumpCalls.resolved) : Chained s' := by
  have hseatOf : s'.seatOf = s.seatOf := by
    funext j
    rw [State.seatOf, State.seatOf, hcalls]
  have hready : ∀ a, s'.statdumpCalls.ready a = s.statdumpCalls.ready a := fun a => by
    rw [PromiseQueue.ready, PromiseQueue.ready, hresolved]
  constructor
  · exact hseatOf ▸ horderly
  · exact hcalls ▸ hn ▸ h.undrawn
  · exact hcalls ▸ h.seated
  · exact hcalls ▸ h.placed
  · exact hcalls ▸ h.key
  · exact hcalls ▸ hmade ▸ h.made
  · exact hcalls ▸ h.distinct
  · intro i a hi ha
    rw [hcalls] at hi ha
    rw [hready]
    exact h.ready i a hi ha
  · exact hcalls ▸ h.began

theorem fresh (now : Nat) : Chained (.fresh now) := by
  refine ⟨?_, fun _ _ => rfl, nofun, nofun, nofun, nofun, nofun, nofun, nofun⟩
  have hseat : (State.fresh now).seatOf = fun _ => none := rfl
  rw [hseat]
  exact .empty

end Chained

/-! ### What CMS has answered -/

/-- The requests of a key are answered in the order of the chain, and those of stops that are over all are. -/
structure Answered (s : State) : Prop where
  placed : ∀ e ∈ s.executed, ∃ a, (s.calls e.call).seat = some a ∧ (s.calls e.call).phase.isOver = true
  order : s.executed.Pairwise fun x y => ∀ a b, (s.calls x.call).seat = some a → (s.calls y.call).seat = some b →
    a.key = b.key → a.promise < b.promise
  stops : ∀ j b, (s.calls j).seat = some b → (s.calls j).phase.isOver = true → (s.calls j).method.isStart = false →
    ∃ e ∈ s.executed, e.call = j

namespace Answered

variable {s s' : State}

/-- Nothing is answered, and the calls with a place keep it. -/
theorem keep (h : Answered s) (hexecuted : s'.executed = s.executed)
    (hold : ∀ j a, (s.calls j).seat = some a → (s'.calls j).seat = some a ∧
      ((s.calls j).phase.isOver = true → (s'.calls j).phase.isOver = true))
    (hnew : ∀ j b, (s'.calls j).seat = some b → (s'.calls j).phase.isOver = true → (s'.calls j).method.isStart = false →
      (s.calls j).seat = some b ∧ (s.calls j).phase.isOver = true ∧ (s.calls j).method.isStart = false) :
    Answered s' := by
  refine ⟨fun e he => ?_, ?_, fun j b hj hover hstop => ?_⟩
  · rw [hexecuted] at he
    obtain ⟨a, ha, hover⟩ := h.placed e he
    exact ⟨a, (hold _ a ha).1, (hold _ a ha).2 hover⟩
  · rw [hexecuted]
    refine h.order.imp_of_mem fun {x y} hx hy hxy a b ha hb => ?_
    obtain ⟨a', ha', -⟩ := h.placed x hx
    obtain ⟨b', hb', -⟩ := h.placed y hy
    obtain rfl := Option.some.inj (ha.symm.trans (hold _ a' ha').1)
    obtain rfl := Option.some.inj (hb.symm.trans (hold _ b' hb').1)
    exact hxy a b ha' hb'
  · obtain ⟨hj, hover, hstop⟩ := hnew j b hj hover hstop
    rw [hexecuted]
    exact h.stops j b hj hover hstop

/-- CMS answers a request. -/
theorem answer (h : Answered s) (hc : Chained s) {i : Nat} {a : Seat LeaseKey} (hsent : (s.calls i).phase = .sent)
    (hi : (s.calls i).seat = some a) (result : Option WatcherResponse) (e : Executed) (he : e.call = i) :
    Answered ({ s with executed := s.executed ++ [e] }.settle i a result) := by
  have hseat : ∀ j, (({ s with executed := s.executed ++ [e] }.settle i a result).calls j).seat = (s.calls j).seat :=
    fun j => setPhase_seat ..
  have hself : (({ s with executed := s.executed ++ [e] }.settle i a result).calls i).phase = .settled result :=
    setPhase_self ..
  have hother : ∀ {j}, j ≠ i → (({ s with executed := s.executed ++ [e] }.settle i a result).calls j).phase =
      (s.calls j).phase := fun hne => setPhase_of_ne _ _ hne
  refine ⟨fun x hx => ?_, ?_, fun j b hj hover hstop => ?_⟩
  · by_cases hxi : x.call = i
    · rw [hxi, hself, hseat]
      exact ⟨a, hi, rfl⟩
    · rcases List.mem_append.1 hx with hx | hx
      · obtain ⟨b, hb, hover⟩ := h.placed x hx
        exact ⟨b, (hseat _).trans hb, by rwa [hother hxi]⟩
      · rw [List.mem_singleton.1 hx, he] at hxi
        exact absurd rfl hxi
  · refine List.pairwise_append.2 ⟨?_, List.pairwise_singleton _ _, fun x hx y hy b c hb hc' hkey => ?_⟩
    · simpa only [hseat] using h.order
    · -- a call that was answered before is not behind the one that is answered now
      rw [List.mem_singleton.1 hy, hseat, he, hi] at hc'
      obtain rfl := Option.some.inj hc'
      rw [hseat] at hb
      obtain ⟨b', hb', hover⟩ := h.placed x hx
      obtain rfl := Option.some.inj (hb'.symm.trans hb)
      by_contra hlt
      have hne : b'.promise ≠ a.promise := fun heq => by
        have hxi := hc.distinct _ _ _ _ hb hi heq
        rw [hxi, hsent] at hover
        cases hover
      have hbefore := hc.began i x.call a b' hi hb hkey.symm (by omega) (Phase.begun_of_over hover)
      rw [hsent] at hbefore
      cases hbefore
  · rw [hseat] at hj
    have hmethod : (({ s with executed := s.executed ++ [e] }.settle i a result).calls j).method = (s.calls j).method :=
      setPhase_method ..
    rw [hmethod] at hstop
    by_cases hji : j = i
    · exact ⟨e, List.mem_append_right _ (List.mem_singleton_self _), he.trans hji.symm⟩
    · rw [hother hji] at hover
      obtain ⟨x, hx, hxj⟩ := h.stops j b hj hover hstop
      exact ⟨x, List.mem_append_left _ hx, hxj⟩

end Answered

/-! ### The leases -/

structure Leased (s : State) : Prop where
  leaseIds : ∀ k l, s.statdumpLeases.get? k = some l → l.id < s.leases
  startIds : ∀ i n, (s.calls i).lease = some n → n < s.leases
  seenIds : ∀ i n, (s.calls i).method = .stop (some n) → n < s.leases
  /-- A start makes a newer lease than any that a stop before it has read. -/
  newer : ∀ i j a b m n, (s.calls i).seat = some a → (s.calls i).lease = some m → (s.calls j).seat = some b →
    (s.calls j).method = .stop (some n) → b.promise < a.promise → n < m
  starts : ∀ i a, (s.calls i).seat = some a → (s.calls i).method.isStart = true → ∃ m, (s.calls i).lease = some m
  stops : ∀ i, (s.calls i).method.isStart = false → (s.calls i).lease = none
  /-- The lease of a start, or a newer one, is there, or a stop is behind the start. -/
  leased : ∀ i a m, (s.calls i).seat = some a → (s.calls i).lease = some m →
    (∃ l, s.statdumpLeases.get? a.key = some l ∧ m ≤ l.id) ∨
      ∃ j b, (s.calls j).seat = some b ∧ (s.calls j).method.isStart = false ∧ b.key = a.key ∧ a.promise < b.promise

namespace Leased

variable {s s' : State} {i : Nat}

/-- A call changes its phase. -/
theorem setPhase (h : Leased s) (phase : Phase) : Leased (s.setPhase i phase) where
  leaseIds := h.leaseIds
  startIds j n := by
    rw [setPhase_lease]
    exact h.startIds j n
  seenIds j n := by
    rw [setPhase_method]
    exact h.seenIds j n
  newer j j' a b m n := by
    rw [setPhase_seat, setPhase_lease, setPhase_seat, setPhase_method]
    exact h.newer j j' a b m n
  starts j a := by
    rw [setPhase_seat, setPhase_method, setPhase_lease]
    exact h.starts j a
  stops j := by
    rw [setPhase_method, setPhase_lease]
    exact h.stops j
  leased j a m := by
    simp only [setPhase_seat, setPhase_lease, setPhase_method]
    exact h.leased j a m

theorem same (h : Leased s) (hcalls : s'.calls = s.calls) (hleases : s'.statdumpLeases = s.statdumpLeases)
    (hcount : s'.leases = s.leases) : Leased s' := by
  constructor
  · exact hleases ▸ hcount ▸ h.leaseIds
  · exact hcalls ▸ hcount ▸ h.startIds
  · exact hcalls ▸ hcount ▸ h.seenIds
  · exact hcalls ▸ h.newer
  · exact hcalls ▸ h.starts
  · exact hcalls ▸ h.stops
  · exact hcalls ▸ hleases ▸ h.leased

theorem settle (h : Leased s) (a : Seat LeaseKey) (result : Option WatcherResponse) : Leased (s.settle i a result) :=
  Leased.setPhase (s := { s with statdumpCalls := s.statdumpCalls.settle a }) (h.same rfl rfl rfl) _

/-- A start arrives, which has no place yet. -/
theorem arrive (h : Leased s) {c : Call} (hcalls : s'.calls = Function.update s.calls i c)
    (hleases : s'.statdumpLeases = s.statdumpLeases) (hcount : s'.leases = s.leases) (hold : (s.calls i).seat = none)
    (hseat : c.seat = none) (hlease : c.lease = none) (hmethod : c.method = .start) : Leased s' := by
  have hself : s'.calls i = c := by rw [hcalls, Function.update_self]
  have hother : ∀ {j}, j ≠ i → s'.calls j = s.calls j := fun hne => by rw [hcalls, Function.update_of_ne hne]
  have hsame : ∀ {j a}, (s'.calls j).seat = some a → s'.calls j = s.calls j := by
    intro j a hj
    refine hother ?_
    rintro rfl
    rw [hself, hseat] at hj
    cases hj
  refine ⟨hleases ▸ hcount ▸ h.leaseIds, fun j n hj => ?_, fun j n hj => ?_, fun j j' a b m n ha hm hb hn hlt => ?_,
    fun j a ha hstart => ?_, fun j hstop => ?_, fun j a m ha hm => ?_⟩
  · by_cases hji : j = i
    · subst hji
      rw [hself, hlease] at hj
      cases hj
    · exact hcount ▸ h.startIds j n (hother hji ▸ hj)
  · by_cases hji : j = i
    · subst hji
      rw [hself, hmethod] at hj
      cases hj
    · exact hcount ▸ h.seenIds j n (hother hji ▸ hj)
  · have hja := hsame ha
    have hjb := hsame hb
    rw [hja] at ha hm
    rw [hjb] at hb hn
    exact h.newer j j' a b m n ha hm hb hn hlt
  · have hja := hsame ha
    rw [hja] at ha hstart ⊢
    exact h.starts j a ha hstart
  · have hji : j ≠ i := by
      rintro rfl
      rw [hself, hmethod] at hstop
      cases hstop
    rw [hother hji] at hstop ⊢
    exact h.stops j hstop
  · have hja := hsame ha
    rw [hja] at ha hm
    rw [hleases]
    refine (h.leased j a m ha hm).imp_right fun ⟨j', b, hb, hrest⟩ => ⟨j', b, ?_⟩
    have hji : j' ≠ i := by
      rintro rfl
      cases hold.symm.trans hb
    rw [hother hji]
    exact ⟨hb, hrest⟩

/-- A start renews the lease and joins the chain. -/
theorem renew (h : Leased s) {c : Call} (hcalls : s'.calls = Function.update s.calls i c)
    (hleases : ∃ userId, s'.statdumpLeases = s.statdumpLeases.set c.key ⟨s.leases, userId, s.now⟩)
    (hcount : s'.leases = s.leases + 1) (hold : (s.calls i).seat = none)
    (hseat : c.seat = some (s.statdumpCalls.seatFor c.key)) (hlease : c.lease = some s.leases)
    (hmethod : c.method = .start) : Leased s' := by
  obtain ⟨userId, hleases⟩ := hleases
  have hself : s'.calls i = c := by rw [hcalls, Function.update_self]
  have hother : ∀ {j}, j ≠ i → s'.calls j = s.calls j := fun hne => by rw [hcalls, Function.update_of_ne hne]
  have hget : ∀ k, s'.statdumpLeases.get? k =
      if k = c.key then some ⟨s.leases, userId, s.now⟩ else s.statdumpLeases.get? k := fun k => by
    rw [hleases, Dict.get?_set]
  refine ⟨fun k l hl => ?_, fun j n hj => ?_, fun j n hj => ?_, fun j j' a b m n ha hm hb hn hlt => ?_,
    fun j a ha hstart => ?_, fun j hstop => ?_, fun j a m ha hm => ?_⟩
  · rw [hget] at hl
    rw [hcount]
    split at hl
    · cases hl
      exact Nat.lt_succ_self _
    · exact Nat.lt_succ_of_lt (h.leaseIds k l hl)
  · rw [hcount]
    by_cases hji : j = i
    · subst hji
      rw [hself, hlease] at hj
      exact Option.some.inj hj ▸ Nat.lt_succ_self _
    · exact Nat.lt_succ_of_lt (h.startIds j n (hother hji ▸ hj))
  · rw [hcount]
    by_cases hji : j = i
    · subst hji
      rw [hself, hmethod] at hj
      cases hj
    · exact Nat.lt_succ_of_lt (h.seenIds j n (hother hji ▸ hj))
  · have hji' : j' ≠ i := by
      rintro rfl
      rw [hself, hmethod] at hn
      cases hn
    rw [hother hji'] at hb hn
    by_cases hji : j = i
    · subst hji
      rw [hself, hlease] at hm
      exact Option.some.inj hm ▸ h.seenIds j' n hn
    · rw [hother hji] at ha hm
      exact h.newer j j' a b m n ha hm hb hn hlt
  · by_cases hji : j = i
    · subst hji
      rw [hself]
      exact ⟨_, hlease⟩
    · rw [hother hji] at ha hstart ⊢
      exact h.starts j a ha hstart
  · have hji : j ≠ i := by
      rintro rfl
      rw [hself, hmethod] at hstop
      cases hstop
    rw [hother hji] at hstop ⊢
    exact h.stops j hstop
  · by_cases hji : j = i
    · subst hji
      rw [hself, hseat] at ha
      rw [hself, hlease] at hm
      cases ha
      cases hm
      exact .inl ⟨_, (hget _).trans (if_pos rfl), Nat.le_refl _⟩
    · rw [hother hji] at ha hm
      rcases h.leased j a m ha hm with ⟨l, hl, hle⟩ | ⟨j', b, hb, hrest⟩
      · refine .inl ?_
        rw [hget]
        split
        · exact ⟨_, rfl, Nat.le_of_lt (h.startIds j m hm)⟩
        · exact ⟨l, hl, hle⟩
      · have hji' : j' ≠ i := by
          rintro rfl
          cases hold.symm.trans hb
        refine .inr ⟨j', b, ?_⟩
        rw [hother hji']
        exact ⟨hb, hrest⟩

/-- A stop joins the chain, and the sweep's stop drops the lease with that. -/
theorem stop (h : Leased s) (hc : Chained s) {c : Call} (hcalls : s'.calls = Function.update s.calls i c)
    (hwithin : ∀ k l, s'.statdumpLeases.get? k = some l → s.statdumpLeases.get? k = some l)
    (hsame : ∀ k, k ≠ c.key → s'.statdumpLeases.get? k = s.statdumpLeases.get? k) (hcount : s'.leases = s.leases)
    (hold : (s.calls i).seat = none) (hseat : c.seat = some (s.statdumpCalls.seatFor c.key)) (hlease : c.lease = none)
    (hmethod : c.method.isStart = false) (hseen : ∀ n, c.method = .stop (some n) → n < s.leases) : Leased s' := by
  have hself : s'.calls i = c := by rw [hcalls, Function.update_self]
  have hother : ∀ {j}, j ≠ i → s'.calls j = s.calls j := fun hne => by rw [hcalls, Function.update_of_ne hne]
  have hstart : ∀ {j m}, (s'.calls j).lease = some m → j ≠ i := by
    rintro j m hj rfl
    rw [hself, hlease] at hj
    cases hj
  refine ⟨fun k l hl => hcount ▸ h.leaseIds k l (hwithin k l hl), fun j n hj => ?_, fun j n hj => ?_,
    fun j j' a b m n ha hm hb hn hlt => ?_, fun j a ha hj => ?_, fun j hstop => ?_, fun j a m ha hm => ?_⟩
  · have hji := hstart hj
    exact hcount ▸ h.startIds j n (hother hji ▸ hj)
  · rw [hcount]
    by_cases hji : j = i
    · subst hji
      exact hseen n (hself ▸ hj)
    · exact h.seenIds j n (hother hji ▸ hj)
  · have hji := hstart hm
    rw [hother hji] at ha hm
    by_cases hji' : j' = i
    · subst hji'
      rw [hself, hseat] at hb
      cases hb
      exact absurd (hc.made j a ha) (Nat.lt_asymm hlt)
    · rw [hother hji'] at hb hn
      exact h.newer j j' a b m n ha hm hb hn hlt
  · have hji : j ≠ i := by
      rintro rfl
      rw [hself, hmethod] at hj
      cases hj
    rw [hother hji] at ha hj ⊢
    exact h.starts j a ha hj
  · by_cases hji : j = i
    · subst hji
      rw [hself, hlease]
    · rw [hother hji] at hstop ⊢
      exact h.stops j hstop
  · have hji := hstart hm
    rw [hother hji] at ha hm
    by_cases hkey : a.key = c.key
    · refine .inr ⟨i, s.statdumpCalls.seatFor c.key, by rw [hself, hseat], ?_, hkey.symm, hc.made j a ha⟩
      rw [hself]
      exact hmethod
    · rw [hsame a.key hkey]
      refine (h.leased j a m ha hm).imp_right fun ⟨j', b, hb, hrest⟩ => ⟨j', b, ?_⟩
      have hji' : j' ≠ i := by
        rintro rfl
        cases hold.symm.trans hb
      rw [hother hji']
      exact ⟨hb, hrest⟩

/-- A stop that succeeded drops the lease that it read, if that is still the one. -/
theorem dropLease (h : Leased s) (hc : Chained s) {lease : Option Nat} {b : Seat LeaseKey}
    (hi : (s.calls i).seat = some b) (hmethod : (s.calls i).method = .stop lease) :
    Leased (s.dropLease (s.calls i).key lease) := by
  unfold State.dropLease
  split
  · rename_i hread
    have hkey := hc.key i b hi
    refine { h with leaseIds := fun k l hl => ?_, leased := fun j a m ha hm => ?_ }
    · rw [Dict.get?_erase] at hl
      split at hl
      · cases hl
      · exact h.leaseIds k l hl
    · rcases h.leased j a m ha hm with ⟨l, hl, hle⟩ | hstop
      · by_cases hk : a.key = (s.calls i).key
        · -- the lease is the one that the stop read, so the start is before the stop
          rw [← hk, hl] at hread
          have hread : lease = some l.id := hread.symm
          subst hread
          refine .inr ⟨i, b, hi, by rw [hmethod]; rfl, hkey.trans hk.symm, ?_⟩
          by_contra hlt
          have hne : b.promise ≠ a.promise := fun heq => by
            have hij := hc.distinct i j b a hi ha heq
            have hnone := h.stops i (by rw [hmethod]; rfl)
            rw [hij, hm] at hnone
            cases hnone
          have hnewer := h.newer j i a b m l.id ha hm hi hmethod (by omega)
          omega
        · refine .inl ⟨l, ?_, hle⟩
          rw [Dict.get?_erase, if_neg hk]
          exact hl
      · exact .inr hstop
  · exact h

end Leased

/-! ### Every step keeps it -/

structure Watched (s : State) : Prop where
  chained : Chained s
  answered : Answered s
  leased : Leased s

/-- No stop fails before CMS has it. -/
def StopsSent (s : State) : Act → Prop
  | .fail i => (s.calls i).method.isStart = true
  | _ => True

instance (s : State) (a : Act) : Decidable (StopsSent s a) := by
  unfold StopsSent
  split <;> infer_instance

namespace Chained

/-- A call that was not in a chain has no place. -/
theorem seat_none {s : State} (h : Chained s) {i : Nat} (hwaiting : (s.calls i).phase.waiting = false)
    (hover : (s.calls i).phase.isOver = false) : (s.calls i).seat = none := by
  by_contra hsome
  obtain ⟨a, ha⟩ := Option.ne_none_iff_exists'.1 hsome
  rcases h.placed i a ha with h' | h'
  · rw [hwaiting] at h'
    cases h'
  · rw [hover] at h'
    cases h'

end Chained

namespace Watched

variable {s s' : State} {i : Nat}

/-- A call joins a chain: nothing is answered with that. -/
theorem answered_join (h : Watched s) {c : Call} (hcalls : s'.calls = Function.update s.calls i c)
    (hexecuted : s'.executed = s.executed) (hold : (s.calls i).seat = none) (hover : c.phase.isOver = false) :
    Answered s' := by
  refine h.answered.keep hexecuted (fun j a ha => ?_) fun j b hb hj hstop => ?_
  · have hji : j ≠ i := by
      rintro rfl
      cases hold.symm.trans ha
    rw [hcalls, Function.update_of_ne hji]
    exact ⟨ha, fun h' => h'⟩
  · have hji : j ≠ i := by
      rintro rfl
      rw [hcalls, Function.update_self, hover] at hj
      cases hj
    rw [hcalls, Function.update_of_ne hji] at hb hj hstop
    exact ⟨hb, hj, hstop⟩

/-- A call changes its phase, and nothing is answered with that. -/
theorem answered_setPhase (h : Answered s) {phase : Phase} (hover : (s.calls i).phase.isOver = true → phase.isOver = true)
    (hnew : phase.isOver = true → (s.calls i).seat = none ∨ (s.calls i).phase.isOver = true ∨
      (s.calls i).method.isStart = true) : Answered (s.setPhase i phase) := by
  refine h.keep rfl (fun j a ha => ⟨by rwa [setPhase_seat], fun hj => ?_⟩) fun j b hb hj hstop => ?_
  · by_cases hji : j = i
    · subst hji
      rw [setPhase_self]
      exact hover hj
    · rwa [setPhase_of_ne _ _ hji]
  · rw [setPhase_seat] at hb
    rw [setPhase_method] at hstop
    refine ⟨hb, ?_, hstop⟩
    by_cases hji : j = i
    · subst hji
      rw [setPhase_self] at hj
      rcases hnew hj with hnone | hover' | hstart
      · cases hnone.symm.trans hb
      · exact hover'
      · rw [hstop] at hstart
        cases hstart
    · rwa [setPhase_of_ne _ _ hji] at hj

theorem sweepLease (h : Watched s) (e : LeaseKey × Lease) : Watched (s.sweepLease e) := by
  have habsent := h.chained.undrawn s.nextCall (Nat.le_refl _)
  have hnone : (s.calls s.nextCall).seat = none :=
    h.chained.seat_none (by rw [habsent]; rfl) (by rw [habsent]; rfl)
  refine ⟨?_, ?_, ?_⟩
  · exact h.chained.join rfl rfl rfl rfl (Nat.le_succ _) (Nat.lt_succ_self _) (by rw [habsent]; rfl)
      (by rw [habsent]; rfl)
  · exact h.answered_join rfl rfl hnone rfl
  · refine h.leased.stop h.chained rfl (fun k l hl => ?_) (fun k hk => ?_) rfl hnone rfl rfl rfl nofun
    · change (s.statdumpLeases.erase e.1).get? k = some l at hl
      rw [Dict.get?_erase] at hl
      split at hl
      · cases hl
      · exact hl
    · change (s.statdumpLeases.erase e.1).get? k = _
      rw [Dict.get?_erase, if_neg hk]

theorem sweepAll (h : Watched s) (l : List (LeaseKey × Lease)) : Watched (l.foldl State.sweepLease s) := by
  induction l generalizing s with
  | nil => exact h
  | cons e l ih => exact ih (h.sweepLease e)

/-- A change that no call and no lease takes part in. -/
theorem same (h : Watched s) (hcalls : s'.calls = s.calls) (hn : s'.nextCall = s.nextCall)
    (horderly : Orderly s'.statdumpCalls s.seatOf) (hmade : s'.statdumpCalls.made = s.statdumpCalls.made)
    (hresolved : s'.statdumpCalls.resolved = s.statdumpCalls.resolved) (hexecuted : s'.executed = s.executed)
    (hleases : s'.statdumpLeases = s.statdumpLeases) (hcount : s'.leases = s.leases) : Watched s' where
  chained := h.chained.same hcalls hn horderly hmade hresolved
  answered := h.answered.keep hexecuted (fun j a ha => by rw [hcalls]; exact ⟨ha, fun h' => h'⟩) fun j b hb hj hstop => by
    rw [hcalls] at hb hj hstop
    exact ⟨hb, hj, hstop⟩
  leased := h.leased.same hcalls hleases hcount

/-- A call outside the chain changes its phase, for good. -/
theorem setPhase (h : Watched s) {phase : Phase} (hdrawn : (s.calls i).phase ≠ .absent)
    (hold : (s.calls i).phase.waiting = false) (hseat : (s.calls i).phase.isOver = true ∨ (s.calls i).seat = none)
    (hnew : phase.waiting = false) (hover : phase.isOver = true)
    (hplaced : phase.placed = true → (s.calls i).seat.isSome = true) : Watched (s.setPhase i phase) where
  chained := h.chained.outside (h.chained.drawn hdrawn) hold hseat hnew hover hplaced
  answered := answered_setPhase h.answered (fun _ => hover) fun _ => hseat.symm.imp_right .inl
  leased := h.leased.setPhase phase

/-- The caller of a stop drops the lease that it read. -/
theorem dropLease (h : Watched s) {lease : Option Nat} {b : Seat LeaseKey} (hi : (s.calls i).seat = some b)
    (hmethod : (s.calls i).method = .stop lease) : Watched (s.dropLease (s.calls i).key lease) := by
  have hleased := h.leased.dropLease h.chained hi hmethod
  unfold State.dropLease at hleased ⊢
  split at hleased
  · rename_i hread
    rw [if_pos hread]
    exact ⟨h.chained.same rfl rfl h.chained.orderly rfl rfl,
      h.answered.keep rfl (fun j a ha => ⟨ha, fun h' => h'⟩) fun j b hb hj hstop => ⟨hb, hj, hstop⟩, hleased⟩
  · rename_i hread
    rw [if_neg hread]
    exact h

theorem finish (h : Watched s) {result : Option WatcherResponse} (hsettled : (s.calls i).phase = .settled result) :
    Watched (s.finish i result) := by
  have hover : (s.calls i).phase.isOver = true := by rw [hsettled]; rfl
  have hwaiting : (s.calls i).phase.waiting = false := by rw [hsettled]; rfl
  have hdrawn : (s.calls i).phase ≠ .absent := by rw [hsettled]; exact nofun
  have hseated : (s.calls i).seat.isSome = true := h.chained.seated i (by rw [hsettled]; rfl)
  unfold State.finish
  split
  · exact h.setPhase hdrawn hwaiting (.inl hover) rfl rfl nofun
  · rename_i response lease hmethod
    obtain ⟨b, hi⟩ := Option.isSome_iff_exists.1 hseated
    have hsame : (s.dropLease (s.calls i).key lease).calls = s.calls := by
      unfold State.dropLease
      split <;> rfl
    refine (h.dropLease hi hmethod).setPhase ?_ ?_ ?_ rfl rfl fun _ => ?_
    · rwa [hsame]
    · rwa [hsame]
    · rw [hsame]
      exact .inl hover
    · rwa [hsame]
  · exact h.setPhase hdrawn hwaiting (.inl hover) rfl rfl fun _ => hseated

theorem step (h : Watched s) {a : Act} (hok : StopsSent s a) (hstep : Statdump.step s a = some s') : Watched s' := by
  cases a with
  | tick ms =>
    cases hstep
    exact h.same rfl rfl h.chained.orderly rfl rfl rfl rfl rfl
  | forget key =>
    cases hstep
    exact h.same rfl rfl (h.chained.orderly.forget key) rfl rfl rfl rfl rfl
  | startStatDumpWatcher userId hostUid dbname =>
    cases hstep
    have habsent := h.chained.undrawn s.nextCall (Nat.le_refl _)
    have hnone := h.chained.seat_none (i := s.nextCall) (by rw [habsent]; rfl) (by rw [habsent]; rfl)
    exact ⟨h.chained.arrive rfl rfl rfl rfl rfl, h.answered_join rfl rfl hnone rfl,
      h.leased.arrive rfl rfl rfl hnone rfl rfl rfl⟩
  | stopStatDumpWatcher userId hostUid dbname =>
    cases hstep
    have habsent := h.chained.undrawn s.nextCall (Nat.le_refl _)
    have hnone := h.chained.seat_none (i := s.nextCall) (by rw [habsent]; rfl) (by rw [habsent]; rfl)
    refine ⟨?_, h.answered_join rfl rfl hnone rfl, ?_⟩
    · exact h.chained.join rfl rfl rfl rfl (Nat.le_succ _) (Nat.lt_succ_self _) (by rw [habsent]; rfl)
        (by rw [habsent]; rfl)
    · refine h.leased.stop h.chained rfl (fun _ _ hl => hl) (fun _ _ => rfl) rfl hnone rfl rfl rfl fun n hn => ?_
      obtain ⟨l, hl, rfl⟩ := Option.map_eq_some_iff.1 (Method.stop.inj hn)
      exact h.leased.leaseIds _ l hl
  | sweepExpiredStatdumpLeases =>
    cases hstep
    exact h.sweepAll _
  | loggedIn i =>
    simp only [Statdump.step, Option.ite_none_right_eq_some, Option.some.injEq] at hstep
    obtain ⟨hlogin, rfl⟩ := hstep
    have hdrawn := h.chained.drawn (i := i) (by rw [hlogin]; exact nofun)
    have hnone := h.chained.seat_none (i := i) (by rw [hlogin]; rfl) (by rw [hlogin]; rfl)
    refine ⟨?_, h.answered_join rfl rfl hnone rfl, ?_⟩
    · exact h.chained.join rfl rfl rfl rfl (Nat.le_refl _) hdrawn (by rw [hlogin]; rfl) (by rw [hlogin]; rfl)
    · exact h.leased.renew rfl ⟨_, rfl⟩ rfl hnone rfl rfl rfl
  | loginFailed i =>
    simp only [Statdump.step, Option.ite_none_right_eq_some, Option.some.injEq] at hstep
    obtain ⟨hlogin, rfl⟩ := hstep
    have hnone := h.chained.seat_none (i := i) (by rw [hlogin]; rfl) (by rw [hlogin]; rfl)
    exact h.setPhase (by rw [hlogin]; exact nofun) (by rw [hlogin]; rfl) (.inr hnone) rfl rfl nofun
  | send i =>
    simp only [Statdump.step] at hstep
    split at hstep
    · rename_i a hqueued hi
      simp only [Option.ite_none_right_eq_some, Option.some.injEq] at hstep
      obtain ⟨hready, rfl⟩ := hstep
      exact ⟨h.chained.send hqueued hi hready,
        answered_setPhase h.answered (fun hover => by rw [hqueued] at hover; cases hover) nofun,
        h.leased.setPhase _⟩
    · cases hstep
  | answer i answer =>
    simp only [Statdump.step] at hstep
    split at hstep
    · rename_i a hsent hi
      cases hstep
      have hchained : ∀ e, Chained { s with executed := s.executed ++ [e] } := fun e =>
        h.chained.same rfl rfl h.chained.orderly rfl rfl
      have hleased : ∀ e, Leased { s with executed := s.executed ++ [e] } := fun e => h.leased.same rfl rfl rfl
      exact ⟨(hchained _).settle hsent hi _, h.answered.answer h.chained hsent hi _ _ rfl,
        (hleased _).settle _ _⟩
    · cases hstep
  | fail i =>
    simp only [Statdump.step] at hstep
    split at hstep
    · rename_i a hsent hi
      cases hstep
      refine ⟨h.chained.settle hsent hi none, ?_, h.leased.settle _ _⟩
      have hanswered : Answered { s with statdumpCalls := s.statdumpCalls.settle a } :=
        h.answered.keep rfl (fun j a ha => ⟨ha, fun h' => h'⟩) fun j b hb hj hstop => ⟨hb, hj, hstop⟩
      exact answered_setPhase hanswered (fun _ => rfl) fun _ => .inr (.inr hok)
    · cases hstep
  | resume i =>
    simp only [Statdump.step] at hstep
    split at hstep
    · rename_i result hsettled
      cases hstep
      exact h.finish hsettled
    · cases hstep

theorem fresh (now : Nat) : Watched (.fresh now) :=
  ⟨.fresh now, ⟨nofun, .nil, nofun⟩, ⟨nofun, nofun, nofun, nofun, nofun, fun _ _ => rfl, nofun⟩⟩

theorem run {now : Nat} {as : List Act} (hrun : Run Statdump.step StopsSent (.fresh now) as s) : Watched s :=
  hrun.invariant (fun _ _ _ hs hok hstep => hs.step hok hstep) (fresh now)

end Watched

/-! ### The main result -/

/-- No call of the key is queued or in flight. -/
def State.Quiet (s : State) (k : LeaseKey) : Prop := ∀ i, (s.calls i).key = k → (s.calls i).phase.waiting = false

/-- The last request of the key that CMS has answered. -/
def State.lastExecuted (s : State) (k : LeaseKey) : Option Executed :=
  (s.executed.filter fun e => (s.calls e.call).key = k).getLast?

namespace Watched

variable {s : State}

/-- Where the last request that CMS answered for a key is a start and all is quiet, the key has a lease. -/
theorem lease (h : Watched s) {k : LeaseKey} {e : Executed} (hquiet : s.Quiet k) (hlast : s.lastExecuted k = some e)
    (hstart : (s.calls e.call).method.isStart = true) : ∃ l, s.statdumpLeases.get? k = some l := by
  obtain ⟨l, hl⟩ := List.getLast?_eq_some_iff.1 hlast
  have hmem : e ∈ s.executed.filter fun e => (s.calls e.call).key = k := by
    rw [hl]
    exact List.mem_append_right _ (List.mem_singleton_self _)
  obtain ⟨he, hkey⟩ := List.mem_filter.1 hmem
  have hkey : (s.calls e.call).key = k := of_decide_eq_true hkey
  obtain ⟨a, ha, -⟩ := h.answered.placed e he
  have hak : a.key = k := (h.chained.key _ a ha).trans hkey
  obtain ⟨m, hm⟩ := h.leased.starts _ a ha hstart
  rcases h.leased.leased _ a m ha hm with ⟨lease, hlease, -⟩ | ⟨j, b, hb, hstop, hbk, hlt⟩
  · exact ⟨lease, hak ▸ hlease⟩
  · -- a stop behind the start is over, so CMS has answered it after the start
    exfalso
    have hjk : (s.calls j).key = k := (h.chained.key j b hb).symm.trans (hbk.trans hak)
    have hover : (s.calls j).phase.isOver = true :=
      (h.chained.placed j b hb).resolve_left (by rw [hquiet j hjk]; exact Bool.false_ne_true)
    obtain ⟨x, hx, rfl⟩ := h.answered.stops j b hb hover hstop
    have hxl : x ∈ l ++ [e] := by
      rw [← hl]
      exact List.mem_filter.2 ⟨hx, decide_eq_true hjk⟩
    have horder := h.answered.order.filter fun e => (s.calls e.call).key = k
    rw [hl, List.pairwise_append] at horder
    rcases List.mem_append.1 hxl with hxl | hxl
    · have hbefore := horder.2.2 x hxl e (List.mem_singleton_self _) b a hb ha hbk
      exact Nat.lt_asymm hlt hbefore
    · rw [List.mem_singleton.1 hxl, ha] at hb
      cases hb
      exact Nat.lt_irrefl _ hlt

/-- One request of a key is with CMS at a time. -/
theorem one_sent (h : Watched s) {i j : Nat} (hi : (s.calls i).phase = .sent) (hj : (s.calls j).phase = .sent)
    (hkey : (s.calls i).key = (s.calls j).key) : i = j := by
  obtain ⟨a, ha⟩ := Option.isSome_iff_exists.1 (h.chained.seated i (by rw [hi]; rfl))
  obtain ⟨b, hb⟩ := Option.isSome_iff_exists.1 (h.chained.seated j (by rw [hj]; rfl))
  have hi' : s.seatOf i = some a := by rw [State.seatOf, hi, ha]; rfl
  have hj' : s.seatOf j = some b := by rw [State.seatOf, hj, hb]; rfl
  refine h.chained.orderly.unique hi' hj' ?_ (h.chained.ready i a hi ha) (h.chained.ready j b hj hb)
  rw [h.chained.key i a ha, h.chained.key j b hb, hkey]

end Watched

/-- A sweep leaves the calls that are there as they are. -/
theorem sweepLease_keep (l : List (LeaseKey × Lease)) {s : State} {i : Nat} (hi : i < s.nextCall) :
    (l.foldl State.sweepLease s).calls i = s.calls i := by
  induction l generalizing s with
  | nil => rfl
  | cons e l ih =>
    have hkept : (s.sweepLease e).calls i = s.calls i := setCall_of_ne _ _ (Nat.ne_of_lt hi)
    exact (ih (Nat.lt_succ_of_lt hi)).trans hkept

/-- The sweep puts a stop into the chain of every lease that it drops. -/
theorem sweepLease_queues {l : List (LeaseKey × Lease)} {e : LeaseKey × Lease} (he : e ∈ l) (s : State) :
    ∃ i, ((l.foldl State.sweepLease s).calls i).key = e.1 ∧ ((l.foldl State.sweepLease s).calls i).method = .expire ∧
      ((l.foldl State.sweepLease s).calls i).phase = .queued := by
  induction l generalizing s with
  | nil => cases he
  | cons e' l ih =>
    rcases List.mem_cons.1 he with rfl | he
    · have hcall : (((e :: l).foldl State.sweepLease s).calls s.nextCall) = (s.sweepLease e).calls s.nextCall :=
        sweepLease_keep l (Nat.lt_succ_self _)
      have hnew : (s.sweepLease e).calls s.nextCall =
          ⟨.expire, e.2.userId, e.1, some (s.statdumpCalls.seatFor e.1), none, .queued⟩ := setCall_self ..
      exact ⟨s.nextCall, by rw [hcall, hnew], by rw [hcall, hnew], by rw [hcall, hnew]⟩
    · exact ih he (s.sweepLease e')

/-- In every run in which no stop fails before CMS has it: where all is quiet for a key and the last request that CMS
answered for it is a start, the key has a lease, and a sweep from the lease's end on queues a stop; and the requests of
a key go to CMS one at a time, in the order in which their calls joined the chain. -/
theorem statdump_leased {now : Nat} {as : List Act} {s : State} (hrun : Run step StopsSent (.fresh now) as s) :
    (∀ k e, s.Quiet k → s.lastExecuted k = some e → (s.calls e.call).method.isStart = true →
      ∃ l, s.statdumpLeases.get? k = some l) ∧
    (∀ k l s', s.statdumpLeases.get? k = some l → l.renewedAt + statdumpWatcherLeaseTtlMs ≤ s.now →
      step s .sweepExpiredStatdumpLeases = some s' →
        ∃ i, (s'.calls i).key = k ∧ (s'.calls i).method = .expire ∧ (s'.calls i).phase = .queued) ∧
    (∀ i j, (s.calls i).phase = .sent → (s.calls j).phase = .sent → (s.calls i).key = (s.calls j).key → i = j) ∧
    ∀ i j a b, (s.calls i).seat = some a → (s.calls j).seat = some b → (s.calls i).key = (s.calls j).key →
      a.promise < b.promise → (s.calls j).phase.begun = true → (s.calls i).phase.isOver = true := by
  have h := Watched.run hrun
  refine ⟨fun k e hquiet hlast hstart => h.lease hquiet hlast hstart, fun k l s' hl hexpired hstep => ?_,
    fun i j hi hj hkey => h.one_sent hi hj hkey, fun i j a b ha hb hkey hlt hbegun => ?_⟩
  · cases hstep
    refine sweepLease_queues (e := (k, l)) (List.mem_filter.2 ⟨Dict.get?_eq_some_iff.1 hl, ?_⟩) s
    exact decide_eq_true hexpired
  · refine h.chained.began i j a b ha hb ?_ hlt hbegun
    rw [h.chained.key i a ha, h.chained.key j b hb, hkey]

/-- A start, a stop that comes while the start is with CMS, and another start that comes while the stop is: the stop
leaves the lease of the second start alone. -/
def overlappingCalls : List Act :=
  [.startStatDumpWatcher "dba" "host1" "demodb", .loggedIn 0, .send 0, .stopStatDumpWatcher "dba" "host1" "demodb",
    .answer 0 .success, .resume 0, .send 1, .startStatDumpWatcher "user1" "host1" "demodb", .loggedIn 2,
    .answer 1 (.failure "No statdump running"), .resume 1, .send 2, .answer 2 .success, .resume 2,
    .forget (statdumpLeaseKey "host1" "demodb")]

theorem statdump_leased_overlap : ∃ s, Run step StopsSent (.fresh 0) overlappingCalls s ∧
    ∃ l, s.statdumpLeases.get? (statdumpLeaseKey "host1" "demodb") = some l := by
  have hrun : ∃ s, Run step StopsSent (.fresh 0) overlappingCalls s ∧ s.nextCall = 3 ∧
      (∀ i < 3, (s.calls i).phase.waiting = false) ∧
      ((s.lastExecuted (statdumpLeaseKey "host1" "demodb")).any fun e =>
        e.call = 2 ∧ (s.calls 2).method.isStart = true) = true := exists_run (by decide)
  obtain ⟨s, hrun, hnext, hover, hlast⟩ := hrun
  obtain ⟨e, he, hstart⟩ := (Option.any_eq_true _ _).1 hlast
  obtain ⟨hcall, hstart⟩ := of_decide_eq_true hstart
  have hquiet : s.Quiet (statdumpLeaseKey "host1" "demodb") := by
    intro i _
    by_cases hi : i < 3
    · exact hover i hi
    · rw [(Watched.run hrun).chained.undrawn i (hnext ▸ Nat.le_of_not_lt hi)]
      rfl
  exact ⟨s, hrun, (statdump_leased hrun).1 _ e hquiet he (hcall ▸ hstart)⟩

end CubridWebManager.Statdump
