import CubridWebManager.ApiClient.HostRelogin

/-!
# The circuit breaker of the silent re-login

As long as no successful answer of a host comes within the window of its failures, at most `autoReloginMaxAttempts` of
the failures in a window start another cycle, and every further one opens the reconnect modal; while the host is in
`reconnectingHosts`, none does either (`relogin_breaker_holds`).

The answer to the login of a cycle is such an answer.  It takes the host's count away each time the login succeeds, so
that a session which cannot be restored starts one cycle after another (`relogin_breaker_reset`).
-/

namespace CubridWebManager.ApiClient.HostRelogin

open Transition

/-! ### The property -/

/-- The failures of a host in one window, in order. -/
def State.failuresIn (s : State) (hostUid : HostUid) (windowStart : Nat) : List Failure :=
  s.failures.filter fun f => f.hostUid = hostUid ∧ f.windowStart = windowStart

/-- What the failures of a window led to, if there are `n`: cycles at first, then the modal. -/
def outcomes (n : Nat) : List Bool := (List.range n).map fun i => autoReloginMaxAttempts ≤ i

structure BreakerHolds (s : State) : Prop where
  attempts : ∀ hostUid windowStart,
    ((s.failuresIn hostUid windowStart).filter fun f => !f.tripped).length ≤ autoReloginMaxAttempts
  outcomes : ∀ hostUid windowStart, (s.failuresIn hostUid windowStart).map Failure.tripped =
    outcomes (s.failuresIn hostUid windowStart).length

/-- What a step does, seen from the breaker. -/
structure StepHolds (s s' : State) : Prop where
  /-- A call starts a cycle with a failure that is counted, of a host that is not reconnecting. -/
  starts : ∀ c, (s'.calls c).phase = .cycle .importing → (s.calls c).phase ≠ .cycle .importing →
    ∃ hostUid, (s.calls c).route.hostUid = some hostUid ∧ s.reconnectingHosts hostUid = false ∧
      s'.failures = s.failures ++ [⟨c, hostUid, s.window hostUid, false⟩]
  /-- A failure that trips the breaker puts the host among the reconnecting ones, and its call opens the modal. -/
  trips : ∀ f, s'.failures = s.failures ++ [f] → f.tripped = true →
    s'.reconnectingHosts f.hostUid = true ∧ (s'.calls f.call).phase = .openingModal

/-- No answer with success takes the count of a window away that runs. -/
def InWindow (s : State) : Act → Prop
  | .answer c _ => ((s.calls c).route.hostUid.bind s.hostAutoReloginFailures).all
      (fun entry => autoReloginWindowMs ≤ s.now - entry.windowStart) = true
  | _ => True

instance : ∀ (s : State) (a : Act), Decidable (InWindow s a)
  | _, .answer .. => inferInstanceAs (Decidable (_ = true))
  | _, .tick _ | _, .call _ | _, .fail _ | _, .unauthorized .. | _, .imported .. | _, .resume _
  | _, .clearReconnectingHost _ => isTrue trivial

/-! ### What a step can do -/

variable {s s' : State} {a : Act} {c : Nat}

/-- Nothing is counted, and no cycle starts. -/
structure Quiet (s s' : State) : Prop where
  failures : s'.failures = s.failures
  entries : s'.hostAutoReloginFailures = s.hostAutoReloginFailures
  now : s.now ≤ s'.now
  cycles : ∀ c, (s'.calls c).phase = .cycle .importing → (s.calls c).phase = .cycle .importing

namespace Quiet

theorem trans {s₁ s₂ s₃ : State} (h : Quiet s₁ s₂) (h' : Quiet s₂ s₃) : Quiet s₁ s₃ :=
  ⟨h'.failures.trans h.failures, h'.entries.trans h.entries, Nat.le_trans h.now h'.now,
    fun c hc => h.cycles c (h'.cycles c hc)⟩

theorem setCall (s : State) (c : Nat) {call : Call} (hphase : call.phase ≠ .cycle .importing) :
    Quiet s (s.setCall c call) := by
  refine ⟨rfl, rfl, Nat.le_refl _, fun c' hc' => ?_⟩
  by_cases heq : c' = c
  · rw [heq, State.setCall_self] at hc'
    exact (hphase hc').elim
  · rwa [State.setCall_of_ne s heq] at hc'

theorem setPhase (s : State) (c : Nat) {phase : Phase} (hphase : phase ≠ .cycle .importing) :
    Quiet s (s.setPhase c phase) := setCall s c hphase

theorem newCall (s : State) (route : Route) (phase : Phase) (hphase : phase ≠ .cycle .importing) :
    Quiet s (s.newCall route phase) :=
  have h : Quiet s (s.setCall s.nextCall ⟨route, s.now, false, phase⟩) := setCall s s.nextCall hphase
  ⟨h.failures, h.entries, h.now, h.cycles⟩

/-- The fields that the breaker does not read. -/
theorem aside (s : State) (lastLoginSuccessAt : HostUid → Option Nat) (reconnectingHosts : HostUid → Bool)
    (refreshingHosts : HostUid → Option Nat) (dispatched : List Dispatched) :
    Quiet s { s with
      lastLoginSuccessAt := lastLoginSuccessAt
      reconnectingHosts := reconnectingHosts
      refreshingHosts := refreshingHosts
      dispatched := dispatched } := ⟨rfl, rfl, Nat.le_refl _, fun _ => id⟩

theorem openModal (s : State) (c : Nat) (hostUid : HostUid) : Quiet s (s.openModal c hostUid) :=
  (aside s _ _ _ _).trans (setPhase _ c nofun)

theorem cycleFailed (s : State) (c : Nat) (hostUid : HostUid) : Quiet s (s.cycleFailed c hostUid) := by
  unfold State.cycleFailed
  simp only
  split
  · exact (aside s _ _ _ _).trans (setPhase _ c nofun)
  · exact (aside s _ _ _ _).trans (openModal _ c hostUid)

theorem silentLogin (s : State) (hostUid : HostUid) : Quiet s (s.silentLogin hostUid) :=
  (aside s _ _ _ _).trans (newCall _ _ .starting nofun)

theorem relogin (s : State) (c : Nat) (hostUid : HostUid) : Quiet s (s.relogin c hostUid) := by
  unfold State.relogin
  simp only
  split
  · exact (aside s _ _ _ _).trans (setPhase _ c nofun)
  · exact ((aside s _ _ _ _).trans (silentLogin _ hostUid)).trans (setPhase _ c nofun)

theorem retry (s : State) (c : Nat) (hostUid : HostUid) : Quiet s (s.retry c hostUid) :=
  (aside s _ _ _ _).trans (setCall _ c nofun)

end Quiet

/-- A 401 of a host's session that the breaker counts. -/
structure Counts (s : State) (c : Nat) (hostUid : HostUid) : Prop where
  sent : (s.calls c).phase = .sent
  host : (s.calls c).route.hostUid = some hostUid
  reconnecting : s.reconnectingHosts hostUid = false

theorem unauthorized_cases (hsent : (s.calls c).phase = .sent) (isAppSessionError isInvalidTokenError : Bool) :
    Quiet s (s.unauthorized c isAppSessionError isInvalidTokenError) ∨
    ∃ hostUid, Counts s c hostUid ∧ s.unauthorized c isAppSessionError isInvalidTokenError = s.countFailure c hostUid := by
  unfold State.unauthorized
  simp only
  split
  · exact .inl (.setPhase s c nofun)
  split
  · exact .inl (.setPhase s c nofun)
  rename_i hostUid hhost
  split
  · exact .inl (.setPhase s c nofun)
  split
  · exact .inl (.setPhase s c nofun)
  split
  · exact .inl (.setPhase s c nofun)
  rename_i hreconnecting
  split
  · exact .inl (.setPhase s c nofun)
  split
  · exact .inl (.openModal s c hostUid)
  · exact .inr ⟨hostUid, ⟨hsent, hhost, Bool.eq_false_iff.2 hreconnecting⟩, rfl⟩

/-- A step counts a failure, is an answer with success, or is quiet. -/
theorem step_cases (h : step s a = some s') :
    Quiet s s' ∨ (∃ c hostUid, Counts s c hostUid ∧ s' = s.countFailure c hostUid) ∨
      ∃ c accepted, a = .answer c accepted ∧ Quiet (s.answered c) s' := by
  cases a with
  | tick ms =>
    obtain rfl := Option.some.inj h
    exact .inl ⟨rfl, rfl, Nat.le_add_right _ _, fun _ => id⟩
  | call route =>
    obtain rfl := Option.some.inj h
    exact .inl (.newCall s route .sent nofun)
  | answer c accepted =>
    simp only [step] at h
    split at h
    · obtain rfl := Option.some.inj h
      exact .inr (.inr ⟨c, accepted, rfl, .setPhase _ c (by split <;> exact nofun)⟩)
    · cases h
  | fail c =>
    simp only [step] at h
    split at h
    · obtain rfl := Option.some.inj h
      exact .inl (.setPhase s c nofun)
    · cases h
  | unauthorized c isAppSessionError isInvalidTokenError =>
    simp only [step] at h
    split at h
    · rename_i hsent
      obtain rfl := Option.some.inj h
      rcases unauthorized_cases hsent isAppSessionError isInvalidTokenError with hquiet | ⟨hostUid, hcounts, heq⟩
      · exact .inl hquiet
      · exact .inr (.inl ⟨c, hostUid, hcounts, heq⟩)
    · cases h
  | imported c ok =>
    simp only [step] at h
    split at h
    · obtain rfl := Option.some.inj h
      split
      · exact .inl (.setCall s c nofun)
      · exact .inl (.setPhase s c nofun)
    · obtain rfl := Option.some.inj h
      split
      · exact .inl (.relogin s c _)
      · exact .inl (.cycleFailed s c _)
    · obtain rfl := Option.some.inj h
      split
      · exact .inl ((Quiet.aside s _ _ _ _).trans (.setPhase _ c nofun))
      · exact .inl ((Quiet.aside s _ _ _ _).trans (.setPhase _ c nofun))
    · cases h
  | resume c =>
    simp only [step] at h
    split at h
    · split at h
      · obtain rfl := Option.some.inj h
        exact .inl (.retry s c _)
      · obtain rfl := Option.some.inj h
        exact .inl (.cycleFailed s c _)
      · obtain rfl := Option.some.inj h
        exact .inl (.cycleFailed s c _)
      · cases h
    · cases h
  | clearReconnectingHost hostUid =>
    obtain rfl := Option.some.inj h
    exact .inl (.aside s _ _ _ _)

/-! ### The count -/

theorem lastWindow_congr (h : s'.failures = s.failures) (hostUid : HostUid) : s'.lastWindow hostUid = s.lastWindow hostUid := by
  rw [State.lastWindow, State.lastWindow, h]

theorem failuresIn_congr (h : s'.failures = s.failures) (hostUid : HostUid) (windowStart : Nat) :
    s'.failuresIn hostUid windowStart = s.failuresIn hostUid windowStart := by
  rw [State.failuresIn, State.failuresIn, h]

theorem lastWindow_append {f : Failure} (h : s'.failures = s.failures ++ [f]) (hostUid : HostUid) :
    s'.lastWindow hostUid = if f.hostUid = hostUid then some f.windowStart else s.lastWindow hostUid := by
  rw [State.lastWindow, h, List.filter_append]
  split
  · rename_i heq
    simp [heq]
  · rename_i hne
    simp [hne, State.lastWindow]

theorem failuresIn_append {f : Failure} (h : s'.failures = s.failures ++ [f]) (hostUid : HostUid) (windowStart : Nat) :
    s'.failuresIn hostUid windowStart =
      s.failuresIn hostUid windowStart ++ if f.hostUid = hostUid ∧ f.windowStart = windowStart then [f] else [] := by
  rw [State.failuresIn, h, List.filter_append, List.filter_cons, List.filter_nil]
  simp only [decide_eq_true_eq, State.failuresIn]

theorem exists_lastWindow {f : Failure} (hf : f ∈ s.failures) : ∃ w, s.lastWindow f.hostUid = some w := by
  have hmem : f ∈ s.failures.filter fun f' => f'.hostUid = f.hostUid :=
    List.mem_filter.2 ⟨hf, decide_eq_true rfl⟩
  rw [State.lastWindow, List.getLast?_eq_some_getLast (List.ne_nil_of_mem hmem)]
  exact ⟨_, rfl⟩

/-- The counter of a host, where there is one, is that of its last window; where there is none, no window runs. -/
structure Inv (s : State) : Prop where
  entry : ∀ hostUid entry, s.hostAutoReloginFailures hostUid = some entry → s.lastWindow hostUid = some entry.windowStart ∧
    entry.count = (s.failuresIn hostUid entry.windowStart).length
  none : ∀ hostUid w, s.hostAutoReloginFailures hostUid = none → s.lastWindow hostUid = some w →
    autoReloginWindowMs ≤ s.now - w
  past : ∀ f ∈ s.failures, f.windowStart ≤ s.now ∧ ∀ w, s.lastWindow f.hostUid = some w → f.windowStart ≤ w
  outcomes : ∀ hostUid windowStart, (s.failuresIn hostUid windowStart).map Failure.tripped =
    HostRelogin.outcomes (s.failuresIn hostUid windowStart).length

theorem Inv.fresh (now : Nat) : Inv (State.fresh now) where
  entry _ _ h := by cases h
  none _ _ _ h := by cases h
  past _ h := by cases h
  outcomes _ _ := rfl

/-- No failure falls into a window that begins now, when the last one is over. -/
theorem Inv.failuresIn_now (h : Inv s) {hostUid : HostUid}
    (hover : ∀ w, s.lastWindow hostUid = some w → autoReloginWindowMs ≤ s.now - w) : s.failuresIn hostUid s.now = [] := by
  rw [State.failuresIn, List.filter_eq_nil_iff]
  intro f hf hin
  obtain ⟨rfl, hnow⟩ := of_decide_eq_true hin
  obtain ⟨w, hw⟩ := exists_lastWindow hf
  have hle := (h.past f hf).2 w hw
  have hlong := hover w hw
  simp only [autoReloginWindowMs] at hlong
  omega

/-- The entry after another failure is that of the window the failure falls into, with one failure more. -/
theorem Inv.failureEntry (h : Inv s) (hostUid : HostUid) : (s.failureEntry hostUid).windowStart = s.window hostUid ∧
    (s.failureEntry hostUid).count = (s.failuresIn hostUid (s.window hostUid)).length + 1 := by
  unfold State.failureEntry State.window
  cases hentry : s.hostAutoReloginFailures hostUid with
  | some entry =>
    obtain ⟨hlast, hcount⟩ := h.entry hostUid entry hentry
    simp only [hlast]
    split
    · exact ⟨rfl, congrArg (· + 1) hcount⟩
    · rename_i hover
      refine ⟨rfl, ?_⟩
      rw [h.failuresIn_now fun w hw => ?_, List.length_nil]
      rw [hlast] at hw
      cases hw
      exact Nat.le_of_not_lt hover
  | none =>
    have hover := fun w => h.none hostUid w hentry
    have hempty : (s.failuresIn hostUid s.now).length = 0 := by rw [h.failuresIn_now hover, List.length_nil]
    cases hlast : s.lastWindow hostUid with
    | none => exact ⟨rfl, by rw [hempty]⟩
    | some w =>
      simp only [if_neg (Nat.not_lt.2 (hover w hlast))]
      exact ⟨trivial, by rw [hempty]⟩

theorem window_le (s : State) (hostUid : HostUid) (hpast : ∀ f ∈ s.failures, f.windowStart ≤ s.now) :
    s.window hostUid ≤ s.now := by
  unfold State.window
  cases hlast : s.lastWindow hostUid with
  | none => exact Nat.le_refl _
  | some w =>
    simp only
    split
    · obtain ⟨f, hf, rfl⟩ := Option.map_eq_some_iff.1 hlast
      exact hpast f ((List.mem_filter.1 (List.mem_of_getLast? hf)).1)
    · exact Nat.le_refl _

theorem le_window (s : State) {hostUid : HostUid} {w : Nat} (hw : s.lastWindow hostUid = some w) (hle : w ≤ s.now) :
    w ≤ s.window hostUid := by
  simp only [State.window, hw]
  split
  · exact Nat.le_refl _
  · exact hle

theorem outcomes_succ (n : Nat) : outcomes (n + 1) = outcomes n ++ [decide (autoReloginMaxAttempts ≤ n)] := by
  rw [outcomes, List.range_succ, List.map_append]
  rfl

/-! ### The steps -/

theorem Inv.quiet (h : Inv s) (hq : Quiet s s') : Inv s' where
  entry hostUid entry hentry := by
    rw [lastWindow_congr hq.failures, failuresIn_congr hq.failures]
    exact h.entry hostUid entry (hq.entries ▸ hentry)
  none hostUid w hentry hlast := by
    rw [lastWindow_congr hq.failures] at hlast
    exact Nat.le_trans (h.none hostUid w (hq.entries ▸ hentry) hlast) (Nat.sub_le_sub_right hq.now w)
  past f hf := by
    rw [lastWindow_congr hq.failures]
    rw [hq.failures] at hf
    exact ⟨Nat.le_trans (h.past f hf).1 hq.now, (h.past f hf).2⟩
  outcomes hostUid windowStart := by
    rw [failuresIn_congr hq.failures]
    exact h.outcomes hostUid windowStart

theorem answered_eq {hostUid : HostUid} (hhost : (s.calls c).route.hostUid = some hostUid) :
    (s.answered c).hostAutoReloginFailures = Function.update s.hostAutoReloginFailures hostUid none ∧
    (s.answered c).failures = s.failures ∧ (s.answered c).now = s.now := by
  unfold State.answered
  rw [hhost]
  exact ⟨rfl, rfl, rfl⟩

theorem Inv.answered (h : Inv s) {accepted : Bool} (hok : InWindow s (.answer c accepted)) : Inv (s.answered c) := by
  cases hhost : (s.calls c).route.hostUid with
  | none =>
    rw [State.answered, hhost]
    exact h
  | some hostUid =>
    obtain ⟨hentries, hfailures, hnow⟩ := answered_eq hhost
    refine ⟨fun hostUid' entry hentry => ?_, fun hostUid' w hentry hlast => ?_, fun f hf => ?_, fun hostUid' w => ?_⟩
    · rw [hentries] at hentry
      rw [lastWindow_congr hfailures, failuresIn_congr hfailures]
      by_cases heq : hostUid' = hostUid
      · rw [heq, Function.update_self] at hentry
        cases hentry
      · rw [Function.update_of_ne heq] at hentry
        exact h.entry hostUid' entry hentry
    · rw [hentries] at hentry
      rw [lastWindow_congr hfailures] at hlast
      rw [hnow]
      by_cases heq : hostUid' = hostUid
      · subst heq
        cases hentry' : s.hostAutoReloginFailures hostUid' with
        | none => exact h.none hostUid' w hentry' hlast
        | some entry =>
          rw [(h.entry hostUid' entry hentry').1] at hlast
          cases hlast
          simpa [InWindow, hhost, hentry'] using hok
      · rw [Function.update_of_ne heq] at hentry
        exact h.none hostUid' w hentry hlast
    · rw [hfailures] at hf
      rw [lastWindow_congr hfailures, hnow]
      exact h.past f hf
    · rw [failuresIn_congr hfailures]
      exact h.outcomes hostUid' w

/-- The failure that is counted, its entry, and what becomes of the call. -/
theorem countFailure_eq (s : State) (c : Nat) (hostUid : HostUid) :
    (s.countFailure c hostUid).failures = s.failures ++
      [⟨c, hostUid, s.window hostUid, decide (autoReloginMaxAttempts < (s.failureEntry hostUid).count)⟩] ∧
    (s.countFailure c hostUid).hostAutoReloginFailures =
      Function.update s.hostAutoReloginFailures hostUid (some (s.failureEntry hostUid)) ∧
    (s.countFailure c hostUid).now = s.now := by
  unfold State.countFailure
  simp only
  split <;> exact ⟨rfl, rfl, rfl⟩

theorem Inv.countFailure (h : Inv s) (c : Nat) (hostUid : HostUid) : Inv (s.countFailure c hostUid) := by
  obtain ⟨hfailures, hentries, hnow⟩ := countFailure_eq s c hostUid
  obtain ⟨hwindow, hcount⟩ := h.failureEntry hostUid
  refine ⟨fun hostUid' entry hentry => ?_, fun hostUid' w hentry hlast => ?_, fun f hf => ?_, fun hostUid' w => ?_⟩
  · rw [hentries] at hentry
    rw [lastWindow_append hfailures, failuresIn_append hfailures]
    by_cases heq : hostUid' = hostUid
    · subst heq
      rw [Function.update_self] at hentry
      cases hentry
      simp only [if_true, hwindow, true_and, List.length_append, List.length_singleton, hcount]
    · rw [Function.update_of_ne heq] at hentry
      simp only [if_neg (Ne.symm heq), if_neg (fun hand : hostUid = hostUid' ∧ _ => Ne.symm heq hand.1), List.append_nil]
      exact h.entry hostUid' entry hentry
  · rw [hentries] at hentry
    by_cases heq : hostUid' = hostUid
    · rw [heq, Function.update_self] at hentry
      cases hentry
    · rw [Function.update_of_ne heq] at hentry
      rw [lastWindow_append hfailures, if_neg (Ne.symm heq)] at hlast
      rw [hnow]
      exact h.none hostUid' w hentry hlast
  · have hpast := window_le s hostUid fun f hf => (h.past f hf).1
    rw [hnow, lastWindow_append hfailures]
    rw [hfailures] at hf
    rcases List.mem_append.1 hf with hf | hf
    · refine ⟨(h.past f hf).1, fun w hw => ?_⟩
      split at hw
      · rename_i heq
        cases hw
        obtain ⟨w', hw'⟩ := exists_lastWindow hf
        obtain ⟨f', hf', heq'⟩ := Option.map_eq_some_iff.1 hw'
        have hle' := (h.past f' ((List.mem_filter.1 (List.mem_of_getLast? hf')).1)).1
        rw [heq'] at hle'
        rw [← heq] at hw'
        exact Nat.le_trans ((h.past f hf).2 w' (heq ▸ hw')) (le_window s hw' hle')
      · exact (h.past f hf).2 w hw
    · rw [List.mem_singleton.1 hf]
      refine ⟨hpast, fun w hw => ?_⟩
      rw [if_pos rfl] at hw
      cases hw
      exact Nat.le_refl _
  · rw [failuresIn_append hfailures]
    split
    · rename_i heq
      obtain ⟨rfl, rfl⟩ := heq
      rw [List.map_append, h.outcomes, List.length_append, List.length_singleton, outcomes_succ, List.map_singleton, hcount]
      simp only [Nat.lt_succ_iff]
    · rw [List.append_nil]
      exact h.outcomes hostUid' w

theorem Inv.step (h : Inv s) (hok : InWindow s a) (hstep : HostRelogin.step s a = some s') : Inv s' := by
  rcases step_cases hstep with hquiet | ⟨c, hostUid, -, rfl⟩ | ⟨c, accepted, rfl, hquiet⟩
  · exact h.quiet hquiet
  · exact h.countFailure c hostUid
  · exact (h.answered hok).quiet hquiet

theorem inv_run {as : List Act} (h : Inv s) (hrun : Run step InWindow s as s') : Inv s' :=
  hrun.invariant (fun _ _ _ hi hok hstep => hi.step hok hstep) h

theorem cycles_outcomes (n : Nat) : ((outcomes n).filter fun tripped => !tripped).length ≤ autoReloginMaxAttempts := by
  induction n with
  | zero => exact Nat.zero_le _
  | succ n ih =>
    rw [outcomes_succ, List.filter_append, List.length_append]
    by_cases hn : autoReloginMaxAttempts ≤ n
    · simpa [hn] using ih
    · have hlength : ((outcomes n).filter fun tripped => !tripped).length ≤ n :=
        Nat.le_trans (List.length_filter_le _ _) (Nat.le_of_eq (by rw [outcomes, List.length_map, List.length_range]))
      simp only [hn, decide_false, Bool.not_false, List.filter_cons_of_pos, List.filter_nil, List.length_singleton]
      omega

theorem Inv.breakerHolds (h : Inv s) : BreakerHolds s where
  attempts hostUid windowStart := by
    have hlength : ((s.failuresIn hostUid windowStart).filter fun f => !f.tripped).length =
        (((s.failuresIn hostUid windowStart).map Failure.tripped).filter fun tripped => !tripped).length := by
      rw [List.filter_map, List.length_map]
      rfl
    rw [hlength, h.outcomes]
    exact cycles_outcomes _
  outcomes := h.outcomes

theorem Quiet.stepHolds (h : Quiet s s') : StepHolds s s' where
  starts c hnew hold := (hold (h.cycles c hnew)).elim
  trips f happend _ := by
    have hlength := congrArg List.length (h.failures.symm.trans happend)
    simp at hlength

theorem Counts.stepHolds {hostUid : HostUid} (h : Counts s c hostUid) : StepHolds s (s.countFailure c hostUid) := by
  obtain ⟨hfailures, -, -⟩ := countFailure_eq s c hostUid
  refine ⟨fun c' hnew hold => ?_, fun f happend htripped => ?_⟩
  · by_cases htrips : autoReloginMaxAttempts < (s.failureEntry hostUid).count
    · simp only [State.countFailure, htrips, decide_true, if_true] at hnew
      exact (hold ((Quiet.openModal _ c hostUid).cycles c' hnew)).elim
    · rw [hfailures, decide_eq_false htrips]
      by_cases heq : c' = c
      · subst heq
        exact ⟨hostUid, h.host, h.reconnecting, rfl⟩
      · simp only [State.countFailure, htrips, decide_false, Bool.false_eq_true, if_false] at hnew
        rw [State.setPhase, State.setCall_of_ne _ heq] at hnew
        exact (hold hnew).elim
  · rw [hfailures, List.append_cancel_left_eq, List.singleton_inj] at happend
    subst happend
    simp only [decide_eq_true_eq] at htripped
    simp only [State.countFailure, htripped, decide_true, if_true]
    exact ⟨Function.update_self .., by rw [State.openModal, State.setPhase, State.setCall_self]⟩

theorem answered_quiet (s : State) (c : Nat) : (s.answered c).failures = s.failures ∧ (s.answered c).calls = s.calls := by
  unfold State.answered
  split <;> exact ⟨rfl, rfl⟩

theorem stepHolds_of_step (hstep : step s a = some s') : StepHolds s s' := by
  rcases step_cases hstep with hquiet | ⟨c, hostUid, hcounts, rfl⟩ | ⟨c, accepted, rfl, hquiet⟩
  · exact hquiet.stepHolds
  · exact hcounts.stepHolds
  · obtain ⟨hfailures, hcalls⟩ := answered_quiet s c
    refine ⟨fun c' hnew hold => ?_, fun f happend _ => ?_⟩
    · have hcycle := hquiet.cycles c' hnew
      rw [hcalls] at hcycle
      exact (hold hcycle).elim
    · have hlength := congrArg List.length ((hquiet.failures.trans hfailures).symm.trans happend)
      simp at hlength

theorem relogin_breaker_holds {now : Nat} {as : List Act} {s : State} (h : Run step InWindow (.fresh now) as s) :
    BreakerHolds s ∧ ∀ a s', step s a = some s' → StepHolds s s' :=
  ⟨(inv_run (Inv.fresh now) h).breakerHolds, fun _ _ => stepHolds_of_step⟩

/-- Two failures of a host start a cycle each, before the login of either is answered. -/
theorem relogin_breaker_holds_two : ∃ s, Run step InWindow (.fresh 1000)
    [.call { hostUid := some "host" }, .call { hostUid := some "host" }, .unauthorized 0 false false,
      .unauthorized 1 false false, .imported 0 true, .imported 1 true, .imported 2 true, .tick 20000, .answer 2 true] s ∧
    (s.failuresIn "host" 1000).length = 2 ∧ BreakerHolds s := by
  obtain ⟨s, hrun, hlength⟩ : ∃ s, Run step InWindow (.fresh 1000)
      [.call { hostUid := some "host" }, .call { hostUid := some "host" }, .unauthorized 0 false false,
        .unauthorized 1 false false, .imported 0 true, .imported 1 true, .imported 2 true, .tick 20000, .answer 2 true] s ∧
      (s.failuresIn "host" 1000).length = 2 := exists_run (by decide)
  exact ⟨s, hrun, hlength, (relogin_breaker_holds hrun).1⟩

/-- A request to the host, its 401, the silent login with its answer, and the request once more with its 401.  The two
calls are the next ones. -/
def cycleActs (c : Nat) : List Act :=
  [.call { hostUid := some "host" }, .unauthorized c false false, .imported c true, .imported (c + 1) true,
    .answer (c + 1) true, .resume c, .unauthorized c false false]

/-- Four cycles within the window: each login takes the count away. -/
theorem relogin_breaker_reset : ∃ s, Run step Always (.fresh 1000)
    (cycleActs 0 ++ cycleActs 2 ++ cycleActs 4 ++ cycleActs 6) s ∧ s.now < 1000 + autoReloginWindowMs ∧
    ¬ BreakerHolds s := by
  obtain ⟨s, hrun, hnow, hlength⟩ : ∃ s, Run step Always (.fresh 1000)
      (cycleActs 0 ++ cycleActs 2 ++ cycleActs 4 ++ cycleActs 6) s ∧ (s.now < 1000 + autoReloginWindowMs ∧
        ((s.failuresIn "host" 1000).filter fun f => !f.tripped).length = 4) := exists_run (by decide)
  refine ⟨s, hrun, hnow, fun hholds => ?_⟩
  have hattempts := hholds.attempts "host" 1000
  rw [hlength] at hattempts
  exact absurd hattempts (by decide)

end CubridWebManager.ApiClient.HostRelogin
