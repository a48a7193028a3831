import CubridWebManager.ApiClient.ReconnectModal

/-!
# The hosts that wait for a reconnect

A host in `reconnectingHosts` gets no further 401 handled.  It must be one that the user is still asked about: in the
reconnect queue, handled by the modal, or about to be put in the queue by the call that put it in the set.  And a close
of the modal must take no other host off the queue than the one it was opened for.

Both hold in every state of a run just if, in the run, a login to a waiting host succeeds only where the modal handles
that host, and the modal is closed only while no other host is first in the queue (`reconnecting_hosts_queued`).  They
break when a host is reconnected with another one queued behind it: the login takes the host off the queue, and the
close takes the other one (`reconnecting_hosts_queued_fails`).
-/

namespace CubridWebManager.ApiClient

open Transition

/-! ### The api client -/

namespace HostRelogin

/-- The call put the host among the reconnecting ones, and awaits the import before it opens the modal. -/
def State.Opens (s : State) (c : Nat) (hostUid : HostUid) : Prop :=
  (s.calls c).phase = .openingModal ∧ (s.calls c).route.hostUid = some hostUid

def State.Opening (s : State) (hostUid : HostUid) : Prop := ∃ c < s.nextCall, s.Opens c hostUid

instance (s : State) (hostUid : HostUid) : Decidable (s.Opening hostUid) :=
  inferInstanceAs (Decidable (∃ c < s.nextCall, _ ∧ _))

structure WellFormed (s : State) : Prop where
  absent : ∀ c, s.nextCall ≤ c → (s.calls c).phase = .absent
  uids : ∀ c, (s.calls c).route.hostUid ≠ some ""

/-- What a step does that dispatches `ds`, seen from the hosts that wait: one that comes into `reconnectingHosts` has
its modal opened, and so has one that stays there and that a call was about to open the modal for. -/
structure Effect (s s' : State) (ds : List Dispatched) : Prop where
  wellFormed : WellFormed s'
  dispatched : s'.dispatched = s.dispatched ++ ds
  uids : ∀ hostUid, .openReconnectModal hostUid ∈ ds → hostUid ≠ ""
  adds : ∀ hostUid, s'.reconnectingHosts hostUid = true →
    s.reconnectingHosts hostUid = true ∨ s'.Opening hostUid ∨ .openReconnectModal hostUid ∈ ds
  opens : ∀ hostUid, s'.reconnectingHosts hostUid = true → s.Opening hostUid →
    s'.Opening hostUid ∨ .openReconnectModal hostUid ∈ ds

variable {s s' : State} {a : Act} {c : Nat} {hostUid : HostUid}

theorem WellFormed.fresh (now : Nat) : WellFormed (.fresh now) where
  absent _ _ := rfl
  uids _ := nofun

theorem WellFormed.lt_nextCall (h : WellFormed s) (hphase : (s.calls c).phase ≠ .absent) : c < s.nextCall := by
  by_contra hle
  exact hphase (h.absent c (Nat.le_of_not_lt hle))

theorem WellFormed.setCall (h : WellFormed s) (call : Call) (hc : c < s.nextCall)
    (hroute : call.route.hostUid ≠ some "") : WellFormed (s.setCall c call) := by
  refine ⟨fun c' hc' => ?_, fun c' => ?_⟩
  · have hc' : s.nextCall ≤ c' := hc'
    rw [State.setCall_of_ne s (by omega)]
    exact h.absent c' hc'
  · by_cases heq : c' = c
    · rw [heq, State.setCall_self]
      exact hroute
    · rw [State.setCall_of_ne s heq]
      exact h.uids c'

theorem WellFormed.newCall (h : WellFormed s) {route : Route} (hroute : route.hostUid ≠ some "") (phase : Phase) :
    WellFormed (s.newCall route phase) := by
  refine ⟨fun c' hc' => ?_, fun c' => ?_⟩
  · have hc' : s.nextCall + 1 ≤ c' := hc'
    have hne : c' ≠ s.nextCall := by omega
    exact (congrArg Call.phase (State.setCall_of_ne s hne _)).trans (h.absent c' (by omega))
  · by_cases heq : c' = s.nextCall
    · subst heq
      simpa only [State.newCall, State.setCall_self] using hroute
    · have hcall : (s.newCall route phase).calls c' = s.calls c' := State.setCall_of_ne s heq _
      rw [hcall]
      exact h.uids c'

namespace Effect

theorem trans {s₁ s₂ s₃ : State} {ds ds' : List Dispatched} (h : Effect s₁ s₂ ds) (h' : Effect s₂ s₃ ds') :
    Effect s₁ s₃ (ds ++ ds') := by
  refine ⟨h'.wellFormed, by rw [h'.dispatched, h.dispatched, List.append_assoc], fun hostUid hmem => ?_,
    fun hostUid hrec => ?_, fun hostUid hrec hopening => ?_⟩
  · exact (List.mem_append.1 hmem).elim (h.uids hostUid) (h'.uids hostUid)
  · rcases h'.adds hostUid hrec with hrec₂ | hopening | hmem
    · rcases h.adds hostUid hrec₂ with hrec₁ | hopening | hmem
      · exact .inl hrec₁
      · exact .inr ((h'.opens hostUid hrec hopening).imp id (List.mem_append_right ds))
      · exact .inr (.inr (List.mem_append_left ds' hmem))
    · exact .inr (.inl hopening)
    · exact .inr (.inr (List.mem_append_right ds hmem))
  · rcases h'.adds hostUid hrec with hrec₂ | hopening' | hmem
    · rcases h.opens hostUid hrec₂ hopening with hopening₂ | hmem
      · exact (h'.opens hostUid hrec hopening₂).imp id (List.mem_append_right ds)
      · exact .inr (List.mem_append_left ds' hmem)
    · exact .inl hopening'
    · exact .inr (List.mem_append_right ds hmem)

/-- A state that differs in what is not read here. -/
theorem aside (h : WellFormed s) (hcalls : s'.calls = s.calls) (hnext : s'.nextCall = s.nextCall)
    (hrec : s'.reconnectingHosts = s.reconnectingHosts) (hdispatched : s'.dispatched = s.dispatched) :
    Effect s s' [] := by
  refine ⟨⟨fun c hc => ?_, fun c => ?_⟩, by simpa using hdispatched, nofun, fun hostUid h' => .inl (hrec ▸ h'),
    fun hostUid _ hopening => .inl ?_⟩
  · rw [hcalls]
    exact h.absent c (hnext ▸ hc)
  · rw [hcalls]
    exact h.uids c
  · obtain ⟨c, hc, hopens⟩ := hopening
    exact ⟨c, hnext ▸ hc, by rwa [State.Opens, hcalls]⟩

theorem setCall (h : WellFormed s) {call : Call} (hphase : (s.calls c).phase ≠ .absent)
    (hopening : (s.calls c).phase ≠ .openingModal) (hroute : call.route.hostUid ≠ some "") :
    Effect s (s.setCall c call) [] := by
  refine ⟨h.setCall call (h.lt_nextCall hphase) hroute, by rw [List.append_nil]; rfl, nofun, fun _ => .inl,
    fun hostUid _ ⟨c', hc', hopens⟩ => .inl ⟨c', hc', ?_⟩⟩
  have hne : c' ≠ c := fun heq => hopening (heq ▸ hopens.1)
  rwa [State.Opens, State.setCall_of_ne s hne]

theorem setPhase (h : WellFormed s) (hphase : (s.calls c).phase ≠ .absent)
    (hopening : (s.calls c).phase ≠ .openingModal) (phase : Phase) : Effect s (s.setPhase c phase) [] :=
  setCall h hphase hopening (h.uids c)

theorem newCall (h : WellFormed s) (route : Route) (hroute : route.hostUid ≠ some "") (phase : Phase) :
    Effect s (s.newCall route phase) [] := by
  refine ⟨h.newCall hroute phase, by rw [List.append_nil]; rfl, nofun, fun _ => .inl,
    fun hostUid _ ⟨c', hc', hopens⟩ => .inl ⟨c', Nat.lt_succ_of_lt hc', ?_⟩⟩
  have hcall : (s.newCall route phase).calls c' = s.calls c' := State.setCall_of_ne s (Nat.ne_of_lt hc') _
  rwa [State.Opens, hcall]

/-- The host comes into `reconnectingHosts`, and the call is about to open its modal. -/
theorem openModal (h : WellFormed s) (hphase : (s.calls c).phase ≠ .absent)
    (hhost : (s.calls c).route.hostUid = some hostUid) : Effect s (s.openModal c hostUid) [] := by
  have hc := h.lt_nextCall hphase
  have hself : (s.openModal c hostUid).Opening hostUid := ⟨c, hc, by
    rw [State.Opens, State.openModal, State.setPhase, State.setCall_self]
    exact ⟨rfl, hhost⟩⟩
  refine ⟨?_, by rw [List.append_nil]; rfl, nofun, fun hostUid' hrec => ?_, fun hostUid' _ hopening => .inl ?_⟩
  · have hset := h.setCall { s.calls c with phase := .openingModal } hc (h.uids c)
    exact ⟨hset.absent, hset.uids⟩
  · by_cases heq : hostUid' = hostUid
    · exact .inr (.inl (heq ▸ hself))
    · have hother : (s.openModal c hostUid).reconnectingHosts hostUid' = s.reconnectingHosts hostUid' :=
        Function.update_of_ne heq ..
      exact .inl (hother ▸ hrec)
  · by_cases heq : hostUid' = hostUid
    · exact heq ▸ hself
    · obtain ⟨c', hc', hopens⟩ := hopening
      have hne : c' ≠ c := by
        rintro rfl
        exact heq (Option.some.inj (hopens.2.symm.trans hhost))
      refine ⟨c', hc', ?_⟩
      rwa [State.Opens, State.openModal, State.setPhase, State.setCall_of_ne _ hne]

/-- The modal is opened, or the host is forgotten. -/
theorem opened (h : WellFormed s) (hopens : s.Opens c hostUid) (ok : Bool) : ∃ ds, Effect s
    ((if ok then { s with dispatched := s.dispatched ++ [Dispatched.openReconnectModal hostUid] }
      else { s with reconnectingHosts := Function.update s.reconnectingHosts hostUid false }).setPhase c .rejected)
    ds := by
  obtain ⟨hphase, hhost⟩ := hopens
  have hc : c < s.nextCall := h.lt_nextCall (by rw [hphase]; exact nofun)
  have hset := h.setCall { s.calls c with phase := .rejected } hc (h.uids c)
  have hother : ∀ c' hostUid', s.Opens c' hostUid' → hostUid' ≠ hostUid →
      (s.setPhase c .rejected).Opens c' hostUid' := by
    intro c' hostUid' hopens hne
    have hcall : c' ≠ c := by
      rintro rfl
      exact hne (Option.some.inj (hopens.2.symm.trans hhost))
    rwa [State.Opens, State.setPhase, State.setCall_of_ne s hcall]
  cases ok with
  | true =>
    refine ⟨[.openReconnectModal hostUid], ⟨hset.absent, hset.uids⟩, rfl, fun hostUid' hmem => ?_, fun _ => .inl,
      fun hostUid' _ ⟨c', hc', hopens⟩ => ?_⟩
    · cases List.mem_singleton.1 hmem
      exact fun hempty => h.uids c (hempty ▸ hhost)
    · by_cases heq : hostUid' = hostUid
      · exact .inr (heq ▸ List.mem_singleton_self _)
      · exact .inl ⟨c', hc', hother c' hostUid' hopens heq⟩
  | false =>
    have hforgotten : ∀ hostUid', Function.update s.reconnectingHosts hostUid false hostUid' = true →
        hostUid' ≠ hostUid ∧ s.reconnectingHosts hostUid' = true := by
      intro hostUid' hrec
      by_cases heq : hostUid' = hostUid
      · rw [heq, Function.update_self] at hrec
        cases hrec
      · exact ⟨heq, by rwa [Function.update_of_ne heq] at hrec⟩
    refine ⟨[], ⟨hset.absent, hset.uids⟩, by rw [List.append_nil]; rfl, nofun,
      fun hostUid' hrec => .inl (hforgotten hostUid' hrec).2, fun hostUid' hrec ⟨c', hc', hopens⟩ => ?_⟩
    exact .inl ⟨c', hc', hother c' hostUid' hopens (hforgotten hostUid' hrec).1⟩

variable {at_ : Cycle}

theorem cycleFailed (h : WellFormed s) (hphase : (s.calls c).phase = .cycle at_)
    (hhost : (s.calls c).route.hostUid = some hostUid) : Effect s (s.cycleFailed c hostUid) [] := by
  have haside : Effect s { s with refreshingHosts := Function.update s.refreshingHosts hostUid none } [] :=
    aside h rfl rfl rfl rfl
  have hpresent : (s.calls c).phase ≠ .absent := by rw [hphase]; exact nofun
  unfold State.cycleFailed
  simp only
  split
  · exact haside.trans (setPhase haside.wellFormed hpresent (by simp [hphase]) _)
  · exact haside.trans (openModal haside.wellFormed hpresent hhost)

theorem relogin (h : WellFormed s) (hphase : (s.calls c).phase = .cycle at_)
    (hhost : (s.calls c).route.hostUid = some hostUid) :
    Effect s (s.relogin c hostUid) [.revokeHostLogin hostUid] := by
  have hpresent : (s.calls c).phase ≠ .absent := by rw [hphase]; exact nofun
  have hrevoked : Effect s { s with dispatched := s.dispatched ++ [.revokeHostLogin hostUid] }
      [.revokeHostLogin hostUid] :=
    ⟨⟨h.absent, h.uids⟩, rfl, fun _ hmem => (by cases List.mem_singleton.1 hmem), fun _ => .inl, fun _ _ => .inl⟩
  unfold State.relogin
  simp only
  split
  · exact hrevoked.trans (setPhase hrevoked.wellFormed hpresent (by simp [hphase]) _)
  · have haside : Effect { s with dispatched := s.dispatched ++ [.revokeHostLogin hostUid] }
        { s with
          dispatched := s.dispatched ++ [.revokeHostLogin hostUid]
          refreshingHosts := Function.update s.refreshingHosts hostUid (some s.nextCall) } [] :=
      aside hrevoked.wellFormed rfl rfl rfl rfl
    have hlogin := haside.trans (newCall haside.wellFormed { hostUid := some hostUid, isHostLoginRequest := true }
      (hhost ▸ h.uids c) .starting)
    have hcall : ∀ s₁ : State, s₁.calls = s.calls → s₁.nextCall = s.nextCall →
        (s₁.newCall { hostUid := some hostUid, isHostLoginRequest := true } .starting).calls c = s.calls c := by
      intro s₁ hcalls hnext
      rw [← hcalls]
      exact State.setCall_of_ne s₁ (by rw [hnext]; exact Nat.ne_of_lt (h.lt_nextCall hpresent)) _
    have hcall := hcall { s with
      dispatched := s.dispatched ++ [.revokeHostLogin hostUid]
      refreshingHosts := Function.update s.refreshingHosts hostUid (some s.nextCall) } rfl rfl
    exact (hrevoked.trans hlogin).trans
      (setPhase hlogin.wellFormed (by rw [hcall]; exact hpresent) (by rw [hcall, hphase]; exact nofun) _)

theorem retry (h : WellFormed s) (hphase : (s.calls c).phase = .cycle at_) : Effect s (s.retry c hostUid) [] := by
  have haside : Effect s { s with refreshingHosts := Function.update s.refreshingHosts hostUid none } [] :=
    aside h rfl rfl rfl rfl
  exact haside.trans (setCall haside.wellFormed (by simp [hphase]) (by simp [hphase]) (h.uids c))

theorem countFailure (h : WellFormed s) (hphase : (s.calls c).phase = .sent)
    (hhost : (s.calls c).route.hostUid = some hostUid) : Effect s (s.countFailure c hostUid) [] := by
  have haside : ∀ entries failures, Effect s
      { s with hostAutoReloginFailures := entries, failures := failures } [] := fun _ _ => aside h rfl rfl rfl rfl
  unfold State.countFailure
  simp only
  split
  · exact (haside _ _).trans (openModal (haside _ _).wellFormed (by simp [hphase]) hhost)
  · exact (haside _ _).trans (setPhase (haside _ _).wellFormed (by simp [hphase]) (by simp [hphase]) _)

theorem unauthorized (h : WellFormed s) (hphase : (s.calls c).phase = .sent)
    (isAppSessionError isInvalidTokenError : Bool) :
    Effect s (s.unauthorized c isAppSessionError isInvalidTokenError) [] := by
  have hset : ∀ phase, Effect s (s.setPhase c phase) [] := setPhase h (by simp [hphase]) (by simp [hphase])
  unfold State.unauthorized
  simp only
  split
  · exact hset _
  split
  · exact hset _
  rename_i hostUid hhost
  split
  · exact hset _
  split
  · exact hset _
  split
  · exact hset _
  split
  · exact hset _
  split
  · exact openModal h (by simp [hphase]) hhost
  · exact countFailure h hphase hhost

theorem answered (h : WellFormed s) (hphase : (s.calls c).phase = .sent) (phase : Phase) :
    Effect s ((s.answered c).setPhase c phase) [] := by
  have haside : Effect s (s.answered c) [] ∧ (s.answered c).calls = s.calls := by
    unfold State.answered
    split
    · exact ⟨aside h rfl rfl rfl rfl, rfl⟩
    · exact ⟨aside h rfl rfl rfl rfl, rfl⟩
  exact haside.1.trans
    (setPhase haside.1.wellFormed (by simp [haside.2, hphase]) (by simp [haside.2, hphase]) _)

end Effect

theorem effect_of_step (h : WellFormed s) (hself : ReconnectModal.byItself a = true) (hstep : step s a = some s') :
    ∃ ds, Effect s s' ds := by
  cases a with
  | tick ms =>
    obtain rfl := Option.some.inj hstep
    exact ⟨[], .aside h rfl rfl rfl rfl⟩
  | call route =>
    obtain rfl := Option.some.inj hstep
    exact ⟨[], .newCall h route (of_decide_eq_true hself) .sent⟩
  | answer c accepted =>
    simp only [step] at hstep
    split at hstep
    · rename_i hphase
      obtain rfl := Option.some.inj hstep
      exact ⟨[], .answered h hphase _⟩
    · cases hstep
  | fail c =>
    simp only [step] at hstep
    split at hstep
    · rename_i hphase
      obtain rfl := Option.some.inj hstep
      exact ⟨[], .setPhase h (by simp [hphase]) (by simp [hphase]) _⟩
    · cases hstep
  | unauthorized c isAppSessionError isInvalidTokenError =>
    simp only [step] at hstep
    split at hstep
    · rename_i hphase
      obtain rfl := Option.some.inj hstep
      exact ⟨[], .unauthorized h hphase _ _⟩
    · cases hstep
  | imported c ok =>
    simp only [step] at hstep
    split at hstep
    · rename_i hphase
      obtain rfl := Option.some.inj hstep
      refine ⟨[], ?_⟩
      split
      · exact .setCall h (by simp [hphase]) (by simp [hphase]) (h.uids c)
      · exact .setPhase h (by simp [hphase]) (by simp [hphase]) _
    · rename_i hphase hhost
      obtain rfl := Option.some.inj hstep
      split
      · exact ⟨_, .relogin h hphase hhost⟩
      · exact ⟨_, .cycleFailed h hphase hhost⟩
    · rename_i hphase hhost
      obtain rfl := Option.some.inj hstep
      exact Effect.opened h ⟨hphase, hhost⟩ ok
    · cases hstep
  | resume c =>
    simp only [step] at hstep
    split at hstep
    · rename_i hphase hhost
      split at hstep
      · obtain rfl := Option.some.inj hstep
        exact ⟨[], .retry h hphase⟩
      · obtain rfl := Option.some.inj hstep
        exact ⟨[], .cycleFailed h hphase hhost⟩
      · obtain rfl := Option.some.inj hstep
        exact ⟨[], .cycleFailed h hphase hhost⟩
      · cases hstep
    · cases hstep
  | clearReconnectingHost hostUid => cases hself

end HostRelogin

/-! ### The modal -/

namespace ReconnectModal

open HostRelogin (HostUid Dispatched)

variable {s s' : State} {a : Act} {hostUid : HostUid}

def State.Handling (s : State) (hostUid : HostUid) : Prop := hostUid ∈ s.handlers.map Handler.hostUid

/-- A handler other than the one at `i` handles the host. -/
def State.HandledBesides (s : State) (i : Nat) (hostUid : HostUid) : Prop :=
  hostUid ∈ (s.handlers.eraseIdx i).map Handler.hostUid

/-- The user is asked about the host, or will be. -/
def State.Waits (s : State) (hostUid : HostUid) : Prop :=
  hostUid ∈ s.slice.reconnectQueue ∨ s.Handling hostUid ∨ s.api.Opening hostUid

structure HostsQueued (s : State) : Prop where
  queued : ∀ hostUid, s.api.reconnectingHosts hostUid = true → s.Waits hostUid
  closed : ∀ close ∈ s.closed, ∀ hostUid ∈ close.removed, hostUid = close.handled

/-- A login to a host that waits succeeds only while the modal handles it or is about to be opened for it; the host is
still asked about where its reconnect fails; and where a handler closes the modal, no host but its own is first in the
queue, and its own does not wait again. -/
def Safe (s : State) : Act → Prop
  | .loginFulfilled l => ∀ hostUid ∈ (s.api.calls l).route.hostUid, s.api.reconnectingHosts hostUid = true →
      s.Handling hostUid ∨ s.api.Opening hostUid
  | .reconnectFailed i => ∀ handler ∈ s.handlers[i]?, s.api.reconnectingHosts handler.hostUid = true →
      handler.hostUid ∈ s.slice.reconnectQueue ∨ s.HandledBesides i handler.hostUid ∨ s.api.Opening handler.hostUid
  | .close i => ∀ handler ∈ s.handlers[i]?, (∀ hostUid ∈ s.slice.reconnectQueue.head?, hostUid = handler.hostUid) ∧
      (s.api.reconnectingHosts handler.hostUid = true →
        s.HandledBesides i handler.hostUid ∨ s.api.Opening handler.hostUid)
  | _ => True

instance (s : State) (hostUid : HostUid) : Decidable (s.Handling hostUid) := inferInstanceAs (Decidable (_ ∈ _))

instance (s : State) (i : Nat) (hostUid : HostUid) : Decidable (s.HandledBesides i hostUid) :=
  inferInstanceAs (Decidable (_ ∈ _))

instance : ∀ (s : State) (a : Act), Decidable (Safe s a)
  | _, .loginFulfilled _ | _, .reconnectFailed _ | _, .close _ => by unfold Safe; infer_instance
  | _, .api _ | _, .appSessionOver .. | _, .hostDeleted .. | _, .handleReconnect | _, .handleDisconnect
  | _, .reconnected _ => isTrue trivial

structure WellFormed (s : State) : Prop where
  api : HostRelogin.WellFormed s.api
  nodup : s.slice.reconnectQueue.Nodup

theorem wellFormed_loaded (now : Nat) (hosts authorizedHosts : List HostUid) :
    WellFormed (.loaded now hosts authorizedHosts) := ⟨.fresh now, .nil⟩

theorem hostsQueued_loaded (now : Nat) (hosts authorizedHosts : List HostUid) :
    HostsQueued (.loaded now hosts authorizedHosts) := ⟨nofun, nofun⟩

/-! ### The queue -/

theorem mem_reduce {slice : HostSlice} (action : Dispatched) (h : hostUid ∈ slice.reconnectQueue) :
    hostUid ∈ (slice.reduce action).reconnectQueue := by
  cases action with
  | revokeHostLogin _ => exact h
  | openReconnectModal opened =>
    simp only [HostSlice.reduce, HostSlice.openReconnectModal]
    split
    · exact List.mem_append_left _ h
    · exact h

theorem nodup_reduce {slice : HostSlice} (action : Dispatched) (h : slice.reconnectQueue.Nodup) :
    (slice.reduce action).reconnectQueue.Nodup := by
  cases action with
  | revokeHostLogin _ => exact h
  | openReconnectModal opened =>
    simp only [HostSlice.reduce, HostSlice.openReconnectModal]
    split
    · rename_i hnew
      exact List.nodup_append.2 ⟨h, List.pairwise_singleton _ _, fun x hx y hy heq =>
        hnew.2 (List.mem_singleton.1 hy ▸ heq ▸ hx)⟩
    · exact h

theorem mem_reduce_openReconnectModal (slice : HostSlice) (hne : hostUid ≠ "") :
    hostUid ∈ (slice.reduce (.openReconnectModal hostUid)).reconnectQueue := by
  simp only [HostSlice.reduce, HostSlice.openReconnectModal]
  split
  · exact List.mem_append_right _ (List.mem_singleton_self _)
  · rename_i hold
    exact not_not.1 fun hmem => hold ⟨hne, hmem⟩

theorem mem_foldl_reduce {slice : HostSlice} (ds : List Dispatched) (h : hostUid ∈ slice.reconnectQueue) :
    hostUid ∈ (ds.foldl HostSlice.reduce slice).reconnectQueue := by
  induction ds generalizing slice with
  | nil => exact h
  | cons action ds ih => exact ih (mem_reduce action h)

theorem mem_foldl_reduce_of_mem {slice : HostSlice} {ds : List Dispatched}
    (hmem : .openReconnectModal hostUid ∈ ds) (hne : hostUid ≠ "") :
    hostUid ∈ (ds.foldl HostSlice.reduce slice).reconnectQueue := by
  obtain ⟨before, after, rfl⟩ := List.append_of_mem hmem
  rw [List.foldl_append, List.foldl_cons]
  exact mem_foldl_reduce after (mem_reduce_openReconnectModal _ hne)

theorem nodup_foldl_reduce {slice : HostSlice} (ds : List Dispatched) (h : slice.reconnectQueue.Nodup) :
    (ds.foldl HostSlice.reduce slice).reconnectQueue.Nodup := by
  induction ds generalizing slice with
  | nil => exact h
  | cons action ds ih => exact ih (nodup_reduce action h)

/-! ### The handlers -/

theorem handledBesides {i : Nat} {handler : Handler} (hi : s.handlers[i]? = some handler)
    (h : s.Handling hostUid) (hne : hostUid ≠ handler.hostUid) : s.HandledBesides i hostUid := by
  obtain ⟨other, hother, rfl⟩ := List.mem_map.1 h
  obtain ⟨j, hj⟩ := List.mem_iff_getElem?.1 hother
  refine List.mem_map_of_mem (List.mem_eraseIdx_iff_getElem?.2 ⟨j, fun heq => hne ?_, hj⟩)
  rw [heq, hi] at hj
  rw [Option.some.inj hj]

theorem map_set_handlers {i : Nat} {handler handler' : Handler} (hi : s.handlers[i]? = some handler)
    (hsame : handler'.hostUid = handler.hostUid) :
    (s.handlers.set i handler').map Handler.hostUid = s.handlers.map Handler.hostUid := by
  rw [List.map_set, hsame]
  refine List.ext_getElem? fun j => ?_
  rw [List.getElem?_set]
  split
  · rename_i heq
    subst heq
    rw [List.getElem?_map, hi, if_pos]
    · rfl
    · rw [List.length_map]
      exact (List.getElem?_eq_some_iff.1 hi).1
  · rfl

/-! ### The steps -/

/-- The api client goes on, and the store takes what it dispatches. -/
theorem waits_of_effect {ds : List Dispatched} (heffect : HostRelogin.Effect s.api s'.api ds)
    (hqueue : s'.slice.reconnectQueue = (ds.foldl HostSlice.reduce s.slice).reconnectQueue)
    (hhandlers : ∀ hostUid, s.Handling hostUid → s'.Handling hostUid) (h : HostsQueued s)
    (hrec : s'.api.reconnectingHosts hostUid = true) : s'.Waits hostUid := by
  have hdispatched : .openReconnectModal hostUid ∈ ds → s'.Waits hostUid := fun hmem =>
    .inl (hqueue ▸ mem_foldl_reduce_of_mem hmem (heffect.uids hostUid hmem))
  rcases heffect.adds hostUid hrec with hold | hopening | hmem
  · rcases h.queued hostUid hold with hqueued | hhandling | hopening
    · exact .inl (hqueue ▸ mem_foldl_reduce ds hqueued)
    · exact .inr (.inl (hhandlers hostUid hhandling))
    · exact (heffect.opens hostUid hrec hopening).elim (fun hopening => .inr (.inr hopening)) hdispatched
  · exact .inr (.inr hopening)
  · exact hdispatched hmem

theorem withApi_drop {api : HostRelogin.State} {ds : List Dispatched} (heffect : HostRelogin.Effect s.api api ds) :
    (s.withApi api).slice = ds.foldl HostSlice.reduce s.slice := by
  simp only [State.withApi]
  rw [heffect.dispatched, List.drop_left]

theorem WellFormed.of_queue (h : WellFormed s) (hapi : HostRelogin.WellFormed s'.api)
    (hqueue : s'.slice.reconnectQueue.Sublist s.slice.reconnectQueue) : WellFormed s' :=
  ⟨hapi, h.nodup.sublist hqueue⟩

/-- The host is let through again: the others wait as before. -/
theorem reconnecting_of_clear {hostUid' : HostUid}
    (hrec : (s.clearReconnectingHost hostUid).reconnectingHosts hostUid' = true) :
    s.api.reconnectingHosts hostUid' = true := by
  simp only [State.clearReconnectingHost] at hrec
  by_cases heq : hostUid' = hostUid
  · rw [heq, Function.update_self] at hrec
    cases hrec
  · rwa [Function.update_of_ne heq] at hrec

/-- The state is well-formed after the step, and has the property still just if the step is safe. -/
structure StepHolds (s : State) (a : Act) (s' : State) : Prop where
  wellFormed : WellFormed s'
  keeps_iff : HostsQueued s → (HostsQueued s' ↔ Safe s a)

theorem StepHolds.of_safe (hsafe : Safe s a) (hwf : WellFormed s') (h : HostsQueued s → HostsQueued s') :
    StepHolds s a s' := ⟨hwf, fun hs => iff_of_true (h hs) hsafe⟩

theorem loginFulfilled_holds (hwf : WellFormed s) {l : Nat} {fulfilled : Nat → Bool}
    (hhost : (s.api.calls l).route.hostUid = some hostUid)
    (hs' : s' = { s with slice := s.slice.loginFulfilled hostUid, fulfilled := fulfilled }) :
    StepHolds s (.loginFulfilled l) s' := by
  subst hs'
  refine ⟨hwf.of_queue hwf.api List.filter_sublist, fun h =>
    ⟨fun h' => ?_, fun hsafe => ⟨fun hostUid' hrec => ?_, h.closed⟩⟩⟩
  · intro hostUid' hmem hrec
    obtain rfl : hostUid = hostUid' := Option.some.inj (hhost.symm.trans hmem)
    rcases h'.queued hostUid hrec with hqueued | hhandled
    · have hne : hostUid ≠ hostUid := of_decide_eq_true (List.mem_filter.1 hqueued).2
      exact (hne rfl).elim
    · exact hhandled
  · rcases h.queued hostUid' hrec with hqueued | hhandled
    · by_cases heq : hostUid' = hostUid
      · exact .inr (hsafe hostUid' (heq ▸ hhost) hrec)
      · exact .inl (List.mem_filter.2 ⟨hqueued, decide_eq_true heq⟩)
    · exact .inr hhandled

theorem reconnectFailed_holds (hwf : WellFormed s) {i : Nat} {handler : Handler}
    (hi : s.handlers[i]? = some handler)
    (hs' : s' = { s with isReconnecting := false, handlers := s.handlers.eraseIdx i }) :
    StepHolds s (.reconnectFailed i) s' := by
  subst hs'
  refine ⟨hwf.of_queue hwf.api (List.Sublist.refl _), fun h =>
    ⟨fun h' => ?_, fun hsafe => ⟨fun hostUid hrec => ?_, h.closed⟩⟩⟩
  · intro handler' hmem hrec
    exact h'.queued handler'.hostUid hrec
  · by_cases heq : hostUid = handler.hostUid
    · exact heq ▸ hsafe handler hi (heq ▸ hrec)
    · rcases h.queued hostUid hrec with hqueued | hhandling | hopening
      · exact .inl hqueued
      · exact .inr (.inl (handledBesides hi hhandling heq))
      · exact .inr (.inr hopening)

theorem close_holds (hwf : WellFormed s) {i : Nat} {handler : Handler}
    (hi : s.handlers[i]? = some handler) :
    StepHolds s (.close i) (s.close i handler.hostUid) := by
  refine ⟨hwf.of_queue hwf.api (List.tail_sublist _), fun h => ⟨fun h' => ?_, fun hsafe => ?_⟩⟩
  · intro handler' hmem
    obtain rfl : handler = handler' := Option.some.inj (hi.symm.trans hmem)
    have hfirst : ∀ hostUid ∈ s.slice.reconnectQueue.head?, hostUid = handler.hostUid :=
      h'.closed ⟨handler.hostUid, s.slice.reconnectQueue.head?⟩ (List.mem_append_right _ (List.mem_singleton_self _))
    refine ⟨hfirst, fun hrec => ?_⟩
    rcases h'.queued handler.hostUid hrec with hqueued | hhandled
    · -- The host cannot be behind itself in the queue.
      have hqueued : handler.hostUid ∈ s.slice.reconnectQueue.tail := hqueued
      have hnodup := hwf.nodup
      cases hqueue : s.slice.reconnectQueue with
      | nil => simp [hqueue] at hqueued
      | cons first rest =>
        rw [hqueue] at hfirst hqueued hnodup
        exact ((List.nodup_cons.1 hnodup).1 (hfirst first rfl ▸ hqueued)).elim
    · exact hhandled
  · obtain ⟨hfirst, hagain⟩ := hsafe handler hi
    refine ⟨fun hostUid hrec => ?_, fun close hclose => ?_⟩
    · by_cases heq : hostUid = handler.hostUid
      · exact .inr (heq ▸ hagain (heq ▸ hrec))
      · rcases h.queued hostUid hrec with hqueued | hhandling | hopening
        · cases hqueue : s.slice.reconnectQueue with
          | nil => simp [hqueue] at hqueued
          | cons first rest =>
            rw [hqueue] at hfirst hqueued
            have hne : hostUid ≠ first := fun hfirst' => heq (hfirst'.trans (hfirst first rfl))
            refine .inl ?_
            simp only [State.close, HostSlice.closeReconnectModal, hqueue, List.tail_cons]
            exact (List.mem_cons.1 hqueued).resolve_left hne
        · exact .inr (.inl (handledBesides hi hhandling heq))
        · exact .inr (.inr hopening)
    · rcases List.mem_append.1 hclose with hold | hnew
      · exact h.closed close hold
      · cases List.mem_singleton.1 hnew
        exact hfirst

theorem stepHolds_of_step (hwf : WellFormed s) (hstep : step s a = some s') : StepHolds s a s' := by
  cases a with
  | api a =>
    simp only [step] at hstep
    split at hstep
    · rename_i hself
      obtain ⟨api, hapi, rfl⟩ := Option.map_eq_some_iff.1 hstep
      obtain ⟨ds, heffect⟩ := HostRelogin.effect_of_step hwf.api hself hapi
      have hslice := withApi_drop heffect
      refine .of_safe trivial ⟨heffect.wellFormed, ?_⟩ fun h => ⟨fun hostUid hrec => ?_, h.closed⟩
      · rw [hslice]
        exact nodup_foldl_reduce ds hwf.nodup
      · exact @waits_of_effect s (s.withApi api) hostUid ds heffect (by rw [hslice]) (fun _ => id) h hrec
    · cases hstep
  | appSessionOver c ok =>
    simp only [step] at hstep
    split at hstep
    · rename_i hphase
      obtain rfl := Option.some.inj hstep
      have heffect : HostRelogin.Effect s.api
          (if ok then s.api.setCall c { s.api.calls c with issuedAt := s.api.now, retry := true, phase := .sent }
          else s.api.setPhase c .rejected) [] := by
        split
        · exact .setCall hwf.api (by simp [hphase]) (by simp [hphase]) (hwf.api.uids c)
        · exact .setPhase hwf.api (by simp [hphase]) (by simp [hphase]) _
      refine .of_safe trivial ⟨heffect.wellFormed, hwf.nodup⟩ fun h => ⟨fun hostUid hrec => ?_, h.closed⟩
      exact waits_of_effect heffect rfl (fun _ => id) h hrec
    · cases hstep
  | loginFulfilled l =>
    simp only [step] at hstep
    split at hstep
    · rename_i hhost
      split at hstep
      · exact loginFulfilled_holds hwf hhost (Option.some.inj hstep).symm
      · cases hstep
    · cases hstep
  | hostDeleted hostUid hosts =>
    obtain rfl := Option.some.inj hstep
    exact .of_safe trivial ⟨hwf.api, hwf.nodup⟩ fun h => ⟨h.queued, h.closed⟩
  | handleReconnect =>
    simp only [step] at hstep
    split at hstep
    · rename_i reconnectHostUid hhead
      split at hstep
      · cases hstep
      · rename_i hready
        obtain rfl := Option.some.inj hstep
        have heffect : HostRelogin.Effect s.api (s.handleReconnect reconnectHostUid).api [] :=
          .newCall hwf.api _ (fun hempty => hready (.inr (Option.some.inj hempty))) .sent
        refine .of_safe trivial ⟨heffect.wellFormed, hwf.nodup⟩ fun h => ⟨fun hostUid hrec => ?_, h.closed⟩
        refine @waits_of_effect s (s.handleReconnect reconnectHostUid) hostUid [] heffect rfl
          (fun hostUid hhandling => ?_) h hrec
        simp only [State.handleReconnect, State.Handling, List.map_append]
        exact List.mem_append_left _ hhandling
    · cases hstep
  | handleDisconnect =>
    simp only [step] at hstep
    obtain ⟨reconnectHostUid, -, rfl⟩ := Option.map_eq_some_iff.1 hstep
    refine .of_safe trivial ⟨⟨hwf.api.absent, hwf.api.uids⟩, hwf.nodup⟩ fun h =>
      ⟨fun hostUid hrec => ?_, h.closed⟩
    refine (h.queued hostUid (reconnecting_of_clear hrec)).imp id (Or.imp (fun hhandling => ?_) id)
    simp only [State.handleDisconnect, State.Handling, List.map_append]
    exact List.mem_append_left _ hhandling
  | reconnected i =>
    simp only [step] at hstep
    split at hstep
    · rename_i hostUid l hi
      split at hstep
      · obtain rfl := Option.some.inj hstep
        refine .of_safe trivial ⟨⟨hwf.api.absent, hwf.api.uids⟩, hwf.nodup⟩ fun h =>
          ⟨fun hostUid' hrec => ?_, h.closed⟩
        refine (h.queued hostUid' (reconnecting_of_clear hrec)).imp id (Or.imp (fun hhandling => ?_) id)
        simp only [State.Handling, @map_set_handlers s i _ (.reconnected hostUid) hi rfl]
        exact hhandling
      · cases hstep
    · cases hstep
  | reconnectFailed i =>
    simp only [step] at hstep
    split at hstep
    · rename_i hi
      split at hstep
      · exact reconnectFailed_holds hwf hi (Option.some.inj hstep).symm
      · cases hstep
    · cases hstep
  | close i =>
    simp only [step] at hstep
    split at hstep
    · rename_i hi
      obtain rfl := Option.some.inj hstep
      exact close_holds hwf hi
    · rename_i hi
      obtain rfl := Option.some.inj hstep
      exact close_holds hwf hi
    · cases hstep

/-! ### The runs -/

theorem reconnecting_hosts_queued {now : Nat} {hosts authorizedHosts : List HostUid} {as : List Act}
    (h : Run step Always (.loaded now hosts authorizedHosts) as s) :
    (∀ bs s₁, bs <+: as → Run step Always (.loaded now hosts authorizedHosts) bs s₁ → HostsQueued s₁) ↔
      Run step Safe (.loaded now hosts authorizedHosts) as s := by
  have hwf : ∀ bs s₁, Run step Always (.loaded now hosts authorizedHosts) bs s₁ → WellFormed s₁ := fun bs s₁ hrun =>
    hrun.invariant (fun _ _ _ hwf _ hstep => (stepHolds_of_step hwf hstep).wellFormed) (wellFormed_loaded ..)
  have hkeeps : ∀ s a s', WellFormed s ∧ HostsQueued s → step s a = some s' →
      (WellFormed s' ∧ HostsQueued s' ↔ Safe s a) := by
    intro s a s' hs hstep
    have hholds := stepHolds_of_step hs.1 hstep
    rw [and_iff_right hholds.wellFormed, hholds.keeps_iff hs.2]
  rw [← h.prefixes_iff hkeeps ⟨wellFormed_loaded .., hostsQueued_loaded ..⟩]
  refine ⟨fun hall bs s₁ hbs hrun => ⟨hwf bs s₁ hrun, hall bs s₁ hbs hrun⟩, fun hall bs s₁ hbs hrun => ?_⟩
  exact (hall bs s₁ hbs hrun).2

def hostA : HostUid := "aaaaaaaa-aaaa-aaaa"

def hostB : HostUid := "bbbbbbbb-bbbb-bbbb"

/-- The sessions of both hosts are taken over, and the modal is opened for one after the other. -/
def takenOver : List Act :=
  [.api (.call { hostUid := some hostA }), .api (.call { hostUid := some hostB }), .api (.unauthorized 0 false true),
    .api (.imported 0 true), .api (.unauthorized 1 false true), .api (.imported 1 true)]

/-- The first host is disconnected, and then the other one is reconnected. -/
theorem reconnecting_hosts_queued_one_by_one : ∃ s, Run step Safe (.loaded 0 [hostA, hostB] [hostA, hostB])
    (takenOver ++ [.handleDisconnect, .close 0, .handleReconnect, .api (.answer 2 true), .loginFulfilled 2,
      .reconnected 0, .close 0]) s ∧ HostsQueued s := by
  obtain ⟨s, hrun, -⟩ : ∃ s, Run step Safe (.loaded 0 [hostA, hostB] [hostA, hostB])
      (takenOver ++ [.handleDisconnect, .close 0, .handleReconnect, .api (.answer 2 true), .loginFulfilled 2,
        .reconnected 0, .close 0]) s ∧ s.slice.reconnectQueue = [] := exists_run (by decide)
  have halways : Run step Always _ _ s := hrun.mono fun _ _ _ => trivial
  exact ⟨s, hrun, (reconnecting_hosts_queued halways).2 hrun _ s List.prefix_rfl halways⟩

/-- The first host is reconnected while the other one is queued: the close takes that one off the queue, and no 401 of
it is handled any more. -/
theorem reconnecting_hosts_queued_fails : ∃ s, Run step Always (.loaded 0 [hostA, hostB] [hostA, hostB])
    (takenOver ++ [.handleReconnect, .api (.answer 2 true), .loginFulfilled 2, .reconnected 0, .close 0]) s ∧
    ¬ s.Waits hostB ∧ ¬ HostsQueued s := by
  obtain ⟨s, hrun, hrec, hqueue, hhandlers, hopening⟩ : ∃ s,
      Run step Always (.loaded 0 [hostA, hostB] [hostA, hostB])
        (takenOver ++ [.handleReconnect, .api (.answer 2 true), .loginFulfilled 2, .reconnected 0, .close 0]) s ∧
      s.api.reconnectingHosts hostB = true ∧ s.slice.reconnectQueue = [] ∧ s.handlers = [] ∧
        ¬ s.api.Opening hostB := exists_run (by decide)
  have hwaits : ¬ s.Waits hostB := by simp [State.Waits, State.Handling, hqueue, hhandlers, hopening]
  exact ⟨s, hrun, hwaits, fun h => hwaits (h.queued hostB hrec)⟩

end ReconnectModal
end CubridWebManager.ApiClient
