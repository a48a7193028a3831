import CubridWebManager.ApiClient.TokenRefresh
import Mathlib.Data.List.Nodup

/-!
# No waiter is left behind

Every call that queues up during a refresh is told, once, how that refresh went, and no waiter is left when the flag is
down (`refresh_waiters_served`), as long as no call queues up between the flush of the waiters of a failed refresh and
the drop of the flag.  A call that does is told by no one (`refresh_waiters_stranded`): the flush is behind it, and the
handling of the expired session, which the flag stays up for, does not look at the waiters again.
-/

namespace CubridWebManager.ApiClient

open Transition

/-! ### The property -/

/-- The call makes the refresh that the flag stands for. -/
def Phase.refreshes : Phase → Bool
  | .refreshing _ => true
  | .expiring _ refresher => refresher
  | _ => false

/-- The call has flushed the waiters of its failed refresh, and has not dropped the flag. -/
def Phase.flushed : Phase → Bool
  | .expiring _ refresher => refresher
  | _ => false

/-- A call that has gone on with the result: sent again with the new token, or rejected. -/
def Call.Resumed (call : Call) : Except String String → Prop
  | .ok token => call.authorization = some (bearer token) ∧
      (call.phase = .sent ∨ call.phase = .answered ∨ call.phase = .rejected)
  | .error _ => call.phase = .rejected

/-- The settlements of a waiter. -/
def State.settlementsOf (s : State) (c : Nat) : List Settlement := s.settlements.filter fun e => e.waiter = c

structure Served (s : State) : Prop where
  /-- No waiter is left when the flag is down. -/
  idle : s.isRefreshingAccessToken = false → s.accessTokenRefreshWaiters = []
  /-- A call that queued up is a waiter of the refresh that is under way, or it was told once, by the call whose refresh
  it waited for, and goes on with the result. -/
  settled : ∀ c r, (s.calls c).waitsFor = some r →
    (c ∈ s.accessTokenRefreshWaiters ∧ s.settlementsOf c = [] ∧ (s.calls c).phase = .waiting ∧
      ∃ at_, (s.calls r).phase = .refreshing at_) ∨
    ∃ result, s.settlementsOf c = [⟨c, r, result⟩] ∧
      ((s.calls c).phase = .woken result ∨ (s.calls c).Resumed result)

/-- The 401 gets to the part of the interceptor that refreshes the token. -/
def State.needsRefresh (s : State) (c : Nat) (isAppSessionError : Bool) : Bool :=
  !(s.calls c).retry && !((s.calls c).route.hostUid.isSome && !isAppSessionError) && (s.calls c).route.refreshes

/-- No call gets there between the flush of the waiters and the drop of the flag. -/
def InTime (s : State) : Act → Prop
  | .unauthorized c isAppSessionError =>
    s.needsRefresh c isAppSessionError = true → (s.calls s.refresher).phase.flushed = false
  | _ => True

instance : ∀ (s : State) (a : Act), Decidable (InTime s a)
  | _, .unauthorized .. => inferInstanceAs (Decidable (_ → _))
  | _, .call _ | _, .answer _ | _, .hostHandled .. | _, .refreshAnswer .. | _, .imported .. | _, .resume _
  | _, .navigate _ | _, .setSession .. => isTrue trivial

/-! ### The invariant -/

/-- A waiter that was told the result of the refresh of `r`. -/
def Told (s : State) (c r : Nat) : Prop :=
  ∃ result, s.settlementsOf c = [⟨c, r, result⟩] ∧ ((s.calls c).phase = .woken result ∨ (s.calls c).Resumed result)

/-- The flag, and the call that it stands for. -/
structure Flag (s : State) : Prop where
  refresher : ∀ c, (s.calls c).phase.refreshes = true → c = s.refresher ∧ s.isRefreshingAccessToken = true
  up : s.isRefreshingAccessToken = true → (s.calls s.refresher).phase.refreshes = true
  flushed : ∀ c, (s.calls c).phase.flushed = true → s.accessTokenRefreshWaiters = []
  idle : s.isRefreshingAccessToken = false → s.accessTokenRefreshWaiters = []

/-- The waiters, and the calls that were waiters. -/
structure Waiters (s : State) : Prop where
  absent : ∀ c, s.nextCall ≤ c → (s.calls c).phase = .absent ∧ (s.calls c).waitsFor = none
  nodup : s.accessTokenRefreshWaiters.Nodup
  waiting : ∀ c, c ∈ s.accessTokenRefreshWaiters ↔ (s.calls c).phase = .waiting
  queued : ∀ c, (s.calls c).phase = .waiting → (s.calls c).waitsFor = some s.refresher ∧ s.settlementsOf c = []
  retried : ∀ c r, (s.calls c).waitsFor = some r → (s.calls c).retry = true
  unsettled : ∀ c, (s.calls c).waitsFor = none → s.settlementsOf c = []
  told : ∀ c r, (s.calls c).waitsFor = some r → (s.calls c).phase ≠ .waiting → Told s c r

structure Inv (s : State) : Prop extends Flag s, Waiters s

theorem Inv.fresh (pathname : String) (token refreshToken : Option String) :
    Inv (State.fresh pathname token refreshToken) where
  refresher _ h := by cases h
  up h := by cases h
  flushed _ h := by cases h
  idle _ := rfl
  absent _ _ := ⟨rfl, rfl⟩
  nodup := List.nodup_nil
  waiting _ := ⟨nofun, nofun⟩
  queued _ h := by cases h
  retried _ _ h := by cases h
  unsettled _ _ := rfl
  told _ _ h := by cases h

theorem Phase.refreshes_of_flushed {phase : Phase} (h : phase.flushed = true) : phase.refreshes = true := by
  cases phase <;> first | exact h | cases h

variable {s s' : State} {c : Nat} {call : Call}

theorem Inv.served (h : Inv s) : Served s where
  idle := h.idle
  settled c r hfor := by
    by_cases hwaiting : (s.calls c).phase = .waiting
    · obtain ⟨hrefresher, hnone⟩ := h.queued c hwaiting
      obtain rfl : r = s.refresher := Option.some.inj (hfor.symm.trans hrefresher)
      have hmem := (h.waiting c).2 hwaiting
      have hup : s.isRefreshingAccessToken = true := by
        by_contra hdown
        rw [h.idle (Bool.eq_false_iff.2 hdown)] at hmem
        cases hmem
      have hrefreshes := h.up hup
      refine .inl ⟨hmem, hnone, hwaiting, ?_⟩
      cases hphase : (s.calls s.refresher).phase with
      | refreshing at_ => exact ⟨at_, rfl⟩
      | expiring at_ refresher =>
        rw [hphase] at hrefreshes
        rw [h.flushed s.refresher (by rw [hphase]; exact hrefreshes)] at hmem
        cases hmem
      | _ => rw [hphase] at hrefreshes; cases hrefreshes
    · exact .inr (h.told c r hfor hwaiting)

/-- The call that makes a refresh is not one that waited for another. -/
theorem Waiters.waitsFor_eq_none (h : Waiters s) (hrefreshes : (s.calls c).phase.refreshes = true) :
    (s.calls c).waitsFor = none := by
  cases hfor : (s.calls c).waitsFor with
  | none => rfl
  | some r =>
    obtain ⟨result, -, hphase⟩ := h.told c r hfor (by rintro hphase; rw [hphase] at hrefreshes; cases hrefreshes)
    cases result with
    | ok token =>
      rcases hphase with hphase | ⟨-, hphase | hphase | hphase⟩ <;> rw [hphase] at hrefreshes <;> cases hrefreshes
    | error message => rcases hphase with hphase | hphase <;> rw [hphase] at hrefreshes <;> cases hrefreshes

/-! ### One call changes -/

/-- The states differ in one call, and in what the waiters do not depend on. -/
structure Changes (s s' : State) (c : Nat) (call : Call) : Prop where
  calls : s'.calls = Function.update s.calls c call
  waiters : s'.accessTokenRefreshWaiters = s.accessTokenRefreshWaiters
  settlements : s'.settlements = s.settlements
  nextCall : s'.nextCall = s.nextCall

namespace Changes

theorem setCall (s : State) (c : Nat) (call : Call) : Changes s (s.setCall c call) c call := ⟨rfl, rfl, rfl, rfl⟩

theorem storeAuthTokens (s : State) (tokens : AuthTokens) (c : Nat) (phase : Phase) :
    Changes s ((s.storeAuthTokens tokens).setPhase c phase) c { s.calls c with phase := phase } := ⟨rfl, rfl, rfl, rfl⟩

theorem expiryReturned (s : State) (c : Nat) (refresher : Bool) :
    Changes s (s.expiryReturned c refresher) c { s.calls c with phase := .expiring .returned refresher } :=
  ⟨rfl, rfl, rfl, rfl⟩

theorem loggedOut (s : State) (c : Nat) (refresher : Bool) :
    Changes s ((s.storeTokens none none).expiryReturned c refresher) c
      { s.calls c with phase := .expiring .returned refresher } := ⟨rfl, rfl, rfl, rfl⟩

theorem rejected (s : State) (c : Nat) (flag : Bool) :
    Changes s ({ s with isRefreshingAccessToken := flag }.setPhase c .rejected) c { s.calls c with phase := .rejected } :=
  ⟨rfl, rfl, rfl, rfl⟩

theorem self (h : Changes s s' c call) : s'.calls c = call := by rw [h.calls, Function.update_self]

theorem other (h : Changes s s' c call) {c' : Nat} (hne : c' ≠ c) : s'.calls c' = s.calls c' := by
  rw [h.calls, Function.update_of_ne hne]

theorem settlementsOf (h : Changes s s' c call) (c' : Nat) : s'.settlementsOf c' = s.settlementsOf c' := by
  rw [State.settlementsOf, State.settlementsOf, h.settlements]

theorem told (h : Changes s s' c call) {c' r : Nat} (hne : c' ≠ c) (htold : Told s c' r) : Told s' c' r := by
  rw [Told, h.settlementsOf, h.other hne]
  exact htold

/-- The call was no waiter and becomes none. -/
theorem waitersInv (hc : Changes s s' c call) (h : Waiters s)
    (hrefresher : s.accessTokenRefreshWaiters = [] ∨ s'.refresher = s.refresher) (hpresent : (s.calls c).phase ≠ .absent)
    (hold : (s.calls c).phase ≠ .waiting) (hnew : call.phase ≠ .waiting) (hfor : call.waitsFor = (s.calls c).waitsFor)
    (hretry : (s.calls c).retry = true → call.retry = true)
    (htold : ∀ result, (s.calls c).waitsFor ≠ none → (s.calls c).phase = .woken result ∨ (s.calls c).Resumed result →
      call.phase = .woken result ∨ call.Resumed result) : Waiters s' where
  absent c' hle := by
    rw [hc.nextCall] at hle
    rw [hc.other (by rintro rfl; exact hpresent (h.absent c' hle).1)]
    exact h.absent c' hle
  nodup := by
    rw [hc.waiters]
    exact h.nodup
  waiting c' := by
    rw [hc.waiters]
    by_cases heq : c' = c
    · rw [heq, hc.self]
      exact ⟨fun hmem => (hold ((h.waiting c).1 hmem)).elim, fun hphase => (hnew hphase).elim⟩
    · rw [hc.other heq]
      exact h.waiting c'
  queued c' hphase := by
    have heq : c' ≠ c := by
      rintro rfl
      rw [hc.self] at hphase
      exact hnew hphase
    rw [hc.other heq] at hphase ⊢
    rw [hc.settlementsOf]
    rcases hrefresher with hnil | hrefresher
    · have hmem := (h.waiting c').2 hphase
      rw [hnil] at hmem
      cases hmem
    · rw [hrefresher]
      exact h.queued c' hphase
  retried c' r hr := by
    by_cases heq : c' = c
    · rw [heq, hc.self] at hr ⊢
      exact hretry (h.retried c r (hfor ▸ hr))
    · rw [hc.other heq] at hr ⊢
      exact h.retried c' r hr
  unsettled c' hnone := by
    rw [hc.settlementsOf]
    by_cases heq : c' = c
    · rw [heq, hc.self, hfor] at hnone
      rw [heq]
      exact h.unsettled c hnone
    · rw [hc.other heq] at hnone
      exact h.unsettled c' hnone
  told c' r hr hphase := by
    by_cases heq : c' = c
    · rw [heq, hc.self, hfor] at hr
      obtain ⟨result, hsettled, hresult⟩ := h.told c r hr hold
      rw [heq]
      refine ⟨result, by rw [hc.settlementsOf, hsettled], ?_⟩
      rw [hc.self]
      exact htold result (by rw [hr]; exact Option.some_ne_none r) hresult
    · rw [hc.other heq] at hr hphase
      exact hc.told heq (h.told c' r hr hphase)

/-- The call goes on with making its refresh, or with something else. -/
theorem flagInv (hc : Changes s s' c call) (h : Flag s) (hflag : s'.isRefreshingAccessToken = s.isRefreshingAccessToken)
    (hrefresher : s'.refresher = s.refresher) (hrefreshes : call.phase.refreshes = (s.calls c).phase.refreshes)
    (hflushed : call.phase.flushed = true → s.accessTokenRefreshWaiters = []) : Flag s' where
  refresher c' hc' := by
    rw [hrefresher, hflag]
    by_cases heq : c' = c
    · rw [heq, hc.self, hrefreshes] at hc'
      rw [heq]
      exact h.refresher c hc'
    · rw [hc.other heq] at hc'
      exact h.refresher c' hc'
  up hup := by
    rw [hflag] at hup
    rw [hrefresher]
    by_cases heq : s.refresher = c
    · rw [heq, hc.self, hrefreshes, ← heq]
      exact h.up hup
    · rw [hc.other heq]
      exact h.up hup
  flushed c' hc' := by
    rw [hc.waiters]
    by_cases heq : c' = c
    · rw [heq, hc.self] at hc'
      exact hflushed hc'
    · rw [hc.other heq] at hc'
      exact h.flushed c' hc'
  idle hdown := by
    rw [hflag] at hdown
    rw [hc.waiters]
    exact h.idle hdown

/-- The call makes a refresh, while no other does. -/
theorem flagInv_raise (hc : Changes s s' c call) (h : Flag s) (hdown : s.isRefreshingAccessToken = false)
    (hflag : s'.isRefreshingAccessToken = true) (hrefresher : s'.refresher = c) (hrefreshes : call.phase.refreshes = true) :
    Flag s' where
  refresher c' hc' := by
    by_cases heq : c' = c
    · exact ⟨heq.trans hrefresher.symm, hflag⟩
    · rw [hc.other heq] at hc'
      rw [(h.refresher c' hc').2] at hdown
      cases hdown
  up _ := by rw [hrefresher, hc.self, hrefreshes]
  flushed _ _ := by rw [hc.waiters, h.idle hdown]
  idle hdown' := by
    rw [hflag] at hdown'
    cases hdown'

/-- The call is through with its refresh. -/
theorem flagInv_lower (hc : Changes s s' c call) (h : Flag s) (hold : (s.calls c).phase.refreshes = true)
    (hnil : s.accessTokenRefreshWaiters = []) (hflag : s'.isRefreshingAccessToken = false)
    (hnew : call.phase.refreshes = false) : Flag s' where
  refresher c' hc' := by
    by_cases heq : c' = c
    · rw [heq, hc.self, hnew] at hc'
      cases hc'
    · rw [hc.other heq] at hc'
      exact (heq ((h.refresher c' hc').1.trans (h.refresher c hold).1.symm)).elim
  up hup := by
    rw [hflag] at hup
    cases hup
  flushed _ _ := by rw [hc.waiters, hnil]
  idle _ := by rw [hc.waiters, hnil]

end Changes

/-! ### A call queues up -/

theorem Inv.queueWaiter (h : Inv s) (hsent : (s.calls c).phase = .sent) (hretry : (s.calls c).retry = false)
    (hup : s.isRefreshingAccessToken = true) (hflushed : (s.calls s.refresher).phase.flushed = false) :
    Inv (s.queueWaiter c) := by
  have hnone : (s.calls c).waitsFor = none := by
    cases hfor : (s.calls c).waitsFor with
    | none => rfl
    | some r => rw [h.retried c r hfor] at hretry; cases hretry
  have hself : (s.queueWaiter c).calls c =
      { s.calls c with retry := true, phase := .waiting, waitsFor := some s.refresher } := Function.update_self ..
  have hother : ∀ {c'}, c' ≠ c → (s.queueWaiter c).calls c' = s.calls c' := fun hne => Function.update_of_ne hne ..
  have hmem : c ∉ s.accessTokenRefreshWaiters := by
    rw [h.waiting, hsent]
    exact nofun
  have hrefresher : s.refresher ≠ c := by
    rintro heq
    have hrefreshes := h.up hup
    rw [heq, hsent] at hrefreshes
    cases hrefreshes
  constructor
  case toFlag =>
    refine ⟨fun c' hc' => ?_, fun _ => ?_, fun c' hc' => ?_, fun hdown => ?_⟩
    · by_cases heq : c' = c
      · rw [heq, hself] at hc'
        cases hc'
      · rw [hother heq] at hc'
        exact h.refresher c' hc'
    · rw [show (s.queueWaiter c).refresher = s.refresher from rfl, hother hrefresher]
      exact h.up hup
    · by_cases heq : c' = c
      · rw [heq, hself] at hc'
        cases hc'
      · rw [hother heq] at hc'
        rw [(h.refresher c' (Phase.refreshes_of_flushed hc')).1, hflushed] at hc'
        cases hc'
    · rw [show (s.queueWaiter c).isRefreshingAccessToken = true from hup] at hdown
      cases hdown
  case toWaiters =>
    constructor
    case absent =>
      intro c' hle
      rw [hother (by rintro rfl; have habsent := (h.absent c' hle).1; rw [hsent] at habsent; cases habsent)]
      exact h.absent c' hle
    case nodup => exact List.Nodup.append h.nodup (List.nodup_singleton c) (List.disjoint_singleton.2 hmem)
    case waiting =>
      intro c'
      rw [show (s.queueWaiter c).accessTokenRefreshWaiters = s.accessTokenRefreshWaiters ++ [c] from rfl, List.mem_append,
        List.mem_singleton]
      by_cases heq : c' = c
      · rw [heq, hself]
        exact ⟨fun _ => rfl, fun _ => .inr rfl⟩
      · rw [hother heq, ← h.waiting c']
        exact or_iff_left heq
    case queued =>
      intro c' hphase
      by_cases heq : c' = c
      · rw [heq, hself]
        exact ⟨rfl, h.unsettled c hnone⟩
      · rw [hother heq] at hphase ⊢
        exact h.queued c' hphase
    case retried =>
      intro c' r hr
      by_cases heq : c' = c
      · rw [heq, hself]
      · rw [hother heq] at hr ⊢
        exact h.retried c' r hr
    case unsettled =>
      intro c' hr
      by_cases heq : c' = c
      · rw [heq, hself] at hr
        cases hr
      · rw [hother heq] at hr
        exact h.unsettled c' hr
    case told =>
      intro c' r hr hphase
      by_cases heq : c' = c
      · rw [heq, hself] at hphase
        exact (hphase rfl).elim
      · rw [hother heq] at hr hphase
        rw [Told, hother heq]
        exact h.told c' r hr hphase

/-! ### The waiters are told -/

/-- What telling some waiters leaves as it is. -/
structure Notified (s t : State) (told : List Nat) (r : Nat) (result : Except String String) : Prop where
  calls : ∀ c, t.calls c = if c ∈ told then { s.calls c with phase := .woken result } else s.calls c
  settlements : t.settlements = s.settlements ++ told.map (⟨·, r, result⟩)
  flag : t.isRefreshingAccessToken = s.isRefreshingAccessToken
  refresher : t.refresher = s.refresher
  nextCall : t.nextCall = s.nextCall

theorem notified_foldl (r : Nat) (result : Except String String) (told : List Nat) (s : State) (hnodup : told.Nodup)
    (hwaiting : ∀ c ∈ told, (s.calls c).phase = .waiting) :
    Notified s (told.foldl (State.settleWaiter · r result) s) told r result := by
  induction told generalizing s with
  | nil => exact ⟨fun _ => (if_neg List.not_mem_nil).symm, (List.append_nil _).symm, rfl, rfl, rfl⟩
  | cons c told ih =>
    obtain ⟨hmem, hnodup⟩ := List.nodup_cons.1 hnodup
    have hstep : s.settleWaiter r result c =
        { s.setPhase c (.woken result) with settlements := s.settlements ++ [⟨c, r, result⟩] } := by
      rw [State.settleWaiter, hwaiting c List.mem_cons_self]
    have hother : ∀ c' ∈ told, (s.settleWaiter r result c).calls c' = s.calls c' := fun c' hc' => by
      rw [hstep]
      exact Function.update_of_ne (by rintro rfl; exact hmem hc') ..
    have h := ih (s.settleWaiter r result c) hnodup fun c' hc' => by
      rw [hother c' hc']
      exact hwaiting c' (List.mem_cons_of_mem _ hc')
    rw [List.foldl_cons]
    refine ⟨fun c' => ?_, ?_, by rw [h.flag, hstep]; rfl, by rw [h.refresher, hstep]; rfl, by rw [h.nextCall, hstep]; rfl⟩
    · rw [h.calls]
      by_cases heq : c' = c
      · subst heq
        rw [if_neg hmem, if_pos List.mem_cons_self, hstep]
        exact Function.update_self ..
      · have hcalls : (s.settleWaiter r result c).calls c' = s.calls c' := by
          rw [hstep]
          exact Function.update_of_ne heq ..
        simp only [hcalls, List.mem_cons, heq, false_or]
    · rw [h.settlements, hstep, List.map_cons, List.append_assoc, List.singleton_append]

/-- The refresh of `r` is over, and its waiters are told. -/
theorem Inv.notifyWaiters (h : Inv s) {r : Nat} (hr : (s.calls r).phase.refreshes = true)
    (result : Except String String) :
    Inv (s.notifyWaiters r result) ∧ (s.notifyWaiters r result).calls r = s.calls r ∧
      (s.notifyWaiters r result).isRefreshingAccessToken = true := by
  have hn := notified_foldl r result _ s h.nodup fun c hc => (h.waiting c).1 hc
  obtain ⟨hrefresher, hup⟩ := h.refresher r hr
  have hcalls : ∀ c, (s.notifyWaiters r result).calls c =
      if c ∈ s.accessTokenRefreshWaiters then { s.calls c with phase := .woken result } else s.calls c := hn.calls
  have hother : ∀ {c}, (s.calls c).phase ≠ .waiting → (s.notifyWaiters r result).calls c = s.calls c := fun hphase => by
    rw [hcalls, if_neg (mt (h.waiting _).1 hphase)]
  have hwoken : ∀ {c}, (s.calls c).phase = .waiting →
      (s.notifyWaiters r result).calls c = { s.calls c with phase := .woken result } := fun hphase => by
    rw [hcalls, if_pos ((h.waiting _).2 hphase)]
  have hsettled : ∀ c, (s.notifyWaiters r result).settlementsOf c =
      s.settlementsOf c ++ (s.accessTokenRefreshWaiters.filter fun c' => c' = c).map (⟨·, r, result⟩) := fun c => by
    rw [State.settlementsOf, show (s.notifyWaiters r result).settlements = _ from hn.settlements, List.filter_append,
      List.filter_map]
    rfl
  have hunchanged : ∀ {c}, (s.calls c).phase ≠ .waiting → (s.notifyWaiters r result).settlementsOf c = s.settlementsOf c := by
    intro c hphase
    rw [hsettled, List.filter_eq_nil_iff.2, List.map_nil, List.append_nil]
    intro c' hc' heq
    rw [of_decide_eq_true heq, h.waiting] at hc'
    exact hphase hc'
  have hself : (s.notifyWaiters r result).calls r = s.calls r :=
    hother (by rintro hphase; rw [hphase] at hr; cases hr)
  refine ⟨⟨⟨fun c hc => ?_, fun _ => ?_, fun _ _ => rfl, fun _ => rfl⟩,
    ⟨fun c hle => ?_, List.nodup_nil, fun c => ?_, fun c hphase => ?_, fun c r' hfor => ?_, fun c hfor => ?_,
      fun c r' hfor hphase => ?_⟩⟩, hself, hn.flag.trans hup⟩
  · by_cases hwaiting : (s.calls c).phase = .waiting
    · rw [hwoken hwaiting] at hc
      cases hc
    · rw [hother hwaiting] at hc
      rw [show (s.notifyWaiters r result).refresher = _ from hn.refresher]
      exact ⟨(h.refresher c hc).1, hn.flag.trans hup⟩
  · rw [show (s.notifyWaiters r result).refresher = _ from hn.refresher, ← hrefresher, hself, hr]
  · rw [show (s.notifyWaiters r result).nextCall = _ from hn.nextCall] at hle
    rw [hother (by rw [(h.absent c hle).1]; exact nofun)]
    exact h.absent c hle
  · refine ⟨nofun, fun hphase => ?_⟩
    by_cases hwaiting : (s.calls c).phase = .waiting
    · rw [hwoken hwaiting] at hphase
      cases hphase
    · rw [hother hwaiting] at hphase
      exact (hwaiting hphase).elim
  · by_cases hwaiting : (s.calls c).phase = .waiting
    · rw [hwoken hwaiting] at hphase
      cases hphase
    · rw [hother hwaiting] at hphase
      exact (hwaiting hphase).elim
  · by_cases hwaiting : (s.calls c).phase = .waiting
    · rw [hwoken hwaiting] at hfor ⊢
      exact h.retried c r' hfor
    · rw [hother hwaiting] at hfor ⊢
      exact h.retried c r' hfor
  · have hwaiting : (s.calls c).phase ≠ .waiting := by
      intro hwaiting
      rw [hwoken hwaiting] at hfor
      rw [(h.queued c hwaiting).1] at hfor
      cases hfor
    rw [hother hwaiting] at hfor
    rw [hunchanged hwaiting]
    exact h.unsettled c hfor
  · by_cases hwaiting : (s.calls c).phase = .waiting
    · rw [hwoken hwaiting] at hfor
      obtain ⟨hfor', hnone⟩ := h.queued c hwaiting
      obtain rfl : r' = r := by rw [hrefresher]; exact Option.some.inj (hfor.symm.trans hfor')
      refine ⟨result, ?_, .inl (by rw [hwoken hwaiting])⟩
      have honce : (s.accessTokenRefreshWaiters.filter fun c' => c' = c) = [c] := by
        rw [List.filter_eq, List.count_eq_one_of_mem h.nodup ((h.waiting c).2 hwaiting), List.replicate_one]
      rw [hsettled, hnone, honce]
      rfl
    · rw [hother hwaiting] at hfor
      rw [Told, hunchanged hwaiting, hother hwaiting]
      exact h.told c r' hfor hwaiting

/-! ### The steps -/

theorem Inv.newCall (h : Inv s) (route : Route) : Inv (s.newCall route) := by
  obtain ⟨habsent, hnone⟩ := h.absent s.nextCall (Nat.le_refl _)
  have hself : (s.newCall route).calls s.nextCall = ⟨route, false, none, .sent, none⟩ := Function.update_self ..
  have hother : ∀ {c}, c ≠ s.nextCall → (s.newCall route).calls c = s.calls c := fun hne => Function.update_of_ne hne ..
  constructor
  case toFlag =>
    refine ⟨fun c hc => ?_, fun hup => ?_, fun c hc => ?_, h.idle⟩
    · by_cases heq : c = s.nextCall
      · rw [heq, hself] at hc
        cases hc
      · rw [hother heq] at hc
        exact h.refresher c hc
    · have hrefreshes := h.up hup
      rw [show (s.newCall route).refresher = s.refresher from rfl, hother]
      · exact hrefreshes
      · rintro heq
        rw [heq, habsent] at hrefreshes
        cases hrefreshes
    · by_cases heq : c = s.nextCall
      · rw [heq, hself] at hc
        cases hc
      · rw [hother heq] at hc
        exact h.flushed c hc
  case toWaiters =>
    constructor
    case absent =>
      intro c hle
      rw [hother (Nat.ne_of_gt hle)]
      exact h.absent c (Nat.le_of_succ_le hle)
    case nodup => exact h.nodup
    case waiting =>
      intro c
      by_cases heq : c = s.nextCall
      · rw [heq, hself]
        refine ⟨fun hmem => ?_, nofun⟩
        have hphase := (h.waiting s.nextCall).1 hmem
        rw [habsent] at hphase
        cases hphase
      · rw [hother heq]
        exact h.waiting c
    case queued =>
      intro c hphase
      by_cases heq : c = s.nextCall
      · rw [heq, hself] at hphase
        cases hphase
      · rw [hother heq] at hphase ⊢
        exact h.queued c hphase
    case retried =>
      intro c r hfor
      by_cases heq : c = s.nextCall
      · rw [heq, hself] at hfor
        cases hfor
      · rw [hother heq] at hfor ⊢
        exact h.retried c r hfor
    case unsettled =>
      intro c hfor
      by_cases heq : c = s.nextCall
      · rw [heq]
        exact h.unsettled s.nextCall hnone
      · rw [hother heq] at hfor
        exact h.unsettled c hfor
    case told =>
      intro c r hfor hphase
      by_cases heq : c = s.nextCall
      · rw [heq, hself] at hfor
        cases hfor
      · rw [hother heq] at hfor hphase
        rw [Told, hother heq]
        exact h.told c r hfor hphase

/-- What a call may become that makes no refresh and is no waiter. -/
theorem Inv.bystander (h : Inv s) (hc : Changes s s' c call)
    (hflag : s'.isRefreshingAccessToken = s.isRefreshingAccessToken) (hrefresher : s'.refresher = s.refresher)
    (hpresent : (s.calls c).phase ≠ .absent) (hold : (s.calls c).phase ≠ .waiting) (hnew : call.phase ≠ .waiting)
    (hidle : (s.calls c).phase.refreshes = false) (hidle' : call.phase.refreshes = false)
    (hfor : call.waitsFor = (s.calls c).waitsFor) (hretry : (s.calls c).retry = true → call.retry = true)
    (htold : ∀ result, (s.calls c).waitsFor ≠ none → (s.calls c).phase = .woken result ∨ (s.calls c).Resumed result →
      call.phase = .woken result ∨ call.Resumed result) : Inv s' where
  toFlag := hc.flagInv h.toFlag hflag hrefresher (hidle'.trans hidle.symm) fun hflushed => by
    rw [Phase.refreshes_of_flushed hflushed] at hidle'
    cases hidle'
  toWaiters := hc.waitersInv h.toWaiters (.inr hrefresher) hpresent hold hnew hfor hretry htold

/-- The call that makes the refresh goes on with it. -/
theorem Inv.refreshes (h : Inv s) (hc : Changes s s' c call)
    (hflag : s'.isRefreshingAccessToken = s.isRefreshingAccessToken) (hrefresher : s'.refresher = s.refresher)
    (hold : (s.calls c).phase.refreshes = true) (hnew : call.phase.refreshes = true)
    (hflushed : call.phase.flushed = true → s.accessTokenRefreshWaiters = [])
    (hfor : call.waitsFor = (s.calls c).waitsFor) (hretry : call.retry = (s.calls c).retry) : Inv s' where
  toFlag := hc.flagInv h.toFlag hflag hrefresher (hnew.trans hold.symm) hflushed
  toWaiters := hc.waitersInv h.toWaiters (.inr hrefresher) (by rintro heq; rw [heq] at hold; cases hold)
    (by rintro heq; rw [heq] at hold; cases hold) (by rintro heq; rw [heq] at hnew; cases hnew) hfor
    (fun hr => hretry.trans hr) fun _ hne _ => (hne (h.waitsFor_eq_none hold)).elim

/-- The call that made the refresh drops the flag. -/
theorem Inv.lower (h : Inv s) (hc : Changes s s' c call) (hold : (s.calls c).phase.refreshes = true)
    (hnil : s.accessTokenRefreshWaiters = []) (hflag : s'.isRefreshingAccessToken = false)
    (hnew : call.phase.refreshes = false) (hnew' : call.phase ≠ .waiting) (hfor : call.waitsFor = (s.calls c).waitsFor)
    (hretry : call.retry = (s.calls c).retry) : Inv s' where
  toFlag := hc.flagInv_lower h.toFlag hold hnil hflag hnew
  toWaiters := hc.waitersInv h.toWaiters (.inl hnil) (by rintro heq; rw [heq] at hold; cases hold)
    (by rintro heq; rw [heq] at hold; cases hold) hnew' hfor (fun hr => hretry.trans hr)
    fun _ hne _ => (hne (h.waitsFor_eq_none hold)).elim

theorem changes_expired (s : State) (c : Nat) (refresher : Bool) : ∃ at_,
    Changes s (s.handleSystemSessionExpired c refresher) c { s.calls c with phase := .expiring at_ refresher } ∧
      (s.handleSystemSessionExpired c refresher).isRefreshingAccessToken = s.isRefreshingAccessToken ∧
      (s.handleSystemSessionExpired c refresher).refresher = s.refresher := by
  unfold State.handleSystemSessionExpired
  split
  · exact ⟨.returned, .setCall .., rfl, rfl⟩
  · exact ⟨.importingStore, ⟨rfl, rfl, rfl, rfl⟩, rfl, rfl⟩

/-- A call whose request is out goes on to a phase that no waiter has. -/
theorem Inv.leaveSent (h : Inv s) {phase : Phase} (hc : Changes s s' c { s.calls c with phase := phase })
    (hflag : s'.isRefreshingAccessToken = s.isRefreshingAccessToken) (hrefresher : s'.refresher = s.refresher)
    (hsent : (s.calls c).phase = .sent) (hwaiting : phase ≠ .waiting) (hidle : phase.refreshes = false)
    (htold : (s.calls c).waitsFor ≠ none → phase = .answered ∨ phase = .rejected) : Inv s' := by
  refine h.bystander hc hflag hrefresher (by simp [hsent]) (by simp [hsent]) hwaiting (by rw [hsent]; rfl) hidle rfl id
    fun result hfor hresult => ?_
  cases result with
  | ok token =>
    rcases hresult with hwoken | ⟨hauthorization, -⟩
    · rw [hsent] at hwoken
      cases hwoken
    · exact .inr ⟨hauthorization, .inr (htold hfor)⟩
  | error message =>
    rcases hresult with hphase | hphase
    · rw [hsent] at hphase
      cases hphase
    · rw [Call.Resumed, hsent] at hphase
      cases hphase

theorem Inv.unauthorized (h : Inv s) (hsent : (s.calls c).phase = .sent) (isAppSessionError : Bool)
    (hok : InTime s (.unauthorized c isAppSessionError)) : Inv (s.unauthorized c isAppSessionError) := by
  have hnone : ¬ (s.calls c).retry = true → (s.calls c).waitsFor = none := fun hretry => by
    cases hfor : (s.calls c).waitsFor with
    | none => rfl
    | some r => exact (hretry (h.retried c r hfor)).elim
  simp only [State.unauthorized]
  split
  · exact h.leaveSent (.setCall ..) rfl rfl hsent nofun rfl fun _ => .inr rfl
  rename_i hretry
  split
  · exact h.leaveSent (.setCall ..) rfl rfl hsent nofun rfl fun hfor => (hfor (hnone hretry)).elim
  rename_i hhost
  split
  · rename_i hroute
    split
    · rename_i hup
      have hneeds : s.needsRefresh c isAppSessionError = true := by
        rw [State.needsRefresh, Bool.eq_false_iff.2 hretry, Bool.eq_false_iff.2 hhost, hroute]
        rfl
      exact h.queueWaiter hsent (Bool.eq_false_iff.2 hretry) hup (hok hneeds)
    · rename_i hdown
      have hc : Changes s (s.refreshAccessToken c) c _ := ⟨rfl, rfl, rfl, rfl⟩
      have hdown := Bool.eq_false_iff.2 hdown
      exact ⟨hc.flagInv_raise h.toFlag hdown rfl rfl rfl, hc.waitersInv h.toWaiters (.inl (h.idle hdown))
        (by simp [hsent]) (by simp [hsent]) nofun rfl (fun _ => rfl) fun _ hfor _ => (hfor (hnone hretry)).elim⟩
  · split
    · exact h.leaveSent (.setCall ..) rfl rfl hsent nofun rfl fun _ => .inr rfl
    · obtain ⟨at_, hc, hflag, hrefresher⟩ := changes_expired s c false
      exact h.leaveSent hc hflag hrefresher hsent nofun rfl fun hfor => (hfor (hnone hretry)).elim

theorem Inv.refreshReturned (h : Inv s) {result : Except String String}
    (hphase : (s.calls c).phase = .refreshing (.returned result)) : Inv (s.refreshReturned c result) := by
  have hrefreshes : (s.calls c).phase.refreshes = true := by rw [hphase]; rfl
  obtain ⟨hn, hself, hup⟩ := h.notifyWaiters hrefreshes result
  cases result with
  | ok token =>
    have hc : Changes (s.notifyWaiters c (.ok token)) (s.refreshReturned c (.ok token)) c
        { (s.notifyWaiters c (.ok token)).calls c with authorization := some (bearer token), phase := .sent } :=
      ⟨rfl, rfl, rfl, rfl⟩
    exact hn.lower hc (by rw [hself]; exact hrefreshes) rfl rfl rfl nofun rfl rfl
  | error message =>
    obtain ⟨at_, hc, hflag, hrefresher⟩ := changes_expired (s.notifyWaiters c (.error message)) c true
    exact hn.refreshes hc hflag hrefresher (by rw [hself]; exact hrefreshes) rfl (fun _ => rfl) rfl rfl

theorem Inv.refreshAnswered (h : Inv s) (hphase : (s.calls c).phase = .refreshing .posting)
    (response : Except String RefreshBody) : Inv (s.refreshAnswered c response) := by
  have hrefreshes : (s.calls c).phase.refreshes = true := by rw [hphase]; rfl
  cases response with
  | error message => exact h.refreshes (.setCall ..) rfl rfl hrefreshes rfl nofun rfl rfl
  | ok body =>
    simp only [State.refreshAnswered]
    split
    · exact h.refreshes (.setCall ..) rfl rfl hrefreshes rfl nofun rfl rfl
    · rename_i tokens _
      exact h.refreshes (.storeAuthTokens ..) rfl rfl hrefreshes rfl nofun rfl rfl

/-- A call at a phase that no waiter goes through. -/
theorem Inv.aside (h : Inv s) (hc : Changes s s' c call)
    (hflag : s'.isRefreshingAccessToken = s.isRefreshingAccessToken) (hrefresher : s'.refresher = s.refresher)
    (hphase : (s.calls c).phase = .hostHandling ∨ ∃ at_, (s.calls c).phase = .expiring at_ false)
    (hnew : call.phase ≠ .waiting) (hidle : call.phase.refreshes = false) (hfor : call.waitsFor = (s.calls c).waitsFor)
    (hretry : (s.calls c).retry = true → call.retry = true) : Inv s' := by
  refine h.bystander hc hflag hrefresher ?_ ?_ hnew ?_ hidle hfor hretry fun result _ hresult => ?_
  · rcases hphase with hphase | ⟨at_, hphase⟩ <;> rw [hphase] <;> exact nofun
  · rcases hphase with hphase | ⟨at_, hphase⟩ <;> rw [hphase] <;> exact nofun
  · rcases hphase with hphase | ⟨at_, hphase⟩ <;> rw [hphase] <;> rfl
  · cases result <;> rcases hphase with hphase | ⟨at_, hphase⟩ <;> simp [hphase, Call.Resumed] at hresult

theorem Inv.expires (h : Inv s) {at_ at' : Expiry} {refresher : Bool}
    (hphase : (s.calls c).phase = .expiring at_ refresher)
    (hc : Changes s s' c { s.calls c with phase := .expiring at' refresher })
    (hflag : s'.isRefreshingAccessToken = s.isRefreshingAccessToken) (hrefresher : s'.refresher = s.refresher) :
    Inv s' := by
  cases refresher with
  | true =>
    exact h.refreshes hc hflag hrefresher (by rw [hphase]; rfl) rfl (fun _ => h.flushed c (by rw [hphase]; rfl)) rfl rfl
  | false => exact h.aside hc hflag hrefresher (.inr ⟨at_, hphase⟩) nofun rfl rfl id

/-- The waiter whose promise is settled goes on. -/
theorem Inv.wake (h : Inv s) {result : Except String String} (hphase : (s.calls c).phase = .woken result)
    (hc : Changes s s' c call) (hflag : s'.isRefreshingAccessToken = s.isRefreshingAccessToken)
    (hrefresher : s'.refresher = s.refresher) (hresumed : call.Resumed result)
    (hfor : call.waitsFor = (s.calls c).waitsFor) (hretry : (s.calls c).retry = true → call.retry = true) : Inv s' := by
  have hnew : call.phase ≠ .waiting ∧ call.phase.refreshes = false := by
    cases result with
    | ok token => rcases hresumed with ⟨-, heq | heq | heq⟩ <;> rw [heq] <;> exact ⟨nofun, rfl⟩
    | error message => rw [show call.phase = .rejected from hresumed]; exact ⟨nofun, rfl⟩
  refine h.bystander hc hflag hrefresher (by simp [hphase]) (by simp [hphase]) hnew.1 (by rw [hphase]; rfl) hnew.2 hfor
    hretry fun result' _ hresult' => ?_
  obtain rfl : result = result' := by
    cases result' with
    | ok token => simpa [hphase, Call.Resumed] using hresult'
    | error message => simpa [hphase, Call.Resumed] using hresult'
  exact .inr hresumed

theorem Inv.imported (h : Inv s) {module : Except String Unit} (hstep : step s (.imported c module) = some s') :
    Inv s' := by
  simp only [ApiClient.step] at hstep
  split at hstep
  · rename_i hphase
    obtain rfl := Option.some.inj hstep
    exact h.refreshes (.setCall ..) rfl rfl (by rw [hphase]; rfl) rfl (by simp [Phase.flushed]) rfl rfl
  · rename_i tokens _ hphase
    obtain rfl := Option.some.inj hstep
    exact h.refreshes (.storeAuthTokens ..) rfl rfl (by rw [hphase]; rfl) rfl (by simp [Phase.flushed]) rfl rfl
  · rename_i hphase
    obtain rfl := Option.some.inj hstep
    exact h.refreshes (.setCall ..) rfl rfl (by rw [hphase]; rfl) rfl (by simp [Phase.flushed]) rfl rfl
  · rename_i hphase
    obtain rfl := Option.some.inj hstep
    exact h.refreshes (.setCall ..) rfl rfl (by rw [hphase]; rfl) rfl (by simp [Phase.flushed]) rfl rfl
  · rename_i hphase
    obtain rfl := Option.some.inj hstep
    exact h.expires hphase (.setCall ..) rfl rfl
  · rename_i hphase
    obtain rfl := Option.some.inj hstep
    exact h.expires hphase (.loggedOut ..) rfl rfl
  · rename_i hphase
    obtain rfl := Option.some.inj hstep
    exact h.expires hphase (.expiryReturned ..) rfl rfl
  · rename_i hphase
    obtain rfl := Option.some.inj hstep
    exact h.expires hphase (.expiryReturned ..) rfl rfl
  · cases hstep

theorem Inv.resume (h : Inv s) (hstep : step s (.resume c) = some s') : Inv s' := by
  simp only [ApiClient.step] at hstep
  split at hstep
  · rename_i token hphase
    obtain rfl := Option.some.inj hstep
    exact h.wake hphase (.setCall ..) rfl rfl ⟨rfl, .inl rfl⟩ rfl id
  · rename_i message hphase
    obtain rfl := Option.some.inj hstep
    exact h.wake hphase (.setCall ..) rfl rfl rfl rfl id
  · rename_i result hphase
    obtain rfl := Option.some.inj hstep
    exact h.refreshReturned hphase
  · rename_i refresher hphase
    obtain rfl := Option.some.inj hstep
    cases refresher with
    | true =>
      exact h.lower (.rejected ..) (by rw [hphase]; rfl)
        (h.flushed c (by rw [hphase]; rfl)) rfl rfl (by simp) rfl rfl
    | false =>
      exact h.aside (.rejected ..) rfl rfl (.inr ⟨_, hphase⟩) (by simp)
        rfl rfl id
  · cases hstep

theorem Inv.step (h : Inv s) {a : Act} (hok : InTime s a) (hstep : step s a = some s') : Inv s' := by
  cases a with
  | call route =>
    obtain rfl := Option.some.inj hstep
    exact h.newCall route
  | answer c =>
    obtain ⟨hphase, rfl⟩ := step_answer_iff.1 hstep
    exact h.leaveSent (.setCall ..) rfl rfl hphase (by simp) rfl fun _ => .inl rfl
  | unauthorized c isAppSessionError =>
    simp only [ApiClient.step] at hstep
    split at hstep
    · rename_i hphase
      obtain rfl := Option.some.inj hstep
      exact h.unauthorized hphase isAppSessionError hok
    · cases hstep
  | hostHandled c retried =>
    simp only [ApiClient.step] at hstep
    split at hstep
    · rename_i hphase
      obtain rfl := Option.some.inj hstep
      split
      · exact h.aside (.setCall ..) rfl rfl (.inl hphase) (by simp) rfl rfl fun _ => rfl
      · exact h.aside (.setCall ..) rfl rfl (.inl hphase) (by simp) rfl rfl id
    · cases hstep
  | refreshAnswer c response =>
    simp only [ApiClient.step] at hstep
    split at hstep
    · rename_i hphase
      obtain rfl := Option.some.inj hstep
      exact h.refreshAnswered hphase response
    · cases hstep
  | imported c module => exact h.imported hstep
  | resume c => exact h.resume hstep
  | navigate pathname =>
    obtain rfl := Option.some.inj hstep
    exact ⟨⟨h.refresher, h.up, h.flushed, h.idle⟩,
      ⟨h.absent, h.nodup, h.waiting, h.queued, h.retried, h.unsettled, h.told⟩⟩
  | setSession token refreshToken =>
    obtain rfl := Option.some.inj hstep
    exact ⟨⟨h.refresher, h.up, h.flushed, h.idle⟩,
      ⟨h.absent, h.nodup, h.waiting, h.queued, h.retried, h.unsettled, h.told⟩⟩

/-! ### The runs -/

theorem inv_run {as : List Act} (h : Inv s) (hrun : Run step InTime s as s') : Inv s' :=
  hrun.invariant (fun _ _ _ hi hok hstep => hi.step hok hstep) h

/-- The call's own step in its refresh. -/
def Act.isOf (r : Nat) : Act → Prop
  | .refreshAnswer c _ | .imported c _ | .resume c => c = r
  | _ => False

/-- When the refresh is through, no waiter is left. -/
theorem waiters_refreshReturned (s : State) (c : Nat) (result : Except String String) :
    (s.refreshReturned c result).accessTokenRefreshWaiters = [] := by
  cases result with
  | ok token => rfl
  | error message =>
    obtain ⟨at_, hc, -, -⟩ := changes_expired (s.notifyWaiters c (.error message)) c true
    exact hc.waiters

/-- The refresh can be brought to its end, from wherever it is. -/
theorem exists_run_refresh {r : Nat} {at_ : Refresh} (hphase : (s.calls r).phase = .refreshing at_) :
    ∃ as s', Run step InTime s as s' ∧ (∀ a ∈ as, a.isOf r) ∧ s'.accessTokenRefreshWaiters = [] := by
  have hreturned : ∀ {t : State} {result}, (t.calls r).phase = .refreshing (.returned result) →
      Run step InTime t [.resume r] (t.refreshReturned r result) := fun {t result} ht =>
    .single trivial (by simp only [step, ht])
  have hfailed : ∀ {a : Act}, InTime s a → a.isOf r →
      step s a = some (s.setPhase r (.refreshing (.returned (.error "failed")))) →
      ∃ as s', Run step InTime s as s' ∧ (∀ a ∈ as, a.isOf r) ∧ s'.accessTokenRefreshWaiters = [] := by
    intro a hok ha hstep
    refine ⟨[a, .resume r], _, .cons hok hstep (hreturned (by rw [State.setPhase, (Changes.setCall s r _).self])),
      fun a' ha' => ?_, waiters_refreshReturned _ _ _⟩
    rcases List.mem_pair.1 ha' with rfl | rfl
    · exact ha
    · exact rfl
  cases at_ with
  | posting =>
    exact hfailed (a := .refreshAnswer r (.error "failed")) trivial rfl (by simp only [step, hphase]; rfl)
  | importingStore tokens =>
    exact hfailed (a := .imported r (.error "failed")) trivial rfl (by simp only [step, hphase])
  | importingSlice tokens =>
    exact hfailed (a := .imported r (.error "failed")) trivial rfl (by simp only [step, hphase])
  | returned result =>
    refine ⟨[.resume r], _, hreturned hphase, fun a' ha' => ?_, waiters_refreshReturned _ _ _⟩
    rw [List.mem_singleton.1 ha']
    exact rfl

theorem refresh_waiters_served {pathname : String} {token refreshToken : Option String} {as : List Act} {s : State}
    (h : Run step InTime (.fresh pathname token refreshToken) as s) :
    Served s ∧ ∀ r at_, (s.calls r).phase = .refreshing at_ →
      ∃ as' s', Run step InTime s as' s' ∧ (∀ a ∈ as', a.isOf r) ∧ s'.accessTokenRefreshWaiters = [] :=
  ⟨(inv_run (Inv.fresh pathname token refreshToken) h).served, fun _ _ => exists_run_refresh⟩

/-- Two calls get a 401; the second waits for the refresh of the first, and is sent again with its token. -/
theorem refresh_waiters_served_two : ∃ s, Run step InTime (.fresh "/" (some "t0") (some "r0"))
    [.call {}, .call {}, .unauthorized 0 true, .unauthorized 1 true,
      .refreshAnswer 0 (.ok { token := some "t1" }), .imported 0 (.ok ()), .imported 0 (.ok ()), .resume 0, .resume 1] s ∧
    (s.calls 1).authorization = some (bearer "t1") ∧ Served s := by
  obtain ⟨s, hrun, hauthorization⟩ : ∃ s, Run step InTime (.fresh "/" (some "t0") (some "r0"))
      [.call {}, .call {}, .unauthorized 0 true, .unauthorized 1 true,
        .refreshAnswer 0 (.ok { token := some "t1" }), .imported 0 (.ok ()), .imported 0 (.ok ()), .resume 0, .resume 1] s ∧
      (s.calls 1).authorization = some (bearer "t1") := exists_run (by decide)
  exact ⟨s, hrun, hauthorization, (refresh_waiters_served hrun).1⟩

/-- The refresh of the first call fails, and the second gets its 401 while the first awaits the imports of
`handleSystemSessionExpired`: it stays a waiter, with the flag down. -/
theorem refresh_waiters_stranded : ∃ s, Run step Always (.fresh "/" (some "t0") (some "r0"))
    [.call {}, .call {}, .unauthorized 0 true, .refreshAnswer 0 (.error "Request failed with status code 401"),
      .resume 0, .unauthorized 1 true, .imported 0 (.ok ()), .imported 0 (.ok ()), .resume 0] s ∧ ¬ Served s := by
  obtain ⟨s, hrun, hdown, hwaiters⟩ : ∃ s, Run step Always (.fresh "/" (some "t0") (some "r0"))
      [.call {}, .call {}, .unauthorized 0 true, .refreshAnswer 0 (.error "Request failed with status code 401"),
        .resume 0, .unauthorized 1 true, .imported 0 (.ok ()), .imported 0 (.ok ()), .resume 0] s ∧
      (s.isRefreshingAccessToken = false ∧ s.accessTokenRefreshWaiters = [1]) := exists_run (by decide)
  refine ⟨s, hrun, fun hserved => ?_⟩
  rw [hserved.idle hdown] at hwaiters
  cases hwaiters

end CubridWebManager.ApiClient
