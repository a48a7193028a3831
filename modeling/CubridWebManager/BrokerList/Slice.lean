import CubridWebManager.Lib.Json
import CubridWebManager.Lib.JsText
import CubridWebManager.ListViews.Views

/-!
# The lists of the brokers

The part of `brokerSlice` that keeps the list of each host's brokers, for the dashboards and for the navigator, its
reducers, and that they do to the views what is said of a slice (`slice_meets`).  A failed background read empties the
list of the dashboards here.
-/

namespace CubridWebManager.BrokerList

open LastWriter
open ListViews (HostViews Answer Policy Slice Reading)

/-! ### The state -/

structure Broker where
  name : Text
  rest : List (String × Json)

structure Brokers where
  brokersByHost : String → Option (List Broker)
  navigatorBrokersByHost : String → Option (List Broker)
  activeHostUid : Option String
  selectedBroker : Option Text
  loadingByHost : String → Bool
  brokerListFailedByHost : String → Option Bool
  /-- `{ requestId: foreground }`; each request has an id of its own. -/
  pendingReadsByHost : String → List (Nat × Bool)
  appliedLiveSeqByHost : String → Option Nat
  appliedNavigatorSeqByHost : String → Option Nat

def initialState : Brokers where
  brokersByHost _ := none
  navigatorBrokersByHost _ := none
  activeHostUid := none
  selectedBroker := none
  loadingByHost _ := false
  brokerListFailedByHost _ := none
  pendingReadsByHost _ := []
  appliedLiveSeqByHost _ := none
  appliedNavigatorSeqByHost _ := none

namespace Brokers

variable (state : Brokers)

def startRead (hostUid : String) (requestId : Nat) (foreground : Bool) : Brokers :=
  { state with
    pendingReadsByHost :=
      Function.update state.pendingReadsByHost hostUid ((requestId, foreground) :: state.pendingReadsByHost hostUid)
    loadingByHost := if foreground then Function.update state.loadingByHost hostUid true else state.loadingByHost }

/-- None if the read does not belong to the connection of the host. -/
def settleRead (hostUid : String) (requestId : Nat) : Option Brokers :=
  match (state.pendingReadsByHost hostUid).lookup requestId with
  | some foreground =>
    let reads := (state.pendingReadsByHost hostUid).filter (·.1 ≠ requestId)
    some { state with
      pendingReadsByHost := Function.update state.pendingReadsByHost hostUid reads
      loadingByHost :=
        if foreground then Function.update state.loadingByHost hostUid (reads.any Prod.snd) else state.loadingByHost }
  | none => none

/-- Which views the read may update, and the state with their marks moved. -/
def claimSeq (hostUid : String) (seq : Nat) (isBackground : Bool) : Bool × Bool × Brokers :=
  let updateLive : Bool := (state.appliedLiveSeqByHost hostUid).getD 0 < seq
  let updateNavigator : Bool := !isBackground && ((state.appliedNavigatorSeqByHost hostUid).getD 0 < seq : Bool)
  (updateLive, updateNavigator,
    { state with
      appliedLiveSeqByHost :=
        if updateLive then Function.update state.appliedLiveSeqByHost hostUid (some seq) else state.appliedLiveSeqByHost
      appliedNavigatorSeqByHost :=
        if updateNavigator then Function.update state.appliedNavigatorSeqByHost hostUid (some seq)
        else state.appliedNavigatorSeqByHost })

/-- The views that are updated show the brokers; whether the read failed goes with the live one. -/
def setBrokers (hostUid : String) (updateLive updateNavigator failed : Bool) (newBrokers : List Broker) : Brokers :=
  { state with
    brokerListFailedByHost :=
      if updateLive then Function.update state.brokerListFailedByHost hostUid (some failed)
      else state.brokerListFailedByHost
    brokersByHost :=
      if updateLive then Function.update state.brokersByHost hostUid (some newBrokers) else state.brokersByHost
    navigatorBrokersByHost :=
      if updateNavigator then Function.update state.navigatorBrokersByHost hostUid (some newBrokers)
      else state.navigatorBrokersByHost }

/-- Only the list of the active host may clear the selection. -/
def checkSelected (hostUid : String) : Brokers :=
  let brokers := (state.brokersByHost hostUid).getD []
  if state.activeHostUid = some hostUid ∧ brokers.find? (fun b => some b.name = state.selectedBroker) = none then
    { state with selectedBroker := none }
  else state

/-! ### The reducers -/

def fetchBrokerListPending (hostUid : String) (requestId : Nat) (isBackground : Bool) : Brokers :=
  state.startRead hostUid requestId (!isBackground)

def fetchBrokerListFulfilled (hostUid : String) (requestId : Nat) (isBackground : Bool) (newBrokers : List Broker)
    (seq : Nat) : Brokers :=
  match state.settleRead hostUid requestId with
  | some state =>
    let (updateLive, updateNavigator, state) := state.claimSeq hostUid seq isBackground
    let state := state.setBrokers hostUid updateLive updateNavigator false newBrokers
    if updateLive then state.checkSelected hostUid else state
  | none => state

def fetchBrokerListRejected (hostUid : String) (requestId : Nat) (isBackground : Bool) (seq : Nat) : Brokers :=
  match state.settleRead hostUid requestId with
  | some state =>
    let (updateLive, updateNavigator, state) := state.claimSeq hostUid seq isBackground
    state.setBrokers hostUid updateLive updateNavigator true []
  | none => state

def closeHostTabs (hostUid : String) (seq : Nat) : Brokers :=
  { state with
    brokersByHost := Function.update state.brokersByHost hostUid none
    navigatorBrokersByHost := Function.update state.navigatorBrokersByHost hostUid none
    appliedLiveSeqByHost := Function.update state.appliedLiveSeqByHost hostUid (some seq)
    appliedNavigatorSeqByHost := Function.update state.appliedNavigatorSeqByHost hostUid (some seq)
    pendingReadsByHost := Function.update state.pendingReadsByHost hostUid []
    loadingByHost := Function.update state.loadingByHost hostUid false
    brokerListFailedByHost := Function.update state.brokerListFailedByHost hostUid none }

end Brokers

inductive LocalAction
  | setSelectedBroker (brokerName : Option Text)
  | setSelectedHost (hostUid : Option String)

def Brokers.localAction (state : Brokers) : LocalAction → Brokers
  | .setSelectedBroker brokerName => { state with selectedBroker := brokerName }
  | .setSelectedHost hostUid => { state with activeHostUid := hostUid }

/-! ### As a slice -/

def policy : Policy (Option (List Broker)) where
  absent := none
  empty := some []
  backgroundFailure := true

def Brokers.views (state : Brokers) (hostUid : String) : HostViews (Option (List Broker)) where
  live := ⟨(state.appliedLiveSeqByHost hostUid).getD 0, state.brokersByHost hostUid⟩
  navigator := ⟨(state.appliedNavigatorSeqByHost hostUid).getD 0, state.navigatorBrokersByHost hostUid⟩
  reads := state.pendingReadsByHost hostUid
  loading := state.loadingByHost hostUid

/-- No action returns the list of the brokers. -/
def slice : Slice String Brokers (List Broker) Empty LocalAction where
  init := initialState
  pending := Brokers.fetchBrokerListPending
  fulfilled := Brokers.fetchBrokerListFulfilled
  rejected := Brokers.fetchBrokerListRejected
  applied _ := nofun
  closeHostTabs := Brokers.closeHostTabs
  other := Brokers.localAction

def reading : Reading String Brokers (List Broker) Empty (Option (List Broker)) where
  views := Brokers.views
  policy := policy
  lists newBrokers := some (some newBrokers)
  hostUid := nofun
  resultLists := nofun

namespace Brokers

variable (state : Brokers) (hostUid : String) (seq : Nat)

theorem settleRead_eq_none {requestId : Nat} (h : (state.views hostUid).reads.lookup requestId = none) :
    state.settleRead hostUid requestId = none := by
  change (state.pendingReadsByHost hostUid).lookup requestId = none at h
  rw [settleRead, h]

/-- A read that is pending no longer is. -/
theorem settleRead_eq_some {requestId : Nat} {foreground : Bool}
    (h : (state.views hostUid).reads.lookup requestId = some foreground) : ∃ state',
      state.settleRead hostUid requestId = some state' ∧
      state'.views = Function.update state.views hostUid ((state.views hostUid).unpend requestId foreground) := by
  change (state.pendingReadsByHost hostUid).lookup requestId = some foreground at h
  rw [settleRead, h]
  refine ⟨_, rfl, ?_⟩
  funext hostUid'
  by_cases heq : hostUid' = hostUid
  · subst heq
    cases foreground <;> simp [views, HostViews.unpend]
  · rw [Function.update_of_ne heq]
    cases foreground <;> simp [views, heq]

@[simp]
theorem views_checkSelected : (state.checkSelected hostUid).views = state.views := by
  simp only [checkSelected]
  split <;> rfl

/-- An answer is received by the views of its host. -/
theorem views_setBrokers (isBackground failed : Bool) {answer : Answer (Option (List Broker))}
    (newBrokers : List Broker) (hlive : policy.live isBackground answer = some (some newBrokers))
    (hnavigator : policy.navigator isBackground answer = if isBackground then none else some (some newBrokers)) :
    ((state.claimSeq hostUid seq isBackground).2.2.setBrokers hostUid (state.claimSeq hostUid seq isBackground).1
      (state.claimSeq hostUid seq isBackground).2.1 failed newBrokers).views =
      Function.update state.views hostUid ((state.views hostUid).receive policy seq isBackground answer) := by
  funext hostUid'
  by_cases heq : hostUid' = hostUid
  · subst heq
    rw [Function.update_self, HostViews.receive, hlive, hnavigator]
    by_cases hseq : (state.appliedLiveSeqByHost hostUid').getD 0 < seq <;>
      by_cases hnewer : (state.appliedNavigatorSeqByHost hostUid').getD 0 < seq <;>
      cases isBackground <;> simp [claimSeq, setBrokers, views, Register.offer, hseq, hnewer]
  · rw [Function.update_of_ne heq]
    by_cases hseq : (state.appliedLiveSeqByHost hostUid).getD 0 < seq <;>
      by_cases hnewer : (state.appliedNavigatorSeqByHost hostUid).getD 0 < seq <;>
      cases isBackground <;> simp [claimSeq, setBrokers, views, hseq, hnewer, heq]

end Brokers

theorem slice_meets : slice.Meets reading where
  init := rfl
  pending state hostUid requestId isBackground := by
    funext hostUid'
    by_cases heq : hostUid' = hostUid
    · subst heq
      cases isBackground <;>
        simp [slice, reading, Brokers.fetchBrokerListPending, Brokers.startRead, Brokers.views, HostViews.pending]
    · cases isBackground <;>
        simp [slice, reading, Brokers.fetchBrokerListPending, Brokers.startRead, Brokers.views, heq]
  fulfilled state hostUid requestId isBackground newBrokers seq lists hlists := by
    obtain rfl := Option.some.inj hlists
    change (state.fetchBrokerListFulfilled hostUid requestId isBackground newBrokers seq).views = Function.update
      state.views hostUid ((state.views hostUid).settle policy requestId seq isBackground (.lists (some newBrokers)))
    cases hlookup : (state.views hostUid).reads.lookup requestId with
    | none =>
      rw [Brokers.fetchBrokerListFulfilled, state.settleRead_eq_none hostUid hlookup, HostViews.settle, hlookup,
        Function.update_eq_self]
    | some foreground =>
      obtain ⟨state', hsettled, hviews⟩ := state.settleRead_eq_some hostUid hlookup
      rw [Brokers.fetchBrokerListFulfilled, hsettled, HostViews.settle, hlookup]
      refine Eq.trans ?_ (ListViews.update_receive hviews policy seq isBackground (.lists (some newBrokers)))
      rw [← state'.views_setBrokers hostUid seq isBackground false newBrokers rfl rfl]
      dsimp only
      split
      · exact Brokers.views_checkSelected ..
      · rfl
  rejected state hostUid requestId isBackground seq := by
    change (state.fetchBrokerListRejected hostUid requestId isBackground seq).views =
      Function.update state.views hostUid ((state.views hostUid).settle policy requestId seq isBackground .failed)
    cases hlookup : (state.views hostUid).reads.lookup requestId with
    | none =>
      rw [Brokers.fetchBrokerListRejected, state.settleRead_eq_none hostUid hlookup, HostViews.settle, hlookup,
        Function.update_eq_self]
    | some foreground =>
      obtain ⟨state', hsettled, hviews⟩ := state.settleRead_eq_some hostUid hlookup
      rw [Brokers.fetchBrokerListRejected, hsettled, HostViews.settle, hlookup]
      refine Eq.trans ?_ (ListViews.update_receive hviews policy seq isBackground .failed)
      refine state'.views_setBrokers hostUid seq isBackground true [] ?_ rfl
      cases isBackground <;> rfl
  fulfilled_stale state hostUid requestId isBackground newBrokers seq hlookup := by
    change state.fetchBrokerListFulfilled hostUid requestId isBackground newBrokers seq = state
    rw [Brokers.fetchBrokerListFulfilled, state.settleRead_eq_none hostUid hlookup]
  rejected_stale state hostUid requestId isBackground seq hlookup := by
    change state.fetchBrokerListRejected hostUid requestId isBackground seq = state
    rw [Brokers.fetchBrokerListRejected, state.settleRead_eq_none hostUid hlookup]
  applied _ := nofun
  closeHostTabs state hostUid seq := by
    funext hostUid'
    by_cases heq : hostUid' = hostUid
    · subst heq
      simp [slice, reading, Brokers.closeHostTabs, Brokers.views, HostViews.closed, policy]
    · simp [slice, reading, Brokers.closeHostTabs, Brokers.views, heq]
  other _ action := by cases action <;> rfl

end CubridWebManager.BrokerList
