import CubridWebManager.DatabaseCore.Slice
import CubridWebManager.ListViews.Views

/-!
# The lists of the databases

What `databaseCoreSlice` keeps of the databases of a host, in the words of the views, and that its reducers do to the
views what is said of a slice (`slice_meets`).
-/

namespace CubridWebManager.DatabaseCore

open LastWriter
open ListViews (HostViews Answer Policy Slice Reading)

/-- The databases and the active ones. -/
abbrev Lists := Option (List DbEntry) × Option (List Text)

/-- What an answer with both lists says. -/
def carriedLists (payload : Option StartInfo) : Option Lists :=
  payload.bind fun payload =>
    if payload.dbs.isSome = true ∧ payload.active.isSome = true then
      some (some (payload.mergedList payload.activeNames), some payload.activeNames)
    else none

def policy : Policy Lists where
  absent := (none, none)
  empty := (some [], some [])
  backgroundFailure := false

def Core.views (state : Core) (hostUid : HostUid) : HostViews Lists where
  live := ⟨(state.appliedLiveSeqByHost hostUid).getD 0,
    (state.databasesByHost hostUid, state.activeDatabasesByHost hostUid)⟩
  navigator := ⟨(state.appliedNavigatorSeqByHost hostUid).getD 0,
    (state.navigatorDatabasesByHost hostUid, state.navigatorActiveDatabasesByHost hostUid)⟩
  reads := state.pendingReadsByHost hostUid
  loading := state.loadingByHost hostUid

inductive OtherAction
  | loginFulfilled (result : LoginResult) (seq : Nat)
  | clearDatabaseLogin (db : Database) (seq : Nat)
  | localAction (action : LocalAction)

def Core.otherAction (state : Core) : OtherAction → Core
  | .loginFulfilled result seq => state.loginFulfilled seq result
  | .clearDatabaseLogin db seq => state.clearDatabaseLogin db seq
  | .localAction action => state.localAction action

def slice : Slice HostUid Core (Option StartInfo) InfoResult OtherAction where
  init := initialState
  pending := Core.fetchDatabaseStartInfoPending
  fulfilled := Core.fetchDatabaseStartInfoFulfilled
  rejected := Core.fetchDatabaseStartInfoRejected
  applied state result seq := state.infoFulfilled seq result
  closeHostTabs := Core.closeHostTabs
  other := Core.otherAction

def reading : Reading HostUid Core (Option StartInfo) InfoResult Lists where
  views := Core.views
  policy := policy
  lists := carriedLists
  hostUid result := result.db.hostUid
  resultLists result := carriedLists result.response

/-! ### Logins and the selection -/

namespace Core

variable (state : Core) (hostUid : HostUid) (dbname : Text) (seq : Nat)

@[simp]
theorem views_noteLoginChange : (state.noteLoginChange hostUid dbname seq).views = state.views := by
  unfold noteLoginChange
  split <;> rfl

@[simp]
theorem views_pushLoggedIn : (state.pushLoggedIn hostUid dbname seq).views = state.views :=
  views_noteLoginChange ..

@[simp]
theorem views_dropLoggedIn : (state.dropLoggedIn hostUid dbname seq).views = state.views :=
  views_noteLoginChange ..

@[simp]
theorem views_markBulkSucceededLoggedIn (succeeded : Option (List Text)) :
    (state.markBulkSucceededLoggedIn hostUid succeeded seq).views = state.views := by
  unfold markBulkSucceededLoggedIn
  induction succeeded.getD [] generalizing state with
  | nil => rfl
  | cons dbname names ih => rw [List.foldl_cons, ih, views_pushLoggedIn]

@[simp]
theorem views_checkSelected : (state.checkSelected hostUid).views = state.views := by
  simp only [checkSelected]
  split <;> rfl

@[simp]
theorem views_syncLoggedInFromStartInfo (payload : StartInfo) :
    (state.syncLoggedInFromStartInfo payload hostUid seq).views = state.views := by
  unfold syncLoggedInFromStartInfo
  split <;> rfl

@[simp]
theorem views_setHaDbNames (haDbNames : Option (List Text)) :
    (state.setHaDbNames hostUid haDbNames).views = state.views := by
  cases haDbNames <;> rfl

@[simp]
theorem views_localAction (action : LocalAction) : (state.localAction action).views = state.views := by
  cases action with
  | setSelectedDatabase dbname =>
    simp only [localAction]
    split <;> rfl
  | _ => rfl

/-! ### Answers -/

/-- What a response that is written does to the views of its host. -/
theorem views_written (updateLive updateNavigator : Bool) (databases : List DbEntry) (active : List Text) :
    (((state.claim hostUid updateLive updateNavigator seq).setActive hostUid updateLive updateNavigator
      active).setDatabases hostUid updateLive updateNavigator databases).views =
      Function.update state.views hostUid { state.views hostUid with
        live := if updateLive then ⟨seq, (some databases, some active)⟩ else (state.views hostUid).live
        navigator :=
          if updateNavigator then ⟨seq, (some databases, some active)⟩ else (state.views hostUid).navigator } := by
  funext hostUid'
  by_cases heq : hostUid' = hostUid
  · subst heq
    cases updateLive <;> cases updateNavigator <;> simp [views, claim, setActive, setDatabases]
  · rw [Function.update_of_ne heq]
    cases updateLive <;> cases updateNavigator <;> simp [views, claim, setActive, setDatabases, heq]

/-- What is parsed of a response with both lists, as far as the views go. -/
theorem views_parseDbResponse {payload : Option StartInfo} {lists : Lists} (hlists : carriedLists payload = some lists)
    (updateLive updateNavigator : Bool) : ∃ databases active, lists = (some databases, some active) ∧
      ∀ state : Core, (state.parseDbResponse payload hostUid updateLive updateNavigator seq).views =
        ((state.setActive hostUid updateLive updateNavigator active).setDatabases hostUid updateLive updateNavigator
          databases).views := by
  obtain ⟨payload, rfl, hboth⟩ := Option.bind_eq_some_iff.1 hlists
  obtain ⟨⟨hdbs, hactive⟩, heq⟩ := Option.ite_none_right_eq_some.1 hboth
  refine ⟨_, _, (Option.some.inj heq).symm, fun state => ?_⟩
  simp only [parseDbResponse, hdbs, hactive, if_true]
  have hselected : ∀ state : Core, (if dbsFound payload.dbs = true then state.checkSelected hostUid
      else state).views = state.views := fun state => by
    split
    · exact views_checkSelected ..
    · rfl
  have hlogins : ∀ state : Core, (if updateLive = true then state.syncLoggedInFromStartInfo payload hostUid seq
      else state).views = state.views := fun state => by
    split
    · exact views_syncLoggedInFromStartInfo ..
    · rfl
  have hha : ∀ state : Core, (if updateLive = true then state.setHaDbNames hostUid payload.haDbNames
      else state).views = state.views := fun state => by
    split
    · exact views_setHaDbNames ..
    · rfl
  exact (hha _).trans ((hlogins _).trans (hselected _))

/-- A response with both lists is received by the views of its host. -/
theorem views_applyStartInfo {payload : Option StartInfo} {lists : Lists} (hlists : carriedLists payload = some lists)
    (isBackground : Bool) : (state.applyStartInfo hostUid payload seq isBackground).views =
      Function.update state.views hostUid
        ((state.views hostUid).receive policy seq isBackground (.lists lists)) := by
  obtain ⟨databases, active, rfl, hparse⟩ := views_parseDbResponse hostUid seq hlists
    (state.newerThanLive hostUid seq) (!isBackground && state.newerThanNavigator hostUid seq)
  refine Eq.trans ?_ ((state.views_written hostUid seq (state.newerThanLive hostUid seq)
    (!isBackground && state.newerThanNavigator hostUid seq) databases active).trans ?_)
  · simp only [applyStartInfo]
    split
    · exact hparse _
    · rename_i hnone
      rw [Bool.not_eq_true, Bool.or_eq_false_iff] at hnone
      rw [hnone.1, hnone.2]
      rfl
  · congr 1
    cases isBackground <;> simp [HostViews.receive, Policy.live, Policy.navigator, Register.offer, newerThanLive,
      newerThanNavigator, views]

/-! ### Reads -/

theorem settleRead_eq_none {requestId : Nat} (h : (state.views hostUid).reads.lookup requestId = none) :
    state.settleRead hostUid requestId = none := by
  change (state.pendingReadsByHost hostUid).lookup requestId = none at h
  rw [settleRead, h]

/-- A read that is pending no longer is. -/
theorem settleRead_eq_some {requestId : Nat} {foreground : Bool}
    (h : (state.views hostUid).reads.lookup requestId = some foreground) : ∃ state',
      state.settleRead hostUid requestId = some state' ∧
      state'.views = Function.update state.views hostUid ((state.views hostUid).unpend requestId foreground) := by
  change (state.pendingReadsByHost hostUid).lookup requestId = some foreground at h
  rw [settleRead, h]
  refine ⟨_, rfl, ?_⟩
  funext hostUid'
  by_cases heq : hostUid' = hostUid
  · subst heq
    cases foreground <;> simp [views, HostViews.unpend]
  · rw [Function.update_of_ne heq]
    cases foreground <;> simp [views, heq]

/-- A foreground failure empties the views that show nothing newer. -/
theorem views_clearLists : ((state.claim hostUid (state.newerThanLive hostUid seq) (state.newerThanNavigator hostUid seq)
    seq).clearLists hostUid (state.newerThanLive hostUid seq) (state.newerThanNavigator hostUid seq)).views =
      Function.update state.views hostUid ((state.views hostUid).receive policy seq false .failed) := by
  refine (state.views_written hostUid seq (state.newerThanLive hostUid seq) (state.newerThanNavigator hostUid seq) []
    []).trans ?_
  congr 1
  simp [HostViews.receive, Policy.live, Policy.navigator, Register.offer, newerThanLive, newerThanNavigator, views,
    policy]

end Core

theorem slice_meets : slice.Meets reading where
  init := rfl
  pending state hostUid requestId isBackground := by
    funext hostUid'
    by_cases heq : hostUid' = hostUid
    · subst heq
      cases isBackground <;>
        simp [slice, reading, Core.fetchDatabaseStartInfoPending, Core.startRead, Core.views, HostViews.pending]
    · cases isBackground <;>
        simp [slice, reading, Core.fetchDatabaseStartInfoPending, Core.startRead, Core.views, heq]
  fulfilled state hostUid requestId isBackground payload seq lists hlists := by
    change (state.fetchDatabaseStartInfoFulfilled hostUid requestId isBackground payload seq).views =
      Function.update state.views hostUid ((state.views hostUid).settle policy requestId seq isBackground (.lists lists))
    cases hlookup : (state.views hostUid).reads.lookup requestId with
    | none =>
      rw [Core.fetchDatabaseStartInfoFulfilled, state.settleRead_eq_none hostUid hlookup, HostViews.settle, hlookup,
        Function.update_eq_self]
    | some foreground =>
      obtain ⟨state', hsettled, hviews⟩ := state.settleRead_eq_some hostUid hlookup
      rw [Core.fetchDatabaseStartInfoFulfilled, hsettled, HostViews.settle, hlookup]
      exact (state'.views_applyStartInfo hostUid seq hlists isBackground).trans
        (ListViews.update_receive hviews policy seq isBackground (.lists lists))
  rejected state hostUid requestId isBackground seq := by
    change (state.fetchDatabaseStartInfoRejected hostUid requestId isBackground seq).views =
      Function.update state.views hostUid ((state.views hostUid).settle policy requestId seq isBackground .failed)
    cases hlookup : (state.views hostUid).reads.lookup requestId with
    | none =>
      rw [Core.fetchDatabaseStartInfoRejected, state.settleRead_eq_none hostUid hlookup, HostViews.settle, hlookup,
        Function.update_eq_self]
    | some foreground =>
      obtain ⟨state', hsettled, hviews⟩ := state.settleRead_eq_some hostUid hlookup
      rw [Core.fetchDatabaseStartInfoRejected, hsettled, HostViews.settle, hlookup]
      cases isBackground with
      | true => exact hviews
      | false =>
        exact (state'.views_clearLists hostUid seq).trans (ListViews.update_receive hviews policy seq false .failed)
  fulfilled_stale state hostUid requestId isBackground payload seq hlookup := by
    change state.fetchDatabaseStartInfoFulfilled hostUid requestId isBackground payload seq = state
    rw [Core.fetchDatabaseStartInfoFulfilled, state.settleRead_eq_none hostUid hlookup]
  rejected_stale state hostUid requestId isBackground seq hlookup := by
    change state.fetchDatabaseStartInfoRejected hostUid requestId isBackground seq = state
    rw [Core.fetchDatabaseStartInfoRejected, state.settleRead_eq_none hostUid hlookup]
  applied state result seq lists hlists := by
    have hsome : result.response.isSome = true := by
      obtain ⟨payload, hpayload, -⟩ := Option.bind_eq_some_iff.1 hlists
      rw [hpayload]
      rfl
    cases result with
    | startDatabase db response | stopDatabase db response =>
      exact (Core.views_pushLoggedIn ..).trans (state.views_applyStartInfo db.hostUid seq hlists false)
    | registerDatabase db response =>
      rw [InfoResult.response] at hsome
      simp only [slice, reading, Core.infoFulfilled, hsome, if_true]
      exact state.views_applyStartInfo db.hostUid seq hlists false
    | deleteDatabaseProfile db response =>
      rw [InfoResult.response] at hsome
      simp only [slice, reading, Core.infoFulfilled, hsome, if_true]
      refine ((state.dropLoggedIn db.hostUid db.dbname seq).views_applyStartInfo db.hostUid seq hlists false).trans ?_
      rw [Core.views_dropLoggedIn]
      rfl
  closeHostTabs state hostUid seq := by
    funext hostUid'
    by_cases heq : hostUid' = hostUid
    · subst heq
      simp [slice, reading, Core.closeHostTabs, Core.views, HostViews.closed, policy]
    · simp [slice, reading, Core.closeHostTabs, Core.views, heq]
  other state action := by
    cases action with
    | loginFulfilled result seq =>
      cases result with
      | loginDatabase db => exact Core.views_pushLoggedIn ..
      | logoutDatabase db => exact Core.views_dropLoggedIn ..
      | _ => exact Core.views_markBulkSucceededLoggedIn ..
    | clearDatabaseLogin db seq => exact Core.views_dropLoggedIn ..
    | localAction action => exact state.views_localAction action

end CubridWebManager.DatabaseCore
