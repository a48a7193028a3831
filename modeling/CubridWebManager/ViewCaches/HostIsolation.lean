import CubridWebManager.ViewCaches.Slices
import CubridWebManager.Lib.Run

/-!
# Whose answer a view shows

The status and the logs of a broker are kept under the broker's name, locks and transactions under the database's, and
the volumes in one list.  A view of a host reads them by the name alone: it shows the host's own answers exactly as long
as no answer of another host is stored where an open view reads, and no view is opened on what another host answered
(`late_answers_isolated`).  Two hosts with brokers of one name are enough for the contrary (`late_answer_shown`).
-/

namespace CubridWebManager.ViewCaches

open Transition

/-! ### The property -/

/-- Where a view of a host reads. -/
inductive Slot
  | detailedStatus (brokerName : String)
  | logsByBroker (brokerName : String)
  | volumes
  | lockInfo (dbname : String)
  | transactionInfo (dbname : String)
  deriving DecidableEq

structure View where
  hostUid : String
  slot : Slot
  deriving DecidableEq

/-- The hosts whose answers are held in a slot. -/
def Store.hostsAt (store : Store) : Slot → List String
  | .detailedStatus brokerName =>
    ((store.broker.detailedStatus brokerName).bind BrokerStatus.data).toList.map Answer.hostUid
  | .logsByBroker brokerName => (store.broker.logsByBroker brokerName).toList.map Answer.hostUid
  | .volumes => store.monitoring.volumes.map fun volume => volume.2.hostUid
  | .lockInfo dbname => (store.operation.lockInfo dbname).toList.map Answer.hostUid
  | .transactionInfo dbname => (store.operation.transactionInfo dbname).toList.map Answer.hostUid

namespace HostIsolation

structure State where
  store : Store
  inFlight : List Request
  /-- The views that are open, of one host or several. -/
  views : List View

def State.initialState : State := ⟨.initialState, [], []⟩

inductive Act
  | dispatch (action : Action)
  | openView (view : View)
  | closeView (view : View)

/-- The views that are left when tabs are closed. -/
def viewsAfter (views : List View) : Action → List View
  | .closeTab (.brokerStatus hostUid brokerName) => views.filter (· ≠ ⟨hostUid, .detailedStatus brokerName⟩)
  | .closeHostTabs hostUid => views.filter (·.hostUid ≠ hostUid)
  | _ => views

def step (s : State) : Act → Option State
  | .dispatch action =>
    (inFlightAfter s.inFlight action).map fun inFlight => ⟨s.store.reduce action, inFlight, viewsAfter s.views action⟩
  | .openView view => some { s with views := view :: s.views }
  | .closeView view => some { s with views := s.views.filter (· ≠ view) }

/-- Every view shows answers of its own host only. -/
def State.Isolated (s : State) : Prop := ∀ view ∈ s.views, ∀ hostUid ∈ s.store.hostsAt view.slot, hostUid = view.hostUid

end HostIsolation

/-! ### The slot that an action fills -/

/-- The slot that the action fills, with the host that answered. -/
def Store.fills (store : Store) : Action → Option (Slot × String)
  | .brokerFulfilled hostUid brokerName (.fetchDetailedBrokerStatus _) =>
    (store.broker.detailedStatus brokerName).map fun _ => (.detailedStatus brokerName, hostUid)
  | .brokerFulfilled hostUid brokerName (.fetchBrokerLogs _) => some (.logsByBroker brokerName, hostUid)
  | .volumesFulfilled hostUid payload => if payload = [] then none else some (.volumes, hostUid)
  | .dbFulfilled db (.fetchLockInfo _) => some (.lockInfo db.dbname, db.hostUid)
  | .dbFulfilled db (.fetchTransactionInfo _) => some (.transactionInfo db.dbname, db.hostUid)
  | _ => none

namespace Broker

variable {b : Broker} {brokerName brokerName' : String} {set : BrokerStatus → BrokerStatus}

/-- The answer that the status of a broker holds. -/
def statusData (b : Broker) (brokerName : String) : Option Answer := (b.detailedStatus brokerName).bind BrokerStatus.data

theorem statusSettled_of_ne (b : Broker) (h : brokerName' ≠ brokerName) :
    (b.statusSettled brokerName set).statusData brokerName' = b.statusData brokerName' := by
  unfold statusSettled
  split
  · exact congrArg (Option.bind · BrokerStatus.data) (Function.update_of_ne h ..)
  · rfl

/-- A settled read that keeps the data keeps it of every broker. -/
theorem statusSettled_data (b : Broker) (hset : ∀ status, (set status).data = status.data) :
    (b.statusSettled brokerName set).statusData brokerName' = b.statusData brokerName' := by
  by_cases heq : brokerName' = brokerName
  · subst heq
    unfold statusSettled
    split
    · rename_i status hstatus
      simp [statusData, hstatus, hset]
    · rfl
  · exact b.statusSettled_of_ne heq

theorem brokerPending_data (b : Broker) (thunk : BrokerThunk) :
    (b.brokerPending brokerName thunk).statusData brokerName' = b.statusData brokerName' := by
  cases thunk with
  | fetchBrokerLogs => rfl
  | fetchDetailedBrokerStatus =>
    by_cases heq : brokerName' = brokerName
    · subst heq
      cases hstatus : b.detailedStatus brokerName' <;> simp [brokerPending, statusData, hstatus]
    · exact congrArg (Option.bind · BrokerStatus.data) (Function.update_of_ne heq ..)

theorem statusSettled_logs (b : Broker) : (b.statusSettled brokerName set).logsByBroker = b.logsByBroker := by
  unfold statusSettled
  split <;> rfl

/-- An action leaves the data of a broker's status, or removes it, or is a fulfilled read of it. -/
theorem reduce_statusData (b : Broker) (a : Action) (brokerName : String) :
    (b.reduce a).statusData brokerName = b.statusData brokerName ∨ (b.reduce a).statusData brokerName = none ∨
      ∃ hostUid data, a = .brokerFulfilled hostUid brokerName (.fetchDetailedBrokerStatus data) ∧
        b.detailedStatus brokerName ≠ none := by
  cases a with
  | brokerPending thunk hostUid brokerName' => exact .inl (b.brokerPending_data thunk)
  | brokerFulfilled hostUid brokerName' payload =>
    cases payload with
    | fetchBrokerLogs logs => exact .inl rfl
    | fetchDetailedBrokerStatus data =>
      by_cases heq : brokerName = brokerName'
      · subst heq
        cases hstatus : b.detailedStatus brokerName with
        | none =>
          refine .inl ?_
          simp [reduce, brokerFulfilled, statusSettled, statusData, hstatus]
        | some status => exact .inr (.inr ⟨hostUid, data, rfl, by simp⟩)
      · exact .inl (b.statusSettled_of_ne heq)
  | brokerRejected thunk hostUid brokerName' error =>
    cases thunk with
    | fetchBrokerLogs => exact .inl rfl
    | fetchDetailedBrokerStatus => exact .inl (b.statusSettled_data fun _ => rfl)
  | closeTab tab =>
    cases tab with
    | brokerStatus hostUid brokerName' =>
      by_cases heq : brokerName = brokerName'
      · subst heq
        refine .inr (.inl ?_)
        simp [reduce, statusData]
      · exact .inl (congrArg (Option.bind · BrokerStatus.data) (Function.update_of_ne heq ..))
    | ofDatabase hostUid dbname => exact .inl rfl
    | other => exact .inl rfl
  | resetBrokerState => exact .inr (.inl rfl)
  | dbPending thunk db => cases thunk <;> exact .inl rfl
  | dbFulfilled db payload => cases payload <;> exact .inl rfl
  | dbRejected thunk db => cases thunk <;> exact .inl rfl
  | loginGone type db =>
    rw [reduce_loginGone]
    exact .inl rfl
  | closeHostTabs hostUid => exact .inl rfl
  | volumesPending hostUid => exact .inl rfl
  | volumesFulfilled hostUid payload => exact .inl rfl
  | volumesRejected hostUid => exact .inl rfl

theorem reduce_logsByBroker (b : Broker) (a : Action) (brokerName : String) :
    (b.reduce a).logsByBroker brokerName = b.logsByBroker brokerName ∨ (b.reduce a).logsByBroker brokerName = none ∨
      ∃ hostUid logs, a = .brokerFulfilled hostUid brokerName (.fetchBrokerLogs logs) := by
  cases a with
  | brokerPending thunk hostUid brokerName' => cases thunk <;> exact .inl rfl
  | brokerFulfilled hostUid brokerName' payload =>
    cases payload with
    | fetchBrokerLogs logs =>
      by_cases heq : brokerName = brokerName'
      · subst heq
        exact .inr (.inr ⟨hostUid, logs, rfl⟩)
      · exact .inl (Function.update_of_ne heq ..)
    | fetchDetailedBrokerStatus data => exact .inl (congrFun b.statusSettled_logs brokerName)
  | brokerRejected thunk hostUid brokerName' error =>
    cases thunk with
    | fetchBrokerLogs => exact .inl rfl
    | fetchDetailedBrokerStatus => exact .inl (congrFun b.statusSettled_logs brokerName)
  | closeTab tab => cases tab <;> exact .inl rfl
  | resetBrokerState => exact .inr (.inl rfl)
  | dbPending thunk db => cases thunk <;> exact .inl rfl
  | dbFulfilled db payload => cases payload <;> exact .inl rfl
  | dbRejected thunk db => cases thunk <;> exact .inl rfl
  | loginGone type db =>
    rw [reduce_loginGone]
    exact .inl rfl
  | closeHostTabs hostUid => exact .inl rfl
  | volumesPending hostUid => exact .inl rfl
  | volumesFulfilled hostUid payload => exact .inl rfl
  | volumesRejected hostUid => exact .inl rfl

end Broker

theorem Monitoring.reduce_volumes (m : Monitoring) (a : Action) :
    (m.reduce a).volumes = m.volumes ∨ ∃ hostUid payload, a = .volumesFulfilled hostUid payload := by
  cases a with
  | volumesFulfilled hostUid payload => exact .inr ⟨hostUid, payload, rfl⟩
  | dbFulfilled db payload => cases payload <;> exact .inl rfl
  | dbRejected thunk db => cases thunk <;> exact .inl rfl
  | closeTab tab => cases tab <;> exact .inl rfl
  | _ => exact .inl rfl

namespace Operation

theorem reduce_lockInfo (o : Operation) (a : Action) (dbname : String) :
    (o.reduce a).lockInfo dbname = o.lockInfo dbname ∨ ∃ db info, a = .dbFulfilled db (.fetchLockInfo info) ∧ dbname = db.dbname := by
  cases a with
  | dbPending thunk db => cases thunk <;> exact .inl rfl
  | dbRejected thunk db => cases thunk <;> exact .inl rfl
  | dbFulfilled db payload =>
    cases payload with
    | fetchLockInfo info =>
      by_cases heq : dbname = db.dbname
      · exact .inr ⟨db, info, rfl, heq⟩
      · exact .inl (Function.update_of_ne heq ..)
    | _ => exact .inl rfl
  | _ => exact .inl rfl

theorem reduce_transactionInfo (o : Operation) (a : Action) (dbname : String) :
    (o.reduce a).transactionInfo dbname = o.transactionInfo dbname ∨
      ∃ db info, a = .dbFulfilled db (.fetchTransactionInfo info) ∧ dbname = db.dbname := by
  cases a with
  | dbPending thunk db => cases thunk <;> exact .inl rfl
  | dbRejected thunk db => cases thunk <;> exact .inl rfl
  | dbFulfilled db payload =>
    cases payload with
    | fetchTransactionInfo info =>
      by_cases heq : dbname = db.dbname
      · exact .inr ⟨db, info, rfl, heq⟩
      · exact .inl (Function.update_of_ne heq ..)
    | _ => exact .inl rfl
  | _ => exact .inl rfl

end Operation

namespace Store

variable {slot : Slot} {hostUid : String} {a : Action}

/-- A filled slot holds answers of the host that answered, and no others. -/
theorem mem_hostsAt_of_fills (store : Store) (hfills : store.fills a = some (slot, hostUid)) (h : String) :
    h ∈ (store.reduce a).hostsAt slot ↔ h = hostUid := by
  cases a with
  | brokerFulfilled host brokerName payload =>
    cases payload with
    | fetchDetailedBrokerStatus data =>
      obtain ⟨status, hstatus, heq⟩ := Option.map_eq_some_iff.1 hfills
      obtain ⟨rfl, rfl⟩ := Prod.mk.inj heq
      simp [hostsAt, reduce, Broker.reduce, Broker.brokerFulfilled, Broker.statusSettled, hstatus]
    | fetchBrokerLogs logs =>
      obtain ⟨rfl, rfl⟩ := Prod.mk.inj (Option.some.inj hfills)
      simp [hostsAt, reduce, Broker.reduce, Broker.brokerFulfilled]
  | volumesFulfilled host payload =>
    obtain ⟨hne, heq⟩ := Option.ite_none_left_eq_some.1 hfills
    obtain ⟨rfl, rfl⟩ := Prod.mk.inj (Option.some.inj heq)
    have hvolumes : (store.reduce (.volumesFulfilled host payload)).hostsAt .volumes =
        List.replicate payload.length host := by
      simp [hostsAt, reduce, Monitoring.reduce, Function.comp_def, List.map_const']
    rw [hvolumes, List.mem_replicate]
    exact and_iff_right (mt List.length_eq_zero_iff.1 hne)
  | dbFulfilled db payload =>
    cases payload with
    | fetchLockInfo info =>
      obtain ⟨rfl, rfl⟩ := Prod.mk.inj (Option.some.inj hfills)
      simp [hostsAt, reduce, Operation.reduce, Operation.fulfilled]
    | fetchTransactionInfo info =>
      obtain ⟨rfl, rfl⟩ := Prod.mk.inj (Option.some.inj hfills)
      simp [hostsAt, reduce, Operation.reduce, Operation.fulfilled]
    | _ => cases hfills
  | _ => cases hfills

/-- A slot that is not filled holds no new answers. -/
theorem mem_hostsAt_of_reduce (store : Store) (hfills : ∀ h, store.fills a ≠ some (slot, h))
    (hmem : hostUid ∈ (store.reduce a).hostsAt slot) : hostUid ∈ store.hostsAt slot := by
  cases slot with
  | detailedStatus brokerName =>
    change hostUid ∈ ((store.broker.reduce a).statusData brokerName).toList.map Answer.hostUid at hmem
    rcases store.broker.reduce_statusData a brokerName with hsame | hnone | ⟨host, data, rfl, hstatus⟩
    · rwa [hsame] at hmem
    · rw [hnone] at hmem
      cases hmem
    · obtain ⟨status, hstatus⟩ := Option.ne_none_iff_exists'.1 hstatus
      exact absurd (by simp [fills, hstatus]) (hfills host)
  | logsByBroker brokerName =>
    change hostUid ∈ ((store.broker.reduce a).logsByBroker brokerName).toList.map Answer.hostUid at hmem
    rcases store.broker.reduce_logsByBroker a brokerName with hsame | hnone | ⟨host, logs, rfl⟩
    · rwa [hsame] at hmem
    · rw [hnone] at hmem
      cases hmem
    · exact absurd rfl (hfills host)
  | volumes =>
    change hostUid ∈ (store.monitoring.reduce a).volumes.map (fun volume => volume.2.hostUid) at hmem
    rcases store.monitoring.reduce_volumes a with hsame | ⟨host, payload, rfl⟩
    · rwa [hsame] at hmem
    · by_cases hempty : payload = []
      · subst hempty
        cases hmem
      · exact absurd (if_neg hempty) (hfills host)
  | lockInfo dbname =>
    change hostUid ∈ ((store.operation.reduce a).lockInfo dbname).toList.map Answer.hostUid at hmem
    rcases store.operation.reduce_lockInfo a dbname with hsame | ⟨db, info, rfl, rfl⟩
    · rwa [hsame] at hmem
    · exact absurd rfl (hfills db.hostUid)
  | transactionInfo dbname =>
    change hostUid ∈ ((store.operation.reduce a).transactionInfo dbname).toList.map Answer.hostUid at hmem
    rcases store.operation.reduce_transactionInfo a dbname with hsame | ⟨db, info, rfl, rfl⟩
    · rwa [hsame] at hmem
    · exact absurd rfl (hfills db.hostUid)

end Store

/-! ### The runs in which the views are isolated -/

namespace HostIsolation

variable {s s' : State}

/-- An answer is stored only where no open view of another host reads, and a view is opened only where no other host has
answered. -/
def Ok (s : State) : Act → Prop
  | .dispatch action =>
    (s.store.fills action).all fun filled => s.views.all fun view => view.slot ≠ filled.1 || view.hostUid = filled.2
  | .openView view => (s.store.hostsAt view.slot).all (· = view.hostUid)
  | .closeView _ => True

instance : ∀ (s : State) (act : Act), Decidable (Ok s act)
  | _, .dispatch _ | _, .openView _ => inferInstanceAs (Decidable (_ = true))
  | _, .closeView _ => isTrue trivial

theorem ok_dispatch {action : Action} : Ok s (.dispatch action) ↔
    ∀ slot hostUid, s.store.fills action = some (slot, hostUid) → ∀ view ∈ s.views, view.slot = slot → view.hostUid = hostUid := by
  unfold Ok
  cases hfills : s.store.fills action with
  | none => simp [hfills]
  | some filled =>
    obtain ⟨slot, hostUid⟩ := filled
    simp only [hfills, Option.all_some, List.all_eq_true, Bool.or_eq_true, decide_eq_true_eq]
    constructor
    · rintro hall slot' hostUid' heq view hview hslot
      obtain ⟨rfl, rfl⟩ := Prod.mk.inj (Option.some.inj heq)
      exact (hall view hview).resolve_left fun hne => hne hslot
    · intro hall view hview
      by_cases hslot : view.slot = slot
      · exact .inr (hall slot hostUid rfl view hview hslot)
      · exact .inl hslot

theorem ok_openView {view : View} : Ok s (.openView view) ↔ ∀ hostUid ∈ s.store.hostsAt view.slot, hostUid = view.hostUid := by
  simp [Ok]

theorem mem_of_viewsAfter {views : List View} {action : Action} {view : View} (h : view ∈ viewsAfter views action) :
    view ∈ views := by
  unfold viewsAfter at h
  split at h
  · exact List.mem_of_mem_filter h
  · exact List.mem_of_mem_filter h
  · exact h

/-- The action that fills a slot closes no view. -/
theorem viewsAfter_of_fills {store : Store} {views : List View} {action : Action} {filled : Slot × String}
    (h : store.fills action = some filled) : viewsAfter views action = views := by
  cases action <;> first | rfl | cases h

theorem isolated_step {act : Act} (h : s.Isolated) (hstep : step s act = some s') : s'.Isolated ↔ Ok s act := by
  cases act with
  | openView view =>
    obtain rfl := Option.some.inj hstep
    rw [ok_openView]
    refine ⟨fun hiso => hiso view List.mem_cons_self, fun hok view' hview' => ?_⟩
    rcases List.mem_cons.1 hview' with rfl | hold
    · exact hok
    · exact h view' hold
  | closeView view =>
    obtain rfl := Option.some.inj hstep
    exact ⟨fun _ => trivial, fun _ view' hview' => h view' (List.mem_of_mem_filter hview')⟩
  | dispatch action =>
    obtain ⟨inFlight, -, rfl⟩ := Option.map_eq_some_iff.1 hstep
    rw [ok_dispatch]
    constructor
    · intro hiso slot hostUid hfills view hview hslot
      have hopen : view ∈ viewsAfter s.views action := by rwa [viewsAfter_of_fills hfills]
      have hheld := (s.store.mem_hostsAt_of_fills hfills hostUid).2 rfl
      exact (hiso view hopen hostUid (by rwa [hslot])).symm
    · intro hok view hview hostUid hmem
      have hopen := mem_of_viewsAfter hview
      by_cases hfills : ∃ host, s.store.fills action = some (view.slot, host)
      · obtain ⟨host, hfills⟩ := hfills
        rw [(s.store.mem_hostsAt_of_fills hfills hostUid).1 hmem]
        exact (hok _ host hfills view hopen rfl).symm
      · exact h view hopen hostUid (s.store.mem_hostsAt_of_reduce (fun host heq => hfills ⟨host, heq⟩) hmem)

/-- In a run every view shows answers of its own host only, exactly when answers are stored only where no view of another
host reads and views are opened only where no other host has answered. -/
theorem late_answers_isolated (as : List Act) (s : State) (hrun : Run step Always State.initialState as s) :
    (∀ bs s₁, bs <+: as → Run step Always State.initialState bs s₁ → s₁.Isolated) ↔ Run step Ok State.initialState as s :=
  hrun.prefixes_iff (fun _ _ _ => isolated_step) nofun

/-- Two hosts, each with a broker of another name. -/
theorem late_answers_isolated_names : ∃ as s, s.views ≠ [] ∧ Run step Always State.initialState as s ∧
    ∀ bs s₁, bs <+: as → Run step Always State.initialState bs s₁ → s₁.Isolated := by
  obtain ⟨s, hok, hviews⟩ : ∃ s, Run step Ok State.initialState
      [.openView ⟨"A", .detailedStatus "query_editor"⟩, .dispatch (.brokerPending .fetchDetailedBrokerStatus "A" "query_editor"),
        .openView ⟨"B", .detailedStatus "broker1"⟩, .dispatch (.brokerPending .fetchDetailedBrokerStatus "B" "broker1"),
        .dispatch (.brokerFulfilled "A" "query_editor" (.fetchDetailedBrokerStatus .null)),
        .dispatch (.brokerFulfilled "B" "broker1" (.fetchDetailedBrokerStatus .null))] s ∧ s.views ≠ [] :=
    exists_run (by decide)
  have hrun : Run step Always State.initialState _ s := hok.mono fun _ _ _ => trivial
  exact ⟨_, s, hviews, hrun, (late_answers_isolated _ s hrun).2 hok⟩

/-- The status of a broker of `A` is in flight when the broker of that name of `B` is opened, and comes last. -/
theorem late_answer_shown : ∃ as s, Run step Always State.initialState as s ∧
    ⟨"B", .detailedStatus "broker1"⟩ ∈ s.views ∧ "A" ∈ s.store.hostsAt (.detailedStatus "broker1") := by
  obtain ⟨s, hrun, hs⟩ : ∃ s, Run step Always State.initialState
      [.openView ⟨"A", .detailedStatus "broker1"⟩, .dispatch (.brokerPending .fetchDetailedBrokerStatus "A" "broker1"),
        .closeView ⟨"A", .detailedStatus "broker1"⟩, .dispatch .resetBrokerState,
        .openView ⟨"B", .detailedStatus "broker1"⟩, .dispatch (.brokerPending .fetchDetailedBrokerStatus "B" "broker1"),
        .dispatch (.brokerFulfilled "B" "broker1" (.fetchDetailedBrokerStatus .null)),
        .dispatch (.brokerFulfilled "A" "broker1" (.fetchDetailedBrokerStatus .null))] s ∧
      (⟨"B", .detailedStatus "broker1"⟩ ∈ s.views ∧ "A" ∈ s.store.hostsAt (.detailedStatus "broker1")) :=
    exists_run (by decide)
  exact ⟨_, s, hrun, hs⟩

end HostIsolation

end CubridWebManager.ViewCaches
