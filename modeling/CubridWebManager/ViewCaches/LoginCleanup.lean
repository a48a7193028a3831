import CubridWebManager.ViewCaches.Slices
import CubridWebManager.Lib.Run

/-!
# What is left of a database when its login is gone

When a login is gone the slices drop what was read under it.  It stays dropped exactly as long as no read of the database
that has an entry to write is settled before the next login (`cleanup_sticks`): a read that was in flight writes its
entry anew (`cleanup_undone`).
-/

namespace CubridWebManager.ViewCaches

open Transition

variable {store : Store} {key key' : String} {a : Action}

/-! ### The property -/

/-- Nothing is cached of the database. -/
structure Absent (store : Store) (key : String) : Prop where
  dashboardData : store.monitoring.dashboardData key = none
  spaceInfo : store.monitoring.spaceInfo key = none
  backupSchedules : store.operation.backupSchedules key = none
  queryPlans : store.operation.queryPlans key = none
  dbLogs : store.broker.dbLogsByDb key = none

namespace LoginCleanup

structure State where
  store : Store
  inFlight : List Request
  /-- The databases whose login is gone, with no login since. -/
  gone : String → Bool

def State.initialState : State := ⟨.initialState, [], fun _ => false⟩

inductive Act
  | dispatch (action : Action)
  /-- A login of the database, which these slices do not look at. -/
  | loggedIn (db : Database)

def goneAfter (gone : String → Bool) : Action → String → Bool
  | .loginGone _ db => Function.update gone db.key true
  | _ => gone

def step (s : State) : Act → Option State
  | .dispatch action =>
    (inFlightAfter s.inFlight action).map fun inFlight => ⟨s.store.reduce action, inFlight, goneAfter s.gone action⟩
  | .loggedIn db => some { s with gone := Function.update s.gone db.key false }

/-- What was cached of a database is absent since its login is gone. -/
def State.Clean (s : State) : Prop := ∀ key, s.gone key = true → Absent s.store key

end LoginCleanup

/-! ### The reads that write an entry -/

/-- A fulfilled read of it is cached by database. -/
def DbThunk.cached : DbThunk → Bool
  | .fetchDatabaseSpaceInfo | .fetchDashboardVolumes | .fetchDashboardLocks | .fetchDashboardPerformance
  | .fetchDashboardCAS | .fetchBackupSchedule | .fetchQueryPlan | .fetchDatabaseLogs => true
  | .fetchDashboardData | .fetchLockInfo | .fetchTransactionInfo => false

/-- It reads a section of the dashboard. -/
def DbThunk.inDashboard : DbThunk → Bool
  | .fetchDatabaseSpaceInfo | .fetchDashboardVolumes | .fetchDashboardLocks | .fetchDashboardPerformance
  | .fetchDashboardCAS => true
  | _ => false

/-- The dashboard entry shows its failure. -/
def DbThunk.shownFailed : DbThunk → Bool
  | .fetchDatabaseSpaceInfo | .fetchDashboardVolumes | .fetchDashboardLocks | .fetchDashboardCAS => true
  | _ => false

/-- The database of which the action writes an entry. -/
def Action.writes : Action → Option String
  | .dbFulfilled db payload => if payload.thunk.cached then some db.key else none
  | .dbRejected thunk db => if thunk.shownFailed then some db.key else none
  | _ => none

namespace Monitoring

variable {m : Monitoring}

@[simp]
theorem setEntry_self (set : DashboardEntry → DashboardEntry) :
    (m.setEntry key set).dashboardData key = some (set ((m.dashboardData key).getD emptyDashboardEntry)) :=
  Function.update_self ..

theorem setEntry_of_ne (h : key' ≠ key) (set : DashboardEntry → DashboardEntry) :
    (m.setEntry key set).dashboardData key' = m.dashboardData key' := Function.update_of_ne h ..

@[simp]
theorem setEntry_spaceInfo (set : DashboardEntry → DashboardEntry) : (m.setEntry key set).spaceInfo = m.spaceInfo := rfl

/-- A settled read of another database. -/
theorem fulfilled_of_ne (m : Monitoring) (h : key' ≠ key) (payload : DbPayload) :
    (m.fulfilled key payload).dashboardData key' = m.dashboardData key' ∧
      (m.fulfilled key payload).spaceInfo key' = m.spaceInfo key' := by
  cases payload <;> simp [fulfilled, setEntry_of_ne h, Function.update_of_ne h]

theorem fulfilled_of_not_cached (m : Monitoring) (key : String) {payload : DbPayload} (h : payload.thunk.cached = false) :
    (m.fulfilled key payload).dashboardData = m.dashboardData ∧ (m.fulfilled key payload).spaceInfo = m.spaceInfo := by
  cases payload <;> first | exact ⟨rfl, rfl⟩ | cases h

theorem rejected_of_ne (m : Monitoring) (h : key' ≠ key) (thunk : DbThunk) :
    (m.rejected key thunk).dashboardData key' = m.dashboardData key' ∧
      (m.rejected key thunk).spaceInfo key' = m.spaceInfo key' := by
  cases thunk <;> simp [rejected, setEntry_of_ne h]

theorem rejected_of_not_shown {thunk : DbThunk} (h : thunk.shownFailed = false) : m.rejected key thunk = m := by
  cases thunk <;> first | rfl | cases h

/-- Dropped entries stay absent, and others only become absent. -/
theorem drop_eq_none {key : String} (h : m.dashboardData key' = none ∧ m.spaceInfo key' = none) :
    (m.drop key).dashboardData key' = none ∧ (m.drop key).spaceInfo key' = none := by
  by_cases heq : key' = key
  · subst heq
    simp [drop]
  · simpa [drop, Function.update_of_ne heq] using h

theorem reduce_absent (h : m.dashboardData key = none ∧ m.spaceInfo key = none) (ha : a.writes ≠ some key) :
    (m.reduce a).dashboardData key = none ∧ (m.reduce a).spaceInfo key = none := by
  cases a with
  | dbFulfilled db payload =>
    by_cases heq : key = db.key
    · subst heq
      have hcached : payload.thunk.cached = false := by
        rw [← Bool.not_eq_true]
        exact fun hc => ha (if_pos hc)
      have hkept := m.fulfilled_of_not_cached db.key hcached
      exact ⟨(congrFun hkept.1 _).trans h.1, (congrFun hkept.2 _).trans h.2⟩
    · obtain ⟨hdata, hspace⟩ := m.fulfilled_of_ne heq payload
      exact ⟨hdata.trans h.1, hspace.trans h.2⟩
  | dbRejected thunk db =>
    by_cases heq : key = db.key
    · subst heq
      have hshown : thunk.shownFailed = false := by
        rw [← Bool.not_eq_true]
        exact fun hc => ha (if_pos hc)
      rwa [reduce, rejected_of_not_shown hshown]
    · obtain ⟨hdata, hspace⟩ := m.rejected_of_ne heq thunk
      exact ⟨hdata.trans h.1, hspace.trans h.2⟩
  | closeTab tab =>
    cases tab with
    | ofDatabase hostUid dbname => exact drop_eq_none h
    | brokerStatus hostUid brokerName => exact h
    | other => exact h
  | loginGone type db => exact drop_eq_none h
  | closeHostTabs hostUid => exact ⟨rfl, rfl⟩
  | dbPending thunk db => exact h
  | brokerPending thunk hostUid brokerName => exact h
  | brokerFulfilled hostUid brokerName payload => exact h
  | brokerRejected thunk hostUid brokerName error => exact h
  | volumesPending hostUid => exact h
  | volumesFulfilled hostUid payload => exact h
  | volumesRejected hostUid => exact h
  | resetBrokerState => exact h

theorem fulfilled_isSome (m : Monitoring) (key : String) {payload : DbPayload} (h : payload.thunk.inDashboard = true) :
    (m.fulfilled key payload).dashboardData key ≠ none := by
  cases payload <;> first | cases h; done | simp [fulfilled]

theorem rejected_isSome (m : Monitoring) (key : String) {thunk : DbThunk} (h : thunk.shownFailed = true) :
    (m.rejected key thunk).dashboardData key ≠ none := by
  cases thunk <;> first | cases h; done | simp [rejected]

end Monitoring

namespace Operation

variable {o : Operation}

theorem pending_eq (o : Operation) (key : String) (thunk : DbThunk) :
    (o.pending key thunk).backupSchedules = o.backupSchedules ∧ (o.pending key thunk).queryPlans = o.queryPlans := by
  cases thunk <;> exact ⟨rfl, rfl⟩

theorem rejected_eq (o : Operation) (key : String) (thunk : DbThunk) :
    (o.rejected key thunk).backupSchedules = o.backupSchedules ∧ (o.rejected key thunk).queryPlans = o.queryPlans := by
  cases thunk <;> exact ⟨rfl, rfl⟩

theorem fulfilled_of_ne (o : Operation) {db : Database} (h : key' ≠ db.key) (payload : DbPayload) :
    (o.fulfilled db payload).backupSchedules key' = o.backupSchedules key' ∧
      (o.fulfilled db payload).queryPlans key' = o.queryPlans key' := by
  cases payload <;> simp [fulfilled, Function.update_of_ne h]

theorem fulfilled_of_not_cached (o : Operation) (db : Database) {payload : DbPayload} (h : payload.thunk.cached = false) :
    (o.fulfilled db payload).backupSchedules = o.backupSchedules ∧ (o.fulfilled db payload).queryPlans = o.queryPlans := by
  cases payload <;> first | exact ⟨rfl, rfl⟩ | cases h

theorem reduce_absent (h : o.backupSchedules key = none ∧ o.queryPlans key = none) (ha : a.writes ≠ some key) :
    (o.reduce a).backupSchedules key = none ∧ (o.reduce a).queryPlans key = none := by
  cases a with
  | dbPending thunk db =>
    obtain ⟨hschedules, hplans⟩ := o.pending_eq db.key thunk
    exact ⟨(congrFun hschedules key).trans h.1, (congrFun hplans key).trans h.2⟩
  | dbFulfilled db payload =>
    by_cases heq : key = db.key
    · subst heq
      have hcached : payload.thunk.cached = false := by
        rw [← Bool.not_eq_true]
        exact fun hc => ha (if_pos hc)
      obtain ⟨hschedules, hplans⟩ := o.fulfilled_of_not_cached db hcached
      exact ⟨(congrFun hschedules _).trans h.1, (congrFun hplans _).trans h.2⟩
    · obtain ⟨hschedules, hplans⟩ := o.fulfilled_of_ne heq payload
      exact ⟨hschedules.trans h.1, hplans.trans h.2⟩
  | dbRejected thunk db =>
    obtain ⟨hschedules, hplans⟩ := o.rejected_eq db.key thunk
    exact ⟨(congrFun hschedules key).trans h.1, (congrFun hplans key).trans h.2⟩
  | loginGone type db =>
    by_cases heq : key = db.key
    · subst heq
      simp [reduce, drop]
    · simpa [reduce, drop, Function.update_of_ne heq] using h
  | closeTab tab => exact h
  | closeHostTabs hostUid => exact h
  | brokerPending thunk hostUid brokerName => exact h
  | brokerFulfilled hostUid brokerName payload => exact h
  | brokerRejected thunk hostUid brokerName error => exact h
  | volumesPending hostUid => exact h
  | volumesFulfilled hostUid payload => exact h
  | volumesRejected hostUid => exact h
  | resetBrokerState => exact h

end Operation

namespace Broker

variable {b : Broker}

theorem statusSettled_dbLogs (b : Broker) (brokerName : String) (set : BrokerStatus → BrokerStatus) :
    (b.statusSettled brokerName set).dbLogsByDb = b.dbLogsByDb := by
  unfold statusSettled
  split <;> rfl

theorem reduce_absent (h : b.dbLogsByDb key = none) (ha : a.writes ≠ some key) : (b.reduce a).dbLogsByDb key = none := by
  cases a with
  | dbPending thunk db => cases thunk <;> exact h
  | dbRejected thunk db => cases thunk <;> exact h
  | dbFulfilled db payload =>
    cases payload with
    | fetchDatabaseLogs logs =>
      have hne : key ≠ db.key := fun heq => ha (congrArg some heq.symm)
      exact (Function.update_of_ne hne ..).trans h
    | _ => exact h
  | brokerPending thunk hostUid brokerName => cases thunk <;> exact h
  | brokerFulfilled hostUid brokerName payload =>
    cases payload with
    | fetchDetailedBrokerStatus data => exact (congrFun (b.statusSettled_dbLogs brokerName _) key).trans h
    | fetchBrokerLogs logs => exact h
  | brokerRejected thunk hostUid brokerName error =>
    cases thunk with
    | fetchDetailedBrokerStatus => exact (congrFun (b.statusSettled_dbLogs brokerName _) key).trans h
    | fetchBrokerLogs => exact h
  | loginGone type db =>
    rw [reduce_loginGone]
    by_cases heq : key = db.key
    · subst heq
      exact Function.update_self ..
    · exact (Function.update_of_ne heq ..).trans h
  | resetBrokerState => rfl
  | closeTab tab => cases tab <;> exact h
  | closeHostTabs hostUid => exact h
  | volumesPending hostUid => exact h
  | volumesFulfilled hostUid payload => exact h
  | volumesRejected hostUid => exact h

end Broker

/-! ### What an action leaves absent -/

namespace Absent

theorem reduce (h : Absent store key) (ha : a.writes ≠ some key) : Absent (store.reduce a) key := by
  obtain ⟨hdata, hspace⟩ := store.monitoring.reduce_absent ⟨h.dashboardData, h.spaceInfo⟩ ha
  obtain ⟨hschedules, hplans⟩ := store.operation.reduce_absent ⟨h.backupSchedules, h.queryPlans⟩ ha
  exact ⟨hdata, hspace, hschedules, hplans, store.broker.reduce_absent h.dbLogs ha⟩

/-- All of a database is dropped with its login. -/
theorem loginGone (store : Store) (type : LoginGone) (db : Database) : Absent (store.reduce (.loginGone type db)) db.key := by
  refine ⟨Function.update_self .., Function.update_self .., Function.update_self .., Function.update_self .., ?_⟩
  have hbroker := congrArg Broker.dbLogsByDb (store.broker.reduce_loginGone type db)
  exact (congrFun hbroker db.key).trans (Function.update_self ..)

theorem not_of_writes (store : Store) (ha : a.writes = some key) : ¬ Absent (store.reduce a) key := by
  intro h
  cases a with
  | dbFulfilled db payload =>
    obtain ⟨hcached, hkey⟩ := Option.ite_none_right_eq_some.1 ha
    obtain rfl := Option.some.inj hkey
    have hdashboard : payload.thunk.inDashboard = true → False :=
      fun hin => store.monitoring.fulfilled_isSome db.key hin h.dashboardData
    cases payload with
    | fetchBackupSchedule schedules => cases (Function.update_self ..).symm.trans h.backupSchedules
    | fetchQueryPlan plan => cases (Function.update_self ..).symm.trans h.queryPlans
    | fetchDatabaseLogs logs => cases (Function.update_self ..).symm.trans h.dbLogs
    | fetchDashboardData => cases hcached
    | fetchLockInfo info => cases hcached
    | fetchTransactionInfo info => cases hcached
    | _ => exact hdashboard rfl
  | dbRejected thunk db =>
    obtain ⟨hshown, hkey⟩ := Option.ite_none_right_eq_some.1 ha
    obtain rfl := Option.some.inj hkey
    exact store.monitoring.rejected_isSome db.key hshown h.dashboardData
  | _ => cases ha

end Absent

namespace LoginCleanup

variable {s s' : State}

/-- No read that writes an entry of a database is settled while its login is gone. -/
def Ok (s : State) : Act → Prop
  | .dispatch action => action.writes.all (fun key => !s.gone key) = true
  | .loggedIn _ => True

instance : ∀ (s : State) (act : Act), Decidable (Ok s act)
  | _, .dispatch _ => inferInstanceAs (Decidable (_ = true))
  | _, .loggedIn _ => isTrue trivial

theorem ok_dispatch {action : Action} : Ok s (.dispatch action) ↔ ∀ key, action.writes = some key → s.gone key = false := by
  unfold Ok
  cases hwrites : action.writes with
  | none => simp [hwrites]
  | some key => simp [hwrites]

theorem clean_step {act : Act} (h : s.Clean) (hstep : step s act = some s') : s'.Clean ↔ Ok s act := by
  cases act with
  | loggedIn db =>
    obtain rfl := Option.some.inj hstep
    refine ⟨fun _ => trivial, fun _ key hkey => h key ?_⟩
    by_cases heq : key = db.key
    · subst heq
      simp at hkey
    · simpa [Function.update_of_ne heq] using hkey
  | dispatch action =>
    obtain ⟨inFlight, -, rfl⟩ := Option.map_eq_some_iff.1 hstep
    rw [ok_dispatch]
    constructor
    · intro hclean key hwrites
      rw [← Bool.not_eq_true]
      intro hgone
      have hgone' : goneAfter s.gone action key = true := by
        cases action <;> first | exact hgone | cases hwrites
      exact Absent.not_of_writes s.store hwrites (hclean key hgone')
    · intro hok key hkey
      change goneAfter s.gone action key = true at hkey
      by_cases hgone : s.gone key = true
      · refine (h key hgone).reduce fun hwrites => ?_
        rw [hok key hwrites] at hgone
        cases hgone
      · -- the login is gone with this action
        cases action with
        | loginGone type db =>
          by_cases heq : key = db.key
          · subst heq
            exact Absent.loginGone s.store type db
          · exact absurd ((Function.update_of_ne heq ..).symm.trans hkey) hgone
        | _ => exact absurd hkey hgone

/-- What was cached of a database stays absent while its login is gone, in a run of reads and logins, exactly when no
read of it that writes an entry is settled in that time. -/
theorem cleanup_sticks (as : List Act) (s : State) (hrun : Run step Always State.initialState as s) :
    (∀ bs s₁, bs <+: as → Run step Always State.initialState bs s₁ → s₁.Clean) ↔ Run step Ok State.initialState as s :=
  hrun.prefixes_iff (fun _ _ _ => clean_step) nofun

/-- A database of a host. -/
def demodb : Database := ⟨"h", "demodb", by decide, by decide⟩

/-- The plans are in flight when the login goes, and their read fails. -/
theorem cleanup_sticks_failed : ∃ as s, s.gone demodb.key = true ∧ Run step Always State.initialState as s ∧
    ∀ bs s₁, bs <+: as → Run step Always State.initialState bs s₁ → s₁.Clean := by
  obtain ⟨s, hok, hgone⟩ : ∃ s, Run step Ok State.initialState
      [.loggedIn demodb, .dispatch (.dbPending .fetchBackupSchedule demodb), .dispatch (.dbPending .fetchQueryPlan demodb),
        .dispatch (.dbFulfilled demodb (.fetchBackupSchedule .null)), .dispatch (.loginGone .logoutDatabase demodb),
        .dispatch (.dbRejected .fetchQueryPlan demodb)] s ∧ s.gone demodb.key = true :=
    exists_run (by decide)
  have hrun : Run step Always State.initialState _ s := hok.mono fun _ _ _ => trivial
  exact ⟨_, s, hgone, hrun, (cleanup_sticks _ s hrun).2 hok⟩

/-- The schedules are in flight when the login goes, and are cached when they come. -/
theorem cleanup_undone : ∃ as s, Run step Always State.initialState as s ∧ s.gone demodb.key = true ∧
    ¬ Absent s.store demodb.key := by
  obtain ⟨s, hrun, hgone, hcached⟩ : ∃ s, Run step Always State.initialState
      [.loggedIn demodb, .dispatch (.dbPending .fetchBackupSchedule demodb),
        .dispatch (.loginGone .logoutDatabase demodb), .dispatch (.dbFulfilled demodb (.fetchBackupSchedule .null))] s ∧
      s.gone demodb.key = true ∧ (s.store.operation.backupSchedules demodb.key).isSome = true :=
    exists_run (by decide)
  refine ⟨_, s, hrun, hgone, fun h => ?_⟩
  rw [h.backupSchedules] at hcached
  cases hcached

end LoginCleanup

end CubridWebManager.ViewCaches
