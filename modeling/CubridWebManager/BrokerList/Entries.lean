import CubridWebManager.Lib.Json
import CubridWebManager.Lib.Since
import CubridWebManager.Conf.CubridConfEdit
import Mathlib.Logic.Function.Basic

/-!
# The entries of the reads of a broker

The part of `brokerSlice` that keeps an entry with `loading` for each detailed status, each log that is viewed and each
host's broker configuration.  The pending action of a read makes its entry if there is none; the settled ones write to
the entry as if it were there, and throw where a cleanup has deleted it since.  Every action is handled exactly where no
cleanup comes between (`entries_kept`).
-/

namespace CubridWebManager.BrokerEntries

open Dispatch
open Conf (isLineTerminator)

/-! ### The state -/

/-- `{ data, loading, error }` -/
structure Entry where
  data : Option Json
  loading : Bool
  error : Option Text

abbrev Entries := Text → Option Entry

/-- An item of a list of logs. -/
structure Log where
  path : Text
  rest : List (String × Json)

structure Broker where
  detailedStatus : Entries
  viewingLogs : Entries
  brokerConfig : Entries
  logsByBroker : Text → Option (List Log)
  dbLogsByDb : Text → Option (List Log)

def initialState : Broker := ⟨fun _ => none, fun _ => none, fun _ => none, fun _ => none, fun _ => none⟩

def dbKey (hostUid dbname : Text) : Text := hostUid ++ ':' :: dbname

/-! ### The actions -/

/-- The three thunks whose entries these are, with the argument of the call. -/
inductive Read
  | fetchDetailedBrokerStatus (hostUid brokerName : Text)
  | fetchLogContent (hostUid path : Text)
  | fetchBrokerConfig (hostUid : Text)
  deriving DecidableEq

inductive Action
  | pending (requestId : Nat) (read : Read)
  | fulfilled (requestId : Nat) (read : Read) (data : Json)
  | rejected (requestId : Nat) (read : Read) (payload : Text)
  | fetchBrokerLogsFulfilled (brokerName : Text) (logs : List Log)
  | fetchDatabaseLogsFulfilled (hostUid dbname : Text) (logs : List Log)
  /-- The actions of `isDbLoginGone`. -/
  | dbLoginGone (hostUid dbname : Text)
  | resetBrokerState (hostUid : Option Text)
  | closeTab (tabId : Text)
  | closeHostTabs (hostUid : Text)
  | revokeHostLogin (hostUid : Text)
  | logout

/-- The read that is settled, with its request. -/
def Action.settles : Action → Option (Nat × Read)
  | .fulfilled requestId read _ => some (requestId, read)
  | .rejected requestId read _ => some (requestId, read)
  | _ => none

/-! ### The ids of the tabs -/

/-- What follows `^prefix` -/
def afterKind (kind tabId : Text) : Option Text := if kind <+: tabId then some (tabId.drop kind.length) else none

/-- `[^:]+` -/
def field (t : Text) : Option (Text × Text) :=
  let name := t.takeWhile (· ≠ ':')
  if name = [] then none else some (name, t.drop name.length)

/-- `[^:]+:`, and what follows it. -/
def fieldOf (t : Text) : Option (Text × Text) :=
  (field t).bind fun
    | (name, ':' :: rest) => some (name, rest)
    | _ => none

/-- `/^broker_status:[^:]+:([^:]+)/` -/
def statusMatch (tabId : Text) : Option Text := do
  let rest ← afterKind "broker_status:".toList tabId
  let (_, rest) ← fieldOf rest
  let (brokerName, _) ← field rest
  return brokerName

/-- `/^log:[^:]+:(.+)/` -/
def logMatch (tabId : Text) : Option Text := do
  let rest ← afterKind "log:".toList tabId
  let (_, rest) ← fieldOf rest
  let path := rest.takeWhile fun c => !isLineTerminator c
  if path = [] then none else some path

/-- `/^all_logs:[^:]+:([^:]+)/` -/
def allLogsMatch (tabId : Text) : Option Text := do
  let rest ← afterKind "all_logs:".toList tabId
  let (_, rest) ← fieldOf rest
  let (brokerName, _) ← field rest
  return brokerName

/-- `/^all_db_logs:([^:]+):([^:]+)/` -/
def allDbLogsMatch (tabId : Text) : Option (Text × Text) := do
  let rest ← afterKind "all_db_logs:".toList tabId
  let (hostUid, rest) ← fieldOf rest
  let (dbname, _) ← field rest
  return (hostUid, dbname)

/-! ### The reducers -/

def setLoading (entries : Entries) (key : Text) (entry : Entry) : Entries :=
  Function.update entries key (some { entry with loading := true, error := none })

/-- `state.entries[key].loading = false`, which throws if there is no entry. -/
def settle (entries : Entries) (key : Text) (set : Entry → Entry) : Option Entries :=
  (entries key).map fun entry => Function.update entries key (some (set { entry with loading := false }))

namespace Broker

variable (state : Broker)

def pending : Read → Broker
  | .fetchDetailedBrokerStatus _ brokerName =>
    let entry := (state.detailedStatus brokerName).getD ⟨some (.obj []), true, none⟩
    { state with detailedStatus := setLoading state.detailedStatus brokerName entry }
  | .fetchLogContent _ path =>
    let entry := (state.viewingLogs path).getD ⟨none, true, none⟩
    { state with viewingLogs := setLoading state.viewingLogs path entry }
  | .fetchBrokerConfig hostUid =>
    match state.brokerConfig hostUid with
    | none =>
      let entry : Entry := ⟨some (.obj []), true, none⟩
      { state with brokerConfig := Function.update state.brokerConfig hostUid (some entry) }
    | some entry => { state with brokerConfig := setLoading state.brokerConfig hostUid entry }

def settled (set : Entry → Entry) : Read → Option Broker
  | .fetchDetailedBrokerStatus _ brokerName =>
    (settle state.detailedStatus brokerName set).map fun entries => { state with detailedStatus := entries }
  | .fetchLogContent _ path =>
    (settle state.viewingLogs path set).map fun entries => { state with viewingLogs := entries }
  | .fetchBrokerConfig hostUid =>
    (settle state.brokerConfig hostUid set).map fun entries => { state with brokerConfig := entries }

def fulfilled (read : Read) (data : Json) : Option Broker :=
  state.settled (fun entry => { entry with data := some data }) read

def rejected (read : Read) (payload : Text) : Option Broker :=
  state.settled (fun entry => { entry with error := some payload }) read

def resetBrokerState : Broker := initialState

/-- `logs.forEach(log => { delete state.viewingLogs[log.path]; })` -/
def deleteViewed (logs : List Log) : Broker :=
  { state with viewingLogs := logs.foldl (fun entries log => Function.update entries log.path none) state.viewingLogs }

def closeTab (tabId : Text) : Broker :=
  match statusMatch tabId with
  | some brokerName => { state with detailedStatus := Function.update state.detailedStatus brokerName none }
  | none =>
    match logMatch tabId with
    | some path => { state with viewingLogs := Function.update state.viewingLogs path none }
    | none =>
      match allLogsMatch tabId with
      | some brokerName => state.deleteViewed ((state.logsByBroker brokerName).getD [])
      | none =>
        match allDbLogsMatch tabId with
        | some (hostUid, dbname) => state.deleteViewed ((state.dbLogsByDb (dbKey hostUid dbname)).getD [])
        | none => state

def dbLoginGone (hostUid dbname : Text) : Broker :=
  if hostUid = [] ∨ dbname = [] then state
  else { state with dbLogsByDb := Function.update state.dbLogsByDb (dbKey hostUid dbname) none }

/-- None where a property of `undefined` is read. -/
def reduce : Action → Option Broker
  | .pending _ read => some (state.pending read)
  | .fulfilled _ read data => state.fulfilled read data
  | .rejected _ read payload => state.rejected read payload
  | .fetchBrokerLogsFulfilled brokerName logs =>
    some { state with logsByBroker := Function.update state.logsByBroker brokerName (some logs) }
  | .fetchDatabaseLogsFulfilled hostUid dbname logs =>
    some { state with dbLogsByDb := Function.update state.dbLogsByDb (dbKey hostUid dbname) (some logs) }
  | .dbLoginGone hostUid dbname => some (state.dbLoginGone hostUid dbname)
  | .resetBrokerState _ => some resetBrokerState
  | .closeTab tabId => some (state.closeTab tabId)
  | .closeHostTabs hostUid => some { state with brokerConfig := Function.update state.brokerConfig hostUid none }
  -- the root reducer leaves out the slice, and hands the action on
  | .revokeHostLogin _ | .logout => some initialState

/-- A store keeps its state when its reducer throws. -/
def dispatch (a : Action) : Broker := (state.reduce a).getD state

end Broker

/-! ### The property -/

def Broker.entryOf (state : Broker) : Read → Option Entry
  | .fetchDetailedBrokerStatus _ brokerName => state.detailedStatus brokerName
  | .fetchLogContent _ path => state.viewingLogs path
  | .fetchBrokerConfig hostUid => state.brokerConfig hostUid

/-- The two reads have the same entry. -/
def Read.SameEntry : Read → Read → Prop
  | .fetchDetailedBrokerStatus _ brokerName, .fetchDetailedBrokerStatus _ brokerName' => brokerName = brokerName'
  | .fetchLogContent _ path, .fetchLogContent _ path' => path = path'
  | .fetchBrokerConfig hostUid, .fetchBrokerConfig hostUid' => hostUid = hostUid'
  | _, _ => False

/-- The reducer does not throw, and a settled read leaves its entry with `loading` false or leaves no entry. -/
def Handled (state : Broker) (a : Action) : Prop :=
  ∃ state', state.reduce a = some state' ∧
    ∀ request ∈ a.settles, ∀ entry ∈ state'.entryOf request.2, entry.loading = false

/-- The requests in flight after the action, if a settled one was in flight. -/
def inFlightAfter (inFlight : List (Nat × Read)) (a : Action) : Option (List (Nat × Read)) :=
  match a, a.settles with
  | .pending requestId read, _ => some ((requestId, read) :: inFlight)
  | _, some request => if request ∈ inFlight then some (inFlight.erase request) else none
  | _, none => some inFlight

/-- Each settled action is preceded by its own pending one. -/
def Paired (as : List Action) : Prop := (as.foldlM inFlightAfter []).isSome = true

/-- Every action is handled, whatever their order. -/
def NeverThrows : Prop := ∀ as, Paired as → Throughout Broker.dispatch Handled initialState as

/-! ### Where an entry is deleted -/

/-- The logs whose entries go with the tab. -/
def Broker.logsOfTab (state : Broker) (tabId : Text) : List Text :=
  match statusMatch tabId, logMatch tabId, allLogsMatch tabId, allDbLogsMatch tabId with
  | some _, _, _, _ => []
  | none, some path, _, _ => [path]
  | none, none, some brokerName, _ => ((state.logsByBroker brokerName).getD []).map Log.path
  | none, none, none, some (hostUid, dbname) => ((state.dbLogsByDb (dbKey hostUid dbname)).getD []).map Log.path
  | none, none, none, none => []

/-- The action deletes the entry of the read. -/
def Deletes (read : Read) (state : Broker) : Action → Prop
  | .resetBrokerState _ | .revokeHostLogin _ | .logout => True
  | .closeTab tabId =>
    match read with
    | .fetchDetailedBrokerStatus _ brokerName => statusMatch tabId = some brokerName
    | .fetchLogContent _ path => path ∈ state.logsOfTab tabId
    | .fetchBrokerConfig _ => False
  | .closeHostTabs hostUid =>
    match read with
    | .fetchBrokerConfig hostUid' => hostUid' = hostUid
    | _ => False
  | _ => False

/-- The action is the pending one of a read with the same entry. -/
def Begins (read : Read) (_ : Broker) : Action → Prop
  | .pending _ read' => read'.SameEntry read
  | _ => False

/-- A read with the same entry was begun, and the entry has not been deleted since. -/
def Kept (read : Read) (as : List Action) : Prop := Since Broker.dispatch (Begins read) (Deletes read) initialState as

/-- Where a read is settled its entry has been kept. -/
def EntriesKept (as : List Action) : Prop :=
  ∀ before a rest, as = before ++ a :: rest → ∀ request ∈ a.settles, Kept request.2 before

/-! ### What the reducers do to an entry -/

variable {state : Broker} {read : Read} {a : Action}

theorem isSome_update (entries : Entries) (key key' : Text) (entry : Entry) :
    (Function.update entries key (some entry) key').isSome ↔ key = key' ∨ (entries key').isSome := by
  by_cases hk : key' = key
  · subst hk
    simp
  · rw [Function.update_of_ne hk, or_iff_right (Ne.symm hk)]

theorem isSome_delete (entries : Entries) (key key' : Text) :
    (Function.update entries key none key').isSome ↔ (entries key').isSome ∧ key' ≠ key := by
  by_cases hk : key' = key
  · subst hk
    simp
  · rw [Function.update_of_ne hk, and_iff_left hk]

theorem isSome_of_settle {entries entries' : Entries} {key : Text} {set : Entry → Entry}
    (h : settle entries key set = some entries') (key' : Text) : (entries' key').isSome ↔ (entries key').isSome := by
  obtain ⟨entry, hentry, rfl⟩ := Option.map_eq_some_iff.1 h
  rw [isSome_update, or_iff_right_of_imp]
  rintro rfl
  rw [hentry, Option.isSome_some]

theorem settle_meets {set : Entry → Entry} (hset : ∀ entry, (set entry).loading = entry.loading) (entries : Entries)
    (key : Text) :
    (∃ entries', settle entries key set = some entries' ∧ ∀ entry ∈ entries' key, entry.loading = false) ↔
      (entries key).isSome := by
  rw [settle]
  cases entries key with
  | none => simp
  | some entry =>
    refine iff_of_true ⟨_, rfl, fun entry' h => ?_⟩ rfl
    dsimp only at h
    rw [Function.update_self, Option.mem_some] at h
    rw [← h, hset]

namespace Broker

theorem entryOf_pending (read' : Read) :
    ((state.pending read').entryOf read).isSome ↔ read'.SameEntry read ∨ (state.entryOf read).isSome := by
  cases read' with
  | fetchDetailedBrokerStatus _ brokerName =>
    cases read with
    | fetchDetailedBrokerStatus => exact isSome_update ..
    | fetchLogContent | fetchBrokerConfig => exact (or_iff_right id).symm
  | fetchLogContent _ path =>
    cases read with
    | fetchLogContent => exact isSome_update ..
    | fetchDetailedBrokerStatus | fetchBrokerConfig => exact (or_iff_right id).symm
  | fetchBrokerConfig hostUid =>
    rw [pending]
    cases read with
    | fetchBrokerConfig => cases state.brokerConfig hostUid <;> exact isSome_update ..
    | fetchDetailedBrokerStatus | fetchLogContent =>
      cases state.brokerConfig hostUid <;> exact (or_iff_right id).symm

theorem entryOf_settled {set : Entry → Entry} {read' : Read} {state' : Broker}
    (h : state.settled set read' = some state') :
    (state'.entryOf read).isSome ↔ (state.entryOf read).isSome := by
  cases read' <;>
  · obtain ⟨entries', hentries, rfl⟩ := Option.map_eq_some_iff.1 h
    cases read <;> first | exact isSome_of_settle hentries _ | rfl

theorem settled_meets {set : Entry → Entry} (hset : ∀ entry, (set entry).loading = entry.loading) :
    (∃ state', state.settled set read = some state' ∧ ∀ entry ∈ state'.entryOf read, entry.loading = false) ↔
      (state.entryOf read).isSome := by
  have hmap : ∀ {entries : Option Entries} {write : Entries → Broker} {key : Text},
      (∀ entries', (write entries').entryOf read = entries' key) →
      ((∃ state', entries.map write = some state' ∧ ∀ entry ∈ state'.entryOf read, entry.loading = false) ↔
        ∃ entries', entries = some entries' ∧ ∀ entry ∈ entries' key, entry.loading = false) := by
    intro entries write key hwrite
    simp only [Option.map_eq_some_iff]
    constructor
    · rintro ⟨_, ⟨entries', h, rfl⟩, hentry⟩
      exact ⟨entries', h, hwrite entries' ▸ hentry⟩
    · rintro ⟨entries', h, hentry⟩
      exact ⟨_, ⟨entries', h, rfl⟩, (hwrite entries').symm ▸ hentry⟩
  cases read <;> exact (hmap fun _ => rfl).trans (settle_meets hset _ _)

theorem deleteViewed_viewingLogs (logs : List Log) (path : Text) :
    ((state.deleteViewed logs).viewingLogs path).isSome ↔
      (state.viewingLogs path).isSome ∧ path ∉ logs.map Log.path := by
  rw [deleteViewed]
  dsimp only
  generalize state.viewingLogs = entries
  induction logs generalizing entries with
  | nil => simp
  | cons log logs ih =>
    rw [List.foldl_cons, ih, isSome_delete, List.map_cons, List.mem_cons, not_or, and_assoc]

theorem entryOf_closeTab (tabId : Text) :
    ((state.closeTab tabId).entryOf read).isSome ↔
      (state.entryOf read).isSome ∧ ¬Deletes read state (.closeTab tabId) := by
  cases read with
  | fetchDetailedBrokerStatus _ brokerName =>
    simp only [Deletes, entryOf, closeTab]
    cases statusMatch tabId with
    | some brokerName' => simp only [isSome_delete, Option.some.injEq, ne_comm, ne_eq]
    | none =>
      cases logMatch tabId <;> cases allLogsMatch tabId <;> cases allDbLogsMatch tabId <;>
        exact (and_iff_left (by simp)).symm
  | fetchLogContent _ path =>
    simp only [Deletes, entryOf, closeTab, logsOfTab]
    cases statusMatch tabId with
    | some brokerName => exact (and_iff_left List.not_mem_nil).symm
    | none =>
      cases logMatch tabId with
      | some path' => simp only [isSome_delete, List.mem_singleton, ne_eq]
      | none =>
        cases allLogsMatch tabId with
        | some brokerName => exact deleteViewed_viewingLogs ..
        | none =>
          cases allDbLogsMatch tabId with
          | some db => exact deleteViewed_viewingLogs ..
          | none => exact (and_iff_left List.not_mem_nil).symm
  | fetchBrokerConfig hostUid =>
    simp only [Deletes, not_false_eq_true, and_true, entryOf, closeTab]
    cases statusMatch tabId <;> cases logMatch tabId <;> cases allLogsMatch tabId <;> cases allDbLogsMatch tabId <;> rfl

theorem entryOf_initialState : initialState.entryOf read = none := by
  cases read <;> rfl

/-- What an action does to whether an entry is there. -/
theorem entryOf_dispatch (a : Action) :
    ((state.dispatch a).entryOf read).isSome ↔
      Begins read state a ∨ (state.entryOf read).isSome ∧ ¬Deletes read state a := by
  cases a with
  | pending requestId read' =>
    have hkept : ¬Deletes read state (.pending requestId read') := id
    rw [and_iff_left hkept]
    exact entryOf_pending read'
  | fulfilled _ read' _ | rejected _ read' _ =>
    simp only [Begins, Deletes, false_or, not_false_eq_true, and_true, dispatch, reduce, fulfilled, rejected]
    cases h : state.settled _ read' with
    | none => rfl
    | some state' => exact entryOf_settled h
  | closeTab tabId =>
    simp only [Begins, false_or]
    exact entryOf_closeTab tabId
  | closeHostTabs hostUid =>
    simp only [Begins, false_or]
    cases read with
    | fetchBrokerConfig hostUid' => exact isSome_delete ..
    | fetchDetailedBrokerStatus | fetchLogContent => exact (and_iff_left id).symm
  | dbLoginGone hostUid dbname =>
    simp only [Begins, Deletes, false_or, not_false_eq_true, and_true, dispatch, reduce, dbLoginGone, Option.getD_some]
    split <;> cases read <;> rfl
  | fetchBrokerLogsFulfilled | fetchDatabaseLogsFulfilled =>
    simp only [Begins, Deletes, false_or, not_false_eq_true, and_true]
    cases read <;> rfl
  | resetBrokerState | revokeHostLogin | logout =>
    simp only [Begins, Deletes, false_or, not_true_eq_false, and_false, iff_false]
    exact Bool.eq_false_iff.1 (congrArg Option.isSome entryOf_initialState)

/-- The entry of a read is there just if it has been kept. -/
theorem kept_iff (as : List Action) : ((after dispatch initialState as).entryOf read).isSome ↔ Kept read as := by
  refine holds_iff_since (P := fun state : Broker => (state.entryOf read).isSome = true) ?_ ?_ as
  · exact fun _ a => entryOf_dispatch a
  rw [entryOf_initialState]
  exact Bool.false_ne_true

theorem handled_iff : Handled state a ↔ ∀ request ∈ a.settles, (state.entryOf request.2).isSome := by
  cases a with
  | fulfilled requestId read data =>
    simp only [Handled, Action.settles, Option.mem_some, forall_eq']
    exact settled_meets fun _ => rfl
  | rejected requestId read payload =>
    simp only [Handled, Action.settles, Option.mem_some, forall_eq']
    exact settled_meets fun _ => rfl
  | _ =>
    refine iff_of_true ⟨_, rfl, fun _ h => ?_⟩ fun _ h => ?_
    · exact absurd h (Option.not_mem_none _)
    · exact absurd h (Option.not_mem_none _)

end Broker

/-! ### The result -/

/-- Every action is handled just if the entry of every settled read has been kept since a read of it was begun. -/
theorem entries_kept (as : List Action) : Throughout Broker.dispatch Handled initialState as ↔ EntriesKept as := by
  refine forall_congr' fun before => forall_congr' fun a => forall_congr' fun rest => forall_congr' fun _ => ?_
  rw [Broker.handled_iff]
  exact forall_congr' fun request => forall_congr' fun _ => Broker.kept_iff before

/-- The status of a broker is read, the user leaves the host, and the read is answered. -/
theorem settled_after_reset : ¬NeverThrows := by
  intro h
  let read : Read := .fetchDetailedBrokerStatus ['h'] ['b']
  have hpaired : Paired [.pending 0 read, .resetBrokerState (some ['h']), .fulfilled 0 read (.obj [])] := rfl
  obtain ⟨state', hreduce, -⟩ :=
    h _ hpaired [.pending 0 read, .resetBrokerState (some ['h'])] (.fulfilled 0 read (.obj [])) [] rfl
  cases hreduce

end CubridWebManager.BrokerEntries
