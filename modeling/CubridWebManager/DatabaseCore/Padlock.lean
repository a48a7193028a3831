import CubridWebManager.DatabaseCore.Logins
import CubridWebManager.Lib.Run

/-!
# The padlock and the logins the user ended

The results of the actions and the responses to the reads come in any order; a number is handed out whenever a read is
sent, a result returns or a login is cleared.  A database whose login was ended is not shown as logged in until it is
logged in again, or something that was sent since shows it so, exactly when no start, stop or other result of an action
sent before the end shows it as logged in (`padlock`).  Such results are stamped when they return, so they count as
newer than the end (`padlock_shown`).
-/

namespace CubridWebManager.DatabaseCore

open Transition

namespace Padlock

/-! ### The system -/

structure State where
  core : Core
  lastSeq : Nat
  /-- The number of the result that ended the login. -/
  ended : Database → Option Nat
  /-- The number of the last result that changed the login. -/
  changedAt : Database → Option Nat

def State.initialState : State := ⟨DatabaseCore.initialState, 0, fun _ => none, fun _ => none⟩

/-- A read is settled with the number its request was sent with.  Of the request of an action, `sentAt` is the last number
that was handed out before it was sent; the result gets its own as it returns. -/
inductive Act
  | nextSeq
  | fetchPending (hostUid : HostUid) (requestId : Nat) (isBackground : Bool)
  | fetchFulfilled (hostUid : HostUid) (requestId : Nat) (isBackground : Bool) (payload : Option StartInfo) (seq : Nat)
  | fetchRejected (hostUid : HostUid) (requestId : Nat) (isBackground : Bool) (seq : Nat)
  | infoFulfilled (result : InfoResult) (sentAt : Nat)
  | loginFulfilled (result : LoginResult) (sentAt : Nat)
  | clearDatabaseLogin (db : Database)
  | localAction (action : LocalAction)
  | closeHostTabs (hostUid : HostUid)

def noted (marks : Database → Option Nat) (dbs : List Database) (seq : Nat) : Database → Option Nat :=
  fun db => if db ∈ dbs then some seq else marks db

/-- What is shown as logged in by something sent since its end is not ended any more. -/
def stillEnded (ended : Database → Option Nat) (shown : List Database) (sentAt : Nat) : Database → Option Nat :=
  fun db => (ended db).filter fun seq => !(decide (db ∈ shown) && decide (seq ≤ sentAt))

/-- The databases that the response to a read newly shows as logged in. -/
def fetched (state : Core) (hostUid : HostUid) (requestId seq : Nat) (payload : Option StartInfo) : List Database :=
  match state.settleRead hostUid requestId with
  | some state => state.shownBy hostUid seq payload
  | none => []

end Padlock

namespace InfoResult

/-- The databases whose login the result ends. -/
def ends : InfoResult → List Database
  | deleteDatabaseProfile db _ => [db]
  | startDatabase .. | stopDatabase .. | registerDatabase .. => []

def changes : InfoResult → List Database
  | startDatabase db _ | stopDatabase db _ | deleteDatabaseProfile db _ => [db]
  | registerDatabase .. => []

/-- The databases that the result shows as logged in. -/
def shown (state : Core) (seq : Nat) : InfoResult → List Database
  | startDatabase db response | stopDatabase db response => db :: state.shownBy db.hostUid seq response
  | registerDatabase db response => state.shownBy db.hostUid seq response
  | deleteDatabaseProfile db response =>
    (state.dropLoggedIn db.hostUid db.dbname seq).shownBy db.hostUid seq response

end InfoResult

namespace LoginResult

def changes : LoginResult → List Database
  | startAllDatabases hostUid succeeded | stopAllDatabases hostUid succeeded
  | runSelectedDatabasesAction hostUid succeeded => databasesOf hostUid (succeeded.getD [])
  | loginDatabase db | logoutDatabase db => [db]

/-- The databases that a start or stop shows as logged in. -/
def shown : LoginResult → List Database
  | startAllDatabases hostUid succeeded | stopAllDatabases hostUid succeeded
  | runSelectedDatabasesAction hostUid succeeded => databasesOf hostUid (succeeded.getD [])
  | loginDatabase _ | logoutDatabase _ => []

end LoginResult

namespace Padlock

def endedAfter (ended : Database → Option Nat) (seq sentAt : Nat) : LoginResult → Database → Option Nat
  | .loginDatabase db => Function.update ended db none
  | .logoutDatabase db => noted ended [db] seq
  | result => stillEnded ended result.shown sentAt

def step (s : State) : Act → Option State
  | .nextSeq => some { s with lastSeq := s.lastSeq + 1 }
  | .fetchPending hostUid requestId isBackground =>
    some { s with core := s.core.fetchDatabaseStartInfoPending hostUid requestId isBackground }
  | .fetchFulfilled hostUid requestId isBackground payload seq =>
    if seq ≤ s.lastSeq then
      some { s with
        core := s.core.fetchDatabaseStartInfoFulfilled hostUid requestId isBackground payload seq
        ended := stillEnded s.ended (fetched s.core hostUid requestId seq payload) seq }
    else none
  | .fetchRejected hostUid requestId isBackground seq =>
    if seq ≤ s.lastSeq then
      some { s with core := s.core.fetchDatabaseStartInfoRejected hostUid requestId isBackground seq }
    else none
  | .infoFulfilled result sentAt =>
    if sentAt ≤ s.lastSeq then
      some {
        core := s.core.infoFulfilled (s.lastSeq + 1) result
        lastSeq := s.lastSeq + 1
        ended := stillEnded (noted s.ended result.ends (s.lastSeq + 1)) (result.shown s.core (s.lastSeq + 1)) sentAt
        changedAt := noted s.changedAt result.changes (s.lastSeq + 1) }
    else none
  | .loginFulfilled result sentAt =>
    if sentAt ≤ s.lastSeq then
      some {
        core := s.core.loginFulfilled (s.lastSeq + 1) result
        lastSeq := s.lastSeq + 1
        ended := endedAfter s.ended (s.lastSeq + 1) sentAt result
        changedAt := noted s.changedAt result.changes (s.lastSeq + 1) }
    else none
  | .clearDatabaseLogin db =>
    some {
      core := s.core.clearDatabaseLogin db (s.lastSeq + 1)
      lastSeq := s.lastSeq + 1
      ended := noted s.ended [db] (s.lastSeq + 1)
      changedAt := noted s.changedAt [db] (s.lastSeq + 1) }
  | .localAction action => some { s with core := s.core.localAction action }
  | .closeHostTabs hostUid =>
    some { s with core := s.core.closeHostTabs hostUid (s.lastSeq + 1), lastSeq := s.lastSeq + 1 }

/-! ### The property -/

/-- No database whose login was ended is shown as logged in. -/
def State.EndedHidden (s : State) : Prop := ∀ db seq, s.ended db = some seq → db.key ∉ s.core.loggedInDatabases

/-- A read that was sent before the login of a database changed leaves the database as it is. -/
def KeepsChanges (s : State) : Act → State → Prop
  | .fetchFulfilled _ _ _ _ seq, s' => ∀ db changed, s.changedAt db = some changed → seq < changed →
    (db.key ∈ s'.core.loggedInDatabases ↔ db.key ∈ s.core.loggedInDatabases)
  | _, _ => True

/-- No result of an action shows a database as logged in whose login was ended after the action was sent. -/
def Ok (s : State) : Act → Prop
  | .infoFulfilled result sentAt => ∀ db ∈ result.shown s.core (s.lastSeq + 1),
    ∀ seq ∈ noted s.ended result.ends (s.lastSeq + 1) db, seq ≤ sentAt
  | .loginFulfilled result sentAt => ∀ db ∈ result.shown, ∀ seq ∈ s.ended db, seq ≤ sentAt
  | _ => True

instance : ∀ (s : State) (a : Act), Decidable (Ok s a)
  | s, .infoFulfilled result sentAt => inferInstanceAs (Decidable (∀ db ∈ result.shown s.core (s.lastSeq + 1),
      ∀ seq ∈ noted s.ended result.ends (s.lastSeq + 1) db, seq ≤ sentAt))
  | s, .loginFulfilled result sentAt =>
    inferInstanceAs (Decidable (∀ db ∈ result.shown, ∀ seq ∈ s.ended db, seq ≤ sentAt))
  | _, .nextSeq | _, .fetchPending .. | _, .fetchFulfilled .. | _, .fetchRejected .. | _, .clearDatabaseLogin _
  | _, .localAction _ | _, .closeHostTabs _ => isTrue trivial

/-! ### What ends and what is shown -/

section Ended

variable {ended : Database → Option Nat} {shown dbs : List Database} {sentAt seq : Nat} {db : Database}

theorem stillEnded_eq_some : stillEnded ended shown sentAt db = some seq ↔
    ended db = some seq ∧ (db ∈ shown → sentAt < seq) := by
  rw [stillEnded, Option.filter_eq_some_iff]
  refine and_congr_right fun _ => ?_
  simp [imp_iff_not_or]

theorem noted_eq_some {last : Nat} (h : noted ended dbs last db = some seq) :
    seq = last ∧ db ∈ dbs ∨ db ∉ dbs ∧ ended db = some seq := by
  unfold noted at h
  split at h
  · rename_i hmem
    exact .inl ⟨(Option.some.inj h).symm, hmem⟩
  · rename_i hmem
    exact .inr ⟨hmem, h⟩

/-- What is ended stays hidden exactly if all that is newly shown was sent since its end. -/
theorem hidden_iff (keys : List Text) {keys' : List Text} (hhidden : ∀ db seq, ended db = some seq → db.key ∉ keys)
    (hadded : ∀ db, Database.key db ∈ keys' → db.key ∈ keys ∨ db ∈ shown) (hshown : ∀ db ∈ shown, db.key ∈ keys') :
    (∀ db seq, stillEnded ended shown sentAt db = some seq → db.key ∉ keys') ↔
      ∀ db ∈ shown, ∀ seq ∈ ended db, seq ≤ sentAt := by
  constructor
  · intro h db hmem seq hseq
    by_contra hlate
    exact h db seq (stillEnded_eq_some.2 ⟨hseq, fun _ => Nat.lt_of_not_le hlate⟩) (hshown db hmem)
  · intro h db seq hstill hkey
    obtain ⟨hended, hlate⟩ := stillEnded_eq_some.1 hstill
    rcases hadded db hkey with hold | hmem
    · exact hhidden db seq hended hold
    · exact Nat.not_lt_of_le (h db hmem seq hended) (hlate hmem)

end Ended

/-! ### The invariant -/

structure Inv (s : State) : Prop where
  changed : ∀ db, s.core.loginChangedSeq db.key = s.changedAt db
  /-- An end is a change. -/
  ended : ∀ db seq, s.ended db = some seq → seq ≤ s.lastSeq ∧ ∃ changed, s.changedAt db = some changed ∧ seq ≤ changed

theorem Inv.initialState : Inv State.initialState := ⟨fun _ => rfl, nofun⟩

/-- Nothing is shown as logged in that was not, and no login is changed. -/
structure Fades (s s' : State) : Prop where
  lastSeq : s.lastSeq ≤ s'.lastSeq
  ended : s'.ended = s.ended
  changedAt : s'.changedAt = s.changedAt
  changed : s'.core.loginChangedSeq = s.core.loginChangedSeq
  loggedIn : s'.core.loggedInDatabases ⊆ s.core.loggedInDatabases

section Steps

variable {s s' : State} {a : Act}

theorem Fades.of_sameLogins {core : Core} {lastSeq : Nat} (h : s.core.SameLogins core) (hle : s.lastSeq ≤ lastSeq) :
    Fades s { s with core := core, lastSeq := lastSeq } := ⟨hle, rfl, rfl, h.changed, h.loggedIn ▸ List.Subset.refl _⟩

theorem Fades.localAction (action : LocalAction) : Fades s { s with core := s.core.localAction action } := by
  cases action with
  | setSelectedDatabase dbname =>
    refine .of_sameLogins ?_ (Nat.le_refl _)
    simp only [Core.localAction]
    split
    · exact ⟨rfl, rfl, rfl⟩
    · exact .refl s.core
  | clearDatabaseLoginsForHost hostUid =>
    exact ⟨Nat.le_refl _, rfl, rfl, rfl, fun _ hkey => List.mem_of_mem_filter hkey⟩
  | _ => exact ⟨Nat.le_refl _, rfl, rfl, rfl, List.Subset.refl _⟩

theorem Fades.inv (h : Fades s s') (hinv : Inv s) : Inv s' where
  changed db := by rw [h.changed, h.changedAt, hinv.changed]
  ended db seq hended := by
    rw [h.ended] at hended
    rw [h.changedAt]
    exact ⟨Nat.le_trans (hinv.ended db seq hended).1 h.lastSeq, (hinv.ended db seq hended).2⟩

theorem Fades.hidden (h : Fades s s') (hhidden : s.EndedHidden) : s'.EndedHidden := fun db seq hended hkey => by
  rw [h.ended] at hended
  exact hhidden db seq hended (h.loggedIn hkey)

/-- The actions that can only hide logins. -/
def Act.Fading : Act → Prop
  | .nextSeq | .fetchPending .. | .fetchRejected .. | .localAction _ | .closeHostTabs _ => True
  | _ => False

theorem fades_step (hstep : step s a = some s') (ha : a.Fading) : Fades s s' := by
  cases a with
  | nextSeq =>
    obtain rfl := Option.some.inj hstep
    exact .of_sameLogins (.refl s.core) (Nat.le_succ _)
  | fetchPending hostUid requestId isBackground =>
    obtain rfl := Option.some.inj hstep
    exact .of_sameLogins ⟨rfl, rfl, rfl⟩ (Nat.le_refl _)
  | fetchRejected hostUid requestId isBackground seq =>
    obtain ⟨-, hrejected⟩ := Option.ite_none_right_eq_some.1 hstep
    obtain rfl := Option.some.inj hrejected
    exact .of_sameLogins (s.core.sameLogins_fetchDatabaseStartInfoRejected hostUid seq requestId isBackground) (Nat.le_refl _)
  | localAction action =>
    obtain rfl := Option.some.inj hstep
    exact .localAction action
  | closeHostTabs hostUid =>
    obtain rfl := Option.some.inj hstep
    exact .of_sameLogins ⟨rfl, rfl, rfl⟩ (Nat.le_succ _)
  | fetchFulfilled | infoFulfilled | loginFulfilled | clearDatabaseLogin => exact ha.elim

/-! ### Responses -/

section Response

variable {state : Core} {hostUid : HostUid} {requestId seq : Nat} {isBackground : Bool} {payload : Option StartInfo}
  {db : Database}

theorem loginChangedSeq_fetchFulfilled :
    (state.fetchDatabaseStartInfoFulfilled hostUid requestId isBackground payload seq).loginChangedSeq =
      state.loginChangedSeq := by
  unfold Core.fetchDatabaseStartInfoFulfilled
  split
  · rename_i state' hsettled
    rw [Core.loginChangedSeq_applyStartInfo, (state.sameLogins_settleRead hostUid hsettled).changed]
  · rfl

theorem mem_fetchFulfilled (h : db.key ∈
    (state.fetchDatabaseStartInfoFulfilled hostUid requestId isBackground payload seq).loggedInDatabases) :
    db.key ∈ state.loggedInDatabases ∨ db ∈ fetched state hostUid requestId seq payload := by
  unfold Core.fetchDatabaseStartInfoFulfilled at h
  unfold fetched
  cases hsettled : state.settleRead hostUid requestId with
  | some state' =>
    simp only [hsettled] at h
    rw [← (state.sameLogins_settleRead hostUid hsettled).loggedIn]
    exact Core.mem_applyStartInfo h
  | none =>
    simp only [hsettled] at h
    exact .inl h

theorem mem_fetchFulfilled_of_changed (h : state.changedSinceRequest seq db.key = true) :
    db.key ∈ (state.fetchDatabaseStartInfoFulfilled hostUid requestId isBackground payload seq).loggedInDatabases ↔
      db.key ∈ state.loggedInDatabases := by
  unfold Core.fetchDatabaseStartInfoFulfilled
  split
  · rename_i state' hsettled
    have hsame := state.sameLogins_settleRead hostUid hsettled
    rw [← hsame.loggedIn]
    refine Core.mem_applyStartInfo_of_changed ?_
    rwa [Core.changedSinceRequest, hsame.changed]
  · rfl

/-- A response shows only databases whose login has not changed since it was asked for. -/
theorem changed_le_of_fetched (h : db ∈ fetched state hostUid requestId seq payload) :
    (state.loginChangedSeq db.key).getD 0 ≤ seq := by
  unfold fetched at h
  split at h
  · rename_i state' hsettled
    unfold Core.shownBy at h
    split at h
    · split at h
      · have hfresh := (List.mem_filter.1 h).2
        rw [Core.changedSinceRequest, (state.sameLogins_settleRead hostUid hsettled).changed] at hfresh
        simpa using hfresh
      · cases h
    · cases h
  · cases h

end Response

/-! ### Results -/

theorem Inv.result (hinv : Inv s) {core : Core} {ended : Database → Option Nat} {changes : List Database}
    (hchanged : ∀ db : Database, core.loginChangedSeq db.key = noted s.changedAt changes (s.lastSeq + 1) db)
    (hended : ∀ db seq, ended db = some seq → seq = s.lastSeq + 1 ∧ db ∈ changes ∨ s.ended db = some seq) :
    Inv ⟨core, s.lastSeq + 1, ended, noted s.changedAt changes (s.lastSeq + 1)⟩ where
  changed := hchanged
  ended db seq h := by
    rcases hended db seq h with ⟨rfl, hmem⟩ | hold
    · exact ⟨Nat.le_refl _, _, if_pos hmem, Nat.le_refl _⟩
    · obtain ⟨hle, changed, hnoted, hchange⟩ := hinv.ended db seq hold
      refine ⟨Nat.le_succ_of_le hle, ?_⟩
      by_cases hmem : db ∈ changes
      · exact ⟨_, if_pos hmem, Nat.le_succ_of_le hle⟩
      · exact ⟨changed, (if_neg hmem).trans hnoted, hchange⟩

/-- A single login is changed. -/
theorem changed_single (hinv : Inv s) {core : Core} {db : Database}
    (h : core.loginChangedSeq = Function.update s.core.loginChangedSeq db.key (some (s.lastSeq + 1))) (db' : Database) :
    core.loginChangedSeq db'.key = noted s.changedAt [db] (s.lastSeq + 1) db' := by
  rw [h, noted, Function.update_apply]
  by_cases heq : db' = db
  · rw [if_pos (congrArg Database.key heq), if_pos (List.mem_singleton.2 heq)]
  · rw [if_neg fun hkey => heq (Database.key_inj.1 hkey), if_neg fun hmem => heq (List.mem_singleton.1 hmem), hinv.changed]

theorem changed_infoFulfilled (hinv : Inv s) (result : InfoResult) (db : Database) :
    (s.core.infoFulfilled (s.lastSeq + 1) result).loginChangedSeq db.key =
      noted s.changedAt result.changes (s.lastSeq + 1) db := by
  cases result with
  | startDatabase db' response | stopDatabase db' response =>
    refine changed_single hinv ?_ db
    rw [Core.infoFulfilled, Core.loginChangedSeq_pushLoggedIn, Core.loginChangedSeq_applyStartInfo]
  | registerDatabase db' response =>
    refine Eq.trans ?_ (hinv.changed db)
    simp only [Core.infoFulfilled]
    split
    · rw [Core.loginChangedSeq_applyStartInfo]
    · rfl
  | deleteDatabaseProfile db' response =>
    refine changed_single hinv ?_ db
    simp only [Core.infoFulfilled]
    split
    · rw [Core.loginChangedSeq_applyStartInfo, Core.loginChangedSeq_dropLoggedIn]
    · rw [Core.loginChangedSeq_dropLoggedIn]

theorem changed_loginFulfilled (hinv : Inv s) (result : LoginResult) (db : Database) :
    (s.core.loginFulfilled (s.lastSeq + 1) result).loginChangedSeq db.key =
      noted s.changedAt result.changes (s.lastSeq + 1) db := by
  cases result with
  | startAllDatabases hostUid succeeded | stopAllDatabases hostUid succeeded
  | runSelectedDatabasesAction hostUid succeeded =>
    rw [Core.loginFulfilled, Core.loginChangedSeq_markBulk, hinv.changed]
    rfl
  | loginDatabase db' =>
    refine changed_single hinv ?_ db
    rw [Core.loginFulfilled, Core.loginChangedSeq_pushLoggedIn]
  | logoutDatabase db' =>
    refine changed_single hinv ?_ db
    rw [Core.loginFulfilled, Core.loginChangedSeq_dropLoggedIn]

theorem inv_step (hinv : Inv s) (hstep : step s a = some s') : Inv s' := by
  cases a with
  | nextSeq | fetchPending | fetchRejected | localAction | closeHostTabs =>
    exact (fades_step hstep trivial).inv hinv
  | fetchFulfilled hostUid requestId isBackground payload seq =>
    obtain ⟨-, hfulfilled⟩ := Option.ite_none_right_eq_some.1 hstep
    obtain rfl := Option.some.inj hfulfilled
    refine ⟨fun db => ?_, fun db seq' hended => hinv.ended db seq' (stillEnded_eq_some.1 hended).1⟩
    rw [loginChangedSeq_fetchFulfilled]
    exact hinv.changed db
  | infoFulfilled result sentAt =>
    obtain ⟨-, hfulfilled⟩ := Option.ite_none_right_eq_some.1 hstep
    obtain rfl := Option.some.inj hfulfilled
    refine hinv.result (changed_infoFulfilled hinv result) fun db seq hended => ?_
    rcases noted_eq_some (stillEnded_eq_some.1 hended).1 with ⟨hseq, hmem⟩ | ⟨-, hold⟩
    · cases result with
      | deleteDatabaseProfile db' response => exact .inl ⟨hseq, hmem⟩
      | _ => cases hmem
    · exact .inr hold
  | loginFulfilled result sentAt =>
    obtain ⟨-, hfulfilled⟩ := Option.ite_none_right_eq_some.1 hstep
    obtain rfl := Option.some.inj hfulfilled
    refine hinv.result (changed_loginFulfilled hinv result) fun db seq hended => ?_
    cases result with
    | startAllDatabases hostUid succeeded | stopAllDatabases hostUid succeeded
    | runSelectedDatabasesAction hostUid succeeded => exact .inr (stillEnded_eq_some.1 hended).1
    | loginDatabase db' =>
      rw [endedAfter, Function.update_apply] at hended
      exact .inr (Option.ite_none_left_eq_some.1 hended).2
    | logoutDatabase db' => exact (noted_eq_some hended).imp_right And.right
  | clearDatabaseLogin db =>
    obtain rfl := Option.some.inj hstep
    refine hinv.result (changed_single hinv ?_) fun db' seq hended => (noted_eq_some hended).imp_right And.right
    rw [Core.clearDatabaseLogin, Core.loginChangedSeq_dropLoggedIn]

/-! ### Hidden logins -/

/-- A read shows no ended login: its response is older than the end, or it ends the end. -/
theorem hidden_fetchFulfilled (hinv : Inv s) (hhidden : s.EndedHidden) {hostUid : HostUid} {requestId : Nat}
    {isBackground : Bool} {payload : Option StartInfo} {seq : Nat}
    (hstep : step s (.fetchFulfilled hostUid requestId isBackground payload seq) = some s') : s'.EndedHidden := by
  obtain ⟨-, hfulfilled⟩ := Option.ite_none_right_eq_some.1 hstep
  obtain rfl := Option.some.inj hfulfilled
  intro db ended hstill hkey
  obtain ⟨hended, hlate⟩ := stillEnded_eq_some.1 hstill
  rcases mem_fetchFulfilled hkey with hold | hfetched
  · exact hhidden db ended hended hold
  · have hchanged := changed_le_of_fetched hfetched
    obtain ⟨-, changed, hnoted, hle⟩ := hinv.ended db ended hended
    rw [hinv.changed, hnoted] at hchanged
    exact Nat.not_lt_of_le (Nat.le_trans hle hchanged) (hlate hfetched)

theorem keepsChanges_step (hinv : Inv s) (hstep : step s a = some s') : KeepsChanges s a s' := by
  cases a with
  | fetchFulfilled hostUid requestId isBackground payload seq =>
    obtain ⟨-, hfulfilled⟩ := Option.ite_none_right_eq_some.1 hstep
    obtain rfl := Option.some.inj hfulfilled
    intro db changed hnoted hlt
    refine mem_fetchFulfilled_of_changed ?_
    rw [Core.changedSinceRequest, hinv.changed, hnoted]
    exact decide_eq_true hlt
  | _ => trivial

/-- The end of one login hides it. -/
theorem hidden_dropLoggedIn (hhidden : s.EndedHidden) {core : Core} {db : Database}
    (h : core.loggedInDatabases = s.core.loggedInDatabases) (db' : Database) (seq : Nat)
    (hended : noted s.ended [db] (s.lastSeq + 1) db' = some seq) :
    db'.key ∉ (core.dropLoggedIn db.hostUid db.dbname (s.lastSeq + 1)).loggedInDatabases := by
  rw [Core.mem_dropLoggedIn, h]
  rintro ⟨hkey, hne⟩
  rcases noted_eq_some hended with ⟨-, hmem⟩ | ⟨-, hold⟩
  · exact hne (List.mem_singleton.1 hmem)
  · exact hhidden db' seq hold hkey

theorem hidden_infoFulfilled (hhidden : s.EndedHidden) {result : InfoResult} {sentAt : Nat}
    (hstep : step s (.infoFulfilled result sentAt) = some s') : s'.EndedHidden ↔ Ok s (.infoFulfilled result sentAt) := by
  obtain ⟨-, hfulfilled⟩ := Option.ite_none_right_eq_some.1 hstep
  obtain rfl := Option.some.inj hfulfilled
  cases result with
  | startDatabase db response | stopDatabase db response =>
    refine hidden_iff s.core.loggedInDatabases hhidden (fun db' hkey => ?_) fun db' hmem => ?_
    · rcases Core.mem_pushLoggedIn.1 hkey with hresponse | hself
      · exact (Core.mem_applyStartInfo hresponse).imp_right (List.mem_cons_of_mem _)
      · exact .inr (Database.key_inj.1 hself ▸ List.mem_cons_self)
    · rcases List.mem_cons.1 hmem with rfl | hshown
      · exact Core.mem_pushLoggedIn.2 (.inr rfl)
      · exact Core.mem_pushLoggedIn.2 (.inl (Core.mem_applyStartInfo_of_shown hshown))
  | registerDatabase db response =>
    refine hidden_iff s.core.loggedInDatabases hhidden (fun db' hkey => ?_) fun db' hmem => ?_
    · simp only [Core.infoFulfilled] at hkey
      split at hkey
      · exact Core.mem_applyStartInfo hkey
      · exact .inl hkey
    · simp only [Core.infoFulfilled]
      split
      · exact Core.mem_applyStartInfo_of_shown hmem
      · rename_i hnone
        rw [Option.not_isSome_iff_eq_none.1 hnone] at hmem
        cases hmem
  | deleteDatabaseProfile db response =>
    refine hidden_iff _ (hidden_dropLoggedIn hhidden rfl) (fun db' hkey => ?_) fun db' hmem => ?_
    · simp only [Core.infoFulfilled] at hkey
      split at hkey
      · exact Core.mem_applyStartInfo hkey
      · exact .inl hkey
    · simp only [Core.infoFulfilled]
      split
      · exact Core.mem_applyStartInfo_of_shown hmem
      · rename_i hnone
        rw [Option.not_isSome_iff_eq_none.1 hnone] at hmem
        cases hmem

theorem hidden_loginFulfilled (hhidden : s.EndedHidden) {result : LoginResult} {sentAt : Nat}
    (hstep : step s (.loginFulfilled result sentAt) = some s') :
    s'.EndedHidden ↔ Ok s (.loginFulfilled result sentAt) := by
  obtain ⟨-, hfulfilled⟩ := Option.ite_none_right_eq_some.1 hstep
  obtain rfl := Option.some.inj hfulfilled
  cases result with
  | startAllDatabases hostUid succeeded | stopAllDatabases hostUid succeeded
  | runSelectedDatabasesAction hostUid succeeded =>
    exact hidden_iff _ hhidden (fun _ => Core.mem_markBulkSucceededLoggedIn.1)
      fun _ hmem => Core.mem_markBulkSucceededLoggedIn.2 (.inr hmem)
  | loginDatabase db =>
    refine iff_of_true (fun db' seq hended hkey => ?_) nofun
    simp only [endedAfter, Function.update_apply] at hended
    obtain ⟨hne, hold⟩ := Option.ite_none_left_eq_some.1 hended
    rcases Core.mem_pushLoggedIn.1 hkey with hbefore | hself
    · exact hhidden db' seq hold hbefore
    · exact hne (Database.key_inj.1 hself)
  | logoutDatabase db => exact iff_of_true (hidden_dropLoggedIn hhidden rfl) nofun

theorem hidden_step (hinv : Inv s) (hhidden : s.EndedHidden) (hstep : step s a = some s') :
    s'.EndedHidden ↔ Ok s a := by
  cases a with
  | nextSeq | fetchPending | fetchRejected | localAction | closeHostTabs =>
    exact iff_of_true ((fades_step hstep trivial).hidden hhidden) trivial
  | fetchFulfilled hostUid requestId isBackground payload seq =>
    exact iff_of_true (hidden_fetchFulfilled hinv hhidden hstep) trivial
  | infoFulfilled result sentAt => exact hidden_infoFulfilled hhidden hstep
  | loginFulfilled result sentAt => exact hidden_loginFulfilled hhidden hstep
  | clearDatabaseLogin db =>
    obtain rfl := Option.some.inj hstep
    exact iff_of_true (hidden_dropLoggedIn hhidden rfl) trivial

end Steps

/-! ### Runs -/

/-- In a run no ended login is ever shown, exactly when no result of an action shows a login that was ended after the
action was sent; and no read ever undoes a change of a login that is newer than the read. -/
theorem padlock (as : List Act) (s : State) (hrun : Run step Always State.initialState as s) :
    ((∀ bs s₁, bs <+: as → Run step Always State.initialState bs s₁ → s₁.EndedHidden) ↔
      Run step Ok State.initialState as s) ∧
    ∀ a s', step s a = some s' → KeepsChanges s a s' := by
  have hinv : ∀ {bs s₁}, Run step Always State.initialState bs s₁ → Inv s₁ := fun hrun₁ =>
    hrun₁.invariant (fun _ _ _ h _ => inv_step h) .initialState
  refine ⟨?_, fun a s' => keepsChanges_step (hinv hrun)⟩
  have hprefixes : (∀ bs s₁, bs <+: as → Run step Always State.initialState bs s₁ → Inv s₁ ∧ s₁.EndedHidden) ↔
      Run step Ok State.initialState as s :=
    hrun.prefixes_iff (fun _ _ _ h hstep => (and_iff_right (inv_step h.1 hstep)).trans (hidden_step h.1 h.2 hstep))
      ⟨.initialState, nofun⟩
  refine Iff.trans ⟨fun h bs s₁ hbs hrun₁ => ⟨hinv hrun₁, h bs s₁ hbs hrun₁⟩, fun h bs s₁ hbs hrun₁ => ?_⟩ hprefixes
  exact (h bs s₁ hbs hrun₁).2

private def demodb : Database := ⟨⟨"h1".toList, by decide, by decide⟩, "demodb".toList, by decide⟩

/-- A start that is sent after the logout shows the login again. -/
theorem padlock_restarted : ∃ as s, demodb.key ∈ s.core.loggedInDatabases ∧
    Run step Always State.initialState as s ∧
    ∀ bs s₁, bs <+: as → Run step Always State.initialState bs s₁ → s₁.EndedHidden := by
  obtain ⟨s, hok, hshown⟩ : ∃ s, Run step Ok State.initialState
      [.loginFulfilled (.loginDatabase demodb) 0, .loginFulfilled (.logoutDatabase demodb) 1,
        .infoFulfilled (.startDatabase demodb none) 2] s ∧ demodb.key ∈ s.core.loggedInDatabases :=
    exists_run (by decide)
  have hrun : Run step Always State.initialState _ s := hok.mono fun _ _ _ => trivial
  exact ⟨_, s, hshown, hrun, (padlock _ s hrun).1.2 hok⟩

/-- A start is sent, its database is logged out, and then the start returns. -/
theorem padlock_shown : ∃ as s, Run step Always State.initialState as s ∧ s.ended demodb = some 2 ∧
    demodb.key ∈ s.core.loggedInDatabases := by
  obtain ⟨s, hrun, hs⟩ : ∃ s, Run step Always State.initialState
      [.loginFulfilled (.loginDatabase demodb) 0, .loginFulfilled (.logoutDatabase demodb) 1,
        .infoFulfilled (.startDatabase demodb none) 1] s ∧
      (s.ended demodb = some 2 ∧ demodb.key ∈ s.core.loggedInDatabases) := exists_run (by decide)
  exact ⟨_, s, hrun, hs⟩

end Padlock

end CubridWebManager.DatabaseCore
