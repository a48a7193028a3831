import CubridWebManager.DatabaseCore.Slice

/-!
# The logins

What the reducers of `databaseCoreSlice` do to the databases that are shown as logged in.  A response adds only what it
reports and removes nothing whose login changed after it was read (`mem_syncLoggedInFromStartInfo`,
`mem_sync_of_changed`).
-/

namespace CubridWebManager.DatabaseCore

/-! ### Keys -/

/-- The uid is read back from a key. -/
theorem takeWhile_dbKey (hostUid : HostUid) (dbname : Text) : (dbKey hostUid dbname).takeWhile (· ≠ ':') = hostUid.uid := by
  have huid : ∀ c ∈ hostUid.uid, decide (c ≠ ':') = true := fun c hc =>
    decide_eq_true fun heq => hostUid.colon_notMem (heq ▸ hc)
  rw [dbKey, List.takeWhile_append_of_pos huid]
  simp

theorem dbKey_inj {hostUid hostUid' : HostUid} {dbname dbname' : Text} :
    dbKey hostUid dbname = dbKey hostUid' dbname' ↔ hostUid = hostUid' ∧ dbname = dbname' := by
  constructor
  · intro h
    have huid : hostUid.uid = hostUid'.uid := by rw [← takeWhile_dbKey hostUid dbname, h, takeWhile_dbKey]
    rw [dbKey, dbKey, huid] at h
    exact ⟨by cases hostUid; cases hostUid'; cases huid; rfl, (List.cons.inj (List.append_cancel_left h)).2⟩
  · rintro ⟨rfl, rfl⟩
    rfl

theorem Database.key_inj {db db' : Database} : db.key = db'.key ↔ db = db' := by
  refine ⟨fun h => ?_, fun h => h ▸ rfl⟩
  obtain ⟨hhost, hname⟩ := dbKey_inj.1 h
  cases db
  cases db'
  cases hhost
  cases hname
  rfl

/-- The databases of a host with these names. -/
def databasesOf (hostUid : HostUid) (names : List Text) : List Database :=
  names.filterMap fun dbname => if h : dbname ≠ [] then some ⟨hostUid, dbname, h⟩ else none

theorem mem_databasesOf {hostUid : HostUid} {names : List Text} {db : Database} :
    db ∈ databasesOf hostUid names ↔ db.key ∈ names.map (dbKey hostUid) := by
  rw [databasesOf, List.mem_filterMap, List.mem_map]
  constructor
  · rintro ⟨dbname, hmem, hsome⟩
    split at hsome
    · obtain rfl := Option.some.inj hsome
      exact ⟨dbname, hmem, rfl⟩
    · cases hsome
  · rintro ⟨dbname, hmem, hkey⟩
    obtain ⟨rfl, rfl⟩ := dbKey_inj.1 hkey
    exact ⟨db.dbname, hmem, dif_pos db.dbname_ne⟩

theorem mem_pushKey {keys : List Text} {key key' : Text} : key' ∈ pushKey keys key ↔ key' ∈ keys ∨ key' = key := by
  unfold pushKey
  split
  · rename_i hthere
    refine ⟨.inl, ?_⟩
    rintro (hold | rfl)
    · exact hold
    · simpa using hthere
  · simp

theorem mem_foldl_pushKey {keys added : List Text} {key : Text} :
    key ∈ added.foldl pushKey keys ↔ key ∈ keys ∨ key ∈ added := by
  induction added generalizing keys with
  | nil => simp
  | cons key' added ih => rw [List.foldl_cons, ih, mem_pushKey, List.mem_cons, or_assoc]

/-! ### What leaves the logins alone -/

namespace Core

/-- The logins of the two states are the same. -/
structure SameLogins (state state' : Core) : Prop where
  loggedIn : state'.loggedInDatabases = state.loggedInDatabases
  loggingIn : state'.loggingInDatabases = state.loggingInDatabases
  changed : state'.loginChangedSeq = state.loginChangedSeq

namespace SameLogins

variable {state state' state'' : Core}

theorem refl (state : Core) : state.SameLogins state := ⟨rfl, rfl, rfl⟩

theorem trans (h : state.SameLogins state') (h' : state'.SameLogins state'') : state.SameLogins state'' :=
  ⟨h'.loggedIn.trans h.loggedIn, h'.loggingIn.trans h.loggingIn, h'.changed.trans h.changed⟩

end SameLogins

variable (state : Core) (hostUid : HostUid) (seq : Nat) (updateLive updateNavigator : Bool)

theorem sameLogins_checkSelected : state.SameLogins (state.checkSelected hostUid) := by
  simp only [checkSelected]
  split
  · exact ⟨rfl, rfl, rfl⟩
  · exact .refl state

theorem sameLogins_setHaDbNames (haDbNames : Option (List Text)) :
    state.SameLogins (state.setHaDbNames hostUid haDbNames) := by
  cases haDbNames <;> exact ⟨rfl, rfl, rfl⟩

theorem sameLogins_settleRead {requestId : Nat} {state' : Core} (h : state.settleRead hostUid requestId = some state') :
    state.SameLogins state' := by
  unfold settleRead at h
  split at h
  · obtain rfl := Option.some.inj h
    exact ⟨rfl, rfl, rfl⟩
  · cases h

theorem sameLogins_fetchDatabaseStartInfoRejected (requestId : Nat) (isBackground : Bool) :
    state.SameLogins (state.fetchDatabaseStartInfoRejected hostUid requestId isBackground seq) := by
  unfold fetchDatabaseStartInfoRejected
  split
  · rename_i state' hsettled
    have hsame := state.sameLogins_settleRead hostUid hsettled
    cases isBackground with
    | true => exact hsame
    | false => exact hsame.trans ⟨rfl, rfl, rfl⟩
  · exact .refl state

/-! ### Responses -/

section Sync

variable {payload : StartInfo} {key : Text}

theorem mem_syncLoggedInFromStartInfo (h : key ∈ (state.syncLoggedInFromStartInfo payload hostUid seq).loggedInDatabases) :
    key ∈ state.loggedInDatabases ∨
      key ∈ payload.loggedIn.map (dbKey hostUid) ∧ state.changedSinceRequest seq key = false := by
  simp only [syncLoggedInFromStartInfo] at h
  split at h
  · exact .inl h
  · rcases mem_foldl_pushKey.1 h with hkept | hreported
    · exact .inl (List.mem_of_mem_filter hkept)
    · obtain ⟨hmem, hfresh⟩ := List.mem_filter.1 hreported
      exact .inr ⟨hmem, by simpa using hfresh⟩

/-- A login that changed since is left as it is. -/
theorem mem_sync_of_changed (h : state.changedSinceRequest seq key = true) :
    key ∈ (state.syncLoggedInFromStartInfo payload hostUid seq).loggedInDatabases ↔ key ∈ state.loggedInDatabases := by
  constructor
  · intro hmem
    rcases state.mem_syncLoggedInFromStartInfo hostUid seq hmem with hold | ⟨-, hfresh⟩
    · exact hold
    · rw [h] at hfresh
      cases hfresh
  · intro hmem
    simp only [syncLoggedInFromStartInfo]
    split
    · exact hmem
    · refine mem_foldl_pushKey.2 (.inl (List.mem_filter.2 ⟨hmem, ?_⟩))
      rw [h, Bool.or_true]

/-- What is reported is shown, unless it changed since. -/
theorem mem_sync_of_reported (hmem : key ∈ payload.loggedIn.map (dbKey hostUid))
    (h : state.changedSinceRequest seq key = false) :
    key ∈ (state.syncLoggedInFromStartInfo payload hostUid seq).loggedInDatabases := by
  simp only [syncLoggedInFromStartInfo]
  split
  · rename_i hempty
    rw [StartInfo.loggedIn, List.isEmpty_iff.1 hempty] at hmem
    cases hmem
  · exact mem_foldl_pushKey.2 (.inr (List.mem_filter.2 ⟨hmem, by rw [h]; rfl⟩))

end Sync

/-- The logins after a response, which only the live view's responses touch. -/
def syncedWith (payload : Option StartInfo) : Core :=
  match payload with
  | some payload =>
    if state.newerThanLive hostUid seq then state.syncLoggedInFromStartInfo payload hostUid seq else state
  | none => state

theorem SameLogins.sync {state state' : Core} (h : state.SameLogins state') (payload : StartInfo) (hostUid : HostUid)
    (seq : Nat) : (state.syncLoggedInFromStartInfo payload hostUid seq).SameLogins
      (state'.syncLoggedInFromStartInfo payload hostUid seq) := by
  simp only [syncLoggedInFromStartInfo, changedSinceRequest]
  split
  · exact h
  · exact ⟨by simp only [h.loggedIn, h.loggingIn, h.changed], h.loggingIn, h.changed⟩

theorem sameLogins_parseDbResponse (payload : StartInfo) : (if updateLive then
    state.syncLoggedInFromStartInfo payload hostUid seq else state).SameLogins
      (state.parseDbResponse (some payload) hostUid updateLive updateNavigator seq) := by
  simp only [parseDbResponse]
  have hactive : ∀ state : Core, state.SameLogins (if payload.active.isSome then
      state.setActive hostUid updateLive updateNavigator payload.activeNames else state) := fun state => by
    split <;> exact ⟨rfl, rfl, rfl⟩
  have hdbs : ∀ (state : Core) names, state.SameLogins (if payload.dbs.isSome then
      state.setDatabases hostUid updateLive updateNavigator (payload.mergedList names) else state) := fun state names => by
    split <;> exact ⟨rfl, rfl, rfl⟩
  have hselected : ∀ state : Core, state.SameLogins (if dbsFound payload.dbs then state.checkSelected hostUid
      else state) := fun state => by
    split
    · exact state.sameLogins_checkSelected hostUid
    · exact .refl state
  have hlists := ((hactive state).trans (hdbs _ (if payload.active.isSome then payload.activeNames
    else ((if payload.active.isSome then state.setActive hostUid updateLive updateNavigator payload.activeNames
      else state).activeDatabasesByHost hostUid).getD []))).trans (hselected _)
  cases updateLive with
  | true => exact (hlists.sync payload hostUid seq).trans (sameLogins_setHaDbNames ..)
  | false => exact hlists

theorem sameLogins_applyStartInfo (payload : Option StartInfo) (isBackground : Bool) :
    (state.syncedWith hostUid seq payload).SameLogins (state.applyStartInfo hostUid payload seq isBackground) := by
  simp only [applyStartInfo]
  cases payload with
  | none =>
    split <;> exact ⟨rfl, rfl, rfl⟩
  | some payload =>
    simp only [syncedWith]
    generalize state.newerThanLive hostUid seq = updateLive
    generalize (!isBackground && state.newerThanNavigator hostUid seq) = updateNavigator
    have hparsed := (state.claim hostUid updateLive updateNavigator seq).sameLogins_parseDbResponse hostUid seq updateLive
      updateNavigator payload
    have hclaim : state.SameLogins (state.claim hostUid updateLive updateNavigator seq) := ⟨rfl, rfl, rfl⟩
    cases updateLive with
    | true => exact (hclaim.sync payload hostUid seq).trans hparsed
    | false =>
      cases updateNavigator with
      | true => exact hclaim.trans hparsed
      | false => exact hclaim

/-- The databases that a response newly shows as logged in. -/
def shownBy (payload : Option StartInfo) : List Database :=
  match payload with
  | some payload =>
    if state.newerThanLive hostUid seq then
      (databasesOf hostUid payload.loggedIn).filter fun db => !state.changedSinceRequest seq db.key
    else []
  | none => []

variable {state hostUid seq} {payload : Option StartInfo} {isBackground : Bool} {db : Database}

theorem loginChangedSeq_applyStartInfo :
    (state.applyStartInfo hostUid payload seq isBackground).loginChangedSeq = state.loginChangedSeq := by
  rw [(state.sameLogins_applyStartInfo hostUid seq payload isBackground).changed]
  unfold syncedWith
  split
  · split
    · simp only [syncLoggedInFromStartInfo]
      split <;> rfl
    · rfl
  · rfl

theorem mem_applyStartInfo (h : db.key ∈ (state.applyStartInfo hostUid payload seq isBackground).loggedInDatabases) :
    db.key ∈ state.loggedInDatabases ∨ db ∈ state.shownBy hostUid seq payload := by
  rw [(state.sameLogins_applyStartInfo hostUid seq payload isBackground).loggedIn] at h
  unfold syncedWith at h
  unfold shownBy
  split at h
  · split at h
    · rename_i hlive
      rw [if_pos hlive, List.mem_filter, mem_databasesOf]
      exact (state.mem_syncLoggedInFromStartInfo hostUid seq h).imp_right fun ⟨hmem, hfresh⟩ => ⟨hmem, by rw [hfresh]; rfl⟩
    · exact .inl h
  · exact .inl h

theorem mem_applyStartInfo_of_shown (h : db ∈ state.shownBy hostUid seq payload) :
    db.key ∈ (state.applyStartInfo hostUid payload seq isBackground).loggedInDatabases := by
  rw [(state.sameLogins_applyStartInfo hostUid seq payload isBackground).loggedIn]
  unfold shownBy at h
  unfold syncedWith
  split at h
  · split at h
    · rename_i hlive
      obtain ⟨hmem, hfresh⟩ := List.mem_filter.1 h
      rw [if_pos hlive]
      exact state.mem_sync_of_reported hostUid seq (mem_databasesOf.1 hmem) (by simpa using hfresh)
    · cases h
  · cases h

theorem mem_applyStartInfo_of_changed (h : state.changedSinceRequest seq db.key = true) :
    db.key ∈ (state.applyStartInfo hostUid payload seq isBackground).loggedInDatabases ↔
      db.key ∈ state.loggedInDatabases := by
  rw [(state.sameLogins_applyStartInfo hostUid seq payload isBackground).loggedIn]
  unfold syncedWith
  split
  · split
    · exact state.mem_sync_of_changed hostUid seq h
    · rfl
  · rfl

/-! ### Results -/

theorem loginChangedSeq_pushLoggedIn {db' : Database} : (state.pushLoggedIn db'.hostUid db'.dbname seq).loginChangedSeq =
    Function.update state.loginChangedSeq db'.key (some seq) := by
  rw [pushLoggedIn, noteLoginChange, if_neg db'.dbname_ne]
  rfl

theorem loginChangedSeq_dropLoggedIn {db' : Database} : (state.dropLoggedIn db'.hostUid db'.dbname seq).loginChangedSeq =
    Function.update state.loginChangedSeq db'.key (some seq) := by
  rw [dropLoggedIn, noteLoginChange, if_neg db'.dbname_ne]
  rfl

theorem loggedIn_noteLoginChange {dbname : Text} :
    (state.noteLoginChange hostUid dbname seq).loggedInDatabases = state.loggedInDatabases := by
  unfold noteLoginChange
  split <;> rfl

theorem mem_pushLoggedIn {dbname : Text} : db.key ∈ (state.pushLoggedIn hostUid dbname seq).loggedInDatabases ↔
    db.key ∈ state.loggedInDatabases ∨ db.key = dbKey hostUid dbname := by
  rw [pushLoggedIn, loggedIn_noteLoginChange]
  exact mem_pushKey

theorem mem_dropLoggedIn {db' : Database} : db.key ∈ (state.dropLoggedIn db'.hostUid db'.dbname seq).loggedInDatabases ↔
    db.key ∈ state.loggedInDatabases ∧ db ≠ db' := by
  rw [dropLoggedIn, loggedIn_noteLoginChange, List.mem_filter, decide_eq_true_iff, ne_eq, ne_eq, ← Database.key_inj]
  rfl

theorem mem_markBulkSucceededLoggedIn {succeeded : Option (List Text)} :
    db.key ∈ (state.markBulkSucceededLoggedIn hostUid succeeded seq).loggedInDatabases ↔
      db.key ∈ state.loggedInDatabases ∨ db ∈ databasesOf hostUid (succeeded.getD []) := by
  rw [mem_databasesOf]
  unfold markBulkSucceededLoggedIn
  induction succeeded.getD [] generalizing state with
  | nil => simp
  | cons dbname names ih =>
    rw [List.foldl_cons, ih, mem_pushLoggedIn, or_assoc, List.map_cons, List.mem_cons]

theorem loginChangedSeq_markBulk {succeeded : Option (List Text)} :
    (state.markBulkSucceededLoggedIn hostUid succeeded seq).loginChangedSeq db.key =
      if db ∈ databasesOf hostUid (succeeded.getD []) then some seq else state.loginChangedSeq db.key := by
  simp only [mem_databasesOf]
  unfold markBulkSucceededLoggedIn
  induction succeeded.getD [] generalizing state with
  | nil => simp
  | cons dbname names ih =>
    rw [List.foldl_cons, ih]
    have hpush : (state.pushLoggedIn hostUid dbname seq).loginChangedSeq db.key =
        if db.key = dbKey hostUid dbname then some seq else state.loginChangedSeq db.key := by
      rw [pushLoggedIn, noteLoginChange]
      split
      · rename_i hempty
        have hne : db.key ≠ dbKey hostUid dbname := fun hkey => db.dbname_ne ((dbKey_inj.1 hkey).2.trans hempty)
        rw [if_neg hne]
      · simp [Function.update_apply]
    rw [hpush]
    by_cases hthere : db.key ∈ names.map (dbKey hostUid) <;> by_cases heq : db.key = dbKey hostUid dbname <;>
      simp [hthere, heq]

end Core

end CubridWebManager.DatabaseCore
