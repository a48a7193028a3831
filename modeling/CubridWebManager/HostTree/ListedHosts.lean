import CubridWebManager.HostTree.HostSlice

/-!
# Only hosts in the list are named

`NamesHosts` says that what the client knows of single hosts is about hosts in its list, and that a selected host is one
of them.  Every step keeps it just when the step is `InTime`: what is known of the hosts may stay behind the list where
an answer about one host comes late, and the selection where a list is fetched.
-/

namespace CubridWebManager.HostTree

open Transition

variable {HaInfo Env : Type}

/-- What is known of single hosts is about hosts in the list. -/
structure NamesMaps (s : State HaInfo Env) : Prop where
  authorizedHosts : ∀ uid ∈ s.authorizedHosts, uid ∈ s.uids
  haInfo : ∀ uid ∈ s.haInfo.keys, uid ∈ s.uids
  hostEnvs : ∀ uid ∈ s.hostEnvs.keys, uid ∈ s.uids
  hostAuthErrors : ∀ uid ∈ s.hostAuthErrors.keys, uid ∈ s.uids

structure NamesHosts (s : State HaInfo Env) : Prop extends NamesMaps s where
  selectedHostUid : ∀ uid ∈ s.selectedHostUid, uid ∈ s.uids

/-- The selected host is in the new list. -/
def KeepsSelected (s : State HaInfo Env) (hostGroups : HostGroups) : Prop :=
  ∀ uid ∈ s.selectedHostUid, uid ∈ (flattenHostsFromGroups hostGroups).map Host.uid

instance (s : State HaInfo Env) (hostGroups : HostGroups) : Decidable (KeepsSelected s hostGroups) :=
  inferInstanceAs (Decidable (∀ uid ∈ s.selectedHostUid, _))

/-- A list that is fetched, or that an edited or a new host brings, has the selected host, unless the new one is
selected instead; and an answer about one host comes while the host is in the list. -/
def InTime (s : State HaInfo Env) : Act HaInfo Env → Prop
  | .settled request answer _ =>
    match request, answer with
    | .fetchHosts, .hostGroups hostGroups _ | .editHost _, .hostGroups hostGroups _ => KeepsSelected s hostGroups
    | .addHost, .hostGroups hostGroups _ =>
      (newHost s hostGroups).isSome ∧ s.skipAutoHostLogin = false ∨ KeepsSelected s hostGroups
    | .loginToHost hostUid, .haInfo _ | .loginToHost hostUid, .rejected _ | .refreshHaInfo hostUid, .haInfo _
    | .fetchHostEnv hostUid, .env _ | .fetchHostEnv hostUid, .rejected _ => hostUid ∈ s.uids
    | _, _ => True
  | _ => True

instance (s : State HaInfo Env) (a : Act HaInfo Env) : Decidable (InTime s a) := by
  unfold InTime
  split
  · split <;> infer_instance
  · infer_instance

variable {s s' : State HaInfo Env} {hostUid uid : String} {hostGroups : HostGroups} {uids : List String}

/-! ### The helpers of the reducers -/

theorem mem_addUid : uid ∈ addUid hostUid uids ↔ uid ∈ uids ∨ uid = hostUid := by
  unfold addUid
  split
  · rename_i hmem
    refine ⟨.inl, ?_⟩
    rintro (h | rfl)
    · exact h
    · exact hmem
  · rw [List.mem_append, List.mem_singleton]

/-- Less is known of the same hosts. -/
theorem NamesMaps.mono (h : NamesMaps s) (huids : s'.uids = s.uids)
    (hauthorized : s'.authorizedHosts ⊆ s.authorizedHosts) (hhaInfo : s'.haInfo.keys ⊆ s.haInfo.keys)
    (hhostEnvs : s'.hostEnvs.keys ⊆ s.hostEnvs.keys) (herrors : s'.hostAuthErrors.keys ⊆ s.hostAuthErrors.keys) : NamesMaps s' := by
  refine ⟨fun uid huid => ?_, fun uid huid => ?_, fun uid huid => ?_, fun uid huid => ?_⟩ <;> rw [huids]
  · exact h.authorizedHosts uid (hauthorized huid)
  · exact h.haInfo uid (hhaInfo huid)
  · exact h.hostEnvs uid (hhostEnvs huid)
  · exact h.hostAuthErrors uid (herrors huid)

theorem mem_of_mem_filter_keys {α : Type} {d : Dict String α} (h : uid ∈ (d.filter fun uid _ => uid ∈ uids).keys) :
    uid ∈ uids := by
  obtain ⟨e, he, rfl⟩ := List.mem_map.1 h
  exact of_decide_eq_true (List.mem_filter.1 he).2

/-- A new list takes everything away that is about other hosts. -/
theorem namesMaps_apply (s : State HaInfo Env) (hostGroups : HostGroups) :
    NamesMaps (applyHostGroupsResponse s hostGroups) := by
  refine ⟨fun uid huid => ?_, fun uid => mem_of_mem_filter_keys, fun uid => mem_of_mem_filter_keys,
    fun uid => mem_of_mem_filter_keys⟩
  exact of_decide_eq_true (List.mem_filter.1 huid).2

theorem NamesMaps.purge (h : NamesMaps s) (hostUid : String) : NamesMaps (purgeHostClientState s hostUid) :=
  h.mono rfl List.filter_sublist.subset (Dict.keys_filter_subset _ _) (Dict.keys_filter_subset _ _)
    (Dict.keys_filter_subset _ _)

theorem NamesHosts.purge (h : NamesHosts s) (hostUid : String) : NamesHosts (purgeHostClientState s hostUid) :=
  ⟨h.toNamesMaps.purge hostUid, h.selectedHostUid⟩

theorem clearHostLoginError_eq (s : State HaInfo Env) (hostUid : String) : ∃ error loginErrorHostUid,
    clearHostLoginError s hostUid = { s with
      error, loginErrorHostUid, hostAuthErrors := (clearHostLoginError s hostUid).hostAuthErrors } ∧
      (clearHostLoginError s hostUid).hostAuthErrors.keys ⊆ s.hostAuthErrors.keys := by
  unfold clearHostLoginError
  split
  · exact ⟨_, _, rfl, List.Subset.refl _⟩
  · exact ⟨_, _, rfl, Dict.keys_filter_subset _ _⟩

theorem NamesHosts.clearHostLoginError (h : NamesHosts s) (hostUid : String) :
    NamesHosts (clearHostLoginError s hostUid) := by
  obtain ⟨error, loginErrorHostUid, heq, hkeys⟩ := clearHostLoginError_eq s hostUid
  rw [heq]
  exact ⟨h.toNamesMaps.mono rfl (List.Subset.refl _) (List.Subset.refl _) (List.Subset.refl _) hkeys, h.selectedHostUid⟩

/-! ### The selection -/

theorem syncSelectedHost_eq (s : State HaInfo Env) : ∃ selectedHostUid selectedGroupUid,
    syncSelectedHost s = { s with selectedHostUid, selectedGroupUid } ∧
      ∀ uid ∈ selectedHostUid, s.selectedHostUid = some uid ∧
        (uid = "" ∨ ∃ groupId, findGroupIdForHost s.hostGroups uid = some groupId) := by
  unfold syncSelectedHost
  split
  · dsimp only
    split
    · rename_i hgroup
      refine ⟨_, _, rfl, fun uid huid => ⟨huid, .inr ?_⟩⟩
      obtain ⟨groupId, hgroupId, -⟩ := (Option.any_eq_true _ _).1 hgroup
      obtain ⟨uid', huid', hfound⟩ := Option.bind_eq_some_iff.1 hgroupId
      obtain rfl : uid = uid' := Option.some.inj (huid.symm.trans huid')
      exact ⟨groupId, hfound⟩
    · exact ⟨none, _, rfl, nofun⟩
  · rename_i hselected
    refine ⟨_, _, rfl, fun uid huid => ⟨huid, .inl ?_⟩⟩
    by_contra hne
    exact hselected ((Option.any_eq_true _ _).2 ⟨uid, huid, decide_eq_true hne⟩)

/-- The selected host is as before, or none is selected. -/
theorem syncHostSelection_eq (s : State HaInfo Env) : ∃ selectedHostUid selectedGroupUid,
    syncHostSelection s = { s with selectedHostUid, selectedGroupUid } ∧
      ∀ uid ∈ selectedHostUid, s.selectedHostUid = some uid ∧
        (uid = "" ∨ ∃ groupId, findGroupIdForHost s.hostGroups uid = some groupId) := by
  obtain ⟨selectedHostUid, selectedGroupUid, heq, hselected⟩ := syncSelectedHost_eq s
  unfold syncHostSelection
  rw [heq]
  dsimp only
  split
  · exact ⟨_, _, rfl, hselected⟩
  · exact ⟨_, _, rfl, hselected⟩

/-- After a selection is brought in line with the list, it is in the list. -/
theorem NamesMaps.sync (h : NamesMaps s) (hhosts : s.hosts = flattenHostsFromGroups s.hostGroups)
    (hkeyed : Keyed s.hostGroups) (hne : s.selectedHostUid ≠ some "") : NamesHosts (syncHostSelection s) := by
  obtain ⟨selectedHostUid, selectedGroupUid, heq, hselected⟩ := syncHostSelection_eq s
  rw [heq]
  refine ⟨⟨h.authorizedHosts, h.haInfo, h.hostEnvs, h.hostAuthErrors⟩, fun uid huid => ?_⟩
  obtain ⟨hsame, rfl | ⟨groupId, hgroup⟩⟩ := hselected uid huid
  · exact absurd hsame hne
  · obtain ⟨host, hmem, rfl⟩ := mem_flattenHosts hkeyed hgroup
    refine List.mem_map_of_mem ?_
    rw [← hhosts] at hmem
    exact hmem

/-! ### Answers with a new list -/

/-- No uid in the list is empty. -/
def Named (s : State HaInfo Env) : Prop := ∀ uid ∈ s.uids, uid ≠ ""

theorem named_of_hosts (hhosts : s.hosts = flattenHostsFromGroups hostGroups) (hkeyed : Keyed hostGroups) :
    Named s := by
  intro uid huid
  rw [State.uids, hhosts] at huid
  obtain ⟨host, hhost, rfl⟩ := List.mem_map.1 huid
  obtain ⟨e, he, hhost⟩ := List.mem_flatMap.1 hhost
  obtain ⟨e', he', rfl⟩ := List.mem_map.1 hhost
  rw [(hkeyed e he e' he').1]
  exact (hkeyed e he e' he').2

theorem NamesHosts.selected_ne (h : NamesHosts s) (hnamed : Named s) : s.selectedHostUid ≠ some "" :=
  fun hempty => hnamed "" (h.selectedHostUid "" hempty) rfl

theorem namesHosts_iff_keepsSelected (hmaps : NamesMaps s') (hhosts : s'.hosts = flattenHostsFromGroups hostGroups)
    (hselected : s'.selectedHostUid = s.selectedHostUid) : NamesHosts s' ↔ KeepsSelected s hostGroups := by
  have huids : s'.uids = (flattenHostsFromGroups hostGroups).map Host.uid := by rw [State.uids, hhosts]
  constructor
  · intro h uid huid
    rw [← huids]
    exact h.selectedHostUid uid (hselected.trans huid)
  · refine fun h => ⟨hmaps, fun uid huid => ?_⟩
    rw [huids]
    exact h uid (hselected.symm.trans huid)

theorem mem_foldl_addUid {hosts : List Host} {p : Host → Bool}
    (h : uid ∈ hosts.foldl (fun uids host => if p host then addUid host.uid uids else uids) uids) :
    uid ∈ uids ∨ uid ∈ hosts.map Host.uid := by
  induction hosts generalizing uids with
  | nil => exact .inl h
  | cons host hosts ih =>
    rw [List.map_cons, List.mem_cons]
    rcases ih h with hmem | hmem
    · dsimp only at hmem
      split at hmem
      · rcases mem_addUid.1 hmem with hmem | rfl
        · exact .inl hmem
        · exact .inr (.inl rfl)
      · exact .inl hmem
    · exact .inr (.inr hmem)

theorem namesMaps_fetchHosts (s : State HaInfo Env) (hostGroups : HostGroups) (now : Nat) :
    NamesMaps (fetchHostsFulfilled s hostGroups now) := by
  have h := namesMaps_apply s hostGroups
  unfold fetchHostsFulfilled
  dsimp only
  split
  · exact h
  · refine ⟨fun uid huid => ?_, h.haInfo, h.hostEnvs, h.hostAuthErrors⟩
    rcases mem_foldl_addUid huid with hmem | hmem
    · exact h.authorizedHosts uid hmem
    · exact hmem

theorem fetchHosts_fields (s : State HaInfo Env) (hostGroups : HostGroups) (now : Nat) :
    (fetchHostsFulfilled s hostGroups now).hosts = flattenHostsFromGroups hostGroups ∧
      (fetchHostsFulfilled s hostGroups now).selectedHostUid = s.selectedHostUid := by
  unfold fetchHostsFulfilled
  dsimp only
  split
  · exact ⟨rfl, rfl⟩
  · exact ⟨rfl, rfl⟩

/-- The new host is selected, or the selection stays. -/
theorem addHost_cases (s : State HaInfo Env) (hostGroups : HostGroups) :
    ∃ hostsAwaitingHaLogin selectedHostUid selectedGroupUid,
      addHostFulfilled s hostGroups = { applyHostGroupsResponse s hostGroups with
        hostsAwaitingHaLogin, selectedHostUid, selectedGroupUid } ∧
      if (newHost s hostGroups).isSome ∧ s.skipAutoHostLogin = false then
        ∃ host ∈ flattenHostsFromGroups hostGroups, selectedHostUid = some host.uid
      else selectedHostUid = s.selectedHostUid := by
  unfold addHostFulfilled
  dsimp only
  split
  · rename_i hnew
    refine ⟨_, _, _, rfl, ?_⟩
    rw [hnew, if_neg (by simp)]
  · rename_i host hnew
    split
    · rename_i hskip
      refine ⟨_, _, _, rfl, ?_⟩
      have hskip' : s.skipAutoHostLogin = true := hskip
      rw [hskip', if_neg (by simp)]
      rfl
    · rename_i hskip
      refine ⟨_, _, _, rfl, ?_⟩
      have hskip' : s.skipAutoHostLogin = false := Bool.eq_false_iff.2 hskip
      rw [if_pos ⟨by rw [hnew]; rfl, hskip'⟩]
      exact ⟨host, List.mem_of_find?_eq_some hnew, rfl⟩

theorem addHost_iff (s : State HaInfo Env) (hostGroups : HostGroups) : NamesHosts (addHostFulfilled s hostGroups) ↔
    (newHost s hostGroups).isSome ∧ s.skipAutoHostLogin = false ∨ KeepsSelected s hostGroups := by
  have hmaps := namesMaps_apply s hostGroups
  obtain ⟨awaiting, selected, group, heq, hselected⟩ := addHost_cases s hostGroups
  rw [heq]
  split at hselected
  · rename_i hnew
    refine ⟨fun _ => .inl hnew, fun _ => ?_⟩
    obtain ⟨host, hhost, rfl⟩ := hselected
    refine ⟨⟨hmaps.authorizedHosts, hmaps.haInfo, hmaps.hostEnvs, hmaps.hostAuthErrors⟩, fun uid huid => ?_⟩
    rw [← Option.some.inj huid]
    exact List.mem_map_of_mem hhost
  · rename_i hnew
    rw [or_iff_right hnew]
    exact namesHosts_iff_keepsSelected
      ⟨hmaps.authorizedHosts, hmaps.haInfo, hmaps.hostEnvs, hmaps.hostAuthErrors⟩ rfl hselected

theorem moveHost_names (h : NamesHosts s) (hnamed : Named s) (hkeyed : Keyed hostGroups) :
    NamesHosts (moveHostFulfilled s hostGroups) :=
  (namesMaps_apply s hostGroups).sync rfl hkeyed (h.selected_ne hnamed)

theorem deleteHost_names (h : NamesHosts s) (hnamed : Named s) (hkeyed : Keyed hostGroups) :
    NamesHosts (deleteHostFulfilled s hostUid hostGroups) :=
  ((namesMaps_apply s hostGroups).purge hostUid).sync rfl hkeyed (h.selected_ne hnamed)

theorem foldl_purge_names (h : NamesHosts s) (uids : List String) : NamesHosts (uids.foldl purgeHostClientState s) := by
  induction uids generalizing s with
  | nil => exact h
  | cons uid uids ih => exact ih (h.purge uid)

theorem foldl_purge_hosts (s : State HaInfo Env) (uids : List String) :
    (uids.foldl purgeHostClientState s).hosts = s.hosts := by
  induction uids generalizing s with
  | nil => rfl
  | cons uid uids ih => exact ih _

theorem deleteHostGroup_names (h : NamesHosts s) (hnamed : Named s) (hkeyed : Keyed hostGroups) (uids : List String) :
    NamesHosts (deleteHostGroupFulfilled s hostGroups uids) := by
  have hmaps := namesMaps_apply s hostGroups
  unfold deleteHostGroupFulfilled
  dsimp only
  refine foldl_purge_names ?_ uids
  split
  · exact NamesMaps.sync ⟨hmaps.authorizedHosts, hmaps.haInfo, hmaps.hostEnvs, hmaps.hostAuthErrors⟩ rfl hkeyed nofun
  · exact hmaps.sync rfl hkeyed (h.selected_ne hnamed)

theorem syncHostSelection_hosts (s : State HaInfo Env) : (syncHostSelection s).hosts = s.hosts := by
  obtain ⟨_, _, heq, -⟩ := syncHostSelection_eq s
  rw [heq]

theorem deleteHostGroup_hosts (s : State HaInfo Env) (hostGroups : HostGroups) (uids : List String) :
    (deleteHostGroupFulfilled s hostGroups uids).hosts = flattenHostsFromGroups hostGroups := by
  unfold deleteHostGroupFulfilled
  dsimp only
  rw [foldl_purge_hosts, syncHostSelection_hosts]
  split <;> rfl

/-! ### Answers about one host -/

/-- Something has been written down about one host. -/
theorem NamesHosts.write (h : NamesHosts s) (hmem : hostUid ∈ s.uids) (huids : s'.uids = s.uids)
    (hauthorized : ∀ uid ∈ s'.authorizedHosts, uid ∈ s.authorizedHosts ∨ uid = hostUid)
    (hhaInfo : ∀ uid ∈ s'.haInfo.keys, uid ∈ s.haInfo.keys ∨ uid = hostUid)
    (hhostEnvs : ∀ uid ∈ s'.hostEnvs.keys, uid ∈ s.hostEnvs.keys ∨ uid = hostUid)
    (herrors : ∀ uid ∈ s'.hostAuthErrors.keys, uid ∈ s.hostAuthErrors.keys ∨ uid = hostUid)
    (hselected : s'.selectedHostUid = s.selectedHostUid) : NamesHosts s' := by
  have hall : ∀ {old new : List String}, (∀ uid ∈ new, uid ∈ old ∨ uid = hostUid) → (∀ uid ∈ old, uid ∈ s.uids) →
      ∀ uid ∈ new, uid ∈ s'.uids := by
    intro old new hnew hold uid huid
    rw [huids]
    rcases hnew uid huid with hmem' | rfl
    · exact hold uid hmem'
    · exact hmem
  refine ⟨⟨hall hauthorized h.authorizedHosts, hall hhaInfo h.haInfo, hall hhostEnvs h.hostEnvs,
    hall herrors h.hostAuthErrors⟩, ?_⟩
  rw [hselected, huids]
  exact h.selectedHostUid

theorem mem_keys_set_self {α : Type} (d : Dict String α) (value : α) : hostUid ∈ (d.set hostUid value).keys :=
  (Dict.mem_keys_set _ _ _ _).2 (.inr rfl)

theorem uids_clearInitialLogin (hostUid : String) (hosts : List Host) :
    (clearInitialLogin hostUid hosts).map Host.uid = hosts.map Host.uid := by
  induction hosts with
  | nil => rfl
  | cons host hosts ih =>
    unfold clearInitialLogin
    split
    · rfl
    · rw [List.map_cons, List.map_cons, ih]

/-- What a login writes, besides the errors that it clears. -/
theorem loginToHostFulfilled_eq (s : State HaInfo Env) (hostUid : String) (haInfo : HaInfo) :
    ∃ hosts hostsAwaitingHaLogin reconnectQueue,
      loginToHostFulfilled s hostUid haInfo = { clearHostLoginError s hostUid with
        hosts, hostsAwaitingHaLogin, reconnectQueue
        authorizedHosts := addUid hostUid (clearHostLoginError s hostUid).authorizedHosts
        haInfo := (clearHostLoginError s hostUid).haInfo.set hostUid haInfo } ∧
      hosts.map Host.uid = (clearHostLoginError s hostUid).uids := by
  unfold loginToHostFulfilled
  dsimp only
  split
  · exact ⟨_, _, _, rfl, uids_clearInitialLogin _ _⟩
  · exact ⟨_, _, _, rfl, rfl⟩

theorem uids_clearHostLoginError (s : State HaInfo Env) (hostUid : String) :
    (clearHostLoginError s hostUid).uids = s.uids := by
  unfold clearHostLoginError
  split <;> rfl

theorem loginToHostFulfilled_iff (h : NamesHosts s) (haInfo : HaInfo) :
    NamesHosts (loginToHostFulfilled s hostUid haInfo) ↔ hostUid ∈ s.uids := by
  obtain ⟨hosts, awaiting, queue, heq, huids⟩ := loginToHostFulfilled_eq s hostUid haInfo
  have hclear := h.clearHostLoginError hostUid
  rw [heq, ← uids_clearHostLoginError s hostUid]
  constructor
  · intro h'
    rw [← huids]
    exact h'.haInfo hostUid (mem_keys_set_self _ _)
  · intro hmem
    exact hclear.write hmem huids (fun uid => mem_addUid.1) (fun uid => (Dict.mem_keys_set _ _ _ _).1) (fun uid => .inl)
      (fun uid => .inl) rfl

theorem loginToHostRejected_iff (h : NamesHosts s) (message : Text) :
    NamesHosts (loginToHostRejected s hostUid message) ↔ hostUid ∈ s.uids := by
  have hwritten : ∀ error loginErrorHostUid, NamesHosts { s with
      error, loginErrorHostUid, hostAuthErrors := s.hostAuthErrors.set hostUid message } ↔ hostUid ∈ s.uids := by
    intro error loginErrorHostUid
    constructor
    · intro h'
      exact h'.hostAuthErrors hostUid (mem_keys_set_self _ _)
    · intro hmem
      exact h.write hmem rfl (fun uid => .inl) (fun uid => .inl) (fun uid => .inl)
        (fun uid => (Dict.mem_keys_set _ _ _ _).1) rfl
  unfold loginToHostRejected
  dsimp only
  split
  · exact hwritten _ _
  · exact hwritten _ _

theorem refreshHaInfoFulfilled_iff (h : NamesHosts s) (haInfo : HaInfo) :
    NamesHosts (refreshHaInfoFulfilled s hostUid haInfo) ↔ hostUid ∈ s.uids := by
  constructor
  · intro h'
    exact h'.haInfo hostUid (mem_keys_set_self _ _)
  · intro hmem
    exact h.write hmem rfl (fun uid => .inl) (fun uid => (Dict.mem_keys_set _ _ _ _).1) (fun uid => .inl)
      (fun uid => .inl) rfl

theorem setHostEnv_iff (h : NamesHosts s) (env : Option Env) :
    NamesHosts { s with hostEnvs := s.hostEnvs.set hostUid env } ↔ hostUid ∈ s.uids := by
  constructor
  · intro h'
    exact h'.hostEnvs hostUid (mem_keys_set_self _ _)
  · intro hmem
    exact h.write hmem rfl (fun uid => .inl) (fun uid => .inl) (fun uid => (Dict.mem_keys_set _ _ _ _).1)
      (fun uid => .inl) rfl

/-- A host whose environment is known is in the list anyway. -/
theorem fetchHostEnvRejected_iff (h : NamesHosts s) :
    NamesHosts (fetchHostEnvRejected s hostUid) ↔ hostUid ∈ s.uids := by
  unfold fetchHostEnvRejected
  split
  · exact setHostEnv_iff h none
  · rename_i hknown
    rw [Option.isNone_iff_eq_none, ← ne_eq, Option.ne_none_iff_exists'] at hknown
    exact iff_of_true h (h.hostEnvs hostUid (Dict.mem_keys.2 hknown))

/-! ### Steps and runs -/

theorem pendingReducer_names (h : NamesHosts s) (request : Request) : NamesHosts (pendingReducer s request) := by
  have hsame : NamesHosts { s with error := none } :=
    ⟨⟨h.authorizedHosts, h.haInfo, h.hostEnvs, h.hostAuthErrors⟩, h.selectedHostUid⟩
  cases request with
  | loginToHost hostUid => exact h.clearHostLoginError hostUid
  | refreshHaInfo hostUid => exact h
  | fetchHostEnv hostUid => exact h
  | fetchHosts => exact hsame
  | addHost => exact hsame
  | editHost hostUid => exact hsame
  | moveHost hostUid => exact hsame
  | deleteHost hostUid => exact hsame
  | deleteHostGroup groupId removedHostUids => exact hsame

theorem settledReducer_iff (h : NamesHosts s) (hnamed : Named s) {request : Request} {answer : Answer HaInfo Env}
    {now : Nat} (hsettled : settledReducer s now request answer = some s') :
    NamesHosts s' ↔ InTime s (.settled request answer now) := by
  have hrejected : ∀ message, NamesHosts { s with error := some message } := fun message =>
    ⟨⟨h.authorizedHosts, h.haInfo, h.hostEnvs, h.hostAuthErrors⟩, h.selectedHostUid⟩
  cases answer with
  | hostGroups hostGroups hkeyed =>
    cases request with
    | fetchHosts =>
      cases hsettled
      obtain ⟨hhosts, hselected⟩ := fetchHosts_fields s hostGroups now
      exact namesHosts_iff_keepsSelected (namesMaps_fetchHosts s hostGroups now) hhosts hselected
    | addHost =>
      cases hsettled
      exact addHost_iff s hostGroups
    | editHost hostUid =>
      cases hsettled
      exact namesHosts_iff_keepsSelected (namesMaps_apply s hostGroups) rfl rfl
    | moveHost hostUid =>
      cases hsettled
      exact iff_of_true (moveHost_names h hnamed hkeyed) trivial
    | deleteHost hostUid =>
      cases hsettled
      exact iff_of_true (deleteHost_names h hnamed hkeyed) trivial
    | deleteHostGroup groupId removedHostUids =>
      cases hsettled
      exact iff_of_true (deleteHostGroup_names h hnamed hkeyed removedHostUids) trivial
    | loginToHost hostUid => cases hsettled
    | refreshHaInfo hostUid => cases hsettled
    | fetchHostEnv hostUid => cases hsettled
  | haInfo haInfo =>
    cases request with
    | loginToHost hostUid =>
      cases hsettled
      exact loginToHostFulfilled_iff h haInfo
    | refreshHaInfo hostUid =>
      cases hsettled
      exact refreshHaInfoFulfilled_iff h haInfo
    | _ => cases hsettled
  | env env =>
    cases request with
    | fetchHostEnv hostUid =>
      cases hsettled
      exact setHostEnv_iff h (some env)
    | _ => cases hsettled
  | rejected message =>
    cases request with
    | loginToHost hostUid =>
      cases hsettled
      exact loginToHostRejected_iff h message
    | fetchHostEnv hostUid =>
      cases hsettled
      exact fetchHostEnvRejected_iff h
    | refreshHaInfo hostUid =>
      cases hsettled
      exact iff_of_true h trivial
    | _ =>
      cases hsettled
      exact iff_of_true (hrejected message) trivial

/-- The list stays, or it is the one of the answer. -/
theorem uids_settled {request : Request} {answer : Answer HaInfo Env} {now : Nat}
    (hsettled : settledReducer s now request answer = some s') :
    s'.uids = s.uids ∨ ∃ hostGroups, Keyed hostGroups ∧ s'.hosts = flattenHostsFromGroups hostGroups := by
  cases answer with
  | hostGroups hostGroups hkeyed =>
    refine .inr ⟨hostGroups, hkeyed, ?_⟩
    cases request with
    | fetchHosts =>
      cases hsettled
      exact (fetchHosts_fields s hostGroups now).1
    | addHost =>
      cases hsettled
      obtain ⟨_, _, _, heq, -⟩ := addHost_cases s hostGroups
      rw [heq]
      rfl
    | editHost hostUid =>
      cases hsettled
      rfl
    | moveHost hostUid =>
      cases hsettled
      exact syncHostSelection_hosts _
    | deleteHost hostUid =>
      cases hsettled
      exact syncHostSelection_hosts _
    | deleteHostGroup groupId removedHostUids =>
      cases hsettled
      exact deleteHostGroup_hosts s hostGroups removedHostUids
    | _ => cases hsettled
  | haInfo haInfo =>
    refine .inl ?_
    cases request with
    | loginToHost hostUid =>
      cases hsettled
      obtain ⟨hosts, _, _, heq, huids⟩ := loginToHostFulfilled_eq s hostUid haInfo
      rw [heq]
      exact huids.trans (uids_clearHostLoginError s hostUid)
    | refreshHaInfo hostUid =>
      cases hsettled
      rfl
    | _ => cases hsettled
  | env env =>
    refine .inl ?_
    cases request with
    | fetchHostEnv hostUid =>
      cases hsettled
      rfl
    | _ => cases hsettled
  | rejected message =>
    refine .inl ?_
    cases request with
    | loginToHost hostUid =>
      cases hsettled
      unfold loginToHostRejected
      dsimp only
      split <;> rfl
    | fetchHostEnv hostUid =>
      cases hsettled
      unfold fetchHostEnvRejected
      split <;> rfl
    | _ =>
      cases hsettled
      rfl

theorem uids_pendingReducer (s : State HaInfo Env) (request : Request) : (pendingReducer s request).uids = s.uids := by
  cases request with
  | loginToHost hostUid => exact uids_clearHostLoginError s hostUid
  | _ => rfl

theorem step_named (s : State HaInfo Env) (a : Act HaInfo Env) (s' : State HaInfo Env) (h : Named s)
    (hstep : step s a = some s') : Named s' := by
  cases a with
  | setSkipAutoHostLogin skip =>
    cases hstep
    exact h
  | loginHostsBatch running =>
    cases hstep
    exact h
  | pending request =>
    rw [step, Option.ite_none_right_eq_some] at hstep
    obtain ⟨-, hstep⟩ := hstep
    cases hstep
    intro uid huid
    exact h uid (uids_pendingReducer s request ▸ huid)
  | settled request answer now =>
    rw [step, Option.ite_none_right_eq_some] at hstep
    obtain ⟨-, hstep⟩ := hstep
    obtain ⟨s₁, hsettled, rfl⟩ := Option.map_eq_some_iff.1 hstep
    rcases uids_settled hsettled with huids | ⟨hostGroups, hkeyed, hhosts⟩
    · intro uid huid
      exact h uid (huids ▸ huid)
    · exact named_of_hosts (s := s₁) hhosts hkeyed

theorem namesHosts_pending {pending : List Request} : NamesHosts { s with pending } ↔ NamesHosts s :=
  ⟨fun h => ⟨⟨h.authorizedHosts, h.haInfo, h.hostEnvs, h.hostAuthErrors⟩, h.selectedHostUid⟩,
    fun h => ⟨⟨h.authorizedHosts, h.haInfo, h.hostEnvs, h.hostAuthErrors⟩, h.selectedHostUid⟩⟩

theorem step_iff (s : State HaInfo Env) (a : Act HaInfo Env) (s' : State HaInfo Env) (h : NamesHosts s ∧ Named s)
    (hstep : step s a = some s') : NamesHosts s' ∧ Named s' ↔ InTime s a := by
  rw [and_iff_left (step_named s a s' h.2 hstep)]
  obtain ⟨h, hnamed⟩ := h
  cases a with
  | setSkipAutoHostLogin skip =>
    cases hstep
    exact iff_of_true ⟨⟨h.authorizedHosts, h.haInfo, h.hostEnvs, h.hostAuthErrors⟩, h.selectedHostUid⟩ trivial
  | loginHostsBatch running =>
    cases hstep
    exact iff_of_true ⟨⟨h.authorizedHosts, h.haInfo, h.hostEnvs, h.hostAuthErrors⟩, h.selectedHostUid⟩ trivial
  | pending request =>
    rw [step, Option.ite_none_right_eq_some] at hstep
    obtain ⟨-, hstep⟩ := hstep
    cases hstep
    exact iff_of_true (namesHosts_pending.2 (pendingReducer_names h request)) trivial
  | settled request answer now =>
    rw [step, Option.ite_none_right_eq_some] at hstep
    obtain ⟨-, hstep⟩ := hstep
    obtain ⟨s₁, hsettled, rfl⟩ := Option.map_eq_some_iff.1 hstep
    rw [namesHosts_pending]
    exact settledReducer_iff h hnamed hsettled

theorem namesHosts_initial_iff {stored : Dict String HaInfo} :
    NamesHosts (initial stored : State HaInfo Env) ↔ stored.keys = [] := by
  constructor
  · intro h
    exact List.eq_nil_iff_forall_not_mem.2 fun uid huid => List.not_mem_nil (h.haInfo uid huid)
  · intro hempty
    refine ⟨⟨nofun, fun uid huid => ?_, nofun, nofun⟩, nofun⟩
    have huid' : uid ∈ stored.keys := huid
    rw [hempty] at huid'
    exact huid'

theorem named_initial (stored : Dict String HaInfo) :
    Named (initial stored : State HaInfo Env) := fun _ huid => nomatch huid

theorem names_only_hosts_iff (stored : Dict String HaInfo)
    (as : List (Act HaInfo Env)) (s : State HaInfo Env)
    (hrun : Run step Always (initial stored) as s) :
    (∀ bs s₁, bs <+: as → Run step Always (initial stored) bs s₁ → NamesHosts s₁) ↔
      stored.keys = [] ∧ Run step InTime (initial stored) as s := by
  have hnamed : ∀ {bs} {s₁ : State HaInfo Env},
      Run step Always (initial stored) bs s₁ → Named s₁ := fun hrun₁ =>
    hrun₁.invariant (fun s a s' h _ hstep => step_named s a s' h hstep) (named_initial _)
  constructor
  · intro hall
    have hinitial := hall [] _ List.nil_prefix (.nil _)
    refine ⟨namesHosts_initial_iff.1 hinitial, (hrun.prefixes_iff step_iff ⟨hinitial, named_initial _⟩).1 ?_⟩
    exact fun bs s₁ hbs hrun₁ => ⟨hall bs s₁ hbs hrun₁, hnamed hrun₁⟩
  · rintro ⟨hempty, hintime⟩ bs s₁ hbs hrun₁
    have hinitial : NamesHosts (initial stored : State HaInfo Env) := namesHosts_initial_iff.2 hempty
    exact ((hrun.prefixes_iff step_iff ⟨hinitial, named_initial _⟩).2 hintime bs s₁ hbs hrun₁).1

/-- One host in one group. -/
def oneHost : HostGroups :=
  .ofList [("g", ⟨"Group".toList, some (.ofList [("h", ⟨"h", none, none, none, none, none, none⟩)])⟩)]

theorem keyed_oneHost : Keyed oneHost := by
  unfold Keyed
  decide

/-- The host is logged in to. -/
def login : List (Act Unit Unit) :=
  [.pending .fetchHosts, .settled .fetchHosts (.hostGroups oneHost keyed_oneHost) 0, .pending (.loginToHost "h"),
    .settled (.loginToHost "h") (.haInfo ()) 1]

/-- The host is deleted while it is being logged in to. -/
def lateLogin : List (Act Unit Unit) :=
  [.pending .fetchHosts, .settled .fetchHosts (.hostGroups oneHost keyed_oneHost) 0, .pending (.loginToHost "h"),
    .pending (.deleteHost "h"), .settled (.deleteHost "h") (.hostGroups .empty nofun) 1,
    .settled (.loginToHost "h") (.haInfo ()) 2]

theorem names_only_hosts_login : ∃ s, Run step Always (initial .empty) login s ∧ NamesHosts s := by
  obtain ⟨s, hs⟩ : ∃ s, runChecked step InTime (initial .empty) login = some s := ⟨_, rfl⟩
  have hintime := Run.of_runChecked hs
  have hrun := hintime.mono fun _ _ _ => trivial
  exact ⟨s, hrun, (names_only_hosts_iff .empty login s hrun).2 ⟨rfl, hintime⟩ login s (List.prefix_refl _) hrun⟩

theorem names_only_hosts_fails : ¬ ∀ (as : List (Act Unit Unit)) (s : State Unit Unit),
    Run step Always (initial .empty) as s → NamesHosts s := by
  intro hall
  obtain ⟨s, hrun, hlost⟩ : ∃ s, Run step Always (initial .empty) lateLogin s ∧
      "h" ∈ s.authorizedHosts ∧ "h" ∉ s.uids := exists_run (by decide)
  exact hlost.2 ((hall lateLogin s hrun).authorizedHosts "h" hlost.1)

end CubridWebManager.HostTree
