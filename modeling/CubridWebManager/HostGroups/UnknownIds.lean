import CubridWebManager.HostGroups.HostInvariant

/-!
# Unknown ids

What a call does that is given the id of no group, or of no host, of the record: it throws its error and changes nothing,
or, to delete a group, does nothing.  The ungrouped bucket is a group that need not be there yet: a host that is moved to
it is moved, and the bucket is made.
-/

namespace CubridWebManager.HostGroups

open JsObject Transition

section operations

variable {user : User} {gid hostUid : String}

theorem addHost_unknown {hostInfo : AddHostPayload} (hgroupId : hostInfo.groupId = some gid) (hne : gid ≠ "")
    (hplain : inherited? gid = none) (hnone : (readHostGroups user).get? gid = none) (uid : String) :
    addHost user hostInfo uid =
      .throw (match checkNewHost user hostInfo with
        | .error e => e
        | .ok _ => groupNotFound "groupId" gid) := by
  have hfilter : hostInfo.groupId.filter (· ≠ "") = some gid := by simp [hgroupId, hne]
  have hget : get (readHostGroups { user with hostGroups := some (readHostGroups user) }) gid = none := by
    rw [get_of_plain hplain]
    exact congrArg _ hnone
  have hsame : checkNewHost { user with hostGroups := some (readHostGroups user) } hostInfo =
      checkNewHost user hostInfo := rfl
  simp only [addHost, hfilter, hget, hsame, Option.isNone_none, if_true]
  cases checkNewHost user hostInfo <;> rfl

theorem moveHost_unknownHost (hunknown : findHostRef user hostUid = none) (targetGroupId : String) :
    moveHost user hostUid targetGroupId = .throw (.noSuchHost hostUid) := by
  simp only [moveHost, moveHostToGroup, hunknown]
  rfl

theorem moveHost_unknownGroup (hhost : ∃ ref, findHostRef user hostUid = some ref) (hne : gid ≠ ungroupedGroupId)
    (hplain : inherited? gid = none) (hnone : (readHostGroups user).get? gid = none) :
    moveHost user hostUid gid = .throw (groupNotFound "targetGroupId" gid) := by
  obtain ⟨ref, href⟩ := hhost
  have hother : ref.groupId ≠ gid := by
    rintro rfl
    cases hnone.symm.trans (findHostRef_get href).1
  have hget : get (readHostGroups user) gid = none := by rw [get_of_plain hplain, hnone, Option.map_none]
  simp only [moveHost, moveHostToGroup, href, if_neg hother, if_neg hne, hget]
  rfl

/-- The ungrouped bucket is made for a host that is moved to it. -/
theorem moveHost_ungrouped (hhost : ∃ ref, findHostRef user hostUid = some ref)
    (hnone : (readHostGroups user).get? ungroupedGroupId = none) :
    ∃ user', moveHost user hostUid ungroupedGroupId = .pure user' ∧
      ∃ group, (readHostGroups user').get? ungroupedGroupId = some group := by
  obtain ⟨ref, href⟩ := hhost
  have hplain : inherited? ungroupedGroupId = none := by decide
  have hother : ref.groupId ≠ ungroupedGroupId := fun heq => by
    cases hnone.symm.trans (heq ▸ (findHostRef_get href).1)
  let bucket : HostGroupInfo := ⟨"Ungrouped".toList, none, none, some .empty⟩
  have hbucket : ensureUngroupedGroup user = ⟨some ((readHostGroups user).set ungroupedGroupId bucket)⟩ := by
    simp only [ensureUngroupedGroup, get_of_plain hplain, hnone, Option.map_none, Option.isSome_none,
      Bool.false_eq_true, if_false, bucket]
  have hget : get (readHostGroups (ensureUngroupedGroup user)) ungroupedGroupId = some (.own bucket) := by
    rw [hbucket]
    exact get_of_some ((Dict.get?_set _ _ _ _).trans (if_pos rfl))
  refine ⟨⟨some (((readHostGroups (ensureUngroupedGroup user)).set ref.groupId (ref.group.without hostUid)).set
    ungroupedGroupId (bucket.receive hostUid ref.host))⟩, ?_, bucket.receive hostUid ref.host, ?_⟩
  · simp only [moveHost, moveHostToGroup, href, if_neg hother, if_true, hget]
    rfl
  · exact (Dict.get?_set _ _ _ _).trans (if_pos rfl)

theorem updateHost_unknown (hunknown : findHostRef user hostUid = none) (hostInfo : UpdateHostRequest) :
    updateHost user hostUid hostInfo = .throw (.noSuchHost hostUid) := by
  rw [updateHost, hunknown]

theorem deleteHost_unknown (hunknown : findHostRef user hostUid = none) :
    deleteHost user hostUid = .throw (.noSuchHost hostUid) := by
  rw [deleteHost, removeHostFromUser, hunknown]

theorem updateHostGroup_unknown (letter : Char → Bool) (patch : GroupPatch) (hplain : inherited? gid = none)
    (hnone : (readHostGroups user).get? gid = none) :
    updateHostGroup letter user gid patch = .throw (groupNotFound "groupId" gid) := by
  simp only [updateHostGroup, updateGroup, get_of_plain hplain, hnone, Option.map_none]
  rfl

theorem deleteHostGroup_unknown (hne : gid ≠ ungroupedGroupId) (hplain : inherited? gid = none)
    (hnone : (readHostGroups user).get? gid = none) : deleteHostGroup user gid = .pure user := by
  simp only [deleteHostGroup, deleteGroup, if_neg hne, get_of_plain hplain, hnone, Option.map_none]

end operations

section server

variable {letter : Char → Bool} {s : Server} {id : String} {c : Call} {user : User}

/-- A call on a record of the server. -/
theorem run_eq (hs : s.assigned = []) (huser : s.users.get? id = some user)
    (hdrawn : c.drawn?.all user.unused = true) : run letter s id c = some (atomicUpdateUser s id (c.modify letter)) :=
  if_pos ⟨hs, by rw [huser]; exact hdrawn⟩

theorem run_of_throw (hs : s.assigned = []) (huser : s.users.get? id = some user)
    (hdrawn : c.drawn?.all user.unused = true) {e : HostError} (h : c.modify letter user = .throw e) :
    run letter s id c = some (.error e, s) := by
  rw [run_eq hs huser hdrawn]
  simp only [atomicUpdateUser, huser, h, Outcome.throw, List.append_nil]

/-- A modifier that returns the record that it was given changes nothing. -/
theorem run_of_pure (hs : s.assigned = []) (huser : s.users.get? id = some user)
    (hdrawn : c.drawn?.all user.unused = true) (h : c.modify letter user = .pure user) :
    run letter s id c = some (.ok (), s) := by
  rw [run_eq hs huser hdrawn]
  simp only [atomicUpdateUser, huser, h, Outcome.pure, List.append_nil, Dict.set_of_get? huser]

end server

/-- A call with the id of no group or of no host throws its error, or is to delete no group, and changes nothing on the
server.  The id is no name of an inherited property. -/
theorem unknown_ids (letter : Char → Bool) {s : Server} {id : String} {user : User} (hs : s.assigned = [])
    (huser : s.users.get? id = some user) {key : String} (hplain : inherited? key = none) :
    ((readHostGroups user).get? key = none →
      (∀ hostInfo uid, hostInfo.groupId = some key → key ≠ "" → user.unused uid = true →
        run letter s id (.addHost hostInfo uid) = some (.error (match checkNewHost user hostInfo with
          | .error e => e
          | .ok _ => groupNotFound "groupId" key), s)) ∧
      (∀ hostUid, key ≠ ungroupedGroupId → (∃ ref, findHostRef user hostUid = some ref) →
        run letter s id (.moveHost hostUid key) = some (.error (groupNotFound "targetGroupId" key), s)) ∧
      (∀ patch, run letter s id (.updateHostGroup key patch) = some (.error (groupNotFound "groupId" key), s)) ∧
      (key ≠ ungroupedGroupId → run letter s id (.deleteHostGroup key) = some (.ok (), s)) ∧
      (key = ungroupedGroupId → ∃ e, run letter s id (.deleteHostGroup key) = some (.error e, s))) ∧
    ((∀ host, (key, host) ∉ registered user) →
      (∀ hostInfo, run letter s id (.updateHost key hostInfo) = some (.error (.noSuchHost key), s)) ∧
      (∀ targetGroupId, run letter s id (.moveHost key targetGroupId) = some (.error (.noSuchHost key), s)) ∧
      run letter s id (.deleteHost key) = some (.error (.noSuchHost key), s)) := by
  refine ⟨fun hnone => ⟨fun hostInfo uid hgroupId hne hunused => ?_, fun hostUid hne hhost => ?_, fun patch => ?_,
    fun hne => ?_, ?_⟩, fun hunregistered => ?_⟩
  · exact run_of_throw (c := .addHost hostInfo uid) hs huser hunused (addHost_unknown hgroupId hne hplain hnone uid)
  · exact run_of_throw hs huser rfl (moveHost_unknownGroup hhost hne hplain hnone)
  · exact run_of_throw hs huser rfl (updateHostGroup_unknown letter patch hplain hnone)
  · exact run_of_pure hs huser rfl (deleteHostGroup_unknown hne hplain hnone)
  · rintro rfl
    exact ⟨_, run_of_throw hs huser rfl rfl⟩
  · have hunknown := (findHostRef_none hplain).2 hunregistered
    exact ⟨fun hostInfo => run_of_throw hs huser rfl (updateHost_unknown hunknown hostInfo),
      fun targetGroupId => run_of_throw hs huser rfl (moveHost_unknownHost hunknown targetGroupId),
      run_of_throw hs huser rfl (deleteHost_unknown hunknown)⟩

/-- A record with one host in one group. -/
theorem unknown_ids_grouped : ∃ s user, Run (step Char.isAlphanum) PlainCall Server.fresh groupedHost s ∧
    s.users.get? "user1" = some user ∧
    run Char.isAlphanum s "user1" (.moveHost "host1" "nowhere") =
      some (.error (groupNotFound "targetGroupId" "nowhere"), s) ∧
    run Char.isAlphanum s "user1" (.deleteHost "nobody") = some (.error (.noSuchHost "nobody"), s) := by
  have hexists : ∃ s, Run (step Char.isAlphanum) PlainCall Server.fresh groupedHost s ∧ s.assigned = [] ∧
      ((s.users.get? "user1").any fun user : User => (findHostRef user "host1").isSome &&
        decide ((readHostGroups user).get? "nowhere" = none) && (registered user).all fun e => decide (e.1 ≠ "nobody")) =
        true := exists_run (by decide)
  obtain ⟨s, hrun, hs, huser⟩ := hexists
  obtain ⟨user, huser, hrecord⟩ := (Option.any_eq_true _ _).1 huser
  simp only [Bool.and_eq_true, decide_eq_true_eq, List.all_eq_true] at hrecord
  obtain ⟨⟨hhost, hgroup⟩, hnobody⟩ := hrecord
  have hgroups := (@unknown_ids Char.isAlphanum s _ _ hs huser "nowhere" (by decide)).1 hgroup
  have hhosts := (@unknown_ids Char.isAlphanum s _ _ hs huser "nobody" (by decide)).2
    fun host hmem => hnobody _ hmem rfl
  exact ⟨s, user, hrun, huser, hgroups.2.1 "host1" (by decide) (Option.isSome_iff_exists.1 hhost), hhosts.2.2⟩

/-- A host can be moved to the ungrouped bucket although there is none. -/
theorem unknown_ids_fails : ∃ s s' user user', Run (step Char.isAlphanum) PlainCall Server.fresh groupedHost s ∧
    s.users.get? "user1" = some user ∧ (readHostGroups user).get? "__ungrouped__" = none ∧
    run Char.isAlphanum s "user1" (.moveHost "host1" "__ungrouped__") = some (.ok (), s') ∧
    s'.users.get? "user1" = some user' ∧ user' ≠ user := by
  have hexists : ∃ s, Run (step Char.isAlphanum) PlainCall Server.fresh groupedHost s ∧
      ((s.users.get? "user1").any fun user : User => decide ((readHostGroups user).get? "__ungrouped__" = none) &&
        ((run Char.isAlphanum s "user1" (.moveHost "host1" "__ungrouped__")).any
          fun r : Except HostError Unit × Server => r.1.isOk &&
            (r.2.users.get? "user1").any fun user' : User => decide (user' ≠ user))) = true := exists_run (by decide)
  obtain ⟨s, hrun, hs⟩ := hexists
  obtain ⟨user, huser, hs⟩ := (Option.any_eq_true _ _).1 hs
  simp only [Bool.and_eq_true, decide_eq_true_eq] at hs
  obtain ⟨⟨result, s'⟩, hmove, hs'⟩ := (Option.any_eq_true _ _).1 hs.2
  simp only [Bool.and_eq_true, Option.any_eq_true, decide_eq_true_eq] at hs'
  obtain ⟨hresult, user', huser', hne⟩ := hs'
  cases result with
  | error e => cases hresult
  | ok _ => exact ⟨s, s', user, user', hrun, huser, hs.1, hmove, huser', hne⟩

end CubridWebManager.HostGroups
