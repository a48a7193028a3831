import CubridWebManager.HostGroups.Registered
import CubridWebManager.Lib.Run

/-!
# The invariant of the host groups

`HostsOk` holds of the record of a new user and after every call whose ids are `Plain`: they are no names of properties
that every object inherits.  Adding a host adds one registration that is apart from all others, moving one permutes the
registrations, and the other operations change one of them or leave some out.
-/

namespace CubridWebManager.HostGroups

open JsObject Transition
open scoped List

structure HostsOk (user : User) : Prop where
  /-- Every host is registered once, under its own uid, and no two share a connection or an alias. -/
  apart : AllApart (registered user)
  count : countAllHosts user ≤ 400
  defaults : ∀ gid group, (readHostGroups user).get? gid = some group → DefaultOk group

/-- No id under which the call may store something is the name of an inherited property. -/
def Call.Plain : Call → Prop
  | .addHost hostInfo _ => ∀ groupId ∈ hostInfo.groupId, inherited? groupId = none
  | .updateHost hostUid _ => inherited? hostUid = none
  | .moveHost hostUid targetGroupId => inherited? hostUid = none ∧ inherited? targetGroupId = none
  | .updateHostGroup groupId patch =>
    inherited? groupId = none ∧ ∀ next ∈ patch.defaultHostUid, ∀ uid ∈ next, inherited? uid = none
  | .createHostGroup _ _ _ | .deleteHost _ | .deleteHostGroup _ => True

instance (c : Call) : Decidable c.Plain := by
  unfold Call.Plain
  split <;> infer_instance

section hosts

variable {user user' : User} {gid gid' hostUid : String} {group group' : HostGroupInfo} {host host' : HostInfo}
  {groups : Dict String HostGroupInfo}

/-! ### Registrations -/

/-- A host is in one group. -/
theorem AllApart.group_unique (h : AllApart (hostsOf groups)) (hgroup : groups.get? gid = some group)
    (hgroup' : groups.get? gid' = some group') (hhost : (readGroupHosts group).get? hostUid = some host)
    (hhost' : (readGroupHosts group').get? hostUid = some host') : gid = gid' := by
  by_contra hne
  have hapart := (h.perm (hostsOf_get hgroup)).apart
  have hother : (groups.erase gid).get? gid' = some group' := by
    rw [Dict.get?_erase, if_neg fun heq => hne heq.symm, hgroup']
  exact ((List.pairwise_append.1 hapart).2.2 _ (Dict.get?_eq_some_iff.1 hhost) _ (mem_hostsOf hother hhost')).key rfl

theorem HostsOk.keyed (h : HostsOk user) (hgroup : (readHostGroups user).get? gid = some group) :
    ∀ e ∈ (readGroupHosts group).entries, e.2.uid = e.1 :=
  fun _ he => h.apart.keyed _ (List.mem_flatMap.2 ⟨_, Dict.get?_eq_some_iff.1 hgroup, he⟩)

/-- One group has changed. -/
theorem HostsOk.set (h : HostsOk user) (happart : AllApart (hostsOf ((readHostGroups user).set gid group)))
    (hcount : (hostsOf ((readHostGroups user).set gid group)).length ≤ 400) (hdefault : DefaultOk group) :
    HostsOk { user with hostGroups := some ((readHostGroups user).set gid group) } := by
  refine ⟨happart, Nat.le_trans (Nat.le_of_eq (countAllHosts_eq _)) hcount, fun gid' group' hgroup' => ?_⟩
  have hget : (if gid' = gid then some group else (readHostGroups user).get? gid') = some group' := by
    rw [← Dict.get?_set]
    exact hgroup'
  split at hget
  · exact Option.some.inj hget ▸ hdefault
  · exact h.defaults gid' group' hget

theorem HostsOk.length_le (h : HostsOk user) : (registered user).length ≤ 400 := countAllHosts_eq user ▸ h.count

/-! ### `ensureUngroupedGroup` -/

theorem ensureUngroupedGroup_eq (user : User) : ensureUngroupedGroup user = user ∨
    (readHostGroups user).get? ungroupedGroupId = none ∧ ensureUngroupedGroup user =
      ⟨some ((readHostGroups user).set ungroupedGroupId ⟨"Ungrouped".toList, none, none, some .empty⟩)⟩ := by
  unfold ensureUngroupedGroup
  split
  · exact .inl rfl
  · rename_i hget
    rw [get_of_plain (by decide), Option.isSome_map, Bool.not_eq_true, Option.isSome_eq_false_iff,
      Option.isNone_iff_eq_none] at hget
    exact .inr ⟨hget, rfl⟩

/-- A new group without hosts. -/
theorem hostsOf_set_empty {name : Text} {createdAt : Option String} (hnone : groups.get? gid = none) :
    (hostsOf (groups.set gid ⟨name, none, createdAt, some .empty⟩)).Perm (hostsOf groups) := by
  refine (hostsOf_set _ _ _).trans ?_
  rw [Dict.erase_of_none hnone]
  exact List.Perm.refl _

theorem HostsOk.set_empty (h : HostsOk user) {name : Text} {createdAt : Option String}
    (hnone : (readHostGroups user).get? gid = none) :
    HostsOk ⟨some ((readHostGroups user).set gid ⟨name, none, createdAt, some .empty⟩)⟩ := by
  have hperm := @hostsOf_set_empty _ _ name createdAt hnone
  exact h.set (h.apart.perm hperm.symm) (Nat.le_trans (Nat.le_of_eq hperm.length_eq) h.length_le) nofun

theorem registered_ensureUngroupedGroup (user : User) :
    (registered (ensureUngroupedGroup user)).Perm (registered user) := by
  rcases ensureUngroupedGroup_eq user with heq | ⟨hnone, heq⟩ <;> rw [heq]
  exact hostsOf_set_empty hnone

theorem HostsOk.ensureUngroupedGroup (h : HostsOk user) : HostsOk (ensureUngroupedGroup user) := by
  rcases ensureUngroupedGroup_eq user with heq | ⟨hnone, heq⟩ <;> rw [heq]
  · exact h
  · exact h.set_empty hnone

theorem get?_ensureUngroupedGroup (hgroup : (readHostGroups user).get? gid = some group) :
    (readHostGroups (ensureUngroupedGroup user)).get? gid = some group := by
  rcases ensureUngroupedGroup_eq user with heq | ⟨hnone, heq⟩ <;> rw [heq]
  · exact hgroup
  · refine (Dict.get?_set _ _ _ _).trans ?_
    rw [if_neg, hgroup]
    rintro rfl
    cases hnone.symm.trans hgroup

/-! ### Adding a host -/

theorem HostsOk.receive (h : HostsOk user) (hgroup : (readHostGroups user).get? gid = some group)
    (hplain : inherited? host.uid = none) (hcount : (registered user).length < 400)
    (hapart : ∀ e ∈ registered user, Apart (host.uid, host) e) :
    HostsOk { user with
      hostGroups := some ((readHostGroups user).set gid (group.receive host.uid (.own host))) } := by
  have hnew : (readGroupHosts group).get? host.uid = none := by
    rw [Option.eq_none_iff_forall_ne_some]
    intro host' hhost'
    exact (hapart _ (mem_hostsOf hgroup hhost')).key rfl
  have hperm : (hostsOf ((readHostGroups user).set gid (group.receive host.uid (.own host)))).Perm
      ((host.uid, host) :: registered user) := by
    refine (hostsOf_set _ _ _).trans (((receive_perm hplain hnew).append_right _).trans ?_)
    exact (hostsOf_get hgroup).symm.cons _
  exact h.set ((h.apart.cons rfl hapart).perm hperm.symm) (Nat.le_trans (Nat.le_of_eq hperm.length_eq) hcount)
    ((h.defaults gid group hgroup).receive hplain)

/-- What `addHostToGroup` makes of the groups of a record. -/
theorem addHostToGroup_eq (hplain : inherited? gid = none) (host : HostInfo) :
    ((readHostGroups user).get? gid = none ∧
      addHostToGroup user gid host = .throw ("Host group not found: " ++ gid)) ∨
    ∃ group, (readHostGroups user).get? gid = some group ∧ addHostToGroup user gid host =
      .pure { user with hostGroups := some ((readHostGroups user).set gid (group.receive host.uid (.own host))) } := by
  unfold addHostToGroup
  rw [get_of_plain hplain]
  cases hget : (readHostGroups user).get? gid with
  | none => exact .inl ⟨rfl, rfl⟩
  | some group => exact .inr ⟨group, rfl, rfl⟩

theorem checkNewHost_ok {hostInfo : AddHostPayload} {hostAlias : Text} (h : checkNewHost user hostInfo = .ok hostAlias)
    (uid : String) : countAllHosts user < 400 ∧
      findDuplicateHost user (newHost hostInfo hostAlias uid).connection none = none ∧
      findDuplicateAlias user (newHost hostInfo hostAlias uid).hostAlias none = none := by
  simp only [checkNewHost] at h
  split at h
  · cases h
  · rename_i hcount
    split at h
    · cases h
    · split at h
      · cases h
      · split at h
        · cases h
        · rename_i hhost
          split at h
          · cases h
          · rename_i halias
            obtain rfl := Except.ok.inj h
            exact ⟨Nat.lt_of_not_le hcount, hhost, halias⟩

theorem unused_iff {uid : String} (h : user.unused uid = true) : (readHostGroups user).get? uid = none ∧
    (∀ e ∈ registered user, uid ≠ e.1) ∧ inherited? uid = none := by
  simp only [User.unused, Bool.and_eq_true, List.all_eq_true, decide_eq_true_eq, Option.isNone_iff_eq_none] at h
  obtain ⟨⟨⟨⟨hgroups, hhosts⟩, hplain⟩, -⟩, -⟩ := h
  refine ⟨?_, fun e he heq => hhosts e he heq.symm, hplain⟩
  rw [Option.eq_none_iff_forall_ne_some]
  intro group hgroup
  exact hgroups uid (Dict.mem_keys.2 ⟨group, hgroup⟩) rfl

/-- What an operation does to a record: nothing is assigned to what all objects inherit, and the result is one that
satisfies `P`, if it does not throw. -/
def Outcome.Keeps {ε : Type} (o : Outcome ε User) (P : User → Prop) : Prop :=
  o.assigned = [] ∧ ∀ user, o.result = .ok user → P user

theorem keeps_throw {ε : Type} (e : ε) (P : User → Prop) : (Outcome.throw e : Outcome ε User).Keeps P := ⟨rfl, nofun⟩

theorem keeps_pure {ε : Type} {P : User → Prop} (h : P user) : (Outcome.pure user : Outcome ε User).Keeps P := by
  refine ⟨rfl, fun user' heq => ?_⟩
  obtain rfl := Except.ok.inj heq
  exact h

theorem keeps_mapError {ε ε' : Type} {P : User → Prop} {o : Outcome ε User} (h : o.Keeps P) (f : ε → ε') :
    (o.mapError f).Keeps P := by
  refine ⟨h.1, fun user heq => h.2 user ?_⟩
  rw [Outcome.mapError] at heq
  cases hresult : o.result with
  | error e =>
    rw [hresult] at heq
    cases heq
  | ok user' =>
    rw [hresult] at heq
    exact congrArg Except.ok (Except.ok.inj heq)

theorem addHost_keeps (h : HostsOk user) {hostInfo : AddHostPayload} {uid : String}
    (hplain : ∀ groupId ∈ hostInfo.groupId, inherited? groupId = none) (hunused : user.unused uid = true) :
    (addHost user hostInfo uid).Keeps HostsOk := by
  obtain ⟨-, hfresh, huid⟩ := unused_iff hunused
  have hadd : ∀ {user' : User} {hostAlias : Text} {gid : String}, HostsOk user' →
      (registered user').Perm (registered user) → checkNewHost user hostInfo = .ok hostAlias → inherited? gid = none →
      (addHostToGroup user' gid (newHost hostInfo hostAlias uid)).Keeps HostsOk := by
    intro user' hostAlias gid h' hperm hcheck hgid
    rcases addHostToGroup_eq hgid (newHost hostInfo hostAlias uid) with ⟨-, heq⟩ | ⟨group, hgroup, heq⟩ <;> rw [heq]
    · exact keeps_throw _ _
    · obtain ⟨hcount, hconnection, halias⟩ := checkNewHost_ok hcheck uid
      refine keeps_pure (h'.receive hgroup huid ?_ fun e he => ?_)
      · rw [hperm.length_eq, ← countAllHosts_eq]
        exact hcount
      · have he' := hperm.mem_iff.1 he
        exact apart_of_noDuplicate hconnection halias he' rfl (hfresh e he')
  have hsame : HostsOk { user with hostGroups := some (readHostGroups user) } := ⟨h.apart, h.count, h.defaults⟩
  simp only [addHost]
  split
  · exact keeps_throw _ _
  · rename_i hostAlias hcheck
    split
    · rename_i groupId hgroupId
      split
      · exact keeps_throw _ _
      · exact keeps_mapError (hadd hsame (List.Perm.refl _) hcheck
          (hplain groupId (Option.filter_eq_some_iff.1 hgroupId).1)) _
    · exact keeps_mapError (hadd hsame.ensureUngroupedGroup (registered_ensureUngroupedGroup _) hcheck (by decide)) _

/-! ### Changing a host -/

theorem updateHost_keeps (h : HostsOk user) {hostInfo : UpdateHostRequest} (hplain : inherited? hostUid = none) :
    (updateHost user hostUid hostInfo).Keeps HostsOk := by
  unfold updateHost
  split
  · exact keeps_throw _ _
  · rename_i ref href
    obtain ⟨hgroup, host, hhost, hget⟩ := findHostRef_some hplain href
    simp only
    split
    · exact keeps_throw _ _
    · rename_i hostAlias _
      split
      · exact keeps_throw _ _
      · rename_i hconnection
        split
        · exact keeps_throw _ _
        · rename_i halias
          split
          · exact keeps_throw _ _
          · rename_i hosts hhosts
            have hread : readGroupHosts ref.group = hosts := by rw [readGroupHosts, hhosts, Option.getD_some]
            rw [hread] at hget
            rw [assign_of_plain hplain]
            generalize hnew : updatedHost (existingHost ref.host) hostUid hostInfo hostAlias = new at hconnection ⊢
            have huid : new.uid = hostUid := by rw [← hnew]; rfl
            have hnewAlias : new.hostAlias = hostAlias := by rw [← hnew]; rfl
            -- the other hosts
            have hold : (registered user).Perm ((hostUid, host) :: ((hosts.erase hostUid).entries ++
                hostsOf ((readHostGroups user).erase ref.groupId))) := by
              refine (hostsOf_get hgroup).trans ?_
              rw [hread]
              exact (Dict.perm_erase hget).append_right _
            have hset : (hostsOf ((readHostGroups user).set ref.groupId
                { ref.group with hosts := some (hosts.set hostUid new) })).Perm ((hostUid, new) ::
                  ((hosts.erase hostUid).entries ++ hostsOf ((readHostGroups user).erase ref.groupId))) :=
              (hostsOf_set _ _ _).trans ((hosts.set_perm hostUid new).append_right _)
            have hothers := h.apart.perm hold
            have hrest := hothers.sublist (List.sublist_cons_self _ _)
            have hkeys := (List.pairwise_cons.1 hothers.apart).1
            refine keeps_pure (h.set ((hrest.cons huid fun e he => ?_).perm hset.symm) ?_ fun uid hdefault hne => ?_)
            · have hkey : hostUid ≠ e.1 := (hkeys e he).key
              refine @apart_of_noDuplicate _ _ (some hostUid) hconnection (by rw [hnewAlias]; exact halias)
                _ (hold.mem_iff.2 (List.mem_cons_of_mem _ he)) ?_ _ hkey
              have hother : e.2.uid ≠ hostUid := by
                rw [hrest.keyed e he]
                exact hkey.symm
              simp [excluded, hother]
            · refine Nat.le_trans (Nat.le_of_eq (hset.length_eq.trans ?_)) h.length_le
              exact hold.length_eq.symm
            · have hsetGet : (readGroupHosts { ref.group with hosts := some (hosts.set hostUid new) }).get? uid =
                  if uid = hostUid then some new else hosts.get? uid := Dict.get?_set _ _ _ _
              rw [hsetGet]
              split
              · exact ⟨new, rfl⟩
              · rw [← hread]
                exact h.defaults _ _ hgroup uid hdefault hne

/-! ### Moving a host -/

/-- What `moveHostToGroup` makes of the groups of a record. -/
theorem moveHostToGroup_eq (hplain : inherited? hostUid = none) (htarget : inherited? gid = none) :
    (moveHostToGroup user hostUid gid).2 = [] ∧ ∀ user', (moveHostToGroup user hostUid gid).1 = (true, user') →
      user' = user ∨ ∃ user₁ src group group' host, (user₁ = user ∨ user₁ = ensureUngroupedGroup user) ∧ src ≠ gid ∧
        (readHostGroups user₁).get? src = some group ∧ (readGroupHosts group).get? hostUid = some host ∧
        (readHostGroups user₁).get? gid = some group' ∧
        user' = ⟨some (((readHostGroups user₁).set src (group.without hostUid)).set gid
          (group'.receive hostUid (.own host)))⟩ := by
  unfold moveHostToGroup
  split
  · exact ⟨rfl, by simp⟩
  · rename_i ref href
    obtain ⟨hgroup, host, hhost, hget⟩ := findHostRef_some hplain href
    split
    · exact ⟨rfl, fun user' heq => .inl (Prod.mk.inj heq).2.symm⟩
    · rename_i hne
      have hget' : ∀ user₁ : User, (user₁ = user ∨ user₁ = ensureUngroupedGroup user) →
          (readHostGroups user₁).get? ref.groupId = some ref.group := by
        rintro user₁ (rfl | rfl)
        · exact hgroup
        · exact get?_ensureUngroupedGroup hgroup
      have huser : (if gid = ungroupedGroupId then ensureUngroupedGroup user else user) = user ∨
          (if gid = ungroupedGroupId then ensureUngroupedGroup user else user) = ensureUngroupedGroup user := by
        split
        · exact .inr rfl
        · exact .inl rfl
      generalize (if gid = ungroupedGroupId then ensureUngroupedGroup user else user) = user₁ at huser
      simp only
      rw [get_of_plain htarget]
      cases htargetGroup : (readHostGroups user₁).get? gid with
      | none => exact ⟨rfl, by simp⟩
      | some group' =>
        refine ⟨rfl, fun user' heq => .inr ⟨user₁, ref.groupId, ref.group, group', host, huser, hne, hget' user₁ huser, hget,
          htargetGroup, ?_⟩⟩
        have hafter := (Prod.mk.inj heq).2
        rw [hhost] at hafter
        exact hafter.symm

/-- A host that goes from one group to another. -/
theorem HostsOk.move (h : HostsOk user) (hplain : inherited? hostUid = none) (hne : gid ≠ gid')
    (hgroup : (readHostGroups user).get? gid = some group) (hhost : (readGroupHosts group).get? hostUid = some host)
    (hgroup' : (readHostGroups user).get? gid' = some group') :
    HostsOk ⟨some (((readHostGroups user).set gid (group.without hostUid)).set gid'
      (group'.receive hostUid (.own host)))⟩ ∧
      (hostsOf (((readHostGroups user).set gid (group.without hostUid)).set gid'
        (group'.receive hostUid (.own host)))).Perm (registered user) := by
  have hnew : (readGroupHosts group').get? hostUid = none := by
    rw [Option.eq_none_iff_forall_ne_some]
    intro host' hhost'
    exact hne (h.apart.group_unique hgroup hgroup' hhost hhost')
  have hbetween : ((readHostGroups user).set gid (group.without hostUid)).get? gid' = some group' := by
    rw [Dict.get?_set, if_neg hne.symm, hgroup']
  have hperm : (hostsOf (((readHostGroups user).set gid (group.without hostUid)).set gid'
      (group'.receive hostUid (.own host)))).Perm (registered user) :=
    calc hostsOf (((readHostGroups user).set gid (group.without hostUid)).set gid'
          (group'.receive hostUid (.own host)))
      _ ~ ((hostUid, host) :: (readGroupHosts group').entries) ++
          hostsOf (((readHostGroups user).set gid (group.without hostUid)).erase gid') :=
        (hostsOf_set _ _ _).trans ((receive_perm hplain hnew).append_right _)
      _ ~ (hostUid, host) :: hostsOf ((readHostGroups user).set gid (group.without hostUid)) :=
        (hostsOf_get hbetween).symm.cons _
      _ ~ ((hostUid, host) :: (readGroupHosts (group.without hostUid)).entries) ++
          hostsOf ((readHostGroups user).erase gid) := (hostsOf_set _ _ _).cons _
      _ ~ (readGroupHosts group).entries ++ hostsOf ((readHostGroups user).erase gid) :=
        (without_perm hhost).symm.append_right _
      _ ~ registered user := (hostsOf_get hgroup).symm
  refine ⟨⟨h.apart.perm hperm.symm, ?_, fun gid₁ group₁ hget => ?_⟩, hperm⟩
  · exact Nat.le_trans (Nat.le_of_eq ((countAllHosts_eq _).trans hperm.length_eq)) h.length_le
  · have hcases : (if gid₁ = gid' then some (group'.receive hostUid (.own host)) else
        if gid₁ = gid then some (group.without hostUid) else (readHostGroups user).get? gid₁) = some group₁ := by
      rw [← Dict.get?_set, ← Dict.get?_set]
      exact hget
    split at hcases
    · exact Option.some.inj hcases ▸ (h.defaults gid' group' hgroup').receive hplain
    · split at hcases
      · exact Option.some.inj hcases ▸ (h.defaults gid group hgroup).without (h.keyed hgroup)
      · exact h.defaults gid₁ group₁ hcases

/-- `moveHost` neither loses nor duplicates a host. -/
theorem moveHost_keeps (h : HostsOk user) (hplain : inherited? hostUid = none) (htarget : inherited? gid = none) :
    (moveHost user hostUid gid).Keeps fun user' => HostsOk user' ∧ (registered user').Perm (registered user) := by
  obtain ⟨hassigned, hmoved⟩ := @moveHostToGroup_eq user _ _ hplain htarget
  unfold moveHost
  split
  · rename_i user' assigned heq
    rw [heq] at hassigned hmoved
    refine ⟨hassigned, fun user'' hresult => ?_⟩
    obtain rfl := Except.ok.inj hresult
    rcases hmoved user' rfl with rfl | ⟨user₁, src, group, group', host, huser, hne, hgroup, hhost, hgroup', rfl⟩
    · exact ⟨h, List.Perm.refl _⟩
    · have h₁ : HostsOk user₁ := by
        rcases huser with rfl | rfl
        · exact h
        · exact h.ensureUngroupedGroup
      have hsame : (registered user₁).Perm (registered user) := by
        rcases huser with rfl | rfl
        · exact List.Perm.refl _
        · exact registered_ensureUngroupedGroup user
      obtain ⟨hok, hperm⟩ := h₁.move hplain hne hgroup hhost hgroup'
      exact ⟨hok, hperm.trans hsame⟩
  · rename_i user' assigned heq
    rw [heq] at hassigned
    split
    · exact ⟨hassigned, nofun⟩
    · exact ⟨hassigned, nofun⟩

/-! ### Leaving out hosts -/

theorem deleteHost_keeps (h : HostsOk user) : (deleteHost user hostUid).Keeps HostsOk := by
  unfold deleteHost removeHostFromUser
  cases href : findHostRef user hostUid with
  | none => exact keeps_throw _ _
  | some ref =>
    obtain ⟨hgroup, -⟩ := findHostRef_get href
    have hsub : ((readGroupHosts (ref.group.without hostUid)).entries ++
        hostsOf ((readHostGroups user).erase ref.groupId)).Sublist
          ((readGroupHosts ref.group).entries ++ hostsOf ((readHostGroups user).erase ref.groupId)) :=
      List.Sublist.append_right List.filter_sublist _
    have hnew := hostsOf_set (readHostGroups user) ref.groupId (ref.group.without hostUid)
    have hold := hostsOf_get hgroup
    refine keeps_pure (h.set (((h.apart.perm hold).sublist hsub).perm hnew.symm) ?_
      ((h.defaults _ _ hgroup).without (h.keyed hgroup)))
    calc (hostsOf ((readHostGroups user).set ref.groupId (ref.group.without hostUid))).length
      _ = _ := hnew.length_eq
      _ ≤ _ := hsub.length_le
      _ = (registered user).length := hold.length_eq.symm
      _ ≤ 400 := h.length_le

theorem deleteHostGroup_keeps (h : HostsOk user) : (deleteHostGroup user gid).Keeps HostsOk := by
  unfold deleteHostGroup
  split
  · exact keeps_throw _ _
  · rename_i hne
    unfold deleteGroup
    rw [if_neg hne]
    cases get (readHostGroups user) gid with
    | none => exact keeps_pure h
    | some _ =>
      have hsub := hostsOf_erase_sublist (readHostGroups user) gid
      refine keeps_pure ⟨h.apart.sublist hsub, ?_, fun gid' group' hgroup' => ?_⟩
      · exact Nat.le_trans (Nat.le_of_eq (countAllHosts_eq _)) (Nat.le_trans hsub.length_le h.length_le)
      · exact h.defaults gid' group' (Dict.erase_within _ _ hgroup')

/-! ### Groups -/

theorem createHostGroup_keeps (h : HostsOk user) (letter : Char → Bool) {name : Text} {createdAt : String}
    (hunused : user.unused gid = true) : (createHostGroup letter user name gid createdAt).Keeps HostsOk := by
  obtain ⟨hnone, -, hplain⟩ := unused_iff hunused
  simp only [createHostGroup]
  split
  · exact keeps_throw _ _
  · split
    · refine keeps_pure ?_
      simp only [createEmptyGroup, assign_of_plain hplain]
      exact h.set_empty hnone
    · exact keeps_throw _ _

theorem DefaultOk.patched {patch : GroupPatch} {next : Option String} (hdefault : DefaultOk group)
    (hplain : ∀ next ∈ patch.defaultHostUid, ∀ uid ∈ next, inherited? uid = none)
    (h : patchedDefault group patch = .ok next) : DefaultOk { group with defaultHostUid := next } := by
  unfold patchedDefault at h
  split at h
  · obtain rfl := Except.ok.inj h
    exact hdefault
  · rename_i next' hnext
    unfold checkDefaultHost at h
    split at h
    · obtain rfl := Except.ok.inj h
      exact nofun
    · rename_i uid
      split at h
      · cases h
      · rename_i hfound
        obtain rfl := Except.ok.inj h
        intro uid' huid' hne
        obtain rfl := Option.some.inj huid'
        rw [get_of_plain (hplain _ hnext _ rfl)] at hfound
        simp only [hne, ne_eq, not_false_eq_true, decide_true, Bool.true_and, Option.isNone_map, Bool.not_eq_true,
          Option.isNone_eq_false_iff] at hfound
        exact Option.isSome_iff_exists.1 hfound

theorem updateOwnGroup_ok {letter : Char → Bool} {patch : GroupPatch}
    (hplain : ∀ next ∈ patch.defaultHostUid, ∀ uid ∈ next, inherited? uid = none) (hdefault : DefaultOk group)
    (h : updateOwnGroup letter gid group patch = .ok group') :
    readGroupHosts group' = readGroupHosts group ∧ DefaultOk group' := by
  unfold updateOwnGroup at h
  cases hname : patchedName letter gid group patch with
  | error code =>
    rw [hname] at h
    cases h
  | ok name =>
    rw [hname] at h
    cases hnext : patchedDefault group patch with
    | error code =>
      rw [hnext] at h
      cases h
    | ok next =>
      rw [hnext] at h
      obtain rfl := Except.ok.inj h
      exact ⟨rfl, hdefault.patched hplain hnext⟩

theorem updateHostGroup_keeps (h : HostsOk user) (letter : Char → Bool) {patch : GroupPatch}
    (hplain : inherited? gid = none) (hnext : ∀ next ∈ patch.defaultHostUid, ∀ uid ∈ next, inherited? uid = none) :
    (updateHostGroup letter user gid patch).Keeps HostsOk := by
  unfold updateHostGroup updateGroup
  rw [get_of_plain hplain]
  cases hgroup : (readHostGroups user).get? gid with
  | none => exact ⟨rfl, nofun⟩
  | some group =>
    cases hupdated : updateOwnGroup letter gid group patch with
    | error code =>
      simp only [Option.map_some, hupdated]
      exact ⟨rfl, nofun⟩
    | ok group' =>
      simp only [Option.map_some, hupdated]
      obtain ⟨hread, hdefault⟩ := updateOwnGroup_ok hnext (h.defaults gid group hgroup) hupdated
      have hperm : (hostsOf ((readHostGroups user).set gid group')).Perm (registered user) := by
        refine (hostsOf_set _ _ _).trans ?_
        rw [hread]
        exact (hostsOf_get hgroup).symm
      exact keeps_pure (h.set (h.apart.perm hperm.symm) (Nat.le_trans (Nat.le_of_eq hperm.length_eq) h.length_le)
        hdefault)

/-! ### Every call -/

theorem modify_keeps (h : HostsOk user) (letter : Char → Bool) {c : Call} (hplain : c.Plain)
    (hdrawn : c.drawn?.all user.unused = true) : (c.modify letter user).Keeps HostsOk := by
  cases c with
  | addHost => exact addHost_keeps h hplain hdrawn
  | updateHost => exact updateHost_keeps h hplain
  | moveHost =>
    have hmoved := moveHost_keeps h hplain.1 hplain.2
    exact ⟨hmoved.1, fun user' hresult => (hmoved.2 user' hresult).1⟩
  | deleteHost => exact deleteHost_keeps h
  | createHostGroup => exact createHostGroup_keeps h letter hdrawn
  | updateHostGroup => exact updateHostGroup_keeps h letter hplain.1 hplain.2
  | deleteHostGroup => exact deleteHostGroup_keeps h

end hosts

end CubridWebManager.HostGroups
