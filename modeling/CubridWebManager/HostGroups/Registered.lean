import Mathlib.Data.List.Flatten
import CubridWebManager.HostGroups.Service

/-!
# The registered hosts of a record

The hosts of all groups in one list, whose order does not matter: what `set`, `receive` and `without` make of it
(`registered_set`, `receive_perm`, `without_perm`), and what it means that a host was found or that there is no duplicate
of one.
-/

namespace CubridWebManager.HostGroups

open JsObject

/-! ### Groups -/

/-- The hosts of these groups. -/
def hostsOf (groups : Dict String HostGroupInfo) : List (String × HostInfo) :=
  groups.entries.flatMap fun e => (readGroupHosts e.2).entries

section groups

variable {user : User} {groups : Dict String HostGroupInfo} {gid hostUid : String} {group : HostGroupInfo}
  {host : HostInfo}

theorem countAllHosts_eq (user : User) : countAllHosts user = (registered user).length := by
  simp only [countAllHosts, registered, List.length_flatMap, Dict.keys, List.length_map]

theorem hostsOf_set (groups : Dict String HostGroupInfo) (gid : String) (group : HostGroupInfo) :
    (hostsOf (groups.set gid group)).Perm ((readGroupHosts group).entries ++ hostsOf (groups.erase gid)) :=
  (groups.set_perm gid group).flatMap_right _

theorem hostsOf_get (h : groups.get? gid = some group) :
    (hostsOf groups).Perm ((readGroupHosts group).entries ++ hostsOf (groups.erase gid)) :=
  (Dict.perm_erase h).flatMap_right _

theorem mem_hostsOf (h : groups.get? gid = some group) (hhost : (readGroupHosts group).get? hostUid = some host) :
    (hostUid, host) ∈ hostsOf groups :=
  List.mem_flatMap.2 ⟨_, Dict.get?_eq_some_iff.1 h, Dict.get?_eq_some_iff.1 hhost⟩

theorem exists_of_mem_hostsOf (h : (hostUid, host) ∈ hostsOf groups) :
    ∃ gid group, groups.get? gid = some group ∧ (readGroupHosts group).get? hostUid = some host := by
  obtain ⟨⟨gid, group⟩, hgroup, hhost⟩ := List.mem_flatMap.1 h
  exact ⟨gid, group, Dict.get?_eq_some_iff.2 hgroup, Dict.get?_eq_some_iff.2 hhost⟩

theorem hostsOf_erase_sublist (groups : Dict String HostGroupInfo) (gid : String) :
    (hostsOf (groups.erase gid)).Sublist (hostsOf groups) :=
  List.Sublist.flatMap List.filter_sublist _

/-- A group without a host has the others. -/
theorem without_perm (h : (readGroupHosts group).get? hostUid = some host) :
    (readGroupHosts group).entries.Perm ((hostUid, host) :: (readGroupHosts (group.without hostUid)).entries) :=
  Dict.perm_erase h

/-- A group that takes a host which it does not have has it besides the others. -/
theorem receive_perm (hplain : inherited? hostUid = none) (h : (readGroupHosts group).get? hostUid = none) :
    (readGroupHosts (group.receive hostUid (.own host))).entries.Perm
      ((hostUid, host) :: (readGroupHosts group).entries) := by
  have hset : readGroupHosts (group.receive hostUid (.own host)) = (readGroupHosts group).set hostUid host :=
    assign_of_plain hplain
  rw [hset]
  refine (Dict.set_perm _ _ _).trans ?_
  rw [Dict.erase_of_none h]

/-! ### Finding a host -/

/-- A host that was found was found in a group of the record. -/
theorem findHostRef_get {ref : HostRef} (h : findHostRef user hostUid = some ref) :
    (readHostGroups user).get? ref.groupId = some ref.group ∧ get (readGroupHosts ref.group) hostUid = some ref.host := by
  obtain ⟨⟨gid, group⟩, hmem, hfound⟩ := List.exists_of_findSome?_eq_some h
  obtain ⟨found, hget, rfl⟩ := Option.map_eq_some_iff.1 hfound
  exact ⟨Dict.get?_eq_some_iff.2 hmem, hget⟩

/-- If no object inherits a property of its name, it is a host of that group. -/
theorem findHostRef_some (hplain : inherited? hostUid = none) {ref : HostRef} (h : findHostRef user hostUid = some ref) :
    (readHostGroups user).get? ref.groupId = some ref.group ∧
      ∃ host, ref.host = .own host ∧ (readGroupHosts ref.group).get? hostUid = some host := by
  obtain ⟨hgroup, hget⟩ := findHostRef_get h
  rw [get_of_plain hplain] at hget
  obtain ⟨host, hhost, heq⟩ := Option.map_eq_some_iff.1 hget
  exact ⟨hgroup, host, heq.symm, hhost⟩

theorem findHostRef_none (hplain : inherited? hostUid = none) :
    findHostRef user hostUid = none ↔ ∀ host, (hostUid, host) ∉ registered user := by
  rw [findHostRef, List.findSome?_eq_none_iff]
  constructor
  · intro h host hmem
    obtain ⟨gid, group, hgroup, hhost⟩ := exists_of_mem_hostsOf hmem
    have hnone := h _ (Dict.get?_eq_some_iff.1 hgroup)
    rw [get_of_some hhost] at hnone
    cases hnone
  · rintro h ⟨gid, group⟩ hmem
    rw [Option.map_eq_none_iff, get_of_plain hplain, Option.map_eq_none_iff]
    refine Option.eq_none_iff_forall_ne_some.2 fun host hhost => ?_
    exact h host (mem_hostsOf (Dict.get?_eq_some_iff.2 hmem) hhost)

end groups

/-! ### Hosts apart -/

/-- The two registrations are of different hosts: they have different keys, connections and aliases. -/
structure Apart (e e' : String × HostInfo) : Prop where
  key : e.1 ≠ e'.1
  connection : e.2.connection ≠ e'.2.connection
  hostAlias : hasSameDefinedAlias e.2.hostAlias e'.2.hostAlias = false

theorem hasSameDefinedAlias_comm (a b : Option Text) : hasSameDefinedAlias a b = hasSameDefinedAlias b a := by
  unfold hasSameDefinedAlias
  rw [Bool.eq_iff_iff]
  simp only [Bool.and_eq_true, decide_eq_true_eq]
  exact ⟨fun ⟨⟨h₁, h₂⟩, h₃⟩ => ⟨⟨h₂, h₁⟩, h₃.symm⟩, fun ⟨⟨h₁, h₂⟩, h₃⟩ => ⟨⟨h₂, h₁⟩, h₃.symm⟩⟩

theorem Apart.symm {e e' : String × HostInfo} (h : Apart e e') : Apart e' e :=
  ⟨h.key.symm, h.connection.symm, by rw [hasSameDefinedAlias_comm]; exact h.hostAlias⟩

/-- Hosts under their own uids, all of them apart. -/
structure AllApart (l : List (String × HostInfo)) : Prop where
  keyed : ∀ e ∈ l, e.2.uid = e.1
  apart : l.Pairwise Apart

namespace AllApart

variable {l l' : List (String × HostInfo)} {e : String × HostInfo}

theorem perm (h : AllApart l) (hperm : l.Perm l') : AllApart l' :=
  ⟨fun e he => h.keyed e (hperm.mem_iff.2 he), (hperm.pairwise_iff Apart.symm).1 h.apart⟩

theorem sublist (h : AllApart l) (hsub : l'.Sublist l) : AllApart l' :=
  ⟨fun e he => h.keyed e (hsub.subset he), h.apart.sublist hsub⟩

theorem cons (h : AllApart l) (hkeyed : e.2.uid = e.1) (hapart : ∀ e' ∈ l, Apart e e') : AllApart (e :: l) :=
  ⟨List.forall_mem_cons.2 ⟨hkeyed, h.keyed⟩, List.pairwise_cons.2 ⟨hapart, h.apart⟩⟩

end AllApart

/-- A host of which no duplicate was found is apart from the hosts that were looked at. -/
theorem apart_of_noDuplicate {user : User} {host : HostInfo} {excludeHostUid : Option String}
    (hconnection : findDuplicateHost user host.connection excludeHostUid = none)
    (halias : findDuplicateAlias user host.hostAlias excludeHostUid = none) {e : String × HostInfo}
    (he : e ∈ registered user) (hexcluded : excluded excludeHostUid e.2 = false) {key : String} (hkey : key ≠ e.1) :
    Apart (key, host) e := by
  have hmem : e.2 ∈ (registered user).map Prod.snd := List.mem_map_of_mem he
  refine ⟨hkey, fun heq => ?_, ?_⟩
  · have hnone := List.find?_eq_none.1 hconnection e.2 hmem
    rw [hexcluded] at hnone
    simp only [Bool.not_false, Bool.true_and, decide_eq_true_eq] at hnone
    exact hnone heq.symm
  · have hnone := List.find?_eq_none.1 halias e.2 hmem
    rw [hexcluded] at hnone
    simp only [Bool.not_false, Bool.true_and, Bool.not_eq_true] at hnone
    rw [hasSameDefinedAlias_comm]
    exact hnone

/-! ### Default hosts -/

/-- The default host of the group is unset, empty or one of its hosts. -/
def DefaultOk (group : HostGroupInfo) : Prop :=
  ∀ uid, group.defaultHostUid = some uid → uid ≠ "" → ∃ host, (readGroupHosts group).get? uid = some host

section defaults

variable {group : HostGroupInfo} {hostUid : String} {host : HostInfo}

theorem DefaultOk.receive (h : DefaultOk group) (hplain : inherited? hostUid = none) :
    DefaultOk (group.receive hostUid (.own host)) := by
  have hset : readGroupHosts (group.receive hostUid (.own host)) = (readGroupHosts group).set hostUid host :=
    assign_of_plain hplain
  intro uid huid hne
  rw [hset, Dict.get?_set]
  split
  · exact ⟨host, rfl⟩
  · rename_i hother
    refine h uid ?_ hne
    simp only [HostGroupInfo.receive] at huid
    split at huid
    · exact absurd (Option.some.inj huid).symm hother
    · exact huid

theorem DefaultOk.without (h : DefaultOk group) (hkeyed : ∀ e ∈ (readGroupHosts group).entries, e.2.uid = e.1) :
    DefaultOk (group.without hostUid) := by
  have herase : readGroupHosts (group.without hostUid) = (readGroupHosts group).erase hostUid := rfl
  intro uid huid hne
  rw [herase]
  simp only [HostGroupInfo.without] at huid
  split at huid
  · obtain ⟨e, he, rfl⟩ := Option.map_eq_some_iff.1 huid
    have hmem := List.mem_of_mem_head? he
    rw [hkeyed e (List.mem_of_mem_filter hmem)]
    exact ⟨e.2, Dict.get?_eq_some_iff.2 hmem⟩
  · rename_i hother
    obtain ⟨host, hhost⟩ := h uid huid hne
    refine ⟨host, ?_⟩
    rw [Dict.get?_erase, if_neg]
    · exact hhost
    · rintro rfl
      exact hother huid

end defaults

end CubridWebManager.HostGroups
