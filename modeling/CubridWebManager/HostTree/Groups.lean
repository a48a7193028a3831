import CubridWebManager.Lib.Dict
import CubridWebManager.Lib.JsText

/-!
# The tree of hosts as the client has it

The groups of hosts that the server sends, without credentials.
-/

namespace CubridWebManager.HostTree

structure Host where
  uid : String
  id : Option String
  address : Option String
  port : Option Int
  hostAlias : Option Text
  initialLogin : Option Bool
  cmsSessionExpiresAt : Option Nat
  deriving DecidableEq

structure HostGroup where
  name : Text
  hosts : Option (Dict String Host)
  deriving DecidableEq

/-- `group.hosts || {}` -/
def HostGroup.entries (group : HostGroup) : Dict String Host := group.hosts.getD .empty

abbrev HostGroups := Dict String HostGroup

def flattenHostsFromGroups (hostGroups : HostGroups) : List Host :=
  hostGroups.entries.flatMap fun e => e.2.entries.entries.map Prod.snd

def findGroupIdForHost (hostGroups : HostGroups) (hostUid : String) : Option String :=
  if hostUid = "" then none
  else hostGroups.entries.findSome? fun e => (e.2.entries.get? hostUid).map fun _ => e.1

/-- Every host stands under its own uid, which is not empty. -/
def Keyed (hostGroups : HostGroups) : Prop :=
  ∀ e ∈ hostGroups.entries, ∀ e' ∈ e.2.entries.entries, e'.2.uid = e'.1 ∧ e'.1 ≠ ""

variable {hostGroups : HostGroups} {hostUid groupId : String}

theorem findGroupIdForHost_eq_some (h : findGroupIdForHost hostGroups hostUid = some groupId) :
    ∃ group host, hostGroups.get? groupId = some group ∧ group.entries.get? hostUid = some host := by
  unfold findGroupIdForHost at h
  split at h
  · cases h
  · obtain ⟨⟨gid, group⟩, hmem, hfound⟩ := List.exists_of_findSome?_eq_some h
    obtain ⟨host, hhost, rfl⟩ := Option.map_eq_some_iff.1 hfound
    exact ⟨group, host, Dict.get?_eq_some_iff.2 hmem, hhost⟩

/-- A host that is in a group is in the flat list. -/
theorem mem_flattenHosts (hkeyed : Keyed hostGroups) (h : findGroupIdForHost hostGroups hostUid = some groupId) :
    ∃ host ∈ flattenHostsFromGroups hostGroups, host.uid = hostUid := by
  obtain ⟨group, host, hgroup, hhost⟩ := findGroupIdForHost_eq_some h
  have hentry := Dict.get?_eq_some_iff.1 hgroup
  have hmem := Dict.get?_eq_some_iff.1 hhost
  exact ⟨host, List.mem_flatMap.2 ⟨_, hentry, List.mem_map_of_mem hmem⟩, (hkeyed _ hentry _ hmem).1⟩

end CubridWebManager.HostTree
