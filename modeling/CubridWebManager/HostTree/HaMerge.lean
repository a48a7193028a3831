import CubridWebManager.HostGroups.Invariant
import CubridWebManager.HostTree.HaPeers
import Mathlib.Data.List.Induction

/-!
# After the merge of HA peers

The hosts of a plan are moved, one after the other, to the group of the host that was logged in to.  Each move keeps the
hosts and changes the group of one of them (`exists_move`), so afterwards the plan's peers are in that group and the
others where they were.  The next plan matches the nodes with the same hosts in another order: it finds nothing to do
just when every host that matches a node is in the group by then.
-/

namespace CubridWebManager.HostTree

open HostGroups JsObject
open scoped List

/-- The ids of a record that the service keeps are no names of inherited properties. -/
structure WellKept (user : User) : Prop extends HostsOk user where
  uids : ∀ e ∈ registered user, inherited? e.1 = none ∧ e.1 ≠ ""
  groupIds : ∀ gid group, (readHostGroups user).get? gid = some group → inherited? gid = none ∧ gid ≠ ""

/-- The host is in the group. -/
def InGroup (user : User) (gid uid : String) : Prop :=
  ∃ group host, (readHostGroups user).get? gid = some group ∧ (readGroupHosts group).get? uid = some host

section groups

variable {user user' : User} {expiresAt : HostInfo → Option Nat} {gid gid' uid : String}

/-! ### The tree that the client gets -/

theorem get?_safeHosts (hosts : Dict String HostInfo) (uid : String) :
    (safeHosts expiresAt hosts).get? uid = (hosts.get? uid).map (toSafeHost expiresAt) := by
  simp only [safeHosts, Dict.get?, List.find?_map, Option.map_map]
  rfl

theorem get?_safeGroups (groups : Dict String HostGroupInfo) (gid : String) :
    (safeGroups expiresAt groups).get? gid =
      (groups.get? gid).map fun group => ⟨group.name, some (safeHosts expiresAt (readGroupHosts group))⟩ := by
  simp only [safeGroups, Dict.get?, List.find?_map, Option.map_map]
  rfl

/-- The groups of the record, and perhaps an empty one. -/
theorem sanitizeHostGroups_cases (expiresAt : HostInfo → Option Nat) (user : User) :
    sanitizeHostGroups expiresAt user = safeGroups expiresAt (readHostGroups user) ∨
      (safeGroups expiresAt (readHostGroups user)).get? ungroupedGroupId = none ∧ sanitizeHostGroups expiresAt user =
        (safeGroups expiresAt (readHostGroups user)).set ungroupedGroupId ⟨"Ungrouped".toList, some .empty⟩ := by
  unfold sanitizeHostGroups
  dsimp only
  split
  · exact .inl rfl
  · rename_i hnone
    rw [Option.not_isSome_iff_eq_none] at hnone
    exact .inr ⟨hnone, rfl⟩

theorem flatten_safeGroups (expiresAt : HostInfo → Option Nat) (groups : Dict String HostGroupInfo) :
    flattenHostsFromGroups (safeGroups expiresAt groups) =
      (hostsOf groups).map fun e => toSafeHost expiresAt e.2 := by
  simp only [flattenHostsFromGroups, safeGroups, hostsOf, List.flatMap_map, List.map_flatMap]
  refine List.flatMap_congr fun e _ => ?_
  simp only [HostGroup.entries, Option.getD_some, safeHosts, List.map_map]
  rfl

theorem flatten_sanitize (expiresAt : HostInfo → Option Nat) (user : User) :
    flattenHostsFromGroups (sanitizeHostGroups expiresAt user) =
      (registered user).map fun e => toSafeHost expiresAt e.2 := by
  rcases sanitizeHostGroups_cases expiresAt user with heq | ⟨hnone, heq⟩ <;> rw [heq]
  · exact flatten_safeGroups _ _
  · have hnot : ungroupedGroupId ∉ (safeGroups expiresAt (readHostGroups user)).keys := by
      rw [Dict.mem_keys]
      simp [hnone]
    have hlast := flatten_safeGroups expiresAt (readHostGroups user)
    unfold flattenHostsFromGroups at hlast ⊢
    rw [Dict.entries_set_of_not_mem hnot, List.flatMap_append, hlast]
    exact List.append_nil _

/-- The groups of the tree have the hosts that the groups of the record have. -/
theorem inGroup_iff (expiresAt : HostInfo → Option Nat) : InGroup user gid uid ↔ ∃ group host,
    (sanitizeHostGroups expiresAt user).get? gid = some group ∧ group.entries.get? uid = some host := by
  have hsafe : InGroup user gid uid ↔ ∃ group host,
      (safeGroups expiresAt (readHostGroups user)).get? gid = some group ∧ group.entries.get? uid = some host := by
    simp only [get?_safeGroups, InGroup, Option.map_eq_some_iff]
    constructor
    · rintro ⟨group, host, hgroup, hhost⟩
      refine ⟨_, toSafeHost expiresAt host, ⟨group, hgroup, rfl⟩, ?_⟩
      exact (get?_safeHosts _ _).trans (by rw [hhost]; rfl)
    · rintro ⟨_, safe, ⟨group, hgroup, rfl⟩, hsafe⟩
      obtain ⟨host, hhost, -⟩ := Option.map_eq_some_iff.1 ((get?_safeHosts _ _).symm.trans hsafe)
      exact ⟨group, host, hgroup, hhost⟩
  rw [hsafe]
  rcases sanitizeHostGroups_cases expiresAt user with heq | ⟨hnone, heq⟩ <;> rw [heq]
  simp only [Dict.get?_set]
  by_cases hgid : gid = ungroupedGroupId
  · subst hgid
    simp [hnone, HostGroup.entries]
  · simp [hgid]

theorem WellKept.group_unique (h : WellKept user) (hin : InGroup user gid uid) (hin' : InGroup user gid' uid) :
    gid = gid' := by
  obtain ⟨group, host, hgroup, hhost⟩ := hin
  obtain ⟨group', host', hgroup', hhost'⟩ := hin'
  exact h.apart.group_unique hgroup hgroup' hhost hhost'

theorem WellKept.plain (h : WellKept user) (hin : InGroup user gid uid) : inherited? uid = none ∧ uid ≠ "" := by
  obtain ⟨group, host, hgroup, hhost⟩ := hin
  exact h.uids _ (mem_hostsOf hgroup hhost)

theorem findGroupIdForHost_iff (h : WellKept user) :
    findGroupIdForHost (sanitizeHostGroups expiresAt user) uid = some gid ↔ InGroup user gid uid := by
  have hfound : ∀ {gid}, findGroupIdForHost (sanitizeHostGroups expiresAt user) uid = some gid → InGroup user gid uid :=
    fun hgid => (inGroup_iff _).2 (findGroupIdForHost_eq_some hgid)
  refine ⟨hfound, fun hin => ?_⟩
  cases hgid : findGroupIdForHost (sanitizeHostGroups expiresAt user) uid with
  | some gid' => rw [h.group_unique hin (hfound hgid)]
  | none =>
    obtain ⟨group, host, hgroup, hhost⟩ := (inGroup_iff expiresAt).1 hin
    rw [findGroupIdForHost, if_neg (h.plain hin).2, List.findSome?_eq_none_iff] at hgid
    have hnone := hgid _ (Dict.get?_eq_some_iff.1 hgroup)
    rw [hhost] at hnone
    cases hnone

/-- Every host of the tree is in a group. -/
theorem exists_inGroup (h : WellKept user) {host : Host}
    (hhost : host ∈ flattenHostsFromGroups (sanitizeHostGroups expiresAt user)) : ∃ gid, InGroup user gid host.uid := by
  rw [flatten_sanitize] at hhost
  obtain ⟨⟨uid, info⟩, hmem, rfl⟩ := List.mem_map.1 hhost
  obtain ⟨gid, group, hgroup, hget⟩ := exists_of_mem_hostsOf hmem
  have huid : info.uid = uid := h.apart.keyed _ hmem
  refine ⟨gid, group, info, hgroup, ?_⟩
  show (readGroupHosts group).get? info.uid = some info
  rw [huid, hget]

/-! ### Moving a host -/

/-- A record whose hosts are the same and whose groups have the same ids. -/
theorem WellKept.of_perm (h : WellKept user) (hok : HostsOk user') (hperm : (registered user').Perm (registered user))
    (hgroups : ∀ gid group, (readHostGroups user').get? gid = some group →
      ∃ group', (readHostGroups user).get? gid = some group') : WellKept user' := by
  refine ⟨hok, fun e he => h.uids e (hperm.mem_iff.1 he), fun gid group hgroup => ?_⟩
  obtain ⟨group', hgroup'⟩ := hgroups gid group hgroup
  exact h.groupIds gid group' hgroup'

/-- What it comes to that a host is moved to a group of the record. -/
structure Moved (user user' : User) (hostUids : List String) (target : String) : Prop where
  wellKept : WellKept user'
  perm : (registered user').Perm (registered user)
  stored : ∃ group, (readHostGroups user').get? target = some group
  inGroup : ∀ gid uid, InGroup user' gid uid ↔
    if uid ∈ hostUids then gid = target ∧ ∃ gid', InGroup user gid' uid else InGroup user gid uid

theorem findHostRef_of_inGroup (h : WellKept user) (hin : InGroup user gid uid) : ∃ group host,
    findHostRef user uid = some ⟨gid, group, .own host⟩ ∧ (readHostGroups user).get? gid = some group ∧
      (readGroupHosts group).get? uid = some host := by
  obtain ⟨hplain, -⟩ := h.plain hin
  cases href : findHostRef user uid with
  | none =>
    obtain ⟨group, host, hgroup, hhost⟩ := hin
    exact absurd (mem_hostsOf hgroup hhost) ((findHostRef_none hplain).1 href host)
  | some ref =>
    obtain ⟨hgroup, host, hown, hhost⟩ := findHostRef_some hplain href
    obtain rfl := h.group_unique hin ⟨_, _, hgroup, hhost⟩
    exact ⟨ref.group, host, by rw [← hown], hgroup, hhost⟩

/-- Who is in which group after a host has gone from one to another. -/
theorem inGroup_move (h : WellKept user) {group group' : HostGroupInfo} {host : HostInfo} (hne : gid ≠ gid')
    (hgroup : (readHostGroups user).get? gid = some group) (hhost : (readGroupHosts group).get? uid = some host)
    (hgroup' : (readHostGroups user).get? gid' = some group') (g w : String) :
    InGroup ⟨some (((readHostGroups user).set gid (group.without uid)).set gid' (group'.receive uid (.own host)))⟩ g w ↔
      if w = uid then g = gid' else InGroup user g w := by
  have hplain := (h.plain ⟨_, _, hgroup, hhost⟩).1
  have hreceive : readGroupHosts (group'.receive uid (.own host)) = (readGroupHosts group').set uid host :=
    assign_of_plain hplain
  have hwithout : readGroupHosts (group.without uid) = (readGroupHosts group).erase uid := rfl
  have hget : (((readHostGroups user).set gid (group.without uid)).set gid' (group'.receive uid (.own host))).get? g =
      if g = gid' then some (group'.receive uid (.own host)) else
        if g = gid then some (group.without uid) else (readHostGroups user).get? g := by
    rw [Dict.get?_set, Dict.get?_set]
  have hread : InGroup ⟨some (((readHostGroups user).set gid (group.without uid)).set gid'
      (group'.receive uid (.own host)))⟩ g w ↔ ∃ group₁ host₁,
        (if g = gid' then some (group'.receive uid (.own host)) else
          if g = gid then some (group.without uid) else (readHostGroups user).get? g) = some group₁ ∧
        (readGroupHosts group₁).get? w = some host₁ := by
    rw [← hget]
    rfl
  rw [hread]
  by_cases hg' : g = gid'
  · subst hg'
    simp only [↓reduceIte, Option.some.injEq, exists_and_left, exists_eq_left', hreceive, Dict.get?_set]
    by_cases hw : w = uid
    · simp [hw]
    · simp only [hw, ↓reduceIte, InGroup, hgroup', Option.some.injEq, exists_and_left, exists_eq_left']
  · by_cases hg : g = gid
    · subst hg
      simp only [hg', ↓reduceIte, Option.some.injEq, exists_and_left, exists_eq_left', hwithout, Dict.get?_erase]
      by_cases hw : w = uid
      · simp [hw]
      · simp only [hw, ↓reduceIte, InGroup, hgroup, Option.some.injEq, exists_and_left, exists_eq_left']
    · simp only [hg', hg, ↓reduceIte]
      split
      · rename_i hw
        subst hw
        refine iff_of_false ?_ id
        rintro ⟨group₁, host₁, hgroup₁, hhost₁⟩
        exact hg (h.group_unique ⟨_, _, hgroup₁, hhost₁⟩ ⟨_, _, hgroup, hhost⟩)
      · rfl

theorem exists_move (h : WellKept user) {target : String} {group' : HostGroupInfo}
    (hstored : (readHostGroups user).get? target = some group') (hin : InGroup user gid uid) :
    ∃ user', (moveHostToGroup user uid target).1 = (true, user') ∧ Moved user user' [uid] target := by
  obtain ⟨hplain, -⟩ := h.plain hin
  have htarget := (h.groupIds target group' hstored).1
  obtain ⟨group, host, href, hgroup, hhost⟩ := findHostRef_of_inGroup h hin
  unfold moveHostToGroup
  rw [href]
  dsimp only
  split
  · rename_i heq
    refine ⟨user, rfl, h, List.Perm.refl _, ⟨group', hstored⟩, fun g w => ?_⟩
    simp only [List.mem_singleton]
    split
    · rename_i hw
      subst hw
      constructor
      · intro hin'
        exact ⟨h.group_unique hin' (heq ▸ hin), g, hin'⟩
      · rintro ⟨rfl, -⟩
        exact heq ▸ hin
    · rfl
  · rename_i hne
    have hsame : (if target = ungroupedGroupId then ensureUngroupedGroup user else user) = user := by
      split
      · rename_i hungrouped
        unfold ensureUngroupedGroup
        rw [← hungrouped, get_of_some hstored]
        rfl
      · rfl
    rw [hsame, get_of_some hstored]
    dsimp only
    obtain ⟨hok, hperm⟩ := h.toHostsOk.move hplain hne hgroup hhost hstored
    refine ⟨_, rfl, h.of_perm hok hperm fun g group₁ hget => ?_, hperm, ?_, fun g w => ?_⟩
    · have hcases : (if g = target then some (group'.receive uid (.own host)) else
          if g = gid then some (group.without uid) else (readHostGroups user).get? g) = some group₁ := by
        rw [← Dict.get?_set, ← Dict.get?_set]
        exact hget
      split at hcases
      · rename_i hg
        exact ⟨group', hg ▸ hstored⟩
      · split at hcases
        · rename_i hg
          exact ⟨group, hg ▸ hgroup⟩
        · exact ⟨group₁, hcases⟩
    · exact ⟨_, Dict.get?_set_self _ _ _⟩
    · rw [inGroup_move h hne hgroup hhost hstored]
      simp only [List.mem_singleton]
      split
      · rename_i hw
        subst hw
        exact (and_iff_left ⟨gid, hin⟩).symm
      · rfl

/-- All hosts of a list are moved. -/
theorem exists_moveAll (h : WellKept user) {target : String}
    (hstored : ∃ group, (readHostGroups user).get? target = some group)
    (hostUids : List String) (hin : ∀ uid ∈ hostUids, ∃ gid, InGroup user gid uid) :
    ∃ user', moveAll target hostUids user = some user' ∧ Moved user user' hostUids target := by
  induction hostUids generalizing user with
  | nil =>
    refine ⟨user, rfl, h, List.Perm.refl _, hstored, fun g w => ?_⟩
    rw [if_neg List.not_mem_nil]
  | cons uid hostUids ih =>
    obtain ⟨group', hgroup'⟩ := hstored
    obtain ⟨gid, hgid⟩ := hin uid List.mem_cons_self
    obtain ⟨user₁, hmove, hmoved⟩ := exists_move h hgroup' hgid
    have hin₁ : ∀ w, (∃ g, InGroup user₁ g w) ↔ ∃ g, InGroup user g w := by
      intro w
      simp only [hmoved.inGroup, List.mem_singleton]
      split
      · simp
      · rfl
    obtain ⟨user', hmoveAll, hmovedAll⟩ := ih hmoved.wellKept hmoved.stored fun w hw =>
      (hin₁ w).2 (hin w (List.mem_cons_of_mem _ hw))
    refine ⟨user', ?_, hmovedAll.wellKept, hmovedAll.perm.trans hmoved.perm, hmovedAll.stored, fun g w => ?_⟩
    · rw [moveAll, hmove]
      exact hmoveAll
    · rw [hmovedAll.inGroup, hin₁]
      by_cases hw : w ∈ hostUids
      · rw [if_pos hw, if_pos (List.mem_cons_of_mem _ hw)]
      · rw [if_neg hw, hmoved.inGroup]
        simp only [List.mem_cons, List.not_mem_nil, hw, or_false]

end groups

/-! ### The scan of the nodes -/

section scan

variable {toLowerCase : Text → Text} {hostGroups : HostGroups} {target anchor uid gid : String} {nodes : List HaNode}
  {plan : MergePlan}

/-- The host with this uid is the one that some node is matched with. -/
def Matched (toLowerCase : Text → Text) (hostGroups : HostGroups) (nodes : List HaNode) (anchor uid : String) : Prop :=
  ∃ node ∈ nodes, ∃ host,
    findHostMatchingHaPeer toLowerCase (flattenHostsFromGroups hostGroups) node anchor = some host ∧ host.uid = uid

theorem mergePeer_eq_some {node : HaNode} {matched : Host} {peer : MergePeer}
    (h : mergePeer toLowerCase hostGroups target node matched = some peer) : peer.hostUid = matched.uid ∧
      findGroupIdForHost hostGroups matched.uid = some peer.fromGroupId ∧ peer.fromGroupId ≠ "" ∧
        peer.fromGroupId ≠ target := by
  unfold mergePeer at h
  split at h
  · cases h
  · rename_i fromGroupId hgroup
    split at h
    · cases h
    · rename_i hother
      obtain rfl := Option.some.inj h
      rw [Bool.or_eq_true, decide_eq_true_eq, decide_eq_true_eq, not_or] at hother
      exact ⟨rfl, hgroup, hother.1, hother.2⟩

theorem exists_mergePeer (node : HaNode) {matched : Host}
    (hgroup : findGroupIdForHost hostGroups matched.uid = some gid) (hne : gid ≠ "") (htarget : gid ≠ target) :
    ∃ peer, mergePeer toLowerCase hostGroups target node matched = some peer ∧
      peer.hostUid = matched.uid ∧ peer.fromGroupId = gid := by
  unfold mergePeer
  rw [hgroup]
  dsimp only
  rw [if_neg (by simp [hne, htarget])]
  exact ⟨_, rfl, rfl, rfl⟩

/-- What has been found of the nodes looked at. -/
structure Scanned (toLowerCase : Text → Text) (hostGroups : HostGroups) (target anchor : String) (nodes : List HaNode)
    (scan : MergeScan) : Prop where
  seen : ∀ uid, uid ∈ scan.seenUids ↔ Matched toLowerCase hostGroups nodes anchor uid
  peers : ∀ uid gid, (∃ peer ∈ scan.peers, peer.hostUid = uid ∧ peer.fromGroupId = gid) ↔
    uid ∈ scan.seenUids ∧ findGroupIdForHost hostGroups uid = some gid ∧ gid ≠ "" ∧ gid ≠ target

theorem matched_concat {node : HaNode} : Matched toLowerCase hostGroups (nodes ++ [node]) anchor uid ↔
    Matched toLowerCase hostGroups nodes anchor uid ∨ ∃ host,
      findHostMatchingHaPeer toLowerCase (flattenHostsFromGroups hostGroups) node anchor = some host ∧
        host.uid = uid := by
  simp only [Matched, List.mem_append, List.mem_singleton, or_and_right, exists_or, exists_eq_left]

theorem Scanned.node {scan : MergeScan} (h : Scanned toLowerCase hostGroups target anchor nodes scan) (node : HaNode) :
    Scanned toLowerCase hostGroups target anchor (nodes ++ [node])
      (scanNode toLowerCase hostGroups target anchor scan node) := by
  unfold scanNode
  split
  · rename_i hnone
    refine ⟨fun uid => ?_, h.peers⟩
    rw [h.seen, matched_concat, hnone]
    simp
  · rename_i matched hmatched
    have hseen : ∀ uid, Matched toLowerCase hostGroups (nodes ++ [node]) anchor uid ↔
        uid ∈ scan.seenUids ∨ matched.uid = uid := by
      intro uid
      rw [matched_concat, h.seen, hmatched]
      simp
    split
    · rename_i hold
      refine ⟨fun uid => ?_, h.peers⟩
      rw [hseen]
      refine ⟨.inl, ?_⟩
      rintro (hmem | rfl)
      · exact hmem
      · exact hold
    · refine ⟨fun uid => ?_, fun uid gid => ?_⟩
      · rw [hseen, List.mem_cons, or_comm, eq_comm]
      · simp only [List.mem_append, Option.mem_toList, or_and_right, exists_or, h.peers, List.mem_cons]
        constructor
        · rintro (hold | ⟨peer, hpeer, rfl, rfl⟩)
          · exact .inr hold
          · obtain ⟨huid, hgroup, hne, htarget⟩ := mergePeer_eq_some hpeer
            rw [huid]
            exact .inl ⟨rfl, hgroup, hne, htarget⟩
        · rintro (⟨rfl, hgroup, hne, htarget⟩ | hold)
          · obtain ⟨peer, hpeer, huid, hgid⟩ := exists_mergePeer node hgroup hne htarget
            exact .inr ⟨peer, hpeer, huid, hgid⟩
          · exact .inl hold

theorem scanned (toLowerCase : Text → Text) (hostGroups : HostGroups) (target anchor : String) (nodes : List HaNode) :
    Scanned toLowerCase hostGroups target anchor nodes
      (nodes.foldl (scanNode toLowerCase hostGroups target anchor) {}) := by
  induction nodes using List.reverseRecOn with
  | nil =>
    refine ⟨fun uid => iff_of_false List.not_mem_nil ?_, fun uid gid => iff_of_false ?_ ?_⟩
    · rintro ⟨node, hnode, -⟩
      exact List.not_mem_nil hnode
    · rintro ⟨peer, hpeer, -⟩
      exact List.not_mem_nil hpeer
    · rintro ⟨hmem, -⟩
      exact List.not_mem_nil hmem
  | append_singleton nodes node ih =>
    rw [List.foldl_append]
    exact ih.node node

theorem findHaPeersNeedingMerge_eq_some (h : findHaPeersNeedingMerge toLowerCase hostGroups nodes anchor = some plan) :
    plan.anchorHostUid = anchor ∧ findGroupIdForHost hostGroups anchor = some plan.targetGroupId ∧
      ∀ uid gid, (∃ peer ∈ plan.peers, peer.hostUid = uid ∧ peer.fromGroupId = gid) ↔
        Matched toLowerCase hostGroups nodes anchor uid ∧ findGroupIdForHost hostGroups uid = some gid ∧ gid ≠ "" ∧
          gid ≠ plan.targetGroupId := by
  unfold findHaPeersNeedingMerge at h
  split at h
  · cases h
  · rename_i target htarget
    split at h
    · cases h
    · dsimp only at h
      split at h
      · cases h
      · obtain rfl := Option.some.inj h
        have hscan := scanned toLowerCase hostGroups target anchor nodes
        refine ⟨rfl, htarget, fun uid gid => ?_⟩
        rw [← hscan.seen]
        exact hscan.peers uid gid

/-- There is nothing to merge where every host that a node is matched with is in the group. -/
theorem findHaPeersNeedingMerge_eq_none (hgroup : findGroupIdForHost hostGroups anchor = some target)
    (hne : target ≠ "") (hnodes : nodes ≠ []) : findHaPeersNeedingMerge toLowerCase hostGroups nodes anchor = none ↔
      ∀ uid gid, Matched toLowerCase hostGroups nodes anchor uid → findGroupIdForHost hostGroups uid = some gid →
        gid = "" ∨ gid = target := by
  have hscan := scanned toLowerCase hostGroups target anchor nodes
  unfold findHaPeersNeedingMerge
  rw [hgroup]
  dsimp only
  rw [if_neg (by simp [hne, hnodes])]
  constructor
  · intro hnone uid gid hmatched hgid
    by_contra hother
    rw [not_or] at hother
    obtain ⟨peer, hpeer, -⟩ := (hscan.peers uid gid).2 ⟨(hscan.seen uid).2 hmatched, hgid, hother⟩
    split at hnone
    · rename_i hnil
      rw [hnil] at hpeer
      exact List.not_mem_nil hpeer
    · cases hnone
  · intro hall
    refine if_pos (List.eq_nil_iff_forall_not_mem.2 fun peer hpeer => ?_)
    obtain ⟨hseen, hgid, hne', htarget⟩ := (hscan.peers _ _).1 ⟨peer, hpeer, rfl, rfl⟩
    rcases hall _ _ ((hscan.seen _).1 hseen) hgid with hempty | hsame
    · exact hne' hempty
    · exact htarget hsame

end scan

/-! ### The plan after the merge -/

section merge

variable {toLowerCase : Text → Text} {expiresAt : HostInfo → Option Nat} {user user' : User} {nodes : List HaNode}
  {anchor : String} {plan : MergePlan} {hosts : List Host} {node : HaNode} {host : Host}

/-- The host matches a node of the list. -/
def MatchesNode (toLowerCase : Text → Text) (nodes : List HaNode) (host : Host) : Prop :=
  ∃ node ∈ nodes, hostMatchesHaPeer toLowerCase host node = true

instance : Decidable (MatchesNode toLowerCase nodes host) := by
  unfold MatchesNode
  infer_instance

/-- Nothing is left to merge: not for the host of the plan, and no recorded merge of a host that matches a node of the
list takes a host out of the group of the plan. -/
structure Settled (Env : Type) (toLowerCase : Text → Text) (expiresAt : HostInfo → Option Nat) (nodes : List HaNode)
    (plan : MergePlan) (user : User) : Prop where
  again : findHaPeersNeedingMerge toLowerCase (sanitizeHostGroups expiresAt user) nodes plan.anchorHostUid = none
  followUps : ∀ (s : State HaLogin Env) (recorded merge : MergePlan),
    s.hostGroups = sanitizeHostGroups expiresAt user →
    (s.haInfo.get? recorded.anchorHostUid).bind HaLogin.haNodes = some nodes →
    (recorded.anchorHostUid = plan.anchorHostUid ∨ ∃ host ∈ flattenHostsFromGroups s.hostGroups,
      host.uid = recorded.anchorHostUid ∧ MatchesNode toLowerCase nodes host) →
    haFollowUpAction toLowerCase (.merge recorded) (some s) = some (.merge merge) →
    ∀ peer ∈ merge.peers, peer.fromGroupId ≠ plan.targetGroupId

/-- Every host outside the group of the anchor that matches a node of the list is, for a node that it matches, the first
host of the tree besides the anchor that does. -/
def FirstMatches (toLowerCase : Text → Text) (hostGroups : HostGroups) (nodes : List HaNode) (anchor : String) : Prop :=
  ∀ host ∈ flattenHostsFromGroups hostGroups, MatchesNode toLowerCase nodes host →
    findGroupIdForHost hostGroups host.uid = findGroupIdForHost hostGroups anchor ∨
      ∃ node ∈ nodes, hostMatchesHaPeer toLowerCase host node = true ∧
        ∀ earlier ∈ (flattenHostsFromGroups hostGroups).takeWhile fun h => h.uid ≠ host.uid,
          earlier.uid ≠ anchor → hostMatchesHaPeer toLowerCase earlier node = false

instance (hostGroups : HostGroups) : Decidable (FirstMatches toLowerCase hostGroups nodes anchor) := by
  unfold FirstMatches
  infer_instance

theorem findHost_pred (hne : anchor ≠ "") (host : Host) (node : HaNode) :
    (if anchor ≠ "" && host.uid = anchor then false else hostMatchesHaPeer toLowerCase host node) = true ↔
      host.uid ≠ anchor ∧ hostMatchesHaPeer toLowerCase host node = true := by
  by_cases huid : host.uid = anchor <;> simp [hne, huid]

theorem findHost_eq_some (hne : anchor ≠ "") (h : findHostMatchingHaPeer toLowerCase hosts node anchor = some host) :
    host ∈ hosts ∧ host.uid ≠ anchor ∧ hostMatchesHaPeer toLowerCase host node = true := by
  unfold findHostMatchingHaPeer at h
  have hpred := List.find?_some h
  exact ⟨List.mem_of_find?_eq_some h, (findHost_pred hne host node).1 hpred⟩

theorem exists_findHost (hne : anchor ≠ "") (hmem : host ∈ hosts) (huid : host.uid ≠ anchor)
    (hmatch : hostMatchesHaPeer toLowerCase host node = true) :
    ∃ first, findHostMatchingHaPeer toLowerCase hosts node anchor = some first := by
  rw [← Option.isSome_iff_exists, findHostMatchingHaPeer, List.find?_isSome]
  exact ⟨host, hmem, (findHost_pred hne host node).2 ⟨huid, hmatch⟩⟩

/-- Of two searches, each finding what the other one looks for too, both find the same. -/
theorem find?_unique {α : Type} {p q : α → Bool} {l : List α} {a b : α} (ha : l.find? p = some a)
    (hb : l.find? q = some b) (hqa : q a = true) (hpb : p b = true) : a = b := by
  induction l with
  | nil => cases ha
  | cons x l ih =>
    rw [List.find?_cons] at ha hb
    cases hp : p x with
    | true =>
      rw [hp] at ha
      obtain rfl := Option.some.inj ha
      rw [hqa] at hb
      exact Option.some.inj hb
    | false =>
      rw [hp] at ha
      cases hq : q x with
      | true =>
        rw [hq] at hb
        obtain rfl := Option.some.inj hb
        rw [hp] at hpb
        cases hpb
      | false =>
        rw [hq] at hb
        exact ih ha hb

theorem haFollowUpAction_merge {Env : Type} {s : State HaLogin Env} {recorded : MergePlan}
    (hne : recorded.anchorHostUid ≠ "")
    (hlogin : (s.haInfo.get? recorded.anchorHostUid).bind HaLogin.haNodes = some nodes) :
    haFollowUpAction toLowerCase (.merge recorded) (some s) =
      (findHaPeersNeedingMerge toLowerCase s.hostGroups nodes recorded.anchorHostUid).map .merge := by
  have hne' : ¬(FollowUp.merge recorded).anchorHostUid = "" := hne
  simp only [haFollowUpAction, if_neg hne', hlogin, Option.getD_some]

theorem settled_of_forall {Env : Type} (h : WellKept user)
    (hanchor : InGroup user plan.targetGroupId plan.anchorHostUid)
    (hall : ∀ host ∈ flattenHostsFromGroups (sanitizeHostGroups expiresAt user), MatchesNode toLowerCase nodes host →
      InGroup user plan.targetGroupId host.uid) (hnodes : nodes ≠ []) :
    Settled Env toLowerCase expiresAt nodes plan user := by
  obtain ⟨-, hanchorNe⟩ := h.plain hanchor
  have htarget : plan.targetGroupId ≠ "" := by
    obtain ⟨group, -, hgroup, -⟩ := hanchor
    exact (h.groupIds _ _ hgroup).2
  refine ⟨(findHaPeersNeedingMerge_eq_none ((findGroupIdForHost_iff h).2 hanchor) htarget hnodes).2 ?_, ?_⟩
  · rintro uid gid ⟨node, hnode, host, hfind, rfl⟩ hgid
    obtain ⟨hmem, -, hmatch⟩ := findHost_eq_some hanchorNe hfind
    exact .inr (h.group_unique ((findGroupIdForHost_iff h).1 hgid) (hall host hmem ⟨node, hnode, hmatch⟩))
  · intro s recorded merge hgroups hlogin hof haction peer hpeer
    have hin : InGroup user plan.targetGroupId recorded.anchorHostUid := by
      rcases hof with heq | ⟨host, hmem, heq, hmatch⟩
      · rw [heq]
        exact hanchor
      · rw [← heq]
        exact hall host (hgroups ▸ hmem) hmatch
    have hmerge : findHaPeersNeedingMerge toLowerCase (sanitizeHostGroups expiresAt user) nodes recorded.anchorHostUid =
        some merge := by
      rw [haFollowUpAction_merge (h.plain hin).2 hlogin, hgroups] at haction
      obtain ⟨merge', hmerge', heq⟩ := Option.map_eq_some_iff.1 haction
      cases heq
      exact hmerge'
    obtain ⟨-, hgroup, hpeers⟩ := findHaPeersNeedingMerge_eq_some hmerge
    have hsame := h.group_unique ((findGroupIdForHost_iff h).1 hgroup) hin
    rw [← hsame]
    exact ((hpeers _ _).1 ⟨peer, hpeer, rfl, rfl⟩).2.2.2

/-- A host that matches a node and is in another group is proposed, or it proposes to take hosts out of the group. -/
theorem inGroup_of_settled {Env : Type} (h : WellKept user)
    (hanchor : InGroup user plan.targetGroupId plan.anchorHostUid)
    (hsettled : Settled Env toLowerCase expiresAt nodes plan user)
    (hmem : host ∈ flattenHostsFromGroups (sanitizeHostGroups expiresAt user))
    (hmatches : MatchesNode toLowerCase nodes host) : InGroup user plan.targetGroupId host.uid := by
  obtain ⟨node, hnode, hmatch⟩ := hmatches
  have hnodes : nodes ≠ [] := List.ne_nil_of_mem hnode
  obtain ⟨-, hanchorNe⟩ := h.plain hanchor
  have htarget : plan.targetGroupId ≠ "" := by
    obtain ⟨group, -, hgroup, -⟩ := hanchor
    exact (h.groupIds _ _ hgroup).2
  obtain ⟨gid, hin⟩ := exists_inGroup h hmem
  by_contra hother
  have hgid : gid ≠ plan.targetGroupId := by
    rintro rfl
    exact hother hin
  have hne : host.uid ≠ plan.anchorHostUid := by
    intro heq
    rw [heq] at hother
    exact hother hanchor
  -- the host that the anchor's plan matches with the node is in the group
  obtain ⟨found, hfound⟩ := exists_findHost hanchorNe hmem hne hmatch
  obtain ⟨hfoundMem, hfoundNe, hfoundMatch⟩ := findHost_eq_some hanchorNe hfound
  obtain ⟨foundGid, hfoundIn⟩ := exists_inGroup h hfoundMem
  have hfoundTarget : InGroup user plan.targetGroupId found.uid := by
    rcases (findHaPeersNeedingMerge_eq_none ((findGroupIdForHost_iff h).2 hanchor) htarget hnodes).1 hsettled.again
      found.uid foundGid ⟨node, hnode, found, hfound, rfl⟩ ((findGroupIdForHost_iff h).2 hfoundIn) with hempty | heq
    · obtain ⟨group, -, hgroup, -⟩ := hfoundIn
      exact absurd hempty (h.groupIds _ _ hgroup).2
    · rw [← heq]
      exact hfoundIn
  have hfoundHost : found.uid ≠ host.uid := by
    intro heq
    rw [heq] at hfoundTarget
    exact hother hfoundTarget
  -- so is the one that the host's own plan matches with it
  have huidNe := (h.plain hin).2
  obtain ⟨taken, htaken⟩ := exists_findHost huidNe hfoundMem hfoundHost hfoundMatch
  obtain ⟨-, htakenNe, htakenMatch⟩ := findHost_eq_some huidNe htaken
  have htakenTarget : InGroup user plan.targetGroupId taken.uid := by
    by_cases heq : taken.uid = plan.anchorHostUid
    · rw [heq]
      exact hanchor
    · have hsame : found = taken := find?_unique hfound htaken
        ((findHost_pred huidNe found node).2 ⟨hfoundHost, hfoundMatch⟩)
        ((findHost_pred hanchorNe taken node).2 ⟨heq, htakenMatch⟩)
      rw [← hsame]
      exact hfoundTarget
  have hmatched : Matched toLowerCase (sanitizeHostGroups expiresAt user) nodes host.uid taken.uid :=
    ⟨node, hnode, taken, htaken, rfl⟩
  have hgidNe : gid ≠ "" := by
    obtain ⟨group, -, hgroup, -⟩ := hin
    exact (h.groupIds _ _ hgroup).2
  cases hmerge : findHaPeersNeedingMerge toLowerCase (sanitizeHostGroups expiresAt user) nodes host.uid with
  | none =>
    rcases (findHaPeersNeedingMerge_eq_none ((findGroupIdForHost_iff h).2 hin) hgidNe hnodes).1 hmerge _ _ hmatched
      ((findGroupIdForHost_iff h).2 htakenTarget) with hempty | heq
    · exact htarget hempty
    · exact hgid heq.symm
  | some merge =>
    obtain ⟨-, hgroup, hpeers⟩ := findHaPeersNeedingMerge_eq_some hmerge
    have hmergeGid := h.group_unique ((findGroupIdForHost_iff h).1 hgroup) hin
    obtain ⟨peer, hpeer, -, hfrom⟩ := (hpeers taken.uid plan.targetGroupId).2
      ⟨hmatched, (findGroupIdForHost_iff h).2 htakenTarget, htarget, by rw [hmergeGid]; exact hgid.symm⟩
    let s : State HaLogin Env :=
      { hostGroups := sanitizeHostGroups expiresAt user, haInfo := Dict.empty.set host.uid ⟨some nodes⟩ }
    let recorded : MergePlan := ⟨host.uid, gid, [], []⟩
    have hlogin : (s.haInfo.get? recorded.anchorHostUid).bind HaLogin.haNodes = some nodes := by
      show ((Dict.empty.set host.uid (⟨some nodes⟩ : HaLogin)).get? host.uid).bind HaLogin.haNodes = some nodes
      rw [Dict.get?_set_self]
      rfl
    have haction : haFollowUpAction toLowerCase (.merge recorded) (some s) = some (.merge merge) := by
      rw [haFollowUpAction_merge huidNe hlogin]
      exact congrArg (Option.map FollowUp.merge) hmerge
    exact hsettled.followUps s recorded merge rfl hlogin (.inr ⟨host, hmem, rfl, node, hnode, hmatch⟩) haction peer
      hpeer hfrom

/-- The search finds a host just when it looks for it and for none before it. -/
theorem find?_eq_some_iff_takeWhile {p : Host → Bool} (hnodup : (hosts.map Host.uid).Nodup) (hmem : host ∈ hosts) :
    hosts.find? p = some host ↔ p host = true ∧ ∀ h ∈ hosts.takeWhile fun h => h.uid ≠ host.uid, p h = false := by
  induction hosts with
  | nil => exact absurd hmem List.not_mem_nil
  | cons x hosts ih =>
    rw [List.map_cons, List.nodup_cons] at hnodup
    rcases List.mem_cons.1 hmem with rfl | hmem
    · rw [List.takeWhile_cons_of_neg (by simp), List.find?_cons]
      cases hp : p host with
      | true => simp
      | false =>
        refine iff_of_false (fun hfind => ?_) (by simp)
        exact hnodup.1 (List.mem_map_of_mem (List.mem_of_find?_eq_some hfind))
    · have hne : x.uid ≠ host.uid := fun heq => hnodup.1 (heq ▸ List.mem_map_of_mem hmem)
      rw [List.takeWhile_cons_of_pos (by simpa using hne), List.find?_cons, List.forall_mem_cons]
      cases hp : p x with
      | true =>
        refine iff_of_false (fun heq => hne ?_) (by simp)
        rw [Option.some.inj heq]
      | false => simpa using ih hnodup.2 hmem

theorem nodup_uids (h : WellKept user) (expiresAt : HostInfo → Option Nat) :
    ((flattenHostsFromGroups (sanitizeHostGroups expiresAt user)).map Host.uid).Nodup := by
  rw [flatten_sanitize, List.map_map]
  have hkeys : (registered user).map (Host.uid ∘ fun e => toSafeHost expiresAt e.2) = (registered user).map Prod.fst :=
    List.map_congr_left fun e he => h.apart.keyed e he
  rw [hkeys]
  exact List.pairwise_map.2 (h.apart.apart.imp Apart.key)

/-- A host in another group is in the plan just when it is the first to match a node. -/
theorem matched_iff (h : WellKept user) (hanchor : anchor ≠ "")
    (hmem : host ∈ flattenHostsFromGroups (sanitizeHostGroups expiresAt user)) (hne : host.uid ≠ anchor) :
    Matched toLowerCase (sanitizeHostGroups expiresAt user) nodes anchor host.uid ↔
      ∃ node ∈ nodes, hostMatchesHaPeer toLowerCase host node = true ∧
        ∀ earlier ∈ (flattenHostsFromGroups (sanitizeHostGroups expiresAt user)).takeWhile fun h => h.uid ≠ host.uid,
          earlier.uid ≠ anchor → hostMatchesHaPeer toLowerCase earlier node = false := by
  have hnodup := nodup_uids h expiresAt
  refine exists_congr fun node => and_congr_right fun _ => ?_
  have hfind : (∃ found, findHostMatchingHaPeer toLowerCase (flattenHostsFromGroups (sanitizeHostGroups expiresAt user))
      node anchor = some found ∧ found.uid = host.uid) ↔ findHostMatchingHaPeer toLowerCase
        (flattenHostsFromGroups (sanitizeHostGroups expiresAt user)) node anchor = some host := by
    constructor
    · rintro ⟨found, hfound, huid⟩
      rw [hfound, List.inj_on_of_nodup_map hnodup (List.mem_of_find?_eq_some hfound) hmem huid]
    · exact fun hfound => ⟨host, hfound, rfl⟩
  rw [hfind, findHostMatchingHaPeer, find?_eq_some_iff_takeWhile hnodup hmem, findHost_pred hanchor]
  refine and_congr (and_iff_right hne) (forall₂_congr fun earlier _ => ?_)
  rw [← Bool.not_eq_true, findHost_pred hanchor, not_and, Bool.not_eq_true]

/-- The peers of a plan are the matched hosts of other groups. -/
theorem mem_peers_iff (h : WellKept user)
    (hplan : findHaPeersNeedingMerge toLowerCase (sanitizeHostGroups expiresAt user) nodes anchor = some plan)
    (uid : String) : uid ∈ plan.peers.map MergePeer.hostUid ↔
      Matched toLowerCase (sanitizeHostGroups expiresAt user) nodes anchor uid ∧
        ∃ gid, InGroup user gid uid ∧ gid ≠ plan.targetGroupId := by
  obtain ⟨-, -, hpeers⟩ := findHaPeersNeedingMerge_eq_some hplan
  have hgid : ∀ gid, findGroupIdForHost (sanitizeHostGroups expiresAt user) uid = some gid ∧ gid ≠ "" ∧
      gid ≠ plan.targetGroupId ↔ InGroup user gid uid ∧ gid ≠ plan.targetGroupId := by
    intro gid
    rw [findGroupIdForHost_iff h]
    refine and_congr_right fun hin => and_iff_right ?_
    obtain ⟨group, -, hstored, -⟩ := hin
    exact (h.groupIds _ _ hstored).2
  rw [List.mem_map]
  constructor
  · rintro ⟨peer, hmem, rfl⟩
    obtain ⟨hmatched, hrest⟩ := (hpeers _ _).1 ⟨peer, hmem, rfl, rfl⟩
    exact ⟨hmatched, _, (hgid _).1 hrest⟩
  · rintro ⟨hmatched, gid, hrest⟩
    obtain ⟨peer, hmem, huid, -⟩ := (hpeers uid gid).2 ⟨hmatched, (hgid gid).2 hrest⟩
    exact ⟨peer, hmem, huid⟩

theorem Moved.flatten_perm {hostUids : List String} {target : String} (h : Moved user user' hostUids target)
    (expiresAt : HostInfo → Option Nat) : (flattenHostsFromGroups (sanitizeHostGroups expiresAt user')).Perm
      (flattenHostsFromGroups (sanitizeHostGroups expiresAt user)) := by
  rw [flatten_sanitize, flatten_sanitize]
  exact h.perm.map _

theorem ha_merge_converges_iff (Env : Type) (toLowerCase : Text → Text) (expiresAt : HostInfo → Option Nat)
    (user : User) (hok : WellKept user) (nodes : List HaNode) (anchor : String) (plan : MergePlan)
    (hplan : findHaPeersNeedingMerge toLowerCase (sanitizeHostGroups expiresAt user) nodes anchor = some plan) :
    (∃ user', moveAll plan.targetGroupId (plan.peers.map MergePeer.hostUid) user = some user' ∧
      (registered user').Perm (registered user) ∧ Settled Env toLowerCase expiresAt nodes plan user') ↔
      FirstMatches toLowerCase (sanitizeHostGroups expiresAt user) nodes anchor := by
  obtain ⟨rfl, hgroup, -⟩ := findHaPeersNeedingMerge_eq_some hplan
  have hanchor := (findGroupIdForHost_iff hok).1 hgroup
  obtain ⟨-, hanchorNe⟩ := hok.plain hanchor
  have hnodes : nodes ≠ [] := by
    rintro rfl
    rw [findHaPeersNeedingMerge, hgroup] at hplan
    simp at hplan
  have htarget : ∃ group, (readHostGroups user).get? plan.targetGroupId = some group := by
    obtain ⟨group, -, hstored, -⟩ := hanchor
    exact ⟨group, hstored⟩
  have hpeer := mem_peers_iff hok hplan
  obtain ⟨user', hmove, hmoved⟩ := exists_moveAll hok htarget (plan.peers.map MergePeer.hostUid) fun uid huid => by
    obtain ⟨-, gid, hin, -⟩ := (hpeer uid).1 huid
    exact ⟨gid, hin⟩
  -- after the moves the group has its hosts and the matched ones
  have hafter : ∀ uid, InGroup user' plan.targetGroupId uid ↔ InGroup user plan.targetGroupId uid ∨
      uid ∈ plan.peers.map MergePeer.hostUid := by
    intro uid
    rw [hmoved.inGroup]
    split
    · rename_i huid
      obtain ⟨-, gid, hin, -⟩ := (hpeer uid).1 huid
      exact iff_of_true ⟨rfl, gid, hin⟩ (.inr huid)
    · rename_i huid
      exact (or_iff_left huid).symm
  have hperm := hmoved.flatten_perm expiresAt
  have hanchor' := (hafter plan.anchorHostUid).2 (.inl hanchor)
  have hsettled : Settled Env toLowerCase expiresAt nodes plan user' ↔
      ∀ host ∈ flattenHostsFromGroups (sanitizeHostGroups expiresAt user), MatchesNode toLowerCase nodes host →
        InGroup user' plan.targetGroupId host.uid := by
    constructor
    · intro h host hmem hmatches
      exact inGroup_of_settled hmoved.wellKept hanchor' h (hperm.mem_iff.2 hmem) hmatches
    · intro h
      exact settled_of_forall hmoved.wellKept hanchor' (fun host hmem => h host (hperm.mem_iff.1 hmem)) hnodes
  have hfirst : (∃ user', moveAll plan.targetGroupId (plan.peers.map MergePeer.hostUid) user = some user' ∧
      (registered user').Perm (registered user) ∧ Settled Env toLowerCase expiresAt nodes plan user') ↔
      Settled Env toLowerCase expiresAt nodes plan user' := by
    constructor
    · rintro ⟨user'', hmove', -, h⟩
      rw [hmove] at hmove'
      obtain rfl := Option.some.inj hmove'
      exact h
    · exact fun h => ⟨user', hmove, hmoved.perm, h⟩
  rw [hfirst, hsettled]
  refine forall₂_congr fun host hmem => imp_congr_right fun _ => ?_
  obtain ⟨gid, hin⟩ := exists_inGroup hok hmem
  rw [hgroup, findGroupIdForHost_iff hok, hafter, hpeer]
  by_cases hsame : gid = plan.targetGroupId
  · subst hsame
    exact iff_of_true (.inl hin) (.inl hin)
  · have hout : ¬InGroup user plan.targetGroupId host.uid := fun hin' => hsame (hok.group_unique hin hin')
    have hne : host.uid ≠ plan.anchorHostUid := fun heq => hout (heq ▸ hanchor)
    rw [or_iff_right hout, or_iff_right hout, and_iff_left ⟨gid, hin, hsame⟩]
    exact matched_iff hok hanchorNe hmem hne

/-! ### Two hosts of one node -/

def nodeHost (uid address : String) (port : Int) : String × HostInfo :=
  (uid, ⟨uid, some "admin", some address, some port, none, none, none, none, none, none, none⟩)

def nodeGroup (hosts : List (String × HostInfo)) : HostGroupInfo := ⟨"Group".toList, none, none, some (.ofList hosts)⟩

/-- One host of the node `n1`, in a group before that of the anchor. -/
def oneOfNode : User :=
  ⟨some (.ofList [("g1", nodeGroup [nodeHost "h1" "n1" 8001]), ("g3", nodeGroup [nodeHost "a" "n0" 8001])])⟩

/-- Two hosts of it, in two groups before that of the anchor. -/
def twoOfNode : User :=
  ⟨some (.ofList [("g1", nodeGroup [nodeHost "h1" "n1" 8001]), ("g2", nodeGroup [nodeHost "h2" "n1" 8002]),
    ("g3", nodeGroup [nodeHost "a" "n0" 8001])])⟩

def clusterNodes : List HaNode := [⟨none, some "n0".toList, none⟩, ⟨none, some "n1".toList, none⟩]

def mergePlanOf (user : User) : Option MergePlan :=
  findHaPeersNeedingMerge (List.map Char.toLower) (sanitizeHostGroups (fun _ => none) user) clusterNodes "a"

instance (e e' : String × HostInfo) : Decidable (Apart e e') :=
  decidable_of_iff (e.1 ≠ e'.1 ∧ e.2.connection ≠ e'.2.connection ∧
    hasSameDefinedAlias e.2.hostAlias e'.2.hostAlias = false) ⟨fun h => ⟨h.1, h.2.1, h.2.2⟩, fun h => ⟨h.1, h.2, h.3⟩⟩

/-- A record whose groups have no default host. -/
theorem WellKept.of_lists (hapart : (∀ e ∈ registered user, e.2.uid = e.1) ∧ (registered user).Pairwise Apart)
    (hcount : countAllHosts user ≤ 400) (huids : ∀ e ∈ registered user, inherited? e.1 = none ∧ e.1 ≠ "")
    (hgroups : ∀ e ∈ (readHostGroups user).entries,
      e.2.defaultHostUid = none ∧ inherited? e.1 = none ∧ e.1 ≠ "") : WellKept user := by
  refine ⟨⟨⟨hapart.1, hapart.2⟩, hcount, fun gid group hgroup uid huid => ?_⟩, huids, fun gid group hgroup => ?_⟩
  · rw [(hgroups _ (Dict.get?_eq_some_iff.1 hgroup)).1] at huid
    cases huid
  · exact (hgroups _ (Dict.get?_eq_some_iff.1 hgroup)).2

theorem wellKept_oneOfNode : WellKept oneOfNode := .of_lists (by decide) (by decide) (by decide) (by decide)

theorem wellKept_twoOfNode : WellKept twoOfNode := .of_lists (by decide) (by decide) (by decide) (by decide)

theorem ha_merge_converges_one : ∃ plan, mergePlanOf oneOfNode = some plan ∧
    ∃ user', moveAll plan.targetGroupId (plan.peers.map MergePeer.hostUid) oneOfNode = some user' ∧
      (registered user').Perm (registered oneOfNode) ∧
        Settled Unit (List.map Char.toLower) (fun _ => none) clusterNodes plan user' := by
  obtain ⟨plan, hplan⟩ : ∃ plan, mergePlanOf oneOfNode = some plan := Option.isSome_iff_exists.1 (by decide)
  exact ⟨plan, hplan, (ha_merge_converges_iff Unit _ _ _ wellKept_oneOfNode _ _ plan hplan).2 (by decide)⟩

/-- The second host of the node comes before the moved one and is planned in its turn. -/
theorem ha_merge_converges_fails : ¬ ∀ (user : User), WellKept user → ∀ (nodes : List HaNode) (anchor : String)
    (plan : MergePlan), findHaPeersNeedingMerge (List.map Char.toLower) (sanitizeHostGroups (fun _ => none) user) nodes
      anchor = some plan → ∃ user', moveAll plan.targetGroupId (plan.peers.map MergePeer.hostUid) user = some user' ∧
        (registered user').Perm (registered user) ∧
          Settled Unit (List.map Char.toLower) (fun _ => none) nodes plan user' := by
  intro hall
  obtain ⟨plan, hplan⟩ : ∃ plan, mergePlanOf twoOfNode = some plan := Option.isSome_iff_exists.1 (by decide)
  obtain ⟨user', hmove, -, hsettled⟩ := hall twoOfNode wellKept_twoOfNode clusterNodes "a" plan hplan
  have hagain : ((mergePlanOf twoOfNode).bind fun plan =>
      moveAll plan.targetGroupId (plan.peers.map MergePeer.hostUid) twoOfNode).bind mergePlanOf ≠ none := by
    decide
  rw [hplan, Option.bind_some, hmove, Option.bind_some] at hagain
  obtain ⟨hanchor, -⟩ := findHaPeersNeedingMerge_eq_some hplan
  have hnone := hsettled.again
  rw [hanchor] at hnone
  exact hagain hnone

end merge

end CubridWebManager.HostTree
