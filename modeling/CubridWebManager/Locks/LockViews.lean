import CubridWebManager.Locks.LockSummary

/-!
# The two views agree

Every holder record of the answer is in one row of `listLockObjects`, and the counts of `summarizeLocks` add up to their
number.  A row of the summary counts holder records, so it counts the lock objects of its group just if no object has
two records for one transaction and mode (`lock_views_agree_iff`).
-/

namespace CubridWebManager.Locks

/-- The holder records of an entry. -/
def Entry.holders (e : Entry) : List Holder := asArray e.lockHolders

/-- The transaction and the mode of a holder record, as they are shown. -/
def Holder.who (h : Holder) : Text × Text := (orDash (text h.tranIndex), orDash (text h.grantedMode))

/-- The entries of the answer. -/
def answerEntries (lockinfo : OneOrMany LockInfo) : List Entry := asArray (rawEntries lockinfo)

/-- The lock objects of a group: the rows of the list with the label and such a holder. -/
def objectsOf (row : LockSummaryRow) (o : LockObjectRow) : Bool :=
  lockObjectLabel (some o.obj) = row.obj && o.holders.any fun h => h.index = row.index && h.mode = row.mode

structure LockViewsAgree (lockinfo : OneOrMany LockInfo) : Prop where
  /-- The rows of the list have the holder records of the answer, each once and in their order. -/
  conserved : (listLockObjects lockinfo).flatMap LockObjectRow.holders =
    ((answerEntries lockinfo).flatMap Entry.holders).map holderRow
  /-- The counts of the summary add up to the holder records. -/
  total : ((summarizeLocks lockinfo).rows.map LockSummaryRow.count).sum =
    ((answerEntries lockinfo).flatMap Entry.holders).length
  objects : (summarizeLocks lockinfo).totalLocks = (listLockObjects lockinfo).countP fun o => o.holders ≠ []
  /-- A row of the summary counts the lock objects of its group. -/
  grouped : ∀ row ∈ (summarizeLocks lockinfo).rows,
    row.count = (listLockObjects lockinfo).countP (objectsOf row)

/-! ### Merging -/

/-- The objects of a state of the loop. -/
def objects (state : List Entry × Option Entry) : List Entry := state.1 ++ state.2.toList

theorem mergeLotEntries_eq (rawEntries : OneOrMany Entry) :
    mergeLotEntries rawEntries = objects ((asArray rawEntries).foldl mergeItem ([], none)) := rfl

/-- A round adds the holders of the entry at the end. -/
theorem flatMap_objects_mergeItem (state : List Entry × Option Entry) (item : Entry) :
    (objects (mergeItem state item)).flatMap Entry.holders = (objects state).flatMap Entry.holders ++ item.holders := by
  obtain ⟨merged, pending⟩ := state
  unfold mergeItem objects
  dsimp only
  split
  · simp [Entry.holders, asArray]
  · split
    · rename_i hholders
      simp [Entry.holders, hholders]
    · cases pending with
      | none => simp [Entry.holders, asArray]
      | some object => simp [Entry.holders, asArray]

theorem flatMap_objects_foldl (state : List Entry × Option Entry) (items : List Entry) :
    (objects (items.foldl mergeItem state)).flatMap Entry.holders =
      (objects state).flatMap Entry.holders ++ items.flatMap Entry.holders := by
  induction items generalizing state with
  | nil => simp
  | cons item items ih =>
    rw [List.foldl_cons, ih, flatMap_objects_mergeItem, List.flatMap_cons, List.append_assoc]

/-- Merging keeps the holder records. -/
theorem flatMap_mergeLotEntries (rawEntries : OneOrMany Entry) :
    (mergeLotEntries rawEntries).flatMap Entry.holders = (asArray rawEntries).flatMap Entry.holders := by
  rw [mergeLotEntries_eq, flatMap_objects_foldl]
  rfl

/-- The holder records `hs` of an object and those of the entries that go on with it are told apart. -/
def Continues (hs : List Holder) (items : List Entry) : Prop :=
  ∀ segment, segment <+: items → (∀ x ∈ segment, x.startsObject = false) →
    ((hs ++ segment.flatMap Entry.holders).map Holder.who).Nodup

/-- No object has two holder records for one transaction and mode: from no entry on, as long as there are no new
metadata. -/
def HoldsOnce (items : List Entry) : Prop :=
  ∀ before e after, items = before ++ e :: after → Continues e.holders after

variable {hs : List Holder} {e item : Entry} {items : List Entry}

theorem continues_nil : Continues hs [] ↔ (hs.map Holder.who).Nodup := by
  constructor
  · intro h
    simpa using h [] List.prefix_rfl (by simp)
  · intro h segment hsegment _
    rw [List.prefix_nil.1 hsegment]
    simpa using h

theorem Continues.nodup (h : Continues hs items) : (hs.map Holder.who).Nodup := by
  simpa using h [] (List.nil_prefix) (by simp)

theorem continues_cons : Continues hs (item :: items) ↔
    (hs.map Holder.who).Nodup ∧ (item.startsObject = false → Continues (hs ++ item.holders) items) := by
  constructor
  · refine fun h => ⟨h.nodup, fun hitem segment hsegment hstarts => ?_⟩
    have hcons := h (item :: segment) ((List.prefix_cons_inj item).2 hsegment) (by
      rintro x hx
      rcases List.mem_cons.1 hx with rfl | hx
      · exact hitem
      · exact hstarts x hx)
    rwa [List.flatMap_cons, ← List.append_assoc] at hcons
  · rintro ⟨hnodup, h⟩ segment hsegment hstarts
    cases segment with
    | nil => simpa using hnodup
    | cons x segment =>
      obtain ⟨rfl, hrest⟩ := List.cons_prefix_cons.1 hsegment
      rw [List.flatMap_cons, ← List.append_assoc]
      exact h (hstarts x List.mem_cons_self) segment hrest fun y hy => hstarts y (List.mem_cons_of_mem x hy)

theorem holdsOnce_cons : HoldsOnce (item :: items) ↔ Continues item.holders items ∧ HoldsOnce items := by
  constructor
  · refine fun h => ⟨h [] item items rfl, fun before e after heq => h (item :: before) e after ?_⟩
    rw [heq, List.cons_append]
  · rintro ⟨hitem, h⟩ before e after heq
    cases before with
    | nil =>
      obtain ⟨rfl, rfl⟩ := List.cons.inj heq
      exact hitem
    | cons x before => exact h before e after (List.cons.inj heq).2

theorem Continues.of_append (h : Continues (hs ++ e.holders) items) : Continues e.holders items := by
  intro segment hsegment hstarts
  have hnodup := h segment hsegment hstarts
  rw [List.append_assoc, List.map_append] at hnodup
  exact (List.nodup_append.1 hnodup).2.1

theorem Continues.left (h : Continues (hs ++ e.holders) items) : (hs.map Holder.who).Nodup := by
  have hnodup := h.nodup
  rw [List.map_append] at hnodup
  exact (List.nodup_append.1 hnodup).1

theorem HoldsOnce.continues (h : HoldsOnce items) : Continues [] items := by
  intro segment hsegment hstarts
  cases segment with
  | nil => simp
  | cons x segment =>
    obtain ⟨after, rfl⟩ := hsegment
    have hx := h [] x (segment ++ after) rfl segment (List.prefix_append _ _) fun y hy =>
      hstarts y (List.mem_cons_of_mem x hy)
    simpa using hx

/-- The holder records of each object of a list are told apart. -/
def Apart (objects : List Entry) : Prop := ∀ o ∈ objects, (o.holders.map Holder.who).Nodup

theorem apart_objects (merged : List Entry) (pending : Option Entry) : Apart (objects (merged, pending)) ↔
    Apart merged ∧ ∀ p ∈ pending, (p.holders.map Holder.who).Nodup := by
  simp only [Apart, objects, List.mem_append, or_imp, forall_and, Option.mem_toList, Option.mem_def]

/-- What the loop makes of the entries that are left is told apart just if they and what is pending are. -/
theorem apart_foldl (merged : List Entry) (pending : Option Entry) (items : List Entry) :
    Apart (objects (items.foldl mergeItem (merged, pending))) ↔
      Apart merged ∧ (∀ p ∈ pending, Continues p.holders items) ∧ HoldsOnce items := by
  induction items generalizing merged pending with
  | nil =>
    have honce : HoldsOnce [] := fun before e after heq => by simp at heq
    rw [List.foldl_nil, apart_objects]
    simp only [continues_nil, honce, and_true]
  | cons item items ih =>
    rw [List.foldl_cons, mergeItem.eq_def]
    dsimp only
    by_cases hstarts : item.startsObject = true
    · have happart := apart_objects merged pending
      rw [objects] at happart
      rw [if_pos hstarts, ih, happart, holdsOnce_cons, and_assoc]
      simp only [continues_cons, hstarts, Bool.true_eq_false, false_imp_iff, and_true, Option.mem_def,
        Option.some.injEq, forall_eq']
      rfl
    · rw [Bool.not_eq_true] at hstarts
      rw [if_neg (by simp [hstarts]), holdsOnce_cons]
      by_cases hholders : asArray item.lockHolders = []
      · have hitem : item.holders = [] := hholders
        rw [if_pos hholders, ih]
        simp only [continues_cons, hstarts, forall_const, hitem, List.append_nil]
        refine and_congr_right fun _ => ⟨fun h => ⟨fun p hp => ⟨(h.1 p hp).nodup, h.1 p hp⟩, h.2.continues, h.2⟩,
          fun h => ⟨fun p hp => (h.1 p hp).2, h.2.2⟩⟩
      · rw [if_neg hholders]
        cases pending with
        | none =>
          rw [ih]
          simp only [Option.mem_def, Option.some.injEq, forall_eq', reduceCtorEq, false_imp_iff, implies_true,
            true_and]
          rfl
        | some object =>
          rw [ih]
          simp only [Option.mem_def, Option.some.injEq, forall_eq', continues_cons, hstarts, forall_const]
          refine and_congr_right fun _ => ⟨fun h => ⟨⟨Continues.left h.1, h.1⟩, Continues.of_append h.1, h.2⟩,
            fun h => ⟨h.1.2, h.2.2⟩⟩

theorem apart_mergeLotEntries (rawEntries : OneOrMany Entry) :
    Apart (mergeLotEntries rawEntries) ↔ HoldsOnce (asArray rawEntries) := by
  rw [mergeLotEntries_eq, apart_foldl]
  simp [Apart]

/-! ### Grouping -/

def LockSummaryRow.key (row : LockSummaryRow) : GroupKey := ⟨row.index, row.obj, row.mode⟩

/-- The groups of the holder records of an entry. -/
def Entry.keys (e : Entry) : List GroupKey := e.holders.map (holderKey (lockObjectLabel e.obType))

/-- The groups count the keys, and each row shows its key. -/
structure Groups (groups : Dict GroupKey LockSummaryRow) (keys : List GroupKey) : Prop where
  counts : Tally.Counts LockSummaryRow.count groups keys
  key : ∀ k row, groups.get? k = some row → row.key = k

variable {transactions : Dict Text Transaction} {groups : Dict GroupKey LockSummaryRow} {keys : List GroupKey}

theorem key_set {k : GroupKey} {row : LockSummaryRow} (h : ∀ k row, groups.get? k = some row → row.key = k)
    (hrow : row.key = k) : ∀ k' row', (groups.set k row).get? k' = some row' → row'.key = k' := by
  intro k' row' h'
  rw [Dict.get?_set] at h'
  by_cases hk : k' = k
  · rw [if_pos hk] at h'
    rw [← Option.some.inj h', hrow, hk]
  · rw [if_neg hk] at h'
    exact h k' row' h'

variable (transactions) in
theorem Groups.addHolder (h : Groups groups keys) (obj : Text) (holder : Holder) :
    Groups (addHolder transactions obj groups holder) (keys ++ [holderKey obj holder]) := by
  unfold Locks.addHolder
  dsimp only
  split
  · rename_i existing hexisting
    exact ⟨h.counts.bump hexisting rfl, key_set h.key (h.key _ existing hexisting)⟩
  · rename_i hnone
    exact ⟨h.counts.new hnone rfl, key_set h.key rfl⟩

variable (transactions) in
theorem Groups.foldl_addHolder (h : Groups groups keys) (obj : Text) (holders : List Holder) :
    Groups (holders.foldl (Locks.addHolder transactions obj) groups) (keys ++ holders.map (holderKey obj)) := by
  induction holders generalizing groups keys with
  | nil => simpa using h
  | cons holder holders ih =>
    have hrest := ih (h.addHolder transactions obj holder)
    rwa [List.append_assoc] at hrest

variable (transactions) in
/-- The loop over the objects counts their holder records by key, and the objects that have one. -/
theorem Groups.foldl_addEntry (h : Groups groups keys) (n : ℕ) (entries : List Entry) :
    Groups (entries.foldl (addEntry transactions) (groups, n)).1 (keys ++ entries.flatMap Entry.keys) ∧
      (entries.foldl (addEntry transactions) (groups, n)).2 = n + entries.countP fun e => e.holders ≠ [] := by
  induction entries generalizing groups keys n with
  | nil => simpa using h
  | cons e entries ih =>
    rw [List.foldl_cons, addEntry.eq_def]
    dsimp only
    by_cases hholders : asArray e.lockHolders = []
    · have hkeys : e.keys = [] := by rw [Entry.keys, Entry.holders, hholders, List.map_nil]
      have hnone : decide (e.holders ≠ []) = false := decide_eq_false (not_not.2 hholders)
      rw [if_pos hholders, List.flatMap_cons, hkeys, List.nil_append, List.countP_cons, hnone]
      exact ih h n
    · have hsome : decide (e.holders ≠ []) = true := decide_eq_true hholders
      obtain ⟨hgroups, hn⟩ := ih (h.foldl_addHolder transactions (lockObjectLabel e.obType) e.holders) (n + 1)
      rw [if_neg hholders, List.flatMap_cons, List.countP_cons, hsome, ← List.append_assoc]
      refine ⟨hgroups, ?_⟩
      rw [if_pos rfl]
      exact hn.trans (by omega)

/-- The groups of the summary, before they are sorted. -/
theorem summarizeLocks_spec (lockinfo : OneOrMany LockInfo) : ∃ groups,
    Groups groups ((mergeLotEntries (rawEntries lockinfo)).flatMap Entry.keys) ∧
      (summarizeLocks lockinfo).rows.Perm (groups.entries.map Prod.snd) ∧
      (summarizeLocks lockinfo).totalLocks =
        (mergeLotEntries (rawEntries lockinfo)).countP fun e => e.holders ≠ [] := by
  have hempty : Groups (Dict.empty : Dict GroupKey LockSummaryRow) [] :=
    ⟨Tally.counts_empty, fun k row h => by simp at h⟩
  obtain ⟨hgroups, hn⟩ := hempty.foldl_addEntry
    ((((asArray lockinfo).head?.map fun info => asArray info.transaction).getD []).foldl addTransaction .empty) 0
    (mergeLotEntries (rawEntries lockinfo))
  exact ⟨_, hgroups, List.mergeSort_perm _ _, hn.trans (Nat.zero_add _)⟩

theorem length_flatMap_keys (entries : List Entry) :
    (entries.flatMap Entry.keys).length = (entries.flatMap Entry.holders).length := by
  simp [List.length_flatMap, Entry.keys]

/-- The label is read from the object as it is shown. -/
theorem lockObjectLabel_orDash (obType : Option Text) :
    lockObjectLabel (some (orDash (text obType))) = lockObjectLabel obType := by
  have htrim : ∀ t : Text, t.trim.trim = t.trim := fun t => Trim.trim_trim (fun _ h => h) t
  have htext : orDash (text (some (orDash (text obType)))) = orDash (text obType) := by
    by_cases h : text obType = []
    · rw [h]
      rfl
    · have hshown : orDash (text obType) = text obType := if_neg h
      rw [hshown]
      cases obType with
      | none => exact absurd rfl h
      | some t => exact (congrArg orDash (htrim t)).trans hshown
  rw [lockObjectLabel, htext]
  rfl

/-- An object of the list is in the group of a row just if one of its holder records is. -/
theorem objectsOf_lockObjectRow (row : LockSummaryRow) (e : Entry) :
    objectsOf row (lockObjectRow e) = true ↔ row.key ∈ e.keys := by
  simp only [objectsOf, lockObjectRow, lockObjectLabel_orDash, Bool.and_eq_true, decide_eq_true_eq, List.any_eq_true,
    List.mem_map, Entry.keys, LockSummaryRow.key, holderKey, GroupKey.mk.injEq, Entry.holders]
  constructor
  · rintro ⟨hlabel, _, ⟨h, hmem, rfl⟩, hindex, hmode⟩
    exact ⟨h, hmem, hindex, hlabel, hmode⟩
  · rintro ⟨h, hmem, hindex, hlabel, hmode⟩
    exact ⟨hlabel, _, ⟨h, hmem, rfl⟩, hindex, hmode⟩

theorem nodup_keys_iff (e : Entry) : e.keys.Nodup ↔ (e.holders.map Holder.who).Nodup := by
  have hkeys : e.keys = (e.holders.map Holder.who).map fun w => ⟨w.1, lockObjectLabel e.obType, w.2⟩ := by
    rw [List.map_map]
    rfl
  rw [hkeys]
  refine List.nodup_map_iff fun w w' heq => ?_
  simp only [GroupKey.mk.injEq, true_and] at heq
  exact Prod.ext heq.1 heq.2

/-- A row counts the objects of its group just if none of them has two holder records in it. -/
theorem count_eq_countP_iff (entries : List Entry) (row : LockSummaryRow) :
    (entries.flatMap Entry.keys).count row.key = (entries.map lockObjectRow).countP (objectsOf row) ↔
      ∀ e ∈ entries, e.keys.count row.key = if row.key ∈ e.keys then 1 else 0 := by
  have hcount : (entries.flatMap Entry.keys).count row.key = (entries.map fun e => e.keys.count row.key).sum := by
    rw [List.count_flatMap]
    rfl
  have hsum := Tally.sum_eq_countP_iff (p := fun e => objectsOf row (lockObjectRow e))
    (f := fun e : Entry => e.keys.count row.key) entries fun e _ => ?_
  · rw [hcount, List.countP_map]
    refine hsum.trans (forall₂_congr fun e _ => ?_)
    simp only [objectsOf_lockObjectRow]
  · simp only [objectsOf_lockObjectRow]
    split
    · rename_i hmem
      exact List.count_pos_iff.2 hmem
    · exact Nat.zero_le _

theorem grouped_iff (lockinfo : OneOrMany LockInfo) :
    (∀ row ∈ (summarizeLocks lockinfo).rows, row.count = (listLockObjects lockinfo).countP (objectsOf row)) ↔
      HoldsOnce (answerEntries lockinfo) := by
  obtain ⟨groups, hgroups, hrows, -⟩ := summarizeLocks_spec lockinfo
  have hrow : ∀ row, row ∈ (summarizeLocks lockinfo).rows ↔ ∃ k, groups.get? k = some row := fun row => by
    simp [hrows.mem_iff, Dict.get?_eq_some_iff]
  rw [answerEntries, ← apart_mergeLotEntries]
  constructor
  · intro h e he
    rw [← nodup_keys_iff, List.nodup_iff_count_le_one]
    intro k
    by_cases hk : k ∈ e.keys
    · have hmem : k ∈ (mergeLotEntries (rawEntries lockinfo)).flatMap Entry.keys := List.mem_flatMap.2 ⟨e, he, hk⟩
      obtain ⟨row, hget⟩ := Dict.mem_keys.1 ((hgroups.counts.mem k).2 hmem)
      obtain rfl := hgroups.key k row hget
      have hcount := h row ((hrow row).2 ⟨_, hget⟩)
      rw [hgroups.counts.count _ row hget] at hcount
      rw [(count_eq_countP_iff _ row).1 hcount e he, if_pos hk]
    · rw [List.count_eq_zero_of_not_mem hk]
      exact Nat.zero_le 1
  · intro h row hmem
    obtain ⟨k, hget⟩ := (hrow row).1 hmem
    obtain rfl := hgroups.key k row hget
    rw [hgroups.counts.count _ row hget]
    refine (count_eq_countP_iff _ row).2 fun e he => ?_
    have hnodup := (nodup_keys_iff e).2 (h e he)
    split
    · rename_i hmem
      exact List.count_eq_one_of_mem hnodup hmem
    · rename_i hmem
      exact List.count_eq_zero_of_not_mem hmem

/-- The two views agree just if no object has two holder records for one transaction and mode. -/
theorem lock_views_agree_iff (lockinfo : OneOrMany LockInfo) :
    LockViewsAgree lockinfo ↔ HoldsOnce (answerEntries lockinfo) := by
  obtain ⟨groups, hgroups, hrows, htotal⟩ := summarizeLocks_spec lockinfo
  rw [← grouped_iff]
  refine ⟨fun h => h.grouped, fun h => ⟨?_, ?_, ?_, h⟩⟩
  · rw [listLockObjects, answerEntries, ← flatMap_mergeLotEntries, List.flatMap_map, List.map_flatMap]
    rfl
  · rw [(hrows.map _).sum_eq, List.map_map, answerEntries, ← flatMap_mergeLotEntries, ← length_flatMap_keys]
    exact hgroups.counts.sum_eq
  · rw [htotal, listLockObjects, List.countP_map]
    refine List.countP_congr fun e _ => ?_
    have hholders : (lockObjectRow e).holders = e.holders.map holderRow := rfl
    rw [Function.comp_apply, decide_eq_true_iff, decide_eq_true_iff, hholders, ne_eq, ne_eq, List.map_eq_nil_iff]

/-- The answer for one object: the entry with the metadata, and the one with the holders behind it. -/
def oneObject (obType : String) (holders : List (String × String)) : OneOrMany LockInfo :=
  .one ⟨.one ⟨.many [⟨some obType.toList, some "0|553|1".toList, none, none, none, .missing⟩,
    ⟨none, none, none, none, none,
      .many (holders.map fun h => ⟨some h.1.toList, some h.2.toList, some ['1']⟩)⟩]⟩, .missing⟩

/-- A transaction with two records for one lock on one object: its row counts two objects where there is one. -/
theorem lock_views_agree_fails :
    ¬LockViewsAgree (oneObject "Class = dba.t1" [("1", "IX_LOCK"), ("1", "IX_LOCK")]) := by
  intro h
  have honce := (grouped_iff _).1 h.grouped
  have hnodup := (honce [_] _ [] rfl).nodup
  revert hnodup
  decide

end CubridWebManager.Locks
