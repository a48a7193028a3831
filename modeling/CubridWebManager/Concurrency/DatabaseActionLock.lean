import CubridWebManager.Jobs.Step
import CubridWebManager.Lib.Run

/-!
# `withDatabaseActionLock`

A call that finds none of its databases busy holds them all while its body runs; otherwise it answers with the first
busy one and does nothing.  What is in the map belongs to exactly one call whose `finally` has not run
(`Held.step`), so the calls hold all or nothing, and those that share a name on one host run one after the other.
-/

namespace CubridWebManager.Concurrency

open Transition Jobs

/-- `busyDatabase` with the action in progress. -/
def busyAction (running : Dict String String) (hostKey : String) (dbnames : List String) : Option (String × String) :=
  (busyDatabase running hostKey dbnames).bind fun dbname =>
    (running.get? (actionLockKey hostKey dbname)).map fun action => (dbname, action)

inductive LockPhase (β ε : Type)
  | inBody
  /-- The body has settled, and the `finally` has not run yet. -/
  | settled (outcome : Except ε β)
  | ended (outcome : Except ε β)
  /-- The call has returned without running its body. -/
  | busy (dbname action : String)

structure LockCall (β ε : Type) where
  hostKey : String
  dbnames : List String
  action : String
  phase : LockPhase β ε

namespace LockCall

variable {β ε : Type}

/-- Its `finally` is still to come. -/
def holding (c : LockCall β ε) : Bool :=
  match c.phase with
  | .inBody => true
  | .settled _ => true
  | _ => false

/-- The keys of the databases that the call is about. -/
def keys (c : LockCall β ε) : List String := c.dbnames.eraseDups.map (actionLockKey c.hostKey)

end LockCall

/-- The map, and the calls, numbered in the order in which they are made. -/
structure LockState (β ε : Type) where
  running : Dict String String
  calls : Nat → Option (LockCall β ε)
  made : Nat

inductive LockAct (β ε : Type)
  | call (hostKey : String) (dbnames : List String) (action : String)
  /-- The body of call `i` resolves or rejects. -/
  | settle (i : Nat) (outcome : Except ε β)
  /-- Call `i` runs its `finally`. -/
  | leave (i : Nat)

variable {β ε : Type}

namespace LockState

def initial : LockState β ε := ⟨.empty, fun _ => none, 0⟩

/-- `withDatabaseActionLock` up to the call of its body, or to its return. -/
def withDatabaseActionLock (s : LockState β ε) (hostKey : String) (dbnames : List String) (action : String) :
    LockState β ε :=
  let names := dbnames.eraseDups
  match busyAction s.running hostKey names with
  | some (dbname, held) =>
    { s with calls := Function.update s.calls s.made (some ⟨hostKey, dbnames, action, .busy dbname held⟩), made := s.made + 1 }
  | none =>
    { running := hold s.running hostKey action names
      calls := Function.update s.calls s.made (some ⟨hostKey, dbnames, action, .inBody⟩)
      made := s.made + 1 }

end LockState

def lockStep (s : LockState β ε) : LockAct β ε → Option (LockState β ε)
  | .call hostKey dbnames action => some (s.withDatabaseActionLock hostKey dbnames action)
  | .settle i outcome =>
    (s.calls i).bind fun c => match c.phase with
      | .inBody => some { s with calls := Function.update s.calls i (some { c with phase := .settled outcome }) }
      | _ => none
  | .leave i =>
    (s.calls i).bind fun c => match c.phase with
      | .settled outcome =>
        some { s with
          running := unhold s.running c.hostKey c.dbnames.eraseDups
          calls := Function.update s.calls i (some { c with phase := .ended outcome }) }
      | _ => none

/-! ### Keys and maps -/

private theorem takeWhile_hostKey {l r : List Char} (h : '/' ∉ l) : (l ++ '/' :: r).takeWhile (· ≠ '/') = l := by
  have hall : ∀ c ∈ l, decide (c ≠ '/') = true := by
    intro c hc
    rw [decide_eq_true_iff]
    rintro rfl
    exact h hc
  rw [List.takeWhile_append_of_pos hall, List.takeWhile_cons_of_neg (by simp), List.append_nil]

/-- A host key without a slash can be read off the key. -/
theorem actionLockKey_injective {hostKey hostKey' dbname dbname' : String} (h : '/' ∉ hostKey.toList)
    (h' : '/' ∉ hostKey'.toList) (heq : actionLockKey hostKey dbname = actionLockKey hostKey' dbname') :
    hostKey = hostKey' ∧ dbname = dbname' := by
  have hlist := congrArg String.toList heq
  simp only [actionLockKey, String.toList_append, List.append_assoc] at hlist
  have hhost := congrArg (List.takeWhile (· ≠ '/')) hlist
  have hslash : "/".toList = ['/'] := rfl
  rw [hslash, List.singleton_append, List.singleton_append, takeWhile_hostKey h, takeWhile_hostKey h'] at hhost
  rw [hhost] at hlist
  have hname := List.append_cancel_left (List.append_cancel_left hlist)
  exact ⟨String.toList_inj.1 hhost, String.toList_inj.1 hname⟩

theorem get?_hold (names : List String) (running : Dict String String) (hostKey action key : String) :
    (hold running hostKey action names).get? key =
      if key ∈ names.map (actionLockKey hostKey) then some action else running.get? key := by
  induction names generalizing running with
  | nil => rfl
  | cons dbname names ih =>
    show (hold (running.set (actionLockKey hostKey dbname) action) hostKey action names).get? key = _
    rw [ih, Dict.get?_set, List.map_cons]
    by_cases hmem : key ∈ names.map (actionLockKey hostKey)
    · rw [if_pos hmem, if_pos (List.mem_cons_of_mem _ hmem)]
    · by_cases hkey : key = actionLockKey hostKey dbname
      · rw [if_neg hmem, if_pos hkey, if_pos (hkey ▸ List.mem_cons_self)]
      · rw [if_neg hmem, if_neg hkey, if_neg (List.not_mem_cons_of_ne_of_not_mem hkey hmem)]

theorem get?_unhold (names : List String) (running : Dict String String) (hostKey key : String) :
    (unhold running hostKey names).get? key =
      if key ∈ names.map (actionLockKey hostKey) then none else running.get? key := by
  induction names generalizing running with
  | nil => rfl
  | cons dbname names ih =>
    show (unhold (running.erase (actionLockKey hostKey dbname)) hostKey names).get? key = _
    rw [ih, Dict.get?_erase, List.map_cons]
    by_cases hmem : key ∈ names.map (actionLockKey hostKey)
    · rw [if_pos hmem, if_pos (List.mem_cons_of_mem _ hmem)]
    · by_cases hkey : key = actionLockKey hostKey dbname
      · rw [if_neg hmem, if_pos hkey, if_pos (hkey ▸ List.mem_cons_self)]
      · rw [if_neg hmem, if_neg hkey, if_neg (List.not_mem_cons_of_ne_of_not_mem hkey hmem)]

theorem mem_keys {c : LockCall β ε} {key : String} :
    key ∈ c.keys ↔ ∃ dbname ∈ c.dbnames, actionLockKey c.hostKey dbname = key := by
  simp only [LockCall.keys, List.mem_map, List.mem_eraseDups]

/-- The call goes ahead if none of its names is busy, and otherwise learns of one that is. -/
theorem busyAction_eq_none_iff {running : Dict String String} {hostKey : String} {dbnames : List String} :
    busyAction running hostKey dbnames = none ↔
      ∀ dbname ∈ dbnames, running.get? (actionLockKey hostKey dbname) = none := by
  simp only [busyAction, busyDatabase, Option.bind_eq_none_iff, Option.map_eq_none_iff]
  constructor
  · intro hall dbname hname
    cases hfind : dbnames.find? fun dbname => (running.get? (actionLockKey hostKey dbname)).isSome with
    | none => simpa using List.find?_eq_none.1 hfind dbname hname
    | some found =>
      have hsome := List.find?_some hfind
      rw [hall found hfind] at hsome
      cases hsome
  · intro hfree dbname hfind
    exact hfree dbname (List.mem_of_find?_eq_some hfind)

theorem busyAction_some {running : Dict String String} {hostKey dbname held : String} {dbnames : List String}
    (h : busyAction running hostKey dbnames = some (dbname, held)) :
    dbname ∈ dbnames ∧ running.get? (actionLockKey hostKey dbname) = some held := by
  simp only [busyAction, busyDatabase, Option.bind_eq_some_iff, Option.map_eq_some_iff, Prod.mk.injEq] at h
  obtain ⟨name, hfind, action, hget, rfl, rfl⟩ := h
  exact ⟨List.mem_of_find?_eq_some hfind, hget⟩

/-! ### What is held -/

/-- The entries of the map are those of the calls that hold, and no two of these share one. -/
structure Held (s : LockState β ε) : Prop where
  numbered : ∀ i c, s.calls i = some c → i < s.made
  holds : ∀ i c, s.calls i = some c → c.holding = true → ∀ key ∈ c.keys, s.running.get? key = some c.action
  owned : ∀ key action, s.running.get? key = some action →
    ∃ i c, s.calls i = some c ∧ c.holding = true ∧ key ∈ c.keys
  unique : ∀ i j c d key, s.calls i = some c → s.calls j = some d → c.holding = true → d.holding = true →
    key ∈ c.keys → key ∈ d.keys → i = j

namespace Held

variable {s s' : LockState β ε} {i : Nat} {c : LockCall β ε}

theorem initial : Held (LockState.initial : LockState β ε) where
  numbered := nofun
  holds := nofun
  owned := nofun
  unique := nofun

/-- One call changes: the entries of the others stay, its own are set or gone, and nothing else comes in. -/
theorem update {running : Dict String String} {made : Nat} (h : Held s) (hlt : i < made) (hmade : s.made ≤ made)
    (hothers : ∀ j d, j ≠ i → s.calls j = some d → d.holding = true → ∀ key ∈ d.keys,
      running.get? key = s.running.get? key ∧ ¬ (c.holding = true ∧ key ∈ c.keys))
    (hown : c.holding = true → ∀ key ∈ c.keys, running.get? key = some c.action)
    (hfrom : ∀ key action, running.get? key = some action →
      (c.holding = true ∧ key ∈ c.keys) ∨ ∃ j d, j ≠ i ∧ s.calls j = some d ∧ d.holding = true ∧ key ∈ d.keys) :
    Held ⟨running, Function.update s.calls i (some c), made⟩ := by
  have hcases : ∀ j d, Function.update s.calls i (some c) j = some d → (j = i ∧ d = c) ∨ (j ≠ i ∧ s.calls j = some d) := by
    intro j d hd
    rw [Function.update_apply] at hd
    split at hd
    · rename_i heq
      exact .inl ⟨heq, (Option.some.inj hd).symm⟩
    · rename_i hne
      exact .inr ⟨hne, hd⟩
  refine ⟨fun j d hd => ?_, fun j d hd hholding key hkey => ?_, fun key action hget => ?_,
    fun j k d e key hd he hdh heh hkd hke => ?_⟩
  · rcases hcases j d hd with ⟨rfl, -⟩ | ⟨-, hd⟩
    · exact hlt
    · exact Nat.lt_of_lt_of_le (h.numbered j d hd) hmade
  · rcases hcases j d hd with ⟨rfl, rfl⟩ | ⟨hne, hd⟩
    · exact hown hholding key hkey
    · exact (hothers j d hne hd hholding key hkey).1.trans (h.holds j d hd hholding key hkey)
  · rcases hfrom key action hget with ⟨hholding, hkey⟩ | ⟨j, d, hne, hd, hrest⟩
    · exact ⟨i, c, Function.update_self .., hholding, hkey⟩
    · exact ⟨j, d, (Function.update_of_ne hne ..).trans hd, hrest⟩
  · rcases hcases j d hd with ⟨rfl, rfl⟩ | ⟨hne, hd'⟩ <;> rcases hcases k e he with ⟨rfl, rfl⟩ | ⟨hne', he'⟩
    · rfl
    · exact absurd ⟨hdh, hkd⟩ (hothers k e hne' he' heh key hke).2
    · exact absurd ⟨heh, hke⟩ (hothers j d hne hd' hdh key hkd).2
    · exact h.unique j k d e key hd' he' hdh heh hkd hke

theorem call (h : Held s) (hostKey : String) (dbnames : List String) (action : String) :
    Held (s.withDatabaseActionLock hostKey dbnames action) := by
  have hne : ∀ j d, s.calls j = some d → j ≠ s.made := fun j d hd => Nat.ne_of_lt (h.numbered j d hd)
  unfold LockState.withDatabaseActionLock
  dsimp only
  split
  · refine h.update (Nat.lt_succ_self _) (Nat.le_succ _) (fun j d _ _ _ key _ => ⟨rfl, nofun⟩) nofun
      fun key action hget => .inr ?_
    obtain ⟨j, d, hd, hrest⟩ := h.owned key action hget
    exact ⟨j, d, hne j d hd, hd, hrest⟩
  · rename_i hfree
    rw [busyAction_eq_none_iff] at hfree
    -- the names of the new call are free, so no other call holds one
    have hapart : ∀ j d, s.calls j = some d → d.holding = true → ∀ key ∈ d.keys,
        key ∉ dbnames.eraseDups.map (actionLockKey hostKey) := by
      intro j d hd hholding key hkey hmem
      obtain ⟨dbname, hname, rfl⟩ := List.mem_map.1 hmem
      cases (h.holds j d hd hholding _ hkey).symm.trans (hfree dbname hname)
    refine h.update (Nat.lt_succ_self _) (Nat.le_succ _) (fun j d _ hd hholding key hkey => ?_)
      (fun _ key hkey => ?_) fun key held hget => ?_
    · have hnot := hapart j d hd hholding key hkey
      exact ⟨(get?_hold ..).trans (if_neg hnot), fun hboth => hnot hboth.2⟩
    · exact (get?_hold ..).trans (if_pos hkey)
    · rw [get?_hold] at hget
      split at hget
      · rename_i hmem
        exact .inl ⟨rfl, hmem⟩
      · obtain ⟨j, d, hd, hrest⟩ := h.owned key held hget
        exact .inr ⟨j, d, hne j d hd, hd, hrest⟩

theorem settle {outcome : Except ε β} (h : Held s) (hc : s.calls i = some c) (hphase : c.phase = .inBody) :
    Held { s with calls := Function.update s.calls i (some { c with phase := .settled outcome }) } := by
  have hholding : c.holding = true := by rw [LockCall.holding, hphase]
  refine h.update (h.numbered i c hc) (Nat.le_refl _) (fun j d hne hd hdh key hkey => ⟨rfl, fun hboth => ?_⟩)
    (fun _ => h.holds i c hc hholding) fun key action hget => ?_
  · exact hne (h.unique j i d c key hd hc hdh hholding hkey hboth.2)
  · obtain ⟨j, d, hd, hdh, hkey⟩ := h.owned key action hget
    by_cases hj : j = i
    · subst hj
      obtain rfl := Option.some.inj (hc.symm.trans hd)
      exact .inl ⟨rfl, hkey⟩
    · exact .inr ⟨j, d, hj, hd, hdh, hkey⟩

theorem leave {outcome : Except ε β} (h : Held s) (hc : s.calls i = some c) (hphase : c.phase = .settled outcome) :
    Held { s with
      running := unhold s.running c.hostKey c.dbnames.eraseDups
      calls := Function.update s.calls i (some { c with phase := .ended outcome }) } := by
  have hholding : c.holding = true := by rw [LockCall.holding, hphase]
  refine h.update (h.numbered i c hc) (Nat.le_refl _) (fun j d hne hd hdh key hkey => ⟨?_, nofun⟩) nofun
    fun key action hget => .inr ?_
  · exact (get?_unhold ..).trans (if_neg fun hmem => hne (h.unique j i d c key hd hc hdh hholding hkey hmem))
  · rw [get?_unhold] at hget
    split at hget
    · cases hget
    · rename_i hnot
      obtain ⟨j, d, hd, hdh, hkey⟩ := h.owned key action hget
      refine ⟨j, d, ?_, hd, hdh, hkey⟩
      rintro rfl
      obtain rfl := Option.some.inj (hc.symm.trans hd)
      exact hnot hkey

end Held

/-- What a step can do, by the call that it is about. -/
theorem lockStep_cases {s s' : LockState β ε} {act : LockAct β ε} (h : lockStep s act = some s') :
    (∃ hostKey dbnames action, act = .call hostKey dbnames action ∧
      s' = s.withDatabaseActionLock hostKey dbnames action) ∨
    (∃ i c outcome, act = .settle i outcome ∧ s.calls i = some c ∧ c.phase = .inBody ∧
      s' = { s with calls := Function.update s.calls i (some { c with phase := .settled outcome }) }) ∨
    ∃ i c outcome, act = .leave i ∧ s.calls i = some c ∧ c.phase = .settled outcome ∧
      s' = { s with
        running := unhold s.running c.hostKey c.dbnames.eraseDups
        calls := Function.update s.calls i (some { c with phase := .ended outcome }) } := by
  cases act with
  | call hostKey dbnames action => exact .inl ⟨hostKey, dbnames, action, rfl, (Option.some.inj h).symm⟩
  | settle i outcome =>
    simp only [lockStep, Option.bind_eq_some_iff] at h
    obtain ⟨c, hc, h⟩ := h
    split at h
    · rename_i hphase
      exact .inr (.inl ⟨i, c, outcome, rfl, hc, hphase, (Option.some.inj h).symm⟩)
    · cases h
  | leave i =>
    simp only [lockStep, Option.bind_eq_some_iff] at h
    obtain ⟨c, hc, h⟩ := h
    split at h
    · rename_i outcome hphase
      exact .inr (.inr ⟨i, c, outcome, rfl, hc, hphase, (Option.some.inj h).symm⟩)
    · cases h

theorem Held.of_run {s : LockState β ε} {acts : List (LockAct β ε)} (h : Run lockStep Always .initial acts s) :
    Held s := by
  refine h.invariant (fun s act s' hs _ hstep => ?_) .initial
  rcases lockStep_cases hstep with ⟨hostKey, dbnames, action, -, rfl⟩ | ⟨i, c, outcome, -, hc, hphase, rfl⟩ |
    ⟨i, c, outcome, -, hc, hphase, rfl⟩
  · exact hs.call hostKey dbnames action
  · exact hs.settle hc hphase
  · exact hs.leave hc hphase

/-- What the lock promises in a state that a run has reached. -/
structure AllOrNothing (s : LockState β ε) : Prop where
  /-- A call whose names are all free holds them all, and nothing else changes. -/
  holdsAll : ∀ hostKey dbnames action,
    (∀ dbname ∈ dbnames, s.running.get? (actionLockKey hostKey dbname) = none) →
      (s.withDatabaseActionLock hostKey dbnames action).calls s.made = some ⟨hostKey, dbnames, action, .inBody⟩ ∧
      ∀ key, (s.withDatabaseActionLock hostKey dbnames action).running.get? key =
        if ∃ dbname ∈ dbnames, actionLockKey hostKey dbname = key then some action else s.running.get? key
  /-- Any other call returns with a name that another call holds, and changes no hold. -/
  busy : ∀ hostKey dbnames action,
    (∃ dbname ∈ dbnames, s.running.get? (actionLockKey hostKey dbname) ≠ none) →
      ∃ dbname ∈ dbnames, ∃ i c, s.calls i = some c ∧ c.holding = true ∧ actionLockKey hostKey dbname ∈ c.keys ∧
        (s.withDatabaseActionLock hostKey dbnames action).calls s.made =
          some ⟨hostKey, dbnames, action, .busy dbname c.action⟩ ∧
        (s.withDatabaseActionLock hostKey dbnames action).running = s.running
  /-- Such a call never runs its body. -/
  runsNothing : ∀ i c dbname action, s.calls i = some c → c.phase = .busy dbname action → ∀ outcome,
    lockStep s (.settle i outcome) = none ∧ lockStep s (.leave i) = none
  /-- A call that is running its body holds all its names. -/
  held : ∀ i c, s.calls i = some c → c.holding = true → ∀ dbname ∈ c.dbnames,
    s.running.get? (actionLockKey c.hostKey dbname) = some c.action
  /-- The end of a body, in whatever way, releases these and nothing else. -/
  releases : ∀ i c outcome, s.calls i = some c → c.phase = .settled outcome → ∃ s', lockStep s (.leave i) = some s' ∧
    ∀ key, s'.running.get? key =
      if ∃ dbname ∈ c.dbnames, actionLockKey c.hostKey dbname = key then none else s.running.get? key
  settles : ∀ i c, s.calls i = some c → c.phase = .inBody → ∀ outcome,
    ∃ s', lockStep s (.settle i outcome) = some s' ∧ s'.running = s.running
  exclusive : ∀ i j c d dbname, s.calls i = some c → s.calls j = some d → c.phase = .inBody → d.phase = .inBody →
    c.hostKey = d.hostKey → dbname ∈ c.dbnames → dbname ∈ d.dbnames → i = j

/-- For any calls, in any order of steps: a call holds all its databases or none, two calls that share one on a host do
not run together, and the keys of different databases differ. -/
theorem withDatabaseActionLock_allOrNothing (acts : List (LockAct β ε)) (s : LockState β ε)
    (h : Run lockStep Always .initial acts s) :
    AllOrNothing s ∧ ∀ hostKey hostKey' dbname dbname', '/' ∉ hostKey.toList → '/' ∉ hostKey'.toList →
      actionLockKey hostKey dbname = actionLockKey hostKey' dbname' → hostKey = hostKey' ∧ dbname = dbname' := by
  have hheld := Held.of_run h
  refine ⟨⟨fun hostKey dbnames action hfree => ?_, fun hostKey dbnames action hbusy => ?_,
    fun i c dbname action hc hphase outcome => ?_, fun i c hc hholding dbname hname => ?_, fun i c outcome hc hphase => ?_, fun i c hc hphase outcome => ?_,
    fun i j c d dbname hc hd hcin hdin hhost hcn hdn => ?_⟩, fun _ _ _ _ hh hh' => actionLockKey_injective hh hh'⟩
  · have hnone : busyAction s.running hostKey dbnames.eraseDups = none :=
      busyAction_eq_none_iff.2 fun dbname hname => hfree dbname (List.mem_eraseDups.1 hname)
    simp only [LockState.withDatabaseActionLock, hnone, Function.update_self, get?_hold, List.mem_map,
      List.mem_eraseDups, true_and, implies_true]
  · have hsome : busyAction s.running hostKey dbnames.eraseDups ≠ none := by
      rw [ne_eq, busyAction_eq_none_iff]
      obtain ⟨dbname, hname, hrunning⟩ := hbusy
      exact fun hall => hrunning (hall dbname (List.mem_eraseDups.2 hname))
    obtain ⟨⟨dbname, action'⟩, hfound⟩ := Option.ne_none_iff_exists'.1 hsome
    obtain ⟨hname, hget⟩ := busyAction_some hfound
    obtain ⟨i, c, hc, hholding, hkey⟩ := hheld.owned _ _ hget
    obtain rfl := Option.some.inj ((hheld.holds i c hc hholding _ hkey).symm.trans hget)
    refine ⟨dbname, List.mem_eraseDups.1 hname, i, c, hc, hholding, hkey, ?_⟩
    simp only [LockState.withDatabaseActionLock, hfound, Function.update_self, and_self]
  · simp only [lockStep, hc, hphase, Option.bind_some, and_self]
  · exact hheld.holds i c hc hholding _ (mem_keys.2 ⟨dbname, hname, rfl⟩)
  · refine ⟨{ s with
        running := unhold s.running c.hostKey c.dbnames.eraseDups
        calls := Function.update s.calls i (some { c with phase := .ended outcome }) }, ?_, fun key => ?_⟩
    · simp only [lockStep, hc, hphase, Option.bind_some]
    · simp only [get?_unhold, List.mem_map, List.mem_eraseDups]
  · refine ⟨{ s with calls := Function.update s.calls i (some { c with phase := .settled outcome }) }, ?_, rfl⟩
    simp only [lockStep, hc, hphase, Option.bind_some]
  · have hkey : actionLockKey c.hostKey dbname ∈ c.keys := mem_keys.2 ⟨dbname, hcn, rfl⟩
    have hkey' : actionLockKey c.hostKey dbname ∈ d.keys := mem_keys.2 ⟨dbname, hdn, hhost ▸ rfl⟩
    exact hheld.unique i j c d _ hc hd (by rw [LockCall.holding, hcin]) (by rw [LockCall.holding, hdin]) hkey hkey'

/-- Two calls with a common database, of which the second one comes while the first is in its body. -/
theorem withDatabaseActionLock_allOrNothing_two : ∃ s : LockState Nat String,
    Run lockStep Always .initial [.call "h:8001" ["a", "b", "a"] "stop", .call "h:8001" ["c", "b"] "start",
      .call "h:8002" ["b"] "start", .settle 0 (.error "down"), .leave 0] s ∧
    s.running.entries = [("h:8002/b", "start")] ∧ AllOrNothing s := by
  obtain ⟨s, hs, hentries⟩ : ∃ s : LockState Nat String,
      runChecked lockStep Always .initial [.call "h:8001" ["a", "b", "a"] "stop", .call "h:8001" ["c", "b"] "start",
        .call "h:8002" ["b"] "start", .settle 0 (.error "down"), .leave 0] = some s ∧
      s.running.entries = [("h:8002/b", "start")] := ⟨_, rfl, by decide⟩
  have hrun := Run.of_runChecked hs
  exact ⟨s, hrun, hentries, (withDatabaseActionLock_allOrNothing _ s hrun).1⟩

end CubridWebManager.Concurrency
