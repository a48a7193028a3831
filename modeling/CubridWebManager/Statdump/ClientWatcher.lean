import CubridWebManager.Lib.Dict
import CubridWebManager.Lib.JsText
import CubridWebManager.Lib.Run
import Mathlib.Data.List.Chain

/-!
# The statdump watchers of the client

`apps/web-manager/src/features/database/statdumpWatcher.js`: a dashboard acquires the watcher of its database and gets a
function that releases it.  The holders of a database are counted; the first one starts the watcher, and when the last
one has gone a timer stops it after a grace period, unless it is acquired again.

The actions are those of the dashboards, the timers and the time.  The requests are recorded as they are sent.  What an
entry's count, its timer and the last request can be together is one of three phases (`Phase`), and every action goes
from one to another.
-/

namespace CubridWebManager.Statdump.Client

def STOP_GRACE_MS : Nat := 2000

def dbKey (hostUid dbname : Text) : Text := hostUid ++ ':' :: dbname

/-- An entry of the map, with its identity. -/
structure Entry where
  ref : Nat
  count : Int
  stopTimer : Option Nat
  deriving DecidableEq

/-- A timer with what its function holds: the key, the entry and the names that the holder gave. -/
structure Timer where
  id : Nat
  due : Nat
  key : Text
  current : Nat
  hostUid : Text
  dbname : Text
  deriving DecidableEq

/-- A call of `acquireStatdumpWatcher`; `releasedAt` is set when its release function is called. -/
structure Holder where
  hostUid : Text
  dbname : Text
  releasedAt : Option Nat
  deriving DecidableEq

inductive Task
  | start
  | stop
  deriving DecidableEq

structure Request where
  task : Task
  hostUid : Text
  dbname : Text
  deriving DecidableEq

structure State where
  watchers : Dict Text Entry
  holders : List Holder
  timers : List Timer
  requests : List Request
  nextRef : Nat
  nextTimer : Nat
  now : Nat

inductive Act
  | acquire (hostUid dbname : Text)
  | release (holder : Nat)
  | fire (timer : Nat)
  | pass (ms : Nat)
  deriving DecidableEq

def Holder.key (h : Holder) : Text := dbKey h.hostUid h.dbname

def clearTimeout (id : Option Nat) (timers : List Timer) : List Timer := timers.filter fun t => some t.id ≠ id

def acquireStatdumpWatcher (s : State) (hostUid dbname : Text) : State :=
  let key := dbKey hostUid dbname
  let s := { s with holders := s.holders ++ [Holder.mk hostUid dbname none] }
  match s.watchers.get? key with
  | some entry =>
    { s with
      watchers := s.watchers.set key { entry with count := entry.count + 1, stopTimer := none }
      timers := clearTimeout entry.stopTimer s.timers }
  | none =>
    { s with
      watchers := s.watchers.set key ⟨s.nextRef, 1, none⟩
      requests := s.requests ++ [Request.mk .start hostUid dbname]
      nextRef := s.nextRef + 1 }

/-- The function that the call of the holder returned. -/
def release (s : State) (i : Nat) (h : Holder) : State :=
  if h.releasedAt.isSome then s
  else
    let s := { s with holders := s.holders.set i { h with releasedAt := some s.now } }
    match s.watchers.get? h.key with
    | none => s
    | some current =>
      let count := current.count - 1
      if count > 0 then { s with watchers := s.watchers.set h.key { current with count := count } }
      else
        { s with
          watchers := s.watchers.set h.key { current with count := count, stopTimer := some s.nextTimer }
          timers := s.timers ++ [Timer.mk s.nextTimer (s.now + STOP_GRACE_MS) h.key current.ref h.hostUid h.dbname]
          nextTimer := s.nextTimer + 1 }

/-- The function of the timer. -/
def fire (s : State) (t : Timer) : State :=
  let s := { s with timers := clearTimeout (some t.id) s.timers }
  match s.watchers.get? t.key with
  | none => s
  | some current =>
    if current.ref ≠ t.current ∨ current.count > 0 then s
    else
      { s with
        watchers := s.watchers.erase t.key
        requests := s.requests ++ [Request.mk .stop t.hostUid t.dbname] }

def step (s : State) : Act → Option State
  | .acquire hostUid dbname => some (acquireStatdumpWatcher s hostUid dbname)
  | .release i => s.holders[i]?.map fun h => release s i h
  | .fire id => (s.timers.find? fun t => t.id = id && t.due ≤ s.now).map (fire s)
  | .pass ms => some { s with now := s.now + ms }

def init : State := ⟨.empty, [], [], [], 0, 0, 0⟩

/-! ### The phases of a key -/

def heldBy (holders : List Holder) (key : Text) : Nat := holders.countP fun h => h.key = key && h.releasedAt.isNone

def pendingIn (timers : List Timer) (key : Text) : List Timer := timers.filter fun t => t.key = key

def sentFor (requests : List Request) (key : Text) : List Task :=
  (requests.filter fun r => dbKey r.hostUid r.dbname = key).map Request.task

/-- No entry, an entry that is held, or one that waits for its timer. -/
inductive Phase : Option Entry → Nat → List Timer → List Task → Prop
  | gone {tasks : List Task} (hlast : tasks.getLast? ≠ some .start) : Phase none 0 [] tasks
  | held {ref n : Nat} {tasks : List Task} (hlast : tasks.getLast? = some .start) :
    Phase (some ⟨ref, n + 1, none⟩) (n + 1) [] tasks
  | idle {t : Timer} {tasks : List Task} (hlast : tasks.getLast? = some .start) :
    Phase (some ⟨t.current, 0, some t.id⟩) 0 [t] tasks

structure Inv (s : State) : Prop where
  phase : ∀ key, Phase (s.watchers.get? key) (heldBy s.holders key) (pendingIn s.timers key) (sentFor s.requests key)
  /-- No two requests of a kind follow each other. -/
  alternate : ∀ key, (sentFor s.requests key).IsChain (· ≠ ·)
  ids : (s.timers.map Timer.id).Nodup
  idLt : ∀ t ∈ s.timers, t.id < s.nextTimer
  timerKey : ∀ t ∈ s.timers, t.key = dbKey t.hostUid t.dbname
  /-- A timer was set when a holder of its key released. -/
  due : ∀ t ∈ s.timers, ∃ h ∈ s.holders, h.key = t.key ∧ ∃ released, h.releasedAt = some released ∧
    t.due = released + STOP_GRACE_MS
  started : ∀ h ∈ s.holders, sentFor s.requests h.key ≠ []

theorem inv_init : Inv init where
  phase _ := .gone (by simp [sentFor, init])
  alternate _ := .nil
  ids := List.nodup_nil
  idLt _ h := absurd h List.not_mem_nil
  timerKey _ h := absurd h List.not_mem_nil
  due _ h := absurd h List.not_mem_nil
  started _ h := absurd h List.not_mem_nil

variable {s : State} {holders : List Holder} {timers : List Timer} {requests : List Request} {key : Text}

theorem heldBy_append (holders : List Holder) (h : Holder) (key : Text) :
    heldBy (holders ++ [h]) key = heldBy holders key + if h.key = key ∧ h.releasedAt = none then 1 else 0 := by
  rw [heldBy, List.countP_append, List.countP_singleton]
  simp only [Bool.and_eq_true, decide_eq_true_eq, Option.isNone_iff_eq_none]
  rfl

theorem sentFor_append (requests : List Request) (r : Request) (key : Text) :
    sentFor (requests ++ [r]) key =
      sentFor requests key ++ if dbKey r.hostUid r.dbname = key then [r.task] else [] := by
  rw [sentFor, List.filter_append, List.map_append, List.filter_singleton]
  by_cases h : dbKey r.hostUid r.dbname = key
  · simp [h, sentFor]
  · simp [h, sentFor]

theorem pendingIn_append (timers : List Timer) (t : Timer) (key : Text) :
    pendingIn (timers ++ [t]) key = pendingIn timers key ++ if t.key = key then [t] else [] := by
  rw [pendingIn, List.filter_append, List.filter_singleton]
  by_cases h : t.key = key
  · simp [h, pendingIn]
  · simp [h, pendingIn]

theorem pendingIn_clearTimeout (id : Option Nat) (timers : List Timer) (key : Text) :
    pendingIn (clearTimeout id timers) key = clearTimeout id (pendingIn timers key) := by
  rw [pendingIn, clearTimeout, clearTimeout, pendingIn, List.filter_filter, List.filter_filter]
  simp only [Bool.and_comm]

theorem clearTimeout_none (timers : List Timer) : clearTimeout none timers = timers :=
  List.filter_eq_self.2 fun t _ => by simp

/-- A timer of another key has another id. -/
theorem clearTimeout_pendingIn (hids : (timers.map Timer.id).Nodup) {t : Timer} (ht : t ∈ timers) (hkey : t.key ≠ key) :
    clearTimeout (some t.id) (pendingIn timers key) = pendingIn timers key := by
  refine List.filter_eq_self.2 fun t' ht' => ?_
  obtain ⟨ht', hkey'⟩ := List.mem_filter.1 ht'
  have hne : t' ≠ t := by
    rintro rfl
    exact hkey (by simpa using hkey')
  have hid : t'.id ≠ t.id := fun heq => hne (List.inj_on_of_nodup_map hids ht' ht heq)
  simpa using hid

theorem chain_append {tasks : List Task} (h : tasks.IsChain (· ≠ ·)) {t : Task} (ht : tasks.getLast? ≠ some t) :
    (tasks ++ [t]).IsChain (· ≠ ·) := by
  refine List.isChain_append.2 ⟨h, List.isChain_singleton t, fun x hx y hy => ?_⟩
  rintro rfl
  simp only [List.head?_cons, Option.mem_def, Option.some.injEq] at hy
  exact ht (hy ▸ hx)

section phase

variable {e : Entry} {n : Nat} {pending : List Timer} {tasks : List Task}

theorem Phase.of_none (h : Phase none n pending tasks) : n = 0 ∧ pending = [] ∧ tasks.getLast? ≠ some .start := by
  cases h with
  | gone hlast => exact ⟨rfl, rfl, hlast⟩

theorem Phase.of_some (h : Phase (some e) n pending tasks) : tasks.getLast? = some .start ∧
    ((∃ m : Nat, e.count = m + 1 ∧ e.stopTimer = none ∧ n = m + 1 ∧ pending = []) ∨
      ∃ t, e = ⟨t.current, 0, some t.id⟩ ∧ n = 0 ∧ pending = [t]) := by
  cases h with
  | held hlast => exact ⟨hlast, .inl ⟨_, rfl, rfl, rfl, rfl⟩⟩
  | idle hlast => exact ⟨hlast, .inr ⟨_, rfl, rfl, rfl⟩⟩

end phase

/-! ### The actions -/

variable {hostUid dbname : Text}

theorem inv_acquire_new (h : Inv s) (hget : s.watchers.get? (dbKey hostUid dbname) = none) :
    Inv { s with
      holders := s.holders ++ [Holder.mk hostUid dbname none]
      watchers := s.watchers.set (dbKey hostUid dbname) ⟨s.nextRef, 1, none⟩
      requests := s.requests ++ [Request.mk .start hostUid dbname]
      nextRef := s.nextRef + 1 } := by
  have hphase := h.phase (dbKey hostUid dbname)
  rw [hget] at hphase
  obtain ⟨hheld, hpending, hlast⟩ := hphase.of_none
  refine ⟨fun key => ?_, fun key => ?_, h.ids, h.idLt, h.timerKey, fun t ht => ?_, fun holder hholder => ?_⟩
  · rw [Dict.get?_set, heldBy_append, sentFor_append]
    by_cases hkey : key = dbKey hostUid dbname
    · subst hkey
      rw [if_pos rfl, if_pos ⟨rfl, rfl⟩, if_pos rfl, hheld, hpending]
      exact .held (n := 0) (by simp)
    · have hkey' : ¬(Holder.mk hostUid dbname none).key = key := fun heq => hkey heq.symm
      rw [if_neg hkey, if_neg fun hk => hkey' hk.1, if_neg fun hk => hkey hk.symm, List.append_nil]
      exact h.phase key
  · rw [sentFor_append]
    by_cases hkey : dbKey hostUid dbname = key
    · subst hkey
      rw [if_pos rfl]
      exact chain_append (h.alternate _) hlast
    · rw [if_neg hkey, List.append_nil]
      exact h.alternate key
  · obtain ⟨holder, hholder, hdue⟩ := h.due t ht
    exact ⟨holder, List.mem_append_left _ hholder, hdue⟩
  · rw [sentFor_append]
    rcases List.mem_append.1 hholder with hholder | hholder
    · exact fun hnil => h.started holder hholder (List.append_eq_nil_iff.1 hnil).1
    · obtain rfl := List.mem_singleton.1 hholder
      simp [Holder.key]

theorem inv_acquire_again (h : Inv s) {entry : Entry} (hget : s.watchers.get? (dbKey hostUid dbname) = some entry) :
    Inv { s with
      holders := s.holders ++ [Holder.mk hostUid dbname none]
      watchers := s.watchers.set (dbKey hostUid dbname) { entry with count := entry.count + 1, stopTimer := none }
      timers := clearTimeout entry.stopTimer s.timers } := by
  have hphase := h.phase (dbKey hostUid dbname)
  rw [hget] at hphase
  obtain ⟨hlast, hcount⟩ := hphase.of_some
  have hsub : ∀ t ∈ clearTimeout entry.stopTimer s.timers, t ∈ s.timers := fun t ht => (List.mem_filter.1 ht).1
  refine ⟨fun key => ?_, h.alternate, ?_, fun t ht => h.idLt t (hsub t ht), fun t ht => h.timerKey t (hsub t ht),
    fun t ht => ?_, fun holder hholder => ?_⟩
  · rw [Dict.get?_set, heldBy_append, pendingIn_clearTimeout]
    by_cases hkey : key = dbKey hostUid dbname
    · subst hkey
      rw [if_pos rfl, if_pos ⟨rfl, rfl⟩]
      rcases hcount with ⟨m, hm, hstop, hn, hpending⟩ | ⟨t, rfl, hn, hpending⟩
      · rw [hm, hn, hpending, hstop]
        exact .held (n := m + 1) hlast
      · have hclear : clearTimeout (some t.id) [t] = [] := by simp [clearTimeout]
        rw [hn, hpending, hclear]
        exact .held (n := 0) hlast
    · have hkey' : ¬(Holder.mk hostUid dbname none).key = key := fun heq => hkey heq.symm
      rw [if_neg hkey, if_neg fun hk => hkey' hk.1]
      have hclear : clearTimeout entry.stopTimer (pendingIn s.timers key) = pendingIn s.timers key := by
        rcases hcount with ⟨m, hm, hstop, hn, hpending⟩ | ⟨t, rfl, hn, hpending⟩
        · rw [hstop, clearTimeout_none]
        · have ht : t ∈ pendingIn s.timers (dbKey hostUid dbname) := hpending ▸ List.mem_cons_self
          obtain ⟨ht, htkey⟩ := List.mem_filter.1 ht
          refine clearTimeout_pendingIn h.ids ht ?_
          rw [of_decide_eq_true htkey]
          exact Ne.symm hkey
      rw [hclear]
      exact h.phase key
  · exact h.ids.sublist (List.Sublist.map _ List.filter_sublist)
  · obtain ⟨holder, hholder, hdue⟩ := h.due t (hsub t ht)
    exact ⟨holder, List.mem_append_left _ hholder, hdue⟩
  · rcases List.mem_append.1 hholder with hholder | hholder
    · exact h.started holder hholder
    · obtain rfl := List.mem_singleton.1 hholder
      intro hnil
      have hnil' : sentFor s.requests (dbKey hostUid dbname) = [] := hnil
      rw [hnil'] at hlast
      cases hlast

theorem inv_acquire (h : Inv s) : Inv (acquireStatdumpWatcher s hostUid dbname) := by
  unfold acquireStatdumpWatcher
  dsimp only
  split
  · rename_i entry hget
    exact inv_acquire_again h hget
  · rename_i hget
    exact inv_acquire_new h hget

theorem mem_set_of_ne {α : Type*} {l : List α} {i : Nat} {x y z : α} (hx : x ∈ l) (hi : l[i]? = some y) (hne : x ≠ y) :
    x ∈ l.set i z := by
  obtain ⟨j, hj⟩ := List.mem_iff_getElem?.1 hx
  have hij : i ≠ j := by
    rintro rfl
    exact hne (Option.some.inj (hj.symm.trans hi))
  exact List.mem_iff_getElem?.2 ⟨j, by rw [List.getElem?_set_ne hij, hj]⟩

theorem heldBy_release {i : Nat} {h : Holder} (hi : s.holders[i]? = some h) (hheld : h.releasedAt = none) (key : Text) :
    heldBy (s.holders.set i { h with releasedAt := some s.now }) key + (if h.key = key then 1 else 0) =
      heldBy s.holders key := by
  obtain ⟨hlt, hget⟩ := List.getElem?_eq_some_iff.1 hi
  have hkey : ({ h with releasedAt := some s.now } : Holder).key = h.key := rfl
  have hpos : h.key = key → 0 < heldBy s.holders key := fun hk =>
    List.countP_pos_iff.2 ⟨h, List.mem_of_getElem? hi, by simp [hk, hheld]⟩
  rw [heldBy, List.countP_set hlt, hget, hkey, hheld]
  by_cases hk : h.key = key
  · have hp := hpos hk
    simp only [hk, decide_true, Option.isNone_none, Option.isNone_some, Bool.and_true, Bool.and_false, if_true,
      Bool.false_eq_true, if_false, Nat.add_zero]
    exact Nat.sub_add_cancel hp
  · simp [hk, heldBy]

/-- The holder's key is held. -/
theorem Inv.held_phase (hinv : Inv s) {i : Nat} {h : Holder} (hi : s.holders[i]? = some h)
    (hheld : h.releasedAt = none) : ∃ (current : Entry) (m : Nat), s.watchers.get? h.key = some current ∧
      current.count = m + 1 ∧ current.stopTimer = none ∧ heldBy s.holders h.key = m + 1 ∧
      pendingIn s.timers h.key = [] ∧ (sentFor s.requests h.key).getLast? = some .start := by
  have hpos : 0 < heldBy s.holders h.key := by
    rw [← heldBy_release hi hheld h.key, if_pos rfl]
    exact Nat.succ_pos _
  have hphase := hinv.phase h.key
  cases hget : s.watchers.get? h.key with
  | none =>
    rw [hget] at hphase
    exact absurd hphase.of_none.1 hpos.ne'
  | some current =>
    rw [hget] at hphase
    obtain ⟨hlast, ⟨m, hm, hstop, hn, hpending⟩ | ⟨t, -, hn, -⟩⟩ := hphase.of_some
    · exact ⟨current, m, rfl, hm, hstop, hn, hpending, hlast⟩
    · exact absurd hn hpos.ne'

theorem inv_release (hinv : Inv s) {i : Nat} {h : Holder} (hi : s.holders[i]? = some h) : Inv (release s i h) := by
  unfold release
  by_cases hreleased : h.releasedAt.isSome = true
  · rw [if_pos hreleased]
    exact hinv
  · have hheld : h.releasedAt = none := Option.not_isSome_iff_eq_none.1 hreleased
    obtain ⟨current, m, hget, hm, hstop, hn, hpending, hlast⟩ := hinv.held_phase hi hheld
    have hcount : current.count - 1 = m := by omega
    have hbefore := heldBy_release hi hheld
    have hmem : h ∈ s.holders := List.mem_of_getElem? hi
    have hdue : ∀ t ∈ s.timers, ∃ h' ∈ s.holders.set i { h with releasedAt := some s.now }, h'.key = t.key ∧
        ∃ released, h'.releasedAt = some released ∧ t.due = released + STOP_GRACE_MS := fun t ht => by
      obtain ⟨h', hh', hkey, released, hreleased', hdue⟩ := hinv.due t ht
      refine ⟨h', mem_set_of_ne hh' hi ?_, hkey, released, hreleased', hdue⟩
      rintro rfl
      rw [hheld] at hreleased'
      cases hreleased'
    have hstarted : ∀ h' ∈ s.holders.set i { h with releasedAt := some s.now }, sentFor s.requests h'.key ≠ [] :=
      fun h' hh' => by
        rcases List.mem_or_eq_of_mem_set hh' with hh' | rfl
        · exact hinv.started h' hh'
        · exact hinv.started h hmem
    have hother : ∀ key, key ≠ h.key →
        heldBy (s.holders.set i { h with releasedAt := some s.now }) key = heldBy s.holders key := fun key hkey => by
      have := hbefore key
      rwa [if_neg (Ne.symm hkey)] at this
    have hown : heldBy (s.holders.set i { h with releasedAt := some s.now }) h.key = m := by
      have := hbefore h.key
      rw [if_pos rfl, hn] at this
      exact Nat.succ.inj this
    rw [if_neg hreleased]
    simp only [hget, hcount]
    split
    · rename_i hmore
      obtain ⟨m, rfl⟩ := Nat.exists_eq_succ_of_ne_zero (n := m) (by omega)
      refine ⟨fun key => ?_, hinv.alternate, hinv.ids, hinv.idLt, hinv.timerKey, hdue, hstarted⟩
      rw [Dict.get?_set]
      by_cases hkey : key = h.key
      · subst hkey
        rw [if_pos rfl, hown, hpending, hstop]
        exact .held (n := m) hlast
      · rw [if_neg hkey, hother key hkey]
        exact hinv.phase key
    · rename_i hlastHolder
      obtain rfl : m = 0 := by omega
      refine ⟨fun key => ?_, hinv.alternate, ?_, fun t ht => ?_, fun t ht => ?_, fun t ht => ?_, hstarted⟩
      · rw [Dict.get?_set, pendingIn_append]
        by_cases hkey : key = h.key
        · subst hkey
          rw [if_pos rfl, if_pos rfl, hown, hpending]
          exact .idle (t := ⟨s.nextTimer, s.now + STOP_GRACE_MS, h.key, current.ref, h.hostUid, h.dbname⟩) hlast
        · rw [if_neg hkey, if_neg (Ne.symm hkey), hother key hkey, List.append_nil]
          exact hinv.phase key
      · rw [List.map_append, List.nodup_append]
        refine ⟨hinv.ids, List.nodup_singleton _, fun a ha b hb heq => ?_⟩
        obtain ⟨t, ht, rfl⟩ := List.mem_map.1 ha
        obtain rfl := List.mem_singleton.1 hb
        exact (hinv.idLt t ht).ne heq
      · rcases List.mem_append.1 ht with ht | ht
        · exact Nat.lt_succ_of_lt (hinv.idLt t ht)
        · rw [List.mem_singleton.1 ht]
          exact Nat.lt_succ_self _
      · rcases List.mem_append.1 ht with ht | ht
        · exact hinv.timerKey t ht
        · rw [List.mem_singleton.1 ht]
          rfl
      · rcases List.mem_append.1 ht with ht | ht
        · exact hdue t ht
        · rw [List.mem_singleton.1 ht]
          have hlt : i < s.holders.length := (List.getElem?_eq_some_iff.1 hi).1
          exact ⟨_, List.mem_set hlt _, rfl, s.now, rfl, rfl⟩

theorem inv_fire (hinv : Inv s) {t : Timer} (ht : t ∈ s.timers) : Inv (fire s t) := by
  have hpendingMem : t ∈ pendingIn s.timers t.key := List.mem_filter.2 ⟨ht, by simp⟩
  have hphase := hinv.phase t.key
  have hsub : ∀ t' ∈ clearTimeout (some t.id) s.timers, t' ∈ s.timers := fun t' ht' => (List.mem_filter.1 ht').1
  cases hget : s.watchers.get? t.key with
  | none =>
    rw [hget] at hphase
    rw [hphase.of_none.2.1] at hpendingMem
    cases hpendingMem
  | some current =>
    rw [hget] at hphase
    obtain ⟨hlast, ⟨m, -, -, -, hpending⟩ | ⟨t', rfl, hheld, hpending⟩⟩ := hphase.of_some
    · rw [hpending] at hpendingMem
      cases hpendingMem
    · rw [hpending, List.mem_singleton] at hpendingMem
      subst hpendingMem
      have hkey : dbKey t.hostUid t.dbname = t.key := (hinv.timerKey t ht).symm
      simp only [fire, hget]
      rw [if_neg (by simp)]
      refine ⟨fun key => ?_, fun key => ?_, ?_, fun t' ht' => hinv.idLt t' (hsub t' ht'),
        fun t' ht' => hinv.timerKey t' (hsub t' ht'), fun t' ht' => hinv.due t' (hsub t' ht'), fun h hh => ?_⟩
      · rw [Dict.get?_erase, pendingIn_clearTimeout, sentFor_append]
        by_cases hk : key = t.key
        · subst hk
          have hclear : clearTimeout (some t.id) [t] = [] := by simp [clearTimeout]
          rw [if_pos rfl, hheld, hpending, hclear, if_pos hkey]
          exact .gone (by simp)
        · rw [if_neg hk, clearTimeout_pendingIn hinv.ids ht (Ne.symm hk), if_neg (hkey ▸ Ne.symm hk), List.append_nil]
          exact hinv.phase key
      · rw [sentFor_append]
        by_cases hk : dbKey t.hostUid t.dbname = key
        · rw [if_pos hk]
          refine chain_append (hinv.alternate key) ?_
          rw [← hk, hkey, hlast]
          simp
        · rw [if_neg hk, List.append_nil]
          exact hinv.alternate key
      · exact hinv.ids.sublist (List.Sublist.map _ List.filter_sublist)
      · rw [sentFor_append]
        exact fun hnil => hinv.started h hh (List.append_eq_nil_iff.1 hnil).1

theorem inv_step {a : Act} {s' : State} (hinv : Inv s) (h : step s a = some s') : Inv s' := by
  cases a with
  | acquire hostUid dbname =>
    obtain rfl := Option.some.inj h
    exact inv_acquire hinv
  | release i =>
    obtain ⟨holder, hi, rfl⟩ := Option.map_eq_some_iff.1 h
    exact inv_release hinv hi
  | fire id =>
    obtain ⟨t, ht, rfl⟩ := Option.map_eq_some_iff.1 h
    exact inv_fire hinv (List.mem_of_find?_eq_some ht)
  | pass ms =>
    obtain rfl := Option.some.inj h
    exact ⟨hinv.phase, hinv.alternate, hinv.ids, hinv.idLt, hinv.timerKey, hinv.due, hinv.started⟩

/-! ### Runs -/

/-- What the client promises about its watchers. -/
structure Counted (s : State) : Prop where
  /-- The count is the number of the holders that have not released. -/
  count : ∀ key entry, s.watchers.get? key = some entry → entry.count = heldBy s.holders key
  /-- There is an entry as long as it is held or its timer is pending. -/
  exists_iff : ∀ key, (∃ entry, s.watchers.get? key = some entry) ↔
    0 < heldBy s.holders key ∨ ∃ t ∈ s.timers, t.key = key
  pending : ∀ t ∈ s.timers, ∃ entry, s.watchers.get? t.key = some entry ∧ entry.count = 0 ∧ entry.stopTimer = some t.id
  started : ∀ key, 0 < heldBy s.holders key → (sentFor s.requests key).getLast? = some .start
  /-- A key that nobody has held for the grace period, when its timer is not late: a stop was sent last. -/
  stopped : ∀ key, (∃ h ∈ s.holders, h.key = key) →
    (∀ h ∈ s.holders, h.key = key → ∃ released, h.releasedAt = some released ∧ released + STOP_GRACE_MS ≤ s.now) →
    (∀ t ∈ s.timers, t.key = key → s.now < t.due) →
    s.watchers.get? key = none ∧ (sentFor s.requests key).getLast? = some .stop
  /-- It was sent once: between two stops there is a start. -/
  once : ∀ key, (sentFor s.requests key).IsChain (· ≠ ·)

theorem mem_pendingIn {t : Timer} : t ∈ pendingIn timers key ↔ t ∈ timers ∧ t.key = key := by
  simp [pendingIn]

theorem Inv.counted (h : Inv s) : Counted s := by
  refine ⟨fun key entry hget => ?_, fun key => ?_, fun t ht => ?_, fun key hheld => ?_,
    fun key hsome hall htimers => ?_, h.alternate⟩
  · have hphase := h.phase key
    rw [hget] at hphase
    obtain ⟨-, ⟨m, hm, -, hn, -⟩ | ⟨t, rfl, hn, -⟩⟩ := hphase.of_some
    · rw [hm, hn]
      rfl
    · rw [hn]
      rfl
  · have hphase := h.phase key
    cases hget : s.watchers.get? key with
    | none =>
      rw [hget] at hphase
      obtain ⟨hn, hpending, -⟩ := hphase.of_none
      refine iff_of_false (by simp) ?_
      rintro (hpos | ⟨t, ht, hkey⟩)
      · exact hpos.ne' hn
      · have hmem := mem_pendingIn.2 ⟨ht, hkey⟩
        rw [hpending] at hmem
        cases hmem
    | some entry =>
      rw [hget] at hphase
      refine iff_of_true ⟨entry, rfl⟩ ?_
      obtain ⟨-, ⟨m, -, -, hn, -⟩ | ⟨t, -, -, hpending⟩⟩ := hphase.of_some
      · exact .inl (hn ▸ Nat.succ_pos m)
      · obtain ⟨ht, hkey⟩ := mem_pendingIn.1 (hpending ▸ List.mem_cons_self : t ∈ pendingIn s.timers key)
        exact .inr ⟨t, ht, hkey⟩
  · have hphase := h.phase t.key
    have hmem := mem_pendingIn.2 ⟨ht, rfl⟩
    cases hget : s.watchers.get? t.key with
    | none =>
      rw [hget] at hphase
      rw [hphase.of_none.2.1] at hmem
      cases hmem
    | some entry =>
      rw [hget] at hphase
      obtain ⟨-, ⟨m, -, -, -, hpending⟩ | ⟨t', rfl, -, hpending⟩⟩ := hphase.of_some
      · rw [hpending] at hmem
        cases hmem
      · rw [hpending, List.mem_singleton] at hmem
        subst hmem
        exact ⟨_, rfl, rfl, rfl⟩
  · have hphase := h.phase key
    cases hget : s.watchers.get? key with
    | none =>
      rw [hget] at hphase
      exact absurd hphase.of_none.1 hheld.ne'
    | some entry =>
      rw [hget] at hphase
      exact hphase.of_some.1
  · have hnone : heldBy s.holders key = 0 := List.countP_eq_zero.2 fun holder hholder hheld => by
      rw [Bool.and_eq_true, decide_eq_true_eq] at hheld
      obtain ⟨released, hreleased, -⟩ := hall holder hholder hheld.1
      simp [hreleased] at hheld
    have hphase := h.phase key
    cases hget : s.watchers.get? key with
    | none =>
      rw [hget] at hphase
      obtain ⟨holder, hholder, rfl⟩ := hsome
      refine ⟨rfl, ?_⟩
      cases hlast : (sentFor s.requests holder.key).getLast? with
      | none => exact absurd (List.getLast?_eq_none_iff.1 hlast) (h.started holder hholder)
      | some task =>
        cases task with
        | start => exact absurd hlast hphase.of_none.2.2
        | stop => rfl
    | some entry =>
      rw [hget] at hphase
      obtain ⟨-, ⟨m, -, -, hn, -⟩ | ⟨t, -, -, hpending⟩⟩ := hphase.of_some
      · rw [hnone] at hn
        cases hn
      · obtain ⟨ht, hkey⟩ := mem_pendingIn.1 (hpending ▸ List.mem_cons_self : t ∈ pendingIn s.timers key)
        obtain ⟨holder, hholder, hholderKey, released, hreleased, hdue⟩ := h.due t ht
        obtain ⟨released', hreleased', hle⟩ := hall holder hholder (hholderKey.trans hkey)
        obtain rfl := Option.some.inj (hreleased.symm.trans hreleased')
        exact absurd (htimers t ht hkey) (by omega)

/-- The watchers are counted in every state that a run reaches. -/
theorem watchers_counted {as : List Act} (h : Transition.Run step Transition.Always init as s) : Counted s :=
  (h.invariant (fun _ _ _ hinv _ hstep => inv_step hinv hstep) inv_init).counted

/-- Two dashboards of one database, one of which comes back within the grace period. -/
def twoDashboards : List Act :=
  [.acquire "h1".toList "demodb".toList, .acquire "h1".toList "demodb".toList, .release 0, .release 0, .release 1,
    .pass 1999, .acquire "h1".toList "demodb".toList, .pass 5000, .release 2, .pass 2000, .fire 1]

theorem watchers_counted_twice : ∃ s, Transition.Run step Transition.Always init twoDashboards s ∧ Counted s ∧
    sentFor s.requests (dbKey "h1".toList "demodb".toList) = [.start, .stop] := by
  have hexists : ∃ s, Transition.Run step Transition.Always init twoDashboards s ∧
      sentFor s.requests (dbKey "h1".toList "demodb".toList) = [.start, .stop] :=
    Transition.exists_run (by decide)
  obtain ⟨s, hrun, hsent⟩ := hexists
  exact ⟨s, hrun, watchers_counted hrun, hsent⟩

end CubridWebManager.Statdump.Client
