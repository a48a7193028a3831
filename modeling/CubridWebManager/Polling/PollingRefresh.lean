import CubridWebManager.Layout.Tabs

/-!
# The refresh of a view

`usePollingRefresh` fetches the data of a view: when it is first shown, when its tab is resumed, at every tick of a timer,
when the network is back, when a caller wants it, and at a global refresh.  No fetch is started while another is in
flight; a global refresh that finds one in flight is kept (`pendingRefresh`) and runs when that one settles.

The hook sees the store and the browser in its effects, which run after a render with the values of that render: this is
`commit`, with any values, as long as the counter of the global refreshes does not go back.  A global refresh arrives
with the render that first counts it.
-/

namespace CubridWebManager.Polling

open Transition Layout

abbrev HostUid := Text

/-- The arguments of the hook that are fixed for a view. -/
structure Hook where
  hostUid : HostUid
  tabId : TabId
  deriving DecidableEq, Repr

/-- The values of a render. -/
structure View where
  authorizedHosts : List HostUid
  reconnectQueue : List HostUid
  refreshCounter : Nat
  activeMainTab : Option TabId
  isBrowserVisible : Bool
  anyModalOpen : Bool
  pollingIntervalSeconds : Nat
  deriving DecidableEq, Repr

structure Fetch where
  id : Nat
  silent : Bool
  deriving DecidableEq, Repr

/-- What happens to the view, in its order. -/
inductive Mark
  /-- A global refresh, while the view is the foreground tab. -/
  | refresh
  /-- The effects of a render, in which the host may be asked or not. -/
  | rendered (mayFetch : Bool)
  | started (id : Nat)
  deriving DecidableEq, Repr

structure State where
  mounted : Bool
  /-- The values of the last render whose effects have run: those that `handleRefreshRef` and the listeners see. -/
  view : View
  isActive : Bool
  initialLoadDone : Bool
  wasAuthorized : Bool
  isFetching : Bool
  pendingRefresh : Bool
  lastProcessedCounter : Nat
  isManualRefreshing : Bool
  /-- The fetches that have been started and not settled. -/
  inFlight : List Fetch
  nextFetch : Nat
  history : List Mark
  deriving DecidableEq, Repr

section

variable (hook : Hook)

/-! ### What is read of a render -/

def globalUid : HostUid := "global".toList

def isAuthorized (view : View) : Bool :=
  hook.hostUid = globalUid || (hook.hostUid ≠ [] && hook.hostUid ∈ view.authorizedHosts)

/-- The host is authorized, and not waiting in the reconnect queue. -/
def mayFetch (view : View) : Bool :=
  isAuthorized hook view && !(hook.hostUid ≠ [] && hook.hostUid ≠ globalUid && hook.hostUid ∈ view.reconnectQueue)

def isForegroundTab (view : View) : Bool := view.activeMainTab = some hook.tabId

def isTabActive (view : View) : Bool := view.isBrowserVisible && isForegroundTab hook view && !view.anyModalOpen

/-! ### The functions -/

/-- `handleRefresh` up to its first `await`, as the render with the values `view` has made it. -/
def handleRefresh (view : View) (silent : Bool) (s : State) : State :=
  if mayFetch hook view = false then s
  else if s.isFetching then s
  else { s with
    isFetching := true
    isManualRefreshing := s.isManualRefreshing || !silent
    inFlight := s.inFlight ++ [⟨s.nextFetch, silent⟩]
    nextFetch := s.nextFetch + 1
    history := s.history ++ [.started s.nextFetch] }

/-- The fetch is settled. -/
def ended (fetch : Fetch) (s : State) : State :=
  { s with
    inFlight := s.inFlight.filter (·.id ≠ fetch.id)
    isFetching := false
    isManualRefreshing := s.isManualRefreshing && fetch.silent }

/-- The `finally` block of `handleRefresh`. -/
def settle (fetch : Fetch) (s : State) : State :=
  if s.pendingRefresh then handleRefresh hook s.view false { ended fetch s with pendingRefresh := false }
  else ended fetch s

/-! #### The effects -/

def globalRefresh (view : View) (s : State) : State :=
  if s.lastProcessedCounter < view.refreshCounter then
    let s := { s with lastProcessedCounter := view.refreshCounter }
    if isForegroundTab hook view then
      if s.isFetching then { s with pendingRefresh := true } else handleRefresh hook view false s
    else s
  else s

def initialLoad (view : View) (s : State) : State :=
  if hook.hostUid = globalUid ∧ view.authorizedHosts = [] then { s with wasAuthorized := false }
  else if isAuthorized hook view = false then { s with wasAuthorized := false }
  else if !s.initialLoadDone || !s.wasAuthorized then
    handleRefresh hook view false { s with initialLoadDone := true, wasAuthorized := true }
  else s

def tabResume (view : View) (s : State) : State :=
  let becameActive := !s.isActive && isTabActive hook view
  let s := { s with isActive := isTabActive hook view }
  if becameActive && s.initialLoadDone && 0 < view.pollingIntervalSeconds then handleRefresh hook view true s else s

/-- The global refreshes that the render counts for the first time, if they arrive at the foreground tab. -/
def arrivals (view : View) (s : State) : List Mark :=
  if isForegroundTab hook view then List.replicate (view.refreshCounter - s.view.refreshCounter) .refresh else []

/-- The effects of a render, in the order of the source. -/
def commit (view : View) (s : State) : State :=
  let s := { s with
    history := s.history ++ arrivals hook view s ++ [.rendered (mayFetch hook view)]
    view := view }
  tabResume hook view (initialLoad hook view (globalRefresh hook view s))

def mount (view : View) : State :=
  commit hook view
    { mounted := true, view := view, isActive := isTabActive hook view, initialLoadDone := false, wasAuthorized := false,
      isFetching := false, pendingRefresh := false, lastProcessedCounter := view.refreshCounter,
      isManualRefreshing := false, inFlight := [], nextFetch := 0, history := [] }

/-! ### The system -/

inductive Act
  | commit (view : View)
  /-- The interval has elapsed. -/
  | tick
  | online
  /-- A caller runs the `handleRefresh` of a render with the values `view`. -/
  | call (view : View) (silent : Bool)
  | settle (id : Nat)
  | unmount
  deriving DecidableEq, Repr

def step (s : State) : Act → Option State
  | .commit view =>
    if s.mounted && s.view.refreshCounter ≤ view.refreshCounter then some (commit hook view s) else none
  | .tick =>
    if s.mounted && isTabActive hook s.view && 0 < s.view.pollingIntervalSeconds then
      some (if s.isActive then handleRefresh hook s.view true s else s)
    else none
  | .online =>
    if s.mounted then some (if s.initialLoadDone && s.isActive then handleRefresh hook s.view true s else s) else none
  | .call view silent => some (handleRefresh hook view silent s)
  | .settle id => (s.inFlight.find? (·.id = id)).map fun fetch => settle hook fetch s
  | .unmount => if s.mounted then some { s with mounted := false, pendingRefresh := false } else none

/-! ### The flags -/

variable {hook}

/-- What the flags say of the fetches in flight. -/
structure Flags (s : State) : Prop where
  fetching : (s.isFetching = false ∧ s.inFlight = []) ∨ s.isFetching = true ∧ ∃ fetch, s.inFlight = [fetch]
  manual : s.isManualRefreshing = true ↔ ∃ fetch ∈ s.inFlight, fetch.silent = false
  pending : s.pendingRefresh = true → s.isFetching = true

theorem handleRefresh_of_may {view : View} (silent : Bool) {s : State} (hmay : mayFetch hook view = true)
    (hidle : s.isFetching = false) :
    (handleRefresh hook view silent s).history = s.history ++ [.started s.nextFetch] := by
  simp [handleRefresh, hmay, hidle]

/-- The view may not be asked or a fetch is in flight, or else a fetch is started. -/
theorem handleRefresh_cases (hook : Hook) (view : View) (silent : Bool) (s : State) :
    handleRefresh hook view silent s = s ∨
      s.isFetching = false ∧ (handleRefresh hook view silent s).history = s.history ++ [.started s.nextFetch] := by
  unfold handleRefresh
  split
  · exact .inl rfl
  · split
    · exact .inl rfl
    · rename_i hidle
      exact .inr ⟨Bool.not_eq_true _ ▸ hidle, rfl⟩

theorem Flags.handleRefresh {s : State} (h : Flags s) (view : View) (silent : Bool) :
    Flags (handleRefresh hook view silent s) := by
  unfold Polling.handleRefresh
  split
  · exact h
  · split
    · exact h
    · rename_i hidle
      obtain ⟨hfalse, hnone⟩ := h.fetching.resolve_right fun hbusy => hidle hbusy.1
      have hmanual : s.isManualRefreshing = false := by
        rw [← Bool.not_eq_true, h.manual, hnone]
        simp
      refine ⟨.inr ⟨rfl, ⟨s.nextFetch, silent⟩, by simp [hnone]⟩, ?_, fun _ => rfl⟩
      simp [hmanual, hnone]

/-- What is not set by `handleRefresh`. -/
theorem handleRefresh_frame (hook : Hook) (view : View) (silent : Bool) (s : State) :
    let s' := handleRefresh hook view silent s
    s'.mounted = s.mounted ∧ s'.view = s.view ∧ s'.lastProcessedCounter = s.lastProcessedCounter ∧
      s'.pendingRefresh = s.pendingRefresh := by
  unfold handleRefresh
  split
  · exact ⟨rfl, rfl, rfl, rfl⟩
  · split <;> exact ⟨rfl, rfl, rfl, rfl⟩

/-- Nothing is in flight when the only fetch is settled. -/
theorem Flags.ended {s : State} (h : Flags s) {fetch : Fetch} (hfetch : fetch ∈ s.inFlight) :
    (ended fetch s).inFlight = [] ∧ (ended fetch s).isManualRefreshing = false := by
  have hone : s.inFlight = [fetch] := by
    rcases h.fetching with ⟨-, hnone⟩ | ⟨-, fetch', hone⟩
    · rw [hnone] at hfetch
      cases hfetch
    · rw [hone, List.mem_singleton] at hfetch
      rw [hone, hfetch]
  refine ⟨by simp [Polling.ended, hone], ?_⟩
  show (s.isManualRefreshing && fetch.silent) = false
  cases hsilent : fetch.silent with
  | false => exact Bool.and_false _
  | true =>
    rw [Bool.and_true, ← Bool.not_eq_true, h.manual, hone]
    simp [hsilent]

theorem Flags.settled {s : State} (h : Flags s) {fetch : Fetch} (hfetch : fetch ∈ s.inFlight) :
    Flags { Polling.ended fetch s with pendingRefresh := false } ∧
      (s.pendingRefresh ≠ true → Flags (Polling.ended fetch s)) := by
  obtain ⟨hnone, hmanual⟩ := h.ended hfetch
  have hempty : (Polling.ended fetch s).isManualRefreshing = true ↔
      ∃ fetch' ∈ (Polling.ended fetch s).inFlight, fetch'.silent = false := by
    rw [hnone, hmanual]
    simp
  exact ⟨⟨.inl ⟨rfl, hnone⟩, hempty, fun hpending => absurd hpending Bool.false_ne_true⟩,
    fun hne => ⟨.inl ⟨rfl, hnone⟩, hempty, fun hpending => absurd hpending hne⟩⟩

/-! ### Refreshes that wait -/

/-- A global refresh of the history is not followed by a fetch, although no render since has kept the host from being
asked. -/
def Unanswered (history : List Mark) : Prop :=
  ∃ before after, history = before ++ .refresh :: after ∧ .rendered false ∉ after ∧ ∀ id, .started id ∉ after

/-- Marks other than global refreshes are after the last one. -/
theorem Unanswered.of_append {history marks : List Mark} (h : Unanswered (history ++ marks)) (hmarks : .refresh ∉ marks) :
    Unanswered history ∧ .rendered false ∉ marks ∧ ∀ id, .started id ∉ marks := by
  obtain ⟨before, after, heq, hrendered, hstarted⟩ := h
  rcases List.append_eq_append_iff.1 heq with ⟨l, rfl, hl⟩ | ⟨l, rfl, hl⟩
  · exact absurd (hl ▸ List.mem_append_right _ List.mem_cons_self) hmarks
  · cases l with
    | nil =>
      rw [List.nil_append] at hl
      exact absurd (hl ▸ List.mem_cons_self) hmarks
    | cons m l =>
      obtain ⟨rfl, rfl⟩ := List.cons.inj hl
      refine ⟨⟨before, l, rfl, fun hmem => hrendered (List.mem_append_left _ hmem), fun id hmem =>
        hstarted id (List.mem_append_left _ hmem)⟩, fun hmem => hrendered (List.mem_append_right _ hmem), fun id hmem =>
        hstarted id (List.mem_append_right _ hmem)⟩

/-- A fetch answers all of them. -/
theorem not_unanswered_started (history : List Mark) (id : Nat) : ¬Unanswered (history ++ [.started id]) :=
  fun h => (h.of_append (by simp)).2.2 id (List.mem_singleton_self _)

/-- A refresh that waits is kept, and the host may be asked. -/
def Kept (hook : Hook) (s : State) : Prop :=
  s.mounted = true → Unanswered s.history → mayFetch hook s.view = true ∧ s.pendingRefresh = true

theorem Kept.handleRefresh {s : State} (h : Kept hook s) (view : View) (silent : Bool) :
    Kept hook (handleRefresh hook view silent s) := by
  intro hmounted hwaits
  rcases handleRefresh_cases hook view silent s with hsame | ⟨-, hhistory⟩
  · rw [hsame] at hmounted hwaits ⊢
    exact h hmounted hwaits
  · rw [hhistory] at hwaits
    exact absurd hwaits (not_unanswered_started _ _)

/-! ### The effects -/

structure Inv (hook : Hook) (s : State) : Prop where
  flags : Flags s
  counter : s.lastProcessedCounter = s.view.refreshCounter
  kept : Kept hook s

theorem Inv.handleRefresh {s : State} (h : Inv hook s) (view : View) (silent : Bool) :
    Inv hook (handleRefresh hook view silent s) := by
  obtain ⟨-, hview, hcounter, -⟩ := handleRefresh_frame hook view silent s
  exact ⟨h.flags.handleRefresh view silent, by rw [hview, hcounter, h.counter], h.kept.handleRefresh view silent⟩

/-- A refresh waits through a render only if the host may be asked in it. -/
theorem Unanswered.of_rendered {history : List Mark} {may : Bool} (h : Unanswered (history ++ [.rendered may])) :
    Unanswered history ∧ may = true := by
  obtain ⟨hwaits, hrendered, -⟩ := h.of_append (by simp)
  refine ⟨hwaits, ?_⟩
  cases may with
  | false => exact absurd (List.mem_singleton_self _) hrendered
  | true => rfl

/-- What waits is answered when nothing is in flight. -/
theorem inv_handleRefresh {s : State} (hflags : Flags s) (hcounter : s.lastProcessedCounter = s.view.refreshCounter)
    (hidle : s.isFetching = false) (hmay : s.mounted = true → Unanswered s.history → mayFetch hook s.view = true) :
    Inv hook (handleRefresh hook s.view false s) := by
  obtain ⟨hsameMounted, hview, hprocessed, -⟩ := handleRefresh_frame hook s.view false s
  refine ⟨hflags.handleRefresh s.view false, by rw [hview, hprocessed, hcounter], fun hmounted hwaits => ?_⟩
  rcases handleRefresh_cases hook s.view false s with hsame | ⟨-, hstarted⟩
  · have hold : Unanswered s.history := by rwa [hsame] at hwaits
    rw [handleRefresh_of_may false (hmay (hsameMounted.symm.trans hmounted) hold) hidle] at hwaits
    exact absurd hwaits (not_unanswered_started _ _)
  · rw [hstarted] at hwaits
    exact absurd hwaits (not_unanswered_started _ _)

/-- The render and its first effect: what arrives with it is answered at once, or kept. -/
theorem Inv.globalRefresh {s : State} (h : Inv hook s) {view : View}
    (hcounter : s.view.refreshCounter ≤ view.refreshCounter) :
    Inv hook (globalRefresh hook view { s with
      history := s.history ++ arrivals hook view s ++ [.rendered (mayFetch hook view)], view := view }) := by
  have hflags : Flags s := h.flags
  -- without a refresh that arrives, those that wait are the old ones
  have hold : arrivals hook view s = [] → ∀ counter, counter = view.refreshCounter →
      Inv hook { s with
        history := s.history ++ arrivals hook view s ++ [.rendered (mayFetch hook view)], view := view
        lastProcessedCounter := counter } := by
    rintro hnone counter rfl
    refine ⟨⟨hflags.fetching, hflags.manual, hflags.pending⟩, rfl, fun hmounted hwaits => ?_⟩
    obtain ⟨hwaits, hmay⟩ := hwaits.of_rendered
    rw [hnone, List.append_nil] at hwaits
    exact ⟨hmay, (h.kept hmounted hwaits).2⟩
  unfold Polling.globalRefresh
  simp only [h.counter]
  split
  · split
    · split
      · rename_i hbusy
        refine ⟨⟨hflags.fetching, hflags.manual, fun _ => hbusy⟩, rfl, fun _ hwaits => ⟨hwaits.of_rendered.2, rfl⟩⟩
      · rename_i hidle
        have hset : Flags { s with
            history := s.history ++ arrivals hook view s ++ [.rendered (mayFetch hook view)], view := view
            lastProcessedCounter := view.refreshCounter } := ⟨hflags.fetching, hflags.manual, hflags.pending⟩
        exact inv_handleRefresh hset rfl (Bool.not_eq_true _ ▸ hidle) fun _ hwaits => hwaits.of_rendered.2
    · rename_i hbackground
      exact hold (if_neg hbackground) _ rfl
  · rename_i hsame
    have hequal : s.view.refreshCounter = view.refreshCounter := by omega
    have hnone : arrivals hook view s = [] := by
      rw [arrivals, hequal, Nat.sub_self]
      exact ite_self _
    exact hold hnone s.view.refreshCounter hequal

theorem Inv.initialLoad {s : State} (h : Inv hook s) (view : View) : Inv hook (initialLoad hook view s) := by
  have hset : ∀ done authorized, Inv hook { s with initialLoadDone := done, wasAuthorized := authorized } :=
    fun _ _ => ⟨⟨h.flags.fetching, h.flags.manual, h.flags.pending⟩, h.counter, h.kept⟩
  unfold Polling.initialLoad
  split
  · exact hset _ _
  · split
    · exact hset _ _
    · split
      · exact (hset true true).handleRefresh view false
      · exact h

theorem Inv.tabResume {s : State} (h : Inv hook s) (view : View) : Inv hook (tabResume hook view s) := by
  have hset : Inv hook { s with isActive := isTabActive hook view } :=
    ⟨⟨h.flags.fetching, h.flags.manual, h.flags.pending⟩, h.counter, h.kept⟩
  unfold Polling.tabResume
  simp only
  split
  · exact hset.handleRefresh view true
  · exact hset

theorem Inv.commit {s : State} (h : Inv hook s) {view : View} (hcounter : s.view.refreshCounter ≤ view.refreshCounter) :
    Inv hook (commit hook view s) :=
  ((h.globalRefresh hcounter).initialLoad view).tabResume view

theorem Inv.settle {s : State} (h : Inv hook s) {fetch : Fetch} (hfetch : fetch ∈ s.inFlight) :
    Inv hook (settle hook fetch s) := by
  obtain ⟨hcleared, hended⟩ := h.flags.settled hfetch
  unfold Polling.settle
  split
  · exact inv_handleRefresh hcleared h.counter rfl fun hmounted hwaits => (h.kept hmounted hwaits).1
  · rename_i hpending
    exact ⟨hended hpending, h.counter, fun hmounted hwaits => absurd (h.kept hmounted hwaits).2 hpending⟩

theorem inv_mount (hook : Hook) (view : View) : Inv hook (mount hook view) := by
  refine Inv.commit (s := _) ⟨⟨.inl ⟨rfl, rfl⟩, ?_, fun hpending => absurd hpending Bool.false_ne_true⟩, rfl, ?_⟩
    (Nat.le_refl _)
  · simp
  · rintro - ⟨before, after, heq, -⟩
    simp at heq

theorem inv_step {s s' : State} {a : Act} (h : Inv hook s) (hstep : step hook s a = some s') : Inv hook s' := by
  cases a with
  | commit view =>
    simp only [step, Option.ite_none_right_eq_some, Option.some.injEq, Bool.and_eq_true, decide_eq_true_eq] at hstep
    obtain ⟨⟨-, hcounter⟩, rfl⟩ := hstep
    exact h.commit hcounter
  | tick =>
    simp only [step, Option.ite_none_right_eq_some, Option.some.injEq] at hstep
    obtain ⟨-, rfl⟩ := hstep
    split
    · exact h.handleRefresh _ _
    · exact h
  | online =>
    simp only [step, Option.ite_none_right_eq_some, Option.some.injEq] at hstep
    obtain ⟨-, rfl⟩ := hstep
    split
    · exact h.handleRefresh _ _
    · exact h
  | call view silent =>
    rw [← Option.some.inj hstep]
    exact h.handleRefresh view silent
  | settle id =>
    obtain ⟨fetch, hfind, rfl⟩ := Option.map_eq_some_iff.1 hstep
    exact h.settle (List.mem_of_find?_eq_some hfind)
  | unmount =>
    simp only [step, Option.ite_none_right_eq_some, Option.some.injEq] at hstep
    obtain ⟨-, rfl⟩ := hstep
    exact ⟨⟨h.flags.fetching, h.flags.manual, fun hpending => absurd hpending Bool.false_ne_true⟩, h.counter,
      fun hmounted => absurd hmounted Bool.false_ne_true⟩

theorem inv_run {view : View} {acts : List Act} {s : State} (h : Run (step hook) Always (mount hook view) acts s) :
    Inv hook s :=
  h.invariant (fun _ _ _ hinv _ hstep => inv_step hinv hstep) (inv_mount hook view)

end

/-- The fetches of a view do not overlap, and no global refresh is lost. -/
structure Refreshed (hook : Hook) (s : State) : Prop where
  single : s.inFlight.length ≤ 1
  /-- A global refresh at the foreground tab, of a host that may be asked in every render from then on, is followed by a
  fetch that starts after it, or will be as soon as the fetch that is in flight settles. -/
  followed : s.mounted = true → ∀ before after, s.history = before ++ .refresh :: after → .rendered false ∉ after →
    (∃ id, .started id ∈ after) ∨
      ∃ fetch s', s.inFlight = [fetch] ∧ step hook s (.settle fetch.id) = some s' ∧
        ∃ id, s'.history = s.history ++ [.started id]

theorem polling_refresh {hook : Hook} {view : View} {acts : List Act} {s : State}
    (h : Run (step hook) Always (mount hook view) acts s) : Refreshed hook s := by
  have hinv := inv_run h
  refine ⟨?_, fun hmounted before after heq hrendered => ?_⟩
  · rcases hinv.flags.fetching with ⟨-, hnone⟩ | ⟨-, fetch, hone⟩
    · simp [hnone]
    · simp [hone]
  · by_cases hstarted : ∃ id, .started id ∈ after
    · exact .inl hstarted
    · right
      obtain ⟨hmay, hpending⟩ := hinv.kept hmounted
        ⟨before, after, heq, hrendered, fun id hmem => hstarted ⟨id, hmem⟩⟩
      obtain ⟨-, fetch, hone⟩ := hinv.flags.fetching.resolve_left fun hidle => by
        rw [hinv.flags.pending hpending] at hidle
        exact absurd hidle.1 (by decide)
      refine ⟨fetch, settle hook fetch s, hone, by simp [step, hone], s.nextFetch, ?_⟩
      rw [settle, if_pos hpending]
      exact handleRefresh_of_may false hmay rfl

/-- A view in the foreground, of a host that is authorized. -/
def demoView (refreshCounter : Nat) : View where
  authorizedHosts := ["host".toList]
  reconnectQueue := []
  refreshCounter := refreshCounter
  activeMainTab := some "brokers_status:host".toList
  isBrowserVisible := true
  anyModalOpen := false
  pollingIntervalSeconds := 5

/-- Three global refreshes in two renders while the first load is in flight, and ticks between: one fetch follows. -/
theorem polling_refresh_during_load :
    ∃ s, Run (step ⟨"host".toList, "brokers_status:host".toList⟩) Always
        (mount ⟨"host".toList, "brokers_status:host".toList⟩ (demoView 0))
        [.commit (demoView 1), .tick, .commit (demoView 3), .settle 0, .tick] s ∧
      s.history = [.rendered true, .started 0, .refresh, .rendered true, .refresh, .refresh, .rendered true,
        .started 1] ∧ Refreshed ⟨"host".toList, "brokers_status:host".toList⟩ s := by
  have hexists : ∃ s, Run (step ⟨"host".toList, "brokers_status:host".toList⟩) Always
      (mount ⟨"host".toList, "brokers_status:host".toList⟩ (demoView 0))
      [.commit (demoView 1), .tick, .commit (demoView 3), .settle 0, .tick] s ∧
        s.history = [.rendered true, .started 0, .refresh, .rendered true, .refresh, .refresh, .rendered true,
          .started 1] := exists_run (by decide)
  obtain ⟨s, hrun, hhistory⟩ := hexists
  exact ⟨s, hrun, hhistory, polling_refresh hrun⟩

end CubridWebManager.Polling
