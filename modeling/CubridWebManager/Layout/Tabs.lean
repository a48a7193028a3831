import CubridWebManager.Lib.JsText
import CubridWebManager.Lib.Run
import Mathlib.Data.List.Infix
import Mathlib.Data.List.Nodup

/-!
# The tabs of the main view

The layout slice keeps the open tabs, those with unsaved changes and the active one.  A tab is known by its id, a text
in which the host's uid stands.  `closeHostTabs` closes the tabs of a host; where a tab of the host is active, it also
takes every tab whose id begins with `db:` for one of the host.
-/

namespace CubridWebManager.Layout

open Transition

abbrev TabId := Text

structure State where
  activeMainTab : Option TabId := none
  openTabs : List TabId := []
  /-- The tabs with unsaved changes. -/
  dirtyTabs : List TabId := []
  deriving DecidableEq

/-! ### The reducers -/

/-- `id.includes(hostUid)` -/
def includesUid (hostUid : Text) (tab : TabId) : Bool := hostUid <:+: tab

def dbPrefix : Text := "db:".toList

/-- The tab is opened behind the others, unless it is open. -/
def pushTab (tab : TabId) (tabs : List TabId) : List TabId := if tab ∈ tabs then tabs else tabs ++ [tab]

def setActiveMainTab (s : State) (tab : TabId) : State :=
  { s with activeMainTab := some tab, openTabs := pushTab tab s.openTabs }

def openTab (s : State) (tab : TabId) : State :=
  { s with openTabs := pushTab tab s.openTabs, activeMainTab := some tab }

def setTabDirty (s : State) (tab : TabId) (isDirty : Bool) : State :=
  if isDirty then { s with dirtyTabs := pushTab tab s.dirtyTabs }
  else { s with dirtyTabs := s.dirtyTabs.filter (· ≠ tab) }

def closeTab (s : State) (tab : TabId) : State :=
  let openTabs := s.openTabs.filter (· ≠ tab)
  { openTabs := openTabs
    dirtyTabs := s.dirtyTabs.filter (· ≠ tab)
    activeMainTab := if s.activeMainTab = some tab then openTabs.getLast? else s.activeMainTab }

/-- The tab is closed with the host. -/
def closesWith (s : State) (hostUid : Text) (tab : TabId) : Bool :=
  includesUid hostUid tab || (dbPrefix.isPrefixOf tab && s.activeMainTab.any (includesUid hostUid))

def closeHostTabs (s : State) (hostUid : Text) : State :=
  let tabsToClose := s.openTabs.filter (closesWith s hostUid)
  let openTabs := s.openTabs.filter (· ∉ tabsToClose)
  { openTabs := openTabs
    dirtyTabs := s.dirtyTabs.filter (· ∉ tabsToClose)
    activeMainTab := if s.activeMainTab.any (· ∈ openTabs) then s.activeMainTab else openTabs.getLast? }

def closeOtherTabs (s : State) (keepTab : TabId) : State where
  openTabs := s.openTabs.filter (· = keepTab)
  dirtyTabs := s.dirtyTabs.filter (· = keepTab)
  activeMainTab := some keepTab

def closeAllTabs : State := {}

inductive Act where
  | setActiveMainTab (tab : TabId)
  | openTab (tab : TabId)
  | setTabDirty (tab : TabId) (isDirty : Bool)
  | closeTab (tab : TabId)
  | closeHostTabs (hostUid : Text)
  | closeOtherTabs (keepTab : TabId)
  | closeAllTabs
  deriving DecidableEq

def step (s : State) : Act → Option State
  | .setActiveMainTab tab => some (setActiveMainTab s tab)
  | .openTab tab => some (openTab s tab)
  | .setTabDirty tab isDirty => some (setTabDirty s tab isDirty)
  | .closeTab tab => some (closeTab s tab)
  | .closeHostTabs hostUid => some (closeHostTabs s hostUid)
  | .closeOtherTabs keepTab => some (closeOtherTabs s keepTab)
  | .closeAllTabs => some closeAllTabs

/-- Only an open tab is marked dirty, or kept as the only one. -/
def OnOpenTabs (s : State) : Act → Prop
  | .setTabDirty tab true => tab ∈ s.openTabs
  | .closeOtherTabs keepTab => keepTab ∈ s.openTabs
  | _ => True

instance (s : State) (a : Act) : Decidable (OnOpenTabs s a) := by
  unfold OnOpenTabs
  split <;> infer_instance

def initial : State := {}

/-! ### The tabs fit together -/

structure Consistent (s : State) : Prop where
  nodup : s.openTabs.Nodup
  dirty : s.dirtyTabs ⊆ s.openTabs
  active : ∀ tab ∈ s.activeMainTab, tab ∈ s.openTabs

variable {s : State} {tab : TabId} {tabs : List TabId}

theorem mem_pushTab {t : TabId} : t ∈ pushTab tab tabs ↔ t = tab ∨ t ∈ tabs := by
  unfold pushTab
  split
  · rename_i hmem
    constructor
    · exact .inr
    · rintro (rfl | h)
      · exact hmem
      · exact h
  · simp only [List.mem_append, List.mem_singleton]
    exact or_comm

theorem nodup_pushTab (h : tabs.Nodup) : (pushTab tab tabs).Nodup := by
  unfold pushTab
  split
  · exact h
  · rename_i hmem
    rw [List.nodup_append]
    refine ⟨h, List.nodup_singleton _, ?_⟩
    rintro a ha b hb rfl
    rw [List.mem_singleton.1 hb] at ha
    exact hmem ha

theorem Consistent.push (h : Consistent s) (tab : TabId) :
    Consistent { s with activeMainTab := some tab, openTabs := pushTab tab s.openTabs } := by
  refine ⟨nodup_pushTab h.nodup, fun t ht => mem_pushTab.2 (.inr (h.dirty ht)), fun t ht => ?_⟩
  rw [← Option.some.inj ht]
  exact mem_pushTab.2 (.inl rfl)

/-- Closing tabs keeps what is left together, with the last open tab or the active one that is left. -/
theorem Consistent.close (h : Consistent s) (keep : TabId → Bool) {active : Option TabId}
    (hactive : active = (s.openTabs.filter keep).getLast? ∨ ∀ t ∈ active, t ∈ s.openTabs ∧ keep t = true) :
    Consistent ⟨active, s.openTabs.filter keep, s.dirtyTabs.filter keep⟩ := by
  refine ⟨h.nodup.filter _, fun t ht => ?_, fun t ht => ?_⟩
  · rw [List.mem_filter] at ht ⊢
    exact ⟨h.dirty ht.1, ht.2⟩
  · rcases hactive with hlast | hmem
    · have ht' : (s.openTabs.filter keep).getLast? = some t := hlast ▸ ht
      exact List.mem_of_getLast? ht'
    · exact List.mem_filter.2 (hmem t ht)

theorem Consistent.setTabDirty (h : Consistent s) {isDirty : Bool} (hopen : isDirty = true → tab ∈ s.openTabs) :
    Consistent (setTabDirty s tab isDirty) := by
  unfold Layout.setTabDirty
  split
  · rename_i hdirty
    refine ⟨h.nodup, fun t ht => ?_, h.active⟩
    rcases mem_pushTab.1 ht with rfl | ht
    · exact hopen hdirty
    · exact h.dirty ht
  · exact ⟨h.nodup, fun t ht => h.dirty (List.mem_filter.1 ht).1, h.active⟩

theorem Consistent.closeTab (h : Consistent s) (tab : TabId) : Consistent (closeTab s tab) := by
  refine h.close (fun t => decide (t ≠ tab)) ?_
  split
  · exact .inl rfl
  · rename_i hactive
    refine .inr fun t ht => ⟨h.active t ht, decide_eq_true ?_⟩
    rintro rfl
    exact hactive ht

theorem Consistent.closeHostTabs (h : Consistent s) (hostUid : Text) : Consistent (closeHostTabs s hostUid) := by
  refine h.close (fun t => decide (t ∉ s.openTabs.filter (closesWith s hostUid))) ?_
  split
  · rename_i hactive
    refine .inr fun t ht => ?_
    have ht' : s.activeMainTab = some t := ht
    simp only [ht', Option.any_some, decide_eq_true_eq] at hactive
    exact List.mem_filter.1 hactive
  · exact .inl rfl

theorem Consistent.closeOtherTabs (h : Consistent s) {keepTab : TabId} (hopen : keepTab ∈ s.openTabs) :
    Consistent (closeOtherTabs s keepTab) := by
  refine h.close (fun t => decide (t = keepTab)) (.inr fun t ht => ?_)
  rw [← Option.some.inj ht]
  exact ⟨hopen, decide_eq_true rfl⟩

theorem consistent_initial : Consistent initial := ⟨List.nodup_nil, List.nil_subset _, nofun⟩

theorem consistent_step (s : State) (a : Act) (s' : State) (h : Consistent s) (hok : OnOpenTabs s a)
    (hstep : step s a = some s') : Consistent s' := by
  cases a with
  | setActiveMainTab tab =>
    cases hstep
    exact h.push tab
  | openTab tab =>
    cases hstep
    exact h.push tab
  | setTabDirty tab isDirty =>
    cases hstep
    refine h.setTabDirty fun hdirty => ?_
    rw [hdirty] at hok
    exact hok
  | closeTab tab =>
    cases hstep
    exact h.closeTab tab
  | closeHostTabs hostUid =>
    cases hstep
    exact h.closeHostTabs hostUid
  | closeOtherTabs keepTab =>
    cases hstep
    exact h.closeOtherTabs hok
  | closeAllTabs =>
    cases hstep
    exact consistent_initial

/-! ### Closing a host -/

/-- Exactly the tabs whose id contains the uid are closed. -/
structure ClosesExactly (s : State) (hostUid : Text) : Prop where
  openTabs : (closeHostTabs s hostUid).openTabs = s.openTabs.filter fun tab => !includesUid hostUid tab
  dirtyTabs : (closeHostTabs s hostUid).dirtyTabs = s.dirtyTabs.filter fun tab => !includesUid hostUid tab

/-- Where the active tab is one of the host, every open tab that begins with `db:` is. -/
def DbTabsOfHost (s : State) (hostUid : Text) : Prop :=
  ∀ active ∈ s.activeMainTab, includesUid hostUid active = true →
    ∀ tab ∈ s.openTabs, dbPrefix.isPrefixOf tab = true → includesUid hostUid tab = true

instance (s : State) (hostUid : Text) : Decidable (DbTabsOfHost s hostUid) := by
  unfold DbTabsOfHost
  infer_instance

theorem closesWith_eq_true {hostUid : Text} : closesWith s hostUid tab = true ↔ includesUid hostUid tab = true ∨
    dbPrefix.isPrefixOf tab = true ∧ ∃ active ∈ s.activeMainTab, includesUid hostUid active = true := by
  simp [closesWith, Option.any_eq_true]

/-- Among open tabs, those to close are the ones that are closed with the host. -/
theorem filter_tabsToClose {hostUid : Text} (hsub : tabs ⊆ s.openTabs) :
    tabs.filter (fun tab => decide (tab ∉ s.openTabs.filter (closesWith s hostUid))) =
      tabs.filter fun tab => !closesWith s hostUid tab := by
  refine List.filter_congr fun tab htab => ?_
  have hopen := hsub htab
  cases hcloses : closesWith s hostUid tab <;> simp [hopen, hcloses]

theorem closesExactly_iff {hostUid : Text} (h : Consistent s) : ClosesExactly s hostUid ↔ DbTabsOfHost s hostUid := by
  have hopen : (closeHostTabs s hostUid).openTabs = s.openTabs.filter fun tab => !closesWith s hostUid tab :=
    filter_tabsToClose (List.Subset.refl _)
  have hdirty : (closeHostTabs s hostUid).dirtyTabs = s.dirtyTabs.filter fun tab => !closesWith s hostUid tab :=
    filter_tabsToClose h.dirty
  constructor
  · rintro ⟨hexact, -⟩ active hactive huid tab htab hdb
    by_contra huid'
    have hcloses : closesWith s hostUid tab = true := closesWith_eq_true.2 (.inr ⟨hdb, active, hactive, huid⟩)
    have hkept : tab ∈ s.openTabs.filter fun tab => !includesUid hostUid tab :=
      List.mem_filter.2 ⟨htab, by simpa using huid'⟩
    rw [← hexact, hopen, List.mem_filter, hcloses] at hkept
    exact absurd hkept.2 (by decide)
  · intro hhost
    have hsame : ∀ tab ∈ s.openTabs, closesWith s hostUid tab = includesUid hostUid tab := by
      intro tab htab
      rw [Bool.eq_iff_iff, closesWith_eq_true]
      constructor
      · rintro (huid | ⟨hdb, active, hactive, huid⟩)
        · exact huid
        · exact hhost active hactive huid tab htab hdb
      · exact .inl
    refine ⟨?_, ?_⟩
    · rw [hopen]
      exact List.filter_congr fun tab htab => by rw [hsame tab htab]
    · rw [hdirty]
      exact List.filter_congr fun tab htab => by rw [hsame tab (h.dirty htab)]

theorem close_host_tabs_iff (as : List Act) (s : State) (hrun : Run step OnOpenTabs initial as s) (hostUid : Text) :
    ClosesExactly s hostUid ∧ Consistent s ↔ DbTabsOfHost s hostUid := by
  have hconsistent : Consistent s := hrun.invariant consistent_step consistent_initial
  rw [closesExactly_iff hconsistent]
  exact and_iff_left hconsistent

/-- The dashboard of one host and a database of another are open. -/
def twoHosts : State := ⟨some "host:h1".toList, ["db:h2:demodb".toList, "host:h1".toList], []⟩

theorem run_twoHosts : Run step OnOpenTabs initial [.openTab "db:h2:demodb".toList, .openTab "host:h1".toList] twoHosts :=
  .of_runChecked (by decide)

theorem close_host_tabs_second : ClosesExactly twoHosts "h2".toList ∧ Consistent twoHosts :=
  (close_host_tabs_iff _ _ run_twoHosts "h2".toList).2 (by decide)

/-- The database's tab is closed with the other host, whose tab is active. -/
theorem close_host_tabs_fails : ¬ ∀ (as : List Act) (s : State), Run step OnOpenTabs initial as s →
    ∀ hostUid, ClosesExactly s hostUid ∧ Consistent s := by
  intro hall
  have hopen := (hall _ _ run_twoHosts "h1".toList).1.openTabs
  exact absurd hopen (by decide)

end CubridWebManager.Layout
