import CubridWebManager.BrokerList.Slice
import CubridWebManager.DatabaseCore.ListViews
import CubridWebManager.ListViews.Newest

/-!
# The lists of databases and brokers show the newest answer

For the databases a failed background read leaves the lists of the dashboards as they are; for the brokers it empties
them, and `brokerListFailedByHost` tells so (`failed_poll_empties`).
-/

namespace CubridWebManager.ListViews

open LastWriter Transition

/-- In every run each view of a host shows the newest answer it was offered, its mark never decreases, a background read
never changes the navigator, a read from before the host was closed changes nothing, and the spinner shows the
foreground reads of the connection. -/
theorem client_lists_newest :
    (∀ as s, Run (step DatabaseCore.slice DatabaseCore.reading) (Carries DatabaseCore.reading) DatabaseCore.slice.start
        as s →
      Newest DatabaseCore.reading s ∧ ∀ a s', Carries DatabaseCore.reading s a →
        step DatabaseCore.slice DatabaseCore.reading s a = some s' → Quiet DatabaseCore.reading s a s') ∧
    (∀ as s, Run (step BrokerList.slice BrokerList.reading) (Carries BrokerList.reading) BrokerList.slice.start as s →
      Newest BrokerList.reading s ∧ ∀ a s', Carries BrokerList.reading s a →
        step BrokerList.slice BrokerList.reading s a = some s' → Quiet BrokerList.reading s a s') :=
  ⟨fun _ _ => newest_run DatabaseCore.slice_meets, fun _ _ => newest_run BrokerList.slice_meets⟩

section Runs

open DatabaseCore (HostUid Listed StartInfo)

private theorem host_ne : "h1".toList ≠ [] := by decide

private theorem colon_notMem_host : ':' ∉ "h1".toList := by decide

private def host : HostUid := ⟨"h1".toList, host_ne, colon_notMem_host⟩

private def nothingListed : StartInfo := ⟨some (.many []), some (.many []), none⟩

/-- A poll is answered after a later read, and the host is opened again while a read of the brokers is pending. -/
theorem client_lists_newest_reopened :
    (∃ s, (DatabaseCore.reading.views s.slice host).live.mark = 2 ∧ Newest DatabaseCore.reading s) ∧
    ∃ s, (BrokerList.reading.views s.slice "h1").loading = true ∧ Newest BrokerList.reading s := by
  obtain ⟨s, hrun, hmark⟩ : ∃ s, Run (step DatabaseCore.slice DatabaseCore.reading) (Carries DatabaseCore.reading)
      DatabaseCore.slice.start [.pending host true, .nextSeq, .launch 0 1, .pending host false, .nextSeq, .launch 1 2,
        .fulfilled 1 (some nothingListed), .fulfilled 0 (some nothingListed)] s ∧
      (DatabaseCore.reading.views s.slice host).live.mark = 2 := exists_run (by decide)
  obtain ⟨s', hrun', hloading⟩ : ∃ s, Run (step BrokerList.slice BrokerList.reading) (Carries BrokerList.reading)
      BrokerList.slice.start [.pending "h1" false, .nextSeq, .closeHostTabs "h1", .pending "h1" false, .launch 0 1,
        .fulfilled 0 []] s ∧ (BrokerList.reading.views s.slice "h1").loading = true := exists_run (by decide)
  exact ⟨⟨s, hmark, (client_lists_newest.1 _ s hrun).1⟩, s', hloading, (client_lists_newest.2 _ s' hrun').1⟩

/-- As if only the failure of a foreground read emptied a list. -/
def explicitOnly : Reading String BrokerList.Brokers (List BrokerList.Broker) Empty (Option (List BrokerList.Broker)) :=
  { BrokerList.reading with policy := { BrokerList.policy with backgroundFailure := false } }

/-- A poll of the brokers fails after a read was answered. -/
theorem failed_poll_empties : ∃ as s, Run (step BrokerList.slice explicitOnly) (Carries explicitOnly)
    BrokerList.slice.start as s ∧ (explicitOnly.views s.slice "h1").live.value.map List.length = some 0 ∧
      ¬ Newest explicitOnly s := by
  obtain ⟨s, hrun, hempty, hmark, hoffers⟩ : ∃ s, Run (step BrokerList.slice explicitOnly) (Carries explicitOnly)
      BrokerList.slice.start [.pending "h1" false, .nextSeq, .launch 0 1,
        .fulfilled 0 [⟨"query_editor".toList, []⟩], .pending "h1" true, .nextSeq, .launch 1 2, .rejected 1] s ∧
      ((explicitOnly.views s.slice "h1").live.value.map List.length = some 0 ∧
        (explicitOnly.views s.slice "h1").live.mark = 2 ∧ (s.liveOffers "h1").map Prod.fst = [1]) :=
    exists_run (by decide)
  refine ⟨_, s, hrun, hempty, fun hnewest => ?_⟩
  rcases (hnewest.live "h1").held with ⟨hnone, -⟩ | hheld
  · rw [hnone] at hoffers
    cases hoffers
  · have hmem := List.mem_map_of_mem (f := Prod.fst) hheld
    rw [hoffers, hmark] at hmem
    have hsame : 2 = 1 := List.mem_singleton.1 hmem
    cases hsame

end Runs

end CubridWebManager.ListViews
