import CubridWebManager.ListViews.Views

/-!
# The views show the newest answer

For every slice that does to the views what `Slice.Meets` says: in every run each view holds the newest of what it was
offered, the spinner shows the foreground reads of the connection, and a step never lowers a mark, never moves the
navigator for a background read and does nothing for a read from before the host was closed.
-/

namespace CubridWebManager.ListViews

open LastWriter Transition

variable {H S P R O L : Type} [DecidableEq H] {slice : Slice H S P R O} {reading : Reading H S P R L}
  {s s' : State H S R L} {a : Act H P R O}

/-! ### The property -/

/-- A foreground read of the connection that is there now is pending. -/
def State.Loading (s : State H S R L) (hostUid : H) : Prop :=
  ∃ id task, s.tasks id = some task ∧ task.hostUid = hostUid ∧ task.result = none ∧ task.isBackground = false ∧
    task.stale = false

structure Newest (reading : Reading H S P R L) (s : State H S R L) : Prop where
  live : ∀ hostUid, Latest ⟨0, reading.policy.absent⟩ (reading.views s.slice hostUid).live (s.liveOffers hostUid)
  navigator : ∀ hostUid,
    Latest ⟨0, reading.policy.absent⟩ (reading.views s.slice hostUid).navigator (s.navigatorOffers hostUid)
  loading : ∀ hostUid, (reading.views s.slice hostUid).loading = true ↔ s.Loading hostUid

/-- The step settles the task, a read. -/
def Settles (s : State H S R L) (a : Act H P R O) (task : Task H R) : Prop :=
  ∃ id, s.tasks id = some task ∧ task.result = none ∧ ((∃ payload, a = .fulfilled id payload) ∨ a = .rejected id)

structure Quiet (reading : Reading H S P R L) (s : State H S R L) (a : Act H P R O) (s' : State H S R L) : Prop where
  live : ∀ hostUid, (reading.views s.slice hostUid).live.mark ≤ (reading.views s'.slice hostUid).live.mark
  navigator : ∀ hostUid, (reading.views s.slice hostUid).navigator.mark ≤ (reading.views s'.slice hostUid).navigator.mark
  /-- A background read never changes the lists of the navigator. -/
  background : ∀ task, Settles s a task → task.isBackground = true →
    ∀ hostUid, (reading.views s'.slice hostUid).navigator = (reading.views s.slice hostUid).navigator
  /-- A read that was pending when its host was closed changes nothing. -/
  stale : ∀ task, Settles s a task → task.stale = true → s'.slice = s.slice

/-! ### The invariant -/

/-- A number that was handed out and that no offer has yet. -/
def State.Free (s : State H S R L) (seq : Nat) : Prop :=
  0 < seq ∧ seq ≤ s.lastSeq ∧
    ∀ hostUid, seq ∉ (s.liveOffers hostUid).map Prod.fst ∧ seq ∉ (s.navigatorOffers hostUid).map Prod.fst

structure Inv (reading : Reading H S P R L) (s : State H S R L) : Prop where
  live : ∀ hostUid, Latest ⟨0, reading.policy.absent⟩ (reading.views s.slice hostUid).live (s.liveOffers hostUid)
  navigator : ∀ hostUid,
    Latest ⟨0, reading.policy.absent⟩ (reading.views s.slice hostUid).navigator (s.navigatorOffers hostUid)
  liveBound : ∀ hostUid, ∀ seq ∈ (s.liveOffers hostUid).map Prod.fst, seq ≤ s.lastSeq
  navigatorBound : ∀ hostUid, ∀ seq ∈ (s.navigatorOffers hostUid).map Prod.fst, seq ≤ s.lastSeq
  task : ∀ id task, s.tasks id = some task → id < s.nextTask
  seq : ∀ id task seq, s.tasks id = some task → task.seq = some seq → s.Free seq
  distinct : ∀ id id' task task' seq, s.tasks id = some task → s.tasks id' = some task' → task.seq = some seq →
    task'.seq = some seq → id = id'
  nodup : s.unclaimed.Nodup
  unclaimed : ∀ seq ∈ s.unclaimed, s.Free seq ∧ ∀ id task, s.tasks id = some task → task.seq ≠ some seq
  reads : ∀ hostUid id foreground, (id, foreground) ∈ (reading.views s.slice hostUid).reads ↔
    ∃ task, s.tasks id = some task ∧ task.hostUid = hostUid ∧ task.result = none ∧ task.stale = false ∧
      foreground = !task.isBackground
  loading : ∀ hostUid, (reading.views s.slice hostUid).loading = true ↔
    ∃ id, (id, true) ∈ (reading.views s.slice hostUid).reads

theorem Inv.start (h : slice.Meets reading) : Inv reading (slice.start : State H S R L) := by
  have hviews : ∀ hostUid, reading.views slice.init hostUid = .closed reading.policy 0 :=
    fun hostUid => congrFun h.init hostUid
  exact {
    live := fun hostUid => by
      rw [Slice.start, hviews]
      exact .nil _
    navigator := fun hostUid => by
      rw [Slice.start, hviews]
      exact .nil _
    liveBound := nofun
    navigatorBound := nofun
    task := nofun
    seq := nofun
    distinct := nofun
    nodup := List.nodup_nil
    unclaimed := nofun
    reads := fun hostUid id foreground => by
      rw [Slice.start, hviews]
      exact ⟨nofun, nofun⟩
    loading := fun hostUid => by
      rw [Slice.start, hviews]
      exact ⟨nofun, nofun⟩ }

omit [DecidableEq H] in
theorem Inv.newest (h : Inv reading s) : Newest reading s where
  live := h.live
  navigator := h.navigator
  loading hostUid := by
    rw [h.loading]
    constructor
    · rintro ⟨id, hid⟩
      obtain ⟨task, htask, hhost, hresult, hstale, hforeground⟩ := (h.reads hostUid id true).1 hid
      exact ⟨id, task, htask, hhost, hresult, by simpa using hforeground, hstale⟩
    · rintro ⟨id, task, htask, hhost, hresult, hforeground, hstale⟩
      exact ⟨id, (h.reads hostUid id true).2 ⟨task, htask, hhost, hresult, hstale, by rw [hforeground]; rfl⟩⟩

/-! ### Offers -/

namespace State

variable (s) {hostUid hostUid' : H} {seq seq' : Nat} (live navigator : Option L)

theorem liveOffers_self : (s.addOffers hostUid seq live navigator).liveOffers hostUid =
    (live.map (Prod.mk seq)).toList ++ s.liveOffers hostUid := Function.update_self ..

theorem navigatorOffers_self : (s.addOffers hostUid seq live navigator).navigatorOffers hostUid =
    (navigator.map (Prod.mk seq)).toList ++ s.navigatorOffers hostUid := Function.update_self ..

theorem liveOffers_of_ne (h : hostUid' ≠ hostUid) :
    (s.addOffers hostUid seq live navigator).liveOffers hostUid' = s.liveOffers hostUid' := Function.update_of_ne h ..

theorem navigatorOffers_of_ne (h : hostUid' ≠ hostUid) :
    (s.addOffers hostUid seq live navigator).navigatorOffers hostUid' = s.navigatorOffers hostUid' :=
  Function.update_of_ne h ..

theorem mem_liveOffers (h : seq' ∈ ((s.addOffers hostUid seq live navigator).liveOffers hostUid').map Prod.fst) :
    seq' = seq ∨ seq' ∈ (s.liveOffers hostUid').map Prod.fst := by
  by_cases heq : hostUid' = hostUid
  · subst heq
    rw [liveOffers_self, List.map_append, List.mem_append] at h
    rcases h with hnew | hold
    · cases live with
      | none => cases hnew
      | some lists => exact .inl (List.mem_singleton.1 hnew)
    · exact .inr hold
  · rw [s.liveOffers_of_ne live navigator heq] at h
    exact .inr h

theorem mem_navigatorOffers
    (h : seq' ∈ ((s.addOffers hostUid seq live navigator).navigatorOffers hostUid').map Prod.fst) :
    seq' = seq ∨ seq' ∈ (s.navigatorOffers hostUid').map Prod.fst := by
  by_cases heq : hostUid' = hostUid
  · subst heq
    rw [navigatorOffers_self, List.map_append, List.mem_append] at h
    rcases h with hnew | hold
    · cases navigator with
      | none => cases hnew
      | some lists => exact .inl (List.mem_singleton.1 hnew)
    · exact .inr hold
  · rw [s.navigatorOffers_of_ne live navigator heq] at h
    exact .inr h

theorem Free.addOffers {s : State H S R L} (h : s.Free seq') (hne : seq' ≠ seq) (hostUid : H)
    (live navigator : Option L) :
    (s.addOffers hostUid seq live navigator).Free seq' := by
  obtain ⟨hpos, hle, hoffers⟩ := h
  refine ⟨hpos, hle, fun hostUid' => ⟨fun hmem => ?_, fun hmem => ?_⟩⟩
  · exact (hoffers hostUid').1 ((s.mem_liveOffers live navigator hmem).resolve_left hne)
  · exact (hoffers hostUid').2 ((s.mem_navigatorOffers live navigator hmem).resolve_left hne)

omit [DecidableEq H] in
theorem Free.skip {s : State H S R L} (h : s.Free seq) : { s with lastSeq := s.lastSeq + 1 }.Free seq :=
  ⟨h.1, Nat.le_succ_of_le h.2.1, h.2.2⟩

end State

/-- A register that is offered something, or nothing. -/
theorem latest_getD {α : Type} {init r : Register Nat α} {offers : List (Nat × α)} {seq : Nat}
    (h : Latest init r offers) (hinit : init.mark < seq) (hseq : seq ∉ offers.map Prod.fst) (offer : Option α) :
    Latest init ((offer.map (r.offer seq)).getD r) ((offer.map (Prod.mk seq)).toList ++ offers) := by
  cases offer with
  | none => exact h
  | some x => exact h.offer hinit hseq x

theorem mark_le_getD {α : Type} (r : Register Nat α) (seq : Nat) (offer : Option α) :
    r.mark ≤ ((offer.map (r.offer seq)).getD r).mark := by
  cases offer with
  | none => exact Nat.le_refl _
  | some x => exact r.mark_le_offer seq x

/-- A number that no offer has yet. -/
def State.Unused (s : State H S R L) (seq : Nat) : Prop :=
  0 < seq ∧ ∀ hostUid, seq ∉ (s.liveOffers hostUid).map Prod.fst ∧ seq ∉ (s.navigatorOffers hostUid).map Prod.fst

section Offered

variable {views views' : H → HostViews L} {hostUid : H} {seq : Nat} {live navigator : Option L}

/-- The views of a host are offered something, and those of the other hosts stay. -/
structure Offered (views views' : H → HostViews L) (hostUid : H) (seq : Nat)
    (live navigator : Option L) : Prop where
  other : ∀ hostUid' ≠ hostUid, views' hostUid' = views hostUid'
  live : (views' hostUid).live = (live.map ((views hostUid).live.offer seq)).getD (views hostUid).live
  navigator :
    (views' hostUid).navigator = (navigator.map ((views hostUid).navigator.offer seq)).getD (views hostUid).navigator

namespace Offered

variable (ho : Offered views views' hostUid seq live navigator)

include ho

theorem latest_live (h : ∀ hostUid, Latest ⟨0, reading.policy.absent⟩ (views hostUid).live (s.liveOffers hostUid))
    (hseq : s.Unused seq) (hostUid' : H) :
    Latest ⟨0, reading.policy.absent⟩ (views' hostUid').live
      ((s.addOffers hostUid seq live navigator).liveOffers hostUid') := by
  by_cases heq : hostUid' = hostUid
  · subst heq
    rw [ho.live, State.liveOffers_self]
    exact latest_getD (h hostUid') hseq.1 (hseq.2 hostUid').1 live
  · rw [ho.other hostUid' heq, s.liveOffers_of_ne live navigator heq]
    exact h hostUid'

theorem latest_navigator
    (h : ∀ hostUid, Latest ⟨0, reading.policy.absent⟩ (views hostUid).navigator (s.navigatorOffers hostUid))
    (hseq : s.Unused seq) (hostUid' : H) :
    Latest ⟨0, reading.policy.absent⟩ (views' hostUid').navigator
      ((s.addOffers hostUid seq live navigator).navigatorOffers hostUid') := by
  by_cases heq : hostUid' = hostUid
  · subst heq
    rw [ho.navigator, State.navigatorOffers_self]
    exact latest_getD (h hostUid') hseq.1 (hseq.2 hostUid').2 navigator
  · rw [ho.other hostUid' heq, s.navigatorOffers_of_ne live navigator heq]
    exact h hostUid'

end Offered

end Offered

theorem State.addOffers_none (s : State H S R L) (hostUid : H) (seq : Nat) : s.addOffers hostUid seq none none = s := by
  unfold addOffers
  simp

namespace Task

variable {task : Task H R} {hostUid : H}

@[simp]
theorem close_hostUid : (task.close hostUid).hostUid = task.hostUid := by
  unfold close
  split <;> rfl

@[simp]
theorem close_seq : (task.close hostUid).seq = task.seq := by
  unfold close
  split <;> rfl

@[simp]
theorem close_result : (task.close hostUid).result = task.result := by
  unfold close
  split <;> rfl

theorem close_of_ne (h : task.hostUid ≠ hostUid) : task.close hostUid = task := if_neg fun hand => h hand.1

theorem close_stale (hhost : (task.close hostUid).hostUid = hostUid) (hresult : (task.close hostUid).result = none) :
    (task.close hostUid).stale = true := by
  rw [close_hostUid] at hhost
  rw [close_result] at hresult
  rw [close, if_pos ⟨hhost, by rw [hresult]; rfl⟩]

end Task

/-! ### A task is done -/

namespace Inv

variable {id seq : Nat} {task : Task H R}

omit [DecidableEq H] in
theorem unused (h : Inv reading s) (htask : s.tasks id = some task) (hseq : task.seq = some seq) : s.Unused seq := by
  obtain ⟨hpos, -, hoffers⟩ := h.seq id task seq htask hseq
  exact ⟨hpos, hoffers⟩

/-- The number of a task is offered, or nothing is, and its read is no longer pending. -/
theorem done (h : Inv reading s) (htask : s.tasks id = some task) (hseq : task.seq = some seq) {slice' : S}
    {hostUid : H} {live navigator : Option L}
    (ho : Offered (reading.views s.slice) (reading.views slice') hostUid seq live navigator)
    (hreads : ∀ hostUid id' foreground, (id', foreground) ∈ (reading.views slice' hostUid).reads ↔
      (id', foreground) ∈ (reading.views s.slice hostUid).reads ∧ id' ≠ id)
    (hloading : ∀ hostUid, (reading.views slice' hostUid).loading = true ↔
      ∃ id', (id', true) ∈ (reading.views slice' hostUid).reads) :
    Inv reading { (s.removeTask id).addOffers hostUid seq live navigator with slice := slice' } := by
  have hold : ∀ {id' task'}, Function.update s.tasks id none id' = some task' → id' ≠ id ∧ s.tasks id' = some task' := by
    intro id' task' htask'
    have hne : id' ≠ id := by
      rintro rfl
      rw [Function.update_self] at htask'
      cases htask'
    rw [Function.update_of_ne hne] at htask'
    exact ⟨hne, htask'⟩
  exact {
    live := ho.latest_live h.live (h.unused htask hseq)
    navigator := ho.latest_navigator h.navigator (h.unused htask hseq)
    liveBound := fun hostUid' seq' hmem => by
      rcases s.mem_liveOffers live navigator hmem with rfl | hold
      · exact (h.seq id task seq' htask hseq).2.1
      · exact h.liveBound hostUid' seq' hold
    navigatorBound := fun hostUid' seq' hmem => by
      rcases s.mem_navigatorOffers live navigator hmem with rfl | hold
      · exact (h.seq id task seq' htask hseq).2.1
      · exact h.navigatorBound hostUid' seq' hold
    task := fun id' task' htask' => h.task id' task' (hold htask').2
    seq := fun id' task' seq' htask' hseq' => by
      obtain ⟨hne, hthere⟩ := hold htask'
      have hother : seq' ≠ seq := by
        rintro rfl
        exact hne (h.distinct id' id task' task seq' hthere htask hseq' hseq)
      exact (h.seq id' task' seq' hthere hseq').addOffers hother hostUid live navigator
    distinct := fun id' id'' task' task'' seq' htask' htask'' =>
      h.distinct id' id'' task' task'' seq' (hold htask').2 (hold htask'').2
    nodup := h.nodup
    unclaimed := fun seq' hmem' => by
      obtain ⟨hfree, htasks⟩ := h.unclaimed seq' hmem'
      have hother : seq' ≠ seq := by
        rintro rfl
        exact htasks id task htask hseq
      exact ⟨hfree.addOffers hother hostUid live navigator, fun id' task' htask' => htasks id' task' (hold htask').2⟩
    reads := fun hostUid' id' foreground => by
      rw [hreads, h.reads]
      constructor
      · rintro ⟨⟨task', htask', hrest⟩, hne⟩
        exact ⟨task', (Function.update_of_ne hne ..).trans htask', hrest⟩
      · rintro ⟨task', htask', hrest⟩
        obtain ⟨hne, hthere⟩ := hold htask'
        exact ⟨⟨task', hthere, hrest⟩, hne⟩
    loading := hloading }

omit [DecidableEq H] in
/-- Whether a settled read is still pending is whether its host was closed since. -/
theorem lookup (h : Inv reading s) (htask : s.tasks id = some task) (hresult : task.result = none) :
    (reading.views s.slice task.hostUid).reads.lookup id = if task.stale then none else some (!task.isBackground) := by
  split
  · rename_i hstale
    rw [List.lookup_eq_none_iff]
    rintro ⟨id', foreground⟩ hmem
    obtain ⟨task', htask', -, -, hfresh, -⟩ := (h.reads _ id' foreground).1 hmem
    rw [bne_iff_ne]
    rintro rfl
    obtain rfl := Option.some.inj (htask.symm.trans htask')
    rw [hstale] at hfresh
    cases hfresh
  · rename_i hstale
    rw [Bool.not_eq_true] at hstale
    have hmem := (h.reads task.hostUid id _).2 ⟨task, htask, rfl, hresult, hstale, rfl⟩
    cases hlookup : (reading.views s.slice task.hostUid).reads.lookup id with
    | none =>
      have hne := List.lookup_eq_none_iff.1 hlookup _ hmem
      simp at hne
    | some foreground =>
      obtain ⟨before, after, hsplit, -⟩ := List.lookup_eq_some_iff.1 hlookup
      have hfound : (id, foreground) ∈ (reading.views s.slice task.hostUid).reads := by
        rw [hsplit]
        exact List.mem_append_right _ List.mem_cons_self
      obtain ⟨task', htask', -, -, -, hforeground⟩ := (h.reads _ id foreground).1 hfound
      obtain rfl := Option.some.inj (htask.symm.trans htask')
      rw [hforeground]

omit [DecidableEq H] in
/-- Nothing is done to the views. -/
theorem offered_same {views : H → HostViews L} (hostUid : H) (seq : Nat) :
    Offered views views hostUid seq none none := ⟨fun _ _ => rfl, rfl, rfl⟩

end Inv

namespace HostViews

variable {v : HostViews L} {id : Nat} {foreground : Bool}

theorem mem_unpend (v : HostViews L) (id : Nat) (foreground : Bool) {id' : Nat} {foreground' : Bool} :
    (id', foreground') ∈ (v.unpend id foreground).reads ↔ (id', foreground') ∈ v.reads ∧ id' ≠ id := by
  simp [unpend]

/-- The spinner goes with the last foreground read. -/
theorem unpend_loading (hloading : v.loading = true ↔ ∃ id', (id', true) ∈ v.reads)
    (hid : ∀ foreground', (id, foreground') ∈ v.reads → foreground' = foreground) :
    (v.unpend id foreground).loading = true ↔ ∃ id', (id', true) ∈ (v.unpend id foreground).reads := by
  cases foreground with
  | true => simp [unpend]
  | false =>
    simp only [mem_unpend]
    refine hloading.trans ⟨?_, fun ⟨id', hmem, _⟩ => ⟨id', hmem⟩⟩
    rintro ⟨id', hmem⟩
    refine ⟨id', hmem, ?_⟩
    rintro rfl
    cases hid true hmem

end HostViews

namespace Inv

variable {id seq : Nat} {task : Task H R} {slice' : S}

/-- A read is settled, with an answer or without one. -/
theorem settled (h : Inv reading s) (htask : s.tasks id = some task) (hresult : task.result = none)
    (hseq : task.seq = some seq) (answer : Answer L)
    (hviews : reading.views slice' = Function.update (reading.views s.slice) task.hostUid
      ((reading.views s.slice task.hostUid).settle reading.policy id seq task.isBackground answer)) :
    Inv reading { (s.removeTask id).answered reading task seq (some answer) with slice := slice' } := by
  have hlookup := h.lookup htask hresult
  cases hstale : task.stale with
  | true =>
    -- the read belongs to a connection that was closed
    rw [hstale, if_pos rfl] at hlookup
    rw [HostViews.settle, hlookup, Function.update_eq_self] at hviews
    have ho : Offered (reading.views s.slice) (reading.views slice') task.hostUid seq none none := by
      rw [hviews]
      exact offered_same task.hostUid seq
    have hdone := h.done htask hseq ho (fun hostUid id' foreground => ?_)
      fun hostUid => by rw [hviews]; exact h.loading hostUid
    · rw [State.addOffers_none] at hdone
      rw [State.answered, hstale]
      exact hdone
    · rw [hviews]
      refine ⟨fun hmem => ⟨hmem, ?_⟩, And.left⟩
      rintro rfl
      obtain ⟨task', htask', -, -, hfresh, -⟩ := (h.reads hostUid id' foreground).1 hmem
      obtain rfl := Option.some.inj (htask.symm.trans htask')
      rw [hstale] at hfresh
      cases hfresh
  | false =>
    rw [hstale] at hlookup
    rw [HostViews.settle, hlookup] at hviews
    have hself : reading.views slice' task.hostUid =
        ((reading.views s.slice task.hostUid).unpend id (!task.isBackground)).receive reading.policy seq
          task.isBackground answer := by rw [hviews]; exact Function.update_self ..
    have hother : ∀ hostUid ≠ task.hostUid, reading.views slice' hostUid = reading.views s.slice hostUid :=
      fun hostUid hne => by rw [hviews]; exact Function.update_of_ne hne ..
    have hid : ∀ hostUid foreground, (id, foreground) ∈ (reading.views s.slice hostUid).reads →
        hostUid = task.hostUid ∧ foreground = !task.isBackground := by
      intro hostUid foreground hmem
      obtain ⟨task', htask', hhost, -, -, hforeground⟩ := (h.reads hostUid id foreground).1 hmem
      obtain rfl := Option.some.inj (htask.symm.trans htask')
      exact ⟨hhost.symm, hforeground⟩
    have ho : Offered (reading.views s.slice) (reading.views slice') task.hostUid seq
        (reading.policy.live task.isBackground answer) (reading.policy.navigator task.isBackground answer) :=
      ⟨hother, by rw [hself]; rfl, by rw [hself]; rfl⟩
    have hdone := h.done htask hseq ho (fun hostUid id' foreground => ?_) fun hostUid => ?_
    · rw [State.answered, hstale]
      exact hdone
    · by_cases heq : hostUid = task.hostUid
      · subst heq
        rw [hself]
        exact HostViews.mem_unpend _ id (!task.isBackground)
      · rw [hother hostUid heq]
        refine ⟨fun hmem => ⟨hmem, ?_⟩, And.left⟩
        rintro rfl
        exact heq (hid hostUid foreground hmem).1
    · by_cases heq : hostUid = task.hostUid
      · subst heq
        rw [hself]
        exact HostViews.unpend_loading (h.loading _) fun foreground hmem => (hid _ foreground hmem).2
      · rw [hother hostUid heq]
        exact h.loading hostUid

/-- The result of an action is applied. -/
theorem applied (h : Inv reading s) {result : R} (htask : s.tasks id = some task) (hresult : task.result = some result)
    (hseq : task.seq = some seq) {hostUid : H} {lists : L}
    (hviews : reading.views slice' = Function.update (reading.views s.slice) hostUid
      ((reading.views s.slice hostUid).receive reading.policy seq false (.lists lists))) :
    Inv reading { (s.removeTask id).addOffers hostUid seq (some lists) (some lists) with
      slice := slice' } := by
  have hself : reading.views slice' hostUid =
      (reading.views s.slice hostUid).receive reading.policy seq false (.lists lists) := by
    rw [hviews]
    exact Function.update_self ..
  have hother : ∀ hostUid' ≠ hostUid, reading.views slice' hostUid' = reading.views s.slice hostUid' :=
    fun hostUid' hne => by rw [hviews]; exact Function.update_of_ne hne ..
  have hsame : ∀ hostUid', (reading.views slice' hostUid').reads = (reading.views s.slice hostUid').reads ∧
      (reading.views slice' hostUid').loading = (reading.views s.slice hostUid').loading := by
    intro hostUid'
    by_cases heq : hostUid' = hostUid
    · subst heq
      rw [hself]
      exact ⟨rfl, rfl⟩
    · rw [hother hostUid' heq]
      exact ⟨rfl, rfl⟩
  refine h.done htask hseq ⟨hother, by rw [hself]; rfl, by rw [hself]; rfl⟩ (fun hostUid' id' foreground => ?_)
    fun hostUid' => ?_
  · rw [(hsame hostUid').1]
    refine ⟨fun hmem => ⟨hmem, ?_⟩, And.left⟩
    rintro rfl
    obtain ⟨task', htask', -, hnone, -⟩ := (h.reads hostUid' id' foreground).1 hmem
    obtain rfl := Option.some.inj (htask.symm.trans htask')
    rw [hresult] at hnone
    cases hnone
  · rw [(hsame hostUid').1, (hsame hostUid').2]
    exact h.loading hostUid'

/-- A read is dispatched. -/
theorem pending (h : Inv reading s) {hostUid : H} {isBackground : Bool}
    (hviews : reading.views slice' = Function.update (reading.views s.slice) hostUid
      ((reading.views s.slice hostUid).pending s.nextTask (!isBackground))) :
    Inv reading ({ s with slice := slice' }.addTask ⟨hostUid, isBackground, none, none, false⟩) := by
  have hself : reading.views slice' hostUid = (reading.views s.slice hostUid).pending s.nextTask (!isBackground) := by
    rw [hviews]
    exact Function.update_self ..
  have hother : ∀ hostUid' ≠ hostUid, reading.views slice' hostUid' = reading.views s.slice hostUid' :=
    fun hostUid' hne => by rw [hviews]; exact Function.update_of_ne hne ..
  have hsame : ∀ hostUid', (reading.views slice' hostUid').live = (reading.views s.slice hostUid').live ∧
      (reading.views slice' hostUid').navigator = (reading.views s.slice hostUid').navigator := by
    intro hostUid'
    by_cases heq : hostUid' = hostUid
    · subst heq
      rw [hself]
      exact ⟨rfl, rfl⟩
    · rw [hother hostUid' heq]
      exact ⟨rfl, rfl⟩
  let task : Task H R := ⟨hostUid, isBackground, none, none, false⟩
  have hnew : Function.update s.tasks s.nextTask (some task) s.nextTask = some task := Function.update_self ..
  have hkept : ∀ {id}, id ≠ s.nextTask → Function.update s.tasks s.nextTask (some task) id = s.tasks id :=
    fun hne => Function.update_of_ne hne ..
  -- the new read has no number yet
  have hold : ∀ {id task' seq}, Function.update s.tasks s.nextTask (some task) id = some task' → task'.seq = some seq →
      s.tasks id = some task' := by
    intro id task' seq htask hseq
    by_cases heq : id = s.nextTask
    · subst heq
      obtain rfl := Option.some.inj (hnew.symm.trans htask)
      cases hseq
    · rwa [hkept heq] at htask
  exact {
    live := fun hostUid' => (hsame hostUid').1 ▸ h.live hostUid'
    navigator := fun hostUid' => (hsame hostUid').2 ▸ h.navigator hostUid'
    liveBound := h.liveBound
    navigatorBound := h.navigatorBound
    task := fun id task' htask => by
      by_cases heq : id = s.nextTask
      · exact heq ▸ Nat.lt_succ_self _
      · exact Nat.lt_succ_of_lt (h.task id task' ((hkept heq).symm.trans htask))
    seq := fun id task' seq htask hseq => h.seq id task' seq (hold htask hseq) hseq
    distinct := fun id id' task' task'' seq htask htask' hseq hseq' =>
      h.distinct id id' task' task'' seq (hold htask hseq) (hold htask' hseq') hseq hseq'
    nodup := h.nodup
    unclaimed := fun seq hmem => by
      obtain ⟨hfree, htasks⟩ := h.unclaimed seq hmem
      exact ⟨hfree, fun id task' htask hseq => htasks id task' (hold htask hseq) hseq⟩
    reads := fun hostUid' id foreground => by
      change (id, foreground) ∈ (reading.views slice' hostUid').reads ↔
        ∃ task', Function.update s.tasks s.nextTask (some task) id = some task' ∧ task'.hostUid = hostUid' ∧
          task'.result = none ∧ task'.stale = false ∧ foreground = !task'.isBackground
      by_cases hid : id = s.nextTask
      · subst hid
        -- the id was not in use
        have hnone : ∀ hostUid', (s.nextTask, foreground) ∉ (reading.views s.slice hostUid').reads := by
          intro hostUid' hmem
          obtain ⟨task', htask', -⟩ := (h.reads hostUid' _ foreground).1 hmem
          exact Nat.lt_irrefl _ (h.task _ task' htask')
        by_cases heq : hostUid' = hostUid
        · subst heq
          rw [hself, HostViews.pending, List.mem_cons, or_iff_left (hnone hostUid')]
          constructor
          · rintro hpair
            exact ⟨task, hnew, rfl, rfl, rfl, (Prod.mk.inj hpair).2⟩
          · rintro ⟨task', htask', -, -, -, hforeground⟩
            obtain rfl := Option.some.inj (hnew.symm.trans htask')
            rw [hforeground]
        · rw [hother hostUid' heq]
          refine ⟨fun hmem => absurd hmem (hnone hostUid'), ?_⟩
          rintro ⟨task', htask', hhost, -⟩
          obtain rfl := Option.some.inj (hnew.symm.trans htask')
          exact absurd hhost.symm heq
      · have hreads : (id, foreground) ∈ (reading.views slice' hostUid').reads ↔
            (id, foreground) ∈ (reading.views s.slice hostUid').reads := by
          by_cases heq : hostUid' = hostUid
          · subst heq
            rw [hself, HostViews.pending, List.mem_cons]
            exact or_iff_right fun hpair => hid (Prod.mk.inj hpair).1
          · rw [hother hostUid' heq]
        refine hreads.trans ((h.reads hostUid' id foreground).trans ?_)
        rw [hkept hid]
    loading := fun hostUid' => by
      by_cases heq : hostUid' = hostUid
      · subst heq
        change (reading.views slice' hostUid').loading = true ↔ ∃ id, (id, true) ∈ (reading.views slice' hostUid').reads
        rw [hself]
        have hloading := h.loading hostUid'
        cases isBackground with
        | true => simpa [HostViews.pending] using hloading
        | false => simp [HostViews.pending]
      · change (reading.views slice' hostUid').loading = true ↔ ∃ id, (id, true) ∈ (reading.views slice' hostUid').reads
        rw [hother hostUid' heq]
        exact h.loading hostUid' }

omit [DecidableEq H] in
theorem next_unused (h : Inv reading s) : s.Unused (s.lastSeq + 1) :=
  ⟨Nat.succ_pos _, fun hostUid => ⟨fun hmem => Nat.not_succ_le_self _ (h.liveBound hostUid _ hmem),
    fun hmem => Nat.not_succ_le_self _ (h.navigatorBound hostUid _ hmem)⟩⟩

omit [DecidableEq H] in
/-- A number is skipped. -/
theorem skip (h : Inv reading s) : Inv reading { s with lastSeq := s.lastSeq + 1 } :=
  { h with
    liveBound := fun hostUid seq hmem => Nat.le_succ_of_le (h.liveBound hostUid seq hmem)
    navigatorBound := fun hostUid seq hmem => Nat.le_succ_of_le (h.navigatorBound hostUid seq hmem)
    seq := fun id task seq htask hseq => (h.seq id task seq htask hseq).skip
    unclaimed := fun seq hmem => ⟨(h.unclaimed seq hmem).1.skip, (h.unclaimed seq hmem).2⟩ }

omit [DecidableEq H] in
/-- A number is handed out. -/
theorem nextSeq (h : Inv reading s) :
    Inv reading { s with lastSeq := s.lastSeq + 1, unclaimed := (s.lastSeq + 1) :: s.unclaimed } :=
  { h.skip with
    nodup := List.nodup_cons.2 ⟨fun hmem => Nat.not_succ_le_self _ (h.unclaimed _ hmem).1.2.1, h.nodup⟩
    unclaimed := fun seq hmem => by
      rcases List.mem_cons.1 hmem with rfl | hbefore
      · exact ⟨⟨h.next_unused.1, Nat.le_refl _, h.next_unused.2⟩,
          fun id task htask hseq => Nat.not_succ_le_self _ (h.seq id task _ htask hseq).2.1⟩
      · exact h.skip.unclaimed seq hbefore }

omit [DecidableEq H] in
/-- A task takes one of the numbers. -/
theorem claimed (h : Inv reading s) {id n seq : Nat} {task : Task H R} (hid : id < n) (hn : s.nextTask ≤ n)
    (hunclaimed : seq ∈ s.unclaimed) (hseq : task.seq = some seq)
    (hreads : ∀ hostUid foreground, (id, foreground) ∈ (reading.views s.slice hostUid).reads ↔
      task.hostUid = hostUid ∧ task.result = none ∧ task.stale = false ∧ foreground = !task.isBackground) :
    Inv reading { s with
      unclaimed := s.unclaimed.erase seq, nextTask := n, tasks := Function.update s.tasks id (some task) } := by
  have hself : Function.update s.tasks id (some task) id = some task := Function.update_self ..
  have hkept : ∀ {id'}, id' ≠ id → Function.update s.tasks id (some task) id' = s.tasks id' :=
    fun hne => Function.update_of_ne hne ..
  obtain ⟨hfree, htasks⟩ := h.unclaimed seq hunclaimed
  -- no other task has the number
  have hother : ∀ {id' task' seq'}, id' ≠ id → Function.update s.tasks id (some task) id' = some task' →
      task'.seq = some seq' → s.tasks id' = some task' ∧ seq' ≠ seq := by
    intro id' task' seq' hne htask hseq'
    rw [hkept hne] at htask
    refine ⟨htask, ?_⟩
    rintro rfl
    exact htasks id' task' htask hseq'
  exact {
    live := h.live
    navigator := h.navigator
    liveBound := h.liveBound
    navigatorBound := h.navigatorBound
    task := fun id' task' htask => by
      by_cases heq : id' = id
      · exact heq ▸ hid
      · exact Nat.lt_of_lt_of_le (h.task id' task' ((hkept heq).symm.trans htask)) hn
    seq := fun id' task' seq' htask hseq' => by
      by_cases heq : id' = id
      · subst heq
        obtain rfl := Option.some.inj (hself.symm.trans htask)
        obtain rfl := Option.some.inj (hseq.symm.trans hseq')
        exact hfree
      · exact h.seq id' task' seq' (hother heq htask hseq').1 hseq'
    distinct := fun id' id'' task' task'' seq' htask htask' hseq' hseq'' => by
      by_cases heq : id' = id <;> by_cases heq' : id'' = id
      · rw [heq, heq']
      · subst heq
        obtain rfl := Option.some.inj (hself.symm.trans htask)
        exact absurd (Option.some.inj (hseq'.symm.trans hseq)) (hother heq' htask' hseq'').2
      · subst heq'
        obtain rfl := Option.some.inj (hself.symm.trans htask')
        exact absurd (Option.some.inj (hseq''.symm.trans hseq)) (hother heq htask hseq').2
      · exact h.distinct id' id'' task' task'' seq' (hother heq htask hseq').1 (hother heq' htask' hseq'').1 hseq' hseq''
    nodup := h.nodup.erase seq
    unclaimed := fun seq' hmem => by
      obtain ⟨hne, hbefore⟩ := h.nodup.mem_erase_iff.1 hmem
      obtain ⟨hfree', htasks'⟩ := h.unclaimed seq' hbefore
      refine ⟨hfree', fun id' task' htask hseq' => ?_⟩
      by_cases heq : id' = id
      · subst heq
        obtain rfl := Option.some.inj (hself.symm.trans htask)
        exact hne (Option.some.inj (hseq'.symm.trans hseq))
      · exact htasks' id' task' (hother heq htask hseq').1 hseq'
    reads := fun hostUid id' foreground => by
      change (id', foreground) ∈ (reading.views s.slice hostUid).reads ↔
        ∃ task', Function.update s.tasks id (some task) id' = some task' ∧ task'.hostUid = hostUid ∧
          task'.result = none ∧ task'.stale = false ∧ foreground = !task'.isBackground
      by_cases heq : id' = id
      · subst heq
        rw [hreads, hself]
        exact ⟨fun hrest => ⟨task, rfl, hrest⟩, fun ⟨task', htask', hrest⟩ => Option.some.inj htask' ▸ hrest⟩
      · rw [hkept heq]
        exact h.reads hostUid id' foreground
    loading := h.loading }

omit [DecidableEq H] in
/-- The views are not touched. -/
theorem other (h : Inv reading s) (hviews : reading.views slice' = reading.views s.slice) :
    Inv reading { s with slice := slice' } :=
  { h with
    live := fun hostUid => by
      rw [hviews]
      exact h.live hostUid
    navigator := fun hostUid => by
      rw [hviews]
      exact h.navigator hostUid
    reads := fun hostUid id foreground => by
      rw [hviews]
      exact h.reads hostUid id foreground
    loading := fun hostUid => by
      rw [hviews]
      exact h.loading hostUid }

omit [DecidableEq H] in
theorem mark_le (h : Inv reading s) (hostUid : H) : (reading.views s.slice hostUid).live.mark ≤ s.lastSeq ∧
    (reading.views s.slice hostUid).navigator.mark ≤ s.lastSeq := by
  constructor
  · rcases (h.live hostUid).held with ⟨-, hinit⟩ | hheld
    · rw [hinit]
      exact Nat.zero_le _
    · exact h.liveBound hostUid _ (List.mem_map_of_mem hheld)
  · rcases (h.navigator hostUid).held with ⟨-, hinit⟩ | hheld
    · rw [hinit]
      exact Nat.zero_le _
    · exact h.navigatorBound hostUid _ (List.mem_map_of_mem hheld)

/-- A host is closed. -/
theorem closed (h : Inv reading s) {hostUid : H}
    (hviews : reading.views slice' =
      Function.update (reading.views s.slice) hostUid (.closed reading.policy (s.lastSeq + 1))) :
    Inv reading { s.addOffers hostUid (s.lastSeq + 1) (some reading.policy.absent) (some reading.policy.absent) with
      slice := slice', lastSeq := s.lastSeq + 1, tasks := fun id => (s.tasks id).map (·.close hostUid) } := by
  have hself : reading.views slice' hostUid = .closed reading.policy (s.lastSeq + 1) := by
    rw [hviews]
    exact Function.update_self ..
  have hother : ∀ hostUid' ≠ hostUid, reading.views slice' hostUid' = reading.views s.slice hostUid' :=
    fun hostUid' hne => by rw [hviews]; exact Function.update_of_ne hne ..
  have ho : Offered (reading.views s.slice) (reading.views slice') hostUid (s.lastSeq + 1) (some reading.policy.absent)
      (some reading.policy.absent) := by
    obtain ⟨hlive, hnavigator⟩ := h.mark_le hostUid
    refine ⟨hother, ?_, ?_⟩
    · rw [hself]
      exact (if_pos (Nat.lt_succ_of_le hlive)).symm
    · rw [hself]
      exact (if_pos (Nat.lt_succ_of_le hnavigator)).symm
  have hold : ∀ {id task'}, (s.tasks id).map (·.close hostUid) = some task' →
      ∃ task, s.tasks id = some task ∧ task' = task.close hostUid := fun hclosed => by
    obtain ⟨task, htask, rfl⟩ := Option.map_eq_some_iff.1 hclosed
    exact ⟨task, htask, rfl⟩
  have hnext := h.skip
  have hstays : ∀ {seq}, s.Free seq → { s.addOffers hostUid (s.lastSeq + 1) (some reading.policy.absent)
      (some reading.policy.absent) with lastSeq := s.lastSeq + 1 }.Free seq := fun hfree =>
    State.Free.skip (hfree.addOffers (Nat.ne_of_lt (Nat.lt_succ_of_le hfree.2.1)) hostUid _ _)
  exact {
    live := ho.latest_live h.live h.next_unused
    navigator := ho.latest_navigator h.navigator h.next_unused
    liveBound := fun hostUid' seq hmem => by
      rcases s.mem_liveOffers (some reading.policy.absent) (some reading.policy.absent) hmem with rfl | hbefore
      · exact Nat.le_refl _
      · exact hnext.liveBound hostUid' seq hbefore
    navigatorBound := fun hostUid' seq hmem => by
      rcases s.mem_navigatorOffers (some reading.policy.absent) (some reading.policy.absent) hmem with rfl | hbefore
      · exact Nat.le_refl _
      · exact hnext.navigatorBound hostUid' seq hbefore
    task := fun id task' htask' => by
      obtain ⟨task, htask, -⟩ := hold htask'
      exact h.task id task htask
    seq := fun id task' seq htask' hseq => by
      obtain ⟨task, htask, rfl⟩ := hold htask'
      rw [Task.close_seq] at hseq
      exact hstays (h.seq id task seq htask hseq)
    distinct := fun id id' task' task'' seq htask htask' hseq hseq' => by
      obtain ⟨task, hthere, rfl⟩ := hold htask
      obtain ⟨other, hthere', rfl⟩ := hold htask'
      rw [Task.close_seq] at hseq hseq'
      exact h.distinct id id' task other seq hthere hthere' hseq hseq'
    nodup := h.nodup
    unclaimed := fun seq hunclaimed => by
      obtain ⟨hfree, htasks⟩ := h.unclaimed seq hunclaimed
      refine ⟨hstays hfree, fun id task' htask' hseq => ?_⟩
      obtain ⟨task, hthere, rfl⟩ := hold htask'
      rw [Task.close_seq] at hseq
      exact htasks id task hthere hseq
    reads := fun hostUid' id foreground => by
      change (id, foreground) ∈ (reading.views slice' hostUid').reads ↔
        ∃ task', (s.tasks id).map (·.close hostUid) = some task' ∧ task'.hostUid = hostUid' ∧
          task'.result = none ∧ task'.stale = false ∧ foreground = !task'.isBackground
      by_cases heq : hostUid' = hostUid
      · -- its reads are from before
        subst heq
        rw [hself]
        refine ⟨nofun, ?_⟩
        rintro ⟨task', htask', hhost, hresult, hstale, -⟩
        obtain ⟨task, -, rfl⟩ := hold htask'
        rw [Task.close_stale hhost hresult] at hstale
        cases hstale
      · rw [hother hostUid' heq, h.reads]
        constructor
        · rintro ⟨task, htask, hhost, hrest⟩
          refine ⟨task, ?_, hhost, hrest⟩
          rw [htask, Option.map_some, Task.close_of_ne fun hsame => heq (hhost.symm.trans hsame)]
        · rintro ⟨task', htask', hhost, hrest⟩
          obtain ⟨task, htask, rfl⟩ := hold htask'
          rw [Task.close_hostUid] at hhost
          have hne : task.hostUid ≠ hostUid := fun hsame => heq (hhost.symm.trans hsame)
          rw [Task.close_of_ne hne] at hrest
          exact ⟨task, htask, hhost, hrest⟩
    loading := fun hostUid' => by
      change (reading.views slice' hostUid').loading = true ↔ ∃ id, (id, true) ∈ (reading.views slice' hostUid').reads
      by_cases heq : hostUid' = hostUid
      · subst heq
        rw [hself]
        exact ⟨nofun, nofun⟩
      · rw [hother hostUid' heq]
        exact h.loading hostUid' }

end Inv

/-! ### The steps -/

omit [DecidableEq H] in
theorem Task.sent_eq_some {task : Task H R} {seq : Nat} (h : task.sent = some seq) :
    task.result = none ∧ task.seq = some seq := by
  unfold Task.sent at h
  obtain ⟨hresult, hseq⟩ := Option.ite_none_right_eq_some.1 h
  exact ⟨Option.isNone_iff_eq_none.1 hresult, hseq⟩

/-- A step that settles a read, in the words of the views. -/
structure Settling (slice : Slice H S P R O) (reading : Reading H S P R L) (s : State H S R L) (a : Act H P R O)
    (s' : State H S R L) (id seq : Nat) (task : Task H R) (answer : Answer L) : Prop where
  found : s.tasks id = some task
  read : task.result = none
  stamp : task.seq = some seq
  eq : s' = { (s.removeTask id).answered reading task seq (some answer) with slice := s'.slice }
  views : reading.views s'.slice = Function.update (reading.views s.slice) task.hostUid
    ((reading.views s.slice task.hostUid).settle reading.policy id seq task.isBackground answer)
  stale : (reading.views s.slice task.hostUid).reads.lookup id = none → s'.slice = s.slice
  act : (∃ payload, a = .fulfilled id payload) ∨ a = .rejected id

theorem settling_fulfilled (h : slice.Meets reading) {id : Nat} {payload : P}
    (hok : Carries (O := O) reading s (.fulfilled id payload))
    (hstep : step slice reading s (.fulfilled id payload) = some s') :
    ∃ seq task answer, Settling slice reading s (.fulfilled id payload) s' id seq task answer := by
  cases htask : s.tasks id with
  | none =>
    simp only [step, htask] at hstep
    cases hstep
  | some task =>
    simp only [step, htask] at hstep
    obtain ⟨seq, hsent, rfl⟩ := Option.map_eq_some_iff.1 hstep
    obtain ⟨hresult, hseq⟩ := Task.sent_eq_some hsent
    obtain ⟨lists, hlists⟩ := Option.isSome_iff_exists.1 hok
    refine ⟨seq, task, .lists lists, htask, hresult, hseq, ?_, ?_, ?_, .inl ⟨payload, rfl⟩⟩
    · rw [hlists]
      rfl
    · exact h.fulfilled _ _ _ _ _ _ lists hlists
    · exact h.fulfilled_stale _ _ _ _ _ _

theorem settling_rejected (h : slice.Meets reading) {id : Nat} (hstep : step slice reading s (.rejected id) = some s') :
    ∃ seq task, Settling slice reading s (.rejected id) s' id seq task .failed := by
  cases htask : s.tasks id with
  | none =>
    simp only [step, htask] at hstep
    cases hstep
  | some task =>
    simp only [step, htask] at hstep
    obtain ⟨seq, hsent, rfl⟩ := Option.map_eq_some_iff.1 hstep
    obtain ⟨hresult, hseq⟩ := Task.sent_eq_some hsent
    exact ⟨seq, task, htask, hresult, hseq, rfl, h.rejected _ _ _ _ _, h.rejected_stale _ _ _ _ _, .inr rfl⟩

theorem applied_cases {id : Nat} (hok : Carries (O := O) reading s (.applied id))
    (hstep : step slice reading s (.applied id) = some s') : ∃ task seq result lists, s.tasks id = some task ∧
      task.result = some result ∧ task.seq = some seq ∧ reading.resultLists result = some lists ∧
      s' = { (s.removeTask id).addOffers (reading.hostUid result) seq (reading.resultLists result)
          (reading.resultLists result) with slice := slice.applied s.slice result seq } := by
  simp only [step] at hstep
  split at hstep
  · rename_i hostUid isBackground seq result stale htask
    simp only [Carries, htask] at hok
    obtain ⟨lists, hlists⟩ := Option.isSome_iff_exists.1 hok
    exact ⟨_, seq, result, lists, htask, rfl, rfl, hlists, (Option.some.inj hstep).symm⟩
  · cases hstep

/-- A step leaves the views, or a read is dispatched, settled, a result applied or a host closed. -/
theorem inv_step (h : slice.Meets reading) (hinv : Inv reading s) (hok : Carries reading s a)
    (hstep : step slice reading s a = some s') : Inv reading s' := by
  cases a with
  | nextSeq =>
    obtain rfl := Option.some.inj hstep
    exact hinv.nextSeq
  | pending hostUid isBackground =>
    obtain rfl := Option.some.inj hstep
    exact hinv.pending (h.pending _ _ _ _)
  | launch id seq =>
    cases htask : s.tasks id with
    | none =>
      simp only [step, htask] at hstep
      cases hstep
    | some task =>
      simp only [step, htask] at hstep
      obtain ⟨⟨-, hseq⟩, hclaimed⟩ := Option.ite_none_right_eq_some.1 hstep
      obtain rfl := Option.some.inj hclaimed
      refine hinv.claimed (hinv.task id task htask) (Nat.le_refl _) hseq rfl
        fun hostUid foreground => (hinv.reads hostUid id foreground).trans ?_
      exact ⟨fun ⟨task', htask', hrest⟩ => Option.some.inj (htask'.symm.trans htask) ▸ hrest,
        fun hrest => ⟨task, htask, hrest⟩⟩
  | fulfilled id payload =>
    obtain ⟨seq, task, answer, hs⟩ := settling_fulfilled h hok hstep
    rw [hs.eq]
    exact hinv.settled hs.found hs.read hs.stamp answer hs.views
  | rejected id =>
    obtain ⟨seq, task, hs⟩ := settling_rejected h hstep
    rw [hs.eq]
    exact hinv.settled hs.found hs.read hs.stamp .failed hs.views
  | returned result seq =>
    obtain ⟨hseq, hclaimed⟩ := Option.ite_none_right_eq_some.1 hstep
    obtain rfl := Option.some.inj hclaimed
    refine hinv.claimed (Nat.lt_succ_self s.nextTask) (Nat.le_succ _) hseq rfl fun hostUid foreground => ?_
    refine ⟨fun hmem => ?_, fun hrest => nomatch hrest.2.1⟩
    obtain ⟨task, htask, -⟩ := (hinv.reads hostUid _ foreground).1 hmem
    exact absurd (hinv.task _ task htask) (Nat.lt_irrefl _)
  | applied id =>
    obtain ⟨task, seq, result, lists, htask, hresult, hseq, hlists, rfl⟩ := applied_cases hok hstep
    rw [hlists]
    exact hinv.applied htask hresult hseq (h.applied _ _ _ lists hlists)
  | closeHostTabs hostUid =>
    obtain rfl := Option.some.inj hstep
    exact hinv.closed (h.closeHostTabs _ _ _)
  | other action =>
    obtain rfl := Option.some.inj hstep
    exact hinv.other (h.other _ _)

/-! ### What a step never does -/

theorem HostViews.settle_mark_le (v : HostViews L) (policy : Policy L) (id seq : Nat) (isBackground : Bool)
    (answer : Answer L) : v.live.mark ≤ (v.settle policy id seq isBackground answer).live.mark ∧
      v.navigator.mark ≤ (v.settle policy id seq isBackground answer).navigator.mark := by
  unfold settle
  split
  · exact ⟨mark_le_getD v.live seq _, mark_le_getD v.navigator seq _⟩
  · exact ⟨Nat.le_refl _, Nat.le_refl _⟩

theorem HostViews.settle_navigator (v : HostViews L) (policy : Policy L) (id seq : Nat) (answer : Answer L) :
    (v.settle policy id seq true answer).navigator = v.navigator := by
  unfold settle
  split
  · cases answer <;> rfl
  · rfl

/-- The views of one host move forward. -/
theorem mark_le_update (views : H → HostViews L) (hostUid : H) {v : HostViews L}
    (hv : (views hostUid).live.mark ≤ v.live.mark ∧ (views hostUid).navigator.mark ≤ v.navigator.mark)
    (hostUid' : H) : (views hostUid').live.mark ≤ (Function.update views hostUid v hostUid').live.mark ∧
      (views hostUid').navigator.mark ≤ (Function.update views hostUid v hostUid').navigator.mark := by
  by_cases heq : hostUid' = hostUid
  · subst heq
    rw [Function.update_self]
    exact hv
  · rw [Function.update_of_ne heq]
    exact ⟨Nat.le_refl _, Nat.le_refl _⟩

namespace Quiet

omit [DecidableEq H] in
/-- A step that settles no read. -/
theorem of_mark_le
    (hle : ∀ hostUid, (reading.views s.slice hostUid).live.mark ≤ (reading.views s'.slice hostUid).live.mark ∧
      (reading.views s.slice hostUid).navigator.mark ≤ (reading.views s'.slice hostUid).navigator.mark)
    (ha : ∀ task, ¬ Settles s a task) : Quiet reading s a s' :=
  ⟨fun hostUid => (hle hostUid).1, fun hostUid => (hle hostUid).2, fun task hs => absurd hs (ha task),
    fun task hs => absurd hs (ha task)⟩

theorem of_slice_eq (hslice : s'.slice = s.slice) (ha : ∀ task, ¬ Settles s a task) : Quiet reading s a s' :=
  of_mark_le (fun hostUid => by rw [hslice]; exact ⟨Nat.le_refl _, Nat.le_refl _⟩) ha

theorem of_settling (hinv : Inv reading s) {id seq : Nat} {task : Task H R} {answer : Answer L}
    (hs : Settling slice reading s a s' id seq task answer) : Quiet reading s a s' := by
  have hle := mark_le_update (reading.views s.slice) task.hostUid
    ((reading.views s.slice task.hostUid).settle_mark_le reading.policy id seq task.isBackground answer)
  rw [← hs.views] at hle
  have htask : ∀ task', Settles s a task' → task' = task := by
    rintro task' ⟨id', htask', -, hact⟩
    have hid : id' = id := by
      rcases hact with ⟨payload, rfl⟩ | rfl <;> rcases hs.act with ⟨payload', hact⟩ | hact <;> cases hact <;> rfl
    subst hid
    exact Option.some.inj (htask'.symm.trans hs.found)
  refine ⟨fun hostUid => (hle hostUid).1, fun hostUid => (hle hostUid).2, fun task' hsettles hbackground hostUid => ?_,
    fun task' hsettles hstale => ?_⟩
  · obtain rfl := htask task' hsettles
    rw [hs.views]
    by_cases heq : hostUid = task'.hostUid
    · subst heq
      rw [Function.update_self, hbackground]
      exact HostViews.settle_navigator _ _ _ _ _
    · rw [Function.update_of_ne heq]
  · obtain rfl := htask task' hsettles
    refine hs.stale ?_
    rw [hinv.lookup hs.found hs.read, hstale, if_pos rfl]

end Quiet

theorem quiet_step (h : slice.Meets reading) (hinv : Inv reading s) (hok : Carries reading s a)
    (hstep : step slice reading s a = some s') : Quiet reading s a s' := by
  cases a with
  | nextSeq =>
    obtain rfl := Option.some.inj hstep
    exact .of_slice_eq rfl (by rintro task ⟨id, -, -, ⟨payload, hact⟩ | hact⟩ <;> cases hact)
  | pending hostUid isBackground =>
    obtain rfl := Option.some.inj hstep
    refine .of_mark_le (fun hostUid' => ?_) (by rintro task ⟨id, -, -, ⟨payload, hact⟩ | hact⟩ <;> cases hact)
    have hviews := h.pending s.slice hostUid s.nextTask isBackground
    have hle := mark_le_update (reading.views s.slice) hostUid
      (v := (reading.views s.slice hostUid).pending s.nextTask (!isBackground)) ⟨Nat.le_refl _, Nat.le_refl _⟩ hostUid'
    rwa [← hviews] at hle
  | launch id seq =>
    refine .of_slice_eq ?_ (by rintro task ⟨id, -, -, ⟨payload, hact⟩ | hact⟩ <;> cases hact)
    cases htask : s.tasks id with
    | none =>
      simp only [step, htask] at hstep
      cases hstep
    | some task =>
      simp only [step, htask] at hstep
      obtain ⟨-, hclaimed⟩ := Option.ite_none_right_eq_some.1 hstep
      obtain rfl := Option.some.inj hclaimed
      rfl
  | fulfilled id payload =>
    obtain ⟨seq, task, answer, hs⟩ := settling_fulfilled h hok hstep
    exact .of_settling hinv hs
  | rejected id =>
    obtain ⟨seq, task, hs⟩ := settling_rejected h hstep
    exact .of_settling hinv hs
  | returned result seq =>
    obtain ⟨-, hclaimed⟩ := Option.ite_none_right_eq_some.1 hstep
    obtain rfl := Option.some.inj hclaimed
    exact .of_slice_eq rfl (by rintro task ⟨id, -, -, ⟨payload, hact⟩ | hact⟩ <;> cases hact)
  | applied id =>
    obtain ⟨task, seq, result, lists, htask, hresult, hseq, hlists, rfl⟩ := applied_cases hok hstep
    refine .of_mark_le (fun hostUid => ?_) (by rintro task ⟨id, -, -, ⟨payload, hact⟩ | hact⟩ <;> cases hact)
    have hle := mark_le_update (reading.views s.slice) (reading.hostUid result)
      (v := (reading.views s.slice (reading.hostUid result)).receive reading.policy seq false (.lists lists))
      ⟨mark_le_getD _ seq _, mark_le_getD _ seq _⟩ hostUid
    rwa [← h.applied _ _ _ _ hlists] at hle
  | closeHostTabs hostUid =>
    obtain rfl := Option.some.inj hstep
    refine .of_mark_le (fun hostUid' => ?_) (by rintro task ⟨id, -, -, ⟨payload, hact⟩ | hact⟩ <;> cases hact)
    obtain ⟨hlive, hnavigator⟩ := hinv.mark_le hostUid
    have hle := mark_le_update (reading.views s.slice) hostUid
      (v := .closed reading.policy (s.lastSeq + 1)) ⟨Nat.le_succ_of_le hlive, Nat.le_succ_of_le hnavigator⟩ hostUid'
    rwa [← h.closeHostTabs] at hle
  | other action =>
    obtain rfl := Option.some.inj hstep
    refine .of_mark_le (fun hostUid => ?_) (by rintro task ⟨id, -, -, ⟨payload, hact⟩ | hact⟩ <;> cases hact)
    rw [h.other]
    exact ⟨Nat.le_refl _, Nat.le_refl _⟩

/-- In every run of a slice that keeps to the views, each view holds the newest of what it was offered. -/
theorem newest_run (h : slice.Meets reading) {as : List (Act H P R O)}
    (hrun : Run (step slice reading) (Carries reading) slice.start as s) :
    Newest reading s ∧ ∀ a s', Carries reading s a → step slice reading s a = some s' → Quiet reading s a s' := by
  have hinv : Inv reading s := hrun.invariant (fun _ _ _ => inv_step h) (.start h)
  exact ⟨hinv.newest, fun _ _ => quiet_step h hinv⟩

end CubridWebManager.ListViews
