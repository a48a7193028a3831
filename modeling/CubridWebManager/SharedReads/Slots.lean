import CubridWebManager.SharedReads.SingleFlight

/-!
# The two slots of a key

The invariant of the entries, the promises and the runs: the current promise of a key is the first one that `track` has
not reacted on, and the next one waits for it without a run (`Inv`).  Requests, the reactions of `track` and launches
change the slots; all other steps leave the promises in their places (`step_cases`).
-/

namespace CubridWebManager.SharedReads

variable {κ V E : Type} {s s' : State κ V E}

/-! ### The invariant -/

/-- An ordinary request has the promise that was current, or that of the run it launched. -/
def State.joined (s : State κ V E) (request : Request κ V E) : Prop :=
  match request.current with
  | some c => request.promise = c
  | none => (s.promises request.promise).run = some request.runsBefore

theorem State.joined_of_run {request : Request κ V E}
    (hrun : ∀ r, (s.promises request.promise).run = some r → (s'.promises request.promise).run = some r)
    (h : s.joined request) : s'.joined request := by
  unfold State.joined at h ⊢
  cases hcur : request.current with
  | some c =>
    rw [hcur] at h
    exact h
  | none =>
    rw [hcur] at h
    exact hrun _ h

structure Inv (s : State κ V E) : Prop where
  run : ∀ p r, (s.promises p).run = some r →
    p < s.nextPromise ∧ r < s.nextRun ∧ (s.runs r).key = (s.promises p).key
  unique : ∀ p p' r, (s.promises p).run = some r → (s.promises p').run = some r → p = p'
  owner : ∀ r < s.nextRun, ∃ p, (s.promises p).run = some r
  state : ∀ p settled, (s.promises p).state = some settled →
    ∃ r, (s.promises p).run = some r ∧ (s.runs r).settled = some settled
  untracked : ∀ p < s.nextPromise, (s.promises p).tracked = false → (s.promises p).state ≠ none
  /-- A promise without a run is queued behind another one, and is the next of its key until that one is settled. -/
  queued : ∀ p < s.nextPromise, (s.promises p).run = none → ∃ c < p, (s.promises p).previous = some c ∧
    ((s.promises c).tracked = true → s.entries (s.promises p).key = some ⟨c, some p⟩)
  entry : ∀ p < s.nextPromise, (s.promises p).tracked = true →
    ∃ entry, s.entries (s.promises p).key = some entry ∧ (entry.current = p ∨ entry.next = some p)
  current : ∀ key entry, s.entries key = some entry →
    entry.current < s.nextPromise ∧ (s.promises entry.current).key = key ∧ (s.promises entry.current).tracked = true
  next : ∀ key entry n, s.entries key = some entry → entry.next = some n → n < s.nextPromise ∧
    (s.promises n).key = key ∧ (s.promises n).tracked = true ∧ (s.promises n).run = none ∧
    (s.promises n).previous = some entry.current
  delivered : ∀ q settled, (s.requests q).result = some settled →
    (s.promises (s.requests q).promise).state = some settled ∧ (s.promises (s.requests q).promise).tracked = false
  request : ∀ q < s.nextRequest, (s.requests q).promise < s.nextPromise ∧
    (s.promises (s.requests q).promise).key = (s.requests q).key ∧ (s.requests q).runsBefore ≤ s.nextRun ∧
    (s.requests q).seqBefore ≤ s.lastSeq
  fresh : ∀ q < s.nextRequest, (s.requests q).fresh = true → ∀ r, (s.promises (s.requests q).promise).run = some r →
    (s.requests q).runsBefore ≤ r ∧ (s.requests q).seqBefore < (s.runs r).seq
  ordinary : ∀ q < s.nextRequest, (s.requests q).fresh = false → s.joined (s.requests q)

theorem Inv.init (key : κ) : Inv (State.fresh key : State κ V E) where
  run _ _ h := by cases h
  unique _ _ _ h := by cases h
  owner _ h := by cases h
  state _ _ h := by cases h
  untracked _ h := by cases h
  queued _ h := by cases h
  entry _ h := by cases h
  current _ _ h := by cases h
  next _ _ _ h := by cases h
  delivered _ _ h := by cases h
  request _ h := by cases h
  fresh _ h := by cases h
  ordinary _ h := by cases h

theorem Launched.settled_eq_none {r : Launched κ V E} (h : r.outcome = none) : r.settled = none := by
  rw [Launched.settled, h, Option.map_none]

theorem Launched.settled_ne_rejected (r : Launched κ V E) (error : E) : r.settled ≠ some (.rejected error) := by
  unfold Launched.settled
  cases r.outcome with
  | none => exact nofun
  | some outcome => cases outcome <;> exact nofun

namespace State

variable (s) {r r' p p' q q' : Nat}

@[simp]
theorem setRun_self (run : Launched κ V E) : (s.setRun r run).runs r = run := Function.update_self ..

theorem setRun_of_ne (h : r' ≠ r) (run : Launched κ V E) : (s.setRun r run).runs r' = s.runs r' :=
  Function.update_of_ne h ..

@[simp]
theorem setRequest_self (request : Request κ V E) : (s.setRequest q request).requests q = request :=
  Function.update_self ..

theorem setRequest_of_ne (h : q' ≠ q) (request : Request κ V E) :
    (s.setRequest q request).requests q' = s.requests q' := Function.update_of_ne h ..

@[simp]
theorem setPromise_self (promise : Promise κ V E) : (s.setPromise p promise).promises p = promise := Function.update_self ..

theorem setPromise_of_ne (h : p' ≠ p) (promise : Promise κ V E) : (s.setPromise p promise).promises p' = s.promises p' :=
  Function.update_of_ne h ..

end State

/-! ### What leaves the promises in their places -/

/-- The states differ in how far runs, promises and requests are. -/
structure Advances (s s' : State κ V E) : Prop where
  lastSeq : s.lastSeq ≤ s'.lastSeq
  entries : s'.entries = s.entries
  nextRun : s'.nextRun = s.nextRun
  nextPromise : s'.nextPromise = s.nextPromise
  nextRequest : s'.nextRequest = s.nextRequest
  runs : ∀ r, (s'.runs r).key = (s.runs r).key ∧ (s'.runs r).seq = (s.runs r).seq ∧
    ∀ settled, (s.runs r).settled = some settled → (s'.runs r).settled = some settled
  promises : ∀ p, (s'.promises p).key = (s.promises p).key ∧ (s'.promises p).previous = (s.promises p).previous ∧
    (s'.promises p).run = (s.promises p).run ∧ (s'.promises p).tracked = (s.promises p).tracked
  kept : ∀ p settled, (s.promises p).state = some settled → (s'.promises p).state = some settled
  state : ∀ p settled, (s'.promises p).state = some settled → (s.promises p).state = some settled ∨
    ∃ r, (s.promises p).run = some r ∧ (s'.runs r).settled = some settled
  requests : ∀ q, (s'.requests q).key = (s.requests q).key ∧ (s'.requests q).fresh = (s.requests q).fresh ∧
    (s'.requests q).promise = (s.requests q).promise ∧ (s'.requests q).current = (s.requests q).current ∧
    (s'.requests q).runsBefore = (s.requests q).runsBefore ∧ (s'.requests q).seqBefore = (s.requests q).seqBefore
  result : ∀ q settled, (s'.requests q).result = some settled → (s.requests q).result = some settled ∨
    (s.promises (s.requests q).promise).state = some settled ∧ (s.promises (s.requests q).promise).tracked = false

namespace Advances

variable (hs : Advances s s')

include hs

theorem key (p : Nat) : (s'.promises p).key = (s.promises p).key := (hs.promises p).1

theorem previous (p : Nat) : (s'.promises p).previous = (s.promises p).previous := (hs.promises p).2.1

theorem run (p : Nat) : (s'.promises p).run = (s.promises p).run := (hs.promises p).2.2.1

theorem tracked (p : Nat) : (s'.promises p).tracked = (s.promises p).tracked := (hs.promises p).2.2.2

theorem promise (q : Nat) : (s'.requests q).promise = (s.requests q).promise := (hs.requests q).2.2.1

theorem inv (h : Inv s) : Inv s' where
  run p r hr := by
    rw [hs.run] at hr
    rw [hs.nextPromise, hs.nextRun, (hs.runs r).1, hs.key]
    exact h.run p r hr
  unique p p' r hp hp' := by
    rw [hs.run] at hp hp'
    exact h.unique p p' r hp hp'
  owner r hr := by
    obtain ⟨p, hp⟩ := h.owner r (hs.nextRun ▸ hr)
    exact ⟨p, (hs.run p).trans hp⟩
  state p settled hp := by
    rw [hs.run]
    rcases hs.state p settled hp with hold | hnew
    · obtain ⟨r, hr, hsettled⟩ := h.state p settled hold
      exact ⟨r, hr, (hs.runs r).2.2 settled hsettled⟩
    · exact hnew
  untracked p hp htracked hnone := by
    rw [hs.tracked] at htracked
    rw [hs.nextPromise] at hp
    obtain ⟨settled, hsettled⟩ := Option.ne_none_iff_exists'.1 (h.untracked p hp htracked)
    rw [hs.kept p settled hsettled] at hnone
    cases hnone
  queued p hp hr := by
    rw [hs.run] at hr
    obtain ⟨c, hc, hprevious, htracked⟩ := h.queued p (hs.nextPromise ▸ hp) hr
    refine ⟨c, hc, (hs.previous p).trans hprevious, fun ht => ?_⟩
    rw [hs.entries, hs.key]
    exact htracked ((hs.tracked c).symm.trans ht)
  entry p hp htracked := by
    rw [hs.tracked] at htracked
    rw [hs.entries, hs.key]
    exact h.entry p (hs.nextPromise ▸ hp) htracked
  current key entry hentry := by
    rw [hs.entries] at hentry
    rw [hs.nextPromise, hs.key, hs.tracked]
    exact h.current key entry hentry
  next key entry n hentry hnext := by
    rw [hs.entries] at hentry
    rw [hs.nextPromise, hs.key, hs.tracked, hs.run, hs.previous]
    exact h.next key entry n hentry hnext
  delivered q settled hq := by
    rw [hs.promise, hs.tracked]
    rcases hs.result q settled hq with hold | ⟨hstate, htracked⟩
    · obtain ⟨hstate, htracked⟩ := h.delivered q settled hold
      exact ⟨hs.kept _ _ hstate, htracked⟩
    · exact ⟨hs.kept _ _ hstate, htracked⟩
  request q hq := by
    obtain ⟨hkey, -, hpromise, -, hruns, hseq⟩ := hs.requests q
    obtain ⟨hp, hk, hr, hsq⟩ := h.request q (hs.nextRequest ▸ hq)
    rw [hpromise, hs.key, hkey, hruns, hseq, hs.nextPromise, hs.nextRun]
    exact ⟨hp, hk, hr, Nat.le_trans hsq hs.lastSeq⟩
  fresh q hq hfresh r hr := by
    obtain ⟨-, hf, hpromise, -, hruns, hseq⟩ := hs.requests q
    rw [hpromise, hs.run] at hr
    rw [hruns, hseq, (hs.runs r).2.1]
    exact h.fresh q (hs.nextRequest ▸ hq) (hf.symm.trans hfresh) r hr
  ordinary q hq hfresh := by
    obtain ⟨-, hf, hpromise, hcurrent, hruns, -⟩ := hs.requests q
    have hjoined := h.ordinary q (hs.nextRequest ▸ hq) (hf.symm.trans hfresh)
    unfold State.joined at hjoined ⊢
    rw [hpromise, hs.run, hcurrent, hruns]
    exact hjoined

end Advances

/-! ### The steps that leave the promises in their places -/

theorem Advances.refl (s : State κ V E) : Advances s s where
  lastSeq := Nat.le_refl _
  entries := rfl
  nextRun := rfl
  nextPromise := rfl
  nextRequest := rfl
  runs _ := ⟨rfl, rfl, fun _ => id⟩
  promises _ := ⟨rfl, rfl, rfl, rfl⟩
  kept _ _ := id
  state _ _ := .inl
  requests _ := ⟨rfl, rfl, rfl, rfl, rfl, rfl⟩
  result _ _ := .inl

theorem Advances.nextSeq (s : State κ V E) : Advances s { s with lastSeq := s.lastSeq + 1 } :=
  { Advances.refl s with lastSeq := Nat.le_succ _ }

theorem Inv.settled_of_state (h : Inv s) {p : Nat} {settled : Settled V E} (hp : (s.promises p).state = some settled) :
    ∀ error, settled ≠ .rejected error := by
  rintro error rfl
  obtain ⟨r, -, hr⟩ := h.state p _ hp
  exact (s.runs r).settled_ne_rejected error hr

/-- A run goes on. -/
theorem Advances.setRun (s : State κ V E) (r : Nat) (run : Launched κ V E) (hkey : run.key = (s.runs r).key)
    (hseq : run.seq = (s.runs r).seq) (hsettled : (s.runs r).settled ≠ none → run.settled = (s.runs r).settled) :
    Advances s (s.setRun r run) :=
  { Advances.refl s with
    runs := fun r' => by
      by_cases heq : r' = r
      · subst heq
        rw [State.setRun_self]
        refine ⟨hkey, hseq, fun settled h => ?_⟩
        rw [hsettled (by rw [h]; exact nofun), h]
      · rw [State.setRun_of_ne s heq]
        exact ⟨rfl, rfl, fun _ => id⟩
    state := fun _ _ => .inl }

/-- What a promise is settled with is the outcome of its run. -/
theorem Inv.settlement (h : Inv s) {p : Nat} {settled : Settled V E} (hp : s.settlement p = some settled) :
    ∃ r, (s.promises p).run = some r ∧ (s.runs r).settled = some settled := by
  unfold State.settlement at hp
  split at hp
  · rename_i r hr
    exact ⟨r, hr, hp⟩
  · split at hp
    · rename_i error hprevious
      -- the promise before it is never rejected
      obtain ⟨c, -, hc⟩ := Option.bind_eq_some_iff.1 hprevious
      exact absurd rfl (h.settled_of_state hc error)
    · cases hp

theorem Advances.resolve (h : Inv s) {p : Nat} {settled : Settled V E} (hstate : (s.promises p).state = none)
    (hsettled : s.settlement p = some settled) :
    Advances s (s.setPromise p { s.promises p with state := some settled }) :=
  { Advances.refl s with
    promises := fun p' => by
      by_cases heq : p' = p
      · subst heq
        rw [State.setPromise_self]
        exact ⟨rfl, rfl, rfl, rfl⟩
      · rw [State.setPromise_of_ne s heq]
        exact ⟨rfl, rfl, rfl, rfl⟩
    kept := fun p' settled' hp' => by
      have hne : p' ≠ p := by
        rintro rfl
        rw [hstate] at hp'
        cases hp'
      rw [State.setPromise_of_ne s hne]
      exact hp'
    state := fun p' settled' hp' => by
      by_cases heq : p' = p
      · subst heq
        rw [State.setPromise_self] at hp'
        obtain rfl := Option.some.inj hp'
        exact .inr (h.settlement hsettled)
      · rw [State.setPromise_of_ne s heq] at hp'
        exact .inl hp' }

theorem State.passed_iff (h : Inv s) {p : Nat} :
    s.passed p = true ↔ (s.promises p).state ≠ none ∧ (s.promises p).tracked = false := by
  unfold State.passed
  split
  · rename_i hp
    simp [hp]
  · rename_i error hp
    exact absurd rfl (h.settled_of_state hp error)
  · rename_i hp
    simp [hp]

/-- The caller of a request is told what its promise is settled with. -/
theorem Advances.deliver (h : Inv s) {q : Nat} (hpassed : s.passed (s.requests q).promise = true) :
    Advances s (s.setRequest q { s.requests q with result := (s.promises (s.requests q).promise).state }) :=
  { Advances.refl s with
    requests := fun q' => by
      by_cases heq : q' = q
      · subst heq
        rw [State.setRequest_self]
        exact ⟨rfl, rfl, rfl, rfl, rfl, rfl⟩
      · rw [State.setRequest_of_ne s heq]
        exact ⟨rfl, rfl, rfl, rfl, rfl, rfl⟩
    result := fun q' settled hq' => by
      by_cases heq : q' = q
      · subst heq
        rw [State.setRequest_self] at hq'
        exact .inr ⟨hq', ((State.passed_iff h).1 hpassed).2⟩
      · rw [State.setRequest_of_ne s heq] at hq'
        exact .inl hq' }

/-! ### The slots of a key -/

namespace State

variable (s) {p p' : Nat} {entry : Entry}

/-- The reaction of `track` on the current promise of a key. -/
theorem settle_eq [DecidableEq κ] (hentry : s.entries (s.promises p).key = some entry) (hcurrent : entry.current = p) :
    s.settle p = { s.setPromise p { s.promises p with tracked := false } with
      entries := Function.update s.entries (s.promises p).key (entry.next.map fun next => ⟨next, none⟩) } := by
  have hentries : (s.setPromise p { s.promises p with tracked := false }).entries (s.promises p).key = some entry := hentry
  simp only [settle, hentries, if_pos hcurrent]
  rfl

/-- All of a promise but whether `track` has reacted on it. -/
theorem setPromise_tracked (tracked : Bool) (p' : Nat) :
    let promise := (s.setPromise p { s.promises p with tracked := tracked }).promises p'
    promise.key = (s.promises p').key ∧ promise.previous = (s.promises p').previous ∧
      promise.run = (s.promises p').run ∧ promise.state = (s.promises p').state := by
  by_cases heq : p' = p
  · subst heq
    rw [setPromise_self]
    exact ⟨rfl, rfl, rfl, rfl⟩
  · rw [setPromise_of_ne s heq]
    exact ⟨rfl, rfl, rfl, rfl⟩

end State

namespace Inv

/-- A tracked promise that is settled is the current one of its key. -/
theorem current_of_settled (h : Inv s) {p : Nat} (hstate : (s.promises p).state ≠ none)
    (htracked : (s.promises p).tracked = true) :
    ∃ entry, s.entries (s.promises p).key = some entry ∧ entry.current = p := by
  obtain ⟨settled, hsettled⟩ := Option.ne_none_iff_exists'.1 hstate
  obtain ⟨r, hr, -⟩ := h.state p settled hsettled
  obtain ⟨entry, hentry, hcurrent | hnext⟩ := h.entry p (h.run p r hr).1 htracked
  · exact ⟨entry, hentry, hcurrent⟩
  · -- the next promise has no run
    obtain ⟨-, -, -, hnone, -⟩ := h.next _ entry p hentry hnext
    rw [hnone] at hr
    cases hr

theorem settle [DecidableEq κ] (h : Inv s) {p : Nat} (hstate : (s.promises p).state ≠ none) (htracked : (s.promises p).tracked = true) :
    Inv (s.settle p) := by
  obtain ⟨entry, hentry, hcurrent⟩ := h.current_of_settled hstate htracked
  rw [s.settle_eq hentry hcurrent]
  have hkeep := s.setPromise_tracked (p := p) false
  have htracks : ∀ p', ((s.setPromise p { s.promises p with tracked := false }).promises p').tracked = true ↔
      (s.promises p').tracked = true ∧ p' ≠ p := by
    intro p'
    by_cases heq : p' = p
    · subst heq
      simp
    · rw [State.setPromise_of_ne s heq]
      exact ⟨fun ht => ⟨ht, heq⟩, And.left⟩
  have hself : Function.update s.entries (s.promises p).key (entry.next.map fun next => ⟨next, none⟩)
      (s.promises p).key = entry.next.map fun next => ⟨next, none⟩ := Function.update_self ..
  have hother : ∀ key ≠ (s.promises p).key, Function.update s.entries (s.promises p).key
      (entry.next.map fun next => ⟨next, none⟩) key = s.entries key := fun key hne => Function.update_of_ne hne ..
  exact {
    run := fun p' r hr => by
      obtain ⟨hkey, -, hrun, -⟩ := hkeep p'
      rw [hrun] at hr
      rw [hkey]
      exact h.run p' r hr
    unique := fun p' p'' r hr hr' => by
      rw [(hkeep p').2.2.1] at hr
      rw [(hkeep p'').2.2.1] at hr'
      exact h.unique p' p'' r hr hr'
    owner := fun r hr => by
      obtain ⟨p', hp'⟩ := h.owner r hr
      exact ⟨p', (hkeep p').2.2.1.trans hp'⟩
    state := fun p' settled hp' => by
      obtain ⟨-, -, hrun, hst⟩ := hkeep p'
      rw [hst] at hp'
      rw [hrun]
      exact h.state p' settled hp'
    untracked := fun p' hp' ht => by
      rw [(hkeep p').2.2.2]
      by_cases heq : p' = p
      · exact heq ▸ hstate
      · rw [State.setPromise_of_ne s heq] at ht
        exact h.untracked p' hp' ht
    queued := fun p' hp' hr => by
      obtain ⟨hkey, hprevious, hrun, -⟩ := hkeep p'
      rw [hrun] at hr
      obtain ⟨c, hc, hpc, hct⟩ := h.queued p' hp' hr
      refine ⟨c, hc, hprevious.trans hpc, fun ht => ?_⟩
      obtain ⟨ht, hcp⟩ := (htracks c).1 ht
      have hold := hct ht
      have hne : (s.promises p').key ≠ (s.promises p).key := by
        intro heq
        rw [heq, hentry] at hold
        exact hcp (by rw [← hcurrent, Option.some.inj hold])
      rw [hkey]
      exact (hother _ hne).trans hold
    entry := fun p' hp' ht => by
      obtain ⟨ht, hne⟩ := (htracks p').1 ht
      obtain ⟨entry', hentry', hin⟩ := h.entry p' hp' ht
      rw [(hkeep p').1]
      by_cases heq : (s.promises p').key = (s.promises p).key
      · rw [heq, hentry] at hentry'
        obtain rfl := Option.some.inj hentry'
        have hnext : entry.next = some p' := hin.resolve_left fun hc => hne (hc.symm.trans hcurrent)
        refine ⟨⟨p', none⟩, ?_, .inl rfl⟩
        rw [heq]
        exact hself.trans (by rw [hnext]; rfl)
      · exact ⟨entry', (hother _ heq).trans hentry', hin⟩
    current := fun key entry' hentry' => by
      rw [(hkeep entry'.current).1, htracks]
      by_cases heq : key = (s.promises p).key
      · subst heq
        obtain ⟨n, hn, rfl⟩ := Option.map_eq_some_iff.1 (hself.symm.trans hentry')
        obtain ⟨hlt, hkey, ht, hnone, -⟩ := h.next _ entry n hentry hn
        refine ⟨hlt, hkey, ht, ?_⟩
        rintro rfl
        obtain ⟨settled, hsettled⟩ := Option.ne_none_iff_exists'.1 hstate
        obtain ⟨r, hr, -⟩ := h.state _ settled hsettled
        rw [hnone] at hr
        cases hr
      · obtain ⟨hlt, hkey, ht⟩ := h.current key entry' ((hother _ heq).symm.trans hentry')
        exact ⟨hlt, hkey, ht, fun hp => heq (by rw [← hp, hkey])⟩
    next := fun key entry' n hentry' hn => by
      obtain ⟨hkey, hprevious, hrun, -⟩ := hkeep n
      rw [hkey, hprevious, hrun, htracks]
      by_cases heq : key = (s.promises p).key
      · subst heq
        obtain ⟨m, -, rfl⟩ := Option.map_eq_some_iff.1 (hself.symm.trans hentry')
        cases hn
      · obtain ⟨hlt, hk, ht, hnone, hprev⟩ := h.next key entry' n ((hother _ heq).symm.trans hentry') hn
        exact ⟨hlt, hk, ⟨ht, fun hp => heq (by rw [← hp, hk])⟩, hnone, hprev⟩
    delivered := fun q settled hq => by
      obtain ⟨hst, ht⟩ := h.delivered q settled hq
      refine ⟨(hkeep _).2.2.2.trans hst, ?_⟩
      by_cases heq : (s.requests q).promise = p
      · rw [heq, htracked] at ht
        cases ht
      · exact (congrArg Promise.tracked (State.setPromise_of_ne s heq _)).trans ht
    request := fun q hq => by
      obtain ⟨hlt, hkey, hruns, hseq⟩ := h.request q hq
      exact ⟨hlt, (hkeep _).1.trans hkey, hruns, hseq⟩
    fresh := fun q hq hfresh r hr => h.fresh q hq hfresh r ((hkeep _).2.2.1.symm.trans hr)
    ordinary := fun q hq hfresh => State.joined_of_run (fun r hr => (hkeep _).2.2.1.trans hr) (h.ordinary q hq hfresh) }

end Inv

/-! ### The launch of a run -/

namespace State

variable (s) {p p' r : Nat} (promise : Promise κ V E)

theorem launch_self : (s.launch p promise).promises p = { promise with run := some s.nextRun } :=
  Function.update_self ..

theorem launch_of_ne (h : p' ≠ p) : (s.launch p promise).promises p' = s.promises p' := Function.update_of_ne h ..

theorem launch_run : (s.launch p promise).runs s.nextRun = ⟨promise.key, s.lastSeq + 1, false, none⟩ :=
  Function.update_self ..

theorem launch_run_of_ne (h : r ≠ s.nextRun) : (s.launch p promise).runs r = s.runs r := Function.update_of_ne h ..

end State

namespace Inv

variable {p : Nat} {promise : Promise κ V E}

/-! The runs of a state in which the promise `p` had none, and is given the next one. -/

theorem launch_run (h : Inv s) {p' r : Nat}
    (hr : ((s.launch p promise).promises p').run = some r) :
    (p' = p ∨ p' < s.nextPromise) ∧ r < s.nextRun + 1 ∧
      ((s.launch p promise).runs r).key = ((s.launch p promise).promises p').key := by
  by_cases heq : p' = p
  · subst heq
    rw [State.launch_self] at hr
    obtain rfl := Option.some.inj hr
    rw [State.launch_run, State.launch_self]
    exact ⟨.inl rfl, Nat.lt_succ_self _, rfl⟩
  · rw [State.launch_of_ne s promise heq] at hr ⊢
    obtain ⟨hp', hlt, hk⟩ := h.run p' r hr
    rw [State.launch_run_of_ne s promise (Nat.ne_of_lt hlt)]
    exact ⟨.inr hp', Nat.lt_succ_of_lt hlt, hk⟩

theorem launch_unique (h : Inv s) {p' p'' r : Nat} (hr : ((s.launch p promise).promises p').run = some r)
    (hr' : ((s.launch p promise).promises p'').run = some r) : p' = p'' := by
  have hold : ∀ {p'}, p' ≠ p → ((s.launch p promise).promises p').run = some r → r < s.nextRun := by
    intro p' hne hr
    rw [State.launch_of_ne s promise hne] at hr
    exact (h.run p' r hr).2.1
  by_cases heq : p' = p <;> by_cases heq' : p'' = p
  · rw [heq, heq']
  · subst heq
    rw [State.launch_self] at hr
    have hlt := hold heq' hr'
    rw [← Option.some.inj hr] at hlt
    exact absurd hlt (Nat.lt_irrefl _)
  · subst heq'
    rw [State.launch_self] at hr'
    have hlt := hold heq hr
    rw [← Option.some.inj hr'] at hlt
    exact absurd hlt (Nat.lt_irrefl _)
  · rw [State.launch_of_ne s promise heq] at hr
    rw [State.launch_of_ne s promise heq'] at hr'
    exact h.unique p' p'' r hr hr'

theorem launch_owner (h : Inv s) (hfree : (s.promises p).run = none) {r : Nat} (hr : r < s.nextRun + 1) :
    ∃ p', ((s.launch p promise).promises p').run = some r := by
  rcases Nat.lt_succ_iff_lt_or_eq.1 hr with hlt | rfl
  · obtain ⟨p', hp'⟩ := h.owner r hlt
    have hne : p' ≠ p := by
      rintro rfl
      rw [hfree] at hp'
      cases hp'
    exact ⟨p', by rw [State.launch_of_ne s promise hne, hp']⟩
  · exact ⟨p, by rw [State.launch_self]⟩

theorem launch_state (h : Inv s) (hpending : promise.state = none) {p' : Nat} {settled : Settled V E}
    (hp' : ((s.launch p promise).promises p').state = some settled) :
    ∃ r, ((s.launch p promise).promises p').run = some r ∧ ((s.launch p promise).runs r).settled = some settled := by
  have hne : p' ≠ p := by
    rintro rfl
    rw [State.launch_self, hpending] at hp'
    cases hp'
  rw [State.launch_of_ne s promise hne] at hp' ⊢
  obtain ⟨r, hr, hsettled⟩ := h.state p' settled hp'
  exact ⟨r, hr, by rw [State.launch_run_of_ne s promise (Nat.ne_of_lt (h.run p' r hr).2.1), hsettled]⟩

theorem launch_fresh (h : Inv s) {q : Nat} (hq : q < s.nextRequest) (hfresh : (s.requests q).fresh = true) {r : Nat}
    (hr : ((s.launch p promise).promises (s.requests q).promise).run = some r) :
    (s.requests q).runsBefore ≤ r ∧ (s.requests q).seqBefore < ((s.launch p promise).runs r).seq := by
  by_cases heq : (s.requests q).promise = p
  · obtain ⟨-, -, hruns, hseq⟩ := h.request q hq
    rw [heq, State.launch_self] at hr
    obtain rfl := Option.some.inj hr
    rw [State.launch_run]
    exact ⟨hruns, Nat.lt_succ_of_le hseq⟩
  · rw [State.launch_of_ne s promise heq] at hr
    rw [State.launch_run_of_ne s promise (Nat.ne_of_lt (h.run _ r hr).2.1)]
    exact h.fresh q hq hfresh r hr

theorem launch_joined (h : Inv s) (hfree : (s.promises p).run = none) {q : Nat} (hq : q < s.nextRequest)
    (hfresh : (s.requests q).fresh = false) : (s.launch p promise).joined (s.requests q) := by
  refine State.joined_of_run (fun r hr => ?_) (h.ordinary q hq hfresh)
  have hne : (s.requests q).promise ≠ p := by
    intro heq
    rw [heq, hfree] at hr
    cases hr
  rw [State.launch_of_ne s promise hne, hr]

/-- The launch of a queued run: the promise before it is settled, and so it is the current one of its key. -/
theorem launch (h : Inv s) (hp : p < s.nextPromise) (hfree : (s.promises p).run = none) {c : Nat}
    (hprevious : (s.promises p).previous = some c) (hc : (s.promises c).tracked = false) :
    Inv (s.launch p (s.promises p)) := by
  have hpending : (s.promises p).state = none := by
    rw [Option.eq_none_iff_forall_ne_some]
    intro settled hsettled
    obtain ⟨r, hr, -⟩ := h.state p settled hsettled
    rw [hfree] at hr
    cases hr
  -- all of a promise but its run
  have hkeep : ∀ p', ((s.launch p (s.promises p)).promises p').key = (s.promises p').key ∧
      ((s.launch p (s.promises p)).promises p').previous = (s.promises p').previous ∧
      ((s.launch p (s.promises p)).promises p').state = (s.promises p').state ∧
      ((s.launch p (s.promises p)).promises p').tracked = (s.promises p').tracked := by
    intro p'
    by_cases heq : p' = p
    · subst heq
      rw [State.launch_self]
      exact ⟨rfl, rfl, rfl, rfl⟩
    · rw [State.launch_of_ne s _ heq]
      exact ⟨rfl, rfl, rfl, rfl⟩
  have hnone : ∀ p', ((s.launch p (s.promises p)).promises p').run = none → p' ≠ p := by
    rintro p' hr rfl
    rw [State.launch_self] at hr
    cases hr
  exact {
    run := fun p' r hr => by
      obtain ⟨hlt, hr, hkey⟩ := h.launch_run hr
      exact ⟨hlt.elim (fun heq => heq ▸ hp) id, hr, hkey⟩
    unique := fun p' p'' r => h.launch_unique
    owner := fun r => h.launch_owner hfree
    state := fun p' settled => h.launch_state hpending
    untracked := fun p' hp' ht => by
      rw [(hkeep p').2.2.2] at ht
      rw [(hkeep p').2.2.1]
      exact h.untracked p' hp' ht
    queued := fun p' hp' hr => by
      have hne := hnone p' hr
      rw [State.launch_of_ne s _ hne] at hr ⊢
      obtain ⟨c', hc', hpc, hct⟩ := h.queued p' hp' hr
      exact ⟨c', hc', hpc, fun ht => hct ((hkeep c').2.2.2.symm.trans ht)⟩
    entry := fun p' hp' ht => by
      rw [(hkeep p').2.2.2] at ht
      rw [(hkeep p').1]
      exact h.entry p' hp' ht
    current := fun key entry hentry => by
      rw [(hkeep entry.current).1, (hkeep entry.current).2.2.2]
      exact h.current key entry hentry
    next := fun key entry n hentry hn => by
      obtain ⟨hlt, hkey, ht, hnone, hprev⟩ := h.next key entry n hentry hn
      have hne : n ≠ p := by
        rintro rfl
        rw [hprevious] at hprev
        obtain ⟨-, -, htracked⟩ := h.current key entry hentry
        rw [← Option.some.inj hprev, hc] at htracked
        cases htracked
      rw [State.launch_of_ne s _ hne]
      exact ⟨hlt, hkey, ht, hnone, hprev⟩
    delivered := fun q settled hq => by
      obtain ⟨-, -, hst, ht⟩ := hkeep (s.requests q).promise
      exact ⟨hst.trans (h.delivered q settled hq).1, ht.trans (h.delivered q settled hq).2⟩
    request := fun q hq => by
      obtain ⟨hlt, hkey, hruns, hseq⟩ := h.request q hq
      exact ⟨hlt, (hkeep _).1.trans hkey, Nat.le_succ_of_le hruns, Nat.le_succ_of_le hseq⟩
    fresh := fun q hq hfresh r => h.launch_fresh hq hfresh
    ordinary := fun q => h.launch_joined hfree }

/-! ### The promises of a request -/

/-- The places that are not in use. -/
theorem unused (h : Inv s) : (s.promises s.nextPromise).run = none := by
  rw [Option.eq_none_iff_forall_ne_some]
  exact fun r hr => absurd (h.run _ r hr).1 (Nat.lt_irrefl _)

theorem lt_of_state (h : Inv s) {settled : Settled V E} (hp : (s.promises p).state = some settled) :
    p < s.nextPromise := by
  obtain ⟨r, hr, -⟩ := h.state p settled hp
  exact (h.run p r hr).1

section Requests

variable [DecidableEq κ] {key : κ}

theorem readFirst (h : Inv s) (hentry : s.entries key = none) : Inv (s.readFirst key) := by
  let promise : Promise κ V E := ⟨key, none, none, none, true⟩
  have hself : (s.readFirst key).promises s.nextPromise = { promise with run := some s.nextRun } := s.launch_self _
  have hother : ∀ p < s.nextPromise, (s.readFirst key).promises p = s.promises p :=
    fun p hp => s.launch_of_ne _ (Nat.ne_of_lt hp)
  have hslot : (s.readFirst key).entries key = some ⟨s.nextPromise, none⟩ := Function.update_self ..
  have hslots : ∀ key' ≠ key, (s.readFirst key).entries key' = s.entries key' := fun key' hne => Function.update_of_ne hne ..
  exact {
    run := fun p r hr => by
      obtain ⟨hlt, hr, hkey⟩ := h.launch_run hr
      exact ⟨hlt.elim (fun heq => heq ▸ Nat.lt_succ_self _) Nat.lt_succ_of_lt, hr, hkey⟩
    unique := fun p p' r => h.launch_unique
    owner := fun r => h.launch_owner h.unused
    state := fun p settled => h.launch_state rfl
    untracked := fun p hp ht => by
      rcases Nat.lt_succ_iff_lt_or_eq.1 hp with hlt | rfl
      · rw [hother p hlt] at ht ⊢
        exact h.untracked p hlt ht
      · rw [hself] at ht
        cases ht
    queued := fun p hp hr => by
      rcases Nat.lt_succ_iff_lt_or_eq.1 hp with hlt | rfl
      · rw [hother p hlt] at hr ⊢
        obtain ⟨c, hc, hpc, hct⟩ := h.queued p hlt hr
        refine ⟨c, hc, hpc, fun ht => ?_⟩
        rw [hother c (Nat.lt_trans hc hlt)] at ht
        have hold := hct ht
        rw [hslots _ fun heq => by rw [heq, hentry] at hold; cases hold]
        exact hold
      · rw [hself] at hr
        cases hr
    entry := fun p hp ht => by
      rcases Nat.lt_succ_iff_lt_or_eq.1 hp with hlt | rfl
      · rw [hother p hlt] at ht ⊢
        obtain ⟨entry, hold, hin⟩ := h.entry p hlt ht
        refine ⟨entry, ?_, hin⟩
        rw [hslots _ fun heq => by rw [heq, hentry] at hold; cases hold]
        exact hold
      · rw [hself]
        exact ⟨_, hslot, .inl rfl⟩
    current := fun key' entry hentry' => by
      by_cases heq : key' = key
      · subst heq
        obtain rfl := Option.some.inj (hslot.symm.trans hentry')
        rw [hself]
        exact ⟨Nat.lt_succ_self _, rfl, rfl⟩
      · obtain ⟨hlt, hkey, ht⟩ := h.current key' entry ((hslots _ heq).symm.trans hentry')
        rw [hother _ hlt]
        exact ⟨Nat.lt_succ_of_lt hlt, hkey, ht⟩
    next := fun key' entry n hentry' hn => by
      by_cases heq : key' = key
      · subst heq
        obtain rfl := Option.some.inj (hslot.symm.trans hentry')
        cases hn
      · obtain ⟨hlt, hnext⟩ := h.next key' entry n ((hslots _ heq).symm.trans hentry') hn
        rw [hother _ hlt]
        exact ⟨Nat.lt_succ_of_lt hlt, hnext⟩
    delivered := fun q settled hq => by
      obtain ⟨hst, ht⟩ := h.delivered q settled hq
      have hpromise : (s.readFirst key).promises (s.requests q).promise = s.promises (s.requests q).promise :=
        hother _ (h.lt_of_state hst)
      exact ⟨(congrArg Promise.state hpromise).trans hst, (congrArg Promise.tracked hpromise).trans ht⟩
    request := fun q hq => by
      obtain ⟨hlt, hkey, hruns, hseq⟩ := h.request q hq
      exact ⟨Nat.lt_succ_of_lt hlt, (congrArg Promise.key (hother _ hlt)).trans hkey, Nat.le_succ_of_le hruns,
        Nat.le_succ_of_le hseq⟩
    fresh := fun q hq hfresh r => h.launch_fresh hq hfresh
    ordinary := fun q hq => h.launch_joined h.unused hq }

theorem queueRead (h : Inv s) {c : Nat} (hentry : s.entries key = some ⟨c, none⟩) : Inv (s.queueRead key c) := by
  have hself : (s.queueRead key c).promises s.nextPromise = ⟨key, some c, none, none, true⟩ := s.setPromise_self _
  have hother : ∀ p, p ≠ s.nextPromise → (s.queueRead key c).promises p = s.promises p :=
    fun p hne => s.setPromise_of_ne hne _
  have hslot : (s.queueRead key c).entries key = some ⟨c, some s.nextPromise⟩ := Function.update_self ..
  have hslots : ∀ key' ≠ key, (s.queueRead key c).entries key' = s.entries key' := fun key' hne => Function.update_of_ne hne ..
  obtain ⟨hc, hckey, hct⟩ := h.current key _ hentry
  -- the runs are those of the promises in use
  have hrun : ∀ p r, ((s.queueRead key c).promises p).run = some r → (s.promises p).run = some r := by
    intro p r hr
    by_cases heq : p = s.nextPromise
    · rw [heq, hself] at hr
      cases hr
    · rwa [hother p heq] at hr
  have hrun' : ∀ p r, (s.promises p).run = some r → ((s.queueRead key c).promises p).run = some r := by
    intro p r hr
    rw [hother p (Nat.ne_of_lt (h.run p r hr).1), hr]
  exact {
    run := fun p r hr => by
      obtain ⟨hlt, hnext, hkey⟩ := h.run p r (hrun p r hr)
      rw [hother p (Nat.ne_of_lt hlt)]
      exact ⟨Nat.lt_succ_of_lt hlt, hnext, hkey⟩
    unique := fun p p' r hr hr' => h.unique p p' r (hrun p r hr) (hrun p' r hr')
    owner := fun r hr => by
      obtain ⟨p, hp⟩ := h.owner r hr
      exact ⟨p, hrun' p r hp⟩
    state := fun p settled hp => by
      by_cases heq : p = s.nextPromise
      · rw [heq, hself] at hp
        cases hp
      · rw [hother p heq] at hp ⊢
        exact h.state p settled hp
    untracked := fun p hp ht => by
      rcases Nat.lt_succ_iff_lt_or_eq.1 hp with hlt | rfl
      · rw [hother p (Nat.ne_of_lt hlt)] at ht ⊢
        exact h.untracked p hlt ht
      · rw [hself] at ht
        cases ht
    queued := fun p hp hr => by
      rcases Nat.lt_succ_iff_lt_or_eq.1 hp with hlt | rfl
      · rw [hother p (Nat.ne_of_lt hlt)] at hr ⊢
        obtain ⟨c', hc', hpc, hct'⟩ := h.queued p hlt hr
        refine ⟨c', hc', hpc, fun ht => ?_⟩
        rw [hother c' (Nat.ne_of_lt (Nat.lt_trans hc' hlt))] at ht
        have hold := hct' ht
        -- the key had no next promise
        rw [hslots _ fun heq => by rw [heq, hentry] at hold; cases hold]
        exact hold
      · rw [hself]
        exact ⟨c, hc, rfl, fun _ => hslot⟩
    entry := fun p hp ht => by
      rcases Nat.lt_succ_iff_lt_or_eq.1 hp with hlt | rfl
      · rw [hother p (Nat.ne_of_lt hlt)] at ht ⊢
        obtain ⟨entry, hold, hin⟩ := h.entry p hlt ht
        by_cases heq : (s.promises p).key = key
        · rw [heq, hentry] at hold
          obtain rfl := Option.some.inj hold
          rw [heq]
          exact ⟨_, hslot, .inl (hin.resolve_right nofun)⟩
        · exact ⟨entry, (hslots _ heq).trans hold, hin⟩
      · rw [hself]
        exact ⟨_, hslot, .inr rfl⟩
    current := fun key' entry hentry' => by
      by_cases heq : key' = key
      · subst heq
        obtain rfl := Option.some.inj (hslot.symm.trans hentry')
        rw [hother c (Nat.ne_of_lt hc)]
        exact ⟨Nat.lt_succ_of_lt hc, hckey, hct⟩
      · obtain ⟨hlt, hkey, ht⟩ := h.current key' entry ((hslots _ heq).symm.trans hentry')
        rw [hother _ (Nat.ne_of_lt hlt)]
        exact ⟨Nat.lt_succ_of_lt hlt, hkey, ht⟩
    next := fun key' entry n hentry' hn => by
      by_cases heq : key' = key
      · subst heq
        obtain rfl := Option.some.inj (hslot.symm.trans hentry')
        obtain rfl := Option.some.inj hn
        rw [hself]
        exact ⟨Nat.lt_succ_self _, rfl, rfl, rfl, rfl⟩
      · obtain ⟨hlt, hnext⟩ := h.next key' entry n ((hslots _ heq).symm.trans hentry') hn
        rw [hother _ (Nat.ne_of_lt hlt)]
        exact ⟨Nat.lt_succ_of_lt hlt, hnext⟩
    delivered := fun q settled hq => by
      obtain ⟨hst, ht⟩ := h.delivered q settled hq
      have hpromise : (s.queueRead key c).promises (s.requests q).promise = s.promises (s.requests q).promise :=
        hother _ (Nat.ne_of_lt (h.lt_of_state hst))
      exact ⟨(congrArg Promise.state hpromise).trans hst, (congrArg Promise.tracked hpromise).trans ht⟩
    request := fun q hq => by
      obtain ⟨hlt, hkey, hruns, hseq⟩ := h.request q hq
      exact ⟨Nat.lt_succ_of_lt hlt, (congrArg Promise.key (hother _ (Nat.ne_of_lt hlt))).trans hkey, hruns, hseq⟩
    fresh := fun q hq hfresh r hr => h.fresh q hq hfresh r (hrun _ r hr)
    ordinary := fun q hq hfresh => State.joined_of_run (hrun' _) (h.ordinary q hq hfresh) }

omit [DecidableEq κ] in
theorem give (h : Inv s) {request : Request κ V E} (hp : request.promise < s.nextPromise)
    (hkey : (s.promises request.promise).key = request.key) (hresult : request.result = none)
    (hruns : request.runsBefore ≤ s.nextRun) (hseq : request.seqBefore ≤ s.lastSeq)
    (hfresh : request.fresh = true → ∀ r, (s.promises request.promise).run = some r →
      request.runsBefore ≤ r ∧ request.seqBefore < (s.runs r).seq)
    (hordinary : request.fresh = false → s.joined request) : Inv (s.give request) := by
  have hself : (s.give request).requests s.nextRequest = request := Function.update_self ..
  have hother : ∀ q < s.nextRequest, (s.give request).requests q = s.requests q :=
    fun q hq => Function.update_of_ne (Nat.ne_of_lt hq) ..
  exact { h with
    delivered := fun q settled hq => by
      by_cases heq : q = s.nextRequest
      · rw [heq, hself, hresult] at hq
        cases hq
      · have hq' : (s.give request).requests q = s.requests q := Function.update_of_ne heq ..
        rw [hq'] at hq ⊢
        exact h.delivered q settled hq
    request := fun q hq => by
      rcases Nat.lt_succ_iff_lt_or_eq.1 hq with hlt | rfl
      · rw [hother q hlt]
        exact h.request q hlt
      · rw [hself]
        exact ⟨hp, hkey, hruns, hseq⟩
    fresh := fun q hq => by
      rcases Nat.lt_succ_iff_lt_or_eq.1 hq with hlt | rfl
      · rw [hother q hlt]
        exact h.fresh q hlt
      · rw [hself]
        exact hfresh
    ordinary := fun q hq => by
      rcases Nat.lt_succ_iff_lt_or_eq.1 hq with hlt | rfl
      · rw [hother q hlt]
        exact h.ordinary q hlt
      · rw [hself]
        exact hordinary }

end Requests

end Inv

/-! ### The invariant holds in every run -/

section Steps

variable [DecidableEq κ] {a : Act κ V E}

theorem Inv.requested (h : Inv s) (key : κ) (fresh : Bool) : Inv (s.request key fresh) := by
  unfold State.request
  simp only
  split
  · rename_i hentry
    have hself : (s.readFirst key).promises s.nextPromise = ⟨key, none, some s.nextRun, none, true⟩ := s.launch_self _
    have hrun : (s.readFirst key).runs s.nextRun = ⟨key, s.lastSeq + 1, false, none⟩ := Function.update_self ..
    refine (h.readFirst hentry).give (Nat.lt_succ_self _) (congrArg Promise.key hself) rfl (Nat.le_succ _) (Nat.le_succ _)
      (fun _ r hr => ?_) fun _ => ?_
    · obtain rfl := Option.some.inj ((congrArg Promise.run hself).symm.trans hr)
      exact ⟨Nat.le_refl _, by rw [hrun]; exact Nat.lt_succ_self _⟩
    · unfold State.joined
      rw [hentry]
      exact congrArg Promise.run hself
  · rename_i entry hentry
    obtain ⟨hcurrent, hkey, -⟩ := h.current key entry hentry
    cases fresh with
    | false =>
      refine h.give hcurrent hkey rfl (Nat.le_refl _) (Nat.le_refl _) nofun fun _ => ?_
      unfold State.joined
      rw [hentry]
      rfl
    | true =>
      simp only [if_true]
      split
      · -- the queued promise has no run yet
        rename_i n hn
        obtain ⟨hlt, hkey, -, hnone, -⟩ := h.next key entry n hentry hn
        refine h.give hlt hkey rfl (Nat.le_refl _) (Nat.le_refl _) (fun _ r hr => ?_) nofun
        rw [hnone] at hr
        cases hr
      · rename_i hn
        have hself : (s.queueRead key entry.current).promises s.nextPromise = ⟨key, some entry.current, none, none, true⟩ :=
          s.setPromise_self _
        obtain ⟨c, next⟩ := entry
        obtain rfl : next = none := hn
        refine (h.queueRead hentry).give (Nat.lt_succ_self _) (congrArg Promise.key hself) rfl (Nat.le_refl _)
          (Nat.le_refl _) (fun _ r hr => ?_) nofun
        cases (congrArg Promise.run hself).symm.trans hr

/-- A step is a request, a reaction of `track`, a launch, or leaves the promises in their places. -/
theorem step_cases (h : Inv s) (hstep : step s a = some s') :
    (∃ key fresh, s' = s.request key fresh) ∨
    (∃ p, (s.promises p).state ≠ none ∧ (s.promises p).tracked = true ∧ s' = s.settle p) ∨
    (∃ p c, p < s.nextPromise ∧ (s.promises p).run = none ∧ (s.promises p).previous = some c ∧
      (s.promises c).tracked = false ∧ s' = s.launch p (s.promises p)) ∨ Advances s s' := by
  cases a with
  | nextSeq =>
    obtain rfl := Option.some.inj hstep
    exact .inr (.inr (.inr (.nextSeq s)))
  | request key fresh => exact .inl ⟨key, fresh, (Option.some.inj hstep).symm⟩
  | call r =>
    obtain ⟨-, hstep⟩ := Option.ite_none_right_eq_some.1 hstep
    obtain rfl := Option.some.inj hstep
    exact .inr (.inr (.inr (.setRun s r { s.runs r with called := true } rfl rfl fun _ => rfl)))
  | finish r outcome =>
    obtain ⟨⟨-, hnone⟩, hstep⟩ := Option.ite_none_right_eq_some.1 hstep
    obtain rfl := Option.some.inj hstep
    have hsettled := Launched.settled_eq_none (Option.isNone_iff_eq_none.1 hnone)
    exact .inr (.inr (.inr (.setRun s r { s.runs r with outcome := some outcome } rfl rfl fun hne => absurd hsettled hne)))
  | resolve p =>
    simp only [SharedReads.step] at hstep
    split at hstep
    · rename_i settled hstate hsettled
      obtain rfl := Option.some.inj hstep
      exact .inr (.inr (.inr (.resolve h hstate hsettled)))
    · cases hstep
  | settle p =>
    simp only [SharedReads.step] at hstep
    split at hstep
    · rename_i result hstate
      obtain ⟨htracked, hstep⟩ := Option.ite_none_right_eq_some.1 hstep
      exact .inr (.inl ⟨p, by rw [hstate]; exact nofun, htracked, (Option.some.inj hstep).symm⟩)
    · cases hstep
  | launch p =>
    simp only [SharedReads.step] at hstep
    split at hstep
    · rename_i c hrun hprevious
      split at hstep
      · obtain ⟨⟨hp, hpassed⟩, hstep⟩ := Option.ite_none_right_eq_some.1 hstep
        have htracked := ((State.passed_iff h).1 hpassed).2
        exact .inr (.inr (.inl ⟨p, c, hp, hrun, hprevious, htracked, (Option.some.inj hstep).symm⟩))
      · cases hstep
    · cases hstep
  | deliver q =>
    obtain ⟨⟨-, -, hpassed⟩, hstep⟩ := Option.ite_none_right_eq_some.1 hstep
    obtain rfl := Option.some.inj hstep
    exact .inr (.inr (.inr (.deliver h hpassed)))

theorem inv_step (h : Inv s) (hstep : step s a = some s') : Inv s' := by
  rcases step_cases h hstep with ⟨key, fresh, rfl⟩ | ⟨p, hstate, htracked, rfl⟩ | ⟨p, c, hp, hrun, hprevious, hc, rfl⟩ | hs
  · exact h.requested key fresh
  · exact h.settle hstate htracked
  · exact h.launch hp hrun hprevious hc
  · exact hs.inv h

/-! ### Every promise is some request's -/

def Requested (s : State κ V E) : Prop := ∀ p < s.nextPromise, ∃ q < s.nextRequest, (s.requests q).promise = p

omit [DecidableEq κ] in
theorem Requested.give {request : Request κ V E}
    (h : ∀ p < s.nextPromise, p = request.promise ∨ ∃ q < s.nextRequest, (s.requests q).promise = p) :
    Requested (s.give request) := by
  intro p hp
  rcases h p hp with rfl | ⟨q, hq, hqp⟩
  · exact ⟨s.nextRequest, Nat.lt_succ_self _, congrArg Request.promise (Function.update_self ..)⟩
  · exact ⟨q, Nat.lt_succ_of_lt hq, (congrArg Request.promise (Function.update_of_ne (Nat.ne_of_lt hq) ..)).trans hqp⟩

omit [DecidableEq κ] in
theorem Requested.of_advances (h : Requested s) (hs : Advances s s') : Requested s' := by
  intro p hp
  obtain ⟨q, hq, hqp⟩ := h p (hs.nextPromise ▸ hp)
  exact ⟨q, hs.nextRequest ▸ hq, (hs.promise q).trans hqp⟩

theorem Requested.settle (h : Requested s) (p : Nat) : Requested (s.settle p) := by
  unfold State.settle
  simp only
  split
  · exact h
  · split
    · exact h
    · exact h

theorem Requested.requested (h : Requested s) (key : κ) (fresh : Bool) : Requested (s.request key fresh) := by
  have hold : ∀ p < s.nextPromise, ∀ promise, p = promise ∨ ∃ q < s.nextRequest, (s.requests q).promise = p :=
    fun p hp _ => .inr (h p hp)
  have hnew : ∀ p < s.nextPromise + 1, p = s.nextPromise ∨ ∃ q < s.nextRequest, (s.requests q).promise = p := by
    intro p hp
    rcases Nat.lt_succ_iff_lt_or_eq.1 hp with hlt | heq
    · exact hold p hlt _
    · exact .inl heq
  unfold State.request
  simp only
  split
  · exact .give hnew
  · split
    · split
      · exact .give fun p hp => hold p hp _
      · exact .give hnew
    · exact .give fun p hp => hold p hp _

theorem requested_step (hreq : Requested s) (h : Inv s) (hstep : step s a = some s') : Requested s' := by
  rcases step_cases h hstep with ⟨key, fresh, rfl⟩ | ⟨p, -, -, rfl⟩ | ⟨p, c, -, -, -, -, rfl⟩ | hs
  · exact hreq.requested key fresh
  · exact hreq.settle p
  · exact hreq
  · exact hreq.of_advances hs

end Steps

end CubridWebManager.SharedReads
