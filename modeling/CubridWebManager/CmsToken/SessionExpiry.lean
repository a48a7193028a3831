import CubridWebManager.CmsToken.Activity

/-!
# The expiry of a session, with and without sweeps

A record that is swept must not make a session look alive for longer than it would with the record: the API server
falls back to the login time, which is earlier than what the record says.

The record of a close says one thing more, which requests were issued before it.  Once it is swept, an answer to such a
request counts, and the session that was closed looks alive (`session_expiry_not_overstated_fails`).  Without such an
answer no expiry is overstated (`session_expiry_not_overstated`).
-/

namespace CubridWebManager.CmsToken

open Transition

/-- The record of the token; without one, nothing has happened to it. -/
def Activity.record (activity : Activity) (token : String) : TokenActivity :=
  (activity token).getD { touchedAt := 0 }

def NotOverstated (s : Both) : Prop :=
  ∀ host, ∀ expiry ∈ cmsSessionExpiresAt s.state.activity host,
    ∃ unswept ∈ cmsSessionExpiresAt s.unswept host, expiry ≤ unswept

/-- Where CMS accepts a request that was issued before the token's last close, the record of that close has not been
swept, or else a request that was issued after it has been accepted at the very same time. -/
def CloseKept (s : Both) : Act → Prop
  | .noteCmsTokenUse token false startedAt at_ => ∀ t ∈ present token,
      (s.unswept.record t).rejected = false → (s.unswept.record t).reopens startedAt = false →
        (s.state.activity.record t).closedAt = (s.unswept.record t).closedAt ∨ at_ ≤ (s.unswept.record t).acceptedAt
  | _ => True

/-! ### One record -/

variable {now at_ startedAt : Nat} {rejected : Bool} {entry unswept : TokenActivity}

/-- A record as it is, and as it would be without sweeps. -/
structure Fits (now : Nat) (entry unswept : TokenActivity) : Prop where
  rejected : entry.rejected = unswept.rejected
  closedAt : entry.closedAt = none ∨ entry.closedAt = unswept.closedAt
  past : unswept.acceptedAt ≤ now

/-- Of a token that was rejected, no record gives an expiry. -/
def Earlier (entry unswept : TokenActivity) : Prop :=
  unswept.rejected = true ∨ entry.acceptedAt ≤ unswept.acceptedAt

theorem Fits.mono (h : Fits now entry unswept) (hle : now ≤ at_) : Fits at_ entry unswept :=
  ⟨h.rejected, h.closedAt, Nat.le_trans h.past hle⟩

theorem Fits.note (h : Fits now entry unswept) (hle : now ≤ at_) :
    Fits at_ (entry.note rejected startedAt at_) (unswept.note rejected startedAt at_) := by
  have hpast := Nat.le_trans h.past hle
  have hrejected := h.rejected
  unfold TokenActivity.note
  cases rejected with
  | true => exact ⟨rfl, h.closedAt, hpast⟩
  | false =>
    simp only [Bool.false_eq_true, if_false]
    refine ⟨?_, ?_, ?_⟩
    · split <;> split <;> exact hrejected
    · split <;> split <;> exact h.closedAt
    · split
      · exact Nat.le_refl at_
      · exact hpast

theorem Fits.close (h : Fits now entry unswept) : Fits at_ (entry.close at_) (unswept.close at_) :=
  ⟨h.rejected, .inr rfl, Nat.zero_le _⟩

theorem note_of_reopens (hrejected : entry.rejected = false) (hreopens : entry.reopens startedAt = true) :
    entry.note false startedAt at_ = { entry with touchedAt := at_, acceptedAt := at_ } := by
  have hcond : (!entry.rejected && ({ entry with touchedAt := at_ } : TokenActivity).reopens startedAt) = true := by
    rw [hrejected]
    exact hreopens
  simp only [TokenActivity.note, Bool.false_eq_true, if_false, hcond, if_true]

theorem note_of_not_reopens (hreopens : entry.reopens startedAt = false) :
    entry.note false startedAt at_ = { entry with touchedAt := at_ } := by
  have hreopens' : ({ entry with touchedAt := at_ } : TokenActivity).reopens startedAt = false := hreopens
  simp [TokenActivity.note, hreopens']

theorem earlier_close : Earlier (entry.close at_) (unswept.close at_) := .inr (Nat.le_refl 0)

theorem earlier_note_rejected : Earlier (entry.note true startedAt at_) (unswept.note true startedAt at_) := .inl rfl

/-- A request that CMS accepts is the one case where the records can part. -/
theorem earlier_note_iff (h : Fits now entry unswept) (hearlier : Earlier entry unswept) (startedAt at_ : Nat) :
    Earlier (entry.note false startedAt at_) (unswept.note false startedAt at_) ↔
      (unswept.rejected = false → unswept.reopens startedAt = false →
        entry.closedAt = unswept.closedAt ∨ at_ ≤ unswept.acceptedAt) := by
  cases hrejected : unswept.rejected with
  | true =>
    have hnote : (unswept.note false startedAt at_).rejected = true := by simp [TokenActivity.note, hrejected]
    exact iff_of_true (.inl hnote) nofun
  | false =>
    have hentry : entry.rejected = false := h.rejected.trans hrejected
    have hle : entry.acceptedAt ≤ unswept.acceptedAt := hearlier.resolve_left (by simp [hrejected])
    cases hreopens : unswept.reopens startedAt with
    | true =>
      -- Whatever is left of the close, it lets the answer count too.
      have hreopens' : entry.reopens startedAt = true := by
        rcases h.closedAt with hnone | hsame
        · simp [TokenActivity.reopens, hnone]
        · rwa [TokenActivity.reopens, hsame]
      rw [note_of_reopens hentry hreopens', note_of_reopens hrejected hreopens]
      exact iff_of_true (.inr (Nat.le_refl at_)) nofun
    | false =>
      rw [note_of_not_reopens hreopens]
      rcases h.closedAt with hnone | hsame
      · have hreopens' : entry.reopens startedAt = true := by simp [TokenActivity.reopens, hnone]
        have hclosed : entry.closedAt ≠ unswept.closedAt := by
          intro heq
          rw [TokenActivity.reopens, ← heq, hnone] at hreopens
          cases hreopens
        rw [note_of_reopens hentry hreopens']
        simp [Earlier, hrejected, hclosed]
      · have hreopens' : entry.reopens startedAt = false := by rwa [TokenActivity.reopens, hsame]
        rw [note_of_not_reopens hreopens']
        simp [Earlier, hrejected, hsame, hle]

/-- A sweep leaves a record or takes it away, and a rejected one it leaves. -/
def Swept (entry entry' : TokenActivity) : Prop := entry' = entry ∨ entry' = { touchedAt := 0 } ∧ entry.rejected = false

theorem Fits.swept {entry' : TokenActivity} (h : Fits now entry unswept) (hswept : Swept entry entry') :
    Fits now entry' unswept := by
  rcases hswept with rfl | ⟨rfl, hrejected⟩
  · exact h
  · exact ⟨hrejected.symm.trans h.rejected, .inl rfl, h.past⟩

theorem Earlier.swept {entry' : TokenActivity} (h : Earlier entry unswept) (hswept : Swept entry entry') :
    Earlier entry' unswept := by
  rcases hswept with rfl | ⟨rfl, -⟩
  · exact h
  · exact .inr (Nat.zero_le _)

/-! ### The records of all tokens -/

namespace Activity

variable {activity : Activity} {token t : String}

theorem record_update_self (e : TokenActivity) : record (Function.update activity token (some e)) token = e := by
  rw [record, Function.update_self, Option.getD_some]

theorem record_update_of_ne (h : t ≠ token) (e : Option TokenActivity) :
    record (Function.update activity token e) t = activity.record t := by
  rw [record, Function.update_of_ne h, record]

theorem entry_note (rejected : Bool) (startedAt at_ : Nat) :
    (activity.entry token at_).note rejected startedAt at_ = (activity.record token).note rejected startedAt at_ := by
  rw [entry, record]
  cases activity token <;> rfl

theorem entry_close (at_ : Nat) : (activity.entry token at_).close at_ = (activity.record token).close at_ := by
  rw [entry, record]
  cases activity token <;> rfl

theorem swept_sweep (now : Nat) (token : String) :
    Swept (activity.record token) ((activity.sweep now).record token) := by
  unfold record sweep
  cases hentry : activity token with
  | none => exact .inl rfl
  | some entry =>
    cases hrejected : entry.rejected with
    | true => exact .inl (by simp [Option.filter, hrejected])
    | false =>
      by_cases hkeep : now - entry.touchedAt ≤ cmsTokenActivityRetentionMs
      · exact .inl (by simp [Option.filter, hkeep])
      · exact .inr ⟨by simp [Option.filter, hrejected, hkeep], by simpa using hrejected⟩

/-- What was noted just now is not swept. -/
theorem record_sweep_update (now : Nat) {e : TokenActivity} (h : e.touchedAt = now) :
    record (sweep (Function.update activity token (some e)) now) token = e := by
  simp [record, sweep, Option.filter, h]

end Activity

/-! ### The expiry -/

theorem expiresAt_eq (activity : Activity) {host : HostInfo} {t : String} (ht : present host.token = some t) :
    cmsSessionExpiresAt activity host =
      if (activity.record t).rejected then none
      else if max (activity.record t).acceptedAt (host.cmsTokenIssuedAt.getD 0) = 0 then none
      else some (max (activity.record t).acceptedAt (host.cmsTokenIssuedAt.getD 0) +
        host.cmsTokenActiveTimeSec.getD cmsDefaultTokenActiveTimeSec * 1000) := by
  have hrejected : ∀ entry : Option TokenActivity,
      entry.any TokenActivity.rejected = (entry.getD { touchedAt := 0 }).rejected := by
    rintro (_ | entry) <;> rfl
  have haccepted : ∀ entry : Option TokenActivity,
      (entry.map TokenActivity.acceptedAt).getD 0 = (entry.getD { touchedAt := 0 }).acceptedAt := by
    rintro (_ | entry) <;> rfl
  simp only [cmsSessionExpiresAt, ht, Activity.record, hrejected, haccepted]
  rfl

theorem ne_empty_of_present {token : Option String} {t : String} (h : present token = some t) : t ≠ "" :=
  of_decide_eq_true (Option.mem_filter_iff.1 h).2

theorem present_some {t : String} (h : t ≠ "") : present (some t) = some t :=
  Option.filter_some_pos (decide_eq_true h)

structure WellFormed (s : Both) : Prop where
  fits : ∀ t, Fits s.now (s.state.activity.record t) (s.unswept.record t)

def AllEarlier (s : Both) : Prop := ∀ t ≠ "", Earlier (s.state.activity.record t) (s.unswept.record t)

variable {s s' : Both} {a : Act}

theorem notOverstated_iff (h : WellFormed s) : NotOverstated s ↔ AllEarlier s := by
  constructor
  · intro hall t ht
    by_contra hlate
    obtain ⟨hrejected, hlt⟩ : (s.unswept.record t).rejected = false ∧
        (s.unswept.record t).acceptedAt < (s.state.activity.record t).acceptedAt := by
      simpa [Earlier] using hlate
    -- A host that has the token and no login time.
    have hall := hall ⟨some t, none, none⟩
    rw [expiresAt_eq _ (present_some ht), expiresAt_eq _ (present_some ht), (h.fits t).rejected, hrejected] at hall
    simp only [Bool.false_eq_true, if_false, Option.getD_none, Nat.max_zero] at hall
    rw [if_neg (by omega)] at hall
    obtain ⟨unswept, hunswept, hle⟩ := hall _ rfl
    split at hunswept
    · cases hunswept
    · obtain rfl := Option.some.inj hunswept
      omega
  · intro hall host expiry hexpiry
    cases ht : present host.token with
    | none =>
      rw [cmsSessionExpiresAt, ht] at hexpiry
      cases hexpiry
    | some t =>
      rw [expiresAt_eq _ ht] at hexpiry ⊢
      rw [(h.fits t).rejected] at hexpiry
      split at hexpiry
      · cases hexpiry
      rename_i hrejected
      have hle := (hall t (ne_empty_of_present ht)).resolve_left hrejected
      split at hexpiry
      · cases hexpiry
      obtain rfl := Option.some.inj hexpiry
      rw [if_neg hrejected, if_neg (by omega)]
      exact ⟨_, rfl, by omega⟩

/-! ### The steps -/

/-- The two sets of records still fit, and no expiry is overstated still just if no close was lost. -/
structure StepHolds (s : Both) (a : Act) (s' : Both) : Prop where
  wellFormed : WellFormed s'
  earlier_iff : AllEarlier s → (AllEarlier s' ↔ CloseKept s a)

/-- The record that was noted is there after the sweep, and the others may be gone. -/
theorem record_noteCmsTokenUse (s : State) {token : Option String} {t : String} (ht : present token = some t)
    (rejected : Bool) (startedAt at_ : Nat) :
    (s.noteCmsTokenUse token rejected startedAt at_).activity.record t =
        (s.activity.record t).note rejected startedAt at_ ∧
      ∀ t' ≠ t, Swept (s.activity.record t') ((s.noteCmsTokenUse token rejected startedAt at_).activity.record t') := by
  have htouched : ((s.activity.entry t at_).note rejected startedAt at_).touchedAt = at_ := by
    unfold TokenActivity.note
    simp only
    split
    · rfl
    · split <;> rfl
  simp only [State.noteCmsTokenUse, Activity.note, ht, reduceCtorEq, if_false]
  rw [← Activity.entry_note]
  split
  · refine ⟨Activity.record_sweep_update at_ htouched, fun t' hne => ?_⟩
    have hswept := @Activity.swept_sweep
      (Function.update s.activity t (some ((s.activity.entry t at_).note rejected startedAt at_))) at_ t'
    rwa [Activity.record_update_of_ne hne] at hswept
  · exact ⟨Activity.record_update_self _, fun t' hne => .inl (Activity.record_update_of_ne hne _)⟩

theorem noteCmsTokenUse_holds (h : WellFormed s) {token : Option String} (hle : s.now ≤ at_) :
    StepHolds s (.noteCmsTokenUse token rejected startedAt at_)
      ⟨at_, s.state.noteCmsTokenUse token rejected startedAt at_, s.unswept.note token rejected startedAt at_⟩ := by
  cases ht : present token with
  | none =>
    simp only [State.noteCmsTokenUse, Activity.note, ht, if_true]
    refine ⟨⟨fun t => (h.fits t).mono hle⟩, fun hearlier => iff_of_true hearlier ?_⟩
    cases rejected with
    | true => trivial
    | false => exact fun t hmem => by rw [ht] at hmem; cases hmem
  | some t =>
    obtain ⟨hself, hother⟩ := record_noteCmsTokenUse s.state ht rejected startedAt at_
    have hunswept : (s.unswept.note token rejected startedAt at_).record t =
          (s.unswept.record t).note rejected startedAt at_ ∧
        ∀ t' ≠ t, (s.unswept.note token rejected startedAt at_).record t' = s.unswept.record t' := by
      simp only [Activity.note, ht]
      rw [← Activity.entry_note]
      exact ⟨Activity.record_update_self _, fun t' hne => Activity.record_update_of_ne hne _⟩
    refine ⟨⟨fun t' => ?_⟩, fun hearlier => ?_⟩
    · by_cases heq : t' = t
      · subst heq
        rw [hself, hunswept.1]
        exact (h.fits t').note hle
      · rw [hunswept.2 t' heq]
        exact ((h.fits t').mono hle).swept (hother t' heq)
    · have hiff := earlier_note_iff (h.fits t) (hearlier t (ne_empty_of_present ht)) startedAt at_
      have hothers : ∀ t' ≠ "", t' ≠ t → Earlier
          ((s.state.noteCmsTokenUse token rejected startedAt at_).activity.record t')
          ((s.unswept.note token rejected startedAt at_).record t') := by
        intro t' ht' hne
        rw [hunswept.2 t' hne]
        exact (hearlier t' ht').swept (hother t' hne)
      have hall : AllEarlier ⟨at_, s.state.noteCmsTokenUse token rejected startedAt at_,
          s.unswept.note token rejected startedAt at_⟩ ↔
          Earlier ((s.state.activity.record t).note rejected startedAt at_)
            ((s.unswept.record t).note rejected startedAt at_) := by
        rw [← hself, ← hunswept.1]
        refine ⟨fun hall => hall t (ne_empty_of_present ht), fun hnoted t' ht' => ?_⟩
        by_cases heq : t' = t
        · exact heq ▸ hnoted
        · exact hothers t' ht' heq
      cases rejected with
      | true => exact iff_of_true (hall.2 earlier_note_rejected) trivial
      | false =>
        rw [hall, hiff]
        refine ⟨fun hkept t' hmem => ?_, fun hkept => hkept t ht⟩
        obtain rfl : t = t' := Option.some.inj (ht.symm.trans hmem)
        exact hkept

theorem stepHolds_of_step (h : WellFormed s) (hstep : step s a = some s') : StepHolds s a s' := by
  cases a with
  | noteCmsTokenUse token rejected startedAt at_ =>
    simp only [step] at hstep
    split at hstep
    · rename_i htime
      obtain rfl := Option.some.inj hstep
      exact noteCmsTokenUse_holds h htime.1
    · cases hstep
  | closeCmsToken token at_ =>
    simp only [step] at hstep
    split at hstep
    · rename_i hle
      obtain rfl := Option.some.inj hstep
      cases ht : present token with
      | none =>
        simp only [Activity.closeCmsToken, ht]
        exact ⟨⟨fun t => (h.fits t).mono hle⟩, fun hearlier => iff_of_true hearlier trivial⟩
      | some t =>
        simp only [Activity.closeCmsToken, ht, Activity.entry_close]
        refine ⟨⟨fun t' => ?_⟩, fun hearlier => iff_of_true (fun t' ht' => ?_) trivial⟩
        · by_cases heq : t' = t
          · subst heq
            simp only [Activity.record_update_self]
            exact (h.fits t').close
          · simp only [Activity.record_update_of_ne heq]
            exact (h.fits t').mono hle
        · by_cases heq : t' = t
          · subst heq
            simp only [Activity.record_update_self]
            exact earlier_close
          · simp only [Activity.record_update_of_ne heq]
            exact hearlier t' ht'
    · cases hstep
  | forgetCmsToken token =>
    obtain rfl := Option.some.inj hstep
    cases ht : present token with
    | none =>
      simp only [Activity.forgetCmsToken, ht]
      exact ⟨h, fun hearlier => iff_of_true hearlier trivial⟩
    | some t =>
      have hforgotten (activity : Activity) :
          Activity.record (Function.update activity t none) t = { touchedAt := 0 } := by
        rw [Activity.record, Function.update_self, Option.getD_none]
      simp only [Activity.forgetCmsToken, ht]
      refine ⟨⟨fun t' => ?_⟩, fun hearlier => iff_of_true (fun t' ht' => ?_) trivial⟩
      · by_cases heq : t' = t
        · subst heq
          simp only [hforgotten]
          exact ⟨rfl, .inl rfl, Nat.zero_le _⟩
        · simp only [Activity.record_update_of_ne heq]
          exact h.fits t'
      · by_cases heq : t' = t
        · subst heq
          simp only [hforgotten]
          exact .inr (Nat.le_refl _)
        · simp only [Activity.record_update_of_ne heq]
          exact hearlier t' ht'
  | sweep now =>
    simp only [step] at hstep
    split at hstep
    · rename_i hle
      obtain rfl := Option.some.inj hstep
      exact ⟨⟨fun t => ((h.fits t).mono hle).swept (Activity.swept_sweep now t)⟩, fun hearlier =>
        iff_of_true (fun t ht => (hearlier t ht).swept (Activity.swept_sweep now t)) trivial⟩
    · cases hstep

/-! ### The runs -/

theorem wellFormed_start : WellFormed .start := ⟨fun _ => ⟨rfl, .inl rfl, Nat.le_refl 0⟩⟩

theorem session_expiry_not_overstated {as : List Act} (h : Run step Always .start as s) :
    (∀ bs s₁, bs <+: as → Run step Always .start bs s₁ → NotOverstated s₁) ↔ Run step CloseKept .start as s := by
  have hwf : ∀ bs s₁, Run step Always .start bs s₁ → WellFormed s₁ := fun bs s₁ hrun =>
    hrun.invariant (fun _ _ _ hwf _ hstep => (stepHolds_of_step hwf hstep).wellFormed) wellFormed_start
  have hkeeps : ∀ s a s', WellFormed s ∧ AllEarlier s → step s a = some s' →
      (WellFormed s' ∧ AllEarlier s' ↔ CloseKept s a) := by
    intro s a s' hs hstep
    have hholds := stepHolds_of_step hs.1 hstep
    rw [and_iff_right hholds.wellFormed, hholds.earlier_iff hs.2]
  rw [← h.prefixes_iff hkeeps ⟨wellFormed_start, fun _ _ => .inr (Nat.le_refl 0)⟩]
  refine ⟨fun hall bs s₁ hbs hrun => ?_, fun hall bs s₁ hbs hrun => ?_⟩
  · have hwf₁ := hwf bs s₁ hrun
    exact ⟨hwf₁, (notOverstated_iff hwf₁).1 (hall bs s₁ hbs hrun)⟩
  · obtain ⟨hwf₁, hearlier⟩ := hall bs s₁ hbs hrun
    exact (notOverstated_iff hwf₁).2 hearlier

/-- A session that is closed, and whose record is swept a day later. -/
def closedAndSwept : List Act :=
  [.noteCmsTokenUse (some "token") false 1000 1100, .closeCmsToken (some "token") 2000,
    .sweep (2001 + cmsTokenActivityRetentionMs)]

instance : ∀ (s : Both) (a : Act), Decidable (CloseKept s a)
  | _, .noteCmsTokenUse _ false _ _ => by unfold CloseKept; infer_instance
  | _, .noteCmsTokenUse _ true _ _ | _, .closeCmsToken .. | _, .forgetCmsToken _ | _, .sweep _ => isTrue trivial

/-- After the sweep, a request that is issued after the close is accepted. -/
theorem session_expiry_not_overstated_late : ∃ s, Run step CloseKept .start
    (closedAndSwept ++ [.noteCmsTokenUse (some "token") false 90000000 90000100]) s ∧ NotOverstated s := by
  obtain ⟨s, hrun, -⟩ : ∃ s, Run step CloseKept .start
      (closedAndSwept ++ [.noteCmsTokenUse (some "token") false 90000000 90000100]) s ∧ s.now = 90000100 :=
    exists_run (by decide)
  have halways : Run step Always .start _ s := hrun.mono fun _ _ _ => trivial
  exact ⟨s, hrun, (session_expiry_not_overstated halways).2 hrun _ s List.prefix_rfl halways⟩

/-- After the sweep, the answer comes to a request that was issued before the close: the session is said to last, where
without the sweep it is closed. -/
theorem session_expiry_not_overstated_fails : ∃ s, Run step Always .start
    (closedAndSwept ++ [.noteCmsTokenUse (some "token") false 1500 90000100]) s ∧
    cmsSessionExpiresAt s.state.activity ⟨some "token", none, none⟩ = some 97200100 ∧
    cmsSessionExpiresAt s.unswept ⟨some "token", none, none⟩ = none ∧ ¬ NotOverstated s := by
  obtain ⟨s, hrun, hexpiry, hunswept⟩ : ∃ s, Run step Always .start
      (closedAndSwept ++ [.noteCmsTokenUse (some "token") false 1500 90000100]) s ∧
      cmsSessionExpiresAt s.state.activity ⟨some "token", none, none⟩ = some 97200100 ∧
      cmsSessionExpiresAt s.unswept ⟨some "token", none, none⟩ = none := exists_run (by decide)
  refine ⟨s, hrun, hexpiry, hunswept, fun h => ?_⟩
  obtain ⟨_, hmem, -⟩ := h ⟨some "token", none, none⟩ _ hexpiry
  rw [hunswept] at hmem
  cases hmem

end CubridWebManager.CmsToken
