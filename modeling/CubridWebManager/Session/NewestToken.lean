import CubridWebManager.Session.Tokens

/-!
# The newest token is stored

CMS issues the tokens of a host in the order in which its queue serves the logins, but the logins store them in the
order in which they get the user lock; so the token of an earlier login can replace that of a later one
(`stored_token_newest_fails`).

Where no login finds a later token stored, and no answer to a login is lost (`StoresInOrder`), the last token issued
for a host is stored or is on its way.
-/

namespace CubridWebManager.Session

open Transition

/-- The token that the call has and has not stored. -/
def Pc.carried? : Pc → Option Token
  | .loginAnswered _ token => some token
  | _ => none

/-- A login that has not stored its token yet. -/
def Pc.loggingIn : Pc → Bool
  | .loginLoad | .loginQueued _ | .loginAnswered _ _ => true
  | _ => false

/-- A login waits to be served. -/
def Pc.loginWaits : Pc → Bool
  | .loginQueued _ => true
  | _ => false

/-- A login stores its token over an earlier one; it does not fail after CMS has answered, and the answer arrives. -/
def StoresInOrder (s : State) : Act → Prop
  | .resume t => ∀ token ∈ (s.threads t).pc.carried?, ∀ stored ∈ s.storedToken (s.threads t).ref, stored < token
  | .reject t => (s.threads t).pc.carried? = none
  | .reply url .lost => ∀ t ∈ (s.queue url).head?, (s.threads t).pc.loginWaits = false
  | _ => True

instance (s : State) (a : Act) : Decidable (StoresInOrder s a) :=
  match a with
  | .resume _ | .reject _ | .reply _ .lost => by unfold StoresInOrder; infer_instance
  | .reply _ .accepted | .reply _ (.refused _) | .tick _ | .login _ | .request _ | .loginDatabase _ _
  | .logoutDatabase _ | .deleteDbProfile _ | .updateHost _ _ | .disconnect _ | .activeTime _ _ => isTrue trivial

/-! ### The last token issued for a host -/

/-- The last issue of a token to a login on the host. -/
def State.lastIssue (s : State) (ref : HostRef) : Option Issue := (s.issued.filter fun i => i.ref = ref).getLast?

section lastIssue

variable {s s' : State} {ref : HostRef} {i j : Issue}

/-- No later token was issued for the host. -/
theorem lastIssue_max (hs : Issuing s) (h : s.lastIssue ref = some i) (hj : j ∈ s.issued) (href : j.ref = ref) :
    j.token ≤ i.token := by
  obtain ⟨is, his⟩ := List.getLast?_eq_some_iff.1 h
  have hsorted : (is ++ [i]).Pairwise fun i j => i.token < j.token := by
    rw [← his]
    exact hs.sorted.filter _
  have hmem : j ∈ is ++ [i] := by
    rw [← his]
    simpa using ⟨hj, href⟩
  rcases List.mem_append.1 hmem with hj' | hj'
  · exact Nat.le_of_lt ((List.pairwise_append.1 hsorted).2.2 j hj' i (List.mem_singleton_self i))
  · exact Nat.le_of_eq (congrArg Issue.token (List.mem_singleton.1 hj'))

/-- After a token is issued, it is the last one of its host, and the last ones of the other hosts are as before. -/
theorem lastIssue_append {token : Token} {ref' : HostRef} {target : Target}
    (hissued : s'.issued = s.issued ++ [⟨token, ref', target⟩]) :
    s'.lastIssue ref = if ref' = ref then some ⟨token, ref', target⟩ else s.lastIssue ref := by
  unfold State.lastIssue
  rw [hissued, List.filter_append]
  split
  · rename_i href
    simp [href]
  · rename_i href
    simp [href]

end lastIssue

/-! ### Every step keeps it -/

theorem Move.of_answered {s s₁ : State} {t : ThreadId} {a : Act} {old new : Pc} (h : Move s t a old new s₁)
    {target : Target} {token : Token} (hold : old = .loginAnswered target token) :
    a = .resume t ∧ s₁.storedToken (s.threads t).ref = some token ∨
      s.hosts.get? (s.threads t).ref = none ∨ a = .reject t := by
  subst hold
  cases h with
  | store hact hh =>
    refine .inl ⟨hact, (storedToken_setHost ..).trans ?_⟩
    rw [if_pos rfl]
    rfl
  | stop _ _ _ hlogin => exact .inr (hlogin target token rfl)
  | pc hmove => cases hmove
  | edit hmove => cases hmove
  | accept hanswer => cases hanswer
  | serve hreq => cases hreq

/-- A call that has a token keeps it until it stores it, or fails. -/
theorem carries_lasts {s s' : State} {a : Act} (hfresh : Fresh s) (hstep : StepMove s a s') {t : ThreadId}
    {token : Token} (hcarries : (s.threads t).Carries token) :
    (s'.threads t).ref = (s.threads t).ref ∧ (s'.threads t).Carries token ∨
    s'.storedToken (s.threads t).ref = some token ∨ s.hosts.get? (s.threads t).ref = none ∨ a = .reject t := by
  obtain ⟨target, hpc⟩ := hcarries
  have hlt : ¬ s.nextThread ≤ t := fun hle => by cases hpc.symm.trans (hfresh t hle)
  cases hstep with
  | tick | updateHost | disconnect => exact .inl ⟨rfl, target, hpc⟩
  | @start ref dbname pc hs =>
    have hne : t ≠ s.nextThread := fun heq => hlt (Nat.le_of_eq heq.symm)
    have hthread : (s.spawn ref dbname pc).threads t = s.threads t := Function.update_of_ne hne ..
    exact .inl ⟨by rw [hthread], target, by rw [hthread, hpc]⟩
  | @restore u token' s₁ hu hrestored =>
    have hne : t ≠ u := by
      rintro rfl
      cases hpc.symm.trans hu
    rcases hrestored.thread t with hthread | ⟨hge, -⟩
    · rw [setPc_of_ne _ hne, hthread]
      exact .inl ⟨rfl, target, hpc⟩
    · exact absurd hge hlt
  | @call u new s₁ hmove =>
    by_cases htu : t = u
    · subst htu
      rcases hmove.of_answered hpc with ⟨-, hstored⟩ | hfail
      · exact .inr (.inl hstored)
      · exact .inr (.inr hfail)
    · rw [setPc_of_ne _ htu, hmove.threads]
      exact .inl ⟨rfl, target, hpc⟩

/-- Of each host the last token issued is stored or on its way. -/
structure Newest (s : State) : Prop extends Issuing s where
  host : ∀ t, (s.threads t).pc.loggingIn = true → (s.threads t).pc ≠ .loginLoad →
    ∃ target, s.target? (s.threads t).ref = some target
  stored : ∀ ref token, s.storedToken ref = some token → ∃ i ∈ s.issued, i.ref = ref ∧ i.token = token
  last : ∀ ref i, s.lastIssue ref = some i → s.storedToken ref = some i.token ∨
    ∃ t, (s.threads t).ref = ref ∧ (s.threads t).Carries i.token

theorem Move.loggingIn {s s₁ : State} {t : ThreadId} {a : Act} {old new : Pc} (h : Move s t a old new s₁)
    (hnew : new.loggingIn = true) : s.hosts.get? (s.threads t).ref ≠ none ∨
      old.loggingIn = true ∧ old ≠ .loginLoad := by
  cases h with
  | pc hmove =>
    cases hmove with
    | sendLogin hh => exact .inl (by simp [hh])
    | sendRequest | lookUp | sendDbLogin | takeTurn | profileFound | sendRelogin | checkToken | readActiveTime =>
      cases hnew
  | issue => exact .inr ⟨rfl, by simp⟩
  | edit hmove => cases hmove <;> cases hnew
  | accept hanswer => cases hanswer <;> cases hnew
  | stop _ hover | serve _ hover => cases new <;> simp_all [Pc.isOver, Pc.loggingIn]
  | write _ _ hnew' => rcases hnew' with rfl | rfl <;> cases hnew
  | issueLost | store | rewrite | logout | forget => cases hnew

theorem target_lasts {s s' : State} {a : Act} (hstep : StepMove s a s') {ref : HostRef} {target : Target}
    (h : s.target? ref = some target) : ∃ target', s'.target? ref = some target' := by
  rcases target_step hstep ref with hsame | ⟨body, host, -, -, hnew⟩
  · exact ⟨target, hsame.trans h⟩
  · exact ⟨_, hnew⟩

namespace Newest

variable {s s' : State} {a : Act}

theorem host_step (h : Newest s) (hstep : StepMove s a s') (i : ThreadId) :
    (s'.threads i).pc.loggingIn = true → (s'.threads i).pc ≠ .loginLoad →
      ∃ target, s'.target? (s'.threads i).ref = some target := by
  refine hstep.forall_threads h.fresh
    (P := fun _ th => th.pc.loggingIn = true → th.pc ≠ .loginLoad → ∃ target, s'.target? th.ref = some target)
    (fun t hlogin hload => ?_) (fun ref dbname pc hs _ hlogin hload => ?_)
    (fun u t key login token earlier _ _ _ _ hlogin => by cases hlogin) (fun t token _ hlogin => by cases hlogin)
    (fun t new s₁ hmove heq hlogin _ => ?_) i
  · obtain ⟨target, htarget⟩ := h.host t hlogin hload
    exact target_lasts hstep htarget
  · cases hs <;> first | exact absurd rfl hload | cases hlogin
  · rcases hmove.loggingIn hlogin with hsome | ⟨hold, hload⟩
    · obtain ⟨host, hh⟩ := Option.ne_none_iff_exists'.1 hsome
      have htarget : s.target? (s.threads t).ref = some host.target := by simp [State.target?, hh]
      exact target_lasts hstep htarget
    · obtain ⟨target, htarget⟩ := h.host t hold hload
      exact target_lasts hstep htarget

theorem stored_step (h : Newest s) (hstep : StepMove s a s') {ref : HostRef} {token : Token}
    (hstored : s'.storedToken ref = some token) : ∃ i ∈ s'.issued, i.ref = ref ∧ i.token = token := by
  rcases storedToken_step hstep ref with hsame | ⟨t, target, token', -, hpc, rfl, -, hnew⟩
  · obtain ⟨i, hi, hissue⟩ := h.stored ref token (hsame.symm.trans hstored)
    exact ⟨i, issued_subset hstep hi, hissue⟩
  · obtain rfl := Option.some.inj (hnew.symm.trans hstored)
    exact ⟨_, issued_subset hstep (h.answered t target token' hpc), rfl, rfl⟩

/-- The last token issued before the step is still stored or on its way. -/
theorem last_lasts (h : Newest s) (hok : StoresInOrder s a) (hstep : StepMove s a s') {ref : HostRef} {i : Issue}
    (hlast : s.lastIssue ref = some i) : s'.storedToken ref = some i.token ∨
      ∃ t, (s'.threads t).ref = ref ∧ (s'.threads t).Carries i.token := by
  rcases h.last ref i hlast with hstored | ⟨t, rfl, hcarries⟩
  · rcases storedToken_step hstep ref with hsame | ⟨t, target, token, rfl, hpc, rfl, -, -⟩
    · exact .inl (hsame.trans hstored)
    · -- the token that is stored now was issued later than the last one
      have hlt : i.token < token := hok token (by rw [hpc]; rfl) i.token hstored
      have hle := lastIssue_max h.toIssuing hlast (h.answered t target token hpc) rfl
      exact absurd hlt (Nat.not_lt_of_le hle)
  · rcases carries_lasts h.fresh hstep hcarries with ⟨href, hkeeps⟩ | hstored | hnone | rfl
    · exact .inr ⟨t, href, hkeeps⟩
    · exact .inl hstored
    · obtain ⟨target, hpc⟩ := hcarries
      obtain ⟨target', htarget⟩ := h.host t (by rw [hpc]; rfl) (by rw [hpc]; nofun)
      simp [State.target?, hnone] at htarget
    · obtain ⟨target, hpc⟩ := hcarries
      have hnot : (s.threads t).pc.carried? = none := hok
      rw [hpc] at hnot
      cases hnot

theorem step (h : Newest s) (hok : StoresInOrder s a) (hstep : StepMove s a s') : Newest s' := by
  refine ⟨h.toIssuing.step hstep, h.host_step hstep, fun ref token => h.stored_step hstep, fun ref i hlast => ?_⟩
  rcases issued_step hstep with ⟨hissued, -⟩ | ⟨t, target, hpc, -, hissued, hnew⟩
  · simp only [State.lastIssue, hissued] at hlast
    exact h.last_lasts hok hstep hlast
  · rw [lastIssue_append hissued] at hlast
    split at hlast
    · rename_i href
      obtain rfl := Option.some.inj hlast
      rcases hnew with hthread | ⟨url, rfl, hhead⟩
      · exact .inr ⟨t, by rw [hthread]; exact href, target, by rw [hthread]⟩
      · -- the answer to the login is lost
        have hnot : (s.threads t).pc.loginWaits = false := hok t hhead
        rw [hpc] at hnot
        cases hnot
    · exact h.last_lasts hok hstep hlast

theorem of_init (h : Init s) : Newest s where
  toIssuing := .of_init h
  host t hlogin _ := by simp [h.threads t, Pc.loggingIn] at hlogin
  stored ref token htoken := by
    obtain ⟨host, hh, htoken⟩ := Option.bind_eq_some_iff.1 htoken
    cases (h.tokens ref host hh).symm.trans htoken
  last ref i hlast := by simp [State.lastIssue, h.issued] at hlast

end Newest

/-! ### The main result -/

/-- No login on the host is under way. -/
def NoLogin (s : State) (ref : HostRef) : Prop := ∀ t, (s.threads t).ref = ref → (s.threads t).pc.loggingIn = false

theorem forgetCmsToken_activity (a : TokenActivities) {token : Option Token} {x : Token} (hne : token ≠ some x) :
    (a.forgetCmsToken token).activity.get? x = a.activity.get? x := by
  unfold TokenActivities.forgetCmsToken
  split
  · rfl
  · have hx : x ≠ _ := fun heq => hne (congrArg some heq.symm)
    simp [Dict.get?_erase, hx]

/-- Storing a token keeps its activity record. -/
theorem store_activity {s s' : State} {t : ThreadId} {target : Target} {token : Token}
    (hpc : (s.threads t).pc = .loginAnswered target token) (hstep : step s (.resume t) = some s') {x : Token}
    (hstored : s'.storedToken (s.threads t).ref = some x) :
    s'.activities.activity.get? x = s.activities.activity.get? x := by
  simp only [Session.step, resume, resumeLogin, hpc] at hstep
  cases hh : s.hosts.get? (s.threads t).ref with
  | none =>
    simp only [hh] at hstep
    obtain rfl := Option.some.inj hstep
    rfl
  | some persisted =>
    simp only [hh] at hstep
    obtain rfl := Option.some.inj hstep
    have hx : token = x := by simpa [State.storedToken, State.setHost, State.setPc, storeToken] using hstored
    subst hx
    simp only [State.setPc, State.setHost]
    split
    · rfl
    · rename_i hne
      exact forgetCmsToken_activity _ hne

/-- In a run whose logins store their tokens in order, a host on which no login is under way has stored the token that
was issued for it last, so no later one has made it invalid; and no store of a token forgets that token's activity. -/
theorem stored_token_newest {s₀ s : State} {as : List Act} (hinit : Init s₀) (hrun : Run step StoresInOrder s₀ as s) :
    (∀ ref, NoLogin s ref → s.storedToken ref = (s.lastIssue ref).map Issue.token ∧
      ∀ token ∈ s.storedToken ref, ∀ i ∈ s.issued, i.ref = ref → i.token ≤ token) ∧
    ∀ t target token s', (s.threads t).pc = .loginAnswered target token → step s (.resume t) = some s' →
      ∀ x ∈ s'.storedToken (s.threads t).ref, s'.activities.activity.get? x = s.activities.activity.get? x := by
  have hnewest : Newest s :=
    hrun.invariant (fun _ _ _ h hok hstep => h.step hok (step_move hstep)) (.of_init hinit)
  refine ⟨fun ref hno => ?_, fun t target token s' hpc hstep x hx => ?_⟩
  · have hstored : s.storedToken ref = (s.lastIssue ref).map Issue.token := by
      cases hlast : s.lastIssue ref with
      | none =>
        -- no token was issued for the host, so none is stored
        by_contra hne
        obtain ⟨token, htoken⟩ := Option.ne_none_iff_exists'.1 hne
        obtain ⟨i, hi, href, -⟩ := hnewest.stored ref token htoken
        have hmem : i ∈ s.issued.filter fun i => i.ref = ref := List.mem_filter.2 ⟨hi, by simpa using href⟩
        rw [List.getLast?_eq_none_iff.1 hlast] at hmem
        cases hmem
      | some i =>
        rcases hnewest.last ref i hlast with hstored | ⟨t, href, target, hpc⟩
        · exact hstored
        · have hover := hno t href
          rw [hpc] at hover
          cases hover
    refine ⟨hstored, fun token htoken i hi href => ?_⟩
    obtain ⟨last, hlast, rfl⟩ := Option.map_eq_some_iff.1 (hstored.symm.trans htoken)
    exact lastIssue_max hnewest.toIssuing hlast hi href
  · exact store_activity hpc hstep hx

/-- Of two calls that were made neither is a login under way. -/
theorem noLogin_of_two {s₀ s : State} {as : List Act} {ok : State → Act → Prop} (hinit : Init s₀)
    (hrun : Run step ok s₀ as s) (hnext : s.nextThread = 2) (h0 : (s.threads 0).pc.loggingIn = false)
    (h1 : (s.threads 1).pc.loggingIn = false) (ref : HostRef) : NoLogin s ref := by
  have hfresh : Fresh s :=
    hrun.invariant (fun _ _ _ h _ hstep => h.step (step_move hstep)) fun t _ => hinit.threads t
  intro t _
  match t with
  | 0 => exact h0
  | 1 => exact h1
  | t + 2 =>
    have hle : s.nextThread ≤ t + 2 := hnext ▸ Nat.le_add_left 2 t
    rw [hfresh (t + 2) hle]
    rfl

/-- Two logins, served and stored in the order in which they were made. -/
theorem stored_token_newest_two : ∃ s, Init State.demo ∧
    Run step StoresInOrder State.demo ([.login demoRef, .login demoRef, .resume 0, .resume 1, demoAccept, demoAccept,
      .resume 0, .resume 1]) s ∧ NoLogin s demoRef ∧
    s.storedToken demoRef = (s.lastIssue demoRef).map Issue.token := by
  have hrun : ∃ s, Run step StoresInOrder State.demo ([.login demoRef, .login demoRef, .resume 0, .resume 1, demoAccept,
      demoAccept, .resume 0, .resume 1]) s ∧
      s.nextThread = 2 ∧ (s.threads 0).pc.loggingIn = false ∧ (s.threads 1).pc.loggingIn = false :=
    exists_run (by decide)
  obtain ⟨s, hrun, hnext, h0, h1⟩ := hrun
  have hno := noLogin_of_two .demo hrun hnext h0 h1 demoRef
  exact ⟨s, .demo, hrun, hno, ((stored_token_newest .demo hrun).1 demoRef hno).1⟩

/-- Two logins are served in order, and the first stores its token last. -/
theorem stored_token_newest_fails : Init State.demo ∧ ∃ s, Run step Always State.demo
    [.login demoRef, .login demoRef, .resume 0, .resume 1, demoAccept, demoAccept, .resume 1, .resume 0] s ∧
    NoLogin s demoRef ∧ s.storedToken demoRef = some 0 ∧ (s.lastIssue demoRef).map Issue.token = some 1 := by
  have hrun : ∃ s, Run step Always State.demo
      [.login demoRef, .login demoRef, .resume 0, .resume 1, demoAccept, demoAccept, .resume 1, .resume 0] s ∧
      (s.nextThread = 2 ∧ (s.threads 0).pc.loggingIn = false ∧ (s.threads 1).pc.loggingIn = false) ∧
      s.storedToken demoRef = some 0 ∧ (s.lastIssue demoRef).map Issue.token = some 1 := exists_run (by decide)
  obtain ⟨s, hrun, ⟨hnext, h0, h1⟩, hresult⟩ := hrun
  exact ⟨.demo, s, hrun, noLogin_of_two .demo hrun hnext h0 h1 demoRef, hresult⟩

end CubridWebManager.Session
