import CubridWebManager.Session.LogoutWins
import CubridWebManager.Session.Tokens

/-!
# A database login that counts is one that CMS knows

A login in the cache counts when it has the stored token of the host and has not expired.  Three things make one count
that CMS at the host's address has not accepted, or that the user does not have: the host moves to another address and
keeps its token, or does so between CMS's answer and the write of the cache, and a re-login fills a slot that a logout
or a deletion of the profile has emptied (`login_sound_fails`).

Where none of these happens (`LoginsFit`), every login that counts was accepted under exactly the stored token at the
host's address, and the user made it within its lifetime.
-/

namespace CubridWebManager.Session

open Transition

/-! ### What a login has in hand -/

namespace Pc

/-- The token that the login is to be recorded under. -/
def asked? : Pc → Option (Option Token)
  | .dbLoginRequest call | .dbLoginQueued call _ | .dbLoginAnswered call _ => some call.hostToken
  | .reloginWait r | .reloginHost r | .reloginRequest r | .reloginQueued r _ | .reloginAnswered r _
  | .reloginCheck r _ => some (some r.newToken)
  | _ => none

/-- The request that the login was made with. -/
def loginRequest? : Pc → Option CmsRequest
  | .dbLoginQueued _ request | .dbLoginAnswered _ request | .reloginQueued _ request | .reloginAnswered _ request
  | .reloginCheck _ request => some request
  | _ => none

/-- The request of the login, once CMS has accepted it. -/
def acceptedRequest? : Pc → Option CmsRequest
  | .dbLoginAnswered _ request | .reloginAnswered _ request | .reloginCheck _ request => some request
  | _ => none

/-- The call and request of a login that is about to write the cache. -/
def writing? : Pc → Option (Option Token × CmsRequest)
  | .dbLoginAnswered call request => some (call.hostToken, request)
  | .reloginCheck r request => some (some r.newToken, request)
  | _ => none

end Pc

/-- The login's record goes to the cache only with the host still at the address of its request, if the token is still
stored; and a re-login that finds its slot empty has the current logout generation and a profile.  A host with a login
that counts keeps its address. -/
def LoginsFit (s : State) : Act → Prop
  | .updateHost ref body => ∀ h ∈ s.hosts.get? ref, (body.nextTarget h).url ≠ h.target.url →
      ∀ e ∈ s.dbLoginCache.entries, e.1.ref = ref → s.isDbLoginActive e.1 h.token = false
  | .resume t =>
      (∀ w ∈ (s.threads t).pc.writing?, s.storedToken (s.threads t).ref = w.1 →
        (s.target? (s.threads t).ref).map Target.url = some w.2.target.url) ∧
      ∀ r ∈ (s.threads t).pc.checking?, s.storedToken (s.threads t).ref = some r.newToken →
        s.dbLoginCache.get? (s.threads t).key = none →
        s.logoutGeneration (s.threads t).key = r.generation ∧ s.profile? (s.threads t).key ≠ none
  | _ => True

instance (s : State) (a : Act) : Decidable (LoginsFit s a) :=
  match a with
  | .updateHost _ _ | .resume _ => by unfold LoginsFit; infer_instance
  | .tick _ | .login _ | .request _ | .loginDatabase _ _ | .logoutDatabase _ | .deleteDbProfile _ | .disconnect _
  | .reject _ | .reply _ _ | .activeTime _ _ => isTrue trivial

/-- What a re-login has in hand: an entry of the cache that was made before now, and that is the user's login as long as
there was no logout and the profile is there. -/
structure ReloginSound (s : State) (key : DbKey) (r : Relogin) : Prop where
  past : r.login.loggedInAt ≤ s.now
  drawn : r.login.ref < s.nextLogin
  entry : ∀ e, s.dbLoginCache.get? key = some e → e.ref = r.login.ref → e = r.login
  user : r.generation = s.logoutGeneration key → s.profile? key = none ∨
    ∃ at₀, s.userLogins.get? key = some at₀ ∧ r.login.loggedInAt ≤ at₀

/-- What the calls have in hand. -/
structure CallsSound (s : State) : Prop where
  asked : ∀ t token, (s.threads t).pc.asked? = some token → Settled s token
  rotated : ∀ t token request, (s.threads t).pc.asked? = some token →
    (s.threads t).pc.loginRequest? = some request → request.token ≠ token →
    s.storedToken (s.threads t).ref ≠ token
  accepted : ∀ t request, (s.threads t).pc.acceptedRequest? = some request →
    ⟨request.target.url, request.token, (s.threads t).dbname⟩ ∈ s.accepted
  relogin : ∀ t r, (s.threads t).pc.relogin? = some r → ReloginSound s (s.threads t).key r
  forget : ∀ t, (s.threads t).pc = .profileForget → s.profile? (s.threads t).key = none

/-- What the cache has. -/
structure CacheSound (s : State) : Prop where
  past : ∀ key at₀, s.userLogins.get? key = some at₀ → at₀ ≤ s.now
  entry : ∀ key e, s.dbLoginCache.get? key = some e → e.ref < s.nextLogin ∧ Settled s e.hostToken ∧
    ∃ at₀, s.userLogins.get? key = some at₀ ∧ e.loggedInAt ≤ at₀
  active : ∀ key, s.isDbLoginActive key (s.storedToken key.ref) = true →
    ∃ target, s.target? key.ref = some target ∧ ⟨target.url, s.storedToken key.ref, key.dbname⟩ ∈ s.accepted

structure Sound (s : State) : Prop extends Tokens s, CallsSound s, CacheSound s where
  bounded : Bounded s

/-! ### What the moves do with it -/

section moves

variable {s s₁ s' : State} {t : ThreadId} {a : Act} {old new : Pc}

theorem Pc.asked_of_over {pc : Pc} (h : pc.isOver = true) :
    pc.asked? = none ∧ pc.loginRequest? = none ∧ pc.acceptedRequest? = none := by
  cases pc <;> simp_all [Pc.isOver, Pc.asked?, Pc.loginRequest?, Pc.acceptedRequest?]

/-- A login is to be recorded under the token of the host record that it looked up. -/
theorem Move.asked (h : Move s t a old new s₁) {token : Option Token} (hnew : new.asked? = some token) :
    old.asked? = some token ∨ token = s.storedToken (s.threads t).ref := by
  cases h with
  | pc hmove =>
    cases hmove with
    | lookUp hh =>
      obtain rfl := Option.some.inj hnew
      exact .inr (by simp [State.storedToken, hh])
    | sendDbLogin | takeTurn | profileFound | sendRelogin | checkToken => exact .inl hnew
    | sendLogin | sendRequest | readActiveTime => cases hnew
  | accept hanswer => cases hanswer <;> exact .inl hnew
  | edit hmove => cases hmove <;> cases hnew
  | stop _ hover | serve _ hover => simp [Pc.asked_of_over hover] at hnew
  | write _ _ hover => rcases hover with rfl | rfl <;> cases hnew
  | issue | issueLost | store | rewrite | logout | forget => cases hnew

/-- A login's request has the token that is stored when it is made. -/
theorem Move.loginRequest (h : Move s t a old new s₁) {request : CmsRequest}
    (hnew : new.loginRequest? = some request) : old.asked? = new.asked? ∧
      (old.loginRequest? = some request ∨ request.token = s.storedToken (s.threads t).ref) := by
  cases h with
  | pc hmove =>
    cases hmove with
    | sendDbLogin hh | sendRelogin hh =>
      obtain rfl := Option.some.inj hnew
      exact ⟨rfl, .inr (by simp [State.storedToken, hh, State.makeRequest])⟩
    | checkToken => exact ⟨rfl, .inl hnew⟩
    | sendLogin | sendRequest | lookUp | takeTurn | profileFound | readActiveTime => cases hnew
  | accept hanswer => cases hanswer <;> exact ⟨rfl, .inl hnew⟩
  | edit hmove => cases hmove <;> cases hnew
  | stop _ hover | serve _ hover => simp [Pc.asked_of_over hover] at hnew
  | write _ _ hover => rcases hover with rfl | rfl <;> cases hnew
  | issue | issueLost | store | rewrite | logout | forget => cases hnew

theorem Move.acceptedRequest (h : Move s t a old new s₁) {request : CmsRequest}
    (hnew : new.acceptedRequest? = some request) : old.acceptedRequest? = some request ∨
      ⟨request.target.url, request.token, (s.threads t).dbname⟩ ∈ s₁.accepted := by
  cases h with
  | pc hmove =>
    cases hmove with
    | checkToken => exact .inl hnew
    | sendLogin | sendRequest | lookUp | sendDbLogin | takeTurn | profileFound | sendRelogin | readActiveTime =>
      cases hnew
  | accept hanswer =>
    right
    cases hanswer <;>
    · obtain rfl := Option.some.inj hnew
      exact List.mem_append_right _ (List.mem_singleton_self _)
  | edit hmove => cases hmove <;> cases hnew
  | stop _ hover | serve _ hover => simp [Pc.asked_of_over hover] at hnew
  | write _ _ hover => rcases hover with rfl | rfl <;> cases hnew
  | issue | issueLost | store | rewrite | logout | forget => cases hnew

theorem Move.relogin (h : Move s t a old new s₁) {r : Relogin} (hnew : new.relogin? = some r) :
    old.relogin? = some r := by
  have hg : ∃ g, new.generation? = some g := by
    cases new <;> simp_all [Pc.relogin?, Pc.generation?]
  obtain ⟨g, hg⟩ := hg
  exact (h.generation hg).2.symm.trans hnew

theorem Move.profileForget (h : Move s t a old new s₁) (hnew : new = .profileForget) :
    s₁.profile? (s.threads t).key = none := by
  subst hnew
  cases h with
  | pc hmove => cases hmove
  | edit _ _ hforget => exact hforget rfl
  | accept hanswer => cases hanswer
  | stop _ hover | serve _ hover => cases hover
  | write _ _ hover => rcases hover with hover | hover <;> cases hover

theorem Move.grows (h : Move s t a old new s₁) :
    s₁.now = s.now ∧ s.nextLogin ≤ s₁.nextLogin ∧ s.accepted ⊆ s₁.accepted := by
  cases h with
  | write | rewrite => exact ⟨rfl, Nat.le_succ _, List.Subset.refl _⟩
  | serve _ _ haccepted => exact ⟨rfl, Nat.le_refl _, haccepted⟩
  | accept => exact ⟨rfl, Nat.le_refl _, List.subset_append_left _ _⟩
  | _ => exact ⟨rfl, Nat.le_refl _, List.Subset.refl _⟩

theorem grows_step (hstep : StepMove s a s') :
    s.now ≤ s'.now ∧ s.nextLogin ≤ s'.nextLogin ∧ s.accepted ⊆ s'.accepted := by
  cases hstep with
  | tick => exact ⟨Nat.le_add_right _ _, Nat.le_refl _, List.Subset.refl _⟩
  | start | updateHost | disconnect => exact ⟨Nat.le_refl _, Nat.le_refl _, List.Subset.refl _⟩
  | restore hpc hrestored =>
    have hnow := congrArg (fun s => s.now) hrestored.rest
    have hnext := congrArg (fun s => s.nextLogin) hrestored.rest
    have haccepted := congrArg (fun s => s.accepted) hrestored.rest
    exact ⟨Nat.le_of_eq hnow.symm, Nat.le_of_eq hnext.symm, fun x hx => haccepted ▸ hx⟩
  | call hmove =>
    obtain ⟨hnow, hnext, haccepted⟩ := hmove.grows
    exact ⟨Nat.le_of_eq hnow.symm, hnext, haccepted⟩

theorem Move.userLogins (h : Move s t a old new s₁) (key : DbKey) :
    s₁.userLogins.get? key = s.userLogins.get? key ∨ s₁.userLogins.get? key = some s.now ∨
    s₁.dbLoginCache.get? key = none ∧ s₁.userLogins.get? key = none ∧
      (s.logoutGeneration key < s₁.logoutGeneration key ∨ (s.threads t).key = key ∧ old = .profileForget) := by
  cases h with
  | write =>
    simp only [Dict.get?_set]
    split
    · exact .inr (.inl rfl)
    · exact .inl rfl
  | logout =>
    by_cases hkey : key = (s.threads t).key
    · subst hkey
      refine .inr (.inr ⟨Dict.get?_erase_self _ _, Dict.get?_erase_self _ _, .inl ?_⟩)
      simp [State.logoutGeneration]
    · exact .inl (by simp [Dict.get?_erase, hkey])
  | forget =>
    by_cases hkey : key = (s.threads t).key
    · subst hkey
      exact .inr (.inr ⟨Dict.get?_erase_self _ _, Dict.get?_erase_self _ _, .inr ⟨rfl, rfl⟩⟩)
    · exact .inl (by simp [Dict.get?_erase, hkey])
  | _ => exact .inl rfl

/-- The user's login of a database is the one before, or was made now, or ended with a logout or with the deletion of
the profile. -/
theorem userLogins_step (hstep : StepMove s a s') (key : DbKey) :
    s'.userLogins.get? key = s.userLogins.get? key ∨ s'.userLogins.get? key = some s.now ∨
    s'.dbLoginCache.get? key = none ∧ s'.userLogins.get? key = none ∧
      (s.logoutGeneration key < s'.logoutGeneration key ∨
        ∃ t, (s.threads t).key = key ∧ (s.threads t).pc = .profileForget) := by
  cases hstep with
  | tick | start | updateHost | disconnect => exact .inl rfl
  | restore hpc hrestored => exact .inl (congrArg (fun s => s.userLogins.get? key) hrestored.rest)
  | @call t new s₁ hmove =>
    rcases hmove.userLogins key with hsame | hnow | ⟨hcache, hnone, hout⟩
    · exact .inl hsame
    · exact .inr (.inl hnow)
    · exact .inr (.inr ⟨hcache, hnone, hout.imp_right fun hforget => ⟨t, hforget⟩⟩)

end moves

/-! ### Every step keeps it -/

/-- What a re-login has in hand stays so. -/
theorem ReloginSound.step {s s' : State} {a : Act} {key : DbKey} {r : Relogin} (h : ReloginSound s key r)
    (hs : Sound s) (hbounded : r.generation ≤ s.logoutGeneration key) (hstep : StepMove s a s') :
    ReloginSound s' key r := by
  obtain ⟨hnow, hnext, -⟩ := grows_step hstep
  refine ⟨Nat.le_trans h.past hnow, Nat.lt_of_lt_of_le h.drawn hnext, fun e hget href => ?_, fun hgeneration => ?_⟩
  · cases cache_step hstep hget with
    | kept hold => exact h.entry e hold href
    | login _ _ _ _ he | relogin _ _ _ _ _ he =>
      -- a new entry is none that was there before
      have hfresh : e.ref = s.nextLogin := by rw [he]
      exact absurd (hfresh.symm.trans href) (Nat.ne_of_gt h.drawn)
  · have hgrows := logoutGeneration_step hstep key
    have hsame : r.generation = s.logoutGeneration key := Nat.le_antisymm hbounded (hgeneration ▸ hgrows)
    rcases h.user hsame with hnone | ⟨at₀, hlogin, hle⟩
    · exact .inl (profile_step hstep hnone)
    · rcases userLogins_step hstep key with hkept | hnew | ⟨-, -, hlt | ⟨t, hkey, hpc⟩⟩
      · exact .inr ⟨at₀, hkept.trans hlogin, hle⟩
      · exact .inr ⟨s.now, hnew, h.past⟩
      · exact absurd (hsame.symm.trans hgeneration) (Nat.ne_of_lt hlt)
      · exact .inl (profile_step hstep (hkey ▸ hs.forget t hpc))

/-- A token read from a host record is not stored again once it has been replaced. -/
theorem Settled.not_stored_again {s s' : State} {a : Act} {ref : HostRef} {token : Option Token}
    (h : Settled s token) (hstep : StepMove s a s') (hne : s.storedToken ref ≠ token) :
    s'.storedToken ref ≠ token := by
  rcases storedToken_step hstep ref with hsame | ⟨t, target, x, -, hpc, -, -, hstored⟩
  · rwa [hsame]
  · rintro rfl
    exact (h x hstored).2 t ⟨target, hpc⟩

namespace Sound

variable {s s' : State} {a : Act}

theorem asked_step (h : Sound s) (hstep : StepMove s a s') (i : ThreadId) :
    ∀ token, (s'.threads i).pc.asked? = some token → Settled s' token := by
  refine hstep.forall_threads h.fresh (P := fun _ th => ∀ token, th.pc.asked? = some token → Settled s' token)
    (fun t token hasked => (h.asked t token hasked).step h.toIssuing hstep)
    (fun ref dbname pc hs _ token hasked => ?_) (fun t i key login x earlier hpc _ _ _ token hasked => ?_)
    (fun t x _ token hasked => by cases hasked) (fun t new s₁ hmove heq token hasked => ?_) i
  · cases hs <;> cases hasked
  · obtain rfl := Option.some.inj hasked
    exact (h.remembered t x hpc).step h.toIssuing hstep
  · rcases hmove.asked hasked with hold | rfl
    · exact (h.asked t token hold).step h.toIssuing hstep
    · exact (h.stored _).step h.toIssuing hstep

theorem rotated_step (h : Sound s) (hstep : StepMove s a s') (i : ThreadId) :
    ∀ token request, (s'.threads i).pc.asked? = some token → (s'.threads i).pc.loginRequest? = some request →
      request.token ≠ token → s'.storedToken (s'.threads i).ref ≠ token := by
  refine hstep.forall_threads h.fresh
    (P := fun _ th => ∀ token request, th.pc.asked? = some token → th.pc.loginRequest? = some request →
      request.token ≠ token → s'.storedToken th.ref ≠ token)
    (fun t token request hasked hreq hne => ?_) (fun ref dbname pc hs _ token request hasked => ?_)
    (fun t i key login x earlier _ _ _ _ token request _ hreq => by cases hreq)
    (fun t x _ token request hasked => by cases hasked)
    (fun t new s₁ hmove heq token request hasked hreq hne => ?_) i
  · exact (h.asked t token hasked).not_stored_again hstep (h.rotated t token request hasked hreq hne)
  · cases hs <;> cases hasked
  · obtain ⟨hsame, hold⟩ := hmove.loginRequest hreq
    rw [← hsame] at hasked
    refine (h.asked t token hasked).not_stored_again hstep ?_
    rcases hold with hold | hmade
    · exact h.rotated t token request hasked hold hne
    · rwa [← hmade]

theorem accepted_step (h : Sound s) (hstep : StepMove s a s') (i : ThreadId) :
    ∀ request, (s'.threads i).pc.acceptedRequest? = some request →
      ⟨request.target.url, request.token, (s'.threads i).dbname⟩ ∈ s'.accepted := by
  have hgrows := (grows_step hstep).2.2
  refine hstep.forall_threads h.fresh
    (P := fun _ th => ∀ request, th.pc.acceptedRequest? = some request →
      ⟨request.target.url, request.token, th.dbname⟩ ∈ s'.accepted)
    (fun t request hreq => hgrows (h.accepted t request hreq)) (fun ref dbname pc hs _ request hreq => ?_)
    (fun t i key login x earlier _ _ _ _ request hreq => by cases hreq)
    (fun t x _ request hreq => by cases hreq) (fun t new s₁ hmove heq request hreq => ?_) i
  · cases hs <;> cases hreq
  · rcases hmove.acceptedRequest hreq with hold | hnew
    · exact hgrows (h.accepted t request hold)
    · rw [heq]
      exact hnew

theorem relogin_step (h : Sound s) (hstep : StepMove s a s') (i : ThreadId) :
    ∀ r, (s'.threads i).pc.relogin? = some r → ReloginSound s' (s'.threads i).key r := by
  have hgeneration : ∀ {pc : Pc} {r}, pc.relogin? = some r → pc.generation? = some r.generation := by
    intro pc r hr
    cases pc <;> simp_all [Pc.relogin?, Pc.generation?]
  refine hstep.forall_threads h.fresh (P := fun _ th => ∀ r, th.pc.relogin? = some r → ReloginSound s' th.key r)
    (fun t r hr => ?_) (fun ref dbname pc hs _ r hr => ?_) (fun t i key login x earlier hpc _ _ hget r hr => ?_)
    (fun t x _ r hr => by cases hr) (fun t new s₁ hmove heq r hr => ?_) i
  · exact (h.relogin t r hr).step h (h.bounded.generation t _ (hgeneration hr)) hstep
  · cases hs <;> cases hr
  · -- the login to restore is the entry of the database
    obtain rfl := Option.some.inj hr
    obtain ⟨hdrawn, -, at₀, hlogin, hle⟩ := h.entry key login hget
    have hsound : ReloginSound s key ⟨login, x, s.logoutGeneration key, earlier⟩ :=
      ⟨Nat.le_trans hle (h.past key at₀ hlogin), hdrawn, fun e he _ => Option.some.inj (he.symm.trans hget),
        fun _ => .inr ⟨at₀, hlogin, hle⟩⟩
    exact hsound.step h (Nat.le_refl _) hstep
  · have hold := hmove.relogin hr
    exact (h.relogin t r hold).step h (h.bounded.generation t _ (hgeneration hold)) hstep

theorem forget_step (h : Sound s) (hstep : StepMove s a s') (i : ThreadId) :
    (s'.threads i).pc = .profileForget → s'.profile? (s'.threads i).key = none := by
  refine hstep.forall_threads h.fresh (P := fun _ th => th.pc = .profileForget → s'.profile? th.key = none)
    (fun t hpc => profile_step hstep (h.forget t hpc)) (fun ref dbname pc hs _ hpc => ?_)
    (fun t i key login x earlier _ _ _ _ hpc => by cases hpc) (fun t x _ hpc => by cases hpc)
    (fun t new s₁ hmove heq hpc => ?_) i
  · cases hs <;> cases hpc
  · rw [heq]
    exact hmove.profileForget hpc

theorem past_step (h : Sound s) (hstep : StepMove s a s') (key : DbKey) (at₀ : Nat)
    (hlogin : s'.userLogins.get? key = some at₀) : at₀ ≤ s'.now := by
  have hnow := (grows_step hstep).1
  rcases userLogins_step hstep key with hsame | hnew | ⟨-, hnone, -⟩
  · exact Nat.le_trans (h.past key at₀ (hsame.symm.trans hlogin)) hnow
  · obtain rfl := Option.some.inj (hnew.symm.trans hlogin)
    exact hnow
  · cases hnone.symm.trans hlogin

/-- The user's login that a re-login writes again is still there. -/
theorem relogin_user (h : Sound s) {t : ThreadId} (hok : LoginsFit s (.resume t)) {r : Relogin} {request : CmsRequest}
    (hpc : (s.threads t).pc = .reloginCheck r request) (htoken : s.storedToken (s.threads t).ref = some r.newToken)
    (hslot : s.stillOld (s.threads t).key r.login = true) :
    ∃ at₀, s.userLogins.get? (s.threads t).key = some at₀ ∧ r.login.loggedInAt ≤ at₀ := by
  have hsound := h.relogin t r (by rw [hpc]; rfl)
  cases hget : s.dbLoginCache.get? (s.threads t).key with
  | none =>
    obtain ⟨hgeneration, hprofile⟩ := hok.2 r (by rw [hpc]; rfl) htoken hget
    exact (hsound.user hgeneration.symm).resolve_left hprofile
  | some e =>
    -- the slot has the entry that is replaced
    have href : e.ref = r.login.ref := by simpa [State.stillOld, hget] using hslot
    have hlogin := hsound.entry e hget href
    subst hlogin
    exact (h.entry _ _ hget).2.2

theorem entry_step (h : Sound s) (hok : LoginsFit s a) (hstep : StepMove s a s') (key : DbKey) (e : DbLogin)
    (hget : s'.dbLoginCache.get? key = some e) : e.ref < s'.nextLogin ∧ Settled s' e.hostToken ∧
      ∃ at₀, s'.userLogins.get? key = some at₀ ∧ e.loggedInAt ≤ at₀ := by
  cases cache_step hstep hget with
  | kept hold =>
    obtain ⟨hdrawn, hsettled, at₀, hlogin, hle⟩ := h.entry key e hold
    refine ⟨Nat.lt_of_lt_of_le hdrawn (grows_step hstep).2.1, hsettled.step h.toIssuing hstep, ?_⟩
    rcases userLogins_step hstep key with hsame | hnew | ⟨hnone, -⟩
    · exact ⟨at₀, hsame.trans hlogin, hle⟩
    · exact ⟨s.now, hnew, Nat.le_trans hle (h.past key at₀ hlogin)⟩
    · cases hnone.symm.trans hget
  | @login t call request hact hpc hkey hgeneration he hnext hlogins =>
    subst he
    refine ⟨hnext ▸ Nat.lt_succ_self _, ?_, s.now, by rw [hlogins, Dict.get?_set_self], Nat.le_refl _⟩
    exact (h.asked t call.hostToken (by rw [hpc]; rfl)).step h.toIssuing hstep
  | @relogin t r request hact hpc hkey htoken hslot he hnext hlogins =>
    subst he hkey hact
    refine ⟨hnext ▸ Nat.lt_succ_self _, ?_, hlogins ▸ h.relogin_user hok hpc htoken hslot⟩
    exact (h.asked t (some r.newToken) (by rw [hpc]; rfl)).step h.toIssuing hstep

/-- A login that is written under the stored token was accepted under it, where the host is. -/
theorem written_accepted (h : Sound s) {t : ThreadId} (hok : LoginsFit s (.resume t)) {token : Option Token}
    {request : CmsRequest} (hwriting : (s.threads t).pc.writing? = some (token, request))
    (htoken : s.storedToken (s.threads t).ref = token) :
    ∃ target, s.target? (s.threads t).ref = some target ∧
      ⟨target.url, token, (s.threads t).dbname⟩ ∈ s.accepted := by
  have hpcs : (s.threads t).pc.asked? = some token ∧ (s.threads t).pc.loginRequest? = some request ∧
      (s.threads t).pc.acceptedRequest? = some request := by
    cases hpc : (s.threads t).pc <;> simp_all [Pc.writing?, Pc.asked?, Pc.loginRequest?, Pc.acceptedRequest?]
  obtain ⟨hasked, hreq, haccepted⟩ := hpcs
  obtain ⟨target, htarget, hurl⟩ := Option.map_eq_some_iff.1 (hok.1 (token, request) hwriting htoken)
  have hsame : request.token = token := by
    by_contra hne
    exact h.rotated t token request hasked hreq hne htoken
  refine ⟨target, htarget, ?_⟩
  rw [hurl, ← hsame]
  exact h.accepted t request haccepted

/-- A call that goes on and is not a host login about to store leaves targets and tokens as they are. -/
theorem sessions_of_writing (hstep : StepMove s a s') {t : ThreadId} (hact : a = .resume t)
    (hwriting : (s.threads t).pc.writing? ≠ none) (ref : HostRef) :
    s'.storedToken ref = s.storedToken ref ∧ s'.target? ref = s.target? ref := by
  subst hact
  refine ⟨?_, ?_⟩
  · rcases storedToken_step hstep ref with hsame | ⟨u, target, x, hact, hpc, -⟩
    · exact hsame
    · cases hact
      simp [hpc, Pc.writing?] at hwriting
  · rcases target_step hstep ref with hsame | ⟨body, host, hact, -⟩
    · exact hsame
    · cases hact

theorem isDbLoginActive_iff (s : State) (key : DbKey) (token : Option Token) :
    s.isDbLoginActive key token = true ↔ ∃ e, s.dbLoginCache.get? key = some e ∧ e.hostToken = token ∧
      s.now - e.loggedInAt < dbmtLoginTtlMs := by
  unfold State.isDbLoginActive Session.isDbLoginActive
  cases s.dbLoginCache.get? key <;> simp

theorem active_step (h : Sound s) (hok : LoginsFit s a) (hstep : StepMove s a s') (key : DbKey)
    (hactive : s'.isDbLoginActive key (s'.storedToken key.ref) = true) :
    ∃ target, s'.target? key.ref = some target ∧
      ⟨target.url, s'.storedToken key.ref, key.dbname⟩ ∈ s'.accepted := by
  obtain ⟨hnow, -, haccepted⟩ := grows_step hstep
  obtain ⟨e, hget, htoken, htime⟩ := (isDbLoginActive_iff ..).1 hactive
  cases cache_step hstep hget with
  | kept hold =>
    obtain ⟨-, hsettled, -⟩ := h.entry key e hold
    have hsame : s'.storedToken key.ref = s.storedToken key.ref := by
      by_contra hne
      exact hsettled.not_stored_again hstep (fun heq => hne (htoken ▸ heq.symm)) htoken.symm
    have hbefore : s.isDbLoginActive key (s.storedToken key.ref) = true :=
      (isDbLoginActive_iff ..).2 ⟨e, hold, htoken.trans hsame, by omega⟩
    obtain ⟨target, htarget, hmem⟩ := h.active key hbefore
    rw [hsame]
    rcases target_step hstep key.ref with hkept | ⟨body, host, rfl, hh, hnew⟩
    · exact ⟨target, hkept.trans htarget, haccepted hmem⟩
    · -- the host has not moved, for it has a login that counts
      have htarget' : target = host.target := by simpa [State.target?, hh, eq_comm] using htarget
      have hurl : (body.nextTarget host).url = target.url := by
        by_contra hne
        have hnot := hok host hh (htarget' ▸ hne) (key, e) (Dict.get?_eq_some_iff.1 hold) rfl
        have hhost : host.token = s.storedToken key.ref := by simp [State.storedToken, hh]
        rw [hhost, hbefore] at hnot
        cases hnot
      exact ⟨_, hnew, hurl ▸ haccepted hmem⟩
  | @login t call request hact hpc hkey hgeneration he =>
    subst hact hkey he
    obtain ⟨hstored, htarget⟩ := sessions_of_writing hstep rfl (by simp [hpc, Pc.writing?]) (s.threads t).ref
    obtain ⟨target, hhere, hmem⟩ := h.written_accepted hok (by rw [hpc]; rfl) (hstored.symm.trans htoken.symm)
    exact ⟨target, htarget.trans hhere, by rw [← htoken]; exact haccepted hmem⟩
  | @relogin t r request hact hpc hkey hstored' hslot he =>
    subst hact hkey he
    obtain ⟨hstored, htarget⟩ := sessions_of_writing hstep rfl (by simp [hpc, Pc.writing?]) (s.threads t).ref
    obtain ⟨target, hhere, hmem⟩ := h.written_accepted hok (by rw [hpc]; rfl) (hstored.symm.trans htoken.symm)
    exact ⟨target, htarget.trans hhere, by rw [← htoken]; exact haccepted hmem⟩

theorem step (h : Sound s) (hok : LoginsFit s a) (hstep : StepMove s a s') : Sound s' where
  toTokens := h.toTokens.step hstep
  toCallsSound := ⟨h.asked_step hstep, h.rotated_step hstep, h.accepted_step hstep, h.relogin_step hstep,
    h.forget_step hstep⟩
  toCacheSound := ⟨h.past_step hstep, h.entry_step hok hstep, h.active_step hok hstep⟩
  bounded := h.bounded.step hstep

theorem of_init (h : Init s) : Sound s where
  toTokens := .of_init h
  toCallsSound := by
    refine ⟨fun t token htoken => ?_, fun t token request htoken => ?_, fun t request hreq => ?_, fun t r hr => ?_,
      fun t hpc => ?_⟩
    · simp [h.threads t, Pc.asked?] at htoken
    · simp [h.threads t, Pc.asked?] at htoken
    · simp [h.threads t, Pc.acceptedRequest?] at hreq
    · simp [h.threads t, Pc.relogin?] at hr
    · cases (h.threads t).symm.trans hpc
  toCacheSound := by
    refine ⟨fun key at₀ hlogin => ?_, fun key e hget => ?_, fun key hactive => ?_⟩
    · simp [h.userLogins] at hlogin
    · simp [h.cache] at hget
    · obtain ⟨e, hget, -⟩ := (isDbLoginActive_iff ..).1 hactive
      simp [h.cache] at hget
  bounded := .of_init h

end Sound

/-! ### The main result -/

/-- In a run whose logins fit, CMS at the host's address has accepted every database login that counts, for the database
under exactly the stored token; the user made it within the lifetime of a login; and no cache entry is later than the
user's login. -/
theorem login_sound {s₀ s : State} {as : List Act} (hinit : Init s₀) (hrun : Run step LoginsFit s₀ as s) (key : DbKey) :
    (s.isDbLoginActive key (s.storedToken key.ref) = true →
      (∃ h, s.hosts.get? key.ref = some h ∧ ⟨h.target.url, h.token, key.dbname⟩ ∈ s.accepted) ∧
      ∃ at₀, s.userLogins.get? key = some at₀ ∧ s.now - at₀ < dbmtLoginTtlMs) ∧
    ∀ e, s.dbLoginCache.get? key = some e → ∃ at₀, s.userLogins.get? key = some at₀ ∧ e.loggedInAt ≤ at₀ := by
  have hsound : Sound s :=
    hrun.invariant (fun _ _ _ h hok hstep => h.step hok (step_move hstep)) (.of_init hinit)
  refine ⟨fun hactive => ⟨?_, ?_⟩, fun e hget => (hsound.entry key e hget).2.2⟩
  · obtain ⟨target, htarget, hmem⟩ := hsound.active key hactive
    obtain ⟨h, hh, rfl⟩ := Option.map_eq_some_iff.1 htarget
    have htoken : s.storedToken key.ref = h.token := by simp [State.storedToken, hh]
    exact ⟨h, hh, htoken ▸ hmem⟩
  · obtain ⟨e, hget, -, htime⟩ := (Sound.isDbLoginActive_iff ..).1 hactive
    obtain ⟨-, -, at₀, hlogin, hle⟩ := hsound.entry key e hget
    exact ⟨at₀, hlogin, by omega⟩

/-- A login restored after a new host login. -/
theorem login_sound_restored : ∃ s, Init State.demo ∧
    Run step LoginsFit State.demo (demoLogin 0 ++ demoDbLogin 1 ++ [.tick 1000] ++ demoLogin 2 ++ resumes 3 3 ++
      [demoAccept] ++ resumes 3 2) s ∧
    s.isDbLoginActive demoDb (some 1) = true ∧
    (∃ h, s.hosts.get? demoRef = some h ∧ ⟨h.target.url, h.token, "demodb"⟩ ∈ s.accepted) ∧
    ∃ at₀, s.userLogins.get? demoDb = some at₀ ∧ s.now - at₀ < dbmtLoginTtlMs := by
  have hrun : ∃ s, Run step LoginsFit State.demo (demoLogin 0 ++ demoDbLogin 1 ++ [.tick 1000] ++ demoLogin 2 ++
      resumes 3 3 ++ [demoAccept] ++ resumes 3 2) s ∧
      s.isDbLoginActive demoDb (some 1) = true ∧ s.storedToken demoRef = some 1 := exists_run (by decide)
  obtain ⟨s, hrun, hactive, htoken⟩ := hrun
  have hcounts : s.isDbLoginActive demoDb (s.storedToken demoDb.ref) = true := by
    have href : s.storedToken demoDb.ref = some 1 := htoken
    rw [href, hactive]
  exact ⟨s, .demo, hrun, hactive, (login_sound .demo hrun demoDb).1 hcounts⟩

/-- The host moves to another address and keeps its token: the login counts, though CMS at the new address has never
accepted one. -/
theorem login_sound_fails : Init State.demo ∧ ∃ s, Run step Always State.demo (demoLogin 0 ++ demoDbLogin 1 ++
      [.updateHost demoRef { address := some "10.0.0.2" }]) s ∧
    s.isDbLoginActive demoDb (s.storedToken demoRef) = true ∧ ∃ h, s.hosts.get? demoRef = some h ∧
      ⟨h.target.url, h.token, "demodb"⟩ ∉ s.accepted := by
  have hrun : ∃ s, Run step Always State.demo (demoLogin 0 ++ demoDbLogin 1 ++
      [.updateHost demoRef { address := some "10.0.0.2" }]) s ∧
      s.isDbLoginActive demoDb (s.storedToken demoRef) = true ∧
      ((s.hosts.get? demoRef).any fun h => decide (⟨h.target.url, h.token, "demodb"⟩ ∉ s.accepted)) = true :=
    exists_run (by decide)
  obtain ⟨s, hrun, hactive, hhost⟩ := hrun
  obtain ⟨h, hh, hnot⟩ := (Option.any_eq_true _ _).1 hhost
  exact ⟨.demo, s, hrun, hactive, h, hh, of_decide_eq_true hnot⟩

end CubridWebManager.Session
