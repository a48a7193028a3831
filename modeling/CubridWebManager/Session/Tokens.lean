import CubridWebManager.Session.Moves

/-!
# Tokens on their way

CMS issues the tokens in increasing order, each to one login, which is the only call that can store it.  So a token that
is no longer on its way to a host record is never stored again (`Settled`), and every token that is stored or was read
from a host record is settled.
-/

namespace CubridWebManager.Session

open Transition

/-! ### Host records after a step -/

section hosts

variable {s s₁ s' : State} {t : ThreadId} {a : Act} {old new : Pc}

theorem updatedHost_spec {hosts : Hosts} {ref : HostRef} {body : UpdateHostRequest} {existingHost h : HostInfo}
    (hget : hosts.get? ref = some existingHost) (hupdate : updatedHost hosts ref body = some h) :
    h.target = body.nextTarget existingHost ∧ h.token = existingHost.token ∧
      h.dbProfiles = existingHost.dbProfiles := by
  simp only [updatedHost, hget, Option.bind_eq_bind, Option.bind_some] at hupdate
  obtain ⟨text, -, hupdate⟩ := Option.bind_eq_some_iff.1 hupdate
  split at hupdate
  · cases hupdate
  · split at hupdate
    · cases hupdate
    · obtain rfl := Option.some.inj hupdate
      exact ⟨rfl, rfl, rfl⟩

/-- A move other than the store of a token leaves targets and tokens as they are. -/
theorem Move.hosts (h : Move s t a old new s₁) : SameSessions s s₁ ∨
    ∃ target token host activities, a = .resume t ∧ old = .loginAnswered target token ∧ new = .loginStored token ∧
      s.hosts.get? (s.threads t).ref = some host ∧
      s₁ = { s with activities := activities }.setHost (s.threads t).ref (storeToken host token s.now) := by
  cases h with
  | store hact hh => exact .inr ⟨_, _, _, _, hact, rfl, rfl, hh, rfl⟩
  | edit _ hsame => exact .inl ⟨hsame.target, hsame.token, hsame.profile⟩
  | _ => exact .inl ⟨fun _ => rfl, fun _ => rfl, fun _ hnone => hnone⟩

theorem Restored.hosts {ref : HostRef} {token : Token} (h : Restored s ref token s₁) : s₁.hosts = s.hosts :=
  congrArg (fun s => s.hosts) h.rest

/-- The stored token of a host changes when a login stores the one it got. -/
theorem storedToken_step (hstep : StepMove s a s') (ref : HostRef) : s'.storedToken ref = s.storedToken ref ∨
    ∃ t target token, a = .resume t ∧ (s.threads t).pc = .loginAnswered target token ∧ (s.threads t).ref = ref ∧
      (∃ activities host, s' = State.setPc ({ s with activities := activities }.setHost ref host) t
        (.loginStored token)) ∧ s'.storedToken ref = some token := by
  cases hstep with
  | tick | start => exact .inl rfl
  | disconnect hsame => exact .inl (hsame.token ref)
  | updateHost hact hh hupdate =>
    refine .inl ((storedToken_setHost ..).trans ?_)
    split
    · rename_i href
      subst href
      simp [State.storedToken, hh, (updatedHost_spec hh hupdate).2.1]
    · rfl
  | restore hpc hrestored =>
    left
    simp only [State.storedToken, State.setPc, hrestored.hosts]
  | @call t new s₁ hmove =>
    rcases hmove.hosts with hsame | ⟨target, token, host, activities, hact, hpc, rfl, hh, rfl⟩
    · exact .inl (hsame.token ref)
    · by_cases href : ref = (s.threads t).ref
      · subst href
        exact .inr ⟨t, target, token, hact, hpc, rfl, ⟨_, _, rfl⟩, by
          refine (storedToken_setHost ..).trans ?_
          rw [if_pos rfl]
          rfl⟩
      · exact .inl ((storedToken_setHost ..).trans (if_neg href))

/-- The target of a host changes with an update of the host. -/
theorem target_step (hstep : StepMove s a s') (ref : HostRef) : s'.target? ref = s.target? ref ∨
    ∃ body host, a = .updateHost ref body ∧ s.hosts.get? ref = some host ∧
      s'.target? ref = some (body.nextTarget host) := by
  cases hstep with
  | tick | start => exact .inl rfl
  | disconnect hsame => exact .inl (hsame.target ref)
  | @updateHost ref' body existingHost h activities hact hh hupdate =>
    by_cases href : ref = ref'
    · subst href
      refine .inr ⟨body, existingHost, hact, hh, (target?_setHost ..).trans ?_⟩
      rw [if_pos rfl, (updatedHost_spec hh hupdate).1]
    · exact .inl ((target?_setHost ..).trans (if_neg href))
  | restore hpc hrestored =>
    left
    simp only [State.target?, State.setPc, hrestored.hosts]
  | @call t new s₁ hmove =>
    rcases hmove.hosts with hsame | ⟨target, token, host, activities, hact, hpc, rfl, hh, rfl⟩
    · exact .inl (hsame.target ref)
    · refine .inl ((target?_setHost ..).trans ?_)
      split
      · rename_i href
        subst href
        simp [State.target?, hh, storeToken, HostInfo.target]
      · rfl

/-- No step adds a profile. -/
theorem profile_step (hstep : StepMove s a s') {key : DbKey} (hnone : s.profile? key = none) :
    s'.profile? key = none := by
  cases hstep with
  | tick | start => exact hnone
  | disconnect hsame => exact hsame.profile key hnone
  | updateHost hact hh hupdate =>
    refine (profile?_setHost ..).trans ?_
    split
    · rename_i href
      simp only [State.profile?, href, hh, Option.bind_some] at hnone
      rw [(updatedHost_spec hh hupdate).2.2, hnone]
    · exact hnone
  | restore hpc hrestored =>
    simp only [State.profile?, State.setPc, hrestored.hosts]
    exact hnone
  | @call t new s₁ hmove =>
    rcases hmove.hosts with hsame | ⟨target, token, host, activities, hact, hpc, rfl, hh, rfl⟩
    · exact hsame.profile key hnone
    · refine (profile?_setHost ..).trans ?_
      split
      · rename_i href
        simp only [State.profile?, href, hh, Option.bind_some] at hnone
        exact hnone
      · exact hnone

end hosts

/-! ### Issued tokens -/

theorem Restored.issued {s s₁ : State} {ref : HostRef} {token : Token} (h : Restored s ref token s₁) :
    s₁.issued = s.issued ∧ s₁.nextToken = s.nextToken :=
  ⟨congrArg (fun s => s.issued) h.rest, congrArg (fun s => s.nextToken) h.rest⟩

/-- Either no token is issued, or the next one is, to a call that waited for its login to be served. -/
theorem Move.issued {s s₁ : State} {t : ThreadId} {a : Act} {old new : Pc} (h : Move s t a old new s₁) :
    s₁.issued = s.issued ∧ s₁.nextToken = s.nextToken ∨
    ∃ target, old = .loginQueued target ∧ s₁.nextToken = s.nextToken + 1 ∧
      s₁.issued = s.issued ++ [⟨s.nextToken, (s.threads t).ref, target⟩] ∧
      (new = .loginAnswered target s.nextToken ∨ new = .ended ∧
        ∃ url, a = .reply url .lost ∧ (s.queue url).head? = some t) := by
  cases h with
  | issue => exact .inr ⟨_, rfl, rfl, rfl, .inl rfl⟩
  | issueLost hact hhead => exact .inr ⟨_, rfl, rfl, rfl, .inr ⟨rfl, _, hact, hhead⟩⟩
  | _ => exact .inl ⟨rfl, rfl⟩

/-- A call gets a token by an answer to its login only. -/
theorem Move.answered {s s₁ : State} {t : ThreadId} {a : Act} {old new : Pc} (h : Move s t a old new s₁)
    {target : Target} {token : Token} (hnew : new = .loginAnswered target token) :
    old = .loginQueued target ∧ token = s.nextToken ∧
      s₁.issued = s.issued ++ [⟨s.nextToken, (s.threads t).ref, target⟩] ∧ s₁.nextToken = s.nextToken + 1 := by
  subst hnew
  cases h with
  | issue => exact ⟨rfl, rfl, rfl, rfl⟩
  | pc hmove => cases hmove
  | edit hmove => cases hmove
  | accept hanswer => cases hanswer
  | stop _ hnew | serve _ hnew => cases hnew
  | write _ _ hnew => rcases hnew with hnew | hnew <;> cases hnew

theorem issued_step {s s' : State} {a : Act} (hstep : StepMove s a s') :
    s'.issued = s.issued ∧ s'.nextToken = s.nextToken ∨
    ∃ t target, (s.threads t).pc = .loginQueued target ∧ s'.nextToken = s.nextToken + 1 ∧
      s'.issued = s.issued ++ [⟨s.nextToken, (s.threads t).ref, target⟩] ∧
      (s'.threads t = { s.threads t with pc := .loginAnswered target s.nextToken } ∨
        ∃ url, a = .reply url .lost ∧ (s.queue url).head? = some t) := by
  cases hstep with
  | tick | start | updateHost | disconnect => exact .inl ⟨rfl, rfl⟩
  | restore hpc hrestored => exact .inl hrestored.issued
  | @call t new s₁ hmove =>
    rcases hmove.issued with hsame | ⟨target, hpc, hnext, hissued, hnew⟩
    · exact .inl hsame
    · refine .inr ⟨t, target, hpc, hnext, hissued, ?_⟩
      rcases hnew with rfl | ⟨-, hlost⟩
      · exact .inl (by rw [setPc_self, hmove.threads])
      · exact .inr hlost

/-- The call has a token that it has not stored. -/
def Thread.Carries (th : Thread) (token : Token) : Prop := ∃ target, th.pc = .loginAnswered target token

structure Issuing (s : State) : Prop where
  fresh : Fresh s
  lt : ∀ i ∈ s.issued, i.token < s.nextToken
  sorted : s.issued.Pairwise fun i j => i.token < j.token
  answered : ∀ t target token, (s.threads t).pc = .loginAnswered target token →
    ⟨token, (s.threads t).ref, target⟩ ∈ s.issued
  unique : ∀ t u token, (s.threads t).Carries token → (s.threads u).Carries token → t = u

theorem nextToken_step {s s' : State} {a : Act} (hstep : StepMove s a s') : s.nextToken ≤ s'.nextToken := by
  rcases issued_step hstep with ⟨-, hnext⟩ | ⟨t, target, -, hnext, -⟩
  · exact Nat.le_of_eq hnext.symm
  · exact hnext ▸ Nat.le_succ _

theorem issued_subset {s s' : State} {a : Act} (hstep : StepMove s a s') : s.issued ⊆ s'.issued := by
  rcases issued_step hstep with ⟨hissued, -⟩ | ⟨t, target, -, -, hissued, -⟩
  · exact hissued ▸ List.Subset.refl _
  · exact hissued ▸ List.subset_append_left _ _

/-- A call that has a token after a step had it before, or got it now, and no other call moved. -/
theorem carries_step {s s' : State} {a : Act} (hfresh : Fresh s) (hstep : StepMove s a s') (t : ThreadId)
    (token : Token) (hcarries : (s'.threads t).Carries token) :
    (s.threads t).Carries token ∨ token = s.nextToken ∧ ∀ u, u ≠ t → s'.threads u = s.threads u := by
  refine hstep.forall_threads hfresh
    (P := fun t th => th.Carries token →
      (s.threads t).Carries token ∨ token = s.nextToken ∧ ∀ u, u ≠ t → s'.threads u = s.threads u)
    (fun t h => .inl h) (fun ref dbname pc hs _ h => ?_) (fun u i key login token' earlier _ _ _ _ h => ?_)
    (fun t token' _ h => ?_) (fun t new s₁ hmove heq h => ?_) t hcarries
  · obtain ⟨target, hpc⟩ := h
    cases hs <;> cases hpc
  · obtain ⟨target, hpc⟩ := h
    cases hpc
  · obtain ⟨target, hpc⟩ := h
    cases hpc
  · obtain ⟨target, hnew⟩ := h
    refine .inr ⟨(hmove.answered hnew).2.1, fun u hu => ?_⟩
    rw [heq, setPc_of_ne _ hu, hmove.threads]

namespace Issuing

variable {s s' : State} {a : Act}

theorem carried_lt (h : Issuing s) {t : ThreadId} {token : Token} (hcarries : (s.threads t).Carries token) :
    token < s.nextToken := by
  obtain ⟨target, hpc⟩ := hcarries
  exact h.lt _ (h.answered t target token hpc)

theorem step (h : Issuing s) (hstep : StepMove s a s') : Issuing s' := by
  have hsub := issued_subset hstep
  refine ⟨h.fresh.step hstep, ?_, ?_, ?_, fun t u token ht hu => ?_⟩
  · rcases issued_step hstep with ⟨hissued, hnext⟩ | ⟨t, target, -, hnext, hissued, -⟩
    · rw [hissued, hnext]
      exact h.lt
    · rw [hissued, hnext]
      intro i hi
      rcases List.mem_append.1 hi with hold | hnew
      · exact Nat.lt_succ_of_lt (h.lt i hold)
      · obtain rfl := List.mem_singleton.1 hnew
        exact Nat.lt_succ_self _
  · rcases issued_step hstep with ⟨hissued, -⟩ | ⟨t, target, -, -, hissued, -⟩
    · rw [hissued]
      exact h.sorted
    · rw [hissued, List.pairwise_append]
      refine ⟨h.sorted, List.pairwise_singleton _ _, fun i hi j hj => ?_⟩
      obtain rfl := List.mem_singleton.1 hj
      exact h.lt i hi
  · refine hstep.forall_threads h.fresh
      (P := fun _ th => ∀ target token, th.pc = .loginAnswered target token → ⟨token, th.ref, target⟩ ∈ s'.issued)
      (fun i target token hpc => hsub (h.answered i target token hpc)) (fun ref dbname pc hs _ target token hpc => ?_)
      (fun u i key login token' earlier _ _ _ _ target token hpc => by cases hpc)
      (fun t token' _ target token hpc => by cases hpc) fun t new s₁ hmove heq target token hpc => ?_
    · cases hs <;> cases hpc
    · obtain ⟨-, rfl, hissued, -⟩ := hmove.answered hpc
      rw [heq]
      simp [State.setPc, hissued]
  · rcases carries_step h.fresh hstep t token ht with ht' | ⟨rfl, hother⟩
    · rcases carries_step h.fresh hstep u token hu with hu' | ⟨rfl, -⟩
      · exact h.unique t u token ht' hu'
      · exact absurd (h.carried_lt ht') (Nat.lt_irrefl _)
    · -- the token was issued now, so no other call has it
      by_contra hne
      rw [hother u (Ne.symm hne)] at hu
      exact absurd (h.carried_lt hu) (Nat.lt_irrefl _)

theorem of_init (h : Init s) : Issuing s where
  fresh i _ := h.threads i
  lt i hi := by simp [h.issued] at hi
  sorted := by simp [h.issued]
  answered t target token hpc := by cases (h.threads t).symm.trans hpc
  unique t u token ht _ := by
    obtain ⟨target, hpc⟩ := ht
    cases (h.threads t).symm.trans hpc

end Issuing

/-! ### Settled tokens -/

/-- The token, if there is one, has been issued, and no call has it on its way to a host record. -/
def Settled (s : State) (token : Option Token) : Prop :=
  ∀ x ∈ token, x < s.nextToken ∧ ∀ t, ¬ (s.threads t).Carries x

theorem Settled.step {s s' : State} {a : Act} {token : Option Token} (h : Settled s token) (hi : Issuing s)
    (hstep : StepMove s a s') : Settled s' token := by
  intro x hx
  obtain ⟨hlt, hnot⟩ := h x hx
  have hgrows := nextToken_step hstep
  refine ⟨Nat.lt_of_lt_of_le hlt hgrows, fun t hcarries => ?_⟩
  rcases carries_step hi.fresh hstep t x hcarries with hold | ⟨rfl, -⟩
  · exact hnot t hold
  · exact Nat.lt_irrefl _ hlt

/-- The token that a call stores is settled from then on. -/
theorem Settled.of_store {s s' : State} {a : Act} (hi : Issuing s) (hstep : StepMove s a s') {t : ThreadId}
    {token : Token} (hcarries : (s.threads t).Carries token) (hstored : (s'.threads t).pc = .loginStored token) :
    Settled s' (some token) := by
  intro x hx
  obtain rfl := Option.some.inj hx
  have hlt := hi.carried_lt hcarries
  have hgrows := nextToken_step hstep
  refine ⟨Nat.lt_of_lt_of_le hlt hgrows, fun u hu => ?_⟩
  rcases carries_step hi.fresh hstep u token hu with hold | ⟨rfl, -⟩
  · obtain rfl := hi.unique t u token hcarries hold
    obtain ⟨target, hpc⟩ := hu
    cases hstored.symm.trans hpc
  · exact Nat.lt_irrefl _ hlt

theorem Move.stored {s s₁ : State} {t : ThreadId} {a : Act} {old new : Pc} (h : Move s t a old new s₁) {token : Token}
    (hnew : new = .loginStored token) : ∃ target, old = .loginAnswered target token := by
  subst hnew
  cases h with
  | store => exact ⟨_, rfl⟩
  | pc hmove => cases hmove
  | edit hmove => cases hmove
  | accept hanswer => cases hanswer
  | stop _ hnew | serve _ hnew => cases hnew
  | write _ _ hnew => rcases hnew with hnew | hnew <;> cases hnew

/-- The stored tokens, and those just stored, are settled. -/
structure Tokens (s : State) : Prop extends Issuing s where
  stored : ∀ ref, Settled s (s.storedToken ref)
  remembered : ∀ t token, (s.threads t).pc = .loginStored token → Settled s (some token)

namespace Tokens

variable {s s' : State} {a : Act}

theorem step (h : Tokens s) (hstep : StepMove s a s') : Tokens s' := by
  refine ⟨h.toIssuing.step hstep, fun ref => ?_, ?_⟩
  · rcases storedToken_step hstep ref with hsame | ⟨t, target, token, -, hpc, -, ⟨activities, host, rfl⟩, hstored⟩
    · rw [hsame]
      exact (h.stored ref).step h.toIssuing hstep
    · rw [hstored]
      exact .of_store h.toIssuing hstep ⟨target, hpc⟩ (by rw [setPc_self])
  · refine hstep.forall_threads h.fresh (P := fun _ th => ∀ token, th.pc = .loginStored token → Settled s' (some token))
      (fun i token hpc => (h.remembered i token hpc).step h.toIssuing hstep)
      (fun ref dbname pc hs _ token hpc => ?_) (fun u i key login token' earlier _ _ _ _ token hpc => by cases hpc)
      (fun t token' _ token hpc => by cases hpc) fun t new s₁ hmove heq token hpc => ?_
    · cases hs <;> cases hpc
    · obtain ⟨target, hold⟩ := hmove.stored hpc
      refine .of_store h.toIssuing hstep ⟨target, hold⟩ ?_
      rw [heq, setPc_self]
      exact hpc

theorem of_init (h : Init s) : Tokens s where
  toIssuing := .of_init h
  stored ref x hx := by
    obtain ⟨host, hh, htoken⟩ := Option.bind_eq_some_iff.1 hx
    rw [h.tokens ref host hh] at htoken
    cases htoken
  remembered t token hpc := by cases (h.threads t).symm.trans hpc

end Tokens

end CubridWebManager.Session
