import CubridWebManager.Session.Tokens

/-!
# A token goes to the target that issued it

The stored token stays with a host record whose target is changed, and a login stores its answer in the record whatever
the target of the record is by then; so a token can be sent to a machine that did not issue it
(`token_bound_to_target_fails`).

For any part of the target, such as all of it or its address and port: where that part is changed for a host without a
stored token only, and is the same when a login is answered and when its token is stored (`KeepsTarget`), every token
is sent to targets that agree in it with the one that issued the token.
-/

namespace CubridWebManager.Session

open Transition

/-- The target that answered the login whose token the call is to store. -/
def Pc.answeredBy? : Pc → Option Target
  | .loginAnswered target _ => some target
  | _ => none

section view

variable {β : Type*} (view : Target → β)

/-- The host of an update that changes what `view` shows of its target has no stored token, and a login stores its
token while `view` shows the target that it was sent to. -/
def KeepsTarget (s : State) : Act → Prop
  | .updateHost ref body => ∀ h ∈ s.hosts.get? ref, view (body.nextTarget h) ≠ view h.target → h.token = none
  | .resume t => ∀ target ∈ (s.threads t).pc.answeredBy?, ∀ current ∈ s.target? (s.threads t).ref,
      view current = view target
  | _ => True

instance [DecidableEq β] (s : State) (a : Act) : Decidable (KeepsTarget view s a) :=
  match a with
  | .updateHost _ _ | .resume _ => by unfold KeepsTarget; infer_instance
  | .tick _ | .login _ | .request _ | .loginDatabase _ _ | .logoutDatabase _ | .deleteDbProfile _ | .disconnect _
  | .reject _ | .reply _ _ | .activeTime _ _ => isTrue trivial

/-- The token was issued to a target that looks like this one. -/
def IssuedTo (s : State) (target : Target) (token : Token) : Prop :=
  ∃ i ∈ s.issued, i.token = token ∧ view i.target = view target

/-- Every token that is stored, or waits to be sent, or was sent, is with a target that looks like the one that it was
issued to. -/
structure Bound (s : State) : Prop extends Issuing s where
  stored : ∀ ref target token, s.target? ref = some target → s.storedToken ref = some token →
    IssuedTo view s target token
  queued : ∀ t request token, (s.threads t).pc.queued? = some request → request.token = some token →
    IssuedTo view s request.target token
  sent : ∀ request ∈ s.sent, ∀ token ∈ request.token, IssuedTo view s request.target token

end view

/-! ### Requests -/

/-- A request is made from the record of the host. -/
theorem Move.queued {s s₁ : State} {t : ThreadId} {a : Act} {old new : Pc} (h : Move s t a old new s₁)
    {request : CmsRequest} (hreq : new.queued? = some request) :
    ∃ host, s.hosts.get? (s.threads t).ref = some host ∧ request = s.makeRequest host := by
  cases h with
  | pc hmove =>
    cases hmove with
    | sendRequest hh | sendDbLogin hh | sendRelogin hh => exact ⟨_, hh, (Option.some.inj hreq).symm⟩
    | sendLogin | lookUp | takeTurn | profileFound | checkToken | readActiveTime => cases hreq
  | edit hmove => cases hmove <;> cases hreq
  | accept hanswer => cases hanswer <;> cases hreq
  | stop _ hnew | serve _ hnew => cases new <;> simp_all [Pc.isOver, Pc.queued?]
  | write _ _ hnew => rcases hnew with rfl | rfl <;> cases hreq
  | issue | issueLost | store | rewrite | logout | forget => cases hreq

theorem Move.sent {s s₁ : State} {t : ThreadId} {a : Act} {old new : Pc} (h : Move s t a old new s₁) :
    s₁.sent = s.sent ∨ ∃ request, old.queued? = some request ∧ s₁.sent = s.sent ++ [request] := by
  cases h with
  | serve hreq => exact .inr ⟨_, hreq, rfl⟩
  | accept hanswer => cases hanswer <;> exact .inr ⟨_, rfl, rfl⟩
  | _ => exact .inl rfl

theorem sent_step {s s' : State} {a : Act} (hstep : StepMove s a s') : s'.sent = s.sent ∨
    ∃ t request, (s.threads t).pc.queued? = some request ∧ s'.sent = s.sent ++ [request] := by
  cases hstep with
  | tick | start | updateHost | disconnect => exact .inl rfl
  | restore hpc hrestored => exact .inl (congrArg (fun s => s.sent) hrestored.rest)
  | @call t new s₁ hmove => exact hmove.sent.imp_right fun ⟨request, hreq, hsent⟩ => ⟨t, request, hreq, hsent⟩

/-! ### Every step keeps it -/

namespace Bound

variable {β : Type*} {view : Target → β} {s s' : State} {a : Act}

theorem stored_step (h : Bound view s) (hok : KeepsTarget view s a) (hstep : StepMove s a s') {ref : HostRef}
    {target : Target} {token : Token} (htarget : s'.target? ref = some target)
    (htoken : s'.storedToken ref = some token) : IssuedTo view s' target token := by
  have hmono : ∀ {target token}, IssuedTo view s target token → IssuedTo view s' target token :=
    fun ⟨i, hi, hissue⟩ => ⟨i, issued_subset hstep hi, hissue⟩
  rcases storedToken_step hstep ref with hsame | ⟨t, target', token', rfl, hpc, rfl, -, hstored⟩
  · rw [hsame] at htoken
    rcases target_step hstep ref with htarget' | ⟨body, host, rfl, hh, htarget'⟩
    · exact hmono (h.stored ref target token (htarget' ▸ htarget) htoken)
    · -- the record has a token, so the update changes nothing that `view` shows
      obtain rfl := Option.some.inj (htarget'.symm.trans htarget)
      have hhost : host.token = some token := by simpa [State.storedToken, hh] using htoken
      have hview : view (body.nextTarget host) = view host.target := by
        by_contra hne
        cases hhost.symm.trans (hok host hh hne)
      obtain ⟨i, hi, hitoken, hiview⟩ := h.stored ref host.target token (by simp [State.target?, hh]) htoken
      exact hmono ⟨i, hi, hitoken, hiview.trans hview.symm⟩
  · obtain rfl := Option.some.inj (hstored.symm.trans htoken)
    rcases target_step hstep (s.threads t).ref with htarget' | ⟨body, host, hact, -⟩
    · have hview := hok target' (by rw [hpc]; rfl) target (htarget' ▸ htarget)
      exact hmono ⟨_, h.answered t target' token' hpc, rfl, hview.symm⟩
    · cases hact

theorem step (h : Bound view s) (hok : KeepsTarget view s a) (hstep : StepMove s a s') : Bound view s' := by
  have hmono : ∀ {target token}, IssuedTo view s target token → IssuedTo view s' target token :=
    fun ⟨i, hi, hissue⟩ => ⟨i, issued_subset hstep hi, hissue⟩
  refine ⟨h.toIssuing.step hstep, fun ref target token => h.stored_step hok hstep, ?_, fun request hreq token htoken => ?_⟩
  · refine hstep.forall_threads h.fresh
      (P := fun _ th => ∀ request token, th.pc.queued? = some request → request.token = some token →
        IssuedTo view s' request.target token)
      (fun i request token hreq htoken => hmono (h.queued i request token hreq htoken))
      (fun ref dbname pc hs _ request token hreq => by cases hs <;> cases hreq)
      (fun u i key login token' earlier _ _ _ _ request token hreq => by cases hreq)
      (fun t token' _ request token hreq => by cases hreq)
      fun t new s₁ hmove heq request token hreq htoken => ?_
    obtain ⟨host, hh, rfl⟩ := hmove.queued hreq
    exact hmono (h.stored (s.threads t).ref host.target token (by simp [State.target?, hh])
      (by simpa [State.storedToken, hh, State.makeRequest] using htoken))
  · rcases sent_step hstep with hsent | ⟨t, request', hqueued, hsent⟩
    · exact hmono (h.sent request (hsent ▸ hreq) token htoken)
    · rw [hsent] at hreq
      rcases List.mem_append.1 hreq with hold | hnew
      · exact hmono (h.sent request hold token htoken)
      · obtain rfl := List.mem_singleton.1 hnew
        exact hmono (h.queued t request token hqueued htoken)

theorem of_init (h : Init s) : Bound view s where
  toIssuing := .of_init h
  stored ref target token _ htoken := by
    obtain ⟨host, hh, htoken⟩ := Option.bind_eq_some_iff.1 htoken
    cases (h.tokens ref host hh).symm.trans htoken
  queued t request token hreq := by simp [h.threads t, Pc.queued?] at hreq
  sent request hreq := by simp [h.sent] at hreq

end Bound

/-! ### The main result -/

/-- In a run that keeps what `view` shows of the targets of its tokens, every request with a token was sent to a target
that looks like the one that issued the token, and so does the target of a host record with a token. -/
theorem token_bound_to_target {β : Type*} (view : Target → β) {s₀ s : State} {as : List Act} (hinit : Init s₀)
    (hrun : Run step (KeepsTarget view) s₀ as s) :
    (∀ request ∈ s.sent, ∀ token ∈ request.token,
      ∃ i ∈ s.issued, i.token = token ∧ view i.target = view request.target) ∧
    ∀ ref host token, s.hosts.get? ref = some host → host.token = some token →
      ∃ i ∈ s.issued, i.token = token ∧ view i.target = view host.target := by
  have hbound : Bound view s :=
    hrun.invariant (fun _ _ _ h hok hstep => h.step hok (step_move hstep)) (.of_init hinit)
  refine ⟨hbound.sent, fun ref host token hh htoken => hbound.stored ref host.target token ?_ ?_⟩
  · simp [State.target?, hh]
  · simpa [State.storedToken, hh] using htoken

/-- The host moves to another address. -/
def moveDemoHost : Act := .updateHost demoRef { address := some "10.0.0.2" }

/-- The host is moved before it is logged in to. -/
theorem token_bound_to_target_request : ∃ s, Init State.demo ∧
    Run step (KeepsTarget id) State.demo ([moveDemoHost, .login demoRef, .resume 0,
      .reply ("10.0.0.2", 8001) .accepted, .resume 0, .request demoRef, .resume 1,
      .reply ("10.0.0.2", 8001) .accepted]) s ∧
    s.sent.map CmsRequest.token = [some 0] ∧ ∀ request ∈ s.sent, ∀ token ∈ request.token,
      ∃ i ∈ s.issued, i.token = token ∧ id i.target = id request.target := by
  have hrun : ∃ s, Run step (KeepsTarget id) State.demo ([moveDemoHost, .login demoRef, .resume 0,
      .reply ("10.0.0.2", 8001) .accepted, .resume 0, .request demoRef, .resume 1,
      .reply ("10.0.0.2", 8001) .accepted]) s ∧ s.sent.map CmsRequest.token = [some 0] := exists_run (by decide)
  obtain ⟨s, hrun, hsent⟩ := hrun
  exact ⟨s, .demo, hrun, hsent, (token_bound_to_target id .demo hrun).1⟩

/-- The host is moved while its token is stored, and the next request takes the token to the new address. -/
theorem token_bound_to_target_fails : Init State.demo ∧ ∃ s, Run step Always State.demo (demoLogin 0 ++
      [moveDemoHost, .request demoRef, .resume 1, .reply ("10.0.0.2", 8001) .accepted]) s ∧
    ∃ request ∈ s.sent, ∃ token ∈ request.token, ∀ i ∈ s.issued, i.token = token →
      i.target.url ≠ request.target.url :=
  ⟨.demo, exists_run (by decide)⟩

end CubridWebManager.Session
