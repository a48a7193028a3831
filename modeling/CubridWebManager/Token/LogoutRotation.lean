import CubridWebManager.Token.Invariants

/-!
# Logout against a rotation

`revoke` deletes the file of a token by its name.  While a refresh has the token its file has another name, and once the
refresh has returned there is another token in its place, so the session of the token ends with the logout only where no
refresh has claimed it by then.  Then nobody ever claims it again (`Ended`), and no token was drawn in its place but by
refreshes that failed; these are of no use, provided that a refresh which has created a token does not fail any more
(`CommitsWork`).
-/

namespace CubridWebManager.Token

open Transition

/-- No refresh with this token fails to write the consumed record. -/
def CommitsWork (token : RefreshToken) (s : State) : Act → Prop
  | .reject t =>
    match s.threads t with
    | .commitOpen session _ | .commitWrite session _ _ _ => session.token ≠ token
    | _ => True
  | _ => True

instance (token : RefreshToken) (s : State) (a : Act) : Decidable (CommitsWork token s a) := by
  delta CommitsWork
  induction a using Act.casesOn <;> dsimp only <;> try exact .isTrue trivial
  case reject t => generalize s.threads t = pc; induction pc using Pc.casesOn <;> dsimp only <;> infer_instance

/-- The token that the call has created another in place of. -/
def Pc.replaced? : Pc → Option RefreshToken
  | .commitOpen session _ | .commitWrite session _ _ _ | .commitUnlink session _ => some session.token
  | .refreshed token _ => some token
  | _ => none

theorem claims_of_replaced {pc : Pc} {token : RefreshToken} (h : pc.replaced? = some token) :
    pc.claims? = some token := by
  cases pc <;> first | exact h | cases h

/-! ### Tokens in use -/

/-- The token has a file that can be read, or a call was accepted with it. -/
def State.inUse (s : State) (n : Nat) : Prop :=
  (∃ file content, file.token? = some (.drawn n) ∧ (s.files.get? file).bind File.content = some content) ∨
    ∃ i session, (s.threads i).session? = some session ∧ session.token = .drawn n

theorem lt_of_inUse {s : State} (hok : Ok s) {n : Nat} (h : s.inUse n) : n < s.drawn.length := by
  rcases h with ⟨file, content, htoken, hcontent⟩ | ⟨i, session, hsession, htoken⟩
  · obtain ⟨f, hf, -⟩ := Option.bind_eq_some_iff.1 hcontent
    obtain ⟨m, hm, hlt⟩ := hok.files.token file f _ hf htoken
    cases hm
    exact hlt
  · obtain ⟨m, d, hm, hd, -⟩ := (hok.files.known i).session session hsession
    rw [htoken] at hm
    cases hm
    exact (List.getElem?_eq_some_iff.1 hd).1

/-- A token that is in use was so before, or its file has just been written. -/
theorem inUse_step {s s' : State} (hok : Ok s) {a : Act} (hstep : StepMove s a s') {n : Nat} (h : s'.inUse n) :
    s.inUse n ∨ ∃ t origin pair record inode, s.threads t = .createWrite origin pair record inode ∧
      s'.threads t = origin.issued pair ∧ pair.token = n := by
  rcases h with ⟨file, content, htoken, hcontent⟩ | ⟨i, session, hsession, htoken⟩
  · cases hstep with
    | tick | start => exact .inl (.inl ⟨file, content, htoken, hcontent⟩)
    | @call _ t s₁ new hmove =>
      obtain ⟨f, hf, hfcontent⟩ := Option.bind_eq_some_iff.1 hcontent
      cases hmove.fileMove hf with
      | kept hfile => exact .inl (.inl ⟨file, content, htoken, by rw [hfile]; exact hfcontent⟩)
      | opened _ _ hf =>
        subst hf
        cases hfcontent
      | @written f₀ inode name content' hfile hwrite hf =>
        subst hf
        by_cases hinode : f₀.inode = inode
        · obtain rfl := hok.files.writers t inode name hwrite.writes file f₀ hfile hinode
          generalize hpc : s.threads t = old at hwrite
          cases hwrite with
          | create =>
            exact .inr ⟨t, _, _, _, _, hpc, setPc_self _ _ _, RefreshToken.drawn.inj (Option.some.inj htoken)⟩
          | commit => exact .inl (.inr ⟨t, _, by rw [hpc]; rfl, Option.some.inj htoken⟩)
          | add => cases htoken
        · rw [Files.fill, if_neg hinode] at hfcontent
          exact .inl (.inl ⟨file, content, htoken, by rw [hfile]; exact hfcontent⟩)
      | @claimed token _ _ hname hfile =>
        subst hname
        exact .inl (.inl ⟨.active token, content, htoken, by rw [hfile]; exact hfcontent⟩)
      | @restored session _ _ _ _ hname hfile =>
        subst hname
        exact .inl (.inl ⟨.consuming session.token t, content, htoken, by rw [hfile]; exact hfcontent⟩)
  · left
    revert hsession
    refine hstep.forall_threads (P := fun _ pc => pc.session? = some session → s.inUse n)
      (fun i hi => .inr ⟨i, session, hi, htoken⟩) (fun pc hs _ hpc => ?_) (fun t new s₁ hmove _ hnew => ?_) i
    · cases hs.idle.2.1.symm.trans hpc
    · rcases hmove.keeps.session session hnew with hold | ⟨-, hfile, -⟩
      · exact .inr ⟨t, session, hold, htoken⟩
      · exact .inl ⟨.consuming session.token t, _, congrArg some htoken, hfile⟩

/-- A call that creates a token in place of another has claimed it. -/
theorem claims_of_parent {origin : Origin} {token : RefreshToken} (h : origin.parent = some token) (pair : TokenPair)
    (record : RefreshTokenRecord) (inode : Nat) :
    (Pc.createWrite origin pair record inode).claims? = some token ∧ (origin.issued pair).replaced? = some token := by
  cases origin with
  | login => cases h
  | rotation => exact ⟨h, h⟩

theorem getElem?_of_inUse {s s' : State} (hok : Ok s) {a : Act} (hstep : StepMove s a s') {n : Nat} (h : s.inUse n)
    {d : Drawn} (hd : s'.drawn[n]? = some d) : s.drawn[n]? = some d := by
  have hlt := lt_of_inUse hok h
  rw [← hd, List.getElem?_eq_getElem hlt]
  exact (getElem?_mono (drawn_step hstep).1 (List.getElem?_eq_getElem hlt)).symm

/-! ### Before the logout -/

/-- A token drawn in place of `token` is in use only once a refresh has replaced that for good. -/
structure Replaced (token : RefreshToken) (s : State) : Prop where
  ok : Ok s
  child : ∀ n d, s.drawn[n]? = some d → d.parent = some token → s.inUse n →
    ∃ i, (s.threads i).replaced? = some token

theorem replaced_step {token : RefreshToken} {s s' : State} (hfresh : Fresh s) {a : Act} (hcommits : CommitsWork token s a)
    (hstep : StepMove s a s') {i : ThreadId} (h : (s.threads i).replaced? = some token) :
    (s'.threads i).replaced? = some token := by
  refine hstep.forall_threads (P := fun i pc => (s.threads i).replaced? = some token → pc.replaced? = some token)
    (fun i h => h) (fun pc _ _ hnew => ?_) (fun t new s₁ hmove _ hold => ?_) i h
  · rw [hfresh s.nextThread (Nat.le_refl _)] at hnew
    cases hnew
  · generalize hpc : s.threads t = old at hmove hold
    cases hmove with
    | reject hreject =>
      cases hreject with
      | commitOpen | commitWrite =>
        simp only [CommitsWork, hpc] at hcommits
        exact absurd (Option.some.inj hold) hcommits
      | commitUnlink => exact hold
      | _ => cases hold
    | read hread => cases hread <;> cases hold
    | truncate htruncate =>
      cases htruncate with
      | commit => exact hold
      | create | add => cases hold
    | unlink hunlink =>
      cases hunlink with
      | commit => exact hold
      | _ => cases hold
    | commit => exact hold
    | _ => cases hold

namespace Replaced

variable {token : RefreshToken} {s s' : State}

theorem step (h : Replaced token s) {a : Act} (hcommits : CommitsWork token s a) (hstep : Token.step s a = some s') :
    Replaced token s' := by
  have hmoves := step_move hstep
  refine ⟨h.ok.step hstep, fun n d hd hparent huse => ?_⟩
  rcases inUse_step h.ok hmoves huse with hold | ⟨t, origin, pair, record, inode, hpc, hnew, rfl⟩
  · obtain ⟨i, hi⟩ := h.child n d (getElem?_of_inUse h.ok hmoves hold hd) hparent hold
    exact ⟨i, replaced_step h.ok.fresh hcommits hmoves hi⟩
  · have hcreating := (h.ok.files.known t).creating origin pair record (by rw [hpc]; rfl)
    obtain rfl := Option.some.inj (hd.symm.trans (getElem?_mono (drawn_step hmoves).1 hcreating))
    exact ⟨t, by rw [hnew]; exact (claims_of_parent hparent pair record inode).2⟩

theorem fresh : Replaced token State.fresh := ⟨.fresh_state, nofun⟩

end Replaced

/-! ### After it -/

/-- The token is not in its place, no call can claim it or put it back, and no token was drawn in its place to any
use. -/
structure Ended (token : RefreshToken) (s : State) : Prop where
  ok : Ok s
  active : s.files.get? (.active token) = none
  claims : ∀ i, (s.threads i).claims? ≠ some token
  created : ∀ n, token = .drawn n → n < s.drawn.length ∧ ∀ i, (s.threads i).creates? ≠ some n
  child : ∀ n d, s.drawn[n]? = some d → d.parent = some token → ¬ s.inUse n

namespace Ended

variable {token : RefreshToken} {s s' : State}

theorem step (h : Ended token s) {a : Act} (hstep : Token.step s a = some s') : Ended token s' := by
  have hmoves := step_move hstep
  refine ⟨h.ok.step hstep, ?_, fun i hi => ?_, fun n hn => ⟨?_, fun i hi => ?_⟩, fun n d hd hparent huse => ?_⟩
  · rw [Option.eq_none_iff_forall_ne_some]
    intro f hf
    cases hmoves with
    | tick | start => cases h.active.symm.trans hf
    | @call _ t s₁ new hmove =>
      cases hmove.fileMove hf with
      | kept hfile | written hfile => cases h.active.symm.trans hfile
      | opened _ htruncate =>
        generalize hpc : s.threads t = old at htruncate
        cases htruncate with
        | create => exact (h.created _ rfl).2 t (by rw [hpc]; rfl)
      | claimed _ _ hname => cases hname
      | restored _ hpc _ hname =>
        cases hname
        exact h.claims t (by rw [hpc]; rfl)
  · rcases claims_step hmoves i token hi with hold | ⟨-, -, ⟨f, hf⟩, -⟩
    · exact h.claims i hold
    · cases h.active.symm.trans hf
  · exact Nat.lt_of_lt_of_le (h.created n hn).1 (drawn_step hmoves).1.length_le
  · rcases creates_step hmoves i n hi with hold | ⟨heq, -, -⟩
    · exact (h.created n hn).2 i hold
    · exact Nat.lt_irrefl _ (heq ▸ (h.created n hn).1)
  · rcases inUse_step h.ok hmoves huse with hold | ⟨t, origin, pair, record, inode, hpc, -, rfl⟩
    · exact h.child n d (getElem?_of_inUse h.ok hmoves hold hd) hparent hold
    · have hcreating := (h.ok.files.known t).creating origin pair record (by rw [hpc]; rfl)
      obtain rfl := Option.some.inj (hd.symm.trans (getElem?_mono (drawn_step hmoves).1 hcreating))
      exact h.claims t (by rw [hpc]; exact (claims_of_parent hparent pair record inode).1)

/-- A logout that finds its token with nobody. -/
theorem of_revoke (h : Replaced token s) {t : ThreadId} (hpc : s.threads t = .revoke token)
    (hfree : ∀ i, (s.threads i).claims? ≠ some token) :
    Ended token ((s.setFiles (s.files.unlink (.active token))).setPc t .loggedOut) := by
  have hstep : Token.step s (.resume t) =
      some ((s.setFiles (s.files.unlink (.active token))).setPc t .loggedOut) := by
    simp only [Token.step, resume, hpc]
  have hmoves := step_move hstep
  have hpresents : (s.threads t).presents? = some token := by rw [hpc]; rfl
  refine ⟨h.ok.step hstep, ?_, fun i hi => ?_, fun n hn => ⟨?_, fun i hi => ?_⟩, fun n d hd hparent huse => ?_⟩
  · exact (Files.get?_unlink _ _).trans (if_pos rfl)
  · rcases claims_step hmoves i token hi with hold | ⟨hact, hclaim, -, -⟩
    · exact hfree i hold
    · cases hact
      cases hpc.symm.trans hclaim
  · subst hn
    exact h.ok.secret.presented t n hpresents
  · subst hn
    rcases creates_step hmoves i n hi with hold | ⟨heq, -, -⟩
    · exact h.ok.secret.hidden i t n hold hpresents
    · exact Nat.lt_irrefl _ (heq ▸ h.ok.secret.presented t n hpresents)
  · rcases inUse_step h.ok hmoves huse with hold | ⟨t', origin, pair, record, inode, hpc', hnew, -⟩
    · obtain ⟨i, hi⟩ := h.child n d hd hparent hold
      exact hfree i (claims_of_replaced hi)
    · -- the call that has just written a file would have moved
      by_cases heq : t' = t
      · rw [heq, hpc] at hpc'
        cases hpc'
      · rw [setPc_of_ne _ heq] at hnew
        have hnew' : s.threads t' = origin.issued pair := hnew
        rw [hpc'] at hnew'
        cases origin <;> cases hnew'

end Ended

/-- After a logout that has deleted the file of its token while no refresh had claimed it, neither the token nor one
issued in its place is accepted. -/
theorem logout_ends_session {token : RefreshToken} {as bs : List Act} {s₁ s₂ s : State}
    (hrun : Run step (CommitsWork token) State.fresh as s₁) {t : ThreadId} (hpc : s₁.threads t = .revoke token)
    (hfree : ∀ i, (s₁.threads i).claims? ≠ some token) (hlogout : step s₁ (.resume t) = some s₂)
    (hafter : Run step Always s₂ bs s) {i : ThreadId} {session : Session}
    (haccepted : (s.threads i).session? = some session) : session.token ≠ token ∧
      ∀ n d, session.token = .drawn n → s.drawn[n]? = some d → d.parent ≠ some token := by
  have hreplaced : Replaced token s₁ := hrun.invariant (fun _ _ _ h hok hstep => h.step hok hstep) .fresh
  have hended : Ended token s₂ := by
    simp only [step, resume, hpc, Option.some.injEq] at hlogout
    subst hlogout
    exact .of_revoke hreplaced hpc hfree
  have hlast : Ended token s := hafter.invariant (fun _ _ _ h _ hstep => h.step hstep) hended
  refine ⟨fun heq => ?_, fun n d htoken hd hparent => ?_⟩
  · exact hlast.claims i (heq ▸ claims_of_session haccepted)
  · exact hlast.child n d hd hparent (.inr ⟨i, session, haccepted, htoken⟩)

/-- A refresh that failed to sign has put the token back; after the logout only the token of another login is
accepted. -/
theorem logout_ends_session_other : ∃ s₁ s₂ s session, Run step (CommitsWork (.drawn 0)) State.fresh
      ([.login "user1"] ++ resumes 0 3 ++ [.refresh (.drawn 0)] ++ resumes 1 2 ++ [.reject 1, .resume 1] ++
        [.logout (some 0) (some (.drawn 0))] ++ resumes 2 2) s₁ ∧
    s₁.threads 2 = .revoke (.drawn 0) ∧ step s₁ (.resume 2) = some s₂ ∧
    Run step Always s₂ ([.refresh (.drawn 0)] ++ resumes 3 2 ++ [.login "user2"] ++ resumes 4 3 ++
      [.refresh (.drawn 1)] ++ resumes 5 2) s ∧ s.threads 3 = .invalid ∧ (s.threads 5).session? = some session ∧
    session.token ≠ .drawn 0 ∧
    ∀ n d, session.token = .drawn n → s.drawn[n]? = some d → d.parent ≠ some (.drawn 0) := by
  have hrun : ∃ s₁, Run step (CommitsWork (.drawn 0)) State.fresh
        ([.login "user1"] ++ resumes 0 3 ++ [.refresh (.drawn 0)] ++ resumes 1 2 ++ [.reject 1, .resume 1] ++
          [.logout (some 0) (some (.drawn 0))] ++ resumes 2 2) s₁ ∧
      s₁.threads 2 = .revoke (.drawn 0) ∧ (s₁.nextThread = 3 ∧ ∀ i < 3, (s₁.threads i).claims? ≠ some (.drawn 0)) ∧
      ((step s₁ (.resume 2)).any fun s₂ => (runChecked step Always s₂ ([.refresh (.drawn 0)] ++ resumes 3 2 ++
        [.login "user2"] ++ resumes 4 3 ++ [.refresh (.drawn 1)] ++ resumes 5 2)).any fun s =>
          s.threads 3 = .invalid && (s.threads 5).session?.isSome) = true := exists_run (by decide)
  obtain ⟨s₁, hrun, hpc, ⟨hnext, hclaims⟩, hafter⟩ := hrun
  obtain ⟨s₂, hlogout, hafter⟩ := (Option.any_eq_true _ _).1 hafter
  obtain ⟨s, hafter, hs⟩ := exists_run
    (P := fun s : State => (decide (s.threads 3 = .invalid) && (s.threads 5).session?.isSome) = true)
    (by simpa using hafter)
  simp only [Bool.and_eq_true, decide_eq_true_eq] at hs
  obtain ⟨session, hsession⟩ := Option.isSome_iff_exists.1 hs.2
  have hok : Ok s₁ := Ok.run hrun
  have hfree : ∀ i, (s₁.threads i).claims? ≠ some (.drawn 0) := by
    intro i
    rcases Nat.lt_or_ge i 3 with hlt | hge
    · exact hclaims i hlt
    · rw [hok.fresh i (hnext ▸ hge)]
      intro h
      cases h
  exact ⟨s₁, s₂, s, session, hrun, hpc, hlogout, hafter, hs.1, hsession,
    logout_ends_session hrun hpc hfree hlogout hafter hsession⟩

/-- The token is deleted by its name while a refresh has it: the refresh returns a new token after the logout, and that
is accepted. -/
theorem logout_ends_session_fails : ∃ s₁ s session d, Run step Always State.fresh
      ([.login "user1"] ++ resumes 0 3 ++ [.refresh (.drawn 0)] ++ resumes 1 3 ++
        [.logout (some 0) (some (.drawn 0))] ++ resumes 2 3 ++ resumes 1 5) s₁ ∧
    s₁.threads 1 = .refreshed (.drawn 0) ⟨1, 1⟩ ∧ s₁.threads 2 = .loggedOut ∧ s₁.nextThread = 3 ∧
    Run step Always s₁ ([.refresh (.drawn 1)] ++ resumes 3 2) s ∧ (s.threads 3).session? = some session ∧
    session.token = .drawn 1 ∧ s.drawn[1]? = some d ∧ d.parent = some (.drawn 0) := by
  have hrun : ∃ s₁, Run step Always State.fresh
        ([.login "user1"] ++ resumes 0 3 ++ [.refresh (.drawn 0)] ++ resumes 1 3 ++
          [.logout (some 0) (some (.drawn 0))] ++ resumes 2 3 ++ resumes 1 5) s₁ ∧
      s₁.threads 1 = .refreshed (.drawn 0) ⟨1, 1⟩ ∧ s₁.threads 2 = .loggedOut ∧ s₁.nextThread = 3 ∧
      ((runChecked step Always s₁ ([.refresh (.drawn 1)] ++ resumes 3 2)).any fun s =>
        ((s.threads 3).session?.any fun session => session.token = .drawn 1) &&
          s.drawn[1]?.any fun d => d.parent = some (.drawn 0)) = true := exists_run (by decide)
  obtain ⟨s₁, hrun, hrefreshed, hloggedOut, hnext, hafter⟩ := hrun
  obtain ⟨s, hafter, hs⟩ := exists_run (P := fun s : State =>
    (((s.threads 3).session?.any fun session : Session => decide (session.token = .drawn 1)) &&
      s.drawn[1]?.any fun d : Drawn => decide (d.parent = some (.drawn 0))) = true) (by simpa using hafter)
  simp only [Bool.and_eq_true, Option.any_eq_true, decide_eq_true_eq] at hs
  obtain ⟨⟨session, hsession, htoken⟩, d, hd, hparent⟩ := hs
  exact ⟨s₁, s, session, d, hrun, hrefreshed, hloggedOut, hnext, hafter, hsession, htoken, hd, hparent⟩

end CubridWebManager.Token
