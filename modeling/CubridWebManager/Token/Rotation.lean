import CubridWebManager.Token.Invariants

/-!
# A rotation that is done once, or undone

Of all refreshes with one token at most one returns, for a token that is claimed is not in its place (`refresh_once`).
A refresh that fails moves the token back; nothing else is undone, so the tokens that are live are those from before
just if the new token had not been written, that is, if `commitConsume` does not fail, and if the move does not fail
(`UndoWorks`).  `Unspent` says what is different while calls present the token and none has committed.
-/

namespace CubridWebManager.Token

open Transition

/-- The calls from `first` on present this token to `refresh`, and no other call moves. -/
def Presenting (token : RefreshToken) (first : ThreadId) : Act → Prop
  | .tick _ => True
  | .refresh token' => token' = token
  | .resume t | .readdir t _ | .reject t => first ≤ t
  | _ => False

instance (token : RefreshToken) (first : ThreadId) (a : Act) : Decidable (Presenting token first a) := by
  delta Presenting
  induction a using Act.casesOn <;> dsimp only <;> infer_instance

/-- `commitConsume` does not fail, and neither does the rename of `rollbackConsume`. -/
def UndoWorks (s : State) : Act → Prop
  | .reject t =>
    match s.threads t with
    | .commitOpen _ _ | .commitWrite _ _ _ _ | .rollback _ _ => False
    | _ => True
  | _ => True

instance (s : State) (a : Act) : Decidable (UndoWorks s a) := by
  delta UndoWorks
  induction a using Act.casesOn <;> dsimp only <;> try exact .isTrue trivial
  case reject t => generalize s.threads t = pc; induction pc using Pc.casesOn <;> dsimp only <;> infer_instance

/-! ### A consumed token -/

/-- The token that the call has committed. -/
def Pc.spends? : Pc → Option RefreshToken
  | .commitUnlink session _ => some session.token
  | .refreshed token _ => some token
  | _ => none

theorem claims_of_spends {pc : Pc} {token : RefreshToken} (h : pc.spends? = some token) :
    pc.claims? = some token := by
  cases pc <;> first | exact h | cases h

/-- A token with a consumed record is not in its place, and no call that has claimed it may still roll back. -/
structure Spent (s : State) : Prop where
  ok : Ok s
  unused : ∀ i n, (s.threads i).creates? = some n → s.files.get? (.consumed (.drawn n)) = none
  gone : ∀ token content, (s.files.get? (.consumed token)).bind File.content = some content →
    s.files.get? (.active token) = none
  spent : ∀ token content, (s.files.get? (.consumed token)).bind File.content = some content →
    ∀ i, (s.threads i).claims? = some token → (s.threads i).spends? = some token

theorem Move.spends {s s₁ : State} {t : ThreadId} {a : Act} {old new : Pc} (h : Move s t a old s₁ new)
    {token : RefreshToken} (hold : old.spends? = some token) : new.spends? = some token := by
  cases h with
  | reject hreject => cases hreject <;> first | exact hold | cases hold
  | read hread => cases hread <;> cases hold
  | truncate htruncate => cases htruncate <;> cases hold
  | unlink hunlink => cases hunlink <;> first | exact hold | cases hold
  | _ => cases hold

/-- A token that is committed stays so. -/
theorem spends_step {s s' : State} {a : Act} (hfresh : Fresh s) (hstep : StepMove s a s') {i : ThreadId}
    {token : RefreshToken} (h : (s.threads i).spends? = some token) : (s'.threads i).spends? = some token := by
  refine hstep.forall_threads (P := fun i pc => (s.threads i).spends? = some token → pc.spends? = some token)
    (fun i h => h) (fun pc _ _ hnew => ?_) (fun t new s₁ hmove _ hold => hmove.spends hold) i h
  rw [hfresh s.nextThread (Nat.le_refl _)] at hnew
  cases hnew

namespace Spent

variable {s s' : State}

theorem unused_step (h : Spent s) {a : Act} (hstep : StepMove s a s') (i : ThreadId) (n : Nat)
    (hi : (s'.threads i).creates? = some n) : s'.files.get? (.consumed (.drawn n)) = none := by
  rw [Option.eq_none_iff_forall_ne_some]
  intro f hf
  have hlt : n < s.drawn.length := by
    cases hstep with
    | tick | start =>
      obtain ⟨m, hm, hlt⟩ := h.ok.files.token _ f (.drawn n) hf rfl
      cases hm
      exact hlt
    | call hmove =>
      obtain ⟨m, hm, hlt⟩ : ∃ m, RefreshToken.drawn n = .drawn m ∧ m < s.drawn.length :=
        h.ok.files.token_move hmove hf rfl
      cases hm
      exact hlt
  rcases creates_step hstep i n hi with hold | ⟨hn, -, -⟩
  · have hnone := h.unused i n hold
    cases hstep with
    | tick | start => cases hnone.symm.trans hf
    | @call _ t s₁ new hmove =>
      cases hmove.fileMove hf with
      | kept hfile | written hfile => cases hnone.symm.trans hfile
      | opened _ htruncate =>
        generalize hpc : s.threads t = old at htruncate
        generalize hname : Path.consumed (.drawn n) = file at htruncate
        cases htruncate with
        | commit =>
          refine h.ok.secret.hidden i t n hold ?_
          rw [hpc]
          exact congrArg some (Path.consumed.inj hname).symm
        | create | add => cases hname
      | claimed _ _ hname => cases hname
      | restored _ _ _ hname => cases hname
  · omega

/-- A record is complete because it was, or because the call that claimed the token has just written it. -/
theorem consumed_step (h : Spent s) {a : Act} (hstep : StepMove s a s') {token : RefreshToken} {content : Content}
    (hcontent : (s'.files.get? (.consumed token)).bind File.content = some content) :
    (∃ content, (s.files.get? (.consumed token)).bind File.content = some content) ∨
      ∃ t, (s'.threads t).spends? = some token := by
  cases hstep with
  | tick | start => exact .inl ⟨content, hcontent⟩
  | @call _ t s₁ new hmove =>
    obtain ⟨f, hf, hfcontent⟩ := Option.bind_eq_some_iff.1 hcontent
    cases hmove.fileMove hf with
    | kept hfile => exact .inl ⟨content, by rw [hfile]; exact hfcontent⟩
    | opened _ _ hf =>
      subst hf
      cases hfcontent
    | @written f₀ inode name content' hfile hwrite hf =>
      subst hf
      by_cases hinode : f₀.inode = inode
      · have hname := h.ok.files.writers t inode name hwrite.writes _ f₀ hfile hinode
        refine .inr ⟨t, ?_⟩
        rw [setPc_self]
        generalize s.threads t = old at hwrite
        cases hwrite with
        | commit => exact congrArg some (Path.consumed.inj hname).symm
        | create | add => cases hname
      · rw [Files.fill, if_neg hinode] at hfcontent
        exact .inl ⟨content, by rw [hfile]; exact hfcontent⟩
    | claimed _ _ hname => cases hname
    | restored _ _ _ hname => cases hname

theorem step (h : Spent s) {a : Act} (hstep : Token.step s a = some s') : Spent s' := by
  have hok := h.ok.step hstep
  have hmoves := step_move hstep
  refine ⟨hok, h.unused_step hmoves, fun token content hcontent => ?_, fun token content hcontent i hi => ?_⟩
  · rcases h.consumed_step hmoves hcontent with ⟨content', hold⟩ | ⟨t, ht⟩
    · rw [Option.eq_none_iff_forall_ne_some]
      intro f hf
      have hnone := h.gone token content' hold
      cases hmoves with
      | tick | start => cases hnone.symm.trans hf
      | @call _ t s₁ new hmove =>
        cases hmove.fileMove hf with
        | kept hfile | written hfile => cases hnone.symm.trans hfile
        | opened _ htruncate =>
          generalize hpc : s.threads t = old at htruncate
          generalize hname : Path.active token = file at htruncate
          cases htruncate with
          | @create origin pair =>
            cases hname
            have hunused := h.unused t pair.token (by rw [hpc]; rfl)
            rw [hunused] at hold
            cases hold
          | commit | add => cases hname
        | claimed _ _ hname => cases hname
        | restored _ hpc _ hname =>
          cases hname
          have hspends := h.spent _ content' hold t (by rw [hpc]; rfl)
          rw [hpc] at hspends
          cases hspends
    · exact hok.claims.gone t token (claims_of_spends ht)
  · rcases h.consumed_step hmoves hcontent with ⟨content', hold⟩ | ⟨t, ht⟩
    · rcases claims_step hmoves i token hi with hclaims | ⟨-, -, ⟨f, hf⟩, -⟩
      · exact spends_step h.ok.fresh hmoves (h.spent token content' hold i hclaims)
      · cases (h.gone token content' hold).symm.trans hf
    · rw [hok.claims.unique i t token hi (claims_of_spends ht)]
      exact ht

theorem fresh : Spent State.fresh := ⟨.fresh_state, nofun, nofun, nofun⟩

theorem run {ok : State → Act → Prop} {as : List Act} (hrun : Run Token.step ok State.fresh as s) : Spent s :=
  hrun.invariant (fun _ _ _ h _ hstep => h.step hstep) fresh

end Spent

/-! ### Calls with one token -/

namespace Pc

/-- A refresh with the token that has committed nothing and found no reuse; what it creates is drawn from `m` on. -/
def Pending (token : RefreshToken) (m : Nat) : Pc → Prop
  | .absent | .invalid | .failed => True
  | .claim token' | .readConsumed token' | .readLock token' => token' = token
  | .sign origin => origin.parent = some token
  | .createOpen origin pair _ | .createWrite origin pair _ _ => origin.parent = some token ∧ m ≤ pair.token
  | .commitOpen session pair | .commitWrite session pair _ _ => session.token = token ∧ m ≤ pair.token
  | .rollback session _ => session.token = token
  | _ => False

/-- A refresh with the token that has dropped it, has committed or has found its reuse. -/
def Settled (token : RefreshToken) : Pc → Prop
  | .dropLock token' | .refreshed token' _ => token' = token
  | .commitUnlink session _ => session.token = token
  | .list sweep | .sweepRead sweep _ _ | .sweepUnlink sweep _ _ | .sweepCatch sweep _ _ => sweep.family? ≠ none
  | .reused _ => True
  | _ => False

/-- A refresh with the token. -/
def Refreshing (token : RefreshToken) (m : Nat) (pc : Pc) : Prop := pc.Pending token m ∨ pc.Settled token

/-- The token that the call has created and is about to commit. -/
def commits? : Pc → Option Nat
  | .commitOpen _ pair | .commitWrite _ pair _ _ => some pair.token
  | _ => none

end Pc

section refreshing

variable {s s₁ : State} {t : ThreadId} {a : Act} {old new : Pc} {token : RefreshToken} {m : Nat}

theorem settled_next {sweep : Sweep} (h : sweep.family? ≠ none) (rest : List Path) :
    (sweep.next rest).Settled token := by
  cases rest with
  | cons => exact h
  | nil => cases sweep <;> first | exact trivial | exact absurd rfl h

theorem pending_failed {origin : Origin} (h : origin.parent = some token) (pair : Option TokenPair) :
    (origin.failed pair).Pending token m := by
  cases origin with
  | login => cases h
  | rotation session => exact Option.some.inj h

theorem pending_issued {origin : Origin} {pair : TokenPair} (h : origin.parent = some token) (hm : m ≤ pair.token) :
    (origin.issued pair).Pending token m := by
  cases origin with
  | login => cases h
  | rotation session => exact ⟨Option.some.inj h, hm⟩

/-- A refresh goes on with its token. -/
theorem Move.refreshing (h : Move s t a old s₁ new) (hm : m ≤ s.drawn.length) (hold : old.Refreshing token m) :
    new.Refreshing token m := by
  rcases hold with hold | hold
  · cases h with
    | reject hreject =>
      cases hreject with
      | sign => exact .inl (pending_failed hold _)
      | createOpen | createWrite => exact .inl (pending_failed hold.1 _)
      | claim | readConsumed | rollback => exact .inl trivial
      | readLock => exact .inr hold
      | commitOpen | commitWrite => exact .inl hold.1
      | _ => exact absurd hold id
    | read hread =>
      cases hread with
      | unclaimed => exact .inl hold
      | reused => exact .inr nofun
      | refused hnew => rcases hnew with rfl | rfl <;> exact .inl trivial
      | accepted => exact .inl (congrArg some hold)
      | expired => exact .inr hold
      | _ => exact absurd hold id
    | sign => exact .inl ⟨hold, hm⟩
    | truncate htruncate =>
      cases htruncate with
      | create | commit => exact .inl hold
      | add => exact absurd hold id
    | create => exact .inl (pending_issued hold.1 hold.2)
    | commit => exact .inr hold.1
    | claim => exact .inl hold
    | rollback => exact .inl trivial
    | unlink hunlink => cases hunlink <;> exact absurd hold id
    | add | list => exact absurd hold id
  · cases h with
    | reject hreject =>
      cases hreject with
      | dropLock => exact .inl trivial
      | commitUnlink => exact .inr hold
      | revokeFamily => exact .inr trivial
      | purge hsweep => exact absurd hsweep hold
      | sweepRead | sweepUnlink => exact .inr hold
      | sweepCatch => exact .inr (settled_next hold _)
      | _ => exact absurd hold id
    | read hread =>
      cases hread with
      | doomed | unread | gone => exact .inr hold
      | spared => exact .inr (settled_next hold _)
      | _ => exact absurd hold id
    | truncate htruncate => cases htruncate <;> exact absurd hold id
    | unlink hunlink =>
      cases hunlink with
      | dropLock => exact .inl trivial
      | commit => exact .inr hold
      | sweep | sweepCatch => exact .inr (settled_next hold _)
      | _ => exact absurd hold id
    | list => exact .inr (settled_next hold _)
    | _ => exact absurd hold id

/-- A refresh that creates a token, or that may roll back, has claimed its own. -/
theorem claims_of_refreshing {pc : Pc} (h : pc.Refreshing token m)
    (hpc : pc.creates? ≠ none ∨ ∃ session pair, pc = .rollback session pair) : pc.claims? = some token := by
  rcases hpc with hcreates | ⟨session, pair, rfl⟩
  · cases pc with
    | createOpen origin | createWrite origin =>
      rcases h with h | h
      · cases origin with
        | login => cases h.1
        | rotation => exact h.1
      · exact absurd h id
    | _ => exact absurd rfl hcreates
  · rcases h with h | h
    · exact congrArg some h
    · exact absurd h id

end refreshing

/-! ### Before a commit -/

/-- No refresh with the token touches this file; its tokens are drawn from `m` on. -/
def Path.Untouched (token : RefreshToken) (m : Nat) (file : Path) : Prop :=
  file ≠ .active token ∧ file ≠ .consumed token ∧ (∀ i, file ≠ .consuming token i) ∧
    ∀ n, m ≤ n → file ≠ .active (.drawn n)

/-- What is different from `s₀` while calls made since then refresh with the token and none has committed: its file may
be with the call that has claimed it, and a new token is there only if the call is about to commit. -/
structure Unspent (token : RefreshToken) (s₀ s : State) : Prop where
  pending : ∀ i, s₀.nextThread ≤ i → (s.threads i).Pending token s₀.drawn.length
  accepted : ∀ i session, s₀.nextThread ≤ i → (s.threads i).session? = some session →
    (s₀.files.get? (.active token)).bind File.content = some (.token session.record)
  files : ∀ file, file.Untouched token s₀.drawn.length → s.files.get? file = s₀.files.get? file
  consumed : (s.files.get? (.consumed token)).bind File.content = none
  created : ∀ n content, s₀.drawn.length ≤ n →
    (s.files.get? (.active (.drawn n))).bind File.content = some content →
      ∃ i, s₀.nextThread ≤ i ∧ (s.threads i).commits? = some n
  home : (∀ i, s₀.nextThread ≤ i → (s.threads i).claims? ≠ some token) →
    s.files.get? (.active token) = s₀.files.get? (.active token)
  lock : ∀ i, s₀.nextThread ≤ i → (s.threads i).claims? = some token →
    s.files.get? (.consuming token i) = s₀.files.get? (.active token)

/-- The token is not in its place and no call made since `first` has it. -/
structure Gone (token : RefreshToken) (first : ThreadId) (s : State) : Prop where
  active : s.files.get? (.active token) = none
  claims : ∀ i, first ≤ i → (s.threads i).claims? ≠ some token

section unspent

variable {token : RefreshToken} {s₀ s s₁ : State} {t : ThreadId} {a : Act} {new : Pc}

/-- The call keeps what it has claimed, and leaves the files of the token in their places. -/
theorem Unspent.of_same (h : Unspent token s₀ s) (hthreads : s₁.threads = s.threads) (ht : s₀.nextThread ≤ t)
    (hpending : new.Pending token s₀.drawn.length) (hclaims : new.claims? = (s.threads t).claims?)
    (haccepted : ∀ session, new.session? = some session →
      (s₀.files.get? (.active token)).bind File.content = some (.token session.record))
    (hfiles : ∀ file, file.Untouched token s₀.drawn.length → s₁.files.get? file = s.files.get? file)
    (hconsumed : (s₁.files.get? (.consumed token)).bind File.content = none)
    (hcreated : ∀ n content, s₀.drawn.length ≤ n →
      (s₁.files.get? (.active (.drawn n))).bind File.content = some content → new.commits? = some n ∨
        (∃ content, (s.files.get? (.active (.drawn n))).bind File.content = some content) ∧
          ((s.threads t).commits? = some n → new.commits? = some n))
    (hhome : s₁.files.get? (.active token) = s.files.get? (.active token))
    (hlock : ∀ i, s₁.files.get? (.consuming token i) = s.files.get? (.consuming token i)) :
    Unspent token s₀ (s₁.setPc t new) := by
  have hother : ∀ i, i ≠ t → (s₁.setPc t new).threads i = s.threads i := by
    intro i hi
    rw [setPc_of_ne _ hi, hthreads]
  have hall : ∀ i, ((s₁.setPc t new).threads i).claims? = (s.threads i).claims? := by
    intro i
    by_cases hi : i = t
    · rw [hi, setPc_self, hclaims]
    · rw [hother i hi]
  refine ⟨fun i hi => ?_, fun i session hi hsession => ?_,
    fun file hfile => (hfiles file hfile).trans (h.files file hfile), hconsumed,
    fun n content hn hcontent => ?_, fun hnone => ?_, fun i hi hclaim => ?_⟩
  · by_cases heq : i = t
    · rw [heq, setPc_self]
      exact hpending
    · rw [hother i heq]
      exact h.pending i hi
  · by_cases heq : i = t
    · rw [heq, setPc_self] at hsession
      exact haccepted session hsession
    · rw [hother i heq] at hsession
      exact h.accepted i session hi hsession
  · rcases hcreated n content hn hcontent with hnew | ⟨⟨content', hold⟩, hcommits⟩
    · exact ⟨t, ht, by rw [setPc_self]; exact hnew⟩
    · obtain ⟨i, hi, hi'⟩ := h.created n content' hn hold
      refine ⟨i, hi, ?_⟩
      by_cases heq : i = t
      · rw [heq, setPc_self]
        exact hcommits (heq ▸ hi')
      · rw [hother i heq]
        exact hi'
  · exact hhome.trans (h.home fun i hi => by rw [← hall i]; exact hnone i hi)
  · rw [hall i] at hclaim
    exact (hlock i).trans (h.lock i hi hclaim)

/-- The same where no file changes. -/
theorem Unspent.of_files (h : Unspent token s₀ s) (hthreads : s₁.threads = s.threads) (hfiles : s₁.files = s.files)
    (ht : s₀.nextThread ≤ t) (hpending : new.Pending token s₀.drawn.length)
    (hclaims : new.claims? = (s.threads t).claims?) (hcommits : (s.threads t).commits? = none)
    (haccepted : ∀ session, new.session? = some session →
      (s₀.files.get? (.active token)).bind File.content = some (.token session.record)) :
    Unspent token s₀ (s₁.setPc t new) := by
  refine h.of_same hthreads ht hpending hclaims haccepted (fun _ _ => by rw [hfiles]) (by rw [hfiles]; exact h.consumed)
    (fun n content _ hcontent => .inr ⟨⟨content, by rw [← hfiles]; exact hcontent⟩, fun hn => ?_⟩) (by rw [hfiles])
    fun _ => by rw [hfiles]
  cases hcommits.symm.trans hn

/-- The call that had the token lets it go. -/
theorem claims_of_drop (hok : Ok s) (hthreads : s₁.threads = s.threads) (hclaims : (s.threads t).claims? = some token)
    (hnew : new.claims? = none) (i : ThreadId) : ((s₁.setPc t new).threads i).claims? ≠ some token := by
  intro hi
  by_cases heq : i = t
  · rw [heq, setPc_self, hnew] at hi
    cases hi
  · rw [setPc_of_ne _ heq, hthreads] at hi
    exact heq (hok.claims.unique i t token hi hclaims)

/-- The call drops what it has claimed. -/
theorem Gone.of_drop (hok : Ok s) (hclaims : (s.threads t).claims? = some token) (hnew : new.claims? = none) :
    Gone token s₀.nextThread (s.setPc t new) :=
  ⟨hok.claims.gone t token hclaims, fun i _ => claims_of_drop hok rfl hclaims hnew i⟩

/-- A call that is accepted has read the record that the token had. -/
theorem Unspent.accepted_move (h : Unspent token s₀ s) (ht : s₀.nextThread ≤ t)
    (hmove : Move s t a (s.threads t) s₁ new) (session : Session) (hnew : new.session? = some session) :
    (s₀.files.get? (.active token)).bind File.content = some (.token session.record) := by
  rcases hmove.keeps.session session hnew with hold | ⟨hold, hfile, -⟩
  · exact h.accepted t session ht hold
  · have hpending := h.pending t ht
    rw [hold] at hpending
    obtain rfl : session.token = token := hpending
    rw [← h.lock t ht (by rw [hold]; rfl)]
    exact hfile

/-- Where the refreshes with the token made since `s₀` stand: none has committed, or the token is dropped, or one has
committed. -/
inductive Stage (token : RefreshToken) (s₀ s : State) : Prop
  | unspent (h : Unspent token s₀ s)
  | gone (h : Gone token s₀.nextThread s)
  | spent {i : ThreadId} (hi : s₀.nextThread ≤ i) (h : (s.threads i).spends? = some token)

theorem Stage.of_reject (h : Unspent token s₀ s) (hok : Ok s) (ht : s₀.nextThread ≤ t)
    (hreject : Rejects (s.threads t) new) (hundo : UndoWorks s (.reject t)) : Stage token s₀ (s.setPc t new) := by
  have hmove : Move s t (.reject t) (s.threads t) s new := .reject hreject
  have haccepted := h.accepted_move ht hmove
  have hpending := h.pending t ht
  -- no file changes and the call keeps its claim
  have hsame : new.Pending token s₀.drawn.length → new.claims? = (s.threads t).claims? → (s.threads t).commits? = none →
      Stage token s₀ (s.setPc t new) := fun hnew hclaims hcommits =>
    .unspent (h.of_files rfl rfl ht hnew hclaims hcommits haccepted)
  generalize hpc : s.threads t = old at hreject hpending
  rw [hpc] at hsame
  cases hreject with
  | @sign origin =>
    refine hsame (pending_failed hpending _) ?_ rfl
    cases origin <;> rfl
  | @createOpen origin | @createWrite origin =>
    refine hsame (pending_failed hpending.1 _) ?_ rfl
    cases origin <;> rfl
  | claim | readConsumed => exact hsame trivial rfl rfl
  | readLock =>
    obtain rfl := hpending
    exact .gone (.of_drop hok (by rw [hpc]; rfl) rfl)
  | commitOpen | commitWrite | rollback => simp [UndoWorks, hpc] at hundo
  | _ => exact absurd hpending id

theorem Stage.of_read (h : Unspent token s₀ s) (hok : Ok s) (ht : s₀.nextThread ≤ t)
    (hread : Reads s t (s.threads t) new) : Stage token s₀ (s.setPc t new) := by
  have hmove : Move s t (.resume t) (s.threads t) s new := .read hread
  have haccepted := h.accepted_move ht hmove
  have hpending := h.pending t ht
  have hsame : new.Pending token s₀.drawn.length → new.claims? = (s.threads t).claims? → (s.threads t).commits? = none →
      Stage token s₀ (s.setPc t new) := fun hnew hclaims hcommits =>
    .unspent (h.of_files rfl rfl ht hnew hclaims hcommits haccepted)
  generalize hpc : s.threads t = old at hread hpending
  rw [hpc] at hsame
  cases hread with
  | unclaimed => exact hsame hpending rfl rfl
  | reused hfile hcontent =>
    obtain rfl := hpending
    have hconsumed := h.consumed
    rw [hfile] at hconsumed
    cases hconsumed.symm.trans hcontent
  | refused hnew => rcases hnew with rfl | rfl <;> exact hsame trivial rfl rfl
  | accepted => exact hsame (congrArg some hpending) rfl rfl
  | expired =>
    obtain rfl := hpending
    exact .gone (.of_drop hok (by rw [hpc]; rfl) rfl)
  | _ => exact absurd hpending id

/-- The token that a refresh creates is not the one that it has claimed. -/
theorem ne_of_creates (hok : Ok s) {m n : Nat} (hpending : (s.threads t).Pending token m)
    (hcreates : (s.threads t).creates? = some n) : Path.active token ≠ .active (.drawn n) := by
  intro heq
  obtain rfl := Path.active.inj heq
  have hclaims := claims_of_refreshing (.inl hpending) (.inl (by rw [hcreates]; nofun))
  exact hok.secret.hidden t t n hcreates (presents_of_claims hclaims)

theorem Unspent.truncate (h : Unspent token s₀ s) (hok : Ok s) (ht : s₀.nextThread ≤ t) {file : Path}
    (htruncate : Truncates s (s.threads t) file new) :
    Unspent token s₀ ((s.setFiles (s.files.truncate file)).setPc t new) := by
  have hmove : Move s t (.resume t) (s.threads t) (s.setFiles (s.files.truncate file)) new := .truncate htruncate
  have haccepted := h.accepted_move ht hmove
  have hpending := h.pending t ht
  have hget : ∀ file', file' ≠ file → (s.files.truncate file).get? file' = s.files.get? file' := by
    intro file' hne
    rw [Files.get?_truncate, if_neg hne]
  -- what can be read could be read before
  have hread : ∀ file' content, ((s.files.truncate file).get? file').bind File.content = some content →
      (s.files.get? file').bind File.content = some content := by
    intro file' content hcontent
    by_cases heq : file' = file
    · rw [Files.get?_truncate, if_pos heq] at hcontent
      cases hcontent
    · rwa [hget file' heq] at hcontent
  have hconsumed : ((s.files.truncate file).get? (.consumed token)).bind File.content = none := by
    rw [Option.eq_none_iff_forall_ne_some]
    intro content hcontent
    cases h.consumed.symm.trans (hread _ content hcontent)
  have hcreates := fun n => ne_of_creates (n := n) hok hpending
  generalize hpc : s.threads t = old at htruncate hpending hcreates
  cases htruncate with
  | @create origin pair =>
    refine h.of_same rfl ht hpending (by rw [hpc]; rfl) haccepted (fun file' hfile' => hget file' ?_) hconsumed
      (fun n content _ hcontent => .inr ⟨⟨content, hread _ content hcontent⟩, fun hn => ?_⟩) (hget _ (hcreates _ rfl))
      fun i => hget _ nofun
    · exact hfile'.2.2.2 pair.token hpending.2
    · rw [hpc] at hn
      cases hn
  | commit =>
    obtain ⟨rfl, hm⟩ := hpending
    refine h.of_same rfl ht ⟨rfl, hm⟩ (by rw [hpc]; rfl) haccepted (fun file' hfile' => hget file' hfile'.2.1) hconsumed
      (fun n content _ hcontent => .inr ⟨⟨content, hread _ content hcontent⟩, fun hn => ?_⟩) (hget _ nofun)
      fun i => hget _ nofun
    rw [hpc] at hn
    exact hn
  | add => exact absurd hpending id

theorem Unspent.create (h : Unspent token s₀ s) (hok : Ok s) (ht : s₀.nextThread ≤ t) {origin : Origin}
    {pair : TokenPair} {record : RefreshTokenRecord} {inode : Nat}
    (hpc : s.threads t = .createWrite origin pair record inode) :
    Unspent token s₀ ({ s.setFiles (s.files.write inode (.token record)) with
      created := s.created ++ [pair.token] }.setPc t (origin.issued pair)) := by
  have hmove : Move s t (.resume t) (s.threads t) { s.setFiles (s.files.write inode (.token record)) with
      created := s.created ++ [pair.token] } (origin.issued pair) := by
    rw [hpc]
    exact .create
  have haccepted := h.accepted_move ht hmove
  have hpending := h.pending t ht
  have hne := ne_of_creates hok hpending (n := pair.token) (by rw [hpc]; rfl)
  have hget : ∀ file, file ≠ .active (.drawn pair.token) →
      (s.files.write inode (.token record)).get? file = s.files.get? file := fun file hfile =>
    hok.files.get?_write_of_ne (t := t) (by rw [hpc]; rfl) hfile
  rw [hpc] at hpending
  cases origin with
  | login => cases hpending.1
  | rotation session =>
    refine h.of_same rfl ht (pending_issued hpending.1 hpending.2) (by rw [hpc]; rfl) haccepted
      (fun file hfile => hget file (hfile.2.2.2 pair.token hpending.2)) ?_ (fun n content hn hcontent => ?_) (hget _ hne)
      fun i => hget _ nofun
    · exact (congrArg (Option.bind · File.content) (hget (.consumed token) nofun)).trans h.consumed
    · by_cases heq : n = pair.token
      · exact .inl (congrArg some heq.symm)
      · refine .inr ⟨⟨content, ?_⟩, fun hcommits => ?_⟩
        · have hne' : Path.active (.drawn n) ≠ .active (.drawn pair.token) := fun heq' =>
            heq (RefreshToken.drawn.inj (Path.active.inj heq'))
          exact (congrArg (Option.bind · File.content) (hget _ hne')).symm.trans hcontent
        · rw [hpc] at hcommits
          cases hcommits

theorem Unspent.claim (h : Unspent token s₀ s) (hok : Ok s) (ht : s₀.nextThread ≤ t) {token' : RefreshToken}
    (hpc : s.threads t = .claim token') {f : File Content} (hfile : s.files.get? (.active token') = some f) :
    Unspent token s₀ ((s.setFiles (s.files.rename (.active token') (.consuming token' t))).setPc t (.readLock token')) := by
  have hpending := h.pending t ht
  rw [hpc] at hpending
  obtain rfl : token' = token := hpending
  have hnobody : ∀ i, (s.threads i).claims? ≠ some token' := by
    intro i hi
    cases (hok.claims.gone i token' hi).symm.trans hfile
  have hhome := h.home fun i _ => hnobody i
  have hget : ∀ path, (s.files.rename (.active token') (.consuming token' t)).get? path = _ := Files.get?_rename hfile
  have hother : ∀ i, i ≠ t → ((s.setFiles (s.files.rename (.active token') (.consuming token' t))).setPc t
      (.readLock token')).threads i = s.threads i := fun i hi => setPc_of_ne _ hi _
  refine ⟨fun i hi => ?_, fun i session hi hsession => ?_, fun file hfile' => ?_, ?_, fun n content hn hcontent => ?_,
    fun hnone => ?_, fun i hi hclaims => ?_⟩
  · by_cases heq : i = t
    · rw [heq, setPc_self]
      rfl
    · rw [hother i heq]
      exact h.pending i hi
  · by_cases heq : i = t
    · rw [heq, setPc_self] at hsession
      cases hsession
    · rw [hother i heq] at hsession
      exact h.accepted i session hi hsession
  · refine (hget file).trans ?_
    rw [if_neg (hfile'.2.2.1 t), if_neg hfile'.1]
    exact h.files file hfile'
  · refine (congrArg (Option.bind · File.content) (hget _)).trans ?_
    rw [if_neg nofun, if_neg nofun]
    exact h.consumed
  · have hold : (s.files.get? (.active (.drawn n))).bind File.content = some content := by
      have hafter := (congrArg (Option.bind · File.content) (hget (.active (.drawn n)))).symm.trans hcontent
      rw [if_neg nofun] at hafter
      split at hafter
      · cases hafter
      · exact hafter
    obtain ⟨i, hi, hcommits⟩ := h.created n content hn hold
    refine ⟨i, hi, ?_⟩
    rw [hother i]
    · exact hcommits
    · rintro rfl
      rw [hpc] at hcommits
      cases hcommits
  · exact absurd (by rw [setPc_self]; rfl) (hnone t ht)
  · by_cases heq : i = t
    · subst heq
      refine (hget _).trans ?_
      rw [if_pos rfl, ← hfile]
      exact hhome
    · rw [hother i heq] at hclaims
      exact absurd hclaims (hnobody i)

/-- The file is back in its place. -/
theorem Unspent.rollback (h : Unspent token s₀ s) (hok : Ok s) (hinit : FilesOk s₀) (ht : s₀.nextThread ≤ t)
    {session : Session} {pair : Option TokenPair} (hpc : s.threads t = .rollback session pair) :
    Unspent token s₀
      ((s.setFiles (s.files.rename (.consuming session.token t) (.active session.token))).setPc t .failed) := by
  have hpending := h.pending t ht
  rw [hpc] at hpending
  obtain rfl : session.token = token := hpending
  have hclaims : (s.threads t).claims? = some session.token := by rw [hpc]; rfl
  have hactive : (s.files.rename (.consuming session.token t) (.active session.token)).get? (.active session.token) =
      s₀.files.get? (.active session.token) := by
    rw [← h.lock t ht hclaims]
    cases hfile : s.files.get? (.consuming session.token t) with
    | none => rw [Files.rename_of_none hfile, hok.claims.gone t session.token hclaims]
    | some f => rw [Files.get?_rename hfile, if_pos rfl]
  have hget : ∀ file, file ≠ .active session.token → file ≠ .consuming session.token t →
      (s.files.rename (.consuming session.token t) (.active session.token)).get? file = s.files.get? file := by
    intro file hne hne'
    cases hfile : s.files.get? (.consuming session.token t) with
    | none => rw [Files.rename_of_none hfile]
    | some f => rw [Files.get?_rename hfile, if_neg hne, if_neg hne']
  have hother : ∀ i, i ≠ t → ((s.setFiles (s.files.rename (.consuming session.token t)
      (.active session.token))).setPc t .failed).threads i = s.threads i := fun i hi => setPc_of_ne _ hi _
  refine ⟨fun i hi => ?_, fun i session' hi hsession => ?_, fun file hfile => ?_, ?_, fun n content hn hcontent => ?_,
    fun _ => hactive, fun i _ hi => absurd hi (claims_of_drop hok rfl hclaims rfl i)⟩
  · by_cases heq : i = t
    · rw [heq, setPc_self]
      trivial
    · rw [hother i heq]
      exact h.pending i hi
  · by_cases heq : i = t
    · rw [heq, setPc_self] at hsession
      cases hsession
    · rw [hother i heq] at hsession
      exact h.accepted i session' hi hsession
  · exact (hget file hfile.1 (hfile.2.2.1 t)).trans (h.files file hfile)
  · exact (congrArg (Option.bind · File.content) (hget (.consumed session.token) nofun nofun)).trans h.consumed
  · -- a token drawn since `s₀` is not the one that is moved back
    have hne : Path.active (.drawn n) ≠ .active session.token := by
      intro heq
      rw [heq] at hcontent
      obtain ⟨f, hf, -⟩ := Option.bind_eq_some_iff.1 (hactive ▸ hcontent)
      obtain ⟨m, hm, hlt⟩ := hinit.token _ f session.token hf rfl
      rw [hm] at heq
      cases heq
      exact absurd hn (Nat.not_le_of_lt hlt)
    obtain ⟨i, hi, hcommits⟩ := h.created n content hn
      ((congrArg (Option.bind · File.content) (hget _ hne nofun)).symm.trans hcontent)
    refine ⟨i, hi, ?_⟩
    rw [hother i]
    · exact hcommits
    · rintro rfl
      rw [hpc] at hcommits
      cases hcommits

theorem Unspent.move (h : Unspent token s₀ s) (hok : Ok s) (hinit : FilesOk s₀)
    (hdrawn : s₀.drawn.length ≤ s.drawn.length) (ht : s₀.nextThread ≤ t)
    (hmove : Move s t a (s.threads t) s₁ new) (hundo : UndoWorks s a) : Stage token s₀ (s₁.setPc t new) := by
  have hpending := h.pending t ht
  have haccepted := h.accepted_move ht hmove
  generalize hpc : s.threads t = old at hmove
  cases hmove with
  | reject hreject => exact .of_reject h hok ht (hpc ▸ hreject) hundo
  | read hread => exact .of_read h hok ht (hpc ▸ hread)
  | sign =>
    rw [hpc] at hpending
    exact .unspent (h.of_files rfl rfl ht ⟨hpending, hdrawn⟩ (by rw [hpc]; rfl) (by rw [hpc]; rfl) haccepted)
  | truncate htruncate => exact .unspent (h.truncate hok ht (hpc ▸ htruncate))
  | create => exact .unspent (h.create hok ht hpc)
  | commit =>
    rw [hpc] at hpending
    exact .spent ht (by rw [setPc_self]; exact congrArg some hpending.1)
  | claim hfile => exact .unspent (h.claim hok ht hpc hfile)
  | rollback => exact .unspent (h.rollback hok hinit ht hpc)
  | unlink hunlink =>
    rw [hpc] at hpending
    cases hunlink <;> exact absurd hpending id
  | add | list =>
    rw [hpc] at hpending
    exact absurd hpending id

end unspent

/-! ### Every step -/

/-- A token that is gone stays so: no call that has it is left to move it back. -/
theorem Gone.step {token : RefreshToken} {first m : Nat} {s s' : State} {a : Act} (h : Gone token first s)
    (hrefreshing : ∀ i, first ≤ i → (s.threads i).Refreshing token m) (hpresenting : Presenting token first a)
    (hstep : StepMove s a s') : Gone token first s' := by
  refine ⟨?_, fun i hi hclaims => ?_⟩
  · rw [Option.eq_none_iff_forall_ne_some]
    intro f hf
    cases hstep with
    | tick | start => cases h.active.symm.trans hf
    | @call _ t s₁ new hmove =>
      have hno : ∀ {pc : Pc}, s.threads t = pc → first ≤ t →
          ¬(pc.creates? ≠ none ∨ ∃ session pair, pc = .rollback session pair) := by
        rintro pc rfl ht hpc
        exact h.claims t ht (claims_of_refreshing (hrefreshing t ht) hpc)
      cases hmove.fileMove hf with
      | kept hfile | written hfile => cases h.active.symm.trans hfile
      | opened hact htruncate =>
        subst hact
        generalize hpc : s.threads t = old at htruncate
        cases htruncate with
        | create => exact hno hpc hpresenting (.inl nofun)
      | claimed _ _ hname => cases hname
      | restored hact hpc =>
        subst hact
        exact hno hpc hpresenting (.inr ⟨_, _, rfl⟩)
  · rcases claims_step hstep i token hclaims with hold | ⟨-, -, ⟨f, hf⟩, -⟩
    · exact h.claims i hi hold
    · cases h.active.symm.trans hf

/-- What holds in a run of refreshes with the token from `s₀`. -/
structure Rotating (token : RefreshToken) (s₀ s : State) : Prop where
  ok : Ok s
  drawn : s₀.drawn <+: s.drawn
  first_le : s₀.nextThread ≤ s.nextThread
  refreshing : ∀ i, s₀.nextThread ≤ i → (s.threads i).Refreshing token s₀.drawn.length
  stage : Stage token s₀ s

namespace Rotating

variable {token : RefreshToken} {s₀ s s' : State}

theorem start (h : Spent s₀) : Rotating token s₀ s₀ := by
  have habsent : ∀ i, s₀.nextThread ≤ i → s₀.threads i = .absent := h.ok.fresh
  refine ⟨h.ok, List.prefix_rfl, Nat.le_refl _, fun i hi => .inl (by rw [habsent i hi]; trivial), ?_⟩
  cases hconsumed : (s₀.files.get? (.consumed token)).bind File.content with
  | some content => exact .gone ⟨h.gone token content hconsumed, fun i hi => by rw [habsent i hi]; nofun⟩
  | none =>
    refine .unspent ⟨fun i hi => by rw [habsent i hi]; trivial, fun i session hi hsession => ?_, fun _ _ => rfl,
      hconsumed, fun n content hn hcontent => ?_, fun _ => rfl, fun i hi hclaims => ?_⟩
    · rw [habsent i hi] at hsession
      cases hsession
    · obtain ⟨f, hf, -⟩ := Option.bind_eq_some_iff.1 hcontent
      obtain ⟨k, hk, hlt⟩ := h.ok.files.token _ f (.drawn n) hf rfl
      cases hk
      exact absurd hn (Nat.not_le_of_lt hlt)
    · rw [habsent i hi] at hclaims
      cases hclaims

theorem stage_step (h : Rotating token s₀ s) (hinit : FilesOk s₀) {a : Act}
    (hpresenting : Presenting token s₀.nextThread a) (hundo : UndoWorks s a) (hstep : StepMove s a s') :
    Stage token s₀ s' := by
  cases h.stage with
  | gone hgone => exact .gone (hgone.step h.refreshing hpresenting hstep)
  | spent hi hspends => exact .spent hi (spends_step h.ok.fresh hstep hspends)
  | unspent hunspent =>
    cases hstep with
    | tick => exact .unspent ⟨hunspent.pending, hunspent.accepted, hunspent.files, hunspent.consumed, hunspent.created,
        hunspent.home, hunspent.lock⟩
    | @start _ pc hs =>
      cases hs with
      | @refresh token' =>
        obtain rfl : token = token' := hpresenting.symm
        have habsent : s.threads s.nextThread = .absent := h.ok.fresh _ (Nat.le_refl _)
        have hsame : Unspent token s₀ (s.setPc s.nextThread (.claim token)) := hunspent.of_files rfl rfl h.first_le rfl
          (by rw [habsent]; rfl) (by rw [habsent]; rfl) nofun
        exact .unspent ⟨hsame.pending, hsame.accepted, hsame.files, hsame.consumed, hsame.created, hsame.home,
          hsame.lock⟩
      | _ => exact absurd hpresenting id
    | @call _ t s₁ new hmove =>
      have ht : s₀.nextThread ≤ t := by
        generalize s.threads t = old at hmove
        cases hmove <;> exact hpresenting
      exact hunspent.move h.ok hinit h.drawn.length_le ht hmove hundo

theorem step (h : Rotating token s₀ s) (hinit : FilesOk s₀) {a : Act}
    (hpresenting : Presenting token s₀.nextThread a) (hundo : UndoWorks s a) (hstep : Token.step s a = some s') :
    Rotating token s₀ s' := by
  have hmoves := step_move hstep
  refine ⟨h.ok.step hstep, h.drawn.trans (drawn_step hmoves).1,
    Nat.le_trans h.first_le (nextThread_step hmoves), ?_, h.stage_step hinit hpresenting hundo hmoves⟩
  refine hmoves.forall_threads (P := fun i pc => s₀.nextThread ≤ i → pc.Refreshing token s₀.drawn.length)
    h.refreshing (fun pc hs _ _ => ?_) fun t new s₁ hmove _ ht => hmove.refreshing h.drawn.length_le (h.refreshing t ht)
  cases hs with
  | refresh =>
    obtain rfl := hpresenting
    exact .inl rfl
  | _ => exact absurd hpresenting id

/-- Where a refresh is about to roll back, no other has committed and the token is with the call. -/
theorem unspent (h : Rotating token s₀ s) {i : ThreadId} (hi : s₀.nextThread ≤ i) {session : Session}
    {pair : Option TokenPair} (hpc : s.threads i = .rollback session pair) : Unspent token s₀ s := by
  have hclaims : (s.threads i).claims? = some token :=
    claims_of_refreshing (h.refreshing i hi) (.inr ⟨session, pair, hpc⟩)
  cases h.stage with
  | unspent h => exact h
  | gone h => exact absurd hclaims (h.claims i hi)
  | @spent j _ hspends =>
    obtain rfl := h.ok.claims.unique i j token hclaims (claims_of_spends hspends)
    rw [hpc] at hspends
    cases hspends

end Rotating

/-- After a rollback the live tokens are those of `s₀`, and the token that was presented is one of them. -/
theorem Unspent.live_rollback {token : RefreshToken} {s₀ s : State} {i : ThreadId} (h : Unspent token s₀ s) (hok : Ok s)
    (hinit : FilesOk s₀) (hi : s₀.nextThread ≤ i) (hdrawn : s₀.drawn <+: s.drawn) {session : Session}
    {pair : Option TokenPair} (hpc : s.threads i = .rollback session pair) :
    let s' := (s.setFiles (s.files.rename (.consuming session.token i) (.active session.token))).setPc i .failed
    (∀ n, s'.live n ↔ s₀.live n) ∧ ∃ n, session.token = .drawn n ∧ s'.live n := by
  intro s'
  have hpending := h.pending i hi
  rw [hpc] at hpending
  obtain rfl : session.token = token := hpending
  have hclaims : (s.threads i).claims? = some session.token := by rw [hpc]; rfl
  have hundone : Unspent session.token s₀ s' := h.rollback hok hinit hi hpc
  have hhome := hundone.home fun j _ => claims_of_drop hok rfl hclaims rfl j
  have hlive : ∀ n, s'.live n ↔ s₀.live n := by
    intro n
    rcases Nat.lt_or_ge n s₀.drawn.length with hlt | hge
    · have hsame : s'.files.get? (.active (.drawn n)) = s₀.files.get? (.active (.drawn n)) := by
        by_cases htoken : RefreshToken.drawn n = session.token
        · rw [htoken]
          exact hhome
        · refine hundone.files _ ⟨fun heq => htoken (Path.active.inj heq), nofun, fun _ => nofun, ?_⟩
          rintro k hk ⟨⟩
          exact absurd hk (Nat.not_le_of_lt hlt)
      have hrecord : s'.drawn[n]? = s₀.drawn[n]? := by
        obtain ⟨d, hd⟩ : ∃ d, s₀.drawn[n]? = some d := ⟨_, List.getElem?_eq_getElem hlt⟩
        rw [hd]
        exact getElem?_mono hdrawn hd
      unfold State.live
      rw [hsame, hrecord]
    · refine iff_of_false ?_ ?_
      · rintro ⟨d, -, hcontent⟩
        obtain ⟨j, hj, hcommits⟩ := hundone.created n _ hge hcontent
        have hj' : (s'.threads j).claims? = some session.token := by
          have hpending' := hundone.pending j hj
          generalize s'.threads j = pc at hcommits hpending'
          cases pc <;> first | exact congrArg some hpending'.1 | cases hcommits
        exact claims_of_drop hok rfl hclaims rfl j hj'
      · rintro ⟨d, hd, -⟩
        exact absurd (List.getElem?_eq_some_iff.1 hd).1 (Nat.not_lt_of_le hge)
  obtain ⟨n, d, htoken, hd, hrecord⟩ := (hok.files.known i).session session (by rw [hpc]; rfl)
  refine ⟨hlive, n, htoken, d, hd, ?_⟩
  rw [← htoken, ← hrecord, hhome]
  exact h.accepted i session hi (by rw [hpc]; rfl)

/-- At most one refresh with a token returns a token pair.  Where no commit fails, a refresh that fails after it was
accepted throws and leaves the tokens that are live as they were, the one that was presented among them. -/
theorem refresh_once_or_undone {as : List Act} {s₀ : State} (hinit : Run step Always State.fresh as s₀) :
    (∀ i j token pair pair', s₀.threads i = .refreshed token pair → s₀.threads j = .refreshed token pair' → i = j) ∧
    ∀ bs s₁ s₂ token i session pair,
      Run step (fun s a => Presenting token s₀.nextThread a ∧ UndoWorks s a) s₀ bs s₁ → s₀.nextThread ≤ i →
      s₁.threads i = .rollback session pair → step s₁ (.resume i) = some s₂ →
      s₂.threads i = .failed ∧ (∀ n, s₂.live n ↔ s₀.live n) ∧ ∃ n, token = .drawn n ∧ s₂.live n := by
  refine ⟨fun i j token pair pair' hi hj => ?_, fun bs s₁ s₂ token i session pair hrun hi hpc hstep => ?_⟩
  · have hok : Ok s₀ := Ok.run hinit
    exact hok.claims.unique i j token (by rw [hi]; rfl) (by rw [hj]; rfl)
  · have hspent : Spent s₀ := Spent.run hinit
    have hrotating : Rotating token s₀ s₁ := hrun.invariant
      (fun _ _ _ h hok hstep => h.step hspent.ok.files hok.1 hok.2 hstep) (.start hspent)
    have hunspent := hrotating.unspent hi hpc
    have hafter := hunspent.live_rollback hrotating.ok hspent.ok.files hi hrotating.drawn hpc
    have hpending := hunspent.pending i hi
    rw [hpc] at hpending
    obtain rfl : session.token = token := hpending
    simp only [step, resume, hpc, Option.some.injEq] at hstep
    subst hstep
    exact ⟨setPc_self _ _ _, hafter⟩

/-- Signing fails for one of two refreshes with the token of a login, and the other has not found the token. -/
theorem refresh_once_or_undone_sign : ∃ s₀ s₁ s₂ session pair, Run step Always State.fresh
      ([.login "user1"] ++ resumes 0 3) s₀ ∧
    Run step (fun s a => Presenting (.drawn 0) s₀.nextThread a ∧ UndoWorks s a) s₀
      ([.refresh (.drawn 0), .refresh (.drawn 0)] ++ resumes 1 2 ++ resumes 2 2 ++ [.reject 1]) s₁ ∧
    s₁.threads 1 = .rollback session pair ∧ step s₁ (.resume 1) = some s₂ ∧
    s₂.threads 1 = .failed ∧ (∀ n, s₂.live n ↔ s₀.live n) ∧ ∃ n, RefreshToken.drawn 0 = .drawn n ∧ s₂.live n := by
  have hrun : ∃ s₀, Run step Always State.fresh ([.login "user1"] ++ resumes 0 3) s₀ ∧ s₀.nextThread ≤ 1 ∧
      ((runChecked step (fun s a => Presenting (.drawn 0) s₀.nextThread a ∧ UndoWorks s a) s₀
        ([.refresh (.drawn 0), .refresh (.drawn 0)] ++ resumes 1 2 ++ resumes 2 2 ++ [.reject 1])).any fun s =>
          (step s (.resume 1)).isSome && s.threads 1 =
            .rollback ⟨.drawn 0, ⟨"user1", 0, refreshTokenExpiresMs, 0⟩⟩ none) = true := exists_run (by decide)
  obtain ⟨s₀, hinit, hnext, hafter⟩ := hrun
  obtain ⟨s₁, hrun, hs₁⟩ := exists_run (P := fun s : State => ((step s (.resume 1)).isSome && s.threads 1 =
    .rollback ⟨.drawn 0, ⟨"user1", 0, refreshTokenExpiresMs, 0⟩⟩ none) = true) (by simpa using hafter)
  simp only [Bool.and_eq_true, decide_eq_true_eq] at hs₁
  obtain ⟨s₂, hstep⟩ := Option.isSome_iff_exists.1 hs₁.1
  exact ⟨s₀, s₁, s₂, _, _, hinit, hrun, hs₁.2, hstep,
    (refresh_once_or_undone hinit).2 _ s₁ s₂ _ 1 _ _ hrun hnext hs₁.2 hstep⟩

/-- The write of the consumed record fails: the refresh throws, and the token that it has created is live. -/
theorem refresh_once_or_undone_fails : ∃ s₀ s₁ s₂ session pair, Run step Always State.fresh
      ([.login "user1"] ++ resumes 0 3) s₀ ∧
    Run step (fun _ a => Presenting (.drawn 0) s₀.nextThread a) s₀
      ([.refresh (.drawn 0)] ++ resumes 1 5 ++ [.reject 1]) s₁ ∧
    s₁.threads 1 = .rollback session pair ∧ step s₁ (.resume 1) = some s₂ ∧ s₂.threads 1 = .failed ∧
    ¬ s₀.live 1 ∧ s₂.live 1 := by
  have hrun : ∃ s₀, Run step Always State.fresh ([.login "user1"] ++ resumes 0 3) s₀ ∧ ¬ s₀.live 1 ∧
      ((runChecked step (fun _ a => Presenting (.drawn 0) s₀.nextThread a) s₀
        ([.refresh (.drawn 0)] ++ resumes 1 5 ++ [.reject 1])).any fun s => s.threads 1 =
            .rollback ⟨.drawn 0, ⟨"user1", 0, refreshTokenExpiresMs, 0⟩⟩ (some ⟨1, 1⟩) &&
          (step s (.resume 1)).any fun s => s.threads 1 = .failed && s.live 1) = true := exists_run (by decide)
  obtain ⟨s₀, hinit, hdead, hafter⟩ := hrun
  obtain ⟨s₁, hrun, hs₁⟩ := exists_run (P := fun s : State => (s.threads 1 =
      .rollback ⟨.drawn 0, ⟨"user1", 0, refreshTokenExpiresMs, 0⟩⟩ (some ⟨1, 1⟩) &&
    (step s (.resume 1)).any fun s => s.threads 1 = .failed && s.live 1) = true) (by simpa using hafter)
  simp only [Bool.and_eq_true, decide_eq_true_eq, Option.any_eq_true] at hs₁
  obtain ⟨hpc, s₂, hstep, hfailed, hlive⟩ := hs₁
  exact ⟨s₀, s₁, s₂, _, _, hinit, hrun, hpc, hstep, hfailed, hdead, hlive⟩

end CubridWebManager.Token
