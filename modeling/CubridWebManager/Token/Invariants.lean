import CubridWebManager.Token.Moves

/-!
# Invariants of the token stores

What holds in every state that is reached from the empty stores, whatever the calls do and whichever operations fail:
a file has the content that its name promises (`Proper`), a token that is being created is nobody's (`Secret`), a
writer's file has kept its name (`Writers`), and a token that one call has claimed is claimed by no other and is not in
its place (`Claims`).
-/

namespace CubridWebManager.Token

/-! ### The calls -/

def Origin.session? : Origin → Option Session
  | .login _ => none
  | .rotation session => some session

namespace Pc

/-- The token that the call has been accepted with. -/
def session? : Pc → Option Session
  | .sign origin | .createOpen origin _ _ | .createWrite origin _ _ _ => origin.session?
  | .commitOpen session _ | .commitWrite session _ _ _ | .commitUnlink session _ | .rollback session _ => some session
  | _ => none

/-- The token that the call has claimed, to the end if it returns. -/
def claims? : Pc → Option RefreshToken
  | .readLock token | .refreshed token _ => some token
  | pc => pc.session?.map Session.token

/-- The token that the call was made with. -/
def presents? : Pc → Option RefreshToken
  | .claim token | .readConsumed token | .dropLock token | .revoke token => some token
  | .addOpen _ _ token | .addWrite _ _ token _ => token
  | pc => pc.claims?

/-- What the call creates a token from. -/
def creating? : Pc → Option (Origin × TokenPair × RefreshTokenRecord)
  | .createOpen origin pair record | .createWrite origin pair record _ => some (origin, pair, record)
  | _ => none

/-- The entry that the call adds. -/
def adding? : Pc → Option (Jti × Nat)
  | .addOpen jti expiresAt _ | .addWrite jti expiresAt _ _ => some (jti, expiresAt)
  | _ => none

/-- The file that the call is writing, and its name when it was opened. -/
def writes? : Pc → Option (Nat × Path)
  | .createWrite _ pair _ inode => some (inode, .active (.drawn pair.token))
  | .commitWrite session _ _ inode => some (inode, .consumed session.token)
  | .addWrite jti _ _ inode => some (inode, .entry jti)
  | _ => none

end Pc

theorem creates_eq (pc : Pc) : pc.creates? = pc.creating?.map fun c => c.2.1.token := by
  cases pc <;> rfl

/-- The call holds no token and no file. -/
structure Pc.Idle (pc : Pc) : Prop where
  presents : pc.presents? = none
  claims : pc.claims? = none
  session : pc.session? = none
  creating : pc.creating? = none
  adding : pc.adding? = none
  writes : pc.writes? = none

theorem next_idle (sweep : Sweep) (rest : List Path) : (sweep.next rest).Idle := by
  cases rest with
  | cons file rest => exact ⟨rfl, rfl, rfl, rfl, rfl, rfl⟩
  | nil => cases sweep <;> exact ⟨rfl, rfl, rfl, rfl, rfl, rfl⟩

/-- What a call holds after a transition: it presents no other token, it was accepted with the same session or just now,
and it creates and writes nothing new but when it draws a token or opens a file. -/
structure Keeps (s : State) (t : ThreadId) (old new : Pc) : Prop where
  presents : ∀ token, new.presents? = some token → old.presents? = some token
  claims : ∀ token, new.claims? = some token → old.claims? = some token ∨ old = .claim token ∧ new = .readLock token
  session : ∀ session, new.session? = some session → old.session? = some session ∨ old = .readLock session.token ∧
    (s.files.get? (.consuming session.token t)).bind File.content = some (.token session.record) ∧
      s.now < session.record.expiresAt
  creating : ∀ c, new.creating? = some c → old.creating? = some c ∨ ∃ origin, old = .sign origin ∧
    c = (origin, ⟨s.signed.length, s.drawn.length⟩, s.newRecord origin)
  adding : ∀ entry, new.adding? = some entry → old.adding? = some entry
  writes : ∀ inode file, new.writes? = some (inode, file) → inode = s.files.inodeOf file ∧ Truncates s old file new

theorem Keeps.of_idle {s : State} {t : ThreadId} {old new : Pc} (h : new.Idle) : Keeps s t old new where
  presents token hnew := by cases h.presents.symm.trans hnew
  claims token hnew := by cases h.claims.symm.trans hnew
  session session hnew := by cases h.session.symm.trans hnew
  creating c hnew := by cases h.creating.symm.trans hnew
  adding entry hnew := by cases h.adding.symm.trans hnew
  writes inode file hnew := by cases h.writes.symm.trans hnew

/-- A call that goes on with the same tokens and writes nothing. -/
theorem Keeps.of_same {s : State} {t : ThreadId} {old new : Pc} (hpresents : new.presents? = old.presents?)
    (hclaims : new.claims? = old.claims? ∨ new.claims? = none) (hsession : new.session? = old.session?)
    (hcreating : new.creating? = none) (hadding : new.adding? = none) (hwrites : new.writes? = none) :
    Keeps s t old new where
  presents token hnew := hpresents ▸ hnew
  claims token hnew := by
    rcases hclaims with h | h
    · exact .inl (h ▸ hnew)
    · cases h.symm.trans hnew
  session session hnew := .inl (hsession ▸ hnew)
  creating c hnew := by cases hcreating.symm.trans hnew
  adding entry hnew := by cases hadding.symm.trans hnew
  writes inode file hnew := by cases hwrites.symm.trans hnew

namespace Move

variable {s s₁ : State} {t : ThreadId} {a : Act} {old new : Pc}

theorem threads (h : Move s t a old s₁ new) : s₁.threads = s.threads := by
  cases h <;> rfl

theorem nextThread (h : Move s t a old s₁ new) : s₁.nextThread = s.nextThread := by
  cases h <;> rfl

theorem ne_absent (h : Move s t a old s₁ new) : old ≠ .absent := by
  rintro rfl
  cases h with
  | reject hreject => cases hreject
  | read hread => cases hread
  | truncate htruncate => cases htruncate
  | unlink hunlink => cases hunlink

end Move

theorem Rejects.keeps {s : State} {t : ThreadId} {old new : Pc} (h : Rejects old new) : Keeps s t old new := by
  cases h with
  | @sign origin | @createOpen origin | @createWrite origin =>
    cases origin <;> exact .of_same rfl (.inl rfl) rfl rfl rfl rfl
  | sweepCatch => exact .of_idle (next_idle _ _)
  | readLock => exact .of_same rfl (.inr rfl) rfl rfl rfl rfl
  | commitOpen | commitWrite => exact .of_same rfl (.inl rfl) rfl rfl rfl rfl
  | commitUnlink => exact ⟨fun _ h => h, fun _ h => .inl h, nofun, nofun, nofun, nofun⟩
  | _ => exact .of_idle ⟨rfl, rfl, rfl, rfl, rfl, rfl⟩

theorem Reads.keeps {s : State} {t : ThreadId} {old new : Pc} (h : Reads s t old new) : Keeps s t old new := by
  cases h with
  | unclaimed => exact .of_same rfl (.inl rfl) rfl rfl rfl rfl
  | refused hnew => rcases hnew with rfl | rfl <;> exact .of_idle ⟨rfl, rfl, rfl, rfl, rfl, rfl⟩
  | accepted hfile hlive =>
    refine ⟨fun _ h => h, fun _ h => .inl h, fun session hnew => .inr ?_, nofun, nofun, nofun⟩
    obtain rfl := Option.some.inj hnew
    exact ⟨rfl, hfile, hlive⟩
  | expired => exact .of_same rfl (.inr rfl) rfl rfl rfl rfl
  | spared => exact .of_idle (next_idle _ _)
  | _ => exact .of_idle ⟨rfl, rfl, rfl, rfl, rfl, rfl⟩

theorem Truncates.keeps {s : State} {t : ThreadId} {old new : Pc} {file : Path} (h : Truncates s old file new) :
    Keeps s t old new := by
  cases h with
  | create | commit | add =>
    refine ⟨fun _ h => h, fun _ h => .inl h, fun _ h => .inl h, fun _ h => .inl h, fun _ h => h,
      fun inode file hnew => ?_⟩
    obtain ⟨rfl, rfl⟩ := Prod.mk.inj (Option.some.inj hnew)
    exact ⟨rfl, by constructor⟩

theorem Unlinks.keeps {s : State} {t : ThreadId} {old new : Pc} {file : Path} (h : Unlinks s t old file new) :
    Keeps s t old new := by
  cases h with
  | commit => exact ⟨fun _ h => h, fun _ h => .inl h, nofun, nofun, nofun, nofun⟩
  | sweep | sweepCatch => exact .of_idle (next_idle _ _)
  | _ => exact .of_idle ⟨rfl, rfl, rfl, rfl, rfl, rfl⟩

theorem Move.keeps {s s₁ : State} {t : ThreadId} {a : Act} {old new : Pc} (h : Move s t a old s₁ new) :
    Keeps s t old new := by
  cases h with
  | reject hreject => exact hreject.keeps
  | read hread => exact hread.keeps
  | truncate htruncate => exact htruncate.keeps
  | unlink hunlink => exact hunlink.keeps
  | @sign origin =>
    refine ⟨fun _ h => h, fun _ h => .inl h, fun _ h => .inl h, fun c hnew => .inr ⟨origin, rfl, ?_⟩, nofun, nofun⟩
    exact (Option.some.inj hnew).symm
  | @create origin => cases origin <;> exact .of_same rfl (.inl rfl) rfl rfl rfl rfl
  | commit => exact .of_same rfl (.inl rfl) rfl rfl rfl rfl
  | @add _ _ token => cases token <;> exact .of_same rfl (.inl rfl) rfl rfl rfl rfl
  | claim =>
    exact ⟨fun _ h => h, fun token hnew => .inr ⟨by cases hnew; rfl, by cases hnew; rfl⟩, nofun, nofun, nofun, nofun⟩
  | rollback => exact .of_idle ⟨rfl, rfl, rfl, rfl, rfl, rfl⟩
  | list => exact .of_idle (next_idle _ _)

/-- Only signing leads on to a token that is created. -/
theorem Move.of_sign {s s₁ : State} {t : ThreadId} {a : Act} {origin : Origin} {new : Pc}
    (h : Move s t a (.sign origin) s₁ new) (hnew : new.creating? ≠ none) : a = .resume t ∧ s₁ = s.draw origin := by
  cases h with
  | sign => exact ⟨rfl, rfl⟩
  | reject hreject =>
    cases hreject
    cases origin <;> exact absurd rfl hnew
  | read hread => cases hread
  | truncate htruncate => cases htruncate
  | unlink hunlink => cases hunlink

/-! ### The files after a transition -/

/-- The content that a writer fills its file with. -/
inductive Writes : Pc → Nat → Path → Content → Pc → Prop
  | create {origin : Origin} {pair : TokenPair} {record : RefreshTokenRecord} {inode : Nat} :
    Writes (.createWrite origin pair record inode) inode (.active (.drawn pair.token)) (.token record)
      (origin.issued pair)
  | commit {session : Session} {pair : TokenPair} {consumedAt inode : Nat} :
    Writes (.commitWrite session pair consumedAt inode) inode (.consumed session.token)
      (.consumed session.record consumedAt) (.commitUnlink session pair)
  | add {jti : Jti} {expiresAt : Nat} {token : Option RefreshToken} {inode : Nat} :
    Writes (.addWrite jti expiresAt token inode) inode (.entry jti) (.entry jti expiresAt) (revokeAfter token)

theorem Writes.writes {old new : Pc} {inode : Nat} {file : Path} {content : Content}
    (h : Writes old inode file content new) : old.writes? = some (inode, file) := by
  cases h <;> rfl

/-- How the file of this name after a transition came to be. -/
inductive FileMove (s : State) (t : ThreadId) (a : Act) (old new : Pc) (file : Path) (f : File Content) : Prop
  | kept (hfile : s.files.get? file = some f)
  | opened (hact : a = .resume t) (htruncate : Truncates s old file new) (hf : f = ⟨s.files.inodeOf file, none⟩)
  | written {f₀ : File Content} {inode : Nat} {name : Path} {content : Content} (hfile : s.files.get? file = some f₀)
    (hwrite : Writes old inode name content new) (hf : f = Files.fill inode content f₀)
  | claimed {token : RefreshToken} (hold : old = .claim token) (hnew : new = .readLock token)
    (hname : file = .consuming token t) (hfile : s.files.get? (.active token) = some f)
  | restored {session : Session} {pair : Option TokenPair} (hact : a = .resume t)
    (hold : old = .rollback session pair) (hnew : new = .failed) (hname : file = .active session.token)
    (hfile : s.files.get? (.consuming session.token t) = some f)

theorem Move.fileMove {s s₁ : State} {t : ThreadId} {a : Act} {old new : Pc} (h : Move s t a old s₁ new) {file : Path}
    {f : File Content} (hf : s₁.files.get? file = some f) : FileMove s t a old new file f := by
  have hwritten : ∀ {inode : Nat} {name : Path} {content : Content}, Writes old inode name content new →
      (s.files.write inode content).get? file = some f → FileMove s t a old new file f := by
    intro inode name content hwrite hget
    rw [Files.get?_write, Option.map_eq_some_iff] at hget
    obtain ⟨f₀, hf₀, rfl⟩ := hget
    exact .written hf₀ hwrite rfl
  have hrenamed : ∀ {k k' : Path}, (s.files.rename k k').get? file = some f →
      (s.files.get? file = some f) ∨ (file = k' ∧ s.files.get? k = some f) := by
    intro k k' hget
    cases hk : s.files.get? k with
    | none =>
      rw [Files.rename_of_none hk] at hget
      exact .inl hget
    | some g =>
      rw [Files.get?_rename hk] at hget
      split at hget
      · rename_i hfile
        exact .inr ⟨hfile, hget⟩
      · split at hget
        · cases hget
        · exact .inl hget
  cases h with
  | reject | read | sign | list => exact .kept hf
  | truncate htruncate =>
    simp only [State.setFiles, Files.get?_truncate] at hf
    split at hf
    · rename_i hfile
      subst hfile
      exact .opened rfl htruncate (Option.some.inj hf).symm
    · exact .kept hf
  | create => exact hwritten .create hf
  | commit => exact hwritten .commit hf
  | add => exact hwritten .add hf
  | claim =>
    rcases hrenamed hf with hkept | ⟨hname, hfile⟩
    · exact .kept hkept
    · exact .claimed rfl rfl hname hfile
  | rollback =>
    rcases hrenamed hf with hkept | ⟨hname, hfile⟩
    · exact .kept hkept
    · exact .restored rfl rfl rfl hname hfile
  | unlink =>
    simp only [State.setFiles, Files.get?_unlink] at hf
    split at hf
    · cases hf
    · exact .kept hf

/-- A call that is about to write has just opened the file. -/
theorem Move.opened {s s₁ : State} {t : ThreadId} {a : Act} {old new : Pc} (h : Move s t a old s₁ new) {inode : Nat}
    {file : Path} (hwrites : new.writes? = some (inode, file)) :
    inode = s.files.inodeOf file ∧ s₁.files = s.files.truncate file := by
  obtain ⟨hinode, htruncate⟩ := h.keeps.writes inode file hwrites
  refine ⟨hinode, ?_⟩
  cases h with
  | truncate htruncate' =>
    cases htruncate' <;>
      · cases htruncate
        rfl
  | reject hreject =>
    cases hreject with
    | @createOpen origin => cases origin <;> cases htruncate
    | _ => cases htruncate
  | read hread => cases hread <;> cases htruncate
  | unlink hunlink => cases hunlink <;> cases htruncate
  | _ => cases htruncate

theorem Move.filesOk {s s₁ : State} {t : ThreadId} {a : Act} {old new : Pc} (h : Move s t a old s₁ new)
    (hok : s.files.Ok) : s₁.files.Ok := by
  cases h with
  | reject | read | sign | list => exact hok
  | truncate => exact hok.truncate _
  | create | commit | add => exact hok.write _ _
  | claim | rollback => exact hok.rename _ _
  | unlink => exact hok.unlink _

theorem Move.nextInode {s s₁ : State} {t : ThreadId} {a : Act} {old new : Pc} (h : Move s t a old s₁ new) :
    s.files.nextInode ≤ s₁.files.nextInode := by
  have hrename : ∀ k k', s.files.nextInode ≤ (s.files.rename k k').nextInode := by
    intro k k'
    unfold Files.rename
    split <;> exact Nat.le_refl _
  cases h with
  | truncate => exact Nat.le_max_left _ _
  | claim | rollback => exact hrename _ _
  | _ => exact Nat.le_refl _

/-- What was drawn and signed stays. -/
theorem Move.drawn {s s₁ : State} {t : ThreadId} {a : Act} {old new : Pc} (h : Move s t a old s₁ new) :
    s.drawn <+: s₁.drawn ∧ s.signed <+: s₁.signed := by
  cases h with
  | sign => exact ⟨List.prefix_append _ _, List.prefix_append _ _⟩
  | _ => exact ⟨List.prefix_rfl, List.prefix_rfl⟩

/-! ### All calls after a step -/

theorem Start.presents {s : State} {a : Act} {pc : Pc} (h : Start s a pc) {token : RefreshToken}
    (hpc : pc.presents? = some token) : s.presentable token = true := by
  cases h with
  | refresh htoken =>
    obtain rfl := Option.some.inj hpc
    exact htoken
  | @logout _ _ token' htoken =>
    obtain rfl : token' = some token := hpc
    exact htoken
  | @revoke token' htoken =>
    cases token' with
    | none => cases hpc
    | some token' =>
      obtain rfl := Option.some.inj hpc
      exact htoken
  | _ => cases hpc

/-- A new call holds no token and no file. -/
theorem Start.idle {s : State} {a : Act} {pc : Pc} (h : Start s a pc) :
    pc.claims? = none ∧ pc.session? = none ∧ pc.creating? = none ∧ pc.writes? = none := by
  cases h with
  | @revoke token => cases token <;> exact ⟨rfl, rfl, rfl, rfl⟩
  | _ => exact ⟨rfl, rfl, rfl, rfl⟩

@[simp] theorem setPc_self (s : State) (t : ThreadId) (pc : Pc) : (s.setPc t pc).threads t = pc :=
  Function.update_self ..

theorem setPc_of_ne (s : State) {t i : ThreadId} (h : i ≠ t) (pc : Pc) : (s.setPc t pc).threads i = s.threads i :=
  Function.update_of_ne h ..

/-- What holds of every call after a step: it holds of the calls as they were, of a new one, and of the one that
moved. -/
theorem StepMove.forall_threads {s s' : State} {a : Act} (hstep : StepMove s a s') {P : ThreadId → Pc → Prop}
    (hold : ∀ i, P i (s.threads i))
    (hstart : ∀ pc, Start s a pc → s' = s.spawn pc → P s.nextThread pc)
    (hmove : ∀ t new s₁, Move s t a (s.threads t) s₁ new → s' = s₁.setPc t new → P t new) (i : ThreadId) :
    P i (s'.threads i) := by
  cases hstep with
  | tick => exact hold i
  | @start _ pc hs =>
    by_cases hi : i = s.nextThread
    · subst hi
      simpa [State.spawn] using hstart pc hs rfl
    · simpa [State.spawn, Function.update_of_ne hi] using hold i
  | @call _ t s₁ new hm =>
    by_cases hi : i = t
    · subst hi
      rw [setPc_self]
      exact hmove i new s₁ hm rfl
    · rw [setPc_of_ne _ hi, hm.threads]
      exact hold i

/-- A call that has not been made yet is absent. -/
def Fresh (s : State) : Prop := ∀ i, s.nextThread ≤ i → s.threads i = .absent

theorem nextThread_step {s s' : State} {a : Act} (hstep : StepMove s a s') : s.nextThread ≤ s'.nextThread := by
  cases hstep with
  | tick => exact Nat.le_refl _
  | start => exact Nat.le_succ _
  | call hmove => exact Nat.le_of_eq hmove.nextThread.symm

theorem Fresh.step {s s' : State} {a : Act} (h : Fresh s) (hstep : StepMove s a s') : Fresh s' := by
  have hnext := nextThread_step hstep
  refine hstep.forall_threads (P := fun i pc => s'.nextThread ≤ i → pc = .absent)
    (fun i hi => h i (Nat.le_trans hnext hi)) (fun pc hs heq hi => ?_)
    fun t new s₁ hmove heq hi => absurd (h t (Nat.le_trans hnext hi)) hmove.ne_absent
  subst heq
  exact absurd hi (Nat.not_succ_le_self _)

theorem drawn_step {s s' : State} {a : Act} (hstep : StepMove s a s') :
    s.drawn <+: s'.drawn ∧ s.signed <+: s'.signed := by
  cases hstep with
  | tick | start => exact ⟨List.prefix_rfl, List.prefix_rfl⟩
  | call hmove => exact hmove.drawn

/-- What a call presents, it presented before, or it is new. -/
theorem presents_step {s s' : State} {a : Act} (hstep : StepMove s a s') (i : ThreadId) (token : RefreshToken)
    (h : (s'.threads i).presents? = some token) :
    (s.threads i).presents? = some token ∨ s.presentable token = true := by
  revert h
  refine hstep.forall_threads (P := fun i pc => pc.presents? = some token →
    (s.threads i).presents? = some token ∨ s.presentable token = true) (fun i h => .inl h) (fun pc hs _ h => ?_)
    (fun t new s₁ hmove _ h => ?_) i
  · exact .inr (hs.presents h)
  · exact .inl (hmove.keeps.presents token h)

/-- A token that a call creates was being created, or was drawn for it just now. -/
theorem creates_step {s s' : State} {a : Act} (hstep : StepMove s a s') (i : ThreadId) (n : Nat)
    (h : (s'.threads i).creates? = some n) :
    (s.threads i).creates? = some n ∨ n = s.drawn.length ∧ a = .resume i ∧ s'.drawn.length = n + 1 := by
  revert h
  refine hstep.forall_threads (P := fun i pc => pc.creates? = some n →
    (s.threads i).creates? = some n ∨ n = s.drawn.length ∧ a = .resume i ∧ s'.drawn.length = n + 1)
    (fun i h => .inl h) (fun pc hs _ h => ?_) (fun t new s₁ hmove heq h => ?_) i
  · rw [creates_eq, hs.idle.2.2.1] at h
    cases h
  · rw [creates_eq] at h ⊢
    obtain ⟨c, hc, rfl⟩ := Option.map_eq_some_iff.1 h
    rcases hmove.keeps.creating c hc with hold | ⟨origin, hold, rfl⟩
    · exact .inl (by rw [hold]; rfl)
    · subst heq
      rw [hold] at hmove
      obtain ⟨rfl, rfl⟩ := hmove.of_sign (by simp [hc])
      exact .inr ⟨rfl, rfl, by simp [State.setPc, State.draw]⟩

/-- A claimed token was claimed before, or is claimed just now. -/
theorem claims_step {s s' : State} {a : Act} (hstep : StepMove s a s') (i : ThreadId) (token : RefreshToken)
    (h : (s'.threads i).claims? = some token) :
    (s.threads i).claims? = some token ∨ a = .resume i ∧ s.threads i = .claim token ∧
      (∃ f, s.files.get? (.active token) = some f) ∧ s'.files.get? (.active token) = none := by
  revert h
  refine hstep.forall_threads (P := fun i pc => pc.claims? = some token →
    (s.threads i).claims? = some token ∨ a = .resume i ∧ s.threads i = .claim token ∧
      (∃ f, s.files.get? (.active token) = some f) ∧ s'.files.get? (.active token) = none)
    (fun i h => .inl h) (fun pc hs _ h => ?_) (fun t new s₁ hmove heq h => ?_) i
  · cases hs.idle.1.symm.trans h
  · rcases hmove.keeps.claims token h with hold | ⟨hold, hnew⟩
    · exact .inl hold
    · subst heq
      rw [hold, hnew] at hmove
      cases hmove with
      | @claim _ f hfile =>
        refine .inr ⟨rfl, hold, ⟨f, hfile⟩, ?_⟩
        simp [State.setPc, State.setFiles, Files.get?_rename hfile]
      | reject hreject => cases hreject
      | read hread => cases hread
      | truncate htruncate => cases htruncate
      | unlink hunlink => cases hunlink

/-! ### Secret tokens -/

/-- A token that is being created is created by one call, and no call presents it. -/
structure Secret (s : State) : Prop where
  lt : ∀ i n, (s.threads i).creates? = some n → n < s.drawn.length
  unique : ∀ i j n, (s.threads i).creates? = some n → (s.threads j).creates? = some n → i = j
  presented : ∀ i n, (s.threads i).presents? = some (.drawn n) → n < s.drawn.length
  hidden : ∀ i j n, (s.threads i).creates? = some n → (s.threads j).presents? ≠ some (.drawn n)

theorem not_creates_of_presentable {s : State} (hfresh : Fresh s) {n : Nat} (h : s.presentable (.drawn n) = true)
    (i : ThreadId) : (s.threads i).creates? ≠ some n := by
  intro hcreates
  have hlt : i < s.nextThread := by
    by_contra hge
    rw [hfresh i (Nat.le_of_not_lt hge)] at hcreates
    cases hcreates
  simp only [State.presentable, Bool.and_eq_true, Bool.not_eq_true'] at h
  have hsecret : s.secret (.drawn n) = true := by
    refine List.any_eq_true.2 ⟨i, List.mem_range.2 hlt, ?_⟩
    rw [hcreates]
    simp
  rw [hsecret] at h
  exact absurd h.2 (by simp)

theorem Secret.step {s s' : State} {a : Act} (h : Secret s) (hfresh : Fresh s) (hstep : StepMove s a s') :
    Secret s' := by
  have hlen : s.drawn.length ≤ s'.drawn.length := (drawn_step hstep).1.length_le
  refine ⟨fun i n hi => ?_, fun i j n hi hj => ?_, fun i n hi => ?_, fun i j n hi hj => ?_⟩
  · rcases creates_step hstep i n hi with hold | ⟨-, -, hlast⟩
    · exact Nat.lt_of_lt_of_le (h.lt i n hold) hlen
    · omega
  · rcases creates_step hstep i n hi with hi' | ⟨hn, rfl, -⟩ <;> rcases creates_step hstep j n hj with hj' | ⟨hn', hact, -⟩
    · exact h.unique i j n hi' hj'
    · exact absurd (h.lt i n hi') (by omega)
    · exact absurd (h.lt j n hj') (by omega)
    · exact Act.resume.inj hact
  · rcases presents_step hstep i _ hi with hold | hnew
    · exact Nat.lt_of_lt_of_le (h.presented i n hold) hlen
    · simp only [State.presentable, Bool.and_eq_true, decide_eq_true_eq] at hnew
      exact Nat.lt_of_lt_of_le hnew.1 hlen
  · rcases creates_step hstep i n hi with hi' | ⟨hn, -, -⟩ <;> rcases presents_step hstep j _ hj with hj' | hj'
    · exact h.hidden i j n hi' hj'
    · exact not_creates_of_presentable hfresh hj' i hi'
    · exact absurd (h.presented j n hj') (by omega)
    · simp only [State.presentable, Bool.and_eq_true, decide_eq_true_eq] at hj'
      omega

/-! ### Claims -/

theorem presents_of_claims {pc : Pc} {token : RefreshToken} (h : pc.claims? = some token) :
    pc.presents? = some token := by
  cases pc <;> first | exact h | cases h

theorem claims_of_session {pc : Pc} {session : Session} (h : pc.session? = some session) :
    pc.claims? = some session.token := by
  have hclaims : pc.claims? = pc.session?.map Session.token := by
    cases pc <;> first | rfl | cases h
  rw [hclaims, h, Option.map_some]

/-- A token is claimed by one call, and then it is not in its place. -/
structure Claims (s : State) : Prop where
  unique : ∀ i j token, (s.threads i).claims? = some token → (s.threads j).claims? = some token → i = j
  gone : ∀ i token, (s.threads i).claims? = some token → s.files.get? (.active token) = none

theorem Claims.step {s s' : State} {a : Act} (h : Claims s) (hsecret : Secret s) (hstep : StepMove s a s') :
    Claims s' := by
  refine ⟨fun i j token hi hj => ?_, fun i token hi => ?_⟩
  · rcases claims_step hstep i token hi with hi' | ⟨rfl, -, ⟨f, hf⟩, -⟩ <;>
      rcases claims_step hstep j token hj with hj' | ⟨hact, -, ⟨f', hf'⟩, -⟩
    · exact h.unique i j token hi' hj'
    · cases (h.gone i token hi').symm.trans hf'
    · cases (h.gone j token hj').symm.trans hf
    · exact Act.resume.inj hact
  · rcases claims_step hstep i token hi with hold | ⟨-, -, -, hgone⟩
    · rw [Option.eq_none_iff_forall_ne_some]
      intro f hf
      have hnone := h.gone i token hold
      cases hstep with
      | tick | start => cases hnone.symm.trans hf
      | @call _ t s₁ new hmove =>
        cases hmove.fileMove hf with
        | kept hfile => cases hnone.symm.trans hfile
        | written hfile => cases hnone.symm.trans hfile
        | opened _ htruncate =>
          generalize hpc : s.threads t = old at htruncate
          cases htruncate
          exact hsecret.hidden t i _ (by rw [hpc]; rfl) (presents_of_claims hold)
        | claimed _ _ hname => cases hname
        | @restored session pair _ hpc hnew hname =>
          cases hname
          have ht : (s.threads t).claims? = some session.token := by rw [hpc]; rfl
          obtain rfl := h.unique t i _ ht hold
          rw [setPc_self, hnew] at hi
          cases hi
    · exact hgone

/-! ### What calls and files hold -/

/-- The content that a file of this name can have. -/
def State.Proper (s : State) : Path → Content → Prop
  | .active token, content | .consuming token _, content =>
    ∃ n d, token = .drawn n ∧ s.drawn[n]? = some d ∧ content = .token d.record
  | .consumed token, content =>
    ∃ n d consumedAt, token = .drawn n ∧ s.drawn[n]? = some d ∧ content = .consumed d.record consumedAt
  | .entry jti, content => ∃ exp, s.signed[jti]? = some exp ∧ content = .entry jti (exp * 1000)

/-- The call's variables are those of tokens drawn and signed. -/
structure Known (s : State) (pc : Pc) : Prop where
  session : ∀ session, pc.session? = some session →
    ∃ n d, session.token = .drawn n ∧ s.drawn[n]? = some d ∧ session.record = d.record
  creating : ∀ origin pair record, pc.creating? = some (origin, pair, record) →
    s.drawn[pair.token]? = some ⟨record, origin.parent⟩
  adding : ∀ jti expiresAt, pc.adding? = some (jti, expiresAt) → ∃ exp, s.signed[jti]? = some exp ∧ expiresAt = exp * 1000

theorem getElem?_mono {α : Type*} {l l' : List α} (h : l <+: l') {i : Nat} {x : α} (hx : l[i]? = some x) :
    l'[i]? = some x := by
  obtain ⟨t, rfl⟩ := h
  rw [List.getElem?_append_left (List.getElem?_eq_some_iff.1 hx).1]
  exact hx

section known

variable {s s' : State}

theorem State.Proper.mono (hdrawn : s.drawn <+: s'.drawn) (hsigned : s.signed <+: s'.signed) {file : Path}
    {content : Content} (h : s.Proper file content) : s'.Proper file content := by
  cases file with
  | active token | consuming token =>
    obtain ⟨n, d, htoken, hd, hcontent⟩ := h
    exact ⟨n, d, htoken, getElem?_mono hdrawn hd, hcontent⟩
  | consumed token =>
    obtain ⟨n, d, consumedAt, htoken, hd, hcontent⟩ := h
    exact ⟨n, d, consumedAt, htoken, getElem?_mono hdrawn hd, hcontent⟩
  | entry jti =>
    obtain ⟨exp, hexp, hcontent⟩ := h
    exact ⟨exp, getElem?_mono hsigned hexp, hcontent⟩

theorem Known.mono (hdrawn : s.drawn <+: s'.drawn) (hsigned : s.signed <+: s'.signed) {pc : Pc} (h : Known s pc) :
    Known s' pc where
  session session hsession := by
    obtain ⟨n, d, htoken, hd, hrecord⟩ := h.session session hsession
    exact ⟨n, d, htoken, getElem?_mono hdrawn hd, hrecord⟩
  creating origin pair record hcreating := getElem?_mono hdrawn (h.creating origin pair record hcreating)
  adding jti expiresAt hadding := by
    obtain ⟨exp, hexp, hexpiresAt⟩ := h.adding jti expiresAt hadding
    exact ⟨exp, getElem?_mono hsigned hexp, hexpiresAt⟩

/-- The call's variables after a transition. -/
theorem Move.known {s₁ : State} {t : ThreadId} {a : Act} {old new : Pc} (hmove : Move s t a old s₁ new)
    (h : Known s old) (hproper : ∀ file f content, s.files.get? file = some f → f.content = some content →
      s.Proper file content) : Known s₁ new := by
  have hmono : Known s₁ old := h.mono hmove.drawn.1 hmove.drawn.2
  refine ⟨fun session hsession => ?_, fun origin pair record hcreating => ?_, fun jti expiresAt hadding => ?_⟩
  · rcases hmove.keeps.session session hsession with hold | ⟨-, hfile, -⟩
    · exact hmono.session session hold
    · obtain ⟨f, hf, hcontent⟩ := Option.bind_eq_some_iff.1 hfile
      obtain ⟨n, d, htoken, hd, hcontent'⟩ := hproper _ f _ hf hcontent
      exact ⟨n, d, htoken, getElem?_mono hmove.drawn.1 hd, Content.token.inj hcontent'⟩
  · rcases hmove.keeps.creating _ hcreating with hold | ⟨origin', hold, heq⟩
    · exact hmono.creating origin pair record hold
    · rw [hold] at hmove
      obtain ⟨-, rfl⟩ := hmove.of_sign (by simp [hcreating])
      obtain ⟨rfl, rfl, rfl⟩ : _ ∧ _ ∧ _ := by simpa using heq
      simp [State.draw]
  · exact hmono.adding jti expiresAt (hmove.keeps.adding _ hadding)

end known

/-! ### The files -/

def Path.token? : Path → Option RefreshToken
  | .active token | .consuming token _ | .consumed token => some token
  | .entry _ => none

/-- The files have what their names promise, and the writers of files know them. -/
structure FilesOk (s : State) : Prop where
  inodes : s.files.Ok
  proper : ∀ file f content, s.files.get? file = some f → f.content = some content → s.Proper file content
  token : ∀ file f token, s.files.get? file = some f → file.token? = some token →
    ∃ n, token = .drawn n ∧ n < s.drawn.length
  known : ∀ i, Known s (s.threads i)
  writers_lt : ∀ i inode file, (s.threads i).writes? = some (inode, file) → inode < s.files.nextInode
  writers : ∀ i inode file, (s.threads i).writes? = some (inode, file) → ∀ file' f, s.files.get? file' = some f →
    f.inode = inode → file' = file

namespace FilesOk

variable {s s' : State}

/-- The content that a writer fills its file with is the one that the name of the file promises. -/
theorem proper_of_writes (h : FilesOk s) {t : ThreadId} {inode : Nat} {file : Path} {content : Content} {new : Pc}
    (hwrite : Writes (s.threads t) inode file content new) : s.Proper file content := by
  have hknown := h.known t
  generalize s.threads t = old at hwrite hknown
  cases hwrite with
  | create => exact ⟨_, _, rfl, hknown.creating _ _ _ rfl, rfl⟩
  | commit =>
    obtain ⟨n, d, htoken, hd, hrecord⟩ := hknown.session _ rfl
    exact ⟨n, d, _, htoken, hd, by rw [hrecord]⟩
  | add =>
    obtain ⟨exp, hexp, rfl⟩ := hknown.adding _ _ rfl
    exact ⟨exp, hexp, rfl⟩

theorem proper_step (h : FilesOk s) {t : ThreadId} {a : Act} {s₁ : State} {new : Pc}
    (hmove : Move s t a (s.threads t) s₁ new) (file : Path) (f : File Content) (content : Content)
    (hf : s₁.files.get? file = some f) (hcontent : f.content = some content) : s₁.Proper file content := by
  suffices hproper : s.Proper file content from hproper.mono hmove.drawn.1 hmove.drawn.2
  cases hmove.fileMove hf with
  | kept hfile => exact h.proper file f content hfile hcontent
  | opened _ _ hf =>
    subst hf
    cases hcontent
  | @written f₀ inode name content' hfile hwrite hf =>
    subst hf
    unfold Files.fill at hcontent
    split at hcontent
    · rename_i hinode
      obtain rfl := Option.some.inj hcontent
      rw [h.writers t inode name hwrite.writes file f₀ hfile hinode]
      exact h.proper_of_writes hwrite
    · exact h.proper file f₀ content hfile hcontent
  | @claimed token _ _ hname hfile =>
    subst hname
    have hproper : s.Proper (.active token) content := h.proper _ f content hfile hcontent
    exact hproper
  | @restored session _ _ _ _ hname hfile =>
    subst hname
    have hproper : s.Proper (.consuming session.token t) content := h.proper _ f content hfile hcontent
    exact hproper

/-- A file after a transition is one of a token that was drawn before. -/
theorem token_move (h : FilesOk s) {t : ThreadId} {a : Act} {s₁ : State} {new : Pc}
    (hmove : Move s t a (s.threads t) s₁ new) {file : Path} {f : File Content} {token : RefreshToken}
    (hf : s₁.files.get? file = some f) (htoken : file.token? = some token) :
    ∃ n, token = .drawn n ∧ n < s.drawn.length := by
  have hknown := h.known t
  cases hmove.fileMove hf with
  | kept hfile | written hfile => exact h.token file _ token hfile htoken
  | opened _ htruncate =>
    generalize s.threads t = old at htruncate hknown
    cases htruncate with
    | create =>
      obtain rfl := Option.some.inj htoken
      exact ⟨_, rfl, (List.getElem?_eq_some_iff.1 (hknown.creating _ _ _ rfl)).1⟩
    | commit =>
      obtain rfl := Option.some.inj htoken
      obtain ⟨n, d, hn, hd, -⟩ := hknown.session _ rfl
      exact ⟨n, hn, (List.getElem?_eq_some_iff.1 hd).1⟩
    | add => cases htoken
  | claimed _ _ hname hfile =>
    subst hname
    exact h.token _ f token hfile htoken
  | restored _ _ _ hname hfile =>
    subst hname
    exact h.token _ f token hfile htoken

/-- A writer fills no other file than that of the name it opened. -/
theorem get?_write_of_ne (h : FilesOk s) {t : ThreadId} {inode : Nat} {name file : Path} {content : Content}
    (hwrites : (s.threads t).writes? = some (inode, name)) (hne : file ≠ name) :
    (s.files.write inode content).get? file = s.files.get? file := by
  rw [Files.get?_write]
  cases hfile : s.files.get? file with
  | none => rfl
  | some f =>
    have hinode : f.inode ≠ inode := fun heq => hne (h.writers t inode name hwrites file f hfile heq)
    rw [Option.map_some, Files.fill, if_neg hinode]

theorem token_step (h : FilesOk s) {t : ThreadId} {a : Act} {s₁ : State} {new : Pc}
    (hmove : Move s t a (s.threads t) s₁ new) (file : Path) (f : File Content) (token : RefreshToken)
    (hf : s₁.files.get? file = some f) (htoken : file.token? = some token) :
    ∃ n, token = .drawn n ∧ n < s₁.drawn.length := by
  obtain ⟨n, hn, hlt⟩ := h.token_move hmove hf htoken
  exact ⟨n, hn, Nat.lt_of_lt_of_le hlt hmove.drawn.1.length_le⟩

/-- The file that a call writes has not been renamed. -/
theorem writers_step (h : FilesOk s) (hsecret : Secret s) {t : ThreadId} {a : Act} {s₁ : State} {new : Pc}
    (hmove : Move s t a (s.threads t) s₁ new) {i : ThreadId} {inode : Nat} {file : Path}
    (hwrites : (s.threads i).writes? = some (inode, file)) (file' : Path) (f : File Content)
    (hf : s₁.files.get? file' = some f) (hinode : f.inode = inode) : file' = file := by
  have hold := h.writers i inode file hwrites
  cases hmove.fileMove hf with
  | kept hfile => exact hold file' f hfile hinode
  | opened _ _ hopened =>
    subst hopened
    cases hfile : s.files.get? file' with
    | none =>
      simp only [Files.inodeOf, hfile] at hinode
      exact absurd (h.writers_lt i inode file hwrites) (by simp [← hinode])
    | some f₀ =>
      simp only [Files.inodeOf, hfile] at hinode
      exact hold file' f₀ hfile hinode
  | written hfile _ hf =>
    subst hf
    rw [Files.fill_inode] at hinode
    exact hold file' _ hfile hinode
  | @claimed token hpc _ hname hfile =>
    -- a token that is being created is not claimed
    obtain rfl := hold _ f hfile hinode
    obtain ⟨n, rfl, -⟩ := h.token _ f token hfile rfl
    have hcreates : (s.threads i).creates? = some n := by
      generalize s.threads i = pc at hwrites
      cases pc <;> cases hwrites
      rfl
    exact absurd (by rw [hpc]; rfl) (hsecret.hidden i t n hcreates)
  | restored _ _ _ _ hfile =>
    obtain rfl := hold _ f hfile hinode
    generalize s.threads i = pc at hwrites
    cases pc <;> cases hwrites

/-- A file that has just been opened is the one of its name. -/
theorem writers_opened (h : FilesOk s) {t : ThreadId} {a : Act} {s₁ : State} {new : Pc}
    (hmove : Move s t a (s.threads t) s₁ new) {inode : Nat} {file : Path} (hwrites : new.writes? = some (inode, file)) :
    inode < s₁.files.nextInode ∧ ∀ file' f, s₁.files.get? file' = some f → f.inode = inode → file' = file := by
  obtain ⟨rfl, hfiles⟩ := hmove.opened hwrites
  rw [hfiles]
  refine ⟨Nat.lt_of_lt_of_le (Nat.lt_succ_self _) (Nat.le_max_right _ _), fun file' f hf hinode => ?_⟩
  rw [Files.get?_truncate] at hf
  split at hf
  · assumption
  · exact Files.inodeOf_eq h.inodes file hf hinode

theorem known_step (h : FilesOk s) {a : Act} (hstep : StepMove s a s') (i : ThreadId) : Known s' (s'.threads i) := by
  refine hstep.forall_threads (P := fun _ pc => Known s' pc)
    (fun i => (h.known i).mono (drawn_step hstep).1 (drawn_step hstep).2) (fun pc hs heq => ?_)
    (fun t new s₁ hmove heq => ?_) i
  · subst heq
    refine ⟨fun session hsession => ?_, fun origin pair record hcreating => ?_, fun jti expiresAt hadding => ?_⟩
    · cases hs.idle.2.1.symm.trans hsession
    · cases hs.idle.2.2.1.symm.trans hcreating
    · cases hs with
      | logout _ hexp =>
        obtain ⟨rfl, rfl⟩ := Prod.mk.inj (Option.some.inj hadding)
        exact ⟨_, hexp, rfl⟩
      | @revoke token => cases token <;> cases hadding
      | _ => cases hadding
  · subst heq
    have hknown := hmove.known (h.known t) h.proper
    exact ⟨hknown.session, hknown.creating, hknown.adding⟩

theorem step (h : FilesOk s) (hsecret : Secret s) {a : Act} (hstep : StepMove s a s') : FilesOk s' := by
  have hwriters : ∀ i inode file, (s'.threads i).writes? = some (inode, file) → inode < s'.files.nextInode ∧
      ∀ file' f, s'.files.get? file' = some f → f.inode = inode → file' = file := by
    intro i
    refine hstep.forall_threads (P := fun _ pc => ∀ inode file, pc.writes? = some (inode, file) →
      inode < s'.files.nextInode ∧ ∀ file' f, s'.files.get? file' = some f → f.inode = inode → file' = file)
      (fun i inode file hwrites => ?_) (fun pc hs _ inode file hwrites => ?_)
      (fun t new s₁ hmove heq inode file hwrites => ?_) i
    · cases hstep with
      | tick | start => exact ⟨h.writers_lt i inode file hwrites, h.writers i inode file hwrites⟩
      | call hmove =>
        exact ⟨Nat.lt_of_lt_of_le (h.writers_lt i inode file hwrites) hmove.nextInode,
          h.writers_step hsecret hmove hwrites⟩
    · cases hs.idle.2.2.2.symm.trans hwrites
    · subst heq
      exact h.writers_opened hmove hwrites
  have hknown := h.known_step hstep
  have hlt := fun i inode file hwrites => (hwriters i inode file hwrites).1
  have hname := fun i inode file hwrites => (hwriters i inode file hwrites).2
  cases hstep with
  | tick | start => exact ⟨h.inodes, h.proper, h.token, hknown, hlt, hname⟩
  | call hmove =>
    have hinodes := hmove.filesOk h.inodes
    have hproper := h.proper_step hmove
    have htoken := h.token_step hmove
    exact ⟨hinodes, hproper, htoken, hknown, hlt, hname⟩

end FilesOk

/-! ### All of them -/

structure Ok (s : State) : Prop where
  fresh : Fresh s
  secret : Secret s
  claims : Claims s
  files : FilesOk s

namespace Ok

variable {s s' : State}

theorem step (h : Ok s) {a : Act} (hstep : Token.step s a = some s') : Ok s' :=
  have hmove := step_move hstep
  ⟨h.fresh.step hmove, h.secret.step h.fresh hmove, h.claims.step h.secret hmove, h.files.step h.secret hmove⟩

theorem fresh_state : Ok State.fresh where
  fresh _ _ := rfl
  secret := ⟨nofun, nofun, nofun, nofun⟩
  claims := ⟨nofun, nofun⟩
  files := ⟨.empty, nofun, nofun, fun _ => ⟨nofun, nofun, nofun⟩, nofun, nofun⟩

theorem run {ok : State → Act → Prop} {as : List Act} (hrun : Transition.Run Token.step ok State.fresh as s) : Ok s :=
  hrun.invariant (fun _ _ _ h _ hstep => h.step hstep) fresh_state

end Ok

end CubridWebManager.Token
