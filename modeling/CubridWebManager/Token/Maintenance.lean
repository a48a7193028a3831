import CubridWebManager.Token.ReuseRevocation
import CubridWebManager.Token.Rotation

/-!
# Maintenance of the token stores

The loops that delete files (`purgeExpired` of both stores and `revokeFamily`) also delete every file that they could not
read.  A file cannot be read while it is written, or because it was not in its place; it is of use all the same when the
catch clause deletes it.  Nothing of use is lost as long as this does not happen (`SweepsSpare`): a file that is no longer
needed is `Over`, and all others are `Maintained`.
-/

namespace CubridWebManager.Token

open Transition

/-! ### What is over -/

/-- When what the file is about expires. -/
def State.expiryOf (s : State) : Path → Option Nat
  | .active (.drawn n) | .consuming (.drawn n) _ | .consumed (.drawn n) => (s.drawn[n]?).map fun d => d.record.expiresAt
  | .active (.other _) | .consuming (.other _) _ | .consumed (.other _) => none
  | .entry jti => (s.signed[jti]?).map fun exp => exp * 1000

/-- Nobody needs the file: it has expired, or it is a token of a family that is being revoked. -/
def State.Over (s : State) (file : Path) : Prop :=
  (s.expiryOf file).any (fun expiresAt => expiresAt ≤ s.now) ∨
    file.root = .refreshTokens ∧ (file.token?.bind s.familyOf).any fun familyId => familyId ∈ s.listed

instance (s : State) (file : Path) : Decidable (s.Over file) := by
  unfold State.Over
  infer_instance

/-- What the catch clause of a sweep deletes is over or it is not being written; and adding an entry, reading a claimed
token and moving it back do not fail. -/
def SweepsSpare (s : State) : Act → Prop
  | .resume t =>
    match s.threads t with
    | .sweepCatch _ file _ =>
      match s.files.get? file with
      | some f => s.Over file ∨ f.content = none ∧ ∀ i < s.nextThread, (s.threads i).writes? ≠ some (f.inode, file)
      | none => True
    | _ => True
  | .reject t =>
    match s.threads t with
    | .addWrite _ _ _ _ | .readLock _ | .rollback _ _ => False
    | _ => True
  | _ => True

instance (s : State) (a : Act) : Decidable (SweepsSpare s a) := by
  delta SweepsSpare
  induction a using Act.casesOn <;> dsimp only <;> try exact .isTrue trivial
  case resume t =>
    generalize s.threads t = pc
    induction pc using Pc.casesOn <;> try exact .isTrue trivial
    case sweepCatch _ file _ =>
      dsimp only
      generalize s.files.get? file = f
      induction f using Option.casesOn <;> dsimp only <;> infer_instance
  case reject t => generalize s.threads t = pc; induction pc using Pc.casesOn <;> dsimp only <;> infer_instance

/-- A logout with the token. -/
def Revokes (n : Nat) : Act → Prop
  | .logout _ token => token = some (.drawn n)
  | _ => False

instance (n : Nat) (a : Act) : Decidable (Revokes n a) := by
  delta Revokes
  induction a using Act.casesOn <;> dsimp only <;> infer_instance

section expiry

variable {s s' : State} {file : Path}

/-- What a file of this name says of its expiry and its family is what is known of the name. -/
theorem expiryOf_of_proper {content : Content} (h : s.Proper file content) :
    s.expiryOf file = some content.expiresAt ∧ file.token?.bind s.familyOf = content.familyId := by
  cases file with
  | active token | consuming token =>
    obtain ⟨n, d, rfl, hd, rfl⟩ := h
    simp [State.expiryOf, State.familyOf, Path.token?, hd, Content.expiresAt, Content.familyId]
  | consumed token =>
    obtain ⟨n, d, consumedAt, rfl, hd, rfl⟩ := h
    simp [State.expiryOf, State.familyOf, Path.token?, hd, Content.expiresAt, Content.familyId]
  | entry jti =>
    obtain ⟨exp, hexp, rfl⟩ := h
    simp [State.expiryOf, Path.token?, hexp, Content.expiresAt, Content.familyId]

theorem listed_step {a : Act} (hstep : StepMove s a s') : s.listed ⊆ s'.listed := by
  cases hstep with
  | tick | start => exact List.Subset.refl _
  | call hmove => exact hmove.listed

theorem Move.now {s₁ : State} {t : ThreadId} {a : Act} {old new : Pc} (h : Move s t a old s₁ new) : s₁.now = s.now := by
  cases h <;> rfl

theorem now_step {a : Act} (hstep : StepMove s a s') : s.now ≤ s'.now := by
  cases hstep with
  | tick => exact Nat.le_add_right _ _
  | start => exact Nat.le_refl _
  | call hmove => exact Nat.le_of_eq hmove.now.symm

theorem State.Over.mono {a : Act} (hstep : StepMove s a s') (h : s.Over file) : s'.Over file := by
  have hdrawn := (drawn_step hstep).1
  have hget : ∀ {n d}, s.drawn[n]? = some d → s'.drawn[n]? = some d := getElem?_mono hdrawn
  rcases h with hexp | ⟨hroot, hfamily⟩
  · left
    obtain ⟨expiresAt, hexpiry, hle⟩ := (Option.any_eq_true _ _).1 hexp
    refine (Option.any_eq_true _ _).2 ⟨expiresAt, ?_, ?_⟩
    · cases file with
      | entry jti =>
        obtain ⟨exp, hsigned, rfl⟩ := Option.map_eq_some_iff.1 hexpiry
        exact Option.map_eq_some_iff.2 ⟨exp, getElem?_mono (drawn_step hstep).2 hsigned, rfl⟩
      | active token | consuming token | consumed token =>
        cases token with
        | other => cases hexpiry
        | drawn n =>
          obtain ⟨d, hd, rfl⟩ := Option.map_eq_some_iff.1 hexpiry
          exact Option.map_eq_some_iff.2 ⟨d, hget hd, rfl⟩
    · exact decide_eq_true (Nat.le_trans (of_decide_eq_true hle) (now_step hstep))
  · refine .inr ⟨hroot, ?_⟩
    obtain ⟨familyId, hfamilyOf, hlisted⟩ := (Option.any_eq_true _ _).1 hfamily
    obtain ⟨token, htoken, hfamilyOf⟩ := Option.bind_eq_some_iff.1 hfamilyOf
    refine (Option.any_eq_true _ _).2 ⟨familyId, ?_, decide_eq_true (listed_step hstep (of_decide_eq_true hlisted))⟩
    refine Option.bind_eq_some_iff.2 ⟨token, htoken, ?_⟩
    cases token with
    | other => cases hfamilyOf
    | drawn n =>
      obtain ⟨d, hd, hd'⟩ := Option.map_eq_some_iff.1 hfamilyOf
      exact Option.map_eq_some_iff.2 ⟨d, hget hd, hd'⟩

end expiry

/-! ### What becomes of a file -/

/-- What a transition of call `t` makes of a file that is there. -/
inductive FileNext (s : State) (t : ThreadId) (a : Act) (old new : Pc) (s₁ : State) (file : Path) (f : File Content) :
    Prop
  | kept (hfile : s₁.files.get? file = some f)
  | truncated (htruncate : Truncates s old file new) (hfile : s₁.files.get? file = some ⟨f.inode, none⟩)
  | written {inode : Nat} {name : Path} {content : Content} (hwrite : Writes old inode name content new)
    (hfile : s₁.files.get? file = some (Files.fill inode content f))
  | unlinked (hact : a = .resume t) (hunlink : Unlinks s t old file new)
  | claimed {token : RefreshToken} (hold : old = .claim token) (hnew : new = .readLock token)
    (hname : file = .active token) (hfile : s₁.files.get? (.consuming token t) = some f)
  | restored {session : Session} {pair : Option TokenPair} (hold : old = .rollback session pair)
    (hname : file = .consuming session.token t) (hfile : s₁.files.get? (.active session.token) = some f)
  | replaced (hname : (∃ token, old = .claim token ∧ file = .consuming token t) ∨
      ∃ session pair, old = .rollback session pair ∧ file = .active session.token)

theorem Move.fileNext {s s₁ : State} {t : ThreadId} {a : Act} {old new : Pc} (h : Move s t a old s₁ new) {file : Path}
    {f : File Content} (hf : s.files.get? file = some f) : FileNext s t a old new s₁ file f := by
  have hwritten : ∀ {inode : Nat} {name : Path} {content : Content}, Writes old inode name content new →
      s₁.files = s.files.write inode content → FileNext s t a old new s₁ file f := by
    intro inode name content hwrite hfiles
    refine .written hwrite ?_
    rw [hfiles, Files.get?_write, hf, Option.map_some]
  -- a file that is renamed, or whose place is taken
  have hrenamed : ∀ {k k' : Path} {g : File Content}, s.files.get? k = some g → s₁.files = s.files.rename k k' →
      s₁.files.get? file = some f ∨ file = k' ∨ file = k ∧ s₁.files.get? k' = some f := by
    intro k k' g hg hfiles
    by_cases hk' : file = k'
    · exact .inr (.inl hk')
    · by_cases hk : file = k
      · subst hk
        refine .inr (.inr ⟨rfl, ?_⟩)
        rw [hfiles, Files.get?_rename hg, if_pos rfl, ← hg, hf]
      · left
        rw [hfiles, Files.get?_rename hg, if_neg hk', if_neg hk, hf]
  cases h with
  | reject | read | sign | list => exact .kept hf
  | @truncate _ _ name htruncate =>
    by_cases hname : file = name
    · subst hname
      refine .truncated htruncate ?_
      simp only [State.setFiles, Files.get?_truncate, Files.inodeOf, hf, if_true, Option.elim_some]
    · refine .kept ?_
      simp only [State.setFiles, Files.get?_truncate, if_neg hname, hf]
  | create => exact hwritten .create rfl
  | commit => exact hwritten .commit rfl
  | add => exact hwritten .add rfl
  | claim hfile =>
    rcases hrenamed hfile rfl with hkept | hname | ⟨hname, hafter⟩
    · exact .kept hkept
    · exact .replaced (.inl ⟨_, rfl, hname⟩)
    · exact .claimed rfl rfl hname hafter
  | @rollback session pair =>
    cases hfile : s.files.get? (.consuming session.token t) with
    | none =>
      refine .kept ?_
      simp only [State.setFiles, Files.rename_of_none hfile, hf]
    | some g =>
      rcases hrenamed hfile rfl with hkept | hname | ⟨hname, hafter⟩
      · exact .kept hkept
      · exact .replaced (.inr ⟨session, pair, rfl, hname⟩)
      · exact .restored rfl hname hafter
  | @unlink _ _ name hunlink =>
    by_cases hname : file = name
    · subst hname
      exact .unlinked rfl hunlink
    · refine .kept ?_
      simp only [State.setFiles, Files.get?_unlink, if_neg hname, hf]

/-! ### Sweeps -/

/-- When the purge began. -/
def Sweep.startedAt? : Sweep → Option Nat
  | .revokeFamily _ => none
  | .purgeTokens now | .purgeConsumed now | .purgeBlacklist now => some now

/-- A sweep over these files has begun and, if it revokes a family, the directory was read for it. -/
structure Sweeping (s : State) (sweep : Sweep) (files : List Path) : Prop where
  started : ∀ now, sweep.startedAt? = some now → now ≤ s.now
  listed : ∀ familyId, sweep.family? = some familyId → familyId ∈ s.listed
  root : ∀ file ∈ files, file.root = sweep.root

/-- What a call knows of the files that it is going to delete. -/
def State.Informed (s : State) : Pc → Prop
  | .list sweep => ∀ now, sweep.startedAt? = some now → now ≤ s.now
  | .sweepRead sweep file rest | .sweepCatch sweep file rest => Sweeping s sweep (file :: rest)
  | .sweepUnlink sweep file rest => Sweeping s sweep (file :: rest) ∧ s.Over file
  | .checkUnlink jti => s.Over (.entry jti)
  | _ => True

section sweeps

variable {s s' s₁ : State} {t : ThreadId} {a : Act} {old new : Pc}

theorem Sweeping.mono (hstep : StepMove s a s') {sweep : Sweep} {files : List Path} (h : Sweeping s sweep files) :
    Sweeping s' sweep files :=
  ⟨fun now hnow => Nat.le_trans (h.started now hnow) (now_step hstep),
    fun familyId hfamily => listed_step hstep (h.listed familyId hfamily), h.root⟩

theorem informed_mono (hstep : StepMove s a s') {pc : Pc} (h : s.Informed pc) : s'.Informed pc := by
  cases pc with
  | list => exact fun now hnow => Nat.le_trans (h now hnow) (now_step hstep)
  | sweepRead | sweepCatch => exact Sweeping.mono hstep h
  | sweepUnlink => exact ⟨h.1.mono hstep, h.2.mono hstep⟩
  | checkUnlink => exact State.Over.mono hstep h
  | _ => exact trivial

/-- The next round of a sweep, or the next directory. -/
theorem informed_next {sweep : Sweep} {rest : List Path} (h : Sweeping s sweep rest) : s.Informed (sweep.next rest) := by
  cases rest with
  | cons file rest => exact h
  | nil =>
    cases sweep with
    | purgeTokens now => exact h.started
    | _ => exact trivial

theorem Sweeping.tail {sweep : Sweep} {file : Path} {rest : List Path} (h : Sweeping s sweep (file :: rest)) :
    Sweeping s sweep rest := ⟨h.started, h.listed, fun file' hfile' => h.root file' (List.mem_cons_of_mem _ hfile')⟩

/-- A file that a sweep has read and is going to delete is over. -/
theorem over_of_dooms {sweep : Sweep} {file : Path} {rest : List Path} (h : Sweeping s sweep (file :: rest))
    {content : Content} (hproper : s.Proper file content) (hdoomed : sweep.dooms content = true) : s.Over file := by
  obtain ⟨hexpiry, hfamily⟩ := expiryOf_of_proper hproper
  have hexpired : ∀ now, sweep.startedAt? = some now → content.expiresAt ≤ now → s.Over file := by
    intro now hnow hle
    refine .inl ?_
    rw [hexpiry]
    exact decide_eq_true (Nat.le_trans hle (h.started now hnow))
  cases sweep with
  | revokeFamily familyId =>
    refine .inr ⟨h.root file List.mem_cons_self, ?_⟩
    rw [hfamily, show content.familyId = some familyId from of_decide_eq_true hdoomed]
    exact decide_eq_true (h.listed familyId rfl)
  | purgeTokens now | purgeConsumed now | purgeBlacklist now => exact hexpired now rfl (of_decide_eq_true hdoomed)

theorem Rejects.informed (h : Rejects old new) (hold : s.Informed old) : s.Informed new := by
  cases h with
  | @sign origin | @createOpen origin | @createWrite origin => cases origin <;> exact trivial
  | sweepRead => exact hold
  | sweepUnlink => exact hold.1
  | sweepCatch => exact informed_next hold.tail
  | _ => exact trivial

theorem Reads.informed (h : Reads s t old new) (hok : Ok s) (hold : s.Informed old) : s.Informed new := by
  have hproper : ∀ {file : Path} {content : Content}, (s.files.get? file).bind File.content = some content →
      s.Proper file content := by
    intro file content hcontent
    obtain ⟨f, hf, hfcontent⟩ := Option.bind_eq_some_iff.1 hcontent
    exact hok.files.proper file f content hf hfcontent
  cases h with
  | reused => exact nofun
  | refused hnew => rcases hnew with rfl | rfl <;> exact trivial
  | doomed hfile hdoomed => exact ⟨hold, over_of_dooms hold (hproper hfile) hdoomed⟩
  | spared => exact informed_next hold.tail
  | unread => exact hold
  | gone => exact hold.1
  | checkExpired hfile hcontent hexp =>
    refine .inl ?_
    rw [(expiryOf_of_proper (hok.files.proper _ _ _ hfile hcontent)).1]
    exact decide_eq_true hexp
  | _ => exact trivial

theorem Unlinks.informed {file : Path} (h : Unlinks s t old file new) (hold : s.Informed old) : s.Informed new := by
  cases h with
  | sweep => exact informed_next hold.1.tail
  | sweepCatch => exact informed_next hold.tail
  | _ => exact trivial

theorem informed_step (hok : Ok s) (hstep : StepMove s a s') (h : ∀ i, s.Informed (s.threads i)) (i : ThreadId) :
    s'.Informed (s'.threads i) := by
  refine hstep.forall_threads (P := fun _ pc => s'.Informed pc) (fun i => informed_mono hstep (h i))
    (fun pc hs heq => ?_) (fun t new s₁ hmove heq => ?_) i
  · subst heq
    cases hs with
    | @revoke token => cases token <;> exact trivial
    | purgeTokens | purgeBlacklist =>
      rintro now ⟨⟩
      exact Nat.le_refl _
    | _ => exact trivial
  · have hold := h t
    subst heq
    generalize s.threads t = old at hmove hold
    cases hmove with
    | reject hreject => exact informed_mono hstep (hreject.informed hold)
    | read hread => exact informed_mono hstep (hread.informed hok hold)
    | truncate htruncate => cases htruncate <;> exact trivial
    | @create origin => cases origin <;> exact trivial
    | @add _ _ token => cases token <;> exact trivial
    | unlink hunlink => exact informed_mono hstep (hunlink.informed hold)
    | @list sweep files hfiles =>
      refine informed_next ⟨hold, fun familyId hfamily => ?_, fun file hfile => ?_⟩
      · simp [State.setPc, hfamily]
      · exact of_decide_eq_true (Files.mem_names.1 (hfiles.mem_iff.1 hfile)).2
    | _ => exact trivial

end sweeps

/-! ### What is kept -/

/-- The token that the call is going to delete for a logout. -/
def Pc.revokes? : Pc → Option RefreshToken
  | .addOpen _ _ token | .addWrite _ _ token _ => token
  | .revoke token => some token
  | _ => none

/-- The token can be used, or a refresh has it with its record, or it is consumed. -/
def State.Kept (s : State) (n : Nat) : Prop :=
  (∃ content, (s.files.get? (.active (.drawn n))).bind File.content = some content) ∨
    (∃ i content, (s.threads i).claims? = some (.drawn n) ∧
      (s.files.get? (.consuming (.drawn n) i)).bind File.content = some content) ∨
    ∃ i, (s.threads i).spends? = some (.drawn n)

/-- What is not over is there: the files being written, the entries added, the consumed records, and the tokens of `N`,
with which nobody logs out. -/
structure Maintained (N : Nat → Prop) (s : State) : Prop where
  spent : Spent s
  informed : ∀ i, s.Informed (s.threads i)
  created_lt : ∀ k ∈ s.created, k < s.drawn.length
  uncreated : ∀ i k, (s.threads i).creates? = some k → k ∉ s.created
  unrevoked : ∀ n, N n → ∀ i, (s.threads i).revokes? ≠ some (.drawn n)
  writers : ∀ i inode file, (s.threads i).writes? = some (inode, file) →
    s.Over file ∨ ∃ f, s.files.get? file = some f ∧ f.inode = inode
  entries : ∀ jti ∈ s.added, s.Over (.entry jti) ∨ ∃ f, s.files.get? (.entry jti) = some f ∧
    (f.content ≠ none ∨ ∃ i, (s.threads i).writes? = some (f.inode, .entry jti))
  consumed : ∀ i token, (s.threads i).spends? = some token → s.Over (.consumed token) ∨
    ∃ content, (s.files.get? (.consumed token)).bind File.content = some content
  created : ∀ n ∈ s.created, N n → s.Over (.active (.drawn n)) ∨ s.Kept n

theorem Move.revokes {s s₁ : State} {t : ThreadId} {a : Act} {old new : Pc} (h : Move s t a old s₁ new)
    {token : RefreshToken} (hnew : new.revokes? = some token) : old.revokes? = some token := by
  have hnext : ∀ sweep rest, (Sweep.next sweep rest).revokes? = none := by
    intro sweep rest
    cases rest with
    | cons => rfl
    | nil => cases sweep <;> rfl
  cases h with
  | reject hreject =>
    cases hreject with
    | @sign origin | @createOpen origin | @createWrite origin => cases origin <;> cases hnew
    | sweepCatch => cases (hnext _ _).symm.trans hnew
    | _ => cases hnew
  | read hread =>
    cases hread with
    | refused hrefused => rcases hrefused with rfl | rfl <;> cases hnew
    | spared => cases (hnext _ _).symm.trans hnew
    | _ => cases hnew
  | truncate htruncate =>
    cases htruncate with
    | add => exact hnew
    | create | commit => cases hnew
  | @create origin => cases origin <;> cases hnew
  | @add _ _ token' =>
    cases token' with
    | none => cases hnew
    | some => exact hnew
  | unlink hunlink =>
    cases hunlink with
    | sweep | sweepCatch => cases (hnext _ _).symm.trans hnew
    | _ => cases hnew
  | list => cases (hnext _ _).symm.trans hnew
  | sign | commit | claim | rollback => cases hnew

/-- A call that is in progress is not the new one. -/
theorem spawn_same {s : State} (hfresh : Fresh s) {i : ThreadId} (hi : s.threads i ≠ .absent) (pc : Pc) :
    (s.spawn pc).threads i = s.threads i :=
  Function.update_of_ne (fun heq => hi (hfresh i (Nat.le_of_eq heq.symm))) ..

/-- The tokens created after a step. -/
theorem created_step {s s' : State} {a : Act} (hstep : StepMove s a s') : s'.created = s.created ∨
    ∃ t origin pair record inode, s.threads t = .createWrite origin pair record inode ∧
      s'.threads t = origin.issued pair ∧ s'.created = s.created ++ [pair.token] ∧
      s'.files = s.files.write inode (.token record) := by
  cases hstep with
  | tick | start => exact .inl rfl
  | @call _ t s₁ new hmove =>
    generalize hpc : s.threads t = old at hmove
    cases hmove with
    | create => exact .inr ⟨t, _, _, _, _, hpc, setPc_self _ _ _, rfl, rfl⟩
    | _ => exact .inl rfl

/-- The entries added after a step. -/
theorem added_step {s s' : State} {a : Act} (hstep : StepMove s a s') : s'.added = s.added ∨
    ∃ t jti expiresAt token inode, s.threads t = .addWrite jti expiresAt token inode ∧ s'.added = s.added ++ [jti] ∧
      s'.files = s.files.write inode (.entry jti expiresAt) := by
  cases hstep with
  | tick | start => exact .inl rfl
  | @call _ t s₁ new hmove =>
    generalize hpc : s.threads t = old at hmove
    cases hmove with
    | add => exact .inr ⟨t, _, _, _, _, hpc, rfl, rfl⟩
    | _ => exact .inl rfl

/-- The file that a call is writing is none that a refresh moves. -/
theorem name_of_writes {pc : Pc} {inode : Nat} {file : Path} (h : pc.writes? = some (inode, file)) :
    (∀ token, file = .active token → ∃ k, token = .drawn k ∧ pc.creates? = some k) ∧
      ∀ token i, file ≠ .consuming token i := by
  cases pc with
  | createWrite origin pair =>
    cases h
    exact ⟨fun token heq => ⟨pair.token, (Path.active.inj heq).symm, rfl⟩, nofun⟩
  | commitWrite | addWrite =>
    cases h
    exact ⟨nofun, nofun⟩
  | _ => cases h

/-- Why a file is deleted. -/
inductive Deletion (s : State) (t : ThreadId) (file : Path) (f : File Content) : Prop
  | expired (hover : s.Over file)
  | torn (hcontent : f.content = none) (hwriters : ∀ i, (s.threads i).writes? ≠ some (f.inode, file))
  | revoked {token : RefreshToken} (hpc : s.threads t = .revoke token) (hname : file = .active token)
  | lock {token : RefreshToken} (hname : file = .consuming token t)
    (hspends : (s.threads t).claims? = some token → (s.threads t).spends? = some token)

namespace Maintained

variable {N : Nat → Prop} {s s' s₁ : State} {t : ThreadId} {a : Act} {new : Pc}

theorem deletion (h : Maintained N s) (hspare : SweepsSpare s (.resume t)) {file : Path}
    (hunlink : Unlinks s t (s.threads t) file new) {f : File Content} (hf : s.files.get? file = some f) :
    Deletion s t file f := by
  have hinformed := h.informed t
  generalize hpc : s.threads t = old at hunlink hinformed
  cases hunlink with
  | dropLock => exact .lock rfl fun hclaims => by rw [hpc] at hclaims; cases hclaims
  | commit => exact .lock rfl fun hclaims => by rw [hpc] at hclaims ⊢; exact hclaims
  | sweep => exact .expired hinformed.2
  | sweepCatch =>
    simp only [SweepsSpare, hpc, hf] at hspare
    rcases hspare with hover | ⟨hcontent, hwriters⟩
    · exact .expired hover
    · refine .torn hcontent fun i => ?_
      rcases Nat.lt_or_ge i s.nextThread with hlt | hge
      · exact hwriters i hlt
      · rw [h.spent.ok.fresh i hge]
        nofun
  | revoke => exact .revoked hpc rfl
  | check => exact .expired hinformed

theorem uncreated_step (h : Maintained N s) (hstep : StepMove s a s') (i : ThreadId) (k : Nat)
    (hi : (s'.threads i).creates? = some k) : k ∉ s'.created := by
  rcases created_step hstep with hcreated | ⟨t, origin, pair, record, inode, hpc, hnew, hcreated, -⟩ <;> rw [hcreated]
  · rcases creates_step hstep i k hi with hold | ⟨rfl, -, -⟩
    · exact h.uncreated i k hold
    · exact fun hmem => Nat.lt_irrefl _ (h.created_lt _ hmem)
  · rcases creates_step hstep i k hi with hold | ⟨rfl, -, -⟩
    · intro hmem
      rcases List.mem_append.1 hmem with hmem | hmem
      · exact h.uncreated i k hold hmem
      · obtain rfl := List.mem_singleton.1 hmem
        obtain rfl := h.spent.ok.secret.unique i t _ hold (by rw [hpc]; rfl)
        rw [hnew] at hi
        cases origin <;> cases hi
    · intro hmem
      rcases List.mem_append.1 hmem with hmem | hmem
      · exact Nat.lt_irrefl _ (h.created_lt _ hmem)
      · have hlt := h.spent.ok.secret.lt t pair.token (by rw [hpc]; rfl)
        rw [← List.mem_singleton.1 hmem] at hlt
        exact Nat.lt_irrefl _ hlt

theorem created_lt_step (h : Maintained N s) (hstep : StepMove s a s') (k : Nat) (hk : k ∈ s'.created) :
    k < s'.drawn.length := by
  refine Nat.lt_of_lt_of_le ?_ (drawn_step hstep).1.length_le
  rcases created_step hstep with hcreated | ⟨t, origin, pair, record, inode, hpc, -, hcreated, -⟩ <;> rw [hcreated] at hk
  · exact h.created_lt k hk
  · rcases List.mem_append.1 hk with hk | hk
    · exact h.created_lt k hk
    · rw [List.mem_singleton.1 hk]
      exact h.spent.ok.secret.lt t pair.token (by rw [hpc]; rfl)

theorem unrevoked_step (h : Maintained N s) (hrevokes : ∀ n, N n → ¬ Revokes n a) (hstep : StepMove s a s') (n : Nat)
    (hn : N n) (i : ThreadId) : (s'.threads i).revokes? ≠ some (.drawn n) := by
  refine hstep.forall_threads (P := fun _ pc => pc.revokes? ≠ some (.drawn n)) (h.unrevoked n hn)
    (fun pc hs _ hpc => ?_) (fun t new s₁ hmove _ hnew => h.unrevoked n hn t (hmove.revokes hnew)) i
  cases hs with
  | logout => exact hrevokes n hn hpc
  | @revoke token =>
    cases token with
    | none => cases hpc
    | some => exact hrevokes n hn hpc
  | _ => cases hpc

/-- A file that is being written stays, unless it is over. -/
theorem writers_move (h : Maintained N s) (hspare : SweepsSpare s a) (hmove : Move s t a (s.threads t) s₁ new)
    {i : ThreadId} {inode : Nat} {file : Path} (hwrites : (s.threads i).writes? = some (inode, file)) :
    s.Over file ∨ ∃ f, s₁.files.get? file = some f ∧ f.inode = inode := by
  rcases h.writers i inode file hwrites with hover | ⟨f, hf, hinode⟩
  · exact .inl hover
  · obtain ⟨hactive, hconsuming⟩ := name_of_writes hwrites
    -- a token that is being created is nobody's
    have hhidden : ∀ token, file = .active token → (s.threads t).presents? ≠ some token := by
      intro token hname
      obtain ⟨k, rfl, hcreates⟩ := hactive token hname
      exact h.spent.ok.secret.hidden i t k hcreates
    cases hmove.fileNext hf with
    | kept hfile => exact .inr ⟨f, hfile, hinode⟩
    | truncated _ hfile => exact .inr ⟨_, hfile, hinode⟩
    | written _ hfile => exact .inr ⟨_, hfile, by rw [Files.fill_inode]; exact hinode⟩
    | unlinked hact hunlink =>
      subst hact
      cases h.deletion hspare hunlink hf with
      | expired hover => exact .inl hover
      | torn _ hwriters => exact absurd (hinode ▸ hwrites) (hwriters i)
      | revoked hpc hname => exact absurd (by rw [hpc]; rfl) (hhidden _ hname)
      | lock hname => exact absurd hname (hconsuming _ _)
    | claimed hpc _ hname => exact absurd (by rw [hpc]; rfl) (hhidden _ hname)
    | restored _ hname => exact absurd hname (hconsuming _ _)
    | replaced hname =>
      rcases hname with ⟨token, -, hname⟩ | ⟨session, pair, hpc, hname⟩
      · exact absurd hname (hconsuming _ _)
      · exact absurd (by rw [hpc]; rfl) (hhidden _ hname)

theorem writers_step (h : Maintained N s) (hspare : SweepsSpare s a) (hstep : StepMove s a s') (i : ThreadId) (inode : Nat)
    (file : Path) (hwrites : (s'.threads i).writes? = some (inode, file)) :
    s'.Over file ∨ ∃ f, s'.files.get? file = some f ∧ f.inode = inode := by
  revert hwrites
  refine hstep.forall_threads (P := fun _ pc => pc.writes? = some (inode, file) →
    s'.Over file ∨ ∃ f, s'.files.get? file = some f ∧ f.inode = inode) (fun i hwrites => ?_) (fun pc hs _ hpc => ?_)
    (fun t new s₁ hmove heq hnew => ?_) i
  · have hmoved : s.Over file ∨ ∃ f, s'.files.get? file = some f ∧ f.inode = inode := by
      cases hstep with
      | tick | start => exact h.writers i inode file hwrites
      | call hmove => exact h.writers_move hspare hmove hwrites
    exact hmoved.imp_left (·.mono hstep)
  · cases hs.idle.2.2.2.symm.trans hpc
  · subst heq
    obtain ⟨rfl, hfiles⟩ := hmove.opened hnew
    refine .inr ⟨⟨s.files.inodeOf file, none⟩, ?_, rfl⟩
    refine (congrArg (Files.get? · file) hfiles).trans ?_
    rw [Files.get?_truncate, if_pos rfl]

/-- The writer of a file that is there fills it. -/
theorem filled_of_writes (h : Maintained N s) {inode : Nat} {file : Path} {content : Content}
    (hwrites : (s.threads t).writes? = some (inode, file)) (hfiles : s₁.files = s.files.write inode content) :
    s.Over file ∨ ∃ f, s₁.files.get? file = some f ∧ f.content = some content := by
  refine (h.writers t inode file hwrites).imp_right ?_
  rintro ⟨f, hf, rfl⟩
  refine ⟨Files.fill f.inode content f, ?_, by rw [Files.fill, if_pos rfl]⟩
  rw [hfiles, Files.get?_write, hf, Option.map_some]

theorem entries_step (h : Maintained N s) (hspare : SweepsSpare s a) (hstep : StepMove s a s') (jti : Jti)
    (hjti : jti ∈ s'.added) : s'.Over (.entry jti) ∨ ∃ f, s'.files.get? (.entry jti) = some f ∧
      (f.content ≠ none ∨ ∃ i, (s'.threads i).writes? = some (f.inode, .entry jti)) := by
  have hfilled : ∀ {t : ThreadId} {inode : Nat} {content : Content},
      (s.threads t).writes? = some (inode, .entry jti) → s'.files = s.files.write inode content →
      s'.Over (.entry jti) ∨ ∃ f, s'.files.get? (.entry jti) = some f ∧
        (f.content ≠ none ∨ ∃ i, (s'.threads i).writes? = some (f.inode, .entry jti)) := by
    intro t inode content hwrites hfiles
    rcases h.filled_of_writes hwrites hfiles with hover | ⟨f, hf, hcontent⟩
    · exact .inl (hover.mono hstep)
    · exact .inr ⟨f, hf, .inl (by rw [hcontent]; simp)⟩
  have hold : jti ∈ s.added ∨ ∃ t expiresAt token inode, s.threads t = .addWrite jti expiresAt token inode ∧
      s'.files = s.files.write inode (.entry jti expiresAt) := by
    rcases added_step hstep with hadded | ⟨t, jti', expiresAt, token, inode, hpc, hadded, hfiles⟩ <;> rw [hadded] at hjti
    · exact .inl hjti
    · rcases List.mem_append.1 hjti with hmem | hmem
      · exact .inl hmem
      · obtain rfl := List.mem_singleton.1 hmem
        exact .inr ⟨t, expiresAt, token, inode, hpc, hfiles⟩
  rcases hold with hold | ⟨t, expiresAt, token, inode, hpc, hfiles⟩
  · rcases h.entries jti hold with hover | ⟨f, hf, hwhy⟩
    · exact .inl (hover.mono hstep)
    · cases hstep with
      | tick => exact .inr ⟨f, hf, hwhy⟩
      | @start _ pc hs =>
        refine .inr ⟨f, hf, hwhy.imp_right ?_⟩
        rintro ⟨i, hi⟩
        have hsame := spawn_same h.spent.ok.fresh (i := i) (by rintro heq; rw [heq] at hi; cases hi) pc
        exact ⟨i, by rw [hsame]; exact hi⟩
      | @call _ t s₁ new hmove =>
        -- the call that writes the entry fills it; other writers go on
        have hwriter : ∀ i, (s.threads i).writes? = some (f.inode, .entry jti) →
            ((s₁.setPc t new).threads i).writes? = some (f.inode, .entry jti) ∨
              ∃ content, s₁.files = s.files.write f.inode content := by
          intro i hi
          by_cases heq : i = t
          · subst heq
            right
            generalize hpc : s.threads i = old at hmove hi
            cases old with
            | addWrite =>
              cases hi
              cases hmove with
              | add => exact ⟨_, rfl⟩
              | reject hreject => simp [SweepsSpare, hpc] at hspare
              | read hread => cases hread
              | truncate htruncate => cases htruncate
              | unlink hunlink => cases hunlink
            | _ => cases hi
          · rw [setPc_of_ne _ heq, hmove.threads]
            exact .inl hi
        have hsame : s₁.files.get? (.entry jti) = some f →
            (s₁.setPc t new).Over (.entry jti) ∨ ∃ f, (s₁.setPc t new).files.get? (.entry jti) = some f ∧
              (f.content ≠ none ∨ ∃ i, ((s₁.setPc t new).threads i).writes? = some (f.inode, .entry jti)) := by
          intro hfile
          rcases hwhy with hcontent | ⟨i, hi⟩
          · exact .inr ⟨f, hfile, .inl hcontent⟩
          · rcases hwriter i hi with hnew | ⟨content, hfiles⟩
            · exact .inr ⟨f, hfile, .inr ⟨i, hnew⟩⟩
            · exact hfilled hi hfiles
        cases hmove.fileNext hf with
        | kept hfile => exact hsame hfile
        | truncated htruncate hfile =>
          refine .inr ⟨_, hfile, .inr ⟨t, ?_⟩⟩
          rw [setPc_self]
          have hinode : s.files.inodeOf (.entry jti) = f.inode := by rw [Files.inodeOf, hf, Option.elim_some]
          rw [← hinode]
          generalize s.threads t = old at htruncate
          generalize hname : Path.entry jti = file at htruncate
          cases htruncate <;> cases hname
          rfl
        | @written inode name content hwrite hfile =>
          by_cases hinode : f.inode = inode
          · rw [Files.fill, if_pos hinode] at hfile
            exact .inr ⟨_, hfile, .inl (by simp)⟩
          · rw [Files.fill, if_neg hinode] at hfile
            exact hsame hfile
        | unlinked hact hunlink =>
          subst hact
          cases h.deletion hspare hunlink hf with
          | expired hover => exact .inl (hover.mono (.call hmove))
          | torn hcontent hwriters =>
            rcases hwhy with hsome | ⟨i, hi⟩
            · exact absurd hcontent hsome
            · exact absurd hi (hwriters i)
          | revoked _ hname => cases hname
          | lock hname => cases hname
        | claimed _ _ hname => cases hname
        | restored _ hname => cases hname
        | replaced hname => rcases hname with ⟨_, -, hname⟩ | ⟨_, _, -, hname⟩ <;> cases hname
  · exact hfilled (t := t) (by rw [hpc]; rfl) hfiles

/-- A call that has committed just now has written the record. -/
theorem spends_of_move (hmove : Move s t a (s.threads t) s₁ new) {token : RefreshToken}
    (hnew : new.spends? = some token) : (s.threads t).spends? = some token ∨ ∃ inode content,
      (s.threads t).writes? = some (inode, .consumed token) ∧ s₁.files = s.files.write inode content := by
  have hnext : ∀ sweep rest, (Sweep.next sweep rest).spends? ≠ some token := by
    intro sweep rest hspends
    cases (next_idle sweep rest).claims.symm.trans (claims_of_spends hspends)
  generalize s.threads t = old at hmove
  cases hmove with
  | reject hreject =>
    cases hreject with
    | @sign origin | @createOpen origin | @createWrite origin => cases origin <;> cases hnew
    | commitUnlink => exact .inl hnew
    | sweepCatch => exact absurd hnew (hnext _ _)
    | _ => cases hnew
  | read hread =>
    cases hread with
    | refused hrefused => rcases hrefused with rfl | rfl <;> cases hnew
    | spared => exact absurd hnew (hnext _ _)
    | _ => cases hnew
  | truncate htruncate => cases htruncate <;> cases hnew
  | @create origin => cases origin <;> cases hnew
  | @add _ _ token' => cases token' <;> cases hnew
  | commit =>
    refine .inr ⟨_, _, ?_, rfl⟩
    rw [← Option.some.inj hnew]
    rfl
  | unlink hunlink =>
    cases hunlink with
    | commit => exact .inl hnew
    | sweep | sweepCatch => exact absurd hnew (hnext _ _)
    | _ => cases hnew
  | list => exact absurd hnew (hnext _ _)
  | sign | claim | rollback => cases hnew

theorem consumed_step (h : Maintained N s) (hspare : SweepsSpare s a) (hstep : StepMove s a s') (i : ThreadId)
    (token : RefreshToken) (hi : (s'.threads i).spends? = some token) : s'.Over (.consumed token) ∨
      ∃ content, (s'.files.get? (.consumed token)).bind File.content = some content := by
  have hcases : (s.threads i).spends? = some token ∨ ∃ t inode content,
      (s.threads t).writes? = some (inode, .consumed token) ∧ s'.files = s.files.write inode content := by
    revert hi
    refine hstep.forall_threads (P := fun i pc => pc.spends? = some token → (s.threads i).spends? = some token ∨
      ∃ t inode content, (s.threads t).writes? = some (inode, .consumed token) ∧ s'.files = s.files.write inode content)
      (fun i hi => .inl hi) (fun pc hs _ hpc => ?_) (fun t new s₁ hmove heq hnew => ?_) i
    · cases hs.idle.1.symm.trans (claims_of_spends hpc)
    · subst heq
      rcases spends_of_move hmove hnew with hold | ⟨inode, content, hwrites, hfiles⟩
      · exact .inl hold
      · exact .inr ⟨t, inode, content, hwrites, hfiles⟩
  rcases hcases with hold | ⟨t, inode, content, hwrites, hfiles⟩
  · rcases h.consumed i token hold with hover | ⟨content, hcontent⟩
    · exact .inl (hover.mono hstep)
    · cases hstep with
      | tick | start => exact .inr ⟨content, hcontent⟩
      | @call _ t s₁ new hmove =>
        obtain ⟨f, hf, hfcontent⟩ := Option.bind_eq_some_iff.1 hcontent
        have hsame : s₁.files.get? (.consumed token) = some f → (s₁.setPc t new).Over (.consumed token) ∨
            ∃ content, ((s₁.setPc t new).files.get? (.consumed token)).bind File.content = some content :=
          fun hfile => .inr ⟨content, (congrArg (Option.bind · File.content) hfile).trans hfcontent⟩
        cases hmove.fileNext hf with
        | kept hfile => exact hsame hfile
        | truncated htruncate =>
          -- another call would be committing the token
          generalize hpc : s.threads t = old at htruncate
          generalize hname : Path.consumed token = file at htruncate
          cases htruncate with
          | @commit session pair =>
            cases hname
            obtain rfl := h.spent.ok.claims.unique t i session.token (by rw [hpc]; rfl) (claims_of_spends hold)
            rw [hpc] at hold
            cases hold
          | create | add => cases hname
        | @written inode name content' hwrite hfile =>
          by_cases hinode : f.inode = inode
          · rw [Files.fill, if_pos hinode] at hfile
            exact .inr ⟨content', congrArg (Option.bind · File.content) hfile⟩
          · rw [Files.fill, if_neg hinode] at hfile
            exact hsame hfile
        | unlinked hact hunlink =>
          subst hact
          cases h.deletion hspare hunlink hf with
          | expired hover => exact .inl (hover.mono (.call hmove))
          | torn hnone => cases hnone.symm.trans hfcontent
          | revoked _ hname => cases hname
          | lock hname => cases hname
        | claimed _ _ hname => cases hname
        | restored _ hname => cases hname
        | replaced hname => rcases hname with ⟨_, -, hname⟩ | ⟨_, _, -, hname⟩ <;> cases hname
  · rcases h.filled_of_writes hwrites hfiles with hover | ⟨f, hf, hcontent⟩
    · exact .inl (hover.mono hstep)
    · exact .inr ⟨content, (congrArg (Option.bind · File.content) hf).trans hcontent⟩

/-- A call that lets a token go has found it expired, or moves it back. -/
theorem claims_or_drop (hmove : Move s t a (s.threads t) s₁ new) (hspare : SweepsSpare s a) {token : RefreshToken}
    (hclaims : (s.threads t).claims? = some token) : new.claims? = some token ∨
      (∀ record, (s.files.get? (.consuming token t)).bind File.content = some (.token record) →
        record.expiresAt ≤ s.now) ∨
      s₁.files = s.files.rename (.consuming token t) (.active token) := by
  generalize hpc : s.threads t = old at hmove hclaims
  cases hmove with
  | reject hreject =>
    cases hreject with
    | @sign origin | @createOpen origin | @createWrite origin => cases origin <;> exact .inl hclaims
    | readLock | rollback => simp [SweepsSpare, hpc] at hspare
    | commitOpen | commitWrite | commitUnlink => exact .inl hclaims
    | _ => cases hclaims
  | read hread =>
    cases hread with
    | accepted => exact .inl hclaims
    | expired hexp =>
      obtain rfl := Option.some.inj hclaims
      exact .inr (.inl hexp)
    | _ => cases hclaims
  | truncate htruncate =>
    cases htruncate with
    | create | commit => exact .inl hclaims
    | add => cases hclaims
  | @create origin => cases origin <;> exact .inl hclaims
  | unlink hunlink =>
    cases hunlink with
    | commit => exact .inl hclaims
    | _ => cases hclaims
  | rollback =>
    obtain rfl := Option.some.inj hclaims
    exact .inr (.inr rfl)
  | sign | commit => exact .inl hclaims
  | claim | add | list => cases hclaims

theorem kept_of_active (h : Maintained N s) (hspare : SweepsSpare s a) (hmove : Move s t a (s.threads t) s₁ new)
    {n : Nat} (hn : N n) (hcreated : n ∈ s.created) {f : File Content} (hf : s.files.get? (.active (.drawn n)) = some f) {content : Content}
    (hcontent : f.content = some content) : s.Over (.active (.drawn n)) ∨ (s₁.setPc t new).Kept n := by
  have hsame : s₁.files.get? (.active (.drawn n)) = some f → s.Over (.active (.drawn n)) ∨ (s₁.setPc t new).Kept n :=
    fun hfile => .inr (.inl ⟨content, (congrArg (Option.bind · File.content) hfile).trans hcontent⟩)
  cases hmove.fileNext hf with
  | kept hfile => exact hsame hfile
  | truncated htruncate =>
    generalize hpc : s.threads t = old at htruncate
    generalize hname : Path.active (.drawn n) = file at htruncate
    cases htruncate with
    | create =>
      cases hname
      exact absurd hcreated (h.uncreated t _ (by rw [hpc]; rfl))
    | commit | add => cases hname
  | @written inode name content' hwrite hfile =>
    by_cases hinode : f.inode = inode
    · rw [Files.fill, if_pos hinode] at hfile
      exact .inr (.inl ⟨content', congrArg (Option.bind · File.content) hfile⟩)
    · rw [Files.fill, if_neg hinode] at hfile
      exact hsame hfile
  | unlinked hact hunlink =>
    subst hact
    cases h.deletion hspare hunlink hf with
    | expired hover => exact .inl hover
    | torn hnone => cases hnone.symm.trans hcontent
    | revoked hpc hname =>
      cases hname
      exact absurd (by rw [hpc]; rfl) (h.unrevoked n hn t)
    | lock hname => cases hname
  | claimed _ hnew hname hfile =>
    cases hname
    refine .inr (.inr (.inl ⟨t, content, ?_, (congrArg (Option.bind · File.content) hfile).trans hcontent⟩))
    rw [setPc_self, hnew]
    rfl
  | restored _ hname => cases hname
  | replaced hname =>
    rcases hname with ⟨_, -, hname⟩ | ⟨session, pair, hpc, hname⟩
    · cases hname
    · have hnone := h.spent.ok.claims.gone t session.token (by rw [hpc]; rfl)
      rw [← hname] at hnone
      cases hnone.symm.trans hf

theorem kept_of_consuming (h : Maintained N s) (hspare : SweepsSpare s a) (hmove : Move s t a (s.threads t) s₁ new)
    {n : Nat} {i : ThreadId} (hclaims : (s.threads i).claims? = some (.drawn n)) {f : File Content}
    (hf : s.files.get? (.consuming (.drawn n) i) = some f) {content : Content} (hcontent : f.content = some content) :
    s.Over (.active (.drawn n)) ∨ (s₁.setPc t new).Kept n := by
  have hstep : StepMove s a (s₁.setPc t new) := .call hmove
  by_cases hkeeps : ((s₁.setPc t new).threads i).claims? = some (.drawn n)
  · have hfile : ∀ content, (s₁.files.get? (.consuming (.drawn n) i)).bind File.content = some content →
        s.Over (.active (.drawn n)) ∨ (s₁.setPc t new).Kept n :=
      fun content hafter => .inr (.inr (.inl ⟨i, content, hkeeps, hafter⟩))
    have hsame : s₁.files.get? (.consuming (.drawn n) i) = some f →
        s.Over (.active (.drawn n)) ∨ (s₁.setPc t new).Kept n :=
      fun hafter => hfile content ((congrArg (Option.bind · File.content) hafter).trans hcontent)
    cases hmove.fileNext hf with
    | kept hafter => exact hsame hafter
    | truncated htruncate =>
      generalize s.threads t = old at htruncate
      generalize hname : Path.consuming (.drawn n) i = file at htruncate
      cases htruncate <;> cases hname
    | @written inode name content' hwrite hafter =>
      by_cases hinode : f.inode = inode
      · rw [Files.fill, if_pos hinode] at hafter
        exact hfile content' (congrArg (Option.bind · File.content) hafter)
      · rw [Files.fill, if_neg hinode] at hafter
        exact hsame hafter
    | unlinked hact hunlink =>
      subst hact
      cases h.deletion hspare hunlink hf with
      | expired hover => exact .inl hover
      | torn hnone => cases hnone.symm.trans hcontent
      | revoked _ hname => cases hname
      | lock hname hspends =>
        cases hname
        exact .inr (.inr (.inr ⟨t, spends_step h.spent.ok.fresh hstep (hspends hclaims)⟩))
    | claimed _ _ hname => cases hname
    | restored _ hname hafter =>
      obtain ⟨htoken, rfl⟩ := Path.consuming.inj hname
      rw [← htoken] at hafter
      exact .inr (.inl ⟨content, (congrArg (Option.bind · File.content) hafter).trans hcontent⟩)
    | replaced hname =>
      rcases hname with ⟨_, hpc, hname⟩ | ⟨_, _, -, hname⟩
      · cases hname
        rw [hpc] at hclaims
        cases hclaims
      · cases hname
  · -- the call lets it go
    obtain rfl : i = t := by
      by_contra hne
      rw [setPc_of_ne _ hne, hmove.threads] at hkeeps
      exact hkeeps hclaims
    rw [setPc_self] at hkeeps
    rcases claims_or_drop hmove hspare hclaims with hnew | hexp | hfiles
    · exact absurd hnew hkeeps
    · left
      have hproper : s.Proper (.consuming (.drawn n) i) content := h.spent.ok.files.proper _ f content hf hcontent
      have hexpiry := (expiryOf_of_proper hproper).1
      obtain ⟨m, d, -, -, rfl⟩ := hproper
      have hover : s.Over (.consuming (.drawn n) i) := by
        refine .inl ?_
        rw [hexpiry]
        exact decide_eq_true (hexp d.record ((congrArg (Option.bind · File.content) hf).trans hcontent))
      exact hover
    · right
      refine .inl ⟨content, ?_⟩
      have hafter : s₁.files.get? (.active (.drawn n)) = some f := by rw [hfiles, Files.get?_rename hf, if_pos rfl]
      exact (congrArg (Option.bind · File.content) hafter).trans hcontent

theorem created_step (h : Maintained N s) (hspare : SweepsSpare s a) (hstep : StepMove s a s') (n : Nat)
    (hn : n ∈ s'.created) (hN : N n) : s'.Over (.active (.drawn n)) ∨ s'.Kept n := by
  have hold : n ∈ s.created ∨ ∃ t inode content, (s.threads t).writes? = some (inode, .active (.drawn n)) ∧
      s'.files = s.files.write inode content := by
    rcases Token.created_step hstep with hcreated | ⟨t, origin, pair, record, inode, hpc, -, hcreated, hfiles⟩ <;>
      rw [hcreated] at hn
    · exact .inl hn
    · rcases List.mem_append.1 hn with hmem | hmem
      · exact .inl hmem
      · rw [List.mem_singleton.1 hmem]
        exact .inr ⟨t, inode, _, by rw [hpc]; rfl, hfiles⟩
  rcases hold with hold | ⟨t, inode, content, hwrites, hfiles⟩
  · rcases h.created n hold hN with hover | hkept
    · exact .inl (hover.mono hstep)
    · cases hstep with
      | tick => exact .inr hkept
      | @start _ pc hs =>
        have hsame : ∀ i, (s.threads i).claims? = some (.drawn n) → (s.spawn pc).threads i = s.threads i := fun i hi =>
          spawn_same h.spent.ok.fresh (by rintro heq; rw [heq] at hi; cases hi) pc
        right
        rcases hkept with hactive | ⟨i, content, hclaims, hcontent⟩ | ⟨i, hi⟩
        · exact .inl hactive
        · exact .inr (.inl ⟨i, content, by rw [hsame i hclaims]; exact hclaims, hcontent⟩)
        · exact .inr (.inr ⟨i, by rw [hsame i (claims_of_spends hi)]; exact hi⟩)
      | @call _ t s₁ new hmove =>
        have hmono : s.Over (.active (.drawn n)) ∨ (s₁.setPc t new).Kept n →
            (s₁.setPc t new).Over (.active (.drawn n)) ∨ (s₁.setPc t new).Kept n := (·.imp_left (·.mono (.call hmove)))
        rcases hkept with ⟨content, hcontent⟩ | ⟨i, content, hclaims, hcontent⟩ | ⟨i, hi⟩
        · obtain ⟨f, hf, hfcontent⟩ := Option.bind_eq_some_iff.1 hcontent
          exact hmono (h.kept_of_active hspare hmove hN hold hf hfcontent)
        · obtain ⟨f, hf, hfcontent⟩ := Option.bind_eq_some_iff.1 hcontent
          exact hmono (h.kept_of_consuming hspare hmove hclaims hf hfcontent)
        · exact .inr (.inr (.inr ⟨i, spends_step h.spent.ok.fresh (.call hmove) hi⟩))
  · rcases h.filled_of_writes hwrites hfiles with hover | ⟨f, hf, hcontent⟩
    · exact .inl (hover.mono hstep)
    · exact .inr (.inl ⟨content, (congrArg (Option.bind · File.content) hf).trans hcontent⟩)

theorem step (h : Maintained N s) (hspare : SweepsSpare s a) (hrevokes : ∀ n, N n → ¬ Revokes n a)
    (hstep : Token.step s a = some s') : Maintained N s' :=
  have hmoves := step_move hstep
  { spent := h.spent.step hstep
    informed := informed_step h.spent.ok hmoves h.informed
    created_lt := h.created_lt_step hmoves
    uncreated := h.uncreated_step hmoves
    unrevoked := h.unrevoked_step hrevokes hmoves
    writers := h.writers_step hspare hmoves
    entries := h.entries_step hspare hmoves
    consumed := h.consumed_step hspare hmoves
    created := h.created_step hspare hmoves }

theorem fresh : Maintained N State.fresh :=
  ⟨.fresh, fun _ => trivial, nofun, nofun, nofun, nofun, nofun, nofun, nofun⟩

end Maintained

/-! ### Nothing of use is lost -/

/-- After the actions `as`, what was stored and has not expired is there. -/
structure Lossless (as : List Act) (s : State) : Prop where
  /-- An added entry is complete, or another `add` of it is writing it. -/
  entries : ∀ jti exp, jti ∈ s.added → s.signed[jti]? = some exp → s.now < exp * 1000 →
    ∃ f, s.files.get? (.entry jti) = some f ∧ (f.content = some (.entry jti (exp * 1000)) ∨
      f.content = none ∧ ∃ i, (s.threads i).writes? = some (f.inode, .entry jti))
  /-- No check of an added entry answers that it is not there. -/
  checks : ∀ jti exp, jti ∈ s.added → s.signed[jti]? = some exp → s.now < exp * 1000 →
    ∀ t, s.threads t ≠ .checkUnlink jti ∧ ∀ s', s.threads t = .checkRead jti → step s (.resume t) = some s' →
      s'.threads t ≠ .checked false
  /-- A created token with which nobody has logged out is live, or a refresh has it with its record, or it is consumed,
  unless its family is revoked. -/
  tokens : ∀ n d, (∀ a ∈ as, ¬ Revokes n a) → n ∈ s.created → s.drawn[n]? = some d → s.now < d.record.expiresAt →
    d.record.familyId ∉ s.listed → s.live n ∨
      (∃ i, (s.threads i).claims? = some (.drawn n) ∧
        (s.files.get? (.consuming (.drawn n) i)).bind File.content = some (.token d.record)) ∨
      ∃ i, (s.threads i).spends? = some (.drawn n)
  /-- A consumed record is there. -/
  consumed : ∀ n d i, (s.threads i).spends? = some (.drawn n) → s.drawn[n]? = some d → s.now < d.record.expiresAt →
    ∃ consumedAt, (s.files.get? (.consumed (.drawn n))).bind File.content = some (.consumed d.record consumedAt)

namespace Maintained

variable {N : Nat → Prop} {s : State}

theorem not_over {file : Path} {expiresAt : Nat} (hexpiry : s.expiryOf file = some expiresAt) (hlive : s.now < expiresAt)
    (hfamily : ∀ familyId, file.root = .refreshTokens → file.token?.bind s.familyOf = some familyId →
      familyId ∉ s.listed) : ¬ s.Over file := by
  rintro (hexp | ⟨hroot, hlisted⟩)
  · rw [hexpiry] at hexp
    exact absurd (of_decide_eq_true hexp) (Nat.not_le_of_lt hlive)
  · obtain ⟨familyId, hfamilyId, hmem⟩ := (Option.any_eq_true _ _).1 hlisted
    exact hfamily familyId hroot hfamilyId (of_decide_eq_true hmem)

theorem lossless_entries (h : Maintained N s) {jti : Jti} {exp : Nat} (hjti : jti ∈ s.added)
    (hexp : s.signed[jti]? = some exp) (hlive : s.now < exp * 1000) : ∃ f, s.files.get? (.entry jti) = some f ∧
      (f.content = some (.entry jti (exp * 1000)) ∨
        f.content = none ∧ ∃ i, (s.threads i).writes? = some (f.inode, .entry jti)) := by
  have hnot : ¬ s.Over (.entry jti) :=
    not_over (by simp only [State.expiryOf, hexp, Option.map_some]) hlive fun _ hroot => by cases hroot
  obtain ⟨f, hf, hwhy⟩ := (h.entries jti hjti).resolve_left hnot
  refine ⟨f, hf, ?_⟩
  cases hcontent : f.content with
  | some content =>
    obtain ⟨exp', hexp', rfl⟩ := h.spent.ok.files.proper _ f content hf hcontent
    rw [hexp] at hexp'
    exact .inl (by rw [Option.some.inj hexp'])
  | none => exact .inr ⟨rfl, hwhy.resolve_left (absurd hcontent)⟩

theorem lossless_checks (h : Maintained N s) {jti : Jti} {exp : Nat} (hjti : jti ∈ s.added)
    (hexp : s.signed[jti]? = some exp) (hlive : s.now < exp * 1000) (t : ThreadId) :
    s.threads t ≠ .checkUnlink jti ∧ ∀ s', s.threads t = .checkRead jti → Token.step s (.resume t) = some s' →
      s'.threads t ≠ .checked false := by
  refine ⟨fun hpc => ?_, fun s' hpc hstep => ?_⟩
  · have hover := h.informed t
    rw [hpc] at hover
    exact not_over (by simp only [State.expiryOf, hexp, Option.map_some]) hlive (fun _ hroot => by cases hroot) hover
  · obtain ⟨f, hf, hcontent⟩ := h.lossless_entries hjti hexp hlive
    rcases hcontent with hcontent | ⟨hcontent, -⟩
    · simp only [Token.step, resume, hpc, hf, hcontent] at hstep
      split at hstep
      · rename_i hexpired
        exact absurd hlive (Nat.not_lt_of_le hexpired)
      · rw [← Option.some.inj hstep, setPc_self]
        simp
    · simp only [Token.step, resume, hpc, hf, hcontent, Option.some.injEq] at hstep
      rw [← hstep, setPc_self]
      simp

theorem lossless_tokens (h : Maintained N s) {n : Nat} {d : Drawn} (hN : N n) (hn : n ∈ s.created)
    (hd : s.drawn[n]? = some d) (hlive : s.now < d.record.expiresAt) (hfamily : d.record.familyId ∉ s.listed) :
    s.live n ∨ (∃ i, (s.threads i).claims? = some (.drawn n) ∧
      (s.files.get? (.consuming (.drawn n) i)).bind File.content = some (.token d.record)) ∨
      ∃ i, (s.threads i).spends? = some (.drawn n) := by
  have hnot : ¬ s.Over (.active (.drawn n)) := by
    refine not_over (by simp only [State.expiryOf, hd, Option.map_some]) hlive fun familyId _ heq => ?_
    simp only [Path.token?, Option.bind_some, State.familyOf, hd, Option.map_some, Option.some.injEq] at heq
    exact heq ▸ hfamily
  have hrecord : ∀ {content : Content}, s.Proper (.active (.drawn n)) content → content = .token d.record := by
    rintro content ⟨m, d', hm, hd', rfl⟩
    obtain rfl := RefreshToken.drawn.inj hm
    rw [hd] at hd'
    rw [Option.some.inj hd']
  rcases (h.created n hn hN).resolve_left hnot with ⟨content, hcontent⟩ | ⟨i, content, hclaims, hcontent⟩ | hspends
  · obtain ⟨f, hf, hfcontent⟩ := Option.bind_eq_some_iff.1 hcontent
    exact .inl ⟨d, hd, hrecord (h.spent.ok.files.proper _ f content hf hfcontent) ▸ hcontent⟩
  · obtain ⟨f, hf, hfcontent⟩ := Option.bind_eq_some_iff.1 hcontent
    have hproper : s.Proper (.consuming (.drawn n) i) content := h.spent.ok.files.proper _ f content hf hfcontent
    exact .inr (.inl ⟨i, hclaims, hrecord hproper ▸ hcontent⟩)
  · exact .inr (.inr hspends)

theorem lossless_consumed (h : Maintained N s) {n : Nat} {d : Drawn} {i : ThreadId}
    (hi : (s.threads i).spends? = some (.drawn n)) (hd : s.drawn[n]? = some d) (hlive : s.now < d.record.expiresAt) :
    ∃ consumedAt, (s.files.get? (.consumed (.drawn n))).bind File.content = some (.consumed d.record consumedAt) := by
  have hnot : ¬ s.Over (.consumed (.drawn n)) :=
    not_over (by simp only [State.expiryOf, hd, Option.map_some]) hlive fun _ hroot => by cases hroot
  obtain ⟨content, hcontent⟩ := (h.consumed i _ hi).resolve_left hnot
  obtain ⟨f, hf, hfcontent⟩ := Option.bind_eq_some_iff.1 hcontent
  obtain ⟨m, d', consumedAt, hm, hd', rfl⟩ := h.spent.ok.files.proper _ f content hf hfcontent
  obtain rfl := RefreshToken.drawn.inj hm
  rw [hd] at hd'
  rw [← Option.some.inj hd'] at hcontent
  exact ⟨consumedAt, hcontent⟩

end Maintained

/-- Nothing of use is lost as long as the catch clause of a sweep deletes none. -/
theorem maintenance_lossless {as : List Act} {s : State} (hrun : Run step SweepsSpare State.fresh as s) :
    Lossless as s := by
  have hmaintained : Maintained (fun n => ∀ a ∈ as, ¬ Revokes n a) s :=
    (hrun.restrict (p := (· ∈ as)) fun _ ha => ha).invariant
      (fun _ a _ h hok hstep => h.step hok.1 (fun n hn => hn a hok.2) hstep) .fresh
  exact ⟨fun _ _ => hmaintained.lossless_entries, fun _ _ => hmaintained.lossless_checks,
    fun _ _ hN => hmaintained.lossless_tokens hN, fun _ _ _ => hmaintained.lossless_consumed⟩

/-- A purge of both stores, of which one goes through the files of a login and of a refresh of another, and the entry of
a logout. -/
theorem maintenance_lossless_purge : ∃ s, Run step SweepsSpare State.fresh
      (rotated ++ [.logout (some 0) none] ++ resumes 2 2 ++ [.purgeTokens] ++ [.readdir 3 [.active (.drawn 1)]] ++
        resumes 3 1 ++ [.readdir 3 [.consumed (.drawn 0)]] ++ resumes 3 1 ++
        [.purgeBlacklist, .readdir 4 [.entry 0]] ++ resumes 4 1) s ∧
    0 ∈ s.added ∧ 1 ∈ s.created ∧ s.threads 3 = .purged ∧ s.threads 4 = .purged ∧
    Lossless (rotated ++ [.logout (some 0) none] ++ resumes 2 2 ++ [.purgeTokens] ++ [.readdir 3 [.active (.drawn 1)]] ++
        resumes 3 1 ++ [.readdir 3 [.consumed (.drawn 0)]] ++ resumes 3 1 ++
        [.purgeBlacklist, .readdir 4 [.entry 0]] ++ resumes 4 1) s := by
  have hrun : ∃ s, Run step SweepsSpare State.fresh
        (rotated ++ [.logout (some 0) none] ++ resumes 2 2 ++ [.purgeTokens] ++ [.readdir 3 [.active (.drawn 1)]] ++
          resumes 3 1 ++ [.readdir 3 [.consumed (.drawn 0)]] ++ resumes 3 1 ++
          [.purgeBlacklist, .readdir 4 [.entry 0]] ++ resumes 4 1) s ∧
      0 ∈ s.added ∧ 1 ∈ s.created ∧ s.threads 3 = .purged ∧ s.threads 4 = .purged := exists_run (by decide)
  obtain ⟨s, hrun, hadded, hcreated, hpurged, hpurged'⟩ := hrun
  exact ⟨s, hrun, hadded, hcreated, hpurged, hpurged', maintenance_lossless hrun⟩

/-- The purge reads the file of a login's token while it is written, and deletes it when it is complete. -/
theorem maintenance_lossless_fails : ∃ s d, Run step Always State.fresh
      ([.login "user1"] ++ resumes 0 2 ++ [.purgeTokens, .readdir 1 [.active (.drawn 0)]] ++ resumes 1 1 ++
        resumes 0 1 ++ resumes 1 1) s ∧
    s.threads 0 = .loggedIn ⟨0, 0⟩ ∧ 0 ∈ s.created ∧ s.drawn[0]? = some d ∧ s.now < d.record.expiresAt ∧ s.listed = [] ∧
    ¬ s.live 0 ∧ s.nextThread = 2 ∧ ∀ i < 2, (s.threads i).claims? ≠ some (.drawn 0) := by
  have hrun : ∃ s, Run step Always State.fresh
        ([.login "user1"] ++ resumes 0 2 ++ [.purgeTokens, .readdir 1 [.active (.drawn 0)]] ++ resumes 1 1 ++
          resumes 0 1 ++ resumes 1 1) s ∧
      s.threads 0 = .loggedIn ⟨0, 0⟩ ∧ 0 ∈ s.created ∧ (s.drawn[0]?.any fun d => s.now < d.record.expiresAt) = true ∧
      s.listed = [] ∧ ¬ s.live 0 ∧ s.nextThread = 2 ∧ ∀ i < 2, (s.threads i).claims? ≠ some (.drawn 0) :=
    exists_run (by decide)
  obtain ⟨s, hrun, hpc, hcreated, hd, hrest⟩ := hrun
  obtain ⟨d, hd, hlive⟩ := (Option.any_eq_true _ _).1 hd
  exact ⟨s, d, hrun, hpc, hcreated, hd, of_decide_eq_true hlive, hrest⟩

end CubridWebManager.Token
