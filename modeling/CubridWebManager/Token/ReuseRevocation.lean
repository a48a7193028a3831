import CubridWebManager.Token.Invariants

/-!
# Reuse of a refresh token

A refresh that finds its token consumed deletes the files of the token's family: it reads the directory and goes through
the list.  What is written after the directory was read is not on the list, so the family is dead only where no call
writes or restores one of its tokens from then on (`RevocationsSeal`).  Then, as long as the sweep goes on, the files of
the family that are in their places are on the rest of the list, and there are none when it is over (`Sealed`).
-/

namespace CubridWebManager.Token

open Transition

/-- The family of a token that was drawn. -/
def State.familyOf (s : State) : RefreshToken → Option Family
  | .drawn n => (s.drawn[n]?).map fun d => d.record.familyId
  | .other _ => none

/-- What a revocation has still to look at; nothing when it has thrown. -/
def Pc.remaining? : Pc → Option (Family × List Path)
  | .sweepRead sweep file rest | .sweepUnlink sweep file rest | .sweepCatch sweep file rest =>
    sweep.family?.map fun familyId => (familyId, file :: rest)
  | .reused familyId => some (familyId, [])
  | _ => none

/-- No token of a family is written or restored once a revocation of the family has read the directory, and the
revocation does not fail to read it or to delete a file. -/
def RevocationsSeal (s : State) : Act → Prop
  | .resume t =>
    match s.threads t with
    | .createOpen _ _ record => record.familyId ∉ s.listed
    | .rollback session _ =>
      session.record.familyId ∈ s.listed → s.files.get? (.consuming session.token t) = none
    | _ => True
  | .reject t =>
    match s.threads t with
    | .list (.revokeFamily _) => False
    | .sweepCatch (.revokeFamily _) file _ => s.files.get? file = none
    | _ => True
  | _ => True

instance (s : State) (a : Act) : Decidable (RevocationsSeal s a) := by
  delta RevocationsSeal
  induction a using Act.casesOn <;> dsimp only <;> try exact .isTrue trivial
  case resume t => generalize s.threads t = pc; induction pc using Pc.casesOn <;> dsimp only <;> infer_instance
  case reject t =>
    generalize s.threads t = pc
    induction pc using Pc.casesOn <;> try exact .isTrue trivial
    case list sweep => induction sweep using Sweep.casesOn <;> dsimp only <;> infer_instance
    case sweepCatch sweep _ _ => induction sweep using Sweep.casesOn <;> dsimp only <;> infer_instance

/-! ### The sweep -/

theorem remaining_next (sweep : Sweep) (rest : List Path) :
    (sweep.next rest).remaining? = sweep.family?.map fun familyId => (familyId, rest) := by
  cases rest with
  | cons => rfl
  | nil => cases sweep <;> rfl

theorem eq_revokeFamily {sweep : Sweep} {familyId : Family} (h : sweep.family? = some familyId) :
    sweep = .revokeFamily familyId := by
  cases sweep <;> cases h
  rfl

/-- A revocation that has read the directory has all files of the family still to look at. -/
structure Sealed (s : State) : Prop where
  ok : Ok s
  listed : ∀ i familyId rest, (s.threads i).remaining? = some (familyId, rest) → familyId ∈ s.listed
  files : ∀ i familyId rest, (s.threads i).remaining? = some (familyId, rest) → ∀ token f,
    s.files.get? (.active token) = some f → s.familyOf token = some familyId → .active token ∈ rest

theorem familyOf_mono {s s' : State} (hdrawn : s.drawn <+: s'.drawn) {token : RefreshToken}
    (htoken : ∃ n, token = .drawn n ∧ n < s.drawn.length) : s'.familyOf token = s.familyOf token := by
  obtain ⟨n, rfl, hlt⟩ := htoken
  obtain ⟨t, ht⟩ := hdrawn
  simp only [State.familyOf, ← ht, List.getElem?_append_left hlt]

/-- Why this is what a revocation has still to look at. -/
inductive Remains (s : State) (t : ThreadId) (a : Act) (old : Pc) (s₁ : State) (familyId : Family) (rest : List Path) :
    Prop
  | same (h : old.remaining? = some (familyId, rest))
  | deleted {file : Path} (h : old.remaining? = some (familyId, file :: rest)) (hfile : s₁.files.get? file = none)
  | spared {file : Path} {content : Content} (h : old.remaining? = some (familyId, file :: rest))
    (hfile : (s.files.get? file).bind File.content = some content) (hcontent : content.familyId ≠ some familyId)
  | listed (h : old = .list (.revokeFamily familyId))
    (hfiles : rest.Perm (s.files.names fun file => file.root = .refreshTokens)) (hlisted : familyId ∈ s₁.listed)
  | unlisted (h : old = .list (.revokeFamily familyId)) (ha : a = .reject t)
  | left {file : Path} (h : old = .sweepCatch (.revokeFamily familyId) file rest) (ha : a = .reject t)

theorem Move.remains {s s₁ : State} {t : ThreadId} {a : Act} {old new : Pc} (h : Move s t a old s₁ new)
    {familyId : Family} {rest : List Path} (hnew : new.remaining? = some (familyId, rest)) :
    Remains s t a old s₁ familyId rest := by
  have hnext : ∀ {sweep : Sweep} {rest' : List Path}, (sweep.next rest').remaining? = some (familyId, rest) →
      sweep = .revokeFamily familyId ∧ rest' = rest := by
    intro sweep rest' hremaining
    rw [remaining_next] at hremaining
    obtain ⟨familyId', hfamily, heq⟩ := Option.map_eq_some_iff.1 hremaining
    obtain ⟨rfl, rfl⟩ := Prod.mk.inj heq
    exact ⟨eq_revokeFamily hfamily, rfl⟩
  cases h with
  | reject hreject =>
    cases hreject with
    | revokeFamily =>
      obtain ⟨rfl, rfl⟩ := Prod.mk.inj (Option.some.inj hnew)
      exact .unlisted rfl rfl
    | sweepRead | sweepUnlink => exact .same hnew
    | sweepCatch =>
      obtain ⟨rfl, rfl⟩ := hnext hnew
      exact .left rfl rfl
    | @sign origin | @createOpen origin | @createWrite origin => cases origin <;> cases hnew
    | _ => cases hnew
  | read hread =>
    cases hread with
    | doomed | unread | gone => exact .same hnew
    | @spared _ file _ _ hfile hspared =>
      obtain ⟨rfl, rfl⟩ := hnext hnew
      exact @Remains.spared _ _ _ _ _ _ _ file _ rfl hfile (by simpa [Sweep.dooms] using hspared)
    | refused hrefused => rcases hrefused with rfl | rfl <;> cases hnew
    | _ => cases hnew
  | truncate htruncate => cases htruncate <;> cases hnew
  | @create origin => cases origin <;> cases hnew
  | @add _ _ token => cases token <;> cases hnew
  | @unlink _ _ file hunlink =>
    cases hunlink with
    | sweep | sweepCatch =>
      obtain ⟨rfl, rfl⟩ := hnext hnew
      exact @Remains.deleted _ _ _ _ _ _ _ file rfl (by simp [State.setFiles, Files.get?_unlink])
    | _ => cases hnew
  | list hfiles =>
    obtain ⟨rfl, rfl⟩ := hnext hnew
    exact .listed rfl hfiles (by simp [Sweep.family?])
  | sign | commit | claim | rollback => cases hnew

/-! ### No new file of the family -/

/-- A file in the place of a token of a family whose directory has been read was there before. -/
theorem Sealed.active_step {s s₁ : State} (h : Sealed s) {a : Act} (hok : RevocationsSeal s a) {t : ThreadId} {new : Pc}
    (hmove : Move s t a (s.threads t) s₁ new) {token : RefreshToken} {f : File Content}
    (hf : s₁.files.get? (.active token) = some f) {familyId : Family} (hfamily : s.familyOf token = some familyId)
    (hlisted : familyId ∈ s.listed) : ∃ f₀, s.files.get? (.active token) = some f₀ := by
  have hknown := h.ok.files.known t
  cases hmove.fileMove hf with
  | kept hfile | written hfile => exact ⟨_, hfile⟩
  | opened hact htruncate =>
    subst hact
    generalize hpc : s.threads t = old at htruncate hknown
    cases htruncate with
    | create =>
      simp only [RevocationsSeal, hpc] at hok
      simp only [State.familyOf, hknown.creating _ _ _ rfl, Option.map_some, Option.some.injEq] at hfamily
      exact absurd (hfamily ▸ hlisted) hok
  | claimed _ _ hname => cases hname
  | @restored session pair hact hpc _ hname hfile =>
    subst hact
    cases hname
    rw [hpc] at hknown
    obtain ⟨n, d, htoken, hd, hrecord⟩ := hknown.session session rfl
    simp only [RevocationsSeal, hpc] at hok
    simp only [htoken, State.familyOf, hd, Option.map_some, Option.some.injEq] at hfamily
    rw [← hrecord] at hfamily
    cases (hok (hfamily ▸ hlisted)).symm.trans hfile

/-! ### Every step -/

theorem Move.listed {s s₁ : State} {t : ThreadId} {a : Act} {old new : Pc} (h : Move s t a old s₁ new) :
    s.listed ⊆ s₁.listed := by
  cases h with
  | list => exact List.subset_append_left _ _
  | _ => exact List.Subset.refl _

/-- The files of a family that are in their places stay among those of which they are. -/
theorem Sealed.files_move {s s₁ : State} (h : Sealed s) {a : Act} (hok : RevocationsSeal s a) {t : ThreadId} {new : Pc}
    (hmove : Move s t a (s.threads t) s₁ new) {i : ThreadId} {familyId : Family} {rest : List Path}
    (hi : (s.threads i).remaining? = some (familyId, rest)) (token : RefreshToken) (f : File Content)
    (hf : s₁.files.get? (.active token) = some f) (hfamily : s₁.familyOf token = some familyId) :
    .active token ∈ rest := by
  rw [familyOf_mono hmove.drawn.1 (h.ok.files.token_move hmove hf rfl)] at hfamily
  obtain ⟨f₀, hf₀⟩ := h.active_step hok hmove hf hfamily (h.listed i familyId rest hi)
  exact h.files i familyId rest hi token f₀ hf₀ hfamily

theorem Sealed.move {s s₁ : State} (h : Sealed s) {a : Act} (hok : RevocationsSeal s a) {t : ThreadId} {new : Pc}
    (hmove : Move s t a (s.threads t) s₁ new) {familyId : Family} {rest : List Path}
    (hnew : new.remaining? = some (familyId, rest)) : familyId ∈ s₁.listed ∧ ∀ token f,
      s₁.files.get? (.active token) = some f → s₁.familyOf token = some familyId → .active token ∈ rest := by
  -- the first file of the list is done with
  have hdone : ∀ {file : Path}, (s.threads t).remaining? = some (familyId, file :: rest) →
      (∀ token f, s₁.files.get? (.active token) = some f → s₁.familyOf token = some familyId → .active token ≠ file) →
      familyId ∈ s₁.listed ∧ ∀ token f,
        s₁.files.get? (.active token) = some f → s₁.familyOf token = some familyId → .active token ∈ rest := by
    intro file hold hne
    refine ⟨hmove.listed (h.listed t familyId _ hold), fun token f hf hfamily => ?_⟩
    rcases List.mem_cons.1 (h.files_move hok hmove hold token f hf hfamily) with heq | hmem
    · exact absurd heq (hne token f hf hfamily)
    · exact hmem
  cases hmove.remains hnew with
  | same hold => exact ⟨hmove.listed (h.listed t familyId rest hold), h.files_move hok hmove hold⟩
  | @deleted file hold hfile =>
    refine hdone hold fun token f hf _ heq => ?_
    rw [heq] at hf
    cases hfile.symm.trans hf
  | @spared file content hold hfile hcontent =>
    refine hdone hold fun token f hf hfamily heq => ?_
    subst heq
    obtain ⟨f₀, hf₀, hcontent'⟩ := Option.bind_eq_some_iff.1 hfile
    obtain ⟨n, d, rfl, hd, rfl⟩ := h.ok.files.proper _ f₀ content hf₀ hcontent'
    rw [familyOf_mono hmove.drawn.1 ⟨n, rfl, (List.getElem?_eq_some_iff.1 hd).1⟩] at hfamily
    refine hcontent ?_
    simpa [State.familyOf, hd, Content.familyId] using hfamily
  | listed hold hfiles hlisted =>
    refine ⟨hlisted, fun token f hf hfamily => ?_⟩
    have hsame : s₁.files = s.files := by
      rw [hold] at hmove
      cases hmove with
      | list => rfl
      | reject => rfl
      | read hread => cases hread
      | truncate htruncate => cases htruncate
      | unlink hunlink => cases hunlink
    rw [hsame] at hf
    exact hfiles.mem_iff.2 (Files.mem_names.2 ⟨⟨f, hf⟩, by simp [Path.root]⟩)
  | unlisted hold ha =>
    subst ha
    simp [RevocationsSeal, hold] at hok
  | @left file hold ha =>
    subst ha
    simp only [RevocationsSeal, hold] at hok
    refine @hdone file (by rw [hold]; rfl) fun token f hf _ heq => ?_
    have hsame : s₁.files = s.files := by
      cases hmove
      rfl
    rw [heq, hsame] at hf
    cases hok.symm.trans hf

theorem Sealed.step {s s' : State} {a : Act} (h : Sealed s) (hok : RevocationsSeal s a)
    (hstep : Token.step s a = some s') : Sealed s' := by
  have hmoves := step_move hstep
  have hall : ∀ i familyId rest, (s'.threads i).remaining? = some (familyId, rest) → familyId ∈ s'.listed ∧
      ∀ token f, s'.files.get? (.active token) = some f → s'.familyOf token = some familyId → .active token ∈ rest := by
    intro i
    refine hmoves.forall_threads (P := fun _ pc => ∀ familyId rest, pc.remaining? = some (familyId, rest) →
      familyId ∈ s'.listed ∧ ∀ token f, s'.files.get? (.active token) = some f → s'.familyOf token = some familyId →
        .active token ∈ rest) (fun i familyId rest hi => ?_) (fun pc hs _ familyId rest hpc => ?_)
      (fun t new s₁ hmove heq familyId rest hnew => ?_) i
    · cases hmoves with
      | tick | start => exact ⟨h.listed i familyId rest hi, h.files i familyId rest hi⟩
      | call hmove => exact ⟨hmove.listed (h.listed i familyId rest hi), h.files_move hok hmove hi⟩
    · cases hs with
      | @revoke token => cases token <;> cases hpc
      | _ => cases hpc
    · subst heq
      exact h.move hok hmove hnew
  exact ⟨h.ok.step hstep, fun i familyId rest hi => (hall i familyId rest hi).1,
    fun i familyId rest hi => (hall i familyId rest hi).2⟩

theorem Sealed.fresh : Sealed State.fresh := ⟨.fresh_state, nofun, nofun⟩

/-! ### After the revocation -/

/-- A revocation of the family has thrown, and no call made since `first` has claimed one of its tokens. -/
structure Dead (familyId : Family) (first : ThreadId) (s : State) : Prop where
  sealed : Sealed s
  thrown : ∃ t, s.threads t = .reused familyId
  first_le : first ≤ s.nextThread
  claims : ∀ i token, first ≤ i → (s.threads i).claims? = some token → s.familyOf token ≠ some familyId

theorem Dead.step {familyId : Family} {first : ThreadId} {s s' : State} {a : Act} (h : Dead familyId first s)
    (hok : RevocationsSeal s a) (hstep : Token.step s a = some s') : Dead familyId first s' := by
  have hmoves := step_move hstep
  obtain ⟨t, ht⟩ := h.thrown
  refine ⟨h.sealed.step hok hstep, ⟨t, ?_⟩, Nat.le_trans h.first_le (nextThread_step hmoves), fun i token hi hclaims => ?_⟩
  · -- a call that is over stays as it is
    refine hmoves.forall_threads (P := fun i pc => s.threads i = .reused familyId → pc = .reused familyId)
      (fun i h => h) (fun pc hs _ hnew => ?_) (fun i new s₁ hmove _ hi => ?_) t ht
    · cases (h.sealed.ok.fresh s.nextThread (Nat.le_refl _)).symm.trans hnew
    · rw [hi] at hmove
      cases hmove with
      | reject hreject => cases hreject
      | read hread => cases hread
      | truncate htruncate => cases htruncate
      | unlink hunlink => cases hunlink
  · rcases claims_step hmoves i token hclaims with hold | ⟨-, -, ⟨f, hf⟩, -⟩
    · have hdrawn : ∀ n, token = .drawn n → n < s.drawn.length := by
        rintro n rfl
        exact h.sealed.ok.secret.presented i n (presents_of_claims hold)
      cases token with
      | other => exact nofun
      | drawn n =>
        rw [familyOf_mono (drawn_step hmoves).1 ⟨n, rfl, hdrawn n rfl⟩]
        exact h.claims i _ hi hold
    · obtain ⟨n, rfl, hlt⟩ := h.sealed.ok.files.token _ f token hf rfl
      rw [familyOf_mono (drawn_step hmoves).1 ⟨n, rfl, hlt⟩]
      intro hfamily
      have hmem := h.sealed.files t familyId [] (by rw [ht]; rfl) _ f hf hfamily
      cases hmem

/-- Once a refresh has found its token consumed before and has thrown, no token of the family is accepted by a later
refresh. -/
theorem reuse_kills_family {as bs : List Act} {s₁ s : State} (hrun : Run step RevocationsSeal State.fresh as s₁)
    {t : ThreadId} {familyId : Family} (hpc : s₁.threads t = .reused familyId)
    (hafter : Run step RevocationsSeal s₁ bs s) {i : ThreadId} (hi : s₁.nextThread ≤ i) {session : Session}
    (haccepted : (s.threads i).session? = some session) : session.record.familyId ≠ familyId := by
  have hsealed : Sealed s₁ := hrun.invariant (fun _ _ _ h hok hstep => h.step hok hstep) .fresh
  have hdead : Dead familyId s₁.nextThread s := by
    refine hafter.invariant (fun _ _ _ h hok hstep => h.step hok hstep)
      ⟨hsealed, ⟨t, hpc⟩, Nat.le_refl _, fun j token hj hclaims => ?_⟩
    rw [hsealed.ok.fresh j hj] at hclaims
    cases hclaims
  obtain ⟨n, d, htoken, hd, hrecord⟩ := (hdead.sealed.ok.files.known i).session session haccepted
  have hfamily := hdead.claims i session.token hi (claims_of_session haccepted)
  rw [htoken] at hfamily
  intro heq
  refine hfamily ?_
  simp only [State.familyOf, hd, Option.map_some, ← hrecord, heq]

/-- A login whose token is rotated, by calls 0 and 1. -/
def rotated : List Act := [.login "user1"] ++ resumes 0 3 ++ [.refresh (.drawn 0)] ++ resumes 1 8

/-- The reuse of the first token deletes the second; a token of another login is accepted. -/
theorem reuse_kills_family_other : ∃ s₁ s session, Run step RevocationsSeal State.fresh
      (rotated ++ [.refresh (.drawn 0)] ++ resumes 2 2 ++ [.readdir 2 [.active (.drawn 1)]] ++ resumes 2 2) s₁ ∧
    s₁.threads 2 = .reused 0 ∧
    Run step RevocationsSeal s₁ ([.login "user2"] ++ resumes 3 3 ++ [.refresh (.drawn 2)] ++ resumes 4 2) s ∧
    (s.threads 4).session? = some session ∧ session.record.familyId ≠ 0 := by
  have hrun : ∃ s₁, Run step RevocationsSeal State.fresh
        (rotated ++ [.refresh (.drawn 0)] ++ resumes 2 2 ++ [.readdir 2 [.active (.drawn 1)]] ++ resumes 2 2) s₁ ∧
      s₁.threads 2 = .reused 0 ∧ s₁.nextThread ≤ 4 ∧
      ((runChecked step RevocationsSeal s₁
        ([.login "user2"] ++ resumes 3 3 ++ [.refresh (.drawn 2)] ++ resumes 4 2)).any fun s =>
          (s.threads 4).session?.isSome) = true := exists_run (by decide)
  obtain ⟨s₁, hrun, hpc, hnext, hafter⟩ := hrun
  obtain ⟨s, hafter, hsession⟩ := exists_run (P := fun s : State => (s.threads 4).session?.isSome = true)
    (by simpa using hafter)
  obtain ⟨session, hsession⟩ := Option.isSome_iff_exists.1 hsession
  exact ⟨s₁, s, session, hrun, hpc, hafter, hsession, reuse_kills_family hrun hpc hafter hnext hsession⟩

/-- The second token is being rotated when the reuse of the first one is detected: the directory is read before the
third token is written, which is then accepted. -/
theorem reuse_kills_family_fails : ∃ s₁ s session, Run step Always State.fresh
      (rotated ++ [.refresh (.drawn 1)] ++ resumes 2 3 ++ [.refresh (.drawn 0)] ++ resumes 3 2 ++
        [.readdir 3 [.consuming (.drawn 1) 2]] ++ resumes 3 2) s₁ ∧
    s₁.threads 3 = .reused 0 ∧
    Run step Always s₁ (resumes 2 5 ++ [.refresh (.drawn 2)] ++ resumes 4 2) s ∧ s₁.nextThread ≤ 4 ∧
    (s.threads 4).session? = some session ∧ session.record.familyId = 0 := by
  have hrun : ∃ s₁, Run step Always State.fresh
        (rotated ++ [.refresh (.drawn 1)] ++ resumes 2 3 ++ [.refresh (.drawn 0)] ++ resumes 3 2 ++
          [.readdir 3 [.consuming (.drawn 1) 2]] ++ resumes 3 2) s₁ ∧
      s₁.threads 3 = .reused 0 ∧ s₁.nextThread ≤ 4 ∧
      ((runChecked step Always s₁ (resumes 2 5 ++ [.refresh (.drawn 2)] ++ resumes 4 2)).any fun s =>
        (s.threads 4).session?.any fun session => session.record.familyId = 0) = true := exists_run (by decide)
  obtain ⟨s₁, hrun, hpc, hnext, hafter⟩ := hrun
  obtain ⟨s, hafter, hsession⟩ := exists_run
    (P := fun s : State => ((s.threads 4).session?.any fun session => decide (session.record.familyId = 0)) = true)
    (by simpa using hafter)
  obtain ⟨session, hsession, hfamily⟩ := (Option.any_eq_true _ _).1 hsession
  exact ⟨s₁, s, session, hrun, hpc, hafter, hnext, hsession, of_decide_eq_true hfamily⟩

end CubridWebManager.Token
