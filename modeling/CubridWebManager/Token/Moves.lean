import CubridWebManager.Token.Step
import CubridWebManager.Lib.Run

/-!
# What a step of the token stores can do

`Move` has a constructor for every kind of transition of a call: the file operation it makes, with what the call found.
`step_move` says that every step is one of them, a new call, or the passing of time.
-/

namespace CubridWebManager.Token

/-- A file is opened for writing. -/
inductive Truncates (s : State) : Pc → Path → Pc → Prop
  | create {origin : Origin} {pair : TokenPair} {record : RefreshTokenRecord} :
    Truncates s (.createOpen origin pair record) (.active (.drawn pair.token))
      (.createWrite origin pair record (s.files.inodeOf (.active (.drawn pair.token))))
  | commit {session : Session} {pair : TokenPair} : Truncates s (.commitOpen session pair) (.consumed session.token)
      (.commitWrite session pair s.now (s.files.inodeOf (.consumed session.token)))
  | add {jti : Jti} {expiresAt : Nat} {token : Option RefreshToken} : Truncates s (.addOpen jti expiresAt token)
      (.entry jti) (.addWrite jti expiresAt token (s.files.inodeOf (.entry jti)))

/-- A file is deleted. -/
inductive Unlinks (s : State) (t : ThreadId) : Pc → Path → Pc → Prop
  | dropLock {token : RefreshToken} : Unlinks s t (.dropLock token) (.consuming token t) .invalid
  | commit {session : Session} {pair : TokenPair} : Unlinks s t (.commitUnlink session pair)
      (.consuming session.token t) (.refreshed session.token pair)
  | sweep {sweep : Sweep} {file : Path} {rest : List Path} {f : File Content} (hfile : s.files.get? file = some f) :
    Unlinks s t (.sweepUnlink sweep file rest) file (sweep.next rest)
  | sweepCatch {sweep : Sweep} {file : Path} {rest : List Path} :
    Unlinks s t (.sweepCatch sweep file rest) file (sweep.next rest)
  | revoke {token : RefreshToken} : Unlinks s t (.revoke token) (.active token) .loggedOut
  | check {jti : Jti} : Unlinks s t (.checkUnlink jti) (.entry jti) (.checked false)

/-- A file is read, or is not there. -/
inductive Reads (s : State) (t : ThreadId) : Pc → Pc → Prop
  | unclaimed {token : RefreshToken} (hfile : s.files.get? (.active token) = none) :
    Reads s t (.claim token) (.readConsumed token)
  | reused {token : RefreshToken} {f : File Content} {record : RefreshTokenRecord} {consumedAt : Nat}
    (hfile : s.files.get? (.consumed token) = some f) (hcontent : f.content = some (.consumed record consumedAt)) :
    Reads s t (.readConsumed token) (.list (.revokeFamily record.familyId))
  | refused {token : RefreshToken} {new : Pc} (hnew : new = .invalid ∨ new = .failed) : Reads s t (.readConsumed token) new
  | accepted {token : RefreshToken} {record : RefreshTokenRecord}
    (hfile : (s.files.get? (.consuming token t)).bind File.content = some (.token record))
    (hlive : s.now < record.expiresAt) : Reads s t (.readLock token) (.sign (.rotation ⟨token, record⟩))
  | expired {token : RefreshToken} (hexp : ∀ record,
      (s.files.get? (.consuming token t)).bind File.content = some (.token record) → record.expiresAt ≤ s.now) :
    Reads s t (.readLock token) (.dropLock token)
  | doomed {sweep : Sweep} {file : Path} {rest : List Path} {content : Content}
    (hfile : (s.files.get? file).bind File.content = some content) (hdoomed : sweep.dooms content = true) :
    Reads s t (.sweepRead sweep file rest) (.sweepUnlink sweep file rest)
  | spared {sweep : Sweep} {file : Path} {rest : List Path} {content : Content}
    (hfile : (s.files.get? file).bind File.content = some content) (hspared : sweep.dooms content = false) :
    Reads s t (.sweepRead sweep file rest) (sweep.next rest)
  | unread {sweep : Sweep} {file : Path} {rest : List Path}
    (hfile : (s.files.get? file).bind File.content = none) :
    Reads s t (.sweepRead sweep file rest) (.sweepCatch sweep file rest)
  | gone {sweep : Sweep} {file : Path} {rest : List Path} (hfile : s.files.get? file = none) :
    Reads s t (.sweepUnlink sweep file rest) (.sweepCatch sweep file rest)
  | checkedNo {jti : Jti} (hfile : s.files.get? (.entry jti) = none) : Reads s t (.checkRead jti) (.checked false)
  | checkedYes {jti : Jti} : Reads s t (.checkRead jti) (.checked true)
  | checkExpired {jti : Jti} {f : File Content} {content : Content} (hfile : s.files.get? (.entry jti) = some f)
    (hcontent : f.content = some content) (hexp : content.expiresAt ≤ s.now) :
    Reads s t (.checkRead jti) (.checkUnlink jti)
  | checkFails {jti : Jti} : Reads s t (.checkRead jti) .failed

/-- An operation fails. -/
inductive Rejects : Pc → Pc → Prop
  | sign {origin : Origin} : Rejects (.sign origin) (origin.failed none)
  | createOpen {origin : Origin} {pair : TokenPair} {record : RefreshTokenRecord} :
    Rejects (.createOpen origin pair record) (origin.failed (some pair))
  | createWrite {origin : Origin} {pair : TokenPair} {record : RefreshTokenRecord} {inode : Nat} :
    Rejects (.createWrite origin pair record inode) (origin.failed (some pair))
  | claim {token : RefreshToken} : Rejects (.claim token) .failed
  | readConsumed {token : RefreshToken} : Rejects (.readConsumed token) .failed
  | readLock {token : RefreshToken} : Rejects (.readLock token) (.dropLock token)
  | dropLock {token : RefreshToken} : Rejects (.dropLock token) .invalid
  | commitOpen {session : Session} {pair : TokenPair} :
    Rejects (.commitOpen session pair) (.rollback session (some pair))
  | commitWrite {session : Session} {pair : TokenPair} {consumedAt inode : Nat} :
    Rejects (.commitWrite session pair consumedAt inode) (.rollback session (some pair))
  | commitUnlink {session : Session} {pair : TokenPair} :
    Rejects (.commitUnlink session pair) (.refreshed session.token pair)
  | rollback {session : Session} {pair : Option TokenPair} : Rejects (.rollback session pair) .failed
  | revokeFamily {familyId : Family} : Rejects (.list (.revokeFamily familyId)) (.reused familyId)
  | purge {sweep : Sweep} (hsweep : sweep.family? = none) : Rejects (.list sweep) .failed
  | sweepRead {sweep : Sweep} {file : Path} {rest : List Path} :
    Rejects (.sweepRead sweep file rest) (.sweepCatch sweep file rest)
  | sweepUnlink {sweep : Sweep} {file : Path} {rest : List Path} :
    Rejects (.sweepUnlink sweep file rest) (.sweepCatch sweep file rest)
  | sweepCatch {sweep : Sweep} {file : Path} {rest : List Path} :
    Rejects (.sweepCatch sweep file rest) (sweep.next rest)
  | addOpen {jti : Jti} {expiresAt : Nat} {token : Option RefreshToken} : Rejects (.addOpen jti expiresAt token) .failed
  | addWrite {jti : Jti} {expiresAt : Nat} {token : Option RefreshToken} {inode : Nat} :
    Rejects (.addWrite jti expiresAt token inode) .failed
  | revoke {token : RefreshToken} : Rejects (.revoke token) .loggedOut
  | checkRead {jti : Jti} : Rejects (.checkRead jti) .failed
  | checkUnlink {jti : Jti} : Rejects (.checkUnlink jti) (.checked false)

theorem rejects_of_rejected {old new : Pc} (h : old.rejected = some new) : Rejects old new := by
  unfold Pc.rejected at h
  split at h <;> first | (obtain rfl := Option.some.inj h; constructor <;> rfl) | cases h

/-- The call goes from `old` to `new`, and the rest of the state becomes that of the last argument but one. -/
inductive Move (s : State) (t : ThreadId) : Act → Pc → State → Pc → Prop
  | reject {old new : Pc} (hreject : Rejects old new) : Move s t (.reject t) old s new
  | read {old new : Pc} (hread : Reads s t old new) : Move s t (.resume t) old s new
  | sign {origin : Origin} : Move s t (.resume t) (.sign origin) (s.draw origin)
      (.createOpen origin ⟨s.signed.length, s.drawn.length⟩ (s.newRecord origin))
  | truncate {old new : Pc} {file : Path} (htruncate : Truncates s old file new) :
    Move s t (.resume t) old (s.setFiles (s.files.truncate file)) new
  | create {origin : Origin} {pair : TokenPair} {record : RefreshTokenRecord} {inode : Nat} :
    Move s t (.resume t) (.createWrite origin pair record inode)
      { s.setFiles (s.files.write inode (.token record)) with created := s.created ++ [pair.token] } (origin.issued pair)
  | commit {session : Session} {pair : TokenPair} {consumedAt inode : Nat} :
    Move s t (.resume t) (.commitWrite session pair consumedAt inode)
      (s.setFiles (s.files.write inode (.consumed session.record consumedAt))) (.commitUnlink session pair)
  | add {jti : Jti} {expiresAt : Nat} {token : Option RefreshToken} {inode : Nat} :
    Move s t (.resume t) (.addWrite jti expiresAt token inode)
      { s.setFiles (s.files.write inode (.entry jti expiresAt)) with added := s.added ++ [jti] } (revokeAfter token)
  | claim {token : RefreshToken} {f : File Content} (hfile : s.files.get? (.active token) = some f) :
    Move s t (.resume t) (.claim token) (s.setFiles (s.files.rename (.active token) (.consuming token t)))
      (.readLock token)
  | rollback {session : Session} {pair : Option TokenPair} : Move s t (.resume t) (.rollback session pair)
      (s.setFiles (s.files.rename (.consuming session.token t) (.active session.token))) .failed
  | unlink {old new : Pc} {file : Path} (hunlink : Unlinks s t old file new) :
    Move s t (.resume t) old (s.setFiles (s.files.unlink file)) new
  | list {sweep : Sweep} {files : List Path} (hfiles : files.Perm (s.files.names fun file => file.root = sweep.root)) :
    Move s t (.readdir t files) (.list sweep) { s with listed := s.listed ++ sweep.family?.toList } (sweep.next files)

/-- A new call. -/
inductive Start (s : State) : Act → Pc → Prop
  | login {userId : String} : Start s (.login userId) (.sign (.login userId))
  | refresh {token : RefreshToken} (htoken : s.presentable token = true) : Start s (.refresh token) (.claim token)
  | logout {jti : Jti} {exp : Nat} {token : Option RefreshToken} (htoken : token.all s.presentable = true)
    (hexp : s.signed[jti]? = some exp) : Start s (.logout (some jti) token) (.addOpen jti (exp * 1000) token)
  | revoke {token : Option RefreshToken} (htoken : token.all s.presentable = true) :
    Start s (.logout none token) (revokeAfter token)
  | check {jti : Jti} : Start s (.isBlacklisted jti) (.checkRead jti)
  | purgeTokens : Start s .purgeTokens (.list (.purgeTokens s.now))
  | purgeBlacklist : Start s .purgeBlacklist (.list (.purgeBlacklist s.now))

inductive StepMove (s : State) : Act → State → Prop
  | tick (ms : Nat) : StepMove s (.tick ms) { s with now := s.now + ms }
  | start {a : Act} {pc : Pc} (hstart : Start s a pc) : StepMove s a (s.spawn pc)
  | call {a : Act} {t : ThreadId} {s₁ : State} {new : Pc} (hmove : Move s t a (s.threads t) s₁ new) :
    StepMove s a (s₁.setPc t new)

theorem StepMove.of_pc {s s₁ s' : State} {a : Act} {t : ThreadId} {old new : Pc} (hpc : s.threads t = old)
    (hmove : Move s t a old s₁ new) (hs' : s' = s₁.setPc t new) : StepMove s a s' := by
  subst hpc hs'
  exact .call hmove

theorem resume_move {s s' : State} {t : ThreadId} (h : resume s t = some s') : StepMove s (.resume t) s' := by
  unfold resume at h
  split at h
  case h_1 origin hpc => exact .of_pc hpc .sign (Option.some.inj h).symm
  case h_2 origin pair record hpc => exact .of_pc hpc (.truncate .create) (Option.some.inj h).symm
  case h_3 origin pair record inode hpc => exact .of_pc hpc .create (Option.some.inj h).symm
  case h_4 token hpc =>
    split at h
    · rename_i hfile
      exact .of_pc hpc (.read (.unclaimed hfile)) (Option.some.inj h).symm
    · rename_i hfile
      exact .of_pc hpc (.claim hfile) (Option.some.inj h).symm
  case h_5 token hpc =>
    split at h
    · exact .of_pc hpc (.read (.refused (.inl rfl))) (Option.some.inj h).symm
    · rename_i f hfile
      split at h
      · rename_i record consumedAt hcontent
        split at h
        · exact .of_pc hpc (.read (.reused hfile hcontent)) (Option.some.inj h).symm
        · exact .of_pc hpc (.read (.refused (.inl rfl))) (Option.some.inj h).symm
      · exact .of_pc hpc (.read (.refused (.inr rfl))) (Option.some.inj h).symm
  case h_6 token hpc =>
    split at h
    · rename_i record hfile
      split at h
      · rename_i hexp
        refine .of_pc hpc (.read (.expired fun record' hfile' => ?_)) (Option.some.inj h).symm
        cases hfile.symm.trans hfile'
        exact hexp
      · rename_i hlive
        exact .of_pc hpc (.read (.accepted hfile (Nat.lt_of_not_le hlive))) (Option.some.inj h).symm
    · rename_i hnone
      exact .of_pc hpc (.read (.expired fun record hfile => absurd hfile (hnone record))) (Option.some.inj h).symm
  case h_7 token hpc => exact .of_pc hpc (.unlink .dropLock) (Option.some.inj h).symm
  case h_8 session pair hpc => exact .of_pc hpc (.truncate .commit) (Option.some.inj h).symm
  case h_9 session pair consumedAt inode hpc => exact .of_pc hpc .commit (Option.some.inj h).symm
  case h_10 session pair hpc => exact .of_pc hpc (.unlink .commit) (Option.some.inj h).symm
  case h_11 session pair hpc => exact .of_pc hpc .rollback (Option.some.inj h).symm
  case h_12 sweep file rest hpc =>
    split at h
    · rename_i content hfile
      split at h
      · rename_i hdoomed
        exact .of_pc hpc (.read (.doomed hfile hdoomed)) (Option.some.inj h).symm
      · rename_i hspared
        exact .of_pc hpc (.read (.spared hfile (by simpa using hspared))) (Option.some.inj h).symm
    · rename_i hfile
      exact .of_pc hpc (.read (.unread hfile)) (Option.some.inj h).symm
  case h_13 sweep file rest hpc =>
    split at h
    · rename_i hfile
      exact .of_pc hpc (.unlink (.sweep hfile)) (Option.some.inj h).symm
    · rename_i hfile
      exact .of_pc hpc (.read (.gone hfile)) (Option.some.inj h).symm
  case h_14 sweep file rest hpc => exact .of_pc hpc (.unlink .sweepCatch) (Option.some.inj h).symm
  case h_15 jti expiresAt token hpc => exact .of_pc hpc (.truncate .add) (Option.some.inj h).symm
  case h_16 jti expiresAt token inode hpc => exact .of_pc hpc .add (Option.some.inj h).symm
  case h_17 token hpc => exact .of_pc hpc (.unlink .revoke) (Option.some.inj h).symm
  case h_18 jti hpc =>
    split at h
    · rename_i hfile
      exact .of_pc hpc (.read (.checkedNo hfile)) (Option.some.inj h).symm
    · rename_i f hfile
      split at h
      · rename_i content hcontent
        split at h
        · rename_i hexp
          exact .of_pc hpc (.read (.checkExpired hfile hcontent hexp)) (Option.some.inj h).symm
        · exact .of_pc hpc (.read .checkedYes) (Option.some.inj h).symm
      · exact .of_pc hpc (.read .checkFails) (Option.some.inj h).symm
  case h_19 jti hpc => exact .of_pc hpc (.unlink .check) (Option.some.inj h).symm
  case h_20 => cases h

theorem readdir_move {s s' : State} {t : ThreadId} {files : List Path} (h : readdir s t files = some s') :
    StepMove s (.readdir t files) s' := by
  unfold readdir at h
  split at h
  · rename_i sweep hpc
    split at h
    · rename_i hfiles
      exact .of_pc hpc (.list hfiles) (Option.some.inj h).symm
    · cases h
  · cases h

theorem step_move {s s' : State} {a : Act} (h : step s a = some s') : StepMove s a s' := by
  cases a with
  | tick ms =>
    obtain rfl := Option.some.inj h
    exact .tick ms
  | login userId =>
    obtain rfl := Option.some.inj h
    exact .start .login
  | refresh token =>
    simp only [step] at h
    split at h
    · rename_i htoken
      obtain rfl := Option.some.inj h
      exact .start (.refresh htoken)
    · cases h
  | logout jti token =>
    simp only [step] at h
    split at h
    · rename_i htoken
      obtain ⟨pc, hpc, rfl⟩ := Option.map_eq_some_iff.1 h
      cases jti with
      | none =>
        obtain rfl := Option.some.inj hpc
        exact .start (.revoke htoken)
      | some jti =>
        obtain ⟨exp, hexp, rfl⟩ := Option.map_eq_some_iff.1 hpc
        exact .start (.logout htoken hexp)
    · cases h
  | isBlacklisted jti =>
    obtain rfl := Option.some.inj h
    exact .start .check
  | purgeTokens =>
    obtain rfl := Option.some.inj h
    exact .start .purgeTokens
  | purgeBlacklist =>
    obtain rfl := Option.some.inj h
    exact .start .purgeBlacklist
  | resume t => exact resume_move h
  | readdir t files => exact readdir_move h
  | reject t =>
    obtain ⟨new, hnew, rfl⟩ := Option.map_eq_some_iff.1 h
    exact .call (.reject (rejects_of_rejected hnew))

end CubridWebManager.Token
