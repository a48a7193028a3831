import CubridWebManager.Token.State

/-!
# The steps of the token stores

`step s a` is the state after `a`, or `none` where nothing waits for it.  A call goes on from one `await` to the next;
`readFile` of a file that is being written gives a text that `JSON.parse` rejects.
-/

namespace CubridWebManager.Token

/-- `ACCESS_TOKEN_EXPIRES_SEC`. -/
def accessTokenExpiresSec : Nat := 24 * 60 * 60

/-- `REFRESH_TOKEN_EXPIRES_MS`. -/
def refreshTokenExpiresMs : Nat := 14 * 24 * 60 * 60 * 1000

/-! ### Issuing -/

namespace Origin

def userId : Origin → String
  | .login userId => userId
  | .rotation session => session.record.userId

/-- `familyId ?? randomUUID()`, of which `next` is the result. -/
def familyId (next : Family) : Origin → Family
  | .login _ => next
  | .rotation session => session.record.familyId

def parent : Origin → Option RefreshToken
  | .login _ => none
  | .rotation session => some session.token

/-- The call goes on with the pair. -/
def issued (pair : TokenPair) : Origin → Pc
  | .login _ => .loggedIn pair
  | .rotation session => .commitOpen session pair

/-- Issuing fails. -/
def failed (pair : Option TokenPair) : Origin → Pc
  | .login _ => .failed
  | .rotation session => .rollback session pair

end Origin

/-- The record of a token drawn now. -/
def State.newRecord (s : State) (origin : Origin) : RefreshTokenRecord where
  userId := origin.userId
  familyId := origin.familyId s.nextFamily
  expiresAt := s.now + refreshTokenExpiresMs
  createdAt := s.now

/-- The access token is signed, and a refresh token is drawn. -/
def State.draw (s : State) (origin : Origin) : State :=
  { s with
    signed := s.signed ++ [s.now / 1000 + accessTokenExpiresSec]
    drawn := s.drawn ++ [⟨s.newRecord origin, origin.parent⟩]
    nextFamily := s.nextFamily + 1 }

/-! ### Sweeps -/

/-- After the last file. -/
def Sweep.after : Sweep → Pc
  | .revokeFamily familyId => .reused familyId
  | .purgeTokens now => .list (.purgeConsumed now)
  | .purgeConsumed _ | .purgeBlacklist _ => .purged

/-- The next round of the loop. -/
def Sweep.next (sweep : Sweep) : List Path → Pc
  | [] => sweep.after
  | file :: rest => .sweepRead sweep file rest

/-! ### A call goes on -/

/-- `logout` after the blacklist. -/
def revokeAfter : Option RefreshToken → Pc
  | none => .loggedOut
  | some token => .revoke token

/-- The operation that call `t` awaits is done. -/
def resume (s : State) (t : ThreadId) : Option State :=
  match s.threads t with
  | .sign origin =>
    some ((s.draw origin).setPc t (.createOpen origin ⟨s.signed.length, s.drawn.length⟩ (s.newRecord origin)))
  | .createOpen origin pair record =>
    let file := Path.active (.drawn pair.token)
    some ((s.setFiles (s.files.truncate file)).setPc t (.createWrite origin pair record (s.files.inodeOf file)))
  | .createWrite origin pair record inode =>
    some ({ s.setFiles (s.files.write inode (.token record)) with created := s.created ++ [pair.token] }.setPc t
      (origin.issued pair))
  | .claim token =>
    match s.files.get? (.active token) with
    | none => some (s.setPc t (.readConsumed token))
    | some _ => some ((s.setFiles (s.files.rename (.active token) (.consuming token t))).setPc t (.readLock token))
  | .readConsumed token =>
    match s.files.get? (.consumed token) with
    | none => some (s.setPc t .invalid)
    | some file =>
      match file.content with
      | some (.consumed record _) =>
        if s.now < record.expiresAt then some (s.setPc t (.list (.revokeFamily record.familyId)))
        else some (s.setPc t .invalid)
      | _ => some (s.setPc t .failed)
  | .readLock token =>
    match (s.files.get? (.consuming token t)).bind File.content with
    | some (.token record) =>
      if record.expiresAt ≤ s.now then some (s.setPc t (.dropLock token))
      else some (s.setPc t (.sign (.rotation ⟨token, record⟩)))
    | _ => some (s.setPc t (.dropLock token))
  | .dropLock token => some ((s.setFiles (s.files.unlink (.consuming token t))).setPc t .invalid)
  | .commitOpen session pair =>
    let file := Path.consumed session.token
    some ((s.setFiles (s.files.truncate file)).setPc t (.commitWrite session pair s.now (s.files.inodeOf file)))
  | .commitWrite session pair consumedAt inode =>
    some ((s.setFiles (s.files.write inode (.consumed session.record consumedAt))).setPc t (.commitUnlink session pair))
  | .commitUnlink session pair =>
    some ((s.setFiles (s.files.unlink (.consuming session.token t))).setPc t (.refreshed session.token pair))
  | .rollback session _ =>
    some ((s.setFiles (s.files.rename (.consuming session.token t) (.active session.token))).setPc t .failed)
  | .sweepRead sweep file rest =>
    match (s.files.get? file).bind File.content with
    | some content =>
      if sweep.dooms content then some (s.setPc t (.sweepUnlink sweep file rest))
      else some (s.setPc t (sweep.next rest))
    | none => some (s.setPc t (.sweepCatch sweep file rest))
  | .sweepUnlink sweep file rest =>
    match s.files.get? file with
    | some _ => some ((s.setFiles (s.files.unlink file)).setPc t (sweep.next rest))
    | none => some (s.setPc t (.sweepCatch sweep file rest))
  | .sweepCatch sweep file rest => some ((s.setFiles (s.files.unlink file)).setPc t (sweep.next rest))
  | .addOpen jti expiresAt token =>
    let file := Path.entry jti
    some ((s.setFiles (s.files.truncate file)).setPc t (.addWrite jti expiresAt token (s.files.inodeOf file)))
  | .addWrite jti expiresAt token inode =>
    some ({ s.setFiles (s.files.write inode (.entry jti expiresAt)) with added := s.added ++ [jti] }.setPc t
      (revokeAfter token))
  | .revoke token => some ((s.setFiles (s.files.unlink (.active token))).setPc t .loggedOut)
  | .checkRead jti =>
    match s.files.get? (.entry jti) with
    | none => some (s.setPc t (.checked false))
    | some file =>
      match file.content with
      | some content =>
        if content.expiresAt ≤ s.now then some (s.setPc t (.checkUnlink jti)) else some (s.setPc t (.checked true))
      | none => some (s.setPc t .failed)
  | .checkUnlink jti => some ((s.setFiles (s.files.unlink (.entry jti))).setPc t (.checked false))
  | _ => none

/-- The directory that call `t` sweeps is read. -/
def readdir (s : State) (t : ThreadId) (files : List Path) : Option State :=
  match s.threads t with
  | .list sweep =>
    if files.Perm (s.files.names fun file => file.root = sweep.root) then
      some ({ s with listed := s.listed ++ sweep.family?.toList }.setPc t (sweep.next files))
    else none
  | _ => none

/-- Where a call goes on when the operation it awaits fails. -/
def Pc.rejected : Pc → Option Pc
  | .sign origin => some (origin.failed none)
  | .createOpen origin pair _ | .createWrite origin pair _ _ => some (origin.failed (some pair))
  | .claim _ | .readConsumed _ => some .failed
  | .readLock token => some (.dropLock token)
  | .dropLock _ => some .invalid
  | .commitOpen session pair | .commitWrite session pair _ _ => some (.rollback session (some pair))
  | .commitUnlink session pair => some (.refreshed session.token pair)
  | .rollback _ _ => some .failed
  | .list (.revokeFamily familyId) => some (.reused familyId)
  | .list (.purgeTokens _) | .list (.purgeConsumed _) | .list (.purgeBlacklist _) => some .failed
  | .sweepRead sweep file rest | .sweepUnlink sweep file rest => some (.sweepCatch sweep file rest)
  | .sweepCatch sweep _ rest => some (sweep.next rest)
  | .addOpen _ _ _ | .addWrite _ _ _ _ => some .failed
  | .revoke _ => some .loggedOut
  | .checkRead _ => some .failed
  | .checkUnlink _ => some (.checked false)
  | _ => none

/-! ### All steps -/

/-- The token that the call is creating. -/
def Pc.creates? : Pc → Option Nat
  | .createOpen _ pair _ | .createWrite _ pair _ _ => some pair.token
  | _ => none

/-- The token is still being created, so nobody has been told it. -/
def State.secret (s : State) (token : RefreshToken) : Bool :=
  (List.range s.nextThread).any fun t => ((s.threads t).creates?).any fun n => token = .drawn n

/-- A token is drawn at random: a call presents one that was drawn before, and whose `create` is over, or a text that is
never drawn. -/
def State.presentable (s : State) : RefreshToken → Bool
  | .drawn n => n < s.drawn.length && !s.secret (.drawn n)
  | .other _ => true

/-- The first await of a `logout` with the id and the expiry of an access token. -/
def State.logout (s : State) (jti : Option Jti) (token : Option RefreshToken) : Option Pc :=
  match jti with
  | none => some (revokeAfter token)
  | some jti => (s.signed[jti]?).map fun exp => .addOpen jti (exp * 1000) token

def step (s : State) : Act → Option State
  | .tick ms => some { s with now := s.now + ms }
  | .login userId => some (s.spawn (.sign (.login userId)))
  | .refresh token => if s.presentable token then some (s.spawn (.claim token)) else none
  | .logout jti token => if token.all s.presentable then (s.logout jti token).map s.spawn else none
  | .isBlacklisted jti => some (s.spawn (.checkRead jti))
  | .purgeTokens => some (s.spawn (.list (.purgeTokens s.now)))
  | .purgeBlacklist => some (s.spawn (.list (.purgeBlacklist s.now)))
  | .resume t => resume s t
  | .readdir t files => readdir s t files
  | .reject t => (s.threads t).rejected.map (s.setPc t)

/-- The empty token stores of a server that has just been installed. -/
def State.fresh : State where
  now := 0
  files := .empty
  drawn := []
  nextFamily := 0
  signed := []
  nextThread := 0
  threads _ := .absent
  created := []
  added := []
  listed := []

/-- The call goes on `n` times. -/
def resumes (t : ThreadId) (n : Nat) : List Act := List.replicate n (.resume t)

end CubridWebManager.Token
