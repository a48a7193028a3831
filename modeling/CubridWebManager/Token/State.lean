import CubridWebManager.Lib.Files

/-!
# The state of the token stores

The files of the three token directories, and every call of the auth service in progress: logins, refreshes, logouts,
blacklist checks and the periodic purges.  A call in progress is given by the file operation (or signing) it awaits,
with its live local variables.

A refresh token is 32 random bytes and names its files by its hash.  Here the tokens are numbered in the order in which
they are drawn, and a token stands for its hash; so do the ids of access tokens and of token families.
-/

namespace CubridWebManager.Token

abbrev ThreadId := Nat

/-- The id of an access token. -/
abbrev Jti := Nat

abbrev Family := Nat

/-- A text presented as a refresh token: the `n`-th token that was drawn, or one that never is. -/
inductive RefreshToken
  | drawn (n : Nat)
  | other (text : String)
  deriving DecidableEq, Repr

/-! ### Files -/

structure RefreshTokenRecord where
  userId : String
  familyId : Family
  expiresAt : Nat
  createdAt : Nat
  deriving DecidableEq, Repr

inductive Content
  | token (record : RefreshTokenRecord)
  | consumed (record : RefreshTokenRecord) (consumedAt : Nat)
  | entry (jti : Jti) (expiresAt : Nat)
  deriving DecidableEq, Repr

namespace Content

def expiresAt : Content → Nat
  | .token record | .consumed record _ => record.expiresAt
  | .entry _ expiresAt => expiresAt

def familyId : Content → Option Family
  | .token record | .consumed record _ => some record.familyId
  | .entry _ _ => none

end Content

/-- `refresh-tokens`, `refresh-tokens-consumed` and `token-blacklist`. -/
inductive Root
  | refreshTokens
  | refreshTokensConsumed
  | tokenBlacklist
  deriving DecidableEq, Repr

/-- The files, all of them with a name that ends in `.json`. -/
inductive Path
  | active (token : RefreshToken)
  /-- The file of a token while a call consumes it. -/
  | consuming (token : RefreshToken) (nonce : ThreadId)
  | consumed (token : RefreshToken)
  | entry (jti : Jti)
  deriving DecidableEq, Repr

def Path.root : Path → Root
  | .active _ | .consuming _ _ => .refreshTokens
  | .consumed _ => .refreshTokensConsumed
  | .entry _ => .tokenBlacklist

/-! ### Calls -/

/-- A loop over the files of a directory, which deletes some: `revokeFamily`, the two loops of `purgeExpired` of the
refresh tokens, and that of the blacklist; `now` is when the purge began. -/
inductive Sweep
  | revokeFamily (familyId : Family)
  | purgeTokens (now : Nat)
  | purgeConsumed (now : Nat)
  | purgeBlacklist (now : Nat)
  deriving DecidableEq, Repr

namespace Sweep

def root : Sweep → Root
  | .revokeFamily _ | .purgeTokens _ => .refreshTokens
  | .purgeConsumed _ => .refreshTokensConsumed
  | .purgeBlacklist _ => .tokenBlacklist

/-- The file is one to delete. -/
def dooms : Sweep → Content → Bool
  | .revokeFamily familyId, content => content.familyId = some familyId
  | .purgeTokens now, content | .purgeConsumed now, content | .purgeBlacklist now, content => content.expiresAt ≤ now

def family? : Sweep → Option Family
  | .revokeFamily familyId => some familyId
  | .purgeTokens _ | .purgeConsumed _ | .purgeBlacklist _ => none

end Sweep

/-- `RefreshConsumeSession`; its `lockPath` is the consuming path of the token with the call as its nonce. -/
structure Session where
  token : RefreshToken
  record : RefreshTokenRecord
  deriving DecidableEq, Repr

/-- What a token pair is issued for. -/
inductive Origin
  | login (userId : String)
  | rotation (session : Session)
  deriving DecidableEq, Repr

/-- The access and the refresh token of an answer. -/
structure TokenPair where
  jti : Jti
  token : Nat
  deriving DecidableEq, Repr

/-- Where a call waits, or how it ended. -/
inductive Pc
  | absent
  /-- `issueTokenPair`: `await signAsync`. -/
  | sign (origin : Origin)
  /-- `create`: `await writeFile`, in two steps. -/
  | createOpen (origin : Origin) (pair : TokenPair) (record : RefreshTokenRecord)
  | createWrite (origin : Origin) (pair : TokenPair) (record : RefreshTokenRecord) (inode : Nat)
  /-- `consumeForRotation`: `await rename`. -/
  | claim (token : RefreshToken)
  /-- There was no file: `await readConsumed`. -/
  | readConsumed (token : RefreshToken)
  | readLock (token : RefreshToken)
  /-- The file has expired or cannot be read: `await unlink`. -/
  | dropLock (token : RefreshToken)
  /-- `commitConsume`: `await writeFile`, in two steps. -/
  | commitOpen (session : Session) (pair : TokenPair)
  | commitWrite (session : Session) (pair : TokenPair) (consumedAt inode : Nat)
  | commitUnlink (session : Session) (pair : TokenPair)
  /-- `rollbackConsume`: `await rename`; `pair` is what was drawn before the failure. -/
  | rollback (session : Session) (pair : Option TokenPair)
  /-- A sweep: `await readdir`, and for each file `await readFile`, `await unlink` and that of the catch clause. -/
  | list (sweep : Sweep)
  | sweepRead (sweep : Sweep) (file : Path) (rest : List Path)
  | sweepUnlink (sweep : Sweep) (file : Path) (rest : List Path)
  | sweepCatch (sweep : Sweep) (file : Path) (rest : List Path)
  /-- `logout`: `add` to the blacklist, in two steps, and `revoke`. -/
  | addOpen (jti : Jti) (expiresAt : Nat) (token : Option RefreshToken)
  | addWrite (jti : Jti) (expiresAt : Nat) (token : Option RefreshToken) (inode : Nat)
  | revoke (token : RefreshToken)
  /-- `isBlacklisted` -/
  | checkRead (jti : Jti)
  | checkUnlink (jti : Jti)
  | loggedIn (pair : TokenPair)
  | refreshed (token : RefreshToken) (pair : TokenPair)
  /-- The call found its token consumed before, and threw. -/
  | reused (familyId : Family)
  /-- It threw `REFRESH_TOKEN_INVALID`. -/
  | invalid
  /-- It threw the error of an operation that failed. -/
  | failed
  | loggedOut
  | checked (blacklisted : Bool)
  | purged
  deriving DecidableEq

/-! ### The state -/

/-- A token as it was drawn: its record, and the token it takes the place of. -/
structure Drawn where
  record : RefreshTokenRecord
  parent : Option RefreshToken
  deriving DecidableEq, Repr

structure State where
  now : Nat
  files : Files Path Content
  /-- The tokens drawn so far. -/
  drawn : List Drawn
  nextFamily : Family
  /-- The access tokens signed so far, by when they expire. -/
  signed : List Nat
  nextThread : ThreadId
  threads : ThreadId → Pc
  /-- The tokens whose `create` has completed. -/
  created : List Nat
  /-- The access tokens whose `add` has completed. -/
  added : List Jti
  /-- The families for whose revocation the directory has been read. -/
  listed : List Family

inductive Act
  | tick (ms : Nat)
  | login (userId : String)
  | refresh (token : RefreshToken)
  | logout (jti : Option Jti) (token : Option RefreshToken)
  | isBlacklisted (jti : Jti)
  | purgeTokens
  | purgeBlacklist
  /-- What the call waits for is done. -/
  | resume (t : ThreadId)
  /-- The directory is read, in some order. -/
  | readdir (t : ThreadId) (files : List Path)
  /-- It fails, and not because there is no such file. -/
  | reject (t : ThreadId)
  deriving DecidableEq

namespace State

variable (s : State)

def setPc (t : ThreadId) (pc : Pc) : State := { s with threads := Function.update s.threads t pc }

def setFiles (files : Files Path Content) : State := { s with files := files }

/-- A new call. -/
def spawn (pc : Pc) : State :=
  { s with nextThread := s.nextThread + 1, threads := Function.update s.threads s.nextThread pc }

/-- The token is there with its record: it can be used until it expires. -/
def live (n : Nat) : Prop := ∃ d, s.drawn[n]? = some d ∧ (s.files.get? (.active (.drawn n))).bind File.content =
  some (.token d.record)

instance (n : Nat) : Decidable (s.live n) :=
  decidable_of_iff ((s.drawn[n]?).any fun d =>
    (s.files.get? (.active (.drawn n))).bind File.content = some (.token d.record)) (by
      simp [live, Option.any_eq_true])

end State

end CubridWebManager.Token
