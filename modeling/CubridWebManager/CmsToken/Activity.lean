import CubridWebManager.Lib.Run
import Mathlib.Logic.Function.Basic

/-!
# What CMS did with its tokens

CMS lets a token expire that goes unused, and the API server notes for each token when CMS last accepted a request with
it, so as to say until when a host's session lasts.  Old records are swept.

`Both` keeps, next to the records of the API server, those that it would have if nothing were ever swept.
-/

namespace CubridWebManager.CmsToken

def cmsDefaultTokenActiveTimeSec : Nat := 7200

def cmsTokenActivityRetentionMs : Nat := 24 * 60 * 60 * 1000

def sweepEveryNotes : Nat := 256

/-- A record; `acceptedAt` is 0 if no request was accepted. -/
structure TokenActivity where
  acceptedAt : Nat := 0
  rejected : Bool := false
  closedAt : Option Nat := none
  touchedAt : Nat
  deriving DecidableEq

abbrev Activity := String → Option TokenActivity

/-- A token that is there and not empty. -/
def present (token : Option String) : Option String := token.filter (· ≠ "")

/-! ### The records -/

/-- `activity.get(token) ?? { acceptedAt: 0, rejected: false, touchedAt: at }` -/
def Activity.entry (activity : Activity) (token : String) (at_ : Nat) : TokenActivity :=
  (activity token).getD { touchedAt := at_ }

/-- The answer does not reopen a session that was closed after the request was issued. -/
def TokenActivity.reopens (entry : TokenActivity) (startedAt : Nat) : Bool :=
  entry.closedAt.all (· < startedAt)

def TokenActivity.note (entry : TokenActivity) (rejected : Bool) (startedAt at_ : Nat) : TokenActivity :=
  let entry := { entry with touchedAt := at_ }
  if rejected then { entry with rejected := true }
  else if !entry.rejected && entry.reopens startedAt then { entry with acceptedAt := at_ }
  else entry

def TokenActivity.close (entry : TokenActivity) (at_ : Nat) : TokenActivity :=
  { entry with acceptedAt := 0, closedAt := some at_, touchedAt := at_ }

namespace Activity

variable (activity : Activity) (token : Option String)

def sweep (now : Nat) : Activity := fun token =>
  (activity token).filter fun entry => entry.rejected || now - entry.touchedAt ≤ cmsTokenActivityRetentionMs

/-- `noteCmsTokenUse` up to its sweep. -/
def note (rejected : Bool) (startedAt at_ : Nat) : Activity :=
  match present token with
  | none => activity
  | some token => Function.update activity token (some ((activity.entry token at_).note rejected startedAt at_))

def closeCmsToken (at_ : Nat) : Activity :=
  match present token with
  | none => activity
  | some token => Function.update activity token (some ((activity.entry token at_).close at_))

def forgetCmsToken : Activity :=
  match present token with
  | none => activity
  | some token => Function.update activity token none

end Activity

structure State where
  activity : Activity
  notesSinceSweep : Nat

def State.noteCmsTokenUse (s : State) (token : Option String) (rejected : Bool) (startedAt at_ : Nat) : State :=
  let activity := s.activity.note token rejected startedAt at_
  if present token = none then s
  else if sweepEveryNotes ≤ s.notesSinceSweep + 1 then ⟨activity.sweep at_, 0⟩
  else ⟨activity, s.notesSinceSweep + 1⟩

structure HostInfo where
  token : Option String
  cmsTokenIssuedAt : Option Nat
  cmsTokenActiveTimeSec : Option Nat

def cmsSessionExpiresAt (activity : Activity) (host : HostInfo) : Option Nat :=
  match present host.token with
  | none => none
  | some token =>
    let entry := activity token
    let since := max ((entry.map TokenActivity.acceptedAt).getD 0) (host.cmsTokenIssuedAt.getD 0)
    if entry.any TokenActivity.rejected then none
    else if since = 0 then none
    else some (since + host.cmsTokenActiveTimeSec.getD cmsDefaultTokenActiveTimeSec * 1000)

/-! ### The steps -/

structure Both where
  now : Nat
  state : State
  /-- The records as they would be without a sweep. -/
  unswept : Activity

def Both.start : Both := ⟨0, ⟨fun _ => none, 0⟩, fun _ => none⟩

inductive Act
  | noteCmsTokenUse (token : Option String) (rejected : Bool) (startedAt at_ : Nat)
  | closeCmsToken (token : Option String) (at_ : Nat)
  | forgetCmsToken (token : Option String)
  | sweep (now : Nat)

/-- The time never goes back, and no request is issued after its answer. -/
def step (s : Both) : Act → Option Both
  | .noteCmsTokenUse token rejected startedAt at_ =>
    if s.now ≤ at_ ∧ startedAt ≤ at_ then
      some ⟨at_, s.state.noteCmsTokenUse token rejected startedAt at_, s.unswept.note token rejected startedAt at_⟩
    else none
  | .closeCmsToken token at_ =>
    if s.now ≤ at_ then
      some ⟨at_, { s.state with activity := s.state.activity.closeCmsToken token at_ },
        s.unswept.closeCmsToken token at_⟩
    else none
  | .forgetCmsToken token =>
    some ⟨s.now, { s.state with activity := s.state.activity.forgetCmsToken token }, s.unswept.forgetCmsToken token⟩
  | .sweep now =>
    if s.now ≤ now then some ⟨now, { s.state with activity := s.state.activity.sweep now }, s.unswept⟩ else none

end CubridWebManager.CmsToken
