import CubridWebManager.Lib.Run
import Mathlib.Logic.Function.Basic

/-!
# The refresh of the access token

The response interceptor of the web client refreshes the access token on a 401 of the app session: the first call to
get one makes the refresh, those that get one meanwhile queue up as waiters and are told how it went.  When it fails,
the session has expired: the tokens are dropped and the store is told to log out.

A call is given by the point it waits at.  What `await` returns is there before the caller goes on, so the two are steps
of their own; between them, other calls run.
-/

namespace CubridWebManager.ApiClient

/-- What the interceptors read off the url of a request. -/
structure Route where
  hostUid : Option String := none
  isHostLoginRequest : Bool := false
  isAuthRefreshRequest : Bool := false
  isAuthLoginRequest : Bool := false
  isAuthLogoutRequest : Bool := false
  deriving DecidableEq, Repr

/-- `!isAuthRefreshRequest && !isAuthLoginRequest && !isAuthLogoutRequest` -/
def Route.refreshes (route : Route) : Bool :=
  !route.isAuthRefreshRequest && !route.isAuthLoginRequest && !route.isAuthLogoutRequest

/-! ### The tokens -/

structure AuthPayload where
  token : Option String := none
  refreshToken : Option String := none

/-- The body of the answer to a refresh, with the tokens in it or in its `data`. -/
structure RefreshBody extends AuthPayload where
  data : Option AuthPayload := none

structure AuthTokens where
  token : String
  refreshToken : Option String
  deriving DecidableEq

/-- A string that is there and not empty. -/
def truthy (value : Option String) : Option String := value.filter (· ≠ "")

def unwrapAuthTokens (raw : RefreshBody) : Option AuthTokens :=
  let payload := raw.data.getD raw.toAuthPayload
  (truthy payload.token).map fun token => ⟨token, payload.refreshToken⟩

def bearer (token : String) : String := "Bearer " ++ token

/-! ### The calls -/

/-- Where `refreshAccessToken` is: at its request, at the two imports, or done. -/
inductive Refresh
  | posting
  | importingStore (tokens : AuthTokens)
  | importingSlice (tokens : AuthTokens)
  | returned (result : Except String String)

/-- Where `handleSystemSessionExpired` is. -/
inductive Expiry
  | importingStore
  | importingSlice
  | returned

inductive Phase
  | absent
  /-- The request is out. -/
  | sent
  /-- A 401 of the host session, which the interceptor handles elsewhere. -/
  | hostHandling
  /-- In `accessTokenRefreshWaiters`. -/
  | waiting
  /-- The promise of the waiter is settled. -/
  | woken (result : Except String String)
  | refreshing (at_ : Refresh)
  /-- `await handleSystemSessionExpired()`, by the call that made the refresh or by another one. -/
  | expiring (at_ : Expiry) (refresher : Bool)
  | answered
  | rejected

structure Call where
  route : Route
  /-- `_retry` -/
  retry : Bool
  /-- The header of the call itself, which a retry has. -/
  authorization : Option String
  phase : Phase
  /-- The call whose refresh it queued up for. -/
  waitsFor : Option Nat

/-- A waiter that was told the result of a call's refresh. -/
structure Settlement where
  waiter : Nat
  refresher : Nat
  result : Except String String

structure State where
  pathname : String
  /-- The tokens in `localStorage`. -/
  token : Option String
  refreshToken : Option String
  /-- The default header. -/
  authorization : Option String
  isHandlingSystemSessionExpiry : Bool
  isRefreshingAccessToken : Bool
  accessTokenRefreshWaiters : List Nat
  nextCall : Nat
  calls : Nat → Call
  /-- The last call that made a refresh. -/
  refresher : Nat
  /-- The promises of waiters that were resolved or rejected, in order. -/
  settlements : List Settlement

/-- The page has just been loaded. -/
def State.fresh (pathname : String) (token refreshToken : Option String) : State where
  pathname := pathname
  token := token
  refreshToken := refreshToken
  authorization := (truthy token).map bearer
  isHandlingSystemSessionExpiry := false
  isRefreshingAccessToken := false
  accessTokenRefreshWaiters := []
  nextCall := 0
  calls _ := ⟨{}, false, none, .absent, none⟩
  refresher := 0
  settlements := []

/-! ### The steps -/

inductive Act
  | call (route : Route)
  /-- The call is answered, with success or with an error that is no 401. -/
  | answer (c : Nat)
  | unauthorized (c : Nat) (isAppSessionError : Bool)
  /-- The host session's handling is through: it sends the call again, or rejects it. -/
  | hostHandled (c : Nat) (retried : Bool)
  /-- The answer to the refresh of the call, or its failure. -/
  | refreshAnswer (c : Nat) (response : Except String RefreshBody)
  /-- The import that the call awaits. -/
  | imported (c : Nat) (module : Except String Unit)
  /-- The call goes on after its `await`. -/
  | resume (c : Nat)
  | navigate (pathname : String)
  /-- A login or a logout of the user. -/
  | setSession (token refreshToken : Option String)

namespace State

variable (s : State)

def setCall (c : Nat) (call : Call) : State := { s with calls := Function.update s.calls c call }

def setPhase (c : Nat) (phase : Phase) : State := s.setCall c { s.calls c with phase := phase }

def newCall (route : Route) : State :=
  { s.setCall s.nextCall ⟨route, false, none, .sent, none⟩ with nextCall := s.nextCall + 1 }

/-- `setAuthToken` with the token in `localStorage`. -/
def storeTokens (token refreshToken : Option String) : State :=
  { s with token := token, refreshToken := refreshToken, authorization := (truthy token).map bearer }

/-- What `refreshAccessToken` and `sessionRefreshed` store. -/
def storeAuthTokens (tokens : AuthTokens) : State :=
  s.storeTokens (some tokens.token) (truthy tokens.refreshToken <|> s.refreshToken)

/-- `apiClient(originalRequest)` with the new token. -/
def retry (c : Nat) (token : String) : State :=
  s.setCall c { s.calls c with authorization := some (bearer token), phase := .sent }

/-- The call `r` tells a waiter the result of its refresh; the waiter's promise takes the first one it gets. -/
def settleWaiter (r : Nat) (result : Except String String) (c : Nat) : State :=
  { (match (s.calls c).phase with
      | .waiting => s.setPhase c (.woken result)
      | _ => s) with
    settlements := s.settlements ++ [⟨c, r, result⟩] }

/-- `notifyAccessTokenRefreshed` and `notifyAccessTokenRefreshFailed`. -/
def notifyWaiters (r : Nat) (result : Except String String) : State :=
  { s.accessTokenRefreshWaiters.foldl (settleWaiter · r result) s with accessTokenRefreshWaiters := [] }

/-- `handleSystemSessionExpired`, up to its first import. -/
def handleSystemSessionExpired (c : Nat) (refresher : Bool) : State :=
  if s.isHandlingSystemSessionExpiry || s.pathname == "/login" || s.pathname == "/register" then
    s.setPhase c (.expiring .returned refresher)
  else
    { s with isHandlingSystemSessionExpiry := true, token := none, refreshToken := none }.setPhase c
      (.expiring .importingStore refresher)

/-- `finally { isHandlingSystemSessionExpiry = false; }` -/
def expiryReturned (c : Nat) (refresher : Bool) : State :=
  { s with isHandlingSystemSessionExpiry := false }.setPhase c (.expiring .returned refresher)

def queueWaiter (c : Nat) : State :=
  { s with accessTokenRefreshWaiters := s.accessTokenRefreshWaiters ++ [c] }.setCall c
    { s.calls c with retry := true, phase := .waiting, waitsFor := some s.refresher }

/-- `refreshAccessToken`, up to its request. -/
def refreshAccessToken (c : Nat) : State :=
  { s with isRefreshingAccessToken := true, refresher := c }.setCall c
    { s.calls c with
      retry := true
      phase := .refreshing (match truthy s.refreshToken with
        | none => .returned (.error "No refresh token")
        | some _ => .posting) }

/-- The interceptor on a 401. -/
def unauthorized (c : Nat) (isAppSessionError : Bool) : State :=
  let call := s.calls c
  if call.retry then s.setPhase c .rejected
  else if call.route.hostUid.isSome && !isAppSessionError then s.setPhase c .hostHandling
  else if call.route.refreshes then
    if s.isRefreshingAccessToken then s.queueWaiter c else s.refreshAccessToken c
  else if call.route.isAuthLoginRequest || call.route.isAuthLogoutRequest then s.setPhase c .rejected
  else s.handleSystemSessionExpired c false

/-- `refreshAccessToken`, after its request. -/
def refreshAnswered (c : Nat) : Except String RefreshBody → State
  | .error message => s.setPhase c (.refreshing (.returned (.error message)))
  | .ok body =>
    match unwrapAuthTokens body with
    | none => s.setPhase c (.refreshing (.returned (.error "Refresh response missing access token")))
    | some tokens => (s.storeAuthTokens tokens).setPhase c (.refreshing (.importingStore tokens))

/-- The call that made the refresh goes on. -/
def refreshReturned (c : Nat) : Except String String → State
  | .ok token => { (s.notifyWaiters c (.ok token)).retry c token with isRefreshingAccessToken := false }
  | .error message => (s.notifyWaiters c (.error message)).handleSystemSessionExpired c true

end State

def step (s : State) : Act → Option State
  | .call route => some (s.newCall route)
  | .answer c =>
    match (s.calls c).phase with
    | .sent => some (s.setPhase c .answered)
    | _ => none
  | .unauthorized c isAppSessionError =>
    match (s.calls c).phase with
    | .sent => some (s.unauthorized c isAppSessionError)
    | _ => none
  | .hostHandled c retried =>
    match (s.calls c).phase with
    | .hostHandling =>
      some (if retried then s.setCall c { s.calls c with retry := true, phase := .sent } else s.setPhase c .rejected)
    | _ => none
  | .refreshAnswer c response =>
    match (s.calls c).phase with
    | .refreshing .posting => some (s.refreshAnswered c response)
    | _ => none
  | .imported c module =>
    match (s.calls c).phase, module with
    | .refreshing (.importingStore tokens), .ok _ => some (s.setPhase c (.refreshing (.importingSlice tokens)))
    | .refreshing (.importingSlice tokens), .ok _ =>
      some ((s.storeAuthTokens tokens).setPhase c (.refreshing (.returned (.ok tokens.token))))
    | .refreshing (.importingStore _), .error message | .refreshing (.importingSlice _), .error message =>
      some (s.setPhase c (.refreshing (.returned (.error message))))
    | .expiring .importingStore refresher, .ok _ => some (s.setPhase c (.expiring .importingSlice refresher))
    | .expiring .importingSlice refresher, .ok _ => some ((s.storeTokens none none).expiryReturned c refresher)
    | .expiring .importingStore refresher, .error _ | .expiring .importingSlice refresher, .error _ =>
      some (s.expiryReturned c refresher)
    | _, _ => none
  | .resume c =>
    match (s.calls c).phase with
    | .woken (.ok token) => some (s.retry c token)
    | .woken (.error _) => some (s.setPhase c .rejected)
    | .refreshing (.returned result) => some (s.refreshReturned c result)
    | .expiring .returned refresher =>
      -- The `finally` of the refresh.
      some ({ s with isRefreshingAccessToken := if refresher then false else s.isRefreshingAccessToken }.setPhase c .rejected)
    | _ => none
  | .navigate pathname => some { s with pathname := pathname }
  | .setSession token refreshToken => some (s.storeTokens token refreshToken)

theorem step_answer_iff {s s' : State} {c : Nat} :
    step s (.answer c) = some s' ↔ (s.calls c).phase = .sent ∧ s.setPhase c .answered = s' := by
  simp only [step]
  split
  · rename_i hphase
    rw [Option.some.injEq, and_iff_right hphase]
  · rename_i hphase
    exact iff_of_false nofun fun h => hphase h.1

end CubridWebManager.ApiClient
