import CubridWebManager.Lib.JsText
import CubridWebManager.Lib.Json

/-!
# The account operations

The operations of `user.service.ts` that change the stored record of a user, each as what it makes of the record that
`atomicUpdateUser` has read: the result is stored, and nothing is stored when it throws.  The record has whatever fields
its JSON has.  The bodies are arbitrary: the validation pipe rejects some bodies of the other operations, but it passes
every body of `updateUser`, whose declared type is not a class.

`compare` is `bcrypt.compare`, which throws when it is not given two strings; the hash of a new password is drawn with
the call.
-/

namespace CubridWebManager.Account

open JsObject

/-- `MIN_PASSWORD_LENGTH`. -/
def minPasswordLength : Nat := 8

def passwordValidityChecker (password : Option Json) : Bool :=
  match password with
  | some (.str s) =>
    let trimmed := Text.trim s.toList
    minPasswordLength ≤ trimmed.utf16Length && trimmed.any Char.isAlpha && trimmed.any Char.isDigit
  | _ => false

inductive AccountError
  | oldPasswordMismatch
  | badNewPassword
  /-- An error that is not one of the service. -/
  | unexpected (message : String)
  deriving DecidableEq

abbrev Record := Dict String Json

/-- What `bcrypt.compare` answers for a password and a hash; none is `undefined`. -/
abbrev Compare := Option Json → Option Json → Except String Bool

/-- `comparePlainAndHash(dto.oldPassword, user.password)`. -/
def compareOld (compare : Compare) (user : Record) (dto : Json) : Except String Bool :=
  (dto.prop "oldPassword").bind fun oldPassword => compare oldPassword (user.get? "password")

def changePassword (compare : Compare) (user : Record) (dto : Json) (hashed : String) : Except AccountError Record :=
  match compareOld compare user dto with
  | .error message => .error (.unexpected message)
  | .ok false => .error .oldPasswordMismatch
  | .ok true =>
    match dto.prop "newPassword" with
    | .error message => .error (.unexpected message)
    | .ok newPassword =>
      if passwordValidityChecker newPassword then .ok (user.set "password" (.str hashed)) else .error .badNewPassword

/-- `{ ...user.user_preference, ...update }` becomes the preference of the user. -/
def mergePreference (user : Record) (update : Json) : Record :=
  let preference := ((user.get? "user_preference").getD .null).ownFields
  user.set "user_preference" (.spread preference update.ownFields)

def updateProfile (user : Record) (update : Json) : Except AccountError Record :=
  match update.prop "department", update.prop "user_preference" with
  | .ok department, .ok preference =>
    let user := match department.filter Json.truthy with
      | none => user
      | some department => user.set "department" department
    .ok (match preference.filter Json.truthy with
      | none => user
      | some preference => mergePreference user preference)
  | .error message, _ | _, .error message => .error (.unexpected message)

def updateUserPreferences (user : Record) (update : Json) : Except AccountError Record :=
  .ok (mergePreference user update)

def updateUser (user : Record) (update : Json) : Except AccountError Record :=
  match update with
  | .null => .error (.unexpected "Cannot convert undefined or null to object")
  | update => .ok (assignAll user update.ownFields)

/-- A call for the user; the hash that the call would draw is given with it. -/
inductive Op
  | changePassword (dto : Json) (hashed : String)
  | updateProfile (update : Json)
  | updateUserPreferences (update : Json)
  | updateUser (update : Json)

def Op.modify (compare : Compare) (user : Record) : Op → Except AccountError Record
  | .changePassword dto hashed => Account.changePassword compare user dto hashed
  | .updateProfile update => Account.updateProfile user update
  | .updateUserPreferences update => Account.updateUserPreferences user update
  | .updateUser update => Account.updateUser user update

/-- `atomicUpdateUser`: the record that is stored after the call. -/
def step (compare : Compare) (user : Record) (op : Op) : Option Record :=
  match op.modify compare user with
  | .ok user' => some user'
  | .error _ => some user

end CubridWebManager.Account
