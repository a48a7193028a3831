import CubridWebManager.Lib.JsObject
import CubridWebManager.Lib.JsText

/-!
# User records with their host groups

The stored record of a user as far as the host service reads and writes it, the requests of the service and its errors.
A field that may be missing is an option, and what is left of the activity of CMS tokens is not in the record.
-/

namespace CubridWebManager.HostGroups

open JsObject

structure DbInfo where
  dbname : String
  id : String
  password : String
  loggedOut : Option Bool := none
  deriving DecidableEq

structure HostInfo where
  uid : String
  id : Option String
  address : Option String
  port : Option Int
  password : Option String
  initialLogin : Option Bool
  hostAlias : Option Text
  token : Option String
  cmsTokenIssuedAt : Option Nat
  cmsTokenActiveTimeSec : Option Nat
  dbProfiles : Option (Dict String DbInfo)
  deriving DecidableEq

structure HostGroupInfo where
  name : Text
  defaultHostUid : Option String
  createdAt : Option String
  hosts : Option (Dict String HostInfo)
  deriving DecidableEq

structure User where
  hostGroups : Option (Dict String HostGroupInfo)
  deriving DecidableEq

/-! ### Requests -/

structure AddHostPayload where
  address : String
  port : Int
  id : String
  password : String
  hostAlias : Option Text
  groupId : Option String := none

/-- Fields are missing or `null`; for the alias this is not the same, and `some none` is `null`. -/
structure UpdateHostRequest where
  address : Option String := none
  port : Option Int := none
  id : Option String := none
  password : Option String := none
  hostAlias : Option (Option Text) := none
  token : Option String := none
  dbProfiles : Option (Dict String DbInfo) := none

/-- `some none` is `null`. -/
structure GroupPatch where
  name : Option (Option Text) := none
  defaultHostUid : Option (Option String) := none

inductive HostError
  | exceedMaxHosts (currentHostCount : Nat)
  | invalidFormat (field reason : String) (message : Option String) (max : Option Nat)
  | duplicatedHost (duplicatedHostId : String)
  | duplicatedAlias (duplicatedHostId : String) (hostAlias : Option Text)
  | noSuchHost (hostUid : String)
  | userNotFound (id : String)
  /-- An error that is not one of the service. -/
  | unexpected (message : String)
  deriving DecidableEq

/-! ### What an operation does -/

/-- A property of an object that all objects inherit is assigned. -/
abbrev Assigned := Inherited × String

/-- What an operation returns or throws, and what it has assigned to inherited objects by then. -/
structure Outcome (ε α : Type) where
  result : Except ε α
  assigned : List Assigned := []

namespace Outcome

variable {ε ε' α : Type}

def pure (a : α) : Outcome ε α := ⟨.ok a, []⟩

def throw (e : ε) : Outcome ε α := ⟨.error e, []⟩

def mapError (f : ε → ε') (o : Outcome ε α) : Outcome ε' α := ⟨o.result.mapError f, o.assigned⟩

end Outcome

end CubridWebManager.HostGroups
