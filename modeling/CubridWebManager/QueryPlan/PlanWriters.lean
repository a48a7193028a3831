import CubridWebManager.Lib.LostUpdate

/-!
# The writers of a query-plan list

The operations on the auto-execution plans of a database: what each makes of the plans that CMS answers, and the queue
that it joins.  CMS keeps the list of a database; what it answers and what it makes of a list that it is sent are left
open.
-/

namespace CubridWebManager.QueryPlan

/-! ### Plans -/

structure Plan where
  queryId : String
  username : String
  userpass : Option String
  period : String
  detail : String
  queryString : String
  deriving DecidableEq

/-- A plan as CMS answers it. -/
structure RawPlan where
  queryId : String
  atUsername : Option String
  username : Option String
  userpass : Option String
  period : String
  detail : String
  queryString : String
  deriving DecidableEq

/-- The list of a database as CMS answers it; a list that is missing, or no list, is `none`. -/
structure RawPlanList where
  dbname : Option String
  queryplan : Option (List RawPlan)
  deriving DecidableEq

structure PlanList where
  dbname : String
  queryplan : List Plan
  deriving DecidableEq

def RawPlan.toPlan (raw : RawPlan) : Plan :=
  ⟨raw.queryId, raw.atUsername.getD (raw.username.getD ""), raw.userpass, raw.period, raw.detail, raw.queryString⟩

/-- What `getAutoExecQuery` makes of the answer. -/
def getAutoExecQuery (planlist : Option (List RawPlanList)) : List PlanList :=
  (planlist.getD []).map fun raw => ⟨raw.dbname.getD "", (raw.queryplan.getD []).map RawPlan.toPlan⟩

/-- The plans of the database in the list. -/
def plansOf (dbname : String) (planlist : List PlanList) : List Plan :=
  ((planlist.find? fun p => p.dbname = dbname).map PlanList.queryplan).getD []

/-- `CMS_UNKNOWN_USERPASS`. -/
def cmsUnknownUserpass : String := "unknown"

def preserveExistingCredentials (plans : List Plan) : List Plan :=
  plans.map fun p => if p.userpass.all (· = "") then { p with userpass := some cmsUnknownUserpass } else p

/-! ### Operations -/

inductive PlanEdit
  | append (plan : Plan)
  | update (plan : Plan)
  | remove (queryId : String)
  /-- `setAutoExecQuery`: the whole list. -/
  | set (planlist : List (List Plan))
  deriving DecidableEq

/-- The plans that an edit writes, given those that there are; `none` if it throws. -/
def PlanEdit.plans (existingPlans : List Plan) : PlanEdit → Option (List Plan)
  | append newPlan =>
    if existingPlans.any fun p => p.queryId = newPlan.queryId then none
    else some (preserveExistingCredentials existingPlans ++ [newPlan])
  | update updatedPlan =>
    if existingPlans.any fun p => p.queryId = updatedPlan.queryId then
      some (preserveExistingCredentials (existingPlans.filter fun p => p.queryId ≠ updatedPlan.queryId) ++ [updatedPlan])
    else none
  | remove queryId =>
    let remaining := existingPlans.filter fun p => p.queryId ≠ queryId
    if remaining.length = existingPlans.length then none else some (preserveExistingCredentials remaining)
  | set _ => none

/-- The address and the port of a physical host. -/
abbrev Host := String × Int

/-- How CMS answers the plans of a database, and what a list that it is sent makes of what it keeps. -/
structure CmsPlans (Stored : Type) where
  get : String → Stored → Option (List RawPlanList)
  set : String → Stored → List PlanList → Stored

/-- `service` is the instance of the service that is called. -/
structure Call where
  service : Nat
  userId : String
  hostUid : String
  dbname : String
  edit : PlanEdit
  deriving DecidableEq

/-- The queue that the call joins: `setAutoExecQuery` joins none, and each instance of the service has queues of its
own. -/
def Call.key? (call : Call) : Option (Nat × String) :=
  match call.edit with
  | .set _ => none
  | _ => some (call.service, call.hostUid ++ ":" ++ call.dbname)

def Call.blind? (call : Call) : Option (List PlanList) :=
  match call.edit with
  | .set planlist => some (planlist.map fun queryplan => ⟨call.dbname, queryplan⟩)
  | _ => none

/-- The calls in the queues of `withQueryPlanMutex`; `hosts` is what `findHostInternal` finds. -/
def planProtocol {Stored : Type} (hosts : String → String → Host) (cms : CmsPlans Stored) :
    UpdateProtocol Call (Nat × String) (Host × String) Stored (Option (List RawPlanList)) (List PlanList) where
  key? := Call.key?
  object call := (hosts call.userId call.hostUid, call.dbname)
  blind? := Call.blind?
  view o := cms.get o.2
  edit call answer := (call.edit.plans (plansOf call.dbname (getAutoExecQuery answer))).map
    fun queryplan => some [⟨call.dbname, queryplan⟩]
  apply o := cms.set o.2

end CubridWebManager.QueryPlan
