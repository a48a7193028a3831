import CubridWebManager.QueryPlan.PlanWriters

/-!
# Edits of a query-plan list

Where no two edits of one list under different keys overlap (`Apart`), the list that CMS keeps is what the edits that
succeeded make of it one after another, and a plan that was appended stays until an edit takes it out
(`plan_edits_serial`).  Two users append under keys of their own, and one of the plans is lost
(`plan_edits_serial_fails`).
-/

namespace CubridWebManager.QueryPlan

open ReadModifyWrite Transition

/-- The plan as CMS answers it. -/
def Plan.withoutPass (p : Plan) : Plan := { p with userpass := none }

/-- The edit does not take the plan out. -/
def PlanEdit.Keeps (p : Plan) : PlanEdit → Prop
  | append _ => True
  | update plan => plan.queryId ≠ p.queryId
  | remove queryId => queryId ≠ p.queryId
  | set planlist => p.withoutPass ∈ (planlist.head?.getD []).map Plan.withoutPass

section protocol

variable {Stored : Type} (hosts : String → String → Host) (cms : CmsPlans Stored)

abbrev PlanState (Stored : Type) : Type :=
  State Call (Nat × String) (Host × String) Stored (Option (List RawPlanList)) (List PlanList)

/-- When CMS carries out a write, no other edit has read the list and not written it yet, but for those under the same
key; and no call fails after its write has been carried out. -/
def Apart (s : PlanState Stored) (a : Act Call) : Prop :=
  Exclusive (planProtocol hosts cms) s a ∧
    match a with
    | .fail t => (s.threads t).wrote? = none
    | _ => True

instance (s : PlanState Stored) (a : Act Call) : Decidable (Apart hosts cms s a) := by
  unfold Apart
  split <;> infer_instance

/-- The plans that CMS answers for the database are those that were set last, without their passwords. -/
def AnswersLast : Prop := ∀ dbname stored planlist,
  plansOf dbname (getAutoExecQuery (cms.get dbname (cms.set dbname stored planlist))) =
    (plansOf dbname planlist).map Plan.withoutPass

variable {hosts cms}

/-- An edit of the plans for which the plan stays. -/
theorem mem_plans {existing plans : List Plan} {edit : PlanEdit} {p : Plan} (h : edit.plans existing = some plans)
    (hp : p.withoutPass ∈ existing.map Plan.withoutPass) (hkeeps : edit.Keeps p) :
    p.withoutPass ∈ plans.map Plan.withoutPass := by
  have hpreserve : ∀ l : List Plan, (preserveExistingCredentials l).map Plan.withoutPass = l.map Plan.withoutPass := by
    intro l
    rw [preserveExistingCredentials, List.map_map]
    refine List.map_congr_left fun q _ => ?_
    simp only [Function.comp_apply]
    split <;> rfl
  have hfilter : ∀ queryId, queryId ≠ p.queryId →
      p.withoutPass ∈ (existing.filter fun q => q.queryId ≠ queryId).map Plan.withoutPass := by
    intro queryId hne
    obtain ⟨q, hq, heq⟩ := List.mem_map.1 hp
    have hid : q.withoutPass.queryId = p.withoutPass.queryId := congrArg Plan.queryId heq
    refine List.mem_map.2 ⟨q, List.mem_filter.2 ⟨hq, ?_⟩, heq⟩
    have hne' : q.queryId ≠ queryId := fun heq' => hne (heq'.symm.trans hid)
    exact decide_eq_true hne'
  cases edit with
  | append plan =>
    simp only [PlanEdit.plans] at h
    split at h
    · cases h
    · obtain rfl := Option.some.inj h
      rw [List.map_append, hpreserve]
      exact List.mem_append_left _ hp
  | update plan =>
    simp only [PlanEdit.plans] at h
    split at h
    · obtain rfl := Option.some.inj h
      rw [List.map_append, hpreserve]
      exact List.mem_append_left _ (hfilter plan.queryId hkeeps)
    · cases h
  | remove queryId =>
    simp only [PlanEdit.plans] at h
    split at h
    · cases h
    · obtain rfl := Option.some.inj h
      rw [hpreserve]
      exact hfilter queryId hkeeps
  | set planlist => cases h

theorem mem_plans_append {existing plans : List Plan} {plan : Plan}
    (h : (PlanEdit.append plan).plans existing = some plans) : plan ∈ plans := by
  simp only [PlanEdit.plans] at h
  split at h
  · cases h
  · obtain rfl := Option.some.inj h
    exact List.mem_append_right _ (List.mem_singleton_self plan)

/-- What a call that does not set the whole list writes. -/
theorem requestFor_eq_some {call : Call} {stored : Stored} {request : List PlanList} (hblind : call.blind? = none)
    (h : requestFor (planProtocol hosts cms) call stored = some request) : ∃ plans,
      call.edit.plans (plansOf call.dbname (getAutoExecQuery (cms.get call.dbname stored))) = some plans ∧
        request = [⟨call.dbname, plans⟩] := by
  have hedit : ((call.edit.plans (plansOf call.dbname (getAutoExecQuery (cms.get call.dbname stored)))).map
      fun queryplan => some [(⟨call.dbname, queryplan⟩ : PlanList)]).join = some request := by
    rw [← h]
    simp only [requestFor, planProtocol, hblind]
  cases hplans : call.edit.plans (plansOf call.dbname (getAutoExecQuery (cms.get call.dbname stored))) with
  | none =>
    rw [hplans] at hedit
    cases hedit
  | some plans =>
    rw [hplans] at hedit
    exact ⟨plans, rfl, (Option.some.inj hedit).symm⟩

/-- A write of the list after which the plan is still in it. -/
theorem mem_of_keeps (hcms : AnswersLast cms) {call : Call} {p : Plan} (hkeeps : call.edit.Keeps p) {stored : Stored}
    {request : List PlanList} (h : requestFor (planProtocol hosts cms) call stored = some request)
    (hp : p.withoutPass ∈ (plansOf call.dbname (getAutoExecQuery (cms.get call.dbname stored))).map Plan.withoutPass) :
    p.withoutPass ∈ (plansOf call.dbname (getAutoExecQuery (cms.get call.dbname
      (cms.set call.dbname stored request)))).map Plan.withoutPass := by
  have hidem : ∀ l : List Plan, (l.map Plan.withoutPass).map Plan.withoutPass = l.map Plan.withoutPass := by
    intro l
    rw [List.map_map]
    exact List.map_congr_left fun q _ => rfl
  rw [hcms, hidem]
  cases hblind : call.blind? with
  | none =>
    obtain ⟨plans, hplans, rfl⟩ := requestFor_eq_some hblind h
    have hplansOf : plansOf call.dbname [⟨call.dbname, plans⟩] = plans := by simp [plansOf]
    rw [hplansOf]
    exact mem_plans hplans hp hkeeps
  | some planlist =>
    have hrequest : planlist = request := by
      simp only [requestFor, planProtocol, hblind] at h
      exact Option.some.inj h
    subst hrequest
    unfold Call.blind? at hblind
    split at hblind
    · rename_i planlist' hedit
      obtain rfl := Option.some.inj hblind
      rw [hedit] at hkeeps
      cases planlist' with
      | nil => exact hkeeps
      | cons plans rest =>
        have hplansOf : plansOf call.dbname ((plans :: rest).map fun queryplan => ⟨call.dbname, queryplan⟩) = plans := by
          simp [plansOf]
        rw [hplansOf]
        exact hkeeps
    · cases hblind

end protocol

/-- When all calls have ended, the list that CMS keeps is what the edits that succeeded make of it in some order, each of
which succeeds in its place; and a plan that one of them appended is in the list unless a later one takes it out. -/
theorem plan_edits_serial {Stored : Type} (hosts : String → String → Host) (cms : CmsPlans Stored)
    (hcms : AnswersLast cms) (plans : Host × String → Stored) {as : List (Act Call)} {s : PlanState Stored}
    (hrun : Run (step (planProtocol hosts cms)) (Apart hosts cms) (start plans) as s)
    (hended : ∀ t, s.threads t = .idle ∨ ∃ call result, s.threads t = .done call result) (host : Host)
    (dbname : String) :
    ∃ edits : List (Nat × Call), (edits.map Prod.fst).Nodup ∧
      (∀ t call, (t, call) ∈ edits ↔
        s.threads t = .done call .written ∧ (hosts call.userId call.hostUid, call.dbname) = (host, dbname)) ∧
      s.contents (host, dbname) = (edits.map Prod.snd).foldl
        (performOp (planProtocol hosts cms) (host, dbname)) (plans (host, dbname)) ∧
      ∀ before t call later, edits = before ++ (t, call) :: later →
        (requestFor (planProtocol hosts cms) call ((before.map Prod.snd).foldl
          (performOp (planProtocol hosts cms) (host, dbname)) (plans (host, dbname)))).isSome ∧
        ∀ plan, call.edit = .append plan → (∀ e ∈ later, e.2.edit.Keeps plan) →
          plan.withoutPass ∈
            (plansOf dbname (getAutoExecQuery (cms.get dbname (s.contents (host, dbname))))).map Plan.withoutPass := by
  have hkept := Kept.run (hrun.mono fun _ _ hok => hok.1)
  have hrecorded := Recorded.run hrun
  have hnone := NoneLost.run (fun s a hok t heq => by subst heq; exact hok.2) hrun
  have hdone := hnone.done_iff hrecorded hended
  refine ⟨(writesOf (planProtocol hosts cms) (host, dbname) s.history).map fun w => (w.thread, w.op), ?_, ?_, ?_, ?_⟩
  · rw [List.map_map]
    exact hrecorded.nodup.sublist (List.filter_sublist.map _)
  · intro t call
    rw [hdone, List.mem_map]
    constructor
    · rintro ⟨w, hw, heq⟩
      obtain ⟨rfl, rfl⟩ := Prod.mk.inj heq
      obtain ⟨hmem, hobject⟩ := List.mem_filter.1 hw
      exact ⟨⟨w, hmem, rfl, rfl⟩, of_decide_eq_true hobject⟩
    · rintro ⟨⟨w, hw, rfl, rfl⟩, hobject⟩
      exact ⟨w, List.mem_filter.2 ⟨hw, decide_eq_true hobject⟩, rfl⟩
  · rw [List.map_map]
    exact hkept.serial (host, dbname)
  · intro before t call later heq
    obtain ⟨h₁, h₂', hwrites, rfl, hrest⟩ := List.map_eq_append_iff.1 heq
    obtain ⟨w, h₂, rfl, hw, rfl⟩ := List.map_eq_cons_iff.1 hrest
    obtain ⟨rfl, rfl⟩ := Prod.mk.inj hw
    obtain ⟨hrequest, l₁, l₂, hhistory, rfl⟩ := hkept.serial_some (host, dbname) hwrites
    have hobject : (hosts w.op.userId w.op.hostUid, w.op.dbname) = (host, dbname) := by
      have hmem : w ∈ writesOf (planProtocol hosts cms) (host, dbname) s.history := by
        rw [hwrites]
        exact List.mem_append_right _ List.mem_cons_self
      exact of_decide_eq_true (List.mem_filter.1 hmem).2
    refine ⟨?_, fun plan hplan hkeeps => ?_⟩
    · rw [List.map_map]
      exact Option.isSome_of_eq_some hrequest
    · obtain ⟨rfl, rfl⟩ := Prod.mk.inj hobject
      refine hkept.lasts (Q := fun stored => plan.withoutPass ∈ (plansOf w.op.dbname (getAutoExecQuery
        (cms.get w.op.dbname stored))).map Plan.withoutPass) hhistory ?_ fun w' hw' hobject' stored hrequest' hp => ?_
      · have hmade := hkept.made l₁ w l₂ hhistory
        have hblind : w.op.blind? = none := by rw [Call.blind?, hplan]
        obtain ⟨written, hwritten, hlist⟩ := requestFor_eq_some hblind hmade
        rw [hplan] at hwritten
        have hplans : plansOf w.op.dbname w.request = written := by
          rw [hlist]
          simp [plansOf]
        rw [after_concat, Function.update_self]
        change plan.withoutPass ∈ (plansOf w.op.dbname (getAutoExecQuery (cms.get w.op.dbname
          (cms.set w.op.dbname _ w.request)))).map Plan.withoutPass
        rw [hcms, hplans, List.map_map]
        exact List.mem_map.2 ⟨plan, mem_plans_append hwritten, rfl⟩
      · have hlater : (w'.thread, w'.op) ∈ (writesOf (planProtocol hosts cms)
            (hosts w.op.userId w.op.hostUid, w.op.dbname) l₂).map fun w => (w.thread, w.op) :=
          List.mem_map.2 ⟨w', List.mem_filter.2 ⟨hw', decide_eq_true hobject'⟩, rfl⟩
        have hdbname : w'.op.dbname = w.op.dbname := congrArg Prod.snd hobject'
        change plan.withoutPass ∈ (plansOf w.op.dbname (getAutoExecQuery (cms.get w.op.dbname
          (cms.set w.op.dbname stored w'.request)))).map Plan.withoutPass
        rw [← hdbname] at hp ⊢
        exact mem_of_keeps hcms (hkeeps _ hlater) hrequest' hp

/-- CMS keeps the plans, and for `unknown` the password that it has. -/
def keptPlans : CmsPlans (List Plan) where
  get dbname stored := some [⟨some dbname,
    some (stored.map fun p => ⟨p.queryId, none, some p.username, none, p.period, p.detail, p.queryString⟩)⟩]
  set dbname stored planlist := (plansOf dbname planlist).map fun p =>
    if p.userpass = some cmsUnknownUserpass then
      { p with userpass := (stored.find? fun q => q.queryId = p.queryId).bind Plan.userpass }
    else p

theorem answersLast_keptPlans : AnswersLast keptPlans := by
  intro dbname stored planlist
  have hget : ∀ plans : List Plan,
      plansOf dbname (getAutoExecQuery (keptPlans.get dbname plans)) = plans.map Plan.withoutPass := by
    intro plans
    simp only [keptPlans, getAutoExecQuery, plansOf, Option.getD_some, List.map_cons, List.map_nil, List.find?_cons,
      decide_true, Option.map_some, List.map_map]
    exact List.map_congr_left fun p _ => rfl
  rw [hget]
  simp only [keptPlans, List.map_map]
  refine List.map_congr_left fun p _ => ?_
  simp only [Function.comp_apply]
  split <;> rfl

def oneHost : String → String → Host := fun _ _ => ("10.0.0.1", 8001)

def dailyPlan (queryId : String) : Plan := ⟨queryId, "dba", some "secret", "DAY", "EVERYDAY 12:30", "select 1"⟩

/-- Each user has an id of its own for the host. -/
def appendBy (userId hostUid queryId : String) : Call := ⟨0, userId, hostUid, "demodb", .append (dailyPlan queryId)⟩

/-- The thread goes on as often. -/
def resumes (t n : Nat) : List (Act Call) := List.replicate n (.resume t)

/-- A call from its start until its write is sent, and on to its end. -/
def untilSent (t : Nat) : List (Act Call) := resumes t 3 ++ [.serve t] ++ resumes t 1

def untilDone (t : Nat) : List (Act Call) := [.serve t] ++ resumes t 2

/-- Two users append a plan each, one after the other. -/
theorem plan_edits_serial_two : ∃ s, ∃ edits : List (Nat × Call), Run (step (planProtocol oneHost keptPlans))
      (Apart oneHost keptPlans) (start fun _ => []) ([.call (appendBy "user1" "uid1" "q1"),
        .call (appendBy "user2" "uid2" "q2")] ++ untilSent 0 ++ untilDone 0 ++ untilSent 1 ++ untilDone 1) s ∧
    (1, appendBy "user2" "uid2" "q2") ∈ edits ∧
    s.contents (("10.0.0.1", 8001), "demodb") = [dailyPlan "q1", dailyPlan "q2"] ∧
    s.contents (("10.0.0.1", 8001), "demodb") = (edits.map Prod.snd).foldl
      (performOp (planProtocol oneHost keptPlans) (("10.0.0.1", 8001), "demodb")) [] := by
  obtain ⟨s, hrun, hnext, hfirst, hsecond, hcontents⟩ : ∃ s, Run (step (planProtocol oneHost keptPlans))
      (Apart oneHost keptPlans) (start fun _ => []) ([.call (appendBy "user1" "uid1" "q1"),
        .call (appendBy "user2" "uid2" "q2")] ++ untilSent 0 ++ untilDone 0 ++ untilSent 1 ++ untilDone 1) s ∧
      s.nextThread = 2 ∧ s.threads 0 = .done (appendBy "user1" "uid1" "q1") .written ∧
      s.threads 1 = .done (appendBy "user2" "uid2" "q2") .written ∧
      s.contents (("10.0.0.1", 8001), "demodb") = [dailyPlan "q1", dailyPlan "q2"] := exists_run (by decide)
  have hended : ∀ t, s.threads t = .idle ∨ ∃ call result, s.threads t = .done call result := by
    intro t
    match t with
    | 0 => exact .inr ⟨_, _, hfirst⟩
    | 1 => exact .inr ⟨_, _, hsecond⟩
    | t + 2 => exact .inl ((Queued.run hrun).fresh _ (hnext ▸ Nat.le_add_left 2 t))
  obtain ⟨edits, -, hmem, hserial, -⟩ :=
    plan_edits_serial oneHost keptPlans answersLast_keptPlans _ hrun hended ("10.0.0.1", 8001) "demodb"
  exact ⟨s, edits, hrun, (hmem _ _).2 ⟨hsecond, rfl⟩, hcontents, hserial⟩

/-- Both appends read the empty list, and both succeed; the list has one plan. -/
theorem plan_edits_serial_fails : ∃ s, Run (step (planProtocol oneHost keptPlans)) Always (start fun _ => [])
      ([.call (appendBy "user1" "uid1" "q1"), .call (appendBy "user2" "uid2" "q2")] ++ untilSent 0 ++ untilSent 1 ++
        untilDone 0 ++ untilDone 1) s ∧
    s.threads 0 = .done (appendBy "user1" "uid1" "q1") .written ∧
    s.threads 1 = .done (appendBy "user2" "uid2" "q2") .written ∧
    s.contents (("10.0.0.1", 8001), "demodb") = [dailyPlan "q2"] := exists_run (by decide)

end CubridWebManager.QueryPlan
