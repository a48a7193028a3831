import CubridWebManager.Lifecycle.Service
import Mathlib.Data.List.Perm.Basic

/-!
# The report of a phase

A phase of an action on the selected databases starts or stops them: the HA databases among them one by one, if the list
of the running databases, which is read once more, says that the phase applies to them, and the others by a pool of
workers.  A database that the phase applies to is reported once, as succeeded just when CMS has accepted its request; an
HA database that the second reading rules out is not reported (`PhaseReport`).
-/

namespace CubridWebManager.Lifecycle

open Interaction

/-! ### What a log says -/

abbrev Event := Σ q : Query, Answer q

def Event.callAnswer : Event → Option (Call × Except Thrown Unit)
  | ⟨.calls out, (i, answer)⟩ => some (out[i], answer)
  | _ => none

/-- The names that start-info lists as running, read before the HA requests of the phase. -/
def Event.bulkRead (phase : StartStop) : Event → Option (List DbName)
  | ⟨.startInfo (.haBulk phase'), .ok info⟩ => if phase' = phase then info.active else none
  | _ => none

def Event.selectedInfo : Event → Option StartInfo
  | ⟨.startInfo .selected, .ok info⟩ => some info
  | _ => none

def Event.haList : Event → Option (List DbName)
  | ⟨.haDbNames, .ok haDbNames⟩ => some haDbNames
  | _ => none

section

variable (log : List Event)

def callAnswers : List (Call × Except Thrown Unit) := log.filterMap Event.callAnswer

def bulkReads (phase : StartStop) : List (List DbName) := log.filterMap (Event.bulkRead phase)

def selectedInfos : List StartInfo := log.filterMap Event.selectedInfo

def haLists : List (List DbName) := log.filterMap Event.haList

end

/-- CMS has accepted the start or the stop of the database. -/
def Accepted (phase : StartStop) (dbname : DbName) (log : List Event) : Prop :=
  (haCall phase dbname, .ok ()) ∈ callAnswers log ∨ (nonHaCall phase dbname, .ok ()) ∈ callAnswers log

/-- The databases that are in the report, as often as they are. -/
def BulkDatabaseActionResult.names (r : BulkDatabaseActionResult) : List DbName :=
  r.succeeded ++ (r.failed.map FailedDatabase.dbname ++ r.skipped.map SkippedDatabase.dbname)

/-! ### Outcomes -/

theorem count_names (r : BulkDatabaseActionResult) (d : DbName) :
    r.names.count d = r.succeeded.count d + (r.failed.map FailedDatabase.dbname).count d +
      (r.skipped.map SkippedDatabase.dbname).count d := by
  rw [BulkDatabaseActionResult.names, List.count_append, List.count_append, Nat.add_assoc]

theorem count_names_addOutcome (out : BulkDatabaseActionResult) (o : DbName × Except Thrown Unit) (d : DbName) :
    (addOutcome out o).names.count d = out.names.count d + [o.1].count d := by
  rw [count_names, count_names]
  unfold addOutcome
  split
  · simp only [List.count_append]
    omega
  · split
    · simp only [List.map_append, List.map_cons, List.map_nil, List.count_append]
      omega
    · simp only [List.map_append, List.map_cons, List.map_nil, List.count_append]
      omega

theorem mem_succeeded_addOutcome {out : BulkDatabaseActionResult} {o : DbName × Except Thrown Unit} {d : DbName} :
    d ∈ (addOutcome out o).succeeded ↔ d ∈ out.succeeded ∨ o = (d, .ok ()) := by
  obtain ⟨name, result⟩ := o
  unfold addOutcome
  cases result with
  | ok a => simp [eq_comm]
  | error e =>
    simp only [Prod.mk.injEq, reduceCtorEq, and_false, or_false]
    split <;> exact Iff.rfl

theorem count_names_foldl (results : List (DbName × Except Thrown Unit)) (out : BulkDatabaseActionResult) (d : DbName) :
    (results.foldl addOutcome out).names.count d = out.names.count d + (results.map Prod.fst).count d := by
  induction results generalizing out with
  | nil => rfl
  | cons o results ih =>
    have hcons : (o.1 :: results.map Prod.fst).count d = [o.1].count d + (results.map Prod.fst).count d := by
      rw [← List.count_append, List.singleton_append]
    rw [List.foldl_cons, ih, count_names_addOutcome, List.map_cons, hcons]
    omega

theorem mem_succeeded_foldl {results : List (DbName × Except Thrown Unit)} {out : BulkDatabaseActionResult}
    {d : DbName} :
    d ∈ (results.foldl addOutcome out).succeeded ↔ d ∈ out.succeeded ∨ (d, .ok ()) ∈ results := by
  induction results generalizing out with
  | nil => simp
  | cons o results ih => rw [List.foldl_cons, ih, mem_succeeded_addOutcome, List.mem_cons, or_assoc, eq_comm (a := o)]

/-! ### The pool -/

/-- The list is one of outcomes. -/
theorem exists_outcomes {ε : Type} {results : List (Option (Except ε Unit))}
    (h : ∀ i (hi : i < results.length), ∃ r, results[i] = some r) :
    ∃ rs : List (Except ε Unit), results = rs.map some := by
  induction results with
  | nil => exact ⟨[], rfl⟩
  | cons r results ih =>
    obtain ⟨rs, rfl⟩ := ih fun i hi => h (i + 1) (Nat.succ_lt_succ hi)
    obtain ⟨r', rfl⟩ := h 0 (Nat.succ_pos _)
    exact ⟨r' :: rs, rfl⟩

theorem filterMap_zip {ε : Type} (dbnames : List DbName) (rs : List (Except ε Unit)) :
    ((dbnames.zip (rs.map some)).filterMap fun e => e.2.map (e.1, ·)) = dbnames.zip rs := by
  induction dbnames generalizing rs with
  | nil => rfl
  | cons d dbnames ih => cases rs <;> simp [ih]

/-- A chain of a login check and a request has succeeded just when the request has. -/
theorem ok_iff_of_explains {R ε : Type} {login request : R} {answered : List (R × Except ε Unit)} {r : Except ε Unit}
    (h : Pool.Explains [login, request] answered r) : r = .ok () ↔ (request, .ok ()) ∈ answered := by
  cases r with
  | ok a => exact ⟨fun _ => h request (by simp), fun _ => rfl⟩
  | error e =>
    obtain ⟨earlier, r, rest, hchain, -, hnot⟩ := h
    have hlast : request ∈ r :: rest := by
      have hend : (earlier ++ r :: rest).getLast? = some request := by rw [← hchain]; rfl
      rw [List.getLast?_append_of_ne_nil _ (List.cons_ne_nil _ _)] at hend
      exact List.mem_of_getLast? hend
    simp [hnot request hlast]

section pool

variable {dbnames : List DbName} {call : DbName → Call}

/-- The items of the pool: a login check and a request for each database. -/
def poolItems (dbnames : List DbName) (call : DbName → Call) : List (Call × List Call) :=
  dbnames.map fun dbname => (Call.ensureDbLogin dbname, [call dbname])

theorem distinct_poolItems (hnodup : dbnames.Nodup) (hinj : Function.Injective call)
    (hlogin : ∀ d d', call d ≠ .ensureDbLogin d') : Pool.Distinct (poolItems dbnames call) where
  chain := by
    intro c hc
    obtain ⟨d, -, rfl⟩ := List.mem_map.1 hc
    simpa using (hlogin d d).symm
  disjoint := by
    intro i j c c' hc hc' r hr hr'
    rw [poolItems, List.getElem?_map, Option.map_eq_some_iff] at hc hc'
    obtain ⟨d, hd, rfl⟩ := hc
    obtain ⟨d', hd', rfl⟩ := hc'
    have hsame : d = d' := by
      simp only [List.mem_cons, List.not_mem_nil, or_false] at hr hr'
      rcases hr with rfl | rfl <;> rcases hr' with h | h
      · exact Call.ensureDbLogin.inj h
      · exact absurd h.symm (hlogin d' d)
      · exact absurd h (hlogin d d')
      · exact hinj h
    subst hsame
    exact (List.getElem?_inj (List.getElem?_eq_some_iff.1 hd).1 hnodup).1 (hd.trans hd'.symm)

theorem callAnswers_append (log log' : List Event) : callAnswers (log ++ log') = callAnswers log ++ callAnswers log' :=
  List.filterMap_append

/-- Every event of the log is an answer to a request for one of the databases. -/
def OnlyCalls (dbnames : List DbName) (call : DbName → Call) (log : List Event) : Prop :=
  (∀ e ∈ log, ∃ out, e.1 = .calls out) ∧
    ∀ a ∈ callAnswers log, ∃ d ∈ dbnames, a.1 = .ensureDbLogin d ∨ a.1 = call d

/-- Every database has its outcome, which is success just when CMS has accepted its request. -/
structure PoolReport (dbnames : List DbName) (call : DbName → Call) (results : List (DbName × Except Thrown Unit))
    (log : List Event) : Prop where
  names : results.map Prod.fst = dbnames
  ok : ∀ d, (d, .ok ()) ∈ results ↔ (call d, .ok ()) ∈ callAnswers log
  only : OnlyCalls dbnames call log

theorem mem_poolItems {c : Call × List Call} (hc : c ∈ poolItems dbnames call) :
    ∃ d ∈ dbnames, c = (.ensureDbLogin d, [call d]) := by
  obtain ⟨d, hd, rfl⟩ := List.mem_map.1 hc
  exact ⟨d, hd, rfl⟩

/-- An answer to a request that is out, in the log. -/
theorem callAnswers_snoc {p : Pool Call Thrown} {answer : Fin p.requests.length × Except Thrown Unit}
    {b : Nat × Call × List Call} (hb : p.busy[answer.1.1]? = some b) (log : List Event) :
    callAnswers (log ++ [⟨.calls p.requests, answer⟩]) = callAnswers log ++ [(b.2.1, answer.2)] := by
  have hrequest : p.requests[answer.1.1]? = some b.2.1 := by
    show (p.busy.map fun b => b.2.1)[answer.1.1]? = _
    rw [List.getElem?_map, hb, Option.map_some]
  have hget : p.requests[answer.1.1] = b.2.1 := (List.getElem?_eq_some_iff.1 hrequest).2
  rw [callAnswers_append]
  show callAnswers log ++ [(p.requests[answer.1.1], answer.2)] = _
  rw [hget]

/-- A request that is out is one for a database. -/
theorem OnlyCalls.snoc {p : Pool Call Thrown} {log : List Event} (h : OnlyCalls dbnames call log)
    {answer : Fin p.requests.length × Except Thrown Unit} {b : Nat × Call × List Call}
    (hb : p.busy[answer.1.1]? = some b) (hworking : ∃ c ∈ poolItems dbnames call, b.2.1 ∈ c.1 :: c.2) :
    OnlyCalls dbnames call (log ++ [⟨.calls p.requests, answer⟩]) := by
  constructor
  · intro e he
    rcases List.mem_append.1 he with he | he
    · exact h.1 e he
    · rw [List.mem_singleton.1 he]
      exact ⟨_, rfl⟩
  · intro a ha
    rw [callAnswers_snoc hb] at ha
    rcases List.mem_append.1 ha with ha | ha
    · exact h.2 a ha
    · rw [List.mem_singleton.1 ha]
      obtain ⟨c, hc, hmem⟩ := hworking
      obtain ⟨d, hd, rfl⟩ := mem_poolItems hc
      exact ⟨d, hd, by simpa using hmem⟩

/-- When all items have their outcome. -/
theorem poolReport_of_ok (hinj : Function.Injective call) (hlogin : ∀ d d', call d ≠ .ensureDbLogin d')
    {p : Pool Call Thrown} {log : List Event} (hok : Pool.Ok (poolItems dbnames call) (callAnswers log) p)
    (honly : OnlyCalls dbnames call log) (hbusy : p.busy = []) :
    PoolReport dbnames call ((dbnames.zip p.results).filterMap fun e => e.2.map (e.1, ·)) log := by
  obtain ⟨hlength, hfinal⟩ := hok.final hbusy
  have hitem : ∀ i (hi : i < dbnames.length),
      (poolItems dbnames call)[i]? = some (.ensureDbLogin dbnames[i], [call dbnames[i]]) := by
    intro i hi
    rw [poolItems, List.getElem?_map, List.getElem?_eq_getElem hi]
    rfl
  rw [poolItems, List.length_map] at hlength
  obtain ⟨rs, hrs⟩ : ∃ rs : List (Except Thrown Unit), p.results = rs.map some := by
    refine exists_outcomes fun i hi => ?_
    obtain ⟨r, hr, -⟩ := hfinal i _ (hitem i (hlength ▸ hi))
    rw [List.getElem?_eq_getElem hi] at hr
    exact ⟨r, Option.some.inj hr⟩
  rw [hrs, List.length_map] at hlength
  rw [hrs, filterMap_zip]
  refine ⟨List.map_fst_zip (Nat.le_of_eq hlength.symm), fun d => ?_, honly⟩
  have hat : ∀ i (hi : i < dbnames.length), rs[i]? = some (.ok ()) ↔ (call dbnames[i], .ok ()) ∈ callAnswers log := by
    intro i hi
    obtain ⟨r, hr, hexplains⟩ := hfinal i _ (hitem i hi)
    rw [hrs, List.getElem?_map, Option.map_eq_some_iff] at hr
    obtain ⟨r', hr', heq⟩ := hr
    obtain rfl := Option.some.inj heq
    rw [hr', Option.some.injEq]
    exact ok_iff_of_explains hexplains
  constructor
  · intro hmem
    obtain ⟨i, hi⟩ := List.mem_iff_getElem?.1 hmem
    rw [List.getElem?_zip_eq_some] at hi
    obtain ⟨hlt, rfl⟩ := List.getElem?_eq_some_iff.1 hi.1
    exact (hat i hlt).1 hi.2
  · intro hanswer
    obtain ⟨d', hd', hcall⟩ := honly.2 _ hanswer
    obtain rfl : d = d' := hcall.elim (fun h => absurd h (hlogin d d')) fun h => hinj h
    obtain ⟨i, hlt, rfl⟩ := List.mem_iff_getElem.1 hd'
    refine List.mem_of_getElem? (i := i) ?_
    rw [List.getElem?_zip_eq_some]
    exact ⟨List.getElem?_eq_getElem hlt, (hat i hlt).2 hanswer⟩

theorem runs_mapWithConcurrency (hnodup : dbnames.Nodup) (hinj : Function.Injective call)
    (hlogin : ∀ d d', call d ≠ .ensureDbLogin d') {limit : Nat} {log : List Event}
    {results : List (DbName × Except Thrown Unit)} (h : Runs (mapWithConcurrency dbnames limit call) log results) :
    PoolReport dbnames call results log := by
  have hdistinct := distinct_poolItems hnodup hinj hlogin
  refine h.of_recording ?_
  rw [mapWithConcurrency, meets_bind]
  refine Pool.meets_run
    (fun p s => Pool.Ok (poolItems dbnames call) (callAnswers s) p ∧ OnlyCalls dbnames call s)
    (fun p s hI => hI.1.nodup) ?_ ?_ _ ⟨Pool.ok_start limit _, ?_, ?_⟩ (Nat.le_refl _)
  · rintro p s ⟨hok, honly⟩
    refine ⟨trivial, fun answer _ b hb => ?_⟩
    have hsettled := hok.settle hdistinct hb answer.2
    rw [← callAnswers_snoc hb] at hsettled
    obtain ⟨-, c, hc, earlier, hchain, -, -⟩ := hok.working b (List.mem_of_getElem? hb)
    refine ⟨hsettled, honly.snoc hb ⟨c, List.mem_of_getElem? hc, ?_⟩⟩
    rw [hchain]
    exact List.mem_append_right _ List.mem_cons_self
  · rintro p s ⟨hok, honly⟩ hbusy
    exact poolReport_of_ok hinj hlogin hok honly hbusy
  · intro e he
    cases he
  · intro a ha
    cases ha

end pool

/-! ### The HA databases of a phase -/

theorem bulkReads_append (log log' : List Event) (phase : StartStop) :
    bulkReads (log ++ log') phase = bulkReads log phase ++ bulkReads log' phase := List.filterMap_append

theorem selectedInfos_append (log log' : List Event) :
    selectedInfos (log ++ log') = selectedInfos log ++ selectedInfos log' := List.filterMap_append

theorem haLists_append (log log' : List Event) : haLists (log ++ log') = haLists log ++ haLists log' :=
  List.filterMap_append

theorem bulkReads_of_onlyCalls {log : List Event} (h : ∀ e ∈ log, ∃ out, e.1 = .calls out) (phase : StartStop) :
    bulkReads log phase = [] := by
  refine List.filterMap_eq_nil_iff.2 fun e he => ?_
  obtain ⟨out, hout⟩ := h e he
  obtain ⟨q, a⟩ := e
  obtain rfl : q = .calls out := hout
  rfl

/-- The list of running databases is read, or it is not known. -/
theorem runs_readActiveDbnames {phase : StartStop} {log : List Event} {result : Except Thrown (List DbName)}
    (h : Runs (readActiveDbnames (.haBulk phase)).run log result) :
    (∃ answer, log = [⟨.startInfo (.haBulk phase), answer⟩]) ∧
      ((∃ e, result = .error e ∧ bulkReads log phase = []) ∨
        ∃ active, result = .ok active ∧ bulkReads log phase = [active]) := by
  rw [readActiveDbnames, ExceptT.run_bind, runs_bind] at h
  obtain ⟨l, answer, l', rfl, hread, hrest⟩ := h
  obtain rfl : l = [⟨.startInfo (.haBulk phase), answer⟩] := runs_query.1 hread
  cases answer with
  | error e =>
    obtain ⟨rfl, rfl⟩ := runs_pure.1 hrest
    exact ⟨⟨_, rfl⟩, .inl ⟨e, rfl, rfl⟩⟩
  | ok info =>
    obtain ⟨dblist, active⟩ := info
    cases active with
    | none =>
      obtain ⟨rfl, rfl⟩ := runs_pure.1 hrest
      exact ⟨⟨_, rfl⟩, .inl ⟨_, rfl, by simp [bulkReads, Event.bulkRead]⟩⟩
    | some active =>
      obtain ⟨rfl, rfl⟩ := runs_pure.1 hrest
      exact ⟨⟨_, rfl⟩, .inr ⟨active, rfl, by simp [bulkReads, Event.bulkRead]⟩⟩

/-- What the requests of a phase leave in the log. -/
def IsPhaseEvent (phase : StartStop) (e : Event) : Prop := e.1 = .startInfo (.haBulk phase) ∨ ∃ out, e.1 = .calls out

/-- The HA databases that the phase applies to are reported once, as succeeded just when CMS has accepted their
requests. -/
structure BulkReport (phase : StartStop) (haDbNames : List DbName) (log : List Event) (res : BulkDatabaseActionResult) :
    Prop where
  count : ∀ d, res.names.count d =
    (haDbNames.filter fun d => ∀ active ∈ bulkReads log phase, appliesTo phase active d = true).count d
  succeeded : ∀ d, d ∈ res.succeeded ↔ (haCall phase d, .ok ()) ∈ callAnswers log
  events : ∀ e ∈ log, IsPhaseEvent phase e
  calls : ∀ a ∈ callAnswers log, ∃ d, a.1 = .ensureDbLogin d ∨ a.1 = haCall phase d

theorem haCall_injective (phase : StartStop) : Function.Injective (haCall phase) := by
  intro d d' h
  cases phase
  · exact Call.haStart.inj h
  · exact Call.haStop.inj h

theorem nonHaCall_injective (phase : StartStop) : Function.Injective (nonHaCall phase) := by
  intro d d' h
  cases phase
  · exact Call.startdb.inj h
  · exact Call.stopdb.inj h

theorem haCall_ne_login (phase : StartStop) (d d' : DbName) : haCall phase d ≠ .ensureDbLogin d' := by
  cases phase <;> exact Call.noConfusion

theorem nonHaCall_ne_login (phase : StartStop) (d d' : DbName) : nonHaCall phase d ≠ .ensureDbLogin d' := by
  cases phase <;> exact Call.noConfusion

theorem runs_runHaBulkAction {phase : StartStop} {haDbNames : List DbName} (hnodup : haDbNames.Nodup) {log : List Event}
    {res : BulkDatabaseActionResult} (h : Runs (runHaBulkAction haDbNames phase {} none).run log (.ok res)) :
    BulkReport phase haDbNames log res := by
  unfold runHaBulkAction at h
  split at h
  · rename_i hnil
    obtain ⟨rfl, rfl⟩ := runs_run_pure h
    subst hnil
    exact ⟨fun d => rfl, fun d => by simp [callAnswers], nofun, nofun⟩
  · obtain ⟨l, running, l', rfl, hread, hrest⟩ := runs_run_bind h
    obtain ⟨⟨answer, rfl⟩, hresult⟩ := runs_readActiveDbnames (runs_run_attempt hread)
    have hevent : ∀ e ∈ [(⟨.startInfo (.haBulk phase), answer⟩ : Event)], IsPhaseEvent phase e := by
      intro e he
      rw [List.mem_singleton.1 he]
      exact .inl rfl
    rcases hresult with ⟨e, rfl, hreads⟩ | ⟨active, rfl, hreads⟩
    · obtain ⟨rfl, rfl⟩ := runs_run_pure hrest
      rw [List.append_nil]
      refine ⟨fun d => ?_, fun d => by simp [callAnswers, Event.callAnswer], hevent, fun a ha => ?_⟩
      · rw [hreads, count_names]
        simp [Function.comp_def]
      · simp [callAnswers, Event.callAnswer] at ha
    · obtain ⟨l₁, results, l₂, rfl, hpool, hret⟩ := runs_run_bind hrest
      obtain ⟨rfl, rfl⟩ := runs_run_pure hret
      have hreport := runs_mapWithConcurrency (hnodup.filter _) (haCall_injective phase) (haCall_ne_login phase)
        (runs_run_lift hpool)
      have hreadAnswers : callAnswers [(⟨.startInfo (.haBulk phase), answer⟩ : Event)] = [] := rfl
      rw [List.append_nil]
      refine ⟨fun d => ?_, fun d => ?_, fun e he => ?_, fun a ha => ?_⟩
      · rw [count_names_foldl, hreport.names, bulkReads_append, hreads, bulkReads_of_onlyCalls hreport.only.1]
        simp [BulkDatabaseActionResult.names]
      · rw [mem_succeeded_foldl, hreport.ok, callAnswers_append, hreadAnswers, List.nil_append]
        simp
      · rcases List.mem_append.1 he with he | he
        · exact hevent e he
        · exact .inr (hreport.only.1 e he)
      · rw [callAnswers_append, hreadAnswers, List.nil_append] at ha
        obtain ⟨d, -, hd⟩ := hreport.only.2 a ha
        exact ⟨d, hd⟩

/-! ### A phase -/

/-- The phase applies to the database still, when the running databases are read again. -/
def Kept (phase : StartStop) (haDbNames : List DbName) (log : List Event) (d : DbName) : Prop :=
  d ∈ haDbNames → ∀ active ∈ bulkReads log phase, appliesTo phase active d = true

instance (phase : StartStop) (haDbNames : List DbName) (log : List Event) (d : DbName) :
    Decidable (Kept phase haDbNames log d) := inferInstanceAs (Decidable (_ → _))

/-- Every database that the phase applies to is reported once, as succeeded just when CMS has accepted the request. -/
structure PhaseReport (phase : StartStop) (haDbNames dbs : List DbName) (log : List Event)
    (res : BulkDatabaseActionResult) : Prop where
  count : ∀ d, res.names.count d = (dbs.filter fun d => Kept phase haDbNames log d).count d
  succeeded : ∀ d, d ∈ res.succeeded ↔ Accepted phase d log
  events : ∀ e ∈ log, IsPhaseEvent phase e
  calls : ∀ a ∈ callAnswers log, ∃ d, a.1 = .ensureDbLogin d ∨ a.1 = haCall phase d ∨ a.1 = nonHaCall phase d

theorem haCall_ne_nonHaCall (phase : StartStop) (d d' : DbName) : haCall phase d ≠ nonHaCall phase d' := by
  cases phase <;> exact Call.noConfusion

/-- The members with `p`, which are to have `q`, and the others. -/
theorem perm_filter_filter {α : Type} (p q : α → Bool) (l : List α) :
    ((l.filter p).filter q ++ l.filter fun x => !p x).Perm (l.filter fun x => !p x || q x) := by
  have h := List.filter_append_perm p (l.filter fun x => !p x || q x)
  have hfirst : (l.filter fun x => !p x || q x).filter p = (l.filter p).filter q := by
    rw [List.filter_filter, List.filter_filter]
    refine List.filter_congr fun x _ => ?_
    cases p x <;> cases q x <;> rfl
  have hsecond : ((l.filter fun x => !p x || q x).filter fun x => !p x) = l.filter fun x => !p x := by
    rw [List.filter_filter]
    refine List.filter_congr fun x _ => ?_
    cases p x <;> rfl
  rwa [hfirst, hsecond] at h

theorem runs_runPhase {phase : StartStop} {haDbNames dbs : List DbName} (hnodup : dbs.Nodup) {log : List Event}
    {res : BulkDatabaseActionResult} (h : Runs (runPhase haDbNames phase dbs).run log (.ok res)) :
    PhaseReport phase haDbNames dbs log res := by
  obtain ⟨l, phaseOut, l', rfl, hbulk, hrest⟩ := runs_run_bind h
  obtain ⟨l₁, results, l₂, rfl, hpool, hret⟩ := runs_run_bind hrest
  obtain ⟨rfl, rfl⟩ := runs_run_pure hret
  have hha := runs_runHaBulkAction (hnodup.filter _) hbulk
  have hnonHa := runs_mapWithConcurrency (hnodup.filter _) (nonHaCall_injective phase) (nonHaCall_ne_login phase)
    (runs_run_lift hpool)
  have hhaNone : ∀ d, (nonHaCall phase d, .ok ()) ∉ callAnswers l := by
    intro d hmem
    obtain ⟨d', h | h⟩ := hha.calls _ hmem
    · exact nonHaCall_ne_login phase d d' h
    · exact haCall_ne_nonHaCall phase d' d h.symm
  have hnonHaNone : ∀ d, (haCall phase d, .ok ()) ∉ callAnswers l₁ := by
    intro d hmem
    obtain ⟨d', -, h | h⟩ := hnonHa.only.2 _ hmem
    · exact haCall_ne_login phase d d' h
    · exact haCall_ne_nonHaCall phase d d' h
  rw [List.append_nil]
  refine ⟨fun d => ?_, fun d => ?_, fun e he => ?_, fun a ha => ?_⟩
  · rw [count_names_foldl, hha.count, hnonHa.names, ← List.count_append]
    have hreads : bulkReads (l ++ l₁) phase = bulkReads l phase := by
      rw [bulkReads_append, bulkReads_of_onlyCalls hnonHa.only.1, List.append_nil]
    have hperm := perm_filter_filter (fun d => decide (d ∈ haDbNames))
      (fun d => decide (∀ active ∈ bulkReads l phase, appliesTo phase active d = true)) dbs
    have hkept : (dbs.filter fun d => decide (Kept phase haDbNames (l ++ l₁) d)) =
        dbs.filter fun d => !decide (d ∈ haDbNames) ||
          decide (∀ active ∈ bulkReads l phase, appliesTo phase active d = true) := by
      refine List.filter_congr fun d _ => ?_
      rw [Bool.eq_iff_iff]
      simp only [Kept, hreads, decide_eq_true_eq, Bool.or_eq_true, Bool.not_eq_true', decide_eq_false_iff_not]
      exact imp_iff_not_or
    rw [hkept]
    simpa only [decide_not] using hperm.count_eq d
  · rw [mem_succeeded_foldl, hha.succeeded, hnonHa.ok, Accepted, callAnswers_append, List.mem_append, List.mem_append]
    simp [hhaNone, hnonHaNone]
  · rcases List.mem_append.1 he with he | he
    · exact hha.events e he
    · exact .inr (hnonHa.only.1 e he)
  · rw [callAnswers_append] at ha
    rcases List.mem_append.1 ha with ha | ha
    · obtain ⟨d, hd⟩ := hha.calls a ha
      exact ⟨d, hd.imp id .inl⟩
    · obtain ⟨d, -, hd⟩ := hnonHa.only.2 a ha
      exact ⟨d, hd.imp id .inr⟩

end CubridWebManager.Lifecycle
