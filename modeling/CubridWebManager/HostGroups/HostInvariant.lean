import CubridWebManager.HostGroups.Invariant

/-!
# Every record keeps the host invariant

From a fresh server on, as long as no call is given the name of a property that every object inherits, every stored
record satisfies `HostsOk` (`hosts_ok`).  That a call which throws leaves all records as they are holds in every state.
Where such a name is given, a host can be lost (`hosts_ok_fails`).
-/

namespace CubridWebManager.HostGroups

open JsObject Transition

structure Server.Ok (s : Server) : Prop where
  unassigned : s.assigned = []
  users : ∀ id user, s.users.get? id = some user → HostsOk user

/-- The condition on the calls of a run. -/
def PlainCall (_ : Server) : Act → Prop
  | .register _ => True
  | .call _ c => c.Plain

instance (s : Server) (a : Act) : Decidable (PlainCall s a) := by
  unfold PlainCall
  split <;> infer_instance

section server

variable {letter : Char → Bool} {s s' : Server} {id : String} {c : Call} {result : Except HostError Unit}

/-- What a call has done: there is no such user, or the record was read and, if the modifier did not throw, replaced. -/
theorem run_cases (h : run letter s id c = some (result, s')) :
    s.users.get? id = none ∧ result = .error (.userNotFound id) ∧ s' = s ∨
    ∃ user, s.users.get? id = some user ∧ c.drawn?.all user.unused = true ∧
      s'.assigned = s.assigned ++ (c.modify letter user).assigned ∧
      ((∃ e, (c.modify letter user).result = .error e ∧ result = .error e ∧ s'.users = s.users) ∨
        ∃ user', (c.modify letter user).result = .ok user' ∧ result = .ok () ∧ s'.users = s.users.set id user') := by
  unfold run at h
  split at h
  · rename_i hdrawn
    unfold atomicUpdateUser at h
    cases hget : s.users.get? id with
    | none =>
      rw [hget] at h
      obtain ⟨rfl, rfl⟩ := Prod.mk.inj (Option.some.inj h)
      exact .inl ⟨rfl, rfl, rfl⟩
    | some user =>
      rw [hget] at h
      rw [hget, Option.all_some] at hdrawn
      refine .inr ⟨user, rfl, hdrawn.2, ?_⟩
      simp only at h
      cases hresult : (c.modify letter user).result with
      | error e =>
        rw [hresult] at h
        obtain ⟨rfl, rfl⟩ := Prod.mk.inj (Option.some.inj h)
        exact ⟨rfl, .inl ⟨e, rfl, rfl, rfl⟩⟩
      | ok user' =>
        rw [hresult] at h
        obtain ⟨rfl, rfl⟩ := Prod.mk.inj (Option.some.inj h)
        exact ⟨rfl, .inr ⟨user', rfl, rfl, rfl⟩⟩
  · cases h

/-- A call that throws leaves every stored record as it is. -/
theorem run_throws {e : HostError} (h : run letter s id c = some (.error e, s')) : s'.users = s.users := by
  rcases run_cases h with ⟨-, -, rfl⟩ | ⟨user, -, -, -, ⟨e', -, -, husers⟩ | ⟨user', -, hresult, -⟩⟩
  · rfl
  · exact husers
  · cases hresult

/-- The record of a new user. -/
theorem HostsOk.new : HostsOk ⟨some .empty⟩ := by
  have hregistered : registered ⟨some .empty⟩ = [] := rfl
  refine ⟨?_, Nat.zero_le _, fun gid group hget => ?_⟩
  · rw [hregistered]
    exact ⟨fun e he => absurd he List.not_mem_nil, List.Pairwise.nil⟩
  · have hmem : (gid, group) ∈ [] := Dict.get?_eq_some_iff.1 hget
    cases hmem

theorem Server.Ok.set {user : User} (h : s.Ok) (huser : HostsOk user) : Server.Ok ⟨s.users.set id user, []⟩ := by
  refine ⟨rfl, fun id' user' hget => ?_⟩
  rw [Dict.get?_set] at hget
  split at hget
  · exact Option.some.inj hget ▸ huser
  · exact h.users id' user' hget

theorem Server.Ok.run (h : s.Ok) (hplain : c.Plain) (hrun : run letter s id c = some (result, s')) : s'.Ok := by
  rcases run_cases hrun with ⟨-, -, rfl⟩ | ⟨user, hget, hdrawn, hassigned, hcases⟩
  · exact h
  · obtain ⟨hnone, hkeeps⟩ := modify_keeps (h.users id user hget) letter hplain hdrawn
    rw [h.unassigned, hnone, List.append_nil] at hassigned
    obtain ⟨users, assigned⟩ := s'
    obtain rfl : assigned = [] := hassigned
    rcases hcases with ⟨e, -, -, husers⟩ | ⟨user', hresult, -, husers⟩
    · obtain rfl : users = s.users := husers
      exact ⟨rfl, h.users⟩
    · obtain rfl : users = s.users.set id user' := husers
      exact h.set (hkeeps user' hresult)

theorem Server.Ok.step {a : Act} (h : s.Ok) (hplain : PlainCall s a) (hstep : step letter s a = some s') : s'.Ok := by
  cases a with
  | register id =>
    simp only [HostGroups.step] at hstep
    split at hstep
    · obtain rfl := Option.some.inj hstep
      exact h
    · obtain rfl := Option.some.inj hstep
      obtain ⟨users, assigned⟩ := s
      obtain rfl : assigned = [] := h.unassigned
      exact h.set .new
  | call id c =>
    obtain ⟨⟨result, s₁⟩, hrun, rfl⟩ := Option.map_eq_some_iff.1 hstep
    exact h.run hplain hrun

theorem Server.Ok.fresh : Server.fresh.Ok := ⟨rfl, nofun⟩

end server

/-- Every record that is reached keeps the invariant; a call that then throws leaves every record as it is, and a move
that succeeds permutes the registered hosts of the record. -/
theorem hosts_ok (letter : Char → Bool) {as : List Act} {s : Server}
    (hrun : Run (step letter) PlainCall Server.fresh as s) :
    (∀ id user, s.users.get? id = some user → HostsOk user) ∧
    ∀ id c result s', run letter s id c = some (result, s') →
      (∀ e, result = .error e → s'.users = s.users) ∧
      ∀ hostUid targetGroupId, c = .moveHost hostUid targetGroupId → c.Plain → result = .ok () →
        ∃ user user', s.users.get? id = some user ∧ s'.users = s.users.set id user' ∧
          (registered user').Perm (registered user) := by
  have hok : s.Ok := hrun.invariant (fun _ _ _ h hplain hstep => h.step hplain hstep) .fresh
  refine ⟨hok.users, fun id c result s' hcall => ⟨?_, ?_⟩⟩
  · rintro e rfl
    exact run_throws hcall
  · rintro hostUid targetGroupId rfl ⟨hhost, htarget⟩ rfl
    rcases run_cases hcall with ⟨-, hfalse, -⟩ | ⟨user, hget, -, -, ⟨e, -, hfalse, -⟩ | ⟨user', hresult, -, husers⟩⟩
    · cases hfalse
    · cases hfalse
    · have hmoved := moveHost_keeps (hok.users id user hget) hhost htarget
      exact ⟨user, user', hget, husers, (hmoved.2 user' hresult).2⟩

/-- A user with a host in a group. -/
def groupedHost : List Act :=
  [.register "user1", .call "user1" (.createHostGroup "Servers".toList "group" "2024-01-01"),
    .call "user1" (.addHost ⟨"10.0.0.1", 8001, "admin", "secret", some "first".toList, some "group"⟩ "host1")]

/-- A second host is added, to no group of its own. -/
def twoHosts : List Act :=
  groupedHost ++
    [.call "user1" (.addHost ⟨"10.0.0.2", 8001, "admin", "secret", some "second".toList, none⟩ "host2")]

/-- The first host is moved to the second. -/
theorem hosts_ok_moved : ∃ s s' user user', Run (step Char.isAlphanum) PlainCall Server.fresh twoHosts s ∧
    s.users.get? "user1" = some user ∧ HostsOk user ∧ (registered user).length = 2 ∧
    run Char.isAlphanum s "user1" (.moveHost "host1" "__ungrouped__") = some (.ok (), s') ∧
    s'.users = s.users.set "user1" user' ∧ (registered user').Perm (registered user) := by
  have hexists : ∃ s, Run (step Char.isAlphanum) PlainCall Server.fresh twoHosts s ∧
      ((s.users.get? "user1").any fun user : User => decide ((registered user).length = 2)) = true ∧
      ((run Char.isAlphanum s "user1" (.moveHost "host1" "__ungrouped__")).any
        fun r : Except HostError Unit × Server => r.1.isOk) = true := exists_run (by decide)
  obtain ⟨s, hrun, huser, hmove⟩ := hexists
  obtain ⟨user, huser, hlength⟩ := (Option.any_eq_true _ _).1 huser
  obtain ⟨⟨result, s'⟩, hmove, hresult⟩ := (Option.any_eq_true _ _).1 hmove
  cases result with
  | error e => cases hresult
  | ok _ =>
    obtain ⟨husers, hcalls⟩ := hosts_ok Char.isAlphanum hrun
    obtain ⟨user₁, user', huser₁, hset, hperm⟩ := (hcalls _ _ _ _ hmove).2 _ _ rfl (by decide) rfl
    obtain rfl := Option.some.inj (huser.symm.trans huser₁)
    exact ⟨s, s', user, user', hrun, huser, husers _ _ huser, of_decide_eq_true hlength, hmove, hset, hperm⟩

/-- A host that is moved to the group `__proto__` is in no group any more, and every object inherits it. -/
theorem hosts_ok_fails : ∃ s s' user user', Run (step Char.isAlphanum) Always Server.fresh twoHosts s ∧
    s.users.get? "user1" = some user ∧ (∃ host, ("host1", host) ∈ registered user) ∧
    run Char.isAlphanum s "user1" (.moveHost "host1" "__proto__") = some (.ok (), s') ∧
    s'.users.get? "user1" = some user' ∧ (∀ host, ("host1", host) ∉ registered user') ∧
    s'.assigned = [(.prototype, "hosts"), (.prototype, "defaultHostUid")] := by
  have hexists : ∃ s, Run (step Char.isAlphanum) Always Server.fresh twoHosts s ∧
      ((s.users.get? "user1").any fun user : User => (registered user).any fun e => decide (e.1 = "host1")) = true ∧
      ((run Char.isAlphanum s "user1" (.moveHost "host1" "__proto__")).any
        fun r : Except HostError Unit × Server => r.1.isOk &&
          ((r.2.users.get? "user1").any fun user' : User => (registered user').all fun e => decide (e.1 ≠ "host1")) &&
          decide (r.2.assigned = [(.prototype, "hosts"), (.prototype, "defaultHostUid")])) = true :=
    exists_run (by decide)
  obtain ⟨s, hrun, huser, hmove⟩ := hexists
  obtain ⟨user, huser, hmem⟩ := (Option.any_eq_true _ _).1 huser
  obtain ⟨⟨uid, host⟩, hmem, huid⟩ := List.any_eq_true.1 hmem
  obtain rfl : uid = "host1" := of_decide_eq_true huid
  obtain ⟨⟨result, s'⟩, hmove, hafter⟩ := (Option.any_eq_true _ _).1 hmove
  simp only [Bool.and_eq_true, Option.any_eq_true, List.all_eq_true, decide_eq_true_eq] at hafter
  obtain ⟨⟨hresult, user', huser', hlost⟩, hassigned⟩ := hafter
  cases result with
  | error e => cases hresult
  | ok _ =>
    exact ⟨s, s', user, user', hrun, huser, ⟨host, hmem⟩, hmove, huser', fun host hhost => hlost _ hhost rfl, hassigned⟩

end CubridWebManager.HostGroups
