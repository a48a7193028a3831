import Mathlib.Init

/-!
# Programs that ask their environment

An `Interaction Q A α` is a program that makes requests `q : Q` one at a time, goes on with the answers in `A q`, and
returns an `α`.  `Runs` are its runs against any environment, with the log of the requests and their answers.

`Meets C Post p s` is the weakest precondition of `p` under a contract `C`: from the state `s` every request is one that
the contract allows, as long as the answers are ones that it admits, and what is returned satisfies `Post`.  A program is
taken apart with `meets_bind`, and a contract that follows the log says what every run returns (`Runs.of_meets`).
-/

/-- A program with requests in `Q`, answered in `A`. -/
inductive Interaction (Q : Type) (A : Q → Type) (α : Type)
  | ret (a : α)
  | ask (q : Q) (k : A q → Interaction Q A α)

namespace Interaction

variable {Q : Type} {A : Q → Type} {σ ε α β : Type}

def bind (p : Interaction Q A α) (f : α → Interaction Q A β) : Interaction Q A β :=
  match p with
  | .ret a => f a
  | .ask q k => .ask q fun a => (k a).bind f

instance : Monad (Interaction Q A) where
  pure := .ret
  bind := bind

/-- The program that makes one request and returns the answer. -/
def query (q : Q) : Interaction Q A (A q) := .ask q .ret

/-- The requests of a run, with their answers. -/
abbrev Log (Q : Type) (A : Q → Type) := List (Σ q, A q)

/-- The program makes the requests of the log, is answered as in the log, and returns. -/
inductive Runs : Interaction Q A α → Log Q A → α → Prop
  | ret (a : α) : Runs (.ret a) [] a
  | ask {q : Q} {k : A q → Interaction Q A α} {a : A q} {log : Log Q A} {r : α} (h : Runs (k a) log r) :
      Runs (.ask q k) (⟨q, a⟩ :: log) r

section Runs

variable {log : Log Q A} {p : Interaction Q A α} {f : α → Interaction Q A β}

theorem runs_pure {a r : α} : Runs (pure a : Interaction Q A α) log r ↔ log = [] ∧ r = a := by
  constructor
  · rintro ⟨⟩
    exact ⟨rfl, rfl⟩
  · rintro ⟨rfl, rfl⟩
    exact .ret _

theorem runs_query {q : Q} {r : A q} : Runs (query q) log r ↔ log = [⟨q, r⟩] := by
  constructor
  · rintro (_ | h)
    cases h
    rfl
  · rintro rfl
    exact .ask (.ret r)

theorem runs_bind {r : β} :
    Runs (p >>= f) log r ↔ ∃ l a l', log = l ++ l' ∧ Runs p l a ∧ Runs (f a) l' r := by
  constructor
  · intro h
    induction p generalizing log with
    | ret a => exact ⟨[], a, log, rfl, .ret a, h⟩
    | ask q k ih =>
      obtain _ | hrest := h
      obtain ⟨l, a, l', rfl, hp, hf⟩ := ih _ hrest
      exact ⟨_ :: l, a, l', rfl, .ask hp, hf⟩
  · rintro ⟨l, a, l', rfl, hp, hf⟩
    induction hp with
    | ret a => exact hf
    | ask _ ih => exact .ask (ih hf)

end Runs

/-! ### Contracts -/

/-- What a program may ask, what it can be answered, and what follows the two. -/
structure Contract (Q : Type) (A : Q → Type) (σ : Type) where
  allowed : σ → Q → Prop
  admits : σ → (q : Q) → A q → Prop
  next : σ → (q : Q) → A q → σ

/-- The program keeps to the contract, and returns what satisfies `Post`. -/
def Meets (C : Contract Q A σ) (Post : α → σ → Prop) : Interaction Q A α → σ → Prop
  | .ret a, s => Post a s
  | .ask q k, s => C.allowed s q ∧ ∀ a, C.admits s q a → Meets C Post (k a) (C.next s q a)

section Meets

variable {C : Contract Q A σ} {s : σ}

theorem meets_bind {Post : β → σ → Prop} (p : Interaction Q A α) (f : α → Interaction Q A β) :
    Meets C Post (p >>= f) s ↔ Meets C (fun a s' => Meets C Post (f a) s') p s := by
  induction p generalizing s with
  | ret a => exact Iff.rfl
  | ask q k ih => exact and_congr_right fun _ => forall_congr' fun a => imp_congr_right fun _ => ih a

theorem Meets.mono {Post Post' : α → σ → Prop} {p : Interaction Q A α} (h : Meets C Post p s)
    (himp : ∀ a s', Post a s' → Post' a s') : Meets C Post' p s := by
  induction p generalizing s with
  | ret a => exact himp a s h
  | ask q k ih => exact ⟨h.1, fun a ha => ih a (h.2 a ha)⟩

end Meets

/-! ### Exceptions -/

section Except

/-- The outcome of a program as a value: it does not throw. -/
def attempt (p : ExceptT ε (Interaction Q A) α) : ExceptT ε (Interaction Q A) (Except ε α) :=
  ExceptT.mk (p.run >>= fun r => pure (.ok r))

section Runs

variable {log : Log Q A}

theorem runs_run_bind {p : ExceptT ε (Interaction Q A) α} {f : α → ExceptT ε (Interaction Q A) β} {b : β}
    (h : Runs (p >>= f).run log (.ok b)) :
    ∃ l a l', log = l ++ l' ∧ Runs p.run l (.ok a) ∧ Runs (f a).run l' (.ok b) := by
  rw [ExceptT.run_bind, runs_bind] at h
  obtain ⟨l, r, l', hlog, hp, hf⟩ := h
  cases r with
  | ok a => exact ⟨l, a, l', hlog, hp, hf⟩
  | error e => cases hf

theorem runs_run_pure {a b : α} (h : Runs (pure a : ExceptT ε (Interaction Q A) α).run log (.ok b)) : log = [] ∧ b = a :=
  (runs_pure.1 h).imp id fun heq => Except.ok.inj heq

theorem not_runs_throw {e : ε} {a : α} : ¬ Runs (throw e : ExceptT ε (Interaction Q A) α).run log (.ok a) := nofun

theorem runs_run_lift {p : Interaction Q A α} {a : α}
    (h : Runs (ExceptT.lift p : ExceptT ε (Interaction Q A) α).run log (.ok a)) : Runs p log a := by
  have hlift : (ExceptT.lift p : ExceptT ε (Interaction Q A) α).run = p >>= fun a => pure (.ok a) := rfl
  rw [hlift, runs_bind] at h
  obtain ⟨l, a', l', rfl, hp, hret⟩ := h
  obtain ⟨rfl, heq⟩ := runs_pure.1 hret
  rw [List.append_nil, Except.ok.inj heq]
  exact hp

theorem runs_run_attempt {p : ExceptT ε (Interaction Q A) α} {r : Except ε α} (h : Runs (attempt p).run log (.ok r)) :
    Runs p.run log r := by
  obtain ⟨l, r', l', rfl, hp, hret⟩ := runs_bind.1 h
  obtain ⟨rfl, heq⟩ := runs_pure.1 hret
  rw [List.append_nil, Except.ok.inj heq]
  exact hp

end Runs

end Except

/-! ### What runs return -/

/-- Every request of the log is answered as the contract admits. -/
def Admitted (C : Contract Q A σ) : σ → Log Q A → Prop
  | _, [] => True
  | s, ⟨q, a⟩ :: log => C.admits s q a ∧ Admitted C (C.next s q a) log

/-- The state of the contract after the log. -/
def Contract.after (C : Contract Q A σ) (s : σ) (log : Log Q A) : σ := log.foldl (fun s e => C.next s e.1 e.2) s

theorem Runs.of_meets {C : Contract Q A σ} {Post : α → σ → Prop} {p : Interaction Q A α} {s : σ} {log : Log Q A} {r : α}
    (h : Runs p log r) (hmeets : Meets C Post p s) (hadmitted : Admitted C s log) : Post r (C.after s log) := by
  induction h generalizing s with
  | ret a => exact hmeets
  | ask _ ih => exact ih (hmeets.2 _ hadmitted.1) hadmitted.2

/-- The contract that records the log and asks for nothing. -/
def recording : Contract Q A (Log Q A) where
  allowed _ _ := True
  admits _ _ _ := True
  next s q a := s ++ [⟨q, a⟩]

theorem after_recording (s log : Log Q A) : recording.after s log = s ++ log := by
  induction log generalizing s with
  | nil => exact (List.append_nil s).symm
  | cons e log ih => exact (ih _).trans (by simp [recording])

theorem admitted_recording (s log : Log Q A) : Admitted recording s log := by
  induction log generalizing s with
  | nil => trivial
  | cons e log ih => exact ⟨trivial, ih _⟩

/-- What holds of every run by its log. -/
theorem Runs.of_recording {Post : α → Log Q A → Prop} {p : Interaction Q A α} {log : Log Q A} {r : α}
    (h : Runs p log r) (hmeets : Meets recording Post p []) : Post r log := by
  have hpost := h.of_meets hmeets (admitted_recording [] log)
  rwa [after_recording, List.nil_append] at hpost

end Interaction
