import Mathlib.Data.List.Basic

/-!
# Conditional sections

A text of lines with sections `if … elif … else … end`, which may be nested.  `step` goes over the lines with a stack of
the open sections and keeps a line or drops it; `Block.kept` is what the nested text means: of a section only the first
branch whose condition holds is kept, and no condition is looked at behind it or inside a branch that is dropped.

The stack keeps of a nested text what is meant (`Block.run_active`), and what it does not refuse is a nested text, up to
ends of sections that close nothing (`process_eq_ok_iff`).
-/

namespace Conditionals

/-- A line, where `κ` are the conditions and `α` is what stands on the other lines. -/
inductive Line (κ α : Type)
  | item (a : α)
  | opens (c : κ)
  | orIf (c : κ)
  | orElse
  | closes

mutual

/-- A text in which the sections are nested. -/
inductive Block (κ α : Type)
  | nil
  | item (a : α) (rest : Block κ α)
  | opens (c : κ) (body : Block κ α) (branches : Branches κ α) (rest : Block κ α)

/-- What follows the first branch of a section, with its end. -/
inductive Branches (κ α : Type)
  | closes
  | orIf (c : κ) (body : Block κ α) (branches : Branches κ α)
  | orElse (body : Block κ α) (branches : Branches κ α)

end

variable {κ α ε : Type}

mutual

def Block.lines : Block κ α → List (Line κ α)
  | .nil => []
  | .item a rest => .item a :: rest.lines
  | .opens c body branches rest => .opens c :: (body.lines ++ (branches.lines ++ rest.lines))

def Branches.lines : Branches κ α → List (Line κ α)
  | .closes => [.closes]
  | .orIf c body branches => .orIf c :: (body.lines ++ branches.lines)
  | .orElse body branches => .orElse :: (body.lines ++ branches.lines)

end

/-- Nested texts, and between them ends that close nothing. -/
inductive Outer (κ α : Type)
  | last (block : Block κ α)
  | stray (block : Block κ α) (rest : Outer κ α)

def Outer.lines : Outer κ α → List (Line κ α)
  | .last block => block.lines
  | .stray block rest => block.lines ++ .closes :: rest.lines

/-- An open section. -/
structure Frame where
  active : Bool
  taken : Bool
  parentActive : Bool

/-- Every open section is in its active branch. -/
def active (stack : List Frame) : Bool := stack.all Frame.active

/-- How conditions are decided, and what is said of a further branch where no section is open and of a section that is
open at the end. -/
structure Rules (κ ε : Type) where
  holds : κ → Except ε Bool
  unopened : ε
  unclosed : ε

variable (R : Rules κ ε)

/-- A condition that is looked at only where it matters. -/
def Rules.holdsIf (wanted : Bool) (c : κ) : Except ε Bool := if wanted then R.holds c else .ok false

/-- The sections that are open behind a line, and the line itself if it is kept. -/
def step : List Frame → Line κ α → Except ε (List Frame × Option α)
  | stack, .item a => .ok (stack, if active stack then some a else none)
  | stack, .opens c => do
    let v ← R.holdsIf (active stack) c
    .ok (⟨v, v, active stack⟩ :: stack, none)
  | top :: stack, .orIf c => do
    let v ← R.holdsIf (top.parentActive && !top.taken) c
    .ok (⟨v, top.taken || v, top.parentActive⟩ :: stack, none)
  | top :: stack, .orElse => .ok (⟨top.parentActive && !top.taken, true, top.parentActive⟩ :: stack, none)
  | [], .orIf _ => .error R.unopened
  | [], .orElse => .error R.unopened
  | stack, .closes => .ok (stack.tail, none)

def run (stack : List Frame) : List (Line κ α) → Except ε (List Frame × List (Option α))
  | [] => .ok (stack, [])
  | line :: lines => do
    let r ← step R stack line
    let rs ← run r.1 lines
    .ok (rs.1, r.2 :: rs.2)

/-- The whole text, at whose end no section may be open. -/
def process (lines : List (Line κ α)) : Except ε (List (Option α)) := do
  let r ← run R [] lines
  if r.1.isEmpty then .ok r.2 else .error R.unclosed

/-! ### What a nested text means -/

/-- None of the lines is kept. -/
def dropped (lines : List (Line κ α)) : List (Option α) := lines.map fun _ => none

mutual

def Block.kept : Block κ α → Except ε (List (Option α))
  | .nil => .ok []
  | .item a rest => do
    let ks ← rest.kept
    .ok (some a :: ks)
  | .opens c body branches rest => do
    let v ← R.holds c
    let ks ← if v then (· ++ dropped branches.lines) <$> body.kept else (dropped body.lines ++ ·) <$> branches.kept
    let ks' ← rest.kept
    .ok (none :: (ks ++ ks'))

/-- No branch was taken so far. -/
def Branches.kept : Branches κ α → Except ε (List (Option α))
  | .closes => .ok [none]
  | .orIf c body branches => do
    let v ← R.holds c
    let ks ← if v then (· ++ dropped branches.lines) <$> body.kept else (dropped body.lines ++ ·) <$> branches.kept
    .ok (none :: ks)
  | .orElse body branches => do
    let ks ← body.kept
    .ok (none :: (ks ++ dropped branches.lines))

end

def Outer.kept : Outer κ α → Except ε (List (Option α))
  | .last block => block.kept R
  | .stray block rest => do
    let ks ← block.kept R
    let ks' ← rest.kept
    .ok (ks ++ none :: ks')

variable {R}

/-! ### The stack keeps of a nested text what is meant -/

theorem active_cons (f : Frame) (stack : List Frame) : active (f :: stack) = (f.active && active stack) := rfl

theorem run_cons_of_ok {stack stack' : List Frame} {line : Line κ α} {k : Option α}
    (hstep : step R stack line = .ok (stack', k)) (lines : List (Line κ α)) :
    run R stack (line :: lines) = (fun r => (r.1, k :: r.2)) <$> run R stack' lines := by
  rw [run, hstep]
  change (run R stack' lines >>= fun rs => .ok (rs.1, k :: rs.2)) = _
  cases run R stack' lines <;> rfl

theorem run_append (stack : List Frame) (lines lines' : List (Line κ α)) :
    run R stack (lines ++ lines') =
      run R stack lines >>= fun r => (fun r' => (r'.1, r.2 ++ r'.2)) <$> run R r.1 lines' := by
  induction lines generalizing stack with
  | nil =>
    change run R stack lines' = (fun r' => (r'.1, r'.2)) <$> run R stack lines'
    cases run R stack lines' <;> rfl
  | cons line lines ih =>
    rw [List.cons_append, run, run]
    cases step R stack line with
    | error e => rfl
    | ok r =>
      change (run R r.1 (lines ++ lines') >>= fun rs => .ok (rs.1, r.2 :: rs.2)) =
        (run R r.1 lines >>= fun rs => .ok (rs.1, r.2 :: rs.2)) >>= fun r => _
      rw [ih]
      cases run R r.1 lines with
      | error e => rfl
      | ok rs =>
        change ((fun r' => (r'.1, rs.2 ++ r'.2)) <$> run R rs.1 lines' >>= fun rs => .ok (rs.1, r.2 :: rs.2)) =
          (fun r' => (r'.1, r.2 :: rs.2 ++ r'.2)) <$> run R rs.1 lines'
        cases run R rs.1 lines' <;> rfl

theorem run_append_of_ok {stack stack' : List Frame} {lines : List (Line κ α)} {ks : List (Option α)}
    (hlines : run R stack lines = .ok (stack', ks)) (lines' : List (Line κ α)) :
    run R stack (lines ++ lines') = (fun r => (r.1, ks ++ r.2)) <$> run R stack' lines' := by
  rw [run_append, hlines]
  rfl

/-- What the first lines keep is put before what the others do. -/
theorem run_append_of_kept {stack stack' : List Frame} {lines : List (Line κ α)} {kept : Except ε (List (Option α))}
    (hlines : run R stack lines = (fun ks => (stack', ks)) <$> kept) (lines' : List (Line κ α)) :
    run R stack (lines ++ lines') = kept >>= fun ks => (fun r => (r.1, ks ++ r.2)) <$> run R stack' lines' := by
  rw [run_append, hlines]
  cases kept <;> rfl

mutual

theorem Block.run_dropped (block : Block κ α) {stack : List Frame} (hactive : active stack = false) :
    run R stack block.lines = .ok (stack, dropped block.lines) := by
  cases block with
  | nil => rfl
  | item a rest =>
    have hstep : step R stack (.item a) = .ok (stack, none) := by simp [step, hactive]
    rw [Block.lines, run_cons_of_ok hstep, rest.run_dropped hactive]
    rfl
  | opens c body branches rest =>
    have hstep : step R stack (.opens c : Line κ α) = .ok (⟨false, false, false⟩ :: stack, none) := by
      simp [step, Rules.holdsIf, hactive, bind, Except.bind]
    have hbody : active (⟨false, false, false⟩ :: stack) = false := by rw [active_cons, Bool.false_and]
    rw [Block.lines, run_cons_of_ok hstep, run_append_of_ok (body.run_dropped hbody),
      run_append_of_ok (branches.run_dropped rfl), rest.run_dropped hactive]
    simp [dropped]

/-- A branch was taken, or the section stands in what is dropped. -/
theorem Branches.run_dropped (branches : Branches κ α) {top : Frame} {stack : List Frame}
    (hdone : (top.parentActive && !top.taken) = false) :
    run R (top :: stack) branches.lines = .ok (stack, dropped branches.lines) := by
  cases branches with
  | closes => rfl
  | orIf c body branches =>
    have hstep : step R (top :: stack) (.orIf c : Line κ α) =
        .ok (⟨false, top.taken, top.parentActive⟩ :: stack, none) := by
      simp [step, Rules.holdsIf, hdone, bind, Except.bind]
    have hbody : active (⟨false, top.taken, top.parentActive⟩ :: stack) = false := by rw [active_cons, Bool.false_and]
    have hagain : (Frame.parentActive ⟨false, top.taken, top.parentActive⟩ &&
        !Frame.taken ⟨false, top.taken, top.parentActive⟩) = false := hdone
    rw [Branches.lines, run_cons_of_ok hstep, run_append_of_ok (body.run_dropped hbody),
      branches.run_dropped hagain]
    simp [dropped]
  | orElse body branches =>
    have hstep : step R (top :: stack) (.orElse : Line κ α) = .ok (⟨false, true, top.parentActive⟩ :: stack, none) := by
      simp [step, hdone]
    have hbody : active (⟨false, true, top.parentActive⟩ :: stack) = false := by rw [active_cons, Bool.false_and]
    rw [Branches.lines, run_cons_of_ok hstep, run_append_of_ok (body.run_dropped hbody),
      branches.run_dropped (Bool.and_false _)]
    simp [dropped]

end

mutual

theorem Block.run_active (block : Block κ α) {stack : List Frame} (hactive : active stack = true) :
    run R stack block.lines = (fun ks => (stack, ks)) <$> block.kept R := by
  cases block with
  | nil => rfl
  | item a rest =>
    have hstep : step R stack (.item a) = .ok (stack, some a) := by simp [step, hactive]
    rw [Block.lines, run_cons_of_ok hstep, rest.run_active hactive, Block.kept]
    cases rest.kept R <;> rfl
  | opens c body branches rest =>
    rw [Block.lines, Block.kept]
    cases hholds : R.holds c with
    | error e => simp [run, step, Rules.holdsIf, hactive, hholds, bind, Except.bind, Functor.map, Except.map]
    | ok v =>
      have hstep : step R stack (.opens c : Line κ α) = .ok (⟨v, v, true⟩ :: stack, none) := by
        simp [step, Rules.holdsIf, hactive, hholds, bind, Except.bind]
      have hbody : active (⟨v, v, true⟩ :: stack) = v := by rw [active_cons, hactive, Bool.and_true]
      rw [run_cons_of_ok hstep]
      cases v with
      | true =>
        rw [run_append_of_kept (body.run_active hbody)]
        cases body.kept R with
        | error e => rfl
        | ok ks =>
          simp only [bind, Except.bind]
          rw [run_append_of_ok (branches.run_dropped rfl), rest.run_active hactive]
          cases rest.kept R <;> simp [Functor.map, Except.map]
      | false =>
        rw [run_append_of_ok (body.run_dropped hbody),
          run_append_of_kept (branches.run_open rfl hactive.symm hactive), rest.run_active hactive]
        cases branches.kept R with
        | error e => rfl
        | ok ks => cases rest.kept R <;> simp [bind, Except.bind, Functor.map, Except.map]

/-- The section stands in what is kept, and no branch was taken. -/
theorem Branches.run_open (branches : Branches κ α) {top : Frame} {stack : List Frame} (htaken : top.taken = false)
    (hparent : top.parentActive = active stack) (hactive : active stack = true) :
    run R (top :: stack) branches.lines = (fun ks => (stack, ks)) <$> branches.kept R := by
  cases branches with
  | closes => rfl
  | orIf c body branches =>
    rw [Branches.lines, Branches.kept]
    cases hholds : R.holds c with
    | error e =>
      simp [run, step, Rules.holdsIf, htaken, hparent, hactive, hholds, bind, Except.bind, Functor.map, Except.map]
    | ok v =>
      have hstep : step R (top :: stack) (.orIf c : Line κ α) = .ok (⟨v, v, true⟩ :: stack, none) := by
        simp [step, Rules.holdsIf, htaken, hparent, hactive, hholds, bind, Except.bind]
      have hbody : active (⟨v, v, true⟩ :: stack) = v := by rw [active_cons, hactive, Bool.and_true]
      rw [run_cons_of_ok hstep]
      cases v with
      | true =>
        rw [run_append_of_kept (body.run_active hbody)]
        cases body.kept R with
        | error e => rfl
        | ok ks =>
          simp only [bind, Except.bind]
          rw [branches.run_dropped rfl]
          rfl
      | false =>
        rw [run_append_of_ok (body.run_dropped hbody), branches.run_open rfl hactive.symm hactive]
        cases branches.kept R <;> rfl
  | orElse body branches =>
    have hstep : step R (top :: stack) (.orElse : Line κ α) = .ok (⟨true, true, true⟩ :: stack, none) := by
      simp [step, htaken, hparent, hactive]
    have hbody : active (⟨true, true, true⟩ :: stack) = true := by rw [active_cons, hactive, Bool.and_true]
    rw [Branches.lines, Branches.kept, run_cons_of_ok hstep, run_append_of_kept (body.run_active hbody)]
    cases body.kept R with
    | error e => rfl
    | ok ks =>
      simp only [bind, Except.bind]
      rw [branches.run_dropped rfl]
      rfl

end

/-- A line is kept as it is or not at all. -/
theorem eq_item_of_step {stack stack' : List Frame} {line : Line κ α} {k : Option α}
    (h : step R stack line = .ok (stack', k)) : ∀ a ∈ k, line = .item a := by
  cases line with
  | item a' =>
    simp only [step, Except.ok.injEq, Prod.mk.injEq] at h
    intro a ha
    rw [← h.2] at ha
    split at ha
    · rw [Option.mem_some_iff.1 ha]
    · cases ha
  | opens c =>
    rw [step] at h
    cases hv : R.holdsIf (active stack) c with
    | error e =>
      rw [hv] at h
      cases h
    | ok v =>
      rw [hv] at h
      cases h
      simp
  | orIf c =>
    cases stack with
    | nil => cases h
    | cons top stack =>
      rw [step] at h
      cases hv : R.holdsIf (top.parentActive && !top.taken) c with
      | error e =>
        rw [hv] at h
        cases h
      | ok v =>
        rw [hv] at h
        cases h
        simp
  | orElse =>
    cases stack with
    | nil => cases h
    | cons top stack =>
      cases h
      simp
  | closes =>
    cases stack with
    | nil =>
      cases h
      simp
    | cons top stack =>
      cases h
      simp

theorem forall₂_of_run {lines : List (Line κ α)} {stack stack' : List Frame} {ks : List (Option α)}
    (h : run R stack lines = .ok (stack', ks)) : List.Forall₂ (fun line k => ∀ a ∈ k, line = .item a) lines ks := by
  induction lines generalizing stack ks with
  | nil =>
    cases h
    exact .nil
  | cons line lines ih =>
    rw [run] at h
    cases hstep : step R stack line with
    | error e =>
      rw [hstep] at h
      cases h
    | ok r =>
      rw [hstep] at h
      change (run R r.1 lines >>= fun rs => .ok (rs.1, r.2 :: rs.2)) = _ at h
      cases hrun : run R r.1 lines with
      | error e =>
        rw [hrun] at h
        cases h
      | ok rs =>
        rw [hrun] at h
        cases h
        exact .cons (eq_item_of_step hstep) (ih hrun)

/-! ### What is not refused is nested -/

/-- The rest of a text in which so many sections are open. -/
def Completes : Nat → List (Line κ α) → Prop
  | 0, lines => ∃ outer : Outer κ α, lines = outer.lines
  | n + 1, lines => ∃ (body : Block κ α) (branches : Branches κ α) (rest : List (Line κ α)),
      lines = body.lines ++ (branches.lines ++ rest) ∧ Completes n rest

theorem Completes.item {n : Nat} {lines : List (Line κ α)} (a : α) (h : Completes n lines) :
    Completes n (.item a :: lines) := by
  cases n with
  | zero =>
    obtain ⟨outer, rfl⟩ := h
    cases outer with
    | last block => exact ⟨.last (.item a block), rfl⟩
    | stray block rest => exact ⟨.stray (.item a block) rest, rfl⟩
  | succ n =>
    obtain ⟨body, branches, rest, rfl, hrest⟩ := h
    exact ⟨.item a body, branches, rest, rfl, hrest⟩

theorem Completes.opens {n : Nat} {lines : List (Line κ α)} (c : κ) (h : Completes (n + 1) lines) :
    Completes n (.opens c :: lines) := by
  obtain ⟨body, branches, rest, rfl, hrest⟩ := h
  cases n with
  | zero =>
    obtain ⟨outer, rfl⟩ := hrest
    cases outer with
    | last block => exact ⟨.last (.opens c body branches block), rfl⟩
    | stray block rest => exact ⟨.stray (.opens c body branches block) rest, by simp [Outer.lines, Block.lines]⟩
  | succ n =>
    obtain ⟨body', branches', rest', rfl, hrest'⟩ := hrest
    exact ⟨.opens c body branches body', branches', rest', by simp [Block.lines], hrest'⟩

theorem Completes.branch {n : Nat} {lines : List (Line κ α)} (h : Completes (n + 1) lines) :
    (∀ c, Completes (n + 1) (.orIf c :: lines)) ∧ Completes (n + 1) (.orElse :: lines) := by
  obtain ⟨body, branches, rest, rfl, hrest⟩ := h
  constructor
  · intro c
    exact ⟨.nil, .orIf c body branches, rest, by simp [Block.lines, Branches.lines], hrest⟩
  · exact ⟨.nil, .orElse body branches, rest, by simp [Block.lines, Branches.lines], hrest⟩

theorem Completes.closes {n : Nat} {lines : List (Line κ α)} (h : Completes (n - 1) lines) :
    Completes n (.closes :: lines) := by
  cases n with
  | zero =>
    obtain ⟨outer, rfl⟩ := h
    exact ⟨.stray .nil outer, rfl⟩
  | succ n => exact ⟨.nil, .closes, lines, rfl, h⟩

/-- What the stack goes through to its bottom completes the sections on it. -/
theorem completes_of_run {lines : List (Line κ α)} {stack : List Frame} {ks : List (Option α)}
    (h : run R stack lines = .ok ([], ks)) : Completes stack.length lines := by
  induction lines generalizing stack ks with
  | nil =>
    cases h
    exact ⟨.last .nil, rfl⟩
  | cons line lines ih =>
    rw [run] at h
    cases hstep : step R stack line with
    | error e =>
      rw [hstep] at h
      cases h
    | ok r =>
      obtain ⟨stack', k⟩ := r
      rw [hstep] at h
      cases hrun : run R stack' lines with
      | error e =>
        simp only [hrun, bind, Except.bind] at h
        cases h
      | ok rs =>
        obtain ⟨last, ks'⟩ := rs
        simp only [hrun, bind, Except.bind, Except.ok.injEq, Prod.mk.injEq] at h
        obtain rfl := h.1
        have hrest := ih hrun
        cases line with
        | item a =>
          simp only [step, Except.ok.injEq, Prod.mk.injEq] at hstep
          rw [← hstep.1] at hrest
          exact hrest.item a
        | opens c =>
          cases hv : R.holdsIf (active stack) c with
          | error e => simp [step, hv, bind, Except.bind] at hstep
          | ok v =>
            simp only [step, hv, bind, Except.bind, Except.ok.injEq, Prod.mk.injEq] at hstep
            rw [← hstep.1] at hrest
            exact hrest.opens c
        | orIf c =>
          cases stack with
          | nil => cases hstep
          | cons top stack =>
            cases hv : R.holdsIf (top.parentActive && !top.taken) c with
            | error e => simp [step, hv, bind, Except.bind] at hstep
            | ok v =>
              simp only [step, hv, bind, Except.bind, Except.ok.injEq, Prod.mk.injEq] at hstep
              rw [← hstep.1] at hrest
              exact (Completes.branch hrest).1 c
        | orElse =>
          cases stack with
          | nil => cases hstep
          | cons top stack =>
            simp only [step, Except.ok.injEq, Prod.mk.injEq] at hstep
            rw [← hstep.1] at hrest
            exact (Completes.branch hrest).2
        | closes =>
          have htail : stack' = stack.tail := by
            cases stack <;> simp_all [step]
          rw [htail, List.length_tail] at hrest
          exact hrest.closes

theorem run_outer (outer : Outer κ α) : run R [] outer.lines = (fun ks => ([], ks)) <$> outer.kept R := by
  induction outer with
  | last block => exact block.run_active rfl
  | stray block rest ih =>
    have hcloses : step R [] (.closes : Line κ α) = .ok ([], none) := rfl
    rw [Outer.lines, Outer.kept, run_append_of_kept (block.run_active rfl), run_cons_of_ok hcloses, ih]
    cases block.kept R with
    | error e => rfl
    | ok ks => cases rest.kept R <;> rfl

theorem process_outer (outer : Outer κ α) : process R outer.lines = outer.kept R := by
  rw [process, run_outer]
  cases outer.kept R <;> rfl

theorem forall₂_of_process {lines : List (Line κ α)} {ks : List (Option α)} (h : process R lines = .ok ks) :
    List.Forall₂ (fun line k => ∀ a ∈ k, line = .item a) lines ks := by
  unfold process at h
  cases hrun : run R [] lines with
  | error e =>
    rw [hrun] at h
    cases h
  | ok r =>
    obtain ⟨stack, ks'⟩ := r
    cases stack with
    | nil =>
      rw [hrun] at h
      cases h
      exact forall₂_of_run hrun
    | cons top stack =>
      rw [hrun] at h
      cases h

/-- What is not refused is a nested text, of which is kept what is meant. -/
theorem process_eq_ok_iff {lines : List (Line κ α)} {ks : List (Option α)} :
    process R lines = .ok ks ↔ ∃ outer : Outer κ α, lines = outer.lines ∧ outer.kept R = .ok ks := by
  constructor
  · intro h
    have hlines : Completes 0 lines := by
      unfold process at h
      cases hrun : run R [] lines with
      | error e =>
        rw [hrun] at h
        cases h
      | ok r =>
        obtain ⟨stack, ks'⟩ := r
        cases stack with
        | nil => exact completes_of_run hrun
        | cons top stack =>
          rw [hrun] at h
          cases h
    obtain ⟨outer, rfl⟩ := hlines
    exact ⟨outer, rfl, process_outer outer ▸ h⟩
  · rintro ⟨outer, rfl, h⟩
    rw [process_outer, h]

end Conditionals
