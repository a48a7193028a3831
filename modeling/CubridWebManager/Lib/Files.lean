import CubridWebManager.Lib.Dict

/-!
# A directory tree as calls of a process see it

A `Files` maps names to files.  Writing a file takes two steps: `truncate` makes the file, or empties the one that is there,
and `write` fills it; in between its content cannot be read (`none`).  A writer holds on to the file itself and not to
its name: `write` fills the file that was opened wherever it is now, and has no effect once the file is deleted, even if
there is another one of the same name.  `rename` and `unlink` change names at one moment.
-/

/-- A file, with the number that tells it from all others; its content is `none` from `truncate` to `write`. -/
structure File (α : Type*) where
  inode : Nat
  content : Option α
  deriving DecidableEq

structure Files (κ α : Type*) where
  entries : Dict κ (File α)
  nextInode : Nat

namespace Files

variable {κ α : Type*} [DecidableEq κ]

def empty : Files κ α := ⟨Dict.empty, 0⟩

def get? (fs : Files κ α) (k : κ) : Option (File α) := fs.entries.get? k

/-- The file that `truncate` would give. -/
def inodeOf (fs : Files κ α) (k : κ) : Nat := (fs.get? k).elim fs.nextInode File.inode

def truncate (fs : Files κ α) (k : κ) : Files κ α where
  entries := fs.entries.set k ⟨fs.inodeOf k, none⟩
  nextInode := max fs.nextInode (fs.inodeOf k + 1)

/-- The file takes its content. -/
def fill (inode : Nat) (content : α) (f : File α) : File α :=
  if f.inode = inode then { f with content := some content } else f

def write (fs : Files κ α) (inode : Nat) (content : α) : Files κ α :=
  { fs with entries := fs.entries.map (fill inode content) }

def unlink (fs : Files κ α) (k : κ) : Files κ α := { fs with entries := fs.entries.erase k }

/-- Nothing is renamed where there is no file. -/
def rename (fs : Files κ α) (k k' : κ) : Files κ α :=
  match fs.get? k with
  | none => fs
  | some f => { fs with entries := (fs.entries.erase k).set k' f }

/-- The names that `p` selects. -/
def names (fs : Files κ α) (p : κ → Bool) : List κ := fs.entries.keys.filter p

variable {fs : Files κ α} {k k' : κ} {f : File α} {inode : Nat} {content : α}

theorem get?_truncate (k k' : κ) :
    (fs.truncate k).get? k' = if k' = k then some ⟨fs.inodeOf k, none⟩ else fs.get? k' := Dict.get?_set _ _ _ _

theorem get?_write (k : κ) : (fs.write inode content).get? k = (fs.get? k).map (fill inode content) :=
  Dict.get?_map _ _ _

theorem get?_unlink (k k' : κ) : (fs.unlink k).get? k' = if k' = k then none else fs.get? k' := Dict.get?_erase _ _ _

theorem get?_rename (h : fs.get? k = some f) (k'' : κ) :
    (fs.rename k k').get? k'' = if k'' = k' then some f else if k'' = k then none else fs.get? k'' := by
  unfold rename
  rw [h]
  exact (Dict.get?_set _ _ _ _).trans (by rw [Dict.get?_erase]; rfl)

theorem rename_of_none (h : fs.get? k = none) : fs.rename k k' = fs := by
  unfold rename
  rw [h]

theorem mem_names {p : κ → Bool} : k ∈ fs.names p ↔ (∃ f, fs.get? k = some f) ∧ p k = true := by
  rw [names, List.mem_filter, Dict.mem_keys]
  rfl

@[simp] theorem fill_inode (f : File α) : (fill inode content f).inode = f.inode := by
  unfold fill
  split <;> rfl

/-! ### Files and their numbers -/

/-- Every file has one name, and every file has a number that was given out. -/
structure Ok (fs : Files κ α) : Prop where
  lt : ∀ k f, fs.get? k = some f → f.inode < fs.nextInode
  inj : ∀ k k' f f', fs.get? k = some f → fs.get? k' = some f' → f.inode = f'.inode → k = k'

theorem Ok.empty : Ok (Files.empty : Files κ α) := ⟨nofun, nofun⟩

theorem Ok.unlink (h : Ok fs) (k : κ) : Ok (fs.unlink k) := by
  have hold : ∀ k' f, (fs.unlink k).get? k' = some f → fs.get? k' = some f := by
    intro k' f hf
    rw [get?_unlink] at hf
    split at hf
    · cases hf
    · exact hf
  exact ⟨fun k' f hf => h.lt k' f (hold k' f hf),
    fun k₁ k₂ f₁ f₂ h₁ h₂ => h.inj k₁ k₂ f₁ f₂ (hold k₁ f₁ h₁) (hold k₂ f₂ h₂)⟩

theorem Ok.write (h : Ok fs) (inode : Nat) (content : α) : Ok (fs.write inode content) := by
  have hold : ∀ k f, (fs.write inode content).get? k = some f → ∃ f₀, fs.get? k = some f₀ ∧ f₀.inode = f.inode := by
    intro k f hf
    rw [get?_write, Option.map_eq_some_iff] at hf
    obtain ⟨f₀, h₀, rfl⟩ := hf
    exact ⟨f₀, h₀, (fill_inode f₀).symm⟩
  refine ⟨fun k f hf => ?_, fun k₁ k₂ f₁ f₂ h₁ h₂ heq => ?_⟩
  · obtain ⟨f₀, h₀, hi⟩ := hold k f hf
    rw [← hi]
    exact h.lt k f₀ h₀
  · obtain ⟨g₁, hg₁, hi₁⟩ := hold k₁ f₁ h₁
    obtain ⟨g₂, hg₂, hi₂⟩ := hold k₂ f₂ h₂
    exact h.inj k₁ k₂ g₁ g₂ hg₁ hg₂ (hi₁.trans (heq.trans hi₂.symm))

theorem inodeOf_eq (h : Ok fs) (k : κ) (hk' : fs.get? k' = some f) (hi : f.inode = fs.inodeOf k) : k' = k := by
  unfold inodeOf at hi
  cases hk : fs.get? k with
  | none =>
    rw [hk] at hi
    exact absurd hi (Nat.ne_of_lt (h.lt k' f hk'))
  | some g =>
    rw [hk] at hi
    exact h.inj k' k f g hk' hk hi

theorem Ok.truncate (h : Ok fs) (k : κ) : Ok (fs.truncate k) := by
  have hlt : ∀ k' f, (fs.truncate k).get? k' = some f → f.inode < (fs.truncate k).nextInode := by
    intro k' f hf
    rw [get?_truncate] at hf
    split at hf
    · obtain rfl := Option.some.inj hf
      exact Nat.lt_of_lt_of_le (Nat.lt_succ_self _) (Nat.le_max_right _ _)
    · exact Nat.lt_of_lt_of_le (h.lt k' f hf) (Nat.le_max_left _ _)
  refine ⟨hlt, fun k₁ k₂ f₁ f₂ h₁ h₂ heq => ?_⟩
  rw [get?_truncate] at h₁ h₂
  split at h₁ <;> split at h₂
  · rename_i hk₁ hk₂
    rw [hk₁, hk₂]
  · rename_i hk₁ _
    obtain rfl := Option.some.inj h₁
    rw [hk₁]
    exact (inodeOf_eq h k h₂ heq.symm).symm
  · rename_i _ hk₂
    obtain rfl := Option.some.inj h₂
    rw [hk₂]
    exact inodeOf_eq h k h₁ heq
  · exact h.inj k₁ k₂ f₁ f₂ h₁ h₂ heq

theorem Ok.rename (h : Ok fs) (k k' : κ) : Ok (fs.rename k k') := by
  cases hk : fs.get? k with
  | none => rwa [rename_of_none hk]
  | some g =>
    have hold : ∀ k'' f, (fs.rename k k').get? k'' = some f →
        (k'' = k' ∧ f = g) ∨ (k'' ≠ k ∧ fs.get? k'' = some f) := by
      intro k'' f hf
      rw [get?_rename hk] at hf
      split at hf
      · rename_i heq
        exact .inl ⟨heq, (Option.some.inj hf).symm⟩
      · split at hf
        · cases hf
        · rename_i hne
          exact .inr ⟨hne, hf⟩
    have hnext : (fs.rename k k').nextInode = fs.nextInode := by
      unfold Files.rename
      rw [hk]
    refine ⟨fun k'' f hf => ?_, fun k₁ k₂ f₁ f₂ h₁ h₂ heq => ?_⟩
    · rw [hnext]
      rcases hold k'' f hf with ⟨-, rfl⟩ | ⟨-, hf'⟩
      · exact h.lt k f hk
      · exact h.lt k'' f hf'
    · rcases hold k₁ f₁ h₁ with ⟨rfl, rfl⟩ | ⟨hne₁, h₁'⟩ <;> rcases hold k₂ f₂ h₂ with ⟨rfl, rfl⟩ | ⟨hne₂, h₂'⟩
      · rfl
      · exact absurd (h.inj _ _ _ _ h₂' hk heq.symm) hne₂
      · exact absurd (h.inj _ _ _ _ h₁' hk heq) hne₁
      · exact h.inj k₁ k₂ f₁ f₂ h₁' h₂' heq

end Files
