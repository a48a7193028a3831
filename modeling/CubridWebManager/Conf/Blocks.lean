import CubridWebManager.Conf.Sections
import Mathlib.Data.List.Nodup

/-!
# The physical lines of a logical line

A `Block` is a logical line with the physical lines it is joined from.  The blocks of a file are its logical lines
(`logicalLinesOf_eq`), and the blocks that are read as entries of a section (`blocksIn`) are its entries
(`entriesOf_eq`).
-/

namespace CubridWebManager.Conf

structure Block where
  start : Nat
  /-- The physical lines that go on. -/
  earlier : List Text
  before : Text
  physical : Text
  deriving DecidableEq, Repr

namespace Block

variable (lower : Text → Text) (b : Block)

def logical : LogicalLine := ⟨b.start, b.start + b.earlier.length, b.before, b.physical⟩

def reading : Reading := b.logical.reading lower

/-- The physical lines, joined. -/
def line : Text := b.before ++ b.physical

/-- The entry that is read from the block. -/
def entry : ConfTextEntry :=
  match b.reading lower with
  | .entry key value => ⟨key, value, b.start⟩
  | _ => ⟨[], [], b.start⟩

/-- The two are joined from the same lines. -/
def SameLines (b b' : Block) : Prop := b.earlier = b'.earlier ∧ b.before = b'.before ∧ b.physical = b'.physical

theorem entry_start : (b.entry lower).lineNo = b.start := by
  unfold entry
  split <;> rfl

variable {lower b} {b' : Block}

theorem entry_eq {key value : Text} (h : b.reading lower = .entry key value) : b.entry lower = ⟨key, value, b.start⟩ := by
  simp only [entry, h]

theorem SameLines.reading_eq (h : b.SameLines b') : b.reading lower = b'.reading lower := by
  obtain ⟨start, earlier, before, physical⟩ := b
  obtain ⟨rfl, rfl, rfl⟩ := h
  rfl

theorem fits_of_valid (h : b.reading lower ≠ .invalid) : fits b.before b.physical = true :=
  LogicalLine.fits_of_valid (e := b.logical) h

theorem reading_of_valid (h : b.reading lower ≠ .invalid) : b.reading lower = readLine lower b.line :=
  LogicalLine.reading_of_valid (e := b.logical) h

theorem reading_of_fits (h : fits b.before b.physical = true) : b.reading lower = readLine lower b.line :=
  LogicalLine.reading_of_fits (e := b.logical) h

end Block

/-- The blocks from a place where `earlier`, from line `start` on, have left `pending`. -/
def blocksFrom : Nat → List Text → Text → List Text → List Block
  | _, _, _, [] => []
  | start, earlier, pending, physical :: rest =>
    if goesOn pending physical then
      if (accumulate pending physical).dropLast = [] then blocksFrom (start + earlier.length + 1) [] [] rest
      else blocksFrom start (earlier ++ [physical]) (accumulate pending physical).dropLast rest
    else ⟨start, earlier, pending, physical⟩ :: blocksFrom (start + earlier.length + 1) [] [] rest

/-- The blocks of a file. -/
def blocksOf (physical : List Text) : List Block := blocksFrom 1 [] [] physical

section blocksFrom

variable {n : Nat} {mid ls : List Text} {p q l : Text} {es : List LogicalLine}

theorem blocksFrom_continues (h : Continues p mid q) (start : Nat) (earlier ls : List Text) :
    blocksFrom start earlier p (mid ++ ls) = blocksFrom start (earlier ++ mid) q ls := by
  induction h generalizing earlier with
  | nil p => rw [List.nil_append, List.append_nil]
  | cons hgo hne _ ih =>
    rw [List.cons_append, blocksFrom, if_pos hgo, if_neg hne, ih, List.append_assoc, List.singleton_append]

theorem blocksFrom_eof (hmid : Continues [] mid p) (n : Nat) : blocksFrom n [] [] mid = [] := by
  have h := blocksFrom_continues hmid n [] []
  rwa [List.append_nil] at h

theorem blocksFrom_skip (hmid : Continues [] mid p) (hgo : goesOn p l = true) (hnil : (accumulate p l).dropLast = [])
    (n : Nat) (ls : List Text) : blocksFrom n [] [] (mid ++ l :: ls) = blocksFrom (n + mid.length + 1) [] [] ls := by
  rw [blocksFrom_continues hmid, List.nil_append, blocksFrom, if_pos hgo, if_pos hnil]

theorem blocksFrom_line (hmid : Continues [] mid p) (hstop : goesOn p l = false) (n : Nat) (ls : List Text) :
    blocksFrom n [] [] (mid ++ l :: ls) = ⟨n, mid, p, l⟩ :: blocksFrom (n + mid.length + 1) [] [] ls := by
  rw [blocksFrom_continues hmid, List.nil_append, blocksFrom, if_neg (by simp [hstop])]

theorem Cut.eq_map_logical (h : Cut n ls es) : es = (blocksFrom n [] [] ls).map Block.logical := by
  induction h with
  | eof hmid => rw [blocksFrom_eof hmid, List.map_nil]
  | skip hmid hgo hnil _ ih => rw [blocksFrom_skip hmid hgo hnil, ← ih]
  | line hmid hstop _ ih => rw [blocksFrom_line hmid hstop, List.map_cons, ← ih]; rfl

theorem logicalLinesOf_eq (physical : List Text) : logicalLinesOf physical = (blocksOf physical).map Block.logical :=
  (cut_logicalLinesOf physical).eq_map_logical

/-- The numbers of the lines on which blocks start increase. -/
theorem Cut.start_lt (h : Cut n ls es) :
    (∀ b ∈ blocksFrom n [] [] ls, n ≤ b.start) ∧ (blocksFrom n [] [] ls).Pairwise fun b b' => b.start < b'.start := by
  induction h with
  | eof hmid =>
    rw [blocksFrom_eof hmid]
    exact ⟨fun b hb => absurd hb List.not_mem_nil, List.Pairwise.nil⟩
  | skip hmid hgo hnil _ ih =>
    rw [blocksFrom_skip hmid hgo hnil]
    refine ⟨fun b hb => ?_, ih.2⟩
    have hstart := ih.1 b hb
    omega
  | line hmid hstop _ ih =>
    rw [blocksFrom_line hmid hstop]
    constructor
    · intro b hb
      rcases List.mem_cons.1 hb with rfl | hb
      · exact Nat.le_refl _
      · have hstart := ih.1 b hb
        omega
    · refine List.pairwise_cons.2 ⟨fun b hb => ?_, ih.2⟩
      have hstart := ih.1 b hb
      simp only
      omega

/-- Where the physical lines of a block are. -/
theorem Cut.exists_split (h : Cut n ls es) {b : Block} (hb : b ∈ blocksFrom n [] [] ls) :
    ∃ pre post, ls = pre ++ (b.earlier ++ b.physical :: post) ∧ b.start = n + pre.length ∧
      Continues [] b.earlier b.before ∧ goesOn b.before b.physical = false := by
  induction h with
  | eof hmid =>
    rw [blocksFrom_eof hmid] at hb
    cases hb
  | @skip n mid ls p l es hmid hgo hnil _ ih =>
    rw [blocksFrom_skip hmid hgo hnil] at hb
    obtain ⟨pre, post, rfl, hstart, hlines⟩ := ih hb
    refine ⟨mid ++ l :: pre, post, by simp, ?_, hlines⟩
    rw [hstart, List.length_append, List.length_cons]
    omega
  | @line n mid ls p l es hmid hstop _ ih =>
    rw [blocksFrom_line hmid hstop] at hb
    rcases List.mem_cons.1 hb with rfl | hb
    · exact ⟨[], ls, rfl, rfl, hmid, hstop⟩
    · obtain ⟨pre, post, rfl, hstart, hlines⟩ := ih hb
      refine ⟨mid ++ l :: pre, post, by simp, ?_, hlines⟩
      rw [hstart, List.length_append, List.length_cons]
      omega

/-- Where lines that end a logical line are changed to others that do, the blocks are the same but for these. -/
theorem blocksFrom_map {f : Text → Text} (hgo : ∀ p l, goesOn p l = true → f l = l)
    (hstop : ∀ p l, goesOn p l = false → goesOn p (f l) = false) (ls : List Text) (n : Nat) (earlier : List Text)
    (p : Text) : blocksFrom n earlier p (ls.map f) =
      (blocksFrom n earlier p ls).map fun b => { b with physical := f b.physical } := by
  induction ls generalizing n earlier p with
  | nil => rfl
  | cons l ls ih =>
    rw [List.map_cons, blocksFrom, blocksFrom]
    cases h : goesOn p l with
    | true =>
      rw [hgo p l h, h, if_pos rfl, if_pos rfl, ih, ih]
      split <;> rfl
    | false => rw [hstop p l h, if_neg Bool.false_ne_true, if_neg Bool.false_ne_true, ih, List.map_cons]

end blocksFrom

theorem blocksOf_pairwise (physical : List Text) : (blocksOf physical).Pairwise fun b b' => b.start < b'.start :=
  (cut_logicalLinesOf physical).start_lt.2

theorem blocksOf_nodup (physical : List Text) : (blocksOf physical).Nodup := by
  refine (blocksOf_pairwise physical).imp fun {b b'} hlt => ?_
  rintro rfl
  exact Nat.lt_irrefl _ hlt

theorem blocksOf_inj {physical : List Text} {b b' : Block} (hb : b ∈ blocksOf physical) (hb' : b' ∈ blocksOf physical)
    (h : b.start = b'.start) : b = b' := by
  have hnodup : ((blocksOf physical).map Block.start).Nodup :=
    List.pairwise_map.2 ((blocksOf_pairwise physical).imp fun hlt => Nat.ne_of_lt hlt)
  exact List.inj_on_of_nodup_map hnodup hb hb' h

/-! ### The blocks of a section -/

variable (lower : Text → Text)

/-- The blocks that are read as entries of the section, from a place where `current` is the current section. -/
def blocksIn (name : Option Text) : Option Text → List Block → List Block
  | _, [] => []
  | current, b :: bs =>
    match b.reading lower with
    | .header n => blocksIn name (some n) bs
    | .entry _ _ => if current = name then b :: blocksIn name current bs else blocksIn name current bs
    | .nothing | .invalid => blocksIn name current bs

variable {lower}

theorem blocksIn_sublist (name current : Option Text) (bs : List Block) : (blocksIn lower name current bs).Sublist bs := by
  induction bs generalizing current with
  | nil => exact List.Sublist.refl _
  | cons b bs ih =>
    unfold blocksIn
    split
    · exact (ih _).cons b
    · split
      · exact (ih _).cons_cons b
      · exact (ih _).cons b
    all_goals exact (ih _).cons b

theorem reading_of_mem_blocksIn {name current : Option Text} {bs : List Block} {b : Block}
    (h : b ∈ blocksIn lower name current bs) : ∃ key value, b.reading lower = .entry key value := by
  induction bs generalizing current with
  | nil => cases h
  | cons c bs ih =>
    unfold blocksIn at h
    split at h
    · exact ih h
    · rename_i key value hr
      split at h
      · rcases List.mem_cons.1 h with rfl | h
        · exact ⟨key, value, hr⟩
        · exact ih h
      · exact ih h
    all_goals exact ih h

theorem entriesOf_eq (name current : Option Text) (bs : List Block) :
    entriesOf lower name current (bs.map Block.logical) = (blocksIn lower name current bs).map (Block.entry lower) := by
  induction bs generalizing current with
  | nil => rfl
  | cons b bs ih =>
    have hlogical : b.logical.reading lower = b.reading lower := rfl
    cases hr : b.reading lower with
    | header n => simp only [List.map_cons, entriesOf, blocksIn, hlogical, hr, ih]
    | entry key value =>
      simp only [List.map_cons, entriesOf, blocksIn, hlogical, hr, ih]
      split
      · rw [List.map_cons, Block.entry_eq hr]
        rfl
      · rfl
    | nothing | invalid => simp only [List.map_cons, entriesOf, blocksIn, hlogical, hr, ih]

end CubridWebManager.Conf
