import CubridWebManager.Conf.ParseConfText

/-!
# The logical lines of a file

`parseConfText` in two stages: `logicalLines` joins the physical lines, and each logical line is read on its own
(`Sections.read`); `readAll_eq` says that the loop does just this.  `Cut` says where the logical lines of a file are: a
file is cut into the physical lines of each, where no text is pending between one and the next, so the reading of a
part of the file that begins at a cut does not depend on what is before it.
-/

namespace CubridWebManager.Conf

/-! ### Joining physical lines -/

/-- The text pending from earlier physical lines, with the next one. -/
def accumulate (pending physical : Text) : Text := pending ++ iniTrimEnd (dropCr physical)

/-- The physical line is within the limit of the engine. -/
def fits (pending physical : Text) : Bool := utf8Length pending + utf8Length (dropCr physical) ≤ iniMaxLineLength

/-- The logical line goes on with the next physical line. -/
def goesOn (pending physical : Text) : Bool := fits pending physical && (accumulate pending physical).getLast? = some '\\'

/-- A logical line: the numbers of its first and last physical lines, what is pending from the earlier ones, and the
last one. -/
structure LogicalLine where
  start : Nat
  last : Nat
  before : Text
  physical : Text
  deriving DecidableEq, Repr

namespace LogicalLine

def text (e : LogicalLine) : Text := accumulate e.before e.physical

/-- A line that is too long cannot be read. -/
def reading (lower : Text → Text) (e : LogicalLine) : Reading :=
  if fits e.before e.physical then readLine lower e.text else .invalid

end LogicalLine

def logicalLines : Text → Nat → List Text → Nat → List LogicalLine
  | _, _, [], _ => []
  | pending, pendingStart, physical :: rest, lineNo =>
    let start := if pending = [] then lineNo else pendingStart
    if goesOn pending physical then logicalLines (accumulate pending physical).dropLast start rest (lineNo + 1)
    else ⟨start, lineNo, pending, physical⟩ :: logicalLines [] start rest (lineNo + 1)

/-- The logical lines of a file. -/
def logicalLinesOf (physical : List Text) : List LogicalLine := logicalLines [] 0 physical 1

/-! ### The two stages -/

/-- One logical line is read. -/
def Sections.read (lower : Text → Text) (s : Sections) (e : LogicalLine) : Sections :=
  if fits e.before e.physical then s.apply e.start (readLine lower e.text)
  else s.pushError e.last "Line is longer than the engine's 510-byte limit"

theorem readPhysical_eq (lower : Text → Text) (r : Reader) (physical : Text) (lineNo : Nat) :
    r.readPhysical lower physical lineNo =
      if goesOn r.pending physical then
        ⟨r.toSections, (accumulate r.pending physical).dropLast, if r.pending = [] then lineNo else r.pendingStart⟩
      else
        ⟨r.toSections.read lower ⟨if r.pending = [] then lineNo else r.pendingStart, lineNo, r.pending, physical⟩, [],
          if r.pending = [] then lineNo else r.pendingStart⟩ := by
  unfold Reader.readPhysical Sections.read goesOn fits LogicalLine.text accumulate
  by_cases hlong : iniMaxLineLength < utf8Length r.pending + utf8Length (dropCr physical)
  · simp [hlong, Nat.not_le_of_lt hlong]
  · simp [hlong, Nat.le_of_not_lt hlong]

/-- The loop reads the logical lines one after the other. -/
theorem readAll_eq (lower : Text → Text) (physical : List Text) (r : Reader) (lineNo : Nat) :
    (r.readAll lower physical lineNo).toSections =
      (logicalLines r.pending r.pendingStart physical lineNo).foldl (Sections.read lower) r.toSections := by
  induction physical generalizing r lineNo with
  | nil => rfl
  | cons l ls ih =>
    rw [Reader.readAll, ih, readPhysical_eq, logicalLines]
    by_cases hgo : goesOn r.pending l = true
    · simp only [hgo, ↓reduceIte]
    · simp only [hgo, Bool.false_eq_true, ↓reduceIte, List.foldl_cons]

/-- Where lines that end a logical line are changed to others that do, the logical lines are the same but for these. -/
theorem logicalLines_map {f : Text → Text} (hgo : ∀ p l, goesOn p l = true → f l = l)
    (hstop : ∀ p l, goesOn p l = false → goesOn p (f l) = false) (ls : List Text) (p : Text) (start n : Nat) :
    logicalLines p start (ls.map f) n =
      (logicalLines p start ls n).map fun e => { e with physical := f e.physical } := by
  induction ls generalizing p start n with
  | nil => rfl
  | cons l ls ih =>
    rw [List.map_cons]
    unfold logicalLines
    cases h : goesOn p l with
    | true =>
      have hl : f l = l := hgo p l h
      simp only [hl, h, ↓reduceIte]
      exact ih _ _ _
    | false =>
      have hl : goesOn p (f l) = false := hstop p l h
      simp only [hl, Bool.false_eq_true, ↓reduceIte, List.map_cons, ih]

/-! ### The text of a logical line -/

theorem iniTrim_accumulate (pending physical : Text) :
    iniTrim (accumulate pending physical) = iniTrim (pending ++ physical) := by
  obtain ⟨w, hw, heq⟩ := Trim.exists_rdropWhile_parts isIniSpace physical
  have hend : iniTrimEnd (dropCr physical) = physical.rdropWhile isIniSpace := iniTrimEnd_dropCr physical
  rw [accumulate, hend]
  conv_rhs => rw [heq, ← List.append_assoc]
  exact (Trim.trim_append_right _ hw).symm

theorem readLine_congr (lower : Text → Text) {s t : Text} (h : iniTrim s = iniTrim t) :
    readLine lower s = readLine lower t := by
  unfold readLine
  rw [h]

namespace LogicalLine

variable {lower : Text → Text} {e : LogicalLine}

theorem reading_of_fits (h : fits e.before e.physical = true) :
    e.reading lower = readLine lower (e.before ++ e.physical) := by
  rw [reading, if_pos h]
  exact readLine_congr lower (iniTrim_accumulate _ _)

theorem fits_of_valid (h : e.reading lower ≠ .invalid) : fits e.before e.physical = true := by
  by_contra hlong
  exact h (if_neg hlong)

theorem reading_of_valid (h : e.reading lower ≠ .invalid) :
    e.reading lower = readLine lower (e.before ++ e.physical) := reading_of_fits (fits_of_valid h)

end LogicalLine

/-! ### Where the logical lines are -/

/-- Each of the physical lines goes on, from `p` pending before them to `q` after, and something is pending after each
of them. -/
inductive Continues : Text → List Text → Text → Prop
  | nil (p : Text) : Continues p [] p
  | cons {p q l : Text} {ls : List Text} (hgo : goesOn p l = true) (hne : (accumulate p l).dropLast ≠ [])
    (h : Continues (accumulate p l).dropLast ls q) : Continues p (l :: ls) q

theorem Continues.concat {p q l : Text} {ls : List Text} (h : Continues p ls q) (hgo : goesOn q l = true)
    (hne : (accumulate q l).dropLast ≠ []) : Continues p (ls ++ [l]) (accumulate q l).dropLast := by
  induction h with
  | nil p => exact .cons hgo hne (.nil _)
  | cons hgo' hne' _ ih => exact .cons hgo' hne' (ih hgo hne)

/-- `Cut n ls es`: the physical lines `ls`, of which the first has number `n`, are those of the logical lines `es`. -/
inductive Cut : Nat → List Text → List LogicalLine → Prop
  /-- What goes on at the end of the file is dropped. -/
  | eof {n : Nat} {mid : List Text} {p : Text} (hmid : Continues [] mid p) : Cut n mid []
  /-- Backslashes with nothing before them. -/
  | skip {n : Nat} {mid ls : List Text} {p l : Text} {es : List LogicalLine} (hmid : Continues [] mid p)
    (hgo : goesOn p l = true) (hnil : (accumulate p l).dropLast = []) (h : Cut (n + mid.length + 1) ls es) :
    Cut n (mid ++ l :: ls) es
  | line {n : Nat} {mid ls : List Text} {p l : Text} {es : List LogicalLine} (hmid : Continues [] mid p)
    (hstop : goesOn p l = false) (h : Cut (n + mid.length + 1) ls es) :
    Cut n (mid ++ l :: ls) (⟨n, n + mid.length, p, l⟩ :: es)

theorem logicalLines_nil_start (start start' : Nat) (ls : List Text) (n : Nat) :
    logicalLines [] start ls n = logicalLines [] start' ls n := by
  cases ls with
  | nil => rfl
  | cons l ls =>
    unfold logicalLines
    simp only [↓reduceIte]

/-- What the physical lines `mid` have left pending goes on with `ls`. -/
theorem cut_pending (ls : List Text) {mid : List Text} {p : Text} (hmid : Continues [] mid p)
    (hnil : p = [] → mid = []) (n start : Nat) (hstart : p ≠ [] → start = n) :
    Cut n (mid ++ ls) (logicalLines p start ls (n + mid.length)) := by
  induction ls generalizing mid p n start with
  | nil =>
    rw [List.append_nil]
    exact .eof hmid
  | cons l ls ih =>
    have hfirst : (if p = [] then n + mid.length else start) = n := by
      split
      · rename_i hp
        rw [hnil hp]
        rfl
      · rename_i hp
        exact hstart hp
    unfold logicalLines
    simp only [hfirst]
    split
    · rename_i hgo
      by_cases hne : (accumulate p l).dropLast = []
      · rw [hne, logicalLines_nil_start n (n + mid.length + 1)]
        exact .skip hmid hgo hne (ih (.nil []) (fun _ => rfl) _ _ fun h => absurd rfl h)
      · have hcut := ih (hmid.concat hgo hne) (fun h => absurd h hne) n n fun _ => rfl
        rw [List.append_assoc, List.length_append] at hcut
        exact hcut
    · rename_i hstop
      rw [logicalLines_nil_start n (n + mid.length + 1)]
      exact .line hmid (by simpa using hstop) (ih (.nil []) (fun _ => rfl) _ _ fun h => absurd rfl h)

/-- Every file is cut into its logical lines. -/
theorem cut_logicalLinesOf (physical : List Text) : Cut 1 physical (logicalLinesOf physical) :=
  cut_pending physical (.nil []) (fun _ => rfl) 1 0 fun h => absurd rfl h

end CubridWebManager.Conf
