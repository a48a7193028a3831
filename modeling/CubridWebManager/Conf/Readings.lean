import CubridWebManager.Conf.EditServerList

/-!
# What is read, line after line

The readings of a file without the places of its lines (`readingsFrom`).  Files that are put together are read one after
the other, the second with what the first leaves pending (`readingsFrom_append`), and so are the entries of a section,
the second from the section that the first ends in (`keysIn_append`).
-/

namespace CubridWebManager.Conf

/-- What is read from the lines after `pending`. -/
def readingsFrom (lower : Text → Text) : Text → List Text → List Reading
  | _, [] => []
  | pending, physical :: rest =>
    if goesOn pending physical then readingsFrom lower (accumulate pending physical).dropLast rest
    else (if fits pending physical then readLine lower (accumulate pending physical) else .invalid) ::
      readingsFrom lower [] rest

def readingsOf (lower : Text → Text) (physical : List Text) : List Reading := readingsFrom lower [] physical

/-- The text that the lines leave pending. -/
def pendingAfter : Text → List Text → Text
  | pending, [] => pending
  | pending, physical :: rest =>
    pendingAfter (if goesOn pending physical then (accumulate pending physical).dropLast else []) rest

/-- The keys of section `name` with their values, from a place where `current` is the current section. -/
def keysIn (name : Option Text) : Option Text → List Reading → List (Text × Text)
  | _, [] => []
  | _, .header n :: rs => keysIn name (some n) rs
  | current, .entry key value :: rs =>
    if current = name then (key, value) :: keysIn name current rs else keysIn name current rs
  | current, .nothing :: rs | current, .invalid :: rs => keysIn name current rs

/-- The section that is the current one in the end. -/
def sectionAfter : Option Text → List Reading → Option Text
  | current, [] => current
  | _, .header n :: rs => sectionAfter (some n) rs
  | current, .entry _ _ :: rs | current, .nothing :: rs | current, .invalid :: rs => sectionAfter current rs

/-- The section that is the current one at the end of the lines. -/
def sectionAt (lower : Text → Text) (physical : List Text) : Option Text :=
  sectionAfter none (readingsOf lower physical)

/-- The keys of a section with their values. -/
def ParsedConfText.keysOf (p : ParsedConfText) (name : Option Text) : List (Text × Text) :=
  match p.sections.find? fun s => s.name = name with
  | none => []
  | some s => s.entries.map fun e => (e.key, e.value)

/-! ### Lines put together -/

section append

variable {lower : Text → Text}

theorem readingsFrom_append (ls ls' : List Text) (p : Text) :
    readingsFrom lower p (ls ++ ls') = readingsFrom lower p ls ++ readingsFrom lower (pendingAfter p ls) ls' := by
  induction ls generalizing p with
  | nil => rfl
  | cons l ls ih =>
    rw [List.cons_append, readingsFrom, readingsFrom, pendingAfter]
    split
    · exact ih _
    · rw [ih, List.cons_append]

theorem pendingAfter_append (ls ls' : List Text) (p : Text) :
    pendingAfter p (ls ++ ls') = pendingAfter (pendingAfter p ls) ls' := by
  induction ls generalizing p with
  | nil => rfl
  | cons l ls ih => exact ih _

/-- Nothing is pending after a line that does not go on. -/
theorem pendingAfter_concat {l : Text} (hstop : ∀ p, goesOn p l = false) (ls : List Text) (p : Text) :
    pendingAfter p (ls ++ [l]) = [] := by
  rw [pendingAfter_append]
  simp only [pendingAfter, hstop, Bool.false_eq_true, ↓reduceIte]

theorem keysIn_append (name current : Option Text) (rs rs' : List Reading) :
    keysIn name current (rs ++ rs') = keysIn name current rs ++ keysIn name (sectionAfter current rs) rs' := by
  induction rs generalizing current with
  | nil => rfl
  | cons r rs ih =>
    cases r with
    | entry key value =>
      simp only [List.cons_append, keysIn, sectionAfter, ih]
      split <;> rfl
    | header n => exact ih _
    | nothing | invalid => exact ih _

theorem sectionAfter_append (current : Option Text) (rs rs' : List Reading) :
    sectionAfter current (rs ++ rs') = sectionAfter (sectionAfter current rs) rs' := by
  induction rs generalizing current with
  | nil => rfl
  | cons r rs ih => cases r <;> exact ih _

/-- Where no section has a key, none is read. -/
theorem forall_keysIn_eq_nil_iff {current : Option Text} {rs : List Reading} :
    (∀ name, keysIn name current rs = []) ↔ ∀ r ∈ rs, ∀ key value, r ≠ .entry key value := by
  induction rs generalizing current with
  | nil => simp [keysIn]
  | cons r rs ih =>
    cases r with
    | entry key value =>
      refine iff_of_false (fun h => ?_) fun h => h _ List.mem_cons_self key value rfl
      have hcurrent := h current
      simp [keysIn] at hcurrent
    | header n => simpa [keysIn] using ih
    | nothing | invalid => simpa [keysIn] using ih

end append

/-! ### What is read from the file -/

section file

variable {lower : Text → Text}

theorem readings_logicalLines (ls : List Text) (p : Text) (start n : Nat) :
    (logicalLines p start ls n).map (LogicalLine.reading lower) = readingsFrom lower p ls := by
  induction ls generalizing p start n with
  | nil => rfl
  | cons l ls ih =>
    rw [logicalLines, readingsFrom]
    split
    · exact ih _ _ _
    · rw [List.map_cons, ih]
      rfl

theorem readings_logicalLinesOf (physical : List Text) :
    (logicalLinesOf physical).map (LogicalLine.reading lower) = readingsOf lower physical :=
  readings_logicalLines physical [] 0 1

theorem map_entriesOf (name current : Option Text) (es : List LogicalLine) :
    (entriesOf lower name current es).map (fun e => (e.key, e.value)) =
      keysIn name current (es.map (LogicalLine.reading lower)) := by
  induction es generalizing current with
  | nil => rfl
  | cons e es ih =>
    cases hr : e.reading lower with
    | entry key value =>
      simp only [entriesOf, hr, List.map_cons, keysIn, ← ih]
      split <;> rfl
    | header n => simp only [entriesOf, hr, List.map_cons, keysIn, ← ih]
    | nothing | invalid => simp only [entriesOf, hr, List.map_cons, keysIn, ← ih]

theorem keysOf_parseConfText (physical : List Text) (name : Option Text) :
    (parseConfText lower physical).keysOf name = keysIn name none (readingsOf lower physical) := by
  rw [← readings_logicalLinesOf, ← map_entriesOf]
  unfold ParsedConfText.keysOf
  split
  · rename_i hnone
    have hnil : entriesOf lower name none (logicalLinesOf physical) = [] := by
      rw [List.find?_eq_none, parseConfText_sections] at hnone
      cases name with
      | none =>
        by_contra hne
        exact hnone _ (List.mem_filter.2 ⟨List.mem_cons_self, by simpa using hne⟩) (decide_eq_true rfl)
      | some n =>
        refine entriesOf_eq_nil (Option.some_ne_none n).symm fun e he m hr heq => ?_
        obtain ⟨s, hs, hname⟩ := seesSection_iff.2 ⟨e, he, hr⟩
        rw [parseConfText_sections] at hs
        exact hnone s hs (decide_eq_true (hname.trans heq))
    rw [hnil, List.map_nil]
  · rename_i s hsome
    have hname := List.find?_some hsome
    rw [entries_of_mem_sections (List.mem_of_find?_eq_some hsome), of_decide_eq_true hname]

theorem syntaxErrors_eq_nil_iff (physical : List Text) :
    (parseConfText lower physical).syntaxErrors = [] ↔ ∀ r ∈ readingsOf lower physical, r ≠ .invalid := by
  rw [parseConfText_syntaxErrors, ← readings_logicalLinesOf]
  simp only [List.forall_mem_map]

end file

end CubridWebManager.Conf
