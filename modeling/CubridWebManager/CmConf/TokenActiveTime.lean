import CubridWebManager.CmConf.Readers

/-!
# The readers of cm.conf and the token's active time

The readers agree on a line if it is plain: a blank or one `=` separates the name from a value that has no other white
space around it (`Shape`).  They see the same text of the parameter exactly if every line that one of them takes for it
is plain (`readers_agree`).
-/

namespace CubridWebManager.CmConf

open Trim

/-! ### Plain lines -/

/-- The parts of a line: `assigned` is what follows the `=`, if there is one, up to the value. -/
structure Shape where
  before : Text
  name : Text
  blanks : Text
  assigned : Option Text
  value : Text
  after : Text

namespace Shape

def gap (s : Shape) : Text := s.blanks ++ (s.assigned.map fun blanks => '=' :: blanks).getD []

def text (s : Shape) : Text := s.before ++ (s.name ++ (s.gap ++ s.value)) ++ s.after

/-- The line gives the parameter and both readers see `value`. -/
structure Plain (L : LowerCase) (s : Shape) : Prop where
  before : All isCmSpace s.before
  after : All isCmSpace s.after
  name : L.lower s.name ∈ tokenActiveTimeNames
  name_ne : s.name ≠ []
  noSeparator : ∀ c ∈ s.name, isSeparator c = false
  blanks : All isBlank s.blanks
  assigned : ∀ blanks ∈ s.assigned, All isBlank blanks
  gap : s.gap ≠ []
  value_ne : s.value ≠ []
  bare : Bare Text.isSpace s.value
  oneLine : ∀ c ∈ s.value, isLineTerminator c = false
  /-- A value begins with `=` only after another `=` that has a blank before it. -/
  equals : s.value.head? = some '=' → s.assigned ≠ none ∧ s.blanks ≠ []

end Shape

/-! ### Characters -/

section chars

variable {c : Char}

theorem isSpace_of_isBlank (h : isBlank c = true) : Text.isSpace c = true := by
  simp only [isBlank, Bool.or_eq_true, decide_eq_true_eq] at h
  rcases h with rfl | rfl <;> rfl

theorem isCmSpace_of_isBlank (h : isBlank c = true) : isCmSpace c = true := by
  rw [isCmSpace, h, Bool.true_or, Bool.true_or]

theorem isSpace_of_isCmSpace (h : isCmSpace c = true) : Text.isSpace c = true := by
  simp only [isCmSpace, isBlank, Bool.or_eq_true, decide_eq_true_eq] at h
  rcases h with ((rfl | rfl) | rfl) | rfl <;> rfl

theorem isCmSpace_eq_false (h : isBlank c = false) (hline : isLineTerminator c = false) : isCmSpace c = false := by
  simp only [isLineTerminator, Bool.or_eq_false_iff, decide_eq_false_iff_not] at hline
  simp only [isCmSpace, h, Bool.false_or, Bool.or_eq_false_iff, decide_eq_false_iff_not]
  exact ⟨hline.1.1.2, hline.1.1.1⟩

theorem isSeparator_of_isBlank (h : isBlank c = true) : isSeparator c = true := by rw [isSeparator, h, Bool.true_or]

theorem isBlank_eq_false_of_isSpace (h : Text.isSpace c = false) : isBlank c = false := by
  rw [← Bool.not_eq_true]
  exact fun hblank => by rw [isSpace_of_isBlank hblank] at h; cases h

theorem isCmSpace_eq_false_of_isSpace (h : Text.isSpace c = false) : isCmSpace c = false := by
  rw [← Bool.not_eq_true]
  exact fun hspace => by rw [isSpace_of_isCmSpace hspace] at h; cases h

end chars

/-! ### A plain line is read alike -/

/-- The text of the parameter that `parseCmConfText` finds in the line. -/
def entryText (L : LowerCase) (line : Text) : Option Text :=
  (readLine line 0).bind fun e => if L.lower e.key ∈ tokenActiveTimeNames ∧ e.value ≠ [] then some e.value else none

section plain

variable {L : LowerCase} {s : Shape} {c : Char} {name t : Text}

theorem names_plain : (tokenActiveTimeNames.all fun n => n.all fun c => !Text.isSpace c && c ≠ '#') = true := by
  decide

/-- No white space and no `#` is in the name. -/
theorem plain_of_named (hname : L.lower name ∈ tokenActiveTimeNames) (hc : c ∈ name) :
    Text.isSpace c = false ∧ c ≠ '#' := by
  by_contra hkept
  have hmem : c ∈ L.lower name := by
    refine L.keeps name c hc ?_
    rw [not_and_or, Bool.not_eq_false, not_not] at hkept
    exact hkept
  have hplain := List.all_eq_true.1 (List.all_eq_true.1 names_plain _ hname) c hmem
  rw [Bool.and_eq_true, Bool.not_eq_true', decide_eq_true_eq] at hplain
  exact hkept hplain

theorem head_of_named (hname : L.lower name ∈ tokenActiveTimeNames) (hc : c ∈ (name ++ t).head?) (hne : name ≠ []) :
    Text.isSpace c = false ∧ c ≠ '#' := by
  rw [List.head?_append_of_ne_nil _ hne] at hc
  exact plain_of_named hname (List.mem_of_mem_head? hc)

namespace Shape.Plain

theorem gap_separates (hs : s.Plain L) : ∀ c ∈ (s.gap ++ s.value).head?, isSeparator c = true := by
  intro c hc
  rw [List.head?_append_of_ne_nil _ hs.gap] at hc
  unfold Shape.gap at hc
  cases hblanks : s.blanks with
  | nil =>
    cases hassigned : s.assigned with
    | none =>
      rw [hblanks, hassigned] at hc
      cases hc
    | some b =>
      rw [hblanks, hassigned] at hc
      obtain rfl := Option.some.inj hc
      rfl
  | cons b bs =>
    rw [hblanks] at hc
    obtain rfl := Option.some.inj hc
    exact isSeparator_of_isBlank (hs.blanks b (hblanks ▸ List.mem_cons_self))

theorem bare_core (hs : s.Plain L) : Bare Text.isSpace (s.name ++ (s.gap ++ s.value)) := by
  refine ⟨fun c hc => (head_of_named hs.name hc hs.name_ne).1, fun c hc => ?_⟩
  rw [← List.append_assoc, List.getLast?_append_of_ne_nil _ hs.value_ne] at hc
  exact hs.bare.2 c hc

theorem trim_text (hs : s.Plain L) : trim Text.isSpace s.text = s.name ++ (s.gap ++ s.value) :=
  trim_parts (hs.before.mono fun _ => isSpace_of_isCmSpace) hs.bare_core (hs.after.mono fun _ => isSpace_of_isCmSpace)

theorem trim_cmSpace_text (hs : s.Plain L) : trim isCmSpace s.text = s.name ++ (s.gap ++ s.value) :=
  trim_parts hs.before (hs.bare_core.mono fun _ => isSpace_of_isCmSpace) hs.after

theorem all_name (hs : s.Plain L) : All (fun c => !isSeparator c) s.name :=
  fun c hc => by simp [hs.noSeparator c hc]

theorem takeWhile_core (hs : s.Plain L) :
    (s.name ++ (s.gap ++ s.value)).takeWhile (fun c => !isSeparator c) = s.name :=
  takeWhile_append_all hs.all_name fun c hc => by rw [hs.gap_separates c hc, Bool.not_true]

theorem dropWhile_core (hs : s.Plain L) :
    (s.name ++ (s.gap ++ s.value)).dropWhile (fun c => !isSeparator c) = s.gap ++ s.value := by
  rw [dropWhile_append_all hs.all_name,
    dropWhile_of_head fun c hc => by rw [hs.gap_separates c hc, Bool.not_true]]

theorem dropWhile_blank_value (hs : s.Plain L) : s.value.dropWhile isBlank = s.value :=
  dropWhile_of_head fun c hc => isBlank_eq_false_of_isSpace (hs.bare.1 c hc)

theorem trim_value (hs : s.Plain L) : trim isCmSpace s.value = s.value :=
  trim_of_bare (hs.bare.mono fun _ => isSpace_of_isCmSpace)

theorem all_cmSpace_assigned (hs : s.Plain L) {blanks : Text} (h : s.assigned = some blanks) : All isCmSpace blanks :=
  (hs.assigned blanks h).mono fun _ => isCmSpace_of_isBlank

theorem head_value_ne (hs : s.Plain L) (h : s.assigned = none ∨ s.blanks = []) : s.value.head? ≠ some '=' := by
  intro heq
  obtain ⟨hassigned, hblanks⟩ := hs.equals heq
  exact h.elim hassigned hblanks

theorem matchKeyValue_core (hs : s.Plain L) :
    matchKeyValue (s.name ++ (s.gap ++ s.value)) = some (s.name, s.value) := by
  have hrest : (if ((s.gap ++ s.value).dropWhile isBlank).head? = some '=' then
      ((s.gap ++ s.value).dropWhile isBlank).tail.dropWhile isBlank else (s.gap ++ s.value).dropWhile isBlank) =
      s.value := by
    rw [Shape.gap, List.append_assoc, dropWhile_append_all hs.blanks]
    cases hassigned : s.assigned with
    | none =>
      rw [Option.map_none, Option.getD_none, List.nil_append, hs.dropWhile_blank_value,
        if_neg (hs.head_value_ne (.inl hassigned))]
    | some blanks =>
      have hequals : ('=' :: blanks ++ s.value).dropWhile isBlank = '=' :: (blanks ++ s.value) := rfl
      rw [Option.map_some, Option.getD_some, hequals, if_pos List.head?_cons, List.tail_cons,
        dropWhile_append_all (hs.assigned blanks hassigned), hs.dropWhile_blank_value]
  unfold matchKeyValue
  simp only [hs.takeWhile_core, hs.dropWhile_core, hrest]
  rw [if_neg]
  rintro (hname | hline)
  · exact hs.name_ne hname
  · obtain ⟨c, hc, hterminator⟩ := List.any_eq_true.1 hline
    rw [hs.oneLine c hc] at hterminator
    cases hterminator

theorem valueAfter_core (hs : s.Plain L) : valueAfter (s.gap ++ s.value) = s.value := by
  unfold valueAfter
  cases hblanks : s.blanks with
  | nil =>
    cases hassigned : s.assigned with
    | none => exact absurd (by rw [Shape.gap, hblanks, hassigned]; rfl) hs.gap
    | some blanks =>
      have htail : (s.gap ++ s.value).tail = blanks ++ s.value := by
        rw [Shape.gap, hblanks, hassigned]
        rfl
      rw [htail, trim_append_left (hs.all_cmSpace_assigned hassigned), hs.trim_value,
        if_neg (hs.head_value_ne (.inr hblanks))]
  | cons b bs =>
    have hbs : All isCmSpace bs := fun c hc =>
      isCmSpace_of_isBlank (hs.blanks c (hblanks ▸ List.mem_cons_of_mem b hc))
    cases hassigned : s.assigned with
    | none =>
      have htail : (s.gap ++ s.value).tail = bs ++ s.value := by
        rw [Shape.gap, hblanks, hassigned, Option.map_none, Option.getD_none, List.append_nil]
        rfl
      rw [htail, trim_append_left hbs, hs.trim_value, if_neg (hs.head_value_ne (.inl hassigned))]
    | some blanks =>
      have htail : (s.gap ++ s.value).tail = bs ++ ('=' :: (blanks ++ s.value)) := by
        rw [Shape.gap, hblanks, hassigned]
        simp
      have hbare : Bare isCmSpace ('=' :: (blanks ++ s.value)) := by
        refine ⟨fun c hc => ?_, fun c hc => ?_⟩
        · obtain rfl := Option.some.inj hc
          rfl
        · rw [← List.cons_append, List.getLast?_append_of_ne_nil _ hs.value_ne] at hc
          exact isCmSpace_eq_false_of_isSpace (hs.bare.2 c hc)
      rw [htail, trim_append_left hbs, trim_of_bare hbare, if_pos List.head?_cons, List.tail_cons,
        trim_append_left (hs.all_cmSpace_assigned hassigned), hs.trim_value]

theorem core_read (hs : s.Plain L) :
    ¬(s.name ++ (s.gap ++ s.value) = [] ∨ (s.name ++ (s.gap ++ s.value)).head? = some '#') := by
  rintro (hnil | hcomment)
  · exact hs.name_ne (List.append_eq_nil_iff.1 hnil).1
  · exact (head_of_named hs.name hcomment hs.name_ne).2 rfl

theorem tokenText_eq (hs : s.Plain L) : tokenText L s.text = some s.value := by
  unfold tokenText
  simp only [hs.trim_text, if_neg hs.core_read, hs.matchKeyValue_core, Option.bind_some, if_pos hs.name,
    trim_of_bare hs.bare]

theorem entryText_eq (hs : s.Plain L) : entryText L s.text = some s.value := by
  have hnamed : (s.name ++ (s.gap ++ s.value)).dropWhile isSeparator = s.name ++ (s.gap ++ s.value) := by
    refine dropWhile_of_head fun c hc => ?_
    rw [List.head?_append_of_ne_nil _ hs.name_ne] at hc
    exact hs.noSeparator c (List.mem_of_mem_head? hc)
  unfold entryText readLine
  simp only [hs.trim_cmSpace_text, if_neg hs.core_read, hnamed, hs.takeWhile_core, if_neg hs.name_ne,
    List.drop_left, hs.valueAfter_core, Option.bind_some]
  rw [if_pos ⟨hs.name, hs.value_ne⟩]

end Shape.Plain

end plain

end CubridWebManager.CmConf
