import CubridWebManager.Conf.HeaderLine
import CubridWebManager.Conf.Sections

/-!
# Renaming the section of a database

`renameDbSection` looks for the header `[@old]` with `sectionOf`, in each physical line on its own and with the white
space of JavaScript; the engine reads the header from a logical line, up to its first `]` and with the white space of C.
Where the two agree on the headers of the old and of the new name (`HeadersAgree`), the rename is what it is meant to
be (`IsEngineRename`): the file reads as before with the one section renamed.
-/

namespace CubridWebManager.Conf

/-! ### What a rename is meant to be -/

def renamed (old new name : Text) : Text := if name = old then new else name

def ConfTextSection.rename (old new : Text) (s : ConfTextSection) : ConfTextSection :=
  { s with name := s.name.map (renamed old new) }

/-- The file with the section `old` called `new`. -/
def ParsedConfText.renameSection (old new : Text) (p : ParsedConfText) : ParsedConfText :=
  { p with sections := p.sections.map (ConfTextSection.rename old new) }

/-- The rename of the section of a database, as the engine reads the file. -/
structure IsEngineRename (lower : Text → Text) (confdata : List Text) (old new : Text) (result : RenamedSection) : Prop
    where
  renames : SeesSection lower confdata ('@' :: old) → ¬ SeesSection lower confdata ('@' :: new) →
    parseConfText lower result.lines = (parseConfText lower confdata).renameSection ('@' :: old) ('@' :: new)
  absent : ¬ SeesSection lower confdata ('@' :: old) → result.lines = confdata
  kept_iff : result.kept = true ↔ SeesSection lower confdata ('@' :: old) ∧ SeesSection lower confdata ('@' :: new)
  kept_lines : result.kept = true → result.lines = confdata

/-! ### Reading under a renaming -/

def Reading.rename (old new : Text) : Reading → Reading
  | .header name => .header (renamed old new name)
  | r => r

section rename

variable {lower : Text → Text} {old new : Text}

theorem renamed_inj {a b : Text} (ha : a ≠ new) (hb : b ≠ new) (h : renamed old new a = renamed old new b) : a = b := by
  unfold renamed at h
  split at h <;> split at h
  · rename_i ha' hb'
    rw [ha', hb']
  · exact absurd h.symm hb
  · exact absurd h ha
  · exact h

theorem map_renamed_inj {a b : Option Text} (ha : a ≠ some new) (hb : b ≠ some new)
    (h : a.map (renamed old new) = b.map (renamed old new)) : a = b := by
  cases a with
  | none => cases b with
    | none => rfl
    | some b => cases h
  | some a => cases b with
    | none => cases h
    | some b =>
      rw [renamed_inj (fun heq => ha (congrArg some heq)) (fun heq => hb (congrArg some heq)) (Option.some.inj h)]

/-- `g` renames what is read from the logical lines, and the new name is not read from any. -/
structure Renames (lower : Text → Text) (old new : Text) (g : LogicalLine → LogicalLine) (es : List LogicalLine) : Prop
    where
  start : ∀ e ∈ es, (g e).start = e.start
  reading : ∀ e ∈ es, (g e).reading lower = (e.reading lower).rename old new
  unseen : ∀ e ∈ es, e.reading lower ≠ .header new

variable {g : LogicalLine → LogicalLine} {es : List LogicalLine}

theorem Renames.tail {e : LogicalLine} (h : Renames lower old new g (e :: es)) : Renames lower old new g es :=
  ⟨fun a ha => h.start a (List.mem_cons_of_mem _ ha), fun a ha => h.reading a (List.mem_cons_of_mem _ ha),
    fun a ha => h.unseen a (List.mem_cons_of_mem _ ha)⟩

theorem headersOf_rename (h : Renames lower old new g es) {known : List (Option Text)} (hknown : some new ∉ known) :
    headersOf lower (known.map (Option.map (renamed old new))) (es.map g) =
      (headersOf lower known es).map (Prod.map (renamed old new) id) := by
  induction es generalizing known with
  | nil => rfl
  | cons e es ih =>
    have hread := h.reading e List.mem_cons_self
    have hstart := h.start e List.mem_cons_self
    cases hr : e.reading lower with
    | header n =>
      rw [hr] at hread
      have hn : n ≠ new := fun heq => h.unseen e List.mem_cons_self (heq ▸ hr)
      have hmem : some (renamed old new n) ∈ known.map (Option.map (renamed old new)) ↔ some n ∈ known := by
        constructor
        · intro hmem
          obtain ⟨k, hk, heq⟩ := List.mem_map.1 hmem
          have hk' : k ≠ some new := fun heq => hknown (heq ▸ hk)
          rwa [← map_renamed_inj (b := some n) hk' (by simpa using hn) heq]
        · intro hmem
          exact List.mem_map.2 ⟨some n, hmem, rfl⟩
      simp only [List.map_cons, headersOf, hread, Reading.rename, hr, hmem]
      split
      · exact ih h.tail hknown
      · have hknown' : some new ∉ known ++ [some n] := by
          simp [hknown, Ne.symm hn]
        have hnext := ih h.tail hknown'
        rw [List.map_append] at hnext
        simp only [List.map_cons, hstart, Prod.map, id]
        exact congrArg _ hnext
    | nothing | entry | invalid =>
      rw [hr] at hread
      simp only [List.map_cons, headersOf, hread, Reading.rename, hr]
      exact ih h.tail hknown

theorem entriesOf_rename (h : Renames lower old new g es) {name current : Option Text} (hname : name ≠ some new)
    (hcurrent : current ≠ some new) :
    entriesOf lower (name.map (renamed old new)) (current.map (renamed old new)) (es.map g) =
      entriesOf lower name current es := by
  induction es generalizing current with
  | nil => rfl
  | cons e es ih =>
    have hread := h.reading e List.mem_cons_self
    have hstart := h.start e List.mem_cons_self
    cases hr : e.reading lower with
    | header n =>
      rw [hr] at hread
      have hn : n ≠ new := fun heq => h.unseen e List.mem_cons_self (heq ▸ hr)
      simp only [List.map_cons, entriesOf, hread, Reading.rename, hr]
      exact @ih h.tail (some n) (by simpa using hn)
    | entry key value =>
      rw [hr] at hread
      simp only [List.map_cons, entriesOf, hread, Reading.rename, hr, hstart, ih h.tail hcurrent]
      by_cases heq : current = name
      · simp [heq]
      · have hne : current.map (renamed old new) ≠ name.map (renamed old new) :=
          fun h => heq (map_renamed_inj hcurrent hname h)
        simp [heq, hne]
    | nothing | invalid =>
      rw [hr] at hread
      simp only [List.map_cons, entriesOf, hread, Reading.rename, hr]
      exact ih h.tail hcurrent

theorem ne_of_mem_headersOf (h : Renames lower old new g es) {known : List (Option Text)} {header : Text × Nat}
    (hmem : header ∈ headersOf lower known es) : header.1 ≠ new := by
  intro heq
  obtain ⟨e, he, hr⟩ := (exists_mem_headersOf_iff.1 ⟨header, hmem, heq⟩).2
  exact h.unseen e he hr

/-- Where the logical lines are renamed, the section is. -/
theorem parseConfText_rename {physical physical' : List Text}
    (hlines : logicalLinesOf physical' = (logicalLinesOf physical).map g)
    (h : Renames lower old new g (logicalLinesOf physical)) (hvalid : (parseConfText lower physical).syntaxErrors = []) :
    parseConfText lower physical' = (parseConfText lower physical).renameSection old new := by
  have hvalid' : (parseConfText lower physical').syntaxErrors = [] := by
    rw [parseConfText_syntaxErrors] at hvalid ⊢
    rw [hlines]
    rintro e' he'
    obtain ⟨e, he, rfl⟩ := List.mem_map.1 he'
    have hr := hvalid e he
    rw [h.reading e he]
    cases hcase : e.reading lower with
    | invalid => exact absurd hcase hr
    | nothing | header | entry => simp [Reading.rename]
  have hsections : (parseConfText lower physical').sections =
      (parseConfText lower physical).sections.map (ConfTextSection.rename old new) := by
    have hprelude : entriesOf lower none none ((logicalLinesOf physical).map g) =
        entriesOf lower none none (logicalLinesOf physical) :=
      @entriesOf_rename _ _ _ _ _ h none none (by simp) (by simp)
    have hheaders : headersOf lower [none] ((logicalLinesOf physical).map g) =
        (headersOf lower [none] (logicalLinesOf physical)).map (Prod.map (renamed old new) id) :=
      @headersOf_rename _ _ _ _ _ h [none] (by simp)
    have hsection : ∀ header ∈ headersOf lower [none] (logicalLinesOf physical),
        sectionOfHeader lower none ((logicalLinesOf physical).map g) (Prod.map (renamed old new) id header) =
          (sectionOfHeader lower none (logicalLinesOf physical) header).rename old new := by
      intro header hmem
      have hentries := @entriesOf_rename _ _ _ _ _ h (some header.1) none
        (by simpa using ne_of_mem_headersOf h hmem) (by simp)
      simp only [sectionOfHeader, Prod.map, id, ConfTextSection.rename, Option.map_some]
      exact congrArg _ hentries
    rw [parseConfText_sections, parseConfText_sections, hlines, hprelude, hheaders]
    have hall : ((⟨none, none, entriesOf lower none none (logicalLinesOf physical)⟩ : ConfTextSection) ::
        ((headersOf lower [none] (logicalLinesOf physical)).map (Prod.map (renamed old new) id)).map
          (sectionOfHeader lower none ((logicalLinesOf physical).map g))) =
        ((⟨none, none, entriesOf lower none none (logicalLinesOf physical)⟩ : ConfTextSection) ::
          (headersOf lower [none] (logicalLinesOf physical)).map
            (sectionOfHeader lower none (logicalLinesOf physical))).map (ConfTextSection.rename old new) := by
      rw [List.map_cons, List.map_map, List.map_map]
      exact congrArg _ (List.map_congr_left hsection)
    rw [hall, List.filter_map]
    refine congrArg _ (List.filter_congr fun s _ => ?_)
    cases hs : s.name <;> simp [ConfTextSection.rename, hs]
  have hparts : ∀ p p' : ParsedConfText, p.sections = p'.sections → p.syntaxErrors = p'.syntaxErrors → p = p' := by
    rintro ⟨_, _⟩ ⟨_, _⟩ rfl rfl
    rfl
  exact hparts _ _ hsections (hvalid'.trans hvalid.symm)

/-- The old name is gone, and the new one is there. -/
theorem seesSection_renameSection {physical physical' : List Text} (hne : old ≠ new)
    (h : parseConfText lower physical' = (parseConfText lower physical).renameSection old new)
    (hold : SeesSection lower physical old) : SeesSection lower physical' new ∧ ¬ SeesSection lower physical' old := by
  unfold SeesSection
  rw [h]
  constructor
  · obtain ⟨s, hs, hname⟩ := hold
    refine ⟨s.rename old new, List.mem_map_of_mem hs, ?_⟩
    simp [ConfTextSection.rename, hname, renamed]
  · rintro ⟨s', hs', hname⟩
    obtain ⟨s, -, rfl⟩ := List.mem_map.1 hs'
    obtain ⟨n, -, hn⟩ := Option.map_eq_some_iff.1 hname
    unfold renamed at hn
    split at hn
    · exact hne hn.symm
    · rename_i hn'
      exact hn' hn

end rename

/-! ### The lines that are renamed -/

/-- There is a line that `renameDbSection` takes for the header of this database. -/
def MarksSection (lower : Text → Text) (confdata : List Text) (name : Text) : Prop :=
  ∃ line ∈ confdata, sectionOf lower line = some ('@' :: name)

instance (lower : Text → Text) (confdata : List Text) (name : Text) : Decidable (MarksSection lower confdata name) :=
  inferInstanceAs (Decidable (∃ line ∈ _, _))

def renameLine (lower : Text → Text) (old new line : Text) : Text :=
  if sectionOf lower line = some ('@' :: old) then renameHeader new line else line

theorem renameDbSection_eq (lower : Text → Text) (confdata : List Text) (old new : Text) :
    renameDbSection lower confdata old new =
      if ¬ MarksSection lower confdata old then ⟨confdata, false⟩
      else if MarksSection lower confdata new then ⟨confdata, true⟩
      else ⟨confdata.map (renameLine lower old new), false⟩ := by
  have hany : ∀ name, (confdata.any fun line => sectionOf lower line = some ('@' :: name)) =
      decide (MarksSection lower confdata name) := by
    intro name
    rw [Bool.eq_iff_iff, List.any_eq_true, decide_eq_true_iff]
    exact exists_congr fun line => and_congr_right fun _ => decide_eq_true_iff
  unfold renameDbSection
  simp only [hany, Bool.not_eq_true', decide_eq_false_iff_not, decide_eq_true_eq]
  rfl

section lines

variable {L : LowerCase} {old new : Text}

theorem exists_renameLine (new : Text) (hold : IsPlainName old) {line : Text} (h : sectionOf L.lower line = some ('@' :: old)) :
    ∃ hs : HeaderSpaces, line = hs.line old ∧ renameLine L.lower old new line = hs.line new := by
  obtain ⟨hs, rfl⟩ := exists_headerSpaces L h
  refine ⟨hs, rfl, ?_⟩
  rw [renameLine, if_pos h, renameHeader_line hs hold]

theorem HeaderSpaces.line_inj {h : HeaderSpaces} {name name' : Text} (heq : h.line name = h.line name') :
    name = name' := by
  simpa [HeaderSpaces.line] using heq

/-- A rename changes the lines. -/
theorem map_renameLine_ne (hold : IsPlainName old) (hne : old ≠ new) {confdata : List Text}
    (h : MarksSection L.lower confdata old) : confdata.map (renameLine L.lower old new) ≠ confdata := by
  intro heq
  obtain ⟨line, hmem, hmark⟩ := h
  obtain ⟨hs, hline, hrename⟩ := exists_renameLine new hold hmark
  have hsame : renameLine L.lower old new line = line := by
    have hid : confdata.map (renameLine L.lower old new) = confdata.map id := by rw [heq, List.map_id]
    exact List.map_inj_left.1 hid line hmem
  rw [hrename, hline] at hsame
  exact hne (HeaderSpaces.line_inj hsame).symm

/-- The line is renamed at the end of a logical line. -/
def renameLogical (lower : Text → Text) (old new : Text) (e : LogicalLine) : LogicalLine :=
  { e with physical := renameLine lower old new e.physical }

theorem renameLine_of_goesOn {p l : Text} (hgo : goesOn p l = true) : renameLine L.lower old new l = l := by
  refine if_neg fun hmark => ?_
  obtain ⟨hs, rfl⟩ := exists_headerSpaces L hmark
  rw [hs.not_goesOn] at hgo
  cases hgo

theorem not_goesOn_renameLine (hold : IsPlainName old) {p l : Text} (hstop : goesOn p l = false) :
    goesOn p (renameLine L.lower old new l) = false := by
  by_cases hmark : sectionOf L.lower l = some ('@' :: old)
  · obtain ⟨hs, -, hrename⟩ := exists_renameLine new hold hmark
    rw [hrename]
    exact hs.not_goesOn p new
  · rw [renameLine, if_neg hmark]
    exact hstop

theorem logicalLinesOf_renameLine (hold : IsPlainName old) (confdata : List Text) :
    logicalLinesOf (confdata.map (renameLine L.lower old new)) =
      (logicalLinesOf confdata).map (renameLogical L.lower old new) :=
  logicalLines_map (fun _ _ => renameLine_of_goesOn) (fun _ _ => not_goesOn_renameLine hold) confdata [] 0 1

end lines

/-! ### Where the two readers agree -/

variable (L : LowerCase)

/-- What is marked as the header of the old and of the new name is what the engine reads as such. -/
structure HeadersAgree (confdata : List Text) (old new : Text) : Prop where
  old_iff : SeesSection L.lower confdata ('@' :: old) ↔ MarksSection L.lower confdata old
  new_iff : SeesSection L.lower confdata ('@' :: old) →
    (SeesSection L.lower confdata ('@' :: new) ↔ MarksSection L.lower confdata new)
  /-- A header of the old name is marked, and nothing but white space comes before it on its logical line. -/
  alone : SeesSection L.lower confdata ('@' :: old) → ¬ SeesSection L.lower confdata ('@' :: new) →
    ∀ e ∈ logicalLinesOf confdata, e.reading L.lower = .header ('@' :: old) →
      sectionOf L.lower e.physical = some ('@' :: old) ∧ Trim.All isIniSpace e.before
  /-- The line has room for the new name. -/
  room : SeesSection L.lower confdata ('@' :: old) → ¬ SeesSection L.lower confdata ('@' :: new) →
    ∀ e ∈ logicalLinesOf confdata, sectionOf L.lower e.physical = some ('@' :: old) →
      utf8Length e.before + utf8Length (dropCr e.physical) + utf8Length new ≤ iniMaxLineLength + utf8Length old
  /-- The engine reads a name up to a bracket. -/
  no_bracket : SeesSection L.lower confdata ('@' :: old) → ¬ SeesSection L.lower confdata ('@' :: new) → ']' ∉ new

/-- From a marked line that is no header of the old name the engine does not read the name. -/
def StraysUnread (confdata : List Text) (old new : Text) : Prop :=
  SeesSection L.lower confdata ('@' :: old) → ¬ SeesSection L.lower confdata ('@' :: new) →
    ∀ e ∈ logicalLinesOf confdata, sectionOf L.lower e.physical = some ('@' :: old) →
      e.reading L.lower ≠ .header ('@' :: old) → ∀ h : HeaderSpaces, e.physical = h.line old →
        readLine L.lower (e.before ++ h.line new) = readLine L.lower (e.before ++ h.line old)

section agree

variable {L} {confdata : List Text} {old new : Text}

/-- What the engine reads from a marked line with the new name. -/
theorem reading_renameLogical (new : Text) (hold : IsPlainName old) {e : LogicalLine}
    (hmark : sectionOf L.lower e.physical = some ('@' :: old)) :
    ∃ h : HeaderSpaces, e.physical = h.line old ∧ (renameLogical L.lower old new e).physical = h.line new ∧
      (fits e.before (h.line new) = true →
        (renameLogical L.lower old new e).reading L.lower = readLine L.lower (e.before ++ h.line new)) := by
  obtain ⟨h, hline, hrename⟩ := exists_renameLine new hold hmark
  refine ⟨h, hline, hrename, fun hfits => ?_⟩
  have hphysical : (renameLogical L.lower old new e).physical = h.line new := hrename
  have hbefore : (renameLogical L.lower old new e).before = e.before := rfl
  rw [LogicalLine.reading_of_fits (by rw [hphysical]; exact hfits), hphysical, hbefore]

theorem renameLogical_of_not_marked {e : LogicalLine} (hmark : sectionOf L.lower e.physical ≠ some ('@' :: old)) :
    renameLogical L.lower old new e = e := by
  unfold renameLogical renameLine
  rw [if_neg hmark]

/-- Where the two readers agree, the logical lines are renamed. -/
theorem renames_renameLogical (hold : IsPlainName old) (hnew : IsPlainName new)
    (hvalid : (parseConfText L.lower confdata).syntaxErrors = []) (h : HeadersAgree L confdata old new)
    (hstray : StraysUnread L confdata old new) (hsees : SeesSection L.lower confdata ('@' :: old))
    (hunseen : ¬ SeesSection L.lower confdata ('@' :: new)) :
    Renames L.lower ('@' :: old) ('@' :: new) (renameLogical L.lower old new) (logicalLinesOf confdata) := by
  refine ⟨fun _ _ => rfl, fun e he => ?_, fun e he hr => hunseen (seesSection_iff.2 ⟨e, he, hr⟩)⟩
  have hother : ∀ r : Reading, r ≠ .header ('@' :: old) → r.rename ('@' :: old) ('@' :: new) = r := by
    intro r hr
    cases r with
    | header name =>
      have hname : name ≠ '@' :: old := fun heq => hr (congrArg _ heq)
      simp [Reading.rename, renamed, hname]
    | nothing | entry | invalid => rfl
  by_cases hmark : sectionOf L.lower e.physical = some ('@' :: old)
  · obtain ⟨hs, hline, -, hread⟩ := reading_renameLogical new hold hmark
    have hroom := h.room hsees hunseen e he hmark
    rw [hline] at hroom
    rw [hread ((hs.fits_line_iff e.before old new).2 hroom)]
    have hreading : e.reading L.lower = readLine L.lower (e.before ++ hs.line old) := by
      rw [LogicalLine.reading_of_valid ((parseConfText_syntaxErrors _).1 hvalid e he), hline]
    by_cases hheader : e.reading L.lower = .header ('@' :: old)
    · have hbefore := (h.alone hsees hunseen e he hheader).2
      have hplain := (hs.plain_of_readLine hbefore hold (hreading ▸ hheader)).1
      rw [hs.readLine_line hplain hbefore hnew (h.no_bracket hsees hunseen), hheader]
      simp [Reading.rename, renamed]
    · rw [hother _ hheader, hreading]
      exact hstray hsees hunseen e he hmark hheader hs hline
  · rw [renameLogical_of_not_marked hmark]
    exact (hother _ fun hheader => hmark (h.alone hsees hunseen e he hheader).1).symm

theorem isEngineRename_of_agree (hold : IsPlainName old) (hnew : IsPlainName new)
    (hvalid : (parseConfText L.lower confdata).syntaxErrors = []) (h : HeadersAgree L confdata old new)
    (hstray : StraysUnread L confdata old new) :
    IsEngineRename L.lower confdata old new (renameDbSection L.lower confdata old new) := by
  rw [renameDbSection_eq]
  by_cases hsees : SeesSection L.lower confdata ('@' :: old)
  · rw [if_neg (not_not_intro (h.old_iff.1 hsees))]
    by_cases hnew' : SeesSection L.lower confdata ('@' :: new)
    · rw [if_pos ((h.new_iff hsees).1 hnew')]
      exact ⟨fun _ habsent => absurd hnew' habsent, fun habsent => absurd hsees habsent,
        ⟨fun _ => ⟨hsees, hnew'⟩, fun _ => rfl⟩, fun _ => rfl⟩
    · rw [if_neg fun hmark => hnew' ((h.new_iff hsees).2 hmark)]
      refine ⟨fun _ _ => ?_, fun habsent => absurd hsees habsent, ⟨nofun, fun hboth => absurd hboth.2 hnew'⟩, nofun⟩
      exact parseConfText_rename (logicalLinesOf_renameLine hold confdata)
        (renames_renameLogical hold hnew hvalid h hstray hsees hnew') hvalid
  · rw [if_pos fun hmark => hsees (h.old_iff.2 hmark)]
    exact ⟨fun hold' => absurd hold' hsees, fun _ => rfl, ⟨nofun, fun hboth => absurd hboth.1 hsees⟩, nofun⟩

/-! ### Only there -/

variable (hold : IsPlainName old) (hne : old ≠ new)
  (h : IsEngineRename L.lower confdata old new (renameDbSection L.lower confdata old new))

include hold hne h

/-- A file in which the engine sees the section of the old name is one where it is marked, and the other way round. -/
theorem IsEngineRename.sees_iff :
    SeesSection L.lower confdata ('@' :: old) ↔ MarksSection L.lower confdata old := by
  rw [renameDbSection_eq] at h
  constructor
  · intro hsees
    by_contra hmark
    rw [if_pos hmark] at h
    have hunseen : ¬ SeesSection L.lower confdata ('@' :: new) := by
      intro hnew
      cases h.kept_iff.2 ⟨hsees, hnew⟩
    have hgone := (seesSection_renameSection (fun heq => hne (List.cons.inj heq).2) (h.renames hsees hunseen) hsees).2
    exact hgone hsees
  · intro hmark
    by_contra hunseen
    rw [if_neg (not_not_intro hmark)] at h
    split at h
    · exact hunseen (h.kept_iff.1 rfl).1
    · exact map_renameLine_ne hold hne hmark (h.absent hunseen)

/-- So it is with the new name, where the old one is seen. -/
theorem IsEngineRename.sees_new_iff (hsees : SeesSection L.lower confdata ('@' :: old)) :
    SeesSection L.lower confdata ('@' :: new) ↔ MarksSection L.lower confdata new := by
  have hmark := (h.sees_iff hold hne).1 hsees
  rw [renameDbSection_eq, if_neg (not_not_intro hmark)] at h
  split at h
  · rename_i hmarknew
    exact iff_of_true (h.kept_iff.1 rfl).2 hmarknew
  · rename_i hmarknew
    refine iff_of_false (fun hnew => ?_) hmarknew
    cases h.kept_iff.2 ⟨hsees, hnew⟩

/-- The renamed file is read as the file with the section renamed. -/
theorem IsEngineRename.parse_map (hsees : SeesSection L.lower confdata ('@' :: old))
    (hunseen : ¬ SeesSection L.lower confdata ('@' :: new)) :
    parseConfText L.lower (confdata.map (renameLine L.lower old new)) =
      (parseConfText L.lower confdata).renameSection ('@' :: old) ('@' :: new) := by
  have hmark := (h.sees_iff hold hne).1 hsees
  have hmarknew := mt (h.sees_new_iff hold hne hsees).2 hunseen
  have hparse := h.renames hsees hunseen
  rwa [renameDbSection_eq, if_neg (not_not_intro hmark), if_neg hmarknew] at hparse

theorem IsEngineRename.agree (hvalid : (parseConfText L.lower confdata).syntaxErrors = []) :
    HeadersAgree L confdata old new := by
  have hat : '@' :: old ≠ '@' :: new := fun heq => hne (List.cons.inj heq).2
  have hlines : ∀ e ∈ logicalLinesOf confdata, renameLogical L.lower old new e ∈
      logicalLinesOf (confdata.map (renameLine L.lower old new)) := by
    intro e he
    rw [logicalLinesOf_renameLine hold]
    exact List.mem_map_of_mem he
  refine ⟨h.sees_iff hold hne, h.sees_new_iff hold hne, fun hsees hunseen e he hheader => ?_,
    fun hsees hunseen e he hmark => ?_, fun hsees hunseen => ?_⟩
  · have hparse := h.parse_map hold hne hsees hunseen
    -- after the rename the old name is not read from any line
    have hgone : (renameLogical L.lower old new e).reading L.lower ≠ .header ('@' :: old) := fun hr =>
      (seesSection_renameSection hat hparse hsees).2 (seesSection_iff.2 ⟨_, hlines e he, hr⟩)
    have hmark : sectionOf L.lower e.physical = some ('@' :: old) := by
      by_contra hmark
      rw [renameLogical_of_not_marked hmark] at hgone
      exact hgone hheader
    refine ⟨hmark, ?_⟩
    by_contra hbefore
    obtain ⟨hs, hline, hphysical, hread⟩ := reading_renameLogical new hold hmark
    have hvalid' : (renameLogical L.lower old new e).reading L.lower ≠ .invalid := by
      refine (parseConfText_syntaxErrors _).1 ?_ _ (hlines e he)
      rw [hparse]
      exact hvalid
    have hfits := LogicalLine.fits_of_valid hvalid'
    rw [hphysical] at hfits
    refine hgone ((hread hfits).trans ?_)
    refine hs.readLine_of_before hbefore ?_ new
    rw [← hheader, LogicalLine.reading_of_valid (by rw [hheader]; nofun), hline]
  · have hparse := h.parse_map hold hne hsees hunseen
    obtain ⟨hs, hline, hphysical, -⟩ := reading_renameLogical new hold hmark
    have hvalid' : (renameLogical L.lower old new e).reading L.lower ≠ .invalid := by
      refine (parseConfText_syntaxErrors _).1 ?_ _ (hlines e he)
      rw [hparse]
      exact hvalid
    have hfits := LogicalLine.fits_of_valid hvalid'
    rw [hphysical] at hfits
    rw [hline]
    exact (hs.fits_line_iff e.before old new).1 hfits
  · have hparse := h.parse_map hold hne hsees hunseen
    obtain ⟨e, -, hr⟩ := seesSection_iff.1 (seesSection_renameSection hat hparse hsees).1
    rw [LogicalLine.reading_of_valid (by rw [hr]; nofun)] at hr
    exact HeaderSpaces.close_not_mem_of_readLine hr

end agree

/-- `renameDbSection` is the rename of the section for the engine where the two readers agree on the headers and no name
is read from a stray one, and it is only where they agree. -/
theorem renameDbSection_engine (confdata : List Text) (old new : Text)
    (hvalid : (parseConfText L.lower confdata).syntaxErrors = []) (hold : IsPlainName old) (hnew : IsPlainName new)
    (hne : old ≠ new) :
    (HeadersAgree L confdata old new ∧ StraysUnread L confdata old new →
      IsEngineRename L.lower confdata old new (renameDbSection L.lower confdata old new)) ∧
    (IsEngineRename L.lower confdata old new (renameDbSection L.lower confdata old new) →
      HeadersAgree L confdata old new) :=
  ⟨fun h => isEngineRename_of_agree hold hnew hvalid h.1 h.2, fun h => h.agree hold hne hvalid⟩

/-- A file with one section of a database. -/
def demoConf : List Text := ["[service]".toList, "server=demodb".toList, "[@demodb]".toList, "ha_mode=on".toList]

theorem renameDbSection_engine_demo :
    IsEngineRename asciiLower.lower demoConf "demodb".toList "testdb".toList
      (renameDbSection asciiLower.lower demoConf "demodb".toList "testdb".toList) := by
  have hmarked : ∀ e ∈ logicalLinesOf demoConf, sectionOf asciiLower.lower e.physical = some ('@' :: "demodb".toList) →
      e.reading asciiLower.lower = .header ('@' :: "demodb".toList) := by decide
  refine (renameDbSection_engine asciiLower demoConf _ _ (by decide) (by decide) (by decide) (by decide)).1 ⟨?_, ?_⟩
  · exact ⟨by decide, by decide, fun _ _ => by decide, fun _ _ => by decide, fun _ _ => by decide⟩
  · exact fun _ _ e he hmark hother => absurd (hmarked e he hmark) hother

/-- The header is in a value that goes on over two lines: the engine sees no section, and the line is renamed. -/
theorem renameDbSection_engine_fails :
    ¬ ∀ (confdata : List Text) (old new : Text), (parseConfText asciiLower.lower confdata).syntaxErrors = [] →
      IsPlainName old → IsPlainName new → old ≠ new →
        IsEngineRename asciiLower.lower confdata old new (renameDbSection asciiLower.lower confdata old new) := by
  intro h
  have hrename := h ["[service]".toList, "server=demodb\\".toList, "[@demodb]".toList] "demodb".toList "testdb".toList
    (by decide) (by decide) (by decide) (by decide)
  exact absurd (hrename.absent (by decide)) (by decide)

end CubridWebManager.Conf
