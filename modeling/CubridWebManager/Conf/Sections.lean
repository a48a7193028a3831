import CubridWebManager.Conf.LogicalLines

/-!
# The sections of a file

What `parseConfText` returns, in terms of the logical lines: a section is there for the keys before any header and for
every header name (`headersOf`), in the order of the first headers, and its entries are those read while it is the
current one (`entriesOf`); there is no syntax error just if no logical line is invalid.
-/

namespace CubridWebManager.Conf

variable (lower : Text → Text)

/-- The entries of section `name`, from a place where `current` is the current section. -/
def entriesOf (name : Option Text) : Option Text → List LogicalLine → List ConfTextEntry
  | _, [] => []
  | current, e :: es =>
    match e.reading lower with
    | .header n => entriesOf name (some n) es
    | .entry key value =>
      if current = name then ⟨key, value, e.start⟩ :: entriesOf name current es else entriesOf name current es
    | .nothing | .invalid => entriesOf name current es

/-- The names of the headers that are not among `known`, each with the line of its first header. -/
def headersOf : List (Option Text) → List LogicalLine → List (Text × Nat)
  | _, [] => []
  | known, e :: es =>
    match e.reading lower with
    | .header n => if some n ∈ known then headersOf known es else (n, e.start) :: headersOf (known ++ [some n]) es
    | .entry _ _ | .nothing | .invalid => headersOf known es

/-- The section of a header, with its entries. -/
def sectionOfHeader (current : Option Text) (es : List LogicalLine) (header : Text × Nat) : ConfTextSection :=
  ⟨some header.1, some header.2, entriesOf lower (some header.1) current es⟩

variable {lower}

theorem Sections.read_eq (s : Sections) (e : LogicalLine) : s.read lower e =
    if e.reading lower = .invalid then
      (if fits e.before e.physical then
        s.pushError e.start "Not a valid \"key = value\" line, section header, or # comment"
      else s.pushError e.last "Line is longer than the engine's 510-byte limit")
    else s.apply e.start (e.reading lower) := by
  unfold Sections.read LogicalLine.reading
  by_cases hfits : fits e.before e.physical = true
  · simp only [hfits, ↓reduceIte]
    split
    · rename_i hinvalid
      rw [hinvalid]
      rfl
    · rfl
  · simp only [hfits, Bool.false_eq_true, ↓reduceIte]

theorem not_mem_known_of_mem_headersOf {known : List (Option Text)} {es : List LogicalLine} {header : Text × Nat}
    (h : header ∈ headersOf lower known es) : some header.1 ∉ known := by
  induction es generalizing known with
  | nil => cases h
  | cons e es ih =>
    unfold headersOf at h
    split at h
    · split at h
      · exact ih h
      · rename_i n _ hnew
        rcases List.mem_cons.1 h with rfl | hrest
        · exact hnew
        · exact fun hmem => ih hrest (List.mem_append_left _ hmem)
    all_goals exact ih h

theorem sectionOfHeader_congr {current current' : Option Text} {es es' : List LogicalLine}
    (h : ∀ name, entriesOf lower name current es = entriesOf lower name current' es') :
    sectionOfHeader lower current es = sectionOfHeader lower current' es' := by
  funext header
  simp only [sectionOfHeader, h]

/-- The sections after a part of the file: those before have their new entries, and those of the new headers follow. -/
theorem foldl_read_order (es : List LogicalLine) (s : Sections)
    (hcurrent : s.current ∈ s.order.map ConfTextSection.name) :
    (es.foldl (Sections.read lower) s).order =
      (s.order.map fun c => { c with entries := c.entries ++ entriesOf lower c.name s.current es }) ++
        (headersOf lower (s.order.map ConfTextSection.name) es).map (sectionOfHeader lower s.current es) := by
  induction es generalizing s with
  | nil => simp [entriesOf, headersOf]
  | cons e es ih =>
    rw [List.foldl_cons]
    cases hr : e.reading lower with
    | nothing =>
      have hread : s.read lower e = s := by simp [Sections.read_eq, hr, Sections.apply]
      have hentries : ∀ name, entriesOf lower name s.current (e :: es) = entriesOf lower name s.current es :=
        fun name => by simp only [entriesOf, hr]
      rw [hread, ih s hcurrent, sectionOfHeader_congr hentries]
      simp only [hentries, headersOf, hr]
    | invalid =>
      have hread : (s.read lower e).order = s.order ∧ (s.read lower e).current = s.current := by
        rw [Sections.read_eq, if_pos hr]
        split <;> exact ⟨rfl, rfl⟩
      have hentries : ∀ name, entriesOf lower name s.current (e :: es) = entriesOf lower name s.current es :=
        fun name => by simp only [entriesOf, hr]
      rw [ih _ (by rw [hread.1, hread.2]; exact hcurrent), hread.1, hread.2, sectionOfHeader_congr hentries]
      simp only [hentries, headersOf, hr]
    | header n =>
      have hread : s.read lower e = s.sectionFor n e.start := by simp [Sections.read_eq, hr, Sections.apply]
      have hentries : ∀ name, entriesOf lower name s.current (e :: es) = entriesOf lower name (some n) es :=
        fun name => by simp only [entriesOf, hr]
      have hcurrent' : (s.sectionFor n e.start).current = some n := rfl
      rw [hread, sectionOfHeader_congr hentries]
      simp only [hentries]
      by_cases hknown : some n ∈ s.order.map ConfTextSection.name
      · have horder : (s.sectionFor n e.start).order = s.order := if_pos hknown
        rw [ih _ (by rw [horder]; exact hknown), horder, hcurrent']
        simp only [headersOf, hr, if_pos hknown]
      · have horder : (s.sectionFor n e.start).order = s.order ++ [⟨some n, some e.start, []⟩] := if_neg hknown
        have hnames : (s.order ++ [(⟨some n, some e.start, []⟩ : ConfTextSection)]).map ConfTextSection.name =
            s.order.map ConfTextSection.name ++ [some n] := by simp
        rw [ih _ (by rw [horder, hnames]; exact List.mem_append_right _ (List.mem_singleton_self _)), horder, hnames,
          hcurrent']
        simp [headersOf, hr, hknown, sectionOfHeader]
    | entry key value =>
      have hread : s.read lower e = s.pushEntry ⟨key, value, e.start⟩ := by simp [Sections.read_eq, hr, Sections.apply]
      have hnames : (s.pushEntry ⟨key, value, e.start⟩).order.map ConfTextSection.name =
          s.order.map ConfTextSection.name := by
        simp only [Sections.pushEntry, List.map_map]
        refine List.map_congr_left fun c _ => ?_
        simp only [Function.comp]
        split <;> rfl
      rw [hread, ih _ (by rw [hnames]; exact hcurrent), hnames]
      have hheaders : headersOf lower (s.order.map ConfTextSection.name) (e :: es) =
          headersOf lower (s.order.map ConfTextSection.name) es := by simp only [headersOf, hr]
      rw [hheaders]
      congr 1
      · simp only [Sections.pushEntry, List.map_map]
        refine List.map_congr_left fun c _ => ?_
        simp only [Function.comp, entriesOf, hr]
        by_cases hc : c.name = s.current
        · simp [hc]
        · have hc' : ¬ s.current = c.name := fun h => hc h.symm
          simp [hc, hc']
      · refine List.map_congr_left fun header hmem => ?_
        have hne : s.current ≠ some header.1 := by
          intro heq
          exact not_mem_known_of_mem_headersOf hmem (heq ▸ hcurrent)
        have hcurrent' : (s.pushEntry ⟨key, value, e.start⟩).current = s.current := rfl
        simp only [sectionOfHeader, entriesOf, hr, if_neg hne, hcurrent']

/-- The sections of a file. -/
theorem parseConfText_sections (physical : List Text) : (parseConfText lower physical).sections =
    ((⟨none, none, entriesOf lower none none (logicalLinesOf physical)⟩ : ConfTextSection) ::
      (headersOf lower [none] (logicalLinesOf physical)).map
        (sectionOfHeader lower none (logicalLinesOf physical))).filter
      fun s => s.name ≠ none ∨ s.entries ≠ [] := by
  have hread := readAll_eq lower physical ⟨.start, [], 0⟩ 1
  have horder := @foldl_read_order lower (logicalLinesOf physical) .start (List.mem_singleton_self _)
  simp only [parseConfText]
  rw [hread]
  exact congrArg _ horder

/-! ### Names of sections -/

/-- The engine sees a section with this name. -/
def SeesSection (lower : Text → Text) (physical : List Text) (name : Text) : Prop :=
  ∃ s ∈ (parseConfText lower physical).sections, s.name = some name

instance (physical : List Text) (name : Text) : Decidable (SeesSection lower physical name) :=
  inferInstanceAs (Decidable (∃ s ∈ _, _))

theorem exists_mem_headersOf_iff {known : List (Option Text)} {es : List LogicalLine} {name : Text} :
    (∃ header ∈ headersOf lower known es, header.1 = name) ↔
      some name ∉ known ∧ ∃ e ∈ es, e.reading lower = .header name := by
  induction es generalizing known with
  | nil => simp [headersOf]
  | cons e es ih =>
    unfold headersOf
    split
    · rename_i n hr
      split
      · rename_i hknown
        rw [ih]
        refine and_congr_right fun hname => ?_
        have hne : n ≠ name := fun heq => hname (heq ▸ hknown)
        simp [hr, hne]
      · rename_i hnew
        simp only [List.mem_cons, exists_eq_or_imp, ih, hr, Reading.header.injEq]
        constructor
        · rintro (rfl | ⟨hname, he⟩)
          · exact ⟨hnew, .inl rfl⟩
          · exact ⟨fun hmem => hname (List.mem_append_left _ hmem), .inr he⟩
        · rintro ⟨hname, rfl | he⟩
          · exact .inl rfl
          · by_cases heq : n = name
            · exact .inl heq
            · refine .inr ⟨fun hmem => ?_, he⟩
              rcases List.mem_append.1 hmem with hold | hlast
              · exact hname hold
              · exact heq (Option.some.inj (List.mem_singleton.1 hlast)).symm
    all_goals
      rename_i hr
      rw [ih]
      simp [hr]

theorem seesSection_iff {physical : List Text} {name : Text} :
    SeesSection lower physical name ↔ ∃ e ∈ logicalLinesOf physical, e.reading lower = .header name := by
  have hheaders := @exists_mem_headersOf_iff lower [none] (logicalLinesOf physical) name
  rw [and_iff_right (by simp)] at hheaders
  rw [← hheaders, SeesSection, parseConfText_sections]
  constructor
  · rintro ⟨s, hs, hname⟩
    rcases List.mem_cons.1 (List.mem_of_mem_filter hs) with rfl | hmem
    · cases hname
    · obtain ⟨header, hheader, rfl⟩ := List.mem_map.1 hmem
      exact ⟨header, hheader, Option.some.inj hname⟩
  · rintro ⟨header, hheader, rfl⟩
    refine ⟨sectionOfHeader lower none (logicalLinesOf physical) header, ?_, rfl⟩
    refine List.mem_filter.2 ⟨List.mem_cons_of_mem _ (List.mem_map_of_mem hheader), ?_⟩
    simp [sectionOfHeader]

/-! ### Syntax errors -/

theorem foldl_read_errors (es : List LogicalLine) (s : Sections) :
    (es.foldl (Sections.read lower) s).syntaxErrors = [] ↔
      s.syntaxErrors = [] ∧ ∀ e ∈ es, e.reading lower ≠ .invalid := by
  induction es generalizing s with
  | nil => simp
  | cons e es ih =>
    rw [List.foldl_cons, ih, List.forall_mem_cons, ← and_assoc]
    refine and_congr_left fun _ => ?_
    rw [Sections.read_eq]
    by_cases hr : e.reading lower = .invalid
    · rw [if_pos hr]
      split <;> simp [Sections.pushError, hr]
    · rw [if_neg hr]
      cases h : e.reading lower with
      | invalid => exact absurd h hr
      | nothing | header | entry => simp [Sections.apply, Sections.sectionFor, Sections.pushEntry]

/-- There is no syntax error just if no logical line is invalid. -/
theorem parseConfText_syntaxErrors (physical : List Text) :
    (parseConfText lower physical).syntaxErrors = [] ↔ ∀ e ∈ logicalLinesOf physical, e.reading lower ≠ .invalid := by
  have hread := readAll_eq lower physical ⟨.start, [], 0⟩ 1
  simp only [parseConfText]
  rw [hread]
  exact (foldl_read_errors _ _).trans (and_iff_right rfl)

end CubridWebManager.Conf
