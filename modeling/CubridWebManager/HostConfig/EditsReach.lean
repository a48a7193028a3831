import CubridWebManager.Conf.HeaderLine
import CubridWebManager.Conf.Readings
import CubridWebManager.HostConfig.ConfWriters

/-!
# Where the edits of cubrid.conf take effect

`ensureDbHaModeOff` and `setAutoStart` add a line at a place that they find with a search for a text, or with the number
of a header.  They are meant to have their effect in what the engine reads and none beside it (`HaModeEdited`,
`AutostartEdited`), and to find nothing to do when they are repeated (`Reaches`).
-/

namespace CubridWebManager.HostConfig

open Conf

/-! ### What the edits are meant to do -/

def isHaMode (lower : Text → Text) (key : Text × Text) : Bool := lower key.1 = "ha_mode".toList

def isServer (lower : Text → Text) (key : Text × Text) : Bool := lower key.1 = "server".toList

/-- The values of `ha_mode` in the section of the database. -/
def haModes (lower : Text → Text) (dbname : Text) (confdata : List Text) : List Text :=
  (((parseConfText lower confdata).keysOf (some ('@' :: dbname))).filter (isHaMode lower)).map Prod.snd

/-- The other keys of a section. -/
def keysBesideHaMode (lower : Text → Text) (dbname : Text) (confdata : List Text) (name : Option Text) :
    List (Text × Text) :=
  ((parseConfText lower confdata).keysOf name).filter fun key => !(name = some ('@' :: dbname) && isHaMode lower key)

/-- `[@dbname] ha_mode` is off, unless it was set, and all else is as it was. -/
structure HaModeEdited (lower : Text → Text) (dbname : Text) (confdata lines : List Text) : Prop where
  haMode : haModes lower dbname lines =
    if haModes lower dbname confdata = [] then ["off".toList] else haModes lower dbname confdata
  others : ∀ name, keysBesideHaMode lower dbname lines name = keysBesideHaMode lower dbname confdata name

/-- The list without the last element that `p` holds of. -/
def eraseLast {α : Type} (p : α → Bool) (l : List α) : List α := (l.reverse.eraseP p).reverse

/-- The keys of a section, but for the autostart list that the engine uses. -/
def keysBesideAutostart (lower : Text → Text) (confdata : List Text) (name : Option Text) : List (Text × Text) :=
  let keys := (parseConfText lower confdata).keysOf name
  if name = some serviceName then eraseLast (isServer lower) keys else keys

structure AutostartEdited (lower : Text → Text) (dbname : Text) (confdata lines : List Text) : Prop where
  autostart : isAutostart lower lines dbname = true
  syntaxErrors : (parseConfText lower lines).syntaxErrors = []
  others : ∀ name, keysBesideAutostart lower lines name = keysBesideAutostart lower confdata name

/-- Unless it throws, the edit does what it is meant to do, and done again it writes nothing. -/
def Reaches (edit : Option (List Text) → Option (Option (List Text))) (Done : List Text → List Text → Prop)
    (confdata : List Text) : Prop :=
  ∀ written, edit (some confdata) = some written →
    Done confdata (written.getD confdata) ∧ edit (some (written.getD confdata)) = some none

/-! ### Where they do -/

def dbHeader (dbname : Text) : Text := '[' :: '@' :: dbname ++ [']']

/-- The place that `ha_mode=off` is written to is in the section of the database: after the line that is found, or after
the header that is appended, which no line that goes on may take a key from. -/
def HaModeFits (lower : Text → Text) (dbname : Text) (confdata : List Text) : Prop :=
  confdata = [] ∨ haModes lower dbname confdata ≠ [] ∨
    match confdata.findIdx? fun line => line.trim = dbHeader dbname with
    | some i => sectionAt lower (confdata.take (i + 1)) = some ('@' :: dbname)
    | none =>
      (∀ r ∈ readingsFrom lower (pendingAfter [] confdata) [[], dbHeader dbname], ∀ key value, r ≠ .entry key value) ∧
        sectionAt lower (confdata ++ [[], dbHeader dbname]) = some ('@' :: dbname)

/-- The list that the name is added to can be edited as the engine reads it, or the header that a list is added to is
one line. -/
def AutostartFits (lower : Text → Text) (dbname : Text) (confdata : List Text) : Prop :=
  if serverEntries lower confdata = [] then
    ∀ headerLine, serviceHeaderLine lower confdata = some headerLine → utf8Length dbname ≤ 503 ∧
      ∀ e ∈ logicalLinesOf confdata, e.start = headerLine → e.last = headerLine
  else
    isAutostart lower confdata dbname = true ∨
      ∀ b ∈ editedBlocks lower confdata true, ListEditable (fun names => names ++ [dbname]) b

/-- `toLowerCase` leaves lower case letters and underscores as they are. -/
def KeepsLower (lower : Text → Text) : Prop :=
  ∀ t : Text, (∀ c ∈ t, c.isLower = true ∨ c = '_') → lower t = t

theorem KeepsLower.eq {lower : Text → Text} (h : KeepsLower lower) (t : Text)
    (ht : t.all (fun c => c.isLower || c == '_') = true) : lower t = t :=
  h t fun c hc => by simpa using List.all_eq_true.1 ht c hc

/-! ### The keys of a section -/

section keys

variable {lower : Text → Text} {confdata : List Text} {dbname : Text}

theorem hasHaMode_iff : hasHaMode lower confdata ('@' :: dbname) = true ↔ haModes lower dbname confdata ≠ [] := by
  rw [hasHaMode, List.any_eq_true, haModes, Ne, List.map_eq_nil_iff, List.filter_eq_nil_iff, keysOf_parseConfText]
  have hsection : ∀ s ∈ (parseConfText lower confdata).sections, s.name = some ('@' :: dbname) →
      s.entries.map (fun e => (e.key, e.value)) = keysIn (some ('@' :: dbname)) none (readingsOf lower confdata) := by
    intro s hs hname
    rw [entries_of_mem_sections hs, hname, map_entriesOf, readings_logicalLinesOf]
  constructor
  · rintro ⟨s, hs, h⟩ hnone
    rw [Bool.and_eq_true, decide_eq_true_eq, List.any_eq_true] at h
    obtain ⟨hname, e, he, hkey⟩ := h
    cases hsome : s.name with
    | none =>
      rw [hsome] at hname
      cases hname
    | some n =>
      rw [hsome] at hname
      obtain rfl : n = '@' :: dbname := hname
      have hmem : (e.key, e.value) ∈ keysIn (some ('@' :: dbname)) none (readingsOf lower confdata) := by
        rw [← hsection s hs hsome]
        exact List.mem_map_of_mem he
      exact hnone _ hmem hkey
  · intro hsome
    obtain ⟨key, hmem, hkey⟩ : ∃ key ∈ keysIn (some ('@' :: dbname)) none (readingsOf lower confdata),
        isHaMode lower key = true := by
      by_contra hno
      exact hsome fun key hmem hkey => hno ⟨key, hmem, hkey⟩
    rw [← keysOf_parseConfText] at hmem
    unfold ParsedConfText.keysOf at hmem
    split at hmem
    · cases hmem
    · rename_i s hs
      obtain ⟨e, he, rfl⟩ := List.mem_map.1 hmem
      have hname := List.find?_some hs
      refine ⟨s, List.mem_of_find?_eq_some hs, ?_⟩
      rw [of_decide_eq_true hname, Bool.and_eq_true, decide_eq_true_eq, List.any_eq_true]
      exact ⟨rfl, e, he, hkey⟩

theorem map_serverEntries (confdata : List Text) : (serverEntries lower confdata).map (fun e => (e.key, e.value)) =
    ((parseConfText lower confdata).keysOf (some serviceName)).filter (isServer lower) := by
  unfold serverEntries ParsedConfText.keysOf serviceName
  cases (parseConfText lower confdata).sections.find? fun s => s.name = some "service".toList with
  | none => rfl
  | some s => rw [List.filter_map]; rfl

end keys

/-! ### ha_mode -/

section haMode

variable {lower : Text → Text} {confdata lines : List Text} {dbname : Text}

/-- What the engine makes of `ha_mode=off`, put into the file after `before` with `rs` before it. -/
theorem haModeEdited_iff {before rs after : List Reading} (hold : readingsOf lower confdata = before ++ after)
    (hnew : readingsOf lower lines = before ++ (rs ++ [.entry "ha_mode".toList "off".toList]) ++ after)
    (hplace : rs = [] ∨ after = []) (hkeeps : KeepsLower lower) (hnone : haModes lower dbname confdata = []) :
    HaModeEdited lower dbname confdata lines ↔
      (∀ r ∈ rs, ∀ key value, r ≠ .entry key value) ∧ sectionAfter none (before ++ rs) = some ('@' :: dbname) := by
  rw [sectionAfter_append]
  generalize hcurrent : sectionAfter none before = current
  have holdKeys : ∀ name, (parseConfText lower confdata).keysOf name =
      keysIn name none before ++ keysIn name current after := fun name => by
    rw [keysOf_parseConfText, hold, keysIn_append, hcurrent]
  have hnewKeys : ∀ name, (parseConfText lower lines).keysOf name = keysIn name none before ++
      keysIn name current (rs ++ [.entry "ha_mode".toList "off".toList]) ++ keysIn name current after := by
    intro name
    rw [keysOf_parseConfText, hnew, keysIn_append, keysIn_append, sectionAfter_append, hcurrent]
    rcases hplace with rfl | rfl
    · rfl
    · simp only [keysIn]
  have hkey : isHaMode lower ("ha_mode".toList, "off".toList) = true :=
    decide_eq_true (hkeeps.eq _ (by decide))
  have hadded : ∀ name, keysIn name current (rs ++ [.entry "ha_mode".toList "off".toList]) =
      keysIn name current rs ++ if sectionAfter current rs = name then [("ha_mode".toList, "off".toList)] else [] :=
    fun name => keysIn_append name current rs _
  have hbefore : (keysIn (some ('@' :: dbname)) none before).filter (isHaMode lower) = [] ∧
      (keysIn (some ('@' :: dbname)) current after).filter (isHaMode lower) = [] := by
    rw [haModes, List.map_eq_nil_iff, holdKeys, List.filter_append, List.append_eq_nil_iff] at hnone
    exact hnone
  have hvalues : haModes lower dbname lines =
      ((keysIn (some ('@' :: dbname)) current (rs ++ [.entry "ha_mode".toList "off".toList])).filter
        (isHaMode lower)).map Prod.snd := by
    rw [haModes, hnewKeys, List.filter_append, List.filter_append, hbefore.1, hbefore.2, List.nil_append,
      List.append_nil]
  have hothers : ∀ name, keysBesideHaMode lower dbname lines name = keysBesideHaMode lower dbname confdata name ↔
      (keysIn name current (rs ++ [.entry "ha_mode".toList "off".toList])).filter
        (fun key => !(name = some ('@' :: dbname) && isHaMode lower key)) = [] := by
    intro name
    rw [keysBesideHaMode, keysBesideHaMode, holdKeys, hnewKeys, List.filter_append, List.filter_append,
      List.filter_append, List.append_left_inj, List.append_right_eq_self]
  constructor
  · intro hedited
    have hnil := fun name => (hothers name).1 (hedited.others name)
    simp only [hadded, List.filter_append, List.append_eq_nil_iff] at hnil
    have hsection : sectionAfter current rs = some ('@' :: dbname) := by
      by_contra hne
      have hlast := (hnil (sectionAfter current rs)).2
      simp [hne] at hlast
    have hhaMode := hedited.haMode
    rw [if_pos hnone, hvalues, hadded, if_pos hsection, List.filter_append, List.map_append,
      List.filter_cons_of_pos hkey] at hhaMode
    have hunset := List.map_eq_nil_iff.1 (List.append_left_eq_self.1 hhaMode)
    have hkeys : ∀ name, keysIn name current rs = [] := by
      intro name
      refine List.eq_nil_iff_forall_not_mem.2 fun key hmem => ?_
      have hname := List.filter_eq_nil_iff.1 (hnil name).1 key hmem
      simp only [Bool.not_eq_true', Bool.not_eq_false, Bool.and_eq_true, decide_eq_true_eq] at hname
      obtain ⟨rfl, hmode⟩ := hname
      exact List.filter_eq_nil_iff.1 hunset key hmem hmode
    exact ⟨forall_keysIn_eq_nil_iff.1 hkeys, hsection⟩
  · rintro ⟨hrs, hsection⟩
    have hnil : ∀ name, keysIn name current rs = [] := forall_keysIn_eq_nil_iff.2 hrs
    refine ⟨?_, fun name => (hothers name).2 ?_⟩
    · rw [if_pos hnone, hvalues, hadded, hnil, if_pos hsection, List.nil_append, List.filter_cons_of_pos hkey]
      rfl
    · rw [hadded, hnil, List.nil_append, hsection]
      by_cases hname : name = some ('@' :: dbname)
      · simpa [hname] using hkey
      · simp [Ne.symm hname]

theorem ensureDbHaModeOff_of_set (h : haModes lower dbname confdata ≠ []) :
    ensureDbHaModeOff lower dbname (some confdata) = some none := by
  cases confdata with
  | nil => exact absurd rfl h
  | cons line confdata => exact if_pos (hasHaMode_iff.2 h)

/-- What is read from a file with `ha_mode=off` put in after a line that does not go on. -/
theorem readingsOf_insertLine (lower : Text → Text) {i : Nat} (hi : i < confdata.length)
    (hstop : ∀ p, goesOn p confdata[i] = false) :
    readingsOf lower confdata =
      readingsOf lower (confdata.take (i + 1)) ++ readingsFrom lower [] (confdata.drop (i + 1)) ∧
    readingsOf lower (insertLine confdata (i + 1) "ha_mode=off".toList) =
      readingsOf lower (confdata.take (i + 1)) ++ [.entry "ha_mode".toList "off".toList] ++
        readingsFrom lower [] (confdata.drop (i + 1)) := by
  have hpending : pendingAfter [] (confdata.take (i + 1)) = [] := by
    rw [List.take_succ_eq_append_getElem hi]
    exact pendingAfter_concat hstop _ _
  constructor
  · conv_lhs => rw [← List.take_append_drop (i + 1) confdata]
    rw [readingsOf, readingsFrom_append, hpending]
    rfl
  · rw [readingsOf, insertLine, readingsFrom_append, hpending, readingsFrom]
    rw [List.append_assoc]
    rfl

theorem not_goesOn_of_trim {line : Text} (h : line.trim = dbHeader dbname) (p : Text) : goesOn p line = false := by
  obtain ⟨left, right, hleft, hright, hline⟩ := Trim.exists_trim_parts Text.isSpace line
  let hs : HeaderSpaces := ⟨left, [], [], [], right, by simpa using hleft.append hright⟩
  have heq : line = hs.line dbname := by
    rw [hline, ← trim_eq, h]
    simp [hs, HeaderSpaces.line, dbHeader]
  rw [heq]
  exact hs.not_goesOn p dbname

theorem not_goesOn_dbHeader (dbname p : Text) : goesOn p (dbHeader dbname) = false := by
  refine not_goesOn_of_trim (Trim.trim_of_bare ⟨?_, fun c hc => ?_⟩) p
  · rintro c ⟨⟩
    rfl
  · rw [dbHeader, List.getLast?_concat] at hc
    obtain rfl := Option.some.inj hc
    rfl

/-- What is read from a file with the section of the database appended. -/
theorem readingsOf_append_section (lower : Text → Text) (confdata : List Text) (dbname : Text) :
    readingsOf lower (confdata ++ [[], dbHeader dbname, "ha_mode=off".toList]) =
      readingsOf lower confdata ++ (readingsFrom lower (pendingAfter [] confdata) [[], dbHeader dbname] ++
        [.entry "ha_mode".toList "off".toList]) := by
  have hlines : [[], dbHeader dbname, "ha_mode=off".toList] = [[], dbHeader dbname] ++ ["ha_mode=off".toList] := rfl
  have hpending : pendingAfter (pendingAfter [] confdata) [[], dbHeader dbname] = [] :=
    pendingAfter_concat (not_goesOn_dbHeader dbname) [[]] _
  rw [readingsOf, readingsFrom_append, hlines, readingsFrom_append, hpending]
  rfl

theorem haModeFits_of_unset (hne : confdata ≠ []) (hset : haModes lower dbname confdata = []) :
    HaModeFits lower dbname confdata ↔ match confdata.findIdx? fun line => line.trim = dbHeader dbname with
      | some i => sectionAt lower (confdata.take (i + 1)) = some ('@' :: dbname)
      | none =>
        (∀ r ∈ readingsFrom lower (pendingAfter [] confdata) [[], dbHeader dbname], ∀ key value, r ≠ .entry key value) ∧
          sectionAt lower (confdata ++ [[], dbHeader dbname]) = some ('@' :: dbname) := by
  simp [HaModeFits, hne, hset]

theorem ensureDbHaModeOff_of_unset (hne : confdata ≠ []) (hunset : hasHaMode lower confdata ('@' :: dbname) ≠ true) :
    ensureDbHaModeOff lower dbname (some confdata) =
      match confdata.findIdx? fun line => line.trim = dbHeader dbname with
      | none => some (some (confdata ++ [[], dbHeader dbname, "ha_mode=off".toList]))
      | some i => some (some (insertLine confdata (i + 1) "ha_mode=off".toList)) := by
  obtain ⟨line, lines, rfl⟩ := List.exists_cons_of_ne_nil hne
  exact if_neg hunset

/-- `ensureDbHaModeOff` reaches its postcondition just where `ha_mode=off` is put into the section of the database. -/
theorem ensureDbHaModeOff_reaches_iff (hkeeps : KeepsLower lower) :
    Reaches (ensureDbHaModeOff lower dbname) (HaModeEdited lower dbname) confdata ↔
      HaModeFits lower dbname confdata := by
  by_cases hne : confdata = []
  · subst hne
    exact iff_of_true (fun _ h => by cases h) (.inl rfl)
  by_cases hset : haModes lower dbname confdata = []
  swap
  · refine iff_of_true (fun written hwritten => ?_) (.inr (.inl hset))
    rw [ensureDbHaModeOff_of_set hset] at hwritten
    obtain rfl := Option.some.inj hwritten
    exact ⟨⟨(if_neg hset).symm, fun _ => rfl⟩, ensureDbHaModeOff_of_set hset⟩
  -- what is written is right just if it is right as the engine reads it, and then it is found again
  have hreaches : ∀ lines, ensureDbHaModeOff lower dbname (some confdata) = some (some lines) →
      (Reaches (ensureDbHaModeOff lower dbname) (HaModeEdited lower dbname) confdata ↔
        HaModeEdited lower dbname confdata lines) := by
    intro lines hlines
    constructor
    · exact fun h => (h _ hlines).1
    · intro hedited written hwritten
      obtain rfl := Option.some.inj (hlines.symm.trans hwritten)
      refine ⟨hedited, ensureDbHaModeOff_of_set ?_⟩
      have hoff := hedited.haMode
      rw [if_pos hset] at hoff
      rw [Option.getD_some, hoff]
      exact List.cons_ne_nil _ _
  have hwritten := ensureDbHaModeOff_of_unset hne fun h => hasHaMode_iff.1 h hset
  rw [haModeFits_of_unset hne hset]
  cases hfind : confdata.findIdx? fun line => line.trim = dbHeader dbname with
  | some i =>
    simp only [hfind] at hwritten ⊢
    obtain ⟨hi, hheader, -⟩ := List.findIdx?_eq_some_iff_getElem.1 hfind
    obtain ⟨hold, hnew⟩ := readingsOf_insertLine lower hi (not_goesOn_of_trim (of_decide_eq_true hheader))
    rw [hreaches _ hwritten, haModeEdited_iff hold hnew (.inl rfl) hkeeps hset, List.append_nil]
    simp [sectionAt]
  | none =>
    simp only [hfind] at hwritten ⊢
    have hnew := readingsOf_append_section lower confdata dbname
    have hsection : readingsOf lower (confdata ++ [[], dbHeader dbname]) = readingsOf lower confdata ++
        readingsFrom lower (pendingAfter [] confdata) [[], dbHeader dbname] := readingsFrom_append _ _ _
    rw [hreaches _ hwritten, haModeEdited_iff (List.append_nil _).symm (hnew.trans (List.append_nil _).symm) (.inr rfl)
      hkeeps hset, sectionAt, hsection]

end haMode

/-! ### A list for the database alone -/

section newList

variable {lower : Text → Text} {confdata : List Text} {dbname : Text}

theorem setAutoStart_of_autostart (h : isAutostart lower confdata dbname = true) :
    setAutoStart lower dbname (some confdata) = some none := by
  have hentries : serverEntries lower confdata ≠ [] := by
    intro hnil
    rw [isAutostart, hnil] at h
    cases h
  cases confdata with
  | nil => exact absurd rfl hentries
  | cons line confdata =>
    exact (if_neg hentries).trans (if_pos h)

theorem isAutostart_iff : isAutostart lower confdata dbname = true ↔ ∃ key ∈ (((parseConfText lower confdata).keysOf
    (some serviceName)).filter (isServer lower)).getLast?, dbname ∈ listNames key.2 := by
  rw [← map_serverEntries, List.getLast?_map, isAutostart, Option.any_eq_true]
  simp

/-- The header of a section is a logical line that starts on its line. -/
theorem exists_of_mem_headersOf {known : List (Option Text)} {es : List LogicalLine} {header : Text × Nat}
    (h : header ∈ headersOf lower known es) : ∃ e ∈ es, e.reading lower = .header header.1 ∧ e.start = header.2 := by
  induction es generalizing known with
  | nil => cases h
  | cons e es ih =>
    have hrest : ∀ {known}, header ∈ headersOf lower known es →
        ∃ e' ∈ e :: es, e'.reading lower = .header header.1 ∧ e'.start = header.2 := by
      intro known hmem
      obtain ⟨e', he', hr⟩ := ih hmem
      exact ⟨e', List.mem_cons_of_mem _ he', hr⟩
    unfold headersOf at h
    split at h
    · rename_i n hr
      split at h
      · exact hrest h
      · rcases List.mem_cons.1 h with rfl | h
        · exact ⟨e, List.mem_cons_self, hr, rfl⟩
        · exact hrest h
    all_goals exact hrest h

theorem exists_of_serviceHeaderLine {headerLine : Nat} (h : serviceHeaderLine lower confdata = some headerLine) :
    ∃ e ∈ logicalLinesOf confdata, e.reading lower = .header serviceName ∧ e.start = headerLine := by
  obtain ⟨s, hs, hline⟩ := Option.bind_eq_some_iff.1 h
  have hname := List.find?_some hs
  have hmem := List.mem_of_find?_eq_some hs
  rw [parseConfText_sections] at hmem
  rcases List.mem_cons.1 (List.mem_of_mem_filter hmem) with rfl | hmem
  · cases hline
  · obtain ⟨header, hheader, rfl⟩ := List.mem_map.1 hmem
    obtain ⟨e, he, hr, hstart⟩ := exists_of_mem_headersOf hheader
    have hservice : header.1 = serviceName := Option.some.inj (of_decide_eq_true hname)
    exact ⟨e, he, hservice ▸ hr, hstart.trans (Option.some.inj hline)⟩

/-- Where the last physical line of a logical line is. -/
theorem exists_split_of_mem_logicalLines {p : Text} {start n : Nat} {ls : List Text} {e : LogicalLine}
    (h : e ∈ logicalLines p start ls n) : ∃ pre post, ls = pre ++ e.physical :: post ∧ pendingAfter p pre = e.before ∧
      goesOn e.before e.physical = false ∧ e.last = n + pre.length := by
  induction ls generalizing p start n with
  | nil => cases h
  | cons l ls ih =>
    unfold logicalLines at h
    by_cases hgo : goesOn p l = true
    · simp only [hgo, ↓reduceIte] at h
      obtain ⟨pre, post, rfl, hpending, hstop, hlast⟩ := ih h
      refine ⟨l :: pre, post, rfl, ?_, hstop, ?_⟩
      · rw [pendingAfter, if_pos hgo]
        exact hpending
      · rw [hlast, List.length_cons]
        omega
    · simp only [hgo, Bool.false_eq_true, ↓reduceIte] at h
      rcases List.mem_cons.1 h with rfl | h
      · exact ⟨[], ls, rfl, rfl, by simpa using hgo, rfl⟩
      · obtain ⟨pre, post, rfl, hpending, hstop, hlast⟩ := ih h
        refine ⟨l :: pre, post, rfl, ?_, hstop, ?_⟩
        · rw [pendingAfter, if_neg hgo]
          exact hpending
        · rw [hlast, List.length_cons]
          omega

def serverLine (dbname : Text) : Text := "server=".toList ++ dbname

theorem assignedValue_of_plain (hdb : IsPlainName dbname) : assignedValue dbname = dbname := by
  have hbare : Trim.Bare isIniSpace dbname := hdb.bare.mono fun _ hc => isSpace_of_isIniSpace hc
  have htrim : iniTrim dbname = dbname := Trim.trim_of_bare hbare
  obtain ⟨c, t, hcons⟩ := List.exists_cons_of_ne_nil hdb.1
  have hc : c ∈ dbname := by rw [hcons]; exact List.mem_cons_self
  have hquote : isQuote c = false := (hdb.2 c hc).2.2.1
  have hraw : rawValue dbname = dbname := by
    rw [hcons, rawValue_cons hquote, ← hcons, List.takeWhile_eq_self_iff]
    intro d hd
    rw [(hdb.2 d hd).2.2.2.1]
    rfl
  have hpair : ¬ isQuotePair dbname := by
    rintro (heq | heq) <;> rw [heq] at hcons <;> obtain ⟨rfl, -⟩ := List.cons.inj hcons
    all_goals exact absurd hquote (by decide)
  rw [assignedValue, htrim, hraw, entryValue_eq, htrim, if_neg hpair]

theorem readLine_serverLine (lower : Text → Text) (hdb : IsPlainName dbname) :
    readLine lower (serverLine dbname) = .entry "server".toList dbname := by
  conv_rhs => rw [← assignedValue_of_plain hdb]
  exact @readLine_assign lower "server".toList (by decide) (by decide) (by decide) (by decide) dbname

theorem getLast?_serverLine (hdb : IsPlainName dbname) : (serverLine dbname).getLast? = dbname.getLast? :=
  List.getLast?_append_of_ne_nil _ hdb.1

theorem iniTrimEnd_serverLine (hdb : IsPlainName dbname) :
    iniTrimEnd (dropCr (serverLine dbname)) = serverLine dbname := by
  rw [iniTrimEnd_dropCr]
  refine Trim.rdropWhile_of_last fun c hc => ?_
  rw [getLast?_serverLine hdb] at hc
  exact Bool.eq_false_iff.2 fun hspace =>
    absurd ((hdb.bare.2 c hc).symm.trans (isSpace_of_isIniSpace hspace)) (by decide)

theorem goesOn_serverLine (hdb : IsPlainName dbname) (p : Text) : goesOn p (serverLine dbname) = false := by
  have hne : serverLine dbname ≠ [] := List.append_ne_nil_of_right_ne_nil _ hdb.1
  rw [goesOn, accumulate, iniTrimEnd_serverLine hdb, List.getLast?_append_of_ne_nil _ hne, getLast?_serverLine hdb,
    Bool.and_eq_false_iff]
  refine .inr (decide_eq_false fun hslash => ?_)
  exact (hdb.2 _ (List.mem_of_mem_getLast? hslash)).2.2.2.2 rfl

theorem fits_serverLine (h : utf8Length dbname ≤ 503) : fits [] (serverLine dbname) = true := by
  have hkey : utf8Length "server=".toList = 7 := by decide
  have hroom : 7 + utf8Length (dropCr dbname) ≤ iniMaxLineLength := by
    have hdrop := utf8Length_dropCr_le dbname
    unfold iniMaxLineLength
    omega
  rw [← hkey] at hroom
  exact fits_nil_append hroom

theorem listNames_of_plain (hdb : IsPlainName dbname) : listNames dbname = [dbname] := by
  have hcomma : ',' ∉ dbname := fun hmem => (hdb.2 _ hmem).1 rfl
  rw [listNames_eq, SepList.items_of_not_mem hcomma, Trim.trim_of_bare hdb.bare,
    List.filter_cons_of_pos (by simpa using hdb.1)]
  rfl

theorem eraseLast_of_none {α : Type} {p : α → Bool} {l : List α} (h : l.filter p = []) : eraseLast p l = l := by
  have hno : ∀ a ∈ l.reverse, ¬ p a = true := fun a ha => List.filter_eq_nil_iff.1 h a (List.mem_reverse.1 ha)
  rw [eraseLast, List.eraseP_of_forall_not hno, List.reverse_reverse]

theorem eraseLast_append_cons {α : Type} {p : α → Bool} {a : α} (ha : p a = true) {l l' : List α}
    (h : l'.filter p = []) : eraseLast p (l ++ a :: l') = l ++ l' := by
  have hno : ∀ b ∈ l'.reverse, ¬ p b = true := fun b hb => List.filter_eq_nil_iff.1 h b (List.mem_reverse.1 hb)
  rw [eraseLast, List.reverse_append, List.reverse_cons, List.append_assoc,
    List.eraseP_append_right _ hno, List.singleton_append, List.eraseP_cons_of_pos ha]
  simp

/-- A list put in after a header of `[service]`, where there was none. -/
theorem autostartEdited_of_header {lines : List Text} {before after : List Reading} (hkeeps : KeepsLower lower)
    (hvalid : (parseConfText lower confdata).syntaxErrors = []) (hdb : IsPlainName dbname)
    (hnone : serverEntries lower confdata = [])
    (hold : readingsOf lower confdata = before ++ .header serviceName :: after)
    (hnew : readingsOf lower lines = before ++ .header serviceName :: .entry "server".toList dbname :: after) :
    AutostartEdited lower dbname confdata lines := by
  have hkey : isServer lower ("server".toList, dbname) = true :=
    decide_eq_true (hkeeps.eq "server".toList (by decide))
  have holdKeys : ∀ name, (parseConfText lower confdata).keysOf name =
      keysIn name none before ++ keysIn name (some serviceName) after := fun name => by
    rw [keysOf_parseConfText, hold, keysIn_append, keysIn]
  have hnewKeys : ∀ name, (parseConfText lower lines).keysOf name = keysIn name none before ++
      if some serviceName = name then ("server".toList, dbname) :: keysIn name (some serviceName) after
      else keysIn name (some serviceName) after := fun name => by
    rw [keysOf_parseConfText, hnew, keysIn_append, keysIn, keysIn]
  have hservers := @map_serverEntries lower confdata
  rw [hnone, List.map_nil, holdKeys, List.filter_append, eq_comm, List.append_eq_nil_iff] at hservers
  refine ⟨isAutostart_iff.2 ⟨("server".toList, dbname), ?_, ?_⟩, ?_, fun name => ?_⟩
  · rw [hnewKeys, if_pos rfl, List.filter_append, hservers.1, List.filter_cons_of_pos hkey, hservers.2]
    rfl
  · rw [listNames_of_plain hdb]
    exact List.mem_singleton_self _
  · rw [syntaxErrors_eq_nil_iff, hnew]
    rw [syntaxErrors_eq_nil_iff, hold] at hvalid
    intro r hr
    rcases List.mem_append.1 hr with hr | hr
    · exact hvalid r (List.mem_append_left _ hr)
    · rcases List.mem_cons.1 hr with rfl | hr
      · simp
      · rcases List.mem_cons.1 hr with rfl | hr
        · simp
        · exact hvalid r (List.mem_append_right _ (List.mem_cons_of_mem _ hr))
  · rw [keysBesideAutostart, keysBesideAutostart, holdKeys, hnewKeys]
    by_cases hname : name = some serviceName
    · subst hname
      simp only [↓reduceIte]
      rw [eraseLast_append_cons hkey hservers.2, eraseLast_of_none]
      rw [List.filter_append, hservers.1, hservers.2]
      rfl
    · rw [if_neg hname, if_neg hname, if_neg (Ne.symm hname)]

/-- Without a list, one is added behind the header of the service. -/
theorem setAutoStart_of_none (hne : confdata ≠ []) (hnone : serverEntries lower confdata = []) :
    setAutoStart lower dbname (some confdata) = match serviceHeaderLine lower confdata with
      | none => none
      | some headerLine => some (some (insertLine confdata headerLine (serverLine dbname))) := by
  obtain ⟨line, lines, rfl⟩ := List.exists_cons_of_ne_nil hne
  exact if_pos hnone

/-- The edit that adds a list of its own. -/
theorem setAutoStart_reaches_new (hkeeps : KeepsLower lower) (hvalid : (parseConfText lower confdata).syntaxErrors = [])
    (hdb : IsPlainName dbname) (hnone : serverEntries lower confdata = [])
    (h : ∀ headerLine, serviceHeaderLine lower confdata = some headerLine → utf8Length dbname ≤ 503 ∧
      ∀ e ∈ logicalLinesOf confdata, e.start = headerLine → e.last = headerLine) :
    Reaches (setAutoStart lower dbname) (AutostartEdited lower dbname) confdata := by
  intro written hwritten
  have hne : confdata ≠ [] := by
    rintro rfl
    cases hwritten
  rw [setAutoStart_of_none hne hnone] at hwritten
  cases hheader : serviceHeaderLine lower confdata with
  | none =>
    rw [hheader] at hwritten
    cases hwritten
  | some headerLine =>
    simp only [hheader, Option.some.injEq] at hwritten
    subst hwritten
    obtain ⟨hroom, hlast⟩ := h headerLine hheader
    obtain ⟨e, he, hr, hstart⟩ := exists_of_serviceHeaderLine hheader
    obtain ⟨pre, post, hlines, hpending, hstop, hplace⟩ := exists_split_of_mem_logicalLines he
    rw [hlast e he hstart] at hplace
    have hread : (if fits e.before e.physical then readLine lower (accumulate e.before e.physical) else .invalid) =
        .header serviceName := hr
    have hnew : insertLine confdata headerLine (serverLine dbname) =
        pre ++ e.physical :: serverLine dbname :: post := by
      have hsplit : confdata = (pre ++ [e.physical]) ++ post := by rw [hlines]; simp
      have hlength : headerLine = (pre ++ [e.physical]).length := by
        rw [hplace, List.length_append, List.length_singleton, Nat.add_comm]
      rw [insertLine, hlength, hsplit, List.take_left, List.drop_left]
      simp
    have hafter : ∀ ls, readingsOf lower (pre ++ e.physical :: ls) =
        readingsOf lower pre ++ .header serviceName :: readingsFrom lower [] ls := by
      intro ls
      rw [readingsOf, readingsFrom_append, hpending, readingsFrom,
        if_neg (by rw [hstop]; exact Bool.false_ne_true), hread]
      rfl
    have hserver : readingsFrom lower [] (serverLine dbname :: post) =
        .entry "server".toList dbname :: readingsFrom lower [] post := by
      have haccumulate : accumulate [] (serverLine dbname) = serverLine dbname := iniTrimEnd_serverLine hdb
      rw [readingsFrom, if_neg (by rw [goesOn_serverLine hdb]; exact Bool.false_ne_true),
        if_pos (fits_serverLine hroom), haccumulate, readLine_serverLine lower hdb]
    have hedited : AutostartEdited lower dbname confdata (insertLine confdata headerLine (serverLine dbname)) := by
      refine autostartEdited_of_header hkeeps hvalid hdb hnone (hlines ▸ hafter post) ?_
      rw [hnew, hafter, hserver]
    exact ⟨hedited, setAutoStart_of_autostart hedited.autostart⟩

end newList

/-! ### A name at the end of the list -/

section lastList

/-- No entry is in two sections. -/
theorem eq_of_mem_blocksIn {lower : Text → Text} {name name' current : Option Text} {bs : List Block} {b : Block}
    (hbs : bs.Nodup) (h : b ∈ blocksIn lower name current bs) (h' : b ∈ blocksIn lower name' current bs) :
    name = name' := by
  induction bs generalizing current with
  | nil => cases h
  | cons c bs ih =>
    obtain ⟨hc, hbs⟩ := List.nodup_cons.1 hbs
    have hrest : ∀ name, c ∉ blocksIn lower name current bs := fun name hmem =>
      hc ((blocksIn_sublist name current bs).subset hmem)
    unfold blocksIn at h h'
    split at h
    · rename_i n hr
      simp only [hr] at h'
      exact ih hbs h h'
    · rename_i key value hr
      simp only [hr] at h'
      split at h <;> split at h'
      · rename_i hname hname'
        exact hname.symm.trans hname'
      · rcases List.mem_cons.1 h with rfl | h
        · exact absurd h' (hrest name')
        · exact ih hbs h h'
      · rcases List.mem_cons.1 h' with rfl | h'
        · exact absurd h (hrest name)
        · exact ih hbs h h'
      · exact ih hbs h h'
    all_goals
      rename_i hr
      simp only [hr] at h'
      exact ih hbs h h'

section erase

variable {α β : Type} {f : α → β} {p : β → Bool} {x : α} {l l' : List α}

theorem map_eq_of_forall₂ (h : List.Forall₂ (fun a a' => f a' = f a ∨ a = x ∧ p (f a) = true ∧ p (f a') = true) l l')
    (hx : x ∉ l) : l'.map f = l.map f := by
  have hne : ∀ a ∈ l, a ≠ x := fun a ha heq => hx (heq ▸ ha)
  have hsame : List.Forall₂ (fun a a' => f a' = f a) l l' :=
    ((List.forall₂_and_left _ _).2 ⟨hne, h⟩).imp fun a a' ha => ha.2.resolve_right fun h => ha.1 h.1
  induction hsame with
  | nil => rfl
  | cons ha _ ih =>
    cases h with
    | cons _ hrest =>
      rw [List.map_cons, List.map_cons, ha, ih hrest (fun hmem => hx (List.mem_cons_of_mem _ hmem))
        fun b hb => hne b (List.mem_cons_of_mem _ hb)]

/-- Two lists that differ in the first element that is erased are the same without it. -/
theorem map_eraseP_congr
    (h : List.Forall₂ (fun a a' => f a' = f a ∨ a = x ∧ p (f a) = true ∧ p (f a') = true) l l') (hl : l.Nodup)
    (hx : ∀ y ∈ (l.filter fun a => p (f a)).head?, y = x) : (l'.map f).eraseP p = (l.map f).eraseP p := by
  induction h with
  | nil => rfl
  | @cons a a' l l' ha hrest ih =>
    obtain ⟨hmem, hl⟩ := List.nodup_cons.1 hl
    by_cases hp : p (f a) = true
    · rw [List.filter_cons_of_pos (p := fun a => p (f a)) hp] at hx
      obtain rfl : a = x := hx a rfl
      have hp' : p (f a') = true := ha.elim (fun heq => heq ▸ hp) fun h => h.2.2
      rw [List.map_cons, List.map_cons, List.eraseP_cons_of_pos hp', List.eraseP_cons_of_pos hp,
        map_eq_of_forall₂ hrest hmem]
    · rw [List.filter_cons_of_neg (p := fun a => p (f a)) hp] at hx
      have heq : f a' = f a := ha.resolve_right fun h => hp h.2.1
      rw [List.map_cons, List.map_cons, heq, List.eraseP_cons_of_neg hp, List.eraseP_cons_of_neg hp, ih hl hx]

end erase

def blockKey (lower : Text → Text) (b : Block) : Text × Text := ((b.entry lower).key, (b.entry lower).value)

theorem keysOf_eq_map {lower : Text → Text} (confdata : List Text) (name : Option Text) :
    (parseConfText lower confdata).keysOf name =
      (blocksIn lower name none (blocksOf confdata)).map (blockKey lower) := by
  rw [keysOf_parseConfText, ← readings_logicalLinesOf, ← map_entriesOf, logicalLinesOf_eq, entriesOf_eq, List.map_map]
  rfl

variable {L : LowerCase} {confdata : List Text} {dbname : Text}

/-- The blocks of the file with the name at the end of its last list. -/
theorem matches_setAutoStart (hvalid : (parseConfText L.lower confdata).syntaxErrors = []) (hdb : IsPlainName dbname)
    (h : ∀ b ∈ editedBlocks L.lower confdata true, ListEditable (fun names => names ++ [dbname]) b) :
    Matches L.lower (fun _ => false) (fun _ b b' => b ∈ blocksOf confdata ∧
        EditedEntry (editedEntries L.lower confdata true) (fun names => names ++ [dbname]) (b.entry L.lower)
          (b'.entry L.lower)) none (blocksOf confdata)
      (blocksOf ((editServerList L.lower confdata (fun names => names ++ [dbname]) true).getD confdata)) := by
  have hadds : AddsPlainNames fun names => names ++ [dbname] := by
    intro names name hname
    rcases List.mem_append.1 hname with hname | hname
    · exact .inl hname
    · exact .inr (List.mem_singleton.1 hname ▸ hdb)
  have heditable : ∀ b ∈ editedBlocks L.lower confdata true, ListEditable (fun names => names ++ [dbname]) b ∨
      Untouched L.lower confdata (fun names => names ++ [dbname]) b := fun b hb => .inl (h b hb)
  refine matches_of_forall₂ (forall₂_blocks_edit hvalid heditable hadds) none fun b hb b' hnew => ?_
  obtain ⟨hread, hentry⟩ := reading_of_rewritten heditable hadds hb hnew
  exact ⟨valid_of_mem_blocks hvalid hb, hread, fun _ => ⟨hb, hentry⟩⟩

/-- The edit that adds to the list. -/
theorem autostartEdited_append (hvalid : (parseConfText L.lower confdata).syntaxErrors = [])
    (hdb : IsPlainName dbname) (hentries : serverEntries L.lower confdata ≠ [])
    (h : ∀ b ∈ editedBlocks L.lower confdata true, ListEditable (fun names => names ++ [dbname]) b) :
    AutostartEdited L.lower dbname confdata
      ((editServerList L.lower confdata (fun names => names ++ [dbname]) true).getD confdata) := by
  have hmatches := matches_setAutoStart hvalid hdb h
  generalize (editServerList L.lower confdata (fun names => names ++ [dbname]) true).getD confdata = lines at hmatches
  obtain ⟨init, x, hinit⟩ : ∃ init x, serverBlocks L.lower confdata = init ++ [x] := by
    rw [serverEntries_eq] at hentries
    obtain ⟨init, x, hlist⟩ := (List.eq_nil_or_concat (serverBlocks L.lower confdata)).resolve_left fun hnil =>
      hentries (by rw [hnil]; rfl)
    exact ⟨init, x, by rw [hlist, List.concat_eq_append]⟩
  have hedited : editedBlocks L.lower confdata true = [x] := by simp [editedBlocks, hinit]
  have hsection : ∀ name, List.Forall₂ (fun b b' => b ∈ blocksOf confdata ∧
      EditedEntry (editedEntries L.lower confdata true) (fun names => names ++ [dbname]) (b.entry L.lower)
        (b'.entry L.lower)) (blocksIn L.lower name none (blocksOf confdata))
      (blocksIn L.lower name none (blocksOf lines)) :=
    fun name => hmatches.forall₂_blocksIn (by cases name <;> rfl) fun _ => rfl
  have hchange : ∀ names : List Text, names ++ [dbname] ≠ names := fun names => by simp
  -- only the last list is another one
  have hkeys : ∀ name, List.Forall₂ (fun b b' => blockKey L.lower b' = blockKey L.lower b ∨
      b = x ∧ isServer L.lower (blockKey L.lower b) = true ∧ isServer L.lower (blockKey L.lower b') = true)
      (blocksIn L.lower name none (blocksOf confdata)) (blocksIn L.lower name none (blocksOf lines)) := by
    intro name
    refine (hsection name).imp fun b b' hb => ?_
    obtain ⟨hmem, hkey, hvalue⟩ := hb
    by_cases hbx : b = x
    · have hserver : isServer L.lower (blockKey L.lower b) = true := by
        have hmem : b ∈ serverBlocks L.lower confdata := by rw [hinit, hbx]; simp
        exact (List.mem_filter.1 hmem).2
      refine .inr ⟨hbx, hserver, ?_⟩
      rw [isServer, blockKey, hkey]
      exact hserver
    · rw [if_neg fun hchanged => hbx (List.mem_singleton.1 (hedited ▸ (entry_mem_editedEntries_iff hmem).1 hchanged.1))]
        at hvalue
      exact .inl (Prod.ext hkey hvalue)
  have hservers : List.Forall₂ (fun b b' => b ∈ blocksOf confdata ∧
      EditedEntry (editedEntries L.lower confdata true) (fun names => names ++ [dbname]) (b.entry L.lower)
        (b'.entry L.lower)) (serverBlocks L.lower confdata) (serverBlocks L.lower lines) := by
    refine List.rel_filter (fun b b' hb => ?_) (hsection (some "service".toList))
    simp only [hb.2.1]
  refine ⟨?_, hmatches.syntaxErrors, fun name => ?_⟩
  · rw [hinit, ← List.forall₂_reverse_iff, List.reverse_append, List.reverse_singleton, List.singleton_append,
      List.forall₂_cons_left_iff] at hservers
    obtain ⟨x', rest, ⟨hmem, -, hvalue⟩, -, hlast⟩ := hservers
    have hentry := (entry_mem_editedEntries_iff hmem).2 (hedited ▸ List.mem_singleton_self x)
    rw [if_pos ⟨hentry, hchange _⟩] at hvalue
    have hlines : serverBlocks L.lower lines = rest.reverse ++ [x'] := by
      rw [← List.reverse_reverse (serverBlocks L.lower lines), hlast, List.reverse_cons]
    rw [isAutostart, serverEntries_eq, hlines, List.map_append, List.map_singleton, List.getLast?_concat]
    simp [hvalue]
  · rw [keysBesideAutostart, keysBesideAutostart, keysOf_eq_map, keysOf_eq_map]
    have hnodup : (blocksIn L.lower name none (blocksOf confdata)).Nodup :=
      (blocksOf_nodup confdata).sublist (blocksIn_sublist _ _ _)
    by_cases hname : name = some serviceName
    · rw [if_pos hname, if_pos hname, eraseLast, eraseLast, ← List.map_reverse, ← List.map_reverse]
      refine congrArg List.reverse (map_eraseP_congr (List.forall₂_reverse_iff.2 (hkeys name)) ?_ fun y hy => ?_)
      · exact List.nodup_reverse.2 hnodup
      · have hfilter : (blocksIn L.lower name none (blocksOf confdata)).filter
            (fun b => isServer L.lower (blockKey L.lower b)) = init ++ [x] := by
          rw [hname]
          exact hinit
        rw [List.filter_reverse, hfilter, List.reverse_append] at hy
        exact (Option.some.inj hy).symm
    · rw [if_neg hname, if_neg hname]
      refine map_eq_of_forall₂ (hkeys name) fun hmem => hname ?_
      have hservice : x ∈ serverBlocks L.lower confdata := by rw [hinit]; simp
      exact eq_of_mem_blocksIn (blocksOf_nodup confdata) hmem (List.mem_of_mem_filter hservice)

end lastList

/-! ### The two edits -/

/-- Where nothing is pending at the end of the file, the section that is appended is read as that of the database, but
for names that the engine cannot read from a header. -/
theorem haModeFits_of_complete (L : LowerCase) {confdata : List Text} {dbname : Text} (hdb : IsPlainName dbname)
    (hpending : pendingAfter [] confdata = []) (hbracket : ']' ∉ dbname) (hroom : utf8Length dbname ≤ 507)
    (hfind : confdata.findIdx? (fun line => line.trim = dbHeader dbname) = none) :
    HaModeFits L.lower dbname confdata := by
  let hs : HeaderSpaces := ⟨[], [], [], [], [], Trim.All.nil⟩
  have hline : dbHeader dbname = hs.line dbname := by simp [hs, HeaderSpaces.line, dbHeader]
  have hread : readLine L.lower (accumulate [] (dbHeader dbname)) = .header ('@' :: dbname) := by
    have hheader := @HeaderSpaces.readLine_line L hs dbname Trim.All.nil [] Trim.All.nil hdb hbracket
    rw [← hline, List.nil_append] at hheader
    rw [← hheader]
    refine readLine_congr L.lower ?_
    rw [iniTrim_accumulate, List.nil_append]
  have hfits : fits [] (dbHeader dbname) = true := by
    have hlength : utf8Length (dbHeader dbname) = utf8Length ['[', '@'] + utf8Length dbname + utf8Length [']'] := by
      rw [← utf8Length_append, ← utf8Length_append]
      rfl
    have hbrackets : utf8Length ['[', '@'] = 2 ∧ utf8Length [']'] = 1 := by decide
    have hdrop := utf8Length_dropCr_le (dbHeader dbname)
    rw [hlength, hbrackets.1, hbrackets.2] at hdrop
    have hle : utf8Length (dropCr (dbHeader dbname)) ≤ iniMaxLineLength := by
      unfold iniMaxLineLength
      omega
    rw [fits, decide_eq_true_eq]
    exact (Nat.zero_add _).trans_le hle
  have hreadings : readingsFrom L.lower [] [[], dbHeader dbname] = [.nothing, .header ('@' :: dbname)] := by
    have hblank : goesOn [] [] = false := rfl
    simp only [readingsFrom, hblank, not_goesOn_dbHeader, hfits, hread, Bool.false_eq_true, ↓reduceIte]
    rfl
  refine .inr (.inr ?_)
  rw [hfind]
  refine ⟨?_, ?_⟩
  · rw [hpending, hreadings]
    simp
  · rw [sectionAt, readingsOf, readingsFrom_append, sectionAfter_append, hpending, hreadings]
    rfl

/-- `ensureDbHaModeOff` reaches its postcondition as the engine reads it just where it puts `ha_mode=off` into the
section of the database, and `setAutoStart` where it edits the list as the engine reads it. -/
theorem conf_edits_reach (L : LowerCase) (hkeeps : KeepsLower L.lower) (confdata : List Text) (dbname : Text)
    (hvalid : (parseConfText L.lower confdata).syntaxErrors = []) (hdb : IsPlainName dbname) :
    (Reaches (ensureDbHaModeOff L.lower dbname) (HaModeEdited L.lower dbname) confdata ↔
      HaModeFits L.lower dbname confdata) ∧
    (AutostartFits L.lower dbname confdata →
      Reaches (setAutoStart L.lower dbname) (AutostartEdited L.lower dbname) confdata) := by
  refine ⟨ensureDbHaModeOff_reaches_iff hkeeps, fun h => ?_⟩
  unfold AutostartFits at h
  split at h
  · rename_i hnone
    exact setAutoStart_reaches_new hkeeps hvalid hdb hnone h
  · rename_i hentries
    by_cases hauto : isAutostart L.lower confdata dbname = true
    · intro written hwritten
      rw [setAutoStart_of_autostart hauto] at hwritten
      obtain rfl := Option.some.inj hwritten
      exact ⟨⟨hauto, hvalid, fun _ => rfl⟩, setAutoStart_of_autostart hauto⟩
    · intro written hwritten
      have hedited := autostartEdited_append hvalid hdb hentries (h.resolve_left hauto)
      have hresult : some (some ((editServerList L.lower confdata (fun names => names ++ [dbname]) true).getD
          confdata)) = some written := by
        cases confdata with
        | nil => exact absurd rfl hentries
        | cons line confdata => exact ((if_neg hentries).trans (if_neg hauto)).symm.trans hwritten
      obtain rfl := Option.some.inj hresult
      exact ⟨hedited, setAutoStart_of_autostart hedited.autostart⟩

theorem keepsLower_asciiLower : KeepsLower asciiLower.lower := by
  intro t ht
  refine (List.map_congr_left fun c hc => ?_).trans (List.map_id t)
  rcases ht c hc with hlower | rfl
  · unfold Char.toLower
    rw [dif_neg]
    · rfl
    · rintro ⟨-, hupper⟩
      have hlo : 97 ≤ c.val.toNat := of_decide_eq_true (Bool.and_eq_true_iff.1 hlower).1
      have hhi : c.val.toNat ≤ 90 := hupper
      omega
  · rfl

/-- A file with a list and a section. -/
def sampleConf : List Text := ["[service]".toList, "server=\"a\"".toList, " [@b]".toList]

theorem conf_edits_reach_sample :
    Reaches (ensureDbHaModeOff asciiLower.lower "b".toList) (HaModeEdited asciiLower.lower "b".toList) sampleConf ∧
    Reaches (setAutoStart asciiLower.lower "b".toList) (AutostartEdited asciiLower.lower "b".toList) sampleConf := by
  have hblocks : editedBlocks asciiLower.lower sampleConf true = [⟨2, [], [], "server=\"a\"".toList⟩] := by decide
  have hreach := conf_edits_reach asciiLower keepsLower_asciiLower sampleConf "b".toList (by decide) (by decide)
  refine ⟨hreach.1.2 (.inr (.inr ?_)), hreach.2 ?_⟩
  · exact (by decide : sectionAt asciiLower.lower (sampleConf.take 3) = some "@b".toList)
  · rw [AutostartFits, if_neg (by decide)]
    refine .inr fun b hb => ?_
    rw [hblocks] at hb
    obtain rfl := List.mem_singleton.1 hb
    exact ⟨by decide, by decide, fun _ => ⟨by decide, by decide, by decide, by decide⟩⟩

/-- The last line of the file goes on, and is read as a key once lines follow it. -/
theorem conf_edits_reach_fails :
    ¬ ∀ (confdata : List Text) (dbname : Text), (parseConfText asciiLower.lower confdata).syntaxErrors = [] →
      IsPlainName dbname →
        Reaches (ensureDbHaModeOff asciiLower.lower dbname) (HaModeEdited asciiLower.lower dbname) confdata ∧
        Reaches (setAutoStart asciiLower.lower dbname) (AutostartEdited asciiLower.lower dbname) confdata := by
  intro h
  have hreach := (h ["[common]".toList, "port=1523\\".toList] "demodb".toList (by decide) (by decide)).1 _ rfl
  exact absurd (hreach.1.others (some "common".toList)) (by decide)

end CubridWebManager.HostConfig
