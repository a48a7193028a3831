import CubridWebManager.Conf.ConfigParams
import CubridWebManager.Conf.EditServerList
import CubridWebManager.Lib.WordList

/-!
# Readers of the autostart list

The web client reads the `[service] server=` list with `autoStartServers` (split at spaces, commas and colons) and with
`autoStartDatabases` (split at commas); `startWholeServiceSteps` reads it from the parameters by section, and
`isAutostart` from the last key.  `autostart_readers_agree` says where they find the same names, and where none of them
finds a name that `removeAutostart` has taken out.
-/

namespace CubridWebManager.Conf

variable (lower : Text → Text)

def serviceKey : Text := "service".toList

def serverKey : Text := "server".toList

/-! ### The readers -/

/-- What the split of `autoStartServers` is at. -/
def isListSep (c : Char) : Bool := Text.isSpace c || c = ',' || c = ':'

def dropFirstQuote (t : Text) : Text := if t.head?.any isQuote then t.tail else t

def dropLastQuote (t : Text) : Text := if t.getLast?.any isQuote then t.dropLast else t

/-- `.replace(/^["']|["']$/g, '')` -/
def stripQuotes (t : Text) : Text := dropLastQuote (dropFirstQuote t)

/-- `list` of `autoStartServers`. -/
def wordsOf (value : Option Text) : List Text := SepList.words isListSep (stripQuotes (value.getD []))

/-- The last value of a key in `[service]`, or the empty text. -/
def serviceValue (confdata : List Text) (key : Text) : Text := (confValue lower confdata serviceKey key).getD []

def autoStartServers (confLines : List Text) : List Text :=
  let service := (parseConfText lower confLines).sections.find? fun s => s.name = some serviceKey
  let last (key : Text) := ((service.elim [] ConfTextSection.entries).reverse.find? fun e => lower e.key = key).map
    ConfTextEntry.value
  if serverKey ∈ (wordsOf (last serviceKey)).map lower then wordsOf (last serverKey) else []

def autoStartDatabases (confdata : List Text) : List Text :=
  let service := (parseConfText lower confdata).sections.find? fun s => s.name = some serviceKey
  let last (key : Text) := service.bind fun s => ((s.entries.filter fun e => lower e.key = key).getLast?).map
    ConfTextEntry.value
  if serverKey ∈ (listNames ((last serviceKey).getD [])).map lower then listNames ((last serverKey).getD []) else []

/-- The names that `startWholeServiceSteps` passes on to be started; `none` where it throws. -/
def startWholeServiceNames (confdata : List Text) : Option (List Text) := do
  let grouped ← parseConfigParamsBySection lower confdata
  let serviceEnabled := serverKey ∈ (((grouped.paramOrEmpty serviceKey serviceKey).getD []).splitOn ',').map fun s =>
    lower (Text.trim s)
  let autoStartServers := ((((grouped.paramOrEmpty serviceKey serverKey).getD []).splitOn ',').map Text.trim).filter (· ≠ [])
  some (if serviceEnabled then autoStartServers else [])

/-! ### What they should have in common -/

/-- `service=` includes `server`. -/
def IncludesServer (confdata : List Text) : Prop := serverKey ∈ (listNames (serviceValue lower confdata serviceKey)).map lower

instance (confdata : List Text) : Decidable (IncludesServer lower confdata) := inferInstanceAs (Decidable (_ ∈ _))

/-- The client's other reader sees `server` in `service=`. -/
def WordsIncludeServer (confdata : List Text) : Prop :=
  serverKey ∈ (wordsOf (confValue lower confdata serviceKey serviceKey)).map lower

instance (confdata : List Text) : Decidable (WordsIncludeServer lower confdata) := inferInstanceAs (Decidable (_ ∈ _))

/-- The readers find the same names. -/
structure AutostartReadersAgree (confdata : List Text) : Prop where
  same : ∃ names, startWholeServiceNames lower confdata = some names ∧ ∀ db,
    (db ∈ autoStartServers lower confdata ↔ db ∈ names) ∧ (db ∈ autoStartDatabases lower confdata ↔ db ∈ names)
  isAutostart : IncludesServer lower confdata → ∀ db,
    isAutostart lower confdata db = true ↔ db ∈ autoStartDatabases lower confdata

/-- None of the readers finds the name. -/
structure NotAutostart (confdata : List Text) (db : Text) : Prop where
  servers : db ∉ autoStartServers lower confdata
  databases : db ∉ autoStartDatabases lower confdata
  steps : ∀ names, startWholeServiceNames lower confdata = some names → db ∉ names
  isAutostart : isAutostart lower confdata db = false

/-- The value of `[service]`, or else the one that is inherited from `[__proto__]`. -/
def inheritedValue (confdata : List Text) (key : Text) : Text :=
  ((confValue lower confdata serviceKey key).or (confValue lower confdata protoKey key)).getD []

/-- The splits find the same in `service=` and `server=`, and nothing is inherited. -/
structure AutostartFits (confdata : List Text) : Prop where
  grouped : (parseConfigParamsBySection lower confdata).isSome
  /-- No name has a space or a colon in it, and quotes at the ends make no difference. -/
  names : WordsIncludeServer lower confdata → IncludesServer lower confdata →
    (∀ name ∈ listNames (serviceValue lower confdata serverKey), ∀ c ∈ name, isListSep c = false) ∧
    ∀ name, name ∈ listNames (stripQuotes (serviceValue lower confdata serverKey)) ↔
      name ∈ listNames (serviceValue lower confdata serverKey)
  words : WordsIncludeServer lower confdata → ¬ IncludesServer lower confdata →
    wordsOf (confValue lower confdata serviceKey serverKey) = []
  commas : ¬ WordsIncludeServer lower confdata → IncludesServer lower confdata →
    listNames (serviceValue lower confdata serverKey) = []
  inherited : confValue lower confdata serviceKey serviceKey = none →
    serverKey ∈ (listNames (inheritedValue lower confdata serviceKey)).map lower →
    listNames (inheritedValue lower confdata serverKey) = []
  inheritedServer : IncludesServer lower confdata → confValue lower confdata serviceKey serverKey = none →
    listNames (inheritedValue lower confdata serverKey) = []

/-- The names that are left without `db`. -/
def leftNames (confdata : List Text) (db : Text) : List Text :=
  (listNames (serviceValue lower confdata serverKey)).filter (· ≠ db)

/-- The engine reads the lists without `db`, and no name that is left is `db` once a quote at an end of the list is taken
off. -/
structure RemovalFits (confdata : List Text) (db : Text) : Prop where
  editable : ∀ b ∈ editedBlocks lower confdata false, ListEditable (fun names => names.filter (· ≠ db)) b ∨
    Untouched lower confdata (fun names => names.filter (· ≠ db)) b
  includes : db ∈ listNames (serviceValue lower confdata serverKey) → WordsIncludeServer lower confdata →
    IncludesServer lower confdata
  head : ∀ q, isQuote q = true → (leftNames lower confdata db).head? ≠ some (q :: db)
  last : ∀ q, isQuote q = true → (leftNames lower confdata db).getLast? ≠ some (db ++ [q])
  single : ∀ q q', isQuote q = true → isQuote q' = true → leftNames lower confdata db ≠ [q :: db ++ [q']]

variable {lower} {confdata : List Text} {db : Text}

/-! ### What the readers find -/

theorem find?_service_reverse (key : Text) :
    ((((parseConfText lower confdata).sections.find? fun s => s.name = some serviceKey).elim []
      ConfTextSection.entries).reverse.find? fun e => lower e.key = key).map ConfTextEntry.value =
    confValue lower confdata serviceKey key := by
  unfold confValue valueIn lastValue
  cases (parseConfText lower confdata).sections.find? fun s => s.name = some serviceKey with
  | none => rfl
  | some s => rfl

theorem autoStartServers_eq : autoStartServers lower confdata =
    if WordsIncludeServer lower confdata then wordsOf (confValue lower confdata serviceKey serverKey) else [] := by
  simp only [autoStartServers, find?_service_reverse]
  rfl

theorem autoStartDatabases_eq : autoStartDatabases lower confdata =
    if IncludesServer lower confdata then listNames (serviceValue lower confdata serverKey) else [] := by
  simp only [autoStartDatabases, getLast?_filter_key]
  rfl

theorem includes_split_iff (hnil : lower [] = []) (value : Text) :
    (serverKey ∈ (value.splitOn ',').map fun s => lower (Text.trim s)) ↔ serverKey ∈ (listNames value).map lower := by
  simp only [List.mem_map, listNames, tokenNames, List.mem_filter, decide_eq_true_eq]
  constructor
  · rintro ⟨s, hs, heq⟩
    refine ⟨s.trim, ⟨⟨s, hs, rfl⟩, fun hempty => ?_⟩, heq⟩
    rw [hempty, hnil] at heq
    cases heq
  · rintro ⟨name, ⟨⟨s, hs, rfl⟩, -⟩, heq⟩
    exact ⟨s, hs, heq⟩

theorem startWholeServiceNames_eq (hnil : lower [] = []) {grouped : Grouped}
    (h : parseConfigParamsBySection lower confdata = some grouped) : startWholeServiceNames lower confdata =
      some (if serverKey ∈ (listNames (inheritedValue lower confdata serviceKey)).map lower then
        listNames (inheritedValue lower confdata serverKey) else []) := by
  have hvalue : ∀ key, key ≠ protoKey → (grouped.paramOrEmpty serviceKey key).getD [] = inheritedValue lower confdata key := by
    intro key hkey
    rw [Grouped.paramOrEmpty, ownValue_of_parse h (by decide) (by decide) hkey, inherited_of_parse h hkey, inheritedValue]
  simp only [startWholeServiceNames, h, Option.bind_eq_bind, Option.bind_some, hvalue serviceKey (by decide),
    hvalue serverKey (by decide), includes_split_iff hnil]
  rfl

theorem serverEntries_eq_filter : serverEntries lower confdata =
    (((parseConfText lower confdata).sections.find? fun s => s.name = some serviceKey).elim []
      ConfTextSection.entries).filter fun e => lower e.key = serverKey := by
  unfold serverEntries serviceKey serverKey
  cases (parseConfText lower confdata).sections.find? fun s => s.name = some "service".toList with
  | none => rfl
  | some s => rfl

theorem getLast?_serverEntries : (serverEntries lower confdata).getLast?.map ConfTextEntry.value =
    confValue lower confdata serviceKey serverKey := by
  rw [serverEntries_eq_filter, getLast?_filter_key, confValue, valueIn]
  cases (parseConfText lower confdata).sections.find? fun s => s.name = some serviceKey with
  | none => rfl
  | some s => rfl

theorem isAutostart_iff : isAutostart lower confdata db = true ↔ db ∈ listNames (serviceValue lower confdata serverKey) := by
  rw [isAutostart, serviceValue, ← getLast?_serverEntries]
  cases (serverEntries lower confdata).getLast? with
  | none =>
    have hnames : listNames [] = [] := rfl
    simp [hnames]
  | some e => simp

/-! ### Words and names -/

theorem isListSep_of_isSpace {c : Char} (h : Text.isSpace c = true) : isListSep c = true := by simp [isListSep, h]

theorem quote_facts {c : Char} (h : isQuote c = true) : Text.isSpace c = false ∧ c ≠ ',' := by
  simp only [isQuote, Bool.or_eq_true, decide_eq_true_eq] at h
  rcases h with rfl | rfl <;> decide

theorem dropFirstQuote_cases (t : Text) : dropFirstQuote t = t ∨ ∃ q, isQuote q = true ∧ t = q :: dropFirstQuote t := by
  unfold dropFirstQuote
  split
  · rename_i h
    cases t with
    | nil => exact .inl rfl
    | cons q t => exact .inr ⟨q, by simpa using h, rfl⟩
  · exact .inl rfl

theorem dropLastQuote_cases (t : Text) :
    dropLastQuote t = t ∨ ∃ q, isQuote q = true ∧ t = dropLastQuote t ++ [q] := by
  unfold dropLastQuote
  split
  · rename_i h
    obtain ⟨q, hq, hquote⟩ := (Option.any_eq_true _ _).1 h
    obtain ⟨s, rfl⟩ := List.getLast?_eq_some_iff.1 hq
    exact .inr ⟨q, hquote, by rw [List.dropLast_concat]⟩
  · exact .inl rfl

theorem words_eq_listNames {value : Text} (h : ∀ name ∈ listNames value, ∀ c ∈ name, isListSep c = false) :
    SepList.words isListSep value = listNames value :=
  SepList.words_eq_items (fun _ hc => isListSep_of_isSpace hc) (by decide) value h

/-- Without the quotes at the ends the first and the last name have no more characters. -/
theorem exists_name_of_mem_dropFirstQuote {value name : Text} (h : name ∈ listNames (dropFirstQuote value)) :
    ∃ name' ∈ listNames value, ∀ c ∈ name, c ∈ name' := by
  rcases dropFirstQuote_cases value with heq | ⟨q, hq, hvalue⟩
  · exact ⟨name, heq ▸ h, fun _ hc => hc⟩
  · obtain ⟨hspace, hcomma⟩ := quote_facts hq
    obtain ⟨a, rest, hcons, hdropped⟩ := SepList.exists_items_cons hspace hcomma (dropFirstQuote value)
    rw [listNames_eq] at h
    rw [hvalue, listNames_eq, hcons]
    rw [hdropped] at h
    rcases List.mem_append.1 h with hfirst | hrest
    · rw [List.mem_singleton.1 (List.mem_of_mem_filter hfirst)]
      refine ⟨_, List.mem_cons_self, fun c hc => List.mem_cons_of_mem _ ?_⟩
      obtain ⟨w, hw, heq⟩ := Trim.exists_dropWhile_parts Text.isSpace a
      have hne : (a.dropWhile Text.isSpace).rdropWhile Text.isSpace ≠ [] := List.ne_nil_of_mem hc
      rw [heq, Trim.rdropWhile_append_of_ne_nil w hne]
      exact List.mem_append_right _ hc
    · exact ⟨name, List.mem_cons_of_mem _ hrest, fun _ hc => hc⟩

theorem exists_name_of_mem_dropLastQuote {value name : Text} (h : name ∈ listNames (dropLastQuote value)) :
    ∃ name' ∈ listNames value, ∀ c ∈ name, c ∈ name' := by
  rcases dropLastQuote_cases value with heq | ⟨q, hq, hvalue⟩
  · exact ⟨name, heq ▸ h, fun _ hc => hc⟩
  · obtain ⟨hspace, hcomma⟩ := quote_facts hq
    obtain ⟨a, init, hconcat, hdropped⟩ := SepList.exists_items_concat hspace hcomma (dropLastQuote value)
    rw [listNames_eq] at h
    rw [hvalue, listNames_eq, hconcat]
    rw [hdropped] at h
    rcases List.mem_append.1 h with hinit | hlast
    · exact ⟨name, List.mem_append_left _ hinit, fun _ hc => hc⟩
    · rw [List.mem_singleton.1 (List.mem_of_mem_filter hlast)]
      refine ⟨_, List.mem_append_right _ (List.mem_singleton_self _), fun c hc => List.mem_append_left _ ?_⟩
      obtain ⟨w, -, heq⟩ := Trim.exists_rdropWhile_parts Text.isSpace (a.dropWhile Text.isSpace)
      rw [heq]
      exact List.mem_append_left _ hc

/-- No name has a separator in it, and so it is without the quotes. -/
theorem no_sep_of_stripQuotes {value : Text} (h : ∀ name ∈ listNames value, ∀ c ∈ name, isListSep c = false) :
    ∀ name ∈ listNames (stripQuotes value), ∀ c ∈ name, isListSep c = false := by
  intro name hname c hc
  obtain ⟨name₁, hname₁, hsub₁⟩ := exists_name_of_mem_dropLastQuote hname
  obtain ⟨name₂, hname₂, hsub₂⟩ := exists_name_of_mem_dropFirstQuote hname₁
  exact h name₂ hname₂ c (hsub₂ c (hsub₁ c hc))

/-- The words are the names just if no name has a separator in it and quotes at the ends make no difference. -/
theorem words_iff_names (value : Text) :
    (∀ name, name ∈ SepList.words isListSep (stripQuotes value) ↔ name ∈ listNames value) ↔
      (∀ name ∈ listNames value, ∀ c ∈ name, isListSep c = false) ∧
        ∀ name, name ∈ listNames (stripQuotes value) ↔ name ∈ listNames value := by
  constructor
  · intro h
    have hsep : ∀ name ∈ listNames value, ∀ c ∈ name, isListSep c = false := fun name hname c hc =>
      SepList.not_mem_of_mem_words ((h name).2 hname) hc
    rw [words_eq_listNames (no_sep_of_stripQuotes hsep)] at h
    exact ⟨hsep, h⟩
  · rintro ⟨hsep, h⟩
    rw [words_eq_listNames (no_sep_of_stripQuotes hsep)]
    exact h

/-! ### Agreement -/

/-- The two readers of the client find the same names. -/
theorem client_readers_iff : (∀ db, db ∈ autoStartServers lower confdata ↔ db ∈ autoStartDatabases lower confdata) ↔
    (WordsIncludeServer lower confdata → IncludesServer lower confdata →
      (∀ name ∈ listNames (serviceValue lower confdata serverKey), ∀ c ∈ name, isListSep c = false) ∧
      ∀ name, name ∈ listNames (stripQuotes (serviceValue lower confdata serverKey)) ↔
        name ∈ listNames (serviceValue lower confdata serverKey)) ∧
    (WordsIncludeServer lower confdata → ¬ IncludesServer lower confdata →
      wordsOf (confValue lower confdata serviceKey serverKey) = []) ∧
    (¬ WordsIncludeServer lower confdata → IncludesServer lower confdata →
      listNames (serviceValue lower confdata serverKey) = []) := by
  rw [autoStartServers_eq, autoStartDatabases_eq]
  by_cases hwords : WordsIncludeServer lower confdata
  · by_cases hnames : IncludesServer lower confdata
    · simp only [hwords, hnames, if_true, not_true_eq_false, true_implies, false_implies, implies_true, and_true]
      exact words_iff_names _
    · simp [hwords, hnames, List.eq_nil_iff_forall_not_mem]
  · by_cases hnames : IncludesServer lower confdata
    · simp [hwords, hnames, List.eq_nil_iff_forall_not_mem]
    · simp [hwords, hnames]

/-- The steps of the whole service start find what `autoStartDatabases` finds. -/
theorem steps_reader_iff : (∀ db, db ∈ autoStartDatabases lower confdata ↔
      db ∈ if serverKey ∈ (listNames (inheritedValue lower confdata serviceKey)).map lower then
        listNames (inheritedValue lower confdata serverKey) else []) ↔
    (confValue lower confdata serviceKey serviceKey = none →
      serverKey ∈ (listNames (inheritedValue lower confdata serviceKey)).map lower →
      listNames (inheritedValue lower confdata serverKey) = []) ∧
    (IncludesServer lower confdata → confValue lower confdata serviceKey serverKey = none →
      listNames (inheritedValue lower confdata serverKey) = []) := by
  have hnil : listNames [] = [] := rfl
  have howned : ∀ key value, confValue lower confdata serviceKey key = some value →
      inheritedValue lower confdata key = serviceValue lower confdata key := fun key value hvalue => by
    rw [inheritedValue, serviceValue, hvalue, Option.some_or]
  rw [autoStartDatabases_eq]
  cases hservice : confValue lower confdata serviceKey serviceKey with
  | none =>
    have hexcluded : ¬ IncludesServer lower confdata := by
      rw [IncludesServer, serviceValue, hservice, Option.getD_none, hnil]
      exact List.not_mem_nil
    by_cases hsteps : serverKey ∈ (listNames (inheritedValue lower confdata serviceKey)).map lower
    · simp [hexcluded, hsteps, List.eq_nil_iff_forall_not_mem]
    · simp [hexcluded, hsteps]
  | some service =>
    have hsteps : serverKey ∈ (listNames (inheritedValue lower confdata serviceKey)).map lower ↔
        IncludesServer lower confdata := by
      rw [IncludesServer, howned _ _ hservice]
    simp only [hsteps, reduceCtorEq, false_implies, true_and]
    by_cases hincluded : IncludesServer lower confdata
    · simp only [hincluded, if_true, true_implies]
      cases hserver : confValue lower confdata serviceKey serverKey with
      | none =>
        have hempty : listNames (serviceValue lower confdata serverKey) = [] := by
          rw [serviceValue, hserver, Option.getD_none, hnil]
        simp [hempty, List.eq_nil_iff_forall_not_mem]
      | some server => simp [howned _ _ hserver]
    · simp [hincluded]

theorem readers_agree_iff (hnil : lower [] = []) :
    AutostartReadersAgree lower confdata ↔ AutostartFits lower confdata := by
  constructor
  · rintro ⟨⟨names, hnames, hsame⟩, -⟩
    obtain ⟨grouped, hgrouped, -⟩ := Option.bind_eq_some_iff.1 hnames
    rw [startWholeServiceNames_eq hnil hgrouped, Option.some.injEq] at hnames
    obtain ⟨hfit, hwords, hcommas⟩ := client_readers_iff.1 fun db => (hsame db).1.trans (hsame db).2.symm
    obtain ⟨hinherited, hserver⟩ := (@steps_reader_iff lower confdata).1 fun db => by
      rw [hnames]
      exact (hsame db).2
    exact ⟨Option.isSome_of_eq_some hgrouped, hfit, hwords, hcommas, hinherited, hserver⟩
  · intro hfit
    obtain ⟨grouped, hgrouped⟩ := Option.isSome_iff_exists.1 hfit.grouped
    have hclient := client_readers_iff.2 ⟨hfit.names, hfit.words, hfit.commas⟩
    have hsteps := steps_reader_iff.2 ⟨hfit.inherited, hfit.inheritedServer⟩
    refine ⟨⟨_, startWholeServiceNames_eq hnil hgrouped, fun db => ⟨(hclient db).trans (hsteps db), hsteps db⟩⟩, ?_⟩
    intro hincluded db
    rw [isAutostart_iff, autoStartDatabases_eq, if_pos hincluded]

/-! ### A name at an end of the list -/

/-- A quote taken off at the front is the first character of the first name. -/
theorem listNames_dropFirstQuote {value : Text} (hsep : ∀ name ∈ listNames value, ∀ c ∈ name, isListSep c = false) :
    dropFirstQuote value = value ∨ ∃ q name rest, isQuote q = true ∧ listNames value = (q :: name) :: rest ∧
      listNames (dropFirstQuote value) = [name].filter (· ≠ []) ++ rest := by
  refine (dropFirstQuote_cases value).imp id fun ⟨q, hq, hvalue⟩ => ?_
  obtain ⟨hspace, hcomma⟩ := quote_facts hq
  obtain ⟨a, rest, hcons, hdropped⟩ := SepList.exists_items_cons hspace hcomma (dropFirstQuote value)
  rw [← hvalue] at hcons
  refine ⟨q, _, rest, hq, hcons, hdropped.trans ?_⟩
  have hbare : ∀ c ∈ a.rdropWhile Text.isSpace, Text.isSpace c = false := by
    intro c hc
    refine Bool.eq_false_iff.2 fun hspace => ?_
    have hfalse := hsep _ (listNames_eq value ▸ hcons ▸ List.mem_cons_self) c (List.mem_cons_of_mem _ hc)
    rw [isListSep_of_isSpace hspace] at hfalse
    cases hfalse
  rw [Trim.trim_eq_rdropWhile hbare]

/-- A quote taken off at the end is the last character of the last name. -/
theorem listNames_dropLastQuote {value : Text} (hsep : ∀ name ∈ listNames value, ∀ c ∈ name, isListSep c = false) :
    dropLastQuote value = value ∨ ∃ q name init, isQuote q = true ∧ listNames value = init ++ [name ++ [q]] ∧
      listNames (dropLastQuote value) = init ++ [name].filter (· ≠ []) := by
  refine (dropLastQuote_cases value).imp id fun ⟨q, hq, hvalue⟩ => ?_
  obtain ⟨hspace, hcomma⟩ := quote_facts hq
  obtain ⟨a, init, hconcat, hdropped⟩ := SepList.exists_items_concat hspace hcomma (dropLastQuote value)
  rw [← hvalue] at hconcat
  refine ⟨q, _, init, hq, hconcat, hdropped.trans ?_⟩
  have hbare : ∀ c ∈ a.dropWhile Text.isSpace, Text.isSpace c = false := by
    intro c hc
    refine Bool.eq_false_iff.2 fun hspace => ?_
    have hmem : a.dropWhile Text.isSpace ++ [q] ∈ listNames value :=
      listNames_eq value ▸ hconcat ▸ List.mem_append_right _ (List.mem_singleton_self _)
    have hfalse := hsep _ hmem c (List.mem_append_left _ hc)
    rw [isListSep_of_isSpace hspace] at hfalse
    cases hfalse
  rw [Trim.trim_eq_dropWhile hbare]

/-- A name that is there once the quotes are taken off was there, but for a quote before it at the front of the list or
behind it at the end. -/
theorem mem_stripQuotes {value name : Text} (hsep : ∀ name ∈ listNames value, ∀ c ∈ name, isListSep c = false)
    (h : name ∈ listNames (stripQuotes value)) : name ∈ listNames value ∨
      (∃ q, isQuote q = true ∧ ((listNames value).head? = some (q :: name) ∨
        (listNames value).getLast? = some (name ++ [q]))) ∨
      ∃ q q', isQuote q = true ∧ isQuote q' = true ∧ listNames value = [q :: name ++ [q']] := by
  have hsep₁ : ∀ name ∈ listNames (dropFirstQuote value), ∀ c ∈ name, isListSep c = false := by
    intro name hname c hc
    obtain ⟨name', hname', hsub⟩ := exists_name_of_mem_dropFirstQuote hname
    exact hsep name' hname' c (hsub c hc)
  have hmem_filter : ∀ {x y : Text}, x ∈ [y].filter (· ≠ []) → x = y := fun hx =>
    List.mem_singleton.1 (List.mem_of_mem_filter hx)
  have hfirst : name ∈ listNames (dropFirstQuote value) → name ∈ listNames value ∨
      ∃ q, isQuote q = true ∧ (listNames value).head? = some (q :: name) := by
    intro hname
    rcases listNames_dropFirstQuote hsep with heq | ⟨q, a, rest, hq, hvalue, hdropped⟩
    · exact .inl (heq ▸ hname)
    · rw [hdropped] at hname
      rcases List.mem_append.1 hname with hname | hname
      · rw [hmem_filter hname]
        exact .inr ⟨q, hq, by rw [hvalue]; rfl⟩
      · exact .inl (hvalue ▸ List.mem_cons_of_mem _ hname)
  have hfirst' := fun hname => (hfirst hname).imp_right fun ⟨q, hq, hhead⟩ =>
    (.inl ⟨q, hq, .inl hhead⟩ : (∃ q, isQuote q = true ∧ ((listNames value).head? = some (q :: name) ∨
      (listNames value).getLast? = some (name ++ [q]))) ∨
      ∃ q q', isQuote q = true ∧ isQuote q' = true ∧ listNames value = [q :: name ++ [q']])
  rcases listNames_dropLastQuote hsep₁ with heq | ⟨q, b, init, hq, hvalue₁, hdropped₁⟩
  · rw [stripQuotes, heq] at h
    exact hfirst' h
  · rw [stripQuotes, hdropped₁] at h
    rcases List.mem_append.1 h with hinit | hlast
    · exact hfirst' (hvalue₁ ▸ List.mem_append_left _ hinit)
    · obtain rfl := hmem_filter hlast
      refine .inr ?_
      rcases listNames_dropFirstQuote hsep with heq | ⟨q', a, rest, hq', hvalue, hdropped⟩
      · rw [heq] at hvalue₁
        exact .inl ⟨q, hq, .inr (by rw [hvalue₁, List.getLast?_concat])⟩
      · -- the last name is one of the others, or the first name itself
        rw [hdropped] at hvalue₁
        rcases List.eq_nil_or_concat rest with rfl | ⟨rest', last, rfl⟩
        · refine .inr ⟨q', q, hq', hq, ?_⟩
          have ha : a = name ++ [q] := (hmem_filter (by
            rw [List.append_nil] at hvalue₁
            rw [hvalue₁]
            exact List.mem_append_right _ (List.mem_singleton_self _))).symm
          rw [hvalue, ha]
          rfl
        · refine .inl ⟨q, hq, .inr ?_⟩
          have hlast' := congrArg List.getLast? hvalue₁
          simp only [List.concat_eq_append, ← List.append_assoc, List.getLast?_concat] at hlast'
          rw [hvalue, List.concat_eq_append, ← List.cons_append, List.getLast?_concat, hlast']

/-! ### Once a name is taken out -/

theorem lastValue_of_forall₂ {R : ConfTextEntry → ConfTextEntry → Prop} (hkey : ∀ e e', R e e' → e'.key = e.key)
    {es es' : List ConfTextEntry} (h : List.Forall₂ R es es') (key : Text) :
    (lastValue lower es key = none ∧ lastValue lower es' key = none) ∨
      ∃ e ∈ es, ∃ e', R e e' ∧ lower e.key = key ∧ lastValue lower es key = some e.value ∧
        lastValue lower es' key = some e'.value := by
  induction h with
  | nil => exact .inl ⟨rfl, rfl⟩
  | @cons e e' es es' he _ ih =>
    rw [lastValue_cons, lastValue_cons, hkey e e' he]
    rcases ih with ⟨hnone, hnone'⟩ | ⟨e₁, hmem, e₁', hR, hkey₁, hvalue, hvalue'⟩
    · rw [hnone, hnone', Option.none_or, Option.none_or]
      by_cases heq : lower e.key = key
      · exact .inr ⟨e, List.mem_cons_self, e', he, heq, if_pos heq, if_pos heq⟩
      · exact .inl ⟨if_neg heq, if_neg heq⟩
    · exact .inr ⟨e₁, List.mem_cons_of_mem _ hmem, e₁', hR, hkey₁, by rw [hvalue, Option.some_or],
        by rw [hvalue', Option.some_or]⟩

/-- The values of a file whose entries are changed one by one. -/
theorem valueIn_of_forall₂ {R : ConfTextEntry → ConfTextEntry → Prop} (hkey : ∀ e e', R e e' → e'.key = e.key)
    {ss ss' : List ConfTextSection} (h : List.Forall₂ (SectionMatches fun _ => R) ss ss') (name key : Text) :
    (valueIn lower ss name key = none ∧ valueIn lower ss' name key = none) ∨
      ∃ s, ss.find? (fun s => s.name = some name) = some s ∧ ∃ e ∈ s.entries, ∃ e', R e e' ∧ lower e.key = key ∧
        valueIn lower ss name key = some e.value ∧ valueIn lower ss' name key = some e'.value := by
  induction h with
  | nil => exact .inl ⟨rfl, rfl⟩
  | @cons s s' ss ss' hs _ ih =>
    by_cases hname : s.name = some name
    · have hname' : s'.name = some name := hs.1.trans hname
      have hvalue : valueIn lower (s :: ss) name key = lastValue lower s.entries key := by simp [valueIn, hname]
      have hvalue' : valueIn lower (s' :: ss') name key = lastValue lower s'.entries key := by simp [valueIn, hname']
      rw [hvalue, hvalue']
      refine (lastValue_of_forall₂ hkey hs.2 key).imp id fun hex => ⟨s, ?_, hex⟩
      simp [hname]
    · have hname' : s'.name ≠ some name := fun heq => hname (hs.1.symm.trans heq)
      have hvalue : valueIn lower (s :: ss) name key = valueIn lower ss name key := by simp [valueIn, hname]
      have hvalue' : valueIn lower (s' :: ss') name key = valueIn lower ss' name key := by simp [valueIn, hname']
      have hfind : (s :: ss).find? (fun s => s.name = some name) = ss.find? fun s => s.name = some name := by
        simp [hname]
      rw [hvalue, hvalue', hfind]
      exact ih

section removed

variable {edit : List Text → List Text} {result : Option (List Text)}
  (h : IsServerListEdit lower confdata edit false result)

include h

/-- An edit of the lists keeps all other keys. -/
theorem confValue_of_edit {key : Text} (hkey : key ≠ serverKey) (name : Text) :
    confValue lower (result.getD confdata) name key = confValue lower confdata name key := by
  rcases valueIn_of_forall₂ (fun e e' he => he.1) h.sections name key with
    ⟨hnone, hnone'⟩ | ⟨s, -, e, -, e', he, hlower, hvalue, hvalue'⟩
  · exact hnone'.trans hnone.symm
  · have hother : e ∉ editedEntries lower confdata false := by
      intro hmem
      rw [editedEntries, serverEntries_eq_filter] at hmem
      exact hkey (hlower.symm.trans (of_decide_eq_true (List.mem_filter.1 hmem).2))
    have hsame : e'.value = e.value := by
      have := he.2
      rwa [if_neg fun hedited => hother hedited.1] at this
    exact hvalue'.trans (hsame ▸ hvalue.symm)

/-- The list of `[service]` is the edited one, or as it was. -/
theorem server_of_edit : (confValue lower confdata serviceKey serverKey = none ∧
      confValue lower (result.getD confdata) serviceKey serverKey = none) ∨
    ∃ value value', confValue lower confdata serviceKey serverKey = some value ∧
      confValue lower (result.getD confdata) serviceKey serverKey = some value' ∧
      if edit (listNames value) ≠ listNames value then listNames value' = edit (listNames value) else value' = value := by
  rcases valueIn_of_forall₂ (fun e e' he => he.1) h.sections serviceKey serverKey with
    hnone | ⟨s, hfind, e, hmem, e', he, hlower, hvalue, hvalue'⟩
  · exact .inl hnone
  · have hedited : e ∈ editedEntries lower confdata false := by
      rw [editedEntries, serverEntries_eq_filter]
      simp only [Bool.false_eq_true, if_false, hfind, Option.elim_some]
      exact List.mem_filter.2 ⟨hmem, decide_eq_true hlower⟩
    refine .inr ⟨e.value, e'.value, hvalue, hvalue', ?_⟩
    have hlist := he.2
    simpa only [hedited, true_and] using hlist

/-- Where `[service]` has no list, no list is changed. -/
theorem server_of_edit_of_none (hnone : confValue lower confdata serviceKey serverKey = none) (name : Text) :
    confValue lower (result.getD confdata) name serverKey = confValue lower confdata name serverKey := by
  have hempty : serverEntries lower confdata = [] := by
    rw [← getLast?_serverEntries, Option.map_eq_none_iff, List.getLast?_eq_none_iff] at hnone
    exact hnone
  rcases valueIn_of_forall₂ (fun e e' he => he.1) h.sections name serverKey with
    ⟨hnone, hnone'⟩ | ⟨s, -, e, -, e', he, -, hvalue, hvalue'⟩
  · exact hnone'.trans hnone.symm
  · have hother : e ∉ editedEntries lower confdata false := by
      rw [editedEntries, hempty]
      exact List.not_mem_nil
    have hsame : e'.value = e.value := by
      have := he.2
      rwa [if_neg fun hedited => hother hedited.1] at this
    exact hvalue'.trans (hsame ▸ hvalue.symm)

end removed

section notAutostart

variable {result : Option (List Text)} (hnil : lower [] = []) (hfit : AutostartFits lower confdata)
  (hremoval : RemovalFits lower confdata db)
  (h : IsServerListEdit lower confdata (fun names => names.filter (· ≠ db)) false result)

include h

theorem not_mem_names_of_removed : db ∉ listNames (serviceValue lower (result.getD confdata) serverKey) := by
  rcases server_of_edit h with ⟨-, hnone⟩ | ⟨value, value', -, hvalue', hlist⟩
  · rw [serviceValue, hnone]
    exact List.not_mem_nil
  · rw [serviceValue, hvalue', Option.getD_some]
    split at hlist
    · rw [hlist]
      simp
    · rename_i hsame
      rw [not_not] at hsame
      rw [hlist, ← hsame]
      simp

include hfit hremoval in
theorem not_mem_words_of_removed (hwords : WordsIncludeServer lower confdata) :
    db ∉ wordsOf (confValue lower (result.getD confdata) serviceKey serverKey) := by
  rcases server_of_edit h with ⟨-, hnone⟩ | ⟨value, value', hvalue, hvalue', hlist⟩
  · rw [hnone]
    exact List.not_mem_nil
  · have hserver : serviceValue lower confdata serverKey = value := by rw [serviceValue, hvalue, Option.getD_some]
    have hnames : IncludesServer lower confdata → (∀ name ∈ listNames value, ∀ c ∈ name, isListSep c = false) ∧
        ∀ name, name ∈ listNames (stripQuotes value) ↔ name ∈ listNames value := hserver ▸ hfit.names hwords
    rw [hvalue', wordsOf, Option.getD_some]
    split at hlist
    · rename_i hchange
      have hdb : db ∈ listNames value := by
        by_contra hnot
        refine hchange (List.filter_eq_self.2 fun name hname => decide_eq_true fun heq => hnot (heq ▸ hname))
      have hleft : listNames value' = leftNames lower confdata db := by rw [leftNames, hserver, hlist]
      have hsep : ∀ name ∈ listNames value', ∀ c ∈ name, isListSep c = false := fun name hname =>
        (hnames (hremoval.includes (hserver ▸ hdb) hwords)).1 name (List.mem_of_mem_filter (hlist ▸ hname))
      rw [words_eq_listNames (no_sep_of_stripQuotes hsep)]
      intro hmem
      rcases mem_stripQuotes hsep hmem with hmem | ⟨q, hq, hhead | hlast⟩ | ⟨q, q', hq, hq', hsingle⟩
      · rw [hlist] at hmem
        simp at hmem
      · exact hremoval.head q hq (hleft ▸ hhead)
      · exact hremoval.last q hq (hleft ▸ hlast)
      · exact hremoval.single q q' hq hq' (hleft ▸ hsingle)
    · rename_i hsame
      rw [not_not] at hsame
      have hdb : db ∉ listNames value := by
        rw [← hsame]
        simp
      rw [hlist]
      by_cases hincluded : IncludesServer lower confdata
      · rw [(words_iff_names value).2 (hnames hincluded) db]
        exact hdb
      · have hempty := hfit.words hwords hincluded
        rw [hvalue, wordsOf, Option.getD_some] at hempty
        rw [hempty]
        exact List.not_mem_nil

include hfit in
/-- What the steps of the whole service start find does not have the name. -/
theorem not_mem_steps_of_removed
    (hsteps : serverKey ∈ (listNames (inheritedValue lower confdata serviceKey)).map lower) :
    db ∉ listNames (inheritedValue lower (result.getD confdata) serverKey) := by
  rcases server_of_edit h with ⟨hnone, -⟩ | ⟨value, value', -, hvalue', -⟩
  · have hsame : inheritedValue lower (result.getD confdata) serverKey = inheritedValue lower confdata serverKey := by
      rw [inheritedValue, server_of_edit_of_none h hnone, server_of_edit_of_none h hnone, inheritedValue]
    have hempty : listNames (inheritedValue lower confdata serverKey) = [] := by
      cases hservice : confValue lower confdata serviceKey serviceKey with
      | none => exact hfit.inherited hservice hsteps
      | some service =>
        refine hfit.inheritedServer ?_ hnone
        rwa [inheritedValue, hservice, Option.some_or, ← hservice] at hsteps
    rw [hsame, hempty]
    exact List.not_mem_nil
  · have hserver : inheritedValue lower (result.getD confdata) serverKey =
        serviceValue lower (result.getD confdata) serverKey := by
      rw [inheritedValue, serviceValue, hvalue', Option.some_or]
    rw [hserver]
    exact not_mem_names_of_removed h

include hnil hfit hremoval in
theorem notAutostart_of_removed : NotAutostart lower (result.getD confdata) db := by
  have hservice : ∀ name, confValue lower (result.getD confdata) name serviceKey = confValue lower confdata name serviceKey :=
    confValue_of_edit h (by decide)
  refine ⟨?_, ?_, fun names hnames => ?_, ?_⟩
  · rw [autoStartServers_eq]
    split
    · rename_i hwords
      rw [WordsIncludeServer, hservice] at hwords
      exact not_mem_words_of_removed hfit hremoval h hwords
    · exact List.not_mem_nil
  · rw [autoStartDatabases_eq]
    split
    · exact not_mem_names_of_removed h
    · exact List.not_mem_nil
  · obtain ⟨grouped, hgrouped, -⟩ := Option.bind_eq_some_iff.1 hnames
    rw [startWholeServiceNames_eq hnil hgrouped, Option.some.injEq] at hnames
    rw [← hnames]
    split
    · rename_i hsteps
      refine not_mem_steps_of_removed hfit h ?_
      rwa [inheritedValue, hservice, hservice, ← inheritedValue] at hsteps
    · exact List.not_mem_nil
  · rw [Bool.eq_false_iff, ne_eq, isAutostart_iff]
    exact not_mem_names_of_removed h

end notAutostart

/-- A list of two names that all read alike. -/
def autostartConf : List Text := ["[service]".toList, "service=server,broker".toList, "server=demodb, testdb".toList]

end CubridWebManager.Conf
