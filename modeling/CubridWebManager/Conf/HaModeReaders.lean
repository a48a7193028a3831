import CubridWebManager.Conf.ConfigParams

/-!
# Readers of ha_mode

Three readers decide from cubrid.conf whether a host is an HA node: `isHostHaModeOnFromCubridConf`, the test of
`getServiceHaDbNames`, and `haModeOn` of the web client; `getPerDbHaModeOffDbNames` finds the databases whose own section
turns it off.  They agree just where no `ha_mode` is empty and a database is turned off with the word `off`
(`ha_mode_readers_agree`).
-/

namespace CubridWebManager.Conf

variable (lower : Text → Text)

def commonSection : Text := "common".toList

def haModeKey : Text := "ha_mode".toList

def offWord : Text := "off".toList

/-- `HA_MODE_OFF_KEYWORDS` -/
def haModeOffKeywords : List Text := [offWord, "no".toList, "n".toList, "0".toList, "false".toList]

/-- `HA_MODE_OFF`, of the api server and of the web client. -/
def haModeOff : List Text := [[], offWord, "no".toList, "n".toList, "false".toList, "0".toList]

/-! ### The readers -/

/-- `none` where it throws. -/
def isHostHaModeOnFromCubridConf (confdata : List Text) : Option Bool := do
  let grouped ← parseConfigParamsBySection lower confdata
  match grouped.param commonSection haModeKey with
  | none => some false
  | some raw => some (lower raw.trim ∉ haModeOffKeywords)

/-- The test of `getServiceHaDbNames`. -/
def serviceHaModeOn (confdata : List Text) : Option Bool := do
  let grouped ← parseConfigParamsBySection lower confdata
  let haMode := lower (Text.trim ((grouped.param commonSection haModeKey).getD []))
  some (haMode ∉ haModeOff)

/-- `haDbNames` are the names of cubrid_ha.conf. -/
def getServiceHaDbNames (haDbNames : List Text) (confdata : List Text) : Option (List Text) := do
  let haModeOn ← serviceHaModeOn lower confdata
  some (if haModeOn then haDbNames else [])

/-- The web client's reader. -/
def haModeOn (confLines : List Text) : Bool :=
  let common := (parseConfText lower confLines).sections.find? fun s => s.name = some commonSection
  let value := ((common.elim [] ConfTextSection.entries).reverse.find? fun e => lower e.key = haModeKey).map
    ConfTextEntry.value
  lower (Text.trim (value.getD [])) ∉ haModeOff

/-- What `getPerDbHaModeOffDbNames` adds for a section of the object. -/
def perDbHaModeOff (grouped : Grouped) (e : Text × Dict Text Text) : Option Text :=
  match e.1 with
  | '@' :: name =>
    match (e.2.get? haModeKey).or (grouped.prototype.get? haModeKey) with
    | none => none
    | some haMode => if lower haMode.trim = offWord ∧ Text.trim name ≠ [] then some (Text.trim name) else none
  | _ => none

def getPerDbHaModeOffDbNames (confdata : List Text) : Option (List Text) := do
  let grouped ← parseConfigParamsBySection lower confdata
  some (grouped.sections.entries.filterMap (perDbHaModeOff lower grouped)).eraseDups

/-! ### What they should have in common -/

/-- The `ha_mode` of the section `[@db]`. -/
def haModeOverride (confdata : List Text) (db : Text) : Option Text := confValue lower confdata ('@' :: db) haModeKey

/-- The readers give one verdict on the host, and a database is turned off by the words that each of them takes as off. -/
structure HaReadersAgree (confdata : List Text) : Prop where
  host : ∃ on, isHostHaModeOnFromCubridConf lower confdata = some on ∧ serviceHaModeOn lower confdata = some on ∧
    haModeOn lower confdata = on
  perDb : ∃ names, getPerDbHaModeOffDbNames lower confdata = some names ∧ ∀ db,
    (db ∈ names ↔ ∃ raw, haModeOverride lower confdata db = some raw ∧ lower raw.trim ∈ haModeOffKeywords) ∧
    (db ∈ names ↔ ∃ raw, haModeOverride lower confdata db = some raw ∧ lower raw.trim ∈ haModeOff)

/-- A section `[@t]` without an `ha_mode` of its own inherits `off` from the section `[__proto__]`, and `t` is `db` once
it is trimmed. -/
def InheritsOff (confdata : List Text) (grouped : Grouped) (db : Text) : Prop :=
  ∃ t, '@' :: t ∈ grouped.sections.keys ∧ haModeOverride lower confdata t = none ∧ Text.trim t = db ∧
    ∃ raw, confValue lower confdata protoKey haModeKey = some raw ∧ lower raw.trim = offWord

/-- No `ha_mode` is empty, a database is turned off with the word `off`, under its name as it stands, and nothing is
turned on or off by what is inherited. -/
structure HaModesFit (confdata : List Text) (grouped : Grouped) : Prop where
  host : ∀ raw, confValue lower confdata commonSection haModeKey = some raw → lower raw.trim ≠ []
  inheritedHost : confValue lower confdata commonSection haModeKey = none →
    ∀ raw, grouped.param commonSection haModeKey = some raw → lower raw.trim ∈ haModeOffKeywords
  perDb : ∀ db raw, haModeOverride lower confdata db = some raw → lower raw.trim ∈ haModeOff →
    lower raw.trim ≠ [] ∧ db ≠ [] ∧ db.trim = db ∧ (lower raw.trim = offWord ∨ InheritsOff lower confdata grouped db)
  inheritedPerDb : ∀ db, db ≠ [] → InheritsOff lower confdata grouped db →
    ∃ raw, haModeOverride lower confdata db = some raw ∧ lower raw.trim ∈ haModeOffKeywords

variable {lower} {confdata : List Text} {grouped : Grouped}

theorem mem_haModeOff {word : Text} : word ∈ haModeOff ↔ word = [] ∨ word ∈ haModeOffKeywords := by
  simp only [haModeOff, haModeOffKeywords, List.mem_cons, List.not_mem_nil, or_false]
  tauto

theorem nil_not_mem_haModeOffKeywords : [] ∉ haModeOffKeywords := by decide

theorem haModeOn_eq : haModeOn lower confdata =
    decide (lower (Text.trim ((confValue lower confdata commonSection haModeKey).getD [])) ∉ haModeOff) := by
  unfold haModeOn confValue valueIn lastValue
  cases (parseConfText lower confdata).sections.find? fun s => s.name = some commonSection with
  | none => rfl
  | some s => rfl

/-! ### The verdict on the host -/

/-- The three readers agree just if the value they read is not empty, or is off where only two of them see it. -/
theorem host_verdict_iff (hnil : lower [] = []) (h : parseConfigParamsBySection lower confdata = some grouped) :
    (∃ on, isHostHaModeOnFromCubridConf lower confdata = some on ∧ serviceHaModeOn lower confdata = some on ∧
      haModeOn lower confdata = on) ↔
    (∀ raw, confValue lower confdata commonSection haModeKey = some raw → lower raw.trim ≠ []) ∧
    (confValue lower confdata commonSection haModeKey = none →
      ∀ raw, grouped.param commonSection haModeKey = some raw → lower raw.trim ∈ haModeOffKeywords) := by
  have htrim : Text.trim [] = [] := rfl
  simp only [isHostHaModeOnFromCubridConf, serviceHaModeOn, h, haModeOn_eq, Option.bind_eq_bind, Option.bind_some]
  cases hvalue : confValue lower confdata commonSection haModeKey with
  | some raw =>
    have hparam := param_of_parse h (by decide) (by decide) (by decide) hvalue
    simp only [hparam, Option.getD_some, Option.some.injEq, exists_eq_left', and_true, reduceCtorEq, false_implies,
      decide_eq_decide, mem_haModeOff, forall_eq']
    constructor
    · intro heq hempty
      rw [hempty] at heq
      exact heq.1.2 nil_not_mem_haModeOffKeywords (.inl rfl)
    · intro hne
      simp [hne]
  | none =>
    have hoff : [] ∈ haModeOff := List.mem_cons_self
    cases hparam : grouped.param commonSection haModeKey with
    | none => simp [htrim, hnil, hoff]
    | some raw =>
      simp only [Option.getD_some, Option.getD_none, htrim, hnil, hoff, not_true_eq_false, decide_false,
        Option.some.injEq, exists_eq_left', decide_eq_decide, mem_haModeOff, forall_eq', true_implies, reduceCtorEq,
        false_implies, implies_true, true_and]
      by_cases hword : lower raw.trim ∈ haModeOffKeywords
      · simp [hword]
      · simp [hword]

/-! ### The databases that are turned off -/

theorem at_ne_protoKey (db : Text) : '@' :: db ≠ protoKey := by
  intro heq
  cases congrArg List.head? heq

theorem at_not_mem_methodNames (db : Text) : '@' :: db ∉ methodNames := by
  have hheads : ∀ name ∈ methodNames, name.head? ≠ some '@' := by decide
  exact fun hmem => hheads _ hmem rfl

theorem perDbHaModeOff_eq_some {e : Text × Dict Text Text} {db : Text} : perDbHaModeOff lower grouped e = some db ↔
    ∃ t, e.1 = '@' :: t ∧ Text.trim t = db ∧ db ≠ [] ∧
      ∃ raw, (e.2.get? haModeKey).or (grouped.prototype.get? haModeKey) = some raw ∧ lower raw.trim = offWord := by
  unfold perDbHaModeOff
  split
  · rename_i t ht
    simp only [ht, List.cons.injEq, true_and, exists_eq_left']
    split
    · rename_i hnone
      simp [hnone]
    · rename_i raw hraw
      simp only [Option.ite_none_right_eq_some, hraw, Option.some.injEq, exists_eq_left']
      constructor
      · rintro ⟨⟨hword, hne⟩, rfl⟩
        exact ⟨rfl, hne, hword⟩
      · rintro ⟨rfl, hne, hword⟩
        exact ⟨⟨hword, hne⟩, rfl⟩
  · rename_i hname
    simp only [reduceCtorEq, false_iff]
    rintro ⟨t, ht, -⟩
    exact hname t ht

/-- The databases that are turned off by their own section or by what it inherits. -/
theorem mem_perDbHaModeOff_iff (h : parseConfigParamsBySection lower confdata = some grouped) {names : List Text}
    (hnames : getPerDbHaModeOffDbNames lower confdata = some names) {db : Text} : db ∈ names ↔ db ≠ [] ∧
      ((∃ t raw, Text.trim t = db ∧ haModeOverride lower confdata t = some raw ∧ lower raw.trim = offWord) ∨
        InheritsOff lower confdata grouped db) := by
  simp only [getPerDbHaModeOffDbNames, h, Option.bind_eq_bind, Option.bind_some, Option.some.injEq] at hnames
  have hproto : grouped.prototype.get? haModeKey = confValue lower confdata protoKey haModeKey :=
    inherited_of_parse h (by decide)
  have hown : ∀ t, (grouped.sections.get? ('@' :: t)).bind (fun params => params.get? haModeKey) =
      haModeOverride lower confdata t := fun t =>
    ownValue_of_parse h (at_ne_protoKey t) (at_not_mem_methodNames t) (by decide)
  rw [← hnames, List.mem_eraseDups, List.mem_filterMap]
  constructor
  · rintro ⟨⟨name, params⟩, he, hdb⟩
    obtain ⟨t, rfl, htrim, hne, raw, hraw, hword⟩ := perDbHaModeOff_eq_some.1 hdb
    have hget := Dict.get?_eq_some_iff.2 he
    have hparams := hown t
    rw [hget, Option.bind_some] at hparams
    refine ⟨hne, ?_⟩
    rw [hparams, hproto] at hraw
    cases hover : haModeOverride lower confdata t with
    | some own =>
      rw [hover, Option.some_or] at hraw
      cases hraw
      exact .inl ⟨t, raw, htrim, hover, hword⟩
    | none =>
      rw [hover, Option.none_or] at hraw
      exact .inr ⟨t, Dict.mem_keys.2 ⟨params, hget⟩, hover, htrim, raw, hraw, hword⟩
  · rintro ⟨hne, ⟨t, raw, htrim, hover, hword⟩ | ⟨t, hkey, hover, htrim, raw, hraw, hword⟩⟩
    · obtain ⟨params, hget, hvalue⟩ := Option.bind_eq_some_iff.1 ((hown t).trans hover)
      refine ⟨('@' :: t, params), Dict.get?_eq_some_iff.1 hget, perDbHaModeOff_eq_some.2 ⟨t, rfl, htrim, hne, raw, ?_, hword⟩⟩
      rw [hvalue, Option.some_or]
    · obtain ⟨params, hget⟩ := Dict.mem_keys.1 hkey
      refine ⟨('@' :: t, params), Dict.get?_eq_some_iff.1 hget, perDbHaModeOff_eq_some.2 ⟨t, rfl, htrim, hne, raw, ?_, hword⟩⟩
      have hvalue := hown t
      rw [hget, Option.bind_some, hover] at hvalue
      rw [hvalue, Option.none_or, hproto, hraw]

/-- A database is turned off by the words that turn the host off just if these words are `off`, but for what is
inherited. -/
theorem perDb_verdict_iff (h : parseConfigParamsBySection lower confdata = some grouped) {names : List Text}
    (hnames : getPerDbHaModeOffDbNames lower confdata = some names) :
    (∀ db, (db ∈ names ↔ ∃ raw, haModeOverride lower confdata db = some raw ∧ lower raw.trim ∈ haModeOffKeywords) ∧
      (db ∈ names ↔ ∃ raw, haModeOverride lower confdata db = some raw ∧ lower raw.trim ∈ haModeOff)) ↔
    (∀ db raw, haModeOverride lower confdata db = some raw → lower raw.trim ∈ haModeOff →
      lower raw.trim ≠ [] ∧ db ≠ [] ∧ Text.trim db = db ∧
        (lower raw.trim = offWord ∨ InheritsOff lower confdata grouped db)) ∧
    (∀ db, db ≠ [] → InheritsOff lower confdata grouped db →
      ∃ raw, haModeOverride lower confdata db = some raw ∧ lower raw.trim ∈ haModeOffKeywords) := by
  have hmem : ∀ db, db ∈ names ↔ _ := fun db => @mem_perDbHaModeOff_iff lower confdata grouped h names hnames db
  have htrim : ∀ t : Text, t.trim.trim = t.trim := fun t => by
    rw [trim_eq, trim_eq]
    exact Trim.trim_of_bare (Trim.bare_trim _ _)
  have hoff : offWord ∈ haModeOff := by decide
  constructor
  · intro hagree
    have howner : ∀ t raw, haModeOverride lower confdata t = some raw → lower raw.trim ∈ haModeOff → t ∈ names :=
      fun t raw hover hword => (hagree t).2.2 ⟨raw, hover, hword⟩
    refine ⟨fun db raw hover hword => ?_, fun db hne hinherits => (hagree db).1.1 ((hmem db).2 ⟨hne, .inr hinherits⟩)⟩
    have hdb := howner db raw hover hword
    obtain ⟨raw', hover', hkeyword⟩ := (hagree db).1.1 hdb
    obtain rfl : raw = raw' := Option.some.inj (hover.symm.trans hover')
    obtain ⟨hne, hfrom⟩ := (hmem db).1 hdb
    have hbare : Text.trim db = db := by
      rcases hfrom with ⟨t, -, rfl, -⟩ | ⟨t, -, -, rfl, -⟩ <;> exact htrim t
    refine ⟨fun hempty => nil_not_mem_haModeOffKeywords (hempty ▸ hkeyword), hne, hbare, ?_⟩
    rcases hfrom with ⟨t, offRaw, ht, hoverOff, hword'⟩ | hinherits
    · -- the section that turns `db` off is turned off under its own name, so it is the section of `db`
      have htmem := howner t offRaw hoverOff (hword' ▸ hoff)
      obtain ⟨-, hfrom'⟩ := (hmem t).1 htmem
      have htbare : Text.trim t = t := by
        rcases hfrom' with ⟨u, -, rfl, -⟩ | ⟨u, -, -, rfl, -⟩ <;> exact htrim u
      obtain rfl : t = db := htbare.symm.trans ht
      obtain rfl : raw = offRaw := Option.some.inj (hover.symm.trans hoverOff)
      exact .inl hword'
    · exact .inr hinherits
  · rintro ⟨hown, hinherited⟩ db
    have hkeyword : ∀ t raw, haModeOverride lower confdata t = some raw → lower raw.trim ∈ haModeOff →
        lower raw.trim ∈ haModeOffKeywords := fun t raw hover hword =>
      (mem_haModeOff.1 hword).resolve_left (hown t raw hover hword).1
    have hto : db ∈ names → ∃ raw, haModeOverride lower confdata db = some raw ∧ lower raw.trim ∈ haModeOffKeywords := by
      intro hdb
      obtain ⟨hne, ⟨t, raw, ht, hover, hword⟩ | hinherits⟩ := (hmem db).1 hdb
      · obtain ⟨-, -, hbare, -⟩ := hown t raw hover (hword ▸ hoff)
        obtain rfl : t = db := hbare.symm.trans ht
        exact ⟨raw, hover, hkeyword t raw hover (hword ▸ hoff)⟩
      · exact hinherited db hne hinherits
    have hfrom : (∃ raw, haModeOverride lower confdata db = some raw ∧ lower raw.trim ∈ haModeOff) → db ∈ names := by
      rintro ⟨raw, hover, hword⟩
      obtain ⟨-, hne, hbare, hoff'⟩ := hown db raw hover hword
      exact (hmem db).2 ⟨hne, hoff'.imp (fun hword' => ⟨db, raw, hbare, hover, hword'⟩) id⟩
    have hwiden : (∃ raw, haModeOverride lower confdata db = some raw ∧ lower raw.trim ∈ haModeOffKeywords) →
        ∃ raw, haModeOverride lower confdata db = some raw ∧ lower raw.trim ∈ haModeOff :=
      fun ⟨raw, hover, hword⟩ => ⟨raw, hover, mem_haModeOff.2 (.inr hword)⟩
    exact ⟨⟨hto, fun hex => hfrom (hwiden hex)⟩, fun hdb => hwiden (hto hdb), hfrom⟩

/-! ### Agreement -/

/-- The readers agree on a file just if it can be grouped and its `ha_mode` keys fit. -/
theorem ha_mode_readers_agree (lower : Text → Text) (hnil : lower [] = []) (confdata : List Text) :
    HaReadersAgree lower confdata ↔
      ∃ grouped, parseConfigParamsBySection lower confdata = some grouped ∧ HaModesFit lower confdata grouped := by
  constructor
  · rintro ⟨⟨on, hhost, hverdicts⟩, names, hnames, hdbs⟩
    obtain ⟨grouped, hgrouped, -⟩ := Option.bind_eq_some_iff.1 hhost
    obtain ⟨hempty, hinherited⟩ := (host_verdict_iff hnil hgrouped).1 ⟨on, hhost, hverdicts⟩
    obtain ⟨hown, hinherits⟩ := (perDb_verdict_iff hgrouped hnames).1 hdbs
    exact ⟨grouped, hgrouped, hempty, hinherited, hown, hinherits⟩
  · rintro ⟨grouped, hgrouped, hfit⟩
    have hnames : getPerDbHaModeOffDbNames lower confdata =
        some (grouped.sections.entries.filterMap (perDbHaModeOff lower grouped)).eraseDups := by
      simp only [getPerDbHaModeOffDbNames, hgrouped, Option.bind_eq_bind, Option.bind_some]
    exact ⟨(host_verdict_iff hnil hgrouped).2 ⟨hfit.host, hfit.inheritedHost⟩, _, hnames,
      (perDb_verdict_iff hgrouped hnames).2 ⟨hfit.perDb, hfit.inheritedPerDb⟩⟩

/-- A file on which all agree, with a database that is turned off. -/
def replicaConf : List Text := ["[common]".toList, "ha_mode=replica".toList, "[@demodb]".toList, "ha_mode=off".toList]

theorem ha_mode_readers_agree_replica : HaReadersAgree asciiLower.lower replicaConf := by
  have hsections : (parseConfText asciiLower.lower replicaConf).sections =
      [⟨some commonSection, some 1, [⟨haModeKey, "replica".toList, 2⟩]⟩,
        ⟨some "@demodb".toList, some 3, [⟨haModeKey, offWord, 4⟩]⟩] := by decide
  have hgrouped : ∃ grouped, parseConfigParamsBySection asciiLower.lower replicaConf = some grouped :=
    Option.isSome_iff_exists.1 (by decide)
  have hproto : confValue asciiLower.lower replicaConf protoKey haModeKey = none := by decide
  have hcommon : confValue asciiLower.lower replicaConf commonSection haModeKey = some "replica".toList := by decide
  have hoverride : ∀ db raw, haModeOverride asciiLower.lower replicaConf db = some raw → db = "demodb".toList ∧ raw = offWord := by
    intro db raw hraw
    obtain ⟨s, hs, hvalue⟩ := Option.bind_eq_some_iff.1 hraw
    rw [hsections] at hs
    obtain rfl | rfl := List.mem_pair.1 (List.mem_of_find?_eq_some hs)
    · have hname : some commonSection = some ('@' :: db) := of_decide_eq_true (List.find?_some hs :)
      cases congrArg List.head? (Option.some.inj hname)
    · have hname : some "@demodb".toList = some ('@' :: db) := of_decide_eq_true (List.find?_some hs :)
      exact ⟨(List.cons.inj (Option.some.inj hname)).2.symm, (Option.some.inj hvalue).symm⟩
  obtain ⟨grouped, hgrouped⟩ := hgrouped
  have hinherits : ∀ db, ¬ InheritsOff asciiLower.lower replicaConf grouped db := by
    rintro db ⟨t, -, -, -, raw, hraw, -⟩
    rw [hproto] at hraw
    cases hraw
  refine (ha_mode_readers_agree asciiLower.lower rfl replicaConf).2 ⟨grouped, hgrouped, fun raw hraw => ?_,
    fun hnone => ?_, fun db raw hraw _ => ?_, fun db _ h => absurd h (hinherits db)⟩
  · rw [hcommon] at hraw
    cases hraw
    decide
  · rw [hcommon] at hnone
    cases hnone
  · obtain ⟨rfl, rfl⟩ := hoverride db raw hraw
    exact ⟨by decide, by decide, by decide, .inl (by decide)⟩

/-- An empty `ha_mode` is on for `isHostHaModeOnFromCubridConf` alone. -/
theorem ha_mode_readers_agree_fails : ¬ ∀ confdata : List Text, HaReadersAgree asciiLower.lower confdata := by
  intro h
  obtain ⟨⟨on, hhost, hservice, -⟩, -⟩ := h ["[common]".toList, "ha_mode=".toList]
  have hon : isHostHaModeOnFromCubridConf asciiLower.lower ["[common]".toList, "ha_mode=".toList] = some true := by decide
  have hoff : serviceHaModeOn asciiLower.lower ["[common]".toList, "ha_mode=".toList] = some false := by decide
  rw [hon] at hhost
  rw [hoff] at hservice
  cases hhost.trans hservice.symm

end CubridWebManager.Conf
