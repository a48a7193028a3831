import CubridWebManager.Conf.Sections
import CubridWebManager.Lib.JsObject

/-!
# The parameters of a file by section

`parseConfigParamsBySection` groups the keys of cubrid.conf in a plain object with one plain object for each section.
What it finds under a name that it has not set is what objects inherit: `grouped['__proto__']` is `Object.prototype`,
so the keys of a section `[__proto__]` are inherited by every section (`ownValue_sections`, `inherited_eq`), and to
write to a text or to a locked property of a function throws.
-/

namespace CubridWebManager.Conf

/-! ### The last value of a key -/

/-- The value of the last of the entries with this key. -/
def lastValue (lower : Text → Text) (entries : List ConfTextEntry) (key : Text) : Option Text :=
  (entries.reverse.find? fun e => lower e.key = key).map ConfTextEntry.value

/-- The value that a section gives a key. -/
def valueIn (lower : Text → Text) (sections : List ConfTextSection) (name key : Text) : Option Text :=
  (sections.find? fun s => s.name = some name).bind fun s => lastValue lower s.entries key

section lastValue

variable {lower : Text → Text} {entries : List ConfTextEntry} {key : Text}

@[simp] theorem lastValue_nil : lastValue lower [] key = none := rfl

theorem lastValue_cons (e : ConfTextEntry) (entries : List ConfTextEntry) : lastValue lower (e :: entries) key =
    (lastValue lower entries key).or (if lower e.key = key then some e.value else none) := by
  rw [lastValue, List.reverse_cons, List.find?_append, lastValue]
  cases entries.reverse.find? fun e => lower e.key = key with
  | some found => rfl
  | none =>
    by_cases hkey : lower e.key = key
    · simp [hkey]
    · simp [hkey]

theorem getLast?_filter_key : ((entries.filter fun e => lower e.key = key).getLast?).map ConfTextEntry.value =
    lastValue lower entries key := by
  rw [lastValue, List.getLast?_eq_head?_reverse, ← List.filter_reverse, List.head?_filter]

theorem lastValue_eq_none (h : ∀ e ∈ entries, lower e.key ≠ key) : lastValue lower entries key = none := by
  rw [lastValue, List.find?_eq_none.2, Option.map_none]
  intro e he
  simpa using h e (List.mem_reverse.1 he)

end lastValue

/-! ### The object -/

/-- The name of the prototype of an object. -/
def protoKey : Text := "__proto__".toList

/-- `SystemParametersBySection`: the object of each section, and the properties that `Object.prototype` has got. -/
structure Grouped where
  sections : Dict Text (Dict Text Text)
  prototype : Dict Text Text
  deriving DecidableEq

/-- The object that `grouped[name] ??= {}` is. -/
inductive ParamsObject
  | own
  | prototype
  /-- A function that all objects inherit. -/
  | method
  /-- A property of `Object.prototype` that the file has set. -/
  | text

/-- The names of the functions that all objects inherit. -/
def methodNames : List Text := JsObject.methods.map String.toList

/-- The properties of such a function that a write to throws. -/
def lockedKeys (name : Text) : List Text :=
  ["name".toList, "length".toList, "caller".toList, "arguments".toList] ++
    if name = "constructor".toList then ["prototype".toList] else []

/-- `for (const { key, value } of entries) params[key.toLowerCase()] = value`; to set `__proto__` to a text does
nothing. -/
def assignEntries (lower : Text → Text) (params : Dict Text Text) (entries : List ConfTextEntry) : Dict Text Text :=
  entries.foldl (fun d e => if lower e.key = protoKey then d else d.set (lower e.key) e.value) params

namespace Grouped

def paramsObject (g : Grouped) (name : Text) : ParamsObject :=
  if name = protoKey then .prototype
  else if (g.sections.get? name).isSome then .own
  else if (g.prototype.get? name).isSome then .text
  else if name ∈ methodNames then .method
  else .own

/-- One pass of the loop of `parseConfigParamsBySection`; `none` where it throws a TypeError. -/
def addSection (lower : Text → Text) (g : Grouped) (s : ConfTextSection) : Option Grouped :=
  match s.name with
  | none => some g
  | some name =>
    match g.paramsObject name with
    | .own =>
      some { g with sections := g.sections.set name (assignEntries lower ((g.sections.get? name).getD .empty) s.entries) }
    | .prototype => some { g with prototype := assignEntries lower g.prototype s.entries }
    | .method => if s.entries.any fun e => lower e.key ∈ lockedKeys name then none else some g
    | .text => if s.entries.any fun e => lower e.key ≠ protoKey then none else some g

/-- The value of a key in the section's own object. -/
def ownValue (g : Grouped) (name key : Text) : Option Text := (g.sections.get? name).bind fun params => params.get? key

/-- `grouped[name]?.[key]`, for names and keys that no object inherits by itself. -/
def param (g : Grouped) (name key : Text) : Option Text :=
  if (g.sections.get? name).isSome ∨ (g.prototype.get? name).isSome then
    (g.ownValue name key).or (g.prototype.get? key)
  else none

/-- `(grouped[name] || {})[key]`, for such names and keys. -/
def paramOrEmpty (g : Grouped) (name key : Text) : Option Text := (g.ownValue name key).or (g.prototype.get? key)

end Grouped

/-- `none` where it throws a TypeError. -/
def parseConfigParamsBySection (lower : Text → Text) (confdata : List Text) : Option Grouped :=
  (parseConfText lower confdata).sections.foldlM (Grouped.addSection lower) ⟨.empty, .empty⟩

/-! ### What is grouped -/

section grouped

variable {lower : Text → Text} {g g' : Grouped} {name key : Text}

theorem get?_assignEntries (params : Dict Text Text) (entries : List ConfTextEntry) (hkey : key ≠ protoKey) :
    (assignEntries lower params entries).get? key = (lastValue lower entries key).or (params.get? key) := by
  unfold assignEntries
  induction entries generalizing params with
  | nil => simp
  | cons e entries ih =>
    rw [List.foldl_cons, ih, lastValue_cons, Option.or_assoc]
    congr 1
    by_cases hproto : lower e.key = protoKey
    · have hne : ¬ lower e.key = key := fun heq => hkey (heq.symm.trans hproto)
      rw [if_pos hproto, if_neg hne, Option.none_or]
    · rw [if_neg hproto, Dict.get?_set]
      by_cases heq : lower e.key = key
      · rw [if_pos heq.symm, if_pos heq, Option.some_or]
      · rw [if_neg (Ne.symm heq), if_neg heq, Option.none_or]

namespace Grouped

/-- What a section changes. -/
theorem addSection_cases {s : ConfTextSection} (h : g.addSection lower s = some g') (hname : s.name = some name)
    (hnew : g.sections.get? name = none) :
    (name = protoKey ∧ g'.sections = g.sections ∧ g'.prototype = assignEntries lower g.prototype s.entries) ∨
    (name ≠ protoKey ∧ g' = { g with sections := g.sections.set name (assignEntries lower .empty s.entries) }) ∨
    (name ≠ protoKey ∧ (name ∈ methodNames ∨ (g.prototype.get? name).isSome ∧ ∀ e ∈ s.entries, lower e.key = protoKey) ∧
      g' = g) := by
  unfold addSection at h
  simp only [hname] at h
  unfold paramsObject at h
  rw [hnew] at h
  by_cases hproto : name = protoKey
  · rw [if_pos hproto] at h
    cases h
    exact .inl ⟨hproto, rfl, rfl⟩
  rw [if_neg hproto, if_neg (by simp)] at h
  by_cases htext : (g.prototype.get? name).isSome
  · rw [if_pos htext] at h
    simp only [Option.ite_none_left_eq_some] at h
    obtain ⟨hkeys, heq⟩ := h
    have hall : ∀ e ∈ s.entries, lower e.key = protoKey := by simpa using hkeys
    exact .inr (.inr ⟨hproto, .inr ⟨htext, hall⟩, (Option.some.inj heq).symm⟩)
  rw [if_neg htext] at h
  by_cases hmethod : name ∈ methodNames
  · rw [if_pos hmethod] at h
    simp only [Option.ite_none_left_eq_some] at h
    exact .inr (.inr ⟨hproto, .inl hmethod, (Option.some.inj h.2).symm⟩)
  · rw [if_neg hmethod] at h
    exact .inr (.inl ⟨hproto, (Option.some.inj h).symm⟩)

/-- What sections with names of their own add to the object. -/
structure Adds (lower : Text → Text) (g g' : Grouped) (ss : List ConfTextSection) : Prop where
  inherited : ∀ key, key ≠ protoKey →
    g'.prototype.get? key = (valueIn lower ss protoKey key).or (g.prototype.get? key)
  ownValue : ∀ name, name ≠ protoKey → name ∉ methodNames → ∀ key, key ≠ protoKey →
    g'.ownValue name key = (valueIn lower ss name key).or (g.ownValue name key)
  named : ∀ name, (g'.sections.get? name).isSome → (g.sections.get? name).isSome ∨ ∃ s ∈ ss, s.name = some name
  kept : ∀ name, (g.sections.get? name).isSome → (g'.sections.get? name).isSome
  present : ∀ name, name ≠ protoKey → name ∉ methodNames → (∃ s ∈ ss, s.name = some name) →
    (g'.sections.get? name).isSome ∨ (g'.prototype.get? name).isSome

theorem Adds.nil : Adds lower g g [] where
  inherited _ _ := rfl
  ownValue _ _ _ _ _ := rfl
  named _ h := .inl h
  kept _ h := h
  present _ _ _ h := by
    obtain ⟨s, hs, -⟩ := h
    cases hs

theorem valueIn_cons {s : ConfTextSection} {ss : List ConfTextSection} (hnames : s.name ∉ ss.map ConfTextSection.name) :
    valueIn lower (s :: ss) name key =
      (valueIn lower ss name key).or (if s.name = some name then lastValue lower s.entries key else none) := by
  by_cases hs : s.name = some name
  · have hnone : ss.find? (fun s => s.name = some name) = none :=
      List.find?_eq_none.2 fun s' hs' heq => hnames (hs ▸ of_decide_eq_true heq ▸ List.mem_map_of_mem hs')
    simp [valueIn, hs, hnone]
  · simp [valueIn, hs]

/-- A section adds its own values. -/
theorem addSection_adds {s : ConfTextSection} (h : g.addSection lower s = some g')
    (hnew : ∀ n, s.name = some n → g.sections.get? n = none) : Adds lower g g' [s] := by
  have hvalue : ∀ name key, valueIn lower [s] name key = if s.name = some name then lastValue lower s.entries key else none :=
    fun name key => by rw [valueIn_cons List.not_mem_nil]; rfl
  cases hs : s.name with
  | none =>
    simp only [addSection, hs, Option.some.injEq] at h
    subst h
    refine ⟨fun key _ => ?_, fun name _ _ key _ => ?_, fun _ h => .inl h, fun _ h => h, ?_⟩
    · rw [hvalue, hs, if_neg nofun, Option.none_or]
    · rw [hvalue, hs, if_neg nofun, Option.none_or]
    · rintro name - - ⟨s', hs', hname⟩
      rw [List.mem_singleton.1 hs', hs] at hname
      cases hname
  | some n =>
    have hpresent : ∀ name, (∃ s' ∈ [s], s'.name = some name) → n = name := by
      rintro name ⟨s', hs', hname⟩
      rw [List.mem_singleton.1 hs', hs] at hname
      exact Option.some.inj hname
    simp only [hs, Option.some.injEq] at hvalue
    rcases addSection_cases h hs (hnew n hs) with ⟨rfl, hsections, hproto⟩ | ⟨hproto, rfl⟩ | ⟨hproto, hold, rfl⟩
    · refine ⟨fun key hkey => ?_, fun name hname _ key _ => ?_, fun name h => .inl (hsections ▸ h),
        fun name h => hsections ▸ h, fun name hname _ h => absurd (hpresent name h).symm hname⟩
      · rw [hvalue, if_pos rfl, hproto, get?_assignEntries _ _ hkey]
      · rw [hvalue, if_neg (Ne.symm hname), Option.none_or, Grouped.ownValue, hsections, Grouped.ownValue]
    · refine ⟨fun key _ => ?_, fun name _ _ key hkey => ?_, fun name hsome => ?_, fun name hsome => ?_,
        fun name _ _ h => .inl ?_⟩
      · rw [hvalue, if_neg hproto, Option.none_or]
      · rw [hvalue, Grouped.ownValue, Dict.get?_set]
        by_cases hname : name = n
        · subst hname
          rw [if_pos rfl, if_pos rfl, Option.bind_some, get?_assignEntries _ _ hkey, Grouped.ownValue, hnew _ hs,
            Option.bind_none, Dict.get?_empty]
        · rw [if_neg hname, if_neg (Ne.symm hname), Option.none_or, Grouped.ownValue]
      · by_cases hname : name = n
        · exact .inr ⟨s, List.mem_singleton_self s, hname ▸ hs⟩
        · rw [Dict.get?_set, if_neg hname] at hsome
          exact .inl hsome
      · rw [Dict.get?_set]
        split
        · rfl
        · exact hsome
      · rw [← hpresent name h, Dict.get?_set_self]
        rfl
    · refine ⟨fun key _ => ?_, fun name _ hmethod key hkey => ?_, fun name h => .inl h, fun name h => h,
        fun name _ hmethod h => ?_⟩
      · rw [hvalue, if_neg hproto, Option.none_or]
      · rw [hvalue]
        split
        · rename_i hname
          rcases hold with hold | ⟨-, hkeys⟩
          · exact absurd (hname ▸ hold) hmethod
          · rw [lastValue_eq_none fun e he heq => hkey (heq.symm.trans (hkeys e he)), Option.none_or]
        · rw [Option.none_or]
      · obtain rfl := hpresent name h
        exact .inr (hold.resolve_left hmethod).1

theorem Adds.cons {g₁ : Grouped} {s : ConfTextSection} {ss : List ConfTextSection}
    (hnames : s.name ∉ ss.map ConfTextSection.name) (hs : Adds lower g g₁ [s]) (hss : Adds lower g₁ g' ss) :
    Adds lower g g' (s :: ss) := by
  have hvalue : ∀ name key, valueIn lower (s :: ss) name key =
      (valueIn lower ss name key).or (valueIn lower [s] name key) := fun name key => by
    have hone : valueIn lower [s] name key = _ := valueIn_cons List.not_mem_nil
    rw [valueIn_cons hnames, hone]
    rfl
  refine ⟨fun key hkey => ?_, fun name hname hmethod key hkey => ?_, fun name hsome => ?_,
    fun name hsome => hss.kept name (hs.kept name hsome), fun name hname hmethod hpresent => ?_⟩
  · rw [hss.inherited key hkey, hs.inherited key hkey, hvalue, Option.or_assoc]
  · rw [hss.ownValue name hname hmethod key hkey, hs.ownValue name hname hmethod key hkey, hvalue, Option.or_assoc]
  · rcases hss.named name hsome with hold | ⟨s', hs', hname⟩
    · exact (hs.named name hold).imp_right fun ⟨s', hs', hname⟩ => ⟨s', List.mem_singleton.1 hs' ▸ List.mem_cons_self, hname⟩
    · exact .inr ⟨s', List.mem_cons_of_mem _ hs', hname⟩
  · obtain ⟨s', hs', heq⟩ := hpresent
    rcases List.mem_cons.1 hs' with rfl | hs'
    · refine (hs.present name hname hmethod ⟨s', List.mem_singleton_self s', heq⟩).imp (hss.kept name) fun hold => ?_
      rw [hss.inherited name hname, Option.isSome_or, hold, Bool.or_true]
    · exact hss.present name hname hmethod ⟨s', hs', heq⟩

/-- The sections of a file, each with a name of its own. -/
theorem foldlM_addSection (ss : List ConfTextSection) (hnames : (ss.map ConfTextSection.name).Nodup)
    (hnew : ∀ s ∈ ss, ∀ n, s.name = some n → g.sections.get? n = none)
    (h : ss.foldlM (addSection lower) g = some g') : Adds lower g g' ss := by
  induction ss generalizing g with
  | nil =>
    cases h
    exact .nil
  | cons s ss ih =>
    rw [List.map_cons, List.nodup_cons] at hnames
    rw [List.foldlM_cons] at h
    obtain ⟨g₁, hstep, hrest⟩ := Option.bind_eq_some_iff.1 h
    have hs := addSection_adds hstep (hnew s List.mem_cons_self)
    refine hs.cons hnames.1 (ih hnames.2 (fun s' hs' n hn => ?_) hrest)
    refine Option.not_isSome_iff_eq_none.1 fun hsome => ?_
    rcases hs.named n hsome with hold | ⟨s'', hs'', hn'⟩
    · rw [hnew s' (List.mem_cons_of_mem _ hs') n hn] at hold
      cases hold
    · rw [List.mem_singleton.1 hs''] at hn'
      exact hnames.1 (hn'.trans hn.symm ▸ List.mem_map_of_mem hs')

end Grouped

theorem nodup_headersOf (known : List (Option Text)) (es : List LogicalLine) :
    ((headersOf lower known es).map Prod.fst).Nodup := by
  induction es generalizing known with
  | nil => exact List.nodup_nil
  | cons e es ih =>
    unfold headersOf
    split
    · split
      · exact ih known
      · rename_i n _ hnew
        rw [List.map_cons, List.nodup_cons]
        refine ⟨fun hmem => ?_, ih _⟩
        obtain ⟨header, hheader, rfl⟩ := List.mem_map.1 hmem
        exact not_mem_known_of_mem_headersOf hheader (List.mem_append_right _ (List.mem_singleton_self _))
    all_goals exact ih known

/-- The sections of a file have names of their own. -/
theorem nodup_section_names (confdata : List Text) :
    ((parseConfText lower confdata).sections.map ConfTextSection.name).Nodup := by
  rw [parseConfText_sections]
  refine List.Nodup.sublist (List.filter_sublist.map _) ?_
  rw [List.map_cons, List.nodup_cons, List.map_map]
  constructor
  · intro hmem
    obtain ⟨header, -, heq⟩ := List.mem_map.1 hmem
    cases heq
  · have hsome : (headersOf lower [none] (logicalLinesOf confdata)).map
        (ConfTextSection.name ∘ sectionOfHeader lower none (logicalLinesOf confdata)) =
        ((headersOf lower [none] (logicalLinesOf confdata)).map Prod.fst).map some := by
      rw [List.map_map]
      rfl
    rw [hsome]
    exact (nodup_headersOf _ _).map fun _ _ heq => Option.some.inj heq

/-- What the object of a file holds. -/
theorem adds_of_parse {confdata : List Text} (h : parseConfigParamsBySection lower confdata = some g) :
    Grouped.Adds lower ⟨.empty, .empty⟩ g (parseConfText lower confdata).sections :=
  Grouped.foldlM_addSection _ (nodup_section_names confdata) (fun _ _ _ _ => rfl) h

/-- The value that a section of the file gives a key. -/
def confValue (lower : Text → Text) (confdata : List Text) (name key : Text) : Option Text :=
  valueIn lower (parseConfText lower confdata).sections name key

variable {confdata : List Text}

/-- The object of a section has the values of the section. -/
theorem ownValue_of_parse (h : parseConfigParamsBySection lower confdata = some g) (hname : name ≠ protoKey)
    (hmethod : name ∉ methodNames) (hkey : key ≠ protoKey) : g.ownValue name key = confValue lower confdata name key := by
  rw [(adds_of_parse h).ownValue name hname hmethod key hkey]
  exact Option.or_none

/-- What all objects inherit are the values of the section `[__proto__]`. -/
theorem inherited_of_parse (h : parseConfigParamsBySection lower confdata = some g) (hkey : key ≠ protoKey) :
    g.prototype.get? key = confValue lower confdata protoKey key := by
  rw [(adds_of_parse h).inherited key hkey]
  exact Option.or_none

theorem param_of_parse (h : parseConfigParamsBySection lower confdata = some g) (hname : name ≠ protoKey)
    (hmethod : name ∉ methodNames) (hkey : key ≠ protoKey) {value : Text}
    (hvalue : confValue lower confdata name key = some value) : g.param name key = some value := by
  have hown := (ownValue_of_parse h hname hmethod hkey).trans hvalue
  obtain ⟨params, hparams, -⟩ := Option.bind_eq_some_iff.1 hown
  rw [Grouped.param, if_pos (.inl (Option.isSome_of_eq_some hparams)), hown, Option.some_or]

end grouped

end CubridWebManager.Conf
