import CubridWebManager.Conf.SharedObjects

/-!
# Looking up what a file says

The object of a file gives exactly the parameters of the file, and leaves other objects alone, where no section with the
name of something inherited sets a key, and the name and the key that are asked for are not inherited themselves
(`grouping_exact`).
-/

namespace CubridWebManager.Conf

open Shared

variable {lower : Text → Text} {confdata : List Text} {p p' : Parsed} {name key : Text}

/-! ### The condition -/

/-- No section with the name of something inherited sets a key. -/
def Clean (lower : Text → Text) (ss : List ConfTextSection) : Prop :=
  ∀ s ∈ ss, ∀ name, s.name = some name → ¬IsPlain name → ∀ e ∈ s.entries, lower e.key = protoKey

/-- Nothing inherited stands in the way of the pair. -/
structure PlainPair (lower : Text → Text) (confdata : List Text) (name key : Text) : Prop where
  given : (confValue lower confdata name key).isSome → IsPlain name ∧ key ≠ protoKey
  absent : confValue lower confdata name key = none →
    (∃ s ∈ (parseConfText lower confdata).sections, s.name = some name) ∨ ¬IsPlain name → IsPlain key
  function : confValue lower confdata name key = none → name ∈ methodNames → key ∉ functionKeys name

/-! ### Pristine objects -/

theorem assignEntries_of_proto {entries : List ConfTextEntry} (h : ∀ e ∈ entries, lower e.key = protoKey)
    (d : Dict Text Text) : assignEntries lower d entries = d := by
  unfold assignEntries
  induction entries with
  | nil => rfl
  | cons e entries ih =>
    rw [List.foldl_cons, if_pos (h e List.mem_cons_self)]
    exact ih fun e' he' => h e' (List.mem_cons_of_mem e he')

theorem assignFunction_of_proto {entries : List ConfTextEntry} (h : ∀ e ∈ entries, lower e.key = protoKey)
    (d : Dict (Text × Text) Text) : Parsed.assignFunction lower d name entries = d := by
  unfold Parsed.assignFunction
  induction entries with
  | nil => rfl
  | cons e entries ih =>
    rw [List.foldl_cons, if_pos (h e List.mem_cons_self)]
    exact ih fun e' he' => h e' (List.mem_cons_of_mem e he')

theorem get?_assignEntries_proto (params : Dict Text Text) (entries : List ConfTextEntry) :
    (assignEntries lower params entries).get? protoKey = params.get? protoKey := by
  unfold assignEntries
  induction entries generalizing params with
  | nil => rfl
  | cons e entries ih =>
    rw [List.foldl_cons, ih]
    split
    · rfl
    · rename_i hne
      rw [Dict.get?_set, if_neg (Ne.symm hne)]

/-- Nothing shared has been set. -/
structure Pristine (p : Parsed) : Prop where
  prototype : p.prototype = .empty
  functions : p.functions = .empty

theorem not_mem_lockedKeys (name : Text) : protoKey ∉ lockedKeys name := by
  unfold lockedKeys
  split <;> decide

/-- The object of a section, if it has one of its own. -/
def ownParams (lower : Text → Text) (ss : List ConfTextSection) (name : Text) : Option (Dict Text Text) :=
  if IsPlain name then (ss.find? fun s => s.name = some name).map fun s => assignEntries lower .empty s.entries
  else none

theorem ownParams_singleton {s : ConfTextSection} {n : Text} (hname : s.name = some n) (name : Text) :
    ownParams lower [s] name =
      if IsPlain n ∧ name = n then some (assignEntries lower .empty s.entries) else none := by
  unfold ownParams
  by_cases h : name = n
  · subst h
    have hfind : [s].find? (fun s => s.name = some name) = some s := by simp [hname]
    rw [hfind, Option.map_some]
    simp
  · have hfind : [s].find? (fun s => s.name = some name) = none := by simp [hname, Ne.symm h]
    rw [hfind, Option.map_none, ite_self, if_neg fun hn => h hn.2]

/-- Where a section that is new goes. -/
theorem paramsObject_of_pristine {n : Text} (hp : Pristine p) (hnew : p.sections.get? n = none) :
    p.paramsObject n = if n = protoKey then .prototype else if n ∈ methodNames then .method else .own := by
  have hproto : p.prototype.get? n = none := by rw [hp.prototype, Dict.get?_empty]
  rw [Grouped.paramsObject, hnew, hproto, if_neg (c := ((none : Option (Dict Text Text)).isSome : Prop)) (by simp),
    if_neg (c := ((none : Option Text).isSome : Prop)) (by simp)]

/-- A section that sets nothing shared adds its own object. -/
theorem addSection_clean {s : ConfTextSection} (hp : Pristine p) (hs : Clean lower [s])
    (hnew : ∀ n, s.name = some n → p.sections.get? n = none) :
    ∃ p', p.addSection lower s = some p' ∧ Pristine p' ∧
      ∀ name, p'.sections.get? name = (ownParams lower [s] name).or (p.sections.get? name) := by
  have hclean := hs s (List.mem_singleton_self s)
  unfold Parsed.addSection Grouped.addSection
  cases hname : s.name with
  | none =>
    refine ⟨p, rfl, hp, fun name => ?_⟩
    have hfind : [s].find? (fun s => s.name = some name) = none := by simp [hname]
    rw [ownParams, hfind, Option.map_none, ite_self, Option.none_or]
  | some n =>
    have hobject := paramsObject_of_pristine hp (hnew n hname)
    dsimp only [Option.map_some]
    by_cases hproto : n = protoKey
    · rw [if_pos hproto] at hobject
      have hentries := hclean n hname fun h => h.1 hproto
      rw [hobject]
      refine ⟨_, rfl, ⟨(assignEntries_of_proto hentries _).trans hp.prototype, hp.functions⟩, fun name => ?_⟩
      rw [ownParams_singleton hname, if_neg fun h => h.1.1 hproto, Option.none_or]
    rw [if_neg hproto] at hobject
    by_cases hmethod : n ∈ methodNames
    · rw [if_pos hmethod] at hobject
      have hentries := hclean n hname fun h => h.2 hmethod
      have hlocked : ¬(s.entries.any fun e => lower e.key ∈ lockedKeys n) = true := by
        rw [List.any_eq_true]
        rintro ⟨e, he, hmem⟩
        rw [hentries e he] at hmem
        exact not_mem_lockedKeys n (of_decide_eq_true hmem)
      rw [hobject]
      dsimp only
      rw [if_neg hlocked]
      refine ⟨_, rfl, ⟨hp.prototype, (assignFunction_of_proto hentries _).trans hp.functions⟩, fun name => ?_⟩
      rw [ownParams_singleton hname, if_neg fun h => h.1.2 hmethod, Option.none_or]
    · rw [if_neg hmethod] at hobject
      rw [hobject]
      refine ⟨_, rfl, ⟨hp.prototype, hp.functions⟩, fun name => ?_⟩
      rw [ownParams_singleton hname, hnew n hname, Option.getD_none, Dict.get?_set]
      by_cases hn : name = n
      · rw [if_pos hn, if_pos ⟨⟨hproto, hmethod⟩, hn⟩, Option.some_or]
      · rw [if_neg hn, if_neg fun h => hn h.2, Option.none_or]

/-! ### Touched objects -/

/-- Something shared has been set. -/
def Touched (p : Parsed) : Prop :=
  (∃ key, (p.prototype.get? key).isSome) ∨ ∃ key, (p.functions.get? key).isSome

theorem lastValue_isSome {entries : List ConfTextEntry} {e : ConfTextEntry} (he : e ∈ entries) :
    (lastValue lower entries (lower e.key)).isSome := by
  rw [lastValue, Option.isSome_map, List.find?_isSome]
  exact ⟨e, List.mem_reverse.2 he, decide_eq_true rfl⟩

theorem get?_assignFunction (functions : Dict (Text × Text) Text) (entries : List ConfTextEntry) (n k : Text) :
    (Parsed.assignFunction lower functions name entries).get? (n, k) =
      (if n = name ∧ k ≠ protoKey then lastValue lower entries k else none).or (functions.get? (n, k)) := by
  unfold Parsed.assignFunction
  induction entries generalizing functions with
  | nil => rw [lastValue_nil, ite_self]; rfl
  | cons e entries ih =>
    rw [List.foldl_cons, ih, lastValue_cons]
    by_cases hset : n = name ∧ k ≠ protoKey
    · rw [if_pos hset, if_pos hset, Option.or_assoc]
      congr 1
      by_cases hk : lower e.key = k
      · rw [if_neg (hk ▸ hset.2), Dict.get?_set, if_pos (by rw [hset.1, hk]), if_pos hk, Option.some_or]
      · rw [if_neg hk, Option.none_or]
        split
        · rfl
        · rw [Dict.get?_set, if_neg fun heq => hk (Prod.mk.inj heq).2.symm]
    · rw [if_neg hset, if_neg hset, Option.none_or, Option.none_or]
      split
      · rfl
      · rename_i hproto
        rw [Dict.get?_set, if_neg]
        intro heq
        obtain ⟨hn, hk⟩ := Prod.mk.inj heq
        exact hset ⟨hn, fun h => hproto (hk.symm.trans h)⟩

/-- What a section does to shared objects. -/
theorem addSection_shared {s : ConfTextSection} (h : p.addSection lower s = some p') :
    (p'.prototype = p.prototype ∨ p'.prototype = assignEntries lower p.prototype s.entries) ∧
      (p'.functions = p.functions ∨ ∃ n, p'.functions = Parsed.assignFunction lower p.functions n s.entries) := by
  obtain ⟨g, hg, rfl⟩ := Option.map_eq_some_iff.1 h
  constructor
  · unfold Grouped.addSection at hg
    cases hname : s.name with
    | none =>
      rw [hname] at hg
      cases hg
      exact .inl rfl
    | some n =>
      rw [hname] at hg
      dsimp only at hg
      cases hobject : p.paramsObject n with
      | own =>
        rw [hobject] at hg
        cases hg
        exact .inl rfl
      | prototype =>
        rw [hobject] at hg
        cases hg
        exact .inr rfl
      | method =>
        rw [hobject] at hg
        simp only [Option.ite_none_left_eq_some] at hg
        cases hg.2
        exact .inl rfl
      | text =>
        rw [hobject] at hg
        simp only [Option.ite_none_left_eq_some] at hg
        cases hg.2
        exact .inl rfl
  · dsimp only
    split
    · rename_i n _ _
      exact .inr ⟨n, rfl⟩
    · exact .inl rfl

theorem Touched.addSection {s : ConfTextSection} (hp : Touched p) (h : p.addSection lower s = some p') :
    Touched p' := by
  obtain ⟨hproto, hfunctions⟩ := addSection_shared h
  rcases hp with ⟨key, hkey⟩ | ⟨⟨n, k⟩, hkey⟩
  · refine .inl ⟨key, ?_⟩
    rcases hproto with heq | heq
    · rwa [heq]
    · rw [heq]
      by_cases hk : key = protoKey
      · rw [hk, get?_assignEntries_proto, ← hk]
        exact hkey
      · rw [get?_assignEntries _ _ hk, Option.isSome_or, hkey, Bool.or_true]
  · refine .inr ⟨(n, k), ?_⟩
    rcases hfunctions with heq | ⟨name, heq⟩
    · rwa [heq]
    · rw [heq, get?_assignFunction, Option.isSome_or, hkey, Bool.or_true]

/-- A section with the name of something inherited that sets a key throws or leaves it. -/
theorem addSection_unclean {s : ConfTextSection} (hp : Pristine p) (hs : ¬Clean lower [s])
    (hnew : ∀ n, s.name = some n → p.sections.get? n = none) (h : p.addSection lower s = some p') : Touched p' := by
  simp only [Clean, List.mem_singleton, forall_eq, not_forall] at hs
  obtain ⟨n, hname, hplain, e, he, hkey⟩ := hs
  have hobject := paramsObject_of_pristine hp (hnew n hname)
  obtain ⟨g, hg, rfl⟩ := Option.map_eq_some_iff.1 h
  by_cases hproto : n = protoKey
  · rw [if_pos hproto] at hobject
    simp only [Grouped.addSection, hname, hobject, Option.some.injEq] at hg
    refine .inl ⟨lower e.key, ?_⟩
    rw [← hg, get?_assignEntries _ _ hkey, Option.isSome_or, lastValue_isSome he, Bool.true_or]
  · have hmethod : n ∈ methodNames := by
      by_contra hn
      exact hplain ⟨hproto, hn⟩
    rw [if_neg hproto, if_pos hmethod] at hobject
    refine .inr ⟨(n, lower e.key), ?_⟩
    simp only [hname, Option.map_some, hobject]
    rw [get?_assignFunction, if_pos ⟨rfl, hkey⟩, Option.isSome_or, lastValue_isSome he, Bool.true_or]

/-! ### The whole file -/

section run

variable {ss : List ConfTextSection}

theorem foldlM_touched (hp : Touched p) (h : ss.foldlM (Parsed.addSection lower) p = some p') : Touched p' := by
  induction ss generalizing p with
  | nil =>
    cases h
    exact hp
  | cons s ss ih =>
    rw [List.foldlM_cons] at h
    obtain ⟨p₁, hstep, hrest⟩ := Option.bind_eq_some_iff.1 h
    exact ih (hp.addSection hstep) hrest

theorem ownParams_cons {s : ConfTextSection} (hnames : s.name ∉ ss.map ConfTextSection.name) (name : Text) :
    ownParams lower (s :: ss) name = (ownParams lower ss name).or (ownParams lower [s] name) := by
  unfold ownParams
  by_cases hplain : IsPlain name
  · rw [if_pos hplain, if_pos hplain, if_pos hplain]
    by_cases hs : s.name = some name
    · have hnone : ss.find? (fun s => s.name = some name) = none :=
        List.find?_eq_none.2 fun s' hs' heq => hnames (hs ▸ of_decide_eq_true heq ▸ List.mem_map_of_mem hs')
      rw [List.find?_cons_of_pos (by simpa using hs), List.find?_cons_of_pos (by simpa using hs), hnone,
        Option.map_none, Option.none_or]
    · rw [List.find?_cons_of_neg (by simpa using hs), List.find?_cons_of_neg (by simpa using hs), List.find?_nil,
        Option.map_none, Option.or_none]
  · rw [if_neg hplain, if_neg hplain, if_neg hplain]
    rfl

theorem clean_cons {s : ConfTextSection} : Clean lower (s :: ss) ↔ Clean lower [s] ∧ Clean lower ss := by
  simp only [Clean, List.mem_cons, List.not_mem_nil, or_false, forall_eq_or_imp, forall_eq]

/-- Sections that set nothing shared add their own objects, and other sections throw or set something shared. -/
theorem foldlM_addSection_cases (hnames : (ss.map ConfTextSection.name).Nodup) (hp : Pristine p)
    (hnew : ∀ s ∈ ss, ∀ n, s.name = some n → p.sections.get? n = none) :
    (Clean lower ss → ∃ p', ss.foldlM (Parsed.addSection lower) p = some p' ∧ Pristine p' ∧
      ∀ name, p'.sections.get? name = (ownParams lower ss name).or (p.sections.get? name)) ∧
    (¬Clean lower ss → ∀ p', ss.foldlM (Parsed.addSection lower) p = some p' → Touched p') := by
  induction ss generalizing p with
  | nil =>
    refine ⟨fun _ => ⟨p, rfl, hp, fun name => ?_⟩, fun hclean => absurd (fun s hs => absurd hs List.not_mem_nil) hclean⟩
    rw [ownParams, List.find?_nil, Option.map_none, ite_self, Option.none_or]
  | cons s ss ih =>
    rw [List.map_cons, List.nodup_cons] at hnames
    have hnewHead := hnew s List.mem_cons_self
    by_cases hs : Clean lower [s]
    · obtain ⟨p₁, hstep, hp₁, hsections⟩ := addSection_clean hp hs hnewHead
      have hnewTail : ∀ s' ∈ ss, ∀ n, s'.name = some n → p₁.sections.get? n = none := by
        intro s' hs' n hn
        rw [hsections, hnew s' (List.mem_cons_of_mem s hs') n hn, Option.or_none]
        cases hsName : s.name with
        | none => simp [ownParams, hsName]
        | some m =>
          rw [ownParams_singleton hsName, if_neg]
          rintro ⟨-, rfl⟩
          exact hnames.1 (hsName.trans hn.symm ▸ List.mem_map_of_mem hs')
      obtain ⟨hcleanTail, huncleanTail⟩ := ih hnames.2 hp₁ hnewTail
      rw [List.foldlM_cons, hstep]
      refine ⟨fun hclean => ?_, fun hclean p' h => ?_⟩
      · obtain ⟨p', hrest, hp', hsections'⟩ := hcleanTail (clean_cons.1 hclean).2
        refine ⟨p', hrest, hp', fun name => ?_⟩
        rw [hsections', hsections, ownParams_cons hnames.1, Option.or_assoc]
      · exact huncleanTail (fun htail => hclean (clean_cons.2 ⟨hs, htail⟩)) p' h
    · refine ⟨fun hclean => absurd (clean_cons.1 hclean).1 hs, fun _ p' h => ?_⟩
      rw [List.foldlM_cons] at h
      obtain ⟨p₁, hstep, hrest⟩ := Option.bind_eq_some_iff.1 h
      exact foldlM_touched (addSection_unclean hp hs hnewHead hstep) hrest

end run

theorem pristine_start : Pristine Parsed.start := ⟨rfl, rfl⟩

/-- What a clean file is parsed to. -/
theorem parse_clean (h : Clean lower (parseConfText lower confdata).sections) :
    ∃ p, Parsed.parse lower confdata = some p ∧ Pristine p ∧
      ∀ name, p.sections.get? name = ownParams lower (parseConfText lower confdata).sections name := by
  obtain ⟨p, hparse, hp, hsections⟩ :=
    (foldlM_addSection_cases (nodup_section_names confdata) pristine_start fun _ _ _ _ => rfl).1 h
  exact ⟨p, hparse, hp, fun name => (hsections name).trans Option.or_none⟩

theorem touched_of_not_clean (hclean : ¬Clean lower (parseConfText lower confdata).sections)
    (h : Parsed.parse lower confdata = some p) : Touched p :=
  (foldlM_addSection_cases (nodup_section_names confdata) pristine_start fun _ _ _ _ => rfl).2 hclean p h

/-! ### Other objects -/

/-- Reading other objects and functions gives what it gave before. -/
def Isolated (p : Parsed) : Prop :=
  (∀ own key, p.shared.objectProperty own key = pristine.objectProperty own key) ∧
    ∀ name key, p.shared.functionProperty name key = pristine.functionProperty name key

theorem Pristine.shared (hp : Pristine p) : p.shared = pristine := by
  rw [Parsed.shared, hp.prototype, hp.functions]
  rfl

theorem Pristine.isolated (hp : Pristine p) : Isolated p := by
  rw [Isolated, hp.shared]
  exact ⟨fun _ _ => rfl, fun _ _ => rfl⟩

theorem pristine_objectProperty (key : Text) :
    pristine.objectProperty .empty key = if IsPlain key then .undefined else .builtin := rfl

theorem Touched.not_isolated (hp : Touched p) : ¬Isolated p := by
  rintro ⟨hobjects, hfunctions⟩
  rcases hp with ⟨key, hkey⟩ | ⟨⟨name, key⟩, hkey⟩
  · obtain ⟨value, hvalue⟩ := Option.isSome_iff_exists.1 hkey
    have hread := hobjects .empty key
    have htext : p.shared.objectProperty .empty key = .text value := by
      have hget : p.shared.prototype.get? key = some value := hvalue
      rw [objectProperty, Dict.get?_empty, Option.none_or, hget]
    rw [htext, pristine_objectProperty] at hread
    split at hread <;> cases hread
  · obtain ⟨value, hvalue⟩ := Option.isSome_iff_exists.1 hkey
    have hread := hfunctions name key
    have htext : p.shared.functionProperty name key = .text value := by
      have hget : p.shared.functions.get? (name, key) = some value := hvalue
      rw [functionProperty, hget]
    have hpristine : pristine.functionProperty name key =
        if key ∈ functionKeys name then .builtin else if IsPlain key then .undefined else .builtin := rfl
    rw [htext, hpristine] at hread
    split at hread
    · cases hread
    · split at hread <;> cases hread

/-! ### The pair that is asked for -/

/-- The object has the pair if and only if the file does, with the value that the file gives it last, and the lookup
finds that or nothing. -/
structure Exact (lower : Text → Text) (confdata : List Text) (name key : Text) (p : Parsed) : Prop where
  own : p.ownValue name key = confValue lower confdata name key
  param : getConfigParam p.shared p.sections name key =
    match confValue lower confdata name key with
    | some value => .text value
    | none => .undefined

theorem undefined_iff_plain : pristine.objectProperty .empty key = .undefined ↔ IsPlain key := by
  rw [pristine_objectProperty]
  split
  · rename_i h
    exact iff_of_true rfl h
  · rename_i h
    exact iff_of_false (fun heq => by cases heq) h

/-- The lookup of a name that is inherited itself finds nothing only under plain keys that functions do not have. -/
theorem getConfigParam_inherited (hp : Pristine p) (hplain : ¬IsPlain name) (hnone : p.sections.get? name = none) :
    getConfigParam p.shared p.sections name key = .undefined ↔
      IsPlain key ∧ (name ∈ methodNames → key ∉ functionKeys name) := by
  rw [hp.shared, getConfigParam, hnone]
  dsimp only
  by_cases hproto : name = protoKey
  · have hmethod : protoKey ∉ methodNames := by decide
    rw [if_pos hproto, undefined_iff_plain, hproto]
    exact (and_iff_left fun h => absurd h hmethod).symm
  · have hmethod : name ∈ methodNames := by
      by_contra hn
      exact hplain ⟨hproto, hn⟩
    have hinherited : pristine.prototype.get? name = none := rfl
    have hfunction : pristine.functions.get? (name, key) = none := rfl
    rw [if_neg hproto, hinherited]
    dsimp only
    rw [if_pos hmethod, functionProperty, hfunction]
    dsimp only
    by_cases hkey : key ∈ functionKeys name
    · rw [if_pos hkey]
      exact iff_of_false (fun heq => by cases heq) fun h => h.2 hmethod hkey
    · rw [if_neg hkey, undefined_iff_plain]
      exact (and_iff_left fun _ => hkey).symm

theorem getConfigParam_section (hp : Pristine p) {params : Dict Text Text}
    (hsome : p.sections.get? name = some params) :
    getConfigParam p.shared p.sections name key =
      match params.get? key with
      | some value => .text value
      | none => if IsPlain key then .undefined else .builtin := by
  have hinherited : pristine.prototype.get? key = none := rfl
  cases hget : params.get? key with
  | none => simp only [getConfigParam, hp.shared, hsome, objectProperty, hinherited, hget, Option.or_none]
  | some value => simp only [getConfigParam, hp.shared, hsome, objectProperty, hinherited, hget, Option.or_none]

theorem getConfigParam_absent (hp : Pristine p) (hplain : IsPlain name) (hnone : p.sections.get? name = none) :
    getConfigParam p.shared p.sections name key = .undefined := by
  have hinherited : pristine.prototype.get? name = none := rfl
  rw [hp.shared, getConfigParam, hnone]
  dsimp only
  rw [if_neg hplain.1, hinherited]
  exact if_neg hplain.2

/-- For a name that is not inherited: the key must not be either, unless the section has it. -/
theorem exact_iff_of_section (hp : Pristine p) (hplain : IsPlain name) {s : ConfTextSection}
    (hfind : (parseConfText lower confdata).sections.find? (fun s => s.name = some name) = some s)
    (hsome : p.sections.get? name = some (assignEntries lower .empty s.entries)) :
    Exact lower confdata name key p ↔ PlainPair lower confdata name key := by
  have hnamed : ∃ s ∈ (parseConfText lower confdata).sections, s.name = some name :=
    ⟨s, List.mem_of_find?_eq_some hfind, by simpa using List.find?_some hfind⟩
  have hvalue : confValue lower confdata name key = lastValue lower s.entries key := by
    rw [confValue, valueIn, hfind, Option.bind_some]
  have hparam : getConfigParam p.shared p.sections name key =
      match (assignEntries lower .empty s.entries).get? key with
      | some value => .text value
      | none => if IsPlain key then .undefined else .builtin := getConfigParam_section hp hsome
  by_cases hkey : key = protoKey
  · have hnotPlain : ¬IsPlain key := fun h => h.1 hkey
    have hget : (assignEntries lower .empty s.entries).get? key = none := by
      rw [hkey, get?_assignEntries_proto, Dict.get?_empty]
    rw [hget] at hparam
    dsimp only at hparam
    rw [if_neg hnotPlain] at hparam
    refine iff_of_false (fun h => ?_) fun h => ?_
    · have hread := h.param
      rw [hparam] at hread
      split at hread <;> cases hread
    · cases hconf : confValue lower confdata name key with
      | none => exact hnotPlain (h.absent hconf (.inl hnamed))
      | some value => exact (h.given (hconf ▸ rfl)).2 hkey
  · have hget : (assignEntries lower .empty s.entries).get? key = confValue lower confdata name key := by
      rw [get?_assignEntries _ _ hkey, Dict.get?_empty, Option.or_none, hvalue]
    have hown : p.ownValue name key = confValue lower confdata name key := by
      rw [Grouped.ownValue, hsome, Option.bind_some, hget]
    rw [hget] at hparam
    cases hconf : confValue lower confdata name key with
    | some value =>
      rw [hconf] at hparam
      refine iff_of_true ⟨hown, ?_⟩ ⟨fun _ => ⟨hplain, hkey⟩, fun h => ?_, fun _ h => absurd h hplain.2⟩
      · rw [hparam, hconf]
      · rw [hconf] at h
        cases h
    | none =>
      rw [hconf] at hparam
      dsimp only at hparam
      constructor
      · intro h
        have hread := h.param
        rw [hparam, hconf] at hread
        have hplainKey : IsPlain key := by
          by_contra hn
          rw [if_neg hn] at hread
          cases hread
        exact ⟨fun hsome => (by rw [hconf] at hsome; cases hsome), fun _ _ => hplainKey, fun _ h => absurd h hplain.2⟩
      · intro h
        refine ⟨hown, ?_⟩
        rw [hparam, hconf, if_pos (h.absent hconf (.inl hnamed))]

theorem exact_iff (hp : Pristine p)
    (hsections : ∀ name, p.sections.get? name = ownParams lower (parseConfText lower confdata).sections name) :
    Exact lower confdata name key p ↔ PlainPair lower confdata name key := by
  have hownParams := hsections name
  rw [ownParams] at hownParams
  by_cases hplain : IsPlain name
  · rw [if_pos hplain] at hownParams
    cases hfind : (parseConfText lower confdata).sections.find? fun s => s.name = some name with
    | some s =>
      rw [hfind, Option.map_some] at hownParams
      exact exact_iff_of_section hp hplain hfind hownParams
    | none =>
      rw [hfind, Option.map_none] at hownParams
      have hconf : confValue lower confdata name key = none := by rw [confValue, valueIn, hfind, Option.bind_none]
      refine iff_of_true ⟨?_, ?_⟩ ⟨fun h => ?_, fun _ h => ?_, fun _ h => absurd h hplain.2⟩
      · rw [Grouped.ownValue, hownParams, hconf, Option.bind_none]
      · rw [hconf, getConfigParam_absent hp hplain hownParams]
      · rw [hconf] at h
        cases h
      · rcases h with ⟨s, hs, hname⟩ | hnot
        · exact absurd (decide_eq_true hname) (List.find?_eq_none.1 hfind s hs)
        · exact absurd hplain hnot
  · rw [if_neg hplain] at hownParams
    have hinherited : getConfigParam p.shared p.sections name key = .undefined ↔
        IsPlain key ∧ (name ∈ methodNames → key ∉ functionKeys name) := getConfigParam_inherited hp hplain hownParams
    have hown : p.ownValue name key = none := by rw [Grouped.ownValue, hownParams, Option.bind_none]
    cases hconf : confValue lower confdata name key with
    | some value =>
      refine iff_of_false (fun h => ?_) fun h => hplain (h.given (hconf ▸ rfl)).1
      have hread := h.own
      rw [hown, hconf] at hread
      cases hread
    | none =>
      constructor
      · intro h
        have hread := h.param
        rw [hconf] at hread
        obtain ⟨hkey, hfunction⟩ := hinherited.1 hread
        exact ⟨fun hsome => (by rw [hconf] at hsome; cases hsome), fun _ _ => hkey, fun _ => hfunction⟩
      · intro h
        refine ⟨by rw [hown, hconf], ?_⟩
        rw [hconf]
        exact hinherited.2 ⟨h.absent hconf (.inr hplain), h.function hconf⟩

/-- A file is grouped exactly, and no other object is changed. -/
theorem grouping_exact (lower : Text → Text) (confdata : List Text) (name key : Text) :
    (∃ p, Parsed.parse lower confdata = some p ∧ Exact lower confdata name key p ∧ Isolated p) ↔
      Clean lower (parseConfText lower confdata).sections ∧ PlainPair lower confdata name key := by
  constructor
  · rintro ⟨p, hparse, hexact, hisolated⟩
    have hclean : Clean lower (parseConfText lower confdata).sections := by
      by_contra hclean
      exact (touched_of_not_clean hclean hparse).not_isolated hisolated
    obtain ⟨p', hparse', hp, hsections⟩ := parse_clean hclean
    obtain rfl := Option.some.inj (hparse.symm.trans hparse')
    exact ⟨hclean, (exact_iff hp hsections).1 hexact⟩
  · rintro ⟨hclean, hpair⟩
    obtain ⟨p, hparse, hp, hsections⟩ := parse_clean hclean
    exact ⟨p, hparse, (exact_iff hp hsections).2 hpair, hp.isolated⟩

private def protoConf : List Text := ["[__proto__]".toList, "ha_mode=on".toList]

/-- A key of a section `[__proto__]` is set on the prototype of all objects, and its section has none. -/
theorem grouping_shared :
    ¬∃ p, Parsed.parse asciiLower.lower protoConf = some p ∧
      Exact asciiLower.lower protoConf protoKey "ha_mode".toList p ∧ Isolated p := by
  rintro ⟨p, hparse, hexact, -⟩
  have hown : (Parsed.parse asciiLower.lower protoConf).map (fun p => p.ownValue protoKey "ha_mode".toList) =
      some none := by decide
  have hconf : confValue asciiLower.lower protoConf protoKey "ha_mode".toList = some "on".toList := by decide
  have hread := hexact.own
  rw [hparse, Option.map_some] at hown
  rw [Option.some.inj hown, hconf] at hread
  cases hread

end CubridWebManager.Conf
