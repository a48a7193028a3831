import CubridWebManager.CmConf.TokenActiveTime

/-!
# Where the readers of cm.conf agree

`TokenLine` and `EntryLine` say which lines `parseTokenActiveTime` and `parseCmConfText` take for the parameter.  The
readers agree on a line if and only if neither takes it or the line is plain (`tokenText_eq_entryText_iff`), and on a
file if and only if they agree on each of its lines (`readers_agree`).
-/

namespace CubridWebManager.CmConf

open Trim

variable {L : LowerCase} {line name rest t v : Text} {c : Char}

/-! ### The lines that give the parameter -/

/-- The parts of a line that gives the parameter: `rest` is what follows the name. -/
structure Parts where
  before : Text
  name : Text
  rest : Text

def Parts.text (p : Parts) : Text := p.before ++ (p.name ++ p.rest)

structure IsName (L : LowerCase) (name : Text) : Prop where
  named : L.lower name ∈ tokenActiveTimeNames
  ne : name ≠ []
  noSeparator : ∀ c ∈ name, isSeparator c = false

/-- White space stands before the name, and after it a separator or white space only, with no line break inside. -/
structure TokenLine (L : LowerCase) (p : Parts) : Prop where
  name : IsName L p.name
  before : All Text.isSpace p.before
  ends : All Text.isSpace p.rest ∨ ∃ c r, p.rest = c :: r ∧ isSeparator c = true
  oneLine : ∀ c ∈ p.rest.rdropWhile Text.isSpace, isLineTerminator c = false

/-- White space and separators stand before the name, and after it a separator and more than a lone `=`. -/
structure EntryLine (L : LowerCase) (p : Parts) : Prop where
  name : IsName L p.name
  before : ∃ w w', All isCmSpace w ∧ All isSeparator w' ∧ p.before = w ++ w'
  value : ∃ c r, p.rest = c :: r ∧ isSeparator c = true ∧ trim isCmSpace r ≠ [] ∧ trim isCmSpace r ≠ ['=']

/-! ### Names -/

namespace IsName

theorem isSpace (h : IsName L name) (hc : c ∈ name) : Text.isSpace c = false := (plain_of_named h.named hc).1

theorem isCmSpace (h : IsName L name) (hc : c ∈ name) : isCmSpace c = false :=
  isCmSpace_eq_false_of_isSpace (h.isSpace hc)

theorem all (h : IsName L name) : All (fun c => !isSeparator c) name := fun c hc => by simp [h.noSeparator c hc]

theorem head_mem (h : IsName L name) (hc : c ∈ (name ++ t).head?) : c ∈ name := by
  rw [List.head?_append_of_ne_nil _ h.ne] at hc
  exact List.mem_of_mem_head? hc

theorem not_comment (h : IsName L name) : ¬(name ++ t = [] ∨ (name ++ t).head? = some '#') := by
  rintro (hnil | hcomment)
  · exact h.ne (List.append_eq_nil_iff.1 hnil).1
  · exact (plain_of_named h.named (h.head_mem hcomment)).2 rfl

/-- Trimming the end of a text leaves the name. -/
theorem rdropWhile {p : Char → Bool} (h : IsName L name) (hp : ∀ c ∈ name, p c = false) (w t : Text) :
    (w ++ (name ++ t)).rdropWhile p = w ++ (name ++ t.rdropWhile p) := by
  obtain hnil | ⟨l, x, rfl⟩ := List.eq_nil_or_concat name
  · exact absurd hnil h.ne
  · have hx : p x = false := hp x (by simp)
    have hleft : w ++ (l.concat x ++ t) = w ++ l ++ x :: t := by simp
    rw [hleft, rdropWhile_append_cons hx]
    simp

end IsName

/-! ### `parseTokenActiveTime` -/

/-- What `matchKeyValue` finds after the key. -/
def matchedValue (rest : Text) : Text :=
  if (rest.dropWhile isBlank).head? = some '=' then (rest.dropWhile isBlank).tail.dropWhile isBlank
  else rest.dropWhile isBlank

theorem matchKeyValue_eq (t : Text) :
    matchKeyValue t =
      if t.takeWhile (fun c => !isSeparator c) = [] ∨
        (matchedValue (t.dropWhile fun c => !isSeparator c)).any isLineTerminator then none
      else some (t.takeWhile fun c => !isSeparator c, matchedValue (t.dropWhile fun c => !isSeparator c)) := rfl

theorem matchedValue_suffix (rest : Text) : matchedValue rest <:+ rest := by
  unfold matchedValue
  split
  · exact (List.dropWhile_suffix _).trans ((List.tail_suffix _).trans (List.dropWhile_suffix _))
  · exact List.dropWhile_suffix _

theorem isLineTerminator_of_isBlank (h : isBlank c = true) : isLineTerminator c = false := by
  simp only [isBlank, Bool.or_eq_true, decide_eq_true_eq] at h
  rcases h with rfl | rfl <;> rfl

theorem oneLine_of_dropWhile (h : ∀ c ∈ rest.dropWhile isBlank, isLineTerminator c = false) :
    ∀ c ∈ rest, isLineTerminator c = false := by
  intro c hc
  rw [← List.takeWhile_append_dropWhile (p := isBlank) (l := rest)] at hc
  exact (List.mem_append.1 hc).elim
    (fun hc => isLineTerminator_of_isBlank (List.mem_takeWhile_imp hc)) (h c)

theorem oneLine_of_matchedValue (h : ∀ c ∈ matchedValue rest, isLineTerminator c = false) :
    ∀ c ∈ rest, isLineTerminator c = false := by
  refine oneLine_of_dropWhile ?_
  unfold matchedValue at h
  split at h
  · rename_i hequals
    cases hdrop : rest.dropWhile isBlank with
    | nil => exact fun c hc => absurd hc List.not_mem_nil
    | cons d r =>
      rw [hdrop] at hequals h
      obtain rfl := Option.some.inj hequals
      intro c hc
      rcases List.mem_cons.1 hc with rfl | hc
      · rfl
      · exact oneLine_of_dropWhile h c hc
  · exact h

theorem matchKeyValue_append (hname : IsName L name) (hrest : ∀ c ∈ rest.head?, isSeparator c = true) :
    matchKeyValue (name ++ rest) =
      if (matchedValue rest).any isLineTerminator then none else some (name, matchedValue rest) := by
  have hhead : ∀ c ∈ rest.head?, (!isSeparator c) = false := fun c hc => by rw [hrest c hc, Bool.not_true]
  have hkey : (name ++ rest).takeWhile (fun c => !isSeparator c) = name := takeWhile_append_all hname.all hhead
  have hafter : (name ++ rest).dropWhile (fun c => !isSeparator c) = rest := by
    rw [dropWhile_append_all hname.all, dropWhile_of_head hhead]
  rw [matchKeyValue_eq, hkey, hafter]
  simp only [hname.ne, false_or]

theorem tokenText_parts {p : Parts} (hname : IsName L p.name) (hbefore : All Text.isSpace p.before)
    (hends : All Text.isSpace p.rest ∨ ∃ c r, p.rest = c :: r ∧ isSeparator c = true) :
    tokenText L p.text =
      if (matchedValue (p.rest.rdropWhile Text.isSpace)).any isLineTerminator then none
      else some (trim Text.isSpace (matchedValue (p.rest.rdropWhile Text.isSpace))) := by
  have htrim : trim Text.isSpace p.text = p.name ++ p.rest.rdropWhile Text.isSpace := by
    rw [Parts.text, trim_append_left hbefore, trim,
      dropWhile_of_head fun c hc => hname.isSpace (hname.head_mem hc)]
    exact hname.rdropWhile (fun c hc => hname.isSpace hc) [] p.rest
  have hhead : ∀ c ∈ (p.rest.rdropWhile Text.isSpace).head?, isSeparator c = true := by
    intro c hc
    rcases hends with hall | ⟨d, r, hrest, hd⟩
    · rw [rdropWhile_eq_nil hall] at hc
      cases hc
    · obtain ⟨w, -, hparts⟩ := exists_rdropWhile_parts Text.isSpace p.rest
      have hfirst : c ∈ p.rest.head? := by
        rw [hparts, List.head?_append, hc]
        rfl
      rw [hrest] at hfirst
      obtain rfl := Option.some.inj hfirst
      exact hd
  unfold tokenText
  simp only [htrim, if_neg hname.not_comment, matchKeyValue_append hname hhead]
  split
  · rfl
  · simp only [Option.bind_some, if_pos hname.named]

theorem tokenText_isSome {p : Parts} (hp : TokenLine L p) : (tokenText L p.text).isSome := by
  rw [tokenText_parts hp.name hp.before hp.ends, if_neg]
  · rfl
  · intro hany
    obtain ⟨c, hc, hterminator⟩ := List.any_eq_true.1 hany
    rw [hp.oneLine c ((matchedValue_suffix _).subset hc)] at hterminator
    cases hterminator

theorem exists_tokenLine (h : tokenText L line = some v) : ∃ p : Parts, p.text = line ∧ TokenLine L p := by
  obtain ⟨w, w', hw, hw', hline⟩ := exists_trim_parts Text.isSpace line
  have hbare := bare_trim Text.isSpace line
  unfold tokenText at h
  generalize trim Text.isSpace line = t at hline hbare h
  have hparts : t = t.takeWhile (fun c => !isSeparator c) ++ t.dropWhile (fun c => !isSeparator c) :=
    List.takeWhile_append_dropWhile.symm
  have hsep : ∀ c ∈ (t.dropWhile fun c => !isSeparator c).head?, isSeparator c = true := by
    intro c hc
    have := head_dropWhile hc
    simpa using this
  have hnoSep : ∀ c ∈ t.takeWhile (fun c => !isSeparator c), isSeparator c = false := by
    intro c hc
    have := List.mem_takeWhile_imp hc
    simpa using this
  dsimp only at h
  rw [matchKeyValue_eq] at h
  generalize t.takeWhile (fun c => !isSeparator c) = key at hparts hnoSep h
  generalize t.dropWhile (fun c => !isSeparator c) = rest at hparts hsep h
  by_cases hskip : t = [] ∨ t.head? = some '#'
  · rw [if_pos hskip] at h
    cases h
  by_cases hmatch : key = [] ∨ (matchedValue rest).any isLineTerminator
  · rw [if_neg hskip, if_pos hmatch] at h
    cases h
  rw [if_neg hskip, if_neg hmatch, Option.bind_some] at h
  by_cases hnamed : L.lower key ∈ tokenActiveTimeNames
  · rw [not_or] at hmatch
    have hrdrop : (rest ++ w').rdropWhile Text.isSpace = rest := by
      rw [rdropWhile_append_all hw']
      refine rdropWhile_of_last fun c hc => hbare.2 c ?_
      rw [hparts, List.getLast?_append, hc]
      rfl
    refine ⟨⟨w, key, rest ++ w'⟩, ?_, ⟨⟨hnamed, hmatch.1, hnoSep⟩, hw, ?_, ?_⟩⟩
    · rw [Parts.text, hline, hparts]
      simp
    · cases rest with
      | nil => exact .inl hw'
      | cons c r => exact .inr ⟨c, r ++ w', rfl, hsep c rfl⟩
    · rw [hrdrop]
      refine oneLine_of_matchedValue fun c hc => ?_
      rw [← Bool.not_eq_true]
      exact fun hterminator => hmatch.2 (List.any_eq_true.2 ⟨c, hc, hterminator⟩)
  · rw [if_neg hnamed] at h
    cases h

/-! ### `parseCmConfText` -/

/-- The white space at the end of what follows the key makes no difference. -/
theorem valueAfter_rdropWhile (c : Char) (r : Text) :
    valueAfter ((c :: r).rdropWhile isCmSpace) = valueAfter (c :: r) := by
  have htrim : trim isCmSpace ((c :: r).rdropWhile isCmSpace).tail = trim isCmSpace r := by
    obtain ⟨w, hw, hparts⟩ := exists_rdropWhile_parts isCmSpace (c :: r)
    cases hdrop : (c :: r).rdropWhile isCmSpace with
    | nil =>
      rw [hdrop, List.nil_append] at hparts
      rw [trim_eq_nil fun x hx => hw x (hparts ▸ List.mem_cons_of_mem c hx)]
      rfl
    | cons d l =>
      rw [hdrop] at hparts
      have hr : r = l ++ w := (List.cons.inj hparts).2
      rw [List.tail_cons, hr, trim_append_right l hw]
  unfold valueAfter
  rw [htrim, List.tail_cons]

theorem valueAfter_ne_nil (r : Text) :
    valueAfter (c :: r) ≠ [] ↔ trim isCmSpace r ≠ [] ∧ trim isCmSpace r ≠ ['='] := by
  unfold valueAfter
  rw [List.tail_cons]
  have hbare := bare_trim isCmSpace r
  cases htrim : trim isCmSpace r with
  | nil => simp
  | cons d l =>
    rw [htrim] at hbare
    by_cases hd : d = '='
    · subst hd
      simp only [List.head?_cons, if_pos, List.tail_cons, ne_eq, reduceCtorEq, not_false_eq_true, true_and,
        List.cons.injEq]
      refine not_congr ⟨fun hnil => ?_, fun hnil => by rw [hnil]; rfl⟩
      have hall := all_of_trim_eq_nil hnil
      cases hlast : l.getLast? with
      | none => exact List.getLast?_eq_none_iff.1 hlast
      | some x =>
        have hx : isCmSpace x = false := hbare.2 x (by rw [List.getLast?_cons, hlast]; rfl)
        rw [hall x (List.mem_of_getLast? hlast)] at hx
        cases hx
    · simp [hd]

/-- White space and separators in front of the name are dropped. -/
theorem exists_dropWhile_before {w w' : Text} (hw : All isCmSpace w) (hw' : All isSeparator w')
    (ht : ∀ c ∈ t.head?, isCmSpace c = false) :
    ∃ z, All isSeparator z ∧ (w ++ w' ++ t).dropWhile isCmSpace = z ++ t := by
  rw [List.append_assoc, dropWhile_append_all hw]
  clear hw
  induction w' with
  | nil => exact ⟨[], All.nil, dropWhile_of_head ht⟩
  | cons c w' ih =>
    rw [List.cons_append, List.dropWhile_cons]
    split
    · exact ih fun x hx => hw' x (List.mem_cons_of_mem c hx)
    · exact ⟨c :: w', hw', rfl⟩

theorem entryText_parts {p : Parts} {r : Text} (hname : IsName L p.name)
    (hbefore : ∃ w w', All isCmSpace w ∧ All isSeparator w' ∧ p.before = w ++ w') (hrest : p.rest = c :: r)
    (hc : isSeparator c = true) :
    entryText L p.text = if valueAfter (c :: r) ≠ [] then some (valueAfter (c :: r)) else none := by
  obtain ⟨w, w', hw, hw', hparts⟩ := hbefore
  obtain ⟨z, hz, hdrop⟩ := exists_dropWhile_before hw hw' (t := p.name ++ p.rest)
    fun c hc => hname.isCmSpace (hname.head_mem hc)
  have htrim : trim isCmSpace p.text = z ++ (p.name ++ p.rest.rdropWhile isCmSpace) := by
    rw [Parts.text, hparts, trim, hdrop]
    exact hname.rdropWhile (fun c hc => hname.isCmSpace hc) z p.rest
  have hskip : ¬(trim isCmSpace p.text = [] ∨ (trim isCmSpace p.text).head? = some '#') := by
    rw [htrim]
    cases z with
    | nil => exact hname.not_comment
    | cons d z =>
      rintro (hnil | hcomment)
      · cases hnil
      · obtain rfl := Option.some.inj hcomment
        exact absurd (hz '#' List.mem_cons_self) (by decide)
  have hnamed : (trim isCmSpace p.text).dropWhile isSeparator = p.name ++ p.rest.rdropWhile isCmSpace := by
    rw [htrim, dropWhile_append_all hz, dropWhile_of_head fun c hc => hname.noSeparator c (hname.head_mem hc)]
  have hhead : ∀ d ∈ (p.rest.rdropWhile isCmSpace).head?, (!isSeparator d) = false := by
    intro d hd
    obtain ⟨w, -, hparts⟩ := exists_rdropWhile_parts isCmSpace p.rest
    have hfirst : d ∈ p.rest.head? := by
      rw [hparts, List.head?_append, hd]
      rfl
    rw [hrest] at hfirst
    obtain rfl := Option.some.inj hfirst
    rw [hc, Bool.not_true]
  have hkey : (p.name ++ p.rest.rdropWhile isCmSpace).takeWhile (fun c => !isSeparator c) = p.name :=
    takeWhile_append_all hname.all hhead
  unfold entryText readLine
  simp only [if_neg hskip, hnamed, hkey, if_neg hname.ne, List.drop_left, Option.bind_some, hname.named, true_and]
  rw [hrest, valueAfter_rdropWhile]

theorem entryText_isSome {p : Parts} (hp : EntryLine L p) : (entryText L p.text).isSome := by
  obtain ⟨c, r, hrest, hc, hvalue⟩ := hp.value
  rw [entryText_parts hp.name hp.before hrest hc, if_pos ((valueAfter_ne_nil r).2 hvalue)]
  rfl

theorem drop_length_takeWhile (p : Char → Bool) (t : Text) : t.drop (t.takeWhile p).length = t.dropWhile p := by
  induction t with
  | nil => rfl
  | cons c t ih =>
    rw [List.takeWhile_cons, List.dropWhile_cons]
    split
    · exact ih
    · rfl

theorem exists_entryLine (h : entryText L line = some v) : ∃ p : Parts, p.text = line ∧ EntryLine L p := by
  obtain ⟨w, w', hw, hw', hline⟩ := exists_trim_parts isCmSpace line
  unfold entryText readLine at h
  generalize trim isCmSpace line = t at hline h
  obtain ⟨z, hz, ht⟩ := exists_dropWhile_parts isSeparator t
  dsimp only at h
  generalize t.dropWhile isSeparator = named at ht h
  rw [drop_length_takeWhile] at h
  have hparts : named = named.takeWhile (fun c => !isSeparator c) ++ named.dropWhile (fun c => !isSeparator c) :=
    List.takeWhile_append_dropWhile.symm
  have hsep : ∀ c ∈ (named.dropWhile fun c => !isSeparator c).head?, isSeparator c = true := by
    intro c hc
    simpa using head_dropWhile hc
  have hnoSep : ∀ c ∈ named.takeWhile (fun c => !isSeparator c), isSeparator c = false := by
    intro c hc
    simpa using List.mem_takeWhile_imp hc
  generalize named.takeWhile (fun c => !isSeparator c) = key at hparts hnoSep h
  generalize named.dropWhile (fun c => !isSeparator c) = rest at hparts hsep h
  by_cases hskip : t = [] ∨ t.head? = some '#'
  · rw [if_pos hskip] at h
    cases h
  by_cases hkey : key = []
  · rw [if_neg hskip, if_pos hkey] at h
    cases h
  rw [if_neg hskip, if_neg hkey, Option.bind_some] at h
  by_cases hread : L.lower key ∈ tokenActiveTimeNames ∧ valueAfter rest ≠ []
  · refine ⟨⟨w ++ z, key, rest ++ w'⟩, ?_, ⟨⟨hread.1, hkey, hnoSep⟩, ⟨w, z, hw, hz, rfl⟩, ?_⟩⟩
    · rw [Parts.text, hline, ht, hparts]
      simp
    · cases rest with
      | nil => exact absurd rfl hread.2
      | cons c r =>
        have hvalue := (valueAfter_ne_nil r).1 hread.2
        exact ⟨c, r ++ w', rfl, hsep c rfl, by rwa [trim_append_right r hw']⟩
  · rw [if_neg hread] at h
    cases h

/-! ### Both readers -/

section both

variable {p q : Parts}

/-- No `=` stands before the name in a line that both readers take. -/
theorem all_before (hp : TokenLine L p) (hq : EntryLine L q) (h : p.text = q.text) : All isCmSpace q.before := by
  obtain ⟨w, w', hw, hw', hbefore⟩ := hq.before
  rw [hbefore]
  refine hw.append fun c hc => ?_
  obtain ⟨b, hb, hparts⟩ := exists_dropWhile_parts isBlank w'
  cases hdrop : w'.dropWhile isBlank with
  | nil =>
    rw [hdrop, List.append_nil] at hparts
    exact isCmSpace_of_isBlank (hb c (hparts ▸ hc))
  | cons d r =>
    exfalso
    have hd : d = '=' := by
      have hsep := hw' d (hparts ▸ List.mem_append_right b (hdrop ▸ List.mem_cons_self))
      have hblank : isBlank d = false := head_dropWhile (l := w') (by rw [hdrop]; rfl)
      rw [isSeparator, hblank, Bool.false_or, decide_eq_true_eq] at hsep
      exact hsep
    have hleft : p.text.dropWhile Text.isSpace = p.name ++ p.rest := by
      rw [Parts.text, dropWhile_append_all hp.before,
        dropWhile_of_head fun c hc => hp.name.isSpace (hp.name.head_mem hc)]
    have hright : q.text.dropWhile Text.isSpace = '=' :: (r ++ (q.name ++ q.rest)) := by
      rw [Parts.text, hbefore, hparts, hdrop, hd, List.append_assoc,
        dropWhile_append_all (hw.mono fun _ => isSpace_of_isCmSpace), List.append_assoc,
        dropWhile_append_all (hb.mono fun _ => isSpace_of_isBlank)]
      rfl
    have hmem : '=' ∈ p.name := by
      refine hp.name.head_mem (t := p.rest) ?_
      rw [← hleft, h, hright]
      rfl
    exact absurd (hp.name.noSeparator '=' hmem) (by decide)

/-- The parts of a line that both readers take are the same. -/
theorem parts_unique (hp : TokenLine L p) (hq : EntryLine L q) (h : p.text = q.text) : p = q := by
  have hbefore : All Text.isSpace q.before := (all_before hp hq h).mono fun _ => isSpace_of_isCmSpace
  have hpHead : ∀ c ∈ (p.name ++ p.rest).head?, Text.isSpace c = false :=
    fun c hc => hp.name.isSpace (hp.name.head_mem hc)
  have hqHead : ∀ c ∈ (q.name ++ q.rest).head?, Text.isSpace c = false :=
    fun c hc => hq.name.isSpace (hq.name.head_mem hc)
  have hspaces : p.before = q.before := by
    rw [← takeWhile_append_all hp.before hpHead, ← takeWhile_append_all hbefore hqHead]
    exact congrArg _ h
  have hafter : p.name ++ p.rest = q.name ++ q.rest := by
    unfold Parts.text at h
    rw [hspaces] at h
    exact List.append_cancel_left h
  obtain ⟨c, r, hrest, hc, -, -⟩ := hq.value
  have hname : (q.name ++ q.rest).takeWhile (fun c => !isSeparator c) = q.name := by
    refine takeWhile_append_all hq.name.all fun d hd => ?_
    rw [hrest] at hd
    obtain rfl := Option.some.inj hd
    rw [hc, Bool.not_true]
  have hlonger : p.name ++ p.rest.takeWhile (fun c => !isSeparator c) = q.name := by
    rw [← hname, ← hafter, List.takeWhile_append_of_pos hp.name.all]
  have hnil : p.rest.takeWhile (fun c => !isSeparator c) = [] := by
    cases htake : p.rest.takeWhile (fun c => !isSeparator c) with
    | nil => rfl
    | cons d l =>
      have hd : d ∈ p.rest.takeWhile fun c => !isSeparator c := htake ▸ List.mem_cons_self
      have hspace : Text.isSpace d = false := hq.name.isSpace (hlonger ▸ List.mem_append_right _ hd)
      rcases hp.ends with hall | ⟨e, l', hrest', he⟩
      · rw [hall d ((List.takeWhile_sublist _).subset hd)] at hspace
        cases hspace
      · rw [hrest', List.takeWhile_cons, he] at htake
        cases htake
  rw [hnil, List.append_nil] at hlonger
  have hrests : p.rest = q.rest := by
    rw [hlonger] at hafter
    exact List.append_cancel_left hafter
  cases p
  cases q
  simp only [Parts.mk.injEq]
  exact ⟨hspaces, hlonger, hrests⟩

theorem getLast_of_suffix (h : t <:+ rest) (hc : c ∈ t.getLast?) : c ∈ rest.getLast? := by
  obtain ⟨w, rfl⟩ := h
  rw [List.getLast?_append, hc]
  rfl

/-- The end of a line is trimmed alike where it has no line break and ends in no white space. -/
theorem trim_eq_dropWhile_blank (hlast : ∀ c ∈ t.getLast?, Text.isSpace c = false)
    (hline : ∀ c ∈ t, isLineTerminator c = false) : trim isCmSpace t = t.dropWhile isBlank := by
  have hdrop : t.dropWhile isCmSpace = t.dropWhile isBlank := by
    clear hlast
    induction t with
    | nil => rfl
    | cons c t ih =>
      rw [List.dropWhile_cons, List.dropWhile_cons, ih fun d hd => hline d (List.mem_cons_of_mem c hd)]
      cases hc : isBlank c with
      | true => rw [isCmSpace_of_isBlank hc]
      | false => rw [isCmSpace_eq_false hc (hline c List.mem_cons_self)]
  rw [trim, rdropWhile_of_last, hdrop]
  intro c hc
  exact isCmSpace_eq_false_of_isSpace (hlast c (getLast_of_suffix (List.dropWhile_suffix _) hc))

/-- What both readers see after the name, if it is the same value. -/
structure Core (rest v : Text) : Prop where
  bare : Bare Text.isSpace v
  last : ∀ c ∈ rest.getLast?, Text.isSpace c = false
  oneLine : ∀ c ∈ rest, isLineTerminator c = false
  token : trim Text.isSpace (matchedValue rest) = v
  entry : valueAfter rest = v
  ne : v ≠ []

namespace Core

variable {r : Text}

theorem trim_suffix (h : Core rest v) (ht : t <:+ rest) : trim isCmSpace t = t.dropWhile isBlank :=
  trim_eq_dropWhile_blank (fun c hc => h.last c (getLast_of_suffix ht hc)) fun c hc => h.oneLine c (ht.subset hc)

theorem gap_of_equals (h : Core ('=' :: r) v) : r.dropWhile isBlank = v ∧ v.head? ≠ some '=' := by
  have hvalue : trim isCmSpace r = r.dropWhile isBlank := h.trim_suffix (List.suffix_cons '=' r)
  have hmatched : matchedValue ('=' :: r) = r.dropWhile isBlank := rfl
  have htoken := h.token
  have hentry := h.entry
  rw [hmatched] at htoken
  rw [valueAfter, List.tail_cons, hvalue] at hentry
  by_cases hequals : (r.dropWhile isBlank).head? = some '='
  · exfalso
    rw [if_pos hequals] at hentry
    have hsame : trim Text.isSpace (r.dropWhile isBlank) = r.dropWhile isBlank := by
      refine trim_of_bare ⟨fun c hc => ?_, fun c hc => ?_⟩
      · rw [hequals] at hc
        obtain rfl := Option.some.inj hc
        rfl
      · exact h.last c (getLast_of_suffix ((List.dropWhile_suffix _).trans (List.suffix_cons _ r)) hc)
    have hlen := length_trim_le isCmSpace (r.dropWhile isBlank).tail
    rw [hentry, ← htoken, hsame, List.length_tail] at hlen
    cases hdrop : r.dropWhile isBlank with
    | nil =>
      rw [hdrop] at hequals
      cases hequals
    | cons c l =>
      rw [hdrop, List.length_cons] at hlen
      omega
  · rw [if_neg hequals] at hentry
    exact ⟨hentry, hentry ▸ hequals⟩

theorem gap_of_entry (h : Core (c :: r) v) :
    r.dropWhile isBlank = v ∧ v.head? ≠ some '=' ∨ ∃ l, r.dropWhile isBlank = '=' :: l ∧ l.dropWhile isBlank = v := by
  have hsuffix : r.dropWhile isBlank <:+ c :: r := (List.dropWhile_suffix _).trans (List.suffix_cons c r)
  have hentry := h.entry
  rw [valueAfter, List.tail_cons, h.trim_suffix (List.suffix_cons c r)] at hentry
  cases hdrop : r.dropWhile isBlank with
  | nil =>
    rw [hdrop] at hentry
    exact absurd hentry.symm h.ne
  | cons d l =>
    rw [hdrop] at hentry
    by_cases hd : d = '='
    · subst hd
      rw [hdrop] at hsuffix
      rw [List.head?_cons, if_pos rfl, List.tail_cons, h.trim_suffix ((List.suffix_cons '=' l).trans hsuffix)] at hentry
      exact .inr ⟨l, rfl, hentry⟩
    · rw [List.head?_cons, if_neg fun heq => hd (Option.some.inj heq)] at hentry
      exact .inl ⟨hentry, by rw [← hentry]; exact fun heq => hd (Option.some.inj heq)⟩

/-- The value follows a gap of the form that plain lines have. -/
theorem exists_shape (h : Core (c :: r) v) (hc : isSeparator c = true) :
    ∃ (blanks : Text) (assigned : Option Text),
      c :: r = blanks ++ (assigned.map fun blanks => '=' :: blanks).getD [] ++ v ∧ All isBlank blanks ∧
      (∀ w ∈ assigned, All isBlank w) ∧ (blanks ≠ [] ∨ assigned ≠ none) ∧
      (v.head? = some '=' → assigned ≠ none ∧ blanks ≠ []) := by
  obtain ⟨w, hw, hr⟩ := exists_dropWhile_parts isBlank r
  cases hblank : isBlank c with
  | true =>
    have hblanks : All isBlank (c :: w) := by
      intro d hd
      rcases List.mem_cons.1 hd with rfl | hd
      · exact hblank
      · exact hw d hd
    rcases h.gap_of_entry with ⟨hv, hne⟩ | ⟨l, hl, hv⟩
    · refine ⟨c :: w, none, ?_, hblanks, fun _ hmem => absurd hmem (Option.not_mem_none _), .inl (List.cons_ne_nil _ _),
        fun heq => absurd heq hne⟩
      rw [hv] at hr
      rw [hr]
      simp
    · obtain ⟨w', hw', hl'⟩ := exists_dropWhile_parts isBlank l
      refine ⟨c :: w, some w', ?_, hblanks, ?_, .inl (List.cons_ne_nil _ _),
        fun _ => ⟨Option.some_ne_none _, List.cons_ne_nil _ _⟩⟩
      · rw [hl, hl', hv] at hr
        rw [hr]
        simp
      · rintro _ ⟨⟩
        exact hw'
  | false =>
    rw [isSeparator, hblank, Bool.false_or, decide_eq_true_eq] at hc
    subst hc
    obtain ⟨hv, hne⟩ := h.gap_of_equals
    refine ⟨[], some w, ?_, All.nil, ?_, .inr (Option.some_ne_none _), fun heq => absurd heq hne⟩
    · rw [hv] at hr
      rw [hr]
      simp
    · rintro _ ⟨⟩
      exact hw

end Core

theorem exists_valueAfter_parts (c : Char) (r : Text) :
    ∃ x w, c :: r = x ++ valueAfter (c :: r) ++ w ∧ All isCmSpace w := by
  obtain ⟨w, w', -, hw', hr⟩ := exists_trim_parts isCmSpace r
  unfold valueAfter
  dsimp only
  rw [List.tail_cons]
  split
  · rename_i hequals
    cases htrim : trim isCmSpace r with
    | nil =>
      rw [htrim] at hequals
      cases hequals
    | cons d l =>
      obtain ⟨u, u', -, hu', hl⟩ := exists_trim_parts isCmSpace l
      refine ⟨c :: (w ++ d :: u), u' ++ w', ?_, hu'.append hw'⟩
      rw [List.tail_cons]
      conv_lhs => rw [hr, htrim, hl]
      simp
  · refine ⟨c :: w, w', ?_, hw'⟩
    conv_lhs => rw [hr]
    simp

theorem exists_plain (h : tokenText L line = some v) (h' : entryText L line = some v) :
    ∃ s : Shape, s.text = line ∧ s.Plain L := by
  obtain ⟨p, hpText, hp⟩ := exists_tokenLine h
  obtain ⟨q, hqText, hq⟩ := exists_entryLine h'
  have hbefore := all_before hp hq (hpText.trans hqText.symm)
  obtain rfl := parts_unique hp hq (hpText.trans hqText.symm)
  subst hpText
  obtain ⟨c, r, hrest, hc, hvalue⟩ := hq.value
  rw [tokenText_parts hp.name hp.before hp.ends] at h
  rw [entryText_parts hq.name hq.before hrest hc, if_pos ((valueAfter_ne_nil r).2 hvalue)] at h'
  have hentry : valueAfter (c :: r) = v := Option.some.inj h'
  have hne : v ≠ [] := hentry ▸ (valueAfter_ne_nil r).2 hvalue
  split at h
  · cases h
  have htoken := Option.some.inj h
  have hbare : Bare Text.isSpace v := htoken ▸ bare_trim Text.isSpace _
  obtain ⟨x, w, hparts, hw⟩ := exists_valueAfter_parts c r
  rw [hentry] at hparts
  have hrdrop : p.rest.rdropWhile Text.isSpace = x ++ v := by
    rw [hrest, hparts, rdropWhile_append_all (hw.mono fun _ => isSpace_of_isCmSpace)]
    refine rdropWhile_of_last fun d hd => hbare.2 d ?_
    rwa [List.getLast?_append_of_ne_nil _ hne] at hd
  rw [hrdrop] at htoken
  have honeLine := hp.oneLine
  rw [hrdrop] at honeLine
  obtain ⟨r', hr'⟩ : ∃ r', x ++ v = c :: r' := by
    cases hxv : x ++ v with
    | nil => exact absurd (List.append_eq_nil_iff.1 hxv).2 hne
    | cons d r' =>
      rw [hxv] at hparts
      exact ⟨r', by rw [(List.cons.inj hparts).1]⟩
  have hr : r = r' ++ w := by
    rw [hr'] at hparts
    exact (List.cons.inj hparts).2
  have hcore : Core (c :: r') v := by
    refine ⟨hbare, fun d hd => hbare.2 d ?_, hr' ▸ honeLine, hr' ▸ htoken, ?_, hne⟩
    · rwa [← hr', List.getLast?_append_of_ne_nil _ hne] at hd
    · rw [valueAfter, List.tail_cons, hr, trim_append_right r' hw] at hentry
      exact hentry
  obtain ⟨blanks, assigned, heq, hblanks, hassigned, hgap, hequals⟩ := hcore.exists_shape hc
  refine ⟨⟨p.before, p.name, blanks, assigned, v, w⟩, ?_, ?_⟩
  · rw [Shape.text, Parts.text, Shape.gap, hrest, hparts, hr', heq]
    simp
  · refine ⟨hbefore, hw, hp.name.named, hp.name.ne, hp.name.noSeparator, hblanks, hassigned, ?_, hne, hbare,
      fun d hd => honeLine d (List.mem_append_right x hd), hequals⟩
    intro hnil
    obtain ⟨hb, ha⟩ := List.append_eq_nil_iff.1 hnil
    rcases hgap with hgap | hgap
    · exact hgap hb
    · obtain ⟨w', rfl⟩ := Option.ne_none_iff_exists'.1 hgap
      cases ha

end both

/-- The line gives the parameter to one of the readers. -/
def GivesToken (L : LowerCase) (line : Text) : Prop := ∃ p : Parts, p.text = line ∧ (TokenLine L p ∨ EntryLine L p)

theorem tokenText_eq_entryText_iff :
    tokenText L line = entryText L line ↔ (GivesToken L line → ∃ s : Shape, s.text = line ∧ s.Plain L) := by
  constructor
  · rintro heq ⟨p, rfl, hp⟩
    rcases hp with hp | hp
    · obtain ⟨v, hv⟩ := Option.isSome_iff_exists.1 (tokenText_isSome hp)
      exact exists_plain hv (heq ▸ hv)
    · obtain ⟨v, hv⟩ := Option.isSome_iff_exists.1 (entryText_isSome hp)
      exact exists_plain (heq.trans hv) hv
  · intro hplain
    cases htoken : tokenText L line with
    | none =>
      cases hentry : entryText L line with
      | none => rfl
      | some v =>
        obtain ⟨p, hpText, hp⟩ := exists_entryLine hentry
        obtain ⟨s, rfl, hs⟩ := hplain ⟨p, hpText, .inr hp⟩
        rw [hs.tokenText_eq] at htoken
        cases htoken
    | some v =>
      obtain ⟨p, hpText, hp⟩ := exists_tokenLine htoken
      obtain ⟨s, rfl, hs⟩ := hplain ⟨p, hpText, .inl hp⟩
      rw [hs.entryText_eq, ← htoken, hs.tokenText_eq]

/-! ### The file -/

theorem foldl_or_eq {α β : Type*} (f : α → Option β) (l : List α) (init : Option β) :
    l.foldl (fun last x => (f x).or last) init = (l.filterMap f).getLast?.or init := by
  induction l generalizing init with
  | nil => rfl
  | cons x l ih =>
    rw [List.foldl_cons, ih]
    cases hx : f x with
    | none => rw [List.filterMap_cons_none hx, Option.none_or]
    | some y =>
      rw [List.filterMap_cons_some hx, List.getLast?_cons, Option.some_or]
      cases (l.filterMap f).getLast? <;> rfl

theorem rawTokenActiveTime_eq (L : LowerCase) (lines : List Text) :
    rawTokenActiveTime L lines = (lines.filterMap (tokenText L)).getLast? := by
  rw [rawTokenActiveTime, foldl_or_eq, Option.or_none]

theorem readLine_lineNo (line : Text) (n : Nat) :
    readLine line n = (readLine line 0).map fun e => { e with lineNo := n } := by
  unfold readLine
  dsimp only
  split
  · rfl
  · split <;> rfl

theorem map_value_entries (L : LowerCase) (lines : List Text) (n : Nat) :
    ((((lines.zipIdx n).filterMap fun (raw, i) => readLine raw (i + 1)).filter fun e => e.value ≠ []).filter
      fun e => L.lower e.key ∈ tokenActiveTimeNames).map CmConfEntry.value = lines.filterMap (entryText L) := by
  induction lines generalizing n with
  | nil => rfl
  | cons line lines ih =>
    rw [List.zipIdx_cons, List.filterMap_cons, List.filterMap_cons, entryText]
    dsimp only
    rw [readLine_lineNo line (n + 1)]
    cases hread : readLine line 0 with
    | none => exact ih (n + 1)
    | some e =>
      rw [Option.map_some, Option.bind_some]
      by_cases hvalue : e.value = []
      · rw [List.filter_cons_of_neg (by simpa using hvalue), if_neg fun h => h.2 hvalue]
        exact ih (n + 1)
      · rw [List.filter_cons_of_pos (by simpa using hvalue)]
        by_cases hnamed : L.lower e.key ∈ tokenActiveTimeNames
        · rw [List.filter_cons_of_pos (by simpa using hnamed), if_pos ⟨hnamed, hvalue⟩, List.map_cons, ih (n + 1)]
        · rw [List.filter_cons_of_neg (by simpa using hnamed), if_neg fun h => hnamed h.1]
          exact ih (n + 1)

theorem lastTokenEntry_eq (L : LowerCase) (lines : List Text) :
    (lastTokenEntry L (parseCmConfText lines)).map CmConfEntry.value = (lines.filterMap (entryText L)).getLast? := by
  rw [← map_value_entries L lines 0, List.getLast?_map]
  rfl

/-- What the readers have to agree on: each line, the text that counts and the seconds. -/
structure Agree (L : LowerCase) (lines : List Text) : Prop where
  each : ∀ line ∈ lines,
    rawTokenActiveTime L [line] = (lastTokenEntry L (parseCmConfText [line])).map CmConfEntry.value
  raw : rawTokenActiveTime L lines = (lastTokenEntry L (parseCmConfText lines)).map CmConfEntry.value
  seconds : parseTokenActiveTime L lines =
    ((lastTokenEntry L (parseCmConfText lines)).bind fun e => secondsOf e.value).getD cmsDefaultTokenActiveTimeSec

theorem agree_line_iff :
    rawTokenActiveTime L [line] = (lastTokenEntry L (parseCmConfText [line])).map CmConfEntry.value ↔
      tokenText L line = entryText L line := by
  have hlast : ∀ f : Text → Option Text, ([line].filterMap f).getLast? = f line := by
    intro f
    cases hf : f line with
    | none => rw [List.filterMap_cons_none hf]; rfl
    | some v => rw [List.filterMap_cons_some hf]; rfl
  rw [rawTokenActiveTime_eq, lastTokenEntry_eq, hlast, hlast]

/-- The readers agree on a file exactly if each line that gives the parameter to one of them is plain. -/
theorem readers_agree (L : LowerCase) (lines : List Text) :
    Agree L lines ↔ ∀ line ∈ lines, GivesToken L line → ∃ s : Shape, s.text = line ∧ s.Plain L := by
  constructor
  · intro h line hline
    exact tokenText_eq_entryText_iff.1 (agree_line_iff.1 (h.each line hline))
  · intro h
    have heach : ∀ line ∈ lines, tokenText L line = entryText L line :=
      fun line hline => tokenText_eq_entryText_iff.2 (h line hline)
    have hraw : rawTokenActiveTime L lines = (lastTokenEntry L (parseCmConfText lines)).map CmConfEntry.value := by
      rw [rawTokenActiveTime_eq, lastTokenEntry_eq, List.filterMap_congr heach]
    refine ⟨fun line hline => agree_line_iff.2 (heach line hline), hraw, ?_⟩
    rw [parseTokenActiveTime, hraw, Option.bind_map]
    rfl

/-- An empty line that comes later takes the value away from `parseTokenActiveTime` alone. -/
theorem readers_disagree :
    ¬Agree asciiLower ["token_active_time=600".toList, "token_active_time=".toList] :=
  fun h => absurd h.raw (by decide)

end CubridWebManager.CmConf
