import CubridWebManager.HostImport.StoredLines

/-!
# Stored values are recovered

A value comes back exactly if the file does not look like XML, the line before does not end in a backslash, and the value
does not either, unless its line is the last and has no end of line (`value_recovered`).  A trailing backslash is taken
for a continuation although it is an escaped one (`value_lost`).
-/

namespace CubridWebManager.HostImport

open CodeUnits

/-! ### What unescaping keeps -/

/-- A unit that no escape makes disappear. -/
structure Inert (u : UInt16) : Prop where
  backslash : u ≠ unit '\\'
  unicode : u ≠ unit 'u'
  unit : escapedUnit u = u
  hex : hexValue u = none

theorem inert_sign (l : StoredLine) : Inert l.sign := by
  cases l with
  | property key value => exact (⟨by decide, by decide, by decide, by decide⟩ : Inert (unit '='))
  | comment remark => exact (⟨by decide, by decide, by decide, by decide⟩ : Inert (unit '#'))

theorem isSpace_sign (l : StoredLine) : isSpace l.sign = false := by
  cases l with
  | property key value => exact (by decide : isSpace (unit '=') = false)
  | comment remark => exact (by decide : isSpace (unit '#') = false)

theorem not_mem_of_parseHex {u c h₁ h₂ h₃ h₄ : UInt16} (hu : hexValue u = none) (h : parseHex h₁ h₂ h₃ h₄ = some c) :
    u ∉ [h₁, h₂, h₃, h₄] := by
  intro hmem
  simp only [List.mem_cons, List.not_mem_nil, or_false] at hmem
  unfold parseHex at h
  split at h
  · rename_i hv₁ hv₂ hv₃ hv₄
    rcases hmem with rfl | rfl | rfl | rfl
    · rw [hu] at hv₁; cases hv₁
    · rw [hu] at hv₂; cases hv₂
    · rw [hu] at hv₃; cases hv₃
    · rw [hu] at hv₄; cases hv₄
  · cases h

theorem mem_unescape {u : UInt16} (hu : Inert u) {l : CodeUnits} (hmem : u ∈ l) : u ∈ unescapeJavaProperties l := by
  fun_induction unescapeJavaProperties l with
  | case1 => exact hmem
  | case2 c => exact hmem
  | case3 c next rest hc ih =>
    rcases List.mem_cons.1 hmem with rfl | hrest
    · exact List.mem_cons_self
    · exact List.mem_cons_of_mem _ (ih hrest)
  | case4 c next rest hc hnext ih =>
    rcases List.mem_cons.1 hmem with rfl | hrest
    · exact absurd hu.backslash hc
    · rcases List.mem_cons.1 hrest with rfl | hrest
      · rw [hu.unit]
        exact List.mem_cons_self
      · exact List.mem_cons_of_mem _ (ih hrest)
  | case5 c next hc hnext h₁ h₂ h₃ h₄ rest v hparse ih =>
    have hrest : u ∈ h₁ :: h₂ :: h₃ :: h₄ :: rest := by
      rcases List.mem_cons.1 hmem with rfl | hrest
      · exact absurd hu.backslash hc
      · rcases List.mem_cons.1 hrest with rfl | hrest
        · exact absurd hu.unicode hnext
        · exact hrest
    have hsplit : u ∈ [h₁, h₂, h₃, h₄] ++ rest := hrest
    rcases List.mem_append.1 hsplit with hdigit | hrest
    · exact absurd hdigit (not_mem_of_parseHex hu.hex hparse)
    · exact List.mem_cons_of_mem _ (ih hrest)
  | case6 c next hc hnext h₁ h₂ h₃ h₄ rest hparse ih =>
    rcases List.mem_cons.1 hmem with rfl | hrest
    · exact absurd hu.backslash hc
    · rcases List.mem_cons.1 hrest with rfl | hrest
      · exact List.mem_cons_self
      · exact List.mem_cons_of_mem _ (ih hrest)
  | case7 c next hc hnext rest hshort ih =>
    rcases List.mem_cons.1 hmem with rfl | hrest
    · exact absurd hu.backslash hc
    · rcases List.mem_cons.1 hrest with rfl | hrest
      · exact List.mem_cons_self
      · exact List.mem_cons_of_mem _ (ih hrest)

/-! ### The value of a line -/

section Value

variable {k v w : CodeUnits}

theorem valueOfLine_stored (k w : CodeUnits) : valueOfLine k (saveConvert true k ++ unit '=' :: w) =
    let value := Trim.trim isSpace (unescapeJavaProperties ((w.rdropWhile isSpace).dropWhile isPropertyWhitespace))
    if value = [] then none else some value := by
  rw [valueOfLine, extractPropertyValueForKey, parsePropertyLine_stored]
  simp only [if_true]

theorem dropWhile_saveConvert (hw : ∀ u ∈ w.head?, isPropertyWhitespace u = false) :
    (saveConvert false v ++ w).dropWhile isPropertyWhitespace = saveConvert false v ++ w := by
  refine Trim.dropWhile_of_head fun u hu => ?_
  cases hfirst : saveConvert false v with
  | nil =>
    rw [hfirst] at hu
    exact hw u hu
  | cons u' rest =>
    rw [hfirst] at hu
    obtain rfl := Option.some.inj hu
    have hhead : (saveConvert false v).head? = some u' := by
      rw [hfirst]
      rfl
    obtain ⟨hprintable, hne, -⟩ := head_saveConvert hhead
    have htab : u' ≠ unit '\t' := fun heq => absurd (heq ▸ hprintable).1 (by decide)
    have hfeed : u' ≠ 12 := fun heq => absurd (heq ▸ hprintable).1 (by decide)
    simp [isPropertyWhitespace, hne, htab, hfeed]

/-- What is written of a value that does not end in a space does not end in white space. -/
theorem rdropWhile_saveConvert_of_last {c : UInt16} (hlast : v.getLast? = some c) (hc : c ≠ unit ' ') :
    (saveConvert false v).rdropWhile isSpace = saveConvert false v := by
  obtain ⟨l, hl, hprintable, hspace, -⟩ := getLast_saveConvert false hlast
  refine Trim.rdropWhile_of_last fun u hu => ?_
  obtain rfl := Option.some.inj (hl.symm.trans hu)
  have hne : l.toNat ≠ 32 := fun heq => hc (hspace (UInt16.toNat_inj.1 heq))
  exact isSpace_eq_false (by have := hprintable.1; omega) hprintable.2

/-- Only whole spaces at the end are trimmed. -/
theorem rdropWhile_saveConvert (h : ∀ u ∈ v.head?, u ≠ unit ' ') : ∃ v', v'.length ≤ v.length ∧
    (saveConvert false v).rdropWhile isSpace = saveConvert false v' := by
  induction v using List.reverseRecOn with
  | nil => exact ⟨[], Nat.le_refl _, rfl⟩
  | append_singleton v c ih =>
    by_cases hc : c = unit ' '
    · subst hc
      cases v with
      | nil => exact absurd rfl (h (unit ' ') rfl)
      | cons c' v =>
        obtain ⟨v', hle, heq⟩ := ih h
        refine ⟨v', Nat.le_trans hle (by simp), ?_⟩
        rw [saveConvert_concat]
        have hone : Trim.All isSpace [unit ' '] := by decide
        exact (Trim.rdropWhile_append_all hone _).trans heq
    · exact ⟨v ++ [c], Nat.le_refl _, rdropWhile_saveConvert_of_last (by simp) hc⟩

/-- The value of an undisturbed line. -/
theorem valueOfLine_whole (k : CodeUnits) (hv : v ≠ []) (hbare : Trim.trim isSpace v = v) :
    valueOfLine k (storedProperty k v) = some v := by
  have hlast : ∃ c, v.getLast? = some c ∧ c ≠ unit ' ' := by
    obtain ⟨c, hc⟩ := Option.isSome_iff_exists.1 (List.getLast?_isSome.2 hv)
    refine ⟨c, hc, ?_⟩
    rintro rfl
    have hspace : isSpace (unit ' ') = false := by
      refine (Trim.bare_trim isSpace v).2 _ ?_
      rw [hbare]
      exact hc
    exact absurd hspace (by decide)
  obtain ⟨c, hc, hne⟩ := hlast
  have hdrop := dropWhile_saveConvert (v := v) (w := []) nofun
  have hunescape := unescape_saveConvert false v []
  rw [List.append_nil] at hdrop hunescape
  rw [storedProperty, valueOfLine_stored, rdropWhile_saveConvert_of_last hc hne, hdrop, hunescape,
    unescapeJavaProperties, List.append_nil, hbare]
  exact if_neg hv

theorem saveConvert_backslash (v : CodeUnits) :
    saveConvert false (v ++ [unit '\\']) = saveConvert false v ++ [unit '\\', unit '\\'] := by
  rw [saveConvert_concat]
  rfl

/-- The line of a value that ends in a backslash, without one of the two that are written: it is at the end of the file. -/
theorem valueOfLine_end (k : CodeUnits) (hbare : Trim.trim isSpace (v ++ [unit '\\']) = v ++ [unit '\\']) :
    valueOfLine k (saveConvert true k ++ unit '=' :: (saveConvert false v ++ [unit '\\'])) =
      some (v ++ [unit '\\']) := by
  have hlast : (saveConvert false v ++ [unit '\\']).rdropWhile isSpace = saveConvert false v ++ [unit '\\'] := by
    rw [Trim.rdropWhile_append_cons (by decide)]
    rfl
  have hhead : ∀ u ∈ ([unit '\\'] : CodeUnits).head?, isPropertyWhitespace u = false := fun u hu =>
    Option.some.inj hu ▸ (by decide : isPropertyWhitespace (unit '\\') = false)
  rw [valueOfLine_stored, hlast, dropWhile_saveConvert hhead, unescape_saveConvert]
  have hunescape : unescapeJavaProperties [unit '\\'] = [unit '\\'] := rfl
  simp only [hunescape, hbare]
  exact if_neg (by simp)

/-- Without both it is another value. -/
theorem valueOfLine_cut (k : CodeUnits) (h : ∀ u ∈ v.head?, u ≠ unit ' ') :
    valueOfLine k (saveConvert true k ++ unit '=' :: saveConvert false v) ≠ some (v ++ [unit '\\']) := by
  obtain ⟨v', hle, heq⟩ := rdropWhile_saveConvert h
  have hdrop := dropWhile_saveConvert (v := v') (w := []) (by simp)
  have hunescape := unescape_saveConvert false v' []
  rw [List.append_nil] at hdrop hunescape
  rw [valueOfLine_stored, heq, hdrop, hunescape, unescapeJavaProperties, List.append_nil]
  dsimp only
  split
  · simp
  · intro hvalue
    have hlen := congrArg List.length (Option.some.inj hvalue)
    obtain ⟨w, w', -, -, hparts⟩ := Trim.exists_trim_parts isSpace v'
    have hparts' := congrArg List.length hparts
    simp only [List.length_append, List.length_singleton] at hlen hparts'
    omega

/-- So it is with what a later line adds. -/
theorem valueOfLine_joined (k : CodeUnits) {y : CodeUnits} {u : UInt16} (hu : Inert u) (hspace : isSpace u = false)
    (hmem : u ∈ y) : valueOfLine k (saveConvert true k ++ unit '=' :: (saveConvert false v ++ unit '\\' :: y)) ≠
      some (v ++ [unit '\\']) := by
  have hkept : u ∈ y.rdropWhile isSpace := by
    obtain ⟨w, hw, hparts⟩ := Trim.exists_rdropWhile_parts isSpace y
    rw [hparts] at hmem
    exact (List.mem_append.1 hmem).resolve_right (hw.not_mem hspace)
  have hhead : ∀ u ∈ (unit '\\' :: y.rdropWhile isSpace).head?, isPropertyWhitespace u = false := fun u hu =>
    Option.some.inj hu ▸ (by decide : isPropertyWhitespace (unit '\\') = false)
  rw [valueOfLine_stored, Trim.rdropWhile_append_cons (by decide), dropWhile_saveConvert hhead, unescape_saveConvert]
  dsimp only
  split
  · exact nofun
  · intro hvalue
    have hunescaped : u ∈ unescapeJavaProperties (unit '\\' :: y.rdropWhile isSpace) :=
      mem_unescape hu (List.mem_cons_of_mem _ hkept)
    have hcount := congrArg (List.count u) (Option.some.inj hvalue)
    rw [Trim.count_trim hspace, List.count_append, List.count_append,
      List.count_eq_zero_of_not_mem fun hlast => hu.backslash (List.mem_singleton.1 hlast)] at hcount
    have hpos := List.count_pos_iff.2 hunescaped
    omega

end Value

/-! ### Files -/

/-- The file does not look like XML, the line before the value's does not end in a backslash, and the value does not
either, unless nothing follows, not even an end of line. -/
structure Recoverable (file : PrefsFile) (before after : List StoredLine) (value : CodeUnits) : Prop where
  notXml : file.body.head? ≠ some (unit '<')
  before : ∀ l ∈ before.getLast?, endsWithBackslash l.text = false
  value : value.getLast? ≠ some (unit '\\') ∨ after = [] ∧ file.last.isSome = true

section File

variable {file : PrefsFile} {before after : List StoredLine} {k v : CodeUnits}

theorem rest_eq (file : PrefsFile) : file.rest = [] ∨ file.rest = [[]] := by
  unfold PrefsFile.rest
  split
  · exact .inl rfl
  · exact .inr rfl

/-- The value is looked up in the logical lines, unless the file looks like XML. -/
theorem extract_text (hlines : file.lines ≠ []) (k : CodeUnits) : extractXmlPropertyFromPrefs file.text k =
    if file.body.head? = some (unit '<') then none
    else (joinLines none (file.lines.map StoredLine.text ++ file.rest)).findSome? (valueOfLine k) := by
  obtain ⟨u, rest, hbody, hspace, -⟩ := head_body hlines
  have hstrip : stripBom file.text = file.body := by
    rw [PrefsFile.text]
    split
    · rfl
    · exact stripBom_body file
  have htrim : (Trim.trim isSpace file.body).head? = file.body.head? := by
    rw [hbody]
    exact Trim.head_trim_cons hspace rest
  rw [extractXmlPropertyFromPrefs]
  simp only [hstrip, htrim, joinPropertyContinuations, physicalLines_body]

/-- Lines of other keys have no value of this one. -/
theorem findSome?_startedBy {ls : List StoredLine} {lines : List CodeUnits}
    (hlines : ∀ m ∈ lines, m = [] ∨ ∃ l ∈ ls, StartedBy l m) (hk : ∀ l ∈ ls, l.key? ≠ some k) :
    lines.findSome? (valueOfLine k) = none := by
  refine List.findSome?_eq_none_iff.2 fun m hm => ?_
  rcases hlines m hm with rfl | ⟨l, hl, hstarted⟩
  · exact valueOfLine_nil k
  · exact valueOfLine_startedBy hstarted (hk l hl)

theorem findSome?_cons_ne {first : CodeUnits} {lines : List CodeUnits} (hfirst : valueOfLine k first ≠ some v)
    (hlines : lines.findSome? (valueOfLine k) = none) : (first :: lines).findSome? (valueOfLine k) ≠ some v := by
  rw [List.findSome?_cons]
  split
  · rename_i value hvalue
    rwa [hvalue] at hfirst
  · rw [hlines]
    exact nofun

theorem endsWithBackslash_storedProperty (hv : v ≠ []) :
    endsWithBackslash (storedProperty k v) = true ↔ v.getLast? = some (unit '\\') := by
  have hne : saveConvert false v ≠ [] := by
    intro hnil
    obtain ⟨c, hc⟩ := Option.isSome_iff_exists.1 (List.getLast?_isSome.2 hv)
    obtain ⟨l, hl, -⟩ := getLast_saveConvert false hc
    rw [hnil] at hl
    cases hl
  rw [storedProperty, ← List.singleton_append, ← List.append_assoc, endsWithBackslash_append _ hne,
    endsWithBackslash_saveConvert]

/-- The line of a value that ends in a backslash goes on. -/
theorem joinLines_backslash (k v : CodeUnits) (physical : List CodeUnits) :
    joinLines none (storedProperty k (v ++ [unit '\\']) :: physical) =
      joinLines (some (saveConvert true k ++ unit '=' :: (saveConvert false v ++ [unit '\\']))) physical := by
  have hends : endsWithBackslash (storedProperty k (v ++ [unit '\\'])) = true :=
    (endsWithBackslash_storedProperty (by simp)).2 (by simp)
  have hsplit : storedProperty k (v ++ [unit '\\']) =
      (saveConvert true k ++ unit '=' :: (saveConvert false v ++ [unit '\\'])) ++ [unit '\\'] := by
    rw [storedProperty, saveConvert_backslash]
    simp
  rw [joinLines]
  simp only [hends, if_true]
  rw [hsplit, List.dropLast_concat]

/-- An end of line takes the other backslash. -/
theorem findSome?_cut (k : CodeUnits) (hbare : Trim.trim isSpace (v ++ [unit '\\']) = v ++ [unit '\\']) :
    (joinLines (some (saveConvert true k ++ unit '=' :: (saveConvert false v ++ [unit '\\']))) [[]]).findSome?
      (valueOfLine k) ≠ some (v ++ [unit '\\']) := by
  have hhead : ∀ u ∈ v.head?, u ≠ unit ' ' := by
    rintro u hu rfl
    have hspace : isSpace (unit ' ') = false := by
      refine (Trim.bare_trim isSpace (v ++ [unit '\\'])).1 _ ?_
      rw [hbare, List.head?_append]
      rw [Option.mem_def] at hu
      rw [hu]
      rfl
    exact absurd hspace (by decide)
  have hcut : joinLines (some (saveConvert true k ++ unit '=' :: (saveConvert false v ++ [unit '\\']))) [[]] =
      [saveConvert true k ++ unit '=' :: saveConvert false v] := by
    have hsplit : saveConvert true k ++ unit '=' :: (saveConvert false v ++ [unit '\\']) =
        (saveConvert true k ++ unit '=' :: saveConvert false v) ++ [unit '\\'] := by simp
    rw [hsplit, joinLines]
    simp only [List.dropWhile_nil, List.append_nil, List.dropLast_concat]
    exact if_pos (endsWithBackslash_append _ (List.cons_ne_nil _ _))
  rw [hcut]
  exact findSome?_cons_ne (valueOfLine_cut k hhead) rfl

/-- A line that follows becomes part of the value. -/
theorem findSome?_joined {l : StoredLine} {rest : List CodeUnits} (hrest : rest = [] ∨ rest = [[]])
    (hk : ∀ l' ∈ l :: after, l'.key? ≠ some k) :
    (joinLines (some (saveConvert true k ++ unit '=' :: (saveConvert false v ++ [unit '\\'])))
      ((l :: after).map StoredLine.text ++ rest)).findSome? (valueOfLine k) ≠ some (v ++ [unit '\\']) := by
  have hstarted : StartedBy (.property k v) (saveConvert true k ++ unit '=' :: (saveConvert false v ++ [unit '\\'])) :=
    ⟨_, rfl⟩
  obtain ⟨first, lines, heq, -, hlines⟩ := (joinLines_startedBy (l :: after) hrest).2 _ _ hstarted
  obtain ⟨y, lines', heq', hy⟩ := joinLines_mem (l :: after) hrest (inert_sign l).backslash
    (saveConvert true k ++ unit '=' :: (saveConvert false v ++ [unit '\\'])) (z := []) (.inr ⟨l, rfl, l.sign_mem⟩)
  have hline : saveConvert true k ++ unit '=' :: (saveConvert false v ++ [unit '\\']) ++ y =
      saveConvert true k ++ unit '=' :: (saveConvert false v ++ unit '\\' :: y) := by simp
  rw [List.append_nil, hline] at heq'
  rw [heq']
  obtain ⟨rfl, rfl⟩ := List.cons.inj (heq.symm.trans heq')
  exact findSome?_cons_ne (valueOfLine_joined k (inert_sign l) (isSpace_sign l) hy) (findSome?_startedBy hlines hk)

/-- The lines from the value's on, where the line before does not reach into it. -/
theorem findSome?_from (hv : v ≠ []) (hbare : Trim.trim isSpace v = v) {rest : List CodeUnits} (hrest : rest = [] ∨ rest = [[]]) :
    ((v.getLast? ≠ some (unit '\\') ∨ after = [] ∧ rest = []) →
      (joinLines none (storedProperty k v :: (after.map StoredLine.text ++ rest))).findSome? (valueOfLine k) = some v) ∧
    ((∀ l ∈ after, l.key? ≠ some k) →
      (joinLines none (storedProperty k v :: (after.map StoredLine.text ++ rest))).findSome? (valueOfLine k) = some v →
      v.getLast? ≠ some (unit '\\') ∨ after = [] ∧ rest = []) := by
  by_cases hlast : v.getLast? = some (unit '\\')
  · obtain ⟨v, rfl⟩ := List.getLast?_eq_some_iff.1 hlast
    rw [joinLines_backslash]
    constructor
    · rintro (hno | ⟨rfl, rfl⟩)
      · exact absurd hlast hno
      · rw [List.map_nil, List.nil_append, joinLines, Option.toList_some, List.findSome?_singleton, valueOfLine_end k hbare]
    · intro hk hfound
      cases after with
      | nil =>
        rcases hrest with rfl | rfl
        · exact .inr ⟨rfl, rfl⟩
        · exact absurd hfound (findSome?_cut k hbare)
      | cons l after => exact absurd hfound (findSome?_joined hrest hk)
  · have hends : endsWithBackslash (storedProperty k v) = false :=
      Bool.eq_false_iff.2 fun hends => hlast ((endsWithBackslash_storedProperty hv).1 hends)
    have hjoined := joinLines_text none (.property k v) (after.map StoredLine.text ++ rest)
    simp only [StoredLine.text, hends, Option.getD_none, List.nil_append] at hjoined
    rw [hjoined]
    simp only [Bool.false_eq_true, if_false, List.findSome?_cons, valueOfLine_whole k hv hbare]
    exact ⟨fun _ => trivial, fun _ _ => .inl hlast⟩

/-- A line that the one before reaches into is not found. -/
theorem findSome?_swallowed {x : CodeUnits} {rest : List CodeUnits} (hrest : rest = [] ∨ rest = [[]]) {l : StoredLine}
    (hx : StartedBy l x) (hl : l.key? ≠ some k) (hafter : ∀ l ∈ after, l.key? ≠ some k) :
    (joinLines (some x) (storedProperty k v :: (after.map StoredLine.text ++ rest))).findSome? (valueOfLine k) = none := by
  have hjoined := joinLines_text (some x) (.property k v) (after.map StoredLine.text ++ rest)
  change joinLines (some x) (storedProperty k v :: _) = _ at hjoined
  have hwhole := hx.append (StoredLine.property k v).text
  rw [hjoined, Option.getD_some]
  split
  · rename_i hends
    have hends' : endsWithBackslash (x ++ (StoredLine.property k v).text) = true := by
      rwa [endsWithBackslash_append x (StoredLine.text_ne_nil _)]
    obtain ⟨first, lines, heq, hfirst, hlines⟩ := (joinLines_startedBy after hrest).2 l _ (hwhole.dropLast hends')
    rw [heq, List.findSome?_cons, valueOfLine_startedBy hfirst hl]
    exact findSome?_startedBy hlines hafter
  · rw [List.findSome?_cons, valueOfLine_startedBy hwhole hl]
    exact findSome?_startedBy (joinLines_startedBy after hrest).1 hafter

/-- A value that is stored in a line of its own, the first with its key, is recovered if the condition holds, and if no
later line has the key only then. -/
theorem value_recovered (file : PrefsFile) (before after : List StoredLine) (k v : CodeUnits)
    (hlines : file.lines = before ++ .property k v :: after) (hearlier : ∀ l ∈ before, l.key? ≠ some k) (hv : v ≠ [])
    (hbare : Trim.trim isSpace v = v) :
    (Recoverable file before after v → extractXmlPropertyFromPrefs file.text k = some v) ∧
    ((∀ l ∈ after, l.key? ≠ some k) →
      (extractXmlPropertyFromPrefs file.text k = some v ↔ Recoverable file before after v)) := by
  have hne : file.lines ≠ [] := by
    rw [hlines]
    simp
  have hlast : after = [] ∧ file.rest = [] ↔ after = [] ∧ file.last.isSome = true := by
    unfold PrefsFile.rest
    split
    · rename_i hsome
      simp [hsome]
    · rename_i hnone
      simp [hnone]
  obtain ⟨lines, current, heq, hbefore, hcurrent, hnone⟩ :=
    joinLines_before before (storedProperty k v :: (after.map StoredLine.text ++ file.rest))
  have hextract : file.body.head? ≠ some (unit '<') → extractXmlPropertyFromPrefs file.text k =
      (joinLines current (storedProperty k v :: (after.map StoredLine.text ++ file.rest))).findSome? (valueOfLine k) := by
    intro hxml
    have hlist : file.lines.map StoredLine.text ++ file.rest =
        before.map StoredLine.text ++ (storedProperty k v :: (after.map StoredLine.text ++ file.rest)) := by
      rw [hlines]
      simp [StoredLine.text]
    rw [extract_text hne, if_neg hxml, hlist, heq, List.findSome?_append,
      findSome?_startedBy (fun m hm => .inr (hbefore m hm)) hearlier, Option.none_or]
  have hforward : Recoverable file before after v → extractXmlPropertyFromPrefs file.text k = some v := by
    intro h
    obtain rfl := hnone.2 h.before
    rw [hextract h.notXml]
    exact (findSome?_from hv hbare (rest_eq file)).1 (h.value.imp_right hlast.2)
  refine ⟨hforward, fun hafter => ⟨fun hfound => ?_, hforward⟩⟩
  have hxml : file.body.head? ≠ some (unit '<') := by
    intro hxml
    rw [extract_text hne, if_pos hxml] at hfound
    cases hfound
  rw [hextract hxml] at hfound
  cases current with
  | none =>
    exact ⟨hxml, hnone.1 rfl, ((findSome?_from hv hbare (rest_eq file)).2 hafter hfound).imp_right hlast.1⟩
  | some x =>
    obtain ⟨l, hl, hx⟩ := hcurrent x rfl
    rw [findSome?_swallowed (rest_eq file) hx (hearlier l hl) hafter] at hfound
    cases hfound

private def written : CodeUnits := ofText "C:\\x = é\ty"

private theorem mon_noBreak : ∀ u ∈ ofText "Mon", u ≠ unit '\n' ∧ u ≠ unit '\r' := by
  have hall : (ofText "Mon").all (fun u => decide (u ≠ unit '\n' ∧ u ≠ unit '\r')) = true := by decide
  exact fun u hu => of_decide_eq_true (List.all_eq_true.1 hall u hu)

private def comment : StoredLine := .comment ⟨ofText "Mon", mon_noBreak⟩

private def version : StoredLine := .property (ofText "version") (ofText "1")

private def writtenFile : PrefsFile :=
  ⟨true, [(comment, .lf), (version, .crlf), (.property (ofText "a b") written, .lf)], none⟩

/-- A comment and another property stand before the value, whose escapes are of all kinds. -/
theorem value_recovered_surrounded : extractXmlPropertyFromPrefs writtenFile.text (ofText "a b") = some written :=
  (value_recovered writtenFile [comment, version] [] (ofText "a b") written rfl (by decide) (by decide)
    (by decide)).1 ⟨by decide, by decide, .inl (by decide)⟩

/-- The value `C:\` of the key `k` comes back as `C:`. -/
theorem value_lost : extractXmlPropertyFromPrefs
    (PrefsFile.text ⟨false, [(.property (ofText "k") (ofText "C:\\"), .lf)], none⟩) (ofText "k") = some (ofText "C:") ∧
    Trim.trim isSpace (ofText "C:\\") = ofText "C:\\" ∧ ofText "C:" ≠ ofText "C:\\" := by
  decide

end File

end CubridWebManager.HostImport
