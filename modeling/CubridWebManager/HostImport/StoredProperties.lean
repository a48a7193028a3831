import CubridWebManager.HostImport.Prefs

/-!
# Properties as Java stores them

What `java.util.Properties.store` writes for a key and a value, and how the parts of the reader take it apart again:
unescaping undoes the escapes one unit at a time (`unescape_saveConvert`), and the first terminator that is not escaped
is the separator (`parsePropertyLine_stored`).
-/

namespace CubridWebManager.HostImport

open CodeUnits

/-! ### What is written -/

def hexDigit (n : Nat) : UInt16 := if n < 10 then UInt16.ofNat (48 + n) else UInt16.ofNat (55 + n)

def toHex (c : UInt16) : CodeUnits :=
  [hexDigit (c.toNat / 4096), hexDigit (c.toNat / 256 % 16), hexDigit (c.toNat / 16 % 16), hexDigit (c.toNat % 16)]

def convert (escapeSpace : Bool) (c : UInt16) : CodeUnits :=
  if c = unit ' ' then if escapeSpace then [unit '\\', c] else [c]
  else if c = unit '\t' then [unit '\\', unit 't']
  else if c = unit '\n' then [unit '\\', unit 'n']
  else if c = unit '\r' then [unit '\\', unit 'r']
  else if c = 12 then [unit '\\', unit 'f']
  else if c = unit '\\' ∨ c = unit '=' ∨ c = unit ':' ∨ c = unit '#' ∨ c = unit '!' then [unit '\\', c]
  else if c.toNat < 0x20 ∨ 0x7e < c.toNat then unit '\\' :: unit 'u' :: toHex c
  else [c]

/-- A leading space is always escaped. -/
def saveConvert (escapeSpace : Bool) : CodeUnits → CodeUnits
  | [] => []
  | c :: cs => convert true c ++ cs.flatMap (convert escapeSpace)

/-! ### One unit -/

def Printable (c : UInt16) : Prop := 32 ≤ c.toNat ∧ c.toNat < 127

/-- The ways in which a unit is written. -/
inductive Escaped (c : UInt16) : CodeUnits → Prop
  | plain (hprintable : Printable c) (hbackslash : c ≠ unit '\\') (hequals : c ≠ unit '=') (hcolon : c ≠ unit ':')
      (hhash : c ≠ unit '#') (hbang : c ≠ unit '!') : Escaped c [c]
  | pair (x : UInt16) (hprintable : Printable x)
      (hu : x ≠ unit 'u') (hunit : escapedUnit x = c)
      (hbackslash : x = unit '\\' ↔ c = unit '\\') (hspace : x = unit ' ' → c = unit ' ') : Escaped c [unit '\\', x]
  | unicode (h₁ h₂ h₃ h₄ : UInt16) (hdigits : ∀ h ∈ [h₁, h₂, h₃, h₄], (hexValue h).isSome = true)
      (hparse : parseHex h₁ h₂ h₃ h₄ = some c) (hbackslash : c ≠ unit '\\') : Escaped c [unit '\\', unit 'u', h₁, h₂, h₃, h₄]

theorem hexValue_hexDigit {n : Nat} (h : n < 16) : hexValue (hexDigit n) = some n :=
  (by decide : ∀ n : Fin 16, hexValue (hexDigit n) = some n.val) ⟨n, h⟩

theorem escaped_unicode {c : UInt16} (hbackslash : c ≠ unit '\\') : Escaped c (unit '\\' :: unit 'u' :: toHex c) := by
  have hc : c.toNat < 65536 := c.toNat_lt
  have h₁ := hexValue_hexDigit (n := c.toNat / 4096) (by omega)
  have h₂ := hexValue_hexDigit (n := c.toNat / 256 % 16) (by omega)
  have h₃ := hexValue_hexDigit (n := c.toNat / 16 % 16) (by omega)
  have h₄ := hexValue_hexDigit (n := c.toNat % 16) (by omega)
  refine .unicode _ _ _ _ ?_ ?_ hbackslash
  · intro h hmem
    simp only [List.mem_cons, List.not_mem_nil, or_false] at hmem
    rcases hmem with rfl | rfl | rfl | rfl
    · rw [h₁]; rfl
    · rw [h₂]; rfl
    · rw [h₃]; rfl
    · rw [h₄]; rfl
  · have hvalue : ((c.toNat / 4096 * 16 + c.toNat / 256 % 16) * 16 + c.toNat / 16 % 16) * 16 + c.toNat % 16 = c.toNat := by
      omega
    simp only [parseHex, h₁, h₂, h₃, h₄, hvalue, UInt16.ofNat_toNat]

theorem escaped_convert (escapeSpace : Bool) (c : UInt16) : Escaped c (convert escapeSpace c) := by
  unfold convert
  split
  · rename_i hc
    subst hc
    split
    · exact .pair _ (by unfold Printable; decide) (by decide) (by decide) (by decide) fun _ => rfl
    · exact .plain (by unfold Printable; decide) (by decide) (by decide) (by decide) (by decide) (by decide)
  split
  · rename_i hc
    subst hc
    exact .pair _ (by unfold Printable; decide) (by decide) (by decide) (by decide) (by decide)
  split
  · rename_i hc
    subst hc
    exact .pair _ (by unfold Printable; decide) (by decide) (by decide) (by decide) (by decide)
  split
  · rename_i hc
    subst hc
    exact .pair _ (by unfold Printable; decide) (by decide) (by decide) (by decide) (by decide)
  split
  · rename_i hc
    subst hc
    exact .pair _ (by unfold Printable; decide) (by decide) (by decide) (by decide) (by decide)
  split
  · rename_i hc
    rcases hc with rfl | rfl | rfl | rfl | rfl <;>
      exact .pair _ (by unfold Printable; decide) (by decide) (by decide) (by decide) (by decide)
  split
  · rename_i hspecial _
    exact escaped_unicode fun hbackslash => hspecial (.inl hbackslash)
  · rename_i hspecial hrange
    simp only [not_or] at hspecial hrange
    obtain ⟨hbackslash, hequals, hcolon, hhash, hbang⟩ := hspecial
    exact .plain ⟨by omega, by omega⟩ hbackslash hequals hcolon hhash hbang

theorem hexValue_isSome {h : UInt16} (hsome : (hexValue h).isSome = true) :
    Printable h ∧ isPropertyKeyTerminator h = false ∧ h ≠ unit '\\' ∧ h ≠ unit ' ' := by
  have hrange : 48 ≤ h.toNat ∧ h.toNat ≤ 57 ∨ 65 ≤ h.toNat ∧ h.toNat ≤ 70 ∨ 97 ≤ h.toNat ∧ h.toNat ≤ 102 := by
    simp only [hexValue] at hsome
    split at hsome
    · exact .inl ‹_›
    split at hsome
    · exact .inr (.inl ‹_›)
    split at hsome
    · exact .inr (.inr ‹_›)
    · cases hsome
  have hne : ∀ u : UInt16, (u.toNat < 48 ∨ 57 < u.toNat ∧ u.toNat < 65 ∨ 70 < u.toNat ∧ u.toNat < 97) → h ≠ u := by
    rintro u hu rfl
    omega
  refine ⟨⟨by omega, by omega⟩, ?_, hne _ (by decide), hne _ (by decide)⟩
  simp [isPropertyKeyTerminator, isPropertyWhitespace, hne (unit ' ') (by decide), hne (unit '\t') (by decide),
    hne 12 (by decide), hne (unit '=') (by decide), hne (unit ':') (by decide)]

section Unescape

variable {c x : UInt16} (rest : CodeUnits)

theorem unescape_plain (h : c ≠ unit '\\') : unescapeJavaProperties (c :: rest) = c :: unescapeJavaProperties rest := by
  cases rest with
  | nil => rfl
  | cons next rest =>
    rw [unescapeJavaProperties.eq_def]
    exact if_pos h

theorem unescape_pair (h : x ≠ unit 'u') :
    unescapeJavaProperties (unit '\\' :: x :: rest) = escapedUnit x :: unescapeJavaProperties rest := by
  rw [unescapeJavaProperties.eq_def]
  exact (if_neg (not_not.2 rfl)).trans (if_pos h)

theorem unescape_unicode {h₁ h₂ h₃ h₄ : UInt16} (h : parseHex h₁ h₂ h₃ h₄ = some c) :
    unescapeJavaProperties (unit '\\' :: unit 'u' :: h₁ :: h₂ :: h₃ :: h₄ :: rest) = c :: unescapeJavaProperties rest := by
  rw [unescapeJavaProperties.eq_def]
  refine (if_neg (not_not.2 rfl)).trans ((if_neg (not_not.2 rfl)).trans ?_)
  dsimp only
  rw [h]

end Unescape

namespace Escaped

variable {c : UInt16} {w : CodeUnits} (h : Escaped c w)

include h

theorem unescape (rest : CodeUnits) : unescapeJavaProperties (w ++ rest) = c :: unescapeJavaProperties rest := by
  cases h with
  | plain hprintable hbackslash => exact unescape_plain rest hbackslash
  | pair x hprintable hu hunit => exact (unescape_pair rest hu).trans (by rw [hunit])
  | unicode h₁ h₂ h₃ h₄ hdigits hparse => exact unescape_unicode rest hparse

theorem printable : ∀ u ∈ w, Printable u := by
  intro u hmem
  have hbackslash : Printable (unit '\\') := by unfold Printable; decide
  cases h with
  | plain hprintable => exact List.mem_singleton.1 hmem ▸ hprintable
  | pair x hprintable =>
    rcases List.mem_cons.1 hmem with rfl | hx
    · exact hbackslash
    · exact List.mem_singleton.1 hx ▸ hprintable
  | unicode h₁ h₂ h₃ h₄ hdigits hparse =>
    rcases List.mem_cons.1 hmem with rfl | hrest
    · exact hbackslash
    · rcases List.mem_cons.1 hrest with rfl | hdigit
      · unfold Printable; decide
      · exact (hexValue_isSome (hdigits u hdigit)).1

/-- The last unit that is written tells whether a space or a backslash was. -/
theorem getLast : ∃ l, w.getLast? = some l ∧ Printable l ∧ (l = unit ' ' → c = unit ' ') ∧
    (l = unit '\\' ↔ c = unit '\\') := by
  have hprintable := h.printable
  cases h with
  | plain => exact ⟨c, rfl, hprintable c List.mem_cons_self, id, .rfl⟩
  | pair x _ _ _ hbackslash hspace => exact ⟨x, rfl, hprintable x (by simp), hspace, hbackslash⟩
  | unicode h₁ h₂ h₃ h₄ hdigits hparse hbackslash =>
    obtain ⟨-, -, hne, hne'⟩ := hexValue_isSome (hdigits h₄ (by simp))
    exact ⟨h₄, rfl, hprintable h₄ (by simp), fun hspace => absurd hspace hne', iff_of_false hne hbackslash⟩

/-- The end of a key is not found in what is written of it. -/
theorem splitAtKeyEnd_append (hspace : w ≠ [unit ' ']) {rest : CodeUnits} (hrest : rest ≠ []) :
    splitAtKeyEnd (w ++ rest) = (splitAtKeyEnd rest).map fun (key, rest) => (w ++ key, rest) := by
  have hskip : ∀ (u : UInt16) (rest : CodeUnits), u ≠ unit '\\' → isPropertyKeyTerminator u = false → rest ≠ [] →
      splitAtKeyEnd (u :: rest) = (splitAtKeyEnd rest).map fun (key, rest) => (u :: key, rest) := by
    intro u rest hbackslash hterminator hne
    obtain ⟨u', rest, rfl⟩ := List.exists_cons_of_ne_nil hne
    rw [splitAtKeyEnd, if_neg hbackslash, hterminator]
    exact if_neg Bool.false_ne_true
  have hescape : ∀ (u : UInt16) (rest : CodeUnits), splitAtKeyEnd (unit '\\' :: u :: rest) =
      (splitAtKeyEnd rest).map fun (key, rest) => (unit '\\' :: u :: key, rest) := by
    intro u rest
    rw [splitAtKeyEnd]
    exact if_pos rfl
  cases h with
  | plain hprintable hbackslash hequals hcolon =>
    refine hskip c rest hbackslash ?_ hrest
    have hne : c ≠ unit ' ' := fun heq => hspace (by rw [heq])
    have htab : c ≠ unit '\t' := fun heq => absurd (heq ▸ hprintable).1 (by decide)
    have hfeed : c ≠ 12 := fun heq => absurd (heq ▸ hprintable).1 (by decide)
    simp [isPropertyKeyTerminator, isPropertyWhitespace, hne, htab, hfeed, hequals, hcolon]
  | pair x => exact hescape x rest
  | unicode h₁ h₂ h₃ h₄ hdigits hparse =>
    have hdigit : ∀ u ∈ [h₁, h₂, h₃, h₄], ∀ rest : CodeUnits, rest ≠ [] → splitAtKeyEnd (u :: rest) =
        (splitAtKeyEnd rest).map fun (key, rest) => (u :: key, rest) := by
      intro u hmem rest hne
      obtain ⟨-, hterminator, hbackslash, -⟩ := hexValue_isSome (hdigits u hmem)
      exact hskip u rest hbackslash hterminator hne
    simp only [List.cons_append, List.nil_append]
    rw [hescape, hdigit h₁ (by simp) _ (List.cons_ne_nil _ _), hdigit h₂ (by simp) _ (List.cons_ne_nil _ _),
      hdigit h₃ (by simp) _ (List.cons_ne_nil _ _), hdigit h₄ (by simp) _ hrest]
    simp [Function.comp_def]

end Escaped

/-! ### Strings -/

variable {escapeSpace : Bool} {s : CodeUnits}

theorem saveConvert_true (s : CodeUnits) : saveConvert true s = s.flatMap (convert true) := by cases s <;> rfl

theorem convert_true_ne (c : UInt16) : convert true c ≠ [unit ' '] := by
  intro h
  unfold convert at h
  split at h
  · rw [if_pos rfl] at h
    cases h
  · rename_i hne
    repeat' split at h
    all_goals first | exact hne (List.cons.inj h).1 | cases h

theorem unescape_saveConvert (escapeSpace : Bool) (s rest : CodeUnits) :
    unescapeJavaProperties (saveConvert escapeSpace s ++ rest) = s ++ unescapeJavaProperties rest := by
  have hflat : ∀ cs : CodeUnits, unescapeJavaProperties (cs.flatMap (convert escapeSpace) ++ rest) =
      cs ++ unescapeJavaProperties rest := by
    intro cs
    induction cs with
    | nil => rfl
    | cons c cs ih =>
      rw [List.flatMap_cons, List.append_assoc, (escaped_convert escapeSpace c).unescape, ih]
      rfl
  cases s with
  | nil => rfl
  | cons c cs =>
    rw [saveConvert, List.append_assoc, (escaped_convert true c).unescape, hflat]
    rfl

theorem printable_saveConvert : ∀ u ∈ saveConvert escapeSpace s, Printable u := by
  cases s with
  | nil => exact nofun
  | cons c cs =>
    intro u hmem
    rcases List.mem_append.1 hmem with hfirst | hrest
    · exact (escaped_convert true c).printable u hfirst
    · obtain ⟨c', -, hu⟩ := List.mem_flatMap.1 hrest
      exact (escaped_convert escapeSpace c').printable u hu

/-- What is written starts with no white space and no sign of a comment. -/
theorem head_saveConvert {u : UInt16} (h : (saveConvert escapeSpace s).head? = some u) :
    Printable u ∧ u ≠ unit ' ' ∧ u ≠ unit '#' ∧ u ≠ unit '!' := by
  cases s with
  | nil => cases h
  | cons c cs =>
    have hfirst := escaped_convert true c
    have hne := convert_true_ne c
    rw [saveConvert] at h
    generalize convert true c = w at h hfirst hne
    have hprintable := hfirst.printable
    cases hfirst with
    | plain _ _ _ _ hhash hbang =>
      obtain rfl := Option.some.inj h
      exact ⟨hprintable c List.mem_cons_self, fun heq => hne (by rw [heq]), hhash, hbang⟩
    | pair x | unicode h₁ h₂ h₃ h₄ =>
      obtain rfl := Option.some.inj h
      exact ⟨hprintable _ List.mem_cons_self, by decide, by decide, by decide⟩

theorem saveConvert_concat (s : CodeUnits) (c : UInt16) :
    saveConvert escapeSpace (s ++ [c]) = saveConvert escapeSpace s ++ convert (s.isEmpty || escapeSpace) c := by
  cases s with
  | nil => simp [saveConvert]
  | cons c' cs => simp [saveConvert]

/-- The last unit that is written tells whether the string ends in a space or in a backslash. -/
theorem getLast_saveConvert (escapeSpace : Bool) {c : UInt16} (h : s.getLast? = some c) :
    ∃ l, (saveConvert escapeSpace s).getLast? = some l ∧ Printable l ∧ (l = unit ' ' → c = unit ' ') ∧
      (l = unit '\\' ↔ c = unit '\\') := by
  obtain ⟨s', rfl⟩ := List.getLast?_eq_some_iff.1 h
  obtain ⟨l, hl, hrest⟩ := (escaped_convert (s'.isEmpty || escapeSpace) c).getLast
  refine ⟨l, ?_, hrest⟩
  rw [saveConvert_concat, List.getLast?_append, hl]
  rfl

theorem endsWithBackslash_saveConvert :
    endsWithBackslash (saveConvert escapeSpace s) = true ↔ s.getLast? = some (unit '\\') := by
  rw [endsWithBackslash, decide_eq_true_iff]
  cases hlast : s.getLast? with
  | none => rw [List.getLast?_eq_none_iff.1 hlast, saveConvert]; rfl
  | some c =>
    obtain ⟨l, hl, -, -, hbackslash⟩ := getLast_saveConvert escapeSpace hlast
    rw [hl, Option.some_inj, Option.some_inj, hbackslash]

/-! ### The line -/

/-- The line that is written for a property. -/
def storedProperty (key value : CodeUnits) : CodeUnits := saveConvert true key ++ unit '=' :: saveConvert false value

theorem splitAtKeyEnd_stored (k w : CodeUnits) :
    splitAtKeyEnd (saveConvert true k ++ unit '=' :: w) = some (saveConvert true k, unit '=' :: w) := by
  rw [saveConvert_true]
  induction k with
  | nil => cases w <;> rfl
  | cons c k ih =>
    rw [List.flatMap_cons, List.append_assoc, (escaped_convert true c).splitAtKeyEnd_append (convert_true_ne c) (by simp), ih]
    rfl

theorem isSpace_equals : isSpace (unit '=') = false := by decide

/-- Only what follows the separator is trimmed. -/
theorem trim_stored (k w : CodeUnits) : Trim.trim isSpace (saveConvert true k ++ unit '=' :: w) =
    saveConvert true k ++ unit '=' :: w.rdropWhile isSpace := by
  have hhead : ∀ u ∈ (saveConvert true k ++ unit '=' :: w).head?, isSpace u = false := by
    intro u hu
    rw [List.head?_append] at hu
    cases hfirst : (saveConvert true k).head? with
    | none =>
      rw [hfirst] at hu
      obtain rfl := Option.some.inj hu
      exact isSpace_equals
    | some u' =>
      rw [hfirst] at hu
      obtain rfl := Option.some.inj hu
      obtain ⟨hprintable, hne, -⟩ := head_saveConvert hfirst
      have hspace : u'.toNat ≠ 32 := fun heq => hne (UInt16.toNat_inj.1 heq)
      exact isSpace_eq_false (by have := hprintable.1; omega) hprintable.2
  rw [Trim.trim, Trim.dropWhile_of_head hhead]
  exact Trim.rdropWhile_append_cons isSpace_equals (saveConvert true k) w

theorem parsePropertyLine_stored (k w : CodeUnits) : parsePropertyLine (saveConvert true k ++ unit '=' :: w) =
    some ⟨k, (w.rdropWhile isSpace).dropWhile isPropertyWhitespace⟩ := by
  have hkey : unescapeJavaProperties (saveConvert true k) = k := by
    have hwhole := unescape_saveConvert true k []
    rwa [List.append_nil, unescapeJavaProperties, List.append_nil] at hwhole
  have hcomment : ¬ (saveConvert true k ++ unit '=' :: w.rdropWhile isSpace = [] ∨
      (saveConvert true k ++ unit '=' :: w.rdropWhile isSpace).head? = some (unit '#') ∨
      (saveConvert true k ++ unit '=' :: w.rdropWhile isSpace).head? = some (unit '!')) := by
    rw [List.head?_append]
    cases hfirst : (saveConvert true k).head? with
    | none => simp +decide
    | some u =>
      obtain ⟨-, -, hhash, hbang⟩ := head_saveConvert hfirst
      simp [hhash, hbang]
  rw [parsePropertyLine, trim_stored]
  simp only [if_neg hcomment, splitAtKeyEnd_stored, hkey]
  rfl

end CubridWebManager.HostImport

