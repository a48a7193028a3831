import CubridWebManager.Conf.CubridConfEdit
import CubridWebManager.Conf.LogicalLines

/-!
# The header line of a database

A line that `sectionOf` takes for the header `[@name]` is that header with white space in five places
(`exists_headerSpaces`), and `renameHeader` puts the new name between the same spaces.  The engine reads the name from it
just if all of that is white space in C and the name has no `]` (`readLine_line`, `plain_of_readLine`).
-/

namespace CubridWebManager.Conf

variable (L : LowerCase)

theorem IsPlainName.bare {name : Text} (h : IsPlainName name) : Trim.Bare Text.isSpace name :=
  ⟨fun c hc => (h.2 c (List.mem_of_mem_head? hc)).2.1, fun c hc => (h.2 c (List.mem_of_mem_getLast? hc)).2.1⟩

/-! ### A header with its spaces -/

/-- The spaces of a line `[@name]`. -/
structure HeaderSpaces where
  left : Text
  open₁ : Text
  at₁ : Text
  close₁ : Text
  right : Text
  spaces : Trim.All Text.isSpace (left ++ open₁ ++ at₁ ++ close₁ ++ right)

namespace HeaderSpaces

variable (h : HeaderSpaces)

/-- The line with this name. -/
def line (name : Text) : Text :=
  h.left ++ '[' :: (h.open₁ ++ '@' :: (h.at₁ ++ name ++ h.close₁ ++ ']' :: h.right))

theorem spaces_left : Trim.All Text.isSpace h.left := fun c hc => h.spaces c (by simp [hc])

theorem spaces_open : Trim.All Text.isSpace h.open₁ := fun c hc => h.spaces c (by simp [hc])

theorem spaces_at : Trim.All Text.isSpace h.at₁ := fun c hc => h.spaces c (by simp [hc])

theorem spaces_close : Trim.All Text.isSpace h.close₁ := fun c hc => h.spaces c (by simp [hc])

theorem spaces_right : Trim.All Text.isSpace h.right := fun c hc => h.spaces c (by simp [hc])

end HeaderSpaces

/-- A line that `sectionOf` takes for the header of a database is one with some spaces. -/
theorem exists_headerSpaces {line name : Text} (h : sectionOf L.lower line = some ('@' :: name)) :
    ∃ hs : HeaderSpaces, line = hs.line name := by
  obtain ⟨left, right, hleft, hright, hline⟩ := Trim.exists_trim_parts Text.isSpace line
  unfold sectionOf at h
  split at h
  · rename_i rest htrim
    split at h
    · rename_i hlast
      obtain ⟨inner, rfl⟩ := List.getLast?_eq_some_iff.1 hlast
      simp only [List.dropLast_concat] at h
      split at h
      · cases h
      · obtain ⟨open₁, close₁, hopen, hclose, hinner⟩ := Trim.exists_trim_parts Text.isSpace inner
        split at h
        · rename_i db hdb
          obtain ⟨at₁, close₂, hat, hclose', hname⟩ := Trim.exists_trim_parts Text.isSpace db
          have heq : Trim.trim Text.isSpace db = name := (List.cons.inj (Option.some.inj h)).2
          rw [heq] at hname
          have hdb' : Trim.trim Text.isSpace inner = '@' :: db := hdb
          have htrim' : Trim.trim Text.isSpace line = '[' :: (inner ++ [']']) := htrim
          refine ⟨⟨left, open₁, at₁, close₂ ++ close₁, right,
            (((hleft.append hopen).append hat).append (hclose'.append hclose)).append hright⟩, ?_⟩
          rw [hline, htrim', hinner, hdb', hname]
          simp [HeaderSpaces.line]
        · -- the lower case of a name without an `@` has none
          rename_i hno
          have hhead : (L.lower (Text.trim inner)).head? = some '@' := by rw [Option.some.inj h]; rfl
          obtain ⟨db, hdb⟩ := List.head?_eq_some_iff.1 ((L.head_iff _ _ (.inl rfl)).1 hhead)
          exact absurd hdb (hno db)
    · cases h
  · cases h

section line

variable {L}
variable (h : HeaderSpaces) {name newName : Text}

theorem IsPlainName.not_terminator (hname : IsPlainName name) : name.any isLineTerminator = false := by
  rw [List.any_eq_false]
  intro c hc hterm
  have hspace := (hname.2 c hc).2.1
  simp only [isLineTerminator, Bool.or_eq_true, decide_eq_true_eq] at hterm
  rcases hterm with ((rfl | rfl) | rfl) | rfl <;> simp [Text.isSpace] at hspace

/-- The replacement puts the new name between the same spaces. -/
theorem renameHeader_line (hname : IsPlainName name) : renameHeader newName (h.line name) = h.line newName := by
  have hafter : ∀ {w t : Text} {c : Char}, Trim.All Text.isSpace w → Text.isSpace c = false →
      (w ++ c :: t).dropWhile Text.isSpace = c :: t := by
    intro w t c hw hc
    rw [Trim.dropWhile_append_all hw, Trim.dropWhile_of_head]
    rintro x ⟨⟩
    exact hc
  have hbracket : (h.line name).dropWhile Text.isSpace =
      '[' :: (h.open₁ ++ '@' :: (h.at₁ ++ name ++ h.close₁ ++ ']' :: h.right)) := hafter h.spaces_left rfl
  have hat : (h.open₁ ++ '@' :: (h.at₁ ++ name ++ h.close₁ ++ ']' :: h.right)).dropWhile Text.isSpace =
      '@' :: (h.at₁ ++ name ++ h.close₁ ++ ']' :: h.right) := hafter h.spaces_open rfl
  have hrest : (h.at₁ ++ name ++ h.close₁ ++ ']' :: h.right).dropWhile Text.isSpace =
      name ++ h.close₁ ++ ']' :: h.right := by
    rw [List.append_assoc, List.append_assoc, Trim.dropWhile_append_all h.spaces_at, ← List.append_assoc]
    refine Trim.dropWhile_of_head fun c hc => ?_
    rw [List.append_assoc, List.head?_append_of_ne_nil _ hname.1] at hc
    exact hname.bare.1 c hc
  have hclosed : Text.trimEnd (name ++ h.close₁ ++ ']' :: h.right) = name ++ h.close₁ ++ [']'] := by
    have hsplit : name ++ h.close₁ ++ ']' :: h.right = name ++ h.close₁ ++ [']'] ++ h.right := by simp
    rw [hsplit]
    refine (Trim.rdropWhile_append_all h.spaces_right _).trans (Trim.rdropWhile_of_last fun c hc => ?_)
    rw [List.getLast?_append_of_ne_nil _ (by simp)] at hc
    obtain rfl := Option.some.inj hc
    rfl
  have hname' : Text.trimEnd (name ++ h.close₁) = name :=
    (Trim.rdropWhile_append_all h.spaces_close _).trans (Trim.rdropWhile_of_last hname.bare.2)
  have hlength : (h.line name).length - (name ++ h.close₁ ++ ']' :: h.right).length =
      (h.left ++ '[' :: (h.open₁ ++ '@' :: h.at₁)).length := by
    simp [HeaderSpaces.line]
    omega
  have hsplit : h.line name =
      (h.left ++ '[' :: (h.open₁ ++ '@' :: h.at₁)) ++ (name ++ h.close₁ ++ ']' :: h.right) := by
    simp [HeaderSpaces.line]
  simp only [renameHeader, hbracket, List.tail_cons, hat, hrest, hclosed, List.dropLast_concat, hname', hlength,
    hname.not_terminator]
  rw [if_pos (by simp)]
  rw [hsplit, List.take_left']
  · simp [HeaderSpaces.line]
  · rfl

end line

/-! ### The header as the engine reads it -/

/-- What is between the brackets. -/
def headerText (line : Text) : Text := line.tail.takeWhile (· ≠ ']')

theorem readLine_header_iff {lower : Text → Text} {t name : Text} : readLine lower t = .header name ↔
    (iniTrim t).head? = some '[' ∧ (iniTrim t).getLast? = some ']' ∧ headerText (iniTrim t) ≠ [] ∧
      normalizeSectionName lower (headerText (iniTrim t)) = name := by
  unfold readLine headerText
  constructor
  · intro h
    simp only at h
    split at h
    · cases h
    · split at h
      · rename_i hbrackets
        split at h
        · rename_i hinner
          exact ⟨hbrackets.1, hbrackets.2, hinner, Reading.header.inj h⟩
        · cases h
      · split at h <;> cases h
  · rintro ⟨hhead, hlast, hinner, hname⟩
    have hne : ¬ (iniTrim t = [] ∨ (iniTrim t).head? = some '#') := by
      rintro (hnil | hcomment)
      · rw [hnil] at hhead
        cases hhead
      · rw [hhead] at hcomment
        cases hcomment
    dsimp only
    rw [if_neg hne, if_pos ⟨hhead, hlast⟩, if_pos hinner, hname]

/-- The name of a header is that of a database just if it has an `@` after its spaces. -/
theorem normalizeSectionName_at_iff {raw name : Text} : normalizeSectionName L.lower raw = '@' :: name ↔
    ∃ rest, iniTrim raw = '@' :: rest ∧ iniTrim rest = name := by
  have hlower : ∀ t : Text, t.head? ≠ some '@' → L.lower t ≠ '@' :: name := by
    intro t ht heq
    exact ht ((L.head_iff t '@' (.inl rfl)).1 (by rw [heq]; rfl))
  unfold normalizeSectionName
  split
  · rename_i rest hraw
    rw [hraw]
    simp
  · rename_i rest hraw
    rw [hraw]
    refine iff_of_false (hlower _ (by simp)) ?_
    rintro ⟨rest', heq, -⟩
    cases heq
  · rename_i hnot _
    refine iff_of_false (hlower _ fun hhead => ?_) ?_
    · obtain ⟨rest, hrest⟩ := List.head?_eq_some_iff.1 hhead
      exact hnot rest hrest
    · rintro ⟨rest, heq, -⟩
      exact hnot rest heq

namespace HeaderSpaces

variable {L} (h : HeaderSpaces) {name : Text}

/-- All the spaces are white space for the engine, too. -/
def Plain : Prop := Trim.All isIniSpace (h.left ++ h.open₁ ++ h.at₁ ++ h.close₁ ++ h.right)

theorem close_not_mem {w : Text} (hw : Trim.All Text.isSpace w) {c : Char} (hc : Text.isSpace c = false) : c ∉ w :=
  fun hmem => by simp [hw c hmem] at hc

/-- What the engine looks for a name in, between plain spaces. -/
theorem iniTrim_line (hleft : Trim.All isIniSpace h.left) (hright : Trim.All isIniSpace h.right) (name : Text) :
    iniTrim (h.line name) = '[' :: (h.open₁ ++ '@' :: (h.at₁ ++ name ++ h.close₁)) ++ [']'] := by
  have hline : h.line name =
      h.left ++ ('[' :: (h.open₁ ++ '@' :: (h.at₁ ++ name ++ h.close₁)) ++ [']']) ++ h.right := by
    simp [line]
  rw [hline]
  refine Trim.trim_parts hleft ⟨?_, fun c hc => ?_⟩ hright
  · rintro c ⟨⟩
    rfl
  · rw [List.getLast?_concat] at hc
    obtain rfl := Option.some.inj hc
    rfl

theorem headerText_line (hleft : Trim.All isIniSpace h.left) (hright : Trim.All isIniSpace h.right)
    (hclose : ']' ∉ name) : headerText (iniTrim (h.line name)) = h.open₁ ++ '@' :: (h.at₁ ++ name ++ h.close₁) := by
  have hspaces : ∀ w : Text, Trim.All Text.isSpace w → ']' ∉ w := fun w hw => close_not_mem hw rfl
  rw [h.iniTrim_line hleft hright]
  simp only [headerText, List.cons_append, List.tail_cons]
  refine Trim.takeWhile_append_all (fun c hc => ?_) (by rintro c ⟨⟩; rfl)
  have hne : c ≠ ']' := by
    rintro rfl
    simp [hclose, hspaces _ h.spaces_open, hspaces _ h.spaces_at, hspaces _ h.spaces_close] at hc
  simpa using hne

/-- The name is read from before the first bracket. -/
theorem close_not_mem_of_readLine {t : Text} (h : readLine L.lower t = .header ('@' :: name)) : ']' ∉ name := by
  obtain ⟨-, -, -, hnorm⟩ := readLine_header_iff.1 h
  obtain ⟨rest, hinner, hrest⟩ := (normalizeSectionName_at_iff L).1 hnorm
  intro hmem
  rw [← hrest] at hmem
  have hmem' : ']' ∈ '@' :: rest := List.mem_cons_of_mem _ (Trim.mem_of_mem_trim hmem)
  rw [← hinner] at hmem'
  have hbracket := List.mem_takeWhile_imp (Trim.mem_of_mem_trim hmem')
  simp at hbracket

/-- The engine reads the name from a line with plain spaces. -/
theorem readLine_line (hplain : h.Plain) {pending : Text} (hpending : Trim.All isIniSpace pending)
    (hname : IsPlainName name) (hclose : ']' ∉ name) :
    readLine L.lower (pending ++ h.line name) = .header ('@' :: name) := by
  have hini : ∀ w : Text, (∀ c ∈ w, c ∈ h.left ++ h.open₁ ++ h.at₁ ++ h.close₁ ++ h.right) → Trim.All isIniSpace w :=
    fun w hw c hc => hplain c (hw c hc)
  have hleft := hini h.left (by intro c hc; simp [hc])
  have hopen := hini h.open₁ (by intro c hc; simp [hc])
  have hat := hini h.at₁ (by intro c hc; simp [hc])
  have hclosing := hini h.close₁ (by intro c hc; simp [hc])
  have hright := hini h.right (by intro c hc; simp [hc])
  have hskip : iniTrim (pending ++ h.line name) = iniTrim (h.line name) := Trim.trim_append_left hpending _
  have hinner := h.headerText_line hleft hright hclose
  refine readLine_header_iff.2 ⟨?_, ?_, ?_, ?_⟩ <;> rw [hskip]
  · rw [h.iniTrim_line hleft hright]
    rfl
  · rw [h.iniTrim_line hleft hright, List.getLast?_concat]
  · rw [hinner]
    simp
  rw [hinner, normalizeSectionName_at_iff]
  have hbare : Trim.Bare isIniSpace name := hname.bare.mono fun _ hc => isSpace_of_isIniSpace hc
  refine ⟨h.at₁ ++ name, ?_, Trim.trim_append_left hat name |>.trans (Trim.trim_of_bare hbare)⟩
  have hsplit : h.open₁ ++ '@' :: (h.at₁ ++ name ++ h.close₁) = h.open₁ ++ ('@' :: (h.at₁ ++ name)) ++ h.close₁ := by
    simp
  rw [hsplit]
  refine Trim.trim_parts hopen ⟨by rintro c ⟨⟩; rfl, fun c hc => ?_⟩ hclosing
  have hc' : c ∈ (('@' :: h.at₁) ++ name).getLast? := hc
  rw [List.getLast?_append_of_ne_nil _ hname.1] at hc'
  exact hbare.2 c hc'

/-- A line from which the engine reads the name has plain spaces, and no bracket in the name. -/
theorem plain_of_readLine {pending : Text} (hpending : Trim.All isIniSpace pending) (hname : IsPlainName name)
    (hread : readLine L.lower (pending ++ h.line name) = .header ('@' :: name)) : h.Plain ∧ ']' ∉ name := by
  obtain ⟨hhead, hlast, -, hnorm⟩ := readLine_header_iff.1 hread
  have hskip : iniTrim (pending ++ h.line name) = iniTrim (h.line name) := Trim.trim_append_left hpending _
  rw [hskip] at hhead hlast hnorm
  obtain ⟨rest, hinner, hrest⟩ := (normalizeSectionName_at_iff L).1 hnorm
  have hclose : ']' ∉ name := close_not_mem_of_readLine hread
  have hleft : Trim.All isIniSpace h.left := Trim.all_of_head_trim (close_not_mem h.spaces_left rfl) hhead
  have hright : Trim.All isIniSpace h.right := by
    refine Trim.all_of_last_trim (close_not_mem h.spaces_right rfl)
      (l := h.left ++ '[' :: (h.open₁ ++ '@' :: (h.at₁ ++ name ++ h.close₁ ++ [']']))) (.trans ?_ hlast)
    simp [line, iniTrim_eq]
  rw [h.headerText_line hleft hright hclose] at hinner
  have hopen : Trim.All isIniSpace h.open₁ := by
    refine Trim.all_of_head_trim (close_not_mem h.spaces_open (c := '@') rfl) (l := '@' :: (h.at₁ ++ name ++ h.close₁)) ?_
    rw [← iniTrim_eq, hinner]
    rfl
  -- what is left around the name is trimmed from it
  have hname' : iniTrim (h.at₁ ++ name ++ h.close₁) = name := by
    rw [iniTrim_eq, Trim.trim_append_left hopen, ← iniTrim_eq] at hinner
    obtain ⟨w, w', hw, hw', heq⟩ := Trim.exists_trim_parts isIniSpace ('@' :: (h.at₁ ++ name ++ h.close₁))
    rw [← iniTrim_eq, hinner] at heq
    cases w with
    | nil =>
      rw [(List.cons.inj heq).2]
      exact (Trim.trim_append_right _ hw').trans hrest
    | cons c w =>
      obtain rfl := (List.cons.inj heq).1
      exact absurd (hw '@' List.mem_cons_self) (by decide)
  obtain ⟨c, t, hcons⟩ := List.exists_cons_of_ne_nil hname.1
  have hfirst : c ∈ name := by simp [hcons]
  have hat : Trim.All isIniSpace h.at₁ := by
    refine Trim.all_of_head_trim (close_not_mem h.spaces_at (hname.2 c hfirst).2.1) (l := name ++ h.close₁) ?_
    rw [← List.append_assoc, ← iniTrim_eq, hname', hcons]
    rfl
  have hclosing : Trim.All isIniSpace h.close₁ := by
    have hlastname := List.getLast?_eq_some_getLast hname.1
    refine Trim.all_of_last_trim (close_not_mem h.spaces_close (hname.2 _ (List.getLast_mem hname.1)).2.1)
      (l := h.at₁ ++ name) ?_
    rw [← iniTrim_eq, hname', hlastname]
  exact ⟨(((hleft.append hopen).append hat).append hclosing).append hright, hclose⟩

/-- Where the engine reads the name although there is text before the line, that text has the name, too: so the name in
the line is not the one that is read. -/
theorem readLine_of_before {pending : Text} (hpending : ¬ Trim.All isIniSpace pending)
    (hread : readLine L.lower (pending ++ h.line name) = .header ('@' :: name)) (other : Text) :
    readLine L.lower (pending ++ h.line other) = .header ('@' :: name) := by
  obtain ⟨hhead, hlast, hne, hnorm⟩ := readLine_header_iff.1 hread
  obtain ⟨w, hw, hparts⟩ := Trim.exists_dropWhile_parts isIniSpace pending
  obtain ⟨c, b, hcons⟩ : ∃ c b, pending.dropWhile isIniSpace = c :: b := by
    refine List.exists_cons_of_ne_nil fun hnil => hpending ?_
    rw [hparts, hnil, List.append_nil]
    exact hw
  have hc : isIniSpace c = false := Trim.head_dropWhile (l := pending) (by rw [hcons]; rfl)
  have hright : Trim.All isIniSpace h.right := by
    refine Trim.all_of_last_trim (close_not_mem h.spaces_right rfl)
      (l := pending ++ (h.left ++ '[' :: (h.open₁ ++ '@' :: (h.at₁ ++ name ++ h.close₁ ++ [']'])))) (.trans ?_ hlast)
    simp [line, iniTrim_eq]
  have htrim : ∀ name : Text, iniTrim (pending ++ h.line name) =
      c :: (b ++ h.left ++ '[' :: (h.open₁ ++ '@' :: (h.at₁ ++ name ++ h.close₁)) ++ [']']) := by
    intro name
    have hsplit : pending ++ h.line name =
        w ++ (c :: (b ++ h.left ++ '[' :: (h.open₁ ++ '@' :: (h.at₁ ++ name ++ h.close₁)) ++ [']'])) ++ h.right := by
      rw [hparts, hcons]
      simp [line]
    rw [hsplit]
    refine Trim.trim_parts hw ⟨?_, fun d hd => ?_⟩ hright
    · rintro d ⟨⟩
      exact hc
    · rw [← List.cons_append, List.getLast?_concat] at hd
      obtain rfl := Option.some.inj hd
      rfl
  by_cases hclosed : ']' ∈ b
  · have hsame : headerText (iniTrim (pending ++ h.line other)) = headerText (iniTrim (pending ++ h.line name)) := by
      have hstop : ∀ t : Text, (b ++ t).takeWhile (· ≠ ']') = b.takeWhile (· ≠ ']') := by
        intro t
        exact Trim.takeWhile_append_of_mem hclosed (by simp) t
      simp only [htrim, headerText, List.tail_cons, List.append_assoc, hstop]
    refine readLine_header_iff.2 ⟨?_, ?_, ?_, ?_⟩
    · rw [htrim] at hhead ⊢
      exact hhead
    · rw [htrim, ← List.cons_append, List.getLast?_concat]
    · rw [hsame]
      exact hne
    · rw [hsame]
      exact hnorm
  · -- what is read would have one bracket more than the name
    exfalso
    have hclose : ']' ∉ name := close_not_mem_of_readLine hread
    have hspaces : ∀ w : Text, Trim.All Text.isSpace w → ']' ∉ w := fun w hw => close_not_mem hw rfl
    have hinner : headerText (iniTrim (pending ++ h.line name)) =
        b ++ h.left ++ '[' :: (h.open₁ ++ '@' :: (h.at₁ ++ name ++ h.close₁)) := by
      rw [htrim]
      simp only [headerText, List.tail_cons]
      refine Trim.takeWhile_append_all (fun d hd => ?_) (by rintro d ⟨⟩; rfl)
      have hne : d ≠ ']' := by
        rintro rfl
        simp [hclose, hclosed, hspaces _ h.spaces_left, hspaces _ h.spaces_open, hspaces _ h.spaces_at,
          hspaces _ h.spaces_close] at hd
      simpa using hne
    obtain ⟨rest, hat, hrest⟩ := (normalizeSectionName_at_iff L).1 hnorm
    have hcount : ('@' :: rest).count '[' = name.count '[' := by
      rw [← hrest, List.count_cons_of_ne (by decide), iniTrim_eq, Trim.count_trim rfl]
    rw [← hat, hinner, iniTrim_eq, Trim.count_trim rfl] at hcount
    simp only [List.count_append, List.count_cons_self] at hcount
    simp only [List.count_cons_of_ne (by decide : '@' ≠ '['), List.count_append] at hcount
    omega

/-! ### Joining -/

/-- The line with this name up to its bracket. -/
def upToBracket (name : Text) : Text := h.left ++ '[' :: (h.open₁ ++ '@' :: (h.at₁ ++ name ++ h.close₁))

theorem line_eq (name : Text) : h.line name = h.upToBracket name ++ ']' :: h.right := by
  simp [line, upToBracket]

/-- No logical line goes on after a header. -/
theorem not_goesOn (pending name : Text) : goesOn pending (h.line name) = false := by
  have hend : (']' :: h.right).rdropWhile isIniSpace ≠ [] := by
    intro hnil
    exact absurd (List.rdropWhile_eq_nil_iff.1 hnil ']' List.mem_cons_self) (by decide)
  have htext : accumulate pending (h.line name) =
      pending ++ h.upToBracket name ++ (']' :: h.right).rdropWhile isIniSpace := by
    rw [accumulate, iniTrimEnd_dropCr, iniTrimEnd, line_eq, Trim.rdropWhile_append_of_ne_nil _ hend, List.append_assoc]
  unfold goesOn
  rw [htext, List.getLast?_append_of_ne_nil _ hend, Bool.and_eq_false_iff]
  refine .inr (decide_eq_false fun hslash => ?_)
  have hmem : '\\' ∈ ']' :: h.right := (List.rdropWhile_prefix isIniSpace _).subset (List.mem_of_mem_getLast? hslash)
  rcases List.mem_cons.1 hmem with hbracket | hright
  · exact absurd hbracket (by decide)
  · exact close_not_mem h.spaces_right rfl hright

theorem fits_line_iff (pending name newName : Text) : fits pending (h.line newName) = true ↔
    utf8Length pending + utf8Length (dropCr (h.line name)) + utf8Length newName ≤
      iniMaxLineLength + utf8Length name := by
  have hlength : ∀ name, utf8Length (dropCr (h.line name)) =
      utf8Length (h.left ++ '[' :: (h.open₁ ++ '@' :: h.at₁)) + utf8Length name +
        utf8Length (h.close₁ ++ dropCr (']' :: h.right)) := by
    intro name
    have hsplit : h.line name =
        (h.left ++ '[' :: (h.open₁ ++ '@' :: h.at₁)) ++ name ++ h.close₁ ++ ']' :: h.right := by
      simp [line]
    rw [hsplit, dropCr_append _ (by simp)]
    simp only [utf8Length_append]
    omega
  rw [fits, decide_eq_true_eq, hlength, hlength name]
  omega

end HeaderSpaces

end CubridWebManager.Conf
