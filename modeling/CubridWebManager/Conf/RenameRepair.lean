import CubridWebManager.Conf.EditServerList
import CubridWebManager.Conf.RenameSection
import CubridWebManager.Lib.FirstOccurrences

/-!
# Repairing cubrid.conf after a rename

`renameAutoStart` renames the database in the autostart lists and then the header of its own section.  The edit of the
lists is meant to put the new name in the place of the old one (`RenamedList`), and a second repair to change nothing
(`IsRepair`): so it is where the lists are read and written as the engine reads them and the header that is renamed is
not one of `[service]` (`rename_repair`).
-/

namespace CubridWebManager.Conf

/-! ### The property -/

/-- `renameDbSection(renameAutostart(confdata, oldName, newName), oldName, newName).lines` -/
def renamedConf (lower : Text → Text) (confdata : List Text) (oldName newName : Text) : List Text :=
  (renameDbSection lower ((renameAutostart lower confdata oldName newName).getD confdata) oldName newName).lines

/-- The list has the new name once in the place of the old one, and the first occurrences of the other names. -/
structure RenamedList (old new : Text) (names names' : List Text) : Prop where
  gone : old ∉ names'
  once : names'.count new = 1
  others : names'.filter (· ≠ new) = (names.filter fun name => name ≠ old ∧ name ≠ new).eraseDups

/-- A list that had the old name is renamed, and another is untouched. -/
structure RenamedEntry (old new : Text) (e e' : ConfTextEntry) : Prop where
  key : e'.key = e.key
  list : old ∈ listNames e.value → RenamedList old new (listNames e.value) (listNames e'.value)
  untouched : old ∉ listNames e.value → e'.value = e.value

structure IsRepair (lower : Text → Text) (confdata : List Text) (old new : Text) : Prop where
  again : renamedConf lower (renamedConf lower confdata old new) old new = renamedConf lower confdata old new
  gone : ∀ e ∈ serverEntries lower (renamedConf lower confdata old new), old ∉ listNames e.value
  lists : List.Forall₂ (RenamedEntry old new) (serverEntries lower confdata)
    (serverEntries lower (renamedConf lower confdata old new))

/-! ### Where it holds -/

/-- `toLowerCase` leaves white space at the front of a text there. -/
def LowerCase.KeepsSpace (L : LowerCase) : Prop :=
  ∀ (t : Text) (c : Char), Text.isSpace c = true → t.head? = some c → (L.lower t).head? = some c

/-- The line of the block is not rewritten: it is no autostart list with the old name. -/
def Stays (lower : Text → Text) (confdata : List Text) (old : Text) (b : Block) : Prop :=
  b ∈ serverBlocks lower confdata → old ∉ listNames (b.entry lower).value

/-- The block with its last line renamed. -/
def Block.renameLast (lower : Text → Text) (old new : Text) (b : Block) : Block :=
  { b with physical := renameLine lower old new b.physical }

/-- The two read alike as far as the autostart lists go: they are the same, or headers of sections other than
`[service]`, or keys other than `server`. -/
def ReadAlike (lower : Text → Text) (r r' : Reading) : Prop :=
  r' = r ∨ (∃ n n', r = .header n ∧ r' = .header n' ∧ n ≠ serviceName ∧ n' ≠ serviceName) ∨
    ∃ key value key' value', r = .entry key value ∧ r' = .entry key' value' ∧
      lower key ≠ "server".toList ∧ lower key' ≠ "server".toList

structure RepairFits (lower : Text → Text) (confdata : List Text) (old new : Text) : Prop where
  /-- Each list is edited as the engine reads it, or has the old name for no reader. -/
  lists : ∀ b ∈ serverBlocks lower confdata,
    ListEditable (renameNames old new) b ∨ Untouched lower confdata (renameNames old new) b
  /-- Where no line is marked as the section of the new name, those marked as that of the old one are renamed, which for
  the autostart lists makes no difference. -/
  headers : (∀ b ∈ blocksOf confdata, Stays lower confdata old b → sectionOf lower b.physical ≠ some ('@' :: new)) →
    ∀ b ∈ blocksOf confdata, Stays lower confdata old b → sectionOf lower b.physical = some ('@' :: old) →
      ReadAlike lower (b.reading lower) ((b.renameLast lower old new).reading lower)

/-! ### Names -/

section names

variable {old new : Text} {names : List Text}

theorem mem_renameNames {name : Text} (hold : old ∈ names) :
    name ∈ renameNames old new names ↔ name = new ∨ name ∈ names ∧ name ≠ old := by
  rw [renameNames, if_pos hold, List.mem_eraseDups, List.mem_map]
  constructor
  · rintro ⟨n, hn, rfl⟩
    by_cases heq : n = old
    · rw [if_pos heq]
      exact .inl rfl
    · rw [if_neg heq]
      exact .inr ⟨hn, heq⟩
  · rintro (rfl | ⟨hn, hne⟩)
    · exact ⟨old, hold, if_pos rfl⟩
    · exact ⟨name, hn, if_neg hne⟩

theorem renameNames_eq_iff (hne : old ≠ new) : renameNames old new names = names ↔ old ∉ names := by
  refine ⟨fun heq hold => ?_, fun hold => if_neg hold⟩
  have hgone : old ∉ renameNames old new names := by
    rw [mem_renameNames hold]
    exact fun h => h.elim hne fun h => h.2 rfl
  rw [heq] at hgone
  exact hgone hold

theorem renamedList_renameNames (hne : old ≠ new) (hold : old ∈ names) :
    RenamedList old new names (renameNames old new names) where
  gone := by
    rw [mem_renameNames hold]
    exact fun h => h.elim hne fun h => h.2 rfl
  once := by
    rw [renameNames, if_pos hold]
    refine FirstOccurrences.count_eraseDups (List.mem_map.2 ⟨old, hold, ?_⟩)
    exact if_pos rfl
  others := by
    rw [renameNames, if_pos hold, FirstOccurrences.filter_eraseDups, List.filter_map]
    refine congrArg List.eraseDups ?_
    have hfilter : names.filter ((fun name => decide (name ≠ new)) ∘ fun name => if name = old then new else name) =
        names.filter fun name => name ≠ old ∧ name ≠ new := by
      refine List.filter_congr fun name _ => ?_
      by_cases hname : name = old
      · simp [hname]
      · simp [hname]
    rw [hfilter]
    refine (List.map_congr_left fun name hmem => ?_).trans (List.map_id _)
    have hname := (List.mem_filter.1 hmem).2
    exact if_neg (of_decide_eq_true hname).1

theorem addsPlainNames_renameNames (hnew : IsPlainName new) : AddsPlainNames (renameNames old new) := by
  intro names name hname
  by_cases hold : old ∈ names
  · exact ((mem_renameNames hold).1 hname).elim (fun heq => .inr (heq ▸ hnew)) fun h => .inl h.1
  · rw [renameNames, if_neg hold] at hname
    exact .inl hname

end names

/-! ### The line that is edited -/

/-- The logical line that the editor joins for the block. -/
def Block.editedLine (b : Block) : Text := (logicalLineFrom (b.earlier ++ [b.physical]) [] 0).2

section editedLine

variable {p q l l' : Text} {mid ls : List Text} {n : Nat} {es : List LogicalLine}

theorem last_of_not_goesOn (hfits : fits p l = true) (hstop : goesOn p l = false) :
    (iniTrimEnd (dropCr l)).getLast? ≠ some '\\' := by
  intro hlast
  have hne : iniTrimEnd (dropCr l) ≠ [] := by
    intro hnil
    rw [hnil] at hlast
    cases hlast
  have htext : (accumulate p l).getLast? = some '\\' := by
    rw [accumulate, List.getLast?_append_of_ne_nil _ hne, hlast]
  simp [goesOn, hfits, htext] at hstop

/-- The editor reads no line after the last one of the block. -/
theorem logicalLineFrom_append (hend : (iniTrimEnd (dropCr l)).getLast? ≠ some '\\') (mid rest : List Text) (q : Text)
    (i j : Nat) : (logicalLineFrom (mid ++ l :: rest) q i).2 = (logicalLineFrom (mid ++ [l]) q j).2 := by
  induction mid generalizing q i j with
  | nil => simp only [List.nil_append, logicalLineFrom, if_pos hend]
  | cons x mid ih =>
    rw [List.cons_append, List.cons_append, logicalLineFrom, logicalLineFrom]
    split
    · rfl
    · exact ih _ _ _

/-- It reads none after a blank one. -/
theorem logicalLineFrom_blank (h : ∃ x ∈ mid, iniTrimEnd x = []) (rest rest' : List Text) (q : Text) (i : Nat) :
    (logicalLineFrom (mid ++ rest) q i).2 = (logicalLineFrom (mid ++ rest') q i).2 := by
  induction mid generalizing q i with
  | nil =>
    obtain ⟨x, hx, -⟩ := h
    cases hx
  | cons x mid ih =>
    rw [List.cons_append, List.cons_append, logicalLineFrom, logicalLineFrom]
    split
    · rfl
    · rename_i hlast
      refine ih ?_ _ _
      obtain ⟨y, hy, hblank⟩ := h
      rcases List.mem_cons.1 hy with rfl | hy
      · rw [iniTrimEnd_dropCr, hblank] at hlast
        exact absurd (by simp) hlast
      · exact ⟨y, hy, hblank⟩

variable {lower : Text → Text} {confdata : List Text} {b : Block}

theorem logicalLine_eq_editedLine (hb : b ∈ blocksOf confdata) (hfits : fits b.before b.physical = true) :
    (logicalLine confdata (b.start - 1)).2 = b.editedLine := by
  obtain ⟨pre, post, hlines, hstart, -, hstop⟩ := (cut_logicalLinesOf confdata).exists_split hb
  have hdrop : confdata.drop (b.start - 1) = b.earlier ++ b.physical :: post := by
    rw [hstart, Nat.add_sub_cancel_left, hlines, List.drop_left]
  rw [logicalLine, hdrop, Block.editedLine]
  exact logicalLineFrom_append (last_of_not_goesOn hfits hstop) ..

theorem editedLine_eq_line (hb : b ∈ blocksOf confdata) (hfits : fits b.before b.physical = true)
    (hjoined : ∀ x ∈ b.earlier, iniTrimEnd x ≠ []) : b.editedLine = b.line := by
  obtain ⟨-, -, -, -, hmid, hstop⟩ := (cut_logicalLinesOf confdata).exists_split hb
  rw [Block.editedLine, logicalLineFrom_continues hmid hjoined hfits hstop []]
  rfl

/-- A plain name that the editor finds is in what the engine reads. -/
theorem isRead_of_mem_listOf {line name : Text} (hname : IsPlainName name) (h : name ∈ listOf line) :
    (valueSpan line).IsRead := by
  intro _
  refine ⟨fun hpair => ?_, ?_⟩
  · rw [listOf, ← listNames_iniTrim] at h
    rcases hpair with hpair | hpair
    · rw [hpair] at h
      obtain rfl := List.mem_singleton.1 (show name ∈ [['\x22', '\x22']] from h)
      exact absurd hname (by decide)
    · rw [hpair] at h
      obtain rfl := List.mem_singleton.1 (show name ∈ [['\x27', '\x27']] from h)
      exact absurd hname (by decide)
  · split
    · intro hblank
      rw [listOf, listNames_of_all hblank] at h
      cases h
    · intro hnil
      rw [listOf, hnil] at h
      cases h

theorem fits_of_entry {key value : Text} (hr : b.reading lower = .entry key value) : fits b.before b.physical = true :=
  Block.fits_of_valid (by rw [hr]; nofun)

theorem mem_names_of_mem_listOf {key value name : Text} (hname : IsPlainName name)
    (hr : b.reading lower = .entry key value) (h : name ∈ listOf b.line) : name ∈ listNames value := by
  have hline : readLine lower b.line = .entry key value :=
    (Block.reading_of_valid (by rw [hr]; nofun)).symm.trans hr
  rw [listNames_of_readLine hline (isRead_of_mem_listOf hname h)]
  exact h

/-- An edit that leaves the lists of all keys alone returns the file. -/
theorem editServerList_eq_none {edit : List Text → List Text}
    (h : ∀ b ∈ serverBlocks lower confdata, edit (listOf b.editedLine) = listOf b.editedLine) :
    editServerList lower confdata edit false = none := by
  have hentry : ∀ e ∈ (editedEntries lower confdata false).reverse, editEntry confdata edit none e = none := by
    intro e he
    rw [List.mem_reverse, editedEntries_eq] at he
    obtain ⟨b, hb, rfl⟩ := List.mem_map.1 he
    obtain ⟨key, value, hr, -⟩ := reading_of_mem_serverBlocks hb
    have hline := logicalLine_eq_editedLine (serverBlocks_sublist.subset hb) (fits_of_entry hr)
    have hlist := h b hb
    rw [← hline] at hlist
    rw [editEntry, Block.entry_start]
    simp only [editServerValue_eq_none_iff.2 hlist]
  rw [editServerList]
  generalize (editedEntries lower confdata false).reverse = es at hentry ⊢
  induction es with
  | nil => rfl
  | cons e es ih =>
    rw [List.foldl_cons, hentry e List.mem_cons_self]
    exact ih fun e' he' => hentry e' (List.mem_cons_of_mem _ he')

end editedLine

/-! ### The header -/

section header

variable {L : LowerCase} {confdata : List Text} {old new : Text}

theorem lines_renameDbSection (lower : Text → Text) (confdata : List Text) (old new : Text) :
    (renameDbSection lower confdata old new).lines =
      if MarksSection lower confdata old ∧ ¬ MarksSection lower confdata new then
        confdata.map (renameLine lower old new)
      else confdata := by
  rw [renameDbSection_eq]
  by_cases hold : MarksSection lower confdata old
  · rw [if_neg (not_not_intro hold)]
    by_cases hnew : MarksSection lower confdata new
    · rw [if_pos hnew, if_neg fun h => h.2 hnew]
    · rw [if_neg hnew, if_pos ⟨hold, hnew⟩]
  · rw [if_pos hold, if_neg fun h => hold h.1]

/-- A header has one name, whatever its spaces. -/
theorem HeaderSpaces.name_inj {h h' : HeaderSpaces} (hold : IsPlainName old) (hnew : IsPlainName new)
    (heq : h.line new = h'.line old) : new = old := by
  have hlines : ∀ name, h.line name = h'.line name := fun name => by
    rw [← renameHeader_line h hnew, heq, renameHeader_line h' hold]
  exact h'.line_inj ((hlines new).symm.trans heq)

/-- A renamed line is not marked with the old name. -/
theorem not_marked_renameLine (hold : IsPlainName old) (hnew : IsPlainName new) (hne : old ≠ new) (line : Text) :
    sectionOf L.lower (renameLine L.lower old new line) ≠ some ('@' :: old) := by
  intro hmark
  by_cases hline : sectionOf L.lower line = some ('@' :: old)
  · obtain ⟨hs, -, hrename⟩ := exists_renameLine new hold hline
    rw [hrename] at hmark
    obtain ⟨hs', heq⟩ := exists_headerSpaces L hmark
    exact hne (HeaderSpaces.name_inj hold hnew heq).symm
  · rw [renameLine, if_neg hline] at hmark
    exact hline hmark

/-- A second rename of the section changes nothing. -/
theorem lines_renameDbSection_again (hold : IsPlainName old) (hnew : IsPlainName new) (hne : old ≠ new)
    (confdata : List Text) :
    (renameDbSection L.lower (renameDbSection L.lower confdata old new).lines old new).lines =
      (renameDbSection L.lower confdata old new).lines := by
  rw [lines_renameDbSection L.lower confdata]
  split
  · rw [lines_renameDbSection, if_neg]
    rintro ⟨⟨line', hmem, hmark⟩, -⟩
    obtain ⟨line, -, rfl⟩ := List.mem_map.1 hmem
    exact not_marked_renameLine hold hnew hne line hmark
  · rename_i hstays
    rw [lines_renameDbSection, if_neg hstays]

/-- The blocks of the renamed file are those of the file, with their last lines renamed. -/
theorem blocksOf_renameLine (hold : IsPlainName old) (confdata : List Text) :
    blocksOf (confdata.map (renameLine L.lower old new)) =
      (blocksOf confdata).map (Block.renameLast L.lower old new) :=
  blocksFrom_map (fun _ _ => renameLine_of_goesOn) (fun _ _ => not_goesOn_renameLine hold) confdata 1 [] []

theorem physical_mem {b : Block} (hb : b ∈ blocksOf confdata) : b.physical ∈ confdata := by
  obtain ⟨pre, post, hlines, -⟩ := (cut_logicalLinesOf confdata).exists_split hb
  rw [hlines]
  simp

theorem renameLast_of_not_marked {lower : Text → Text} {b : Block}
    (hmark : sectionOf lower b.physical ≠ some ('@' :: old)) : b.renameLast lower old new = b := by
  rw [Block.renameLast, renameLine, if_neg hmark]

theorem Block.SameLines.renameLast {lower : Text → Text} {b b' : Block} (h : b'.SameLines b) :
    (b'.renameLast lower old new).SameLines (b.renameLast lower old new) :=
  ⟨h.1, h.2.1, congrArg (renameLine lower old new) h.2.2⟩

end header

/-! ### The blocks -/

/-- A line from which the engine reads an autostart list is no header for `sectionOf`. -/
theorem not_marked_of_readLine {L : LowerCase} (hspace : L.KeepsSpace) {t key value : Text}
    (h : readLine L.lower t = .entry key value) (hkey : L.lower key = "server".toList) (name : Text) :
    sectionOf L.lower t ≠ some ('@' :: name) := by
  intro hmark
  obtain ⟨hs, hline⟩ := exists_headerSpaces L hmark
  obtain ⟨k, rest, ht, -, hk, hne, -⟩ := exists_assign h
  obtain ⟨c, hhead⟩ : ∃ c, key.head? = some c := Option.isSome_iff_exists.1 (List.isSome_head?.2 hne)
  have hfront : (iniTrim t).head? = some c := by
    have hdrop : (k.dropWhile isIniSpace).head? = some c := by
      obtain ⟨w, -, hparts⟩ := Trim.exists_rdropWhile_parts isIniSpace (k.dropWhile isIniSpace)
      rw [← hk] at hhead hne
      rw [hparts]
      exact (List.head?_append_of_ne_nil _ hne).trans hhead
    have hfirst : k.dropWhile isIniSpace ≠ [] := by
      intro hnil
      rw [hnil] at hdrop
      cases hdrop
    rw [ht, iniTrim_assign, List.head?_append_of_ne_nil _ hfirst]
    exact hdrop
  by_cases hc : Text.isSpace c = true
  · have hlower := hspace key c hc hhead
    rw [hkey] at hlower
    obtain rfl := Option.some.inj hlower
    exact absurd hc (by decide)
  · -- the first character that is no white space is the bracket
    have hleft : Trim.All isIniSpace hs.left := by
      refine Trim.all_of_head_trim (HeaderSpaces.close_not_mem hs.spaces_left (by simpa using hc)) (x := c)
        (l := '[' :: (hs.open₁ ++ '@' :: (hs.at₁ ++ name ++ hs.close₁ ++ ']' :: hs.right))) ?_
      rw [← iniTrim_eq, ← HeaderSpaces.line, ← hline]
      exact hfront
    have hbracket : (iniTrim t).head? = some '[' := by
      rw [hline, HeaderSpaces.line, iniTrim_eq, Trim.trim_append_left hleft]
      exact Trim.head_trim_cons rfl _
    obtain rfl := Option.some.inj (hfront.symm.trans hbracket)
    have hlower := (L.head_iff key '[' (.inr rfl)).2 hhead
    rw [hkey] at hlower
    exact absurd hlower (by decide)

/-- What the repair makes of a block. -/
structure BlockRepaired (lower : Text → Text) (confdata : List Text) (old new : Text) (b b' : Block) : Prop where
  reads : ReadAlike lower (b.reading lower) (b'.reading lower) ∨
    ∃ key value value', b.reading lower = .entry key value ∧ b'.reading lower = .entry key value'
  entry : b ∈ serverBlocks lower confdata → RenamedEntry old new (b.entry lower) (b'.entry lower)
  earlier : b'.earlier ≠ [] → b'.earlier = b.earlier

section repaired

variable {L : LowerCase} {confdata : List Text} {old new : Text}

/-- The entries that are read in `[service]` are related as the blocks are. -/
theorem forall₂_blocksIn {lower : Text → Text} {P : Block → Block → Prop} {bs bs' : List Block}
    (h : List.Forall₂ P bs bs') (hP : ∀ b b', P b b' → ReadAlike lower (b.reading lower) (b'.reading lower) ∨
      ∃ key value value', b.reading lower = .entry key value ∧ b'.reading lower = .entry key value')
    {current current' : Option Text} (hcurrent : current = some serviceName ↔ current' = some serviceName) :
    List.Forall₂ P (blocksIn lower (some serviceName) current bs) (blocksIn lower (some serviceName) current' bs') := by
  induction h generalizing current current' with
  | nil => exact .nil
  | @cons b b' bs bs' hb _ ih =>
    rcases hP b b' hb with (hsame | ⟨n, n', hr, hr', hn, hn'⟩ | ⟨key, value, key', value', hr, hr', -⟩) |
      ⟨key, value, value', hr, hr'⟩
    · cases hr : b.reading lower with
      | header n =>
        rw [hr] at hsame
        simp only [blocksIn, hr, hsame]
        exact ih Iff.rfl
      | entry key value =>
        rw [hr] at hsame
        simp only [blocksIn, hr, hsame, hcurrent]
        split
        · exact .cons hb (ih hcurrent)
        · exact ih hcurrent
      | nothing | invalid =>
        rw [hr] at hsame
        simp only [blocksIn, hr, hsame]
        exact ih hcurrent
    · simp only [blocksIn, hr, hr']
      exact ih (by simp [hn, hn'])
    all_goals
      simp only [blocksIn, hr, hr', hcurrent]
      split
      · exact .cons hb (ih hcurrent)
      · exact ih hcurrent

theorem forall₂_serverBlocks {lower : Text → Text} {physical physical' : List Text} {P : Block → Block → Prop}
    (h : List.Forall₂ P (blocksOf physical) (blocksOf physical'))
    (hP : ∀ b b', P b b' → ReadAlike lower (b.reading lower) (b'.reading lower) ∨
      ∃ key value value', b.reading lower = .entry key value ∧ b'.reading lower = .entry key value') :
    List.Forall₂ P (serverBlocks lower physical) (serverBlocks lower physical') := by
  refine List.rel_filter (fun b b' hb => ?_) (forall₂_blocksIn h hP Iff.rfl)
  simp only [decide_eq_true_eq]
  rcases hP b b' hb with (hsame | ⟨n, n', hr, hr', -⟩ | ⟨key, value, key', value', hr, hr', hkey, hkey'⟩) |
    ⟨key, value, value', hr, hr'⟩
  · have heq : (b'.entry lower).key = (b.entry lower).key := by
      simp only [Block.entry, hsame]
      split <;> rfl
    rw [heq]
  · simp only [Block.entry, hr, hr']
  · rw [Block.entry_eq hr, Block.entry_eq hr']
    exact iff_of_false hkey hkey'
  · rw [Block.entry_eq hr, Block.entry_eq hr']

theorem exists_mem_of_forall₂ {α β : Type} {R : α → β → Prop} {l : List α} {l' : List β} (h : List.Forall₂ R l l')
    {a : α} (ha : a ∈ l) : ∃ b ∈ l', R a b := by
  induction h with
  | nil => cases ha
  | cons hab _ ih =>
    rcases List.mem_cons.1 ha with rfl | ha
    · exact ⟨_, List.mem_cons_self, hab⟩
    · obtain ⟨b, hb, hr⟩ := ih ha
      exact ⟨b, List.mem_cons_of_mem _ hb, hr⟩

theorem renamedEntry_of_value_eq {e e' : ConfTextEntry} (hkey : e'.key = e.key) (hvalue : e'.value = e.value)
    (hold : old ∉ listNames e.value) : RenamedEntry old new e e' :=
  ⟨hkey, fun hmem => absurd hmem hold, fun _ => hvalue⟩

theorem RepairFits.edited (h : RepairFits L.lower confdata old new) :
    ∀ b ∈ editedBlocks L.lower confdata false,
      ListEditable (renameNames old new) b ∨ Untouched L.lower confdata (renameNames old new) b :=
  h.lists

variable (h : RepairFits L.lower confdata old new) (hne : old ≠ new)

include h hne

theorem stays_of_rewriteOf_none {b : Block}
    (hnone : rewriteOf (renameNames old new) (fun b => b ∈ editedBlocks L.lower confdata false) b = none) :
    Stays L.lower confdata old b :=
  fun hb => (renameNames_eq_iff hne).1 (list_of_rewriteOf_none h.edited hb hnone)

variable (hnew : IsPlainName new)

include hnew

/-- The edit of the lists does its part of the repair. -/
theorem blockRepaired_of_rewritten {b b' : Block} (hb : b ∈ blocksOf confdata)
    (hr : BlockRewritten (rewriteOf (renameNames old new) fun b => b ∈ editedBlocks L.lower confdata false) b b') :
    BlockRepaired L.lower confdata old new b b' := by
  obtain ⟨hread, hkey, hvalue⟩ := reading_of_rewritten h.edited (addsPlainNames_renameNames hnew) hb hr
  refine ⟨hread.imp_left .inl, fun hserver => ?_, fun hearlier => ?_⟩
  · have hedited : b.entry L.lower ∈ editedEntries L.lower confdata false :=
      (entry_mem_editedEntries_iff hb).2 hserver
    by_cases hmem : old ∈ listNames (b.entry L.lower).value
    · rw [if_pos ⟨hedited, fun heq => (renameNames_eq_iff hne).1 heq hmem⟩] at hvalue
      refine ⟨hkey, fun _ => ?_, fun hno => absurd hmem hno⟩
      rw [hvalue]
      exact renamedList_renameNames hne hmem
    · rw [if_neg fun hchange => hchange.2 ((renameNames_eq_iff hne).2 hmem)] at hvalue
      exact renamedEntry_of_value_eq hkey hvalue hmem
  · rcases hr with ⟨-, hsame⟩ | ⟨t, -, hnil, -⟩
    · exact hsame.1
    · exact absurd hnil hearlier

/-- The rename of the header leaves it so. -/
theorem blockRepaired_renameLast (hspace : L.KeepsSpace)
    (hunmarked : ∀ b ∈ blocksOf confdata, Stays L.lower confdata old b →
      sectionOf L.lower b.physical ≠ some ('@' :: new)) {b b' : Block} (hb : b ∈ blocksOf confdata)
    (hr : BlockRewritten (rewriteOf (renameNames old new) fun b => b ∈ editedBlocks L.lower confdata false) b b') :
    BlockRepaired L.lower confdata old new b (b'.renameLast L.lower old new) := by
  have hrewritten := blockRepaired_of_rewritten h hne hnew hb hr
  rcases hr with ⟨hnone, hsame⟩ | ⟨t, hsome, -, -, hphysical⟩
  · have hstays := stays_of_rewriteOf_none h hne hnone
    by_cases hmark : sectionOf L.lower b.physical = some ('@' :: old)
    · have halike := h.headers hunmarked b hb hstays hmark
      have hlast : (b'.renameLast L.lower old new).SameLines (b.renameLast L.lower old new) := hsame.renameLast
      rw [← hlast.reading_eq] at halike
      refine ⟨.inl halike, fun hserver => ?_, fun _ => hsame.1⟩
      obtain ⟨key, value, hentry, hkey⟩ := reading_of_mem_serverBlocks hserver
      have hread : (b'.renameLast L.lower old new).reading L.lower = b.reading L.lower := by
        refine halike.resolve_right ?_
        rintro (⟨n, n', hheader, -⟩ | ⟨key', value', -, -, hother, -, hne, -⟩)
        · cases hentry.symm.trans hheader
        · obtain ⟨rfl, rfl⟩ := Reading.entry.inj (hentry.symm.trans hother)
          exact hne hkey
      have hold := hstays hserver
      rw [hentry] at hread
      rw [Block.entry_eq hentry] at hold ⊢
      rw [Block.entry_eq hread]
      exact renamedEntry_of_value_eq rfl rfl hold
    · rw [← hsame.2.2] at hmark
      rwa [renameLast_of_not_marked hmark]
  · -- the new line is no header
    obtain ⟨hedited, heditable⟩ := editable_of_rewriteOf h.edited hsome
    obtain ⟨key, value, hentry, hkey⟩ := reading_of_mem_serverBlocks hedited
    obtain ⟨-, -, -, value', hread, -⟩ :=
      exists_reading_rewriteOf (addsPlainNames_renameNames hnew) hentry hkey heditable hsome
    rw [← hphysical] at hread
    rwa [renameLast_of_not_marked (not_marked_of_readLine hspace hread hkey old)]

/-- The blocks of the repaired file. -/
theorem forall₂_blocks_renamedConf (hspace : L.KeepsSpace) (hold : IsPlainName old)
    (hvalid : (parseConfText L.lower confdata).syntaxErrors = []) :
    List.Forall₂ (BlockRepaired L.lower confdata old new) (blocksOf confdata)
      (blocksOf (renamedConf L.lower confdata old new)) := by
  have hedit := forall₂_blocks_edit hvalid h.edited (addsPlainNames_renameNames hnew)
  have hmem : ∀ b ∈ blocksOf confdata, b ∈ blocksOf confdata := fun _ => id
  have hboth := (List.forall₂_and_left _ _).2 ⟨hmem, hedit⟩
  rw [renamedConf, lines_renameDbSection]
  split
  · rename_i hmarks
    rw [blocksOf_renameLine hold, List.forall₂_map_right_iff]
    refine hboth.imp fun b b' hb => blockRepaired_renameLast h hne hnew hspace (fun c hc hstays hmark => ?_) hb.1 hb.2
    -- a line that is marked with the new name is there after the edit of the lists, too
    obtain ⟨c', hc', hrewritten⟩ := exists_mem_of_forall₂ hedit hc
    refine hmarks.2 ⟨c'.physical, physical_mem hc', ?_⟩
    rcases hrewritten with ⟨-, hsame⟩ | ⟨t, hsome, -⟩
    · rw [hsame.2.2]
      exact hmark
    · obtain ⟨hedited, heditable⟩ := editable_of_rewriteOf h.edited hsome
      obtain ⟨key, value, hentry, hkey⟩ := reading_of_mem_serverBlocks hedited
      have hlist := hstays hedited
      have hchange := (exists_reading_rewriteOf (addsPlainNames_renameNames hnew) hentry hkey heditable hsome).2.2.1
      rw [Block.entry_eq hentry] at hlist
      exact absurd ((renameNames_eq_iff hne).2 hlist) hchange
  · exact hboth.imp fun b b' hb => blockRepaired_of_rewritten h hne hnew hb.1 hb.2

end repaired

/-! ### The repair -/

/-- `renameAutoStart` repairs the autostart lists, and finds nothing to repair in what it has made, where it reads and
writes the lists as the engine does and the headers that it renames are not read in them. -/
theorem rename_repair (L : LowerCase) (hspace : L.KeepsSpace) (confdata : List Text) (old new : Text)
    (hvalid : (parseConfText L.lower confdata).syntaxErrors = []) (hold : IsPlainName old) (hnew : IsPlainName new)
    (hne : old ≠ new) (h : RepairFits L.lower confdata old new) : IsRepair L.lower confdata old new := by
  have hblocks := forall₂_serverBlocks (forall₂_blocks_renamedConf h hne hnew hspace hold hvalid)
    fun _ _ hb => hb.reads
  have hmem : ∀ b ∈ serverBlocks L.lower confdata, b ∈ serverBlocks L.lower confdata := fun _ => id
  have hlists : List.Forall₂ (RenamedEntry old new) (serverEntries L.lower confdata)
      (serverEntries L.lower (renamedConf L.lower confdata old new)) := by
    rw [serverEntries_eq, serverEntries_eq, List.forall₂_map_left_iff, List.forall₂_map_right_iff]
    exact ((List.forall₂_and_left _ _).2 ⟨hmem, hblocks⟩).imp fun b b' hb => hb.2.entry hb.1
  have hgone : ∀ e ∈ serverEntries L.lower (renamedConf L.lower confdata old new), old ∉ listNames e.value := by
    intro e' he'
    obtain ⟨e, -, hentry⟩ := exists_mem_of_forall₂ hlists.flip he'
    by_cases hin : old ∈ listNames e.value
    · exact (hentry.list hin).gone
    · rw [hentry.untouched hin]
      exact hin
  refine ⟨?_, hgone, hlists⟩
  -- no list of the repaired file has the old name for the editor
  have hedit : editServerList L.lower (renamedConf L.lower confdata old new) (renameNames old new) false = none := by
    refine editServerList_eq_none fun b' hb' => (renameNames_eq_iff hne).2 fun hin => ?_
    obtain ⟨key, value, hr, -⟩ := reading_of_mem_serverBlocks hb'
    by_cases hjoined : ∀ x ∈ b'.earlier, iniTrimEnd x ≠ []
    · rw [editedLine_eq_line (serverBlocks_sublist.subset hb') (fits_of_entry hr) hjoined] at hin
      have hentry := hgone (b'.entry L.lower) (by rw [serverEntries_eq]; exact List.mem_map_of_mem hb')
      rw [Block.entry_eq hr] at hentry
      exact hentry (mem_names_of_mem_listOf hold hr hin)
    · -- what the editor joins there are lines that were there before
      obtain ⟨b, hb, hrepaired⟩ := exists_mem_of_forall₂ hblocks.flip hb'
      obtain ⟨x, hx, hblank⟩ : ∃ x ∈ b'.earlier, iniTrimEnd x = [] := by simpa using hjoined
      have hearlier := hrepaired.earlier (List.ne_nil_of_mem hx)
      have hline : b'.editedLine = b.editedLine := by
        rw [Block.editedLine, Block.editedLine, hearlier,
          logicalLineFrom_blank ⟨x, hearlier ▸ hx, hblank⟩ [b'.physical] [b.physical]]
      have huntouched := (h.lists b hb).resolve_left fun heditable =>
        heditable.joined x (hearlier ▸ hx) hblank
      obtain ⟨key', value', hr', -⟩ := reading_of_mem_serverBlocks hb
      have hlist := huntouched.2
      rw [logicalLine_eq_editedLine (serverBlocks_sublist.subset hb) (fits_of_entry hr')] at hlist
      rw [hline] at hin
      exact (renameNames_eq_iff hne).1 hlist hin
  have hagain : renamedConf L.lower (renamedConf L.lower confdata old new) old new =
      (renameDbSection L.lower (renamedConf L.lower confdata old new) old new).lines := by
    rw [renamedConf, renameAutostart, hedit, Option.getD_none]
  rw [hagain]
  exact lines_renameDbSection_again hold hnew hne _

theorem keepsSpace_asciiLower : asciiLower.KeepsSpace := by
  intro t c hc hhead
  obtain ⟨rest, rfl⟩ := List.head?_eq_some_iff.1 hhead
  have hlower : c.toLower = c := by
    unfold Char.toLower
    split
    · rename_i h
      have hlo : 65 ≤ c.toNat := h.1
      have hhi : c.toNat ≤ 90 := h.2
      simp only [Text.isSpace, Bool.or_eq_true, Bool.and_eq_true, decide_eq_true_eq, beq_iff_eq] at hc
      omega
    · rfl
  simp [asciiLower, hlower]

/-- The new name is already in the list. -/
def twiceConf : List Text := ["[service]".toList, "server=\"a, b,c,c\"".toList, "[@a]".toList]

theorem rename_repair_twice :
    renamedConf asciiLower.lower twiceConf "a".toList "b".toList =
      ["[service]".toList, "server=\"b, c\"".toList, "[@b]".toList] ∧
    IsRepair asciiLower.lower twiceConf "a".toList "b".toList := by
  have hblocks : serverBlocks asciiLower.lower twiceConf = [⟨2, [], [], "server=\"a, b,c,c\"".toList⟩] := by decide
  have hheader : ∀ b ∈ blocksOf twiceConf, sectionOf asciiLower.lower b.physical = some ('@' :: "a".toList) →
      b.reading asciiLower.lower = .header "@a".toList ∧
        (b.renameLast asciiLower.lower "a".toList "b".toList).reading asciiLower.lower =
          .header "@b".toList := by decide
  refine ⟨by decide, rename_repair asciiLower keepsSpace_asciiLower _ _ _ (by decide) (by decide) (by decide)
    (by decide) ⟨fun b hb => ?_, fun _ b hb _ hmark => ?_⟩⟩
  swap
  · obtain ⟨hr, hr'⟩ := hheader b hb hmark
    exact .inr (.inl ⟨_, _, hr, hr', by decide, by decide⟩)
  rw [hblocks] at hb
  obtain rfl := List.mem_singleton.1 hb
  exact .inl ⟨by decide, by decide, fun _ => ⟨by decide, by decide, by decide, by decide⟩⟩

/-- The engine reads the old name after two empty quotes, and the edit finds no name in them. -/
theorem rename_repair_fails :
    ¬ ∀ (confdata : List Text) (old new : Text), (parseConfText asciiLower.lower confdata).syntaxErrors = [] →
      IsPlainName old → IsPlainName new → old ≠ new → IsRepair asciiLower.lower confdata old new := by
  intro h
  have hrepair := h ["[service]".toList, "server=\"\",demodb".toList] "demodb".toList "testdb".toList (by decide)
    (by decide) (by decide) (by decide)
  have hentries : serverEntries asciiLower.lower (renamedConf asciiLower.lower
      ["[service]".toList, "server=\"\",demodb".toList] "demodb".toList "testdb".toList) =
        [⟨"server".toList, "\"\",demodb".toList, 2⟩] := by decide
  exact hrepair.gone _ (by rw [hentries]; exact List.mem_singleton_self _) (by decide)

end CubridWebManager.Conf
