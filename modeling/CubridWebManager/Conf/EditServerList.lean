import CubridWebManager.Conf.SectionMatch
import CubridWebManager.Conf.ServerValue

/-!
# Editing the autostart list

`editServerList` finds the lines of a key and its value with readers of its own.  Where these read what the engine reads,
and the engine reads the new names from the new line (`ListEditable`), the edit is what it is meant to be
(`IsServerListEdit`): the file reads as before, but for the lists that the edit changes.
-/

namespace CubridWebManager.Conf

/-! ### What an edit is meant to be -/

/-- The entry is the same, but if it is one of those that are edited and the edit changes its list, it has the new list. -/
def EditedEntry (edited : List ConfTextEntry) (edit : List Text → List Text) (e e' : ConfTextEntry) : Prop :=
  e'.key = e.key ∧
    if e ∈ edited ∧ edit (listNames e.value) ≠ listNames e.value then listNames e'.value = edit (listNames e.value)
    else e'.value = e.value

/-- The edit of the autostart lists, as the engine reads the file; `none` stands for the lines that were there. -/
structure IsServerListEdit (lower : Text → Text) (confdata : List Text) (edit : List Text → List Text) (lastOnly : Bool)
    (result : Option (List Text)) : Prop where
  same_iff : result = none ↔
    ∀ e ∈ editedEntries lower confdata lastOnly, edit (listNames e.value) = listNames e.value
  syntaxErrors : (parseConfText lower (result.getD confdata)).syntaxErrors = []
  sections : List.Forall₂ (SectionMatches fun _ => EditedEntry (editedEntries lower confdata lastOnly) edit)
    (parseConfText lower confdata).sections (parseConfText lower (result.getD confdata)).sections

/-! ### The keys that are edited -/

section entries

variable {lower : Text → Text} {physical : List Text}

theorem entriesOf_eq_nil {name current : Option Text} {es : List LogicalLine} (hcurrent : current ≠ name)
    (h : ∀ e ∈ es, ∀ n, e.reading lower = .header n → some n ≠ name) : entriesOf lower name current es = [] := by
  induction es generalizing current with
  | nil => rfl
  | cons e es ih =>
    have hrest : ∀ e' ∈ es, ∀ n, e'.reading lower = .header n → some n ≠ name := fun e' he' =>
      h e' (List.mem_cons_of_mem _ he')
    unfold entriesOf
    split
    · rename_i n hr
      exact ih (h e List.mem_cons_self n hr) hrest
    · rw [if_neg hcurrent]
      exact ih hcurrent hrest
    all_goals exact ih hcurrent hrest

theorem entries_of_mem_sections {s : ConfTextSection} (hs : s ∈ (parseConfText lower physical).sections) :
    s.entries = entriesOf lower s.name none (logicalLinesOf physical) := by
  rw [parseConfText_sections] at hs
  rcases List.mem_cons.1 (List.mem_of_mem_filter hs) with rfl | hmem
  · rfl
  · obtain ⟨header, -, rfl⟩ := List.mem_map.1 hmem
    rfl

/-- The section of the autostart lists. -/
def serviceName : Text := "service".toList

/-- The blocks that are read as `[service] server=` keys. -/
def serverBlocks (lower : Text → Text) (physical : List Text) : List Block :=
  (blocksIn lower (some "service".toList) none (blocksOf physical)).filter fun b =>
    lower (b.entry lower).key = "server".toList

/-- The blocks of the keys that are edited. -/
def editedBlocks (lower : Text → Text) (physical : List Text) (lastOnly : Bool) : List Block :=
  let blocks := serverBlocks lower physical
  if lastOnly then blocks.drop (blocks.length - 1) else blocks

theorem serverEntries_eq : serverEntries lower physical = (serverBlocks lower physical).map (Block.entry lower) := by
  have hfilter : (entriesOf lower (some "service".toList) none (logicalLinesOf physical)).filter
      (fun e => lower e.key = "server".toList) = (serverBlocks lower physical).map (Block.entry lower) := by
    rw [logicalLinesOf_eq, entriesOf_eq, List.filter_map]
    rfl
  rw [← hfilter]
  unfold serverEntries
  split
  · rename_i hnone
    have hunseen : ¬ SeesSection lower physical "service".toList := by
      rintro ⟨s, hs, hname⟩
      exact List.find?_eq_none.1 hnone s hs (decide_eq_true hname)
    rw [entriesOf_eq_nil (Option.some_ne_none _).symm fun e he n hr heq =>
      hunseen (seesSection_iff.2 ⟨e, he, by rw [hr, Option.some.inj heq]⟩)]
    rfl
  · rename_i s hsome
    have hfound := List.find?_some hsome
    have hname : s.name = some "service".toList := of_decide_eq_true hfound
    rw [entries_of_mem_sections (List.mem_of_find?_eq_some hsome), hname]

theorem editedEntries_eq (lastOnly : Bool) :
    editedEntries lower physical lastOnly = (editedBlocks lower physical lastOnly).map (Block.entry lower) := by
  unfold editedEntries editedBlocks
  rw [serverEntries_eq]
  cases lastOnly
  · rfl
  · simp [List.map_drop]

theorem editedBlocks_sublist (lastOnly : Bool) :
    (editedBlocks lower physical lastOnly).Sublist (serverBlocks lower physical) := by
  unfold editedBlocks
  cases lastOnly
  · exact List.Sublist.refl _
  · exact List.drop_sublist _ _

theorem serverBlocks_sublist : (serverBlocks lower physical).Sublist (blocksOf physical) :=
  List.filter_sublist.trans (blocksIn_sublist _ _ _)

theorem mem_blocksOf_of_mem_editedBlocks {lastOnly : Bool} {b : Block} (h : b ∈ editedBlocks lower physical lastOnly) :
    b ∈ blocksOf physical :=
  serverBlocks_sublist.subset ((editedBlocks_sublist lastOnly).subset h)

/-- A key that is edited. -/
theorem reading_of_mem_serverBlocks {b : Block} (h : b ∈ serverBlocks lower physical) :
    ∃ key value, b.reading lower = .entry key value ∧ lower key = "server".toList := by
  obtain ⟨hmem, hkey⟩ := List.mem_filter.1 h
  obtain ⟨key, value, hr⟩ := reading_of_mem_blocksIn hmem
  rw [Block.entry_eq hr] at hkey
  exact ⟨key, value, hr, of_decide_eq_true hkey⟩

/-- An entry that is edited is that of its block. -/
theorem entry_mem_editedEntries_iff {lastOnly : Bool} {b : Block} (hb : b ∈ blocksOf physical) :
    b.entry lower ∈ editedEntries lower physical lastOnly ↔ b ∈ editedBlocks lower physical lastOnly := by
  rw [editedEntries_eq]
  constructor
  · intro h
    obtain ⟨b', hb', heq⟩ := List.mem_map.1 h
    have hstart : b'.start = b.start := by rw [← Block.entry_start lower, heq, Block.entry_start]
    rwa [← blocksOf_inj (mem_blocksOf_of_mem_editedBlocks hb') hb hstart]
  · exact fun h => List.mem_map_of_mem h

theorem eq_filter_of_sublist {α : Type} [DecidableEq α] {l l' : List α} (h : l'.Sublist l) (hl : l.Nodup) :
    l' = l.filter fun x => x ∈ l' := by
  induction h with
  | slnil => rfl
  | @cons l₁ l₂ x hsub ih =>
    obtain ⟨hx, hl⟩ := List.nodup_cons.1 hl
    rw [List.filter_cons_of_neg (by simpa using fun hmem => hx (hsub.subset hmem))]
    exact ih hl
  | @cons_cons l₁ l₂ x hsub ih =>
    obtain ⟨hx, hl⟩ := List.nodup_cons.1 hl
    rw [List.filter_cons_of_pos (by simp)]
    refine congrArg _ ((ih hl).trans (List.filter_congr fun y hy => ?_))
    have hne : y ≠ x := fun heq => hx (heq ▸ hy)
    simp [hne]

/-- The blocks that are edited, in the order of the file. -/
theorem editedBlocks_eq_filter (lastOnly : Bool) : editedBlocks lower physical lastOnly =
    (blocksOf physical).filter fun b => b ∈ editedBlocks lower physical lastOnly :=
  eq_filter_of_sublist ((editedBlocks_sublist lastOnly).trans serverBlocks_sublist) (blocksOf_nodup physical)

end entries

/-! ### The lines that are written -/

section rewritten

variable {p q l : Text} {mid ls : List Text} {n : Nat} {es : List LogicalLine}

/-- Where no line that goes on is blank, the lines that are joined are those that the engine joins. -/
theorem logicalLineFrom_continues (h : Continues q mid p) (hblank : ∀ x ∈ mid, iniTrimEnd x ≠ [])
    (hfits : fits p l = true) (hstop : goesOn p l = false) (rest : List Text) (i : Nat) :
    logicalLineFrom (mid ++ l :: rest) q i = (i + mid.length, p ++ l) := by
  induction h generalizing i with
  | nil p =>
    have hend : (iniTrimEnd (dropCr l)).getLast? ≠ some '\\' := by
      intro hlast
      have hne : iniTrimEnd (dropCr l) ≠ [] := by
        intro hnil
        rw [hnil] at hlast
        cases hlast
      have htext : (accumulate p l).getLast? = some '\\' := by
        rw [accumulate, List.getLast?_append_of_ne_nil _ hne, hlast]
      simp [goesOn, hfits, htext] at hstop
    simp only [List.nil_append, logicalLineFrom, if_pos hend, List.length_nil, Nat.add_zero]
  | @cons q _ x mid hgo hne _ ih =>
    have hx : iniTrimEnd (dropCr x) ≠ [] := by
      rw [iniTrimEnd_dropCr]
      exact hblank x List.mem_cons_self
    have hlast : (iniTrimEnd (dropCr x)).getLast? = some '\\' := by
      have htext := (Bool.and_eq_true_iff.1 hgo).2
      rw [decide_eq_true_eq, accumulate, List.getLast?_append_of_ne_nil _ hx] at htext
      exact htext
    have hjoin : q ++ (iniTrimEnd (dropCr x)).dropLast = (accumulate q x).dropLast := by
      rw [accumulate, List.dropLast_append_of_ne_nil hx]
    simp only [List.cons_append, logicalLineFrom, hlast, ne_eq, not_true_eq_false, ↓reduceIte, hjoin]
    rw [ih (fun y hy => hblank y (List.mem_cons_of_mem _ hy)) hfits hstop, List.length_cons]
    simp only [Nat.add_assoc, Nat.add_comm 1]

/-- The lines that are joined for a key are those of its block. -/
theorem logicalLine_of_mem {lower : Text → Text} {confdata before : List Text} (h : Cut n ls es)
    (hconf : confdata = before ++ ls) (hn : n = before.length + 1) {b : Block} (hb : b ∈ blocksFrom n [] [] ls)
    (hvalid : b.reading lower ≠ .invalid) (hjoined : ∀ x ∈ b.earlier, iniTrimEnd x ≠ []) :
    logicalLine confdata (b.start - 1) = (b.start - 1 + b.earlier.length, b.line) := by
  induction h generalizing before with
  | eof hmid =>
    rw [blocksFrom_eof hmid] at hb
    cases hb
  | @skip n mid ls p l es hmid hgo hnil _ ih =>
    rw [blocksFrom_skip hmid hgo hnil] at hb
    have hsplit : before ++ (mid ++ l :: ls) = (before ++ mid ++ [l]) ++ ls := by simp
    exact ih (hconf.trans hsplit) (by simp [hn]; omega) hb
  | @line n mid ls p l es hmid hstop _ ih =>
    rw [blocksFrom_line hmid hstop] at hb
    rcases List.mem_cons.1 hb with rfl | hb
    · have hstart : n - 1 = before.length := by omega
      simp only [logicalLine, hstart, hconf, List.drop_left]
      exact logicalLineFrom_continues hmid hjoined (Block.fits_of_valid hvalid) hstop ls _
    · have hsplit : before ++ (mid ++ l :: ls) = (before ++ mid ++ [l]) ++ ls := by simp
      exact ih (hconf.trans hsplit) (by simp [hn]; omega) hb

/-- The file with the lines of some blocks replaced by one line each. -/
inductive Rewritten (f : Block → Option Text) : Nat → List Text → List Text → Prop
  | eof {n : Nat} {mid : List Text} {p : Text} (hmid : Continues [] mid p) : Rewritten f n mid mid
  | skip {n : Nat} {mid ls ls' : List Text} {p l : Text} (hmid : Continues [] mid p) (hgo : goesOn p l = true)
    (hnil : (accumulate p l).dropLast = []) (h : Rewritten f (n + mid.length + 1) ls ls') :
    Rewritten f n (mid ++ l :: ls) (mid ++ l :: ls')
  | same {n : Nat} {mid ls ls' : List Text} {p l : Text} (hmid : Continues [] mid p) (hstop : goesOn p l = false)
    (hf : f ⟨n, mid, p, l⟩ = none) (h : Rewritten f (n + mid.length + 1) ls ls') :
    Rewritten f n (mid ++ l :: ls) (mid ++ l :: ls')
  | line {n : Nat} {mid ls ls' : List Text} {p l t : Text} (hmid : Continues [] mid p) (hstop : goesOn p l = false)
    (hf : f ⟨n, mid, p, l⟩ = some t) (h : Rewritten f (n + mid.length + 1) ls ls') :
    Rewritten f n (mid ++ l :: ls) (t :: ls')

/-- What an edit makes of the line of a block. -/
def rewriteOf (edit : List Text → List Text) (edited : Block → Bool) (b : Block) : Option Text :=
  if edited b ∧ ∀ x ∈ b.earlier, iniTrimEnd x ≠ [] then editServerValue b.line edit (b.earlier ≠ []) else none

/-- The passes of the loop over the keys from some line on. -/
theorem foldr_editEntry {lower : Text → Text} {confdata : List Text} {edit : List Text → List Text}
    {edited : Block → Bool} (h : Cut n ls es) {before : List Text} (hconf : confdata = before ++ ls)
    (hn : n = before.length + 1)
    (hread : ∀ b ∈ blocksFrom n [] [] ls, edited b = true → b.reading lower ≠ .invalid ∧
      ((∀ x ∈ b.earlier, iniTrimEnd x ≠ []) ∨
        edit (listOf (logicalLine confdata (b.start - 1)).2) = listOf (logicalLine confdata (b.start - 1)).2)) :
    ∃ ls', Rewritten (rewriteOf edit edited) n ls ls' ∧
      ((((blocksFrom n [] [] ls).filter edited).map (Block.entry lower)).foldr
          (fun entry updated => editEntry confdata edit updated entry) none = some (before ++ ls') ∧
          (∃ b ∈ blocksFrom n [] [] ls, rewriteOf edit edited b ≠ none) ∨
        (((blocksFrom n [] [] ls).filter edited).map (Block.entry lower)).foldr
          (fun entry updated => editEntry confdata edit updated entry) none = none ∧ ls' = ls ∧
          ∀ b ∈ blocksFrom n [] [] ls, rewriteOf edit edited b = none) := by
  induction h generalizing before with
  | eof hmid =>
    refine ⟨_, .eof hmid, .inr ?_⟩
    rw [blocksFrom_eof hmid]
    exact ⟨rfl, rfl, fun b hb => absurd hb List.not_mem_nil⟩
  | @skip n mid ls p l es hmid hgo hnil _ ih =>
    rw [blocksFrom_skip hmid hgo hnil] at hread ⊢
    have hsplit : before ++ (mid ++ l :: ls) = (before ++ mid ++ [l]) ++ ls := by simp
    obtain ⟨ls', hls', hfold⟩ := ih (hconf.trans hsplit) (by simp [hn]; omega) hread
    refine ⟨_, .skip hmid hgo hnil hls', ?_⟩
    have hsplit' : (before ++ mid ++ [l]) ++ ls' = before ++ (mid ++ l :: ls') := by simp
    rw [hsplit'] at hfold
    exact hfold.imp_right fun ⟨hnone, heq, hf⟩ => ⟨hnone, by rw [heq], hf⟩
  | @line n mid ls p l es hmid hstop _ ih =>
    rw [blocksFrom_line hmid hstop] at hread ⊢
    have hsplit : before ++ (mid ++ l :: ls) = (before ++ mid ++ [l]) ++ ls := by simp
    have hsplit' : ∀ ls' : List Text, (before ++ mid ++ [l]) ++ ls' = before ++ (mid ++ l :: ls') := by simp
    obtain ⟨ls', hls', hfold⟩ := ih (hconf.trans hsplit) (by simp [hn]; omega) fun b hb =>
      hread b (List.mem_cons_of_mem _ hb)
    rw [hsplit'] at hfold
    generalize hrest : (((blocksFrom (n + mid.length + 1) [] [] ls).filter edited).map (Block.entry lower)).foldr
      (fun entry updated => editEntry confdata edit updated entry) none = updated at hfold
    -- the lines of the block stay
    have hsame : rewriteOf edit edited ⟨n, mid, p, l⟩ = none → ∃ ls'', Rewritten (rewriteOf edit edited) n
        (mid ++ l :: ls) ls'' ∧ (updated = some (before ++ ls'') ∧
          (∃ b ∈ (⟨n, mid, p, l⟩ : Block) :: blocksFrom (n + mid.length + 1) [] [] ls, rewriteOf edit edited b ≠ none) ∨
          updated = none ∧ ls'' = mid ++ l :: ls ∧ ∀ b ∈ (⟨n, mid, p, l⟩ : Block) :: blocksFrom (n + mid.length + 1) [] [] ls,
            rewriteOf edit edited b = none) := by
      intro hnone
      refine ⟨_, .same hmid hstop hnone hls', hfold.imp (fun ⟨hupdated, b, hb, hf⟩ => ⟨hupdated, b, ?_, hf⟩)
        fun ⟨hupdated, heq, hf⟩ => ⟨hupdated, by rw [heq], ?_⟩⟩
      · exact List.mem_cons_of_mem _ hb
      · exact fun b hb => (List.mem_cons.1 hb).elim (fun heq => heq ▸ hnone) (hf b)
    by_cases hedited : edited ⟨n, mid, p, l⟩ = true
    · rw [List.filter_cons_of_pos hedited, List.map_cons, List.foldr_cons, hrest]
      obtain ⟨hvalid, hlist⟩ := hread _ List.mem_cons_self hedited
      have hstart : n - 1 = before.length := by omega
      simp only [editEntry, Block.entry_start, hstart] at hlist ⊢
      by_cases hjoined : ∀ x ∈ mid, iniTrimEnd x ≠ []
      · have hline : logicalLine confdata before.length = (before.length + mid.length, p ++ l) := by
          rw [logicalLine, hconf, List.drop_left]
          exact logicalLineFrom_continues hmid hjoined (Block.fits_of_valid hvalid) hstop ls _
        have hcontinued : decide (before.length < before.length + mid.length) = decide (mid ≠ []) := by
          cases mid <;> simp
        simp only [hline, hcontinued]
        cases hvalue : editServerValue (p ++ l) edit (mid ≠ []) with
        | none => exact hsame ((if_pos ⟨hedited, hjoined⟩).trans hvalue)
        | some t =>
          have hsome : rewriteOf edit edited ⟨n, mid, p, l⟩ = some t := (if_pos ⟨hedited, hjoined⟩).trans hvalue
          refine ⟨_, .line hmid hstop hsome hls', .inl ⟨congrArg some ?_, _, List.mem_cons_self, ?_⟩⟩
          swap
          · rw [hsome]
            exact Option.some_ne_none t
          have hupdated : updated.getD confdata = before ++ (mid ++ l :: ls') := by
            rcases hfold with ⟨h, -⟩ | ⟨h, heq, -⟩
            · rw [h, Option.getD_some]
            · rw [h, Option.getD_none, hconf, heq]
          have hcount : before.length + mid.length - before.length + 1 = (mid ++ [l]).length := by simp
          have hdrop : before ++ (mid ++ l :: ls') = before ++ (mid ++ [l]) ++ ls' := by simp
          rw [hupdated, splice, List.take_left, hcount, hdrop, ← List.length_append, List.drop_left]
      · have hnone : rewriteOf edit edited ⟨n, mid, p, l⟩ = none := if_neg fun h => hjoined h.2
        have hvalue : editServerValue (logicalLine confdata before.length).2 edit
            (before.length < (logicalLine confdata before.length).1) = none :=
          editServerValue_eq_none_iff.2 (hlist.resolve_left hjoined)
        simp only [hvalue]
        exact hsame hnone
    · rw [List.filter_cons_of_neg hedited, hrest]
      exact hsame (if_neg fun h => hedited h.1)

/-- A line that does not go on is a block of its own. -/
theorem blocksFrom_cons {t : Text} (ht : goesOn [] t = false) (m : Nat) (ls : List Text) :
    blocksFrom m [] [] (t :: ls) = ⟨m, [], [], t⟩ :: blocksFrom (m + 1) [] [] ls :=
  blocksFrom_line (.nil []) ht m ls

/-- The blocks of the new file are those of the old one, with the new lines. -/
theorem Rewritten.forall₂_blocksFrom {f : Block → Option Text} {ls' : List Text} (h : Rewritten f n ls ls')
    (hf : ∀ b ∈ blocksFrom n [] [] ls, ∀ t, f b = some t → goesOn [] t = false) (m : Nat) :
    List.Forall₂ (fun b b' => f b = none ∧ b'.SameLines b ∨
        ∃ t, f b = some t ∧ b'.earlier = [] ∧ b'.before = [] ∧ b'.physical = t)
      (blocksFrom n [] [] ls) (blocksFrom m [] [] ls') := by
  induction h generalizing m with
  | eof hmid =>
    rw [blocksFrom_eof hmid, blocksFrom_eof hmid]
    exact .nil
  | skip hmid hgo hnil _ ih =>
    rw [blocksFrom_skip hmid hgo hnil] at hf ⊢
    rw [blocksFrom_skip hmid hgo hnil]
    exact ih hf _
  | same hmid hstop hnone _ ih =>
    rw [blocksFrom_line hmid hstop] at hf ⊢
    rw [blocksFrom_line hmid hstop]
    exact .cons (.inl ⟨hnone, rfl, rfl, rfl⟩) (ih (fun b hb => hf b (List.mem_cons_of_mem _ hb)) _)
  | line hmid hstop hsome _ ih =>
    rw [blocksFrom_line hmid hstop] at hf ⊢
    rw [blocksFrom_cons (hf _ List.mem_cons_self _ hsome)]
    exact .cons (.inr ⟨_, hsome, rfl, rfl, rfl⟩) (ih (fun b hb => hf b (List.mem_cons_of_mem _ hb)) _)

end rewritten

/-! ### Where the edit is right -/

/-- The list of the block is edited as the engine reads it: no line that goes on is blank, the engine reads the list from
the text that is edited, and the new list can stand in its place. -/
structure ListEditable (edit : List Text → List Text) (b : Block) : Prop where
  joined : ∀ x ∈ b.earlier, iniTrimEnd x ≠ []
  read : (valueSpan b.line).IsRead
  replaceable : edit (listOf b.line) ≠ listOf b.line →
    Replaceable (valueSpan b.line) (b.earlier ≠ []) (edit (listOf b.line))

/-- The edit changes neither the list that the engine reads nor the one that is edited. -/
def Untouched (lower : Text → Text) (confdata : List Text) (edit : List Text → List Text) (b : Block) : Prop :=
  edit (listNames (b.entry lower).value) = listNames (b.entry lower).value ∧
    edit (listOf (logicalLine confdata (b.start - 1)).2) = listOf (logicalLine confdata (b.start - 1)).2

/-- The names that the edit adds are plain. -/
def AddsPlainNames (edit : List Text → List Text) : Prop := ∀ names, ∀ name ∈ edit names, name ∈ names ∨ IsPlainName name

section edit

variable {L : LowerCase} {confdata : List Text} {edit : List Text → List Text} {lastOnly : Bool}

/-- What the engine reads from the line that is written in the place of a block. -/
theorem exists_reading_rewriteOf (hedit : AddsPlainNames edit) {edited : Block → Bool} {b : Block} {t : Text}
    {key value : Text} (hr : b.reading L.lower = .entry key value) (hkey : L.lower key = "server".toList)
    (h : ListEditable edit b) (ht : rewriteOf edit edited b = some t) :
    fits [] t = true ∧ goesOn [] t = false ∧ edit (listNames value) ≠ listNames value ∧
      ∃ value', readLine L.lower t = .entry key value' ∧ listNames value' = edit (listNames value) := by
  have hvalid : b.reading L.lower ≠ .invalid := by
    rw [hr]
    nofun
  have hline : readLine L.lower b.line = .entry key value := (Block.reading_of_valid hvalid).symm.trans hr
  have hbracket : key.head? ≠ some '[' := by
    intro hhead
    have hlower := (L.head_iff key '[' (.inr rfl)).2 hhead
    rw [hkey] at hlower
    exact absurd hlower (by decide)
  have hnames := listNames_of_readLine hline h.read
  unfold rewriteOf at ht
  split at ht
  · have hchange : edit (listOf b.line) ≠ listOf b.line := by
      intro heq
      rw [editServerValue_eq_none_iff.2 heq] at ht
      cases ht
    rw [hnames]
    obtain ⟨hfits, hstop, hread⟩ := readLine_editServerValue hline hbracket (hedit _) (h.replaceable hchange) ht
    exact ⟨hfits, hstop, hchange, hread⟩
  · cases ht

/-- Blocks that read alike, one by one. -/
theorem matches_of_forall₂ {lower : Text → Text} {P : Block → Block → Prop} {Q : Option Text → Block → Block → Prop}
    {bs bs' : List Block} (h : List.Forall₂ P bs bs') (current : Option Text)
    (hP : ∀ b ∈ bs, ∀ b', P b b' → b.reading lower ≠ .invalid ∧ (b'.reading lower = b.reading lower ∨
      ∃ key value value', b.reading lower = .entry key value ∧ b'.reading lower = .entry key value') ∧
        ∀ name, Q name b b') :
    Matches lower (fun _ => false) Q current bs bs' := by
  induction h generalizing current with
  | nil => exact .nil current
  | @cons b b' bs bs' hb _ ih =>
    obtain ⟨hvalid, hread, hq⟩ := hP b List.mem_cons_self b' hb
    have hrest : ∀ current, Matches lower (fun _ => false) Q current bs bs' := fun current =>
      ih current fun c hc => hP c (List.mem_cons_of_mem _ hc)
    have hkeep : current.any (fun _ => false) = false := by cases current <;> rfl
    rcases hread with hread | ⟨key, value, value', hr, hr'⟩
    · cases hr : b.reading lower with
      | nothing => exact .skip hr (.skip_new (hread.trans hr) (hrest current))
      | header n => exact .header hr (hread.trans hr) rfl (hrest (some n))
      | entry key value => exact .entry hr (hread.trans hr) hkeep (hq current) (hrest current)
      | invalid => exact absurd hr hvalid
    · exact .entry hr hr' hkeep (hq current) (hrest current)

section edited

variable (h : ∀ b ∈ editedBlocks L.lower confdata lastOnly, ListEditable edit b ∨ Untouched L.lower confdata edit b)

include h

/-- A list whose line stays is not changed by the edit. -/
theorem list_of_rewriteOf_none {b : Block} (hb : b ∈ editedBlocks L.lower confdata lastOnly)
    (hnone : rewriteOf edit (fun b => b ∈ editedBlocks L.lower confdata lastOnly) b = none) :
    edit (listNames (b.entry L.lower).value) = listNames (b.entry L.lower).value := by
  rcases h b hb with heditable | huntouched
  · obtain ⟨key, value, hr, -⟩ := reading_of_mem_serverBlocks ((editedBlocks_sublist lastOnly).subset hb)
    have hline : readLine L.lower b.line = .entry key value :=
      (Block.reading_of_valid (by rw [hr]; nofun)).symm.trans hr
    have hjoined : decide (b ∈ editedBlocks L.lower confdata lastOnly) = true ∧ ∀ x ∈ b.earlier, iniTrimEnd x ≠ [] :=
      ⟨decide_eq_true hb, heditable.joined⟩
    rw [rewriteOf, if_pos hjoined, editServerValue_eq_none_iff] at hnone
    rw [Block.entry_eq hr, listNames_of_readLine hline heditable.read]
    exact hnone
  · exact huntouched.1

/-- A line that is rewritten is that of a list that can be edited. -/
theorem editable_of_rewriteOf {b : Block} {t : Text}
    (hsome : rewriteOf edit (fun b => b ∈ editedBlocks L.lower confdata lastOnly) b = some t) :
    b ∈ editedBlocks L.lower confdata lastOnly ∧ ListEditable edit b := by
  have hmem : b ∈ editedBlocks L.lower confdata lastOnly ∧ (∀ x ∈ b.earlier, iniTrimEnd x ≠ []) ∧
      editServerValue b.line edit (b.earlier ≠ []) = some t := by
    unfold rewriteOf at hsome
    split at hsome
    · rename_i hedited
      exact ⟨of_decide_eq_true hedited.1, hedited.2, hsome⟩
    · cases hsome
  refine ⟨hmem.1, (h b hmem.1).resolve_right fun huntouched => ?_⟩
  obtain ⟨key, value, hr, -⟩ := reading_of_mem_serverBlocks ((editedBlocks_sublist lastOnly).subset hmem.1)
  have hvalid : b.reading L.lower ≠ .invalid := by
    rw [hr]
    nofun
  have hline : logicalLine confdata (b.start - 1) = (b.start - 1 + b.earlier.length, b.line) :=
    logicalLine_of_mem (cut_logicalLinesOf confdata) (List.nil_append confdata).symm rfl
      (mem_blocksOf_of_mem_editedBlocks hmem.1) hvalid hmem.2.1
  have hlist := huntouched.2
  rw [hline] at hlist
  rw [editServerValue_eq_none_iff.2 hlist] at hmem
  cases hmem.2.2

/-- What the engine reads from a block of the new file. -/
theorem reading_of_rewritten (hedit : AddsPlainNames edit) {b b' : Block} (hb : b ∈ blocksOf confdata)
    (hnew : rewriteOf edit (fun b => b ∈ editedBlocks L.lower confdata lastOnly) b = none ∧ b'.SameLines b ∨
      ∃ t, rewriteOf edit (fun b => b ∈ editedBlocks L.lower confdata lastOnly) b = some t ∧ b'.earlier = [] ∧
        b'.before = [] ∧ b'.physical = t) :
    (b'.reading L.lower = b.reading L.lower ∨
      ∃ key value value', b.reading L.lower = .entry key value ∧ b'.reading L.lower = .entry key value') ∧
      EditedEntry (editedEntries L.lower confdata lastOnly) edit (b.entry L.lower) (b'.entry L.lower) := by
  rcases hnew with ⟨hnone, hsame⟩ | ⟨t, hsome, -, hbefore, hphysical⟩
  · have hread : b'.reading L.lower = b.reading L.lower := hsame.reading_eq
    have hentry : (b'.entry L.lower).key = (b.entry L.lower).key ∧ (b'.entry L.lower).value = (b.entry L.lower).value := by
      simp only [Block.entry, hread]
      split <;> exact ⟨rfl, rfl⟩
    refine ⟨.inl hread, hentry.1, ?_⟩
    rw [if_neg]
    · exact hentry.2
    · rintro ⟨hedited, hchange⟩
      exact hchange (list_of_rewriteOf_none h ((entry_mem_editedEntries_iff hb).1 hedited) hnone)
  · obtain ⟨hedited, heditable⟩ := editable_of_rewriteOf h hsome
    obtain ⟨key, value, hr, hkey⟩ := reading_of_mem_serverBlocks ((editedBlocks_sublist lastOnly).subset hedited)
    obtain ⟨hfits, -, hchange, value', hread', hlist⟩ := exists_reading_rewriteOf hedit hr hkey heditable hsome
    have hr' : b'.reading L.lower = .entry key value' := by
      rw [Block.reading_of_fits (by rw [hbefore, hphysical]; exact hfits), Block.line, hbefore, hphysical]
      exact hread'
    refine ⟨.inr ⟨key, value, value', hr, hr'⟩, ?_⟩
    have hmem := (entry_mem_editedEntries_iff hb).2 hedited
    rw [Block.entry_eq hr] at hmem ⊢
    rw [Block.entry_eq hr']
    exact ⟨rfl, (if_pos ⟨hmem, hchange⟩).mpr hlist⟩

end edited

end edit

/-- What an edit makes of a block: nothing, or a line of its own. -/
def BlockRewritten (f : Block → Option Text) (b b' : Block) : Prop :=
  f b = none ∧ b'.SameLines b ∨ ∃ t, f b = some t ∧ b'.earlier = [] ∧ b'.before = [] ∧ b'.physical = t

section blocks

variable {L : LowerCase} {confdata : List Text} {edit : List Text → List Text} {lastOnly : Bool}
  (hvalid : (parseConfText L.lower confdata).syntaxErrors = [])
  (h : ∀ b ∈ editedBlocks L.lower confdata lastOnly, ListEditable edit b ∨ Untouched L.lower confdata edit b)

theorem valid_of_mem_blocks {lower : Text → Text} {confdata : List Text}
    (hvalid : (parseConfText lower confdata).syntaxErrors = []) {b : Block} (hb : b ∈ blocksOf confdata) :
    b.reading lower ≠ .invalid :=
  (parseConfText_syntaxErrors _).1 hvalid b.logical (by rw [logicalLinesOf_eq]; exact List.mem_map_of_mem hb)

include hvalid h

/-- The lines of some blocks are rewritten, or of none, where the file is returned as it is. -/
theorem exists_rewritten :
    ∃ lines, Rewritten (rewriteOf edit fun b => b ∈ editedBlocks L.lower confdata lastOnly) 1 confdata lines ∧
      (editServerList L.lower confdata edit lastOnly = some lines ∧
          (∃ b ∈ blocksOf confdata, rewriteOf edit (fun b => b ∈ editedBlocks L.lower confdata lastOnly) b ≠ none) ∨
        editServerList L.lower confdata edit lastOnly = none ∧ lines = confdata ∧
          ∀ b ∈ blocksOf confdata, rewriteOf edit (fun b => b ∈ editedBlocks L.lower confdata lastOnly) b = none) := by
  have hread : ∀ b ∈ blocksOf confdata, decide (b ∈ editedBlocks L.lower confdata lastOnly) = true →
      b.reading L.lower ≠ .invalid ∧ ((∀ x ∈ b.earlier, iniTrimEnd x ≠ []) ∨
        edit (listOf (logicalLine confdata (b.start - 1)).2) = listOf (logicalLine confdata (b.start - 1)).2) :=
    fun b hb hedited =>
      ⟨valid_of_mem_blocks hvalid hb, (h b (of_decide_eq_true hedited)).imp ListEditable.joined And.right⟩
  have hresult : editServerList L.lower confdata edit lastOnly =
      (((blocksOf confdata).filter fun b => b ∈ editedBlocks L.lower confdata lastOnly).map
        (Block.entry L.lower)).foldr (fun entry updated => editEntry confdata edit updated entry) none := by
    rw [editServerList, List.foldl_reverse, editedEntries_eq, ← editedBlocks_eq_filter]
  obtain ⟨lines, hlines, hfold⟩ := foldr_editEntry (cut_logicalLinesOf confdata) (List.nil_append confdata).symm rfl hread
  refine ⟨lines, hlines, ?_⟩
  rw [hresult]
  exact hfold

/-- The blocks of the file that the edit returns. -/
theorem forall₂_blocks_edit (hedit : AddsPlainNames edit) :
    List.Forall₂ (BlockRewritten (rewriteOf edit fun b => b ∈ editedBlocks L.lower confdata lastOnly))
      (blocksOf confdata) (blocksOf ((editServerList L.lower confdata edit lastOnly).getD confdata)) := by
  obtain ⟨lines, hlines, hfold⟩ := exists_rewritten hvalid h
  have hstop : ∀ b ∈ blocksOf confdata, ∀ t,
      rewriteOf edit (fun b => b ∈ editedBlocks L.lower confdata lastOnly) b = some t → goesOn [] t = false := by
    intro b _ t hsome
    obtain ⟨hedited, heditable⟩ := editable_of_rewriteOf h hsome
    obtain ⟨key, value, hr, hkey⟩ := reading_of_mem_serverBlocks ((editedBlocks_sublist lastOnly).subset hedited)
    exact (exists_reading_rewriteOf hedit hr hkey heditable hsome).2.1
  have hgetD : (editServerList L.lower confdata edit lastOnly).getD confdata = lines := by
    rcases hfold with ⟨hsome, -⟩ | ⟨hnone, heq, -⟩
    · rw [hsome, Option.getD_some]
    · rw [hnone, Option.getD_none, heq]
  rw [hgetD]
  exact hlines.forall₂_blocksFrom hstop 1

end blocks

theorem isServerListEdit_of_editable (L : LowerCase) (confdata : List Text) (edit : List Text → List Text)
    (lastOnly : Bool) (hvalid : (parseConfText L.lower confdata).syntaxErrors = []) (hedit : AddsPlainNames edit)
    (h : ∀ b ∈ editedBlocks L.lower confdata lastOnly, ListEditable edit b ∨ Untouched L.lower confdata edit b) :
    IsServerListEdit L.lower confdata edit lastOnly (editServerList L.lower confdata edit lastOnly) := by
  obtain ⟨lines, -, hfold⟩ := exists_rewritten hvalid h
  have hmatches : Matches L.lower (fun _ => false) (fun _ b b' => EditedEntry (editedEntries L.lower confdata lastOnly)
      edit (b.entry L.lower) (b'.entry L.lower)) none (blocksOf confdata)
      (blocksOf ((editServerList L.lower confdata edit lastOnly).getD confdata)) := by
    refine matches_of_forall₂ (forall₂_blocks_edit hvalid h hedit) none fun b hb b' hnew => ?_
    obtain ⟨hread, hentry⟩ := reading_of_rewritten h hedit hb hnew
    exact ⟨valid_of_mem_blocks hvalid hb, hread, fun _ => hentry⟩
  refine ⟨?_, ?_, ?_⟩
  · have hedited : ∀ e ∈ editedEntries L.lower confdata lastOnly, ∃ b ∈ editedBlocks L.lower confdata lastOnly,
        b.entry L.lower = e := by
      intro e he
      rw [editedEntries_eq] at he
      exact List.mem_map.1 he
    constructor
    · intro hnone e he
      obtain ⟨b, hb, rfl⟩ := hedited e he
      rcases hfold with ⟨hsome, -⟩ | ⟨-, -, hsame⟩
      · cases hsome.symm.trans hnone
      · exact list_of_rewriteOf_none h hb (hsame b (mem_blocksOf_of_mem_editedBlocks hb))
    · intro hsame
      rcases hfold with ⟨-, b, hb, hchange⟩ | ⟨hnone, -⟩
      · obtain ⟨t, hsome⟩ := Option.ne_none_iff_exists'.1 hchange
        obtain ⟨hmem, heditable⟩ := editable_of_rewriteOf h hsome
        obtain ⟨key, value, hr, hkey⟩ := reading_of_mem_serverBlocks ((editedBlocks_sublist lastOnly).subset hmem)
        have hlist := hsame _ ((entry_mem_editedEntries_iff hb).2 hmem)
        rw [Block.entry_eq hr] at hlist
        exact absurd hlist (exists_reading_rewriteOf hedit hr hkey heditable hsome).2.2.1
      · exact hnone
  · exact hmatches.syntaxErrors
  · have hsections := hmatches.sections (R := fun _ => EditedEntry (editedEntries L.lower confdata lastOnly) edit)
      fun _ _ _ hq => hq
    rwa [List.filter_eq_self.2 fun s _ => by cases s.name <;> rfl] at hsections

/-- `editServerList` changes the lists that the edit changes and nothing else, as the engine reads the file, where it
reads and writes each list that it changes as the engine does. -/
theorem editServerList_engine (L : LowerCase) (confdata : List Text) (edit : List Text → List Text) (lastOnly : Bool)
    (hvalid : (parseConfText L.lower confdata).syntaxErrors = []) (hedit : AddsPlainNames edit)
    (h : ∀ b ∈ editedBlocks L.lower confdata lastOnly, ListEditable edit b ∨ Untouched L.lower confdata edit b) :
    IsServerListEdit L.lower confdata edit lastOnly (editServerList L.lower confdata edit lastOnly) :=
  isServerListEdit_of_editable L confdata edit lastOnly hvalid hedit h

theorem addsPlainNames_filter (p : Text → Bool) : AddsPlainNames fun names => names.filter p :=
  fun _ _ hname => .inl (List.mem_of_mem_filter hname)

/-- A list in quotes that goes on over two lines. -/
def quotedConf : List Text := ["[service]".toList, "server=\"a,\\".toList, "  b\" # two".toList]

theorem editServerList_engine_quoted :
    editServerList asciiLower.lower quotedConf (fun names => names.filter (· ≠ "a".toList)) false =
      some ["[service]".toList, "server=\"b\" # two".toList] ∧
    IsServerListEdit asciiLower.lower quotedConf (fun names => names.filter (· ≠ "a".toList)) false
      (editServerList asciiLower.lower quotedConf (fun names => names.filter (· ≠ "a".toList)) false) := by
  have hblocks : editedBlocks asciiLower.lower quotedConf false =
      [⟨2, ["server=\"a,\\".toList], "server=\"a,".toList, "  b\" # two".toList⟩] := by decide
  refine ⟨by decide, editServerList_engine asciiLower quotedConf _ false (by decide) (addsPlainNames_filter _) ?_⟩
  intro b hb
  rw [hblocks] at hb
  obtain rfl := List.mem_singleton.1 hb
  exact .inl ⟨by decide, by decide, fun _ => ⟨by decide, by decide, by decide, by decide⟩⟩

/-- What follows the quotes is read with them once they are empty. -/
theorem editServerList_engine_fails :
    ¬ ∀ (confdata : List Text) (edit : List Text → List Text) (lastOnly : Bool),
      (parseConfText asciiLower.lower confdata).syntaxErrors = [] → AddsPlainNames edit →
        IsServerListEdit asciiLower.lower confdata edit lastOnly
          (editServerList asciiLower.lower confdata edit lastOnly) := by
  intro h
  have hedit := h ["[service]".toList, "server=\"a\" junk".toList] (fun names => names.filter (· ≠ "a".toList)) false
    (by decide) (addsPlainNames_filter _)
  have hold : (parseConfText asciiLower.lower ["[service]".toList, "server=\"a\" junk".toList]).sections =
      [⟨some "service".toList, some 1, [⟨"server".toList, "a".toList, 2⟩]⟩] := by decide
  have hnew : (parseConfText asciiLower.lower ((editServerList asciiLower.lower
      ["[service]".toList, "server=\"a\" junk".toList] (fun names => names.filter (· ≠ "a".toList)) false).getD
        ["[service]".toList, "server=\"a\" junk".toList])).sections =
      [⟨some "service".toList, some 1, [⟨"server".toList, "\"\" junk".toList, 2⟩]⟩] := by decide
  have hsections := hedit.sections
  rw [hold, hnew] at hsections
  obtain ⟨-, hentries⟩ := (List.forall₂_cons.1 hsections).1
  obtain ⟨-, hlist⟩ := (List.forall₂_cons.1 hentries).1
  rw [if_pos (by decide)] at hlist
  exact absurd hlist (by decide)

end CubridWebManager.Conf
