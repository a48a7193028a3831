import CubridWebManager.Conf.CubridConfEdit
import CubridWebManager.Conf.LogicalLines
import CubridWebManager.Lib.SepList

/-!
# The value of a `server=` line

What the engine reads after the `=` of a line (`readLine_assign`), and the text that `editServerValue` takes for the
value (`spanOf`).  The text is plain up to a comment or in quotes (`SpanForm`), and `ReadAsValue` says when the engine
reads the names in it from the line.
-/

namespace CubridWebManager.Conf

/-! ### An assignment, as the engine reads it -/

/-- The value in the text after the `=` of a line. -/
def assignedValue (rest : Text) : Text := entryValue (rawValue (iniTrim rest))

theorem iniTrim_assign (key rest : Text) :
    iniTrim (key ++ '=' :: rest) = key.dropWhile isIniSpace ++ '=' :: iniTrimEnd rest := by
  have hfront : (key ++ '=' :: rest).dropWhile isIniSpace = key.dropWhile isIniSpace ++ '=' :: rest := by
    obtain ⟨w, hw, heq⟩ := Trim.exists_dropWhile_parts isIniSpace key
    conv_lhs => rw [heq, List.append_assoc, Trim.dropWhile_append_all hw]
    refine Trim.dropWhile_of_head fun c hc => ?_
    cases hkey : key.dropWhile isIniSpace with
    | nil =>
      rw [hkey] at hc
      obtain rfl := Option.some.inj hc
      rfl
    | cons d t =>
      rw [hkey] at hc
      obtain rfl := Option.some.inj hc
      exact Trim.head_dropWhile (l := key) (by rw [hkey]; rfl)
  have hend : ('=' :: rest).rdropWhile isIniSpace = '=' :: iniTrimEnd rest := by
    cases hrest : rest.rdropWhile isIniSpace with
    | nil =>
      have hall : Trim.All isIniSpace rest := List.rdropWhile_eq_nil_iff.1 hrest
      have hlast : ['='].rdropWhile isIniSpace = ['='] := rfl
      rw [iniTrimEnd, hrest, ← List.singleton_append, Trim.rdropWhile_append_all hall, hlast]
    | cons c t =>
      rw [iniTrimEnd, hrest, ← hrest, ← List.singleton_append, ← List.singleton_append]
      exact Trim.rdropWhile_append_of_ne_nil _ (by rw [hrest]; exact List.cons_ne_nil c t)
  have hne : ('=' :: rest).rdropWhile isIniSpace ≠ [] := by
    rw [hend]
    exact List.cons_ne_nil _ _
  rw [iniTrim, hfront, iniTrimEnd, Trim.rdropWhile_append_of_ne_nil _ hne, hend]

theorem dropWhile_iniTrimEnd (t : Text) : (iniTrimEnd t).dropWhile isIniSpace = iniTrim t := by
  obtain ⟨w, hw, heq⟩ := Trim.exists_rdropWhile_parts isIniSpace t
  have htrim : iniTrim t = iniTrim (iniTrimEnd t) := by
    conv_lhs => rw [heq, iniTrim_eq, Trim.trim_append_right _ hw]
    rfl
  rw [htrim, iniTrim]
  refine (Trim.rdropWhile_of_last fun c hc => ?_).symm
  obtain ⟨v, -, hv⟩ := Trim.exists_dropWhile_parts isIniSpace (iniTrimEnd t)
  refine Trim.last_rdropWhile (l := t) ?_
  change c ∈ (iniTrimEnd t).getLast?
  have hne : (iniTrimEnd t).dropWhile isIniSpace ≠ [] := by
    intro hnil
    rw [hnil] at hc
    cases hc
  rw [hv, List.getLast?_append_of_ne_nil _ hne]
  exact hc

section assign

variable {lower : Text → Text} {key rest t value : Text}

theorem parseKeyValue_assign (hkey : '=' ∉ key) (hne : key ≠ []) (rest : Text) :
    parseKeyValue (key ++ '=' :: rest) = some (key, rawValue (rest.dropWhile isIniSpace)) := by
  have htake : (key ++ '=' :: rest).takeWhile (· ≠ '=') = key := by
    refine Trim.takeWhile_append_all (fun c hc => ?_) (by rintro c ⟨⟩; rfl)
    exact decide_eq_true fun heq => hkey (heq ▸ hc)
  have hdrop : (key ++ '=' :: rest).dropWhile (· ≠ '=') = '=' :: rest := by
    rw [Trim.dropWhile_append_all]
    · exact Trim.dropWhile_of_head (by rintro c ⟨⟩; rfl)
    · exact fun c hc => decide_eq_true fun heq => hkey (heq ▸ hc)
  have hhead : (key ++ '=' :: rest).head? ≠ some '=' := by
    rw [List.head?_append_of_ne_nil _ hne]
    exact fun heq => hkey (List.mem_of_mem_head? heq)
  rw [parseKeyValue, if_pos ⟨by simp, hhead⟩, htake, afterEq, hdrop, List.tail_cons]

/-- What the engine reads from an assignment that is no comment and no header. -/
theorem readLine_assign (hkey : '=' ∉ key) (hne : iniTrim key ≠ []) (hcomment : (iniTrim key).head? ≠ some '#')
    (hheader : (iniTrim key).head? ≠ some '[') (rest : Text) :
    readLine lower (key ++ '=' :: rest) = .entry (iniTrim key) (assignedValue rest) := by
  have hfront : key.dropWhile isIniSpace ≠ [] := fun hnil => hne (by rw [iniTrim, hnil]; rfl)
  have hhead : (key.dropWhile isIniSpace).head? = (iniTrim key).head? := by
    obtain ⟨w, -, heq⟩ := Trim.exists_rdropWhile_parts isIniSpace (key.dropWhile isIniSpace)
    conv_lhs => rw [heq]
    exact List.head?_append_of_ne_nil _ hne
  have hkey' : '=' ∉ key.dropWhile isIniSpace := fun hmem => hkey ((List.dropWhile_suffix _).subset hmem)
  have hline : (key.dropWhile isIniSpace ++ '=' :: iniTrimEnd rest).head? = (iniTrim key).head? := by
    rw [List.head?_append_of_ne_nil _ hfront, hhead]
  have htrim : iniTrim (key.dropWhile isIniSpace) = iniTrim key := by
    rw [iniTrim, Trim.dropWhile_of_head fun c hc => Trim.head_dropWhile hc]
    rfl
  have hblank : ¬ (key.dropWhile isIniSpace ++ '=' :: iniTrimEnd rest = [] ∨ (iniTrim key).head? = some '#') := by
    simp [hcomment]
  simp only [readLine, iniTrim_assign, hline]
  rw [if_neg hblank, if_neg fun h => hheader h.1, parseKeyValue_assign hkey' hfront]
  simp only [htrim, assignedValue, dropWhile_iniTrimEnd]

/-- What the engine reads as an entry is an assignment. -/
theorem exists_assign (h : readLine lower t = .entry key value) : ∃ k rest, t = k ++ '=' :: rest ∧ '=' ∉ k ∧
    iniTrim k = key ∧ key ≠ [] ∧ key.head? ≠ some '#' ∧ value = assignedValue rest := by
  simp only [readLine] at h
  split at h
  · cases h
  rename_i hblank
  split at h
  · split at h <;> cases h
  have hparse : ∃ k v, parseKeyValue (iniTrim t) = some (k, v) ∧ iniTrim k = key ∧ entryValue v = value := by
    split at h
    · cases h
    · rename_i k v hkv
      obtain ⟨rfl, rfl⟩ := Reading.entry.inj h
      exact ⟨k, v, hkv, rfl, rfl⟩
  obtain ⟨k, v, hkv, rfl, rfl⟩ := hparse
  have heq : '=' ∈ iniTrim t ∧ (iniTrim t).head? ≠ some '=' := by
    by_contra hno
    rw [parseKeyValue, if_neg hno] at hkv
    cases hkv
  obtain ⟨name, rest, rfl, hname⟩ := List.eq_append_cons_of_mem (Trim.mem_of_mem_trim heq.1)
  rw [iniTrim_assign] at hkv heq hblank
  have hfront : name.dropWhile isIniSpace ≠ [] := by
    intro hnil
    rw [hnil] at heq
    exact heq.2 rfl
  have hname' : '=' ∉ name.dropWhile isIniSpace := fun hmem => hname ((List.dropWhile_suffix _).subset hmem)
  rw [parseKeyValue_assign hname' hfront] at hkv
  obtain ⟨rfl, rfl⟩ := Prod.mk.inj (Option.some.inj hkv)
  have htrim : iniTrim (name.dropWhile isIniSpace) = iniTrim name := by
    rw [iniTrim, Trim.dropWhile_of_head fun c hc => Trim.head_dropWhile hc]
    rfl
  have hne : iniTrim name ≠ [] := by
    intro hnil
    obtain ⟨c, s, hcons⟩ := List.exists_cons_of_ne_nil hfront
    have hall := Trim.all_of_trim_eq_nil hnil
    have hc : isIniSpace c = false := Trim.head_dropWhile (l := name) (by rw [hcons]; rfl)
    rw [hall c ((List.dropWhile_suffix _).subset (hcons ▸ List.mem_cons_self))] at hc
    cases hc
  have hhead : (name.dropWhile isIniSpace).head? = (iniTrim name).head? := by
    obtain ⟨w, -, hparts⟩ := Trim.exists_rdropWhile_parts isIniSpace (name.dropWhile isIniSpace)
    conv_lhs => rw [hparts]
    exact List.head?_append_of_ne_nil _ hne
  refine ⟨name, rest, rfl, hname, htrim.symm, htrim ▸ hne, fun hhash => hblank (.inr ?_), ?_⟩
  · rw [List.head?_append_of_ne_nil _ hfront, hhead, ← htrim]
    exact hhash
  · rw [assignedValue, dropWhile_iniTrimEnd]

end assign

/-! ### The names in a text -/

theorem isSpace_comma : Text.isSpace ',' = false := rfl

theorem isSpace_of_isQuote {c : Char} (h : isQuote c = true) : Text.isSpace c = false := by
  simp only [isQuote, Bool.or_eq_true, decide_eq_true_eq] at h
  rcases h with rfl | rfl <;> rfl

theorem isIniSpace_of_isQuote {c : Char} (h : isQuote c = true) : isIniSpace c = false := by
  by_contra hspace
  rw [Bool.not_eq_false] at hspace
  have hjs := isSpace_of_isIniSpace hspace
  rw [isSpace_of_isQuote h] at hjs
  cases hjs

theorem isComment_of_isIniSpace {c : Char} (h : isIniSpace c = true) : isComment c = false := by
  simp only [isIniSpace, Bool.or_eq_true, decide_eq_true_eq] at h
  rcases h with ((((rfl | rfl) | rfl) | rfl) | rfl) | rfl <;> rfl

theorem listNames_eq (value : Text) : listNames value = SepList.items ',' Text.isSpace value := rfl

theorem tokenNames_listTokens (value : Text) : tokenNames (listTokens value) = listNames value := by
  have htrim : listNames (Text.trim value) = listNames value :=
    SepList.items_trim isSpace_comma (fun _ hx => hx) value
  unfold listTokens
  split
  · rename_i hnil
    rw [← htrim, hnil]
    rfl
  · exact htrim

theorem listNames_iniTrim (value : Text) : listNames (iniTrim value) = listNames value :=
  SepList.items_trim isSpace_comma (fun _ hx => isSpace_of_isIniSpace hx) value

theorem listNames_of_all {value : Text} (h : Trim.All isIniSpace value) : listNames value = [] :=
  SepList.items_of_all isSpace_comma (h.mono fun _ hx => isSpace_of_isIniSpace hx)

theorem iniTrimEnd_append {s : Text} (hbare : Trim.Bare isIniSpace s) (t : Text) :
    iniTrimEnd (s ++ t) = s ++ iniTrimEnd t := by
  by_cases hnil : iniTrimEnd t = []
  · rw [hnil, List.append_nil, iniTrimEnd, Trim.rdropWhile_append_all (List.rdropWhile_eq_nil_iff.1 hnil),
      Trim.rdropWhile_of_last hbare.2]
  · exact Trim.rdropWhile_append_of_ne_nil s hnil

/-! ### What is taken for the value -/

/-- `valueSpan` of the text after the `=`. -/
def spanOf (rest : Text) : ValueSpan :=
  let spaces := rest.takeWhile isIniSpace
  match rest.dropWhile isIniSpace with
  | [] => ⟨spaces, [], []⟩
  | c :: tail =>
    if isQuote c then ⟨spaces ++ [c], tail.takeWhile (· ≠ c), tail.dropWhile (· ≠ c)⟩
    else ⟨spaces, (c :: tail).takeWhile fun c => !isComment c, (c :: tail).dropWhile fun c => !isComment c⟩

theorem valueSpan_assign {key : Text} (hkey : '=' ∉ key) (rest : Text) :
    valueSpan (key ++ '=' :: rest) =
      ⟨key ++ '=' :: (spanOf rest).before, (spanOf rest).value, (spanOf rest).after⟩ := by
  have htake : (key ++ '=' :: rest).takeWhile (· ≠ '=') = key := by
    refine Trim.takeWhile_append_all (fun c hc => ?_) (by rintro c ⟨⟩; rfl)
    exact decide_eq_true fun heq => hkey (heq ▸ hc)
  have hdrop : (key ++ '=' :: rest).drop (key ++ ['=']).length = rest := by
    have hsplit : key ++ '=' :: rest = (key ++ ['=']) ++ rest := by simp
    rw [hsplit, List.drop_left]
  unfold valueSpan spanOf
  simp only [htake, if_pos (show '=' ∈ key ++ '=' :: rest by simp), hdrop]
  cases rest.dropWhile isIniSpace with
  | nil => simp
  | cons c tail =>
    by_cases hquote : isQuote c = true
    · simp [hquote]
    · simp [hquote]

/-- A text after `=` around its value. -/
inductive SpanForm : ValueSpan → Prop
  | plain {spaces value after : Text} (hspaces : Trim.All isIniSpace spaces)
    (hvalue : ∀ c ∈ value, isComment c = false) (hafter : ∀ c ∈ after.head?, isComment c = true)
    (hstart : ∀ c ∈ value.head?, isIniSpace c = false ∧ isQuote c = false) : SpanForm ⟨spaces, value, after⟩
  | quoted {spaces value after : Text} {quote : Char} (hspaces : Trim.All isIniSpace spaces)
    (hquote : isQuote quote = true) (hvalue : quote ∉ value) (hafter : ∀ c ∈ after.head?, c = quote) :
    SpanForm ⟨spaces ++ [quote], value, after⟩

theorem spanForm_spanOf (rest : Text) : SpanForm (spanOf rest) := by
  have hspaces : Trim.All isIniSpace (rest.takeWhile isIniSpace) := fun c hc => List.mem_takeWhile_imp hc
  unfold spanOf
  split
  · exact .plain hspaces (fun c hc => absurd hc List.not_mem_nil) nofun nofun
  · rename_i c tail hrest
    have hc : isIniSpace c = false := Trim.head_dropWhile (l := rest) (by rw [hrest]; rfl)
    split
    · rename_i hquote
      refine .quoted hspaces hquote (fun hmem => ?_) fun d hd => ?_
      · have hne := List.mem_takeWhile_imp hmem
        simp at hne
      · have hstop := Trim.head_dropWhile hd
        simpa using hstop
    · rename_i hquote
      refine .plain hspaces (fun d hd => by simpa using List.mem_takeWhile_imp hd)
        (fun d hd => by simpa using Trim.head_dropWhile hd) fun d hd => ?_
      rw [List.takeWhile_cons] at hd
      split at hd
      · obtain rfl := Option.some.inj hd
        exact ⟨hc, by simpa using hquote⟩
      · cases hd

theorem spanOf_text (rest : Text) : (spanOf rest).before ++ (spanOf rest).value ++ (spanOf rest).after = rest := by
  have hrest := List.takeWhile_append_dropWhile (p := isIniSpace) (l := rest)
  unfold spanOf
  split
  · rename_i hnil
    rw [hnil] at hrest
    simpa using hrest
  · rename_i c tail hcons
    rw [hcons] at hrest
    conv_rhs => rw [← hrest]
    split
    · simp [List.takeWhile_append_dropWhile]
    · simp only [List.append_assoc, List.takeWhile_append_dropWhile]

/-! ### The names that the engine reads -/

/-- `""` or `''`, which the engine reads as an empty value. -/
def isQuotePair (t : Text) : Prop := t = ['\x22', '\x22'] ∨ t = ['\x27', '\x27']

instance (t : Text) : Decidable (isQuotePair t) := inferInstanceAs (Decidable (_ ∨ _))

theorem entryValue_eq (raw : Text) : entryValue raw = if isQuotePair (iniTrim raw) then [] else iniTrim raw := rfl

/-- The engine takes the text in quotes for the value: it is not itself a pair of quotes, the closing quote is not missed
where there is nothing to read before it, and empty quotes are followed by a comment or by nothing. -/
def QuotesRead (value after : Text) : Prop :=
  ¬ isQuotePair (iniTrim value) ∧
    if after = [] then ¬ Trim.All isIniSpace value
    else value = [] → Trim.All isIniSpace (after.tail.takeWhile fun c => !isComment c)

instance (value after : Text) : Decidable (QuotesRead value after) := by
  unfold QuotesRead
  split <;> infer_instance

theorem rawValue_cons {c : Char} (hc : isQuote c = false) (t : Text) :
    rawValue (c :: t) = (c :: t).takeWhile fun c => !isComment c := by
  simp [rawValue, hc]

theorem mem_takeWhile_append {p : Char → Bool} {s : Text} {c : Char} (h : c ∈ s.takeWhile p) (t : Text) :
    c ∈ (s ++ t).takeWhile p := by
  induction s with
  | nil => cases h
  | cons d s ih =>
    rw [List.takeWhile_cons] at h
    split at h
    · rename_i hd
      rw [List.cons_append, List.takeWhile_cons_of_pos hd]
      rcases List.mem_cons.1 h with rfl | h
      · exact List.mem_cons_self
      · exact List.mem_cons_of_mem _ (ih h)
    · cases h

theorem all_takeWhile_iniTrimEnd (t : Text) :
    Trim.All isIniSpace ((iniTrimEnd t).takeWhile fun c => !isComment c) ↔
      Trim.All isIniSpace (t.takeWhile fun c => !isComment c) := by
  obtain ⟨w, hw, heq⟩ := Trim.exists_rdropWhile_parts isIniSpace t
  constructor
  · intro h c hc
    rw [heq, List.takeWhile_append] at hc
    split at hc
    · rename_i hlength
      rcases List.mem_append.1 hc with hc | hc
      · refine h c ?_
        rwa [iniTrimEnd, (List.takeWhile_prefix _).eq_of_length hlength]
      · exact hw c ((List.takeWhile_prefix _).subset hc)
    · exact h c hc
  · intro h c hc
    refine h c ?_
    rw [heq]
    exact mem_takeWhile_append hc w

section names

variable {spaces value after : Text}

/-- From a value that is plain the engine reads its names. -/
theorem listNames_assigned_plain (hspaces : Trim.All isIniSpace spaces) (hvalue : ∀ c ∈ value, isComment c = false)
    (hafter : ∀ c ∈ after.head?, isComment c = true) (hfirst : ∀ c ∈ (iniTrim value).head?, isQuote c = false) :
    listNames (assignedValue (spaces ++ value ++ after)) = listNames value := by
  have hskip : iniTrim (spaces ++ value ++ after) = iniTrim (value ++ after) := by
    rw [List.append_assoc]
    exact Trim.trim_append_left hspaces _
  rw [assignedValue, hskip]
  by_cases hblank : Trim.All isIniSpace value
  · have htrim : iniTrim (value ++ after) = iniTrim after := Trim.trim_append_left hblank _
    rw [htrim, listNames_of_all hblank]
    cases after with
    | nil => rfl
    | cons d after =>
      have hd := hafter d rfl
      have hd' : isIniSpace d = false := by
        by_contra hspace
        rw [Bool.not_eq_false] at hspace
        rw [isComment_of_isIniSpace hspace] at hd
        cases hd
      have hquote : isQuote d = false := by
        simp only [isComment, Bool.or_eq_true, decide_eq_true_eq] at hd
        rcases hd with rfl | rfl <;> rfl
      obtain ⟨t, ht⟩ := List.head?_eq_some_iff.1 (Trim.head_trim_cons hd' after)
      rw [iniTrim_eq, ht, rawValue_cons hquote, List.takeWhile_cons_of_neg (by simp [hd])]
      rfl
  · obtain ⟨u, u', hu, hu', hparts⟩ := Trim.exists_trim_parts isIniSpace value
    have hne : iniTrim value ≠ [] := fun hnil => hblank (Trim.all_of_trim_eq_nil hnil)
    have hbare : Trim.Bare isIniSpace (iniTrim value) := Trim.bare_trim _ _
    obtain ⟨c, v, hcons⟩ := List.exists_cons_of_ne_nil hne
    have htrim : iniTrim (value ++ after) = iniTrim value ++ iniTrimEnd (u' ++ after) := by
      have hsplit : value ++ after = u ++ (iniTrim value ++ (u' ++ after)) := by
        conv_lhs => rw [hparts]
        simp [iniTrim_eq]
      rw [hsplit, iniTrim_eq, Trim.trim_append_left hu, ← iniTrim_eq, iniTrim, Trim.dropWhile_of_head]
      · exact iniTrimEnd_append hbare _
      · intro d hd
        rw [List.head?_append_of_ne_nil _ hne] at hd
        exact hbare.1 d hd
    -- up to a comment there are only spaces after the value
    have htail : Trim.All isIniSpace ((iniTrimEnd (u' ++ after)).takeWhile fun c => !isComment c) := by
      intro d hd
      obtain ⟨w, -, heq⟩ := Trim.exists_rdropWhile_parts isIniSpace (u' ++ after)
      have hmem : d ∈ (u' ++ after).takeWhile fun c => !isComment c := by
        rw [heq]
        exact mem_takeWhile_append hd w
      rw [Trim.takeWhile_append_all (fun x hx => by simp [isComment_of_isIniSpace (hu' x hx)])
        fun x hx => by simp [hafter x hx]] at hmem
      exact hu' d hmem
    have hquote : isQuote c = false := hfirst c (by rw [hcons]; rfl)
    have hraw : rawValue (iniTrim (value ++ after)) =
        iniTrim value ++ (iniTrimEnd (u' ++ after)).takeWhile fun c => !isComment c := by
      have hvalue' : ∀ d ∈ iniTrim value, (!isComment d) = true := fun d hd => by simp [hvalue d (Trim.mem_of_mem_trim hd)]
      rw [htrim, ← List.takeWhile_append_of_pos hvalue', hcons]
      exact rawValue_cons hquote _
    have hentry : entryValue (rawValue (iniTrim (value ++ after))) = iniTrim value := by
      have hpair : ¬ isQuotePair (iniTrim value) := by
        rw [hcons]
        rintro (heq | heq)
        · rw [(List.cons.inj heq).1] at hquote
          cases hquote
        · rw [(List.cons.inj heq).1] at hquote
          cases hquote
      have hiniTrim : iniTrim (iniTrim value ++ (iniTrimEnd (u' ++ after)).takeWhile fun c => !isComment c) =
          iniTrim value := by
        rw [iniTrim_eq, Trim.trim_append_right _ htail]
        exact Trim.trim_of_bare hbare
      rw [hraw, entryValue_eq, hiniTrim, if_neg hpair]
    rw [hentry, listNames_iniTrim]

/-- From a value in quotes the engine reads its names just if it takes it for the value. -/
theorem listNames_assigned_quoted_iff {quote : Char} (hspaces : Trim.All isIniSpace spaces) (hquote : isQuote quote = true)
    (hvalue : quote ∉ value) (hafter : ∀ c ∈ after.head?, c = quote) :
    listNames (assignedValue (spaces ++ [quote] ++ value ++ after)) = listNames value ↔ QuotesRead value after := by
  have hbare : Trim.Bare isIniSpace [quote] := by
    constructor <;>
    · rintro c ⟨⟩
      exact isIniSpace_of_isQuote hquote
  have htrim : ∀ t : Text, iniTrim (quote :: t) = quote :: iniTrimEnd t := by
    intro t
    rw [iniTrim, Trim.dropWhile_of_head (by rintro c ⟨⟩; exact isIniSpace_of_isQuote hquote)]
    exact iniTrimEnd_append hbare t
  have hskip : iniTrim (spaces ++ [quote] ++ value ++ after) = quote :: iniTrimEnd (value ++ after) := by
    have hsplit : spaces ++ [quote] ++ value ++ after = spaces ++ (quote :: (value ++ after)) := by simp
    rw [hsplit, iniTrim_eq, Trim.trim_append_left hspaces, ← iniTrim_eq, htrim]
  have hcomment : isComment quote = false := by
    simp only [isQuote, Bool.or_eq_true, decide_eq_true_eq] at hquote
    rcases hquote with rfl | rfl <;> rfl
  -- the text in quotes is read
  have hread : ∀ raw : Text, iniTrim raw = iniTrim value →
      (listNames (entryValue raw) = listNames value ↔ ¬ isQuotePair (iniTrim value)) := by
    intro raw hraw
    rw [entryValue_eq, hraw]
    split
    · rename_i hpair
      refine iff_of_false (fun heq => ?_) (not_not_intro hpair)
      have hnil : listNames (iniTrim value) = [] := (listNames_iniTrim value).trans heq.symm
      rcases hpair with hpair | hpair <;> rw [hpair] at hnil <;> exact absurd hnil (by decide)
    · rename_i hpair
      exact iff_of_true (listNames_iniTrim value) hpair
  -- the quotes are read, too
  have hquotes : ∀ t : Text, listNames (entryValue (quote :: t)) = [] ↔ iniTrimEnd t = [quote] := by
    intro t
    have hpair : isQuotePair (quote :: iniTrimEnd t) ↔ iniTrimEnd t = [quote] := by
      simp only [isQuote, Bool.or_eq_true, decide_eq_true_eq] at hquote
      rcases hquote with rfl | rfl <;> simp [isQuotePair]
    rw [entryValue_eq, htrim]
    split
    · rename_i h
      exact iff_of_true rfl (hpair.1 h)
    · rename_i h
      refine iff_of_false ?_ (mt hpair.2 h)
      exact SepList.items_ne_nil List.mem_cons_self (by rintro rfl; cases hquote) (isSpace_of_isQuote hquote)
  rw [assignedValue, hskip]
  cases after with
  | nil =>
    have htake : (iniTrimEnd value).takeWhile (· ≠ quote) = iniTrimEnd value := by
      refine List.takeWhile_eq_self_iff.2 fun c hc => decide_eq_true fun heq => hvalue ?_
      obtain ⟨w, -, hparts⟩ := Trim.exists_rdropWhile_parts isIniSpace value
      rw [hparts]
      exact List.mem_append_left _ (heq ▸ hc)
    simp only [QuotesRead, List.append_nil, rawValue, hquote, htake, true_and, ↓reduceIte]
    by_cases hblank : Trim.All isIniSpace value
    · have hnil : iniTrimEnd value = [] := Trim.rdropWhile_eq_nil hblank
      refine iff_of_false ?_ fun h => h.2 hblank
      rw [hnil, if_neg (not_not_intro rfl), listNames_of_all hblank, List.takeWhile_cons_of_pos (by simp [hcomment]),
        hquotes]
      simp [iniTrimEnd]
    · have hne : iniTrimEnd value ≠ [] := fun hnil => hblank (List.rdropWhile_eq_nil_iff.1 hnil)
      rw [if_pos hne, and_iff_left hblank]
      refine hread _ ?_
      obtain ⟨w, hw, hparts⟩ := Trim.exists_rdropWhile_parts isIniSpace value
      conv_rhs => rw [hparts, iniTrim_eq, Trim.trim_append_right _ hw]
      rfl
  | cons c r =>
    obtain rfl := hafter c rfl
    have hend : iniTrimEnd (value ++ c :: r) = value ++ c :: iniTrimEnd r := by
      have hclose : iniTrimEnd (c :: r) = c :: iniTrimEnd r := iniTrimEnd_append hbare r
      have hne : (c :: r).rdropWhile isIniSpace ≠ [] := by
        rw [← iniTrimEnd, hclose]
        exact List.cons_ne_nil _ _
      rw [iniTrimEnd, Trim.rdropWhile_append_of_ne_nil _ hne, ← iniTrimEnd, hclose]
    have htake : (value ++ c :: iniTrimEnd r).takeWhile (· ≠ c) = value := by
      refine Trim.takeWhile_append_all (fun d hd => decide_eq_true fun heq => hvalue (heq ▸ hd)) ?_
      rintro d ⟨⟩
      simp
    simp only [QuotesRead, hend, rawValue, hquote, htake, true_and, List.tail_cons, List.cons_ne_nil, ↓reduceIte]
    by_cases hnil : value = []
    · subst hnil
      rw [if_neg (not_not_intro rfl), List.nil_append, List.takeWhile_cons_of_pos (by simp [hcomment]),
        List.takeWhile_cons_of_pos (by simp [hcomment])]
      have hclose : iniTrimEnd (c :: (iniTrimEnd r).takeWhile fun c => !isComment c) =
          c :: iniTrimEnd ((iniTrimEnd r).takeWhile fun c => !isComment c) := iniTrimEnd_append hbare _
      have hempty : listNames ([] : Text) = [] := rfl
      rw [hempty, hquotes, hclose, List.cons_eq_cons, and_iff_right rfl, iniTrimEnd, List.rdropWhile_eq_nil_iff]
      refine (all_takeWhile_iniTrimEnd r).trans ?_
      have hpair : ¬ isQuotePair (iniTrim []) := by decide
      simp [hpair]
    · rw [if_pos hnil, hread value rfl]
      simp [hnil]

end names

/-! ### The list with other names -/

theorem all_leadOf (raw : List Text) (continued : Bool) (i : Nat) : Trim.All Text.isSpace (leadOf raw continued i) := by
  unfold leadOf
  intro c hc
  simp only at hc
  split at hc
  · rw [List.mem_singleton.1 hc]
    rfl
  · exact List.mem_takeWhile_imp hc

theorem all_trailOf (raw : List Text) (i : Nat) : Trim.All Text.isSpace (trailOf raw i) := by
  obtain ⟨w, hw, heq⟩ := Trim.exists_rdropWhile_parts Text.isSpace (raw.getD i [])
  have hdrop : (raw.getD i []).drop (raw.getD i []).trimEnd.length = w := by
    conv_lhs => arg 2; rw [heq]
    exact List.drop_left
  rw [trailOf, hdrop]
  exact hw

/-- A name with the spaces of its position. -/
def token (raw : List Text) (continued : Bool) (i : Nat) (name : Text) : Text :=
  if i < raw.length then leadOf raw continued i ++ name ++ trailOf raw i
  else (if 1 < raw.length then leadOf raw continued 1 else []) ++ name

theorem layNames_eq (raw : List Text) (continued : Bool) (names : List Text) : layNames raw continued names =
    Text.trimEnd (List.intercalate [','] (names.mapIdx (token raw continued))) := rfl

theorem exists_token (raw : List Text) (continued : Bool) (i : Nat) (name : Text) :
    ∃ w w', Trim.All Text.isSpace w ∧ Trim.All Text.isSpace w' ∧ token raw continued i name = w ++ name ++ w' := by
  have hsep : Trim.All Text.isSpace (if 1 < raw.length then leadOf raw continued 1 else []) := by
    split
    · exact all_leadOf _ _ _
    · exact Trim.All.nil
  unfold token
  split
  · exact ⟨_, _, all_leadOf _ _ _, all_trailOf _ _, rfl⟩
  · exact ⟨_, [], hsep, Trim.All.nil, (List.append_nil _).symm⟩

/-- The names that are laid out are the names of the list. -/
theorem listNames_layNames (raw : List Text) (continued : Bool) {names : List Text}
    (hnames : ∀ name ∈ names, SepList.IsItem ',' Text.isSpace name) :
    listNames (layNames raw continued names) = names := by
  have htrimEnd : ∀ t : Text, listNames (Text.trimEnd t) = listNames t := fun t =>
    SepList.items_rdropWhile isSpace_comma (fun _ hx => hx) t
  rw [layNames_eq, htrimEnd]
  refine SepList.items_intercalate_eq (fun part hpart => ?_) ?_ hnames
  · obtain ⟨i, hi, rfl⟩ := List.mem_mapIdx.1 hpart
    obtain ⟨w, w', hw, hw', heq⟩ := exists_token raw continued i names[i]
    rw [heq]
    simp [hw.not_mem isSpace_comma, hw'.not_mem isSpace_comma, (hnames _ (List.getElem_mem hi)).not_mem]
  · refine List.ext_getElem (by simp) fun i h₁ h₂ => ?_
    obtain ⟨w, w', hw, hw', heq⟩ := exists_token raw continued i names[i]
    rw [List.getElem_map, List.getElem_mapIdx, heq]
    exact Trim.trim_parts hw (hnames _ (List.getElem_mem h₂)).bare hw'

/-- The spaces before the list. -/
def preOf (value : Text) : Text := value.takeWhile Text.isSpace

/-- The spaces after the list. -/
def postOf (value : Text) : Text := value.drop ((preOf value).length + value.trim.length)

/-- The value with other names in its list. -/
def relaid (value : Text) (continued : Bool) (names : List Text) : Text :=
  preOf value ++ layNames (listTokens value) continued names ++ postOf value

theorem all_preOf (value : Text) : Trim.All Text.isSpace (preOf value) := fun _ hc => List.mem_takeWhile_imp hc

theorem value_parts (value : Text) : value = preOf value ++ value.trim ++ postOf value ∧
    Trim.All Text.isSpace (postOf value) := by
  obtain ⟨w, hw, heq⟩ := Trim.exists_rdropWhile_parts Text.isSpace (value.dropWhile Text.isSpace)
  have hsplit : value = preOf value ++ value.trim ++ w := by
    rw [List.append_assoc]
    conv_lhs => rw [← List.takeWhile_append_dropWhile (p := Text.isSpace) (l := value), heq]
    rfl
  have hpost : postOf value = w := by
    rw [postOf, ← List.length_append]
    conv_lhs => arg 2; rw [hsplit]
    exact List.drop_left
  rw [hpost]
  exact ⟨hsplit, hw⟩

theorem editServerValue_eq {key : Text} (hkey : '=' ∉ key) (rest : Text) (edit : List Text → List Text)
    (continued : Bool) : editServerValue (key ++ '=' :: rest) edit continued =
      if edit (listNames (spanOf rest).value) = listNames (spanOf rest).value then none
      else some (key ++ '=' :: ((spanOf rest).before ++
        relaid (spanOf rest).value continued (edit (listNames (spanOf rest).value)) ++ (spanOf rest).after)) := by
  simp only [editServerValue, valueSpan_assign hkey, tokenNames_listTokens, relaid, preOf, postOf, List.append_assoc,
    List.cons_append]

section relaid

variable {value : Text} {continued : Bool} {names : List Text}

theorem listNames_relaid (hnames : ∀ name ∈ names, SepList.IsItem ',' Text.isSpace name) :
    listNames (relaid value continued names) = names := by
  refine (SepList.items_append_all isSpace_comma (value_parts value).2 _).trans ?_
  refine (SepList.items_all_append isSpace_comma (all_preOf value) _).trans ?_
  exact listNames_layNames _ _ hnames

theorem relaid_nil : relaid value continued [] = preOf value ++ postOf value := by
  simp [relaid, layNames, Text.trimEnd]

/-- What is not space in the new value is a comma or in a name. -/
theorem mem_relaid {c : Char} (hc : c ∈ relaid value continued names) :
    Text.isSpace c = true ∨ c = ',' ∨ ∃ name ∈ names, c ∈ name := by
  simp only [relaid, List.mem_append] at hc
  rcases hc with (hc | hc) | hc
  · exact .inl (all_preOf value c hc)
  · rw [layNames_eq] at hc
    rcases SepList.mem_of_mem_intercalate ((List.rdropWhile_prefix Text.isSpace _).subset hc) with hc | ⟨part, hpart, hc⟩
    · exact .inr (.inl hc)
    · obtain ⟨i, hi, rfl⟩ := List.mem_mapIdx.1 hpart
      obtain ⟨w, w', hw, hw', heq⟩ := exists_token (listTokens value) continued i names[i]
      rw [heq] at hc
      simp only [List.mem_append] at hc
      rcases hc with (hc | hc) | hc
      · exact .inl (hw c hc)
      · exact .inr (.inr ⟨_, List.getElem_mem hi, hc⟩)
      · exact .inl (hw' c hc)
  · exact .inl ((value_parts value).2 c hc)

/-- The spaces at the two ends of the value. -/
def margins (value : Text) : Text := preOf value ++ postOf value

/-- The engine reads the names where they stand in the place of the list.  In quotes, they are not just a pair of quotes,
and what is left of an empty list is read as empty; without quotes, they do not begin with a quote. -/
def NamesShow (span : ValueSpan) (names : List Text) : Prop :=
  if span.before.getLast?.any isQuote then
    (∀ name ∈ names, names = [name] → isQuotePair name → ¬ Trim.All isIniSpace (margins span.value)) ∧
      (names = [] → QuotesRead (margins span.value) span.after)
  else preOf span.value = [] → ∀ name ∈ names.head?, ∀ c ∈ name.head?, isQuote c = false

theorem first_unquoted_iff {names : List Text} : (∀ name ∈ names.head?, ∀ c ∈ name.head?, isQuote c = false) ↔
    (names.head?.all fun name => name.head?.all fun c => !isQuote c) = true := by
  simp [Option.all_eq_true]

instance (span : ValueSpan) (names : List Text) : Decidable (NamesShow span names) := by
  unfold NamesShow
  split
  · infer_instance
  · have : Decidable (∀ name ∈ names.head?, ∀ c ∈ name.head?, isQuote c = false) := decidable_of_iff' _ first_unquoted_iff
    infer_instance

/-- The new value is a pair of quotes only if that is its one name. -/
theorem eq_singleton_of_isQuotePair (hnames : ∀ name ∈ names, SepList.IsItem ',' Text.isSpace name)
    (h : isQuotePair (iniTrim (relaid value continued names))) :
    ∃ name, names = [name] ∧ isQuotePair name ∧ Trim.All isIniSpace (margins value) := by
  have hlist : names = [iniTrim (relaid value continued names)] := by
    have hitems : listNames (iniTrim (relaid value continued names)) = names :=
      (listNames_iniTrim _).trans (listNames_relaid hnames)
    rcases h with h | h <;> rw [h] at hitems ⊢ <;> exact hitems.symm.trans (by decide)
  refine ⟨_, hlist, h, ?_⟩
  obtain ⟨q, hq, hpair⟩ : ∃ q, isQuote q = true ∧ iniTrim (relaid value continued names) = [q, q] := by
    rcases h with h | h
    · exact ⟨_, rfl, h⟩
    · exact ⟨_, rfl, h⟩
  have hspace : ∀ w : Text, Trim.All Text.isSpace w → q ∉ w := fun w hw => hw.not_mem (isSpace_of_isQuote hq)
  refine Trim.All.append ?_ ?_
  · refine Trim.all_of_head_trim (hspace _ (all_preOf value))
      (l := layNames (listTokens value) continued names ++ postOf value) ?_
    rw [← List.append_assoc, ← iniTrim_eq]
    change (iniTrim (relaid value continued names)).head? = some q
    rw [hpair]
    rfl
  · refine Trim.all_of_last_trim (hspace _ (value_parts value).2)
      (l := preOf value ++ layNames (listTokens value) continued names) ?_
    rw [← iniTrim_eq]
    change (iniTrim (relaid value continued names)).getLast? = some q
    rw [hpair]
    rfl

theorem isItem_of_isPlainName {name : Text} (h : IsPlainName name) : SepList.IsItem ',' Text.isSpace name :=
  ⟨h.1, ⟨fun c hc => (h.2 c (List.mem_of_mem_head? hc)).2.1, fun c hc => (h.2 c (List.mem_of_mem_getLast? hc)).2.1⟩,
    fun hc => (h.2 _ hc).1 rfl⟩

/-- The engine reads the new names from the line. -/
theorem listNames_assigned_relaid {span : ValueSpan} (hform : SpanForm span)
    (hnames : ∀ name ∈ names, name ∈ listNames span.value ∨ IsPlainName name) (hshow : NamesShow span names) :
    listNames (assignedValue (span.before ++ relaid span.value continued names ++ span.after)) = names := by
  have hitems : ∀ name ∈ names, SepList.IsItem ',' Text.isSpace name := fun name hname =>
    (hnames name hname).elim SepList.isItem_of_mem_items isItem_of_isPlainName
  have hne : names ≠ [] → ¬ Trim.All isIniSpace (relaid span.value continued names) := fun hne hall =>
    hne ((listNames_relaid hitems).symm.trans (listNames_of_all hall))
  cases hform with
  | @plain spaces value after hspaces hvalue hafter hstart =>
    refine (listNames_assigned_plain hspaces (fun c hc => ?_) hafter fun c hc => ?_).trans (listNames_relaid hitems)
    · rcases mem_relaid hc with hc | rfl | ⟨name, hname, hc⟩
      · by_contra hcomment
        simp only [isComment, Bool.not_eq_false, Bool.or_eq_true, decide_eq_true_eq] at hcomment
        rcases hcomment with rfl | rfl <;> cases hc
      · rfl
      · rcases hnames name hname with hold | hplain
        · exact hvalue c (SepList.mem_of_mem_items hold hc)
        · exact (hplain.2 c hc).2.2.2.1
    · have hlast : spaces.getLast?.any isQuote = false := by
        rw [Option.any_eq_false]
        intro d hd
        have hspace := hspaces d (List.mem_of_mem_getLast? hd)
        by_contra hquote
        rw [Bool.not_eq_false] at hquote
        rw [isIniSpace_of_isQuote hquote] at hspace
        cases hspace
      by_contra hquote
      rw [Bool.not_eq_false] at hquote
      simp only [NamesShow, hlast, Bool.false_eq_true, ↓reduceIte] at hshow
      cases hpre : preOf value with
      | cons d w =>
        -- a space that is none for the engine comes first
        have hd : d ∈ value.head? := by
          rw [(value_parts value).1, hpre]
          rfl
        have hhead : (iniTrim (relaid value continued names)).head? = some d := by
          rw [relaid, hpre]
          exact Trim.head_trim_cons (hstart d hd).1 _
        have hspace : Text.isSpace d = true := all_preOf value d (by rw [hpre]; exact List.mem_cons_self)
        obtain rfl : d = c := Option.some.inj (hhead.symm.trans hc)
        rw [isSpace_of_isQuote hquote] at hspace
        cases hspace
      | nil =>
        obtain ⟨u, u', hu, -, hparts⟩ := Trim.exists_trim_parts isIniSpace (relaid value continued names)
        obtain ⟨t, ht⟩ := List.head?_eq_some_iff.1 hc
        have hdrop : ((relaid value continued names).dropWhile Text.isSpace).head? = some c := by
          rw [hparts, ← iniTrim_eq, ht, List.append_assoc,
            Trim.dropWhile_append_all (hu.mono fun _ hx => isSpace_of_isIniSpace hx), Trim.dropWhile_of_head]
          · rfl
          · rintro d ⟨⟩
            exact isSpace_of_isQuote hquote
        obtain ⟨name, hname, hfirst⟩ := SepList.head_items isSpace_comma hdrop (by rintro rfl; cases hquote)
        rw [← listNames_eq, listNames_relaid hitems] at hname
        rw [hshow hpre name hname c hfirst] at hquote
        cases hquote
  | @quoted spaces value after quote hspaces hquote hvalue hafter =>
    refine ((listNames_assigned_quoted_iff hspaces hquote (fun hc => ?_) hafter).2 ?_).trans (listNames_relaid hitems)
    · rcases mem_relaid hc with hc | rfl | ⟨name, hname, hc⟩
      · rw [isSpace_of_isQuote hquote] at hc
        cases hc
      · cases hquote
      · rcases hnames name hname with hold | hplain
        · exact hvalue (SepList.mem_of_mem_items hold hc)
        · rw [(hplain.2 _ hc).2.2.1] at hquote
          cases hquote
    · simp only [NamesShow, List.getLast?_concat, Option.any_some, hquote, ↓reduceIte] at hshow
      by_cases hnil : names = []
      · subst hnil
        rw [relaid_nil]
        exact hshow.2 rfl
      · refine ⟨fun hpair => ?_, ?_⟩
        · obtain ⟨name, rfl, hname, hall⟩ := eq_singleton_of_isQuotePair hitems hpair
          exact hshow.1 name List.mem_cons_self rfl hname hall
        · split
          · exact hne hnil
          · exact fun hrelaid => (hne hnil (by rw [hrelaid]; exact Trim.All.nil)).elim

end relaid

/-! ### A line with its list replaced -/

/-- The value is in quotes. -/
def ValueSpan.isQuoted (span : ValueSpan) : Bool := span.before.getLast?.any isQuote

/-- The engine takes the same text for the value. -/
def ValueSpan.IsRead (span : ValueSpan) : Prop := span.isQuoted = true → QuotesRead span.value span.after

instance (span : ValueSpan) : Decidable span.IsRead := by
  unfold ValueSpan.IsRead
  infer_instance

/-- The names can stand in the place of the list: the engine reads them, the line has room for them, and its last
character is no backslash. -/
structure Replaceable (span : ValueSpan) (continued : Bool) (names : List Text) : Prop where
  shows : NamesShow span names
  room : utf8Length (span.before ++ preOf span.value) + utf8Length (layNames (listTokens span.value) continued names) +
    utf8Length (dropCr (postOf span.value ++ span.after)) ≤ iniMaxLineLength
  ends : (iniTrimEnd (postOf span.value ++ span.after)).getLast? ≠ some '\\'
  ends_name : Trim.All isIniSpace (postOf span.value ++ span.after) →
    ∀ name ∈ names.getLast?, name.getLast? ≠ some '\\'

/-- The list ends as its last name does. -/
theorem getLast?_layNames (raw : List Text) (continued : Bool) (names : List Text) {name : Text}
    (hname : SepList.IsItem ',' Text.isSpace name) :
    (layNames raw continued (names ++ [name])).getLast? = name.getLast? := by
  obtain ⟨w, w', -, hw', htoken⟩ := exists_token raw continued names.length name
  obtain ⟨init, hinit⟩ := @SepList.exists_intercalate_concat _ ',' (names.mapIdx (token raw continued))
    (token raw continued names.length name)
  have hlast : ∀ c ∈ (init ++ w ++ name).getLast?, Text.isSpace c = false := by
    rw [List.getLast?_append_of_ne_nil _ hname.ne_nil]
    exact hname.bare.2
  have htrim : Text.trimEnd (init ++ (w ++ name ++ w')) = init ++ w ++ name := by
    have hsplit : init ++ (w ++ name ++ w') = init ++ w ++ name ++ w' := by simp
    rw [hsplit]
    exact (Trim.rdropWhile_append_all hw' _).trans (Trim.rdropWhile_of_last hlast)
  rw [layNames_eq, List.mapIdx_concat, hinit, htoken, htrim, List.getLast?_append_of_ne_nil _ hname.ne_nil]

theorem utf8Length_dropCr_le (t : Text) : utf8Length (dropCr t) ≤ utf8Length t := by
  unfold dropCr
  split
  · rename_i hlast
    obtain ⟨s, rfl⟩ := List.getLast?_eq_some_iff.1 hlast
    rw [List.dropLast_concat, utf8Length_append]
    exact Nat.le_add_right _ _
  · exact Nat.le_refl _

theorem fits_nil_append {s t : Text} (h : utf8Length s + utf8Length (dropCr t) ≤ iniMaxLineLength) :
    fits [] (s ++ t) = true := by
  have hdrop : utf8Length (dropCr (s ++ t)) ≤ utf8Length s + utf8Length (dropCr t) := by
    by_cases hnil : t = []
    · subst hnil
      rw [List.append_nil]
      exact Nat.le_add_right_of_le (utf8Length_dropCr_le s)
    · rw [dropCr_append s hnil, utf8Length_append]
  exact decide_eq_true (by simpa [utf8Length] using hdrop.trans h)

/-- The line with the new names does not go on. -/
theorem not_goesOn_of_ends {s names : Text} {after : Text} (hafter : (iniTrimEnd after).getLast? ≠ some '\\')
    (hnames : Trim.All isIniSpace after → (iniTrimEnd (s ++ names)).getLast? ≠ some '\\') :
    goesOn [] (s ++ names ++ after) = false := by
  have htext : accumulate [] (s ++ names ++ after) = iniTrimEnd (s ++ names ++ after) := iniTrimEnd_dropCr _
  refine Bool.and_eq_false_iff.2 (.inr (decide_eq_false ?_))
  rw [htext]
  by_cases hblank : Trim.All isIniSpace after
  · rw [iniTrimEnd, Trim.rdropWhile_append_all hblank]
    exact hnames hblank
  · have hne : after.rdropWhile isIniSpace ≠ [] := fun hnil => hblank (List.rdropWhile_eq_nil_iff.1 hnil)
    rw [iniTrimEnd, Trim.rdropWhile_append_of_ne_nil _ hne, List.getLast?_append_of_ne_nil _ hne]
    exact hafter

/-- What is before a value has no backslash. -/
theorem SpanForm.backslash_not_mem {span : ValueSpan} (h : SpanForm span) : '\\' ∉ span.before := by
  cases h with
  | plain hspaces => exact hspaces.not_mem rfl
  | quoted hspaces hquote =>
    rw [List.mem_append, not_or, List.mem_singleton]
    refine ⟨hspaces.not_mem rfl, ?_⟩
    rintro rfl
    cases hquote

theorem getLast?_iniTrimEnd_ne (k : Text) {s : Text} (hs : '\\' ∉ s) :
    (iniTrimEnd (k ++ '=' :: s)).getLast? ≠ some '\\' := by
  have hne : ('=' :: s).rdropWhile isIniSpace ≠ [] := by
    intro hnil
    cases List.rdropWhile_eq_nil_iff.1 hnil '=' List.mem_cons_self
  rw [iniTrimEnd, Trim.rdropWhile_append_of_ne_nil _ hne, List.getLast?_append_of_ne_nil _ hne]
  intro hlast
  rcases List.mem_cons.1 ((List.rdropWhile_prefix isIniSpace _).subset (List.mem_of_mem_getLast? hlast)) with heq | hmem
  · cases heq
  · exact hs hmem

section line

variable {lower : Text → Text} {line key value t : Text} {edit : List Text → List Text} {continued : Bool}

theorem getLast_any_isQuote_assign (key before : Text) :
    (key ++ '=' :: before).getLast?.any isQuote = before.getLast?.any isQuote := by
  cases before with
  | nil => simp [isQuote]
  | cons c before =>
    rw [← List.singleton_append, ← List.append_assoc, List.getLast?_append_of_ne_nil _ (List.cons_ne_nil c before)]

theorem listNames_assigned {span : ValueSpan} (hform : SpanForm span) (hread : span.IsRead) :
    listNames (assignedValue (span.before ++ span.value ++ span.after)) = listNames span.value := by
  cases hform with
  | plain hspaces hvalue hafter hstart =>
    refine listNames_assigned_plain hspaces hvalue hafter fun c hc => ?_
    rename_i value _
    cases value with
    | nil => cases hc
    | cons d value =>
      rw [iniTrim_eq, Trim.head_trim_cons (hstart d rfl).1] at hc
      obtain rfl := Option.some.inj hc
      exact (hstart d rfl).2
  | quoted hspaces hquote hvalue hafter =>
    refine (listNames_assigned_quoted_iff hspaces hquote hvalue hafter).2 (hread ?_)
    simp [ValueSpan.isQuoted, hquote]

/-- The list that is edited. -/
def listOf (line : Text) : List Text := listNames (valueSpan line).value

/-- The names that the engine reads from the line are those of the text that is taken for the value. -/
theorem listNames_of_readLine (hline : readLine lower line = .entry key value) (hread : (valueSpan line).IsRead) :
    listNames value = listOf line := by
  rw [listOf]
  obtain ⟨k, rest, rfl, hk, -, -, -, rfl⟩ := exists_assign hline
  rw [valueSpan_assign hk] at hread ⊢
  have hread' : (spanOf rest).IsRead := by
    intro hquoted
    refine hread ?_
    rw [ValueSpan.isQuoted, getLast_any_isQuote_assign]
    exact hquoted
  have hnames := listNames_assigned (spanForm_spanOf rest) hread'
  rwa [spanOf_text] at hnames

theorem editServerValue_eq_none_iff :
    editServerValue line edit continued = none ↔ edit (listOf line) = listOf line := by
  simp only [editServerValue, tokenNames_listTokens, listOf]
  split <;> simp [*]

/-- The engine reads the new list from the line that the edit makes. -/
theorem readLine_editServerValue (hline : readLine lower line = .entry key value) (hkey : key.head? ≠ some '[')
    (hnames : ∀ name ∈ edit (listOf line), name ∈ listOf line ∨ IsPlainName name)
    (h : Replaceable (valueSpan line) continued (edit (listOf line)))
    (hedit : editServerValue line edit continued = some t) :
    fits [] t = true ∧ goesOn [] t = false ∧ ∃ value', readLine lower t = .entry key value' ∧
      listNames value' = edit (listOf line) := by
  rw [listOf] at h hnames ⊢
  obtain ⟨k, rest, rfl, hk, rfl, hne, hcomment, -⟩ := exists_assign hline
  have hspan := valueSpan_assign hk rest
  have hform := spanForm_spanOf rest
  rw [hspan] at h hnames ⊢
  rw [editServerValue_eq hk] at hedit
  split at hedit
  · cases hedit
  obtain rfl := Option.some.inj hedit
  have hitems : ∀ name ∈ edit (listNames (spanOf rest).value), SepList.IsItem ',' Text.isSpace name := fun name hname =>
    (hnames name hname).elim SepList.isItem_of_mem_items isItem_of_isPlainName
  have hsplit : k ++ '=' :: ((spanOf rest).before ++ relaid (spanOf rest).value continued
      (edit (listNames (spanOf rest).value)) ++ (spanOf rest).after) =
      (k ++ '=' :: (spanOf rest).before ++ preOf (spanOf rest).value) ++ layNames (listTokens (spanOf rest).value)
        continued (edit (listNames (spanOf rest).value)) ++ (postOf (spanOf rest).value ++ (spanOf rest).after) := by
    simp [relaid]
  refine ⟨?_, ?_, assignedValue _, readLine_assign hk hne hcomment hkey _, ?_⟩
  · rw [hsplit]
    refine fits_nil_append ?_
    rw [utf8Length_append]
    exact h.room
  · rw [hsplit]
    refine not_goesOn_of_ends h.ends fun hblank => ?_
    generalize hnew : edit (listNames (spanOf rest).value) = names at hitems h
    have hends := h.ends_name hblank
    rcases List.eq_nil_or_concat' names with rfl | ⟨init, name, rfl⟩
    · have hempty : layNames (listTokens (spanOf rest).value) continued [] = [] := rfl
      rw [hempty, List.append_nil, List.append_assoc, List.cons_append]
      exact getLast?_iniTrimEnd_ne k (by simp [hform.backslash_not_mem, (all_preOf _).not_mem (x := '\\') rfl])
    · have hlast := getLast?_layNames (listTokens (spanOf rest).value) continued init (hitems name (by simp))
      have hbare := (hitems name (by simp)).bare.2
      have hne : layNames (listTokens (spanOf rest).value) continued (init ++ [name]) ≠ [] := by
        intro hnil
        rw [hnil] at hlast
        exact (hitems name (by simp)).ne_nil (List.getLast?_eq_none_iff.1 hlast.symm)
      rw [iniTrimEnd, Trim.rdropWhile_of_last, List.getLast?_append_of_ne_nil _ hne, hlast]
      · exact hends name (by simp)
      · intro c hc
        rw [List.getLast?_append_of_ne_nil _ hne, hlast] at hc
        by_contra hspace
        rw [Bool.not_eq_false] at hspace
        have hjs := isSpace_of_isIniSpace hspace
        rw [hbare c hc] at hjs
        cases hjs
  · refine listNames_assigned_relaid hform hnames ?_
    have hshows := h.shows
    unfold NamesShow at hshows ⊢
    simp only [getLast_any_isQuote_assign] at hshows
    exact hshows

end line

end CubridWebManager.Conf
