import CubridWebManager.Conf.EngineReader
import Mathlib.Data.Nat.Find

/-!
# `parseConfText` and the reader of the engine

`parseConfText` returns what the engine reads, but it numbers a logical line from where text is first pending: the two
agree just if no line whose number is returned has lone backslashes before it (`engine_agrees`).
-/

namespace CubridWebManager.Conf

open EngineReader

/-! ### The property -/

/-- `text.replace(/\n/g, '\r\n')` -/
def toCrlf (text : Text) : Text := text.flatMap fun c => if c = '\n' then ['\r', '\n'] else [c]

/-- What is pending becomes empty within the physical lines that end in a backslash. -/
def EngineReader.Line.Steady (e : Line) : Prop :=
  ∀ k, 0 < k → k ≤ e.continued.length → pendingAfter (e.continued.take k) ≠ []

/-- The number of the line is returned: it is an entry, a syntax error, or the first header of its section. -/
inductive Numbered (lower : Text → Text) (es : List Line) (e : Line) : Prop
  | entry (key value : Text) (h : e.reading lower = .entry key value)
  | invalid (hfits : fits e.before e.final = true) (h : e.reading lower = .invalid)
  | header (name : Text) (h : (name, e) ∈ firstHeaders lower es)

namespace EngineReader

variable {lower : Text → Text} {es : List Line} {e : Line} {number number' : Line → Nat} {name : Option Text}

/-! ### The numbers of the lines -/

theorem pendingAfter_concat (continued : List Text) (physical : Text) :
    pendingAfter (continued ++ [physical]) = (accumulate (pendingAfter continued) physical).dropLast := by
  simp [pendingAfter]

/-- The last place among the continued physical lines before which nothing is pending. -/
def Line.resumed (e : Line) : Nat :=
  Nat.findGreatest (fun k => pendingAfter (e.continued.take k) = []) e.continued.length

/-- Where `parseConfText` takes the line to start. -/
def Line.lineNo (e : Line) : Nat := e.start + e.resumed

/-- The line as `parseConfText` reads it. -/
def Line.numbered (number : Line → Nat) (e : Line) : LogicalLine := ⟨number e, e.last, e.before, e.final⟩

theorem reading_numbered (number : Line → Nat) (e : Line) : (e.numbered number).reading lower = e.reading lower := by
  rw [LogicalLine.reading, Line.reading, read_eq]
  rfl

theorem number_eq_iff : e.lineNo = e.start ↔ e.Steady := by
  rw [Line.lineNo, Nat.add_eq_left, Line.resumed, Nat.findGreatest_eq_zero_iff]
  exact forall_congr' fun k => Iff.rfl

theorem resumed_of_nil {start : Nat} {continued : List Text} {final : Text} (h : pendingAfter continued = []) :
    (Line.mk start continued final).resumed = continued.length := by
  refine Nat.findGreatest_eq ?_
  rw [List.take_length]
  exact h

theorem resumed_concat {start : Nat} {continued : List Text} {physical final final' : Text}
    (h : pendingAfter (continued ++ [physical]) ≠ []) :
    (Line.mk start (continued ++ [physical]) final).resumed = (Line.mk start continued final').resumed := by
  have hlength : (continued ++ [physical]).length = continued.length + 1 := List.length_append
  have htake : ∀ {k}, k ≤ continued.length → (continued ++ [physical]).take k = continued.take k :=
    fun hk => List.take_append_of_le_length hk
  obtain ⟨hle, hnil, hlater⟩ := Nat.findGreatest_eq_iff.1 (Eq.refl (Line.mk start continued final').resumed)
  refine Nat.findGreatest_eq_iff.2 ⟨?_, fun h0 => ?_, fun k hk hkle => ?_⟩
  · exact hlength ▸ Nat.le_succ_of_le hle
  · dsimp only
    rw [htake hle]
    exact hnil h0
  · dsimp only at hkle ⊢
    rw [hlength] at hkle
    rcases Nat.le_succ_iff.1 hkle with hkle | rfl
    · rw [htake hkle]
      exact hlater hk hkle
    · rw [List.take_of_length_le hlength.le]
      exact h

/-- `parseConfText` reads the logical lines of the engine, numbered in its own way. -/
theorem logicalLines_eq (ls : List Text) (start pendingStart : Nat) (continued : List Text)
    (hstart : pendingAfter continued ≠ [] → pendingStart = (Line.mk start continued []).lineNo) :
    logicalLines (pendingAfter continued) pendingStart ls (start + continued.length) =
      (linesFrom start continued ls).map (Line.numbered Line.lineNo) := by
  induction ls generalizing start pendingStart continued with
  | nil => rfl
  | cons l ls ih =>
    have hnumber : (if pendingAfter continued = [] then start + continued.length else pendingStart) =
        (Line.mk start continued l).lineNo := by
      by_cases hnil : pendingAfter continued = []
      · rw [if_pos hnil, Line.lineNo, resumed_of_nil hnil]
      · rw [if_neg hnil]
        exact hstart hnil
    unfold logicalLines linesFrom
    dsimp only
    rw [hnumber]
    by_cases hgo : goesOn (pendingAfter continued) l = true
    · have hlength : start + (continued ++ [l]).length = start + continued.length + 1 := by
        rw [List.length_append, List.length_singleton, Nat.add_assoc]
      rw [if_pos hgo, if_pos hgo, ← pendingAfter_concat, ← hlength]
      refine ih _ _ _ fun hne => ?_
      rw [Line.lineNo, Line.lineNo, resumed_concat hne]
    · rw [if_neg hgo, if_neg hgo, List.map_cons]
      refine congrArg (List.cons _) ?_
      exact ih (start + continued.length + 1) _ [] fun h => absurd rfl h

theorem logicalLinesOf_eq (physical : List Text) :
    logicalLinesOf physical = (lines physical).map (Line.numbered Line.lineNo) :=
  logicalLines_eq physical 1 0 [] fun h => absurd rfl h

/-! ### What is returned -/

theorem entriesOf_numbered (current : Option Text) :
    entriesOf lower name current (es.map (Line.numbered number)) =
      (inSections lower current es).filterMap (entryIn lower number name) := by
  induction es generalizing current with
  | nil => rfl
  | cons e es ih =>
    rw [List.map_cons, entriesOf, inSections, reading_numbered]
    cases hr : e.reading lower with
    | header n => exact ih _
    | nothing | invalid =>
      have hentry : entryIn lower number name (current, e) = none := by simp only [entryIn, hr]
      rw [List.filterMap_cons_none hentry]
      exact ih _
    | entry key value =>
      by_cases hcurrent : current = name
      · have hentry : entryIn lower number name (current, e) = some ⟨key, value, number e⟩ := by
          simp only [entryIn, hr, if_pos hcurrent]
        rw [List.filterMap_cons_some hentry]
        simp only [if_pos hcurrent, ih]
        rfl
      · have hentry : entryIn lower number name (current, e) = none := by simp only [entryIn, hr, if_neg hcurrent]
        rw [List.filterMap_cons_none hentry]
        simp only [if_neg hcurrent, ih]

theorem headersOf_numbered (known : List (Option Text)) :
    headersOf lower known (es.map (Line.numbered number)) =
      ((firstHeaders lower es).filter fun h => some h.1 ∉ known).map fun h => (h.1, number h.2) := by
  induction es generalizing known with
  | nil => rfl
  | cons e es ih =>
    rw [List.map_cons, headersOf, firstHeaders, reading_numbered]
    cases hr : e.reading lower with
    | nothing | invalid | entry => exact ih known
    | header n =>
      dsimp only
      by_cases hknown : some n ∈ known
      · rw [if_pos hknown, ih, List.filter_cons_of_neg (by simpa using hknown), List.filter_filter]
        refine congrArg _ (List.filter_congr fun h _ => ?_)
        by_cases hn : h.1 = n
        · simp [hn, hknown]
        · simp [hn]
      · rw [if_neg hknown, ih, List.filter_cons_of_pos (by simpa using hknown), List.map_cons, List.filter_filter]
        refine congrArg _ (congrArg _ (List.filter_congr fun h _ => ?_))
        simp [not_or]

theorem foldl_read_syntaxErrors (s : Sections) :
    ((es.map (Line.numbered number)).foldl (Sections.read lower) s).syntaxErrors =
      s.syntaxErrors ++ es.filterMap (Line.syntaxError lower number) := by
  induction es generalizing s with
  | nil => simp
  | cons e es ih =>
    rw [List.map_cons, List.foldl_cons, ih, Sections.read_eq, reading_numbered]
    by_cases hr : e.reading lower = .invalid
    · by_cases hfits : fits e.before e.final = true
      · have herror : e.syntaxError lower number =
            some ⟨number e, "Not a valid \"key = value\" line, section header, or # comment"⟩ := by
          rw [Line.syntaxError, if_pos hr, if_pos hfits]
        rw [if_pos hr, List.filterMap_cons_some herror]
        simp [Line.numbered, hfits, Sections.pushError]
      · have herror : e.syntaxError lower number =
            some ⟨e.last, "Line is longer than the engine's 510-byte limit"⟩ := by
          rw [Line.syntaxError, if_pos hr, if_neg hfits]
        rw [if_pos hr, List.filterMap_cons_some herror]
        simp [Line.numbered, hfits, Sections.pushError]
    · have herror : e.syntaxError lower number = none := if_neg hr
      rw [if_neg hr, List.filterMap_cons_none herror]
      cases hr' : e.reading lower with
      | invalid => exact absurd hr' hr
      | nothing | header | entry => rfl

/-- `parseConfText` returns what the engine reads, with its own numbers. -/
theorem parseConfText_eq (physical : List Text) :
    parseConfText lower physical = parsed lower Line.lineNo (lines physical) := by
  have hread := readAll_eq lower physical ⟨.start, [], 0⟩ 1
  have hlines : logicalLines [] 0 physical 1 = (lines physical).map (Line.numbered Line.lineNo) :=
    logicalLinesOf_eq physical
  have hsections := @parseConfText_sections lower physical
  rw [logicalLinesOf_eq, entriesOf_numbered, headersOf_numbered] at hsections
  have hall : (firstHeaders lower (lines physical)).filter (fun h => some h.1 ∉ [(none : Option Text)]) =
      firstHeaders lower (lines physical) := by
    rw [List.filter_eq_self]
    intro h _
    simp
  have hsectionOf : (sectionOfHeader lower none ((lines physical).map (Line.numbered Line.lineNo))) ∘
      (fun h : Text × Line => (h.1, h.2.lineNo)) = sectionOf lower Line.lineNo (lines physical) := by
    funext h
    simp only [Function.comp, sectionOfHeader, entriesOf_numbered, sectionOf, entries]
  rw [hall, List.map_map, hsectionOf] at hsections
  have hnamed : ((firstHeaders lower (lines physical)).map (sectionOf lower Line.lineNo (lines physical))).filter
      (fun s => s.name ≠ none ∨ s.entries ≠ []) =
      (firstHeaders lower (lines physical)).map (sectionOf lower Line.lineNo (lines physical)) := by
    rw [List.filter_eq_self]
    intro s hs
    obtain ⟨h, -, rfl⟩ := List.mem_map.1 hs
    simp [sectionOf]
  have herrors : (parseConfText lower physical).syntaxErrors =
      (lines physical).filterMap (Line.syntaxError lower Line.lineNo) := by
    simp only [parseConfText]
    rw [hread, hlines, foldl_read_syntaxErrors]
    rfl
  have hheadless : (parseConfText lower physical).sections = headless lower Line.lineNo (lines physical) ++
      (firstHeaders lower (lines physical)).map (sectionOf lower Line.lineNo (lines physical)) := by
    rw [hsections, headless, List.filter_cons, hnamed]
    by_cases hnil : entries lower Line.lineNo (lines physical) none = []
    · rw [if_pos hnil]
      simp only [entries] at hnil
      simp [hnil]
    · rw [if_neg hnil]
      simp only [entries] at hnil
      simp [hnil, entries]
  exact congrArg₂ ParsedConfText.mk hheadless herrors

/-! ### Where the numbers matter -/

theorem filterMap_eq_iff {α β : Type*} {f g : α → Option β} (h : ∀ x, (f x).isSome = (g x).isSome) (l : List α) :
    l.filterMap f = l.filterMap g ↔ ∀ x ∈ l, f x = g x := by
  induction l with
  | nil => simp
  | cons x l ih =>
    rw [List.forall_mem_cons, ← ih]
    cases hf : f x with
    | none =>
      have hg : g x = none := by
        rw [← Option.not_isSome_iff_eq_none, ← h, hf]
        exact Bool.false_ne_true
      rw [List.filterMap_cons_none hf, List.filterMap_cons_none hg, hg, eq_self_iff_true, true_and]
    | some y =>
      obtain ⟨z, hg⟩ := Option.isSome_iff_exists.1 ((h x).symm.trans (congrArg Option.isSome hf))
      rw [List.filterMap_cons_some hf, List.filterMap_cons_some hg, hg, List.cons.injEq, Option.some.injEq]

theorem exists_inSections (he : e ∈ es) (hr : ∀ name, e.reading lower ≠ .header name) (current : Option Text) :
    ∃ name, (name, e) ∈ inSections lower current es := by
  induction es generalizing current with
  | nil => cases he
  | cons e' es ih =>
    rw [inSections]
    rcases List.mem_cons.1 he with rfl | he
    · cases hr' : e.reading lower with
      | header name => exact absurd hr' (hr name)
      | nothing | invalid | entry => exact ⟨current, List.mem_cons_self⟩
    · cases e'.reading lower with
      | header name => exact ih he _
      | nothing | invalid | entry =>
        obtain ⟨name, hmem⟩ := ih he current
        exact ⟨name, List.mem_cons_of_mem _ hmem⟩

theorem exists_firstHeader {name : Text} (he : e ∈ es) (hr : e.reading lower = .header name) :
    ∃ header ∈ firstHeaders lower es, header.1 = name := by
  induction es with
  | nil => cases he
  | cons e' es ih =>
    rw [firstHeaders]
    rcases List.mem_cons.1 he with rfl | he
    · rw [hr]
      exact ⟨_, List.mem_cons_self, rfl⟩
    · obtain ⟨header, hmem, hname⟩ := ih he
      cases e'.reading lower with
      | nothing | invalid | entry => exact ⟨header, hmem, hname⟩
      | header n =>
        by_cases hn : header.1 = n
        · exact ⟨_, List.mem_cons_self, hn.symm.trans hname⟩
        · exact ⟨header, List.mem_cons_of_mem _ (List.mem_filter.2 ⟨hmem, by simpa using hn⟩), hname⟩

theorem mem_of_firstHeaders {header : Text × Line} (h : header ∈ firstHeaders lower es) : header.2 ∈ es := by
  induction es with
  | nil => cases h
  | cons e es ih =>
    rw [firstHeaders] at h
    cases hr : e.reading lower with
    | nothing | invalid | entry =>
      rw [hr] at h
      exact List.mem_cons_of_mem _ (ih h)
    | header n =>
      rw [hr] at h
      rcases List.mem_cons.1 h with rfl | h
      · exact List.mem_cons_self
      · exact List.mem_cons_of_mem _ (ih (List.mem_filter.1 h).1)

/-- A line that is no header stands in the section before any header or in that of a header. -/
theorem mem_inSections {current : Option Text} {line : Option Text × Line} (h : line ∈ inSections lower current es) :
    line.2 ∈ es ∧ (line.1 = current ∨ ∃ e ∈ es, ∃ name, e.reading lower = .header name ∧ line.1 = some name) := by
  induction es generalizing current with
  | nil => cases h
  | cons e es ih =>
    have hstep : ∀ {current'}, line ∈ inSections lower current' es → line.2 ∈ e :: es ∧
        (line.1 = current' ∨ ∃ e' ∈ e :: es, ∃ name, e'.reading lower = .header name ∧ line.1 = some name) := by
      intro current' h
      obtain ⟨hmem, hsection⟩ := ih h
      refine ⟨List.mem_cons_of_mem _ hmem, hsection.imp_right ?_⟩
      rintro ⟨e', he', name, hr, hname⟩
      exact ⟨e', List.mem_cons_of_mem _ he', name, hr, hname⟩
    rw [inSections] at h
    cases hr : e.reading lower with
    | header n =>
      rw [hr] at h
      refine (hstep h).imp_right fun hsection => .inr ?_
      exact hsection.elim (fun heq => ⟨e, List.mem_cons_self, n, hr, heq⟩) id
    | nothing | invalid | entry =>
      rw [hr] at h
      rcases List.mem_cons.1 h with rfl | h
      · exact ⟨List.mem_cons_self, .inl rfl⟩
      · exact hstep h

theorem isSome_entryIn (line : Option Text × Line) :
    (entryIn lower number name line).isSome = (entryIn lower number' name line).isSome := by
  unfold entryIn
  cases line.2.reading lower with
  | entry key value => by_cases hname : line.1 = name <;> simp [hname]
  | nothing | invalid | header => rfl

theorem isSome_syntaxError (e : Line) :
    (e.syntaxError lower number).isSome = (e.syntaxError lower number').isSome := by
  unfold Line.syntaxError
  split
  · split <;> rfl
  · rfl

theorem entries_eq_iff : entries lower number es name = entries lower number' es name ↔
    ∀ line ∈ inSections lower none es, entryIn lower number name line = entryIn lower number' name line :=
  filterMap_eq_iff isSome_entryIn _

theorem entries_eq_nil_iff : entries lower number es name = [] ↔ entries lower number' es name = [] := by
  rw [entries, entries, List.filterMap_eq_nil_iff, List.filterMap_eq_nil_iff]
  refine forall₂_congr fun line _ => ?_
  rw [← Option.not_isSome_iff_eq_none, ← Option.not_isSome_iff_eq_none, isSome_entryIn]

theorem headless_eq_iff : headless lower number es = headless lower number' es ↔
    entries lower number es none = entries lower number' es none := by
  rw [headless, headless]
  by_cases hnil : entries lower number es none = []
  · rw [if_pos hnil, if_pos (entries_eq_nil_iff.1 hnil), hnil, entries_eq_nil_iff.1 hnil]
    exact iff_of_true rfl rfl
  · rw [if_neg hnil, if_neg fun h => hnil (entries_eq_nil_iff.1 h)]
    simp

theorem length_headless : (headless lower number es).length = (headless lower number' es).length := by
  rw [headless, headless]
  by_cases hnil : entries lower number es none = []
  · rw [if_pos hnil, if_pos (entries_eq_nil_iff.1 hnil)]
  · rw [if_neg hnil, if_neg fun h => hnil (entries_eq_nil_iff.1 h)]
    rfl

theorem entryIn_eq {line : Option Text × Line} (hmem : line.2 ∈ es)
    (h : ∀ e ∈ es, Numbered lower es e → number e = number' e) :
    entryIn lower number name line = entryIn lower number' name line := by
  unfold entryIn
  cases hr : line.2.reading lower with
  | entry key value => rw [h line.2 hmem (.entry key value hr)]
  | nothing | invalid | header => rfl

theorem syntaxError_eq_iff : e.syntaxError lower number = e.syntaxError lower number' ↔
    (fits e.before e.final = true → e.reading lower = .invalid → number e = number' e) := by
  unfold Line.syntaxError
  by_cases hr : e.reading lower = .invalid
  · by_cases hfits : fits e.before e.final = true
    · simp [hr, hfits]
    · simp [hr, hfits]
  · simp [hr]

/-- The numbers of the lines are returned with the entries, the syntax errors and the first headers. -/
theorem parsed_eq_iff :
    parsed lower number es = parsed lower number' es ↔ ∀ e ∈ es, Numbered lower es e → number e = number' e := by
  constructor
  · intro h e he hnumbered
    obtain ⟨hsections, herrors⟩ := ParsedConfText.mk.inj h
    obtain ⟨hheadless, hheaders⟩ := List.append_inj hsections length_headless
    rw [List.map_inj_left] at hheaders
    cases hnumbered with
    | entry key value hr =>
      obtain ⟨name, hmem⟩ := exists_inSections he (fun _ hn => by cases hr.symm.trans hn) none
      have hentries : entries lower number es name = entries lower number' es name := by
        rcases (mem_inSections hmem).2 with hnone | ⟨e', he', n, hr', hname⟩
        · obtain rfl : name = none := hnone
          exact headless_eq_iff.1 hheadless
        · obtain ⟨header, hfirst, rfl⟩ := exists_firstHeader he' hr'
          obtain rfl : name = some header.1 := hname
          exact congrArg ConfTextSection.entries (hheaders header hfirst)
      have hentry := entries_eq_iff.1 hentries _ hmem
      simpa [entryIn, hr] using hentry
    | invalid hfits hr =>
      have herror := (filterMap_eq_iff isSome_syntaxError es).1 herrors e he
      exact syntaxError_eq_iff.1 herror hfits hr
    | header name hfirst =>
      have hlineNo := congrArg ConfTextSection.lineNo (hheaders _ hfirst)
      exact Option.some.inj hlineNo
  · intro h
    have hentries : ∀ name, entries lower number es name = entries lower number' es name := fun name =>
      entries_eq_iff.2 fun line hline => entryIn_eq (mem_inSections hline).1 h
    have hheaders : ∀ header ∈ firstHeaders lower es,
        sectionOf lower number es header = sectionOf lower number' es header := by
      intro header hmem
      rw [sectionOf, sectionOf, hentries, h header.2 (mem_of_firstHeaders hmem) (.header header.1 hmem)]
    have herrors : ∀ e ∈ es, e.syntaxError lower number = e.syntaxError lower number' := fun e he =>
      syntaxError_eq_iff.2 fun hfits hr => h e he (.invalid hfits hr)
    rw [parsed, parsed, headless_eq_iff.2 (hentries none), List.map_congr_left hheaders,
      (filterMap_eq_iff isSome_syntaxError es).2 herrors]

end EngineReader

/-! ### Line ends -/

theorem readPhysical_congr {l l' : Text} (h : dropCr l = dropCr l') (r : Reader) (lineNo : Nat) :
    r.readPhysical lower l lineNo = r.readPhysical lower l' lineNo := by
  simp only [Reader.readPhysical, h]

theorem readAll_congr {ls ls' : List Text} (h : ls.map dropCr = ls'.map dropCr) (r : Reader) (lineNo : Nat) :
    r.readAll lower ls lineNo = r.readAll lower ls' lineNo := by
  induction ls generalizing ls' r lineNo with
  | nil =>
    cases ls' with
    | nil => rfl
    | cons l' ls' => cases h
  | cons l ls ih =>
    cases ls' with
    | nil => cases h
    | cons l' ls' =>
      obtain ⟨hl, hls⟩ := List.cons.inj h
      rw [Reader.readAll, Reader.readAll, readPhysical_congr hl, ih hls]

theorem dropCr_cons {c : Char} (hc : c ≠ '\r') (t : Text) : dropCr (c :: t) = c :: dropCr t := by
  cases t with
  | nil => exact if_neg fun h => hc (Option.some.inj h)
  | cons d t => exact dropCr_append [c] (List.cons_ne_nil d t)

theorem map_dropCr_modifyHead {c : Char} (hc : c ≠ '\r') (ls : List Text) :
    (ls.modifyHead (List.cons c)).map dropCr = (ls.map dropCr).modifyHead (List.cons c) := by
  cases ls with
  | nil => rfl
  | cons t ls => rw [List.modifyHead_cons, List.map_cons, List.map_cons, List.modifyHead_cons, dropCr_cons hc]

/-- The lines of the text with `\r\n` are those of the text, up to the carriage returns. -/
theorem splitOn_toCrlf {text : Text} (h : '\r' ∉ text) :
    ((toCrlf text).splitOn '\n').map dropCr = (text.splitOn '\n').map dropCr := by
  induction text with
  | nil => rfl
  | cons c text ih =>
    rw [List.mem_cons, not_or] at h
    by_cases hc : c = '\n'
    · have hcrlf : toCrlf (c :: text) = '\r' :: '\n' :: toCrlf text := by
        rw [toCrlf, List.flatMap_cons, if_pos hc]
        rfl
      have hreturn : ('\r' == '\n') = false := rfl
      rw [hcrlf, hc, List.splitOn_cons_eq_if_modifyHead, hreturn, List.splitOn_cons_eq_if_modifyHead,
        List.splitOn_cons_eq_if_modifyHead]
      exact congrArg (List.cons []) (ih h.2)
    · have hcrlf : toCrlf (c :: text) = c :: toCrlf text := by
        rw [toCrlf, List.flatMap_cons, if_neg hc]
        rfl
      have hne : (c == '\n') = false := beq_false_of_ne hc
      rw [hcrlf, List.splitOn_cons_eq_if_modifyHead, List.splitOn_cons_eq_if_modifyHead, hne]
      simp only [Bool.false_eq_true, ↓reduceIte]
      rw [map_dropCr_modifyHead (Ne.symm h.1), ih h.2, map_dropCr_modifyHead (Ne.symm h.1)]

theorem parseConfText_congr (lower : Text → Text) {ls ls' : List Text} (h : ls.map dropCr = ls'.map dropCr) :
    parseConfText lower ls = parseConfText lower ls' := by
  simp only [parseConfText, readAll_congr h]

/-! ### The result -/

/-- `parseConfText` reads what the engine reads just if the lines whose numbers it returns are steady; and `\r\n` for
`\n` makes no difference. -/
theorem engine_agrees (lower : Text → Text) :
    (∀ physical, parseConfText lower physical = EngineReader.parse lower physical ↔
      ∀ e ∈ lines physical, Numbered lower (lines physical) e → e.Steady) ∧
    ∀ text, '\r' ∉ text →
      parseConfText lower ((toCrlf text).splitOn '\n') = parseConfText lower (text.splitOn '\n') := by
  refine ⟨fun physical => ?_, fun text htext => parseConfText_congr lower (splitOn_toCrlf htext)⟩
  rw [parseConfText_eq, EngineReader.parse, parsed_eq_iff]
  exact forall₂_congr fun e _ => imp_congr_right fun _ => number_eq_iff

theorem engine_agrees_crlf :
    parseConfText asciiLower.lower ((toCrlf "[common]\nport=1523".toList).splitOn '\n') =
      parseConfText asciiLower.lower ("[common]\nport=1523".toList.splitOn '\n') :=
  (engine_agrees asciiLower.lower).2 "[common]\nport=1523".toList (by decide)

/-- A backslash alone on the first line of an entry: the entry is numbered by the second. -/
theorem lone_backslash_numbers :
    parseConfText asciiLower.lower ["\\".toList, "port=1523".toList] ≠
      EngineReader.parse asciiLower.lower ["\\".toList, "port=1523".toList] := by
  decide

end CubridWebManager.Conf
