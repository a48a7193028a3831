import CubridWebManager.Lib.Conditionals
import CubridWebManager.Lib.Dict
import CubridWebManager.Lib.SepList
import CubridWebManager.Preprocess.Condition
import CubridWebManager.Preprocess.StripComments

/-!
# The lines that are kept

`preprocess` of `scripts/generate-param-catalog.mjs` goes over the lines of a source text with a stack of the sections that
are open, blanks the lines that are directives or stand in an inactive branch, and collects the macros that the active
lines define.

It accepts a text exactly if its sections are nested, up to ends that close nothing, and all conditions that matter can be
decided; then it keeps what is meant (`preprocess_eq_ok_iff`).  The macros are those in force at the end of the lines that
are kept (`preprocess_defines`).
-/

namespace CubridWebManager.Preprocess

open Conditionals CConstant

/-! ### The code -/

/-- `src.replace(/\\\r?\n/g, ' ')` -/
def joinContinuations : Text → Text
  | [] => []
  | [c] => [c]
  | '\\' :: '\n' :: t => ' ' :: joinContinuations t
  | '\\' :: '\r' :: '\n' :: t => ' ' :: joinContinuations t
  | c :: t => c :: joinContinuations t

/-- What `.` does not match. -/
def isTerminator (c : Char) : Bool := c = '\n' || c = '\r' || c = '\u2028' || c = '\u2029'

/-- `/^\s*#\s*(\w+)\s*(.*)$/` -/
def directive? (line : Text) : Option (Text × Text) :=
  let mark := line.dropWhile Text.isSpace
  let word := mark.tail.dropWhile Text.isSpace
  let rest := (word.dropWhile isWordChar).dropWhile Text.isSpace
  if mark.head? = some '#' ∧ word.takeWhile isWordChar ≠ [] ∧ ¬ rest.any isTerminator then
    some (word.takeWhile isWordChar, rest)
  else none

/-- `rest.match(/^(\w+)(?!\()\s*(.*)$/)`, where the name is not in front of a parenthesis: the macro is not one with
arguments. -/
def objectLike? (rest : Text) : Option (Text × Text) :=
  let value : Text := rest.dropWhile isWordChar
  if rest.takeWhile isWordChar ≠ [] ∧ value.head? ≠ some '(' then some (rest.takeWhile isWordChar, value.trim) else none

structure PpState where
  stack : List Frame
  defines : Dict Text Text
  out : List Text

/-- `top` is `undefined` where no section is open. -/
def typeError : Text := "Cannot read properties of undefined (reading 'parentActive')".toList

def PpState.push (s : PpState) (line : Text) : PpState := { s with out := s.out ++ [line] }

/-- The condition of `#if`, `#ifdef` or `#ifndef`. -/
def openingCondition (dir rest : Text) : Text :=
  if dir = "if".toList then rest
  else (if dir = "ifndef".toList then ['!'] else []) ++ ("defined(".toList ++ rest.trim ++ [')'])

def ppDirective (s : PpState) (dir rest : Text) : Except Text PpState :=
  let parentActive := active s.stack
  if dir ∈ ["if".toList, "ifdef".toList, "ifndef".toList] then
    (fun v => { s with stack := ⟨v, v, parentActive⟩ :: s.stack }) <$>
      if parentActive then evalPpCondition (openingCondition dir rest) else .ok false
  else if dir = "elif".toList then
    match s.stack with
    | [] => .error typeError
    | top :: stack =>
      (fun v => { s with stack := { top with active := v, taken := top.taken || v } :: stack }) <$>
        if top.parentActive && !top.taken then evalPpCondition rest else .ok false
  else if dir = "else".toList then
    match s.stack with
    | [] => .error typeError
    | top :: stack => .ok { s with stack := { top with active := top.parentActive && !top.taken, taken := true } :: stack }
  else if dir = "endif".toList then .ok { s with stack := s.stack.tail }
  else if dir = "define".toList ∧ parentActive then
    match objectLike? rest with
    | some (name, value) => .ok { s with defines := s.defines.set name value }
    | none => .ok s
  else if dir = "undef".toList ∧ parentActive then .ok { s with defines := s.defines.erase rest.trim }
  else .ok s

/-- One line. -/
def ppStep (s : PpState) (line : Text) : Except Text PpState :=
  match directive? line with
  | none => .ok (s.push (if active s.stack then line else []))
  | some (dir, rest) => (fun s => s.push []) <$> ppDirective s dir rest

def unbalanced : Text := "Unbalanced #if/#endif".toList

/-- The text and the macros. -/
def preprocess (src : Text) : Except Text (Text × Dict Text Text) := do
  let stripped ← stripComments src
  let s ← ((joinContinuations stripped).splitOn '\n').foldlM ppStep ⟨[], .empty, []⟩
  if s.stack.isEmpty then .ok (['\n'].intercalate s.out, s.defines) else .error unbalanced

/-! ### The lines -/

/-- What stands on a line that neither opens, divides nor closes a section. -/
inductive Content
  | text (line : Text)
  | define (rest : Text)
  | undef (rest : Text)
  | other

/-- What a directive is to the stack. -/
def lineOfDirective (dir rest : Text) : Line Text Content :=
  if dir ∈ ["if".toList, "ifdef".toList, "ifndef".toList] then .opens (openingCondition dir rest)
  else if dir = "elif".toList then .orIf rest
  else if dir = "else".toList then .orElse
  else if dir = "endif".toList then .closes
  else if dir = "define".toList then .item (.define rest)
  else if dir = "undef".toList then .item (.undef rest)
  else .item .other

def classify (line : Text) : Line Text Content :=
  match directive? line with
  | none => .item (.text line)
  | some (dir, rest) => lineOfDirective dir rest

def rules : Rules Text Text := ⟨evalPpCondition, typeError, unbalanced⟩

/-- The line that is put out. -/
def lineOf : Option Content → Text
  | some (.text line) => line
  | _ => []

def definesAfter (defines : Dict Text Text) : Option Content → Dict Text Text
  | some (.define rest) =>
    match objectLike? rest with
    | some (name, value) => defines.set name value
    | none => defines
  | some (.undef rest) => defines.erase rest.trim
  | _ => defines

/-- The state behind a line of which the stack has kept `k`. -/
def PpState.after (s : PpState) (r : List Frame × Option Content) : PpState :=
  ⟨r.1, definesAfter s.defines r.2, s.out ++ [lineOf r.2]⟩

theorem ppDirective_eq (s : PpState) (dir rest : Text) :
    (fun s => s.push []) <$> ppDirective s dir rest = s.after <$> step rules s.stack (lineOfDirective dir rest) := by
  unfold ppDirective lineOfDirective
  dsimp only
  by_cases hopens : dir ∈ ["if".toList, "ifdef".toList, "ifndef".toList]
  · rw [if_pos hopens, if_pos hopens, step]
    unfold Rules.holdsIf
    cases hactive : active s.stack with
    | false => rfl
    | true =>
      change _ = s.after <$> (evalPpCondition (openingCondition dir rest) >>= _)
      rw [if_pos rfl]
      cases evalPpCondition (openingCondition dir rest) <;> rfl
  rw [if_neg hopens, if_neg hopens]
  by_cases helif : dir = "elif".toList
  · rw [if_pos helif, if_pos helif]
    cases hstack : s.stack with
    | nil => rfl
    | cons top stack =>
      rw [step]
      unfold Rules.holdsIf
      dsimp only
      cases top.parentActive && !top.taken with
      | false => rfl
      | true =>
        change _ = s.after <$> (evalPpCondition rest >>= _)
        rw [if_pos rfl]
        cases evalPpCondition rest <;> rfl
  rw [if_neg helif, if_neg helif]
  by_cases helse : dir = "else".toList
  · rw [if_pos helse, if_pos helse]
    cases hstack : s.stack <;> rfl
  rw [if_neg helse, if_neg helse]
  by_cases hendif : dir = "endif".toList
  · rw [if_pos hendif, if_pos hendif]
    rfl
  rw [if_neg hendif, if_neg hendif]
  by_cases hdefine : dir = "define".toList
  · rw [if_pos hdefine, step]
    cases active s.stack with
    | false =>
      have hundef : ¬(dir = "undef".toList ∧ false = true) := fun h => Bool.false_ne_true h.2
      rw [if_neg fun h => Bool.false_ne_true h.2, if_neg hundef]
      rfl
    | true =>
      rw [if_pos ⟨hdefine, rfl⟩]
      cases hobject : objectLike? rest with
      | none => simp [PpState.after, PpState.push, definesAfter, lineOf, hobject, Functor.map, Except.map]
      | some d => simp [PpState.after, PpState.push, definesAfter, lineOf, hobject, Functor.map, Except.map]
  rw [if_neg fun h => hdefine h.1, if_neg hdefine]
  by_cases hundef : dir = "undef".toList
  · rw [if_pos hundef, step]
    cases active s.stack with
    | false =>
      rw [if_neg fun h => Bool.false_ne_true h.2]
      rfl
    | true =>
      rw [if_pos ⟨hundef, rfl⟩]
      rfl
  rw [if_neg fun h => hundef h.1, if_neg hundef, step]
  cases active s.stack <;> rfl

theorem ppStep_eq (s : PpState) (line : Text) : ppStep s line = s.after <$> step rules s.stack (classify line) := by
  unfold ppStep classify
  cases directive? line with
  | none =>
    change _ = s.after <$> Except.ok (s.stack, if active s.stack then some (.text line) else none)
    cases active s.stack <;> rfl
  | some d => exact ppDirective_eq s d.1 d.2

/-- The lines of a text without its comments. -/
def codeLines (stripped : Text) : List Text := (joinContinuations stripped).splitOn '\n'

theorem foldlM_ppStep (lines : List Text) (s : PpState) :
    lines.foldlM ppStep s = (fun r => ⟨r.1, r.2.foldl definesAfter s.defines, s.out ++ r.2.map lineOf⟩) <$>
      run rules s.stack (lines.map classify) := by
  induction lines generalizing s with
  | nil =>
    change Except.ok s = Except.ok ⟨s.stack, s.defines, s.out ++ []⟩
    rw [List.append_nil]
  | cons line lines ih =>
    rw [List.foldlM_cons, ppStep_eq, List.map_cons, run]
    cases step rules s.stack (classify line) with
    | error e => rfl
    | ok r =>
      change lines.foldlM ppStep (s.after r) = _ <$> (run rules r.1 (lines.map classify) >>= _)
      rw [ih]
      change _ <$> run rules r.1 (lines.map classify) = _
      cases run rules r.1 (lines.map classify) with
      | error e => rfl
      | ok rs => simp [PpState.after, Functor.map, Except.map, bind, Except.bind]

/-- What is put out for the lines of which these are kept. -/
def output (ks : List (Option Content)) : Text × Dict Text Text :=
  (['\n'].intercalate (ks.map lineOf), ks.foldl definesAfter .empty)

theorem preprocess_eq (src : Text) : preprocess src =
    stripComments src >>= fun stripped => output <$> process rules ((codeLines stripped).map classify) := by
  unfold preprocess
  cases stripComments src with
  | error e => rfl
  | ok stripped =>
    change ((codeLines stripped).foldlM ppStep ⟨[], .empty, []⟩ >>= _) = output <$> process rules _
    rw [foldlM_ppStep, process]
    cases run rules [] ((codeLines stripped).map classify) with
    | error e => rfl
    | ok r =>
      obtain ⟨stack, ks⟩ := r
      cases stack <;> rfl

theorem preprocess_of_kept {src stripped : Text} {outer : Outer Text Content} {ks : List (Option Content)}
    (hstripped : stripComments src = .ok stripped) (houter : (codeLines stripped).map classify = outer.lines)
    (hkept : outer.kept rules = .ok ks) : preprocess src = .ok (output ks) := by
  have hprocess : process rules ((codeLines stripped).map classify) = .ok ks :=
    process_eq_ok_iff.2 ⟨outer, houter, hkept⟩
  rw [preprocess_eq, hstripped]
  change output <$> process rules ((codeLines stripped).map classify) = _
  rw [hprocess]
  rfl

/-- A source text is accepted exactly if its lines are nested sections whose conditions can be decided where they
matter, and what is put out is made of the lines that this nesting keeps. -/
theorem preprocess_eq_ok_iff {src text : Text} {defines : Dict Text Text} :
    preprocess src = .ok (text, defines) ↔ ∃ (stripped : Text) (outer : Outer Text Content) (ks : List (Option Content)),
      stripComments src = .ok stripped ∧ (codeLines stripped).map classify = outer.lines ∧
        outer.kept rules = .ok ks ∧ (text, defines) = output ks := by
  rw [preprocess_eq]
  constructor
  · intro h
    obtain ⟨stripped, hstripped, h⟩ := exists_of_bind_ok h
    obtain ⟨ks, hprocess, hout⟩ := exists_of_bind_ok h
    obtain ⟨outer, houter, hkept⟩ := process_eq_ok_iff.1 hprocess
    exact ⟨stripped, outer, ks, hstripped, houter, hkept, (Except.ok.inj hout).symm⟩
  · rintro ⟨stripped, outer, ks, hstripped, houter, hkept, hout⟩
    rw [← preprocess_eq, hout]
    exact preprocess_of_kept hstripped houter hkept

/-! ### The macros -/

/-- The line defines the macro anew or drops it. -/
def Touches (name : Text) : Option Content → Prop
  | some (.define rest) => ∃ value, objectLike? rest = some (name, value)
  | some (.undef rest) => rest.trim = name
  | _ => False

theorem get?_definesAfter_of_not_touches {name : Text} {k : Option Content} (h : ¬ Touches name k)
    (defines : Dict Text Text) : (definesAfter defines k).get? name = defines.get? name := by
  cases k with
  | none => rfl
  | some c =>
    cases c with
    | text => rfl
    | other => rfl
    | undef rest =>
      have hne : name ≠ rest.trim := fun heq => h heq.symm
      rw [definesAfter, Dict.get?_erase, if_neg hne]
    | define rest =>
      rw [definesAfter]
      cases hobject : objectLike? rest with
      | none => rfl
      | some d =>
        have hne : name ≠ d.1 := by
          rintro rfl
          exact h ⟨d.2, hobject⟩
        change (defines.set d.1 d.2).get? name = _
        rw [Dict.get?_set, if_neg hne]

/-- A macro has the value of the last line that is kept and defines it, unless it is dropped behind that line. -/
theorem get?_foldl_definesAfter {ks : List (Option Content)} {name value : Text} :
    (ks.foldl definesAfter .empty).get? name = some value ↔ ∃ before rest after,
      ks = before ++ some (.define rest) :: after ∧ objectLike? rest = some (name, value) ∧
        ∀ k ∈ after, ¬ Touches name k := by
  induction ks using List.reverseRecOn with
  | nil =>
    constructor
    · intro h
      cases h
    · rintro ⟨before, rest, after, h, -⟩
      cases before <;> cases h
  | append_singleton ks k ih =>
    rw [List.foldl_append, List.foldl_cons, List.foldl_nil]
    by_cases htouches : Touches name k
    · constructor
      · intro h
        cases k with
        | none => exact htouches.elim
        | some c =>
          cases c with
          | text => exact htouches.elim
          | other => exact htouches.elim
          | undef rest =>
            rw [definesAfter, Dict.get?_erase, if_pos htouches.symm] at h
            cases h
          | define rest =>
            obtain ⟨value', hobject⟩ := htouches
            rw [definesAfter, hobject] at h
            change ((ks.foldl definesAfter .empty).set name value').get? name = some value at h
            rw [Dict.get?_set_self] at h
            cases h
            exact ⟨ks, rest, [], rfl, hobject, fun k hk => absurd hk List.not_mem_nil⟩
      · rintro ⟨before, rest, after, hks, hobject, hafter⟩
        rcases List.eq_nil_or_concat after with rfl | ⟨after, k', rfl⟩
        · obtain ⟨rfl, hk⟩ := List.append_inj' hks rfl
          obtain rfl := (List.cons.inj hk).1
          rw [definesAfter, hobject]
          exact Dict.get?_set_self _ _ _
        · -- the last line would touch the macro behind its definition
          rw [List.concat_eq_append, ← List.cons_append, ← List.append_assoc] at hks
          obtain ⟨-, hk⟩ := List.append_inj' hks rfl
          obtain rfl := (List.cons.inj hk).1
          exact absurd htouches (hafter k (by simp))
    · rw [get?_definesAfter_of_not_touches htouches, ih]
      constructor
      · rintro ⟨before, rest, after, rfl, hobject, hafter⟩
        refine ⟨before, rest, after ++ [k], by simp, hobject, fun k' hk' => ?_⟩
        rcases List.mem_append.1 hk' with hk' | hk'
        · exact hafter k' hk'
        · rw [List.mem_singleton.1 hk']
          exact htouches
      · rintro ⟨before, rest, after, hks, hobject, hafter⟩
        rcases List.eq_nil_or_concat after with rfl | ⟨after, k', rfl⟩
        · obtain ⟨-, hk⟩ := List.append_inj' hks rfl
          obtain rfl := (List.cons.inj hk).1
          exact absurd ⟨value, hobject⟩ htouches
        · rw [List.concat_eq_append, ← List.cons_append, ← List.append_assoc] at hks
          obtain ⟨rfl, -⟩ := List.append_inj' hks rfl
          exact ⟨before, rest, after, rfl, hobject, fun k' hk' => hafter k' (by simp [hk'])⟩

/-! ### The text -/

theorem classify_text {line line' : Text} (h : classify line = .item (.text line')) : line' = line := by
  unfold classify at h
  split at h
  · cases h
    rfl
  · rename_i dir rest _
    unfold lineOfDirective at h
    repeat' split at h
    all_goals cases h

/-- Each line of the text is the line of the source or blank. -/
theorem forall₂_lineOf {lines : List Text} {ks : List (Option Content)}
    (h : List.Forall₂ (fun line k => ∀ a ∈ k, line = .item a) (lines.map classify) ks) :
    List.Forall₂ (fun line line' => line' = line ∨ line' = []) lines (ks.map lineOf) := by
  rw [List.forall₂_map_left_iff] at h
  rw [List.forall₂_map_right_iff]
  refine h.imp fun line k hk => ?_
  cases k with
  | none => exact .inr rfl
  | some a =>
    cases a with
    | text line' => exact .inl (classify_text (hk _ rfl))
    | define => exact .inr rfl
    | undef => exact .inr rfl
    | other => exact .inr rfl

theorem exists_of_mem_forall₂ {α β : Type} {P : α → β → Prop} {as : List α} {bs : List β} (h : List.Forall₂ P as bs)
    {b : β} (hb : b ∈ bs) : ∃ a ∈ as, P a b := by
  induction h with
  | nil => cases hb
  | @cons a b' as bs hP _ ih =>
    rcases List.mem_cons.1 hb with rfl | hb
    · exact ⟨a, List.mem_cons_self, hP⟩
    · obtain ⟨a', ha', hP'⟩ := ih hb
      exact ⟨a', List.mem_cons_of_mem a ha', hP'⟩

/-- The text has the lines of the source, some of them blanked; and the macros are those that the lines that are kept
have defined last and not dropped since. -/
theorem preprocess_lines {src text : Text} {defines : Dict Text Text} (h : preprocess src = .ok (text, defines)) :
    ∃ (stripped : Text) (ks : List (Option Content)), stripComments src = .ok stripped ∧
      process rules ((codeLines stripped).map classify) = .ok ks ∧
      List.Forall₂ (fun line line' => line' = line ∨ line' = []) (codeLines stripped) (text.splitOn '\n') ∧
      ∀ name value, defines.get? name = some value ↔ ∃ before rest after,
        ks = before ++ some (.define rest) :: after ∧ objectLike? rest = some (name, value) ∧
          ∀ k ∈ after, ¬ Touches name k := by
  rw [preprocess_eq] at h
  obtain ⟨stripped, hstripped, h⟩ := exists_of_bind_ok h
  obtain ⟨ks, hprocess, hout⟩ := exists_of_bind_ok h
  have houtput : (text, defines) = output ks := (Except.ok.inj hout).symm
  obtain ⟨rfl, rfl⟩ := Prod.mk.inj houtput
  have hlines := forall₂_lineOf (forall₂_of_process hprocess)
  refine ⟨stripped, ks, hstripped, hprocess, ?_, fun name value => get?_foldl_definesAfter⟩
  have hbreaks : ∀ line' ∈ ks.map lineOf, '\n' ∉ line' := by
    intro line' hline'
    obtain ⟨line, hline, heq | hnil⟩ := exists_of_mem_forall₂ hlines hline'
    · rw [heq]
      exact SepList.not_mem_of_mem_splitOn hline
    · rw [hnil]
      exact List.not_mem_nil
  have hne : ks.map lineOf ≠ [] := by
    intro hnil
    rw [hnil, List.forall₂_nil_right_iff] at hlines
    exact List.splitOn_ne_nil '\n' _ hlines
  rw [List.splitOn_intercalate '\n' hbreaks hne]
  exact hlines

/-- The second branch defines the macro. -/
theorem preprocess_lines_else : ∃ text defines,
    preprocess "#if defined(CS_MODE)\n#define A 1\n#else\n#define A 2\n#endif".toList = .ok (text, defines) ∧
      ∃ (stripped : Text) (ks : List (Option Content)),
        stripComments "#if defined(CS_MODE)\n#define A 1\n#else\n#define A 2\n#endif".toList = .ok stripped ∧
        process rules ((codeLines stripped).map classify) = .ok ks ∧
        List.Forall₂ (fun line line' => line' = line ∨ line' = []) (codeLines stripped) (text.splitOn '\n') ∧
        ∀ name value, defines.get? name = some value ↔ ∃ before rest after,
          ks = before ++ some (.define rest) :: after ∧ objectLike? rest = some (name, value) ∧
            ∀ k ∈ after, ¬ Touches name k := by
  have hstrip : stripComments "#if defined(CS_MODE)\n#define A 1\n#else\n#define A 2\n#endif".toList = .ok _ :=
    stripComments_of_source (.of_plain (by decide))
  have hspells : Spells [.isDefined "CS_MODE".toList]
      ("defined".toList ++ ([] ++ '(' :: ([] ++ ("CS_MODE".toList ++ ([] ++ ')' :: []))))) :=
    .enclosed (by decide) (by decide) (by decide) (by decide) .nil
  have hvalue : (PpToken.isDefined "CS_MODE".toList).value? = some (.ok false) := rfl
  have heval : evalPpCondition "defined(CS_MODE)".toList = .ok false :=
    evalPpCondition_of_tokens (.one (.one (.leaf _ _ hvalue))) (ppTokens_of_spells hspells)
  have hkept : (Outer.last (.opens "defined(CS_MODE)".toList (.item (Content.define "A 1".toList) .nil)
      (.orElse (.item (Content.define "A 2".toList) .nil) .closes) .nil)).kept rules =
        .ok [none, none, none, some (Content.define "A 2".toList), none] := by
    change (evalPpCondition "defined(CS_MODE)".toList >>= _) = _
    rw [heval]
    rfl
  have hpreprocess := preprocess_of_kept hstrip rfl hkept
  exact ⟨_, _, hpreprocess, preprocess_lines hpreprocess⟩

end CubridWebManager.Preprocess
