import CubridWebManager.HostImport.StoredProperties

/-!
# Files of stored lines

A preferences file as Java stores it: comments and properties, each on a line of its own.  The reader gets the lines back
(`physicalLines_body`) and joins those that end in a backslash with what follows them, also where the backslash is an
escaped one: a logical line has the key of the line it starts with (`valueOfLine_startedBy`), and a line starts one
exactly if the line before does not end in a backslash (`joinLines_before`).
-/

namespace CubridWebManager.HostImport

open CodeUnits

/-! ### The file -/

structure Comment where
  text : CodeUnits
  noBreak : ∀ u ∈ text, u ≠ unit '\n' ∧ u ≠ unit '\r'

inductive StoredLine
  | property (key value : CodeUnits)
  | comment (remark : Comment)

inductive Eol
  | lf
  | crlf

namespace StoredLine

def text : StoredLine → CodeUnits
  | property key value => storedProperty key value
  | comment remark => unit '#' :: remark.text

def key? : StoredLine → Option CodeUnits
  | property key _ => some key
  | comment _ => none

/-- The sign that tells the two kinds of lines apart. -/
def sign : StoredLine → UInt16
  | property .. => unit '='
  | comment _ => unit '#'

end StoredLine

def Eol.text : Eol → CodeUnits
  | lf => [unit '\n']
  | crlf => [unit '\r', unit '\n']

/-- The last line may come without an end of line. -/
structure PrefsFile where
  bom : Bool
  terminated : List (StoredLine × Eol)
  last : Option StoredLine

namespace PrefsFile

variable (file : PrefsFile)

def lines : List StoredLine := file.terminated.map Prod.fst ++ file.last.toList

def body : CodeUnits := file.terminated.flatMap (fun line => line.1.text ++ line.2.text) ++ (file.last.map StoredLine.text).getD []

def text : CodeUnits := if file.bom then 0xfeff :: file.body else file.body

/-- What follows the last end of line, if no line does. -/
def rest : List CodeUnits := if file.last.isSome then [] else [[]]

end PrefsFile

/-! ### Lines -/

namespace StoredLine

variable (l : StoredLine)

theorem noBreak : ∀ u ∈ l.text, u ≠ unit '\n' ∧ u ≠ unit '\r' := by
  have hprintable : ∀ u, Printable u → u ≠ unit '\n' ∧ u ≠ unit '\r' := by
    rintro u ⟨hle, -⟩
    constructor <;> (rintro rfl; exact absurd hle (by decide))
  intro u hmem
  cases l with
  | property key value =>
    rcases List.mem_append.1 hmem with hkey | hrest
    · exact hprintable u (printable_saveConvert u hkey)
    · rcases List.mem_cons.1 hrest with rfl | hvalue
      · exact ⟨by decide, by decide⟩
      · exact hprintable u (printable_saveConvert u hvalue)
  | comment remark =>
    rcases List.mem_cons.1 hmem with rfl | hrest
    · exact ⟨by decide, by decide⟩
    · exact remark.noBreak u hrest

theorem exists_text : ∃ u rest, l.text = u :: rest ∧ isSpace u = false ∧ u ≠ 0xfeff := by
  cases l with
  | property key value =>
    cases hfirst : saveConvert true key with
    | nil => exact ⟨unit '=', saveConvert false value, by rw [text, storedProperty, hfirst]; rfl, by decide, by decide⟩
    | cons u rest =>
      have hhead : (saveConvert true key).head? = some u := by
        rw [hfirst]
        rfl
      obtain ⟨hprintable, hne, -⟩ := head_saveConvert hhead
      have hspace : u.toNat ≠ 32 := fun heq => hne (UInt16.toNat_inj.1 heq)
      refine ⟨u, rest ++ unit '=' :: saveConvert false value, by rw [text, storedProperty, hfirst]; rfl, ?_, ?_⟩
      · exact isSpace_eq_false (by have := hprintable.1; omega) hprintable.2
      · rintro rfl
        exact absurd hprintable.2 (by decide)
  | comment remark => exact ⟨unit '#', remark.text, rfl, by decide, by decide⟩

theorem text_ne_nil : l.text ≠ [] := by
  obtain ⟨u, rest, htext, -⟩ := l.exists_text
  rw [htext]
  exact List.cons_ne_nil _ _

theorem dropWhile_text : l.text.dropWhile isSpace = l.text := by
  obtain ⟨u, rest, htext, hspace, -⟩ := l.exists_text
  rw [htext]
  exact Trim.dropWhile_of_head fun u' hu' => Option.some.inj hu' ▸ hspace

theorem sign_mem : l.sign ∈ l.text := by
  cases l with
  | property key value => exact List.mem_append_right _ List.mem_cons_self
  | comment remark => exact List.mem_cons_self

end StoredLine

/-- A file with a line starts with neither white space nor a byte order mark. -/
theorem head_body {file : PrefsFile} (hlines : file.lines ≠ []) :
    ∃ u rest, file.body = u :: rest ∧ isSpace u = false ∧ u ≠ 0xfeff := by
  unfold PrefsFile.body
  cases hterminated : file.terminated with
  | nil =>
    cases hlast : file.last with
    | none => exact absurd (by rw [PrefsFile.lines, hterminated, hlast]; rfl) hlines
    | some l =>
      obtain ⟨u, rest, htext, hrest⟩ := l.exists_text
      exact ⟨u, rest, htext, hrest⟩
  | cons line lines =>
    obtain ⟨u, rest, htext, hrest⟩ := line.1.exists_text
    exact ⟨u, rest ++ line.2.text ++ lines.flatMap (fun line => line.1.text ++ line.2.text) ++
      (file.last.map StoredLine.text).getD [], by simp [htext], hrest⟩

theorem stripBom_body (file : PrefsFile) : stripBom file.body = file.body := by
  by_cases hlines : file.lines = []
  · obtain ⟨hterminated, hlast⟩ := List.append_eq_nil_iff.1 hlines
    rw [PrefsFile.body, List.map_eq_nil_iff.1 hterminated, Option.toList_eq_nil_iff.1 hlast]
    rfl
  · obtain ⟨u, rest, hbody, -, hbom⟩ := head_body hlines
    rw [hbody]
    unfold stripBom
    split
    · rename_i heq
      exact absurd (List.cons.inj heq).1 hbom
    · rfl

/-! ### The physical lines -/

section Physical

variable {line rest : CodeUnits}

theorem replaceCrLf_cons {c : UInt16} (h : c ≠ unit '\r') (rest : CodeUnits) :
    replaceCrLf (c :: rest) = c :: replaceCrLf rest := by
  cases rest with
  | nil => rfl
  | cons c' rest =>
    rw [replaceCrLf]
    exact if_neg fun hand => h hand.1

theorem replaceCrLf_append (h : ∀ u ∈ line, u ≠ unit '\n' ∧ u ≠ unit '\r') (rest : CodeUnits) :
    replaceCrLf (line ++ rest) = line ++ replaceCrLf rest := by
  induction line with
  | nil => rfl
  | cons c line ih =>
    rw [List.cons_append, replaceCrLf_cons (h c List.mem_cons_self).2, ih fun u hu => h u (List.mem_cons_of_mem _ hu)]
    rfl

theorem replaceCrLf_eol (eol : Eol) (rest : CodeUnits) : replaceCrLf (eol.text ++ rest) = unit '\n' :: replaceCrLf rest := by
  cases eol with
  | lf => exact replaceCrLf_cons (by decide) rest
  | crlf =>
    change replaceCrLf (unit '\r' :: unit '\n' :: rest) = _
    rw [replaceCrLf]
    exact if_pos ⟨rfl, rfl⟩

theorem map_noCr (h : ∀ u ∈ line, u ≠ unit '\n' ∧ u ≠ unit '\r') :
    line.map (fun c => if c = unit '\r' then unit '\n' else c) = line := by
  refine (List.map_congr_left fun u hu => ?_).trans (List.map_id line)
  exact if_neg (h u hu).2

theorem splitOn_noBreak (h : ∀ u ∈ line, u ≠ unit '\n' ∧ u ≠ unit '\r') : line.splitOn (unit '\n') = [line] :=
  List.splitOn_eq_singleton fun hmem => (h _ hmem).1 rfl

/-- The lines come back, and an empty one after a last end of line. -/
theorem physicalLines_body (file : PrefsFile) : physicalLines file.body = file.lines.map StoredLine.text ++ file.rest := by
  rw [physicalLines, stripBom_body, PrefsFile.body, PrefsFile.lines, PrefsFile.rest]
  induction file.terminated with
  | nil =>
    cases file.last with
    | none => rfl
    | some l =>
      have hreplaced := replaceCrLf_append l.noBreak []
      rw [List.append_nil, replaceCrLf, List.append_nil] at hreplaced
      simp [hreplaced, map_noCr l.noBreak, splitOn_noBreak l.noBreak]
  | cons line lines ih =>
    rw [List.flatMap_cons, List.append_assoc, List.append_assoc, replaceCrLf_append line.1.noBreak, replaceCrLf_eol,
      List.map_append, map_noCr line.1.noBreak, List.map_cons, if_neg (by decide), List.splitOn_append_cons_self,
      splitOn_noBreak line.1.noBreak, ih]
    rfl

end Physical

/-! ### The logical lines -/

/-- The line starts with what tells the key of `l`, if it has one. -/
def StartedBy : StoredLine → CodeUnits → Prop
  | .property key _, line => ∃ w, line = saveConvert true key ++ unit '=' :: w
  | .comment _, line => ∃ w, line = unit '#' :: w

section Logical

variable {l : StoredLine} {line x : CodeUnits} {ls : List StoredLine} {rest : List CodeUnits}

theorem startedBy_text (l : StoredLine) : StartedBy l l.text := by
  cases l with
  | property key value => exact ⟨saveConvert false value, rfl⟩
  | comment remark => exact ⟨remark.text, rfl⟩

theorem StartedBy.append (h : StartedBy l line) (x : CodeUnits) : StartedBy l (line ++ x) := by
  cases l with
  | property key value =>
    obtain ⟨w, rfl⟩ := h
    exact ⟨w ++ x, by simp⟩
  | comment remark =>
    obtain ⟨w, rfl⟩ := h
    exact ⟨w ++ x, rfl⟩

theorem dropLast_append_cons {u : UInt16} {a w : CodeUnits} (h : endsWithBackslash (a ++ u :: w) = true)
    (hu : u ≠ unit '\\') : (a ++ u :: w).dropLast = a ++ u :: w.dropLast := by
  have hw : w ≠ [] := by
    rintro rfl
    rw [endsWithBackslash, decide_eq_true_iff, List.getLast?_append, List.getLast?_singleton] at h
    exact hu (Option.some.inj h)
  rw [List.dropLast_append_of_ne_nil (List.cons_ne_nil _ _), List.dropLast_cons_of_ne_nil hw]

theorem StartedBy.dropLast (h : StartedBy l line) (hends : endsWithBackslash line = true) : StartedBy l line.dropLast := by
  cases l with
  | property key value =>
    obtain ⟨w, rfl⟩ := h
    exact ⟨w.dropLast, dropLast_append_cons hends (by decide)⟩
  | comment remark =>
    obtain ⟨w, rfl⟩ := h
    exact ⟨w.dropLast, dropLast_append_cons (a := []) hends (by decide)⟩

/-- A line has the key it starts with. -/
theorem valueOfLine_startedBy {k : CodeUnits} (h : StartedBy l line) (hk : l.key? ≠ some k) : valueOfLine k line = none := by
  have hnone : extractPropertyValueForKey line k = none := by
    cases l with
    | property key value =>
      obtain ⟨w, rfl⟩ := h
      have hne : key ≠ k := fun heq => hk (congrArg some heq)
      rw [extractPropertyValueForKey, parsePropertyLine_stored]
      exact if_neg hne
    | comment remark =>
      obtain ⟨w, rfl⟩ := h
      have htrim : (Trim.trim isSpace (unit '#' :: w)).head? = some (unit '#') := Trim.head_trim_cons (by decide) w
      rw [extractPropertyValueForKey, parsePropertyLine]
      simp only [htrim, true_or, or_true, if_true]
  rw [valueOfLine, hnone]

theorem valueOfLine_nil (k : CodeUnits) : valueOfLine k [] = none := rfl

theorem endsWithBackslash_append (x : CodeUnits) (h : line ≠ []) : endsWithBackslash (x ++ line) = endsWithBackslash line := by
  rw [endsWithBackslash, endsWithBackslash, List.getLast?_append_of_ne_nil x h]

/-- One line more. -/
theorem joinLines_text (current : Option CodeUnits) (l : StoredLine) (physical : List CodeUnits) :
    joinLines current (l.text :: physical) = if endsWithBackslash l.text then
      joinLines (some (current.getD [] ++ l.text).dropLast) physical
    else (current.getD [] ++ l.text) :: joinLines none physical := by
  cases current with
  | none => rfl
  | some x =>
    rw [joinLines]
    simp only [l.dropWhile_text, endsWithBackslash_append x l.text_ne_nil, Option.getD_some]

/-- The end of the file. -/
theorem joinLines_rest (h : rest = [] ∨ rest = [[]]) (x : CodeUnits) :
    joinLines (some x) rest = [x] ∨ joinLines (some x) rest = [x.dropLast] ∧ endsWithBackslash x = true := by
  rcases h with rfl | rfl
  · exact .inl rfl
  · rw [joinLines]
    simp only [List.dropWhile_nil, List.append_nil]
    split
    · rename_i hends
      exact .inr ⟨rfl, hends⟩
    · exact .inl rfl

/-- Each logical line starts with a stored one. -/
theorem joinLines_startedBy (ls : List StoredLine) (hrest : rest = [] ∨ rest = [[]]) :
    (∀ m ∈ joinLines none (ls.map StoredLine.text ++ rest), m = [] ∨ ∃ l ∈ ls, StartedBy l m) ∧
    ∀ l x, StartedBy l x → ∃ first lines, joinLines (some x) (ls.map StoredLine.text ++ rest) = first :: lines ∧
      StartedBy l first ∧ ∀ m ∈ lines, m = [] ∨ ∃ l ∈ ls, StartedBy l m := by
  induction ls with
  | nil =>
    constructor
    · intro m hm
      rcases hrest with rfl | rfl
      · cases hm
      · exact .inl (List.mem_singleton.1 hm)
    · intro l x hx
      rcases joinLines_rest hrest x with heq | ⟨heq, hends⟩
      · exact ⟨x, [], heq, hx, nofun⟩
      · exact ⟨x.dropLast, [], heq, hx.dropLast hends, nofun⟩
  | cons l' ls ih =>
    obtain ⟨ihnone, ihsome⟩ := ih
    have hmore : ∀ {m}, (m = [] ∨ ∃ l ∈ ls, StartedBy l m) → m = [] ∨ ∃ l ∈ l' :: ls, StartedBy l m := fun hm =>
      hm.imp_right fun ⟨l, hl, hstarted⟩ => ⟨l, List.mem_cons_of_mem _ hl, hstarted⟩
    rw [List.map_cons, List.cons_append]
    constructor
    · intro m hm
      rw [joinLines_text, Option.getD_none, List.nil_append] at hm
      split at hm
      · rename_i hends
        obtain ⟨first, lines, heq, hfirst, hlines⟩ := ihsome l' _ ((startedBy_text l').dropLast hends)
        rw [heq] at hm
        rcases List.mem_cons.1 hm with rfl | hm
        · exact .inr ⟨l', List.mem_cons_self, hfirst⟩
        · exact hmore (hlines m hm)
      · rcases List.mem_cons.1 hm with rfl | hm
        · exact .inr ⟨l', List.mem_cons_self, startedBy_text l'⟩
        · exact hmore (ihnone m hm)
    · intro l x hx
      rw [joinLines_text, Option.getD_some]
      split
      · rename_i hends
        have hends' : endsWithBackslash (x ++ l'.text) = true := by rwa [endsWithBackslash_append x l'.text_ne_nil]
        obtain ⟨first, lines, heq, hfirst, hlines⟩ := ihsome l _ ((hx.append l'.text).dropLast hends')
        exact ⟨first, lines, heq, hfirst, fun m hm => hmore (hlines m hm)⟩
      · exact ⟨_, _, rfl, hx.append l'.text, fun m hm => hmore (ihnone m hm)⟩

/-- The lines before a line are joined into lines of their own, and the last of them goes on if it ends in a backslash. -/
theorem joinLines_before (ls : List StoredLine) (physical : List CodeUnits) : ∃ lines current,
    joinLines none (ls.map StoredLine.text ++ physical) = lines ++ joinLines current physical ∧
    (∀ m ∈ lines, ∃ l ∈ ls, StartedBy l m) ∧ (∀ x ∈ current, ∃ l ∈ ls, StartedBy l x) ∧
    (current = none ↔ ∀ l ∈ ls.getLast?, endsWithBackslash l.text = false) := by
  induction ls using List.reverseRecOn generalizing physical with
  | nil => exact ⟨[], none, rfl, nofun, nofun, iff_of_true rfl nofun⟩
  | append_singleton ls l ih =>
    obtain ⟨lines, current, heq, hlines, hcurrent, -⟩ := ih (l.text :: physical)
    have hmore : ∀ {m}, (∃ l' ∈ ls, StartedBy l' m) → ∃ l' ∈ ls ++ [l], StartedBy l' m := fun ⟨l', hl', hstarted⟩ =>
      ⟨l', List.mem_append_left _ hl', hstarted⟩
    have hstarted : ∃ l' ∈ ls ++ [l], StartedBy l' (current.getD [] ++ l.text) := by
      cases current with
      | none => exact ⟨l, by simp, startedBy_text l⟩
      | some x =>
        obtain ⟨l', hl', hx⟩ := hcurrent x rfl
        exact ⟨l', List.mem_append_left _ hl', hx.append l.text⟩
    have hends : endsWithBackslash (current.getD [] ++ l.text) = endsWithBackslash l.text :=
      endsWithBackslash_append _ l.text_ne_nil
    rw [List.map_append, List.append_assoc, List.map_singleton, List.singleton_append, heq, joinLines_text]
    obtain ⟨l', hl', hfirst⟩ := hstarted
    split
    · rename_i hbackslash
      refine ⟨lines, some (current.getD [] ++ l.text).dropLast, rfl, fun m hm => hmore (hlines m hm), ?_, ?_⟩
      · intro x hx
        obtain rfl := Option.some.inj hx
        exact ⟨l', hl', hfirst.dropLast (hends.trans hbackslash)⟩
      · refine iff_of_false nofun fun hno => ?_
        rw [hno l (by simp)] at hbackslash
        cases hbackslash
    · rename_i hbackslash
      refine ⟨lines ++ [current.getD [] ++ l.text], none, by simp, fun m hm => ?_, nofun, iff_of_true rfl fun l'' hl'' => ?_⟩
      · rcases List.mem_append.1 hm with hm | hm
        · exact hmore (hlines m hm)
        · exact ⟨l', hl', List.mem_singleton.1 hm ▸ hfirst⟩
      · rw [List.getLast?_concat] at hl''
        obtain rfl := Option.some.inj hl''
        exact Bool.not_eq_true _ ▸ hbackslash

/-- What a line that goes on has got, or gets from the next line, is kept. -/
theorem joinLines_mem (ls : List StoredLine) (hrest : rest = [] ∨ rest = [[]]) {u : UInt16} (hu : u ≠ unit '\\')
    (x : CodeUnits) {z : CodeUnits} (hmem : u ∈ z ∨ ∃ l ∈ ls.head?, u ∈ l.text) : ∃ y lines,
      joinLines (some (x ++ z)) (ls.map StoredLine.text ++ rest) = (x ++ y) :: lines ∧ u ∈ y := by
  have hdrop : ∀ {z}, u ∈ z → endsWithBackslash (x ++ z) = true → (x ++ z).dropLast = x ++ z.dropLast ∧ u ∈ z.dropLast := by
    intro z hmem hends
    have hne : z ≠ [] := List.ne_nil_of_mem hmem
    refine ⟨List.dropLast_append_of_ne_nil hne, ?_⟩
    rw [endsWithBackslash_append x hne, endsWithBackslash, decide_eq_true_iff] at hends
    obtain ⟨z', rfl⟩ := List.getLast?_eq_some_iff.1 hends
    rw [List.dropLast_concat]
    exact (List.mem_append.1 hmem).resolve_right fun hlast => hu (List.mem_singleton.1 hlast)
  induction ls generalizing z with
  | nil =>
    obtain hmem := hmem.resolve_right (by simp)
    rcases joinLines_rest hrest (x ++ z) with heq | ⟨heq, hends⟩
    · exact ⟨z, [], heq, hmem⟩
    · obtain ⟨hz, hmem'⟩ := hdrop hmem hends
      exact ⟨z.dropLast, [], by rw [List.map_nil, List.nil_append, heq, hz], hmem'⟩
  | cons l ls ih =>
    have hmem' : u ∈ z ++ l.text := by
      rcases hmem with hmem | ⟨l', hl', hmem⟩
      · exact List.mem_append_left _ hmem
      · obtain rfl := Option.some.inj hl'
        exact List.mem_append_right _ hmem
    rw [List.map_cons, List.cons_append, joinLines_text, Option.getD_some, List.append_assoc]
    split
    · rename_i hends
      have hends' : endsWithBackslash (x ++ (z ++ l.text)) = true := by
        rwa [← List.append_assoc, endsWithBackslash_append _ l.text_ne_nil]
      obtain ⟨hz, hmem''⟩ := hdrop hmem' hends'
      rw [hz]
      exact ih (.inl hmem'')
    · exact ⟨z ++ l.text, _, rfl, hmem'⟩

end Logical

end CubridWebManager.HostImport

