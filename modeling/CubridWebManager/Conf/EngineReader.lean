import CubridWebManager.Conf.Sections
import CubridWebManager.Lib.Scanf

/-!
# The reader of the engine

What the engine reads of cubrid.conf, from the rules that `parseConfText` is documented with: physical lines are joined
at backslashes, a key line is read by the first of the engine's formats that makes both conversions, and each section
has the entries under all its headers.  A logical line is read as `parseConfText` reads it (`read_eq`).
-/

namespace CubridWebManager.Conf

open Scanf

namespace EngineReader

/-! ### Joining physical lines -/

/-- A logical line: the number of its first physical line, the physical lines that end in a backslash, and the last. -/
structure Line where
  start : Nat
  continued : List Text
  final : Text

/-- The backslash of each physical line is overwritten by the next one. -/
def pendingAfter (continued : List Text) : Text :=
  continued.foldl (fun pending physical => (accumulate pending physical).dropLast) []

namespace Line

def last (e : Line) : Nat := e.start + e.continued.length

def before (e : Line) : Text := pendingAfter e.continued

def text (e : Line) : Text := accumulate e.before e.final

end Line

/-- The logical lines, of which the first starts on `start` with the physical lines `continued`. -/
def linesFrom : Nat → List Text → List Text → List Line
  | _, _, [] => []
  | start, continued, physical :: rest =>
    if goesOn (pendingAfter continued) physical then linesFrom start (continued ++ [physical]) rest
    else ⟨start, continued, physical⟩ :: linesFrom (start + continued.length + 1) [] rest

def lines (physical : List Text) : List Line := linesFrom 1 [] physical

/-! ### Reading a logical line -/

/-- `"%[^=] = \"%[^\"]\""`, `"%[^=] = '%[^\']'"` and `"%[^=] = %[^;#]"` -/
def keyForms : List (Format Char) :=
  [[.set (· ≠ '='), .space, .lit '=', .space, .lit '\x22', .set (· ≠ '\x22'), .lit '\x22'],
    [.set (· ≠ '='), .space, .lit '=', .space, .lit '\x27', .set (· ≠ '\x27'), .lit '\x27'],
    [.set (· ≠ '='), .space, .lit '=', .space, .set fun c => !isComment c]]

/-- `"%[^=] = %[;#]"` and `"%[^=] %[=]"`, for an empty value. -/
def emptyForms : List (Format Char) :=
  [[.set (· ≠ '='), .space, .lit '=', .space, .set isComment], [.set (· ≠ '='), .space, .set (· = '=')]]

/-- `"[%[^]]"` -/
def headerForm : Format Char := [.lit '[', .set (· ≠ ']')]

/-- The forms of a key line, in order. -/
def keyValue (line : Text) : Option (Text × Text) :=
  (keyForms.findSome? fun f => two isIniSpace f line).or
    ((emptyForms.findSome? fun f => two isIniSpace f line).map fun conversions => (conversions.1, []))

def read (lower : Text → Text) (text : Text) : Reading :=
  let line := iniTrim text
  if line = [] ∨ line.head? = some '#' then .nothing
  else if line.head? = some '[' ∧ line.getLast? = some ']' then
    match one isIniSpace headerForm line with
    | some name => .header (normalizeSectionName lower name)
    -- the section stays as it is
    | none => .nothing
  else
    match keyValue line with
    | some (key, value) => .entry (iniTrim key) (entryValue value)
    | none => .invalid

variable (lower : Text → Text) (number : Line → Nat) (es : List Line)

def Line.reading (e : Line) : Reading := if fits e.before e.final then read lower e.text else .invalid

/-! ### What is read

`number` is the physical line under which a logical line is returned. -/

def Line.syntaxError (e : Line) : Option ConfTextSyntaxError :=
  if e.reading lower = .invalid then
    if fits e.before e.final then
      some ⟨number e, "Not a valid \"key = value\" line, section header, or # comment"⟩
    else some ⟨e.last, "Line is longer than the engine's 510-byte limit"⟩
  else none

/-- The lines that are no headers, each with the name of the last header before it. -/
def inSections : Option Text → List Line → List (Option Text × Line)
  | _, [] => []
  | current, e :: es =>
    match e.reading lower with
    | .header name => inSections (some name) es
    | _ => (current, e) :: inSections current es

def entryIn (name : Option Text) (line : Option Text × Line) : Option ConfTextEntry :=
  match line.2.reading lower with
  | .entry key value => if line.1 = name then some ⟨key, value, number line.2⟩ else none
  | _ => none

/-- The entries under all headers of the section. -/
def entries (name : Option Text) : List ConfTextEntry :=
  (inSections lower none es).filterMap (entryIn lower number name)

/-- The first header of each section. -/
def firstHeaders : List Line → List (Text × Line)
  | [] => []
  | e :: es =>
    match e.reading lower with
    | .header name => (name, e) :: (firstHeaders es).filter (·.1 ≠ name)
    | _ => firstHeaders es

def headless : List ConfTextSection :=
  if entries lower number es none = [] then [] else [⟨none, none, entries lower number es none⟩]

def sectionOf (header : Text × Line) : ConfTextSection :=
  ⟨some header.1, some (number header.2), entries lower number es (some header.1)⟩

def parsed : ParsedConfText where
  sections := headless lower number es ++ (firstHeaders lower es).map (sectionOf lower number es)
  syntaxErrors := es.filterMap (Line.syntaxError lower number)

/-- What the engine reads of the file, with the lines on which the logical lines start. -/
def parse (physical : List Text) : ParsedConfText := parsed lower Line.start (lines physical)

/-! ### A logical line is read alike -/

/-- A line with a key: the text up to `=`, and the rest that begins with it. -/
theorem key_parts {line : Text} (hmem : '=' ∈ line) (hhead : line.head? ≠ some '=') :
    line.takeWhile (· ≠ '=') ≠ [] ∧ (line.dropWhile (· ≠ '=')).head? = some '=' ∧
      (line.dropWhile (· ≠ '=')).dropWhile isIniSpace = line.dropWhile (· ≠ '=') := by
  have hrest : (line.dropWhile (· ≠ '=')).head? = some '=' := by
    clear hhead
    induction line with
    | nil => cases hmem
    | cons c l ih =>
      by_cases hc : c = '='
      · simp [hc]
      · rw [List.dropWhile_cons_of_pos (by simpa using hc)]
        exact ih ((List.mem_cons.1 hmem).resolve_left (Ne.symm hc))
  refine ⟨fun hempty => ?_, hrest, Trim.dropWhile_of_head fun c hc => ?_⟩
  · cases line with
    | nil => cases hmem
    | cons c l =>
      have hc : c ≠ '=' := fun h => hhead (congrArg some h)
      simp [hc] at hempty
  · rw [hrest, Option.mem_some] at hc
    subst hc
    rfl

/-- A format that begins with a key and `=`. -/
theorem sscanf_key {line : Text} (hmem : '=' ∈ line) (hhead : line.head? ≠ some '=') (f : Format Char) :
    sscanf isIniSpace (.set (· ≠ '=') :: .space :: .lit '=' :: .space :: f) line =
      line.takeWhile (· ≠ '=') :: sscanf isIniSpace f (afterEq line) := by
  obtain ⟨hne, hrest, hspace⟩ := key_parts hmem hhead
  rw [sscanf_set hne, sscanf_space, hspace, sscanf_lit hrest, sscanf_space]
  rfl

/-- `"%[^=] %[=]"` -/
theorem two_equals {line : Text} (hmem : '=' ∈ line) (hhead : line.head? ≠ some '=') :
    two isIniSpace [.set (· ≠ '='), .space, .set (· = '=')] line =
      some (line.takeWhile (· ≠ '='), (line.dropWhile (· ≠ '=')).takeWhile (· = '=')) := by
  obtain ⟨hne, hrest, hspace⟩ := key_parts hmem hhead
  obtain ⟨rest, heq⟩ := List.head?_eq_some_iff.1 hrest
  have hrun : (line.dropWhile (· ≠ '=')).takeWhile (· = '=') ≠ [] := by
    rw [heq, List.takeWhile_cons_of_pos (by rfl)]
    exact List.cons_ne_nil _ _
  rw [two, sscanf_set hne, sscanf_space, hspace, sscanf_set hrun]
  rfl

/-- The text after an opening quote, up to the closing one. -/
theorem sscanf_quoted (quote : Char) (rest : Text) :
    sscanf isIniSpace [.lit quote, .set (· ≠ quote), .lit quote] rest =
      if rest.head? = some quote ∧ rest.tail.takeWhile (· ≠ quote) ≠ [] then [rest.tail.takeWhile (· ≠ quote)]
      else [] := by
  by_cases hquote : rest.head? = some quote
  · rw [sscanf_lit hquote]
    by_cases hempty : rest.tail.takeWhile (· ≠ quote) = []
    · rw [sscanf_set_fails hempty, if_neg fun h => h.2 hempty]
    · rw [sscanf_set hempty, if_pos ⟨hquote, hempty⟩]
      exact congrArg _ (sscanf_lits [quote] _)
  · rw [sscanf_lit_fails hquote, if_neg fun h => hquote h.1]

theorem two_none {f : Format Char} {line : Text} (hkey : ¬('=' ∈ line ∧ line.head? ≠ some '=')) :
    two isIniSpace (.set (· ≠ '=') :: .space :: .lit '=' :: f) line = none ∧
      two isIniSpace [.set (· ≠ '='), .space, .set (· = '=')] line = none := by
  by_cases hempty : line.takeWhile (· ≠ '=') = []
  · constructor <;> rw [two, sscanf_set_fails hempty]
  · have hmem : '=' ∉ line := by
      intro hmem
      refine hkey ⟨hmem, fun hhead => hempty ?_⟩
      obtain ⟨l, rfl⟩ := List.head?_eq_some_iff.1 hhead
      rfl
    have hdrop : line.dropWhile (· ≠ '=') = [] := by
      rw [List.dropWhile_eq_nil_iff]
      intro c hc
      exact decide_eq_true fun heq => hmem (heq ▸ hc)
    constructor
    · rw [two, sscanf_set hempty, sscanf_space, hdrop]
      rfl
    · rw [two, sscanf_set hempty, sscanf_space, hdrop]
      rfl

theorem two_key {line : Text} (hkey : '=' ∈ line ∧ line.head? ≠ some '=') (f : Format Char) :
    two isIniSpace (.set (· ≠ '=') :: .space :: .lit '=' :: .space :: f) line =
      match sscanf isIniSpace f (afterEq line) with
      | [value] => some (line.takeWhile (· ≠ '='), value)
      | _ => none := by
  rw [two, sscanf_key hkey.1 hkey.2]
  rcases sscanf isIniSpace f (afterEq line) with _ | ⟨value, _ | ⟨_, _⟩⟩ <;> rfl

/-- The formats of the engine read what `parseKeyValue` reads. -/
theorem keyValue_eq (line : Text) : keyValue line = parseKeyValue line := by
  by_cases hkey : '=' ∈ line ∧ line.head? ≠ some '='
  · have htwo := two_key hkey
    have hempty : (emptyForms.findSome? fun f => two isIniSpace f line).map
        (fun conversions => (conversions.1, ([] : Text))) = some (line.takeWhile (· ≠ '='), []) := by
      simp only [emptyForms, List.findSome?_cons, htwo, two_equals hkey.1 hkey.2]
      rcases sscanf isIniSpace _ (afterEq line) with _ | ⟨value, _ | ⟨_, _⟩⟩ <;> rfl
    rw [parseKeyValue, if_pos hkey, keyValue, hempty]
    simp only [keyForms, List.findSome?_cons, List.findSome?_nil, htwo, sscanf_quoted]
    cases afterEq line with
    | nil => rfl
    | cons quote tail =>
      simp only [rawValue, List.head?_cons, Option.some.injEq, List.tail_cons]
      by_cases hdouble : quote = '\x22' ∧ tail.takeWhile (· ≠ '\x22') ≠ []
      · have hquote : isQuote quote = true ∧ tail.takeWhile (· ≠ quote) ≠ [] := by
          rw [hdouble.1]
          exact ⟨rfl, hdouble.2⟩
        rw [if_pos hdouble, if_pos hquote, hdouble.1]
        rfl
      rw [if_neg hdouble]
      by_cases hsingle : quote = '\x27' ∧ tail.takeWhile (· ≠ '\x27') ≠ []
      · have hquote : isQuote quote = true ∧ tail.takeWhile (· ≠ quote) ≠ [] := by
          rw [hsingle.1]
          exact ⟨rfl, hsingle.2⟩
        rw [if_pos hsingle, if_pos hquote, hsingle.1]
        rfl
      rw [if_neg hsingle]
      have hplain : ¬(isQuote quote = true ∧ tail.takeWhile (· ≠ quote) ≠ []) := by
        rintro ⟨hquote, hquoted⟩
        simp only [isQuote, Bool.or_eq_true, decide_eq_true_eq] at hquote
        rcases hquote with rfl | rfl
        · exact hdouble ⟨rfl, hquoted⟩
        · exact hsingle ⟨rfl, hquoted⟩
      rw [if_neg hplain]
      by_cases hvalue : (quote :: tail).takeWhile (fun c => !isComment c) = []
      · rw [sscanf_set_fails hvalue, hvalue]
        rfl
      · rw [sscanf_set hvalue]
        rfl
  · have hnone := fun f => two_none (f := f) hkey
    have hlast := (two_none (f := []) hkey).2
    rw [parseKeyValue, if_neg hkey]
    simp only [keyValue, keyForms, emptyForms, List.findSome?_cons, List.findSome?_nil, hnone, hlast, Option.map_none,
      Option.or_none]

/-- A logical line is read alike. -/
theorem read_eq (text : Text) : read lower text = readLine lower text := by
  unfold read readLine
  refine if_congr Iff.rfl rfl (ite_congr rfl (fun hheader => ?_) fun _ => ?_)
  · dsimp only
    rw [one, headerForm, sscanf_lit hheader.1]
    by_cases hempty : (iniTrim text).tail.takeWhile (· ≠ ']') = []
    · rw [sscanf_set_fails hempty, if_neg (not_not.2 hempty)]
    · rw [sscanf_set hempty, if_pos hempty]
      rfl
  · rw [keyValue_eq]
    cases parseKeyValue (iniTrim text) <;> rfl

end EngineReader

end CubridWebManager.Conf
