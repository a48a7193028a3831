import CubridWebManager.Lib.JsText
import CubridWebManager.Lib.Trim

/-!
# Reading cubrid.conf

`parseConfText`, the port of the engine's own INI reader: physical lines are joined to logical lines, and each logical
line is a blank or a comment, a section header, or a key with its value.  `lower` stands for `toLowerCase`, of which the
results use what `LowerCase` says.
-/

namespace CubridWebManager.Conf

/-! ### What is read -/

structure ConfTextEntry where
  key : Text
  value : Text
  lineNo : Nat
  deriving DecidableEq, Repr

/-- `name` is `none` for the keys before any header. -/
structure ConfTextSection where
  name : Option Text
  lineNo : Option Nat := none
  entries : List ConfTextEntry := []
  deriving DecidableEq, Repr

structure ConfTextSyntaxError where
  lineNo : Nat
  message : String
  deriving DecidableEq, Repr

structure ParsedConfText where
  sections : List ConfTextSection
  syntaxErrors : List ConfTextSyntaxError
  deriving DecidableEq, Repr

/-! ### Characters -/

/-- `INI_MAX_LINE_LENGTH`. -/
def iniMaxLineLength : Nat := 510

def isIniSpace (c : Char) : Bool :=
  c = ' ' || c = '\t' || c = '\n' || c = '\x0b' || c = '\x0c' || c = '\r'

def iniTrimEnd (s : Text) : Text := s.rdropWhile isIniSpace

def iniTrim (s : Text) : Text := iniTrimEnd (s.dropWhile isIniSpace)

def utf8Length (t : Text) : Nat := (t.map Char.utf8Size).sum

def isQuote (c : Char) : Bool := c = '\x22' || c = '\x27'

/-- What starts a comment inside a line. -/
def isComment (c : Char) : Bool := c = ';' || c = '#'

/-- `.replace(/\r$/, '')` -/
def dropCr (t : Text) : Text := if t.getLast? = some '\r' then t.dropLast else t

/-- `toLowerCase`: it neither makes nor removes an `@` or a `[` at the front of a text. -/
structure LowerCase where
  lower : Text → Text
  head_iff : ∀ (t : Text) (c : Char), c = '@' ∨ c = '[' → ((lower t).head? = some c ↔ t.head? = some c)

theorem toLower_eq_iff {c : Char} (hc : c = '@' ∨ c = '[') (d : Char) : d.toLower = c ↔ d = c := by
  unfold Char.toLower
  split
  · rename_i h
    have hlo : 65 ≤ d.val.toNat := h.1
    have hhi : d.val.toNat ≤ 90 := h.2
    constructor
    · intro heq
      have hval : (d.val + ('a'.val - 'A'.val)).toNat = c.val.toNat := congrArg (fun c : Char => c.val.toNat) heq
      have hsum : (d.val + ('a'.val - 'A'.val)).toNat = d.val.toNat + 32 := by
        rw [UInt32.toNat_add]
        have hgap : ('a'.val - 'A'.val).toNat = 32 := rfl
        omega
      rcases hc with rfl | rfl
      · have hat : '@'.val.toNat = 64 := rfl
        omega
      · have hbracket : '['.val.toNat = 91 := rfl
        omega
    · rintro rfl
      rcases hc with rfl | rfl
      · exact absurd hlo (by decide)
      · exact absurd hhi (by decide)
  · exact Iff.rfl

/-- The lower case of ASCII text. -/
def asciiLower : LowerCase where
  lower t := t.map Char.toLower
  head_iff t c hc := by
    cases t with
    | nil => simp
    | cons d t => simp [toLower_eq_iff hc]

/-! #### Trimming -/

theorem isSpace_of_isIniSpace {c : Char} (h : isIniSpace c = true) : Text.isSpace c = true := by
  simp only [isIniSpace, Bool.or_eq_true, decide_eq_true_eq] at h
  rcases h with ((((rfl | rfl) | rfl) | rfl) | rfl) | rfl <;> rfl

theorem iniTrim_eq (s : Text) : iniTrim s = Trim.trim isIniSpace s := rfl

theorem trim_eq (s : Text) : s.trim = Trim.trim Text.isSpace s := rfl

theorem dropCr_append (s : Text) {t : Text} (h : t ≠ []) : dropCr (s ++ t) = s ++ dropCr t := by
  unfold dropCr
  rw [List.getLast?_append_of_ne_nil _ h]
  split
  · exact List.dropLast_append_of_ne_nil h
  · rfl

theorem iniTrimEnd_dropCr (s : Text) : iniTrimEnd (dropCr s) = iniTrimEnd s := by
  unfold dropCr
  split
  · rename_i hlast
    obtain ⟨t, rfl⟩ := List.getLast?_eq_some_iff.1 hlast
    rw [List.dropLast_concat]
    exact (Trim.rdropWhile_append_all (fun x hx => by rw [List.mem_singleton.1 hx]; rfl) t).symm
  · rfl

@[simp] theorem utf8Length_append (s t : Text) : utf8Length (s ++ t) = utf8Length s + utf8Length t := by
  simp [utf8Length]

/-! ### One logical line -/

/-- The line from the first character after `=` and the spaces that follow it. -/
def afterEq (line : Text) : Text := (line.dropWhile (· ≠ '=')).tail.dropWhile isIniSpace

/-- The value in the text after `=`, as the patterns of `sscanf` find it. -/
def rawValue (rest : Text) : Text :=
  match rest with
  | [] => []
  | quote :: tail =>
    let quoted := tail.takeWhile (· ≠ quote)
    if isQuote quote ∧ quoted ≠ [] then quoted else (quote :: tail).takeWhile fun c => !isComment c

def parseKeyValue (line : Text) : Option (Text × Text) :=
  if '=' ∈ line ∧ line.head? ≠ some '=' then some (line.takeWhile (· ≠ '='), rawValue (afterEq line)) else none

def normalizeSectionName (lower : Text → Text) (raw : Text) : Text :=
  match iniTrim raw with
  | '@' :: rest => '@' :: iniTrim rest
  | '%' :: rest => lower ('%' :: iniTrim rest)
  | name => lower name

/-- `""` and `''` are read as an empty value. -/
def entryValue (raw : Text) : Text :=
  let value := iniTrim raw
  if value = ['\x22', '\x22'] ∨ value = ['\x27', '\x27'] then [] else value

/-- What a logical line says. -/
inductive Reading
  /-- A blank line, a comment, or `[]`. -/
  | nothing
  | header (name : Text)
  | entry (key value : Text)
  | invalid
  deriving DecidableEq, Repr

def readLine (lower : Text → Text) (accumulated : Text) : Reading :=
  let line := iniTrim accumulated
  if line = [] ∨ line.head? = some '#' then .nothing
  else if line.head? = some '[' ∧ line.getLast? = some ']' then
    let inner := line.tail.takeWhile (· ≠ ']')
    if inner ≠ [] then .header (normalizeSectionName lower inner) else .nothing
  else
    match parseKeyValue line with
    | none => .invalid
    | some (key, value) => .entry (iniTrim key) (entryValue value)

/-! ### The file -/

/-- What has been read: `order` are the sections in the order of their first headers, and `current` is the name of the
one that keys go to. -/
structure Sections where
  order : List ConfTextSection
  current : Option Text
  syntaxErrors : List ConfTextSyntaxError
  deriving DecidableEq, Repr

namespace Sections

def start : Sections := ⟨[⟨none, none, []⟩], none, []⟩

variable (s : Sections)

/-- `current = sectionFor(name, lineNo)` -/
def sectionFor (name : Text) (lineNo : Nat) : Sections :=
  { s with
    order := if some name ∈ s.order.map ConfTextSection.name then s.order
      else s.order ++ [⟨some name, some lineNo, []⟩]
    current := some name }

/-- `current.entries.push(..)` -/
def pushEntry (e : ConfTextEntry) : Sections :=
  { s with order := s.order.map fun c => if c.name = s.current then { c with entries := c.entries ++ [e] } else c }

def pushError (lineNo : Nat) (message : String) : Sections :=
  { s with syntaxErrors := s.syntaxErrors ++ [⟨lineNo, message⟩] }

/-- The logical line that starts on `lineNo` says this. -/
def apply (lineNo : Nat) : Reading → Sections
  | .nothing => s
  | .header name => s.sectionFor name lineNo
  | .entry key value => s.pushEntry ⟨key, value, lineNo⟩
  | .invalid => s.pushError lineNo "Not a valid \"key = value\" line, section header, or # comment"

end Sections

/-- The state of the loop of `parseConfText`. -/
structure Reader extends Sections where
  pending : Text
  pendingStart : Nat
  deriving DecidableEq, Repr

namespace Reader

/-- One pass of the loop, over the physical line `physical` with number `lineNo`. -/
def readPhysical (lower : Text → Text) (r : Reader) (physical : Text) (lineNo : Nat) : Reader :=
  let pendingStart := if r.pending = [] then lineNo else r.pendingStart
  let raw := dropCr physical
  let accumulated := r.pending ++ iniTrimEnd raw
  if iniMaxLineLength < utf8Length r.pending + utf8Length raw then
    ⟨r.pushError lineNo "Line is longer than the engine's 510-byte limit", [], pendingStart⟩
  else if accumulated.getLast? = some '\\' then ⟨r.toSections, accumulated.dropLast, pendingStart⟩
  else ⟨r.apply pendingStart (readLine lower accumulated), [], pendingStart⟩

/-- The loop, from the line with number `lineNo`. -/
def readAll (lower : Text → Text) : Reader → List Text → Nat → Reader
  | r, [], _ => r
  | r, physical :: rest, lineNo => (r.readPhysical lower physical lineNo).readAll lower rest (lineNo + 1)

end Reader

def parseConfText (lower : Text → Text) (physical : List Text) : ParsedConfText :=
  let r := Reader.readAll lower ⟨.start, [], 0⟩ physical 1
  { sections := r.order.filter fun s => s.name ≠ none ∨ s.entries ≠ []
    syntaxErrors := r.syntaxErrors }

end CubridWebManager.Conf
