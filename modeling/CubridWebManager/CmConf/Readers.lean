import CubridWebManager.Lib.JsText
import CubridWebManager.Lib.Trim

/-!
# The two readers of cm.conf

`parseTokenActiveTime` looks for one parameter, and `parseCmConfText` reads all of them.  `lower` stands for
`toLowerCase`, of which the results use what `LowerCase` says.
-/

namespace CubridWebManager.CmConf

/-! ### Characters -/

/-- `[ \t]` -/
def isBlank (c : Char) : Bool := c = ' ' || c = '\t'

/-- `[ \t=]` -/
def isSeparator (c : Char) : Bool := isBlank c || c = '='

/-- `[ \t\r\n]` -/
def isCmSpace (c : Char) : Bool := isBlank c || c = '\r' || c = '\n'

/-- What `.` does not match. -/
def isLineTerminator (c : Char) : Bool := c = '\n' || c = '\r' || c = '\u2028' || c = '\u2029'

/-- `toLowerCase`: white space and `#` stay as they are. -/
structure LowerCase where
  lower : Text → Text
  keeps : ∀ (t : Text) (c : Char), c ∈ t → Text.isSpace c = true ∨ c = '#' → c ∈ lower t

/-- The lower case of ASCII text. -/
def asciiLower : LowerCase where
  lower t := t.map Char.toLower
  keeps t c hc hkept := by
    refine List.mem_map.2 ⟨c, hc, ?_⟩
    unfold Char.toLower
    rw [dif_neg]
    rintro ⟨hlo, hhi⟩
    have hlo : 65 ≤ c.toNat := hlo
    have hhi : c.toNat ≤ 90 := hhi
    rcases hkept with hspace | rfl
    · simp only [Text.isSpace, Bool.or_eq_true, Bool.and_eq_true, decide_eq_true_eq, beq_iff_eq] at hspace
      omega
    · exact absurd hlo (by decide)

/-- `TOKEN_ACTIVE_TIME_NAMES`. -/
def tokenActiveTimeNames : List Text := ["token_active_time".toList, "tokenactivetime".toList]

/-! ### `parseTokenActiveTime` -/

/-- `CMS_DEFAULT_TOKEN_ACTIVE_TIME_SEC`. -/
def cmsDefaultTokenActiveTimeSec : Nat := 7200

/-- `/^([^ \t=]+)[ \t]*=?[ \t]*(.*)$/`: the key and what is left of the line. -/
def matchKeyValue (text : Text) : Option (Text × Text) :=
  let key := text.takeWhile fun c => !isSeparator c
  let rest := (text.dropWhile fun c => !isSeparator c).dropWhile isBlank
  let value := if rest.head? = some '=' then rest.tail.dropWhile isBlank else rest
  if key = [] ∨ value.any isLineTerminator then none else some (key, value)

/-- What the line makes `raw`. -/
def tokenText (L : LowerCase) (line : Text) : Option Text :=
  let text := Trim.trim Text.isSpace line
  if text = [] ∨ text.head? = some '#' then none
  else
    (matchKeyValue text).bind fun (key, value) =>
      if L.lower key ∈ tokenActiveTimeNames then some (Trim.trim Text.isSpace value) else none

/-- The last value of `raw`. -/
def rawTokenActiveTime (L : LowerCase) (lines : List Text) : Option Text :=
  lines.foldl (fun raw line => (tokenText L line).or raw) none

/-- The seconds that a text gives: one to ten digits that are not zero. -/
def secondsOf (raw : Text) : Option Nat :=
  if raw ≠ [] ∧ raw.length ≤ 10 ∧ raw.all Char.isDigit ∧ 0 < Nat.ofDigitChars 10 raw 0 then
    some (Nat.ofDigitChars 10 raw 0)
  else none

def parseTokenActiveTime (L : LowerCase) (lines : List Text) : Nat :=
  ((rawTokenActiveTime L lines).bind secondsOf).getD cmsDefaultTokenActiveTimeSec

/-! ### `parseCmConfText` -/

structure CmConfEntry where
  key : Text
  value : Text
  lineNo : Nat
  deriving DecidableEq

structure ParsedCmConf where
  entries : List CmConfEntry
  skipped : List CmConfEntry
  deriving DecidableEq

/-- The value in the text after the key: one separator goes, and then one `=`. -/
def valueAfter (afterKey : Text) : Text :=
  let value := Trim.trim isCmSpace afterKey.tail
  if value.head? = some '=' then Trim.trim isCmSpace value.tail else value

/-- The key of a line with its value, which may be empty. -/
def readLine (raw : Text) (lineNo : Nat) : Option CmConfEntry :=
  let line := Trim.trim isCmSpace raw
  if line = [] ∨ line.head? = some '#' then none
  else
    let named := line.dropWhile isSeparator
    let key := named.takeWhile fun c => !isSeparator c
    if key = [] then none else some ⟨key, valueAfter (named.drop key.length), lineNo⟩

def parseCmConfText (lines : List Text) : ParsedCmConf :=
  let read := lines.zipIdx.filterMap fun (raw, i) => readLine raw (i + 1)
  { entries := read.filter fun e => e.value ≠ []
    skipped := read.filter fun e => e.value = [] }

/-- The last entry that gives the parameter. -/
def lastTokenEntry (L : LowerCase) (conf : ParsedCmConf) : Option CmConfEntry :=
  (conf.entries.filter fun e => L.lower e.key ∈ tokenActiveTimeNames).getLast?

example : parseTokenActiveTime asciiLower ["#token_active_time=60".toList, "token_active_time = 3600".toList] = 3600 ∧
    parseTokenActiveTime asciiLower ["TokenActiveTime=120".toList, "token_active_time\t900".toList] = 900 := by
  decide

end CubridWebManager.CmConf
