import CubridWebManager.Conf.ParseConfText

/-!
# Edits of cubrid.conf

`editServerList`, which passes the database names of the `[service] server=` keys through an edit, and
`renameDbSection`, which renames the header of a database's own section.  Both find what they edit with readers of
their own: `logicalLine` and `editServerValue` for a key, `sectionOf` for a header.
-/

namespace CubridWebManager.Conf

/-! ### The `server=` list -/

/-- The physical lines that the key starting with the first of `lines` spans, and the logical line they make. -/
def logicalLineFrom : List Text → Text → Nat → Nat × Text
  | [], line, i => (i - 1, line)
  | physical :: rest, line, i =>
    let stripped := iniTrimEnd (dropCr physical)
    if stripped.getLast? ≠ some '\\' then (i, line ++ physical)
    else logicalLineFrom rest (line ++ stripped.dropLast) (i + 1)

/-- `logicalLine`: the index of the last physical line, and the logical line. -/
def logicalLine (confdata : List Text) (start : Nat) : Nat × Text :=
  logicalLineFrom (confdata.drop start) [] start

/-- A line around the text of its value. -/
structure ValueSpan where
  before : Text
  value : Text
  after : Text
  deriving DecidableEq, Repr

/-- Where the value of a line is: inside the quotes, or up to the first `;` or `#`. -/
def valueSpan (line : Text) : ValueSpan :=
  let upToEq := if '=' ∈ line then line.takeWhile (· ≠ '=') ++ ['='] else []
  let rest := line.drop upToEq.length
  let spaces := rest.takeWhile isIniSpace
  match rest.dropWhile isIniSpace with
  | [] => ⟨upToEq ++ spaces, [], []⟩
  | c :: tail =>
    if isQuote c then ⟨upToEq ++ spaces ++ [c], tail.takeWhile (· ≠ c), tail.dropWhile (· ≠ c)⟩
    else ⟨upToEq ++ spaces, (c :: tail).takeWhile fun c => !isComment c, (c :: tail).dropWhile fun c => !isComment c⟩

/-- The pieces of the list between its commas, with their spaces. -/
def listTokens (value : Text) : List Text :=
  if value.trim = [] then [] else value.trim.splitOn ','

/-- `.map(trim).filter(Boolean)` -/
def tokenNames (tokens : List Text) : List Text := (tokens.map Text.trim).filter (· ≠ [])

/-- The spaces that a name at this position of the list comes after: those that were there, but one space for the
spaces that the indentation of a continuation line has left. -/
def leadOf (raw : List Text) (continued : Bool) (i : Nat) : Text :=
  let ws := (raw.getD i []).takeWhile Text.isSpace
  if continued ∧ 0 < i ∧ ws ≠ [] then [' '] else ws

/-- The spaces that follow a name at this position. -/
def trailOf (raw : List Text) (i : Nat) : Text := (raw.getD i []).drop (raw.getD i []).trimEnd.length

/-- The names in the positions of the list. -/
def layNames (raw : List Text) (continued : Bool) (edited : List Text) : Text :=
  let sepLead := if 1 < raw.length then leadOf raw continued 1 else []
  let tokens := edited.mapIdx fun i name =>
    if i < raw.length then leadOf raw continued i ++ name ++ trailOf raw i else sepLead ++ name
  Text.trimEnd (List.intercalate [','] tokens)

def editServerValue (line : Text) (edit : List Text → List Text) (continued : Bool) : Option Text :=
  let span := valueSpan line
  let pre := span.value.takeWhile Text.isSpace
  -- the last occurrence of the trimmed value ends where the trailing spaces begin
  let post := span.value.drop (pre.length + span.value.trim.length)
  let raw := listTokens span.value
  let names := tokenNames raw
  let edited := edit names
  if edited = names then none
  else some (span.before ++ pre ++ layNames raw continued edited ++ post ++ span.after)

/-- The `[service] server=` keys, in file order. -/
def serverEntries (lower : Text → Text) (confdata : List Text) : List ConfTextEntry :=
  match (parseConfText lower confdata).sections.find? fun s => s.name = some "service".toList with
  | none => []
  | some s => s.entries.filter fun e => lower e.key = "server".toList

/-- `splice(start, count, line)` -/
def splice (lines : List Text) (start count : Nat) (line : Text) : List Text :=
  lines.take start ++ line :: lines.drop (start + count)

/-- The keys that are edited. -/
def editedEntries (lower : Text → Text) (confdata : List Text) (lastOnly : Bool) : List ConfTextEntry :=
  let entries := serverEntries lower confdata
  if lastOnly then entries.drop (entries.length - 1) else entries

/-- One pass of the loop of `editServerList`; `none` is `confdata` itself. -/
def editEntry (confdata : List Text) (edit : List Text → List Text) (updated : Option (List Text))
    (entry : ConfTextEntry) : Option (List Text) :=
  let start := entry.lineNo - 1
  let (stop, line) := logicalLine confdata start
  match editServerValue line edit (start < stop) with
  | none => updated
  | some rewritten => some (splice (updated.getD confdata) start (stop - start + 1) rewritten)

/-- `editServerList`: the new lines, or `none` where it returns `confdata` itself. -/
def editServerList (lower : Text → Text) (confdata : List Text) (edit : List Text → List Text) (lastOnly : Bool) :
    Option (List Text) :=
  (editedEntries lower confdata lastOnly).reverse.foldl (editEntry confdata edit) none

/-- The line of the `[service]` header. -/
def serviceHeaderLine (lower : Text → Text) (confdata : List Text) : Option Nat :=
  ((parseConfText lower confdata).sections.find? fun s => s.name = some "service".toList).bind ConfTextSection.lineNo

/-- `listNames` -/
def listNames (value : Text) : List Text := tokenNames (value.splitOn ',')

def isAutostart (lower : Text → Text) (confdata : List Text) (dbname : Text) : Bool :=
  (serverEntries lower confdata).getLast?.any fun entry => dbname ∈ listNames entry.value

/-- The edit of `renameAutostart`. -/
def renameNames (oldName newName : Text) (names : List Text) : List Text :=
  if oldName ∈ names then (names.map fun name => if name = oldName then newName else name).eraseDups else names

def renameAutostart (lower : Text → Text) (confdata : List Text) (oldName newName : Text) : Option (List Text) :=
  editServerList lower confdata (renameNames oldName newName) false

def removeAutostart (lower : Text → Text) (confdata : List Text) (dbname : Text) : Option (List Text) :=
  editServerList lower confdata (fun names => names.filter (· ≠ dbname)) false

/-! ### The section of a database -/

/-- What `.` does not match. -/
def isLineTerminator (c : Char) : Bool := c = '\n' || c = '\r' || c = '\u2028' || c = '\u2029'

/-- `sectionOf`: the name in a line that `/^\[\s*(.*?)\s*\]$/` matches once it is trimmed. -/
def sectionOf (lower : Text → Text) (line : Text) : Option Text :=
  match line.trim with
  | '[' :: rest =>
    if rest.getLast? = some ']' then
      let name := Text.trim rest.dropLast
      if name.any isLineTerminator then none
      else
        match name with
        | '@' :: db => some ('@' :: Text.trim db)
        | name => some (lower name)
    else none
  | _ => none

/-- The replacement of `/^(\s*\[\s*@\s*)(.*?)(\s*\]\s*)$/` by its first group, the new name and its last group. -/
def renameHeader (newName : Text) (line : Text) : Text :=
  let afterBracket := (line.dropWhile Text.isSpace).tail
  let afterAt := (afterBracket.dropWhile Text.isSpace).tail
  let rest := afterAt.dropWhile Text.isSpace
  let closed := Text.trimEnd rest
  let name := Text.trimEnd closed.dropLast
  if (line.dropWhile Text.isSpace).head? = some '[' ∧ (afterBracket.dropWhile Text.isSpace).head? = some '@' ∧
      closed.getLast? = some ']' ∧ !name.any isLineTerminator then
    line.take (line.length - rest.length) ++ newName ++ rest.drop name.length
  else line

structure RenamedSection where
  lines : List Text
  kept : Bool
  deriving DecidableEq, Repr

def renameDbSection (lower : Text → Text) (confdata : List Text) (oldName newName : Text) : RenamedSection :=
  let hasOld := confdata.any fun line => sectionOf lower line = some ('@' :: oldName)
  let hasNew := confdata.any fun line => sectionOf lower line = some ('@' :: newName)
  if !hasOld then ⟨confdata, false⟩
  else if hasNew then ⟨confdata, true⟩
  else
    ⟨confdata.map fun line => if sectionOf lower line = some ('@' :: oldName) then renameHeader newName line else line,
      false⟩

/-- A line that is neither blank nor a comment. -/
def isSignificant (line : Text) : Bool := line.trim ≠ [] && line.trim.head? ≠ some '#'

/-- The loop of `forgetDbInCubridConf`, which leaves out the sections of the database.  `inside` says whether the lines
are in one, and `tail` are the comments and blank lines that have followed its last key so far. -/
def dropSection (lower : Text → Text) (dbname : Text) : Bool → List Text → List Text → List Text
  | _, tail, [] => tail
  | inside, tail, line :: rest =>
    match sectionOf lower line with
    | some name =>
      if name = '@' :: dbname then tail ++ dropSection lower dbname true [] rest
      else tail ++ line :: dropSection lower dbname false [] rest
    | none =>
      if !inside then line :: dropSection lower dbname false [] rest
      else if isSignificant line then dropSection lower dbname true [] rest
      else dropSection lower dbname true (tail ++ [line]) rest

def forgetDbInCubridConf (lower : Text → Text) (confdata : List Text) (dbname : Text) : Option (List Text) :=
  if confdata.any fun line => sectionOf lower line = some ('@' :: dbname) then
    let kept := dropSection lower dbname false [] confdata
    some ((removeAutostart lower kept dbname).getD kept)
  else removeAutostart lower confdata dbname

/-! ### Names -/

/-- A plain database name. -/
def IsPlainName (name : Text) : Prop :=
  name ≠ [] ∧ ∀ c ∈ name, c ≠ ',' ∧ Text.isSpace c = false ∧ isQuote c = false ∧ isComment c = false ∧ c ≠ '\\'

instance (name : Text) : Decidable (IsPlainName name) := @instDecidableAnd _ _ inferInstance (List.decidableBAll _ _)

end CubridWebManager.Conf
