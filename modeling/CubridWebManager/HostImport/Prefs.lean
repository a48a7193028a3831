import CubridWebManager.Lib.CodeUnits

/-!
# Preferences files

How a value is read from a `.prefs` or `.properties` file of the desktop manager: the physical lines are joined where
one ends in a backslash, each logical line is split into key and value, and both are unescaped.
-/

namespace CubridWebManager.HostImport

open CodeUnits

def stripBom : CodeUnits → CodeUnits
  | 0xfeff :: text => text
  | text => text

/-! ### Unescaping -/

/-- The value of a digit of `[0-9a-fA-F]`. -/
def hexValue (u : UInt16) : Option Nat :=
  let n := u.toNat
  if 48 ≤ n ∧ n ≤ 57 then some (n - 48)
  else if 65 ≤ n ∧ n ≤ 70 then some (n - 55)
  else if 97 ≤ n ∧ n ≤ 102 then some (n - 87)
  else none

/-- `parseInt(hex, 16)`, where `hex` is four digits. -/
def parseHex (a b c d : UInt16) : Option UInt16 :=
  match hexValue a, hexValue b, hexValue c, hexValue d with
  | some a, some b, some c, some d => some (UInt16.ofNat (((a * 16 + b) * 16 + c) * 16 + d))
  | _, _, _, _ => none

/-- What an escaped unit other than `u` stands for. -/
def escapedUnit (next : UInt16) : UInt16 :=
  if next = unit 'n' then unit '\n'
  else if next = unit 'r' then unit '\r'
  else if next = unit 't' then unit '\t'
  else if next = unit 'f' then 12
  else next

def unescapeJavaProperties : CodeUnits → CodeUnits
  | [] => []
  | [c] => [c]
  | c :: next :: rest =>
    if c ≠ unit '\\' then c :: unescapeJavaProperties (next :: rest)
    else if next ≠ unit 'u' then escapedUnit next :: unescapeJavaProperties rest
    else
      match rest with
      | h₁ :: h₂ :: h₃ :: h₄ :: rest' =>
        match parseHex h₁ h₂ h₃ h₄ with
        | some u => u :: unescapeJavaProperties rest'
        | none => next :: unescapeJavaProperties (h₁ :: h₂ :: h₃ :: h₄ :: rest')
      | rest => next :: unescapeJavaProperties rest

/-! ### Lines -/

/-- `text.replace(/\r\n/g, '\n')` -/
def replaceCrLf : CodeUnits → CodeUnits
  | [] => []
  | [c] => [c]
  | c :: c' :: rest =>
    if c = unit '\r' ∧ c' = unit '\n' then unit '\n' :: replaceCrLf rest else c :: replaceCrLf (c' :: rest)

def physicalLines (text : CodeUnits) : List CodeUnits :=
  ((replaceCrLf (stripBom text)).map fun c => if c = unit '\r' then unit '\n' else c).splitOn (unit '\n')

def endsWithBackslash (line : CodeUnits) : Bool := line.getLast? = some (unit '\\')

/-- The logical lines, `current` being the one that goes on. -/
def joinLines : Option CodeUnits → List CodeUnits → List CodeUnits
  | current, [] => current.toList
  | current, raw :: physical =>
    let line := match current with
      | none => raw
      | some current => current ++ raw.dropWhile isSpace
    if endsWithBackslash line then joinLines (some line.dropLast) physical else line :: joinLines none physical

def joinPropertyContinuations (text : CodeUnits) : List CodeUnits := joinLines none (physicalLines text)

/-! ### Properties -/

def isPropertyWhitespace (c : UInt16) : Bool := c = unit ' ' || c = unit '\t' || c = 12

def isPropertyKeyTerminator (c : UInt16) : Bool := isPropertyWhitespace c || c = unit '=' || c = unit ':'

/-- The line before and from the first terminator that is not escaped. -/
def splitAtKeyEnd : CodeUnits → Option (CodeUnits × CodeUnits)
  | [] => none
  | [c] => if isPropertyKeyTerminator c then some ([], [c]) else none
  | c :: c' :: rest =>
    if c = unit '\\' then (splitAtKeyEnd rest).map fun (key, rest) => (c :: c' :: key, rest)
    else if isPropertyKeyTerminator c then some ([], c :: c' :: rest)
    else (splitAtKeyEnd (c' :: rest)).map fun (key, rest) => (c :: key, rest)

/-- What follows the separator. -/
def valuePart (rest : CodeUnits) : CodeUnits :=
  let afterKey := rest.dropWhile isPropertyWhitespace
  let afterSeparator := match afterKey with
    | c :: value => if c = unit '=' ∨ c = unit ':' then value else afterKey
    | [] => []
  afterSeparator.dropWhile isPropertyWhitespace

structure Property where
  key : CodeUnits
  rawValue : CodeUnits

def parsePropertyLine (line : CodeUnits) : Option Property :=
  let trimmed := Trim.trim isSpace line
  if trimmed = [] ∨ trimmed.head? = some (unit '#') ∨ trimmed.head? = some (unit '!') then none
  else
    match splitAtKeyEnd trimmed with
    | some (key, rest) => some ⟨unescapeJavaProperties key, valuePart rest⟩
    | none => some ⟨unescapeJavaProperties trimmed, []⟩

def extractPropertyValueForKey (line propertyKey : CodeUnits) : Option CodeUnits :=
  match parsePropertyLine line with
  | some parsed => if parsed.key = propertyKey then some parsed.rawValue else none
  | none => none

/-- The value of the first line with the key, if it is not blank. -/
def valueOfLine (propertyKey line : CodeUnits) : Option CodeUnits :=
  match extractPropertyValueForKey line propertyKey with
  | some rawValue =>
    let xml := Trim.trim isSpace (unescapeJavaProperties rawValue)
    if xml = [] then none else some xml
  | none => none

def extractXmlPropertyFromPrefs (rawText propertyKey : CodeUnits) : Option CodeUnits :=
  let text := stripBom rawText
  if (Trim.trim isSpace text).head? = some (unit '<') then none
  else (joinPropertyContinuations text).findSome? (valueOfLine propertyKey)

example : extractXmlPropertyFromPrefs (ofText "#c\na\\ b=x\\u00e9\\=\\\n  y\n") (ofText "a b") = some (ofText "xé=y") := by
  decide +kernel

end CubridWebManager.HostImport
