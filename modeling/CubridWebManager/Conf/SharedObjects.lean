import CubridWebManager.Conf.ConfigParams

/-!
# What a file leaves in shared objects

The object of one file shares `Object.prototype` and the functions that it inherits with every other object.  `Parsed`
adds to the sections of a file what it sets on those functions, and `getConfigParam` looks a parameter up in what an
object has, what is shared and what JavaScript has by itself.
-/

namespace CubridWebManager.Conf

/-! ### What JavaScript has by itself -/

/-- The properties of `Object` that other functions do not have. -/
def objectStatics : List Text :=
  ["prototype", "assign", "create", "defineProperties", "defineProperty", "entries", "freeze", "fromEntries",
    "getOwnPropertyDescriptor", "getOwnPropertyDescriptors", "getOwnPropertyNames", "getOwnPropertySymbols",
    "getPrototypeOf", "groupBy", "hasOwn", "is", "isExtensible", "isFrozen", "isSealed", "keys", "preventExtensions",
    "seal", "setPrototypeOf", "values"].map String.toList

/-- The properties of an inherited function, those of all objects apart. -/
def functionKeys (name : Text) : List Text :=
  ["name", "length", "caller", "arguments", "apply", "bind", "call", "toString", "constructor"].map String.toList ++
    if name = "constructor".toList then objectStatics else []

/-- The methods of texts. -/
def textMethods : List Text :=
  ["at", "charAt", "charCodeAt", "codePointAt", "concat", "constructor", "endsWith", "includes", "indexOf",
    "isWellFormed", "lastIndexOf", "localeCompare", "match", "matchAll", "normalize", "padEnd", "padStart", "repeat",
    "replace", "replaceAll", "search", "slice", "split", "startsWith", "substring", "toLocaleLowerCase",
    "toLocaleUpperCase", "toLowerCase", "toString", "toUpperCase", "toWellFormed", "trim", "trimEnd", "trimStart",
    "valueOf", "anchor", "big", "blink", "bold", "fixed", "fontcolor", "fontsize", "italics", "link", "small", "strike",
    "sub", "substr", "sup", "trimLeft", "trimRight", "length"].map String.toList

/-- A name that no object inherits anything under. -/
def IsPlain (name : Text) : Prop := name ≠ protoKey ∧ name ∉ methodNames

instance (name : Text) : Decidable (IsPlain name) := inferInstanceAs (Decidable (name ≠ protoKey ∧ name ∉ methodNames))

/-! ### Shared objects -/

/-- What files have set on `Object.prototype`, and on the functions that objects inherit. -/
structure Shared where
  prototype : Dict Text Text
  functions : Dict (Text × Text) Text
  deriving DecidableEq

namespace Shared

def pristine : Shared := ⟨.empty, .empty⟩

/-- What a property is read as. -/
inductive ParamValue
  | undefined
  | text (value : Text)
  /-- An object, a function, a number or `null` that JavaScript has by itself, or an error. -/
  | builtin
  deriving DecidableEq

/-- `object[key]`, for an object with these properties of its own. -/
def objectProperty (σ : Shared) (own : Dict Text Text) (key : Text) : ParamValue :=
  match (own.get? key).or (σ.prototype.get? key) with
  | some value => .text value
  | none => if IsPlain key then .undefined else .builtin

/-- `({})[name][key]`, for the name of an inherited function. -/
def functionProperty (σ : Shared) (name key : Text) : ParamValue :=
  match σ.functions.get? (name, key) with
  | some value => .text value
  | none => if key ∈ functionKeys name then .builtin else σ.objectProperty .empty key

/-- `text[key]`, for a text that is read from `Object.prototype`. -/
def textProperty (σ : Shared) (text key : Text) : ParamValue :=
  if key ∈ textMethods ∨ key ∈ (List.range (Text.utf16Length text)).map (Nat.toDigits 10) then .builtin
  else σ.objectProperty .empty key

end Shared

open Shared

/-- `grouped[section]?.[key]` -/
def getConfigParam (σ : Shared) (grouped : Dict Text (Dict Text Text)) (name key : Text) : ParamValue :=
  match grouped.get? name with
  | some params => σ.objectProperty params key
  | none =>
    if name = protoKey then σ.objectProperty .empty key
    else
      match σ.prototype.get? name with
      | some text => σ.textProperty text key
      | none => if name ∈ methodNames then σ.functionProperty name key else .undefined

/-! ### The loop -/

/-- The object of a file with what the file has set on shared objects. -/
structure Parsed extends Grouped where
  functions : Dict (Text × Text) Text
  deriving DecidableEq

namespace Parsed

def shared (p : Parsed) : Shared := ⟨p.prototype, p.functions⟩

def start : Parsed := ⟨⟨.empty, .empty⟩, .empty⟩

/-- The entries that are set on the function that `grouped[name]` is. -/
def assignFunction (lower : Text → Text) (functions : Dict (Text × Text) Text) (name : Text)
    (entries : List ConfTextEntry) : Dict (Text × Text) Text :=
  entries.foldl (fun d e => if lower e.key = protoKey then d else d.set (name, lower e.key) e.value) functions

/-- One pass of the loop of `parseConfigParamsBySection`; `none` where it throws a TypeError. -/
def addSection (lower : Text → Text) (p : Parsed) (s : ConfTextSection) : Option Parsed :=
  (p.toGrouped.addSection lower s).map fun g =>
    { toGrouped := g
      functions :=
        match s.name.map p.paramsObject, s.name with
        | some .method, some name => assignFunction lower p.functions name s.entries
        | _, _ => p.functions }

/-- `parseConfigParamsBySection`, where no file has set anything before. -/
def parse (lower : Text → Text) (confdata : List Text) : Option Parsed :=
  (parseConfText lower confdata).sections.foldlM (addSection lower) start

end Parsed

section loop

variable {lower : Text → Text} {p : Parsed}

theorem addSection_toGrouped (s : ConfTextSection) :
    (p.addSection lower s).map Parsed.toGrouped = p.toGrouped.addSection lower s := by
  rw [Parsed.addSection, Option.map_map]
  exact Option.map_id'

theorem foldlM_toGrouped (ss : List ConfTextSection) :
    (ss.foldlM (Parsed.addSection lower) p).map Parsed.toGrouped =
      ss.foldlM (Grouped.addSection lower) p.toGrouped := by
  induction ss generalizing p with
  | nil => rfl
  | cons s ss ih =>
    rw [List.foldlM_cons, List.foldlM_cons, ← addSection_toGrouped]
    cases p.addSection lower s with
    | none => rfl
    | some p' => exact ih

/-- The sections are those of `parseConfigParamsBySection`. -/
theorem parse_toGrouped (confdata : List Text) :
    (Parsed.parse lower confdata).map Parsed.toGrouped = parseConfigParamsBySection lower confdata :=
  foldlM_toGrouped _

end loop

end CubridWebManager.Conf
