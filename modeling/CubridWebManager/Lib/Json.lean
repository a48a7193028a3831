import CubridWebManager.Lib.JsObject

/-!
# JSON values

The values that `JSON.parse` gives, and how JavaScript reads them: `truthy`, the properties of a value (`prop`) and what
`Object.entries` and a spread list of it (`ownFields`).  Of two fields of one name the last counts.
-/

inductive Json
  | null
  | bool (b : Bool)
  | number (n : Rat)
  | str (s : String)
  | arr (items : List Json)
  | obj (fields : List (String × Json))

namespace Json

def truthy : Json → Bool
  | null => false
  | bool b => b
  | number n => n ≠ 0
  | str s => s ≠ ""
  | arr _ | obj _ => true

def indexed (items : List Json) : Dict String Json := .ofList (items.zipIdx.map fun e => (toString e.2, e.1))

/-- The properties of its own that the value has; a string has its characters. -/
def ownFields : Json → Dict String Json
  | obj fields => .ofList fields
  | arr items => indexed items
  | str s => indexed (s.toList.map fun c => str (String.singleton c))
  | null | bool _ | number _ => .empty

/-- `v[key]`, for a key that is no property of all objects, arrays, strings, numbers or booleans. -/
def prop (v : Json) (key : String) : Except String (Option Json) :=
  match v with
  | null => .error "Cannot read properties of null"
  | v => .ok (v.ownFields.get? key)

/-- `{ ...a, ...b }`. -/
def spread (a b : Dict String Json) : Json := obj (b.entries.foldl (fun d e => d.set e.1 e.2) a).entries

end Json
