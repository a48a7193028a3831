import CubridWebManager.Lib.Dict

/-!
# Plain objects with their prototype

A plain object of JavaScript, such as `JSON.parse` gives, is a `Dict` of its own properties; where it has no property of
a name it inherits that of `Object.prototype`, which all objects share.  `get` and `assign` are `d[key]` and
`d[key] = v`, for objects that have no property `__proto__` of their own; assignment never makes one.  A key that nothing
is inherited under (`inherited? key = none`) behaves as in a map (`get_of_plain`, `assign_of_plain`).
-/

/-- The objects that a plain object inherits: the prototype itself and its methods. -/
inductive Inherited
  | prototype
  | method (name : String)
  deriving DecidableEq, Repr

namespace JsObject

variable {α : Type*}

/-- The methods of `Object.prototype`. -/
def methods : List String :=
  ["constructor", "hasOwnProperty", "isPrototypeOf", "propertyIsEnumerable", "toLocaleString", "toString", "valueOf",
    "__defineGetter__", "__defineSetter__", "__lookupGetter__", "__lookupSetter__"]

/-- What every object inherits under the key. -/
def inherited? (key : String) : Option Inherited :=
  if key = "__proto__" then some .prototype else if key ∈ methods then some (.method key) else none

/-- A value that was found under a key. -/
inductive Found (α : Type*)
  | own (value : α)
  | inherited (object : Inherited)

def Found.own? : Found α → Option α
  | .own value => some value
  | .inherited _ => none

def get (d : Dict String α) (key : String) : Option (Found α) :=
  match d.get? key with
  | some value => some (.own value)
  | none => (inherited? key).map .inherited

/-- To assign to `__proto__` is to give this object another prototype. -/
def assign (d : Dict String α) (key : String) (value : α) : Dict String α :=
  if key = "__proto__" then d else d.set key value

variable {d : Dict String α} {key : String} {value : α}

theorem get_of_some (h : d.get? key = some value) : get d key = some (.own value) := by rw [get, h]

theorem get_of_plain (h : inherited? key = none) : get d key = (d.get? key).map .own := by
  unfold get
  split
  · rename_i value hvalue
    rw [hvalue, Option.map_some]
  · rename_i hnone
    rw [hnone, h]
    rfl

theorem ne_proto_of_plain (h : inherited? key = none) : key ≠ "__proto__" := by
  rintro rfl
  cases h

theorem assign_of_plain (h : inherited? key = none) : assign d key value = d.set key value :=
  if_neg (ne_proto_of_plain h)

theorem get?_assign (d : Dict String α) (key k : String) (value : α) :
    (assign d key value).get? k = if k = key ∧ k ≠ "__proto__" then some value else d.get? k := by
  unfold assign
  split
  · rename_i hproto
    rw [if_neg]
    rintro ⟨rfl, hne⟩
    exact hne hproto
  · rename_i hne
    rw [Dict.get?_set]
    by_cases hk : k = key
    · subst hk
      rw [if_pos rfl, if_pos ⟨rfl, hne⟩]
    · rw [if_neg hk, if_neg fun h => hk h.1]

/-- `Object.entries(source).forEach(([key, value]) => d[key] = value)`. -/
def assignAll (d source : Dict String α) : Dict String α := source.entries.foldl (fun d e => assign d e.1 e.2) d

theorem get?_assignAll (d source : Dict String α) (k : String) :
    (assignAll d source).get? k = if k = "__proto__" then d.get? k else (source.get? k).or (d.get? k) := by
  obtain ⟨es, hnd⟩ := source
  simp only [assignAll, Dict.get?]
  induction es generalizing d with
  | nil => simp
  | cons e es ih =>
    rw [List.map_cons, List.nodup_cons] at hnd
    have hassign := get?_assign d e.1 k e.2
    simp only [Dict.get?] at hassign
    rw [List.foldl_cons, ih _ hnd.2, hassign, List.find?_cons]
    by_cases hproto : k = "__proto__"
    · simp [hproto]
    · by_cases hk : e.1 = k
      · subst hk
        have hnone : es.find? (fun e' => e'.1 = e.1) = none :=
          List.find?_eq_none.2 fun e' he' heq => hnd.1 (of_decide_eq_true heq ▸ List.mem_map_of_mem he')
        simp [hproto, hnone]
      · have hk' : ¬ k = e.1 := fun heq => hk heq.symm
        simp [hproto, hk, hk']

end JsObject
