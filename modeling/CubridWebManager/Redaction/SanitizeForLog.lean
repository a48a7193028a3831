import CubridWebManager.Lib.Masking
import Mathlib.Data.List.Infix

/-!
# Values for the log

`apps/api-server/src/util/redaction/sanitize-for-log.ts`: `sanitizeForLog` copies a value for the audit log and puts
`[REDACTED]` in place of passwords and tokens.  `seen` holds the objects that were visited, by their identity.

A JSON tree, such as `JSON.parse` gives, is masked as it should be just if no object in it has a property `__proto__`
outside the masked values: to assign to `sanitized['__proto__']` gives the copy another prototype, so that the property
and everything below it are missing in the log (`sanitized_iff`).
-/

namespace CubridWebManager.Redaction

open Json (Masked)

/-- What can be logged, each object with its identity. -/
inductive LogValue
  | null
  | bool (b : Bool)
  | number (n : Rat)
  | str (s : String)
  | date (iso : String)
  | arr (items : List LogValue)
  | obj (ref : Nat) (fields : List (String × LogValue))

def REDACTED_VALUE : String := "[REDACTED]"

section

variable (toLowerCase : String → String)

/-- `text.includes(part)` -/
def includes (text part : String) : Bool := decide (part.toList <:+: text.toList)

def isSensitiveLogKey (key : String) : Bool :=
  let lower := toLowerCase key
  lower = "authorization" || lower = "cookie" || lower = "token" || lower = "secret" ||
    (includes lower "password" || includes lower "passwd" || includes lower "pass" || includes lower "secret" ||
      includes lower "token")

mutual

/-- The copy, and the objects that were seen until then. -/
def sanitizeForLog (seen : List Nat) : LogValue → Json × List Nat
  | .null => (.null, seen)
  | .bool b => (.bool b, seen)
  | .number n => (.number n, seen)
  | .str s => (.str s, seen)
  | .date iso => (.str iso, seen)
  | .arr items =>
    let (copies, seen) := sanitizeItems seen items
    (.arr copies, seen)
  | .obj ref fields =>
    if ref ∈ seen then (.str "[Circular]", seen)
    else
      let (sanitized, seen) := sanitizeFields (ref :: seen) .empty fields
      (.obj sanitized.entries, seen)

/-- `value.map((entry) => sanitizeForLog(entry, seen))` -/
def sanitizeItems (seen : List Nat) : List LogValue → List Json × List Nat
  | [] => ([], seen)
  | entry :: items =>
    let (copy, seen) := sanitizeForLog seen entry
    let (copies, seen) := sanitizeItems seen items
    (copy :: copies, seen)

/-- The loop over `Object.entries(value)`. -/
def sanitizeFields (seen : List Nat) (sanitized : Dict String Json) :
    List (String × LogValue) → Dict String Json × List Nat
  | [] => (sanitized, seen)
  | (key, entryValue) :: fields =>
    if isSensitiveLogKey toLowerCase key then
      sanitizeFields seen (JsObject.assign sanitized key (.str REDACTED_VALUE)) fields
    else
      let (copy, seen) := sanitizeForLog seen entryValue
      sanitizeFields seen (JsObject.assign sanitized key copy) fields

end

end

namespace LogValue

mutual

/-- The JSON value, without the identities. -/
def json : LogValue → Json
  | .null => .null
  | .bool b => .bool b
  | .number n => .number n
  | .str s | .date s => .str s
  | .arr items => .arr (jsonItems items)
  | .obj _ fields => .obj (jsonFields fields)

def jsonItems : List LogValue → List Json
  | [] => []
  | v :: items => v.json :: jsonItems items

def jsonFields : List (String × LogValue) → List (String × Json)
  | [] => []
  | (k, v) :: fields => (k, v.json) :: jsonFields fields

end

mutual

/-- The objects of a value. -/
def refs : LogValue → List Nat
  | .arr items => refsItems items
  | .obj ref fields => ref :: refsFields fields
  | _ => []

def refsItems : List LogValue → List Nat
  | [] => []
  | v :: items => v.refs ++ refsItems items

def refsFields : List (String × LogValue) → List Nat
  | [] => []
  | (_, v) :: fields => v.refs ++ refsFields fields

end

mutual

/-- No dates, and the keys of each object are distinct. -/
def IsJson : LogValue → Prop
  | .date _ => False
  | .arr items => IsJsonItems items
  | .obj _ fields => (fields.map Prod.fst).Nodup ∧ IsJsonFields fields
  | _ => True

def IsJsonItems : List LogValue → Prop
  | [] => True
  | v :: items => v.IsJson ∧ IsJsonItems items

def IsJsonFields : List (String × LogValue) → Prop
  | [] => True
  | (_, v) :: fields => v.IsJson ∧ IsJsonFields fields

end

/-- A tree: no object is there twice. -/
structure IsTree (v : LogValue) : Prop where
  json : v.IsJson
  refs : v.refs.Nodup

end LogValue

/-- Assignment to `__proto__` adds no property. -/
def isOwnKey (key : String) : Bool := key ≠ "__proto__"

section

open LogValue

variable {toLowerCase : String → String}

/-- A round of the loop adds the property, unless it is the prototype. -/
theorem entries_assign {d : Dict String Json} {k : String} (h : k ∉ d.keys) (v : Json) :
    (JsObject.assign d k v).entries = d.entries ++ if isOwnKey k then [(k, v)] else [] := by
  unfold JsObject.assign isOwnKey
  by_cases hk : k = "__proto__"
  · simp [hk]
  · simp [hk, Dict.entries_set_of_not_mem h]

theorem not_mem_keys_assign {d : Dict String Json} {k k' : String} (h : k ∉ d.keys) (h' : k' ∉ d.keys) (hne : k' ≠ k)
    (v : Json) : k' ∉ (JsObject.assign d k v).keys := by
  rw [Dict.keys, entries_assign h, List.map_append, List.mem_append, not_or]
  refine ⟨h', ?_⟩
  split
  · simpa using hne
  · simp

mutual

/-- The copy of a tree is its masked value, and nothing but its objects is seen. -/
theorem sanitizeForLog_eq : ∀ (v : LogValue) (seen : List Nat), v.IsJson → v.refs.Nodup → (∀ r ∈ v.refs, r ∉ seen) →
    (sanitizeForLog toLowerCase seen v).1 = v.json.mask isOwnKey (isSensitiveLogKey toLowerCase) REDACTED_VALUE ∧
      ∀ r ∈ (sanitizeForLog toLowerCase seen v).2, r ∈ seen ∨ r ∈ v.refs
  | .null, _, _, _, _ => ⟨rfl, fun _ => .inl⟩
  | .bool _, _, _, _, _ => ⟨rfl, fun _ => .inl⟩
  | .number _, _, _, _, _ => ⟨rfl, fun _ => .inl⟩
  | .str _, _, _, _, _ => ⟨rfl, fun _ => .inl⟩
  | .date _, _, h, _, _ => h.elim
  | .arr items, seen, h, hrefs, hseen => by
    obtain ⟨hcopies, hseen'⟩ := sanitizeItems_eq items seen h hrefs hseen
    refine ⟨?_, hseen'⟩
    rw [json, Json.mask, ← hcopies]
    rfl
  | .obj ref fields, seen, h, hrefs, hseen => by
    have hnew : ref ∉ seen := hseen ref List.mem_cons_self
    rw [refs, List.nodup_cons] at hrefs
    have hseen' : ∀ r ∈ refsFields fields, r ∉ ref :: seen := fun r hr hmem => by
      rcases List.mem_cons.1 hmem with rfl | hmem
      · exact hrefs.1 hr
      · exact hseen r (List.mem_cons_of_mem ref hr) hmem
    obtain ⟨hfields, hsub⟩ := sanitizeFields_eq fields (ref :: seen) .empty h.2 hrefs.2 hseen' h.1
      fun _ _ => List.not_mem_nil
    rw [sanitizeForLog, if_neg hnew]
    refine ⟨?_, fun r hr => ?_⟩
    · rw [json, Json.mask, ← List.nil_append (Json.maskFields _ _ _ _)]
      exact congrArg Json.obj hfields
    · rcases hsub r hr with hr | hr
      · rcases List.mem_cons.1 hr with rfl | hr
        · exact .inr List.mem_cons_self
        · exact .inl hr
      · exact .inr (List.mem_cons_of_mem ref hr)

theorem sanitizeItems_eq : ∀ (items : List LogValue) (seen : List Nat), IsJsonItems items → (refsItems items).Nodup →
    (∀ r ∈ refsItems items, r ∉ seen) →
    (sanitizeItems toLowerCase seen items).1 =
        Json.maskItems isOwnKey (isSensitiveLogKey toLowerCase) REDACTED_VALUE (jsonItems items) ∧
      ∀ r ∈ (sanitizeItems toLowerCase seen items).2, r ∈ seen ∨ r ∈ refsItems items
  | [], _, _, _, _ => ⟨rfl, fun _ => .inl⟩
  | v :: items, seen, h, hrefs, hseen => by
    rw [refsItems, List.nodup_append] at hrefs
    obtain ⟨hcopy, hsub⟩ := sanitizeForLog_eq v seen h.1 hrefs.1 fun r hr => hseen r (List.mem_append_left _ hr)
    have hseen' : ∀ r ∈ refsItems items, r ∉ (sanitizeForLog toLowerCase seen v).2 := fun r hr hmem => by
      rcases hsub r hmem with hmem | hmem
      · exact hseen r (List.mem_append_right _ hr) hmem
      · exact hrefs.2.2 r hmem r hr rfl
    obtain ⟨hcopies, hsub'⟩ := sanitizeItems_eq items _ h.2 hrefs.2.1 hseen'
    refine ⟨?_, fun r hr => ?_⟩
    · rw [jsonItems, Json.maskItems, ← hcopy, ← hcopies]
      rfl
    · rw [refsItems, List.mem_append]
      rcases hsub' r hr with hr | hr
      · exact (hsub r hr).imp_right .inl
      · exact .inr (.inr hr)

theorem sanitizeFields_eq : ∀ (fields : List (String × LogValue)) (seen : List Nat) (sanitized : Dict String Json),
    IsJsonFields fields → (refsFields fields).Nodup → (∀ r ∈ refsFields fields, r ∉ seen) →
    (fields.map Prod.fst).Nodup → (∀ k ∈ fields.map Prod.fst, k ∉ sanitized.keys) →
    (sanitizeFields toLowerCase seen sanitized fields).1.entries = sanitized.entries ++
        Json.maskFields isOwnKey (isSensitiveLogKey toLowerCase) REDACTED_VALUE (jsonFields fields) ∧
      ∀ r ∈ (sanitizeFields toLowerCase seen sanitized fields).2, r ∈ seen ∨ r ∈ refsFields fields
  | [], _, sanitized, _, _, _, _, _ => ⟨(List.append_nil _).symm, fun _ => .inl⟩
  | (k, v) :: fields, seen, sanitized, h, hrefs, hseen, hkeys, hnew => by
    rw [refsFields, List.nodup_append] at hrefs
    rw [List.map_cons, List.nodup_cons] at hkeys
    have hk : k ∉ sanitized.keys := hnew k List.mem_cons_self
    have hnew' : ∀ u, ∀ k' ∈ fields.map Prod.fst, k' ∉ (JsObject.assign sanitized k u).keys := fun u k' hk' =>
      not_mem_keys_assign hk (hnew k' (List.mem_cons_of_mem k hk')) (fun heq => hkeys.1 (heq ▸ hk')) u
    have hentries : ∀ u rest, (JsObject.assign sanitized k u).entries ++ rest =
        sanitized.entries ++ if isOwnKey k then (k, u) :: rest else rest := fun u rest => by
      rw [entries_assign hk, List.append_assoc]
      split <;> rfl
    rw [jsonFields, Json.maskFields, refsFields, sanitizeFields]
    by_cases hsensitive : isSensitiveLogKey toLowerCase k = true
    · obtain ⟨hfields, hsub⟩ := sanitizeFields_eq fields seen (JsObject.assign sanitized k (.str REDACTED_VALUE)) h.2
        hrefs.2.1 (fun r hr => hseen r (List.mem_append_right _ hr)) hkeys.2 (hnew' _)
      rw [if_pos hsensitive, if_pos hsensitive]
      refine ⟨?_, fun r hr => (hsub r hr).imp_right (List.mem_append_right _)⟩
      rw [hfields, hentries]
    · obtain ⟨hcopy, hsub⟩ := sanitizeForLog_eq v seen h.1 hrefs.1 fun r hr => hseen r (List.mem_append_left _ hr)
      have hseen' : ∀ r ∈ refsFields fields, r ∉ (sanitizeForLog toLowerCase seen v).2 := fun r hr hmem => by
        rcases hsub r hmem with hmem | hmem
        · exact hseen r (List.mem_append_right _ hr) hmem
        · exact hrefs.2.2 r hmem r hr rfl
      obtain ⟨hfields, hsub'⟩ := sanitizeFields_eq fields (sanitizeForLog toLowerCase seen v).2
        (JsObject.assign sanitized k (sanitizeForLog toLowerCase seen v).1) h.2 hrefs.2.1 hseen' hkeys.2 (hnew' _)
      rw [if_neg hsensitive, if_neg hsensitive, ← hcopy]
      refine ⟨?_, fun r hr => ?_⟩
      · rw [← hentries]
        exact hfields
      · rw [List.mem_append]
        rcases hsub' r hr with hr | hr
        · exact (hsub r hr).imp_right .inl
        · exact .inr (.inr hr)

end

/-- What the audit log relies on: sensitive values are the mark, everything else is as it was, and a copy is copied as
it is. -/
def Sanitized (toLowerCase : String → String) (v : LogValue) : Prop :=
  Masked (isSensitiveLogKey toLowerCase) REDACTED_VALUE v.json (sanitizeForLog toLowerCase [] v).1 ∧
    ∀ v' : LogValue, v'.IsTree → v'.json = (sanitizeForLog toLowerCase [] v).1 →
      (sanitizeForLog toLowerCase [] v').1 = v'.json

/-- No object has a property `__proto__`, except below a sensitive key. -/
def NoProto (toLowerCase : String → String) (v : Json) : Prop :=
  ∀ path fields, (∀ k, .key k ∈ path → isSensitiveLogKey toLowerCase k = false) → v.at? path = some (.obj fields) →
    "__proto__" ∉ fields.map Prod.fst

theorem keeps_iff_noProto (v : Json) : v.Keeps isOwnKey (isSensitiveLogKey toLowerCase) ↔ NoProto toLowerCase v := by
  refine forall_congr' fun path => forall_congr' fun fields => imp_congr_right fun _ => imp_congr_right fun _ => ?_
  constructor
  · intro h hmem
    simpa [isOwnKey] using h "__proto__" hmem
  · intro h k hk
    simp only [isOwnKey, ne_eq, decide_eq_true_eq]
    rintro rfl
    exact h hk

theorem sanitizeForLog_of_isTree {v : LogValue} (h : v.IsTree) : (sanitizeForLog toLowerCase [] v).1 =
    v.json.mask isOwnKey (isSensitiveLogKey toLowerCase) REDACTED_VALUE :=
  (sanitizeForLog_eq v [] h.json h.refs fun _ _ => List.not_mem_nil).1

theorem masked_iff {v : LogValue} (h : v.IsTree) :
    Masked (isSensitiveLogKey toLowerCase) REDACTED_VALUE v.json (sanitizeForLog toLowerCase [] v).1 ↔
      NoProto toLowerCase v.json := by
  rw [sanitizeForLog_of_isTree h, Json.masked_mask_iff, keeps_iff_noProto]

/-- A JSON tree is sanitized as the log relies on just if no object outside the masked values has a property
`__proto__`. -/
theorem sanitized_iff {v : LogValue} (h : v.IsTree) : Sanitized toLowerCase v ↔ NoProto toLowerCase v.json := by
  rw [Sanitized, masked_iff h, and_iff_left_iff_imp]
  rintro - v' h' heq
  rw [sanitizeForLog_of_isTree h', heq, sanitizeForLog_of_isTree h, Json.mask_mask]

end

/-- `{"dbname": "demodb", "profile": {"token": "abc"}}` -/
theorem sanitized_iff_profile :
    let v : LogValue := .obj 0 [("dbname", .str "demodb"), ("profile", .obj 1 [("token", .str "abc")])]
    Sanitized (String.map Char.toLower) v ↔ NoProto (String.map Char.toLower) v.json :=
  sanitized_iff ⟨by simp [LogValue.IsJson, LogValue.IsJsonFields], by decide⟩

/-- `{"__proto__": {"a": 1}}`, as `JSON.parse` reads it, is logged as `{}`. -/
theorem sanitized_fails :
    let v : LogValue := .obj 0 [("__proto__", .obj 1 [("a", .number 1)])]
    v.IsTree ∧ ¬Sanitized (String.map Char.toLower) v := by
  have htree : (LogValue.obj 0 [("__proto__", .obj 1 [("a", .number 1)])]).IsTree :=
    ⟨by simp [LogValue.IsJson, LogValue.IsJsonFields], by decide⟩
  refine ⟨htree, fun h => ?_⟩
  have hproto := (masked_iff htree).1 h.1
  exact hproto [] _ (fun _ hk => absurd hk List.not_mem_nil) rfl List.mem_cons_self

end CubridWebManager.Redaction
