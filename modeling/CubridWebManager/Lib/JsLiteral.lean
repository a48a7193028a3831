import CubridWebManager.Lib.CodeUnits

/-!
# Literals of JavaScript and TypeScript

`evaluate` reads a text that is a literal made of `null`, booleans, strings, arrays and objects whose keys are names,
and gives its value.  Other texts have no value, those that are no literal and those that are another one.
-/

namespace JsLiteral

open CodeUnits (unit ofText isSpace)

/-- An object has its own properties in their order. -/
inductive Value
  | null
  | bool (b : Bool)
  | str (s : CodeUnits)
  | arr (items : List Value)
  | obj (entries : List (CodeUnits × Value))

inductive Token
  | str (s : CodeUnits)
  | name (n : CodeUnits)
  | punctuator (u : UInt16)
  deriving DecidableEq

/-! ### Characters -/

def isLineTerminator (u : UInt16) : Bool := u = 10 || u = 13 || u = 0x2028 || u = 0x2029

def isPunctuator (u : UInt16) : Bool := u ∈ ofText "[]{},:"

def isQuote (u : UInt16) : Bool := u = unit '\'' || u = unit '\x22'

/-- The unit can be one of a name: what is not ASCII and no white space, letters, digits, `$` and `_`. -/
def isNameUnit (u : UInt16) : Bool :=
  let n := u.toNat
  (128 ≤ n && !isSpace u) || (48 ≤ n && n ≤ 57) || (65 ≤ n && n ≤ 90) || (97 ≤ n && n ≤ 122) || n = 36 || n = 95

/-- What a version of the language makes of characters: which texts are names, by the tables of Unicode, and whether a
line or paragraph separator breaks a line within a string too. -/
structure Dialect where
  isName : CodeUnits → Bool
  separatorsBreak : Bool
  name_ne_nil : isName [] = false
  name_units : ∀ n, isName n = true → ∀ u ∈ n, isNameUnit u = true
  keywords : isName (ofText "null") = true ∧ isName (ofText "true") = true ∧ isName (ofText "false") = true

variable (D : Dialect)

/-- The unit cannot stand in a string. -/
def Dialect.isLineBreak (u : UInt16) : Bool := u = 10 || u = 13 || D.separatorsBreak && (u = 0x2028 || u = 0x2029)

/-! ### Strings -/

def hexDigit? (u : UInt16) : Option ℕ :=
  let n := u.toNat
  if 48 ≤ n ∧ n ≤ 57 then some (n - 48)
  else if 65 ≤ n ∧ n ≤ 70 then some (n - 55)
  else if 97 ≤ n ∧ n ≤ 102 then some (n - 87)
  else none

/-- Digits only, and at least one. -/
def hexValue (digits : CodeUnits) : Option ℕ :=
  if digits = [] then none else digits.foldlM (fun n u => (hexDigit? u).map (16 * n + ·)) 0

/-- The units of a code point. -/
def encode (n : ℕ) : CodeUnits :=
  if n < 0x10000 then [n.toUInt16]
  else [(0xd800 + (n - 0x10000) / 0x400).toUInt16, (0xdc00 + (n - 0x10000) % 0x400).toUInt16]

/-- `\b`, `\f`, `\n`, `\r`, `\t` and `\v` -/
def controls : List (UInt16 × UInt16) :=
  [(unit 'b', 8), (unit 'f', 12), (unit 'n', 10), (unit 'r', 13), (unit 't', 9), (unit 'v', 11)]

/-- What follows the backslash of an escape: what it stands for, and what is behind it. -/
def readEscape : CodeUnits → Option (CodeUnits × CodeUnits)
  | [] => none
  | u :: rest =>
    if isLineTerminator u then some ([], if u = 13 ∧ rest.head? = some 10 then rest.tail else rest)
    else if u = unit 'x' then
      if (rest.take 2).length = 2 then (hexValue (rest.take 2)).map fun n => (encode n, rest.drop 2) else none
    else if u = unit 'u' then
      if rest.head? = some (unit '{') then
        let digits := rest.tail.takeWhile (· ≠ unit '}')
        if (rest.tail.drop digits.length).head? = some (unit '}') then
          ((hexValue digits).filter (· ≤ 0x10ffff)).map fun n => (encode n, rest.tail.drop (digits.length + 1))
        else none
      else if (rest.take 4).length = 4 then (hexValue (rest.take 4)).map fun n => (encode n, rest.drop 4)
      else none
    else if 48 ≤ u.toNat ∧ u.toNat ≤ 57 then
      if u = unit '0' ∧ rest.head?.all (fun v => v.toNat < 48 || 57 < v.toNat) then some ([0], rest) else none
    else match controls.lookup u with
      | some v => some ([v], rest)
      | none => some ([u], rest)

theorem suffix_readEscape {text s rest : CodeUnits} (h : readEscape text = some (s, rest)) : rest <:+ text := by
  cases text with
  | nil => cases h
  | cons u t =>
    have ht : t <:+ u :: t := List.suffix_cons u t
    have htail : t.tail <:+ u :: t := (List.tail_suffix t).trans ht
    have hmap : ∀ {o : Option ℕ} {n : ℕ} {t' : CodeUnits}, t' <:+ u :: t →
        o.map (fun m => (encode m, t'.drop n)) = some (s, rest) → rest <:+ u :: t := by
      intro o n t' ht' heq
      obtain ⟨m, -, heq⟩ := Option.map_eq_some_iff.1 heq
      obtain ⟨-, rfl⟩ := Prod.mk.inj heq
      exact (List.drop_suffix n t').trans ht'
    rw [readEscape] at h
    by_cases hbreak : isLineTerminator u
    · rw [if_pos hbreak] at h
      obtain ⟨-, rfl⟩ := Prod.mk.inj (Option.some.inj h)
      split
      · exact htail
      · exact ht
    rw [if_neg hbreak] at h
    split at h
    · split at h
      · exact hmap ht h
      · cases h
    split at h
    · split at h
      · dsimp only at h
        split at h
        · exact hmap htail h
        · cases h
      · split at h
        · exact hmap ht h
        · cases h
    split at h
    · split at h
      · obtain ⟨-, rfl⟩ := Prod.mk.inj (Option.some.inj h)
        exact ht
      · cases h
    split at h <;>
    · obtain ⟨-, rfl⟩ := Prod.mk.inj (Option.some.inj h)
      exact ht

/-- A string behind its opening quote, and what is behind it. -/
def readString (quote : UInt16) (text : CodeUnits) : Option (CodeUnits × CodeUnits) :=
  match text with
  | [] => none
  | u :: rest =>
    if u = quote then some ([], rest)
    else if u = unit '\\' then
      match _hescape : readEscape rest with
      | none => none
      | some (s, rest) => (readString quote rest).bind fun (s', rest) => some (s ++ s', rest)
    else if D.isLineBreak u then none
    else (readString quote rest).bind fun (s, rest) => some (u :: s, rest)
termination_by text.length
decreasing_by
  · have := (suffix_readEscape _hescape).length_le
    rw [List.length_cons]
    omega
  · rw [List.length_cons]
    omega

theorem readString_cons (quote u : UInt16) (rest : CodeUnits) : readString D quote (u :: rest) =
    if u = quote then some ([], rest)
    else if u = unit '\\' then
      (readEscape rest).bind fun (s, rest) => (readString D quote rest).bind fun (s', rest) => some (s ++ s', rest)
    else if D.isLineBreak u then none
    else (readString D quote rest).bind fun (s, rest) => some (u :: s, rest) := by
  rw [readString]
  congr 2
  split
  · rename_i hescape
    rw [hescape, Option.bind_none]
  · rename_i s rest' hescape
    rw [hescape, Option.bind_some]

theorem length_readString {quote : UInt16} {text s rest : CodeUnits} (h : readString D quote text = some (s, rest)) :
    rest.length < text.length := by
  induction hn : text.length using Nat.strong_induction_on generalizing text s rest with
  | h n ih =>
    cases text with
    | nil =>
      rw [readString] at h
      cases h
    | cons u t =>
      rw [List.length_cons] at hn
      rw [readString_cons] at h
      split at h
      · obtain ⟨-, rfl⟩ := Prod.mk.inj (Option.some.inj h)
        omega
      split at h
      · obtain ⟨⟨s₁, rest₁⟩, hescape, h⟩ := Option.bind_eq_some_iff.1 h
        obtain ⟨⟨s₂, rest₂⟩, hstring, h⟩ := Option.bind_eq_some_iff.1 h
        obtain ⟨-, rfl⟩ := Prod.mk.inj (Option.some.inj h)
        have hle := (suffix_readEscape hescape).length_le
        have hlt := ih rest₁.length (by omega) hstring rfl
        omega
      split at h
      · cases h
      · obtain ⟨⟨s₁, rest₁⟩, hstring, h⟩ := Option.bind_eq_some_iff.1 h
        obtain ⟨-, rfl⟩ := Prod.mk.inj (Option.some.inj h)
        have hlt := ih t.length (by omega) hstring rfl
        omega

/-! ### Tokens -/

theorem Dialect.length_behind_name {text : CodeUnits} (h : D.isName (text.takeWhile isNameUnit) = true) :
    (text.dropWhile isNameUnit).length < text.length := by
  have hne : text.takeWhile isNameUnit ≠ [] := by
    intro hnil
    rw [hnil, D.name_ne_nil] at h
    cases h
  have hlength := congrArg List.length (List.takeWhile_append_dropWhile (p := isNameUnit) (l := text))
  have hpos := List.length_pos_of_ne_nil hne
  rw [List.length_append] at hlength
  omega

def tokens (text : CodeUnits) : Option (List Token) :=
  match text with
  | [] => some []
  | u :: rest =>
    if isSpace u then tokens rest
    else if isPunctuator u then (tokens rest).bind fun ts => some (.punctuator u :: ts)
    else if isQuote u then
      match _hstring : readString D u rest with
      | none => none
      | some (s, rest) => (tokens rest).bind fun ts => some (.str s :: ts)
    else if _hname : D.isName ((u :: rest).takeWhile isNameUnit) then
      (tokens ((u :: rest).dropWhile isNameUnit)).bind fun ts =>
        some (.name ((u :: rest).takeWhile isNameUnit) :: ts)
    else none
termination_by text.length
decreasing_by
  · rw [List.length_cons]
    omega
  · rw [List.length_cons]
    omega
  · have := length_readString D _hstring
    rw [List.length_cons]
    omega
  · exact D.length_behind_name _hname

/-! ### Values -/

/-- `__proto__` -/
def proto : CodeUnits := ofText "__proto__"

/-- A property is defined, where it is or behind the others; `__proto__` is the prototype, which is no property. -/
def define (entries : List (CodeUnits × Value)) (e : CodeUnits × Value) : List (CodeUnits × Value) :=
  if e.1 = proto then entries
  else if e.1 ∈ entries.map Prod.fst then entries.map fun e' => if e'.1 = e.1 then e else e'
  else entries ++ [e]

mutual

/-- The value at the front of the tokens, and what is behind it. -/
def readValue (ts : List Token) : Option (Value × List Token) :=
  match ts with
  | .str s :: rest => some (.str s, rest)
  | .name n :: rest =>
    if n = ofText "null" then some (.null, rest)
    else if n = ofText "true" then some (.bool true, rest)
    else if n = ofText "false" then some (.bool false, rest)
    else none
  | .punctuator u :: rest =>
    if u = unit '[' then (readItems rest).bind fun (items, rest) => some (.arr items, rest)
    else if u = unit '{' then
      (readEntries rest).bind fun (entries, rest) => some (.obj (entries.foldl define []), rest)
    else none
  | [] => none
termination_by (ts.length, 0)

/-- The items that are left of an array.  What is behind a value is shorter (`length_readValue`). -/
def readItems (ts : List Token) : Option (List Value × List Token) :=
  if ts.head? = some (.punctuator (unit ']')) then some ([], ts.tail)
  else (readValue ts).bind fun (v, rest) =>
    if _hlength : ts.length ≤ rest.length then none
    else if rest.head? = some (.punctuator (unit ',')) then
      (readItems rest.tail).bind fun (items, rest) => some (v :: items, rest)
    else if rest.head? = some (.punctuator (unit ']')) then some ([v], rest.tail)
    else none
termination_by (ts.length, 1)

/-- The properties that are left of an object. -/
def readEntries (ts : List Token) : Option (List (CodeUnits × Value) × List Token) :=
  if ts.head? = some (.punctuator (unit '}')) then some ([], ts.tail)
  else
    match ts with
    | .name key :: .punctuator u :: ts =>
      if u ≠ unit ':' then none
      else (readValue ts).bind fun (v, rest) =>
        if _hlength : ts.length ≤ rest.length then none
        else if rest.head? = some (.punctuator (unit ',')) then
          (readEntries rest.tail).bind fun (entries, rest) => some ((key, v) :: entries, rest)
        else if rest.head? = some (.punctuator (unit '}')) then some ([(key, v)], rest.tail)
        else none
    | _ => none
termination_by (ts.length, 1)

end

/-- The value of the whole text. -/
def evaluate (text : CodeUnits) : Option Value := do
  let ts ← tokens D text
  let (v, rest) ← readValue ts
  if rest = [] then some v else none

/-! ### What is read -/

section

variable {D : Dialect} {u : UInt16} {rest text : CodeUnits}

/-- A name does not go on into the text. -/
def Stops (text : CodeUnits) : Prop := ∀ u ∈ text.head?, isNameUnit u = false

theorem punctuator_spec (h : isPunctuator u = true) : isNameUnit u = false ∧ isSpace u = false := by
  have hall : ((ofText "[]{},:").all fun u => !isNameUnit u && !isSpace u) = true := by decide
  simpa using List.all_eq_true.1 hall u (of_decide_eq_true h)

theorem isNameUnit_spec (h : isNameUnit u = true) : isSpace u = false ∧ isPunctuator u = false ∧ isQuote u = false := by
  refine ⟨?_, ?_, ?_⟩
  · rw [← Bool.not_eq_true]
    intro hspace
    simp only [isNameUnit, hspace, Bool.not_true, Bool.and_false, Bool.false_or, Bool.or_eq_true, Bool.and_eq_true,
      decide_eq_true_eq] at h
    rw [CodeUnits.isSpace_eq_false (by omega) (by omega)] at hspace
    cases hspace
  · rw [← Bool.not_eq_true]
    intro hpunctuator
    rw [(punctuator_spec hpunctuator).1] at h
    cases h
  · rw [isQuote, Bool.or_eq_false_iff, decide_eq_false_iff_not, decide_eq_false_iff_not]
    constructor
    · rintro rfl
      revert h
      decide
    · rintro rfl
      revert h
      decide

theorem tokens_nil : tokens D [] = some [] := by rw [tokens]

theorem tokens_cons (u : UInt16) (rest : CodeUnits) : tokens D (u :: rest) =
    if isSpace u then tokens D rest
    else if isPunctuator u then (tokens D rest).bind fun ts => some (.punctuator u :: ts)
    else if isQuote u then
      (readString D u rest).bind fun (s, rest) => (tokens D rest).bind fun ts => some (.str s :: ts)
    else if D.isName ((u :: rest).takeWhile isNameUnit) then
      (tokens D ((u :: rest).dropWhile isNameUnit)).bind fun ts =>
        some (.name ((u :: rest).takeWhile isNameUnit) :: ts)
    else none := by
  rw [tokens]
  congr 3
  split
  · rename_i hstring
    rw [hstring, Option.bind_none]
  · rename_i s rest' hstring
    rw [hstring, Option.bind_some]

theorem tokens_space (h : isSpace u = true) (rest : CodeUnits) : tokens D (u :: rest) = tokens D rest := by
  rw [tokens_cons, if_pos h]

theorem tokens_punctuator (h : isPunctuator u = true) (rest : CodeUnits) :
    tokens D (u :: rest) = (tokens D rest).bind fun ts => some (.punctuator u :: ts) := by
  rw [tokens_cons, (punctuator_spec h).2, if_neg nofun, if_pos h]

theorem tokens_string (h : isQuote u = true) (rest : CodeUnits) : tokens D (u :: rest) =
    (readString D u rest).bind fun (s, rest) => (tokens D rest).bind fun ts => some (.str s :: ts) := by
  have hnone : isSpace u = false ∧ isPunctuator u = false := by
    rw [isQuote, Bool.or_eq_true, decide_eq_true_eq, decide_eq_true_eq] at h
    rcases h with rfl | rfl <;> decide
  rw [tokens_cons, hnone.1, if_neg nofun, hnone.2, if_neg nofun, if_pos h]

theorem tokens_name {n : CodeUnits} (h : D.isName n = true) (hrest : Stops rest) :
    tokens D (n ++ rest) = (tokens D rest).bind fun ts => some (.name n :: ts) := by
  obtain ⟨u, n', rfl⟩ := List.exists_cons_of_ne_nil (fun hnil : n = [] => by
    rw [hnil, D.name_ne_nil] at h
    cases h)
  have hunits := D.name_units _ h
  have htake : ((u :: n') ++ rest).takeWhile isNameUnit = u :: n' := by
    rw [List.takeWhile_append_of_pos hunits]
    cases rest with
    | nil => simp
    | cons v rest => rw [List.takeWhile_cons_of_neg (by rw [hrest v rfl]; decide), List.append_nil]
  have hdrop : ((u :: n') ++ rest).dropWhile isNameUnit = rest := by
    rw [List.dropWhile_append_of_pos hunits]
    cases rest with
    | nil => rfl
    | cons v rest => rw [List.dropWhile_cons_of_neg (by rw [hrest v rfl]; decide)]
  obtain ⟨hspace, hpunctuator, hquote⟩ := isNameUnit_spec (hunits u List.mem_cons_self)
  rw [List.cons_append] at htake hdrop ⊢
  rw [tokens_cons, hspace, if_neg nofun, hpunctuator, if_neg nofun, hquote, if_neg nofun, htake, hdrop, if_pos h]

variable {ts rest : List Token} {v : Value}

theorem length_tail_of_head? {ts : List Token} {t : Token} (h : ts.head? = some t) : ts.tail.length < ts.length := by
  obtain ⟨ts, rfl⟩ := List.head?_eq_some_iff.1 h
  exact Nat.lt_succ_self _

/-- What is read is at least one token. -/
theorem length_reads (ts : List Token) :
    (∀ v rest, readValue ts = some (v, rest) → rest.length < ts.length) ∧
      (∀ items rest, readItems ts = some (items, rest) → rest.length < ts.length) ∧
      ∀ entries rest, readEntries ts = some (entries, rest) → rest.length < ts.length := by
  induction hn : ts.length using Nat.strong_induction_on generalizing ts with
  | h n ih =>
    subst hn
    have hvalue : ∀ v rest, readValue ts = some (v, rest) → rest.length < ts.length := by
      intro v rest h
      rw [readValue.eq_def] at h
      split at h
      · obtain ⟨-, rfl⟩ := Prod.mk.inj (Option.some.inj h)
        exact Nat.lt_succ_self _
      · rename_i rest'
        have hrest : rest' = rest := by
          split at h
          · exact (Prod.mk.inj (Option.some.inj h)).2
          split at h
          · exact (Prod.mk.inj (Option.some.inj h)).2
          split at h
          · exact (Prod.mk.inj (Option.some.inj h)).2
          · cases h
        rw [hrest]
        exact Nat.lt_succ_self _
      · rename_i u rest'
        have hshorter := ih rest'.length (Nat.lt_succ_self _) rest' rfl
        split at h
        · obtain ⟨⟨items, rest₁⟩, hitems, h⟩ := Option.bind_eq_some_iff.1 h
          obtain ⟨-, rfl⟩ := Prod.mk.inj (Option.some.inj h)
          exact Nat.lt_succ_of_lt (hshorter.2.1 items rest₁ hitems)
        split at h
        · obtain ⟨⟨entries, rest₁⟩, hentries, h⟩ := Option.bind_eq_some_iff.1 h
          obtain ⟨-, rfl⟩ := Prod.mk.inj (Option.some.inj h)
          exact Nat.lt_succ_of_lt (hshorter.2.2 entries rest₁ hentries)
        · cases h
      · cases h
    refine ⟨hvalue, fun items rest h => ?_, fun entries rest h => ?_⟩
    · rw [readItems] at h
      split at h
      · rename_i hhead
        obtain ⟨-, rfl⟩ := Prod.mk.inj (Option.some.inj h)
        exact length_tail_of_head? hhead
      · obtain ⟨⟨v, rest₁⟩, hv, h⟩ := Option.bind_eq_some_iff.1 h
        have hlt := hvalue v rest₁ hv
        dsimp only at h
        rw [dif_neg (by omega)] at h
        split at h
        · rename_i hhead
          have htail := length_tail_of_head? hhead
          obtain ⟨⟨items', rest₂⟩, hitems, h⟩ := Option.bind_eq_some_iff.1 h
          obtain ⟨-, rfl⟩ := Prod.mk.inj (Option.some.inj h)
          exact (((ih _ (by omega) rest₁.tail rfl).2.1 items' rest₂ hitems).trans htail).trans hlt
        split at h
        · rename_i hhead
          have htail := length_tail_of_head? hhead
          obtain ⟨-, rfl⟩ := Prod.mk.inj (Option.some.inj h)
          omega
        · cases h
    · rw [readEntries.eq_def] at h
      split at h
      · rename_i hhead
        obtain ⟨-, rfl⟩ := Prod.mk.inj (Option.some.inj h)
        exact length_tail_of_head? hhead
      split at h
      · rename_i key u ts' _
        split at h
        · cases h
        obtain ⟨⟨v, rest₁⟩, hv, h⟩ := Option.bind_eq_some_iff.1 h
        rw [List.length_cons, List.length_cons] at *
        have hlt := (ih ts'.length (by omega) ts' rfl).1 v rest₁ hv
        dsimp only at h
        rw [dif_neg (by omega)] at h
        split at h
        · rename_i hhead
          have htail := length_tail_of_head? hhead
          obtain ⟨⟨entries', rest₂⟩, hentries, h⟩ := Option.bind_eq_some_iff.1 h
          obtain ⟨-, rfl⟩ := Prod.mk.inj (Option.some.inj h)
          have hlt' := ((ih _ (by omega) rest₁.tail rfl).2.2 entries' rest₂ hentries).trans (htail.trans hlt)
          exact Nat.lt_succ_of_lt (Nat.lt_succ_of_lt hlt')
        split at h
        · rename_i hhead
          have htail := length_tail_of_head? hhead
          obtain ⟨-, rfl⟩ := Prod.mk.inj (Option.some.inj h)
          omega
        · cases h
      · cases h

theorem length_readValue (h : readValue ts = some (v, rest)) : rest.length < ts.length := (length_reads ts).1 v rest h

theorem readItems_eq (ts : List Token) : readItems ts =
    if ts.head? = some (.punctuator (unit ']')) then some ([], ts.tail)
    else (readValue ts).bind fun (v, rest) =>
      if rest.head? = some (.punctuator (unit ',')) then
        (readItems rest.tail).bind fun (items, rest) => some (v :: items, rest)
      else if rest.head? = some (.punctuator (unit ']')) then some ([v], rest.tail)
      else none := by
  rw [readItems]
  congr 1
  refine Option.bind_congr fun r hr => ?_
  obtain ⟨v, rest⟩ := r
  exact dif_neg (not_le.2 (length_readValue hr))

theorem readItems_nil (rest : List Token) :
    readItems (.punctuator (unit ']') :: rest) = some ([], rest) := by
  rw [readItems_eq]
  exact if_pos rfl

theorem readItems_last (hhead : ts.head? ≠ some (.punctuator (unit ']')))
    (h : readValue ts = some (v, .punctuator (unit ']') :: rest)) : readItems ts = some ([v], rest) := by
  rw [readItems_eq, if_neg hhead, h]
  rfl

theorem readItems_cons (hhead : ts.head? ≠ some (.punctuator (unit ']')))
    (h : readValue ts = some (v, .punctuator (unit ',') :: rest)) :
    readItems ts = (readItems rest).bind fun (items, rest) => some (v :: items, rest) := by
  rw [readItems_eq, if_neg hhead, h]
  rfl

theorem readEntries_nil (rest : List Token) :
    readEntries (.punctuator (unit '}') :: rest) = some ([], rest) := by
  rw [readEntries.eq_def]
  exact if_pos rfl

/-- What is behind a property decides. -/
theorem readEntries_property {k : CodeUnits} (h : readValue ts = some (v, rest)) :
    readEntries (.name k :: .punctuator (unit ':') :: ts) =
      if rest.head? = some (.punctuator (unit ',')) then
        (readEntries rest.tail).bind fun (entries, rest) => some ((k, v) :: entries, rest)
      else if rest.head? = some (.punctuator (unit '}')) then some ([(k, v)], rest.tail)
      else none := by
  rw [readEntries, if_neg (by simp)]
  dsimp only
  rw [if_neg (by simp), h, Option.bind_some]
  exact dif_neg (not_le.2 (length_readValue h))

theorem readEntries_last {k : CodeUnits} (h : readValue ts = some (v, .punctuator (unit '}') :: rest)) :
    readEntries (.name k :: .punctuator (unit ':') :: ts) = some ([(k, v)], rest) :=
  readEntries_property h

theorem readEntries_cons {k : CodeUnits} (h : readValue ts = some (v, .punctuator (unit ',') :: rest)) :
    readEntries (.name k :: .punctuator (unit ':') :: ts) =
      (readEntries rest).bind fun (entries, rest) => some ((k, v) :: entries, rest) :=
  readEntries_property h

theorem readValue_str (s : CodeUnits) (rest : List Token) : readValue (.str s :: rest) = some (.str s, rest) := by
  rw [readValue]

theorem readValue_name (n : CodeUnits) (rest : List Token) : readValue (.name n :: rest) =
    if n = ofText "null" then some (.null, rest)
    else if n = ofText "true" then some (.bool true, rest)
    else if n = ofText "false" then some (.bool false, rest)
    else none := by
  rw [readValue]

theorem readValue_punctuator (u : UInt16) (rest : List Token) : readValue (.punctuator u :: rest) =
    if u = unit '[' then (readItems rest).bind fun (items, rest) => some (.arr items, rest)
    else if u = unit '{' then
      (readEntries rest).bind fun (entries, rest) => some (.obj (entries.foldl define []), rest)
    else none := by
  rw [readValue]

theorem readValue_array (rest : List Token) : readValue (.punctuator (unit '[') :: rest) =
    (readItems rest).bind fun (items, rest) => some (.arr items, rest) :=
  readValue_punctuator _ rest

theorem readValue_object (rest : List Token) : readValue (.punctuator (unit '{') :: rest) =
    (readEntries rest).bind fun (entries, rest) => some (.obj (entries.foldl define []), rest) :=
  readValue_punctuator _ rest

end

end JsLiteral
