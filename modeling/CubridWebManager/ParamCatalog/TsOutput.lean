import CubridWebManager.Lib.JsLiteral

/-!
# The text of the catalog

`tsValue` of `scripts/generate-param-catalog.mjs` writes a value of the catalog as a literal of TypeScript, and
`tsString` a string of it.  Backslashes and quotes are escaped and nothing else: the literal has the value that was
written if and only if no string of it contains a line break and no key is `__proto__` (`tsValue_evaluates_iff`).
-/

namespace CubridWebManager.ParamCatalog

open CodeUnits (unit ofText isSpace)
open JsLiteral (Dialect Stops Token)

/-! ### Writing -/

/-- `.replace(/u/g, w)` -/
def replaceUnit (u : UInt16) (w s : CodeUnits) : CodeUnits := s.flatMap fun v => if v = u then w else [v]

def tsString (s : CodeUnits) : CodeUnits :=
  ofText "'" ++ replaceUnit (unit '\'') (ofText "\\'") (replaceUnit (unit '\\') (ofText "\\\\") s) ++ ofText "'"

mutual

def tsValue : JsLiteral.Value → CodeUnits
  | .null => ofText "null"
  | .bool b => ofText (toString b)
  | .str s => tsString s
  | .arr items => ofText "[" ++ List.intercalate (ofText ", ") (tsItems items) ++ ofText "]"
  | .obj entries => ofText "\x7b " ++ List.intercalate (ofText ", ") (tsEntries entries) ++ ofText " \x7d"

/-- `v.map(tsValue)` -/
def tsItems : List JsLiteral.Value → List CodeUnits
  | [] => []
  | v :: items => tsValue v :: tsItems items

def tsEntries : List (CodeUnits × JsLiteral.Value) → List CodeUnits
  | [] => []
  | (k, x) :: entries => (k ++ ofText ": " ++ tsValue x) :: tsEntries entries

end

/-! ### What is written -/

mutual

/-- The keys of an object are names, and no two are the same. -/
def Valid (D : Dialect) : JsLiteral.Value → Prop
  | .null | .bool _ | .str _ => True
  | .arr items => ValidItems D items
  | .obj entries => (entries.map Prod.fst).Nodup ∧ ValidEntries D entries

def ValidItems (D : Dialect) : List JsLiteral.Value → Prop
  | [] => True
  | v :: items => Valid D v ∧ ValidItems D items

def ValidEntries (D : Dialect) : List (CodeUnits × JsLiteral.Value) → Prop
  | [] => True
  | (k, x) :: entries => D.isName k = true ∧ Valid D x ∧ ValidEntries D entries

end

/-- A value as the catalog has them. -/
structure CatalogValue (D : Dialect) where
  value : JsLiteral.Value
  valid : Valid D value

mutual

/-- The strings in the value. -/
def strings : JsLiteral.Value → List CodeUnits
  | .null | .bool _ => []
  | .str s => [s]
  | .arr items => itemStrings items
  | .obj entries => entryStrings entries

def itemStrings : List JsLiteral.Value → List CodeUnits
  | [] => []
  | v :: items => strings v ++ itemStrings items

def entryStrings : List (CodeUnits × JsLiteral.Value) → List CodeUnits
  | [] => []
  | (_, x) :: entries => strings x ++ entryStrings entries

end

mutual

/-- The keys in the value. -/
def keys : JsLiteral.Value → List CodeUnits
  | .null | .bool _ | .str _ => []
  | .arr items => itemKeys items
  | .obj entries => entryKeys entries

def itemKeys : List JsLiteral.Value → List CodeUnits
  | [] => []
  | v :: items => keys v ++ itemKeys items

def entryKeys : List (CodeUnits × JsLiteral.Value) → List CodeUnits
  | [] => []
  | (k, x) :: entries => k :: keys x ++ entryKeys entries

end

/-- The string contains no line break. -/
def oneLine (D : Dialect) (s : CodeUnits) : Bool := s.all fun u => !D.isLineBreak u

/-! ### Reading strings -/

variable {D : Dialect}

/-- What a unit of a string becomes. -/
def escaped (u : UInt16) : CodeUnits :=
  if u = unit '\\' then ofText "\\\\" else if u = unit '\'' then ofText "\\'" else [u]

theorem tsString_eq (s : CodeUnits) : tsString s = unit '\'' :: (s.flatMap escaped ++ [unit '\'']) := by
  have hreplace : replaceUnit (unit '\'') (ofText "\\'") (replaceUnit (unit '\\') (ofText "\\\\") s) =
      s.flatMap escaped := by
    rw [replaceUnit, replaceUnit, List.flatMap_assoc]
    congr 1
    funext u
    unfold escaped
    split
    · rfl
    · simp
  rw [tsString, hreplace]
  rfl

theorem readString_backslash {s t rest : CodeUnits} (h : JsLiteral.readEscape t = some (s, rest)) :
    JsLiteral.readString D (unit '\'') (unit '\\' :: t) =
      (JsLiteral.readString D (unit '\'') rest).bind fun (s', rest) => some (s ++ s', rest) := by
  rw [JsLiteral.readString_cons, if_neg (by decide), if_pos rfl, h]
  rfl

theorem readString_unit {u : UInt16} (hquote : u ≠ unit '\'') (hbackslash : u ≠ unit '\\') (t : CodeUnits) :
    JsLiteral.readString D (unit '\'') (u :: t) = if D.isLineBreak u then none else
      (JsLiteral.readString D (unit '\'') t).bind fun (s, rest) => some (u :: s, rest) := by
  rw [JsLiteral.readString_cons, if_neg hquote, if_neg hbackslash]

theorem isLineBreak_backslash : D.isLineBreak (unit '\\') = false := by
  have hnone : unit '\\' ≠ 10 ∧ unit '\\' ≠ 13 ∧ unit '\\' ≠ 0x2028 ∧ unit '\\' ≠ 0x2029 := by decide
  simp [Dialect.isLineBreak, hnone]

theorem isLineBreak_quote : D.isLineBreak (unit '\'') = false := by
  have hnone : unit '\'' ≠ 10 ∧ unit '\'' ≠ 13 ∧ unit '\'' ≠ 0x2028 ∧ unit '\'' ≠ 0x2029 := by decide
  simp [Dialect.isLineBreak, hnone]

/-- The escaped units are read if none is a line break. -/
theorem readString_escaped (s rest : CodeUnits) :
    JsLiteral.readString D (unit '\'') (s.flatMap escaped ++ unit '\'' :: rest) =
      if oneLine D s then some (s, rest) else none := by
  induction s with
  | nil =>
    rw [List.flatMap_nil, List.nil_append, JsLiteral.readString_cons]
    rfl
  | cons u s ih =>
    have hcons : oneLine D (u :: s) = (!D.isLineBreak u && oneLine D s) := rfl
    rw [List.flatMap_cons, List.append_assoc, hcons]
    by_cases hbackslash : u = unit '\\'
    · subst hbackslash
      have hescaped : escaped (unit '\\') = [unit '\\', unit '\\'] := by decide
      have hread (t : CodeUnits) : JsLiteral.readEscape (unit '\\' :: t) = some ([unit '\\'], t) := rfl
      rw [isLineBreak_backslash, hescaped, List.cons_append, List.singleton_append, readString_backslash (hread _), ih]
      cases oneLine D s <;> rfl
    · by_cases hquote : u = unit '\''
      · subst hquote
        have hescaped : escaped (unit '\'') = [unit '\\', unit '\''] := by decide
        have hread (t : CodeUnits) : JsLiteral.readEscape (unit '\'' :: t) = some ([unit '\''], t) := rfl
        rw [isLineBreak_quote, hescaped, List.cons_append, List.singleton_append, readString_backslash (hread _), ih]
        cases oneLine D s <;> rfl
      · rw [escaped, if_neg hbackslash, if_neg hquote, List.singleton_append, readString_unit hquote hbackslash, ih]
        cases D.isLineBreak u with
        | true => rfl
        | false => cases oneLine D s <;> rfl

/-! ### Reading tokens -/

/-- The text is read as these tokens, if there are any, whatever stands behind it. -/
def Lexes (D : Dialect) (text : CodeUnits) (r : Option (List Token)) : Prop :=
  ∀ rest, Stops rest → JsLiteral.tokens D (text ++ rest) =
    r.bind fun ts => (JsLiteral.tokens D rest).bind fun ts' => some (ts ++ ts')

theorem lexes_name {n : CodeUnits} (h : D.isName n = true) : Lexes D n (some [.name n]) := by
  intro rest hrest
  rw [JsLiteral.tokens_name h hrest]
  rfl

theorem lexes_string (s : CodeUnits) :
    Lexes D (tsString s) (if oneLine D s then some [.str s] else none) := by
  intro rest _
  rw [tsString_eq, List.cons_append, List.append_assoc, JsLiteral.tokens_string (by decide), List.singleton_append,
    readString_escaped]
  split <;> rfl

/-- The tokens of the parts, with commas between them. -/
def joined : List (Option (List Token)) → Option (List Token)
  | [] => some []
  | [r] => r
  | r :: rs => r.bind fun ts => (joined rs).bind fun ts' => some (ts ++ .punctuator (unit ',') :: ts')

theorem joined_cons_cons (r r' : Option (List Token)) (rs : List (Option (List Token))) : joined (r :: r' :: rs) =
    r.bind fun ts => (joined (r' :: rs)).bind fun ts' => some (ts ++ .punctuator (unit ',') :: ts') := rfl

theorem lexes_punctuator {u : UInt16} (hu : JsLiteral.isPunctuator u = true) {text : CodeUnits}
    {r : Option (List Token)} (h : Lexes D text r) :
    Lexes D (u :: text) (r.bind fun ts => some (.punctuator u :: ts)) := by
  intro rest hrest
  rw [List.cons_append, JsLiteral.tokens_punctuator hu, h rest hrest]
  cases r with
  | none => rfl
  | some ts => cases JsLiteral.tokens D rest <;> rfl

theorem lexes_space {u : UInt16} (hu : isSpace u = true) {text : CodeUnits} {r : Option (List Token)}
    (h : Lexes D text r) : Lexes D (u :: text) r := by
  intro rest hrest
  rw [List.cons_append, JsLiteral.tokens_space hu, h rest hrest]

theorem lexes_append {text text' : CodeUnits} {r r' : Option (List Token)} (h : Lexes D text r) (h' : Lexes D text' r')
    (hstops : ∀ rest, Stops (text' ++ rest)) :
    Lexes D (text ++ text') (r.bind fun ts => r'.bind fun ts' => some (ts ++ ts')) := by
  intro rest hrest
  rw [List.append_assoc, h _ (hstops rest), h' rest hrest]
  cases r with
  | none => rfl
  | some ts =>
    cases r' with
    | none => rfl
    | some ts' =>
      cases JsLiteral.tokens D rest with
      | none => rfl
      | some us => simp

theorem lexes_nil : Lexes D [] (some []) := by
  intro rest _
  rw [List.nil_append]
  cases JsLiteral.tokens D rest <;> rfl

theorem stops_cons {u : UInt16} (hu : JsLiteral.isNameUnit u = false) (text : CodeUnits) : Stops (u :: text) := by
  rintro _ ⟨⟩
  exact hu

theorem lexes_joined {texts : List CodeUnits} {rs : List (Option (List Token))} (h : List.Forall₂ (Lexes D) texts rs) :
    Lexes D (List.intercalate (ofText ", ") texts) (joined rs) := by
  induction h with
  | nil => exact lexes_nil
  | @cons text r texts rs hhead hrest ih =>
    cases hrest with
    | nil =>
      rw [List.intercalate_singleton]
      exact hhead
    | @cons text' r' texts rs hhead' hrest =>
      have hshape : List.intercalate (ofText ", ") (text :: text' :: texts) =
          text ++ unit ',' :: unit ' ' :: List.intercalate (ofText ", ") (text' :: texts) := by
        rw [List.intercalate_cons_cons, List.append_assoc]
        rfl
      rw [hshape]
      have hcomma := lexes_append hhead (lexes_punctuator (u := unit ',') rfl (lexes_space (u := unit ' ') rfl ih))
        fun rest => stops_cons rfl _
      have hjoined : joined (r :: r' :: rs) = r.bind fun ts => ((joined (r' :: rs)).bind fun ts' =>
          some (.punctuator (unit ',') :: ts')).bind fun ts' => some (ts ++ ts') := by
        rw [joined_cons_cons]
        cases r with
        | none => rfl
        | some ts => cases joined (r' :: rs) <;> rfl
      rw [hjoined]
      exact hcomma

mutual

/-- The tokens of the text of a value; there are none if a string in it contains a line break. -/
def lexemes (D : Dialect) : JsLiteral.Value → Option (List Token)
  | .null => some [.name (ofText "null")]
  | .bool b => some [.name (ofText (toString b))]
  | .str s => if oneLine D s then some [.str s] else none
  | .arr items => (joined (itemLexemes D items)).bind fun ts =>
      some (.punctuator (unit '[') :: (ts ++ [.punctuator (unit ']')]))
  | .obj entries => (joined (entryLexemes D entries)).bind fun ts =>
      some (.punctuator (unit '{') :: (ts ++ [.punctuator (unit '}')]))

def itemLexemes (D : Dialect) : List JsLiteral.Value → List (Option (List Token))
  | [] => []
  | v :: items => lexemes D v :: itemLexemes D items

def entryLexemes (D : Dialect) : List (CodeUnits × JsLiteral.Value) → List (Option (List Token))
  | [] => []
  | (k, x) :: entries =>
    ((lexemes D x).bind fun ts => some (.name k :: .punctuator (unit ':') :: ts)) :: entryLexemes D entries

end

/-- Behind the opening bracket come the parts and the closing one. -/
theorem lexes_bracketed {u w : UInt16} (hu : JsLiteral.isPunctuator u = true) (hw : JsLiteral.isPunctuator w = true)
    (hstops : JsLiteral.isNameUnit w = false) {text : CodeUnits} {r : Option (List Token)} (h : Lexes D text r) :
    Lexes D (u :: (text ++ [w])) (r.bind fun ts => some (.punctuator u :: (ts ++ [.punctuator w]))) := by
  have hclose : Lexes D [w] (some [.punctuator w]) := lexes_punctuator hw lexes_nil
  have hopen := lexes_punctuator hu (lexes_append h hclose fun rest => stops_cons hstops rest)
  cases r with
  | none => exact hopen
  | some ts => exact hopen

mutual

theorem lexes_tsValue : ∀ v : JsLiteral.Value, Valid D v → Lexes D (tsValue v) (lexemes D v)
  | .null, _ => lexes_name D.keywords.1
  | .bool true, _ => lexes_name D.keywords.2.1
  | .bool false, _ => lexes_name D.keywords.2.2
  | .str s, _ => lexes_string s
  | .arr items, h => lexes_bracketed (u := unit '[') (w := unit ']') rfl rfl rfl (lexes_joined (lexes_tsItems items h))
  | .obj entries, h => by
    have hspace : Lexes D [unit ' '] (some []) := lexes_space rfl lexes_nil
    have hinside := lexes_space (u := unit ' ') rfl
      (lexes_append (lexes_joined (lexes_tsEntries entries h.2)) hspace fun rest => stops_cons rfl rest)
    have hobject := lexes_bracketed (u := unit '{') (w := unit '}') rfl rfl rfl hinside
    have htext : tsValue (.obj entries) = unit '{' ::
        ((unit ' ' :: (List.intercalate (ofText ", ") (tsEntries entries) ++ [unit ' '])) ++ [unit '}']) := by
      have hopen : ofText "\x7b " = [unit '{', unit ' '] := by decide
      have hclose : ofText " \x7d" = [unit ' ', unit '}'] := by decide
      simp [tsValue, hopen, hclose]
    have hlexemes : lexemes D (.obj entries) = ((joined (entryLexemes D entries)).bind fun ts =>
        (some []).bind fun ts' => some (ts ++ ts')).bind fun ts =>
          some (.punctuator (unit '{') :: (ts ++ [.punctuator (unit '}')])) := by
      rw [lexemes]
      cases joined (entryLexemes D entries) with
      | none => rfl
      | some ts => simp
    rw [htext, hlexemes]
    exact hobject

theorem lexes_tsItems : ∀ items : List JsLiteral.Value, ValidItems D items →
    List.Forall₂ (Lexes D) (tsItems items) (itemLexemes D items)
  | [], _ => .nil
  | v :: items, h => .cons (lexes_tsValue v h.1) (lexes_tsItems items h.2)

theorem lexes_tsEntries : ∀ entries : List (CodeUnits × JsLiteral.Value), ValidEntries D entries →
    List.Forall₂ (Lexes D) (tsEntries entries) (entryLexemes D entries)
  | [], _ => .nil
  | (k, x) :: entries, h => by
    refine .cons ?_ (lexes_tsEntries entries h.2.2)
    have hvalue := lexes_tsValue x h.2.1
    have hbehind := lexes_punctuator (u := unit ':') rfl (lexes_space (u := unit ' ') rfl hvalue)
    have hentry := lexes_append (lexes_name h.1) hbehind fun rest => stops_cons rfl _
    have htext : k ++ ofText ": " ++ tsValue x = k ++ unit ':' :: unit ' ' :: tsValue x := by
      rw [List.append_assoc]
      rfl
    rw [htext]
    cases hx : lexemes D x with
    | none =>
      rw [hx] at hentry
      exact hentry
    | some ts =>
      rw [hx] at hentry
      exact hentry

end

/-! ### Reading values -/

mutual

/-- What is read of a value: a property `__proto__` is lost. -/
def seen : JsLiteral.Value → JsLiteral.Value
  | .null => .null
  | .bool b => .bool b
  | .str s => .str s
  | .arr items => .arr (seenItems items)
  | .obj entries => .obj (seenEntries entries)

def seenItems : List JsLiteral.Value → List JsLiteral.Value
  | [] => []
  | v :: items => seen v :: seenItems items

def seenEntries : List (CodeUnits × JsLiteral.Value) → List (CodeUnits × JsLiteral.Value)
  | [] => []
  | (k, x) :: entries => if k = JsLiteral.proto then seenEntries entries else (k, seen x) :: seenEntries entries

end

/-- The properties in the order in which they are written. -/
def writtenEntries : List (CodeUnits × JsLiteral.Value) → List (CodeUnits × JsLiteral.Value)
  | [] => []
  | (k, x) :: entries => (k, seen x) :: writtenEntries entries

/-- The tokens of a value do not begin with a closing bracket. -/
theorem head_lexemes : ∀ {v : JsLiteral.Value} {ts : List Token}, lexemes D v = some ts → ∀ rest,
    (ts ++ rest).head? ≠ some (.punctuator (unit ']'))
  | .null, _, h, _ | .bool _, _, h, _ => by
    obtain rfl := Option.some.inj h
    nofun
  | .str s, ts, h, rest => by
    rw [lexemes] at h
    split at h
    · obtain rfl := Option.some.inj h
      nofun
    · cases h
  | .arr items, ts, h, rest | .obj entries, ts, h, rest => by
    rw [lexemes] at h
    obtain ⟨us, -, hus⟩ := Option.bind_eq_some_iff.1 h
    obtain rfl := Option.some.inj hus
    simp [unit]

/-- Properties with different keys are defined one behind the other. -/
theorem foldl_define : ∀ (entries acc : List (CodeUnits × JsLiteral.Value)), ((acc ++ entries).map Prod.fst).Nodup →
    (writtenEntries entries).foldl JsLiteral.define acc = acc ++ seenEntries entries
  | [], acc, _ => by rw [seenEntries, List.append_nil]; rfl
  | (k, x) :: entries, acc, h => by
    rw [writtenEntries, List.foldl_cons, JsLiteral.define, seenEntries]
    have hsplit : ((acc ++ (k, x) :: entries).map Prod.fst).Nodup ↔
        (((acc ++ [(k, seen x)]) ++ entries).map Prod.fst).Nodup := by simp
    have hkey : k ∉ acc.map Prod.fst := by
      rw [List.map_append, List.nodup_append] at h
      exact fun hk => h.2.2 k hk k List.mem_cons_self rfl
    by_cases hproto : k = JsLiteral.proto
    · rw [if_pos hproto, if_pos hproto]
      refine foldl_define entries acc (h.sublist ?_)
      exact ((List.Sublist.refl acc).append (List.sublist_cons_self _ _)).map _
    · rw [if_neg hproto, if_neg hproto, if_neg hkey, foldl_define entries _ (hsplit.1 h), List.append_assoc]
      rfl

mutual

theorem readValue_lexemes : ∀ (v : JsLiteral.Value) {ts : List Token}, Valid D v → lexemes D v = some ts → ∀ rest,
    JsLiteral.readValue (ts ++ rest) = some (seen v, rest)
  | .null, ts, _, h, rest | .bool true, ts, _, h, rest | .bool false, ts, _, h, rest => by
    obtain rfl := Option.some.inj h
    rw [List.singleton_append, JsLiteral.readValue_name]
    rfl
  | .str s, ts, _, h, rest => by
    rw [lexemes] at h
    split at h
    · obtain rfl := Option.some.inj h
      rw [List.singleton_append, JsLiteral.readValue_str]
      rfl
    · cases h
  | .arr items, ts, hvalid, h, rest => by
    rw [lexemes] at h
    obtain ⟨us, hus, heq⟩ := Option.bind_eq_some_iff.1 h
    obtain rfl := Option.some.inj heq
    rw [List.cons_append, List.append_assoc, List.singleton_append, JsLiteral.readValue_array,
      readItems_lexemes items hvalid hus rest]
    rfl
  | .obj entries, ts, hvalid, h, rest => by
    rw [lexemes] at h
    obtain ⟨us, hus, heq⟩ := Option.bind_eq_some_iff.1 h
    obtain rfl := Option.some.inj heq
    rw [List.cons_append, List.append_assoc, List.singleton_append, JsLiteral.readValue_object,
      readEntries_lexemes entries hvalid.2 hus rest, Option.bind_some]
    dsimp only
    rw [foldl_define entries [] hvalid.1, seen, List.nil_append]

theorem readItems_lexemes : ∀ (items : List JsLiteral.Value) {ts : List Token}, ValidItems D items →
    joined (itemLexemes D items) = some ts → ∀ rest,
    JsLiteral.readItems (ts ++ .punctuator (unit ']') :: rest) = some (seenItems items, rest)
  | [], ts, _, h, rest => by
    obtain rfl := Option.some.inj h
    exact JsLiteral.readItems_nil rest
  | [v], ts, hvalid, h, rest =>
    JsLiteral.readItems_last (head_lexemes h _) (readValue_lexemes v hvalid.1 h _)
  | v :: w :: items, ts, hvalid, h, rest => by
    rw [itemLexemes, itemLexemes, joined_cons_cons, ← itemLexemes] at h
    obtain ⟨us, hus, h⟩ := Option.bind_eq_some_iff.1 h
    obtain ⟨us', hus', h⟩ := Option.bind_eq_some_iff.1 h
    obtain rfl := Option.some.inj h
    rw [List.append_assoc, List.cons_append,
      JsLiteral.readItems_cons (head_lexemes hus _) (readValue_lexemes v hvalid.1 hus _),
      readItems_lexemes (w :: items) hvalid.2 hus' rest]
    rfl

theorem readEntries_lexemes : ∀ (entries : List (CodeUnits × JsLiteral.Value)) {ts : List Token}, ValidEntries D entries →
    joined (entryLexemes D entries) = some ts → ∀ rest,
    JsLiteral.readEntries (ts ++ .punctuator (unit '}') :: rest) = some (writtenEntries entries, rest)
  | [], ts, _, h, rest => by
    obtain rfl := Option.some.inj h
    exact JsLiteral.readEntries_nil rest
  | [(k, x)], ts, hvalid, h, rest => by
    obtain ⟨us, hus, heq⟩ := Option.bind_eq_some_iff.1 (h : (lexemes D x).bind _ = some ts)
    obtain rfl := Option.some.inj heq
    exact JsLiteral.readEntries_last (readValue_lexemes x hvalid.2.1 hus _)
  | (k, x) :: (k', x') :: entries, ts, hvalid, h, rest => by
    rw [entryLexemes, entryLexemes, joined_cons_cons, ← entryLexemes] at h
    obtain ⟨us, hus, h⟩ := Option.bind_eq_some_iff.1 h
    obtain ⟨us', hus', h⟩ := Option.bind_eq_some_iff.1 h
    obtain rfl := Option.some.inj h
    obtain ⟨vs, hvs, heq⟩ := Option.bind_eq_some_iff.1 hus
    obtain rfl := Option.some.inj heq
    have hread := JsLiteral.readEntries_cons (k := k) (readValue_lexemes x hvalid.2.1 hvs
      (.punctuator (unit ',') :: (us' ++ .punctuator (unit '}') :: rest)))
    rw [readEntries_lexemes ((k', x') :: entries) hvalid.2.2 hus' rest] at hread
    simp only [List.append_assoc, List.cons_append]
    exact hread

end

/-! ### What is read back -/

/-- The value that the text of a value has. -/
theorem evaluate_tsValue {v : JsLiteral.Value} (h : Valid D v) :
    JsLiteral.evaluate D (tsValue v) = (lexemes D v).map fun _ => seen v := by
  have hlexes := lexes_tsValue v h [] nofun
  rw [List.append_nil, JsLiteral.tokens_nil] at hlexes
  rw [JsLiteral.evaluate, hlexes]
  cases hr : lexemes D v with
  | none => rfl
  | some ts =>
    have hread := readValue_lexemes v h hr []
    rw [List.append_nil] at hread
    simp [hread]

theorem isSome_joined : ∀ rs : List (Option (List Token)), (joined rs).isSome = rs.all Option.isSome
  | [] => rfl
  | [r] => by simp [joined]
  | r :: r' :: rs => by
    rw [joined_cons_cons, List.all_cons, ← isSome_joined (r' :: rs)]
    cases r with
    | none => rfl
    | some ts => cases joined (r' :: rs) <;> rfl

mutual

theorem isSome_lexemes : ∀ v : JsLiteral.Value, (lexemes D v).isSome = (strings v).all (oneLine D)
  | .null | .bool _ => rfl
  | .str s => by
    rw [lexemes, strings]
    cases h : oneLine D s <;> simp [h]
  | .arr items => by
    rw [lexemes, strings, ← isSome_itemLexemes items, ← isSome_joined]
    cases joined (itemLexemes D items) <;> rfl
  | .obj entries => by
    rw [lexemes, strings, ← isSome_entryLexemes entries, ← isSome_joined]
    cases joined (entryLexemes D entries) <;> rfl

theorem isSome_itemLexemes : ∀ items : List JsLiteral.Value,
    (itemLexemes D items).all Option.isSome = (itemStrings items).all (oneLine D)
  | [] => rfl
  | v :: items => by
    rw [itemLexemes, itemStrings, List.all_cons, List.all_append, isSome_lexemes v, isSome_itemLexemes items]

theorem isSome_entryLexemes : ∀ entries : List (CodeUnits × JsLiteral.Value),
    (entryLexemes D entries).all Option.isSome = (entryStrings entries).all (oneLine D)
  | [] => rfl
  | (k, x) :: entries => by
    rw [entryLexemes, entryStrings, List.all_cons, List.all_append, ← isSome_lexemes x, isSome_entryLexemes entries]
    cases lexemes D x <;> rfl

end

theorem length_seenEntries_le : ∀ entries : List (CodeUnits × JsLiteral.Value),
    (seenEntries entries).length ≤ entries.length
  | [] => Nat.le_refl _
  | (k, x) :: entries => by
    have hle := length_seenEntries_le entries
    rw [seenEntries]
    split
    · exact hle.trans (Nat.le_succ _)
    · exact Nat.succ_le_succ hle

mutual

theorem seen_eq_iff : ∀ v : JsLiteral.Value, seen v = v ↔ ∀ k ∈ keys v, k ≠ JsLiteral.proto
  | .null | .bool _ | .str _ => iff_of_true rfl nofun
  | .arr items => by
    rw [seen, JsLiteral.Value.arr.injEq]
    exact seenItems_eq_iff items
  | .obj entries => by
    rw [seen, JsLiteral.Value.obj.injEq]
    exact seenEntries_eq_iff entries

theorem seenItems_eq_iff : ∀ items : List JsLiteral.Value,
    seenItems items = items ↔ ∀ k ∈ itemKeys items, k ≠ JsLiteral.proto
  | [] => iff_of_true rfl nofun
  | v :: items => by
    rw [seenItems, itemKeys, List.cons_eq_cons, List.forall_mem_append, seen_eq_iff v, seenItems_eq_iff items]

theorem seenEntries_eq_iff : ∀ entries : List (CodeUnits × JsLiteral.Value),
    seenEntries entries = entries ↔ ∀ k ∈ entryKeys entries, k ≠ JsLiteral.proto
  | [] => iff_of_true rfl nofun
  | (k, x) :: entries => by
    rw [seenEntries, entryKeys, List.cons_append, List.forall_mem_cons, List.forall_mem_append, ← seen_eq_iff x,
      ← seenEntries_eq_iff entries]
    by_cases hproto : k = JsLiteral.proto
    · rw [if_pos hproto]
      refine iff_of_false (fun h => ?_) fun h => h.1 hproto
      have hle := length_seenEntries_le entries
      rw [h, List.length_cons] at hle
      omega
    · rw [if_neg hproto, List.cons_eq_cons, Prod.mk.injEq]
      simp [hproto]

end

/-- The text has the value that was written if and only if no string in it contains a line break and no key is
`__proto__`. -/
theorem tsValue_evaluates_iff (D : Dialect) (v : CatalogValue D) :
    JsLiteral.evaluate D (tsValue v.value) = some v.value ↔
      (∀ s ∈ strings v.value, ∀ u ∈ s, D.isLineBreak u = false) ∧ ∀ k ∈ keys v.value, k ≠ JsLiteral.proto := by
  have hlines : (∀ s ∈ strings v.value, ∀ u ∈ s, D.isLineBreak u = false) ↔ (lexemes D v.value).isSome = true := by
    rw [isSome_lexemes, List.all_eq_true]
    simp [oneLine]
  rw [evaluate_tsValue v.valid, hlines, ← seen_eq_iff]
  cases lexemes D v.value with
  | none => simp
  | some ts => simp

/-- Names of letters, digits, `$` and `_`. -/
def asciiNames : Dialect where
  isName n := n ≠ [] && n.all fun u => JsLiteral.isNameUnit u && u.toNat < 128
  separatorsBreak := false
  name_ne_nil := rfl
  name_units n h u hu := by
    rw [Bool.and_eq_true, List.all_eq_true] at h
    exact (Bool.and_eq_true_iff.1 (h.2 u hu)).1
  keywords := by decide

/-- A string of two lines. -/
theorem tsValue_evaluates_fails :
    JsLiteral.evaluate asciiNames (tsValue (.str (ofText "a\nb"))) ≠ some (.str (ofText "a\nb")) := by
  have hlexemes : lexemes asciiNames (.str (ofText "a\nb")) = none := by
    rw [lexemes]
    exact if_neg (by decide)
  have hvalid : Valid asciiNames (.str (ofText "a\nb")) := trivial
  rw [evaluate_tsValue hvalid, hlexemes]
  nofun

end CubridWebManager.ParamCatalog
