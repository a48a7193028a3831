import CubridWebManager.Lib.Literals

/-!
# Splitting initializers

`scripts/generate-param-catalog.mjs` cuts the initializers of the engine's tables out of the source (`extractBraced`) and
splits them at their commas (`splitTopLevel`).

Both loops look for the end of a literal without a look at the end of the text, so they go on for ever in a literal
that is not closed.  `normalizeWs` collapses the white space of a part within its literals too
(`initializers_kept_iff`).
-/

namespace CubridWebManager.ParamCatalog

open Literals

/-! ### The code -/

def isOpening (c : Char) : Bool := c = '(' || c = '{' || c = '['

def isClosing (c : Char) : Bool := c = ')' || c = '}' || c = ']'

/-- `text.slice(start, stop)` -/
def slice (text : Text) (start stop : Nat) : Text := (text.take stop).drop start

/-- `while (text[i] !== c)`: behind the end of the text the loop goes on for ever, and there is no result. -/
def skipLiteral (text : Text) (c : Char) (i : Nat) : Option Nat :=
  match _htext : text[i]? with
  | none => none
  | some d =>
    if d = c then some i
    else if d = '\\' then skipLiteral text c (i + 2)
    else skipLiteral text c (i + 1)
termination_by text.length - i
decreasing_by
  all_goals
    have := (List.getElem?_eq_some_iff.1 _htext).1
    omega

theorem le_of_skipLiteral {text : Text} {c : Char} {i j : Nat} (h : skipLiteral text c i = some j) :
    i ≤ j ∧ j < text.length := by
  fun_induction skipLiteral text c i with
  | case1 => cases h
  | case2 i htext =>
    obtain rfl := Option.some.inj h
    exact ⟨le_rfl, (List.getElem?_eq_some_iff.1 htext).1⟩
  | case3 i _ _ ih => exact ⟨(Nat.le_add_right i 2).trans (ih h).1, (ih h).2⟩
  | case4 i _ _ _ _ ih => exact ⟨(Nat.le_add_right i 1).trans (ih h).1, (ih h).2⟩

/-- `for (; i < text.length && depth > 0; i++)` -/
def scanBraced (text : Text) (depth i : Nat) : Option Nat :=
  match _htext : text[i]? with
  | none => some i
  | some c =>
    if depth = 0 then some i
    else if isQuote c then
      match _hskip : skipLiteral text c (i + 1) with
      | none => none
      | some j => scanBraced text depth (j + 1)
    else if c = '{' then scanBraced text (depth + 1) (i + 1)
    else if c = '}' then scanBraced text (depth - 1) (i + 1)
    else scanBraced text depth (i + 1)
termination_by text.length - i
decreasing_by
  · have := le_of_skipLiteral _hskip
    omega
  all_goals
    have := (List.getElem?_eq_some_iff.1 _htext).1
    omega

/-- A regular expression, by its source and the index and the length of its first match. -/
structure Pattern where
  source : Text
  exec : Text → Option (Nat × Nat)

def extractBraced (text : Text) (headRe : Pattern) : Option (Except Text Text) :=
  match headRe.exec text with
  | none => some (.error ("Could not find ".toList ++ headRe.source))
  | some (index, length) => do
    let start := index + length
    let i ← scanBraced text 1 start
    some (.ok (slice text start (i - 1)))

/-- `replace(/\s+/g, ' ')`, within a run of white space or not. -/
def collapseFrom (inRun : Bool) : Text → Text
  | [] => []
  | c :: t =>
    if Text.isSpace c then if inRun then collapseFrom true t else ' ' :: collapseFrom true t
    else c :: collapseFrom false t

def normalizeWs (s : Text) : Text := (collapseFrom false s).trim

/-- `for (let i = 0; i < text.length; i++)` -/
def splitFrom (text : Text) (depth : Int) (parts : List Text) (cur : Text) (i : Nat) : Option (List Text) :=
  match _htext : text[i]? with
  | none => some (parts ++ [cur])
  | some c =>
    if isQuote c then
      match _hskip : skipLiteral text c (i + 1) with
      | none => none
      | some j => splitFrom text depth parts (cur ++ slice text i (j + 1)) (j + 1)
    else
      let depth := if isOpening c then depth + 1 else if isClosing c then depth - 1 else depth
      if c = ',' ∧ depth = 0 then splitFrom text depth (parts ++ [cur]) [] (i + 1)
      else splitFrom text depth parts (cur ++ [c]) (i + 1)
termination_by text.length - i
decreasing_by
  · have := le_of_skipLiteral _hskip
    omega
  all_goals
    have := (List.getElem?_eq_some_iff.1 _htext).1
    omega

def splitTopLevel (text : Text) : Option (List Text) := do
  let parts ← splitFrom text 0 [] [] 0
  some ((parts.map normalizeWs).filter (· ≠ []))

theorem skipLiteral_eq (text : Text) (c : Char) (i : Nat) : skipLiteral text c i =
    match text[i]? with
    | none => none
    | some d =>
      if d = c then some i
      else if d = '\\' then skipLiteral text c (i + 2)
      else skipLiteral text c (i + 1) := by
  rw [skipLiteral]
  split
  · rename_i htext
    rw [htext]
  · rename_i d htext
    rw [htext]

theorem scanBraced_eq (text : Text) (depth i : Nat) : scanBraced text depth i =
    match text[i]? with
    | none => some i
    | some c =>
      if depth = 0 then some i
      else if isQuote c then (skipLiteral text c (i + 1)).bind fun j => scanBraced text depth (j + 1)
      else if c = '{' then scanBraced text (depth + 1) (i + 1)
      else if c = '}' then scanBraced text (depth - 1) (i + 1)
      else scanBraced text depth (i + 1) := by
  rw [scanBraced]
  split
  · rename_i htext
    rw [htext]
  · rename_i c htext
    rw [htext]
    dsimp only
    congr 2
    split
    · rename_i hskip
      rw [hskip, Option.bind_none]
    · rename_i j hskip
      rw [hskip, Option.bind_some]

theorem splitFrom_eq (text : Text) (depth : Int) (parts : List Text) (cur : Text) (i : Nat) :
    splitFrom text depth parts cur i =
      match text[i]? with
      | none => some (parts ++ [cur])
      | some c =>
        if isQuote c then
          (skipLiteral text c (i + 1)).bind fun j => splitFrom text depth parts (cur ++ slice text i (j + 1)) (j + 1)
        else
          let depth := if isOpening c then depth + 1 else if isClosing c then depth - 1 else depth
          if c = ',' ∧ depth = 0 then splitFrom text depth (parts ++ [cur]) [] (i + 1)
          else splitFrom text depth parts (cur ++ [c]) (i + 1) := by
  rw [splitFrom]
  split
  · rename_i htext
    rw [htext]
  · rename_i c htext
    rw [htext]
    dsimp only
    congr 1
    split
    · rename_i hskip
      rw [hskip, Option.bind_none]
    · rename_i j hskip
      rw [hskip, Option.bind_some]

/-! ### Balanced texts -/

inductive Bracket
  | paren
  | brace
  | square
  deriving DecidableEq

def Bracket.opening : Bracket → Char
  | paren => '('
  | brace => '{'
  | square => '['

def Bracket.closing : Bracket → Char
  | paren => ')'
  | brace => '}'
  | square => ']'

theorem Bracket.opening_facts (k : Bracket) : isQuote k.opening = false ∧ isOpening k.opening = true := by
  cases k <;> decide

theorem Bracket.closing_facts (k : Bracket) :
    isQuote k.closing = false ∧ isOpening k.closing = false ∧ isClosing k.closing = true := by
  cases k <;> decide

def Bracket.around (k : Bracket) (segments : List Segment) : List Segment :=
  .plain k.opening k.opening_facts.1 :: segments ++ [.plain k.closing k.closing_facts.1]

/-- A text with balanced brackets and closed literals. -/
inductive Balanced
  | nil
  | plain (c : Char) (hc : isQuote c = false) (hopening : isOpening c = false) (hclosing : isClosing c = false)
      (rest : Balanced)
  | literal (q : Char) (hq : isQuote q = true) (body : Text) (hbody : Body q body) (rest : Balanced)
  | group (k : Bracket) (inner rest : Balanced)

namespace Balanced

def segments : Balanced → List Segment
  | nil => []
  | plain c hc _ _ rest => .plain c hc :: rest.segments
  | literal q hq body hbody rest => .literal q hq body hbody :: rest.segments
  | group k inner rest => k.around inner.segments ++ rest.segments

def text (b : Balanced) : Text := textOf b.segments

end Balanced

def extendFirst (segments : List Segment) : List (List Segment) → List (List Segment)
  | [] => [segments]
  | p :: ps => (segments ++ p) :: ps

/-- The parts between the commas that are outside the brackets and the literals. -/
def Balanced.parts : Balanced → List (List Segment)
  | .nil => [[]]
  | .plain c hc _ _ rest => if c = ',' then [] :: rest.parts else extendFirst [.plain c hc] rest.parts
  | .literal q hq body hbody rest => extendFirst [.literal q hq body hbody] rest.parts
  | .group k inner rest => extendFirst (k.around inner.segments) rest.parts

/-- `extractBraced` comes to an end, and where the text between the brace of the match and its partner is balanced, it is
the result. -/
def ExtractsBraced (text : Text) (headRe : Pattern) : Prop :=
  ∃ result, extractBraced text headRe = some result ∧
    ∀ (before : Text) (inner : Balanced) (behind : Text) (index length : Nat), headRe.exec text = some (index, length) →
      before.length = index + length → text = before ++ (inner.text ++ '}' :: behind) → result = .ok inner.text

/-- `splitTopLevel` comes to an end, and of a balanced text it gives the parts that are not empty, with the white space
outside the literals collapsed. -/
def SplitsTopLevel (text : Text) : Prop :=
  ∃ result, splitTopLevel text = some result ∧
    ∀ b : Balanced, text = b.text → result = (b.parts.map fun part => textOf (tidy part)).filter (· ≠ [])

/-- No partner of the brace in front of the segments is among them. -/
def StaysOpen (segments : List Segment) : Prop :=
  ∀ first, first <+: segments → first.countP (Segment.Is '}') ≤ first.countP (Segment.Is '{')

/-- The literals are closed up to the partner of the brace in front of the text. -/
def ClosedWithin (text : Text) : Prop :=
  ∀ segments q tail, text = textOf segments ++ q :: tail → isQuote q = true → StaysOpen segments → Closed q tail

/-- White space is single spaces. -/
def SingleSpaced (t : Text) : Prop := (∀ c ∈ t, Text.isSpace c = true → c = ' ') ∧ ¬ [' ', ' '] <:+: t

/-- White space within the literals is single spaces. -/
def LiteralsSpaced (segments : List Segment) : Prop :=
  ∀ q hq body hbody, .literal q hq body hbody ∈ segments → SingleSpaced body

/-! ### Literals -/

variable {text t : Text} {q : Char} {i depth : Nat}

theorem getElem?_of_drop {c : Char} (h : text.drop i = c :: t) : text[i]? = some c := by
  rw [← List.head?_drop, h, List.head?_cons]

theorem drop_add_of_drop {u : Text} (h : text.drop i = u ++ t) : text.drop (i + u.length) = t := by
  rw [← List.drop_drop, h, List.drop_left]

theorem drop_succ_of_drop {c : Char} (h : text.drop i = c :: t) : text.drop (i + 1) = t :=
  drop_add_of_drop (u := [c]) h

theorem drop_behind_literal {body : Text} (h : text.drop i = q :: (body ++ q :: t)) :
    text.drop (i + (body.length + 2)) = t := by
  have hlength : body.length + 2 = (q :: (body ++ [q])).length := by simp
  rw [hlength]
  exact drop_add_of_drop (by simpa using h)

theorem skipLiteral_of_body (hq : isQuote q = true) {body : Text} (hbody : Body q body)
    (h : text.drop i = body ++ q :: t) : skipLiteral text q i = some (i + body.length) := by
  induction hbody generalizing i with
  | nil =>
    rw [skipLiteral_eq, getElem?_of_drop h]
    exact if_pos rfl
  | @plain c body hmark hescape _ ih =>
    rw [List.cons_append] at h
    have hc := getElem?_of_drop h
    rw [skipLiteral_eq, hc]
    dsimp only
    rw [if_neg hmark, if_neg hescape, ih (drop_succ_of_drop h), List.length_cons, Nat.add_assoc, Nat.add_comm 1]
  | @escape c body _ ih =>
    rw [List.cons_append, List.cons_append] at h
    have hc := getElem?_of_drop h
    have hrest : text.drop (i + 2) = body ++ q :: t := drop_add_of_drop (u := ['\\', c]) h
    rw [skipLiteral_eq, hc]
    dsimp only
    rw [if_neg (ne_backslash hq).symm, if_pos rfl, ih hrest, List.length_cons, List.length_cons, Nat.add_assoc,
      Nat.add_comm 2]

/-- The loop ends in a literal that is closed. -/
theorem closed_of_skipLiteral {j : Nat} (h : skipLiteral text q i = some j) : Closed q (text.drop i) := by
  fun_induction skipLiteral text q i with
  | case1 => cases h
  | case2 i htext =>
    obtain ⟨hi, rfl⟩ := List.getElem?_eq_some_iff.1 htext
    exact ⟨[], text.drop (i + 1), .nil, List.drop_eq_getElem_cons hi⟩
  | case3 i htext _ ih =>
    obtain ⟨hi, heq⟩ := List.getElem?_eq_some_iff.1 htext
    obtain ⟨body, rest, hbody, hrest⟩ := ih h
    have hi' : i + 1 < text.length := by
      by_contra hend
      rw [List.drop_eq_nil_iff.2 (by omega)] at hrest
      exact absurd hrest.symm (by simp)
    refine ⟨'\\' :: text[i + 1] :: body, rest, .escape hbody, ?_⟩
    rw [List.drop_eq_getElem_cons hi, List.drop_eq_getElem_cons hi', heq, hrest]
    rfl
  | case4 i d htext hmark hescape ih =>
    obtain ⟨hi, rfl⟩ := List.getElem?_eq_some_iff.1 htext
    obtain ⟨body, rest, hbody, hrest⟩ := ih h
    refine ⟨text[i] :: body, rest, .plain hmark hescape hbody, ?_⟩
    rw [List.drop_eq_getElem_cons hi, hrest]
    rfl

theorem skipLiteral_of_not_closed (h : ¬ Closed q (text.drop i)) : skipLiteral text q i = none := by
  cases hskip : skipLiteral text q i with
  | none => rfl
  | some j => exact absurd (closed_of_skipLiteral hskip) h

/-! ### `extractBraced` -/

def depthAfter (c : Char) (depth : Nat) : Nat := if c = '{' then depth + 1 else if c = '}' then depth - 1 else depth

theorem scanBraced_plain {c : Char} (hdepth : 0 < depth) (hc : isQuote c = false) (h : text.drop i = c :: t) :
    scanBraced text depth i = scanBraced text (depthAfter c depth) (i + 1) := by
  rw [scanBraced_eq, getElem?_of_drop h]
  dsimp only
  rw [if_neg hdepth.ne', if_neg (by simp [hc]), depthAfter]
  split
  · rfl
  · split
    · rfl
    · rfl

theorem scanBraced_literal (hdepth : 0 < depth) (hq : isQuote q = true) {body : Text} (hbody : Body q body)
    (h : text.drop i = q :: (body ++ q :: t)) :
    scanBraced text depth i = scanBraced text depth (i + (body.length + 2)) := by
  rw [scanBraced_eq, getElem?_of_drop h]
  dsimp only
  rw [if_neg hdepth.ne', if_pos hq, skipLiteral_of_body hq hbody (drop_succ_of_drop h), Option.bind_some]
  congr 1
  omega

theorem scanBraced_of_not_closed (hdepth : 0 < depth) (hq : isQuote q = true) (h : text.drop i = q :: t)
    (hclosed : ¬ Closed q t) : scanBraced text depth i = none := by
  rw [scanBraced_eq, getElem?_of_drop h]
  dsimp only
  rw [if_neg hdepth.ne', if_pos hq, skipLiteral_of_not_closed (by rwa [drop_succ_of_drop h])]
  rfl

theorem scanBraced_zero (i : Nat) : scanBraced text 0 i = some i := by
  rw [scanBraced_eq]
  split
  · rfl
  · rfl

/-- What is balanced leaves the depth as it is. -/
theorem scanBraced_balanced (b : Balanced) (hdepth : 0 < depth) (h : text.drop i = b.text ++ t) :
    scanBraced text depth i = scanBraced text depth (i + b.text.length) := by
  induction b generalizing depth i t with
  | nil => rfl
  | plain c hc hopening hclosing rest ih =>
    rw [Balanced.text, Balanced.segments, textOf_plain, List.cons_append] at h
    have hbraces : c ≠ '{' ∧ c ≠ '}' := by
      constructor
      · rintro rfl
        exact absurd hopening (by decide)
      · rintro rfl
        exact absurd hclosing (by decide)
    rw [scanBraced_plain hdepth hc h, depthAfter, if_neg hbraces.1, if_neg hbraces.2, ih hdepth (drop_succ_of_drop h),
      Nat.add_assoc, Nat.add_comm 1]
    rfl
  | literal q hq body hbody rest ih =>
    rw [Balanced.text, Balanced.segments, textOf_literal] at h
    rw [scanBraced_literal hdepth hq hbody h, ih hdepth (drop_behind_literal h)]
    congr 1
    simp [Balanced.text, Balanced.segments, Segment.text]
    omega
  | group k inner rest ihInner ihRest =>
    have hshape : text.drop i = k.opening :: (inner.text ++ k.closing :: (rest.text ++ t)) := by
      simpa [Balanced.text, Balanced.segments, Bracket.around, Segment.text] using h
    have hinner := drop_succ_of_drop hshape
    have hclosing := drop_add_of_drop hinner
    have hrest := drop_succ_of_drop hclosing
    have hlength : i + (Balanced.group k inner rest).text.length = i + 1 + inner.text.length + 1 + rest.text.length := by
      simp [Balanced.text, Balanced.segments, Bracket.around, Segment.text]
      omega
    rw [hlength, scanBraced_plain hdepth k.opening_facts.1 hshape]
    have hinside : 0 < depthAfter k.opening depth := by
      cases k
      · exact hdepth
      · exact depth.succ_pos
      · exact hdepth
    have hback : depthAfter k.closing (depthAfter k.opening depth) = depth := by
      cases k
      · rfl
      · exact Nat.add_sub_cancel depth 1
      · rfl
    rw [ihInner hinside hinner, scanBraced_plain hinside k.closing_facts.1 hclosing]
    rw [hback, ihRest hdepth hrest]

/-- The depth behind the segments, counted from the brace in front of them. -/
def level (depth : Nat) (segments : List Segment) : Int :=
  depth + segments.countP (Segment.Is '{') - segments.countP (Segment.Is '}')

theorem level_plain (c : Char) (hc : isQuote c = false) (hdepth : 0 < depth) (segments : List Segment) :
    level depth (.plain c hc :: segments) = level (depthAfter c depth) segments := by
  unfold level depthAfter
  rw [List.countP_cons, List.countP_cons]
  by_cases hopening : c = '{'
  · subst hopening
    simp [Segment.Is]
    omega
  · by_cases hclosing : c = '}'
    · subst hclosing
      simp [Segment.Is]
      omega
    · simp [Segment.Is, hopening, hclosing]

theorem level_literal (hq : isQuote q = true) (body : Text) (hbody : Body q body) (segments : List Segment) :
    level depth (.literal q hq body hbody :: segments) = level depth segments := by
  simp [level, Segment.Is]

/-- No partner of a brace that is open is among the segments. -/
def OpenFrom (depth : Nat) (segments : List Segment) : Prop := ∀ first, first <+: segments → 0 < level depth first

theorem openFrom_cons_iff {s : Segment} {rest : List Segment} {depth' : Nat} (hdepth : 0 < depth)
    (h : ∀ segments, level depth (s :: segments) = level depth' segments) :
    OpenFrom depth (s :: rest) ↔ OpenFrom depth' rest := by
  constructor
  · intro hopen first hfirst
    rw [← h]
    exact hopen _ (List.cons_prefix_cons.2 ⟨rfl, hfirst⟩)
  · intro hopen first hfirst
    rcases List.prefix_cons_iff.1 hfirst with rfl | ⟨first, rfl, hrest⟩
    · simpa [level] using hdepth
    · rw [h]
      exact hopen first hrest

theorem openFrom_one_iff {segments : List Segment} : OpenFrom 1 segments ↔ StaysOpen segments := by
  refine forall₂_congr fun first _ => ?_
  unfold level
  omega

/-- The loop goes through the segments, or it comes to its end among them. -/
theorem scanBraced_segments {segments : List Segment} (hdepth : 0 < depth) (h : text.drop i = textOf segments ++ t) :
    OpenFrom depth segments ∧
      (∃ depth', 0 < depth' ∧ scanBraced text depth i = scanBraced text depth' (i + (textOf segments).length)) ∨
    ¬ OpenFrom depth segments ∧ ∃ j, scanBraced text depth i = some j := by
  induction segments generalizing depth i with
  | nil =>
    refine .inl ⟨fun first hfirst => ?_, depth, hdepth, rfl⟩
    rw [List.prefix_nil.1 hfirst]
    simpa [level] using hdepth
  | cons s rest ih =>
    cases s with
    | plain c hc =>
      rw [textOf_plain, List.cons_append] at h
      rw [scanBraced_plain hdepth hc h, openFrom_cons_iff hdepth (level_plain c hc hdepth)]
      rcases Nat.eq_zero_or_pos (depthAfter c depth) with hzero | hpos
      · rw [hzero]
        exact .inr ⟨fun hopen => absurd (hopen [] List.nil_prefix) (by simp [level]), i + 1, scanBraced_zero _⟩
      · rcases ih hpos (drop_succ_of_drop h) with ⟨hopen, depth', hdepth', hscan⟩ | hends
        · refine .inl ⟨hopen, depth', hdepth', ?_⟩
          rw [hscan, textOf_plain, List.length_cons, Nat.add_assoc, Nat.add_comm 1]
        · exact .inr hends
    | literal q hq body hbody =>
      rw [textOf_literal] at h
      rw [scanBraced_literal hdepth hq hbody h, openFrom_cons_iff hdepth (level_literal hq body hbody)]
      rcases ih hdepth (drop_behind_literal h) with ⟨hopen, depth', hdepth', hscan⟩ | hends
      · refine .inl ⟨hopen, depth', hdepth', ?_⟩
        rw [hscan]
        congr 1
        simp [Segment.text]
        omega
      · exact .inr hends

/-- The loop ends if and only if the literals are closed up to the partner of the brace. -/
theorem exists_scanBraced_iff (i : Nat) : (∃ j, scanBraced text 1 i = some j) ↔ ClosedWithin (text.drop i) := by
  constructor
  · rintro ⟨j, hscan⟩ segments q tail htext hq hopen
    by_contra hclosed
    rcases scanBraced_segments Nat.one_pos htext with ⟨-, depth', hdepth', hends⟩ | ⟨hnot, -⟩
    · rw [hscan, scanBraced_of_not_closed hdepth' hq (drop_add_of_drop htext) hclosed] at hends
      cases hends
    · exact hnot (openFrom_one_iff.2 hopen)
  · intro hclosed
    obtain ⟨segments, rest, htext, hrest⟩ := exists_segments (text.drop i)
    rcases scanBraced_segments Nat.one_pos htext with ⟨hopen, depth', hdepth', hends⟩ | ⟨-, hends⟩
    · rw [hends]
      rcases hrest with rfl | ⟨q, tail, rfl, hq, hnot⟩
      · refine ⟨i + (textOf segments).length, ?_⟩
        have hend : text[i + (textOf segments).length]? = none := by
          rw [← List.head?_drop, drop_add_of_drop htext]
          rfl
        rw [scanBraced_eq, hend]
      · exact absurd (hclosed segments q tail htext hq (openFrom_one_iff.1 hopen)) hnot
    · exact hends

theorem scanBraced_partner (inner : Balanced) {behind : Text} (h : text.drop i = inner.text ++ '}' :: behind) :
    scanBraced text 1 i = some (i + inner.text.length + 1) := by
  rw [scanBraced_balanced inner Nat.one_pos h, scanBraced_plain Nat.one_pos (by decide) (drop_add_of_drop h)]
  exact scanBraced_zero _

theorem extractsBraced_iff (text : Text) (headRe : Pattern) : ExtractsBraced text headRe ↔
    ∀ index length, headRe.exec text = some (index, length) → ClosedWithin (text.drop (index + length)) := by
  unfold ExtractsBraced extractBraced
  cases hexec : headRe.exec text with
  | none => exact iff_of_true ⟨_, rfl, nofun⟩ nofun
  | some m =>
    obtain ⟨index, length⟩ := m
    dsimp only
    constructor
    · rintro ⟨result, hresult, -⟩ index' length' ⟨⟩
      refine (exists_scanBraced_iff _).1 ?_
      cases hscan : scanBraced text 1 (index + length) with
      | none =>
        rw [hscan] at hresult
        cases hresult
      | some j => exact ⟨j, rfl⟩
    · intro hclosed
      obtain ⟨j, hscan⟩ := (exists_scanBraced_iff _).2 (hclosed index length rfl)
      rw [hscan]
      refine ⟨_, rfl, fun before inner behind index' length' hm hbefore htext => ?_⟩
      cases hm
      have hdrop : text.drop (index + length) = inner.text ++ '}' :: behind := by
        rw [htext, ← hbefore, List.drop_left]
      rw [scanBraced_partner inner hdrop] at hscan
      obtain rfl := Option.some.inj hscan
      rw [slice, Nat.add_sub_cancel, ← List.take_drop, hdrop, List.take_left]

/-! ### `splitTopLevel` -/

/-- The depth, the parts and the part that is read. -/
structure SplitState where
  depth : Int
  parts : List (List Segment)
  cur : List Segment

namespace SplitState

def turn (depth : Int) : Segment → Int
  | .plain c _ => if isOpening c then depth + 1 else if isClosing c then depth - 1 else depth
  | .literal .. => depth

/-- What a segment does. -/
def step (st : SplitState) (s : Segment) : SplitState :=
  if s.Is ',' ∧ turn st.depth s = 0 then ⟨turn st.depth s, st.parts ++ [st.cur], []⟩
  else ⟨turn st.depth s, st.parts, st.cur ++ [s]⟩

def finish (st : SplitState) : List (List Segment) := st.parts ++ [st.cur]

/-- Segments that go to the part that is read. -/
def extend (st : SplitState) (segments : List Segment) : SplitState := { st with cur := st.cur ++ segments }

theorem extend_nil (st : SplitState) : st.extend [] = st := by simp [extend]

theorem extend_extend (st : SplitState) (segments segments' : List Segment) :
    (st.extend segments).extend segments' = st.extend (segments ++ segments') := by
  simp [extend]

end SplitState

def splitIn (text : Text) (st : SplitState) (i : Nat) : Option (List Text) :=
  splitFrom text st.depth (st.parts.map textOf) (textOf st.cur) i

theorem splitIn_plain (st : SplitState) {c : Char} (hc : isQuote c = false) (h : text.drop i = c :: t) :
    splitIn text st i = splitIn text (st.step (.plain c hc)) (i + 1) := by
  unfold splitIn SplitState.step
  rw [splitFrom_eq, getElem?_of_drop h]
  dsimp only
  rw [if_neg (by simp [hc])]
  simp only [Segment.Is, decide_eq_true_eq, SplitState.turn]
  by_cases hcomma : c = ',' ∧ (if isOpening c then st.depth + 1 else if isClosing c then st.depth - 1 else st.depth) = 0
  · rw [if_pos hcomma, if_pos hcomma, List.map_append]
    rfl
  · rw [if_neg hcomma, if_neg hcomma, textOf_append]
    rfl

theorem splitIn_literal (st : SplitState) (hq : isQuote q = true) {body : Text} (hbody : Body q body)
    (h : text.drop i = q :: (body ++ q :: t)) :
    splitIn text st i = splitIn text (st.step (.literal q hq body hbody)) (i + (body.length + 2)) := by
  have hslice : slice text i (i + 1 + body.length + 1) = q :: (body ++ [q]) := by
    have hlength : i + 1 + body.length + 1 = i + (q :: (body ++ [q])).length := by
      simp
      omega
    have happend : q :: (body ++ q :: t) = q :: (body ++ [q]) ++ t := by simp
    rw [slice, hlength, ← List.take_drop, h, happend, List.take_left]
  unfold splitIn SplitState.step
  rw [splitFrom_eq, getElem?_of_drop h]
  dsimp only
  rw [if_pos hq, skipLiteral_of_body hq hbody (drop_succ_of_drop h), Option.bind_some, hslice]
  have hstop : i + 1 + body.length + 1 = i + (body.length + 2) := by omega
  rw [hstop]
  simp [Segment.Is, SplitState.turn, Segment.text]

theorem splitIn_of_not_closed (st : SplitState) (hq : isQuote q = true) (h : text.drop i = q :: t)
    (hclosed : ¬ Closed q t) : splitIn text st i = none := by
  rw [splitIn, splitFrom_eq, getElem?_of_drop h]
  dsimp only
  rw [if_pos hq, skipLiteral_of_not_closed (by rwa [drop_succ_of_drop h])]
  rfl

theorem splitIn_segments (st : SplitState) {segments : List Segment} (h : text.drop i = textOf segments ++ t) :
    splitIn text st i = splitIn text (segments.foldl SplitState.step st) (i + (textOf segments).length) := by
  induction segments generalizing st i with
  | nil => rfl
  | cons s rest ih =>
    rw [List.foldl_cons]
    cases s with
    | plain c hc =>
      rw [textOf_plain, List.cons_append] at h
      rw [splitIn_plain st hc h, ih _ (drop_succ_of_drop h), textOf_plain, List.length_cons, Nat.add_assoc,
        Nat.add_comm 1]
    | literal q hq body hbody =>
      rw [textOf_literal] at h
      rw [splitIn_literal st hq hbody h, ih _ (drop_behind_literal h)]
      congr 1
      simp [Segment.text]
      omega

/-- The loop over a text whose literals are closed. -/
theorem splitFrom_segments (segments : List Segment) : splitFrom (textOf segments) 0 [] [] 0 =
    some ((segments.foldl SplitState.step ⟨0, [], []⟩).finish.map textOf) := by
  have hstart : splitFrom (textOf segments) 0 [] [] 0 = splitIn (textOf segments) ⟨0, [], []⟩ 0 := rfl
  have hend : (textOf segments)[0 + (textOf segments).length]? = none := List.getElem?_eq_none (by omega)
  have htext : (textOf segments).drop 0 = textOf segments ++ [] := (List.append_nil _).symm
  rw [hstart, splitIn_segments _ htext, splitIn, splitFrom_eq, hend]
  simp [SplitState.finish]

theorem splitFrom_of_not_closed (segments : List Segment) (hq : isQuote q = true) (hclosed : ¬ Closed q t) :
    splitFrom (textOf segments ++ q :: t) 0 [] [] 0 = none := by
  have hstart : splitFrom (textOf segments ++ q :: t) 0 [] [] 0 = splitIn (textOf segments ++ q :: t) ⟨0, [], []⟩ 0 := rfl
  rw [hstart, splitIn_segments (i := 0) (t := q :: t) _ rfl]
  exact splitIn_of_not_closed _ hq (drop_add_of_drop (i := 0) rfl) hclosed

theorem step_literal (st : SplitState) (hq : isQuote q = true) {body : Text} (hbody : Body q body) :
    st.step (.literal q hq body hbody) = st.extend [.literal q hq body hbody] := by
  simp [SplitState.step, SplitState.turn, Segment.Is, SplitState.extend]

theorem step_bracketed (st : SplitState) (k : Bracket) {inner : List Segment}
    (h : ∀ st : SplitState, 0 < st.depth → inner.foldl SplitState.step st = st.extend inner) (hdepth : 0 ≤ st.depth) :
    (k.around inner).foldl SplitState.step st = st.extend (k.around inner) := by
  obtain ⟨hquote, hopening⟩ := k.opening_facts
  obtain ⟨hquote', hopening', hclosing'⟩ := k.closing_facts
  have hcomma : k.opening ≠ ',' ∧ k.closing ≠ ',' := by cases k <;> decide
  have hopens : st.step (.plain k.opening hquote) =
      ⟨st.depth + 1, st.parts, st.cur ++ [.plain k.opening hquote]⟩ := by
    simp [SplitState.step, SplitState.turn, Segment.Is, hcomma.1, hopening]
  rw [Bracket.around, List.cons_append, List.foldl_cons, List.foldl_append, hopens, h _ (by dsimp only; omega),
    List.foldl_cons]
  simp [SplitState.step, SplitState.turn, Segment.Is, hcomma.2, hopening', hclosing', SplitState.extend]

/-- Within a bracket the segments go to the part that is read. -/
theorem foldl_inside (b : Balanced) (st : SplitState) (hdepth : 0 < st.depth) :
    b.segments.foldl SplitState.step st = st.extend b.segments := by
  induction b generalizing st with
  | nil => exact st.extend_nil.symm
  | plain c hc hopening hclosing rest ih =>
    have hstep : st.step (.plain c hc) = st.extend [.plain c hc] := by
      have hne : st.depth ≠ 0 := by omega
      simp [SplitState.step, SplitState.turn, hopening, hclosing, hne, SplitState.extend]
    rw [Balanced.segments, List.foldl_cons, hstep, ih (st.extend _) hdepth, SplitState.extend_extend]
    rfl
  | literal q hq body hbody rest ih =>
    rw [Balanced.segments, List.foldl_cons, step_literal, ih (st.extend _) hdepth, SplitState.extend_extend]
    rfl
  | group k inner rest ihInner ihRest =>
    rw [Balanced.segments, List.foldl_append, step_bracketed st k ihInner (by omega),
      ihRest (st.extend _) hdepth, SplitState.extend_extend]

theorem extendFirst_extendFirst (segments segments' : List Segment) (ps : List (List Segment)) :
    extendFirst segments (extendFirst segments' ps) = extendFirst (segments ++ segments') ps := by
  cases ps with
  | nil => rfl
  | cons p ps => simp [extendFirst]

theorem extendFirst_ne_nil (segments : List Segment) (ps : List (List Segment)) : extendFirst segments ps ≠ [] := by
  cases ps with
  | nil => exact List.cons_ne_nil _ _
  | cons p ps => exact List.cons_ne_nil _ _

theorem parts_ne_nil (b : Balanced) : b.parts ≠ [] := by
  cases b with
  | nil => exact List.cons_ne_nil _ _
  | plain c hc hopening hclosing rest =>
    rw [Balanced.parts]
    split
    · exact List.cons_ne_nil _ _
    · exact extendFirst_ne_nil _ _
  | literal q hq body hbody rest => exact extendFirst_ne_nil _ _
  | group k inner rest => exact extendFirst_ne_nil _ _

theorem extendFirst_nil {ps : List (List Segment)} (h : ps ≠ []) : extendFirst [] ps = ps := by
  cases ps with
  | nil => exact absurd rfl h
  | cons p ps => rfl

/-- The loop splits a balanced text into its parts. -/
theorem finish_foldl (b : Balanced) (st : SplitState) (hdepth : st.depth = 0) :
    (b.segments.foldl SplitState.step st).finish = st.parts ++ extendFirst st.cur b.parts := by
  induction b generalizing st with
  | nil => simp [Balanced.segments, Balanced.parts, SplitState.finish, extendFirst]
  | plain c hc hopening hclosing rest ih =>
    rw [Balanced.segments, List.foldl_cons, Balanced.parts]
    split
    · rename_i hcomma
      have hturn : SplitState.turn st.depth (.plain c hc) = 0 := by
        simp [SplitState.turn, hopening, hclosing, hdepth]
      have hstep : st.step (.plain c hc) = ⟨0, st.parts ++ [st.cur], []⟩ := by
        rw [SplitState.step, hturn, if_pos ⟨decide_eq_true hcomma, rfl⟩]
      rw [hstep, ih _ rfl, extendFirst_nil (parts_ne_nil rest)]
      simp [extendFirst]
    · rename_i hcomma
      have hstep : st.step (.plain c hc) = st.extend [.plain c hc] := by
        simp [SplitState.step, SplitState.turn, Segment.Is, hopening, hclosing, hcomma, SplitState.extend]
      rw [hstep, ih (st.extend _) hdepth, extendFirst_extendFirst]
      rfl
  | literal q hq body hbody rest ih =>
    rw [Balanced.segments, List.foldl_cons, step_literal, ih (st.extend _) hdepth, Balanced.parts,
      extendFirst_extendFirst]
    rfl
  | group k inner rest _ ih =>
    rw [Balanced.segments, List.foldl_append, step_bracketed st k (foldl_inside inner) (by omega),
      ih (st.extend _) hdepth, Balanced.parts, extendFirst_extendFirst]
    rfl

theorem splitFrom_balanced (b : Balanced) : splitFrom b.text 0 [] [] 0 = some (b.parts.map textOf) := by
  rw [Balanced.text, splitFrom_segments, finish_foldl b _ rfl, List.nil_append, extendFirst_nil (parts_ne_nil b)]

/-! ### `normalizeWs` -/

theorem collapseFrom_cons (inRun : Bool) (c : Char) (t : Text) : collapseFrom inRun (c :: t) =
    if Text.isSpace c then if inRun then collapseFrom true t else ' ' :: collapseFrom true t
    else c :: collapseFrom false t := rfl

theorem length_collapseFrom_le (inRun : Bool) (t : Text) : (collapseFrom inRun t).length ≤ t.length := by
  induction t generalizing inRun with
  | nil => rfl
  | cons c t ih =>
    have hlength := ih true
    have hlength' := ih false
    rw [collapseFrom_cons]
    split
    · split
      · exact hlength.trans (Nat.le_succ _)
      · exact Nat.succ_le_succ hlength
    · exact Nat.succ_le_succ hlength'

theorem singleSpaced_cons_of_not_space {c : Char} (hc : Text.isSpace c = false) :
    SingleSpaced (c :: t) ↔ SingleSpaced t := by
  have hne : c ≠ ' ' := by
    rintro rfl
    exact absurd hc (by decide)
  unfold SingleSpaced
  rw [List.infix_cons_iff, List.cons_prefix_cons, List.forall_mem_cons]
  simp [hc, hne.symm]

theorem singleSpaced_cons_of_space {c : Char} (hc : Text.isSpace c = true) :
    SingleSpaced (c :: t) ↔ c = ' ' ∧ SingleSpaced t ∧ ∀ x ∈ t.head?, Text.isSpace x = false := by
  unfold SingleSpaced
  rw [List.infix_cons_iff, List.cons_prefix_cons, List.forall_mem_cons, not_or]
  constructor
  · rintro ⟨⟨hblank, hspaces⟩, hpair, hrest⟩
    refine ⟨hblank hc, ⟨hspaces, hrest⟩, fun x hx => Bool.eq_false_iff.2 fun hspace => hpair ⟨(hblank hc).symm, ?_⟩⟩
    obtain ⟨t', rfl⟩ := List.head?_eq_some_iff.1 hx
    rw [hspaces x List.mem_cons_self hspace]
    exact ⟨t', rfl⟩
  · rintro ⟨rfl, ⟨hspaces, hrest⟩, hhead⟩
    refine ⟨⟨fun _ => rfl, hspaces⟩, ?_, hrest⟩
    rintro ⟨-, t', rfl⟩
    exact absurd (hhead ' ' rfl) (by decide)

theorem collapseFrom_eq_self_iff (inRun : Bool) (t : Text) : collapseFrom inRun t = t ↔
    SingleSpaced t ∧ (inRun = true → ∀ c ∈ t.head?, Text.isSpace c = false) := by
  induction t generalizing inRun with
  | nil => exact iff_of_true rfl ⟨by simp [SingleSpaced], nofun⟩
  | cons c t ih =>
    rw [collapseFrom_cons]
    cases hc : Text.isSpace c with
    | false => simp [ih, singleSpaced_cons_of_not_space hc, hc]
    | true =>
      rw [if_pos rfl, singleSpaced_cons_of_space hc]
      cases inRun with
      | true =>
        rw [if_pos rfl]
        refine iff_of_false (fun heq => ?_) fun h => ?_
        · have hlength := length_collapseFrom_le true t
          rw [heq, List.length_cons] at hlength
          omega
        · rw [h.2 rfl c rfl] at hc
          cases hc
      | false =>
        rw [if_neg nofun, List.cons_eq_cons, ih, eq_comm (a := c)]
        simp

/-- The text of a segment, and white space collapsed within it too. -/
def collapsed : Segment → Text
  | .plain c _ => [c]
  | .literal q _ body _ => q :: collapseFrom false body ++ [q]

theorem collapseFrom_mark (hq : isQuote q = true) (inRun : Bool) (t : Text) :
    collapseFrom inRun (q :: t) = q :: collapseFrom false t := by
  rw [collapseFrom_cons, isSpace_of_isQuote hq, if_neg nofun]

theorem collapseFrom_append_mark (hq : isQuote q = true) (inRun : Bool) (u : Text) :
    collapseFrom inRun (u ++ q :: t) = collapseFrom inRun u ++ q :: collapseFrom false t := by
  induction u generalizing inRun with
  | nil => exact collapseFrom_mark hq inRun t
  | cons c u ih =>
    rw [List.cons_append, collapseFrom_cons, collapseFrom_cons, ih, ih]
    split
    · split
      · rfl
      · rfl
    · rfl

theorem collapseFrom_textOf (inRun : Bool) (segments : List Segment) :
    collapseFrom inRun (textOf segments) = (squeeze inRun segments).flatMap collapsed := by
  induction segments generalizing inRun with
  | nil => rfl
  | cons s rest ih =>
    cases s with
    | plain c hc =>
      rw [textOf_plain, collapseFrom_cons, squeeze, ih, ih]
      unfold Segment.isSpace
      dsimp only
      split
      · split
        · rfl
        · rfl
      · rfl
    | literal q hq body hbody =>
      have hshape : textOf (.literal q hq body hbody :: rest) = q :: (body ++ q :: textOf rest) := by simp [Segment.text]
      rw [hshape, collapseFrom_mark hq, collapseFrom_append_mark hq, ih, squeeze]
      unfold Segment.isSpace
      simp [collapsed]

theorem collapsed_ne_nil (s : Segment) : collapsed s ≠ [] := by
  cases s <;> exact List.cons_ne_nil _ _

theorem head_collapsed {s : Segment} (hs : s.isSpace = false) : ∀ c ∈ (collapsed s).head?, Text.isSpace c = false := by
  cases s with
  | plain c hc => rintro _ ⟨⟩; exact hs
  | literal q hq body hbody => rintro _ ⟨⟩; exact isSpace_of_isQuote hq

theorem last_collapsed {s : Segment} (hs : s.isSpace = false) : ∀ c ∈ (collapsed s).getLast?, Text.isSpace c = false := by
  cases s with
  | plain c hc => rintro _ ⟨⟩; exact hs
  | literal q hq body hbody =>
    rw [collapsed, List.getLast?_concat]
    rintro _ ⟨⟩
    exact isSpace_of_isQuote hq

theorem bare_collapsed {segments : List Segment} (h : Trim.Bare Segment.isSpace segments) :
    Trim.Bare Text.isSpace (segments.flatMap collapsed) := by
  constructor
  · cases segments with
    | nil => nofun
    | cons s rest =>
      rw [List.flatMap_cons, List.head?_append_of_ne_nil _ (collapsed_ne_nil s)]
      exact head_collapsed (h.1 s rfl)
  · rcases List.eq_nil_or_concat segments with rfl | ⟨rest, s, rfl⟩
    · nofun
    · rw [List.concat_eq_append, List.flatMap_append, List.flatMap_singleton,
        List.getLast?_append_of_ne_nil _ (collapsed_ne_nil s)]
      exact last_collapsed (h.2 s (by simp))

theorem all_collapsed {segments : List Segment} (h : Trim.All Segment.isSpace segments) :
    Trim.All Text.isSpace (segments.flatMap collapsed) := by
  intro c hc
  obtain ⟨s, hs, hmem⟩ := List.mem_flatMap.1 hc
  have hspace := h s hs
  cases s with
  | plain c' hc' =>
    rw [List.mem_singleton.1 hmem]
    exact hspace
  | literal q hq body hbody => cases hspace

theorem normalizeWs_textOf (segments : List Segment) :
    normalizeWs (textOf segments) = (tidy segments).flatMap collapsed := by
  obtain ⟨w, w', hw, hw', hparts⟩ := Trim.exists_trim_parts Segment.isSpace (squeeze false segments)
  have htrim : normalizeWs (textOf segments) = Trim.trim Text.isSpace ((squeeze false segments).flatMap collapsed) := by
    rw [← collapseFrom_textOf]
    rfl
  rw [htrim, hparts, List.flatMap_append, List.flatMap_append,
    Trim.trim_parts (all_collapsed hw) (bare_collapsed (Trim.bare_trim _ _)) (all_collapsed hw')]
  rfl

theorem collapsed_eq_text_iff {s : Segment} : collapsed s = s.text ↔ LiteralsSpaced [s] := by
  cases s with
  | plain c hc => exact iff_of_true rfl fun q hq body hbody h => by simp at h
  | literal q hq body hbody =>
    have hbodies : collapsed (.literal q hq body hbody) = Segment.text (.literal q hq body hbody) ↔
        collapseFrom false body = body := by
      simp [collapsed, Segment.text]
    rw [hbodies, collapseFrom_eq_self_iff]
    constructor
    · rintro ⟨hspaced, -⟩ q' hq' body' hbody' h
      cases List.mem_singleton.1 h
      exact hspaced
    · intro h
      exact ⟨h q hq body hbody List.mem_cons_self, by simp⟩

theorem length_collapsed_le (s : Segment) : (collapsed s).length ≤ s.text.length := by
  cases s with
  | plain c hc => rfl
  | literal q hq body hbody =>
    have hlength := length_collapseFrom_le false body
    simpa [collapsed, Segment.text] using hlength

theorem flatMap_collapsed_eq_iff (segments : List Segment) :
    segments.flatMap collapsed = textOf segments ↔ LiteralsSpaced segments := by
  induction segments with
  | nil => exact iff_of_true rfl fun q hq body hbody h => absurd h List.not_mem_nil
  | cons s rest ih =>
    have hrest : ∀ rest : List Segment, (rest.flatMap collapsed).length ≤ (textOf rest).length := by
      intro rest
      induction rest with
      | nil => rfl
      | cons s rest ih =>
        rw [List.flatMap_cons, textOf_cons, List.length_append, List.length_append]
        exact Nat.add_le_add (length_collapsed_le s) ih
    have hcons : LiteralsSpaced (s :: rest) ↔ LiteralsSpaced [s] ∧ LiteralsSpaced rest := by
      unfold LiteralsSpaced
      simp only [List.mem_cons, List.not_mem_nil, or_false]
      grind
    rw [hcons, ← ih, ← collapsed_eq_text_iff, List.flatMap_cons, textOf_cons]
    constructor
    · intro heq
      have hlength := congrArg List.length heq
      rw [List.length_append, List.length_append] at hlength
      have hs := length_collapsed_le s
      have hrest := hrest rest
      exact List.append_inj heq (by omega)
    · rintro ⟨hs, hrest⟩
      rw [hs, hrest]

theorem literalsSpaced_tidy_iff (segments : List Segment) : LiteralsSpaced (tidy segments) ↔ LiteralsSpaced segments :=
  forall₄_congr fun _ _ _ _ => imp_congr_left (mem_tidy rfl)

theorem normalizeWs_eq_tidy_iff (segments : List Segment) :
    normalizeWs (textOf segments) = textOf (tidy segments) ↔ LiteralsSpaced segments := by
  rw [normalizeWs_textOf, flatMap_collapsed_eq_iff, literalsSpaced_tidy_iff]

theorem flatMap_eq_nil_iff_of_ne_nil {f : Segment → Text} (hf : ∀ s, f s ≠ []) (segments : List Segment) :
    segments.flatMap f = [] ↔ segments = [] := by
  rw [List.flatMap_eq_nil_iff]
  refine ⟨fun h => ?_, ?_⟩
  · cases segments with
    | nil => rfl
    | cons s rest => exact absurd (h s List.mem_cons_self) (hf s)
  · rintro rfl
    nofun

theorem normalizeWs_eq_nil_iff (segments : List Segment) :
    normalizeWs (textOf segments) = [] ↔ textOf (tidy segments) = [] := by
  have htext : ∀ s : Segment, s.text ≠ [] := fun s => by cases s <;> exact List.cons_ne_nil _ _
  rw [normalizeWs_textOf, flatMap_eq_nil_iff_of_ne_nil collapsed_ne_nil, textOf, flatMap_eq_nil_iff_of_ne_nil htext]

/-- Two lists of parts are the same without the empty parts if they are empty at the same places. -/
theorem filter_map_eq_iff {α : Type} {f g : α → Text} (h : ∀ p, f p = [] ↔ g p = []) (ps : List α) :
    (ps.map f).filter (· ≠ []) = (ps.map g).filter (· ≠ []) ↔ ∀ p ∈ ps, f p = g p := by
  induction ps with
  | nil => simp
  | cons p ps ih =>
    rw [List.map_cons, List.map_cons, List.forall_mem_cons]
    by_cases hp : g p = []
    · have hfp := (h p).2 hp
      rw [List.filter_cons_of_neg (by simp [hfp]), List.filter_cons_of_neg (by simp [hp]), ih, hfp, hp]
      simp
    · have hfp : f p ≠ [] := fun hnil => hp ((h p).1 hnil)
      rw [List.filter_cons_of_pos (by simp [hfp]), List.filter_cons_of_pos (by simp [hp]), List.cons_eq_cons, ih]

theorem mem_extendFirst {s : Segment} {segments : List Segment} {ps : List (List Segment)} :
    (∃ p ∈ extendFirst segments ps, s ∈ p) ↔ s ∈ segments ∨ ∃ p ∈ ps, s ∈ p := by
  cases ps with
  | nil => simp [extendFirst]
  | cons p ps => simp [extendFirst, or_assoc]

theorem literal_mem_parts (hq : isQuote q = true) {body : Text} (hbody : Body q body) (b : Balanced) :
    (∃ p ∈ b.parts, .literal q hq body hbody ∈ p) ↔ .literal q hq body hbody ∈ b.segments := by
  induction b with
  | nil => simp [Balanced.parts, Balanced.segments]
  | plain c hc hopening hclosing rest ih =>
    rw [Balanced.parts, Balanced.segments, List.mem_cons, ← ih]
    split
    · simp
    · rw [mem_extendFirst]
      simp
  | literal q' hq' body' hbody' rest ih =>
    rw [Balanced.parts, Balanced.segments, List.mem_cons, ← ih, mem_extendFirst, List.mem_singleton]
  | group k inner rest _ ih => rw [Balanced.parts, Balanced.segments, List.mem_append, ← ih, mem_extendFirst]

theorem literalsSpaced_parts_iff (b : Balanced) :
    (∀ p ∈ b.parts, LiteralsSpaced p) ↔ LiteralsSpaced b.segments := by
  constructor
  · intro h q hq body hbody hmem
    obtain ⟨p, hp, hmem⟩ := (literal_mem_parts hq hbody b).2 hmem
    exact h p hp q hq body hbody hmem
  · intro h p hp q hq body hbody hmem
    exact h q hq body hbody ((literal_mem_parts hq hbody b).1 ⟨p, hp, hmem⟩)

theorem splitTopLevel_balanced_iff (b : Balanced) :
    splitTopLevel b.text = some ((b.parts.map fun part => textOf (tidy part)).filter (· ≠ [])) ↔
      LiteralsSpaced b.segments := by
  rw [splitTopLevel, splitFrom_balanced, Option.bind_eq_bind, Option.bind_some, Option.some.injEq, List.map_map,
    ← literalsSpaced_parts_iff]
  refine (filter_map_eq_iff normalizeWs_eq_nil_iff b.parts).trans ?_
  exact forall₂_congr fun p _ => normalizeWs_eq_tidy_iff p

theorem splitsTopLevel_iff (text : Text) : SplitsTopLevel text ↔
    (∃ segments, text = textOf segments) ∧ ∀ b : Balanced, text = b.text → LiteralsSpaced b.segments := by
  constructor
  · rintro ⟨result, hresult, hbalanced⟩
    refine ⟨?_, fun b htext => ?_⟩
    · obtain ⟨segments, rest, htext, hrest⟩ := exists_segments text
      rcases hrest with rfl | ⟨q, tail, rfl, hq, hnot⟩
      · exact ⟨segments, by rw [htext, List.append_nil]⟩
      · rw [htext, splitTopLevel, splitFrom_of_not_closed segments hq hnot] at hresult
        cases hresult
    · rw [← splitTopLevel_balanced_iff, ← hbalanced b htext, ← htext]
      exact hresult
  · rintro ⟨⟨segments, htext⟩, hspaced⟩
    have hends : ∃ result, splitTopLevel text = some result := by
      rw [htext, splitTopLevel, splitFrom_segments]
      exact ⟨_, rfl⟩
    obtain ⟨result, hresult⟩ := hends
    refine ⟨result, hresult, fun b hb => ?_⟩
    have hsplit := (splitTopLevel_balanced_iff b).2 (hspaced b hb)
    rw [← hb, hresult] at hsplit
    exact Option.some.inj hsplit

/-- `extractBraced` does what it is for if and only if the literals are closed up to the end of the initializer, and
`splitTopLevel` if and only if all literals of the text are closed and, where its brackets are balanced, the white space
within them is single spaces. -/
theorem initializers_kept_iff (text : Text) (headRe : Pattern) :
    (ExtractsBraced text headRe ↔
      ∀ index length, headRe.exec text = some (index, length) → ClosedWithin (text.drop (index + length))) ∧
    (SplitsTopLevel text ↔
      (∃ segments, text = textOf segments) ∧ ∀ b : Balanced, text = b.text → LiteralsSpaced b.segments) :=
  ⟨extractsBraced_iff text headRe, splitsTopLevel_iff text⟩

/-- A literal with two spaces loses one, and one that is not closed keeps the loop going. -/
theorem initializers_kept_fails :
    ¬ SplitsTopLevel "\x22a  b\x22".toList ∧ splitTopLevel "\x22a".toList = none := by
  have hbody : Body '\x22' "a  b".toList := by
    repeat' first | exact .nil | refine .plain (by decide) (by decide) ?_
  have hmark : isQuote '\x22' = true := by decide
  constructor
  · rintro ⟨result, hresult, hbalanced⟩
    have hsplit := (hbalanced (.literal '\x22' hmark "a  b".toList hbody .nil) rfl).symm ▸ hresult
    have hspaced := (splitTopLevel_balanced_iff (.literal '\x22' hmark "a  b".toList hbody .nil)).1 hsplit
    exact (hspaced _ hmark _ hbody List.mem_cons_self).2 ⟨['a'], ['b'], rfl⟩
  · have hnot : ¬ Closed '\x22' ['a'] := by
      rintro ⟨body, rest, -, heq⟩
      have hmem : '\x22' ∈ ['a'] := heq ▸ List.mem_append_right body List.mem_cons_self
      exact absurd hmem (by decide)
    have hnone := splitFrom_of_not_closed [] hmark hnot
    exact congrArg (Option.bind · _) hnone

end CubridWebManager.ParamCatalog
