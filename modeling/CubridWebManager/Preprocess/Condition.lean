import CubridWebManager.ParamCatalog.ConstTokens

/-!
# The conditions of the preprocessor

`evalPpCondition` of `scripts/generate-param-catalog.mjs` decides the condition of an `#if`: `defined` of symbols that are
known to be defined or not, numbers, `!`, `&&`, `||` and parentheses.  It looks at both sides of an operator, so that a
symbol it does not know is always refused.

`Disjunction` is the grammar of the conditions.  What is spelled by it gets its value, and nothing else gets one
(`evalPpCondition_eq_ok_iff`).
-/

namespace CubridWebManager.Preprocess

open CConstant

/-! ### The code -/

def DEFINED : List Text := ["NDEBUG".toList, "SERVER_MODE".toList, "LINUX".toList, "__cplusplus".toList]

def UNDEFINED : List Text :=
  ["CS_MODE".toList, "SA_MODE".toList, "WINDOWS".toList, "ENABLE_UNUSED_FUNCTION".toList, "UNUSED_FUNCTIONS".toList,
    "SUPPRESS_STRLEN_WARNING".toList, "_ENABLE_SYSTEM_PARAMS_CHECK_".toList, "_SYSTEM_PARAMETER_H_".toList]

/-- A match of the expression for tokens: `defined` with its symbol, an operator, a parenthesis or a word. -/
inductive PpToken
  | isDefined (symbol : Text)
  | andAnd
  | orOr
  | not
  | lparen
  | rparen
  | word (w : Text)
  deriving DecidableEq

/-- What follows `defined`: a symbol in parentheses, or one behind white space. -/
def definedSymbol? (t : Text) : Option (Text × Text) :=
  let behind := t.dropWhile Text.isSpace
  if behind.head? = some '(' then
    let inside := behind.tail.dropWhile Text.isSpace
    let rest := (inside.dropWhile isWordChar).dropWhile Text.isSpace
    if inside.takeWhile isWordChar ≠ [] ∧ rest.head? = some ')' then some (inside.takeWhile isWordChar, rest.tail)
    else none
  else if behind ≠ t ∧ behind.takeWhile isWordChar ≠ [] then
    some (behind.takeWhile isWordChar, behind.dropWhile isWordChar)
  else none

def definedToken? (t : Text) : Option (PpToken × Text) :=
  if "defined".toList <+: t then (definedSymbol? (t.drop 7)).map fun r => (.isDefined r.1, r.2) else none

def operator? : Text → Option (PpToken × Text)
  | '&' :: '&' :: rest => some (.andAnd, rest)
  | '|' :: '|' :: rest => some (.orOr, rest)
  | '!' :: rest => some (.not, rest)
  | '(' :: rest => some (.lparen, rest)
  | ')' :: rest => some (.rparen, rest)
  | _ => none

def word? (t : Text) : Option (PpToken × Text) :=
  if t.takeWhile isWordChar = [] then none else some (.word (t.takeWhile isWordChar), t.dropWhile isWordChar)

/-- `/defined\s*\(\s*\w+\s*\)|defined\s+\w+|&&|\|\||!|\(|\)|\w+/` at the beginning of the text. -/
def ppToken? (t : Text) : Option (PpToken × Text) := (definedToken? t).or ((operator? t).or (word? t))

theorem length_definedSymbol {t symbol rest : Text} (h : definedSymbol? t = some (symbol, rest)) :
    rest.length < t.length := by
  have hbehind := (t.dropWhile_suffix Text.isSpace).length_le
  unfold definedSymbol? at h
  dsimp only at h
  split at h
  · split at h
    · rename_i hparen hsymbol
      cases h
      obtain ⟨inside, hinside⟩ := List.head?_eq_some_iff.1 hparen
      obtain ⟨rest, hrest⟩ := List.head?_eq_some_iff.1 hsymbol.2
      have hspace := (inside.dropWhile_suffix Text.isSpace).length_le
      have hword := ((inside.dropWhile Text.isSpace).dropWhile_suffix isWordChar).length_le
      have hend := (((inside.dropWhile Text.isSpace).dropWhile isWordChar).dropWhile_suffix Text.isSpace).length_le
      rw [hinside] at hrest hbehind ⊢
      rw [List.tail_cons] at hrest ⊢
      rw [hrest] at hend ⊢
      simp only [List.length_cons, List.tail_cons] at hbehind hend ⊢
      omega
    · cases h
  · split at h
    · rename_i hsymbol
      cases h
      have hword := List.takeWhile_append_dropWhile (p := isWordChar) (l := t.dropWhile Text.isSpace)
      have hlength := congrArg List.length hword
      have hpos := List.length_pos_iff.2 hsymbol.2
      rw [List.length_append] at hlength
      omega
    · cases h

theorem length_operator {t rest : Text} {token : PpToken} (h : operator? t = some (token, rest)) :
    rest.length < t.length := by
  unfold operator? at h
  split at h
  · cases h
    simp only [List.length_cons]
    omega
  · cases h
    simp only [List.length_cons]
    omega
  · cases h
    simp
  · cases h
    simp
  · cases h
    simp
  · cases h

theorem length_ppToken {t rest : Text} {token : PpToken} (h : ppToken? t = some (token, rest)) :
    rest.length < t.length := by
  rcases Option.or_eq_some_iff.1 h with hdefined | ⟨-, h⟩
  · unfold definedToken? at hdefined
    split at hdefined
    · obtain ⟨r, hr, hparts⟩ := Option.map_eq_some_iff.1 hdefined
      cases hparts
      have hdrop := length_definedSymbol hr
      rw [List.length_drop] at hdrop
      omega
    · cases hdefined
  rcases Option.or_eq_some_iff.1 h with hoperator | ⟨-, hword⟩
  · exact length_operator hoperator
  · unfold word? at hword
    split at hword
    · cases hword
    · rename_i hne
      cases hword
      have hparts := List.takeWhile_append_dropWhile (p := isWordChar) (l := t)
      have hlength := congrArg List.length hparts
      have hpos := List.length_pos_iff.2 hne
      rw [List.length_append] at hlength
      omega

/-- `expr.match(…/g) || []`: what is no token is passed over. -/
def ppTokens (t : Text) : List PpToken :=
  match _htoken : ppToken? t with
  | some (token, rest) => token :: ppTokens rest
  | none =>
    match t with
    | [] => []
    | _ :: t => ppTokens t
termination_by t.length
decreasing_by
  · exact length_ppToken _htoken
  · simp

/-- The symbol that a token asks for: a word that goes on behind `defined` asks for what it goes on with. -/
def PpToken.symbol? : PpToken → Option Text
  | .isDefined symbol => some symbol
  | .word w => if "defined".toList <+: w ∧ w ≠ "defined".toList then some (w.drop 7) else none
  | _ => none

def symbolDefined (symbol : Text) : Except Text Bool :=
  if symbol ∈ DEFINED then .ok true
  else if symbol ∈ UNDEFINED then .ok false
  else .error ("Unknown preprocessor symbol in #if: ".toList ++ symbol ++ " (add it to DEFINED/UNDEFINED)".toList)

/-- The value of a token that stands for one. -/
def PpToken.value? (t : PpToken) : Option (Except Text Bool) :=
  match t.symbol?, t with
  | some symbol, _ => some (symbolDefined symbol)
  | none, .word w => if w.all Char.isDigit then some (.ok (w.any fun c => c ≠ '0')) else none
  | none, _ => none

def badExpression (expr : Text) : Text := "Bad #if expression: ".toList ++ expr

def unsupportedExpression (expr : Text) : Text := "Unsupported #if expression: ".toList ++ expr

mutual

def primary (expr : Text) (ts : List PpToken) :
    Except Text (Bool × { rest : List PpToken // rest.length < ts.length }) :=
  match ts with
  | [] => .error (badExpression expr)
  | .not :: ts => do
    let r ← primary expr ts
    .ok (!r.1, ⟨r.2.1, Nat.lt_succ_of_lt r.2.2⟩)
  | .lparen :: ts => do
    let r ← orExpr expr ts
    match r.2 with
    | ⟨.rparen :: rest, h⟩ => .ok (r.1, ⟨rest, (Nat.lt_of_succ_lt h).trans (Nat.lt_succ_self _)⟩)
    | _ => .error (badExpression expr)
  | t :: ts =>
    match t.value? with
    | some v => (fun v => (v, ⟨ts, Nat.lt_succ_self _⟩)) <$> v
    | none => .error (unsupportedExpression expr)
termination_by (ts.length, 0)

def andExpr (expr : Text) (ts : List PpToken) :
    Except Text (Bool × { rest : List PpToken // rest.length < ts.length }) := do
  let r ← primary expr ts
  let r' ← andLoop expr r.1 r.2.1
  .ok (r'.1, ⟨r'.2.1, r'.2.2.trans_lt r.2.2⟩)
termination_by (ts.length, 1)
decreasing_by
  · exact Prod.Lex.right _ Nat.zero_lt_one
  · exact Prod.Lex.left _ _ r.2.2

/-- `while (peek() === '&&')` -/
def andLoop (expr : Text) (v : Bool) (ts : List PpToken) :
    Except Text (Bool × { rest : List PpToken // rest.length ≤ ts.length }) :=
  match ts with
  | .andAnd :: ts => do
    let r ← primary expr ts
    let r' ← andLoop expr (v && r.1) r.2.1
    .ok (r'.1, ⟨r'.2.1, r'.2.2.trans (Nat.le_succ_of_le r.2.2.le)⟩)
  | ts => .ok (v, ⟨ts, le_rfl⟩)
termination_by (ts.length, 0)
decreasing_by
  · exact Prod.Lex.left _ _ (Nat.lt_succ_self _)
  · exact Prod.Lex.left _ _ (Nat.lt_succ_of_lt r.2.2)

def orExpr (expr : Text) (ts : List PpToken) :
    Except Text (Bool × { rest : List PpToken // rest.length < ts.length }) := do
  let r ← andExpr expr ts
  let r' ← orLoop expr r.1 r.2.1
  .ok (r'.1, ⟨r'.2.1, r'.2.2.trans_lt r.2.2⟩)
termination_by (ts.length, 2)
decreasing_by
  · exact Prod.Lex.right _ Nat.one_lt_two
  · exact Prod.Lex.left _ _ r.2.2

/-- `while (peek() === '||')` -/
def orLoop (expr : Text) (v : Bool) (ts : List PpToken) :
    Except Text (Bool × { rest : List PpToken // rest.length ≤ ts.length }) :=
  match ts with
  | .orOr :: ts => do
    let r ← andExpr expr ts
    let r' ← orLoop expr (v || r.1) r.2.1
    .ok (r'.1, ⟨r'.2.1, r'.2.2.trans (Nat.le_succ_of_le r.2.2.le)⟩)
  | ts => .ok (v, ⟨ts, le_rfl⟩)
termination_by (ts.length, 0)
decreasing_by
  · exact Prod.Lex.left _ _ (Nat.lt_succ_self _)
  · exact Prod.Lex.left _ _ (Nat.lt_succ_of_lt r.2.2)

end

def evalPpCondition (expr : Text) : Except Text Bool := do
  let r ← orExpr expr (ppTokens expr)
  if r.2.1.isEmpty then .ok r.1 else .error (badExpression expr)

/-! ### The grammar -/

mutual

/-- What `!` stands before, and what stands between the operators. -/
inductive Operand
  | leaf (t : PpToken) (v : Except Text Bool) (ht : t.value? = some v)
  | not (e : Operand)
  | paren (d : Disjunction)

inductive Conjunction
  | one (e : Operand)
  | and (c : Conjunction) (e : Operand)

inductive Disjunction
  | one (c : Conjunction)
  | or (d : Disjunction) (c : Conjunction)

end

mutual

def Operand.tokens : Operand → List PpToken
  | .leaf t _ _ => [t]
  | .not e => .not :: e.tokens
  | .paren d => .lparen :: (d.tokens ++ [.rparen])

def Conjunction.tokens : Conjunction → List PpToken
  | .one e => e.tokens
  | .and c e => c.tokens ++ .andAnd :: e.tokens

def Disjunction.tokens : Disjunction → List PpToken
  | .one c => c.tokens
  | .or d c => d.tokens ++ .orOr :: c.tokens

end

mutual

/-- The value, or the first symbol that is not known: both sides of an operator are looked at. -/
def Operand.value : Operand → Except Text Bool
  | .leaf _ v _ => v
  | .not e => do
    let v ← e.value
    .ok !v
  | .paren d => d.value

def Conjunction.value : Conjunction → Except Text Bool
  | .one e => e.value
  | .and c e => do
    let v ← c.value
    let r ← e.value
    .ok (v && r)

def Disjunction.value : Disjunction → Except Text Bool
  | .one c => c.value
  | .or d c => do
    let v ← d.value
    let r ← c.value
    .ok (v || r)

end

/-! ### One step of each function -/

/-- A value and the tokens behind it. -/
def plain {P : List PpToken → Prop} (r : Bool × { rest : List PpToken // P rest }) : Bool × List PpToken := (r.1, r.2.1)

variable {expr : Text} {v : Bool} {ts : List PpToken}

theorem primary_nil : plain <$> primary expr [] = .error (badExpression expr) := by
  rw [primary]
  rfl

theorem primary_not : plain <$> primary expr (.not :: ts) = (fun r => (!r.1, r.2)) <$> (plain <$> primary expr ts) := by
  rw [primary]
  cases primary expr ts <;> rfl

theorem primary_lparen : plain <$> primary expr (.lparen :: ts) = (plain <$> orExpr expr ts) >>= fun r =>
    if r.2.head? = some .rparen then .ok (r.1, r.2.tail) else .error (badExpression expr) := by
  rw [primary]
  cases orExpr expr ts with
  | error e => rfl
  | ok r =>
    obtain ⟨v, rest, hrest⟩ := r
    cases rest with
    | nil => rfl
    | cons t rest => cases t <;> rfl

theorem primary_leaf {t : PpToken} {r : Except Text Bool} (ht : t.value? = some r) :
    plain <$> primary expr (t :: ts) = (fun v => (v, ts)) <$> r := by
  cases t with
  | not => cases ht
  | lparen => cases ht
  | andAnd => cases ht
  | orOr => cases ht
  | rparen => cases ht
  | isDefined symbol =>
    rw [primary]
    · rw [ht]
      cases r <;> rfl
    · rintro ⟨⟩
    · rintro ⟨⟩
  | word w =>
    rw [primary]
    · rw [ht]
      cases r <;> rfl
    · rintro ⟨⟩
    · rintro ⟨⟩

theorem primary_unsupported {t : PpToken} (hnot : t ≠ .not) (hparen : t ≠ .lparen) (ht : t.value? = none) :
    plain <$> primary expr (t :: ts) = .error (unsupportedExpression expr) := by
  rw [primary]
  · rw [ht]
    rfl
  · exact hnot
  · exact hparen

theorem andExpr_eq : plain <$> andExpr expr ts =
    (plain <$> primary expr ts) >>= fun r => plain <$> andLoop expr r.1 r.2 := by
  rw [andExpr]
  cases primary expr ts with
  | error e => rfl
  | ok r =>
    change plain <$> (andLoop expr r.1 r.2.1 >>= _) = plain <$> andLoop expr r.1 r.2.1
    cases andLoop expr r.1 r.2.1 <;> rfl

theorem andLoop_and : plain <$> andLoop expr v (.andAnd :: ts) =
    (plain <$> primary expr ts) >>= fun r => plain <$> andLoop expr (v && r.1) r.2 := by
  rw [andLoop]
  cases primary expr ts with
  | error e => rfl
  | ok r =>
    change plain <$> (andLoop expr (v && r.1) r.2.1 >>= _) = plain <$> andLoop expr (v && r.1) r.2.1
    cases andLoop expr (v && r.1) r.2.1 <;> rfl

theorem andLoop_stop (h : ts.head? ≠ some .andAnd) : plain <$> andLoop expr v ts = .ok (v, ts) := by
  rw [andLoop]
  · rfl
  · rintro ts rfl
    exact h rfl

theorem orExpr_eq : plain <$> orExpr expr ts =
    (plain <$> andExpr expr ts) >>= fun r => plain <$> orLoop expr r.1 r.2 := by
  rw [orExpr]
  cases andExpr expr ts with
  | error e => rfl
  | ok r =>
    change plain <$> (orLoop expr r.1 r.2.1 >>= _) = plain <$> orLoop expr r.1 r.2.1
    cases orLoop expr r.1 r.2.1 <;> rfl

theorem orLoop_or : plain <$> orLoop expr v (.orOr :: ts) =
    (plain <$> andExpr expr ts) >>= fun r => plain <$> orLoop expr (v || r.1) r.2 := by
  rw [orLoop]
  cases andExpr expr ts with
  | error e => rfl
  | ok r =>
    change plain <$> (orLoop expr (v || r.1) r.2.1 >>= _) = plain <$> orLoop expr (v || r.1) r.2.1
    cases orLoop expr (v || r.1) r.2.1 <;> rfl

theorem orLoop_stop (h : ts.head? ≠ some .orOr) : plain <$> orLoop expr v ts = .ok (v, ts) := by
  rw [orLoop]
  · rfl
  · rintro ts rfl
    exact h rfl

/-! ### What is spelled by the grammar gets its value -/

mutual

theorem primary_tokens (e : Operand) (rest : List PpToken) :
    plain <$> primary expr (e.tokens ++ rest) = (fun v => (v, rest)) <$> e.value := by
  cases e with
  | leaf t v ht =>
    rw [Operand.tokens, Operand.value]
    exact primary_leaf ht
  | not e =>
    rw [Operand.tokens, List.cons_append, primary_not, primary_tokens e rest, Operand.value]
    cases e.value <;> rfl
  | paren d =>
    have hinside := orExpr_tokens d (.rparen :: rest)
    have hstop : ∀ v, plain <$> orLoop expr v (.rparen :: rest) = .ok (v, .rparen :: rest) :=
      fun v => orLoop_stop (by simp)
    rw [Operand.tokens, List.cons_append, List.append_assoc, primary_lparen, List.singleton_append,
      hinside (by simp), Operand.value]
    cases d.value with
    | error e => rfl
    | ok v =>
      change (plain <$> orLoop expr v (.rparen :: rest) >>= _) = _
      rw [hstop]
      rfl

theorem andExpr_tokens (c : Conjunction) (rest : List PpToken) :
    plain <$> andExpr expr (c.tokens ++ rest) = c.value >>= fun v => plain <$> andLoop expr v rest := by
  cases c with
  | one e =>
    rw [Conjunction.tokens, andExpr_eq, primary_tokens e rest, Conjunction.value]
    cases e.value <;> rfl
  | and c e =>
    rw [Conjunction.tokens, List.append_assoc, List.cons_append, andExpr_tokens c, Conjunction.value]
    cases c.value with
    | error e => rfl
    | ok v =>
      change plain <$> andLoop expr v (.andAnd :: (e.tokens ++ rest)) = _
      rw [andLoop_and, primary_tokens e rest]
      change _ = (e.value >>= fun r => .ok (v && r)) >>= _
      cases e.value <;> rfl

/-- A conjunction goes on as long as there is another operand. -/
theorem orExpr_tokens (d : Disjunction) (rest : List PpToken) (hrest : rest.head? ≠ some .andAnd) :
    plain <$> orExpr expr (d.tokens ++ rest) = d.value >>= fun v => plain <$> orLoop expr v rest := by
  cases d with
  | one c =>
    rw [Disjunction.tokens, orExpr_eq, andExpr_tokens c rest, Disjunction.value]
    cases c.value with
    | error e => rfl
    | ok v =>
      change (plain <$> andLoop expr v rest >>= _) = _
      rw [andLoop_stop hrest]
      rfl
  | or d c =>
    rw [Disjunction.tokens, List.append_assoc, List.cons_append, orExpr_tokens d _ (by simp), Disjunction.value]
    cases d.value with
    | error e => rfl
    | ok v =>
      change plain <$> orLoop expr v (.orOr :: (c.tokens ++ rest)) = _
      rw [orLoop_or, andExpr_tokens c rest]
      change _ = (c.value >>= fun r => .ok (v || r)) >>= _
      cases c.value with
      | error e => rfl
      | ok r =>
        change (plain <$> andLoop expr r rest >>= _) = _
        rw [andLoop_stop hrest]
        rfl

end

/-- Nothing may be left of the tokens. -/
theorem evalPpCondition_eq : evalPpCondition expr = (plain <$> orExpr expr (ppTokens expr)) >>= fun r =>
    if r.2.isEmpty then .ok r.1 else .error (badExpression expr) := by
  rw [evalPpCondition]
  cases orExpr expr (ppTokens expr) <;> rfl

/-- A condition that is spelled by the grammar gets its value, or the error for the first symbol that is not known. -/
theorem evalPpCondition_of_tokens (d : Disjunction) (h : ppTokens expr = d.tokens) :
    evalPpCondition expr = d.value := by
  have htokens : plain <$> orExpr expr (d.tokens ++ []) = _ := orExpr_tokens d [] (by simp)
  rw [List.append_nil] at htokens
  rw [evalPpCondition_eq, h, htokens]
  cases d.value with
  | error e => rfl
  | ok v =>
    change (plain <$> orLoop expr v [] >>= _) = _
    rw [orLoop_stop (by simp)]
    rfl

/-! ### What gets a value is spelled by the grammar -/

theorem exists_of_bind_ok {α β : Type} {x : Except Text α} {f : α → Except Text β} {b : β} (h : x >>= f = .ok b) :
    ∃ a, x = .ok a ∧ f a = .ok b := by
  cases x with
  | error e => cases h
  | ok a => exact ⟨a, rfl, h⟩

theorem length_lt_of_plain {n : Nat} {x : Except Text (Bool × { rest : List PpToken // rest.length < n })}
    {r : Bool × List PpToken} (h : plain <$> x = .ok r) : r.2.length < n := by
  cases x with
  | error e => cases h
  | ok r' =>
    cases h
    exact r'.2.2

/-- What `primary` reads from the tokens is an operand. -/
def ReadsOperand (expr : Text) (ts : List PpToken) : Prop :=
  ∀ r, plain <$> primary expr ts = .ok r → ∃ e : Operand, ts = e.tokens ++ r.2 ∧ e.value = .ok r.1

def ReadsConjunction (expr : Text) (ts : List PpToken) : Prop :=
  ∀ r, plain <$> andExpr expr ts = .ok r → ∃ c : Conjunction, ts = c.tokens ++ r.2 ∧ c.value = .ok r.1

def ReadsDisjunction (expr : Text) (ts : List PpToken) : Prop :=
  ∀ r, plain <$> orExpr expr ts = .ok r → ∃ d : Disjunction, ts = d.tokens ++ r.2 ∧ d.value = .ok r.1

/-- The loop adds operands to the conjunction that was read so far. -/
theorem exists_of_andLoop (n : Nat) (hreads : ∀ ts : List PpToken, ts.length < n → ReadsOperand expr ts)
    (hts : ts.length ≤ n) (c : Conjunction) (hc : c.value = .ok v) {r : Bool × List PpToken}
    (h : plain <$> andLoop expr v ts = .ok r) :
    ∃ c' : Conjunction, c.tokens ++ ts = c'.tokens ++ r.2 ∧ c'.value = .ok r.1 := by
  induction n generalizing ts c v with
  | zero =>
    obtain rfl := List.length_eq_zero_iff.1 (Nat.le_zero.1 hts)
    rw [andLoop_stop (by simp)] at h
    cases h
    exact ⟨c, rfl, hc⟩
  | succ n ih =>
    by_cases hand : ts.head? = some .andAnd
    · obtain ⟨ts, rfl⟩ := List.head?_eq_some_iff.1 hand
      rw [andLoop_and] at h
      obtain ⟨r', hprimary, hloop⟩ := exists_of_bind_ok h
      rw [List.length_cons] at hts
      obtain ⟨e, rfl, he⟩ := hreads ts (by omega) r' hprimary
      have hlength := length_lt_of_plain hprimary
      have hvalue : (Conjunction.and c e).value = .ok (v && r'.1) := by
        rw [Conjunction.value, hc, he]
        rfl
      obtain ⟨c', htokens, hc'⟩ := ih (fun ts hlt => hreads ts (by omega)) (by omega) (.and c e) hvalue hloop
      refine ⟨c', ?_, hc'⟩
      rw [← htokens, Conjunction.tokens, List.append_assoc, List.cons_append]
    · rw [andLoop_stop hand] at h
      cases h
      exact ⟨c, rfl, hc⟩

theorem ReadsConjunction.of_operands (hreads : ∀ ts' : List PpToken, ts'.length ≤ ts.length → ReadsOperand expr ts') :
    ReadsConjunction expr ts := by
  intro r h
  rw [andExpr_eq] at h
  obtain ⟨r', hprimary, hloop⟩ := exists_of_bind_ok h
  have hlength := length_lt_of_plain hprimary
  obtain ⟨e, hts, he⟩ := hreads ts le_rfl r' hprimary
  have hvalue : (Conjunction.one e).value = .ok r'.1 := by rw [Conjunction.value, he]
  obtain ⟨c, htokens, hc⟩ :=
    exists_of_andLoop ts.length (fun ts' hlt => hreads ts' hlt.le) hlength.le (.one e) hvalue hloop
  refine ⟨c, ?_, hc⟩
  rw [← htokens, Conjunction.tokens]
  exact hts

theorem exists_of_orLoop (n : Nat) (hreads : ∀ ts : List PpToken, ts.length < n → ReadsConjunction expr ts)
    (hts : ts.length ≤ n) (d : Disjunction) (hd : d.value = .ok v) {r : Bool × List PpToken}
    (h : plain <$> orLoop expr v ts = .ok r) :
    ∃ d' : Disjunction, d.tokens ++ ts = d'.tokens ++ r.2 ∧ d'.value = .ok r.1 := by
  induction n generalizing ts d v with
  | zero =>
    obtain rfl := List.length_eq_zero_iff.1 (Nat.le_zero.1 hts)
    rw [orLoop_stop (by simp)] at h
    cases h
    exact ⟨d, rfl, hd⟩
  | succ n ih =>
    by_cases hor : ts.head? = some .orOr
    · obtain ⟨ts, rfl⟩ := List.head?_eq_some_iff.1 hor
      rw [orLoop_or] at h
      obtain ⟨r', hand, hloop⟩ := exists_of_bind_ok h
      rw [List.length_cons] at hts
      obtain ⟨c, rfl, hc⟩ := hreads ts (by omega) r' hand
      have hlength := length_lt_of_plain hand
      have hvalue : (Disjunction.or d c).value = .ok (v || r'.1) := by
        rw [Disjunction.value, hd, hc]
        rfl
      obtain ⟨d', htokens, hd'⟩ := ih (fun ts hlt => hreads ts (by omega)) (by omega) (.or d c) hvalue hloop
      refine ⟨d', ?_, hd'⟩
      rw [← htokens, Disjunction.tokens, List.append_assoc, List.cons_append]
    · rw [orLoop_stop hor] at h
      cases h
      exact ⟨d, rfl, hd⟩

theorem ReadsDisjunction.of_conjunctions
    (hreads : ∀ ts' : List PpToken, ts'.length ≤ ts.length → ReadsConjunction expr ts') : ReadsDisjunction expr ts := by
  intro r h
  rw [orExpr_eq] at h
  obtain ⟨r', hand, hloop⟩ := exists_of_bind_ok h
  have hlength := length_lt_of_plain hand
  obtain ⟨c, hts, hc⟩ := hreads ts le_rfl r' hand
  have hvalue : (Disjunction.one c).value = .ok r'.1 := by rw [Disjunction.value, hc]
  obtain ⟨d, htokens, hd⟩ :=
    exists_of_orLoop ts.length (fun ts' hlt => hreads ts' hlt.le) hlength.le (.one c) hvalue hloop
  refine ⟨d, ?_, hd⟩
  rw [← htokens, Disjunction.tokens]
  exact hts

theorem readsOperand (ts : List PpToken) : ReadsOperand expr ts := by
  induction hn : ts.length using Nat.strong_induction_on generalizing ts with
  | h n ih =>
    intro r h
    cases ts with
    | nil =>
      rw [primary_nil] at h
      cases h
    | cons t ts =>
      rw [List.length_cons] at hn
      have hoperands : ∀ ts' : List PpToken, ts'.length ≤ ts.length → ReadsOperand expr ts' :=
        fun ts' hle => ih ts'.length (by omega) ts' rfl
      by_cases hnot : t = .not
      · subst hnot
        rw [primary_not] at h
        obtain ⟨r', hprimary, hr⟩ := exists_of_bind_ok h
        cases hr
        obtain ⟨e, rfl, he⟩ := hoperands ts le_rfl r' hprimary
        refine ⟨.not e, rfl, ?_⟩
        rw [Operand.value, he]
        rfl
      by_cases hparen : t = .lparen
      · subst hparen
        rw [primary_lparen] at h
        obtain ⟨r', hor, hr⟩ := exists_of_bind_ok h
        have hconjunctions : ∀ ts' : List PpToken, ts'.length ≤ ts.length → ReadsConjunction expr ts' :=
          fun ts' hle => .of_operands fun ts'' hle' => hoperands ts'' (hle'.trans hle)
        obtain ⟨d, hts, hd⟩ := ReadsDisjunction.of_conjunctions hconjunctions r' hor
        by_cases hclose : r'.2.head? = some .rparen
        · obtain ⟨rest, hrest⟩ := List.head?_eq_some_iff.1 hclose
          rw [if_pos hclose, hrest] at hr
          cases hr
          refine ⟨.paren d, ?_, by rw [Operand.value, hd]⟩
          rw [hts, hrest, Operand.tokens]
          simp
        · rw [if_neg hclose] at hr
          cases hr
      cases hvalue : t.value? with
      | none =>
        rw [primary_unsupported hnot hparen hvalue] at h
        cases h
      | some v =>
        rw [primary_leaf hvalue] at h
        obtain ⟨b, rfl, hr⟩ := exists_of_bind_ok h
        cases hr
        exact ⟨.leaf t (.ok b) hvalue, rfl, rfl⟩

/-- A condition gets a value exactly if it is spelled by the grammar and all its symbols are known, and then it gets
the value that is spelled. -/
theorem evalPpCondition_eq_ok_iff :
    evalPpCondition expr = .ok v ↔ ∃ d : Disjunction, ppTokens expr = d.tokens ∧ d.value = .ok v := by
  constructor
  · intro h
    rw [evalPpCondition_eq] at h
    obtain ⟨r, hr, hend⟩ := exists_of_bind_ok h
    have hreads : ReadsDisjunction expr (ppTokens expr) :=
      .of_conjunctions fun _ _ => .of_operands fun ts _ => readsOperand ts
    obtain ⟨d, htokens, hd⟩ := hreads r hr
    by_cases hempty : r.2.isEmpty = true
    · rw [if_pos hempty] at hend
      cases hend
      rw [List.isEmpty_iff.1 hempty, List.append_nil] at htokens
      exact ⟨d, htokens, hd⟩
    · rw [if_neg hempty] at hend
      cases hend
  · rintro ⟨d, htokens, hd⟩
    rw [evalPpCondition_of_tokens d htokens, hd]

/-! ### How conditions are written -/

def IsSymbol (symbol : Text) : Prop := symbol ≠ [] ∧ Trim.All isWordChar symbol

instance (symbol : Text) : Decidable (IsSymbol symbol) := inferInstanceAs (Decidable (_ ∧ _))

/-- A text that is written with these tokens and white space. -/
inductive Spells : List PpToken → Text → Prop
  | nil : Spells [] []
  | space {c : Char} {ts : List PpToken} {t : Text} (hc : Text.isSpace c = true) (h : Spells ts t) : Spells ts (c :: t)
  | andAnd {ts : List PpToken} {t : Text} (h : Spells ts t) : Spells (.andAnd :: ts) ('&' :: '&' :: t)
  | orOr {ts : List PpToken} {t : Text} (h : Spells ts t) : Spells (.orOr :: ts) ('|' :: '|' :: t)
  | not {ts : List PpToken} {t : Text} (h : Spells ts t) : Spells (.not :: ts) ('!' :: t)
  | lparen {ts : List PpToken} {t : Text} (h : Spells ts t) : Spells (.lparen :: ts) ('(' :: t)
  | rparen {ts : List PpToken} {t : Text} (h : Spells ts t) : Spells (.rparen :: ts) (')' :: t)
  | number {n : Text} {ts : List PpToken} {t : Text} (hn : n ≠ []) (hdigits : Trim.All Char.isDigit n)
    (hend : ∀ c ∈ t.head?, isWordChar c = false) (h : Spells ts t) : Spells (.word n :: ts) (n ++ t)
  | enclosed {s s' s'' symbol : Text} {ts : List PpToken} {t : Text} (hs : Trim.All Text.isSpace s)
    (hs' : Trim.All Text.isSpace s') (hs'' : Trim.All Text.isSpace s'') (hsymbol : IsSymbol symbol) (h : Spells ts t) :
    Spells (.isDefined symbol :: ts) ("defined".toList ++ (s ++ '(' :: (s' ++ (symbol ++ (s'' ++ ')' :: t)))))
  | bare {s symbol : Text} {ts : List PpToken} {t : Text} (hs : Trim.All Text.isSpace s) (hne : s ≠ [])
    (hsymbol : IsSymbol symbol) (hend : ∀ c ∈ t.head?, isWordChar c = false) (h : Spells ts t) :
    Spells (.isDefined symbol :: ts) ("defined".toList ++ (s ++ (symbol ++ t)))

theorem ppTokens_of_token {t rest : Text} {token : PpToken} (h : ppToken? t = some (token, rest)) :
    ppTokens t = token :: ppTokens rest := by
  rw [ppTokens]
  split
  · rename_i heq
    rw [h] at heq
    cases heq
    rfl
  · rename_i heq
    rw [h] at heq
    cases heq

theorem ppTokens_of_none {c : Char} {t : Text} (h : ppToken? (c :: t) = none) : ppTokens (c :: t) = ppTokens t := by
  rw [ppTokens]
  split
  · rename_i heq
    rw [h] at heq
    cases heq
  · rfl

theorem exists_cons_symbol {symbol : Text} (h : IsSymbol symbol) (t : Text) :
    ∃ c, (symbol ++ t).head? = some c ∧ isWordChar c = true := by
  obtain ⟨c, rest, rfl⟩ := List.exists_cons_of_ne_nil h.1
  exact ⟨c, rfl, h.2 c List.mem_cons_self⟩

theorem definedSymbol_enclosed {s s' s'' symbol : Text} (hs : Trim.All Text.isSpace s) (hs' : Trim.All Text.isSpace s')
    (hs'' : Trim.All Text.isSpace s'') (hsymbol : IsSymbol symbol) (t : Text) :
    definedSymbol? (s ++ '(' :: (s' ++ (symbol ++ (s'' ++ ')' :: t)))) = some (symbol, t) := by
  have hbehind : (s ++ '(' :: (s' ++ (symbol ++ (s'' ++ ')' :: t)))).dropWhile Text.isSpace =
      '(' :: (s' ++ (symbol ++ (s'' ++ ')' :: t))) := by
    rw [Trim.dropWhile_append_all hs]
    rfl
  have hinside : (s' ++ (symbol ++ (s'' ++ ')' :: t))).dropWhile Text.isSpace = symbol ++ (s'' ++ ')' :: t) := by
    rw [Trim.dropWhile_append_all hs']
    refine Trim.dropWhile_of_head fun c hc => ?_
    obtain ⟨d, hd, hword⟩ := exists_cons_symbol hsymbol (s'' ++ ')' :: t)
    rw [hd] at hc
    obtain rfl := Option.some.inj hc
    exact ParamCatalog.isSpace_of_isWordChar hword
  have hend : ∀ c ∈ (s'' ++ ')' :: t).head?, isWordChar c = false := by
    intro c hc
    cases s'' with
    | nil =>
      cases hc
      rfl
    | cons d s'' =>
      cases hc
      rw [← Bool.not_eq_true]
      intro hword
      have hspace := ParamCatalog.isSpace_of_isWordChar hword
      rw [hs'' c List.mem_cons_self] at hspace
      cases hspace
  have hsymbol' : (symbol ++ (s'' ++ ')' :: t)).takeWhile isWordChar = symbol := Trim.takeWhile_append_all hsymbol.2 hend
  have hrest : ((symbol ++ (s'' ++ ')' :: t)).dropWhile isWordChar).dropWhile Text.isSpace = ')' :: t := by
    rw [Trim.dropWhile_append_all hsymbol.2, Trim.dropWhile_of_head hend, Trim.dropWhile_append_all hs'']
    rfl
  unfold definedSymbol?
  dsimp only
  rw [hbehind, if_pos List.head?_cons, List.tail_cons, hinside, hsymbol', hrest, if_pos ⟨hsymbol.1, List.head?_cons⟩,
    List.tail_cons]

theorem definedSymbol_bare {s symbol t : Text} (hs : Trim.All Text.isSpace s) (hne : s ≠ []) (hsymbol : IsSymbol symbol)
    (hend : ∀ c ∈ t.head?, isWordChar c = false) : definedSymbol? (s ++ (symbol ++ t)) = some (symbol, t) := by
  obtain ⟨c, hc, hword⟩ := exists_cons_symbol hsymbol t
  have hbehind : (s ++ (symbol ++ t)).dropWhile Text.isSpace = symbol ++ t := by
    rw [Trim.dropWhile_append_all hs]
    refine Trim.dropWhile_of_head fun d hd => ?_
    rw [hc] at hd
    cases hd
    exact ParamCatalog.isSpace_of_isWordChar hword
  have hparen : ¬(symbol ++ t).head? = some '(' := by
    rw [hc]
    rintro ⟨⟩
    exact absurd hword (by decide)
  have hspace : symbol ++ t ≠ s ++ (symbol ++ t) := by
    intro heq
    have hlength := congrArg List.length heq
    have hpos := List.length_pos_iff.2 hne
    simp only [List.length_append] at hlength
    omega
  have hsymbol' : (symbol ++ t).takeWhile isWordChar = symbol := Trim.takeWhile_append_all hsymbol.2 hend
  have hrest : (symbol ++ t).dropWhile isWordChar = t := by
    rw [Trim.dropWhile_append_all hsymbol.2, Trim.dropWhile_of_head hend]
  unfold definedSymbol?
  dsimp only
  rw [hbehind, if_neg hparen, hsymbol', hrest, if_pos ⟨hspace, hsymbol.1⟩]

theorem ppToken_defined {t rest symbol : Text} (h : definedSymbol? t = some (symbol, rest)) :
    ppToken? ("defined".toList ++ t) = some (.isDefined symbol, rest) := by
  have hdrop : ("defined".toList ++ t).drop 7 = t := rfl
  rw [ppToken?, definedToken?, if_pos ⟨t, rfl⟩, hdrop, h]
  rfl

theorem ppToken_of_head {c : Char} (hc : c ≠ 'd') (t : Text) :
    ppToken? (c :: t) = (operator? (c :: t)).or (word? (c :: t)) := by
  have hdefined : ¬ "defined".toList <+: c :: t := by
    rintro ⟨s, hs⟩
    injection hs with hd
    exact hc hd.symm
  rw [ppToken?, definedToken?, if_neg hdefined]
  rfl

/-- What is no operator and does not ask for a symbol is a word or nothing. -/
theorem operator_of_head {c : Char} (hc : c ∉ ['&', '|', '!', '(', ')']) (t : Text) : operator? (c :: t) = none := by
  unfold operator?
  split
  case h_6 => rfl
  all_goals
    rename_i heq
    cases heq
    exact absurd (by decide) hc

/-- Where the first character is of a kind that begins neither an operator nor `defined`, there is a word or nothing. -/
theorem ppToken_of_kind {p : Char → Bool} (hp : (['d', '&', '|', '!', '(', ')'].all fun d => !p d) = true) {c : Char}
    (hc : p c = true) (t : Text) : ppToken? (c :: t) = word? (c :: t) := by
  have hne : ∀ d ∈ ['d', '&', '|', '!', '(', ')'], c ≠ d := by
    rintro d hd rfl
    have hnot := List.all_eq_true.1 hp c hd
    rw [hc] at hnot
    cases hnot
  have hoperator : c ∉ ['&', '|', '!', '(', ')'] := fun hmem => hne c (List.mem_cons_of_mem _ hmem) rfl
  rw [ppToken_of_head (hne 'd' List.mem_cons_self), operator_of_head hoperator, Option.none_or]

theorem ppTokens_of_spells {ts : List PpToken} {t : Text} (h : Spells ts t) : ppTokens t = ts := by
  induction h with
  | nil =>
    rw [ppTokens]
    rfl
  | @space c ts t hc _ ih =>
    have hword : ¬ isWordChar c = true := by
      intro hword
      rw [ParamCatalog.isSpace_of_isWordChar hword] at hc
      cases hc
    have hnone : ppToken? (c :: t) = none := by
      rw [ppToken_of_kind (p := Text.isSpace) (by decide) hc, word?, List.takeWhile_cons_of_neg hword]
      rfl
    rw [ppTokens_of_none hnone, ih]
  | @andAnd ts t _ ih =>
    have htoken : ppToken? ('&' :: '&' :: t) = some (.andAnd, t) := ppToken_of_head (by decide) _
    rw [ppTokens_of_token htoken, ih]
  | @orOr ts t _ ih =>
    have htoken : ppToken? ('|' :: '|' :: t) = some (.orOr, t) := ppToken_of_head (by decide) _
    rw [ppTokens_of_token htoken, ih]
  | @not ts t _ ih =>
    have htoken : ppToken? ('!' :: t) = some (.not, t) := ppToken_of_head (by decide) _
    rw [ppTokens_of_token htoken, ih]
  | @lparen ts t _ ih =>
    have htoken : ppToken? ('(' :: t) = some (.lparen, t) := ppToken_of_head (by decide) _
    rw [ppTokens_of_token htoken, ih]
  | @rparen ts t _ ih =>
    have htoken : ppToken? (')' :: t) = some (.rparen, t) := ppToken_of_head (by decide) _
    rw [ppTokens_of_token htoken, ih]
  | @number n ts t hn hdigits hend _ ih =>
    have hwords : Trim.All isWordChar n := hdigits.mono fun c hc => by simp [isWordChar, Char.isAlphanum, hc]
    obtain ⟨c, n, rfl⟩ := List.exists_cons_of_ne_nil hn
    have htoken : ppToken? (c :: n ++ t) = some (.word (c :: n), t) := by
      have htake : (c :: n ++ t).takeWhile isWordChar = c :: n := Trim.takeWhile_append_all hwords hend
      have hdrop : (c :: n ++ t).dropWhile isWordChar = t := by
        rw [Trim.dropWhile_append_all hwords, Trim.dropWhile_of_head hend]
      rw [List.cons_append, ppToken_of_kind (p := Char.isDigit) (by decide) (hdigits c List.mem_cons_self),
        ← List.cons_append, word?, htake, hdrop]
      rfl
    rw [ppTokens_of_token htoken, ih]
  | enclosed hs hs' hs'' hsymbol _ ih =>
    rw [ppTokens_of_token (ppToken_defined (definedSymbol_enclosed hs hs' hs'' hsymbol _)), ih]
  | bare hs hne hsymbol hend _ ih =>
    rw [ppTokens_of_token (ppToken_defined (definedSymbol_bare hs hne hsymbol hend)), ih]

/-- A condition that is written with white space anywhere between its tokens gets its value. -/
theorem evalPpCondition_of_spells {d : Disjunction} (h : Spells d.tokens expr) : evalPpCondition expr = d.value :=
  evalPpCondition_of_tokens d (ppTokens_of_spells h)

/-- `defined (LINUX)&&!defined CS_MODE` -/
theorem evalPpCondition_of_spells_linux :
    evalPpCondition "defined (LINUX)&&!defined CS_MODE".toList = .ok true := by
  have hlinux : (PpToken.isDefined "LINUX".toList).value? = some (.ok true) := rfl
  have hcs : (PpToken.isDefined "CS_MODE".toList).value? = some (.ok false) := rfl
  have hbare : Spells [.isDefined "CS_MODE".toList] ("defined".toList ++ ([' '] ++ ("CS_MODE".toList ++ []))) :=
    .bare (by decide) (List.cons_ne_nil _ _) (by decide) (by simp) .nil
  have hright : Spells [.andAnd, .not, .isDefined "CS_MODE".toList] "&&!defined CS_MODE".toList := .andAnd (.not hbare)
  have hspells : Spells [.isDefined "LINUX".toList, .andAnd, .not, .isDefined "CS_MODE".toList]
      ("defined".toList ++ ([' '] ++ '(' :: ([] ++ ("LINUX".toList ++ ([] ++ ')' :: "&&!defined CS_MODE".toList))))) :=
    .enclosed (by decide) (by decide) (by decide) (by decide) hright
  exact evalPpCondition_of_spells (d := .one (.and (.one (.leaf _ _ hlinux)) (.not (.leaf _ _ hcs)))) hspells

end CubridWebManager.Preprocess
