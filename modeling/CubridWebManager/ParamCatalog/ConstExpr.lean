import CubridWebManager.Lib.CConstant
import CubridWebManager.Lib.Dict

/-!
# Constant expressions of the engine's tables

`evalConstExpr` of `scripts/generate-param-catalog.mjs` evaluates the bounds and the defaults that the engine writes as
constant expressions of C.  It comes to an end for every text and every table of macros (`ends_evalConstExpr`).
-/

namespace CubridWebManager.ParamCatalog

open CConstant (Op)

/-- The numbers of JavaScript, by the operations that are used. -/
structure FloatOps (F : Type) where
  ofText : Text → F
  ofBigInt : ℤ → F
  add : F → F → F
  sub : F → F → F
  mul : F → F → F
  div : F → F → F
  neg : F → F
  /-- `BigInt(Math.trunc(x))`, which throws for numbers that are not finite. -/
  truncate : F → Option ℤ

/-- `{ i }` or `{ f }` -/
inductive Value (F : Type)
  | i (x : ℤ)
  | f (x : F)

inductive ExprToken (F : Type)
  | num (v : Value F)
  | id (v : Text)
  | op (v : Op)

/-! ### `tokenizeExpr` -/

/-- `0[xX][0-9a-fA-F]+` -/
def hexLexeme : Text → Option (Text × Text)
  | '0' :: x :: t =>
    if (x = 'x' ∨ x = 'X') ∧ t.takeWhile CConstant.isHexDigit ≠ [] then
      some ('0' :: x :: t.takeWhile CConstant.isHexDigit, t.dropWhile CConstant.isHexDigit)
    else none
  | _ => none

/-- `\d+\.\d*|\.\d+` -/
def pointLexeme (t : Text) : Option (Text × Text) :=
  match t.dropWhile Char.isDigit with
  | '.' :: rest =>
    if t.takeWhile Char.isDigit = [] ∧ rest.takeWhile Char.isDigit = [] then none
    else some (t.takeWhile Char.isDigit ++ '.' :: rest.takeWhile Char.isDigit, rest.dropWhile Char.isDigit)
  | _ => none

/-- `[eE][+-]?\d+` -/
def exponentLexeme : Text → Option (Text × Text)
  | e :: t =>
    if e = 'e' ∨ e = 'E' then
      let signs := if t.head? = some '+' ∨ t.head? = some '-' then 1 else 0
      let digits := (t.drop signs).takeWhile Char.isDigit
      if digits = [] then none else some (e :: t.take signs ++ digits, (t.drop signs).dropWhile Char.isDigit)
    else none
  | [] => none

/-- `\d+` -/
def digitsLexeme (t : Text) : Option (Text × Text) :=
  if t.takeWhile Char.isDigit = [] then none else some (t.takeWhile Char.isDigit, t.dropWhile Char.isDigit)

/-- The first group of the expression, and what is behind it. -/
def numberLexeme (t : Text) : Option (Text × Text) :=
  match hexLexeme t with
  | some found => some found
  | none =>
    match pointLexeme t with
    | some (mantissa, rest) =>
      match exponentLexeme rest with
      | some (exponent, rest) => some (mantissa ++ exponent, rest)
      | none => some (mantissa, rest)
    | none =>
      match digitsLexeme t with
      | some (digits, rest) =>
        match exponentLexeme rest with
        | some (exponent, rest) => some (digits ++ exponent, rest)
        | none => some (digits, rest)
      | none => none

def isSuffixLetter (c : Char) : Bool := c = 'u' || c = 'U' || c = 'l' || c = 'L' || c = 'f' || c = 'F'

/-- `/^0[xX]/` -/
def isHex : Text → Bool
  | '0' :: x :: _ => x = 'x' || x = 'X'
  | _ => false

def isFloat (lexeme suffix : Text) : Bool :=
  !isHex lexeme && (lexeme.any (fun c => c = '.' || c = 'e' || c = 'E') || suffix.any fun c => c = 'f' || c = 'F')

def bigInt (lexeme : Text) : ℤ :=
  if isHex lexeme then CConstant.readDigits 16 (lexeme.drop 2) else CConstant.readDigits 10 lexeme

/-- `<<|>>|[-+*/%()~|&^]` -/
def readOp : Text → Option (Op × Text)
  | '<' :: '<' :: t => some (.shl, t)
  | '>' :: '>' :: t => some (.shr, t)
  | '-' :: t => some (.minus, t)
  | '+' :: t => some (.plus, t)
  | '*' :: t => some (.times, t)
  | '/' :: t => some (.slash, t)
  | '%' :: t => some (.percent, t)
  | '(' :: t => some (.lparen, t)
  | ')' :: t => some (.rparen, t)
  | '~' :: t => some (.tilde, t)
  | '|' :: t => some (.bar, t)
  | '&' :: t => some (.amp, t)
  | '^' :: t => some (.caret, t)
  | _ => none

section

variable {F : Type} (N : FloatOps F)

/-- The match of the expression behind the white space, and what is behind it. -/
def matchToken (t : Text) : Option (ExprToken F × Text) :=
  match numberLexeme t with
  | some (lexeme, rest) =>
    let suffix := rest.takeWhile isSuffixLetter
    let v : Value F := if isFloat lexeme suffix then .f (N.ofText lexeme) else .i (bigInt lexeme)
    some (.num v, rest.dropWhile isSuffixLetter)
  | none =>
    match t with
    | c :: _ =>
      if c.isAlpha ∨ c = '_' then some (.id (t.takeWhile CConstant.isWordChar), t.dropWhile CConstant.isWordChar)
      else (readOp t).map fun (o, rest) => (.op o, rest)
    | [] => none

end

/-! A token is not empty. -/

theorem length_dropWhile_lt {p : Char → Bool} {t : Text} (h : t.takeWhile p ≠ []) :
    (t.dropWhile p).length < t.length := by
  have hlength := congrArg List.length (List.takeWhile_append_dropWhile (p := p) (l := t))
  have hpos := List.length_pos_of_ne_nil h
  rw [List.length_append] at hlength
  omega

theorem length_hexLexeme {t m rest : Text} (h : hexLexeme t = some (m, rest)) : rest.length < t.length := by
  unfold hexLexeme at h
  split at h
  · split at h
    · cases h
      have hle := (List.dropWhile_suffix CConstant.isHexDigit (l := ‹Text›)).length_le
      simp only [List.length_cons]
      omega
    · cases h
  · cases h

theorem length_exponentLexeme {t m rest : Text} (h : exponentLexeme t = some (m, rest)) : rest.length < t.length := by
  unfold exponentLexeme at h
  split at h
  · rename_i e t
    split at h
    · dsimp only at h
      generalize (if t.head? = some '+' ∨ t.head? = some '-' then 1 else 0) = signs at h
      split at h
      · cases h
      · cases h
        rw [List.length_cons]
        exact Nat.lt_succ_of_le ((List.dropWhile_suffix _).length_le.trans (List.drop_suffix _ t).length_le)
    · cases h
  · cases h

theorem length_pointLexeme {t m rest : Text} (h : pointLexeme t = some (m, rest)) : rest.length < t.length := by
  unfold pointLexeme at h
  split at h
  · rename_i rest' hrest
    split at h
    · cases h
    · cases h
      have hle := (List.dropWhile_suffix Char.isDigit (l := t)).length_le
      have hle' := (List.dropWhile_suffix Char.isDigit (l := rest')).length_le
      rw [hrest, List.length_cons] at hle
      omega
  · cases h

theorem length_numberLexeme {t m rest : Text} (h : numberLexeme t = some (m, rest)) : rest.length < t.length := by
  unfold numberLexeme at h
  split at h
  · rename_i found hhex
    cases h
    exact length_hexLexeme hhex
  · split at h
    · rename_i mantissa rest' hpoint
      have hlt := length_pointLexeme hpoint
      split at h
      · rename_i exponent rest'' hexponent
        cases h
        exact (length_exponentLexeme hexponent).trans hlt
      · cases h
        exact hlt
    · split at h
      · rename_i digits rest' hdigits
        have hlt : rest'.length < t.length := by
          unfold digitsLexeme at hdigits
          split at hdigits
          · cases hdigits
          · rename_i hne
            cases hdigits
            exact length_dropWhile_lt hne
        split at h
        · rename_i exponent rest'' hexponent
          cases h
          exact (length_exponentLexeme hexponent).trans hlt
        · cases h
          exact hlt
      · cases h

theorem length_readOp {t rest : Text} {o : Op} (h : readOp t = some (o, rest)) : rest.length < t.length := by
  unfold readOp at h
  split at h
  case h_14 => cases h
  all_goals
    cases h
    simp only [List.length_cons]
    omega

theorem length_matchToken {F : Type} {N : FloatOps F} {t rest : Text} {tok : ExprToken F}
    (h : matchToken N t = some (tok, rest)) : rest.length < t.length := by
  unfold matchToken at h
  split at h
  · rename_i lexeme rest' hnumber
    cases h
    exact (List.dropWhile_suffix isSuffixLetter).length_le.trans_lt (length_numberLexeme hnumber)
  · split at h
    · rename_i c t _
      split at h
      · rename_i hc
        cases h
        have hword : CConstant.isWordChar c = true := by
          rcases hc with hc | rfl
          · simp [CConstant.isWordChar, Char.isAlphanum, hc]
          · decide
        refine length_dropWhile_lt ?_
        rw [List.takeWhile_cons_of_pos hword]
        exact List.cons_ne_nil _ _
      · obtain ⟨⟨o, rest'⟩, hop, heq⟩ := Option.map_eq_some_iff.1 h
        cases heq
        exact length_readOp hop
    · cases h

section

variable {F : Type} (N : FloatOps F)

def tokenizeExpr (expr : Text) : Option (List (ExprToken F)) :=
  if expr.all Text.isSpace then some []
  else
    match _hmatch : matchToken N (expr.dropWhile Text.isSpace) with
    | none => none
    | some (tok, rest) => (tokenizeExpr rest).map (tok :: ·)
termination_by expr.length
decreasing_by exact (length_matchToken _hmatch).trans_le (List.dropWhile_suffix _).length_le

/-! ### `evalConstExpr` -/

def INT_TYPES : List Text :=
  ["int", "unsigned", "long", "short", "signed", "INT64", "UINT64", "INT32", "UINT32", "size_t", "bool",
    "DB_BIGINT"].map String.toList

def FLOAT_TYPES : List Text := ["float", "double"].map String.toList

inductive EvalError
  /-- `Unresolvable`, with the expression. -/
  | unresolvable (expr : Text)
  /-- `BigInt` of a number that is not finite. -/
  | rangeError
  deriving DecidableEq

/-- A computation that may go on for ever. -/
abbrev Eval := ExceptT EvalError Option

def toF : Value F → F
  | .f x => x
  | .i x => N.ofBigInt x

/-- `x << y` -/
def shiftLeft (x y : ℤ) : ℤ := if 0 ≤ y then x * 2 ^ y.toNat else x / 2 ^ (-y).toNat

def arith (expr : Text) (a b : Value F) (op : Op) : Eval (Value F) :=
  match a, b with
  | .i x, .i y =>
    match op with
    | .plus => pure (.i (x + y))
    | .minus => pure (.i (x - y))
    | .times => pure (.i (x * y))
    | .slash => if y = 0 then throw (.unresolvable expr) else pure (.i (x.tdiv y))
    | .percent => if y = 0 then throw (.unresolvable expr) else pure (.i (x.tmod y))
    | .shl => pure (.i (shiftLeft x y))
    | .shr => pure (.i (shiftLeft x (-y)))
    | .bar => pure (.i (Int.lor x y))
    | .amp => pure (.i (Int.land x y))
    | .caret => pure (.i (Int.xor x y))
    | _ => throw (.unresolvable expr)
  | a, b =>
    match op with
    | .plus => pure (.f (N.add (toF N a) (toF N b)))
    | .minus => pure (.f (N.sub (toF N a) (toF N b)))
    | .times => pure (.f (N.mul (toF N a) (toF N b)))
    | .slash => pure (.f (N.div (toF N a) (toF N b)))
    | _ => throw (.unresolvable expr)

inductive CastKind
  | int
  | float

def leadingNames : List (ExprToken F) → List Text × List (ExprToken F)
  | .id name :: rest => (name :: (leadingNames rest).1, (leadingNames rest).2)
  | tokens => ([], tokens)

/-- The kind of the cast in front, and what is behind it. -/
def castAhead : List (ExprToken F) → Option (CastKind × List (ExprToken F))
  | .op .lparen :: rest =>
    match leadingNames rest with
    | ([], _) => none
    | (names, .op .rparen :: rest) =>
      if names.all (· ∈ INT_TYPES) then some (.int, rest)
      else if names.all (· ∈ FLOAT_TYPES) then some (.float, rest)
      else none
    | _ => none
  | _ => none

def PREC : List (List Op) := [[.bar], [.caret], [.amp], [.shl, .shr], [.plus, .minus], [.times, .slash, .percent]]

theorem length_leadingNames (tokens : List (ExprToken F)) :
    (leadingNames tokens).1.length + (leadingNames tokens).2.length = tokens.length := by
  induction tokens with
  | nil => rfl
  | cons tok tokens ih =>
    cases tok with
    | id name =>
      rw [leadingNames, List.length_cons, List.length_cons, ← ih]
      exact Nat.add_right_comm _ _ _
    | num v => simp [leadingNames]
    | op o => simp [leadingNames]

theorem length_castAhead {tokens rest : List (ExprToken F)} {kind : CastKind} (h : castAhead tokens = some (kind, rest)) :
    rest.length < tokens.length := by
  unfold castAhead at h
  split at h
  · rename_i inside
    have hlength := length_leadingNames inside
    split at h
    · cases h
    · rename_i names rest' hne hnames
      rw [hnames, List.length_cons] at hlength
      rw [List.length_cons]
      split at h
      · cases h
        omega
      · split at h
        · cases h
          omega
        · cases h
    · cases h
  · cases h

/-- The macros that are not seen. -/
def unseen (macros : Dict Text Text) (seen : List Text) : List Text := macros.keys.filter (· ∉ seen)

theorem length_unseen_lt {macros : Dict Text Text} {seen : List Text} {name text : Text} (hdefined : macros.get? name = some text) (hseen : name ∉ seen) :
    (unseen macros (name :: seen)).length < (unseen macros seen).length := by
  have hmem : name ∈ unseen macros seen := List.mem_filter.2 ⟨Dict.mem_keys.2 ⟨text, hdefined⟩, by simpa using hseen⟩
  have hfewer : unseen macros (name :: seen) = (unseen macros seen).filter (· ≠ name) := by
    rw [unseen, unseen, List.filter_filter]
    refine List.filter_congr fun n _ => ?_
    simp [List.mem_cons, not_or]
  rw [hfewer]
  exact List.length_filter_lt_length_iff_exists.2 ⟨name, hmem, by simp⟩

/-- The computation goes on for ever: what a call does that would have to begin again with as many tokens. -/
def Eval.loops {α : Type} : Eval α := (none : Option (Except EvalError α))

variable (macros : Dict Text Text)

mutual

def evalConstExpr (expr : Text) (seen : List Text) : Eval (Value F) :=
  match tokenizeExpr N expr with
  | none | some [] => throw (.unresolvable expr)
  | some tokens => do
    let (v, rest) ← binary expr seen 0 tokens
    match rest with
    | [] => pure v
    | _ :: _ => throw (.unresolvable expr)
termination_by ((unseen macros seen).length, 1, 0, 0)
decreasing_by exact .right _ (.left _ _ Nat.zero_lt_one)

def unary (expr : Text) (seen : List Text) (tokens : List (ExprToken F)) : Eval (Value F × List (ExprToken F)) :=
  match _hcast : castAhead tokens with
  | some (kind, behind) => do
    let (v, rest) ← unary expr seen behind
    match kind, v with
    | .int, .f x =>
      match N.truncate x with
      | some i => pure (.i i, rest)
      | none => throw .rangeError
    | .int, .i x => pure (.i x, rest)
    | .float, v => pure (.f (toF N v), rest)
  | none =>
    match tokens with
    | .op .minus :: tokens => do
      let (v, rest) ← unary expr seen tokens
      match v with
      | .f x => pure (.f (N.neg x), rest)
      | .i x => pure (.i (-x), rest)
    | .op .plus :: tokens => unary expr seen tokens
    | .op .tilde :: tokens => do
      let (v, rest) ← unary expr seen tokens
      match v with
      | .f _ => throw (.unresolvable expr)
      | .i x => pure (.i (-x - 1), rest)
    | tokens => primary expr seen tokens
termination_by ((unseen macros seen).length, 0, tokens.length, 1)
decreasing_by
  · exact .right _ (.right _ (.left _ _ (length_castAhead _hcast)))
  · exact .right _ (.right _ (.left _ _ (Nat.lt_succ_self _)))
  · exact .right _ (.right _ (.left _ _ (Nat.lt_succ_self _)))
  · exact .right _ (.right _ (.left _ _ (Nat.lt_succ_self _)))
  · exact .right _ (.right _ (.right _ Nat.zero_lt_one))

def primary (expr : Text) (seen : List Text) (tokens : List (ExprToken F)) : Eval (Value F × List (ExprToken F)) :=
  match tokens with
  | .num v :: rest => pure (v, rest)
  | .op .lparen :: tokens => do
    let (v, rest) ← binary expr seen 0 tokens
    match rest with
    | .op .rparen :: rest => pure (v, rest)
    | _ => throw (.unresolvable expr)
  | .id _ :: .op .lparen :: _ => throw (.unresolvable expr)
  | .id name :: rest =>
    match _hdefined : macros.get? name with
    | some text =>
      if _hseen : name ∈ seen then throw (.unresolvable expr)
      else do
        let v ← evalConstExpr text (name :: seen)
        pure (v, rest)
    | none => throw (.unresolvable expr)
  | _ => throw (.unresolvable expr)
termination_by ((unseen macros seen).length, 0, tokens.length, 0)
decreasing_by
  · exact .right _ (.right _ (.left _ _ (Nat.lt_succ_self _)))
  · exact .left _ _ (length_unseen_lt _hdefined _hseen)

def binary (expr : Text) (seen : List Text) (level : ℕ) (tokens : List (ExprToken F)) :
    Eval (Value F × List (ExprToken F)) :=
  -- `level === PREC.length`, for no call has a level behind the last one
  if PREC.length ≤ level then unary expr seen tokens
  else do
    let (v, rest) ← binary expr seen (level + 1) tokens
    if rest.length < tokens.length then binaryLoop expr seen level v rest else .loops
termination_by ((unseen macros seen).length, 0, tokens.length, 2 + (PREC.length - level))
decreasing_by
  · exact .right _ (.right _ (.right _ (by omega)))
  · exact .right _ (.right _ (.right _ (by omega)))
  · rename_i hfewer
    exact .right _ (.right _ (.left _ _ hfewer))

/-- `while (peek() && …)` -/
def binaryLoop (expr : Text) (seen : List Text) (level : ℕ) (v : Value F) (tokens : List (ExprToken F)) :
    Eval (Value F × List (ExprToken F)) :=
  match tokens with
  | .op op :: rest =>
    if op ∈ PREC.getD level [] then do
      let (w, rest') ← binary expr seen (level + 1) rest
      let v ← arith N expr v w op
      if rest'.length < rest.length then binaryLoop expr seen level v rest' else .loops
    else pure (v, tokens)
  | _ => pure (v, tokens)
termination_by ((unseen macros seen).length, 0, tokens.length, 0)
decreasing_by
  · exact .right _ (.right _ (.left _ _ (Nat.lt_succ_self _)))
  · rename_i hfewer
    exact .right _ (.right _ (.left _ _ (Nat.lt_succ_of_lt hfewer)))

end

end

/-! ### It comes to an end -/

/-- The computation throws, or it has a result with the property. -/
def Ends {α : Type} (x : Eval α) (p : α → Prop) : Prop := (∃ e, x = throw e) ∨ ∃ a, p a ∧ x = pure a

namespace Ends

variable {α β : Type} {p : α → Prop} {q : β → Prop}

theorem throw (e : EvalError) : Ends (MonadExcept.throw e : Eval α) p := .inl ⟨e, rfl⟩

theorem pure {a : α} (h : p a) : Ends (Pure.pure a : Eval α) p := .inr ⟨a, h, rfl⟩

theorem bind {x : Eval α} {f : α → Eval β} (hx : Ends x p) (hf : ∀ a, p a → Ends (f a) q) : Ends (x >>= f) q := by
  rcases hx with ⟨e, rfl⟩ | ⟨a, ha, rfl⟩
  · exact .inl ⟨e, rfl⟩
  · rw [pure_bind]
    exact hf a ha

theorem mono {p' : α → Prop} {x : Eval α} (h : Ends x p) (himp : ∀ a, p a → p' a) : Ends x p' :=
  h.imp_right fun ⟨a, ha, hx⟩ => ⟨a, himp a ha, hx⟩

end Ends

section

variable {F : Type} {N : FloatOps F} {macros : Dict Text Text}

theorem ends_arith (expr : Text) (a b : Value F) (op : Op) : Ends (arith N expr a b op) fun _ => True := by
  unfold arith
  split
  · split
    case h_4 | h_5 =>
      split
      · exact .throw _
      · exact .pure trivial
    case h_11 => exact .throw _
    all_goals exact .pure trivial
  · split
    case h_5 => exact .throw _
    all_goals exact .pure trivial

/-- The functions come to an end on fewer tokens, and the macros that are not seen are evaluated to an end. -/
structure EndsBelow (N : FloatOps F) (macros : Dict Text Text) (expr : Text) (seen : List Text) (bound : ℕ) : Prop where
  unary : ∀ tokens : List (ExprToken F), tokens.length < bound →
    Ends (unary N macros expr seen tokens) fun r => r.2.length < tokens.length
  binary : ∀ (tokens : List (ExprToken F)) (level : ℕ), tokens.length < bound → level ≤ PREC.length →
    Ends (binary N macros expr seen level tokens) fun r => r.2.length < tokens.length
  replacement : ∀ name text, macros.get? name = some text → name ∉ seen →
    Ends (evalConstExpr N macros text (name :: seen)) fun _ => True

variable {expr : Text} {seen : List Text} {bound : ℕ}

theorem EndsBelow.primary (h : EndsBelow N macros expr seen bound) {tokens : List (ExprToken F)}
    (hlength : tokens.length ≤ bound) :
    Ends (primary N macros expr seen tokens) fun r => r.2.length < tokens.length := by
  rw [ParamCatalog.primary.eq_def]
  split
  · exact .pure (by simp)
  · rename_i tokens
    rw [List.length_cons] at hlength
    refine (h.binary tokens 0 (by omega) (by decide)).bind fun r hr => ?_
    obtain ⟨v, rest⟩ := r
    dsimp only at hr ⊢
    split
    · refine .pure ?_
      rw [List.length_cons] at hr ⊢
      dsimp only
      omega
    · exact .throw _
  · exact .throw _
  · rename_i name rest _
    split
    · rename_i text hdefined
      split
      · exact .throw _
      · rename_i hseen
        exact (h.replacement name text hdefined hseen).bind fun v _ => .pure (by simp)
    · exact .throw _
  · exact .throw _

theorem EndsBelow.unary' (h : EndsBelow N macros expr seen bound) {tokens : List (ExprToken F)}
    (hlength : tokens.length ≤ bound) :
    Ends (ParamCatalog.unary N macros expr seen tokens) fun r => r.2.length < tokens.length := by
  rw [ParamCatalog.unary.eq_def]
  split
  · rename_i kind behind hcast
    have hlt := length_castAhead hcast
    refine (h.unary behind (by omega)).bind fun r hr => ?_
    obtain ⟨v, rest⟩ := r
    dsimp only at hr ⊢
    split
    · split
      · exact .pure (hr.trans hlt)
      · exact .throw _
    · exact .pure (hr.trans hlt)
    · exact .pure (hr.trans hlt)
  · split
    · rename_i tokens _ _
      rw [List.length_cons] at hlength ⊢
      refine (h.unary tokens (by omega)).bind fun r hr => ?_
      obtain ⟨v, rest⟩ := r
      dsimp only at hr ⊢
      split
      · exact .pure (Nat.lt_succ_of_lt hr)
      · exact .pure (Nat.lt_succ_of_lt hr)
    · rename_i tokens _ _
      rw [List.length_cons] at hlength ⊢
      exact (h.unary tokens (by omega)).mono fun r hr => Nat.lt_succ_of_lt hr
    · rename_i tokens _ _
      rw [List.length_cons] at hlength ⊢
      refine (h.unary tokens (by omega)).bind fun r hr => ?_
      obtain ⟨v, rest⟩ := r
      dsimp only at hr ⊢
      split
      · exact .throw _
      · exact .pure (Nat.lt_succ_of_lt hr)
    · exact h.primary hlength

theorem EndsBelow.binaryLoop (h : EndsBelow N macros expr seen bound) {level : ℕ} (hlevel : level < PREC.length)
    (v : Value F) {tokens : List (ExprToken F)} (hlength : tokens.length ≤ bound) :
    Ends (binaryLoop N macros expr seen level v tokens) fun r => r.2.length ≤ tokens.length := by
  induction hn : tokens.length using Nat.strong_induction_on generalizing tokens v with
  | h n ih =>
    rw [ParamCatalog.binaryLoop.eq_def]
    split
    · rename_i op rest
      rw [List.length_cons] at hlength hn
      split
      · refine (h.binary rest (level + 1) (by omega) hlevel).bind fun r hr => ?_
        obtain ⟨w, rest'⟩ := r
        dsimp only at hr ⊢
        refine (ends_arith expr v w op).bind fun v _ => ?_
        rw [if_pos hr]
        exact (ih rest'.length (by omega) v (by omega) rfl).mono fun r hr' => by omega
      · exact .pure (by rw [List.length_cons]; exact hn.le)
    · exact .pure hn.le

theorem EndsBelow.binary' (h : EndsBelow N macros expr seen bound) {tokens : List (ExprToken F)}
    (hlength : tokens.length ≤ bound) {level : ℕ} (hlevel : level ≤ PREC.length) :
    Ends (ParamCatalog.binary N macros expr seen level tokens) fun r => r.2.length < tokens.length := by
  obtain ⟨k, hk⟩ := Nat.exists_eq_add_of_le hlevel
  induction k generalizing level with
  | zero =>
    rw [ParamCatalog.binary, if_pos (by omega)]
    exact h.unary' hlength
  | succ k ih =>
    rw [ParamCatalog.binary, if_neg (by omega)]
    refine (ih (by omega) (by omega)).bind fun r hr => ?_
    obtain ⟨v, rest⟩ := r
    dsimp only at hr ⊢
    rw [if_pos hr]
    exact (h.binaryLoop (by omega) v (by omega)).mono fun r hr' => hr'.trans_lt hr

theorem endsBelow (expr : Text) (seen : List Text) (bound : ℕ)
    (h : ∀ name text, macros.get? name = some text → name ∉ seen →
      Ends (evalConstExpr N macros text (name :: seen)) fun _ => True) : EndsBelow N macros expr seen bound := by
  induction bound with
  | zero => exact ⟨nofun, nofun, h⟩
  | succ bound ih =>
    exact ⟨fun tokens hlength => ih.unary' (Nat.le_of_lt_succ hlength),
      fun tokens level hlength hlevel => ih.binary' (Nat.le_of_lt_succ hlength) hlevel, h⟩

/-- The evaluation comes to an end for every text and every table of macros. -/
theorem ends_evalConstExpr (N : FloatOps F) (macros : Dict Text Text) (expr : Text) (seen : List Text) :
    Ends (evalConstExpr N macros expr seen) fun _ => True := by
  induction hn : (unseen macros seen).length using Nat.strong_induction_on generalizing expr seen with
  | h n ih =>
    have hreplacement : ∀ name text, macros.get? name = some text → name ∉ seen →
        Ends (evalConstExpr N macros text (name :: seen)) fun _ => True := by
      intro name text hdefined hseen
      exact ih _ (hn ▸ length_unseen_lt hdefined hseen) text (name :: seen) rfl
    rw [evalConstExpr]
    split
    · exact .throw _
    · exact .throw _
    · rename_i tokens _ _
      have hbelow := endsBelow expr seen tokens.length hreplacement
      refine (hbelow.binary' le_rfl (Nat.zero_le _)).bind fun r _ => ?_
      obtain ⟨v, rest⟩ := r
      dsimp only
      split
      · exact .pure trivial
      · exact .throw _

theorem ends_binary (N : FloatOps F) (macros : Dict Text Text) (expr : Text) (seen : List Text) {level : ℕ}
    (hlevel : level ≤ PREC.length) (tokens : List (ExprToken F)) :
    Ends (binary N macros expr seen level tokens) fun r => r.2.length < tokens.length :=
  (endsBelow expr seen tokens.length fun _ text _ _ => ends_evalConstExpr N macros text _).binary' le_rfl hlevel

/-! ### What the functions do

The tokens that are left are always fewer. -/

theorem unary_eq (N : FloatOps F) (macros : Dict Text Text) (expr : Text) (seen : List Text)
    (tokens : List (ExprToken F)) : unary N macros expr seen tokens =
    match castAhead tokens with
    | some (kind, behind) => do
      let (v, rest) ← unary N macros expr seen behind
      match kind, v with
      | .int, .f x =>
        match N.truncate x with
        | some i => pure (.i i, rest)
        | none => throw .rangeError
      | .int, .i x => pure (.i x, rest)
      | .float, v => pure (.f (toF N v), rest)
    | none =>
      match tokens with
      | .op .minus :: tokens => do
        let (v, rest) ← unary N macros expr seen tokens
        match v with
        | .f x => pure (.f (N.neg x), rest)
        | .i x => pure (.i (-x), rest)
      | .op .plus :: tokens => unary N macros expr seen tokens
      | .op .tilde :: tokens => do
        let (v, rest) ← unary N macros expr seen tokens
        match v with
        | .f _ => throw (.unresolvable expr)
        | .i x => pure (.i (-x - 1), rest)
      | tokens => primary N macros expr seen tokens := by
  rw [ParamCatalog.unary.eq_def]
  split
  · rename_i hcast
    rw [hcast]
  · split
    · rename_i hcast
      rw [hcast]
    · rename_i hcast
      rw [hcast]
    · rename_i hcast
      rw [hcast]
    · rename_i hcast _ _ hminus hplus htilde
      rw [hcast]
      dsimp only
      split
      · exact (hminus _ hcast rfl .rfl).elim
      · exact (hplus _ hcast rfl .rfl).elim
      · exact (htilde _ hcast rfl .rfl).elim
      · rfl

theorem primary_eq (N : FloatOps F) (macros : Dict Text Text) (expr : Text) (seen : List Text)
    (tokens : List (ExprToken F)) : primary N macros expr seen tokens =
    match tokens with
    | .num v :: rest => pure (v, rest)
    | .op .lparen :: tokens => do
      let (v, rest) ← binary N macros expr seen 0 tokens
      match rest with
      | .op .rparen :: rest => pure (v, rest)
      | _ => throw (.unresolvable expr)
    | .id _ :: .op .lparen :: _ => throw (.unresolvable expr)
    | .id name :: rest =>
      match macros.get? name with
      | some text =>
        if name ∈ seen then throw (.unresolvable expr)
        else do
          let v ← evalConstExpr N macros text (name :: seen)
          pure (v, rest)
      | none => throw (.unresolvable expr)
    | _ => throw (.unresolvable expr) := by
  rw [ParamCatalog.primary.eq_def]
  split
  · rfl
  · rfl
  · rfl
  · split
    · rename_i hdefined
      rw [hdefined]
      rfl
    · rename_i hdefined
      rw [hdefined]
  · rfl

theorem primary_name (N : FloatOps F) (macros : Dict Text Text) (expr : Text) (seen : List Text) (name : Text)
    {rest : List (ExprToken F)} (hrest : ∀ us, rest ≠ .op .lparen :: us) :
    primary N macros expr seen (.id name :: rest) =
      match macros.get? name with
      | some text =>
        if name ∈ seen then throw (.unresolvable expr)
        else do
          let v ← evalConstExpr N macros text (name :: seen)
          pure (v, rest)
      | none => throw (.unresolvable expr) := by
  rw [primary_eq]
  split
  · rename_i heq
    cases heq
  · rename_i heq
    cases heq
  · rename_i heq
    cases heq
    exact absurd rfl (hrest _)
  · rename_i heq
    cases heq
    rfl
  · rename_i hother
    exact absurd rfl (hother name rest)

theorem binary_eq (N : FloatOps F) (macros : Dict Text Text) (expr : Text) (seen : List Text) {level : ℕ}
    (hlevel : level ≤ PREC.length) (tokens : List (ExprToken F)) : binary N macros expr seen level tokens =
    if level = PREC.length then unary N macros expr seen tokens
    else binary N macros expr seen (level + 1) tokens >>= fun (v, rest) =>
      binaryLoop N macros expr seen level v rest := by
  rw [ParamCatalog.binary]
  by_cases hlast : level = PREC.length
  · rw [if_pos hlast.ge, if_pos hlast]
  · rw [if_neg (by omega), if_neg hlast]
    have hlevel' : level + 1 ≤ PREC.length := by omega
    rcases ends_binary N macros expr seen hlevel' tokens with ⟨err, h⟩ | ⟨⟨v, rest⟩, hfewer, h⟩
    · rw [h]
      rfl
    · rw [h, pure_bind, pure_bind]
      exact if_pos hfewer

theorem binaryLoop_eq (N : FloatOps F) (macros : Dict Text Text) (expr : Text) (seen : List Text) (level : ℕ) (v : Value F)
    (tokens : List (ExprToken F)) : binaryLoop N macros expr seen level v tokens =
    match tokens with
    | .op op :: rest =>
      if op ∈ PREC.getD level [] then do
        let (w, rest) ← binary N macros expr seen (level + 1) rest
        let v ← arith N expr v w op
        binaryLoop N macros expr seen level v rest
      else pure (v, tokens)
    | _ => pure (v, tokens) := by
  rw [ParamCatalog.binaryLoop.eq_def]
  split
  · rename_i op rest
    dsimp only
    split
    · rename_i hop
      have hlevel : level + 1 ≤ PREC.length := by
        by_contra hge
        rw [List.getD_eq_default _ _ (by omega)] at hop
        cases hop
      rcases ends_binary N macros expr seen hlevel rest with ⟨e, h⟩ | ⟨⟨w, rest'⟩, hfewer, h⟩
      · rw [h]
        rfl
      · rw [h, pure_bind, pure_bind]
        dsimp only
        congr 1
        funext v
        exact if_pos hfewer
    · rfl
  · rfl

end

end CubridWebManager.ParamCatalog
