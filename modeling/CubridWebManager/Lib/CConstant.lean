import CubridWebManager.Lib.JsText
import Mathlib.Data.Int.Bitwise

/-!
# Integer constant expressions of C

A constant expression is a tree (`Expr`).  Its value is taken in the types of the operands, after the integer promotions
and the usual arithmetic conversions (`Expr.value`): an unsigned type wraps around, and there is no value where a signed
one overflows or a divisor is zero.  `Derives` is the grammar, on tokens, and `Expands` says what the object-like macros
make of a sequence of tokens.
-/

namespace CConstant

/-! ### Tokens -/

inductive Op
  | shl
  | shr
  | minus
  | plus
  | times
  | slash
  | percent
  | lparen
  | rparen
  | tilde
  | bar
  | amp
  | caret
  deriving DecidableEq

def Op.text : Op → Text
  | shl => ['<', '<']
  | shr => ['>', '>']
  | minus => ['-']
  | plus => ['+']
  | times => ['*']
  | slash => ['/']
  | percent => ['%']
  | lparen => ['(']
  | rparen => [')']
  | tilde => ['~']
  | bar => ['|']
  | amp => ['&']
  | caret => ['^']

inductive Radix
  | decimal
  | octal
  /-- `0x` or `0X` -/
  | hex (mark : Char)
  deriving DecidableEq

def isHexDigit (c : Char) : Bool := c.isDigit || ('a' ≤ c && c ≤ 'f') || ('A' ≤ c && c ≤ 'F')

def isOctalDigit (c : Char) : Bool := '0' ≤ c && c ≤ '7'

/-- The digits that can follow what tells the radix; the 0 of an octal literal tells its radix. -/
def Radix.Takes : Radix → Text → Prop
  | decimal, digits => digits ≠ [] ∧ digits.head? ≠ some '0' ∧ ∀ c ∈ digits, c.isDigit = true
  | octal, digits => ∀ c ∈ digits, isOctalDigit c = true
  | hex mark, digits => (mark = 'x' ∨ mark = 'X') ∧ digits ≠ [] ∧ ∀ c ∈ digits, isHexDigit c = true

def Radix.start : Radix → Text
  | decimal => []
  | octal => ['0']
  | hex mark => ['0', mark]

def Radix.base : Radix → ℕ
  | decimal => 10
  | octal => 8
  | hex _ => 16

def digitValue (c : Char) : ℕ :=
  if c.isDigit then c.toNat - '0'.toNat
  else if 'a' ≤ c ∧ c ≤ 'f' then c.toNat - 'a'.toNat + 10
  else c.toNat - 'A'.toNat + 10

def readDigits (base : ℕ) (digits : Text) : ℕ := digits.foldl (fun n c => base * n + digitValue c) 0

/-- `u`, `l` and `ll` behind a literal. -/
inductive LongSuffix
  | none
  | l
  | ll
  deriving DecidableEq

structure Suffix where
  text : Text
  isUnsigned : Bool
  long : LongSuffix
  letters : ∀ c ∈ text, c = 'u' ∨ c = 'U' ∨ c = 'l' ∨ c = 'L'

structure Literal where
  radix : Radix
  digits : Text
  suffix : Suffix
  valid : radix.Takes digits

def Literal.text (l : Literal) : Text := l.radix.start ++ l.digits ++ l.suffix.text

def Literal.value (l : Literal) : ℤ := readDigits l.radix.base l.digits

def isWordChar (c : Char) : Bool := c.isAlphanum || c = '_'

structure Name where
  text : Text
  valid : ∃ c rest, text = c :: rest ∧ (c.isAlpha = true ∨ c = '_') ∧ ∀ c ∈ rest, isWordChar c = true

inductive Token
  | literal (l : Literal)
  | id (n : Name)
  | op (o : Op)

def Token.text : Token → Text
  | literal l => l.text
  | id n => n.text
  | op o => o.text

def isBlank (c : Char) : Bool := c = ' ' || c = '\t' || c = '\n' || c = '\x0b' || c = '\x0c'

/-- The token is not read on into the text behind it. -/
def Token.Apart : Token → Text → Prop
  | literal l, next => ∀ c ∈ next.head?, isWordChar c = false ∧ c ≠ '.' ∧
      (c = '+' ∨ c = '-' → ∀ e ∈ l.text.getLast?, e ≠ 'e' ∧ e ≠ 'E')
  | id _, next => ∀ c ∈ next.head?, isWordChar c = false
  | op o, next => ∀ c ∈ next.head?,
      (o, c) ∉ [(Op.plus, '+'), (.minus, '-'), (.minus, '>'), (.amp, '&'), (.bar, '|'), (.slash, '/'), (.slash, '*')]

/-- The text is read as these tokens. -/
inductive Spells : Text → List Token → Prop
  | nil {blanks : Text} (hblanks : ∀ c ∈ blanks, isBlank c = true) : Spells blanks []
  | cons {blanks text : Text} {t : Token} {ts : List Token} (hblanks : ∀ c ∈ blanks, isBlank c = true)
      (hapart : t.Apart text) (h : Spells text ts) : Spells (blanks ++ (t.text ++ text)) (t :: ts)

theorem spells_cons {text : Text} {t : Token} {ts : List Token} (hapart : t.Apart text) (h : Spells text ts) :
    Spells (t.text ++ text) (t :: ts) :=
  @Spells.cons [] text t ts nofun hapart h

/-! ### Types -/

structure CType where
  signed : Bool
  width : ℕ
  deriving DecidableEq

namespace CType

def int : CType := ⟨true, 32⟩

def low (ty : CType) : ℤ := if ty.signed then -2 ^ (ty.width - 1) else 0

def high (ty : CType) : ℤ := if ty.signed then 2 ^ (ty.width - 1) else 2 ^ ty.width

/-- The value can be represented in the type. -/
def Fits (ty : CType) (v : ℤ) : Prop := ty.low ≤ v ∧ v < ty.high

instance (ty : CType) (v : ℤ) : Decidable (ty.Fits v) := inferInstanceAs (Decidable (_ ∧ _))

/-- The value becomes one of the type: an unsigned type wraps around, and for a signed type there is no such value. -/
def convert (ty : CType) (v : ℤ) : Option ℤ :=
  if ty.Fits v then some v else if ty.signed then none else some (v % 2 ^ ty.width)

/-- The integer promotions. -/
def promote (ty : CType) : CType := if ty.width < 32 then int else ty

/-- The usual arithmetic conversions of promoted types. -/
def common (a b : CType) : CType :=
  if a.signed = b.signed then if a.width < b.width then b else a
  else if a.signed then if b.width < a.width then a else b
  else if a.width < b.width then b else a

end CType

/-- The types that a literal can have: the first one that represents its value is taken. -/
def Literal.types (l : Literal) : List CType :=
  let widths := if l.suffix.long = .none then [32, 64] else [64]
  let signs := if l.suffix.isUnsigned then [false] else if l.radix = .decimal then [true] else [true, false]
  widths.flatMap fun width => signs.map fun signed => ⟨signed, width⟩

/-! ### Expressions -/

inductive Expr
  | literal (l : Literal)
  | cast (names : List Text) (e : Expr)
  | unary (o : Op) (e : Expr)
  | binary (o : Op) (e e' : Expr)

/-- The operation on the values; a shift count has been looked at before. -/
def Op.apply (o : Op) (x y : ℤ) : Option ℤ :=
  match o with
  | .plus => some (x + y)
  | .minus => some (x - y)
  | .times => some (x * y)
  | .slash => if y = 0 then none else some (x.tdiv y)
  | .percent => if y = 0 then none else some (x.tmod y)
  | .shl => some (x * 2 ^ y.toNat)
  | .shr => some (x / 2 ^ y.toNat)
  | .bar => some (Int.lor x y)
  | .amp => some (Int.land x y)
  | .caret => some (Int.xor x y)
  | _ => none

def Op.isShift (o : Op) : Bool := o = .shl || o = .shr

/-- An operation on two operands with their types. -/
def Op.eval (o : Op) (a b : CType × ℤ) : Option (CType × ℤ) :=
  if o.isShift then do
    let ty := a.1.promote
    if 0 ≤ b.2 ∧ b.2 < ty.width ∧ (o = .shl → 0 ≤ a.2) then
      let r ← o.apply a.2 b.2
      let v ← ty.convert r
      some (ty, v)
    else none
  else do
    let ty := a.1.promote.common b.1.promote
    let x ← ty.convert a.2
    let y ← ty.convert b.2
    let r ← o.apply x y
    let v ← ty.convert r
    some (ty, v)

def Op.evalUnary (o : Op) (a : CType × ℤ) : Option (CType × ℤ) :=
  let ty := a.1.promote
  match o with
  | .plus => some (ty, a.2)
  | .minus => (ty.convert (-a.2)).map fun v => (ty, v)
  | .tilde => some (ty, if ty.signed then -a.2 - 1 else 2 ^ ty.width - 1 - a.2)
  | _ => none

/-- The type and the value of the expression, on a platform with these integer types. -/
def Expr.value (typeOf : List Text → Option CType) : Expr → Option (CType × ℤ)
  | .literal l => (l.types.find? fun ty => ty.Fits l.value).map fun ty => (ty, l.value)
  | .cast names e => do
    let ty ← typeOf names
    let a ← e.value typeOf
    let v ← ty.convert a.2
    some (ty, v)
  | .unary o e => do
    let a ← e.value typeOf
    o.evalUnary a
  | .binary o e e' => do
    let a ← e.value typeOf
    let b ← e'.value typeOf
    o.eval a b

/-! ### The grammar -/

/-- The binary operators, those that bind least first. -/
def levels : List (List Op) := [[.bar], [.caret], [.amp], [.shl, .shr], [.plus, .minus], [.times, .slash, .percent]]

def isUnary (o : Op) : Bool := o = .minus || o = .plus || o = .tilde

/-- The tokens are an expression of the level: the levels of the binary operators, then the expressions with an operator
or a cast in front, then those that are a literal or stand in parentheses. -/
inductive Derives : ℕ → List Token → Expr → Prop
  | literal (l : Literal) : Derives 7 [.literal l] (.literal l)
  | paren {ts : List Token} {e : Expr} (h : Derives 0 ts e) : Derives 7 (.op .lparen :: ts ++ [.op .rparen]) e
  | cast {names : List Name} {ts : List Token} {e : Expr} (hnames : names ≠ []) (h : Derives 6 ts e) :
      Derives 6 (.op .lparen :: names.map Token.id ++ .op .rparen :: ts) (.cast (names.map Name.text) e)
  | unary {o : Op} {ts : List Token} {e : Expr} (ho : isUnary o = true) (h : Derives 6 ts e) :
      Derives 6 (.op o :: ts) (.unary o e)
  | binary {level : ℕ} {o : Op} {ops : List Op} {ts ts' : List Token} {e e' : Expr} (hops : levels[level]? = some ops)
      (ho : o ∈ ops) (h : Derives level ts e) (h' : Derives (level + 1) ts' e') :
      Derives level (ts ++ .op o :: ts') (.binary o e e')
  | lift {level : ℕ} {ts : List Token} {e : Expr} (hlevel : level < 7) (h : Derives (level + 1) ts e) : Derives level ts e

theorem Derives.lower {level j : ℕ} {out : List Token} {e : Expr} (h : Derives level out e) (hlevel : level ≤ 7)
    (hj : j ≤ level) : Derives j out e := by
  induction level, hj using Nat.le_induction with
  | base => exact h
  | succ level _ ih => exact ih (.lift (by omega) h) (by omega)

/-! ### Macros -/

/-- What is left of the tokens when the macros are replaced, where those that are replaced already stay. -/
inductive Expands (macros : Text → Option Text) : List Text → List Token → List Token → Prop
  | nil (seen : List Text) : Expands macros seen [] []
  | keep {seen : List Text} {t : Token} {ts out : List Token}
      (ht : ∀ n, t = .id n → macros n.text = none ∨ n.text ∈ seen) (h : Expands macros seen ts out) :
      Expands macros seen (t :: ts) (t :: out)
  | replace {seen : List Text} {n : Name} {text : Text} {inside inner ts out : List Token}
      (hdefined : macros n.text = some text) (hseen : n.text ∉ seen) (hspells : Spells text inside)
      (hinner : Expands macros (n.text :: seen) inside inner) (h : Expands macros seen ts out) :
      Expands macros seen (.id n :: ts) (inner ++ out)

theorem expands_append {macros : Text → Option Text} {seen : List Text} {ts ts' out out' : List Token}
    (h : Expands macros seen ts out) (h' : Expands macros seen ts' out') :
    Expands macros seen (ts ++ ts') (out ++ out') := by
  induction h with
  | nil seen => exact h'
  | keep ht _ ih => exact .keep ht (ih h')
  | replace hdefined hseen hspells hinner _ _ ih =>
    rw [List.append_assoc]
    exact .replace hdefined hseen hspells hinner (ih h')

theorem expands_op {macros : Text → Option Text} {seen : List Text} (o : Op) :
    Expands macros seen [.op o] [.op o] := .keep nofun (.nil seen)

end CConstant
