import CubridWebManager.ParamCatalog.ConstTokens

/-!
# The values of constant expressions

`evalConstExpr` evaluates the replacement text of a macro on its own and takes the digits of an octal literal for
decimal ones, and its integers have no types.  So it gives the value that C gives, or refuses a cast to a type that is
not listed, where every replacement text is a subexpression of the expanded expression (`Reads`) and no type changes a
value (`Unchanged`): `evalConstExpr_agrees`.
-/

namespace CubridWebManager.ParamCatalog

open CConstant

/-! ### The conditions -/

/-- The tokens are an expression of the level, in which a macro stands for a subexpression of its own.  The flag says that
the names of all casts are listed. -/
inductive Reads (macros : Text → Option Text) : Bool → List Text → ℕ → List Token → Expr → Prop
  | literal (seen : List Text) (l : Literal) : Reads macros true seen 7 [.literal l] (.literal l)
  /-- A single name in the parentheses is not the name of a type. -/
  | paren {listed : Bool} {seen : List Text} {ts : List Token} {e : Expr}
      (hname : ∀ n, ts = [.id n] → n.text ∉ INT_TYPES ∧ n.text ∉ FLOAT_TYPES)
      (h : Reads macros listed seen 0 ts e) :
      Reads macros listed seen 7 (.op .lparen :: ts ++ [.op .rparen]) e
  | cast {listed : Bool} {seen : List Text} {names names' : List Name} {ts : List Token} {e : Expr}
      (hnames : names ≠ []) (hnames' : names' ≠ []) (htypes : ∀ n ∈ names, n.text ∈ INT_TYPES)
      (hexpands : Expands macros seen (names.map Token.id) (names'.map Token.id)) (h : Reads macros listed seen 6 ts e) :
      Reads macros listed seen 6 (.op .lparen :: names.map Token.id ++ .op .rparen :: ts) (.cast (names'.map Name.text) e)
  /-- A cast to a type that is not listed. -/
  | unlisted {listed : Bool} {seen : List Text} {names names' : List Name} {ts : List Token} {e : Expr}
      (hnames : names ≠ []) (hnames' : names' ≠ []) (hint : ¬ ∀ n ∈ names, n.text ∈ INT_TYPES)
      (hfloat : ¬ ∀ n ∈ names, n.text ∈ FLOAT_TYPES)
      (hexpands : Expands macros seen (names.map Token.id) (names'.map Token.id)) (h : Reads macros listed seen 6 ts e) :
      Reads macros false seen 6 (.op .lparen :: names.map Token.id ++ .op .rparen :: ts) (.cast (names'.map Name.text) e)
  | unary {listed : Bool} {seen : List Text} {o : Op} {ts : List Token} {e : Expr} (ho : isUnary o = true)
      (h : Reads macros listed seen 6 ts e) : Reads macros listed seen 6 (.op o :: ts) (.unary o e)
  | binary {listed listed' : Bool} {seen : List Text} {level : ℕ} {o : Op} {ops : List Op} {ts ts' : List Token}
      {e e' : Expr} (hops : levels[level]? = some ops) (ho : o ∈ ops) (h : Reads macros listed seen level ts e)
      (h' : Reads macros listed' seen (level + 1) ts' e') :
      Reads macros (listed && listed') seen level (ts ++ .op o :: ts') (.binary o e e')
  | lift {listed : Bool} {seen : List Text} {level : ℕ} {ts : List Token} {e : Expr} (hlevel : level < 7)
      (h : Reads macros listed seen (level + 1) ts e) : Reads macros listed seen level ts e
  | replace {listed : Bool} {seen : List Text} {level : ℕ} {n : Name} {text : Text} {ts : List Token} {e : Expr}
      (hdefined : macros n.text = some text) (hseen : n.text ∉ seen) (hspells : Spells text ts)
      (h : Reads macros listed (n.text :: seen) level ts e) : Reads macros listed seen level [.id n] e

/-- No type changes a value on the way to the value of the expression: a conversion and an operation of unsigned numbers
do not wrap around, and `~` is of signed numbers.  An octal literal has the value that its digits have as decimal
ones. -/
def Unchanged (typeOf : List Text → Option CType) : Expr → Prop
  | .literal l => l.radix = .octal → l.value < 8
  | .cast names e => Unchanged typeOf e ∧ ∀ ty a, typeOf names = some ty → e.value typeOf = some a → ty.Fits a.2
  | .unary o e => Unchanged typeOf e ∧ ∀ a, e.value typeOf = some a →
      (o = .minus → a.1.promote.Fits (-a.2)) ∧ (o = .tilde → a.1.promote.signed = true)
  | .binary o e e' => Unchanged typeOf e ∧ Unchanged typeOf e' ∧
      ∀ a b, e.value typeOf = some a → e'.value typeOf = some b →
        if o.isShift then ∀ r, o.apply a.2 b.2 = some r → a.1.promote.Fits r
        else (a.1.promote.common b.1.promote).Fits a.2 ∧ (a.1.promote.common b.1.promote).Fits b.2 ∧
          ∀ r, o.apply a.2 b.2 = some r → (a.1.promote.common b.1.promote).Fits r

/-! ### What is read is what C reads -/

variable {macros : Text → Option Text} {listed : Bool} {seen : List Text} {level : ℕ} {ts : List Token} {e : Expr}

/-- The reading is the expression that C derives from the expanded tokens. -/
theorem Reads.derives (h : Reads macros listed seen level ts e) :
    ∃ out, Expands macros seen ts out ∧ Derives level out e := by
  induction h with
  | literal seen l => exact ⟨[.literal l], .keep nofun (.nil seen), .literal l⟩
  | paren _ _ ih =>
    obtain ⟨out, hexpands, hderives⟩ := ih
    exact ⟨_, expands_append (expands_append (expands_op .lparen) hexpands) (expands_op .rparen), .paren hderives⟩
  | cast _ hnames' _ hnames _ ih | unlisted _ hnames' _ _ hnames _ ih =>
    obtain ⟨out, hexpands, hderives⟩ := ih
    exact ⟨_, expands_append (expands_append (expands_op .lparen) hnames)
      (expands_append (expands_op .rparen) hexpands), .cast hnames' hderives⟩
  | unary ho _ ih =>
    obtain ⟨out, hexpands, hderives⟩ := ih
    exact ⟨_, expands_append (expands_op _) hexpands, .unary ho hderives⟩
  | binary hops ho _ _ ih ih' =>
    obtain ⟨out, hexpands, hderives⟩ := ih
    obtain ⟨out', hexpands', hderives'⟩ := ih'
    exact ⟨_, expands_append hexpands (expands_append (expands_op _) hexpands'), .binary hops ho hderives hderives'⟩
  | lift hlevel _ ih =>
    obtain ⟨out, hexpands, hderives⟩ := ih
    exact ⟨out, hexpands, .lift hlevel hderives⟩
  | replace hdefined hseen hspells _ ih =>
    obtain ⟨out, hexpands, hderives⟩ := ih
    exact ⟨out ++ [], .replace hdefined hseen hspells hexpands (.nil _), by rwa [List.append_nil]⟩

theorem Reads.ne_nil (h : Reads macros listed seen level ts e) : ts ≠ [] := by
  induction h with
  | literal | paren | cast | unlisted | unary | replace => exact List.cons_ne_nil _ _
  | binary => exact List.append_ne_nil_of_right_ne_nil _ (List.cons_ne_nil _ _)
  | lift _ _ ih => exact ih

/-- Behind a name comes an operator. -/
theorem Reads.behind_name (h : Reads macros listed seen level ts e) {n : Name} {ts' : List Token}
    (hts : ts = .id n :: ts') :
    ts' = [] ∨ ∃ o us, ts' = .op o :: us ∧ o ≠ .rparen := by
  induction h generalizing ts' with
  | literal | paren | cast | unlisted | unary => cases hts
  | @binary _ _ _ level o ops us us' _ _ hops ho hus _ ih _ =>
    have hne : o ≠ .rparen := by
      rintro rfl
      have hmem : Op.rparen ∈ levels.flatten := List.mem_flatten.2 ⟨ops, List.mem_of_getElem? hops, ho⟩
      exact absurd hmem (by decide)
    obtain ⟨t, us, rfl⟩ := List.exists_cons_of_ne_nil hus.ne_nil
    rw [List.cons_append] at hts
    obtain ⟨rfl, rfl⟩ := List.cons_eq_cons.1 hts
    rcases ih rfl with rfl | ⟨o', vs, rfl, ho'⟩
    · exact .inr ⟨o, us', rfl, hne⟩
    · exact .inr ⟨o', vs ++ .op o :: us', rfl, ho'⟩
  | lift _ _ ih => exact ih hts
  | replace =>
    obtain ⟨-, rfl⟩ := List.cons_eq_cons.1 hts
    exact .inl rfl

/-! ### The values -/

/-- The operation on the integers of JavaScript. -/
def bigArith (o : Op) (x y : ℤ) : Option ℤ :=
  if o.isShift then some (shiftLeft x (if o = .shl then y else -y)) else o.apply x y

def bigUnary (o : Op) (x : ℤ) : Option ℤ :=
  match o with
  | .plus => some x
  | .minus => some (-x)
  | .tilde => some (-x - 1)
  | _ => none

/-- The value without types. -/
def bigValue : Expr → Option ℤ
  | .literal l => some (bigInt (l.radix.start ++ l.digits))
  | .cast _ e => bigValue e
  | .unary o e => do
    let x ← bigValue e
    bigUnary o x
  | .binary o e e' => do
    let x ← bigValue e
    let y ← bigValue e'
    bigArith o x y

theorem CType.convert_of_fits {ty : CType} {v w : ℤ} (h : ty.Fits v) (hw : ty.convert v = some w) : w = v := by
  rw [CType.convert, if_pos h] at hw
  exact (Option.some.inj hw).symm

theorem readDigits_concat (base : ℕ) (digits : Text) (c : Char) :
    readDigits base (digits ++ [c]) = base * readDigits base digits + digitValue c := by
  rw [readDigits, List.foldl_append]
  rfl

theorem readDigits_small {digits : Text} (h : readDigits 8 digits < 8) : readDigits 10 digits = readDigits 8 digits := by
  induction digits using List.reverseRecOn with
  | nil => rfl
  | append_singleton digits c ih =>
    rw [readDigits_concat] at h
    have hzero : readDigits 8 digits = 0 := by omega
    rw [readDigits_concat, readDigits_concat, ih (by omega), hzero]

theorem bigInt_literal (l : Literal) (h : l.radix = .octal → l.value < 8) :
    bigInt (l.radix.start ++ l.digits) = l.value := by
  have hvalid := l.valid
  unfold Literal.value at h ⊢
  cases hradix : l.radix with
  | decimal =>
    rw [hradix] at hvalid
    have hhex : isHex l.digits = false := by
      unfold isHex
      split
      · rename_i hdigits
        rw [hdigits] at hvalid
        exact absurd rfl hvalid.2.1
      · rfl
    rw [Radix.start, List.nil_append, bigInt, hhex, if_neg Bool.false_ne_true]
    rfl
  | octal =>
    rw [hradix] at hvalid
    have hhex : isHex ('0' :: l.digits) = false := by
      unfold isHex
      split
      · rename_i x t heq
        obtain ⟨-, hdigits⟩ := List.cons_eq_cons.1 heq
        have hx := isOctalDigit_iff.1 (hvalid x (by simp [hdigits]))
        simp only [Bool.or_eq_false_iff, decide_eq_false_iff_not, char_eq_iff]
        change ¬ x.toNat = 120 ∧ ¬ x.toNat = 88
        omega
      · rfl
    have hsmall : readDigits 8 l.digits < 8 := by
      have hlt := h hradix
      rw [hradix] at hlt
      exact_mod_cast hlt
    have hzero : readDigits 10 ('0' :: l.digits) = readDigits 10 l.digits := rfl
    rw [Radix.start, List.cons_append, List.nil_append, bigInt, hhex, if_neg Bool.false_ne_true, hzero, readDigits_small hsmall]
    rfl
  | hex mark =>
    rw [hradix] at hvalid
    have hhex : isHex ('0' :: mark :: l.digits) = true := by
      rcases hvalid.1 with rfl | rfl <;> rfl
    rw [Radix.start, List.cons_append, List.cons_append, List.nil_append, bigInt, if_pos hhex]
    rfl

theorem bigArith_of_apply {o : Op} {x y r : ℤ} (hy : o.isShift = true → 0 ≤ y) (h : o.apply x y = some r) :
    bigArith o x y = some r := by
  unfold bigArith
  split
  · rename_i hshift
    replace hy := hy hshift
    simp only [Op.isShift, Bool.or_eq_true, decide_eq_true_eq] at hshift
    rcases hshift with rfl | rfl
    · rw [if_pos rfl, shiftLeft, if_pos hy]
      exact h
    · rw [if_neg nofun, shiftLeft]
      split
      · obtain rfl : y = 0 := by omega
        simpa [Op.apply] using h
      · rw [neg_neg]
        exact h
  · exact h

/-- Where no type changes a value, the value that C gives is the one without types. -/
theorem bigValue_of_unchanged {typeOf : List Text → Option CType} {e : Expr} {a : CType × ℤ}
    (h : Unchanged typeOf e) (hvalue : e.value typeOf = some a) : bigValue e = some a.2 := by
  induction e generalizing a with
  | literal l =>
    rw [Expr.value] at hvalue
    obtain ⟨ty, -, rfl⟩ := Option.map_eq_some_iff.1 hvalue
    rw [bigValue, bigInt_literal l h]
  | cast names e ih =>
    rw [Expr.value] at hvalue
    obtain ⟨ty, hty, hvalue⟩ := Option.bind_eq_some_iff.1 hvalue
    obtain ⟨b, hb, hvalue⟩ := Option.bind_eq_some_iff.1 hvalue
    obtain ⟨v, hv, hvalue⟩ := Option.bind_eq_some_iff.1 hvalue
    obtain rfl := Option.some.inj hvalue
    rw [bigValue, ih h.1 hb, CType.convert_of_fits (h.2 ty b hty hb) hv]
  | unary o e ih =>
    rw [Expr.value] at hvalue
    obtain ⟨b, hb, hvalue⟩ := Option.bind_eq_some_iff.1 hvalue
    obtain ⟨hminus, htilde⟩ := h.2 b hb
    rw [bigValue, ih h.1 hb, Option.bind_eq_bind, Option.bind_some]
    unfold Op.evalUnary at hvalue
    dsimp only at hvalue
    split at hvalue
    · obtain rfl := Option.some.inj hvalue
      rfl
    · obtain ⟨v, hv, rfl⟩ := Option.map_eq_some_iff.1 hvalue
      rw [CType.convert_of_fits (hminus rfl) hv]
      rfl
    · obtain rfl := Option.some.inj hvalue
      rw [if_pos (htilde rfl)]
      rfl
    · cases hvalue
  | binary o e e' ih ih' =>
    rw [Expr.value] at hvalue
    obtain ⟨b, hb, hvalue⟩ := Option.bind_eq_some_iff.1 hvalue
    obtain ⟨c, hc, hvalue⟩ := Option.bind_eq_some_iff.1 hvalue
    obtain ⟨he, he', hfits⟩ := h
    have hfits := hfits b c hb hc
    rw [bigValue, ih he hb, ih' he' hc, Option.bind_eq_bind, Option.bind_some, Option.bind_some]
    unfold Op.eval at hvalue
    split at hvalue
    · rename_i hshift
      rw [if_pos hshift] at hfits
      dsimp only at hvalue
      split at hvalue
      · rename_i hcount
        obtain ⟨r, hr, hvalue⟩ := Option.bind_eq_some_iff.1 hvalue
        obtain ⟨v, hv, hvalue⟩ := Option.bind_eq_some_iff.1 hvalue
        obtain rfl := Option.some.inj hvalue
        rw [bigArith_of_apply (fun _ => hcount.1) hr, CType.convert_of_fits (hfits r hr) hv]
      · cases hvalue
    · rename_i hshift
      rw [if_neg hshift] at hfits
      obtain ⟨x, hx, hvalue⟩ := Option.bind_eq_some_iff.1 hvalue
      obtain ⟨y, hy, hvalue⟩ := Option.bind_eq_some_iff.1 hvalue
      obtain ⟨r, hr, hvalue⟩ := Option.bind_eq_some_iff.1 hvalue
      obtain ⟨v, hv, hvalue⟩ := Option.bind_eq_some_iff.1 hvalue
      obtain rfl := Option.some.inj hvalue
      obtain rfl := CType.convert_of_fits hfits.1 hx
      obtain rfl := CType.convert_of_fits hfits.2.1 hy
      rw [bigArith_of_apply (fun h => absurd h hshift) hr, CType.convert_of_fits (hfits.2.2 r hr) hv]

/-! ### The evaluation -/

section

variable {F : Type} {N : FloatOps F} {table : Dict Text Text} {expr : Text} {v : Value F}
  {tokens rest : List (ExprToken F)}

theorem arith_of_bigArith {o : Op} {x y r : ℤ} (h : bigArith o x y = some r) :
    arith N expr (.i x) (.i y) o = pure (.i r) := by
  have happly : ∀ h : o.isShift = false, o.apply x y = some r := fun hshift => by
    rw [bigArith, hshift, if_neg nofun] at h
    exact h
  cases o with
  | shl | shr =>
    obtain rfl := Option.some.inj h
    rfl
  | slash | percent =>
    have happly := happly rfl
    simp only [Op.apply] at happly
    split at happly
    · cases happly
    · rename_i hy
      obtain rfl := Option.some.inj happly
      simp only [arith, if_neg hy]
  | plus | minus | times | bar | amp | caret =>
    obtain rfl := Option.some.inj (happly rfl)
    rfl
  | lparen | rparen | tilde => cases happly rfl

/-- What can stand behind an expression of the level: nothing, a parenthesis, or an operator that binds no more than
those of the level. -/
def Behind (level : ℕ) (rest : List (ExprToken F)) : Prop :=
  ∀ t ∈ rest.head?, t = .op .rparen ∨ ∃ j ≤ level, ∃ o ∈ PREC.getD j [], t = .op o

theorem Behind.nil (level : ℕ) : Behind level ([] : List (ExprToken F)) := nofun

theorem Behind.rparen (level : ℕ) (rest : List (ExprToken F)) : Behind level (.op .rparen :: rest) := by
  rintro _ ⟨⟩
  exact .inl rfl

theorem Behind.mono {level' : ℕ} (h : Behind level rest) (hle : level ≤ level') : Behind level' rest :=
  fun t ht => (h t ht).imp_right fun ⟨j, hj, ho⟩ => ⟨j, hj.trans hle, ho⟩

theorem lt_of_mem_level {j : ℕ} {o : Op} (h : o ∈ PREC.getD j []) : j < PREC.length := by
  by_contra hge
  rw [List.getD_eq_default _ _ (not_lt.1 hge)] at h
  cases h

theorem level_unique {i j : ℕ} {o : Op} (hi : o ∈ PREC.getD i []) (hj : o ∈ PREC.getD j []) : i = j := by
  have hall : ∀ i < PREC.length, ∀ j < PREC.length, ∀ o ∈ PREC.getD i [], o ∈ PREC.getD j [] → i = j := by decide
  exact hall i (lt_of_mem_level hi) j (lt_of_mem_level hj) o hi hj

theorem Behind.min (h : Behind level rest) : Behind (min level PREC.length) rest :=
  fun t ht => (h t ht).imp_right fun ⟨j, hj, o, ho, heq⟩ => ⟨j, le_min hj (lt_of_mem_level ho).le, o, ho, heq⟩

theorem rparen_not_mem (j : ℕ) : Op.rparen ∉ PREC.getD j [] := by
  intro hmem
  have hmem' : Op.rparen ∈ PREC.flatten := by
    cases h : PREC[j]? with
    | none =>
      rw [List.getD_eq_getElem?_getD, h] at hmem
      cases hmem
    | some ops =>
      rw [List.getD_eq_getElem?_getD, h] at hmem
      exact List.mem_flatten.2 ⟨ops, List.mem_of_getElem? h, hmem⟩
  exact absurd hmem' (by decide)

/-- The loop of a level stops at what stands behind an expression of a lower one. -/
theorem binaryLoop_stop {j : ℕ} (h : Behind level rest) (hj : level < j) :
    binaryLoop N table expr seen j v rest = pure (v, rest) := by
  rw [binaryLoop_eq]
  split
  · rename_i o rest'
    rw [if_neg]
    intro ho
    rcases h (.op o) rfl with heq | ⟨i, hi, o', ho', heq⟩
    · cases heq
      exact rparen_not_mem j ho
    · cases heq
      have hsame := level_unique ho ho'
      omega
  · rfl

/-- Down to the level behind whose expressions the rest can stand. -/
theorem binary_down (h : unary N table expr seen tokens = pure (v, rest)) (hrest : Behind level rest) {j : ℕ}
    (hj : level ≤ j) (hj' : j ≤ PREC.length) :
    binary N table expr seen j tokens = binaryLoop N table expr seen j v rest := by
  obtain ⟨k, hk⟩ := Nat.exists_eq_add_of_le hj'
  induction k generalizing j with
  | zero =>
    rw [Nat.add_zero] at hk
    subst hk
    rw [binary_eq _ _ _ _ le_rfl, if_pos rfl, h, binaryLoop_eq]
    split
    · rw [if_neg]
      exact List.not_mem_nil
    · rfl
  | succ k ih =>
    rw [binary_eq _ _ _ _ (by omega), if_neg (by omega), ih (by omega) (by omega) (by omega),
      binaryLoop_stop hrest (by omega), pure_bind]

/-- The evaluation of the tokens of a reading, up to the loop of its level. -/
def Evaluates (N : FloatOps F) (table : Dict Text Text) (seen : List Text) (level : ℕ) (ts : List Token) (x : ℤ) :
    Prop :=
  ∀ (expr : Text) (rest : List (ExprToken F)), Behind level rest →
    binary N table expr seen (min level PREC.length) (ts.map tokenOf ++ rest) =
      binaryLoop N table expr seen (min level PREC.length) (.i x) rest

theorem Evaluates.of_unary {x : ℤ} (h : ∀ (expr : Text) (rest : List (ExprToken F)), Behind level rest →
    unary N table expr seen (ts.map tokenOf ++ rest) = pure (.i x, rest)) : Evaluates N table seen level ts x :=
  fun expr rest hrest => binary_down (h expr rest hrest) hrest.min le_rfl (min_le_right _ _)

/-- At the level of the operators in front and above. -/
theorem Evaluates.unary {x : ℤ} (h : Evaluates N table seen level ts x) (hlevel : PREC.length ≤ level) (expr : Text)
    (hrest : Behind level rest) :
    ParamCatalog.unary N table expr seen (ts.map tokenOf ++ rest) = pure (.i x, rest) := by
  have heval := h expr rest hrest
  rw [min_eq_right hlevel, binary_eq _ _ _ _ le_rfl, if_pos rfl] at heval
  rw [heval, binaryLoop_eq]
  split
  · rw [if_neg]
    exact List.not_mem_nil
  · rfl

/-- At the level of an operator. -/
theorem Evaluates.binary {x : ℤ} (h : Evaluates N table seen level ts x) (hlevel : level < PREC.length) (expr : Text)
    (hrest : Behind level rest) :
    ParamCatalog.binary N table expr seen level (ts.map tokenOf ++ rest) =
      binaryLoop N table expr seen level (.i x) rest := by
  have heval := h expr rest hrest
  rwa [min_eq_left hlevel.le] at heval

theorem Evaluates.lift {x : ℤ} (h : Evaluates N table seen (level + 1) ts x) : Evaluates N table seen level ts x := by
  intro expr rest hrest
  rcases Nat.lt_or_ge level PREC.length with hlt | hge
  · have hmin : min (level + 1) PREC.length = level + 1 := min_eq_left hlt
    have heval := h expr rest (hrest.mono (Nat.le_succ level))
    rw [hmin] at heval
    rw [min_eq_left hlt.le, binary_eq _ _ _ _ hlt.le, if_neg hlt.ne, heval, binaryLoop_stop hrest (Nat.lt_succ_self level),
      pure_bind]
  · have heval := h expr rest (hrest.mono (Nat.le_succ level))
    rw [min_eq_right (hge.trans (Nat.le_succ level))] at heval
    rwa [min_eq_right hge]

/-- Nothing is left of a reading that is the whole text. -/
theorem Evaluates.whole {x : ℤ} (h : Evaluates N table seen level ts x) (expr : Text) :
    ParamCatalog.binary (F := F) N table expr seen 0 (ts.map tokenOf) = pure (.i x, []) := by
  induction level with
  | zero =>
    have heval := h expr [] (Behind.nil 0)
    rw [List.append_nil] at heval
    rw [show min 0 PREC.length = 0 from rfl] at heval
    rw [heval, binaryLoop_eq]
  | succ level ih => exact ih h.lift

theorem castAhead_of_ne {t : ExprToken F} (h : t ≠ .op .lparen) : castAhead (t :: rest) = none := by
  cases t with
  | num v => rfl
  | id name => rfl
  | op o => cases o <;> first | rfl | exact absurd rfl h

theorem leadingNames_map (names : List Name) (hrest : ∀ name us, rest ≠ .id name :: us) :
    leadingNames (names.map (tokenOf ∘ Token.id) ++ rest) = (names.map Name.text, rest) := by
  induction names with
  | nil =>
    rw [List.map_nil, List.nil_append, List.map_nil]
    cases rest with
    | nil => rfl
    | cons t us =>
      cases t with
      | num v => rfl
      | op o => rfl
      | id name => exact absurd rfl (hrest name us)
  | cons n names ih =>
    rw [List.map_cons, List.cons_append]
    simp only [Function.comp_apply, tokenOf, leadingNames]
    rw [ih]
    rfl

theorem castAhead_cast {names : List Name} (hnames : names ≠ []) (htypes : ∀ n ∈ names, n.text ∈ INT_TYPES) :
    castAhead (.op .lparen :: (names.map (tokenOf ∘ Token.id) ++ .op .rparen :: rest)) = some (.int, rest) := by
  obtain ⟨n, names', rfl⟩ := List.exists_cons_of_ne_nil hnames
  have hall : ((n :: names').map Name.text).all (· ∈ INT_TYPES) = true := by
    rw [List.all_eq_true]
    intro t ht
    obtain ⟨n', hn', rfl⟩ := List.mem_map.1 ht
    exact decide_eq_true (htypes n' hn')
  rw [castAhead, leadingNames_map _ fun _ _ h => by cases h]
  simp only [List.map_cons] at hall ⊢
  rw [if_pos hall]

/-- Parentheses around an expression are no cast. -/
theorem castAhead_paren {macros : Text → Option Text} (h : Reads macros listed seen level ts e)
    (hname : ∀ n, ts = [.id n] → n.text ∉ INT_TYPES ∧ n.text ∉ FLOAT_TYPES) :
    castAhead (.op .lparen :: (ts.map tokenOf ++ .op .rparen :: rest)) = none := by
  obtain ⟨t, us, rfl⟩ := List.exists_cons_of_ne_nil h.ne_nil
  cases t with
  | literal l => rfl
  | op o => rfl
  | id n =>
    rcases h.behind_name rfl with rfl | ⟨o, vs, rfl, ho⟩
    · obtain ⟨hint, hfloat⟩ := hname n rfl
      simp [castAhead, leadingNames, tokenOf, hint, hfloat]
    · cases o with
      | rparen => exact absurd rfl ho
      | _ => rfl

theorem unary_primary {t : ExprToken F} (hcast : castAhead (t :: rest) = none) (ht : ∀ o, t = .op o → o = .lparen) :
    ParamCatalog.unary N table expr seen (t :: rest) = primary N table expr seen (t :: rest) := by
  rw [unary_eq, hcast]
  cases t with
  | num v => rfl
  | id name => rfl
  | op o =>
    obtain rfl := ht o rfl
    rfl

theorem unary_num (v : Value F) (rest : List (ExprToken F)) :
    ParamCatalog.unary N table expr seen (.num v :: rest) = pure (v, rest) := by
  rw [unary_primary rfl (fun _ h => by cases h), primary_eq]

theorem unary_paren {x : ℤ} (hcast : castAhead (.op .lparen :: (tokens ++ .op .rparen :: rest)) = none)
    (h : ParamCatalog.binary N table expr seen 0 (tokens ++ .op .rparen :: rest) = pure (.i x, .op .rparen :: rest)) :
    ParamCatalog.unary N table expr seen (.op .lparen :: (tokens ++ .op .rparen :: rest)) = pure (.i x, rest) := by
  rw [unary_primary hcast (fun o ho => by cases ho; rfl), primary_eq]
  dsimp only
  rw [h, pure_bind]

theorem unary_cast {x : ℤ} {behind : List (ExprToken F)} (hcast : castAhead tokens = some (.int, behind))
    (h : ParamCatalog.unary N table expr seen behind = pure (.i x, rest)) :
    ParamCatalog.unary N table expr seen tokens = pure (.i x, rest) := by
  rw [unary_eq, hcast]
  dsimp only
  rw [h, pure_bind]

theorem unary_op {o : Op} {x y : ℤ} (hy : bigUnary o x = some y)
    (h : ParamCatalog.unary N table expr seen tokens = pure (.i x, rest)) :
    ParamCatalog.unary N table expr seen (.op o :: tokens) = pure (.i y, rest) := by
  have hcast : castAhead (.op o :: tokens) = none := by
    refine castAhead_of_ne fun heq => ?_
    cases heq
    cases hy
  rw [unary_eq, hcast]
  cases o with
  | plus =>
    obtain rfl := Option.some.inj hy
    exact h
  | minus | tilde =>
    obtain rfl := Option.some.inj hy
    dsimp only
    rw [h, pure_bind]
  | _ => cases hy

theorem unary_name {n text : Text} {x : ℤ} (hdefined : table.get? n = some text) (hseen : n ∉ seen)
    (hrest : ∀ us, rest ≠ .op .lparen :: us) (h : evalConstExpr N table text (n :: seen) = pure (.i x)) :
    ParamCatalog.unary N table expr seen (.id n :: rest) = pure (.i x, rest) := by
  rw [unary_primary rfl (fun _ h => by cases h), primary_name _ _ _ _ _ hrest, hdefined]
  dsimp only
  rw [if_neg hseen, h, pure_bind]

/-- A text that is evaluated to its end. -/
theorem evalConstExpr_of_binary {text : Text} {us : List Token} {x : ℤ} (hspells : Spells text us) (hne : us ≠ [])
    (h : ParamCatalog.binary (F := F) N table text seen 0 (us.map tokenOf) = pure (.i x, [])) :
    evalConstExpr N table text seen = pure (.i x) := by
  obtain ⟨t, us, rfl⟩ := List.exists_cons_of_ne_nil hne
  rw [evalConstExpr, tokenizeExpr_of_spells hspells, List.map_cons]
  dsimp only
  rw [← List.map_cons, h, pure_bind]

theorem Behind.ne_lparen (h : Behind level rest) (us : List (ExprToken F)) : rest ≠ .op .lparen :: us := by
  rintro rfl
  rcases h _ rfl with heq | ⟨j, -, o, ho, heq⟩
  · cases heq
  · cases heq
    have hall : ∀ j < PREC.length, Op.lparen ∉ PREC.getD j [] := by decide
    exact hall j (lt_of_mem_level ho) ho

theorem Evaluates.operation {o : Op} {ops : List Op} {ts' : List Token} {x y z : ℤ}
    (h : Evaluates N table seen level ts y) (hops : levels[level]? = some ops) (ho : o ∈ ops)
    (h' : Evaluates N table seen (level + 1) ts' z) (hx : bigArith o y z = some x) :
    Evaluates N table seen level (ts ++ .op o :: ts') x := by
  have hlevel : level < PREC.length := (List.getElem?_eq_some_iff.1 hops).1
  have hmem : o ∈ PREC.getD level [] := by
    rw [List.getD_eq_getElem?_getD, show PREC[level]? = some ops from hops]
    exact ho
  intro expr rest hrest
  have hshape : (ts ++ Token.op o :: ts').map tokenOf ++ rest =
      ts.map (tokenOf (F := F)) ++ .op o :: (ts'.map tokenOf ++ rest) := by
    simp [tokenOf]
  have hbehind : Behind level (.op o :: (ts'.map (tokenOf (F := F)) ++ rest)) := by
    rintro _ ⟨⟩
    exact .inr ⟨level, le_rfl, o, hmem, rfl⟩
  have hright : ParamCatalog.binary N table expr seen (level + 1) (ts'.map tokenOf ++ rest) = pure (.i z, rest) := by
    have heval := h' expr rest (hrest.mono (Nat.le_succ level))
    have hmin : min (level + 1) PREC.length = level + 1 := min_eq_left hlevel
    rwa [hmin, binaryLoop_stop hrest (Nat.lt_succ_self level)] at heval
  rw [hshape, min_eq_left hlevel.le, h.binary hlevel expr hbehind, binaryLoop_eq]
  dsimp only
  rw [if_pos hmem, hright, pure_bind]
  dsimp only
  rw [arith_of_bigArith hx, pure_bind]

theorem Evaluates.name {n : Name} {text : Text} {x : ℤ} (hdefined : table.get? n.text = some text)
    (hseen : n.text ∉ seen) (heval : evalConstExpr N table text (n.text :: seen) = pure (.i x)) :
    Evaluates N table seen level [.id n] x :=
  .of_unary fun _ _ hrest => unary_name hdefined hseen hrest.ne_lparen heval

/-! ### The casts that are refused -/

/-- The computation throws `Unresolvable`. -/
def Unresolved {α : Type} (m : Eval α) : Prop := ∃ text, m = throw (.unresolvable text)

theorem Unresolved.bind {α β : Type} {m : Eval α} (h : Unresolved m) (f : α → Eval β) : Unresolved (m >>= f) := by
  obtain ⟨text, rfl⟩ := h
  exact ⟨text, rfl⟩

theorem unresolved_throw {α : Type} (text : Text) : Unresolved (throw (.unresolvable text) : Eval α) := ⟨text, rfl⟩

/-- The evaluation of the tokens throws, whatever stands behind them. -/
def Refuses (N : FloatOps F) (table : Dict Text Text) (seen : List Text) (level : ℕ) (ts : List Token) : Prop :=
  ∀ (expr : Text) (rest : List (ExprToken F)),
    Unresolved (binary N table expr seen (min level PREC.length) (ts.map tokenOf ++ rest))

theorem unresolved_binary (h : Unresolved (ParamCatalog.unary N table expr seen tokens)) {j : ℕ}
    (hj : j ≤ PREC.length) :
    Unresolved (ParamCatalog.binary N table expr seen j tokens) := by
  obtain ⟨k, hk⟩ := Nat.exists_eq_add_of_le hj
  induction k generalizing j with
  | zero =>
    rw [Nat.add_zero] at hk
    subst hk
    rwa [binary_eq _ _ _ _ le_rfl, if_pos rfl]
  | succ k ih =>
    rw [binary_eq _ _ _ _ (by omega), if_neg (by omega)]
    exact (ih (by omega) (by omega)).bind _

theorem Refuses.of_unary (h : ∀ (expr : Text) (rest : List (ExprToken F)),
    Unresolved (ParamCatalog.unary N table expr seen (ts.map tokenOf ++ rest))) : Refuses N table seen level ts :=
  fun expr rest => unresolved_binary (h expr rest) (min_le_right _ _)

theorem Refuses.lift (h : Refuses N table seen (level + 1) ts) : Refuses N table seen level ts := by
  intro expr rest
  have hrefused := h expr rest
  rcases Nat.lt_or_ge level PREC.length with hlt | hge
  · have hmin : min (level + 1) PREC.length = level + 1 := min_eq_left hlt
    rw [hmin] at hrefused
    rw [min_eq_left hlt.le, binary_eq _ _ _ _ hlt.le, if_neg hlt.ne]
    exact hrefused.bind _
  · rw [min_eq_right (hge.trans (Nat.le_succ level))] at hrefused
    rwa [min_eq_right hge]

theorem Refuses.whole (h : Refuses N table seen level ts) (expr : Text) (rest : List (ExprToken F)) :
    Unresolved (ParamCatalog.binary N table expr seen 0 (ts.map tokenOf ++ rest)) := by
  induction level with
  | zero => exact h expr rest
  | succ level ih => exact ih h.lift

/-- At the level of the operators in front and above. -/
theorem Refuses.unary (h : Refuses N table seen level ts) (hlevel : PREC.length ≤ level) (expr : Text)
    (rest : List (ExprToken F)) : Unresolved (ParamCatalog.unary N table expr seen (ts.map tokenOf ++ rest)) := by
  have hrefused := h expr rest
  rwa [min_eq_right hlevel, binary_eq _ _ _ _ le_rfl, if_pos rfl] at hrefused

theorem Refuses.left (h : Refuses N table seen level ts) (o : Op) (ts' : List Token) :
    Refuses N table seen level (ts ++ .op o :: ts') := by
  intro expr rest
  rw [List.map_append, List.append_assoc]
  exact h expr _

theorem Refuses.right {o : Op} {ops : List Op} {ts' : List Token} {y : ℤ} (h : Evaluates N table seen level ts y)
    (hops : levels[level]? = some ops) (ho : o ∈ ops) (h' : Refuses N table seen (level + 1) ts') :
    Refuses N table seen level (ts ++ .op o :: ts') := by
  have hlevel : level < PREC.length := (List.getElem?_eq_some_iff.1 hops).1
  have hmem : o ∈ PREC.getD level [] := by
    rw [List.getD_eq_getElem?_getD, show PREC[level]? = some ops from hops]
    exact ho
  intro expr rest
  have hshape : (ts ++ Token.op o :: ts').map tokenOf ++ rest =
      ts.map (tokenOf (F := F)) ++ .op o :: (ts'.map tokenOf ++ rest) := by
    simp [tokenOf]
  have hbehind : Behind level (.op o :: (ts'.map (tokenOf (F := F)) ++ rest)) := by
    rintro _ ⟨⟩
    exact .inr ⟨level, le_rfl, o, hmem, rfl⟩
  have hright := h' expr rest
  rw [show min (level + 1) PREC.length = level + 1 from min_eq_left hlevel] at hright
  rw [hshape, min_eq_left hlevel.le, h.binary hlevel expr hbehind, binaryLoop_eq]
  dsimp only
  rw [if_pos hmem]
  exact hright.bind _

theorem Refuses.paren (hcast : ∀ rest : List (ExprToken F),
      castAhead (.op .lparen :: (ts.map tokenOf ++ .op .rparen :: rest)) = none)
    (h : Refuses N table seen level ts) : Refuses N table seen 7 (.op .lparen :: ts ++ [.op .rparen]) := by
  refine .of_unary fun expr rest => ?_
  have hshape : (Token.op .lparen :: ts ++ [Token.op .rparen]).map tokenOf ++ rest =
      .op .lparen :: (ts.map (tokenOf (F := F)) ++ .op .rparen :: rest) := by
    simp [tokenOf]
  rw [hshape, unary_primary (hcast rest) (fun o ho => by cases ho; rfl), primary_eq]
  exact (h.whole expr _).bind _

theorem unresolved_evalConstExpr {text : Text} {us : List Token} (hspells : Spells text us)
    (h : us ≠ [] → Unresolved (ParamCatalog.binary N table text seen 0 (us.map tokenOf))) :
    Unresolved (evalConstExpr N table text seen) := by
  rw [evalConstExpr, tokenizeExpr_of_spells hspells]
  cases us with
  | nil => exact unresolved_throw text
  | cons u us => exact (h (List.cons_ne_nil _ _)).bind _

theorem unresolved_name {n : Text}
    (h : ∀ text, table.get? n = some text → n ∉ seen → Unresolved (evalConstExpr N table text (n :: seen)))
    (expr : Text) (rest : List (ExprToken F)) :
    Unresolved (ParamCatalog.unary N table expr seen (.id n :: rest)) := by
  rw [unary_primary rfl (fun _ heq => by cases heq), primary_eq]
  split
  · rename_i heq
    cases heq
  · rename_i heq
    cases heq
  · exact unresolved_throw expr
  · rename_i heq
    cases heq
    split
    · rename_i text hdefined
      split
      · exact unresolved_throw expr
      · rename_i hseen
        exact (h text hdefined hseen).bind _
    · exact unresolved_throw expr
  · exact unresolved_throw expr

theorem Refuses.name {n : Name} {text : Text} {us : List Token} {k : ℕ} (hdefined : table.get? n.text = some text)
    (hspells : Spells text us) (h : Refuses N table (n.text :: seen) k us) : Refuses N table seen level [.id n] := by
  refine .of_unary fun expr rest => unresolved_name (fun text' hdefined' _ => ?_) expr rest
  obtain rfl : text = text' := Option.some.inj (hdefined.symm.trans hdefined')
  refine unresolved_evalConstExpr hspells fun _ => ?_
  have hwhole := h.whole text []
  rwa [List.append_nil] at hwhole

/-- Names that stand for names of types are no expression. -/
theorem unresolved_of_names {out : List Token} (h : Expands table.get? seen ts out) (hne : ts ≠ [])
    (hout : ∀ t ∈ out, ∃ n, t = .id n) (expr : Text) (rest : List (ExprToken F)) :
    Unresolved (ParamCatalog.unary N table expr seen (ts.map tokenOf ++ rest)) := by
  induction h generalizing expr rest with
  | nil => exact absurd rfl hne
  | @keep seen t ts out ht _ _ =>
    obtain ⟨n, rfl⟩ := hout t List.mem_cons_self
    refine unresolved_name (fun text hdefined hseen => ?_) expr _
    rcases ht n rfl with hnone | hmem
    · rw [hnone] at hdefined
      cases hdefined
    · exact absurd hmem hseen
  | @replace seen n text inside inner ts out hdefined _ hspells _ _ ih _ =>
    refine unresolved_name (fun text' hdefined' _ => ?_) expr _
    obtain rfl : text = text' := Option.some.inj (hdefined.symm.trans hdefined')
    refine unresolved_evalConstExpr hspells fun hinside => ?_
    have hrefused := ih hinside (fun t ht => hout t (List.mem_append_left _ ht)) text []
    rw [List.append_nil] at hrefused
    exact unresolved_binary hrefused (Nat.zero_le _)

theorem castAhead_unlisted {names : List Name} (hint : ¬ ∀ n ∈ names, n.text ∈ INT_TYPES)
    (hfloat : ¬ ∀ n ∈ names, n.text ∈ FLOAT_TYPES) :
    castAhead (.op .lparen :: (names.map (tokenOf ∘ Token.id) ++ .op .rparen :: rest)) = none := by
  have hall : ∀ l : List Text, (¬ ∀ n ∈ names, n.text ∈ l) → ¬ (names.map Name.text).all (· ∈ l) = true := by
    intro l hl h
    refine hl fun n hn => ?_
    exact of_decide_eq_true (List.all_eq_true.1 h _ (List.mem_map_of_mem hn))
  rw [castAhead, leadingNames_map _ fun _ _ h => by cases h]
  cases hnames : names.map Name.text with
  | nil => rfl
  | cons n names' =>
    dsimp only
    rw [← hnames, if_neg (hall _ hint), if_neg (hall _ hfloat)]

/-- The value of a reading is found if the names of all casts are listed, and otherwise it is refused. -/
theorem Reads.evaluates {x : ℤ} (h : Reads table.get? listed seen level ts e) (hvalue : bigValue e = some x) :
    (listed = true → Evaluates N table seen level ts x) ∧ (listed = false → Refuses N table seen level ts) := by
  induction h generalizing x with
  | literal seen l =>
    obtain rfl := Option.some.inj hvalue
    exact ⟨fun _ => .of_unary fun expr rest _ => unary_num _ rest, by simp⟩
  | @paren listed seen ts e hname h ih =>
    refine ⟨fun hlisted => .of_unary fun expr rest _ => ?_, fun hlisted =>
      .paren (fun rest => castAhead_paren h hname) ((ih hvalue).2 hlisted)⟩
    have hinside := ((ih hvalue).1 hlisted).binary (by decide) expr (.rparen 0 rest)
    rw [binaryLoop_eq] at hinside
    dsimp only at hinside
    rw [if_neg (rparen_not_mem 0)] at hinside
    have hshape : (Token.op .lparen :: ts ++ [Token.op .rparen]).map tokenOf ++ rest =
        .op .lparen :: (ts.map (tokenOf (F := F)) ++ .op .rparen :: rest) := by
      simp [tokenOf]
    rw [hshape]
    exact unary_paren (castAhead_paren h hname) hinside
  | @cast listed seen names names' ts e hnames _ htypes _ _ ih =>
    have hshape : ∀ rest, (Token.op .lparen :: names.map Token.id ++ Token.op .rparen :: ts).map tokenOf ++ rest =
        .op .lparen :: (names.map (tokenOf (F := F) ∘ Token.id) ++ .op .rparen :: (ts.map tokenOf ++ rest)) := by
      simp [tokenOf]
    constructor
    · refine fun hlisted => .of_unary fun expr rest hrest => ?_
      rw [hshape]
      exact unary_cast (castAhead_cast hnames htypes) (((ih hvalue).1 hlisted).unary (by decide) expr hrest)
    · refine fun hlisted => .of_unary fun expr rest => ?_
      rw [hshape, unary_eq, castAhead_cast hnames htypes]
      exact (((ih hvalue).2 hlisted).unary (by decide) expr rest).bind _
  | @unlisted listed seen names names' ts e hnames _ hint hfloat hexpands _ _ =>
    refine ⟨by simp, fun _ => .of_unary fun expr rest => ?_⟩
    have hshape : (Token.op .lparen :: names.map Token.id ++ Token.op .rparen :: ts).map tokenOf ++ rest =
        .op .lparen :: (names.map (tokenOf (F := F) ∘ Token.id) ++ .op .rparen :: (ts.map tokenOf ++ rest)) := by
      simp [tokenOf]
    have hnone := unresolved_of_names (N := N) hexpands (by simpa using hnames) (by simp) expr
      (.op .rparen :: (ts.map tokenOf ++ rest))
    rw [List.map_map] at hnone
    rw [hshape, unary_primary (castAhead_unlisted hint hfloat) (fun o ho => by cases ho; rfl), primary_eq]
    exact (unresolved_binary hnone (Nat.zero_le _)).bind _
  | @unary listed seen o ts e ho _ ih =>
    obtain ⟨y, hy, hx⟩ := Option.bind_eq_some_iff.1 hvalue
    refine ⟨fun hlisted => .of_unary fun expr rest hrest =>
      unary_op hx (((ih hy).1 hlisted).unary (by decide) expr hrest), fun hlisted => .of_unary fun expr rest => ?_⟩
    have hrefused := ((ih hy).2 hlisted).unary (by decide) expr rest
    have hcast : castAhead (.op o :: (ts.map (tokenOf (F := F)) ++ rest)) = none := by
      refine castAhead_of_ne fun heq => ?_
      cases heq
      cases ho
    rw [List.map_cons, List.cons_append, tokenOf, unary_eq, hcast]
    cases o with
    | plus => exact hrefused
    | minus | tilde => exact hrefused.bind _
    | _ => cases ho
  | @binary listed listed' _ _ _ _ _ _ _ _ hops ho _ _ ih ih' =>
    obtain ⟨y, hy, hvalue⟩ := Option.bind_eq_some_iff.1 hvalue
    obtain ⟨z, hz, hx⟩ := Option.bind_eq_some_iff.1 hvalue
    obtain ⟨hvalues, hrefused⟩ := ih hy
    obtain ⟨hvalues', hrefused'⟩ := ih' hz
    cases listed with
    | false => exact ⟨by simp, fun _ => (hrefused rfl).left _ _⟩
    | true =>
      cases listed' with
      | false => exact ⟨by simp, fun _ => .right (hvalues rfl) hops ho (hrefused' rfl)⟩
      | true => exact ⟨fun _ => (hvalues rfl).operation hops ho (hvalues' rfl) hx, by simp⟩
  | lift _ _ ih => exact ⟨fun hlisted => ((ih hvalue).1 hlisted).lift, fun hlisted => ((ih hvalue).2 hlisted).lift⟩
  | @replace listed seen level n text ts e hdefined hseen hspells h ih =>
    exact ⟨fun hlisted =>
      .name hdefined hseen (evalConstExpr_of_binary hspells h.ne_nil (((ih hvalue).1 hlisted).whole text)),
      fun hlisted => .name hdefined hspells ((ih hvalue).2 hlisted)⟩

end

/-- No number has a point. -/
def noFloats : FloatOps Unit where
  ofText _ := ()
  ofBigInt _ := ()
  add _ _ := ()
  sub _ _ := ()
  mul _ _ := ()
  div _ _ := ()
  neg _ := ()
  truncate _ := none

def digitLiteral (c : Char) (hdigit : c.isDigit = true) (hzero : c ≠ '0') : Literal :=
  ⟨.decimal, [c], ⟨[], false, .none, nofun⟩, List.cons_ne_nil _ _, by simpa using hzero, by simpa using hdigit⟩

def one : Literal := digitLiteral '1' rfl (by decide)

def two : Literal := digitLiteral '2' rfl (by decide)

def three : Literal := digitLiteral '3' rfl (by decide)

def nameA : Name := ⟨['A'], 'A', [], rfl, .inl rfl, nofun⟩

theorem apart_digitLiteral {c : Char} (hdigit : c.isDigit = true) (hzero : c ≠ '0') {next : Text}
    (h : ∀ d ∈ next.head?, isWordChar d = false ∧ d ≠ '.') :
    (Token.literal (digitLiteral c hdigit hzero)).Apart next := by
  intro d hd
  refine ⟨(h d hd).1, (h d hd).2, fun _ e he => ?_⟩
  obtain rfl : c = e := Option.some.inj he
  constructor
  · rintro rfl
    cases hdigit
  · rintro rfl
    cases hdigit

theorem spells_sum : Spells ['1', '+', '2'] [.literal one, .op .plus, .literal two] := by
  refine spells_cons (t := .literal one) (apart_digitLiteral _ _ ?_) (spells_cons (t := .op .plus) ?_
    (spells_cons (t := .literal two) nofun (.nil nofun)))
  · rintro c ⟨⟩
    decide
  · rintro c ⟨⟩
    decide

theorem spells_product : Spells ['A', '*', '3'] [.id nameA, .op .times, .literal three] := by
  refine spells_cons (t := .id nameA) ?_ (spells_cons (t := .op .times) ?_
    (spells_cons (t := .literal three) nofun (.nil nofun)))
  · rintro c ⟨⟩
    decide
  · rintro c ⟨⟩
    decide

theorem spells_parens : Spells ['(', '1', '+', '2', ')']
    [.op .lparen, .literal one, .op .plus, .literal two, .op .rparen] := by
  refine spells_cons (t := .op .lparen) ?_ (spells_cons (t := .literal one) (apart_digitLiteral _ _ ?_)
    (spells_cons (t := .op .plus) ?_ (spells_cons (t := .literal two) (apart_digitLiteral _ _ ?_)
      (spells_cons (t := .op .rparen) nofun (.nil nofun)))))
  all_goals
    rintro c ⟨⟩
    decide

theorem Reads.lower (h : Reads macros listed seen level ts e) (hlevel : level ≤ 7) {j : ℕ} (hj : j ≤ level) :
    Reads macros listed seen j ts e := by
  induction level, hj using Nat.le_induction with
  | base => exact h
  | succ level _ ih => exact ih (.lift (by omega) h) (by omega)

def sum : Expr := .binary .plus (.literal one) (.literal two)

theorem reads_sum (macros : Text → Option Text) (seen : List Text) :
    Reads macros true seen 4 ([.literal one] ++ .op .plus :: [.literal two]) sum :=
  .binary rfl (by decide) ((Reads.literal seen one).lower le_rfl (by decide))
    ((Reads.literal seen two).lower le_rfl (by decide))

end CubridWebManager.ParamCatalog
