import CubridWebManager.Lib.Trim
import CubridWebManager.ParamCatalog.ConstExpr

/-!
# The tokens of a constant expression

On a text that C reads as tokens, `tokenizeExpr` finds the same tokens (`tokenizeExpr_of_spells`).  It reads the digits of
an octal literal as decimal ones.
-/

namespace CubridWebManager.ParamCatalog

open CConstant

/-- What the token becomes. -/
def tokenOf {F : Type} : Token → ExprToken F
  | .literal l => .num (.i (bigInt (l.radix.start ++ l.digits)))
  | .id n => .id n.text
  | .op o => .op o

/-! ### Characters -/

variable {c d : Char}

theorem isDigit_iff : c.isDigit = true ↔ 48 ≤ c.toNat ∧ c.toNat ≤ 57 := by
  have hval : c.val.toNat = c.toNat := rfl
  simp only [Char.isDigit, Bool.and_eq_true, decide_eq_true_eq, ge_iff_le, UInt32.le_iff_toNat_le, hval]
  rfl

theorem isAlpha_iff : c.isAlpha = true ↔ (65 ≤ c.toNat ∧ c.toNat ≤ 90) ∨ (97 ≤ c.toNat ∧ c.toNat ≤ 122) := by
  have hval : c.val.toNat = c.toNat := rfl
  unfold Char.isAlpha Char.isUpper Char.isLower
  simp only [Bool.or_eq_true, Bool.and_eq_true, decide_eq_true_eq, ge_iff_le, UInt32.le_iff_toNat_le, hval]
  rfl

theorem isHexDigit_iff : isHexDigit c = true ↔
    ((48 ≤ c.toNat ∧ c.toNat ≤ 57) ∨ (97 ≤ c.toNat ∧ c.toNat ≤ 102)) ∨ (65 ≤ c.toNat ∧ c.toNat ≤ 70) := by
  simp only [isHexDigit, Bool.or_eq_true, Bool.and_eq_true, decide_eq_true_eq, isDigit_iff]
  rfl

theorem isOctalDigit_iff : isOctalDigit c = true ↔ 48 ≤ c.toNat ∧ c.toNat ≤ 55 := by
  simp only [isOctalDigit, Bool.and_eq_true, decide_eq_true_eq]
  rfl

theorem char_eq_iff : c = d ↔ c.toNat = d.toNat := by
  refine ⟨congrArg _, fun h => ?_⟩
  rw [← Char.ofNat_toNat c, h, Char.ofNat_toNat]

theorem isWordChar_iff : isWordChar c = true ↔
    (((65 ≤ c.toNat ∧ c.toNat ≤ 90) ∨ (97 ≤ c.toNat ∧ c.toNat ≤ 122)) ∨ (48 ≤ c.toNat ∧ c.toNat ≤ 57)) ∨
      c.toNat = 95 := by
  simp only [isWordChar, Char.isAlphanum, Bool.or_eq_true, isAlpha_iff, isDigit_iff, decide_eq_true_eq, char_eq_iff]
  rfl

theorem isSpace_of_isWordChar (h : isWordChar c = true) : Text.isSpace c = false := by
  rw [isWordChar_iff] at h
  rw [← Bool.not_eq_true]
  simp only [Text.isSpace, Bool.or_eq_true, Bool.and_eq_true, decide_eq_true_eq, beq_iff_eq]
  omega

theorem isSpace_of_isBlank (h : isBlank c = true) : Text.isSpace c = true := by
  simp only [isBlank, Bool.or_eq_true, decide_eq_true_eq] at h
  rcases h with (((rfl | rfl) | rfl) | rfl) | rfl <;> decide

theorem isDigit_of_isOctalDigit (h : isOctalDigit c = true) : c.isDigit = true := by
  rw [isOctalDigit_iff] at h
  exact isDigit_iff.2 ⟨h.1, by omega⟩

theorem isWordChar_of_isHexDigit (h : isHexDigit c = true) : isWordChar c = true := by
  rw [isHexDigit_iff] at h
  rw [isWordChar_iff]
  omega

theorem isHexDigit_of_isDigit (h : c.isDigit = true) : isHexDigit c = true := by
  rw [isDigit_iff] at h
  exact isHexDigit_iff.2 (.inl (.inl h))

/-- A character that ends the digits of a literal, and begins no exponent. -/
structure EndsDigits (c : Char) : Prop where
  hex : isHexDigit c = false
  point : c ≠ '.'
  mark : c ≠ 'x' ∧ c ≠ 'X'

theorem EndsDigits.digit (h : EndsDigits c) : c.isDigit = false := by
  cases hc : c.isDigit with
  | false => rfl
  | true =>
    have hhex := h.hex
    rw [isHexDigit_of_isDigit hc] at hhex
    cases hhex

theorem EndsDigits.exponent (h : EndsDigits c) : c ≠ 'e' ∧ c ≠ 'E' := by
  constructor
  · rintro rfl
    exact absurd h.hex (by decide)
  · rintro rfl
    exact absurd h.hex (by decide)

theorem endsDigits_of_suffix (h : c = 'u' ∨ c = 'U' ∨ c = 'l' ∨ c = 'L') : EndsDigits c := by
  rcases h with rfl | rfl | rfl | rfl <;> exact ⟨by decide, by decide, by decide⟩

theorem endsDigits_of_apart (hword : isWordChar c = false) (hpoint : c ≠ '.') : EndsDigits c := by
  refine ⟨?_, hpoint, ?_, ?_⟩
  · cases hc : isHexDigit c with
    | false => rfl
    | true =>
      rw [isWordChar_of_isHexDigit hc] at hword
      cases hword
  · rintro rfl
    exact absurd hword (by decide)
  · rintro rfl
    exact absurd hword (by decide)

/-! ### Literals -/

variable {t rest : Text}

theorem exponentLexeme_of_head (h : ∀ c ∈ rest.head?, EndsDigits c) : exponentLexeme rest = none := by
  cases rest with
  | nil => rfl
  | cons c rest =>
    obtain ⟨he, hE⟩ := (h c rfl).exponent
    rw [exponentLexeme, if_neg (by simp [he, hE])]

theorem hexLexeme_of_head (h : ∀ c ∈ t.head?, c.isDigit = false) : hexLexeme t = none := by
  unfold hexLexeme
  split
  · exact absurd (h '0' rfl) (by decide)
  · rfl

theorem numberLexeme_of_head (h : ∀ c ∈ t.head?, c.isDigit = false ∧ c ≠ '.') : numberLexeme t = none := by
  have hdigit : ∀ c ∈ t.head?, c.isDigit = false := fun c hc => (h c hc).1
  have htake : t.takeWhile Char.isDigit = [] := Trim.takeWhile_append_all (w := []) nofun hdigit
  have hpoint : pointLexeme t = none := by
    unfold pointLexeme
    rw [Trim.dropWhile_of_head hdigit]
    split
    · exact absurd rfl (h '.' rfl).2
    · rfl
  unfold numberLexeme
  rw [hexLexeme_of_head hdigit, hpoint]
  dsimp only
  rw [digitsLexeme, if_pos htake]

theorem numberLexeme_of_digits {digits : Text} (hne : digits ≠ []) (hdigits : ∀ c ∈ digits, c.isDigit = true)
    (hrest : ∀ c ∈ rest.head?, EndsDigits c) : numberLexeme (digits ++ rest) = some (digits, rest) := by
  have hstop : ∀ c ∈ rest.head?, c.isDigit = false := fun c hc => (hrest c hc).digit
  have htake : (digits ++ rest).takeWhile Char.isDigit = digits := Trim.takeWhile_append_all hdigits hstop
  have hdrop : (digits ++ rest).dropWhile Char.isDigit = rest := by
    rw [Trim.dropWhile_append_all hdigits, Trim.dropWhile_of_head hstop]
  have hhex : hexLexeme (digits ++ rest) = none := by
    unfold hexLexeme
    split
    · rename_i x t heq
      rw [if_neg]
      rintro ⟨hx, -⟩
      match digits, hne with
      | [_], _ =>
        obtain ⟨-, rfl⟩ := List.cons_eq_cons.1 heq
        exact hx.elim (hrest x rfl).mark.1 (hrest x rfl).mark.2
      | _ :: d :: _, _ =>
        obtain ⟨-, heq⟩ := List.cons_eq_cons.1 heq
        obtain ⟨rfl, -⟩ := List.cons_eq_cons.1 heq
        have hdigit := hdigits d (by simp)
        rcases hx with rfl | rfl <;> exact absurd hdigit (by decide)
    · rfl
  have hpoint : pointLexeme (digits ++ rest) = none := by
    unfold pointLexeme
    rw [hdrop]
    split
    · exact absurd rfl (hrest '.' rfl).point
    · rfl
  unfold numberLexeme
  rw [hhex, hpoint]
  dsimp only
  rw [digitsLexeme, htake, if_neg hne, hdrop]
  dsimp only
  rw [exponentLexeme_of_head hrest]

theorem numberLexeme_of_hex {mark : Char} {digits : Text} (h : (Radix.hex mark).Takes digits)
    (hrest : ∀ c ∈ rest.head?, EndsDigits c) :
    numberLexeme ('0' :: mark :: digits ++ rest) = some ('0' :: mark :: digits, rest) := by
  obtain ⟨hmark, hne, hdigits⟩ := h
  have hstop : ∀ c ∈ rest.head?, isHexDigit c = false := fun c hc => (hrest c hc).hex
  have htake : (digits ++ rest).takeWhile isHexDigit = digits := Trim.takeWhile_append_all hdigits hstop
  have hdrop : (digits ++ rest).dropWhile isHexDigit = rest := by
    rw [Trim.dropWhile_append_all hdigits, Trim.dropWhile_of_head hstop]
  unfold numberLexeme
  rw [List.cons_append, List.cons_append, hexLexeme, htake, if_pos ⟨hmark, hne⟩, hdrop]

theorem digits_of_not_hex {l : Literal} (h : ∀ mark, l.radix ≠ .hex mark) :
    l.radix.start ++ l.digits ≠ [] ∧ ∀ c ∈ l.radix.start ++ l.digits, c.isDigit = true := by
  have hvalid := l.valid
  cases hradix : l.radix with
  | decimal =>
    rw [hradix] at hvalid
    exact ⟨hvalid.1, hvalid.2.2⟩
  | octal =>
    rw [hradix] at hvalid
    refine ⟨List.cons_ne_nil _ _, fun c hc => ?_⟩
    rcases List.mem_cons.1 hc with rfl | hc
    · decide
    · exact isDigit_of_isOctalDigit (hvalid c hc)
  | hex mark => exact absurd hradix (h mark)

theorem numberLexeme_literal (l : Literal) (hrest : ∀ c ∈ rest.head?, EndsDigits c) :
    numberLexeme (l.radix.start ++ l.digits ++ rest) = some (l.radix.start ++ l.digits, rest) := by
  by_cases hhex : ∃ mark, l.radix = .hex mark
  · obtain ⟨mark, hradix⟩ := hhex
    have hvalid := l.valid
    rw [hradix] at hvalid
    rw [hradix]
    exact numberLexeme_of_hex hvalid hrest
  · obtain ⟨hne, hdigits⟩ := digits_of_not_hex fun mark hradix => hhex ⟨mark, hradix⟩
    exact numberLexeme_of_digits hne hdigits hrest

theorem isFloat_literal (l : Literal) : isFloat (l.radix.start ++ l.digits) l.suffix.text = false := by
  have hsuffix : (l.suffix.text.any fun c => c = 'f' || c = 'F') = false := by
    rw [List.any_eq_false]
    intro c hc
    rcases l.suffix.letters c hc with rfl | rfl | rfl | rfl <;> decide
  by_cases hhex : ∃ mark, l.radix = .hex mark
  · obtain ⟨mark, hradix⟩ := hhex
    have hvalid := l.valid
    rw [hradix] at hvalid
    have hmark : isHex (l.radix.start ++ l.digits) = true := by
      rw [hradix]
      rcases hvalid.1 with rfl | rfl <;> rfl
    rw [isFloat, hmark]
    rfl
  · obtain ⟨-, hdigits⟩ := digits_of_not_hex fun mark hradix => hhex ⟨mark, hradix⟩
    have hany : ((l.radix.start ++ l.digits).any fun c => c = '.' || c = 'e' || c = 'E') = false := by
      rw [List.any_eq_false]
      intro c hc
      have hdigit := hdigits c hc
      simp only [Bool.or_eq_true, decide_eq_true_eq]
      rintro ((rfl | rfl) | rfl) <;> exact absurd hdigit (by decide)
    rw [isFloat, hany, hsuffix, Bool.or_false, Bool.and_false]

/-! ### Tokens -/

variable {F : Type} {N : FloatOps F}

theorem matchToken_literal (l : Literal) (hapart : (Token.literal l).Apart t) :
    matchToken N (l.text ++ t) = some (tokenOf (.literal l), t) := by
  have hends : ∀ c ∈ (l.suffix.text ++ t).head?, EndsDigits c := by
    intro c hc
    cases hsuffix : l.suffix.text with
    | nil =>
      rw [hsuffix] at hc
      exact endsDigits_of_apart (hapart c hc).1 (hapart c hc).2.1
    | cons d s =>
      rw [hsuffix] at hc
      obtain rfl := Option.some.inj hc
      exact endsDigits_of_suffix (l.suffix.letters d (by simp [hsuffix]))
  have hletters : ∀ c ∈ l.suffix.text, isSuffixLetter c = true := by
    intro c hc
    rcases l.suffix.letters c hc with rfl | rfl | rfl | rfl <;> decide
  have hstop : ∀ c ∈ t.head?, isSuffixLetter c = false := by
    intro c hc
    rw [← Bool.not_eq_true]
    intro hletter
    have hword := (hapart c hc).1
    simp only [isSuffixLetter, Bool.or_eq_true, decide_eq_true_eq] at hletter
    rcases hletter with ((((rfl | rfl) | rfl) | rfl) | rfl) | rfl <;> exact absurd hword (by decide)
  rw [matchToken.eq_def, Literal.text, List.append_assoc, numberLexeme_literal l hends]
  dsimp only
  rw [Trim.takeWhile_append_all hletters hstop, Trim.dropWhile_append_all hletters, Trim.dropWhile_of_head hstop,
    isFloat_literal, if_neg nofun, tokenOf]

theorem matchToken_id (n : Name) (hapart : (Token.id n).Apart t) :
    matchToken N (n.text ++ t) = some (tokenOf (.id n), t) := by
  obtain ⟨c, w, htext, hc, hw⟩ := n.valid
  have hword : ∀ c ∈ n.text, isWordChar c = true := by
    rw [htext]
    intro c' hc'
    rcases List.mem_cons.1 hc' with rfl | hc'
    · rw [isWordChar_iff]
      rcases hc with hc | rfl
      · rw [isAlpha_iff] at hc
        omega
      · decide
    · exact hw c' hc'
  have hnumber : numberLexeme (n.text ++ t) = none := by
    rw [htext]
    refine numberLexeme_of_head fun c' hc' => ?_
    obtain rfl := Option.some.inj hc'
    rcases hc with hc | rfl
    · rw [isAlpha_iff] at hc
      rw [← Bool.not_eq_true, isDigit_iff, Ne, char_eq_iff]
      change _ ∧ c.toNat ≠ 46
      omega
    · decide
  have htake : (n.text ++ t).takeWhile isWordChar = n.text := Trim.takeWhile_append_all hword hapart
  have hdrop : (n.text ++ t).dropWhile isWordChar = t := by
    rw [Trim.dropWhile_append_all hword, Trim.dropWhile_of_head hapart]
  rw [matchToken.eq_def, hnumber, htake, hdrop]
  rw [tokenOf, htext]
  exact if_pos hc

theorem matchToken_op (o : Op) : matchToken N (o.text ++ t) = some (tokenOf (.op o), t) := by
  have hnumber : numberLexeme (o.text ++ t) = none := by
    refine numberLexeme_of_head fun c hc => ?_
    cases o <;> obtain rfl := Option.some.inj hc <;> decide
  rw [matchToken.eq_def, hnumber]
  cases o <;> rfl

theorem matchToken_text (tok : Token) (hapart : tok.Apart t) :
    matchToken N (tok.text ++ t) = some (tokenOf tok, t) := by
  cases tok with
  | literal l => exact matchToken_literal l hapart
  | id n => exact matchToken_id n hapart
  | op o => exact matchToken_op o

theorem head_text (tok : Token) : ∃ c w, tok.text = c :: w ∧ Text.isSpace c = false := by
  cases tok with
  | literal l =>
    by_cases hhex : ∃ mark, l.radix = .hex mark
    · obtain ⟨mark, hradix⟩ := hhex
      exact ⟨'0', mark :: l.digits ++ l.suffix.text, by simp [Token.text, Literal.text, hradix, Radix.start], by decide⟩
    · obtain ⟨hne, hdigits⟩ := digits_of_not_hex fun mark hradix => hhex ⟨mark, hradix⟩
      obtain ⟨c, w, heq⟩ := List.exists_cons_of_ne_nil hne
      refine ⟨c, w ++ l.suffix.text, by rw [Token.text, Literal.text, heq, List.cons_append], ?_⟩
      exact isSpace_of_isWordChar (isWordChar_of_isHexDigit (isHexDigit_of_isDigit (hdigits c (by simp [heq]))))
  | id n =>
    obtain ⟨c, w, htext, hc, -⟩ := n.valid
    refine ⟨c, w, htext, isSpace_of_isWordChar ?_⟩
    rcases hc with hc | rfl
    · rw [isAlpha_iff] at hc
      exact isWordChar_iff.2 (.inl (.inl hc))
    · decide
  | op o => cases o <;> exact ⟨_, _, rfl, by decide⟩

/-- The tokens that C reads are the tokens that the function finds. -/
theorem tokenizeExpr_of_spells {text : Text} {ts : List Token} (h : Spells text ts) :
    tokenizeExpr N text = some (ts.map tokenOf) := by
  induction h with
  | @nil blanks hblanks =>
    have hall : blanks.all Text.isSpace = true := List.all_eq_true.2 fun c hc => isSpace_of_isBlank (hblanks c hc)
    rw [tokenizeExpr, if_pos hall]
    rfl
  | @cons blanks text tok ts hblanks hapart _ ih =>
    obtain ⟨c, w, htext, hc⟩ := head_text tok
    have hspaces : Trim.All Text.isSpace blanks := fun c hc => isSpace_of_isBlank (hblanks c hc)
    have hdrop : (blanks ++ (tok.text ++ text)).dropWhile Text.isSpace = tok.text ++ text := by
      rw [Trim.dropWhile_append_all hspaces, Trim.dropWhile_of_head]
      rw [htext]
      rintro _ ⟨⟩
      exact hc
    have hnot : ¬ (blanks ++ (tok.text ++ text)).all Text.isSpace = true := by
      intro hall
      have hspace := List.all_eq_true.1 hall c (by simp [htext])
      rw [hc] at hspace
      cases hspace
    rw [tokenizeExpr, if_neg hnot]
    split
    · rename_i hnone
      rw [hdrop, matchToken_text tok hapart] at hnone
      cases hnone
    · rename_i tok' rest hsome
      rw [hdrop, matchToken_text tok hapart] at hsome
      cases hsome
      rw [ih]
      rfl

end CubridWebManager.ParamCatalog
