import Mathlib.Algebra.GroupWithZero.Nat
import Mathlib.Data.List.Induction

/-!
# The tokens of an SQL text

A text is read character by character.  Its tokens are the words, which are what stands between white space, quotes and
comments, and the quoted texts: literals in single quotes, and names in double quotes, backticks and brackets.  A line
comment, after two dashes or two slashes, ends with its line; a block comment stands between `/*` and `*/`.  What is
white space and which closing marks can be doubled is left to the dialect.  How a word is cut into names, numbers and
operators depends on the word alone and is left out.

Characters that neither open nor close anything are `Inert`.  Between tokens inert white space ends a token and does
nothing else (`tokensFrom_blanks`); in a quoted text any inert character is part of the text.  The characters of the
tokens are counted by `total`, which depends on the token being read only through its length (`total_shift`).
-/

namespace SqlLexer

inductive Quote
  | literal
  | double
  | backtick
  | bracket
  deriving DecidableEq

def Quote.close : Quote → Char
  | literal => '\''
  | double => '"'
  | backtick => '\x60'
  | bracket => ']'

/-- The quoted text that the character opens. -/
def Quote.opened? (c : Char) : Option Quote :=
  if c = '\'' then some literal
  else if c = '"' then some double
  else if c = '\x60' then some backtick
  else if c = '[' then some bracket
  else none

structure Dialect where
  /-- The white space between tokens. -/
  blank : Char → Bool
  blank_space : blank ' ' = true
  blank_newline : blank '\n' = true
  /-- The closing mark belongs to the quoted text if it is doubled. -/
  doubles : Quote → Bool

inductive Token
  | word (text : List Char)
  | quoted (quote : Quote) (text : List Char)
  | unterminated (quote : Quote) (text : List Char)
  deriving DecidableEq

inductive Kind
  | code
  /-- In code after a dash, which a second one makes a comment. -/
  | dash
  /-- In code after a slash. -/
  | slash
  | quoted (quote : Quote)
  /-- In a quoted text after a closing mark. -/
  | closing (quote : Quote)
  | dashComment
  | slashComment
  | blockComment
  /-- In a block comment after an asterisk. -/
  | star
  deriving DecidableEq

structure State where
  kind : Kind
  /-- What has been read of the token. -/
  text : List Char
  deriving DecidableEq

def start : State := ⟨.code, []⟩

/-- The word that ends here, if there is one. -/
def word (text : List Char) : List Token := if text = [] then [] else [.word text]

section

variable (D : Dialect)

/-- A character of code: the tokens that it ends, and the state after it. -/
def readCode (text : List Char) (c : Char) : List Token × State :=
  if c = '-' then ([], ⟨.dash, text⟩)
  else if c = '/' then ([], ⟨.slash, text⟩)
  else
    match Quote.opened? c with
    | some quote => (word text, ⟨.quoted quote, []⟩)
    | none => if D.blank c then (word text, ⟨.code, []⟩) else ([], ⟨.code, text ++ [c]⟩)

def read : State → Char → List Token × State
  | ⟨.code, text⟩, c => readCode D text c
  | ⟨.dash, text⟩, c => if c = '-' then (word text, ⟨.dashComment, []⟩) else readCode D (text ++ ['-']) c
  | ⟨.slash, text⟩, c =>
    if c = '/' then (word text, ⟨.slashComment, []⟩)
    else if c = '*' then (word text, ⟨.blockComment, []⟩)
    else readCode D (text ++ ['/']) c
  | ⟨.quoted quote, text⟩, c =>
    if c = quote.close then ([], ⟨.closing quote, text⟩) else ([], ⟨.quoted quote, text ++ [c]⟩)
  | ⟨.closing quote, text⟩, c =>
    if c = quote.close ∧ D.doubles quote = true then ([], ⟨.quoted quote, text ++ [c]⟩)
    else (.quoted quote text :: (readCode D [] c).1, (readCode D [] c).2)
  | ⟨.dashComment, _⟩, c => ([], ⟨if c = '\n' then .code else .dashComment, []⟩)
  | ⟨.slashComment, _⟩, c => ([], ⟨if c = '\n' then .code else .slashComment, []⟩)
  | ⟨.blockComment, _⟩, c => ([], ⟨if c = '*' then .star else .blockComment, []⟩)
  | ⟨.star, _⟩, c => ([], ⟨if c = '/' then .code else if c = '*' then .star else .blockComment, []⟩)

/-- The token that ends with the text. -/
def finish : State → List Token
  | ⟨.code, text⟩ => word text
  | ⟨.dash, text⟩ => word (text ++ ['-'])
  | ⟨.slash, text⟩ => word (text ++ ['/'])
  | ⟨.quoted quote, text⟩ => [.unterminated quote text]
  | ⟨.closing quote, text⟩ => [.quoted quote text]
  | ⟨.dashComment, _⟩ | ⟨.slashComment, _⟩ | ⟨.blockComment, _⟩ | ⟨.star, _⟩ => []

def tokensFrom (s : State) : List Char → List Token
  | [] => finish s
  | c :: t => (read D s c).1 ++ tokensFrom (read D s c).2 t

def tokens (t : List Char) : List Token := tokensFrom D start t

def after (s : State) (t : List Char) : State := t.foldl (fun s c => (read D s c).2) s

/-- The tokens that end in the text. -/
def ended (s : State) : List Char → List Token
  | [] => []
  | c :: t => (read D s c).1 ++ ended (read D s c).2 t

end

variable {D : Dialect} {s s' : State} {c : Char} {g t a b : List Char}

@[simp] theorem tokensFrom_nil : tokensFrom D s [] = finish s := rfl

theorem tokensFrom_cons : tokensFrom D s (c :: t) = (read D s c).1 ++ tokensFrom D (read D s c).2 t := rfl

@[simp] theorem after_nil : after D s [] = s := rfl

@[simp] theorem after_cons : after D s (c :: t) = after D (read D s c).2 t := rfl

theorem after_append : after D s (a ++ b) = after D (after D s a) b := List.foldl_append

theorem tokensFrom_append : tokensFrom D s (a ++ b) = ended D s a ++ tokensFrom D (after D s a) b := by
  induction a generalizing s with
  | nil => rfl
  | cons c a ih => rw [List.cons_append, tokensFrom_cons, ih, ended, List.append_assoc, after_cons]

/-! ### Inert characters -/

/-- The character opens and closes nothing. -/
structure Inert (c : Char) : Prop where
  dash : c ≠ '-'
  slash : c ≠ '/'
  star : c ≠ '*'
  opened : Quote.opened? c = none
  close : ∀ quote : Quote, c ≠ quote.close

/-- Neither in a quoted text nor in a comment. -/
def Kind.between : Kind → Bool
  | code | dash | slash | closing _ => true
  | quoted _ | dashComment | slashComment | blockComment | star => false

theorem readCode_inert (hc : Inert c) (text : List Char) :
    readCode D text c = if D.blank c then (word text, ⟨.code, []⟩) else ([], ⟨.code, text ++ [c]⟩) := by
  rw [readCode, if_neg hc.dash, if_neg hc.slash, hc.opened]

/-- Between tokens an inert character is read as in code, after the tokens that are certain to have ended. -/
theorem read_between (hs : s.kind.between = true) (hc : Inert c) :
    ∃ ended text, finish s = ended ++ word text ∧
      read D s c = (ended ++ (readCode D text c).1, (readCode D text c).2) := by
  obtain ⟨kind, text⟩ := s
  cases kind with
  | code => exact ⟨[], text, rfl, rfl⟩
  | dash => exact ⟨[], text ++ ['-'], rfl, if_neg hc.dash⟩
  | slash => exact ⟨[], text ++ ['/'], rfl, (if_neg hc.slash).trans (if_neg hc.star)⟩
  | closing quote => exact ⟨[.quoted quote text], [], rfl, if_neg fun h => hc.close quote h.1⟩
  | quoted | dashComment | slashComment | blockComment | star => cases hs

theorem read_blank (hs : s.kind.between = true) (hc : Inert c) (hblank : D.blank c = true) :
    read D s c = (finish s, start) := by
  obtain ⟨ended, text, hfinish, hread⟩ := read_between (D := D) hs hc
  rw [hread, readCode_inert hc, if_pos hblank, hfinish, start]

theorem after_blanks (hs : s.kind.between = true) (hg : ∀ c ∈ g, Inert c) (hblank : ∀ c ∈ g, D.blank c = true)
    (hne : g ≠ []) : after D s g = start := by
  induction g generalizing s with
  | nil => exact absurd rfl hne
  | cons c g ih =>
    rw [after_cons, read_blank hs (hg c List.mem_cons_self) (hblank c List.mem_cons_self)]
    cases g with
    | nil => rfl
    | cons d g =>
      exact ih (s := start) rfl (fun e he => hg e (List.mem_cons_of_mem _ he))
        (fun e he => hblank e (List.mem_cons_of_mem _ he)) (List.cons_ne_nil _ _)

/-- Between tokens white space ends the token. -/
theorem tokensFrom_blanks (hs : s.kind.between = true) (hg : ∀ c ∈ g, Inert c) (hblank : ∀ c ∈ g, D.blank c = true)
    (hne : g ≠ []) : tokensFrom D s (g ++ t) = finish s ++ tokensFrom D start t := by
  induction g generalizing s with
  | nil => exact absurd rfl hne
  | cons c g ih =>
    rw [List.cons_append, tokensFrom_cons, read_blank hs (hg c List.mem_cons_self) (hblank c List.mem_cons_self)]
    cases g with
    | nil => rfl
    | cons d g =>
      rw [ih (s := start) rfl (fun e he => hg e (List.mem_cons_of_mem _ he))
        (fun e he => hblank e (List.mem_cons_of_mem _ he)) (List.cons_ne_nil _ _)]
      rfl

/-- In a quoted text inert characters are part of the text. -/
theorem tokensFrom_quoted (hg : ∀ c ∈ g, Inert c) {quote : Quote} {text : List Char} :
    tokensFrom D ⟨.quoted quote, text⟩ (g ++ t) = tokensFrom D ⟨.quoted quote, text ++ g⟩ t := by
  induction g generalizing text with
  | nil => rw [List.nil_append, List.append_nil]
  | cons c g ih =>
    have hread : read D ⟨.quoted quote, text⟩ c = ([], ⟨.quoted quote, text ++ [c]⟩) :=
      if_neg ((hg c List.mem_cons_self).close quote)
    rw [List.cons_append, tokensFrom_cons, hread, List.nil_append,
      ih fun d hd => hg d (List.mem_cons_of_mem _ hd), List.append_assoc, List.singleton_append]

def Kind.block : Kind → Bool
  | blockComment | star => true
  | _ => false

theorem read_block (hs : s.kind.block = true) (hc : Inert c) : read D s c = ([], ⟨.blockComment, []⟩) := by
  obtain ⟨kind, text⟩ := s
  cases kind with
  | blockComment => rw [read, if_neg hc.star]
  | star => rw [read, if_neg hc.slash, if_neg hc.star]
  | code | dash | slash | quoted | closing | dashComment | slashComment => cases hs

theorem after_block (hs : s.kind.block = true) (hg : ∀ c ∈ g, Inert c) (hne : g ≠ []) :
    after D s g = ⟨.blockComment, []⟩ := by
  induction g generalizing s with
  | nil => exact absurd rfl hne
  | cons c g ih =>
    rw [after_cons, read_block hs (hg c List.mem_cons_self)]
    cases g with
    | nil => rfl
    | cons d g =>
      exact ih (s := ⟨.blockComment, []⟩) rfl (fun e he => hg e (List.mem_cons_of_mem _ he)) (List.cons_ne_nil _ _)

theorem tokensFrom_block (hs : s.kind.block = true) (hg : ∀ c ∈ g, Inert c) (hne : g ≠ []) :
    tokensFrom D s (g ++ t) = tokensFrom D ⟨.blockComment, []⟩ t := by
  induction g generalizing s with
  | nil => exact absurd rfl hne
  | cons c g ih =>
    rw [List.cons_append, tokensFrom_cons, read_block hs (hg c List.mem_cons_self), List.nil_append]
    cases g with
    | nil => rfl
    | cons d g =>
      exact ih (s := ⟨.blockComment, []⟩) rfl (fun e he => hg e (List.mem_cons_of_mem _ he)) (List.cons_ne_nil _ _)

theorem finish_block (hs : s.kind.block = true) : finish s = [] := by
  obtain ⟨kind, text⟩ := s
  cases kind with
  | blockComment | star => rfl
  | code | dash | slash | quoted | closing | dashComment | slashComment => cases hs

def Kind.line : Kind → Bool
  | dashComment | slashComment => true
  | _ => false

/-- A line comment goes on to the end of the line. -/
theorem tokensFrom_line (hs : s.kind.line = true) (ht : '\n' ∉ t) : tokensFrom D s t = [] := by
  induction t generalizing s with
  | nil =>
    obtain ⟨kind, text⟩ := s
    cases kind with
    | dashComment | slashComment => rfl
    | code | dash | slash | quoted | closing | blockComment | star => cases hs
  | cons c t ih =>
    rw [List.mem_cons, not_or] at ht
    have hc : c ≠ '\n' := fun h => ht.1 h.symm
    obtain ⟨kind, text⟩ := s
    cases kind with
    | dashComment | slashComment =>
      rw [tokensFrom_cons, read, if_neg hc, List.nil_append]
      exact ih rfl ht.2
    | code | dash | slash | quoted | closing | blockComment | star => cases hs

/-! ### The characters of the tokens -/

/-- The characters of a token, with the mark that opens a quoted text. -/
def Token.size : Token → ℕ
  | word text => text.length
  | quoted _ text | unterminated _ text => text.length + 1

def total (ts : List Token) : ℕ := (ts.map Token.size).sum

@[simp] theorem total_nil : total [] = 0 := rfl

@[simp] theorem total_cons (token : Token) (ts : List Token) : total (token :: ts) = token.size + total ts := rfl

@[simp] theorem total_append (ts ts' : List Token) : total (ts ++ ts') = total ts + total ts' := by
  simp [total]

@[simp] theorem total_word (text : List Char) : total (word text) = text.length := by
  unfold word
  split
  · rename_i h
    simp [h]
  · simp [Token.size]

/-- The characters of the token that is being read. -/
def State.held (s : State) : ℕ := if s.kind.line || s.kind.block then 0 else s.text.length

@[simp] theorem held_code (text : List Char) : State.held ⟨.code, text⟩ = text.length := rfl
@[simp] theorem held_dash (text : List Char) : State.held ⟨.dash, text⟩ = text.length := rfl
@[simp] theorem held_slash (text : List Char) : State.held ⟨.slash, text⟩ = text.length := rfl
@[simp] theorem held_quoted (quote : Quote) (text : List Char) : State.held ⟨.quoted quote, text⟩ = text.length := rfl
@[simp] theorem held_closing (quote : Quote) (text : List Char) : State.held ⟨.closing quote, text⟩ = text.length := rfl
@[simp] theorem held_dashComment (text : List Char) : State.held ⟨.dashComment, text⟩ = 0 := rfl
@[simp] theorem held_slashComment (text : List Char) : State.held ⟨.slashComment, text⟩ = 0 := rfl
@[simp] theorem held_blockComment (text : List Char) : State.held ⟨.blockComment, text⟩ = 0 := rfl

/-- What a character makes of the token that is being read depends on the token only through its length. -/
theorem readCode_shift (text text' : List Char) (c : Char) :
    (readCode D text c).2.kind = (readCode D text' c).2.kind ∧
      total (readCode D text c).1 + (readCode D text c).2.held + text'.length =
        total (readCode D text' c).1 + (readCode D text' c).2.held + text.length := by
  unfold readCode
  split
  · exact ⟨rfl, by simp [Nat.add_comm]⟩
  · split
    · exact ⟨rfl, by simp [Nat.add_comm]⟩
    · split
      · exact ⟨rfl, by simp [Nat.add_comm]⟩
      · split
        · exact ⟨rfl, by simp [Nat.add_comm]⟩
        · refine ⟨rfl, ?_⟩
          simp only [held_code, List.length_append, List.length_singleton]
          omega

theorem read_shift (h : s.kind = s'.kind) (c : Char) :
    (read D s c).2.kind = (read D s' c).2.kind ∧
      total (read D s c).1 + (read D s c).2.held + s'.held = total (read D s' c).1 + (read D s' c).2.held + s.held := by
  obtain ⟨kind, text⟩ := s
  obtain ⟨kind', text'⟩ := s'
  obtain rfl : kind = kind' := h
  cases kind with
  | code => exact readCode_shift text text' c
  | dash =>
    simp only [read]
    split
    · exact ⟨rfl, by simp [Nat.add_comm]⟩
    · have hcode := readCode_shift (D := D) (text ++ ['-']) (text' ++ ['-']) c
      simp only [List.length_append, List.length_singleton] at hcode
      refine ⟨hcode.1, ?_⟩
      rw [held_dash, held_dash]
      omega
  | slash =>
    simp only [read]
    split
    · exact ⟨rfl, by simp [Nat.add_comm]⟩
    · split
      · exact ⟨rfl, by simp [Nat.add_comm]⟩
      · have hcode := readCode_shift (D := D) (text ++ ['/']) (text' ++ ['/']) c
        simp only [List.length_append, List.length_singleton] at hcode
        refine ⟨hcode.1, ?_⟩
        rw [held_slash, held_slash]
        omega
  | quoted quote =>
    simp only [read]
    split
    · exact ⟨rfl, by simp [Nat.add_comm]⟩
    · refine ⟨rfl, ?_⟩
      simp only [held_quoted, List.length_append, List.length_singleton]
      omega
  | closing quote =>
    simp only [read]
    split
    · refine ⟨rfl, ?_⟩
      simp only [held_quoted, held_closing, List.length_append, List.length_singleton]
      omega
    · refine ⟨rfl, ?_⟩
      simp only [held_closing, total_cons, Token.size]
      omega
  | dashComment | slashComment | blockComment | star => exact ⟨rfl, rfl⟩

theorem finish_shift (h : s.kind = s'.kind) : total (finish s) + s'.held = total (finish s') + s.held := by
  obtain ⟨kind, text⟩ := s
  obtain ⟨kind', text'⟩ := s'
  obtain rfl : kind = kind' := h
  cases kind with
  | code | dash | slash | quoted | closing =>
    simp only [finish, held_code, held_dash, held_slash, held_quoted, held_closing, total_word, total_cons, total_nil,
      Token.size, List.length_append, List.length_singleton]
    omega
  | dashComment | slashComment | blockComment | star => rfl

theorem total_shift (h : s.kind = s'.kind) (t : List Char) :
    total (tokensFrom D s t) + s'.held = total (tokensFrom D s' t) + s.held := by
  induction t generalizing s s' with
  | nil => exact finish_shift h
  | cons c t ih =>
    obtain ⟨hkind, hread⟩ := read_shift (D := D) h c
    have hrest := ih hkind
    simp only [tokensFrom_cons, total_append]
    omega

/-- Between tokens the characters that are not white space count. -/
theorem total_between (hs : s.kind.between = true) (hg : ∀ c ∈ g, Inert c) (hne : g ≠ []) (t : List Char) :
    total (tokensFrom D s (g ++ t)) =
      total (finish s) + g.countP (fun c => !D.blank c) + total (tokensFrom D start t) := by
  have hcode : ∀ text : List Char, total (tokensFrom D ⟨.code, text⟩ (g ++ t)) =
      text.length + g.countP (fun c => !D.blank c) + total (tokensFrom D start t) := by
    clear hne
    induction g with
    | nil =>
      intro text
      have hshift : total (tokensFrom D ⟨.code, text⟩ t) + start.held =
          total (tokensFrom D start t) + State.held ⟨.code, text⟩ := total_shift (by rfl) t
      simpa [start, Nat.add_comm] using hshift
    | cons c g ih =>
      intro text
      have hinert := hg c List.mem_cons_self
      rw [List.cons_append, tokensFrom_cons, read, readCode_inert hinert, List.countP_cons]
      cases hblank : D.blank c with
      | true =>
        simp only [if_true, total_append, total_word, ih (fun d hd => hg d (List.mem_cons_of_mem _ hd)),
          List.length_nil, Bool.not_true, Bool.false_eq_true, if_false]
        omega
      | false =>
        simp only [Bool.false_eq_true, if_false, total_append, total_nil,
          ih (fun d hd => hg d (List.mem_cons_of_mem _ hd)), List.length_append, List.length_singleton, Bool.not_false,
          if_true]
        omega
  obtain ⟨c, g, rfl⟩ := List.exists_cons_of_ne_nil hne
  obtain ⟨ended, text, hfinish, hread⟩ := read_between (D := D) hs (hg c List.mem_cons_self)
  have hfirst := hcode text
  rw [List.cons_append, tokensFrom_cons, read] at hfirst
  rw [List.cons_append, tokensFrom_cons, hread, hfinish, List.append_assoc, total_append, hfirst, total_append,
    total_word]
  omega

/-- What has been read of a quoted text is in its token. -/
theorem tokensFrom_quoted_text {kind : Kind} {quote : Quote} (hkind : kind = .quoted quote ∨ kind = .closing quote)
    (text t : List Char) : ∃ token rest, tokensFrom D ⟨kind, text⟩ t = token :: rest ∧
      ∃ more, token = .quoted quote (text ++ more) ∨ token = .unterminated quote (text ++ more) := by
  induction t generalizing kind text with
  | nil =>
    rcases hkind with rfl | rfl
    · exact ⟨_, _, rfl, [], .inr (by rw [List.append_nil])⟩
    · exact ⟨_, _, rfl, [], .inl (by rw [List.append_nil])⟩
  | cons c t ih =>
    have hmore : ∀ {kind'}, kind' = .quoted quote ∨ kind' = .closing quote → ∀ {text'}, (∃ m, text' = text ++ m) →
        ∃ token rest, tokensFrom D ⟨kind', text'⟩ t = token :: rest ∧
          ∃ more, token = .quoted quote (text ++ more) ∨ token = .unterminated quote (text ++ more) := by
      rintro kind' hkind' text' ⟨m, rfl⟩
      obtain ⟨token, rest, heq, more, htoken⟩ := ih hkind' (text ++ m)
      refine ⟨token, rest, heq, m ++ more, ?_⟩
      rwa [← List.append_assoc]
    rcases hkind with rfl | rfl
    · rw [tokensFrom_cons, read]
      split
      · exact hmore (.inr rfl) ⟨[], (List.append_nil _).symm⟩
      · exact hmore (.inl rfl) ⟨[c], rfl⟩
    · rw [tokensFrom_cons, read]
      split
      · exact hmore (.inl rfl) ⟨[c], rfl⟩
      · exact ⟨_, _, rfl, [], .inl (by rw [List.append_nil])⟩

/-- The characters of a token. -/
def Token.text : Token → List Char
  | word text | quoted _ text | unterminated _ text => text

theorem mem_word {text : List Char} {token : Token} (h : token ∈ word text) : token = .word text := by
  unfold word at h
  split at h
  · cases h
  · exact List.mem_singleton.1 h

section

variable {x : Char} (hdash : x ≠ '-') (hslash : x ≠ '/')

/-- The character is in none of the texts. -/
def Avoids (x : Char) (ts : List Token) (s : State) : Prop := (∀ token ∈ ts, x ∉ token.text) ∧ x ∉ s.text

theorem readCode_avoids {text : List Char} (htext : x ∉ text) (hc : x ≠ c) :
    Avoids x (readCode D text c).1 (readCode D text c).2 := by
  have hword : ∀ token ∈ word text, x ∉ token.text := fun token h => mem_word h ▸ htext
  have hnil : ∀ token ∈ ([] : List Token), x ∉ token.text := by simp
  unfold readCode
  split
  · exact ⟨hnil, htext⟩
  · split
    · exact ⟨hnil, htext⟩
    · split
      · exact ⟨hword, List.not_mem_nil⟩
      · split
        · exact ⟨hword, List.not_mem_nil⟩
        · exact ⟨hnil, by simp [htext, hc]⟩

include hdash hslash

theorem read_avoids (hs : x ∉ s.text) (hc : x ≠ c) : Avoids x (read D s c).1 (read D s c).2 := by
  have hnil : ∀ token ∈ ([] : List Token), x ∉ token.text := by simp
  obtain ⟨kind, text⟩ := s
  replace hs : x ∉ text := hs
  have hword : ∀ token ∈ word text, x ∉ token.text := fun token h => mem_word h ▸ hs
  have hgrown : x ∉ text ++ [c] := by simp [hs, hc]
  cases kind with
  | code => exact readCode_avoids hs hc
  | dash =>
    rw [read]
    split
    · exact ⟨hword, List.not_mem_nil⟩
    · exact readCode_avoids (by simp [hs, hdash]) hc
  | slash =>
    rw [read]
    split
    · exact ⟨hword, List.not_mem_nil⟩
    · split
      · exact ⟨hword, List.not_mem_nil⟩
      · exact readCode_avoids (by simp [hs, hslash]) hc
  | quoted quote =>
    rw [read]
    split
    · exact ⟨hnil, hs⟩
    · exact ⟨hnil, hgrown⟩
  | closing quote =>
    rw [read]
    split
    · exact ⟨hnil, hgrown⟩
    · obtain ⟨htokens, hstate⟩ := readCode_avoids (D := D) (List.not_mem_nil (a := x)) hc
      refine ⟨fun token htoken => ?_, hstate⟩
      rcases List.mem_cons.1 htoken with rfl | htoken
      · exact hs
      · exact htokens token htoken
  | dashComment | slashComment | blockComment | star => exact ⟨hnil, List.not_mem_nil⟩

theorem not_mem_after (hs : x ∉ s.text) (ht : x ∉ t) : x ∉ (after D s t).text := by
  induction t generalizing s with
  | nil => exact hs
  | cons c t ih =>
    rw [List.mem_cons, not_or] at ht
    exact ih (read_avoids hdash hslash hs ht.1).2 ht.2

/-- The texts of the tokens have no character, but dashes and slashes, that was not read. -/
theorem not_mem_tokensFrom (hs : x ∉ s.text) (ht : x ∉ t) : ∀ token ∈ tokensFrom D s t, x ∉ token.text := by
  induction t generalizing s with
  | nil =>
    obtain ⟨kind, text⟩ := s
    replace hs : x ∉ text := hs
    intro token htoken
    cases kind with
    | code => exact mem_word htoken ▸ hs
    | dash =>
      rw [mem_word htoken]
      simp [Token.text, hs, hdash]
    | slash =>
      rw [mem_word htoken]
      simp [Token.text, hs, hslash]
    | quoted | closing => exact List.mem_singleton.1 htoken ▸ hs
    | dashComment | slashComment | blockComment | star => cases htoken
  | cons c t ih =>
    rw [List.mem_cons, not_or] at ht
    obtain ⟨hended, hrest⟩ := read_avoids (D := D) hdash hslash hs ht.1
    intro token htoken
    rcases List.mem_append.1 htoken with h | h
    · exact hended token h
    · exact ih hrest ht.2 token h

end

/-- A quoted text that is read on has a token with what has been read. -/
theorem exists_mem_quoted (quote : Quote) {text : List Char} {x : Char} (hx : x ∈ text) (t : List Char) :
    ∃ token ∈ tokensFrom D ⟨.quoted quote, text⟩ t, x ∈ token.text := by
  obtain ⟨token, rest, heq, more, htoken⟩ := tokensFrom_quoted_text (D := D) (.inl rfl) text t
  refine ⟨token, heq ▸ List.mem_cons_self, ?_⟩
  rcases htoken with rfl | rfl <;> exact List.mem_append_left _ hx

/-! ### Comments after dashes -/

theorem kind_readCode_ne (text : List Char) (c : Char) : (readCode D text c).2.kind ≠ .dashComment ∧
    ((readCode D text c).2.kind = .dash → c = '-') := by
  unfold readCode
  split
  · rename_i h
    exact ⟨by simp, fun _ => h⟩
  · split
    · simp
    · split
      · simp
      · split <;> simp

/-- A comment after dashes begins where a dash follows a dash. -/
theorem kind_read (s : State) (c : Char) :
    ((read D s c).2.kind = .dashComment → s.kind = .dashComment ∨ s.kind = .dash ∧ c = '-') ∧
      ((read D s c).2.kind = .dash → c = '-') := by
  obtain ⟨kind, text⟩ := s
  have hcode : ∀ text : List Char, ((readCode D text c).2.kind = .dashComment → kind = .dashComment ∨
      kind = .dash ∧ c = '-') ∧ ((readCode D text c).2.kind = .dash → c = '-') := fun text =>
    ⟨fun h => absurd h (kind_readCode_ne text c).1, (kind_readCode_ne text c).2⟩
  cases kind with
  | code => exact hcode text
  | dash =>
    rw [read]
    split
    · rename_i h
      exact ⟨fun _ => .inr ⟨rfl, h⟩, fun _ => h⟩
    · exact hcode _
  | slash =>
    rw [read]
    split
    · simp
    · split
      · simp
      · exact hcode _
  | quoted quote =>
    rw [read]
    split <;> simp
  | closing quote =>
    rw [read]
    split
    · simp
    · exact hcode []
  | dashComment => exact ⟨fun _ => .inl rfl, by rw [read]; split <;> simp⟩
  | slashComment | blockComment | star =>
    rw [read]
    refine ⟨?_, ?_⟩ <;> (repeat' split) <;> simp

/-- The text that leads into a comment after dashes has two dashes in a row. -/
theorem infix_of_dashComment (t : List Char) :
    ((after D start t).kind = .dashComment → ['-', '-'] <:+: t) ∧
      ((after D start t).kind = .dash → ['-'] <:+ t) := by
  induction t using List.reverseRecOn with
  | nil =>
    simp [start]
  | append_singleton t c ih =>
    obtain ⟨hcomment, hdash⟩ := kind_read (D := D) (after D start t) c
    have hafter : after D start (t ++ [c]) = (read D (after D start t) c).2 := after_append
    rw [hafter]
    refine ⟨fun h => ?_, fun h => ?_⟩
    · rcases hcomment h with hinside | ⟨hbefore, rfl⟩
      · exact (ih.1 hinside).trans (List.prefix_append t [c]).isInfix
      · obtain ⟨u, rfl⟩ := ih.2 hbefore
        exact ⟨u, [], by simp⟩
    · rw [hdash h]
      exact List.suffix_append t ['-']

end SqlLexer
