import CubridWebManager.QueryPlan.OneLine

/-!
# The tokens of the query on one line

The query on one line has the tokens of the query just when the runs of white space that are rewritten do not matter
(`one_line_tokens_iff`).  Where one does, either a token of the query has a line break, which none of the one line has,
or the query has more characters in its tokens, or tokens after a comment that runs on to the end of the one line.
-/

namespace CubridWebManager.QueryPlan

open SqlLexer

variable {D : Dialect} {s : State} {c : Char} {g t o a b run : Text}

theorem inert_of_isSpace (hc : Text.isSpace c = true) : Inert c where
  dash := by rintro rfl; revert hc; decide
  slash := by rintro rfl; revert hc; decide
  star := by rintro rfl; revert hc; decide
  opened := by
    have hne : ∀ d : Char, Text.isSpace d = false → c ≠ d := by
      rintro d hd rfl
      rw [hc] at hd
      cases hd
    rw [Quote.opened?, if_neg (hne _ (by decide)), if_neg (hne _ (by decide)), if_neg (hne _ (by decide)),
      if_neg (hne _ (by decide))]
  close := by
    rintro quote rfl
    revert hc
    cases quote <;> decide

/-! ### The runs of a text -/

theorem WhiteRun.of_nil (h : WhiteRun [] a run b) : False := by
  have hnil := List.append_eq_nil_iff.1 (List.append_eq_nil_iff.1 h.split.symm).2
  exact h.ne_nil hnil.1

/-- Before the runs of a text stands a character that is no white space. -/
theorem whiteRun_cons_iff (hc : Text.isSpace c = false) :
    WhiteRun (c :: t) a run b ↔ ∃ a', a = c :: a' ∧ WhiteRun t a' run b := by
  constructor
  · intro h
    have hsplit := h.split
    cases a with
    | nil =>
      obtain ⟨d, run, rfl⟩ := List.exists_cons_of_ne_nil h.ne_nil
      rw [List.nil_append, List.cons_append] at hsplit
      have hspace := h.white d List.mem_cons_self
      rw [← (List.cons.inj hsplit).1, hc] at hspace
      cases hspace
    | cons d a =>
      rw [List.cons_append] at hsplit
      obtain ⟨rfl, hrest⟩ := List.cons.inj hsplit
      refine ⟨a, rfl, hrest, h.ne_nil, h.white, fun e he => h.left e ?_, h.right⟩
      cases a with
      | nil => cases he
      | cons e a => exact he
  · rintro ⟨a', rfl, h⟩
    refine ⟨by rw [h.split, List.cons_append], h.ne_nil, h.white, fun e he => ?_, h.right⟩
    cases a' with
    | nil =>
      obtain rfl : c = e := by simpa using he
      exact hc
    | cons d a' => exact h.left e he

/-- Before the runs of a text stands another run. -/
theorem whiteRun_append_iff (hg : Trim.All Text.isSpace g) (hne : g ≠ []) (ht : t = [] ∨ Solid t) :
    WhiteRun (g ++ t) a run b ↔ (a = [] ∧ run = g ∧ b = t) ∨ ∃ a', a = g ++ a' ∧ WhiteRun t a' run b := by
  have hhead : ∀ d ∈ t.head?, Text.isSpace d = false := by
    intro d hd
    rcases ht with rfl | ⟨e, t', rfl, he⟩
    · cases hd
    · obtain rfl : e = d := by simpa using hd
      exact he
  constructor
  · intro h
    rcases List.eq_nil_or_concat a with rfl | ⟨a₀, d, rfl⟩
    · left
      have hrun := congrArg (List.takeWhile Text.isSpace) h.split
      rw [List.nil_append, Trim.takeWhile_append_all hg hhead, Trim.takeWhile_append_all h.white h.right] at hrun
      have hsplit := h.split
      rw [List.nil_append, ← hrun] at hsplit
      exact ⟨rfl, hrun.symm, (List.append_cancel_left hsplit).symm⟩
    · right
      have hd : Text.isSpace d = false := h.left d (by simp)
      rcases List.append_eq_append_iff.1 h.split with ⟨x, hx, hrest⟩ | ⟨x, hx, hrest⟩
      · refine ⟨x, hx, hrest, h.ne_nil, h.white, fun e he => h.left e ?_, h.right⟩
        rw [hx, List.getLast?_append_of_ne_nil _ (by rintro rfl; cases he)]
        exact he
      · have hspace := hg d (by rw [hx]; simp)
        rw [hd] at hspace
        cases hspace
  · rintro (⟨rfl, rfl, rfl⟩ | ⟨a', rfl, h⟩)
    · exact ⟨rfl, hne, hg, by simp, hhead⟩
    · have ha' : a' ≠ [] := by
        rintro rfl
        obtain ⟨d, run, rfl⟩ := List.exists_cons_of_ne_nil h.ne_nil
        have hspace := h.white d List.mem_cons_self
        rw [hhead d (by rw [h.split]; rfl)] at hspace
        cases hspace
      refine ⟨by rw [h.split, List.append_assoc], h.ne_nil, h.white, fun e he => h.left e ?_, h.right⟩
      rwa [List.getLast?_append_of_ne_nil _ ha'] at he

/-! ### The condition along the text -/

/-- The run does not matter; where it stands in a comment after dashes, too, no token follows. -/
def Safe (D : Dialect) (s : State) (run b : Text) : Prop :=
  Spared D s run b ∧ (s.kind = .dashComment → tokensFrom D s (run ++ b) = [])

/-- The rewritten runs of what the lexer still has to read do not matter; `first` where nothing has been read. -/
def JoinableFrom (D : Dialect) (s : State) (first : Prop) (t : Text) : Prop :=
  ∀ a run b, WhiteRun t a run b → (first ∧ a = []) ∨ b = [] ∨ '\n' ∈ run → Safe D (after D s a) run b

theorem joinableFrom_cons_iff {first : Prop} (hc : Text.isSpace c = false) :
    JoinableFrom D s first (c :: t) ↔ JoinableFrom D (read D s c).2 False t := by
  constructor
  · intro h a run b hrun hcut
    exact h (c :: a) run b ((whiteRun_cons_iff hc).2 ⟨a, rfl, hrun⟩) (hcut.imp (fun h => h.1.elim) id)
  · intro h a run b hrun hcut
    obtain ⟨a', rfl, hrun'⟩ := (whiteRun_cons_iff hc).1 hrun
    exact h a' run b hrun' (hcut.imp (fun h => absurd h.2 (List.cons_ne_nil _ _)) id)

theorem joinableFrom_append_iff {first : Prop} (hg : Trim.All Text.isSpace g) (hne : g ≠ []) (ht : t = [] ∨ Solid t) :
    JoinableFrom D s first (g ++ t) ↔
      (first ∨ t = [] ∨ '\n' ∈ g → Safe D s g t) ∧ JoinableFrom D (after D s g) False t := by
  constructor
  · intro h
    refine ⟨fun hcut => h [] g t ((whiteRun_append_iff hg hne ht).2 (.inl ⟨rfl, rfl, rfl⟩))
      (hcut.imp (fun hfirst => ⟨hfirst, rfl⟩) id), fun a run b hrun hcut => ?_⟩
    rw [← after_append]
    exact h (g ++ a) run b ((whiteRun_append_iff hg hne ht).2 (.inr ⟨a, rfl, hrun⟩)) (hcut.imp (fun h => h.1.elim) id)
  · rintro ⟨hfirst, hrest⟩ a run b hrun hcut
    rcases (whiteRun_append_iff hg hne ht).1 hrun with ⟨rfl, rfl, rfl⟩ | ⟨a', rfl, hrun'⟩
    · exact hfirst (hcut.imp And.left id)
    · rw [after_append]
      refine hrest a' run b hrun' (hcut.imp (fun h => absurd h.2 ?_) id)
      exact fun h => hne (List.append_eq_nil_iff.1 h).1

theorem joinableFrom_nil {first : Prop} : JoinableFrom D s first [] := fun _ _ _ h => h.of_nil.elim

/-! ### One run -/

theorem inert_of_all (hg : Trim.All Text.isSpace g) : ∀ c ∈ g, Inert c := fun c hc => inert_of_isSpace (hg c hc)

theorem ne_nil_of_mem (h : '\n' ∈ g) : g ≠ [] := List.ne_nil_of_mem h

theorem safe_between_iff (hs : s.kind.between = true) : Safe D s g b ↔ ∀ c ∈ g, D.blank c = true := by
  obtain ⟨kind, text⟩ := s
  cases kind with
  | code | dash | slash | closing => exact ⟨fun h => h.1, fun h => ⟨h, fun heq => by cases heq⟩⟩
  | quoted | dashComment | slashComment | blockComment | star => cases hs

theorem not_safe_quoted {quote : Quote} {text : List Char} : ¬ Safe D ⟨.quoted quote, text⟩ g b := fun h => h.1

theorem safe_line_iff (hs : s.kind.line = true) : Safe D s g b → tokensFrom D s (g ++ b) = [] := by
  obtain ⟨kind, text⟩ := s
  cases kind with
  | dashComment => exact fun h => h.2 rfl
  | slashComment => exact fun h => h.1
  | code | dash | slash | quoted | closing | blockComment | star => cases hs

theorem safe_of_no_tokens_line (hs : s.kind.line = true) (h : tokensFrom D s (g ++ b) = []) : Safe D s g b := by
  obtain ⟨kind, text⟩ := s
  cases kind with
  | dashComment => exact ⟨trivial, fun _ => h⟩
  | slashComment => exact ⟨h, fun heq => by cases heq⟩
  | code | dash | slash | quoted | closing | blockComment | star => cases hs

theorem safe_block (hs : s.kind.block = true) : Safe D s g b := by
  obtain ⟨kind, text⟩ := s
  cases kind with
  | blockComment | star => exact ⟨trivial, fun heq => by cases heq⟩
  | code | dash | slash | quoted | closing | dashComment | slashComment => cases hs

/-- The state of a lexer, by what white space does in it. -/
theorem kind_cases (s : State) :
    s.kind.between = true ∨ (∃ quote text, s = ⟨.quoted quote, text⟩) ∨ s.kind.line = true ∨ s.kind.block = true := by
  obtain ⟨kind, text⟩ := s
  cases kind with
  | code | dash | slash | closing => exact .inl rfl
  | quoted quote => exact .inr (.inl ⟨quote, text, rfl⟩)
  | dashComment | slashComment => exact .inr (.inr (.inl rfl))
  | blockComment | star => exact .inr (.inr (.inr rfl))

/-- White space of JavaScript that the lexer takes for a part of a token. -/
theorem countP_pos_of_not_blank (h : ¬ ∀ c ∈ g, D.blank c = true) : 0 < g.countP fun c => !D.blank c := by
  simp only [not_forall] at h
  obtain ⟨c, hc, hblank⟩ := h
  exact List.countP_pos_iff.2 ⟨c, hc, by simpa using hblank⟩

/-- Where there are no tokens no run matters. -/
theorem joinableFrom_of_no_tokens {first : Prop} (h : tokensFrom D s t = []) : JoinableFrom D s first t := by
  intro a run b hrun _
  have hrest : tokensFrom D (after D s a) (run ++ b) = [] := by
    rw [hrun.split, tokensFrom_append] at h
    exact (List.append_eq_nil_iff.1 h).2
  generalize after D s a = s at hrest
  rcases kind_cases s with hs | ⟨quote, text, rfl⟩ | hs | hs
  · refine (safe_between_iff hs).2 ?_
    by_contra hblank
    have htotal := total_between (D := D) hs (inert_of_all hrun.white) hrun.ne_nil b
    have hpos := countP_pos_of_not_blank hblank
    rw [hrest, total_nil] at htotal
    omega
  · obtain ⟨token, rest, heq, -⟩ := tokensFrom_quoted_text (D := D) (.inl rfl) text (run ++ b)
    rw [hrest] at heq
    cases heq
  · exact safe_of_no_tokens_line hs hrest
  · exact safe_block hs

/-- At the end of the text white space is cut off: the tokens stay just when it does not matter. -/
theorem tokensFrom_tail_iff (hg : Trim.All Text.isSpace g) (hne : g ≠ []) :
    tokensFrom D s g = finish s ↔ Safe D s g [] := by
  have happend : tokensFrom D s g = tokensFrom D s (g ++ []) := by rw [List.append_nil]
  rw [happend]
  rcases kind_cases s with hs | ⟨quote, text, rfl⟩ | hs | hs
  · rw [safe_between_iff hs]
    constructor
    · intro h
      by_contra hblank
      have htotal := total_between (D := D) hs (inert_of_all hg) hne []
      have hpos := countP_pos_of_not_blank hblank
      rw [h] at htotal
      omega
    · intro hblank
      rw [tokensFrom_blanks hs (inert_of_all hg) hblank hne]
      exact List.append_nil _
  · refine iff_of_false (fun h => hne ?_) not_safe_quoted
    rw [tokensFrom_quoted (inert_of_all hg)] at h
    simpa [finish] using h
  · have hfinish : finish s = [] := tokensFrom_line (D := D) hs List.not_mem_nil
    rw [hfinish]
    exact ⟨safe_of_no_tokens_line hs, safe_line_iff hs⟩
  · rw [tokensFrom_block hs (inert_of_all hg) hne, finish_block hs]
    exact iff_of_true rfl (safe_block hs)

/-- Joining lines adds no character to the tokens. -/
theorem Squeezed.total_le (h : Squeezed t o) (s : State) : total (tokensFrom D s o) ≤ total (tokensFrom D s t) := by
  induction h generalizing s with
  | @tail w hw =>
    rcases eq_or_ne w [] with rfl | hne
    · exact Nat.le_refl _
    · have happend : tokensFrom D s w = tokensFrom D s (w ++ []) := by rw [List.append_nil]
      rw [happend]
      rcases kind_cases s with hs | ⟨quote, text, rfl⟩ | hs | hs
      · rw [total_between hs (inert_of_all hw) hne, tokensFrom_nil]
        omega
      · rw [tokensFrom_quoted (inert_of_all hw)]
        simp [finish, Token.size]
      · rw [tokensFrom_line hs List.not_mem_nil]
        exact Nat.zero_le _
      · rw [tokensFrom_nil, finish_block hs]
        exact Nat.zero_le _
  | keep hc h ih =>
    rw [tokensFrom_cons, tokensFrom_cons, total_append, total_append]
    exact Nat.add_le_add_left (ih _) _
  | run hg hne hline ht h ih =>
    rw [tokensFrom_append, tokensFrom_append, total_append, total_append]
    exact Nat.add_le_add_left (ih _) _
  | @join g t o hg hline ht h ih =>
    have hspace : ∀ c ∈ [' '], Inert c := inert_of_all (g := [' ']) (by decide)
    rw [← List.singleton_append]
    rcases kind_cases s with hs | ⟨quote, text, rfl⟩ | hs | hs
    · rw [total_between hs (inert_of_all hg) (ne_nil_of_mem hline), total_between hs hspace (by decide)]
      have hle := ih start
      simp only [List.countP_cons, D.blank_space, List.countP_nil, Bool.not_true, Bool.false_eq_true, if_false]
      omega
    · rw [tokensFrom_quoted (inert_of_all hg), tokensFrom_quoted hspace]
      have hle := ih ⟨.quoted quote, text ++ [' ']⟩
      have hshift : total (tokensFrom D ⟨.quoted quote, text ++ g⟩ t) + State.held ⟨.quoted quote, text ++ [' ']⟩ =
          total (tokensFrom D ⟨.quoted quote, text ++ [' ']⟩ t) + State.held ⟨.quoted quote, text ++ g⟩ :=
        total_shift (by rfl) t
      have hpos := List.length_pos_iff.2 (ne_nil_of_mem hline)
      simp only [State.held, Kind.line, Kind.block, Bool.or_self, Bool.false_eq_true, if_false, List.length_append,
        List.length_singleton] at hshift
      omega
    · rw [tokensFrom_line hs (by simpa using h.not_mem)]
      exact Nat.zero_le _
    · rw [tokensFrom_block hs (inert_of_all hg) (ne_nil_of_mem hline), tokensFrom_block hs hspace (by decide)]
      exact ih _

/-! ### The whole text -/

theorem not_mem_after_of_line (hs : '\n' ∉ s.text) (hg : '\n' ∉ g) : '\n' ∉ (after D s g).text :=
  not_mem_after (by decide) (by decide) hs hg

/-- From any state of the lexer on, the rewritten text has the tokens of the text just when no rewritten run
matters. -/
theorem tokensFrom_squeezed_iff (h : Squeezed t o) (hs : '\n' ∉ s.text) :
    tokensFrom D s t = tokensFrom D s o ↔ JoinableFrom D s False t := by
  induction h generalizing s with
  | @tail w hw =>
    rcases eq_or_ne w [] with rfl | hne
    · exact iff_of_true rfl joinableFrom_nil
    · rw [← List.append_nil w, joinableFrom_append_iff hw hne (.inl rfl), List.append_nil, tokensFrom_nil,
        tokensFrom_tail_iff hw hne]
      exact ⟨fun h => ⟨fun _ => h, joinableFrom_nil⟩, fun h => h.1 (.inr (.inl rfl))⟩
  | @keep c t o hc h ih =>
    have hline : '\n' ∉ [c] := by
      rw [List.mem_singleton]
      rintro rfl
      rw [isSpace_newline] at hc
      cases hc
    rw [tokensFrom_cons, tokensFrom_cons, List.append_cancel_left_eq, joinableFrom_cons_iff hc]
    exact ih (not_mem_after_of_line hs hline)
  | @run g t o hg hne hline ht h ih =>
    rw [tokensFrom_append, tokensFrom_append, List.append_cancel_left_eq, ih (not_mem_after_of_line hs hline),
      joinableFrom_append_iff hg hne (.inr ht)]
    have ht' : t ≠ [] := by
      obtain ⟨c, t', rfl, -⟩ := ht
      exact List.cons_ne_nil _ _
    exact ⟨fun h => ⟨fun hcut => (hcut.elim id fun h => h.elim ht' hline).elim, h⟩, And.right⟩
  | @join g t o hg hline ht h ih =>
    have hne := ne_nil_of_mem hline
    have hspace : ∀ c ∈ [' '], Inert c := inert_of_all (g := [' ']) (by decide)
    rw [joinableFrom_append_iff hg hne (.inr ht), imp_iff_right (.inr (.inr hline)), ← List.singleton_append]
    rcases kind_cases s with hbetween | ⟨quote, text, rfl⟩ | hcomment | hblock
    · rw [safe_between_iff hbetween]
      by_cases hblank : ∀ c ∈ g, D.blank c = true
      · rw [tokensFrom_blanks hbetween (inert_of_all hg) hblank hne,
          tokensFrom_blanks hbetween hspace (by simp [D.blank_space]) (by decide), List.append_cancel_left_eq,
          after_blanks hbetween (inert_of_all hg) hblank hne, ih List.not_mem_nil]
        exact ⟨fun h => ⟨hblank, h⟩, And.right⟩
      · -- the query has more characters in its tokens
        refine iff_of_false (fun heq => ?_) fun h => hblank h.1
        have htotal := congrArg total heq
        rw [total_between hbetween (inert_of_all hg) hne, total_between hbetween hspace (by decide)] at htotal
        have hpos := countP_pos_of_not_blank hblank
        have hle := h.total_le (D := D) start
        simp only [List.countP_cons, D.blank_space, List.countP_nil, Bool.not_true, Bool.false_eq_true,
          if_false] at htotal
        omega
    · -- a token of the query has a line break
      refine iff_of_false (fun heq => ?_) fun h => not_safe_quoted h.1
      rw [tokensFrom_quoted (inert_of_all hg)] at heq
      obtain ⟨token, htoken, hmem⟩ := exists_mem_quoted (D := D) quote (List.mem_append_right text hline) t
      refine not_mem_tokensFrom (by decide) (by decide) hs ?_ token (heq ▸ htoken) hmem
      simpa using h.not_mem
    · -- the comment runs on to the end
      have hout : tokensFrom D s ([' '] ++ o) = [] := tokensFrom_line hcomment (by simpa using h.not_mem)
      rw [hout]
      constructor
      · intro hnone
        refine ⟨safe_of_no_tokens_line hcomment hnone, joinableFrom_of_no_tokens ?_⟩
        rw [tokensFrom_append] at hnone
        exact (List.append_eq_nil_iff.1 hnone).2
      · exact fun h => safe_line_iff hcomment h.1
    · rw [tokensFrom_block hblock (inert_of_all hg) hne, tokensFrom_block hblock hspace (by decide),
        after_block hblock (inert_of_all hg) hne, ih List.not_mem_nil]
      exact ⟨fun h => ⟨safe_block hblock, h⟩, And.right⟩

theorem tokens_normalize_iff (sql : Text) :
    tokens D (normalizeQueryForCms sql) = tokens D sql ↔ JoinableFrom D start True sql := by
  obtain ⟨w, t, hw, rfl, ht, hsqueezed⟩ := squeezed_normalize sql
  generalize normalizeQueryForCms (w ++ t) = o at hsqueezed
  rw [tokens, tokens, eq_comm]
  rcases eq_or_ne w [] with rfl | hne
  · rw [List.nil_append, tokensFrom_squeezed_iff hsqueezed List.not_mem_nil]
    rcases ht with rfl | ⟨c, t', rfl, hc⟩
    · exact iff_of_true joinableFrom_nil joinableFrom_nil
    · rw [joinableFrom_cons_iff hc, joinableFrom_cons_iff hc]
  · rw [joinableFrom_append_iff hw hne ht, imp_iff_right (.inl trivial), safe_between_iff (s := start) rfl]
    by_cases hblank : ∀ c ∈ w, D.blank c = true
    · rw [tokensFrom_blanks (s := start) rfl (inert_of_all hw) hblank hne,
        after_blanks (s := start) rfl (inert_of_all hw) hblank hne, and_iff_right hblank,
        ← tokensFrom_squeezed_iff hsqueezed List.not_mem_nil]
      rfl
    · refine iff_of_false (fun heq => ?_) fun h => hblank h.1
      have htotal := congrArg total heq
      rw [total_between (s := start) rfl (inert_of_all hw) hne] at htotal
      have hpos := countP_pos_of_not_blank hblank
      have hle := hsqueezed.total_le (D := D) start
      omega

/-- In an accepted query no token follows a comment after dashes. -/
theorem joinable_iff {sql : Text} (haccepted : hasLineCommentAcrossLines sql = false) :
    JoinableFrom D start True sql ↔ Joinable D sql := by
  constructor
  · exact fun h a run b hrun hcut => (h a run b hrun (hcut.imp (fun h => ⟨trivial, h⟩) id)).1
  · intro h a run b hrun hcut
    refine ⟨h a run b hrun (hcut.imp And.right id), fun hcomment => ?_⟩
    have hdashes : ['-', '-'] <:+: sql :=
      ((infix_of_dashComment a).1 hcomment).trans (hrun.split ▸ List.prefix_append a (run ++ b)).isInfix
    have hline : '\n' ∉ run ++ b := by
      intro hmem
      have hmem' : '\n' ∈ sql := hrun.split ▸ List.mem_append_right a hmem
      simp [hasLineCommentAcrossLines, hmem', hdashes] at haccepted
    exact tokensFrom_line (by rw [hcomment]; rfl) hline

/-- The query on one line has no line break.  It has the tokens of the query, if the form takes it, just when the runs
of white space at its ends and those with a line break do not matter: they are in no quoted text, are white space of the
lexer where they stand in code, and do not end a comment after slashes that tokens follow. -/
theorem one_line_tokens_iff (D : Dialect) (sql : Text) (haccepted : hasLineCommentAcrossLines sql = false) :
    '\n' ∉ normalizeQueryForCms sql ∧ (tokens D (normalizeQueryForCms sql) = tokens D sql ↔ Joinable D sql) := by
  obtain ⟨w, t, -, -, -, hsqueezed⟩ := squeezed_normalize sql
  exact ⟨hsqueezed.not_mem, (tokens_normalize_iff sql).trans (joinable_iff haccepted)⟩

/-- A dialect whose white space is that of ASCII. -/
def asciiDialect : Dialect where
  blank c := c = ' ' || (9 ≤ c.toNat && c.toNat ≤ 13)
  blank_space := by decide
  blank_newline := by decide
  doubles quote := quote = .literal || quote = .double

/-- A query of two lines with a block comment. -/
theorem one_line_tokens_two_lines :
    let sql : Text := "select a /* all\n rows */\n  from t".toList
    normalizeQueryForCms sql = "select a /* all rows */ from t".toList ∧ Joinable asciiDialect sql := by
  intro sql
  have haccepted : hasLineCommentAcrossLines sql = false := by decide +kernel
  have htokens : tokens asciiDialect (normalizeQueryForCms sql) = tokens asciiDialect sql := by decide +kernel
  exact ⟨by decide +kernel, (one_line_tokens_iff asciiDialect sql haccepted).2.1 htokens⟩

/-- A literal with a line break is changed. -/
theorem one_line_tokens_fails :
    ¬ ∀ sql : Text, hasLineCommentAcrossLines sql = false →
      '\n' ∉ normalizeQueryForCms sql ∧ tokens asciiDialect (normalizeQueryForCms sql) = tokens asciiDialect sql := by
  intro h
  have hliteral := (h "select 'a\nb'".toList (by decide +kernel)).2
  revert hliteral
  decide +kernel

end CubridWebManager.QueryPlan
