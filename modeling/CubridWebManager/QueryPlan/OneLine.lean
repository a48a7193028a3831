import CubridWebManager.Lib.JsText
import CubridWebManager.Lib.SepList
import CubridWebManager.Lib.SqlLexer

/-!
# The query of a plan on one line

CMS keeps the query of a plan on one line, so the forms join the lines of the query (`normalizeQueryForCms`), and turn
down a query of several lines with a `--` in it.

The text that comes out is the query with its runs of white space rewritten: those at its two ends are gone, and those
with a line break are one space (`squeezed_normalize`).
-/

namespace CubridWebManager.QueryPlan

def hasLineCommentAcrossLines (sql : Text) : Bool := decide ('\n' ∈ sql) && decide (['-', '-'] <:+: sql)

def normalizeQueryForCms (sql : Text) : Text :=
  [' '].intercalate (((sql.splitOn '\n').map Text.trim).filter (· ≠ []))

/-! ### What the query means -/

/-- The longest run of white space at a place of the text. -/
structure WhiteRun (text a run b : Text) : Prop where
  split : text = a ++ (run ++ b)
  ne_nil : run ≠ []
  white : Trim.All Text.isSpace run
  left : ∀ c ∈ a.getLast?, Text.isSpace c = false
  right : ∀ c ∈ b.head?, Text.isSpace c = false

open SqlLexer in
/-- For a lexer that comes to the run in the state and finds `b` after it, the run is none that matters: in code all
of it is white space of the lexer, it is in no quoted text, and no token follows a comment that it ends. -/
def Spared (D : Dialect) (s : State) (run b : Text) : Prop :=
  match s.kind with
  | .code | .dash | .slash | .closing _ => ∀ c ∈ run, D.blank c = true
  | .quoted _ => False
  | .slashComment => tokensFrom D s (run ++ b) = []
  | .dashComment | .blockComment | .star => True

open SqlLexer in
/-- The runs of white space that stand at an end of the text or have a line break do not matter. -/
def Joinable (D : Dialect) (sql : Text) : Prop :=
  ∀ a run b, WhiteRun sql a run b → a = [] ∨ b = [] ∨ '\n' ∈ run → Spared D (after D start a) run b

/-! ### The runs of white space -/

/-- The text begins with a character that is no white space. -/
def Solid (t : Text) : Prop := ∃ c t', t = c :: t' ∧ Text.isSpace c = false

/-- The second text is the first one, which begins with no white space, after its white space is rewritten. -/
inductive Squeezed : Text → Text → Prop
  | tail {w : Text} (hw : Trim.All Text.isSpace w) : Squeezed w []
  | keep {c : Char} {t o : Text} (hc : Text.isSpace c = false) (h : Squeezed t o) : Squeezed (c :: t) (c :: o)
  /-- White space inside a line. -/
  | run {g t o : Text} (hg : Trim.All Text.isSpace g) (hne : g ≠ []) (hline : '\n' ∉ g) (ht : Solid t)
      (h : Squeezed t o) : Squeezed (g ++ t) (g ++ o)
  /-- White space between two lines that are not blank. -/
  | join {g t o : Text} (hg : Trim.All Text.isSpace g) (hline : '\n' ∈ g) (ht : Solid t) (h : Squeezed t o) :
      Squeezed (g ++ t) (' ' :: o)

theorem isSpace_newline : Text.isSpace '\n' = true := by decide

theorem Squeezed.not_mem {t o : Text} (h : Squeezed t o) : '\n' ∉ o := by
  induction h with
  | tail => exact List.not_mem_nil
  | keep hc h ih =>
    rw [List.mem_cons, not_or]
    refine ⟨?_, ih⟩
    rintro rfl
    rw [isSpace_newline] at hc
    cases hc
  | run hg hne hline ht h ih => exact fun hmem => (List.mem_append.1 hmem).elim hline ih
  | join hg hline ht h ih => simpa using ih

/-- A line that is put before. -/
theorem Squeezed.line {m t o : Text} (hm : '\n' ∉ m) (hlast : ∀ c ∈ m.getLast?, Text.isSpace c = false)
    (h : Squeezed t o) : Squeezed (m ++ t) (m ++ o) := by
  obtain ⟨n, hn⟩ : ∃ n, m.length = n := ⟨_, rfl⟩
  induction n using Nat.strong_induction_on generalizing m with
  | _ n ih =>
    cases m with
    | nil => exact h
    | cons c m =>
      cases hc : Text.isSpace c with
      | false =>
        refine .keep hc (ih m.length (by simp [← hn]) (fun hmem => hm (List.mem_cons_of_mem _ hmem)) ?_ rfl)
        intro d hd
        refine hlast d ?_
        cases m with
        | nil => cases hd
        | cons e m => exact hd
      | true =>
        -- the line goes on after the white space, since it does not end with any
        obtain ⟨w, hw, heq⟩ := Trim.exists_dropWhile_parts Text.isSpace (c :: m)
        have hne : w ≠ [] := by
          rintro rfl
          have hhead := Trim.head_dropWhile (p := Text.isSpace) (l := c :: m) (x := c) (by
            rw [List.nil_append] at heq
            rw [← heq]
            rfl)
          rw [hc] at hhead
          cases hhead
        cases hrest : (c :: m).dropWhile Text.isSpace with
        | nil =>
          rw [hrest, List.append_nil] at heq
          obtain ⟨d, hd⟩ : ∃ d, (c :: m).getLast? = some d := ⟨_, List.getLast?_eq_some_getLast (List.cons_ne_nil c m)⟩
          have hspace := hw d (heq ▸ List.mem_of_getLast? hd)
          rw [hlast d hd] at hspace
          cases hspace
        | cons d r =>
          have hd : Text.isSpace d = false := Trim.head_dropWhile (p := Text.isSpace) (l := c :: m) (by simp [hrest])
          rw [hrest] at heq
          rw [heq] at hm hlast hn ⊢
          rw [List.mem_append, not_or] at hm
          rw [List.append_assoc, List.append_assoc]
          refine .run hw hne hm.1 ⟨d, r ++ t, rfl, hd⟩ (ih (d :: r).length ?_ hm.2 (fun e he => hlast e ?_) rfl)
          · have hpos := List.length_pos_iff.2 hne
            rw [List.length_append] at hn
            omega
          · rw [List.getLast?_append_of_ne_nil _ (List.cons_ne_nil d r)]
            exact he

/-- Only white space is rewritten to nothing. -/
theorem Squeezed.ne_nil {t o : Text} (h : Squeezed t o) (ht : Solid t) : o ≠ [] := by
  obtain ⟨c, t', heq, hc⟩ := ht
  cases h with
  | tail hw =>
    rw [hw c (heq ▸ List.mem_cons_self)] at hc
    cases hc
  | keep => exact List.cons_ne_nil _ _
  | run hg hne => exact fun h => hne (List.append_eq_nil_iff.1 h).1
  | join => exact List.cons_ne_nil _ _

theorem Squeezed.of_nil {t o : Text} (h : Squeezed t o) (ht : t = []) : o = [] := by
  cases h with
  | tail => rfl
  | keep => cases ht
  | run hg hne => exact absurd (List.append_eq_nil_iff.1 ht).1 hne
  | join hg hline =>
    rw [(List.append_eq_nil_iff.1 ht).1] at hline
    cases hline

/-- The lines put together are white space and the text that their items are rewritten from. -/
theorem squeezed_lines (lines : List Text) (hlines : ∀ line ∈ lines, '\n' ∉ line) :
    ∃ w t, Trim.All Text.isSpace w ∧ ['\n'].intercalate lines = w ++ t ∧ (t = [] ∨ Solid t) ∧
      Squeezed t ([' '].intercalate ((lines.map Text.trim).filter (· ≠ []))) := by
  induction lines with
  | nil => exact ⟨[], [], .nil, rfl, .inl rfl, .tail .nil⟩
  | cons line lines ih =>
    obtain ⟨w₀, t₀, hw₀, heq₀, hsolid₀, hsqueezed₀⟩ := ih fun l hl => hlines l (List.mem_cons_of_mem _ hl)
    -- what follows the line is white space before the text of the other lines
    obtain ⟨w₁, hw₁, heq₁, hline₁⟩ : ∃ w₁, Trim.All Text.isSpace w₁ ∧
        ['\n'].intercalate (line :: lines) = line ++ (w₁ ++ t₀) ∧ (t₀ ≠ [] → '\n' ∈ w₁) := by
      cases lines with
      | nil =>
        obtain ⟨rfl, rfl⟩ := List.append_eq_nil_iff.1 heq₀.symm
        exact ⟨[], .nil, by simp, fun h => absurd rfl h⟩
      | cons next lines =>
        refine ⟨'\n' :: w₀, ?_, ?_, fun _ => List.mem_cons_self⟩
        · intro c hc
          rcases List.mem_cons.1 hc with rfl | hc
          · exact isSpace_newline
          · exact hw₀ c hc
        · rw [List.intercalate_cons_cons, heq₀]
          simp
    rw [List.map_cons, List.filter_cons]
    by_cases hblank : Text.trim line = []
    · rw [if_neg (by simp [hblank])]
      have hspace : Trim.All Text.isSpace line := Trim.all_of_trim_eq_nil hblank
      exact ⟨line ++ w₁, t₀, hspace.append hw₁, by rw [heq₁, List.append_assoc], hsolid₀, hsqueezed₀⟩
    · rw [if_pos (by simp [hblank])]
      obtain ⟨w, w', hw, hw', hparts⟩ := Trim.exists_trim_parts Text.isSpace line
      have hbare : Trim.Bare Text.isSpace (Text.trim line) := Trim.bare_trim Text.isSpace line
      have hmem : '\n' ∉ Text.trim line := fun h => hlines line List.mem_cons_self (Trim.mem_of_mem_trim h)
      have hsolid : ∀ r, Solid (Text.trim line ++ r) := by
        intro r
        obtain ⟨c, m, hm⟩ := List.exists_cons_of_ne_nil hblank
        exact ⟨c, m ++ r, by rw [hm, List.cons_append], hbare.1 c (by rw [hm, List.head?_cons]; rfl)⟩
      refine ⟨w, Text.trim line ++ (w' ++ (w₁ ++ t₀)), hw, ?_, .inr (hsolid _), ?_⟩
      · rw [heq₁]
        nth_rewrite 1 [hparts]
        simp only [List.append_assoc]
        rfl
      · cases hitems : (lines.map Text.trim).filter (· ≠ []) with
        | nil =>
          rw [hitems] at hsqueezed₀
          obtain rfl : t₀ = [] := hsolid₀.resolve_right fun h => hsqueezed₀.ne_nil h rfl
          rw [List.intercalate_singleton, ← List.append_nil (Text.trim line), List.append_assoc]
          exact (Squeezed.tail (hw'.append (by simpa using hw₁))).line hmem hbare.2
        | cons item items =>
          rw [hitems] at hsqueezed₀
          have hne : t₀ ≠ [] := by
            intro hnil
            have hitem : item ≠ [] := by
              have hmem : item ∈ (lines.map Text.trim).filter (· ≠ []) := hitems ▸ List.mem_cons_self
              exact of_decide_eq_true (List.mem_filter.1 hmem).2
            have hempty := hsqueezed₀.of_nil hnil
            cases items with
            | nil => exact hitem (by rwa [List.intercalate_singleton] at hempty)
            | cons next items =>
              rw [List.intercalate_cons_cons, List.append_assoc] at hempty
              exact hitem (List.append_eq_nil_iff.1 hempty).1
          rw [List.intercalate_cons_cons, List.append_assoc]
          refine Squeezed.line hmem hbare.2 ?_
          rw [← List.append_assoc]
          exact .join (hw'.append hw₁) (List.mem_append_right _ (hline₁ hne)) (hsolid₀.resolve_left hne) hsqueezed₀

/-- The query is white space and the text that the query on one line is rewritten from. -/
theorem squeezed_normalize (sql : Text) :
    ∃ w t, Trim.All Text.isSpace w ∧ sql = w ++ t ∧ (t = [] ∨ Solid t) ∧ Squeezed t (normalizeQueryForCms sql) := by
  obtain ⟨w, t, hw, heq, h⟩ := squeezed_lines (sql.splitOn '\n') fun _ hline => SepList.not_mem_of_mem_splitOn hline
  rw [List.intercalate_splitOn] at heq
  exact ⟨w, t, hw, heq, h⟩

end CubridWebManager.QueryPlan
