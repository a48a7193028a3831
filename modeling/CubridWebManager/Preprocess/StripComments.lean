import CubridWebManager.Lib.Literals
import CubridWebManager.Lib.Trim

/-!
# Stripping comments

`stripComments` of `scripts/generate-param-catalog.mjs` takes the comments out of a source text: a line comment is dropped
and a block comment becomes a space and its line breaks, and nothing in a literal is a comment.  A text is refused only for
a block comment that is not closed.

`Source` says how a text is made of code, literals and comments; `stripComments` returns such a text without the comments
(`stripComments_eq_ok_iff`), and there is nothing left to strip in what it returns (`stripComments_again`).
-/

namespace CubridWebManager.Preprocess

open Literals

/-! ### The code -/

/-- What stands in front of the first closing mark of a block comment, and what stands behind the mark. -/
def closeComment : Text → Option (Text × Text)
  | [] => none
  | c :: t =>
    if c = '*' ∧ t.head? = some '/' then some ([], t.tail)
    else (closeComment t).map fun r => (c :: r.1, r.2)

/-- A literal behind its first mark, with its last one if there is one, and what stands behind it. -/
def takeLiteral (q : Char) : Text → Text × Text
  | [] => ([], [])
  | d :: t =>
    if d = q then ([d], t)
    else if d = '\\' then
      match t with
      | [] => ([d], [])
      | e :: t => (d :: e :: (takeLiteral q t).1, (takeLiteral q t).2)
    else (d :: (takeLiteral q t).1, (takeLiteral q t).2)

def isBreak (c : Char) : Bool := c = '\n'

theorem length_closeComment {t body rest : Text} (h : closeComment t = some (body, rest)) :
    t.length = body.length + 2 + rest.length := by
  induction t generalizing body rest with
  | nil => cases h
  | cons c t ih =>
    rw [closeComment] at h
    split at h
    · rename_i hmark
      cases h
      obtain ⟨t', rfl⟩ : ∃ t', t = '/' :: t' := List.head?_eq_some_iff.1 hmark.2
      simp only [List.length_cons, List.length_nil, List.tail_cons]
      omega
    · obtain ⟨r, hr, hcut⟩ := Option.map_eq_some_iff.1 h
      have hlength := ih hr
      cases hcut
      simp only [List.length_cons]
      omega

theorem takeLiteral_mark (q : Char) (t : Text) : takeLiteral q (q :: t) = ([q], t) := by
  rw [takeLiteral.eq_def]
  exact if_pos rfl

theorem takeLiteral_plain {q d : Char} (hmark : d ≠ q) (hescape : d ≠ '\\') (t : Text) :
    takeLiteral q (d :: t) = (d :: (takeLiteral q t).1, (takeLiteral q t).2) := by
  rw [takeLiteral.eq_def]
  exact (if_neg hmark).trans (if_neg hescape)

theorem takeLiteral_escape {q : Char} (hq : q ≠ '\\') (e : Char) (t : Text) :
    takeLiteral q ('\\' :: e :: t) = ('\\' :: e :: (takeLiteral q t).1, (takeLiteral q t).2) := by
  rw [takeLiteral.eq_def]
  exact (if_neg hq.symm).trans (if_pos rfl)

theorem takeLiteral_append (q : Char) (t : Text) : (takeLiteral q t).1 ++ (takeLiteral q t).2 = t := by
  fun_induction takeLiteral q t with
  | case1 => rfl
  | case2 => rfl
  | case3 => rfl
  | case4 _ _ _ ih => simpa using ih
  | case5 _ _ _ _ ih => simpa using ih

def stripComments : Text → Except Text Text
  | [] => .ok []
  | c :: t =>
    if c = '/' ∧ t.head? = some '*' then
      match _hclose : closeComment t.tail with
      | none => .error "Unterminated block comment".toList
      | some (body, rest) => (fun out => ' ' :: (body.filter isBreak ++ out)) <$> stripComments rest
    else if c = '/' ∧ t.head? = some '/' then stripComments (t.dropWhile fun d => !isBreak d)
    else if isQuote c then (fun out => c :: ((takeLiteral c t).1 ++ out)) <$> stripComments (takeLiteral c t).2
    else (fun out => c :: out) <$> stripComments t
termination_by t => t.length
decreasing_by
  · have hlength := length_closeComment _hclose
    rw [List.length_tail] at hlength
    simp only [List.length_cons]
    omega
  · have hlength := (t.dropWhile_suffix fun d => !isBreak d).length_le
    simp only [List.length_cons]
    omega
  · have hlength := congrArg List.length (takeLiteral_append c t)
    rw [List.length_append] at hlength
    simp only [List.length_cons]
    omega
  · simp

theorem stripComments_cons (c : Char) (t : Text) : stripComments (c :: t) =
    if c = '/' ∧ t.head? = some '*' then
      match closeComment t.tail with
      | none => .error "Unterminated block comment".toList
      | some (body, rest) => (fun out => ' ' :: (body.filter isBreak ++ out)) <$> stripComments rest
    else if c = '/' ∧ t.head? = some '/' then stripComments (t.dropWhile fun d => !isBreak d)
    else if isQuote c then (fun out => c :: ((takeLiteral c t).1 ++ out)) <$> stripComments (takeLiteral c t).2
    else (fun out => c :: out) <$> stripComments t := by
  rw [stripComments]
  split
  · cases closeComment t.tail <;> rfl
  · rfl

/-! ### What a text is made of -/

/-- A source text, and the text without its comments.  A literal that is not closed goes on to the end. -/
inductive Source : Text → Text → Prop
  | nil : Source [] []
  | code {c : Char} {t out : Text} (hc : isQuote c = false) (hslash : c = '/' → ∀ d ∈ t.head?, d ≠ '/' ∧ d ≠ '*')
    (h : Source t out) : Source (c :: t) (c :: out)
  | literal {q : Char} {body t out : Text} (hq : isQuote q = true) (hbody : Body q body) (h : Source t out) :
    Source (q :: (body ++ q :: t)) (q :: (body ++ q :: out))
  | unclosed {q : Char} {t : Text} (hq : isQuote q = true) (hopen : ¬ Closed q t) : Source (q :: t) (q :: t)
  | line {comment t out : Text} (hcomment : ∀ c ∈ comment, isBreak c = false) (hend : ∀ c ∈ t.head?, isBreak c = true)
    (h : Source t out) : Source ('/' :: '/' :: (comment ++ t)) out
  | block {comment t out : Text} (hcomment : ¬ ['*', '/'] <:+: comment ++ ['*']) (h : Source t out) :
    Source ('/' :: '*' :: (comment ++ '*' :: '/' :: t)) (' ' :: (comment.filter isBreak ++ out))

theorem closeComment_append {body : Text} (hbody : ¬ ['*', '/'] <:+: body ++ ['*']) (rest : Text) :
    closeComment (body ++ '*' :: '/' :: rest) = some (body, rest) := by
  induction body with
  | nil => rfl
  | cons c body ih =>
    have hmark : ¬(c = '*' ∧ (body ++ '*' :: '/' :: rest).head? = some '/') := by
      rintro ⟨rfl, hhead⟩
      cases body with
      | nil => cases hhead
      | cons d body =>
        cases hhead
        exact hbody ⟨[], body ++ ['*'], by simp⟩
    have hrest : ¬ ['*', '/'] <:+: body ++ ['*'] := fun h => hbody (h.trans (List.suffix_cons c _).isInfix)
    rw [List.cons_append, closeComment, if_neg hmark, ih hrest]
    rfl

theorem exists_of_closeComment {t body rest : Text} (h : closeComment t = some (body, rest)) :
    t = body ++ '*' :: '/' :: rest ∧ ¬ ['*', '/'] <:+: body ++ ['*'] := by
  induction t generalizing body rest with
  | nil => cases h
  | cons c t ih =>
    rw [closeComment] at h
    by_cases hmark : c = '*' ∧ t.head? = some '/'
    · rw [if_pos hmark] at h
      cases h
      obtain ⟨t', rfl⟩ : ∃ t', t = '/' :: t' := List.head?_eq_some_iff.1 hmark.2
      exact ⟨by rw [hmark.1]; rfl, by decide⟩
    · rw [if_neg hmark] at h
      obtain ⟨r, hr, hcut⟩ := Option.map_eq_some_iff.1 h
      obtain ⟨ht, hbody⟩ := ih hr
      cases hcut
      refine ⟨by rw [ht]; rfl, fun hinfix => ?_⟩
      -- the first two characters are not the mark, since the loop has gone on
      rw [List.cons_append, List.infix_cons_iff] at hinfix
      rcases hinfix with hprefix | hinfix
      · obtain ⟨s, hs⟩ := hprefix
        injection hs with hc hs
        refine hmark ⟨hc.symm, ?_⟩
        cases hb : r.1 with
        | nil =>
          rw [hb] at hs
          cases hs
        | cons d b =>
          rw [hb] at hs
          injection hs with hd
          rw [ht, hb, ← hd]
          rfl
      · exact hbody hinfix

theorem takeLiteral_body {q : Char} {body : Text} (hq : isQuote q = true) (hbody : Body q body) (rest : Text) :
    takeLiteral q (body ++ q :: rest) = (body ++ [q], rest) := by
  induction hbody with
  | nil => exact takeLiteral_mark q rest
  | plain hmark hescape _ ih =>
    rw [List.cons_append, takeLiteral_plain hmark hescape, ih]
    rfl
  | escape _ ih =>
    rw [List.cons_append, List.cons_append, takeLiteral_escape (ne_backslash hq), ih]
    rfl

theorem takeLiteral_of_not_closed {q : Char} {t : Text} (hopen : ¬ Closed q t) : takeLiteral q t = (t, []) := by
  fun_induction takeLiteral q t with
  | case1 => rfl
  | case2 t => exact absurd ⟨[], t, .nil, rfl⟩ hopen
  | case3 => rfl
  | case4 e t hne ih =>
    have hrest : ¬ Closed q t := by
      rintro ⟨body, rest, hbody, rfl⟩
      exact hopen ⟨'\\' :: e :: body, rest, .escape hbody, rfl⟩
    rw [ih hrest]
  | case5 d t hne hescape ih =>
    have hrest : ¬ Closed q t := by
      rintro ⟨body, rest, hbody, rfl⟩
      exact hopen ⟨d :: body, rest, .plain hne hescape hbody, rfl⟩
    rw [ih hrest]

theorem exists_of_map_ok {f : Text → Text} {r : Except Text Text} {out : Text} (h : f <$> r = .ok out) :
    ∃ out', r = .ok out' ∧ out = f out' := by
  cases r with
  | error e => cases h
  | ok out' =>
    cases h
    exact ⟨out', rfl, rfl⟩

theorem source_of_stripComments {src out : Text} (h : stripComments src = .ok out) : Source src out := by
  induction hn : src.length using Nat.strong_induction_on generalizing src out with
  | h n ih =>
    cases src with
    | nil =>
      rw [stripComments] at h
      cases h
      exact .nil
    | cons c t =>
      rw [List.length_cons] at hn
      rw [stripComments_cons] at h
      by_cases hblock : c = '/' ∧ t.head? = some '*'
      · obtain ⟨rfl, hhead⟩ := hblock
        obtain ⟨t, rfl⟩ : ∃ t', t = '*' :: t' := List.head?_eq_some_iff.1 hhead
        rw [if_pos ⟨rfl, rfl⟩, List.tail_cons] at h
        cases hclose : closeComment t with
        | none =>
          rw [hclose] at h
          cases h
        | some r =>
          obtain ⟨body, rest⟩ := r
          have hlength := length_closeComment hclose
          obtain ⟨ht, hbody⟩ := exists_of_closeComment hclose
          rw [hclose] at h
          obtain ⟨out', hout', rfl⟩ := exists_of_map_ok h
          rw [ht]
          rw [List.length_cons] at hn
          exact .block hbody (ih rest.length (by omega) hout' rfl)
      rw [if_neg hblock] at h
      by_cases hline : c = '/' ∧ t.head? = some '/'
      · obtain ⟨rfl, hhead⟩ := hline
        obtain ⟨t, rfl⟩ : ∃ t', t = '/' :: t' := List.head?_eq_some_iff.1 hhead
        rw [if_pos ⟨rfl, rfl⟩, List.dropWhile_cons_of_pos (by decide)] at h
        rw [List.length_cons] at hn
        have hlength := (t.dropWhile_suffix fun d => !isBreak d).length_le
        have hsource := ih _ (by omega) h rfl
        have hcomment : ∀ d ∈ t.takeWhile fun d => !isBreak d, isBreak d = false := by
          intro d hd
          simpa using List.mem_takeWhile_imp hd
        have hend : ∀ d ∈ (t.dropWhile fun d => !isBreak d).head?, isBreak d = true := by
          intro d hd
          have hstop := List.head?_dropWhile_not (fun d => !isBreak d) t
          rw [Option.mem_def.1 hd] at hstop
          simpa using hstop
        have hline := Source.line hcomment hend hsource
        rwa [List.takeWhile_append_dropWhile] at hline
      rw [if_neg hline] at h
      by_cases hquote : isQuote c = true
      · rw [if_pos hquote] at h
        obtain ⟨out', hout', rfl⟩ := exists_of_map_ok h
        by_cases hclosed : Closed c t
        · obtain ⟨body, rest, hbody, rfl⟩ := hclosed
          rw [takeLiteral_body hquote hbody] at hout' ⊢
          rw [List.length_append, List.length_cons] at hn
          have hsource := Source.literal hquote hbody (ih rest.length (by omega) hout' rfl)
          rwa [List.append_assoc, List.singleton_append]
        · rw [takeLiteral_of_not_closed hclosed] at hout' ⊢
          rw [stripComments] at hout'
          cases hout'
          rw [List.append_nil]
          exact .unclosed hquote hclosed
      · rw [if_neg hquote] at h
        obtain ⟨out', hout', rfl⟩ := exists_of_map_ok h
        refine .code (Bool.eq_false_iff.2 hquote) (fun hc d hd => ?_) (ih t.length (by omega) hout' rfl)
        constructor
        · rintro rfl
          exact hline ⟨hc, hd⟩
        · rintro rfl
          exact hblock ⟨hc, hd⟩

theorem stripComments_quote {q : Char} (hq : isQuote q = true) (t : Text) :
    stripComments (q :: t) = (fun out => q :: ((takeLiteral q t).1 ++ out)) <$> stripComments (takeLiteral q t).2 := by
  have hne : q ≠ '/' := by
    rintro rfl
    exact absurd hq (by decide)
  rw [stripComments_cons, if_neg fun h => hne h.1, if_neg fun h => hne h.1, if_pos hq]

theorem stripComments_of_source {src out : Text} (h : Source src out) : stripComments src = .ok out := by
  induction h with
  | nil => rw [stripComments]
  | @code c t out hc hslash _ ih =>
    have hblock : ¬(c = '/' ∧ t.head? = some '*') := fun h => (hslash h.1 '*' h.2).2 rfl
    have hline : ¬(c = '/' ∧ t.head? = some '/') := fun h => (hslash h.1 '/' h.2).1 rfl
    rw [stripComments_cons, if_neg hblock, if_neg hline, hc, ih]
    rfl
  | @literal q body t out hq hbody _ ih =>
    rw [stripComments_quote hq, takeLiteral_body hq hbody, ih]
    simp [Functor.map, Except.map]
  | @unclosed q t hq hopen =>
    rw [stripComments_quote hq, takeLiteral_of_not_closed hopen, stripComments]
    simp [Functor.map, Except.map]
  | @line comment t out hcomment hend _ ih =>
    have hrest : ('/' :: (comment ++ t)).dropWhile (fun d => !isBreak d) = t := by
      have hskip : Trim.All (fun d => !isBreak d) comment := fun d hd => by simp [hcomment d hd]
      rw [List.dropWhile_cons_of_pos (by decide), Trim.dropWhile_append_all hskip,
        Trim.dropWhile_of_head fun d hd => by simp [hend d hd]]
    rw [stripComments_cons, if_neg fun h => absurd h.2 (by simp), if_pos ⟨rfl, rfl⟩, hrest, ih]
  | @block comment t out hcomment _ ih =>
    rw [stripComments_cons, if_pos ⟨rfl, rfl⟩, List.tail_cons, closeComment_append hcomment]
    change (fun out => ' ' :: (comment.filter isBreak ++ out)) <$> stripComments t = _
    rw [ih]
    rfl

/-- A text is not refused exactly if it can be read as code, literals and comments, and the comments are taken out. -/
theorem stripComments_eq_ok_iff {src out : Text} : stripComments src = .ok out ↔ Source src out :=
  ⟨source_of_stripComments, stripComments_of_source⟩

/-! ### What is left -/

theorem Source.head_kept {t out : Text} (h : Source t out) (ht : ∀ d ∈ t.head?, d ≠ '/' ∧ d ≠ '*') :
    ∀ d ∈ out.head?, d ≠ '/' ∧ d ≠ '*' := by
  cases h with
  | nil => exact ht
  | code => exact ht
  | literal => exact ht
  | unclosed => exact ht
  | line => exact absurd rfl (ht '/' rfl).1
  | block => exact absurd rfl (ht '/' rfl).1

theorem Source.stripped {src out : Text} (h : Source src out) : Source out out := by
  induction h with
  | nil => exact .nil
  | code hc hslash h ih => exact .code hc (fun hslash' => h.head_kept (hslash hslash')) ih
  | literal hq hbody _ ih => exact .literal hq hbody ih
  | unclosed hq hopen => exact .unclosed hq hopen
  | line _ _ _ ih => exact ih
  | @block comment t out _ _ ih =>
    have hbreaks : ∀ breaks : Text, (∀ c ∈ breaks, isBreak c = true) → Source (breaks ++ out) (breaks ++ out) := by
      intro breaks hbreaks
      induction breaks with
      | nil => exact ih
      | cons c breaks ihb =>
        obtain rfl : c = '\n' := of_decide_eq_true (hbreaks c List.mem_cons_self)
        have hrest := ihb fun c hc => hbreaks c (List.mem_cons_of_mem _ hc)
        exact .code (by decide) (fun hslash => absurd hslash (by decide)) hrest
    have hrest := hbreaks (comment.filter isBreak) fun c hc => (List.mem_filter.1 hc).2
    exact .code (by decide) (fun hslash => absurd hslash (by decide)) hrest

theorem Source.count_break {src out : Text} (h : Source src out) : out.count '\n' = src.count '\n' := by
  induction h with
  | nil => rfl
  | code _ _ _ ih => rw [List.count_cons, List.count_cons, ih]
  | literal _ _ _ ih => simp only [List.count_cons, List.count_append, ih]
  | unclosed => rfl
  | @line comment t out hcomment _ _ ih =>
    have hnone : comment.count '\n' = 0 := by
      refine List.count_eq_zero.2 fun hmem => ?_
      exact absurd (hcomment '\n' hmem) (by decide)
    simp [List.count_append, hnone, ih]
  | @block comment t out _ _ ih =>
    have hbreaks : (comment.filter isBreak).count '\n' = comment.count '\n' := by
      simp [List.count_filter, isBreak]
    simp [List.count_append, hbreaks, ih]

/-- There is nothing to strip in what is left, and it has as many lines. -/
theorem stripComments_again {src out : Text} (h : stripComments src = .ok out) :
    stripComments out = .ok out ∧ out.count '\n' = src.count '\n' :=
  ⟨stripComments_of_source (source_of_stripComments h).stripped, (source_of_stripComments h).count_break⟩

/-- A text in which no comment and no literal begins. -/
theorem Source.of_plain {t : Text} (h : (t.all fun c => !isQuote c && c != '/') = true) : Source t t := by
  induction t with
  | nil => exact .nil
  | cons c t ih =>
    simp only [List.all_cons, Bool.and_eq_true, Bool.not_eq_true', bne_iff_ne, ne_eq] at h
    exact .code h.1.1 (fun hslash => absurd hslash h.1.2) (ih h.2)

/-- A line break in a comment, and a literal that looks like a comment. -/
theorem stripComments_again_literal : ∃ out, stripComments "a/*\n*/'//'".toList = .ok out ∧
    stripComments out = .ok out ∧ out.count '\n' = "a/*\n*/'//'".toList.count '\n' := by
  have hliteral : Source ('\x27' :: (['/', '/'] ++ '\x27' :: [])) ('\x27' :: (['/', '/'] ++ '\x27' :: [])) :=
    .literal (by decide) (.plain (by decide) (by decide) (.plain (by decide) (by decide) .nil)) .nil
  have hblock : Source ('/' :: '*' :: (['\n'] ++ '*' :: '/' :: '\x27' :: (['/', '/'] ++ '\x27' :: []))) _ :=
    .block (by decide) hliteral
  have hsource : Source "a/*\n*/'//'".toList _ := .code (by decide) (fun h => absurd h (by decide)) hblock
  have hstrip := stripComments_of_source hsource
  exact ⟨_, hstrip, stripComments_again hstrip⟩

end CubridWebManager.Preprocess
