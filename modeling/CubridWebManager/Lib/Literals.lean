import CubridWebManager.Lib.JsText
import CubridWebManager.Lib.Trim

/-!
# Texts with literals

A literal stands between two equal quotation marks, and a character behind a backslash belongs to it whatever it is.  A
text is a sequence of literals and of characters outside them, up to a literal that is not closed (`exists_segments`).
`tidy` collapses the white space outside the literals.
-/

namespace Literals

def isQuote (c : Char) : Bool := c = '\x22' || c = '\x27'

/-- What can stand between two marks `q`. -/
inductive Body (q : Char) : Text → Prop
  | nil : Body q []
  | plain {c : Char} {t : Text} (hmark : c ≠ q) (hescape : c ≠ '\\') (h : Body q t) : Body q (c :: t)
  | escape {c : Char} {t : Text} (h : Body q t) : Body q ('\\' :: c :: t)

/-- The text behind a mark `q` in which the literal is closed. -/
def Closed (q : Char) (t : Text) : Prop := ∃ body rest, Body q body ∧ t = body ++ q :: rest

inductive Segment
  | plain (c : Char) (hc : isQuote c = false)
  | literal (q : Char) (hq : isQuote q = true) (body : Text) (hbody : Body q body)

namespace Segment

def text : Segment → Text
  | plain c _ => [c]
  | literal q _ body _ => q :: body ++ [q]

/-- The character outside the literals. -/
def Is (c : Char) : Segment → Bool
  | plain c' _ => c' = c
  | literal .. => false

def isSpace : Segment → Bool
  | plain c _ => Text.isSpace c
  | literal .. => false

end Segment

def textOf (segments : List Segment) : Text := segments.flatMap Segment.text

def blank : Segment := .plain ' ' (by decide)

/-- Each run of white space outside the literals becomes a space, none if a run has begun in front. -/
def squeeze (inRun : Bool) : List Segment → List Segment
  | [] => []
  | s :: rest =>
    if s.isSpace then if inRun then squeeze true rest else blank :: squeeze true rest else s :: squeeze false rest

def tidy (segments : List Segment) : List Segment := Trim.trim Segment.isSpace (squeeze false segments)

variable {q : Char} {s : Segment} {segments : List Segment}

theorem isSpace_of_isQuote (h : isQuote q = true) : Text.isSpace q = false := by
  simp only [isQuote, Bool.or_eq_true, decide_eq_true_eq] at h
  rcases h with rfl | rfl <;> decide

theorem ne_backslash (h : isQuote q = true) : q ≠ '\\' := by
  rintro rfl
  exact absurd h (by decide)

@[simp]
theorem textOf_nil : textOf [] = [] := rfl

@[simp]
theorem textOf_cons (s : Segment) (segments : List Segment) : textOf (s :: segments) = s.text ++ textOf segments := rfl

@[simp]
theorem textOf_append (segments segments' : List Segment) :
    textOf (segments ++ segments') = textOf segments ++ textOf segments' :=
  List.flatMap_append

theorem textOf_plain (c : Char) (hc : isQuote c = false) (segments : List Segment) :
    textOf (.plain c hc :: segments) = c :: textOf segments := rfl

theorem textOf_literal (q : Char) (hq : isQuote q = true) (body : Text) (hbody : Body q body) (segments : List Segment)
    (t : Text) : textOf (.literal q hq body hbody :: segments) ++ t = q :: (body ++ q :: (textOf segments ++ t)) := by
  simp [Segment.text]

/-- Every text is read as segments up to a literal that is not closed. -/
theorem exists_segments (t : Text) : ∃ segments rest, t = textOf segments ++ rest ∧
    (rest = [] ∨ ∃ q tail, rest = q :: tail ∧ isQuote q = true ∧ ¬ Closed q tail) := by
  induction hn : t.length using Nat.strong_induction_on generalizing t with
  | h n ih =>
    match t with
    | [] => exact ⟨[], [], rfl, .inl rfl⟩
    | c :: t =>
      cases hc : isQuote c with
      | false =>
        obtain ⟨segments, rest, ht, hrest⟩ := ih t.length (by rw [← hn, List.length_cons]; omega) t rfl
        exact ⟨.plain c hc :: segments, rest, by rw [textOf_plain, List.cons_append, ← ht], hrest⟩
      | true =>
        by_cases hclosed : Closed c t
        · obtain ⟨body, t', hbody, rfl⟩ := hclosed
          obtain ⟨segments, rest, ht, hrest⟩ := ih t'.length
            (by rw [← hn, List.length_cons, List.length_append, List.length_cons]; omega) t' rfl
          exact ⟨.literal c hc body hbody :: segments, rest, by rw [textOf_literal, ← ht], hrest⟩
        · exact ⟨[], c :: t, rfl, .inr ⟨c, t, rfl, hc, hclosed⟩⟩

/-! ### What `tidy` keeps -/

theorem mem_squeeze (hs : s.isSpace = false) (inRun : Bool) : s ∈ squeeze inRun segments ↔ s ∈ segments := by
  induction segments generalizing inRun with
  | nil => rfl
  | cons s' rest ih =>
    unfold squeeze
    split
    · rename_i hspace
      have hne : s ≠ s' := by
        rintro rfl
        rw [hs] at hspace
        cases hspace
      have hblank : s ≠ blank := by
        rintro rfl
        exact absurd hs (by decide)
      split
      · rw [ih, List.mem_cons, or_iff_right hne]
      · rw [List.mem_cons, ih, List.mem_cons, or_iff_right hne, or_iff_right hblank]
    · rw [List.mem_cons, ih, List.mem_cons]

theorem mem_tidy (hs : s.isSpace = false) : s ∈ tidy segments ↔ s ∈ segments := by
  refine Iff.trans ?_ (mem_squeeze hs false)
  obtain ⟨w, w', hw, hw', hparts⟩ := Trim.exists_trim_parts Segment.isSpace (squeeze false segments)
  constructor
  · exact Trim.mem_of_mem_trim
  · intro hmem
    rw [hparts, List.mem_append, List.mem_append] at hmem
    rcases hmem with (hmem | hmem) | hmem
    · rw [hw s hmem] at hs
      cases hs
    · exact hmem
    · rw [hw' s hmem] at hs
      cases hs

end Literals
