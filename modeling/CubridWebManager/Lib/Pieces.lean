import Mathlib.Data.List.Infix

/-!
# Replacing parts of a text

A list is scanned from left to right by a matcher, which says at a place how many elements a match has and how many of
them stay.  What is between the parts that are taken out are the `pieces`, and they are joined with a replacement.  Both
`split(s).join(r)` (`replaceAll`) and a global replacement by a pattern are of this kind.

A word that shares no element with the replacement is in the new list only if it is in a piece
(`infix_of_intercalate`).  Each piece is a part of the old list (`infix_of_mem_pieces`), so that no replacement brings a
word into it, and the pieces between all occurrences of a word do not have it (`not_infix_of_mem_piecesFrom`).
-/

namespace Pieces

variable {α : Type*}

/-- A match: how many of its elements stay, and how many it has. -/
structure Match where
  kept : ℕ
  length : ℕ

/-- The pieces of the list, where `piece` was read since the last match and `skip` elements are left of it. -/
def piecesFrom (find : List α → Option Match) (piece : List α) : ℕ → List α → List (List α)
  | _, [] => [piece]
  | skip + 1, _ :: l => piecesFrom find piece skip l
  | 0, x :: l =>
    match find (x :: l) with
    | some m => (piece ++ (x :: l).take m.kept) :: piecesFrom find [] (m.length - 1) l
    | none => piecesFrom find (piece ++ [x]) 0 l

def pieces (find : List α → Option Match) (l : List α) : List (List α) := piecesFrom find [] 0 l

/-- The replacement in place of what the matches take out. -/
def replace (find : List α → Option Match) (replacement l : List α) : List α :=
  replacement.intercalate (pieces find l)

/-- An occurrence of the word. -/
def occurrence [BEq α] (word l : List α) : Option Match := if word.isPrefixOf l then some ⟨0, word.length⟩ else none

/-- `l.split(word).join(replacement)` -/
def replaceAll [BEq α] (word replacement l : List α) : List α := replace (occurrence word) replacement l

variable {find : List α → Option Match} {word r l piece q : List α}

/-- Pieces are parts of the list. -/
theorem infix_of_mem_piecesFrom (skip : ℕ) (hpiece : skip ≠ 0 → piece = []) (hq : q ∈ piecesFrom find piece skip l) :
    q <:+: piece ++ l := by
  induction l generalizing piece skip with
  | nil =>
    rw [List.append_nil]
    cases skip <;> exact List.mem_singleton.1 hq ▸ List.infix_rfl
  | cons x l ih =>
    cases skip with
    | succ skip =>
      obtain rfl := hpiece (Nat.succ_ne_zero skip)
      exact (ih skip (fun _ => rfl) hq).trans (List.infix_cons List.infix_rfl)
    | zero =>
      rw [piecesFrom] at hq
      cases hfind : find (x :: l) with
      | none =>
        rw [hfind] at hq
        have hrest := ih 0 (fun h => absurd rfl h) hq
        rwa [List.append_assoc] at hrest
      | some m =>
        rw [hfind] at hq
        rcases List.mem_cons.1 hq with rfl | hq
        · exact ((List.prefix_append_right_inj piece).2 (List.take_prefix _ _)).isInfix
        · have hrest := ih (m.length - 1) (fun _ => rfl) hq
          exact hrest.trans ((List.suffix_cons x l).trans (List.suffix_append piece _)).isInfix

theorem infix_of_mem_pieces (hq : q ∈ pieces find l) : q <:+: l :=
  infix_of_mem_piecesFrom 0 (fun h => absurd rfl h) hq

/-! ### Words -/

theorem prefix_of_append_cons {x : α} {a b : List α} (hx : x ∉ word) (h : word <+: a ++ x :: b) : word <+: a := by
  by_cases hlength : word.length ≤ a.length
  · exact List.prefix_of_prefix_length_le h (List.prefix_append a _) hlength
  · have hax : a ++ [x] <+: a ++ x :: b := (List.prefix_append_right_inj a).2 ⟨b, rfl⟩
    have hstarts : a ++ [x] <+: word := by
      refine List.prefix_of_prefix_length_le hax h ?_
      rw [List.length_append, List.length_singleton]
      omega
    exact absurd (hstarts.subset (List.mem_append_right a List.mem_cons_self)) hx

/-- A word without an element is on one side of it. -/
theorem infix_of_append_cons {x : α} {a b : List α} (hx : x ∉ word) (h : word <:+: a ++ x :: b) :
    word <:+: a ∨ word <:+: b := by
  induction a with
  | nil =>
    rcases List.infix_cons_iff.1 h with h | h
    · exact .inl (prefix_of_append_cons (a := []) hx h).isInfix
    · exact .inr h
  | cons y a ih =>
    rcases List.infix_cons_iff.1 h with h | h
    · exact .inl (prefix_of_append_cons (a := y :: a) hx h).isInfix
    · exact (ih h).imp_left fun h => h.trans (List.infix_cons List.infix_rfl)

theorem infix_of_disjoint_append {b : List α} (hword : word ≠ []) (hdisjoint : ∀ x ∈ word, x ∉ r)
    (h : word <:+: r ++ b) : word <:+: b := by
  induction r with
  | nil => exact h
  | cons y r ih =>
    have hy : y ∉ word := fun hmem => hdisjoint y hmem List.mem_cons_self
    rcases infix_of_append_cons (a := []) hy h with h | h
    · exact absurd (List.infix_nil.1 h) hword
    · exact ih (fun x hx hmem => hdisjoint x hx (List.mem_cons_of_mem y hmem)) h

/-- A word that has nothing of the separator is in one of the parts that it joins. -/
theorem infix_of_intercalate {parts : List (List α)} (hword : word ≠ []) (hr : r ≠ []) (hdisjoint : ∀ x ∈ word, x ∉ r)
    (h : word <:+: r.intercalate parts) : ∃ part ∈ parts, word <:+: part := by
  induction parts with
  | nil => exact absurd (List.infix_nil.1 h) hword
  | cons part parts ih =>
    cases parts with
    | nil => exact ⟨part, List.mem_cons_self, by simpa [List.intercalate] using h⟩
    | cons part' parts =>
      obtain ⟨x, r', rfl⟩ := List.exists_cons_of_ne_nil hr
      rw [List.intercalate_cons_cons, List.append_assoc, List.cons_append] at h
      have hx : x ∉ word := fun hmem => hdisjoint x hmem List.mem_cons_self
      rcases infix_of_append_cons hx h with h | h
      · exact ⟨part, List.mem_cons_self, h⟩
      · have hrest := infix_of_disjoint_append hword
          (fun y hy hmem => hdisjoint y hy (List.mem_cons_of_mem x hmem)) h
        obtain ⟨p, hp, hin⟩ := ih hrest
        exact ⟨p, List.mem_cons_of_mem part hp, hin⟩

/-- A replacement that shares nothing with a word does not bring it into the list. -/
theorem not_infix_replace (hword : word ≠ []) (hr : r ≠ []) (hdisjoint : ∀ x ∈ word, x ∉ r) (h : ¬word <:+: l) :
    ¬word <:+: replace find r l := by
  intro hin
  obtain ⟨piece, hpiece, hin⟩ := infix_of_intercalate hword hr hdisjoint hin
  exact h (hin.trans (infix_of_mem_pieces hpiece))

/-! ### All occurrences of a word -/

section occurrence

variable [BEq α] [LawfulBEq α]

omit [BEq α] [LawfulBEq α] in
theorem not_infix_of_read (hword : word ≠ []) (hread : ∀ a b, piece = a ++ b → b ≠ [] → ¬word <+: b ++ l) :
    ¬word <:+: piece := by
  rintro ⟨a, b, hab⟩
  rw [List.append_assoc] at hab
  refine hread a (word ++ b) hab.symm (fun h => hword (List.append_eq_nil_iff.1 h).1) ?_
  rw [List.append_assoc]
  exact List.prefix_append word _

/-- No piece has the word, if no occurrence begins in what was read since the last match. -/
theorem not_infix_of_mem_piecesFrom (hword : word ≠ []) (skip : ℕ)
    (hpiece : skip ≠ 0 → piece = []) (hread : ∀ a b, piece = a ++ b → b ≠ [] → ¬word <+: b ++ l)
    (hq : q ∈ piecesFrom (occurrence word) piece skip l) : ¬word <:+: q := by
  have hnil : ∀ l, ∀ a b : List α, [] = a ++ b → b ≠ [] → ¬word <+: b ++ l := fun l a b hab hb =>
    absurd (List.append_eq_nil_iff.1 hab.symm).2 hb
  have hfree : ¬word <:+: piece := not_infix_of_read hword hread
  induction l generalizing piece skip with
  | nil => cases skip <;> exact List.mem_singleton.1 hq ▸ hfree
  | cons x l ih =>
    cases skip with
    | succ skip =>
      obtain rfl := hpiece (Nat.succ_ne_zero skip)
      exact ih skip (fun _ => rfl) (hnil l) hq hfree
    | zero =>
      rw [piecesFrom, occurrence] at hq
      by_cases hstarts : word.isPrefixOf (x :: l) = true
      · rw [if_pos hstarts] at hq
        rcases List.mem_cons.1 hq with rfl | hq
        · rwa [List.take_zero, List.append_nil]
        · exact ih _ (fun _ => rfl) (hnil l) hq fun h => hword (List.infix_nil.1 h)
      · rw [if_neg hstarts] at hq
        have hread' : ∀ a b, piece ++ [x] = a ++ b → b ≠ [] → ¬word <+: b ++ l := fun a b hab hb => by
          obtain rfl | ⟨b', y, rfl⟩ := List.eq_nil_or_concat b
          · exact absurd rfl hb
          · rw [List.concat_eq_append, ← List.append_assoc] at hab
            obtain ⟨hpiece', hxy⟩ := List.append_inj' hab rfl
            obtain rfl := (List.cons.inj hxy).1
            rw [List.concat_eq_append, List.append_assoc, List.singleton_append]
            by_cases hb' : b' = []
            · rw [hb', List.nil_append, ← List.isPrefixOf_iff_prefix]
              exact hstarts
            · exact hread a b' hpiece' hb'
        exact ih 0 (fun h => absurd rfl h) hread' hq (not_infix_of_read hword hread')

/-- The pieces between all occurrences of a word do not have it, so it is not in what they are joined to. -/
theorem not_infix_replaceAll (hword : word ≠ []) (hr : r ≠ []) (hdisjoint : ∀ x ∈ word, x ∉ r) :
    ¬word <:+: replaceAll word r l := by
  intro hin
  obtain ⟨piece, hpiece, hin⟩ := infix_of_intercalate hword hr hdisjoint hin
  refine not_infix_of_mem_piecesFrom hword 0 (fun h => absurd rfl h) (fun a b hab hb => ?_) hpiece hin
  exact absurd (List.append_eq_nil_iff.1 hab.symm).2 hb

end occurrence

end Pieces
