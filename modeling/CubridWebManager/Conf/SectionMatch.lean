import CubridWebManager.Conf.Blocks

/-!
# Files that read alike

`Matches` relates the blocks of a file to those of a file that was made from it: lines that say nothing may come and go,
some sections may be gone with all that is in them, and each entry that is left is related to one of the old file.
`Matches.sections` says what that means for the sections that are read.
-/

namespace CubridWebManager.Conf

variable (lower : Text → Text) (gone : Text → Bool) (Q : Option Text → Block → Block → Prop)

/-- The blocks of the old and of the new file, from a place where `current` is the current section of the old one. -/
inductive Matches : Option Text → List Block → List Block → Prop
  | nil (current : Option Text) : Matches current [] []
  | skip {current : Option Text} {b : Block} {bs bs' : List Block} (hr : b.reading lower = .nothing)
    (h : Matches current bs bs') : Matches current (b :: bs) bs'
  | skip_new {current : Option Text} {b' : Block} {bs bs' : List Block} (hr' : b'.reading lower = .nothing)
    (h : Matches current bs bs') : Matches current bs (b' :: bs')
  | header {current : Option Text} {n : Text} {b b' : Block} {bs bs' : List Block} (hr : b.reading lower = .header n)
    (hr' : b'.reading lower = .header n) (hkeep : gone n = false) (h : Matches (some n) bs bs') :
    Matches current (b :: bs) (b' :: bs')
  | gone_header {current : Option Text} {n : Text} {b : Block} {bs bs' : List Block}
    (hr : b.reading lower = .header n) (hgone : gone n = true) (h : Matches (some n) bs bs') :
    Matches current (b :: bs) bs'
  | entry {current : Option Text} {key value key' value' : Text} {b b' : Block} {bs bs' : List Block}
    (hr : b.reading lower = .entry key value) (hr' : b'.reading lower = .entry key' value')
    (hkeep : current.any gone = false) (hq : Q current b b') (h : Matches current bs bs') :
    Matches current (b :: bs) (b' :: bs')
  | gone_entry {current : Option Text} {key value : Text} {b : Block} {bs bs' : List Block}
    (hr : b.reading lower = .entry key value) (hgone : current.any gone = true) (h : Matches current bs bs') :
    Matches current (b :: bs) bs'

namespace Matches

variable {lower gone Q} {current : Option Text} {bs bs' : List Block}

/-- The entries of a section that is not gone. -/
theorem forall₂_blocksIn (h : Matches lower gone Q current bs bs') {name current' : Option Text}
    (hname : name.any gone = false) (hcurrent : current.any gone = false → current' = current) :
    List.Forall₂ (Q name) (blocksIn lower name current bs) (blocksIn lower name current' bs') := by
  induction h generalizing current' with
  | nil => exact .nil
  | skip hr _ ih =>
    simp only [blocksIn, hr]
    exact ih hcurrent
  | skip_new hr' _ ih =>
    simp only [blocksIn, hr']
    exact ih hcurrent
  | header hr hr' _ _ ih =>
    simp only [blocksIn, hr, hr']
    exact ih fun _ => rfl
  | gone_header hr hgone _ ih =>
    simp only [blocksIn, hr]
    exact ih fun hkeep => absurd (hgone.symm.trans hkeep) (by decide)
  | entry hr hr' hkeep hq _ ih =>
    obtain rfl := hcurrent hkeep
    simp only [blocksIn, hr, hr']
    split
    · rename_i heq
      exact .cons (heq ▸ hq) (ih hcurrent)
    · exact ih hcurrent
  | @gone_entry current _ _ _ _ _ hr hgone _ ih =>
    have hne : current ≠ name := by
      rintro rfl
      exact absurd (hgone.symm.trans hname) (by decide)
    simp only [blocksIn, hr, if_neg hne]
    exact ih hcurrent

/-- The headers of the new file are those of the old one that are not gone. -/
theorem headersOf_eq (h : Matches lower gone Q current bs bs') {known known' : List (Option Text)}
    (hknown : ∀ n, gone n = false → (some n ∈ known ↔ some n ∈ known')) :
    ((headersOf lower known (bs.map Block.logical)).map Prod.fst).filter (fun n => !gone n) =
      (headersOf lower known' (bs'.map Block.logical)).map Prod.fst := by
  have hlogical : ∀ b : Block, b.logical.reading lower = b.reading lower := fun _ => rfl
  induction h generalizing known known' with
  | nil => rfl
  | skip hr _ ih =>
    simp only [List.map_cons, headersOf, hlogical, hr]
    exact ih hknown
  | skip_new hr' _ ih =>
    simp only [List.map_cons, headersOf, hlogical, hr']
    exact ih hknown
  | @header _ n _ _ _ _ hr hr' hkeep _ ih =>
    simp only [List.map_cons, headersOf, hlogical, hr, hr']
    by_cases hmem : some n ∈ known
    · rw [if_pos hmem, if_pos ((hknown n hkeep).1 hmem)]
      exact ih hknown
    · rw [if_neg hmem, if_neg (mt (hknown n hkeep).2 hmem), List.map_cons, List.map_cons,
        List.filter_cons_of_pos (by simp [hkeep])]
      refine congrArg _ (ih fun m hm => ?_)
      simp only [List.mem_append, hknown m hm]
  | @gone_header _ n _ _ _ hr hgone _ ih =>
    simp only [List.map_cons, headersOf, hlogical, hr]
    split
    · exact ih hknown
    · rw [List.map_cons, List.filter_cons_of_neg (by simp [hgone])]
      refine ih fun m hm => ?_
      have hne : m ≠ n := by
        rintro rfl
        exact absurd (hgone.symm.trans hm) (by decide)
      simp [hknown m hm, hne]
  | entry hr hr' _ _ _ ih =>
    simp only [List.map_cons, headersOf, hlogical, hr, hr']
    exact ih hknown
  | gone_entry hr _ _ ih =>
    simp only [List.map_cons, headersOf, hlogical, hr]
    exact ih hknown

/-- Nothing in the new file is invalid. -/
theorem valid (h : Matches lower gone Q current bs bs') : ∀ b' ∈ bs', b'.reading lower ≠ .invalid := by
  induction h with
  | nil => exact fun b' hb' => absurd hb' List.not_mem_nil
  | skip _ _ ih | gone_header _ _ _ ih | gone_entry _ _ _ ih => exact ih
  | skip_new hr' _ ih | header _ hr' _ _ ih | entry _ hr' _ _ _ ih =>
    intro b' hb'
    rcases List.mem_cons.1 hb' with rfl | hb'
    · rw [hr']
      nofun
    · exact ih b' hb'

end Matches

/-! ### The sections -/

/-- The section has the same name, and its entries are related. -/
def SectionMatches (R : Option Text → ConfTextEntry → ConfTextEntry → Prop) (s s' : ConfTextSection) : Prop :=
  s'.name = s.name ∧ List.Forall₂ (R s.name) s.entries s'.entries

theorem forall₂_of_map_eq {α β γ δ ε : Type} {R : δ → ε → Prop} {f : α → γ} {g : β → γ} {F : α → δ} {G : β → ε} {l : List α}
    {l' : List β} (h : l.map f = l'.map g) (hR : ∀ a ∈ l, ∀ b, f a = g b → R (F a) (G b)) :
    List.Forall₂ R (l.map F) (l'.map G) := by
  induction l generalizing l' with
  | nil =>
    obtain rfl : l' = [] := List.map_eq_nil_iff.1 h.symm
    exact .nil
  | cons a l ih =>
    cases l' with
    | nil => cases h
    | cons b l' =>
      obtain ⟨hab, hrest⟩ := List.cons.inj h
      exact .cons (hR a List.mem_cons_self b hab) (ih hrest fun a ha => hR a (List.mem_cons_of_mem _ ha))

section sections

variable {lower gone Q} {R : Option Text → ConfTextEntry → ConfTextEntry → Prop} {physical physical' : List Text}

theorem Matches.syntaxErrors (h : Matches lower gone Q none (blocksOf physical) (blocksOf physical')) :
    (parseConfText lower physical').syntaxErrors = [] := by
  rw [parseConfText_syntaxErrors, logicalLinesOf_eq]
  rintro e he
  obtain ⟨b, hb, rfl⟩ := List.mem_map.1 he
  exact h.valid b hb

/-- The sections that are not gone are related to those of the new file. -/
theorem Matches.sections (h : Matches lower gone Q none (blocksOf physical) (blocksOf physical'))
    (hR : ∀ name b b', Q name b b' → R name (b.entry lower) (b'.entry lower)) :
    List.Forall₂ (SectionMatches R) ((parseConfText lower physical).sections.filter fun s => !s.name.any gone)
      (parseConfText lower physical').sections := by
  have hentries : ∀ name : Option Text, name.any gone = false →
      List.Forall₂ (R name) (entriesOf lower name none (logicalLinesOf physical))
        (entriesOf lower name none (logicalLinesOf physical')) := by
    intro name hname
    rw [logicalLinesOf_eq, logicalLinesOf_eq, entriesOf_eq, entriesOf_eq, List.forall₂_map_left_iff,
      List.forall₂_map_right_iff]
    exact (h.forall₂_blocksIn hname fun _ => rfl).imp fun b b' => hR name b b'
  have hheaders := @headersOf_eq lower gone Q none (blocksOf physical) (blocksOf physical') h [none] [none]
    fun _ _ => Iff.rfl
  rw [← logicalLinesOf_eq, ← logicalLinesOf_eq, List.filter_map] at hheaders
  have hsections : List.Forall₂ (SectionMatches R)
      (((headersOf lower [none] (logicalLinesOf physical)).filter ((fun n => !gone n) ∘ Prod.fst)).map
        (sectionOfHeader lower none (logicalLinesOf physical)))
      ((headersOf lower [none] (logicalLinesOf physical')).map (sectionOfHeader lower none (logicalLinesOf physical'))) := by
    refine forall₂_of_map_eq hheaders fun header hmem header' heq => ⟨congrArg some heq.symm, ?_⟩
    have hkeep : gone header.1 = false := by simpa using (List.mem_filter.1 hmem).2
    have hforall := hentries (some header.1) hkeep
    rw [heq] at hforall
    simp only [sectionOfHeader, heq]
    exact hforall
  have hshown : ∀ (es : List LogicalLine) (headers : List (Text × Nat)),
      ((headers.map (sectionOfHeader lower none es)).filter fun s => s.name ≠ none ∨ s.entries ≠ []) =
        headers.map (sectionOfHeader lower none es) := by
    intro es headers
    refine List.filter_eq_self.2 fun s hs => ?_
    obtain ⟨header, -, rfl⟩ := List.mem_map.1 hs
    simp [sectionOfHeader]
  have hkept : ∀ (es : List LogicalLine) (headers : List (Text × Nat)),
      (headers.map (sectionOfHeader lower none es)).filter (fun s => !s.name.any gone) =
        (headers.filter ((fun n => !gone n) ∘ Prod.fst)).map (sectionOfHeader lower none es) := by
    intro es headers
    rw [List.filter_map]
    rfl
  -- the keys before any header
  have hprelude := hentries none rfl
  have hempty : entriesOf lower none none (logicalLinesOf physical) = [] ↔
      entriesOf lower none none (logicalLinesOf physical') = [] := by
    rw [← List.length_eq_zero_iff, hprelude.length_eq, List.length_eq_zero_iff]
  rw [parseConfText_sections, parseConfText_sections]
  by_cases hnil : entriesOf lower none none (logicalLinesOf physical) = []
  · rw [List.filter_cons_of_neg (by simp [hnil]), List.filter_cons_of_neg (by simp [hempty.1 hnil]), hshown, hshown,
      hkept]
    exact hsections
  · rw [List.filter_cons_of_pos (by simp [hnil]), List.filter_cons_of_pos (by simp), hshown, hkept,
      List.filter_cons_of_pos (by simp [mt hempty.2 hnil]), hshown]
    exact .cons ⟨rfl, hprelude⟩ hsections

end sections

end CubridWebManager.Conf
