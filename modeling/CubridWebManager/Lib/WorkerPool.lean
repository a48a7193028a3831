import CubridWebManager.Lib.Interaction
import Mathlib.Algebra.GroupWithZero.Nat
import Mathlib.Data.List.Nodup

/-!
# A pool of workers

A fixed number of workers take the items of a list in order.  An item is a chain of requests, made one after the other as
long as they succeed; the outcome of the chain, the first error or success, is stored under the item's index, and the
worker takes the next item.  The answers come in any order.

Whatever the order, every item has an outcome in the end, and it tells how its requests were answered (`Pool.Ok.final`);
`Pool.meets_run` is the rule for the program that runs the pool.
-/

/-- The items that are waiting, the ones the workers are at (the index, the request that is out and the requests still to
come), the number of items taken, and the outcomes. -/
structure Pool (R ε : Type) where
  waiting : List (R × List R)
  busy : List (Nat × R × List R)
  taken : Nat
  results : List (Option (Except ε Unit))

namespace Pool

variable {R ε : Type}

/-- The workers have taken their first items. -/
def start (limit : Nat) (items : List (R × List R)) : Pool R ε :=
  let workerCount := max 1 (min limit items.length)
  { waiting := items.drop workerCount
    busy := (items.take workerCount).mapIdx fun i c => (i, c.1, c.2)
    taken := min workerCount items.length
    results := List.replicate items.length none }

/-- The requests that are out. -/
def requests (p : Pool R ε) : List R := p.busy.map fun b => b.2.1

/-- The worker at the item `b` makes its next request. -/
def advance (p : Pool R ε) (b : Nat × R × List R) (next : R) (rest : List R) : Pool R ε :=
  { p with busy := p.busy.map fun b' => if b'.1 = b.1 then (b.1, next, rest) else b' }

/-- The item `b` has its outcome, and its worker takes the next item, if there is one. -/
def finish (p : Pool R ε) (b : Nat × R × List R) (result : Except ε Unit) : Pool R ε :=
  match p.waiting with
  | [] => { p with busy := p.busy.filter (fun b' => b'.1 ≠ b.1), results := p.results.set b.1 (some result) }
  | c :: waiting =>
    { waiting := waiting
      busy := p.busy.map fun b' => if b'.1 = b.1 then (p.taken, c.1, c.2) else b'
      taken := p.taken + 1
      results := p.results.set b.1 (some result) }

/-- The request at this position is answered. -/
def settle (p : Pool R ε) (position : Nat) (result : Except ε Unit) : Pool R ε :=
  match p.busy[position]? with
  | none => p
  | some b =>
    match result, b.2.2 with
    | .ok (), next :: rest => p.advance b next rest
    | result, _ => p.finish b result

/-- The number of requests that are out or still to come. -/
def remaining (p : Pool R ε) : Nat :=
  (p.waiting.map fun c => c.2.length + 1).sum + (p.busy.map fun b => b.2.2.length + 1).sum

/-! ### One answer -/

variable {p : Pool R ε} {b : Nat × R × List R} {position : Nat} {result : Except ε Unit}

theorem settle_cases (result : Except ε Unit) (hb : p.busy[position]? = some b) :
    (∃ next rest, b.2.2 = next :: rest ∧ result = .ok () ∧ p.settle position result = p.advance b next rest) ∨
    ((result = .ok () → b.2.2 = []) ∧ p.settle position result = p.finish b result) := by
  simp only [settle, hb]
  split
  · rename_i next rest hrest
    exact .inl ⟨next, rest, hrest, rfl, rfl⟩
  · rename_i hother
    refine .inr ⟨fun hok => ?_, rfl⟩
    cases hrest : b.2.2 with
    | nil => rfl
    | cons next rest => exact (hother next rest hok hrest).elim

theorem exists_split {busy : List (Nat × R × List R)} (hnodup : (busy.map Prod.fst).Nodup) (hb : b ∈ busy) :
    ∃ l l', busy = l ++ b :: l' ∧ (∀ b' ∈ l, b'.1 ≠ b.1) ∧ ∀ b' ∈ l', b'.1 ≠ b.1 := by
  obtain ⟨l, l', rfl⟩ := List.append_of_mem hb
  rw [List.map_append, List.map_cons, List.nodup_middle, List.nodup_cons, List.mem_append, not_or] at hnodup
  exact ⟨l, l', rfl, fun b' hb' heq => hnodup.1.1 (heq ▸ List.mem_map_of_mem hb'),
    fun b' hb' heq => hnodup.1.2 (heq ▸ List.mem_map_of_mem hb')⟩

theorem map_replace {l : List (Nat × R × List R)} (h : ∀ b' ∈ l, b'.1 ≠ b.1) (new : Nat × R × List R) :
    l.map (fun b' => if b'.1 = b.1 then new else b') = l :=
  (List.map_congr_left fun b' hb' => if_neg (h b' hb')).trans (List.map_id l)

/-- Every answer takes one request off. -/
theorem remaining_settle (result : Except ε Unit) (hnodup : (p.busy.map Prod.fst).Nodup) (hb : p.busy[position]? = some b) :
    (p.settle position result).remaining < p.remaining := by
  obtain ⟨l, l', hbusy, hl, hl'⟩ := exists_split hnodup (List.mem_of_getElem? hb)
  rcases settle_cases result hb with ⟨next, rest, hrest, -, hsettle⟩ | ⟨-, hsettle⟩
  · rw [hsettle]
    simp only [advance, remaining, hbusy, List.map_append, List.map_cons, map_replace hl, map_replace hl', if_true,
      List.sum_append, List.sum_cons, hrest, List.length_cons]
    omega
  · rw [hsettle, finish]
    split
    · rename_i hwaiting
      have hfilter : ∀ {l : List (Nat × R × List R)}, (∀ b' ∈ l, b'.1 ≠ b.1) →
          l.filter (fun b' => b'.1 ≠ b.1) = l := fun h => List.filter_eq_self.2 fun b' hb' => decide_eq_true (h b' hb')
      simp only [remaining, hwaiting, hbusy, List.filter_append, List.filter_cons, hfilter hl, hfilter hl', ne_eq,
        not_true_eq_false, decide_false, Bool.false_eq_true, if_false, List.map_append, List.map_cons, List.sum_append,
        List.sum_cons, List.map_nil, List.sum_nil]
      omega
    · rename_i c waiting hwaiting
      simp only [remaining, hwaiting, hbusy, List.map_append, List.map_cons, map_replace hl, map_replace hl', if_true,
        List.sum_append, List.sum_cons]
      omega

/-! ### The outcomes -/

/-- The outcome of a chain is what the answers say: all of it succeeded, or an error is that of a request from which on
none succeeded. -/
def Explains (chain : List R) (answered : List (R × Except ε Unit)) : Except ε Unit → Prop
  | .ok () => ∀ r ∈ chain, (r, .ok ()) ∈ answered
  | .error e => ∃ earlier r rest, chain = earlier ++ r :: rest ∧ (r, .error e) ∈ answered ∧
      ∀ r' ∈ r :: rest, (r', .ok ()) ∉ answered

/-- No request is made for two items, or twice for one. -/
structure Distinct (items : List (R × List R)) : Prop where
  chain : ∀ c ∈ items, (c.1 :: c.2).Nodup
  disjoint : ∀ (i j : Nat) (c c' : R × List R), items[i]? = some c → items[j]? = some c' → ∀ r ∈ c.1 :: c.2, r ∈ c'.1 :: c'.2 → i = j

/-- The requests of a chain before the one that is out have succeeded, and the others are not answered. -/
def Working (items : List (R × List R)) (answered : List (R × Except ε Unit)) (b : Nat × R × List R) : Prop :=
  ∃ c, items[b.1]? = some c ∧ ∃ earlier, c.1 :: c.2 = earlier ++ b.2.1 :: b.2.2 ∧
    (∀ r ∈ earlier, (r, .ok ()) ∈ answered) ∧ ∀ r ∈ b.2.1 :: b.2.2, ∀ result, (r, result) ∉ answered

/-- The pool and the answers it has had. -/
structure Ok (items : List (R × List R)) (answered : List (R × Except ε Unit)) (p : Pool R ε) : Prop where
  length : p.results.length = items.length
  waiting : p.waiting = items.drop p.taken
  taken_le : p.taken ≤ items.length
  hands : p.busy = [] → p.waiting = []
  nodup : (p.busy.map Prod.fst).Nodup
  working : ∀ b ∈ p.busy, b.1 < p.taken ∧ Working items answered b
  finished : ∀ i < p.taken, i ∉ p.busy.map Prod.fst → ∃ c result, items[i]? = some c ∧
    p.results[i]? = some (some result) ∧ Explains (c.1 :: c.2) answered result
  fresh : ∀ (i : Nat) (c : R × List R), p.taken ≤ i → items[i]? = some c → ∀ r ∈ c.1 :: c.2, ∀ result, (r, result) ∉ answered

variable {items : List (R × List R)} {answered : List (R × Except ε Unit)}

/-- In the end every item has the outcome that the answers explain. -/
theorem Ok.final (h : Ok items answered p) (hbusy : p.busy = []) : p.results.length = items.length ∧
    ∀ (i : Nat) (c : R × List R), items[i]? = some c → ∃ result, p.results[i]? = some (some result) ∧ Explains (c.1 :: c.2) answered result := by
  refine ⟨h.length, fun i c hc => ?_⟩
  have htaken : items.length ≤ p.taken := by
    have hnil := h.hands hbusy
    rw [h.waiting, List.drop_eq_nil_iff] at hnil
    exact hnil
  have hi : i < items.length := (List.getElem?_eq_some_iff.1 hc).1
  obtain ⟨c', result, hc', hresult, hexplains⟩ := h.finished i (by omega) (by simp [hbusy])
  rw [hc] at hc'
  cases hc'
  exact ⟨result, hresult, hexplains⟩

theorem ok_start (limit : Nat) (items : List (R × List R)) : Ok items ([] : List (R × Except ε Unit)) (start limit items) := by
  have hindex : ((start limit items : Pool R ε).busy.map Prod.fst) =
      List.range (min (max 1 (min limit items.length)) items.length) := by
    refine List.ext_getElem (by simp [start]) fun i hi hi' => ?_
    simp [start]
  refine ⟨by simp [start], ?_, Nat.min_le_right _ _, fun hnil => ?_, ?_, fun b hb => ?_, fun i hi hnot => ?_,
    fun _ _ _ _ _ _ _ => List.not_mem_nil⟩
  · simp only [start]
    rcases Nat.le_total (max 1 (min limit items.length)) items.length with hle | hle
    · rw [Nat.min_eq_left hle]
    · rw [Nat.min_eq_right hle, List.drop_eq_nil_of_le hle, List.drop_length]
  · have hrange := hindex
    rw [hnil, List.map_nil, eq_comm, List.range_eq_nil] at hrange
    have hlength : items.length = 0 := by omega
    simp [start, List.eq_nil_of_length_eq_zero hlength]
  · rw [hindex]
    exact List.nodup_range
  · have hlt : b.1 < min (max 1 (min limit items.length)) items.length :=
      List.mem_range.1 (hindex ▸ List.mem_map_of_mem hb)
    refine ⟨hlt, ?_⟩
    obtain ⟨i, hi, rfl⟩ := List.mem_mapIdx.1 hb
    rw [List.length_take] at hi
    refine ⟨items[i], List.getElem?_eq_getElem (by omega), [], ?_, nofun, fun _ _ _ => List.not_mem_nil⟩
    simp
  · rw [hindex, List.mem_range] at hnot
    exact absurd hi hnot

section settle

variable (hdistinct : Distinct items) {c : R × List R} (hc : items[b.1]? = some c) (hmem : b.2.1 ∈ c.1 :: c.2)

include hdistinct hc hmem

/-- An answer to one item is none to the requests of another. -/
theorem mem_answered_other {i : Nat} {c' : R × List R} (hc' : items[i]? = some c') (hne : i ≠ b.1) {r : R}
    (hr : r ∈ c'.1 :: c'.2) {result' : Except ε Unit} :
    (r, result') ∈ answered ++ [(b.2.1, result)] ↔ (r, result') ∈ answered := by
  have hother : r ≠ b.2.1 := fun heq => hne (hdistinct.disjoint i b.1 c' c hc' hc r hr (heq ▸ hmem))
  simp [hother]

theorem explains_other {i : Nat} {c' : R × List R} (hc' : items[i]? = some c') (hne : i ≠ b.1)
    {result' : Except ε Unit} (h : Explains (c'.1 :: c'.2) answered result') :
    Explains (c'.1 :: c'.2) (answered ++ [(b.2.1, result)]) result' := by
  cases result' with
  | ok _ => exact fun r hr => List.mem_append_left _ (h r hr)
  | error e =>
    obtain ⟨earlier, r, rest, hchain, hanswer, hnot⟩ := h
    refine ⟨earlier, r, rest, hchain, List.mem_append_left _ hanswer, fun r' hr' => ?_⟩
    rw [mem_answered_other hdistinct hc hmem hc' hne (hchain ▸ List.mem_append_right _ hr')]
    exact hnot r' hr'

theorem working_other {b' : Nat × R × List R} (hne : b'.1 ≠ b.1) (h : Working items answered b') :
    Working items (answered ++ [(b.2.1, result)]) b' := by
  obtain ⟨c', hc', earlier, hchain, hok, hnot⟩ := h
  refine ⟨c', hc', earlier, hchain, fun r hr => List.mem_append_left _ (hok r hr), fun r hr result' => ?_⟩
  rw [mem_answered_other hdistinct hc hmem hc' hne (hchain ▸ List.mem_append_right _ hr)]
  exact hnot r hr result'

end settle

/-- What holds of the items that are not worked on goes on to hold. -/
theorem Ok.frame (result : Except ε Unit) (h : Ok items answered p) (hdistinct : Distinct items) (hb : b ∈ p.busy) :
    (∀ b' ∈ p.busy, b'.1 ≠ b.1 → b'.1 < p.taken ∧ Working items (answered ++ [(b.2.1, result)]) b') ∧
    (∀ i < p.taken, i ≠ b.1 → i ∉ p.busy.map Prod.fst → ∃ c result', items[i]? = some c ∧
      p.results[i]? = some (some result') ∧ Explains (c.1 :: c.2) (answered ++ [(b.2.1, result)]) result') ∧
    ∀ (i : Nat) (c : R × List R), p.taken ≤ i → items[i]? = some c → ∀ r ∈ c.1 :: c.2, ∀ result',
      (r, result') ∉ answered ++ [(b.2.1, result)] := by
  obtain ⟨hlt, c, hc, earlier, hchain, -, -⟩ := h.working b hb
  have hmem : b.2.1 ∈ c.1 :: c.2 := hchain ▸ List.mem_append_right _ List.mem_cons_self
  refine ⟨fun b' hb' hne => ⟨(h.working b' hb').1, working_other hdistinct hc hmem hne (h.working b' hb').2⟩,
    fun i hi hne hnot => ?_, fun i c' hi hc' r hr result' => ?_⟩
  · obtain ⟨c', result', hc', hresult, hexplains⟩ := h.finished i hi hnot
    exact ⟨c', result', hc', hresult, explains_other hdistinct hc hmem hc' hne hexplains⟩
  · rw [mem_answered_other hdistinct hc hmem hc' (by omega) hr]
    exact h.fresh i c' hi hc' r hr result'

theorem mem_replace {new b' : Nat × R × List R} :
    b' ∈ p.busy.map (fun x => if x.1 = b.1 then new else x) → b' = new ∨ b' ∈ p.busy ∧ b'.1 ≠ b.1 := by
  intro hmem
  obtain ⟨x, hx, rfl⟩ := List.mem_map.1 hmem
  split
  · exact .inl rfl
  · rename_i hne
    exact .inr ⟨hx, hne⟩

theorem map_fst_replace {n : Nat} {new : R × List R} :
    (p.busy.map (fun x => if x.1 = b.1 then (n, new) else x)).map Prod.fst =
      (p.busy.map Prod.fst).map fun i => if i = b.1 then n else i := by
  rw [List.map_map, List.map_map]
  refine List.map_congr_left fun x _ => ?_
  simp only [Function.comp]
  split <;> rfl

theorem Ok.advance (h : Ok items answered p) (hdistinct : Distinct items) (hb : b ∈ p.busy) {next : R} {rest : List R}
    (hrest : b.2.2 = next :: rest) :
    Ok items (answered ++ [(b.2.1, .ok ())]) (p.advance b next rest) := by
  obtain ⟨hworking, hfinished, hfresh⟩ := Ok.frame (.ok ()) h hdistinct hb
  have hindex : (p.advance b next rest).busy.map Prod.fst = p.busy.map Prod.fst := by
    rw [Pool.advance, map_fst_replace]
    refine (List.map_congr_left fun i _ => ?_).trans (List.map_id _)
    by_cases heq : i = b.1
    · rw [if_pos heq, heq, id]
    · rw [if_neg heq, id]
  refine ⟨h.length, h.waiting, h.taken_le, fun hnil => ?_, hindex ▸ h.nodup, fun b' hb' => ?_, fun i hi hnot => ?_, hfresh⟩
  · rw [hnil, List.map_nil, eq_comm, List.map_eq_nil_iff] at hindex
    exact h.hands hindex
  · rcases mem_replace hb' with rfl | ⟨hold, hne⟩
    · obtain ⟨hlt, c, hc, earlier, hchain, hok, hnot⟩ := h.working b hb
      rw [hrest] at hchain hnot
      refine ⟨hlt, c, hc, earlier ++ [b.2.1], by rw [hchain]; simp, fun r hr => ?_, fun r hr result => ?_⟩
      · rcases List.mem_append.1 hr with hr | hr
        · exact List.mem_append_left _ (hok r hr)
        · rw [List.mem_singleton.1 hr]
          exact List.mem_append_right _ (List.mem_singleton_self _)
      · have hnodup := hdistinct.chain c (List.mem_of_getElem? hc)
        rw [hchain] at hnodup
        have hother : r ≠ b.2.1 := by
          rintro rfl
          exact (List.nodup_cons.1 hnodup.of_append_right).1 hr
        simpa [hother] using hnot r (List.mem_cons_of_mem _ hr) result
    · exact hworking b' hold hne
  · rw [hindex] at hnot
    exact hfinished i hi (fun heq => hnot (heq ▸ List.mem_map_of_mem hb)) hnot

theorem Ok.finish (h : Ok items answered p) (hdistinct : Distinct items) (hb : b ∈ p.busy) {result : Except ε Unit}
    (hlast : result = .ok () → b.2.2 = []) : Ok items (answered ++ [(b.2.1, result)]) (p.finish b result) := by
  obtain ⟨hworking, hfinished, hfresh⟩ := Ok.frame result h hdistinct hb
  obtain ⟨hlt, c, hc, earlier, hchain, hok, hnot⟩ := h.working b hb
  have hexplains : Explains (c.1 :: c.2) (answered ++ [(b.2.1, result)]) result := by
    cases result with
    | ok _ =>
      rw [hlast rfl] at hchain
      intro r hr
      rw [hchain] at hr
      rcases List.mem_append.1 hr with hr | hr
      · exact List.mem_append_left _ (hok r hr)
      · rw [List.mem_singleton.1 hr]
        exact List.mem_append_right _ (List.mem_singleton_self _)
    | error e =>
      refine ⟨earlier, b.2.1, b.2.2, hchain, List.mem_append_right _ (List.mem_singleton_self _), fun r hr => ?_⟩
      simpa using hnot r hr (.ok ())
  have hresult : ∀ i < p.taken, i ∉ (p.busy.filter fun b' => b'.1 ≠ b.1).map Prod.fst → ∃ c result', items[i]? = some c ∧
      (p.results.set b.1 (some result))[i]? = some (some result') ∧
      Explains (c.1 :: c.2) (answered ++ [(b.2.1, result)]) result' := by
    intro i hi hnotBusy
    by_cases heq : i = b.1
    · subst heq
      have hlength : b.1 < p.results.length := by
        rw [h.length]
        exact (List.getElem?_eq_some_iff.1 hc).1
      exact ⟨c, result, hc, by rw [List.getElem?_set_self hlength], hexplains⟩
    · rw [List.getElem?_set_ne (Ne.symm heq)]
      refine hfinished i hi heq fun hbusy => hnotBusy ?_
      obtain ⟨b', hb', rfl⟩ := List.mem_map.1 hbusy
      exact List.mem_map_of_mem (List.mem_filter.2 ⟨hb', decide_eq_true heq⟩)
  unfold Pool.finish
  split
  · rename_i hwaiting
    refine ⟨by rw [List.length_set, h.length], h.waiting, h.taken_le, fun _ => hwaiting, ?_, fun b' hb' => ?_, hresult, hfresh⟩
    · exact h.nodup.sublist (List.filter_sublist.map _)
    · obtain ⟨hold, hne⟩ := List.mem_filter.1 hb'
      exact hworking b' hold (of_decide_eq_true hne)
  · rename_i c' waiting hwaiting
    have hdrop := h.waiting
    rw [hwaiting] at hdrop
    have htaken : p.taken < items.length := by
      by_contra hge
      rw [List.drop_eq_nil_of_le (by omega)] at hdrop
      cases hdrop
    rw [List.drop_eq_getElem_cons htaken, List.cons.injEq] at hdrop
    obtain ⟨rfl, hrest⟩ := hdrop
    have hindex := @map_fst_replace _ _ p b p.taken (items[p.taken].1, items[p.taken].2)
    refine ⟨by rw [List.length_set, h.length], hrest, htaken, fun hnil => ?_, ?_, fun b' hb' => ?_, fun i hi hnotBusy => ?_,
      fun i c' hi hc' => hfresh i c' (Nat.le_of_succ_le hi) hc'⟩
    · rw [List.map_eq_nil_iff] at hnil
      rw [hnil] at hb
      cases hb
    · rw [hindex]
      refine h.nodup.map_on fun i hi j hj heq => ?_
      have hlt : ∀ i ∈ p.busy.map Prod.fst, i < p.taken := fun i hi => by
        obtain ⟨b', hb', rfl⟩ := List.mem_map.1 hi
        exact (h.working b' hb').1
      have hi := hlt i hi
      have hj := hlt j hj
      split at heq <;> split at heq <;> omega
    · rcases mem_replace hb' with rfl | ⟨hold, hne⟩
      · refine ⟨Nat.lt_succ_self _, items[p.taken], List.getElem?_eq_getElem htaken, [], rfl, nofun, fun r hr result' => ?_⟩
        exact hfresh p.taken _ (Nat.le_refl _) (List.getElem?_eq_getElem htaken) r hr result'
      · obtain ⟨hlt', hworks⟩ := hworking b' hold hne
        exact ⟨Nat.lt_succ_of_lt hlt', hworks⟩
    · have hbusy : ∀ j, j ∈ (p.busy.map Prod.fst).map (fun i => if i = b.1 then p.taken else i) ↔
          j = p.taken ∨ j ∈ (p.busy.filter fun b' => b'.1 ≠ b.1).map Prod.fst := by
        intro j
        simp only [List.mem_map, List.mem_filter, decide_eq_true_eq]
        constructor
        · rintro ⟨i, ⟨b', hb', rfl⟩, rfl⟩
          split
          · exact .inl rfl
          · rename_i hne
            exact .inr ⟨b', ⟨hb', hne⟩, rfl⟩
        · rintro (rfl | ⟨b', ⟨hb', hne⟩, rfl⟩)
          · exact ⟨b.1, ⟨b, hb, rfl⟩, if_pos rfl⟩
          · exact ⟨b'.1, ⟨b', hb', rfl⟩, if_neg hne⟩
      rw [hindex, hbusy, not_or] at hnotBusy
      exact hresult i (Nat.lt_of_le_of_ne (Nat.le_of_lt_succ hi) hnotBusy.1) hnotBusy.2

/-- An answer to a request that is out. -/
theorem Ok.settle (h : Ok items answered p) (hdistinct : Distinct items) (hb : p.busy[position]? = some b)
    (result : Except ε Unit) : Ok items (answered ++ [(b.2.1, result)]) (p.settle position result) := by
  rcases settle_cases result hb with ⟨next, rest, hrest, rfl, hsettle⟩ | ⟨hlast, hsettle⟩
  · rw [hsettle]
    exact h.advance hdistinct (List.mem_of_getElem? hb) hrest
  · rw [hsettle]
    exact h.finish hdistinct (List.mem_of_getElem? hb) hlast

/-! ### Requests that are made more than once

The pool does not look at its requests.  So a pool whose items share requests is one of distinct requests, made distinct
by their places, of which the places are forgotten. -/

section tagged

variable {S : Type}

def map (f : R → S) (p : Pool R ε) : Pool S ε where
  waiting := p.waiting.map fun c => (f c.1, c.2.map f)
  busy := p.busy.map fun b => (b.1, f b.2.1, b.2.2.map f)
  taken := p.taken
  results := p.results

theorem map_start (f : R → S) (limit : Nat) (items : List (R × List R)) :
    (start limit items : Pool R ε).map f = start limit (items.map fun c => (f c.1, c.2.map f)) := by
  have hbusy : ∀ l : List (R × List R), ((l.mapIdx fun i c => (i, c.1, c.2)).map fun b => (b.1, f b.2.1, b.2.2.map f)) =
      (l.map fun c => (f c.1, c.2.map f)).mapIdx fun i c => (i, c.1, c.2) := by
    intro l
    refine List.ext_getElem? fun i => ?_
    simp [Function.comp_def]
  simp [start, map, hbusy]

theorem map_advance (f : R → S) (p : Pool R ε) (b : Nat × R × List R) (next : R) (rest : List R) :
    (p.advance b next rest).map f = (p.map f).advance (b.1, f b.2.1, b.2.2.map f) (f next) (rest.map f) := by
  simp only [advance, map, List.map_map, mk.injEq, true_and, and_true]
  refine List.map_congr_left fun b' _ => ?_
  simp only [Function.comp]
  split <;> rfl

theorem map_finish (f : R → S) (p : Pool R ε) (b : Nat × R × List R) (result : Except ε Unit) :
    (p.finish b result).map f = (p.map f).finish (b.1, f b.2.1, b.2.2.map f) result := by
  cases hwaiting : p.waiting with
  | nil => simp [finish, map, hwaiting, List.filter_map, Function.comp_def]
  | cons c waiting =>
    simp only [finish, map, hwaiting, List.map_cons, List.map_map, mk.injEq, true_and, and_true]
    refine List.map_congr_left fun b' _ => ?_
    simp only [Function.comp]
    split <;> rfl

theorem map_settle (f : R → S) (p : Pool R ε) (position : Nat) (result : Except ε Unit) :
    (p.settle position result).map f = (p.map f).settle position result := by
  have hbusy : (p.map f).busy[position]? = p.busy[position]?.map fun b => (b.1, f b.2.1, b.2.2.map f) :=
    List.getElem?_map
  cases hb : p.busy[position]? with
  | none =>
    rw [hb, Option.map_none] at hbusy
    simp [settle, hb, hbusy]
  | some b =>
    rw [hb, Option.map_some] at hbusy
    simp only [settle, hb, hbusy]
    rcases result with e | u
    · exact map_finish f p b _
    · cases hrest : b.2.2 with
      | nil =>
        simp only [List.map_nil]
        rw [map_finish, hrest, List.map_nil]
      | cons next rest =>
        simp only [List.map_cons]
        rw [map_advance, hrest, List.map_cons]

/-- The requests with the item and the place in its chain that they are made for. -/
def tagged (items : List (R × List R)) : List ((Nat × Nat × R) × List (Nat × Nat × R)) :=
  items.mapIdx fun i c => ((i, 0, c.1), c.2.mapIdx fun k r => (i, k + 1, r))

theorem map_tagged (items : List (R × List R)) :
    ((tagged items).map fun c => (c.1.2.2, c.2.map fun r => r.2.2)) = items := by
  have hrest : ∀ (i : Nat) (l : List R), ((l.mapIdx fun k r => (i, k + 1, r)).map fun r => r.2.2) = l := by
    intro i l
    exact List.ext_getElem (by simp) fun k hk hk' => by simp
  exact List.ext_getElem (by simp [tagged]) fun i hi hi' => by simp [tagged, hrest]

theorem distinct_tagged (items : List (R × List R)) : Distinct (tagged items) where
  chain := by
    intro c hc
    obtain ⟨i, hi, rfl⟩ := List.mem_mapIdx.1 hc
    have hchain : ((i, 0, items[i].1) :: items[i].2.mapIdx fun k r => (i, k + 1, r)) =
        (items[i].1 :: items[i].2).mapIdx fun k r => (i, k, r) := by simp
    rw [hchain]
    refine List.Nodup.of_map (fun r => r.2.1) ?_
    have hrange : (((items[i].1 :: items[i].2).mapIdx fun k r => (i, k, r)).map fun r => r.2.1) =
        List.range (items[i].2.length + 1) := by
      refine List.ext_getElem (by simp) fun k hk hk' => ?_
      rw [List.getElem_map, List.getElem_mapIdx, List.getElem_range]
    rw [hrange]
    exact List.nodup_range
  disjoint := by
    have htag : ∀ (i : Nat) (c : (Nat × Nat × R) × List (Nat × Nat × R)), (tagged items)[i]? = some c →
        ∀ r ∈ c.1 :: c.2, r.1 = i := by
      intro i c hc r hr
      obtain ⟨hi, rfl⟩ := List.getElem?_eq_some_iff.1 hc
      simp only [tagged, List.getElem_mapIdx, List.mem_cons] at hr
      rcases hr with rfl | hr
      · rfl
      · obtain ⟨k, hk, rfl⟩ := List.mem_mapIdx.1 hr
        rfl
    intro i j c c' hc hc' r hr hr'
    rw [← htag i c hc r hr, htag j c' hc' r hr']

/-- The pool comes from one of tagged requests. -/
def Sound (items : List (R × List R)) (answered : List (R × Except ε Unit)) (p : Pool R ε) : Prop :=
  ∃ q answered', Ok (tagged items) answered' q ∧ q.map (fun r => r.2.2) = p ∧
    answered = answered'.map fun a => (a.1.2.2, a.2)

theorem sound_start (limit : Nat) (items : List (R × List R)) :
    Sound items ([] : List (R × Except ε Unit)) (start limit items) :=
  ⟨start limit (tagged items), [], ok_start limit _, by rw [map_start, map_tagged], rfl⟩

theorem Sound.settle (h : Sound items answered p) (hb : p.busy[position]? = some b) (result : Except ε Unit) :
    Sound items (answered ++ [(b.2.1, result)]) (p.settle position result) := by
  obtain ⟨q, answered', hok, rfl, rfl⟩ := h
  have hbusy : (q.map fun r => r.2.2).busy[position]? =
      q.busy[position]?.map fun b => (b.1, b.2.1.2.2, b.2.2.map fun r => r.2.2) := List.getElem?_map
  rw [hbusy, Option.map_eq_some_iff] at hb
  obtain ⟨b', hb', rfl⟩ := hb
  exact ⟨_, _, hok.settle (distinct_tagged items) hb' result, map_settle _ q position result, by simp⟩

theorem Sound.nodup (h : Sound items answered p) : (p.busy.map Prod.fst).Nodup := by
  obtain ⟨q, answered', hok, rfl, -⟩ := h
  simpa [map, Function.comp_def] using hok.nodup

/-- A request that is out is one of an item. -/
theorem Sound.working (h : Sound items answered p) (hb : b ∈ p.busy) : ∃ c ∈ items, b.2.1 ∈ c.1 :: c.2 := by
  obtain ⟨q, answered', hok, rfl, -⟩ := h
  obtain ⟨b', hb', rfl⟩ := List.mem_map.1 hb
  obtain ⟨-, c, hc, earlier, hchain, -, -⟩ := hok.working b' hb'
  have hmem : b'.2.1 ∈ c.1 :: c.2 := hchain ▸ List.mem_append_right _ List.mem_cons_self
  refine ⟨(c.1.2.2, c.2.map fun r => r.2.2), ?_, ?_⟩
  · rw [← map_tagged items]
    exact List.mem_map.2 ⟨c, List.mem_of_getElem? hc, rfl⟩
  · rw [← List.map_cons (f := fun r : Nat × Nat × R => r.2.2)]
    exact List.mem_map.2 ⟨_, hmem, rfl⟩

/-- In the end every item has its outcome, and has succeeded only where all its requests have. -/
theorem Sound.final (h : Sound items answered p) (hbusy : p.busy = []) : p.results.length = items.length ∧
    ∀ (i : Nat) (c : R × List R), items[i]? = some c → ∃ result, p.results[i]? = some (some result) ∧
      (result = .ok () → ∀ r ∈ c.1 :: c.2, (r, .ok ()) ∈ answered) := by
  obtain ⟨q, answered', hok, rfl, rfl⟩ := h
  obtain ⟨hlength, hfinal⟩ := hok.final (List.map_eq_nil_iff.1 hbusy)
  refine ⟨by simpa [tagged, map] using hlength, fun i c hc => ?_⟩
  rw [← map_tagged items, List.getElem?_map, Option.map_eq_some_iff] at hc
  obtain ⟨c', hc', rfl⟩ := hc
  obtain ⟨result, hresult, hexplains⟩ := hfinal i c' hc'
  refine ⟨result, hresult, ?_⟩
  rintro rfl r hr
  rw [← List.map_cons (f := fun r : Nat × Nat × R => r.2.2)] at hr
  obtain ⟨r', hr', rfl⟩ := List.mem_map.1 hr
  exact List.mem_map.2 ⟨(r', .ok ()), hexplains r' hr', rfl⟩

end tagged

/-! ### The program -/

section run

variable {Q : Type} {A : Q → Type} {σ : Type}
  (await : (requests : List R) → Interaction Q A (Fin requests.length × Except ε Unit))

/-- Every worker makes the requests of its items, until all items have their outcome. -/
def run : Nat → Pool R ε → Interaction Q A (List (Option (Except ε Unit)))
  | 0, p => pure p.results
  | fuel + 1, p =>
    if p.busy.isEmpty then pure p.results
    else do
      let answer ← await p.requests
      run fuel (p.settle answer.1 answer.2)

variable {await}

/-- What the answers keep, from the start of the pool to its end. -/
theorem meets_run {C : Interaction.Contract Q A σ} {Post : List (Option (Except ε Unit)) → σ → Prop}
    (I : Pool R ε → σ → Prop) (hnodup : ∀ p s, I p s → (p.busy.map Prod.fst).Nodup)
    (hstep : ∀ p s, I p s → Interaction.Meets C (fun answer s' => ∀ b, p.busy[answer.1.1]? = some b →
      I (p.settle answer.1 answer.2) s') (await p.requests) s)
    (hpost : ∀ p s, I p s → p.busy = [] → Post p.results s) (fuel : Nat) {p : Pool R ε} {s : σ} (h : I p s)
    (hfuel : p.remaining ≤ fuel) : Interaction.Meets C Post (run await fuel p) s := by
  induction fuel generalizing p s with
  | zero =>
    refine hpost p s h ?_
    cases hbusy : p.busy with
    | nil => rfl
    | cons b busy =>
      simp only [remaining, hbusy, List.map_cons, List.sum_cons] at hfuel
      omega
  | succ fuel ih =>
    unfold run
    by_cases hempty : p.busy.isEmpty
    · rw [if_pos hempty]
      exact hpost p s h (List.isEmpty_iff.1 hempty)
    · rw [if_neg hempty, Interaction.meets_bind]
      refine (hstep p s h).mono fun answer s' hanswer => ?_
      have hlt : answer.1.1 < p.busy.length := by
        have hlength : p.requests.length = p.busy.length := List.length_map _
        rw [← hlength]
        exact answer.1.2
      have hb := List.getElem?_eq_getElem hlt
      have hless := remaining_settle answer.2 (hnodup p s h) hb
      exact ih (hanswer _ hb) (by omega)

end run

end Pool
