import CubridWebManager.Lib.FirstOccurrences
import CubridWebManager.Lib.JsText
import CubridWebManager.Lib.Json
import CubridWebManager.Lib.Trim

/-!
# The status of many brokers

`getBrokerStatusBulk` asks CMS for the status of many brokers, one call for each chunk of fifty names.  CMS is a
parameter: `cms k bname` is its answer to the `k`-th call, and `status` what it has to say about one name.  A call for
more than one name is answered with the list of what it says about each (`Answers`).
-/

namespace CubridWebManager.BrokerStatus

/-- One broker block of an answer. -/
structure BrokerStatusEntry where
  bname : Option Text
  time : Option Text
  asinfo : Option Json
  jobinfo : Option Json

/-- The answer to `getbrokerstatus`: the fields of one broker, or a block for each. -/
structure GetBrokerStatusResponse extends BrokerStatusEntry where
  broker : Option (List BrokerStatusEntry)

/-- An error; a `CmsError` with the code `INVALID_TOKEN` is told apart. -/
structure Thrown where
  invalidToken : Bool
  message : Text
  deriving DecidableEq

abbrev Cms := Text → Except Thrown GetBrokerStatusResponse

/-! ### The service -/

def brokerStatusBulkChunkSize : Nat := 50

def getBrokerStatus (cms : Cms) (bname : Text) : Except Thrown GetBrokerStatusResponse := cms bname

/-- The trimmed names, without blank ones and repeats. -/
def brokerNames (bnames : List Text) : List Text := ((bnames.map Text.trim).filter (· ≠ [])).eraseDups

/-- `chunk.join(',')` -/
def joinNames (chunk : List Text) : Text := List.intercalate [','] chunk

/-- The chunk from the index `size * k` on. -/
def chunkAt {α : Type} (size : Nat) (l : List α) (k : Nat) : List α := (l.drop (size * k)).take size

def chunkCount (size length : Nat) : Nat := (length + (size - 1)) / size

/-- What the loop has found out. -/
structure Progress where
  brokers : List BrokerStatusEntry := []
  firstError : Option Thrown := none
  succeeded : Nat := 0

/-- The entries that a chunk's answer gives. -/
def entriesOf (chunk : List Text) (response : GetBrokerStatusResponse) : List BrokerStatusEntry :=
  if chunk.length = 1 then [response.toBrokerStatusEntry]
  else (response.broker.getD []).filter fun entry => entry.bname.getD [] ≠ []

/-- One round of the loop. -/
def askChunk (p : Progress) (chunk : List Text) (answer : Except Thrown GetBrokerStatusResponse) :
    Except Thrown Progress :=
  match answer with
  | .error error =>
    if error.invalidToken then .error error
    else .ok { p with firstError := some (p.firstError.getD error) }
  | .ok response =>
    .ok { p with brokers := p.brokers ++ entriesOf chunk response, succeeded := p.succeeded + 1 }

def getBrokerStatusBulk (cms : Nat → Cms) (bnames : List Text) : Except Thrown (List BrokerStatusEntry) := do
  let names := brokerNames bnames
  let p ← (List.range (chunkCount brokerStatusBulkChunkSize names.length)).foldlM
    (fun p k =>
      let chunk := chunkAt brokerStatusBulkChunkSize names k
      askChunk p chunk (cms k (joinNames chunk))) {}
  match p.succeeded, p.firstError with
  | 0, some firstError => throw firstError
  | _, _ => pure p.brokers

/-! ### CMS -/

/-- A `bname` without a comma is answered with what CMS says about it, another one with the list of what it says about
each of its names. -/
structure Answers (status : Text → BrokerStatusEntry) (bname : Text) (response : GetBrokerStatusResponse) : Prop where
  one : ',' ∉ bname → response.toBrokerStatusEntry = status bname
  list : ',' ∈ bname → response.broker = some ((bname.splitOn ',').map status)

/-! ### Chunks -/

section chunks

variable {α : Type} {size : Nat}

theorem chunkCount_mul_lt {length k : Nat} (hsize : 0 < size) : k < chunkCount size length ↔ size * k < length := by
  rw [chunkCount, Nat.lt_div_iff_mul_lt hsize]
  have hcomm : size * k = k * size := Nat.mul_comm size k
  omega

theorem chunkAt_ne_nil {l : List α} {k : Nat} (hsize : 0 < size) (hk : k < chunkCount size l.length) :
    chunkAt size l k ≠ [] := by
  rw [chunkCount_mul_lt hsize] at hk
  rw [chunkAt, ← List.length_pos_iff, List.length_take, List.length_drop]
  omega

/-- What is kept chunk by chunk is what is kept at the places of those chunks. -/
theorem flatMap_chunkAt (hsize : 0 < size) (keep : Nat → Bool) (l : List α) (n : Nat) :
    (List.range n).flatMap (fun k => if keep k then chunkAt size l k else []) =
      ((l.take (size * n)).zipIdx.filter fun e => keep (e.2 / size)).map Prod.fst := by
  induction n with
  | zero => simp
  | succ n ih =>
    have htake : l.take (size * (n + 1)) = l.take (size * n) ++ chunkAt size l n := by
      rw [Nat.mul_succ, List.take_add, chunkAt]
    have hchunk : ((chunkAt size l n).zipIdx (l.take (size * n)).length).filter (fun e => keep (e.2 / size)) =
        if keep n then (chunkAt size l n).zipIdx (l.take (size * n)).length else [] := by
      have hplace : ∀ e ∈ (chunkAt size l n).zipIdx (l.take (size * n)).length, e.2 / size = n := by
        intro e he
        have hlow := List.le_snd_of_mem_zipIdx he
        have hhigh := List.snd_lt_add_of_mem_zipIdx he
        have hlength : 0 < (chunkAt size l n).length := by omega
        simp only [chunkAt, List.length_take, List.length_drop] at hlength hlow hhigh
        rw [Nat.div_eq_iff hsize, Nat.mul_comm n size]
        omega
      split_ifs with hkeep
      · exact List.filter_eq_self.2 fun e he => by rw [hplace e he, hkeep]
      · exact List.filter_eq_nil_iff.2 fun e he => by rw [hplace e he]; exact hkeep
    rw [List.range_succ, List.flatMap_append, ih, htake, List.zipIdx_append, Nat.zero_add, List.filter_append,
      List.map_append, hchunk]
    split_ifs with hkeep <;> simp [hkeep]

end chunks

/-! ### The loop -/

section loop

variable {status : Text → BrokerStatusEntry}

theorem joinNames_singleton (name : Text) : joinNames [name] = name := by simp [joinNames]

theorem comma_mem_joinNames {a b : Text} {names : List Text} : ',' ∈ joinNames (a :: b :: names) := by
  simp [joinNames, List.intercalate]

/-- The entries of a chunk that CMS has answered are those of its names. -/
theorem entriesOf_eq {chunk : List Text} {response : GetBrokerStatusResponse} (hne : chunk ≠ [])
    (hnamed : ∀ name, name ≠ [] → (status name).bname.getD [] ≠ []) (hnames : ∀ name ∈ chunk, name ≠ [] ∧ ',' ∉ name)
    (h : Answers status (joinNames chunk) response) : entriesOf chunk response = chunk.map status := by
  match chunk with
  | [] => exact absurd rfl hne
  | [name] =>
    rw [joinNames_singleton] at h
    simp [entriesOf, h.one (hnames name (List.mem_singleton_self _)).2]
  | a :: b :: names =>
    have hlist := h.list comma_mem_joinNames
    rw [joinNames, List.splitOn_intercalate _ (fun name hname => (hnames name hname).2) hne] at hlist
    rw [entriesOf, if_neg (by simp), hlist, Option.getD_some, List.filter_eq_self]
    intro entry hentry
    obtain ⟨name, hname, rfl⟩ := List.mem_map.1 hentry
    exact decide_eq_true (hnamed name (hnames name hname).1)

variable (answer : Nat → Except Thrown GetBrokerStatusResponse) (chunk : Nat → List Text)

/-- What `n` rounds find out. -/
structure Rounds (n : Nat) (p : Progress) : Prop where
  brokers : p.brokers = (List.range n).flatMap fun k =>
    match answer k with
    | .ok response => entriesOf (chunk k) response
    | .error _ => []
  token : ∀ k < n, ∀ error, answer k = .error error → error.invalidToken = false
  succeeded : p.succeeded = 0 ↔ ∀ k < n, ∃ error, answer k = .error error
  firstError : p.firstError = none ↔ ∀ k < n, ∃ response, answer k = .ok response

variable {answer chunk}

theorem forall_lt_succ {P : Nat → Prop} {n : Nat} : (∀ k < n + 1, P k) ↔ (∀ k < n, P k) ∧ P n := by
  constructor
  · intro h
    exact ⟨fun k hk => h k (by omega), h n (by omega)⟩
  · rintro ⟨h, hn⟩ k hk
    rcases Nat.lt_succ_iff_lt_or_eq.1 hk with hlt | rfl
    · exact h k hlt
    · exact hn

/-- A round that is answered. -/
theorem Rounds.answered {n : Nat} {p : Progress} (h : Rounds answer chunk n p) {response : GetBrokerStatusResponse}
    (hanswer : answer n = .ok response) : Rounds answer chunk (n + 1)
      { p with brokers := p.brokers ++ entriesOf (chunk n) response, succeeded := p.succeeded + 1 } := by
  refine ⟨?_, ?_, ?_, ?_⟩
  · simp [List.range_succ, h.brokers, hanswer]
  · rw [forall_lt_succ]
    exact ⟨h.token, fun error herror => by rw [hanswer] at herror; cases herror⟩
  · rw [forall_lt_succ]
    simp [hanswer]
  · rw [forall_lt_succ]
    simp [h.firstError, hanswer]

/-- A round that fails, with an error that does not end the loop. -/
theorem Rounds.failed {n : Nat} {p : Progress} (h : Rounds answer chunk n p) {error : Thrown}
    (hanswer : answer n = .error error) (htoken : error.invalidToken = false) :
    Rounds answer chunk (n + 1) { p with firstError := some (p.firstError.getD error) } := by
  refine ⟨?_, ?_, ?_, ?_⟩
  · simp [List.range_succ, h.brokers, hanswer]
  · rw [forall_lt_succ]
    refine ⟨h.token, fun error' herror => ?_⟩
    rw [hanswer] at herror
    cases herror
    exact htoken
  · rw [forall_lt_succ]
    simp [h.succeeded, hanswer]
  · rw [forall_lt_succ]
    simp [hanswer]

variable (answer chunk)

theorem foldlM_succ (n : Nat) : (List.range (n + 1)).foldlM (fun p k => askChunk p (chunk k) (answer k)) {} =
    (List.range n).foldlM (fun p k => askChunk p (chunk k) (answer k)) {} >>= fun p =>
      askChunk p (chunk n) (answer n) := by
  rw [List.range_succ, List.foldlM_append]
  simp

/-- The loop goes on to its end or ends at an invalid token. -/
theorem rounds (n : Nat) :
    (∃ p, (List.range n).foldlM (fun p k => askChunk p (chunk k) (answer k)) {} = .ok p ∧ Rounds answer chunk n p) ∨
      ∃ error, (List.range n).foldlM (fun p k => askChunk p (chunk k) (answer k)) ({} : Progress) = .error error ∧
        error.invalidToken = true ∧ ∃ k < n, answer k = .error error := by
  induction n with
  | zero => exact .inl ⟨{}, rfl, ⟨rfl, by omega, by simp, by simp⟩⟩
  | succ n ih =>
    rw [foldlM_succ]
    rcases ih with ⟨p, hp, hrounds⟩ | ⟨error, herror, htoken, k, hk, hanswer⟩
    · rw [hp]
      show (∃ p', askChunk p (chunk n) (answer n) = .ok p' ∧ _) ∨ ∃ error, askChunk p (chunk n) (answer n) = .error error ∧ _
      cases hanswer : answer n with
      | ok response => exact .inl ⟨_, rfl, hrounds.answered hanswer⟩
      | error error =>
        cases htoken : error.invalidToken with
        | false => exact .inl ⟨_, by rw [askChunk, htoken]; rfl, hrounds.failed hanswer htoken⟩
        | true => exact .inr ⟨error, by rw [askChunk, htoken]; rfl, htoken, n, by omega, hanswer⟩
    · exact .inr ⟨error, by rw [herror]; rfl, htoken, k, by omega, hanswer⟩

end loop

/-! ### The bulk status -/

section bulk

variable (cms : Nat → Cms) (status : Text → BrokerStatusEntry) (bnames : List Text)

/-- The answer to the call for the `k`-th chunk of the names. -/
def chunkAnswer (names : List Text) (k : Nat) : Except Thrown GetBrokerStatusResponse :=
  cms k (joinNames (chunkAt brokerStatusBulkChunkSize names k))

/-- The names whose chunk's call has succeeded, in their order. -/
def answeredNames (names : List Text) : List Text :=
  (names.zipIdx.filter fun e => (chunkAnswer cms names (e.2 / brokerStatusBulkChunkSize)).isOk).map Prod.fst

/-- The numbers of the calls that `getBrokerStatusBulk` makes, unless it ends before. -/
def calls (names : List Text) : List Nat := List.range (chunkCount brokerStatusBulkChunkSize names.length)

variable {cms status bnames}

theorem mem_brokerNames {name : Text} (h : name ∈ brokerNames bnames) : name ≠ [] ∧ ∃ bname ∈ bnames, name = bname.trim := by
  rw [brokerNames, List.mem_eraseDups, List.mem_filter, List.mem_map] at h
  obtain ⟨⟨bname, hbname, rfl⟩, hne⟩ := h
  exact ⟨of_decide_eq_true hne, bname, hbname, rfl⟩

theorem flatMap_entriesOf (hnamed : ∀ name, name ≠ [] → (status name).bname.getD [] ≠ [])
    (hcms : ∀ k bname response, cms k bname = .ok response → Answers status bname response) {names : List Text}
    (hnames : ∀ name ∈ names, name ≠ [] ∧ ',' ∉ name) :
    ((calls names).flatMap fun k =>
      match chunkAnswer cms names k with
      | .ok response => entriesOf (chunkAt brokerStatusBulkChunkSize names k) response
      | .error _ => []) = (answeredNames cms names).map status := by
  have hsize : 0 < brokerStatusBulkChunkSize := by decide
  have hall : names.length ≤ brokerStatusBulkChunkSize * chunkCount brokerStatusBulkChunkSize names.length := by
    by_contra hlt
    have := (chunkCount_mul_lt hsize).2 (Nat.lt_of_not_le hlt)
    omega
  have hflat := flatMap_chunkAt hsize (fun k => (chunkAnswer cms names k).isOk) names
    (chunkCount brokerStatusBulkChunkSize names.length)
  rw [List.take_of_length_le hall] at hflat
  rw [answeredNames, ← hflat, List.map_flatMap]
  refine List.flatMap_congr fun k hk => ?_
  cases hanswer : chunkAnswer cms names k with
  | error error => rfl
  | ok response =>
    refine entriesOf_eq (chunkAt_ne_nil hsize (List.mem_range.1 hk)) hnamed (fun name hname => hnames name ?_)
      (hcms k _ response hanswer)
    exact List.mem_of_mem_drop (List.mem_of_mem_take hname)

/-- What `getBrokerStatusBulk` returns, and when it throws. -/
structure BulkStatus (cms : Nat → Cms) (status : Text → BrokerStatusEntry) (bnames : List Text) : Prop where
  returns : ∀ brokers, getBrokerStatusBulk cms bnames = .ok brokers →
    brokers = (answeredNames cms (brokerNames bnames)).map status
  single : ∀ name ∈ brokerNames bnames, ∀ k response, getBrokerStatus (cms k) name = .ok response →
    response.toBrokerStatusEntry = status name
  throws : ∀ error, getBrokerStatusBulk cms bnames = .error error →
    (error.invalidToken = true ∧ ∃ k ∈ calls (brokerNames bnames), chunkAnswer cms (brokerNames bnames) k = .error error) ∨
    (calls (brokerNames bnames) ≠ [] ∧
      ∀ k ∈ calls (brokerNames bnames), ∃ error, chunkAnswer cms (brokerNames bnames) k = .error error)

theorem broker_status_bulk (cms : Nat → Cms) (status : Text → BrokerStatusEntry) (bnames : List Text)
    (hcms : ∀ k bname response, cms k bname = .ok response → Answers status bname response)
    (hnamed : ∀ name, name ≠ [] → (status name).bname.getD [] ≠ []) (hcomma : ∀ bname ∈ bnames, ',' ∉ bname) :
    BulkStatus cms status bnames := by
  have hnames : ∀ name ∈ brokerNames bnames, name ≠ [] ∧ ',' ∉ name := by
    intro name hname
    obtain ⟨hne, bname, hbname, rfl⟩ := mem_brokerNames hname
    exact ⟨hne, fun hmem => hcomma bname hbname (Trim.mem_of_mem_trim hmem)⟩
  have hbulk : getBrokerStatusBulk cms bnames =
      (calls (brokerNames bnames)).foldlM (fun p k => askChunk p (chunkAt brokerStatusBulkChunkSize (brokerNames bnames) k)
        (chunkAnswer cms (brokerNames bnames) k)) {} >>= fun p =>
      match p.succeeded, p.firstError with
      | 0, some firstError => throw firstError
      | _, _ => pure p.brokers := rfl
  have hsingle : ∀ name ∈ brokerNames bnames, ∀ k response, getBrokerStatus (cms k) name = .ok response →
      response.toBrokerStatusEntry = status name := fun name hname k response h =>
    (hcms k name response h).one (hnames name hname).2
  rcases rounds (chunkAnswer cms (brokerNames bnames)) (chunkAt brokerStatusBulkChunkSize (brokerNames bnames))
    (chunkCount brokerStatusBulkChunkSize (brokerNames bnames).length) with ⟨p, hp, hrounds⟩ | ⟨error, herror, htoken, k, hk, hanswer⟩
  · have hresult : getBrokerStatusBulk cms bnames =
        match p.succeeded, p.firstError with
        | 0, some firstError => throw firstError
        | _, _ => pure p.brokers := by
      rw [hbulk, calls, hp]
      rfl
    refine ⟨fun brokers hbrokers => ?_, hsingle, fun error herror => .inr ?_⟩
    · rw [hresult] at hbrokers
      have hreturned : p.brokers = brokers := by
        split at hbrokers
        · cases hbrokers
        · exact Except.ok.inj hbrokers
      rw [← hreturned, hrounds.brokers]
      exact flatMap_entriesOf hnamed hcms hnames
    · rw [hresult] at herror
      split at herror
      · rename_i hzero hfirst
        have hfailed := hrounds.succeeded.1 hzero
        refine ⟨fun hnil => ?_, fun k hk => hfailed k (List.mem_range.1 hk)⟩
        -- without a call there is no error
        have hnone : p.firstError = none := by
          refine hrounds.firstError.2 fun k hk => ?_
          have hmem : k ∈ calls (brokerNames bnames) := List.mem_range.2 hk
          rw [hnil] at hmem
          cases hmem
        rw [hfirst] at hnone
        cases hnone
      · cases herror
  · have hresult : getBrokerStatusBulk cms bnames = .error error := by
      rw [hbulk, calls, herror]
      rfl
    refine ⟨fun brokers hbrokers => ?_, hsingle, fun error' herror' => .inl ?_⟩
    · rw [hresult] at hbrokers
      cases hbrokers
    · rw [hresult] at herror'
      cases herror'
      exact ⟨htoken, k, List.mem_range.2 hk, hanswer⟩

/-- What CMS says about a stopped broker. -/
def stoppedStatus (name : Text) : BrokerStatusEntry := ⟨some name, some "2026/01/01 00:00:00".toList, none, none⟩

/-- The second call fails. -/
def hangUpOnce (k : Nat) : Cms := fun bname =>
  if k = 1 then .error ⟨false, "socket hang up".toList⟩
  else .ok { stoppedStatus bname with broker := some ((bname.splitOn ',').map stoppedStatus) }

theorem broker_status_bulk_stopped :
    BulkStatus hangUpOnce stoppedStatus [" broker1 ".toList, "".toList, "query_editor".toList, "broker1".toList] := by
  refine broker_status_bulk _ _ _ (fun k bname response h => ?_) (fun name hname => hname) (by decide)
  unfold hangUpOnce at h
  split at h
  · cases h
  · cases h
    exact ⟨fun _ => rfl, fun _ => rfl⟩

example : getBrokerStatusBulk hangUpOnce [" a ".toList, "".toList, "b".toList, "a".toList] =
    .ok [stoppedStatus ['a'], stoppedStatus ['b']] := by rfl

end bulk

end CubridWebManager.BrokerStatus
