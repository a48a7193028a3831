import CubridWebManager.Conf.ParseConfText
import CubridWebManager.Lib.FirstSeen

/-!
# Collisions between brokers

A broker does not start with a port or a shared memory id that another one has, nor with the shared memory id of
`[broker]` itself.  `brokerCollisions` finds these in one pass over the sections, with a map from the ports seen so far
to the sections that have them, and one for the shared memory ids.

It reports a problem just if there is a collision, every problem names sections that do collide, and a value that `n`
brokers have is reported `n - 1` times (`broker_collisions_exact`).
-/

namespace CubridWebManager.Conf

open FirstSeen (Repeat repeats)

/-! ### Numbers as C reads them -/

inductive CIntBase
  | zero
  | ten
  | sixteen
  deriving DecidableEq

def digit? (c : Char) : Option Nat :=
  if '0' ≤ c ∧ c ≤ '9' then some (c.toNat - '0'.toNat)
  else if 'a' ≤ c ∧ c ≤ 'f' then some (c.toNat - 'a'.toNat + 10)
  else if 'A' ≤ c ∧ c ≤ 'F' then some (c.toNat - 'A'.toNat + 10)
  else none

/-- `parseInt(digits, radix)`, where there are digits of the radix only.  It is exact: what a double cannot hold is out
of the range of an `int`. -/
def digitsValue (radix : Nat) (digits : Text) : Option Nat :=
  if digits = [] then none
  else digits.foldlM (fun n c => ((digit? c).filter (· < radix)).map (radix * n + ·)) 0

/-- `/^0x[0-9a-f]/i` -/
def hasHexPrefix : Text → Bool
  | '0' :: x :: d :: _ => (x = 'x' ∨ x = 'X') ∧ (digit? d).isSome
  | _ => false

/-- The radix and the digits of a number without its sign. -/
def radixDigits (base : CIntBase) (body : Text) : Nat × Text :=
  if base ≠ .ten ∧ hasHexPrefix body = true then (16, body.drop 2)
  else
    match base with
    | .zero => (if 1 < body.length ∧ body.head? = some '0' then 8 else 10, body)
    | .ten => (10, body)
    | .sixteen => (16, body)

def signBody : Text → Bool × Text
  | '-' :: body => (true, body)
  | '+' :: body => (false, body)
  | body => (false, body)

def parseCInt (s : Text) (base : CIntBase) : Option Int :=
  let (negative, body) := signBody (s.dropWhile isIniSpace)
  let (radix, digits) := radixDigits base body
  ((digitsValue radix digits).map fun n => if negative then -(n : Int) else n).filter fun n =>
    -2147483648 ≤ n ∧ n ≤ 2147483647

def parseGuardInt (base : CIntBase) (value : Text) : Option Int := parseCInt value.trim base

/-! ### The problems -/

inductive CollisionMessage
  | duplicatePort (sectionName : Text) (port : Int) (other : Text)
  | duplicateShmId (sectionName other : Text)
  | masterShmId (sectionName commonSection : Text)
  deriving DecidableEq

namespace CollisionMessage

def sectionName : CollisionMessage → Text
  | duplicatePort sectionName _ _ | duplicateShmId sectionName _ | masterShmId sectionName _ => sectionName

def text : CollisionMessage → Text
  | duplicatePort sectionName port other =>
    "[".toList ++ sectionName ++ "] BROKER_PORT — ".toList ++ (toString port).toList ++
      " is already used by [".toList ++ other ++ "]; the broker refuses to start with a duplicated port.".toList
  | duplicateShmId sectionName other =>
    "[".toList ++ sectionName ++ "] APPL_SERVER_SHM_ID — already used by [".toList ++ other ++
      "]; the broker refuses to start with a duplicated shared memory id.".toList
  | masterShmId sectionName commonSection =>
    "[".toList ++ sectionName ++ "] APPL_SERVER_SHM_ID — same as MASTER_SHM_ID in [".toList ++ commonSection ++
      "]; the broker refuses to start.".toList

end CollisionMessage

structure ConfTextProblem where
  lineNo : Nat
  key : Text
  message : CollisionMessage
  deriving DecidableEq

/-! ### The pass over the sections -/

section pass

variable (lower : Text → Text)

def brokerPort : Text := "BROKER_PORT".toList

def applServerShmId : Text := "APPL_SERVER_SHM_ID".toList

def masterShmIdKey : Text := "MASTER_SHM_ID".toList

def lastEntry (conf : ConfTextSection) (key : Text) : Option ConfTextEntry :=
  conf.entries.reverse.find? fun e => lower e.key = lower key

def portOf (conf : ConfTextSection) : Option Int :=
  (lastEntry lower conf brokerPort).bind fun e => parseGuardInt .zero e.value

def shmIdOf (conf : ConfTextSection) : Option Int :=
  (lastEntry lower conf applServerShmId).bind fun e => parseGuardInt .sixteen e.value

def masterShmIdOf (sections : List ConfTextSection) (commonSection : Text) : Option Int :=
  (sections.find? fun conf => conf.name = some commonSection).bind fun common =>
    (lastEntry lower common masterShmIdKey).bind fun e => parseGuardInt .sixteen e.value

/-- The name of the section that has the value, where it is there and not empty. -/
def seenIn (seen : Dict Int Text) (value : Int) : Option Text := (seen.get? value).filter (· ≠ [])

def noteSeen (seen : Dict Int Text) (value : Option Int) (name : Text) : Dict Int Text :=
  match value with
  | none => seen
  | some value => if (seenIn seen value).isSome then seen else seen.set value name

structure Seen where
  ports : Dict Int Text
  shmIds : Dict Int Text

def portProblems (seenPorts : Dict Int Text) (conf : ConfTextSection) (name : Text) : List ConfTextProblem :=
  match lastEntry lower conf brokerPort, portOf lower conf with
  | some port, some portValue =>
    ((seenIn seenPorts portValue).map fun other =>
      ⟨port.lineNo, brokerPort, .duplicatePort name portValue other⟩).toList
  | _, _ => []

def shmIdProblems (seenShmIds : Dict Int Text) (commonSection : Text) (masterShmId : Option Int)
    (conf : ConfTextSection) (name : Text) : List ConfTextProblem :=
  match lastEntry lower conf applServerShmId, shmIdOf lower conf with
  | some shm, some shmValue =>
    ((seenIn seenShmIds shmValue).map fun other =>
      (⟨shm.lineNo, applServerShmId, .duplicateShmId name other⟩ : ConfTextProblem)).toList ++
    if some shmValue = masterShmId then [⟨shm.lineNo, applServerShmId, .masterShmId name commonSection⟩] else []
  | _, _ => []

/-- The loop, from the maps that it has made so far. -/
def collisionsFrom (commonSection : Text) (masterShmId : Option Int) (seen : Seen) :
    List ConfTextSection → List ConfTextProblem
  | [] => []
  | conf :: rest =>
    match conf.name with
    | some ('%' :: name) =>
      portProblems lower seen.ports conf ('%' :: name) ++
        shmIdProblems lower seen.shmIds commonSection masterShmId conf ('%' :: name) ++
        collisionsFrom commonSection masterShmId
          ⟨noteSeen seen.ports (portOf lower conf) ('%' :: name),
            noteSeen seen.shmIds (shmIdOf lower conf) ('%' :: name)⟩
          rest
    | _ => collisionsFrom commonSection masterShmId seen rest

def brokerCollisions (sections : List ConfTextSection) (commonSection : Text) : List ConfTextProblem :=
  collisionsFrom lower commonSection (masterShmIdOf lower sections commonSection) ⟨.empty, .empty⟩ sections

/-! ### What is reported -/

variable {lower}

/-- The brokers' sections that have a value, with it. -/
def valued (valueOf : ConfTextSection → Option Int) : List ConfTextSection → List (Text × Int)
  | [] => []
  | conf :: rest =>
    match conf.name with
    | some ('%' :: name) => ((valueOf conf).map fun value => ('%' :: name, value)).toList ++ valued valueOf rest
    | _ => valued valueOf rest

theorem broker_or_not (conf : ConfTextSection) :
    (∃ name, conf.name = some ('%' :: name)) ∨ ∀ name, conf.name ≠ some ('%' :: name) := by
  rw [← not_exists]
  exact em _

theorem collisionsFrom_broker {conf : ConfTextSection} {name : Text} (hname : conf.name = some ('%' :: name))
    (common : Text) (master : Option Int) (seen : Seen) (rest : List ConfTextSection) :
    collisionsFrom lower common master seen (conf :: rest) =
      portProblems lower seen.ports conf ('%' :: name) ++
        shmIdProblems lower seen.shmIds common master conf ('%' :: name) ++
        collisionsFrom lower common master ⟨noteSeen seen.ports (portOf lower conf) ('%' :: name),
          noteSeen seen.shmIds (shmIdOf lower conf) ('%' :: name)⟩ rest := by
  cases conf
  cases hname
  rfl

theorem collisionsFrom_other {conf : ConfTextSection} (hname : ∀ name, conf.name ≠ some ('%' :: name))
    (common : Text) (master : Option Int) (seen : Seen) (rest : List ConfTextSection) :
    collisionsFrom lower common master seen (conf :: rest) = collisionsFrom lower common master seen rest := by
  rw [collisionsFrom]
  split
  · exact absurd ‹_› (hname _)
  · rfl

theorem valued_broker {conf : ConfTextSection} {name : Text} (hname : conf.name = some ('%' :: name))
    (valueOf : ConfTextSection → Option Int) (rest : List ConfTextSection) : valued valueOf (conf :: rest) =
      ((valueOf conf).map fun value => ('%' :: name, value)).toList ++ valued valueOf rest := by
  cases conf
  cases hname
  rfl

theorem valued_other {conf : ConfTextSection} (hname : ∀ name, conf.name ≠ some ('%' :: name))
    (valueOf : ConfTextSection → Option Int) (rest : List ConfTextSection) :
    valued valueOf (conf :: rest) = valued valueOf rest := by
  rw [valued]
  split
  · exact absurd ‹_› (hname _)
  · rfl

def asDuplicatePort (p : ConfTextProblem) : Option (Repeat Text Int) :=
  match p.message with
  | .duplicatePort name port other => some ⟨name, port, other⟩
  | _ => none

def asDuplicateShmId (p : ConfTextProblem) : Option (Text × Text) :=
  match p.message with
  | .duplicateShmId name other => some (name, other)
  | _ => none

def asMasterShmId (p : ConfTextProblem) : Option (Text × Text) :=
  match p.message with
  | .masterShmId name common => some (name, common)
  | _ => none

/-- No section in the map has an empty name. -/
def Named (seen : Dict Int Text) : Prop := ∀ value, ∀ name ∈ seen.get? value, name ≠ []

theorem named_empty : Named .empty := fun value name h => by simp at h

theorem Named.seenIn_eq {seen : Dict Int Text} (h : Named seen) (value : Int) :
    seenIn seen value = seen.get? value := by
  unfold seenIn
  cases hget : seen.get? value with
  | none => rfl
  | some name => exact Option.filter_some_pos (decide_eq_true (h value name hget))

theorem Named.noteSeen_eq {seen : Dict Int Text} (h : Named seen) (value : Int) (name : Text) :
    noteSeen seen (some value) name = FirstSeen.note seen name value := by
  simp only [noteSeen, h.seenIn_eq, FirstSeen.note]
  cases seen.get? value <;> rfl

theorem Named.noteSeen {seen : Dict Int Text} (h : Named seen) (value : Option Int) {name : Text} (hname : name ≠ []) :
    Named (noteSeen seen value name) := by
  cases value with
  | none => exact h
  | some value =>
    rw [h.noteSeen_eq]
    intro k other hother
    rw [FirstSeen.get?_note, Option.mem_def, Option.or_eq_some_iff] at hother
    rcases hother with hold | ⟨-, hnew⟩
    · exact h k other hold
    · split at hnew
      · exact Option.some.inj hnew ▸ hname
      · cases hnew

variable {common : Text} {master : Option Int} {conf : ConfTextSection} {name : Text} {seen : Dict Int Text}

theorem filterMap_portProblems (h : Named seen) : (portProblems lower seen conf name).filterMap asDuplicatePort =
    match portOf lower conf with
    | some value => ((seen.get? value).map fun first => (⟨name, value, first⟩ : Repeat Text Int)).toList
    | none => [] := by
  unfold portProblems
  cases hport : portOf lower conf with
  | none => simp
  | some value =>
    obtain ⟨port, hentry, -⟩ := Option.bind_eq_some_iff.1 hport
    simp only [hentry, h.seenIn_eq]
    cases seen.get? value <;> rfl

theorem filterMap_shmIdProblems (h : Named seen) :
    (shmIdProblems lower seen common master conf name).filterMap asDuplicateShmId =
    match shmIdOf lower conf with
    | some value => ((seen.get? value).map fun first => (name, first)).toList
    | none => [] := by
  unfold shmIdProblems
  cases hshm : shmIdOf lower conf with
  | none => simp
  | some value =>
    obtain ⟨shm, hentry, -⟩ := Option.bind_eq_some_iff.1 hshm
    simp only [hentry, h.seenIn_eq, List.filterMap_append]
    have hmaster : (if some value = master then
        [(⟨shm.lineNo, applServerShmId, .masterShmId name common⟩ : ConfTextProblem)] else []).filterMap
          asDuplicateShmId = [] := by
      split <;> rfl
    rw [hmaster, List.append_nil]
    cases seen.get? value <;> rfl

theorem filterMap_master (h : Named seen) :
    (shmIdProblems lower seen common master conf name).filterMap asMasterShmId =
    match shmIdOf lower conf with
    | some value => if some value = master then [(name, common)] else []
    | none => [] := by
  unfold shmIdProblems
  cases hshm : shmIdOf lower conf with
  | none => simp
  | some value =>
    obtain ⟨shm, hentry, -⟩ := Option.bind_eq_some_iff.1 hshm
    simp only [hentry, h.seenIn_eq, List.filterMap_append]
    have hduplicate : (((seen.get? value).map fun other =>
        (⟨shm.lineNo, applServerShmId, .duplicateShmId name other⟩ : ConfTextProblem)).toList).filterMap
          asMasterShmId = [] := by
      cases seen.get? value <;> rfl
    rw [hduplicate, List.nil_append]
    split <;> rfl

theorem message_of_mem_portProblems {p : ConfTextProblem} (h : p ∈ portProblems lower seen conf name) :
    ∃ value other, p.message = .duplicatePort name value other := by
  unfold portProblems at h
  split at h
  · rw [Option.mem_toList, Option.map_eq_some_iff] at h
    obtain ⟨other, -, rfl⟩ := h
    exact ⟨_, other, rfl⟩
  · cases h

theorem message_of_mem_shmIdProblems {p : ConfTextProblem} (h : p ∈ shmIdProblems lower seen common master conf name) :
    (∃ other, p.message = .duplicateShmId name other) ∨ p.message = .masterShmId name common := by
  unfold shmIdProblems at h
  split at h
  · rcases List.mem_append.1 h with h | h
    · rw [Option.mem_toList, Option.map_eq_some_iff] at h
      obtain ⟨other, -, rfl⟩ := h
      exact .inl ⟨other, rfl⟩
    · split at h
      · rw [List.mem_singleton.1 h]
        exact .inr rfl
      · cases h
  · cases h

variable {seen : Seen} {sections : List ConfTextSection}

theorem duplicatePorts_eq (h : Named seen.ports) :
    (collisionsFrom lower common master seen sections).filterMap asDuplicatePort =
      repeats seen.ports (valued (portOf lower) sections) := by
  induction sections generalizing seen with
  | nil => rfl
  | cons conf rest ih =>
    rcases broker_or_not conf with ⟨name, hname⟩ | hname
    · rw [collisionsFrom_broker hname, valued_broker hname]
      have hshm : (shmIdProblems lower seen.shmIds common master conf ('%' :: name)).filterMap
          asDuplicatePort = [] := by
        refine List.filterMap_eq_nil_iff.2 fun p hp => ?_
        rcases message_of_mem_shmIdProblems hp with ⟨other, hmessage⟩ | hmessage
        · rw [asDuplicatePort, hmessage]
        · rw [asDuplicatePort, hmessage]
      rw [List.filterMap_append, List.filterMap_append, filterMap_portProblems h, hshm, List.append_nil,
        ih (h.noteSeen _ (List.cons_ne_nil _ _))]
      cases hport : portOf lower conf with
      | none => rfl
      | some value =>
        rw [h.noteSeen_eq]
        rfl
    · rw [collisionsFrom_other hname, valued_other hname]
      exact ih h

theorem duplicateShmIds_eq (h : Named seen.shmIds) :
    (collisionsFrom lower common master seen sections).filterMap asDuplicateShmId =
      (repeats seen.shmIds (valued (shmIdOf lower) sections)).map fun r => (r.name, r.first) := by
  induction sections generalizing seen with
  | nil => rfl
  | cons conf rest ih =>
    rcases broker_or_not conf with ⟨name, hname⟩ | hname
    · rw [collisionsFrom_broker hname, valued_broker hname]
      have hport : (portProblems lower seen.ports conf ('%' :: name)).filterMap asDuplicateShmId = [] := by
        refine List.filterMap_eq_nil_iff.2 fun p hp => ?_
        obtain ⟨value, other, hmessage⟩ := message_of_mem_portProblems hp
        rw [asDuplicateShmId, hmessage]
      rw [List.filterMap_append, List.filterMap_append, filterMap_shmIdProblems h, hport, List.nil_append,
        ih (h.noteSeen _ (List.cons_ne_nil _ _))]
      cases hshm : shmIdOf lower conf with
      | none => rfl
      | some value =>
        simp only [h.noteSeen_eq, Option.map_some, Option.toList_some, List.singleton_append, repeats, List.map_append]
        cases seen.shmIds.get? value <;> rfl
    · rw [collisionsFrom_other hname, valued_other hname]
      exact ih h

theorem masterShmIds_eq (h : Named seen.shmIds) :
    (collisionsFrom lower common master seen sections).filterMap asMasterShmId =
      ((valued (shmIdOf lower) sections).filter fun e => some e.2 = master).map fun e => (e.1, common) := by
  induction sections generalizing seen with
  | nil => rfl
  | cons conf rest ih =>
    rcases broker_or_not conf with ⟨name, hname⟩ | hname
    · rw [collisionsFrom_broker hname, valued_broker hname]
      have hport : (portProblems lower seen.ports conf ('%' :: name)).filterMap asMasterShmId = [] := by
        refine List.filterMap_eq_nil_iff.2 fun p hp => ?_
        obtain ⟨value, other, hmessage⟩ := message_of_mem_portProblems hp
        rw [asMasterShmId, hmessage]
      rw [List.filterMap_append, List.filterMap_append, filterMap_master h, hport, List.nil_append,
        ih (h.noteSeen _ (List.cons_ne_nil _ _))]
      cases hshm : shmIdOf lower conf with
      | none => rfl
      | some value =>
        simp only [Option.map_some, Option.toList_some, List.singleton_append, List.filter_cons]
        by_cases hmaster : some value = master
        · rw [if_pos hmaster, if_pos (decide_eq_true hmaster)]
          rfl
        · rw [if_neg hmaster, if_neg (by simpa using hmaster)]
          rfl
    · rw [collisionsFrom_other hname, valued_other hname]
      exact ih h

/-- A problem names a section, and is about the last line of the section with its key. -/
theorem section_of_mem {p : ConfTextProblem} (h : p ∈ collisionsFrom lower common master seen sections) :
    ∃ conf ∈ sections, conf.name = some p.message.sectionName ∧
      ∃ e ∈ lastEntry lower conf p.key, e.lineNo = p.lineNo := by
  induction sections generalizing seen with
  | nil => cases h
  | cons conf rest ih =>
    rcases broker_or_not conf with ⟨name, hname⟩ | hname
    · rw [collisionsFrom_broker hname] at h
      rcases List.mem_append.1 h with hhere | hlater
      · refine ⟨conf, List.mem_cons_self, ?_⟩
        rcases List.mem_append.1 hhere with hport | hshm
        · obtain ⟨value, other, hmessage⟩ := message_of_mem_portProblems hport
          refine ⟨by rw [hmessage, hname]; rfl, ?_⟩
          unfold portProblems at hport
          split at hport
          · rename_i port _ hentry _
            rw [Option.mem_toList, Option.map_eq_some_iff] at hport
            obtain ⟨other, -, rfl⟩ := hport
            exact ⟨port, hentry, rfl⟩
          · cases hport
        · refine ⟨?_, ?_⟩
          · rcases message_of_mem_shmIdProblems hshm with ⟨other, hmessage⟩ | hmessage
            · rw [hmessage, hname]
              rfl
            · rw [hmessage, hname]
              rfl
          · unfold shmIdProblems at hshm
            split at hshm
            · rename_i shm _ hentry _
              refine ⟨shm, ?_⟩
              rcases List.mem_append.1 hshm with hshm | hshm
              · rw [Option.mem_toList, Option.map_eq_some_iff] at hshm
                obtain ⟨other, -, rfl⟩ := hshm
                exact ⟨hentry, rfl⟩
              · split at hshm
                · rw [List.mem_singleton.1 hshm]
                  exact ⟨hentry, rfl⟩
                · cases hshm
            · cases hshm
      · obtain ⟨conf', hconf', hrest⟩ := ih hlater
        exact ⟨conf', List.mem_cons_of_mem _ hconf', hrest⟩
    · rw [collisionsFrom_other hname] at h
      obtain ⟨conf', hconf', hrest⟩ := ih h
      exact ⟨conf', List.mem_cons_of_mem _ hconf', hrest⟩

end pass

/-! ### Soundness, completeness and count -/

section exact

variable (lower : Text → Text) (sections : List ConfTextSection) (common : Text)

/-- `section.name?.startsWith('%')` -/
def isBroker (conf : ConfTextSection) : Bool := conf.name.any fun name => name.head? = some '%'

/-- The values of the brokers' sections. -/
def valuesOf (valueOf : ConfTextSection → Option Int) : List Int := (sections.filter isBroker).filterMap valueOf

/-- The value of the section of that name. -/
def valueNamed (valueOf : ConfTextSection → Option Int) (name : Text) : Option Int :=
  (sections.find? fun conf => conf.name = some name).bind valueOf

/-- The problem is about a line of a broker's section that has the value said, and so has the section that it names. -/
def Collides (p : ConfTextProblem) : Prop :=
  ∃ conf ∈ sections, conf.name = some p.message.sectionName ∧ isBroker conf = true ∧
    (∃ e ∈ lastEntry lower conf p.key, e.lineNo = p.lineNo) ∧
    match p.message with
    | .duplicatePort _ port other => portOf lower conf = some port ∧
        ∃ conf' ∈ sections, conf'.name = some other ∧ isBroker conf' = true ∧ conf' ≠ conf ∧
          portOf lower conf' = some port
    | .duplicateShmId _ other => ∃ id, shmIdOf lower conf = some id ∧
        ∃ conf' ∈ sections, conf'.name = some other ∧ isBroker conf' = true ∧ conf' ≠ conf ∧
          shmIdOf lower conf' = some id
    | .masterShmId _ other => other = common ∧ ∃ id, shmIdOf lower conf = some id ∧
        masterShmIdOf lower sections common = some id

structure CollisionsExact : Prop where
  none_iff : brokerCollisions lower sections common = [] ↔
    (valuesOf sections (portOf lower)).Nodup ∧ (valuesOf sections (shmIdOf lower)).Nodup ∧
      ∀ id ∈ valuesOf sections (shmIdOf lower), masterShmIdOf lower sections common ≠ some id
  sound : ∀ p ∈ brokerCollisions lower sections common, Collides lower sections common p
  ports : ∀ port, ((brokerCollisions lower sections common).filter fun p =>
      (asDuplicatePort p).any fun r => valueNamed sections (portOf lower) r.name = some port).length =
    (valuesOf sections (portOf lower)).count port - 1
  shmIds : ∀ id, ((brokerCollisions lower sections common).filter fun p =>
      (asDuplicateShmId p).any fun r => valueNamed sections (shmIdOf lower) r.1 = some id).length =
    (valuesOf sections (shmIdOf lower)).count id - 1

variable {lower sections common} {valueOf : ConfTextSection → Option Int}

theorem isBroker_of_name {conf : ConfTextSection} {name : Text} (h : conf.name = some ('%' :: name)) :
    isBroker conf = true := by
  simp [isBroker, h]

theorem not_isBroker {conf : ConfTextSection} (h : ∀ name, conf.name ≠ some ('%' :: name)) : isBroker conf = false := by
  rw [isBroker, Option.any_eq_false]
  rintro (_ | ⟨c, name⟩) hname
  · rfl
  · refine decide_eq_false fun hc => h name ?_
    obtain rfl := Option.some.inj hc
    exact hname

theorem map_snd_valued : (valued valueOf sections).map Prod.snd = valuesOf sections valueOf := by
  induction sections with
  | nil => rfl
  | cons conf rest ih =>
    unfold valuesOf
    rcases broker_or_not conf with ⟨name, hname⟩ | hname
    · rw [valued_broker hname, List.filter_cons_of_pos (isBroker_of_name hname), List.map_append, ih,
        List.filterMap_cons]
      cases valueOf conf <;> rfl
    · rw [valued_other hname, List.filter_cons_of_neg (by rw [not_isBroker hname]; exact Bool.false_ne_true)]
      exact ih

theorem mem_valued {name : Text} {value : Int} (h : (name, value) ∈ valued valueOf sections) :
    ∃ conf ∈ sections, conf.name = some name ∧ isBroker conf = true ∧ valueOf conf = some value := by
  induction sections with
  | nil => cases h
  | cons conf rest ih =>
    rcases broker_or_not conf with ⟨name', hname⟩ | hname
    · rw [valued_broker hname] at h
      rcases List.mem_append.1 h with hhere | hlater
      · rw [Option.mem_toList, Option.map_eq_some_iff] at hhere
        obtain ⟨value', hvalue, heq⟩ := hhere
        cases heq
        exact ⟨conf, List.mem_cons_self, hname, isBroker_of_name hname, hvalue⟩
      · obtain ⟨conf', hmem, hrest⟩ := ih hlater
        exact ⟨conf', List.mem_cons_of_mem _ hmem, hrest⟩
    · rw [valued_other hname] at h
      obtain ⟨conf', hmem, hrest⟩ := ih h
      exact ⟨conf', List.mem_cons_of_mem _ hmem, hrest⟩

theorem names_valued_sublist :
    ((valued valueOf sections).map fun e => some e.1).Sublist (sections.map ConfTextSection.name) := by
  induction sections with
  | nil => exact .slnil
  | cons conf rest ih =>
    rcases broker_or_not conf with ⟨name, hname⟩ | hname
    · rw [valued_broker hname, List.map_append, List.map_cons, hname]
      cases valueOf conf with
      | none => exact .cons _ ih
      | some value => exact .cons_cons _ ih
    · rw [valued_other hname]
      exact .cons _ ih

variable (hnames : (sections.map ConfTextSection.name).Nodup)
include hnames

theorem section_eq {conf conf' : ConfTextSection} (hconf : conf ∈ sections) (hconf' : conf' ∈ sections)
    (h : conf.name = conf'.name) : conf = conf' := List.inj_on_of_nodup_map hnames hconf hconf' h

theorem valueNamed_eq {conf : ConfTextSection} {name : Text} (hconf : conf ∈ sections) (hname : conf.name = some name) :
    valueNamed sections valueOf name = valueOf conf := by
  unfold valueNamed
  cases hfind : sections.find? fun conf => conf.name = some name with
  | none => exact absurd hname (by simpa using List.find?_eq_none.1 hfind conf hconf)
  | some found =>
    have hfound : found.name = some name := by simpa using List.find?_some hfind
    rw [section_eq hnames (List.mem_of_find?_eq_some hfind) hconf (hfound.trans hname.symm)]
    rfl

/-- The two sections of a repeated value. -/
theorem sections_of_repeat {r : Repeat Text Int} (h : r ∈ repeats .empty (valued valueOf sections)) :
    ∃ conf ∈ sections, conf.name = some r.name ∧ isBroker conf = true ∧ valueOf conf = some r.key ∧
      ∃ conf' ∈ sections, conf'.name = some r.first ∧ isBroker conf' = true ∧ conf' ≠ conf ∧
        valueOf conf' = some r.key := by
  have hsub := FirstSeen.sublist_of_mem_repeats h
  obtain ⟨conf', hconf', hname', hbroker', hvalue'⟩ := mem_valued (hsub.subset List.mem_cons_self)
  obtain ⟨conf, hconf, hname, hbroker, hvalue⟩ := mem_valued (hsub.subset (List.mem_cons_of_mem _ List.mem_cons_self))
  refine ⟨conf, hconf, hname, hbroker, hvalue, conf', hconf', hname', hbroker', ?_, hvalue'⟩
  rintro rfl
  have hnodup := hnames.sublist ((hsub.map fun e => some e.1).trans names_valued_sublist)
  rw [hname'] at hname
  simp [Option.some.inj hname] at hnodup

theorem collides_of_mem {p : ConfTextProblem} (h : p ∈ brokerCollisions lower sections common) :
    Collides lower sections common p := by
  obtain ⟨conf, hconf, hname, hline⟩ := section_of_mem h
  have hreport : ∀ {β : Type} {f : ConfTextProblem → Option β} {b : β}, f p = some b →
      b ∈ (brokerCollisions lower sections common).filterMap f := fun hf => List.mem_filterMap.2 ⟨p, h, hf⟩
  have hsame {conf'} (hconf' : conf' ∈ sections) (hname' : conf'.name = some p.message.sectionName) : conf' = conf :=
    section_eq hnames hconf' hconf (hname'.trans hname.symm)
  unfold Collides
  cases hmessage : p.message with
  | duplicatePort name port other =>
    rw [hmessage] at hname hsame
    have hmem := hreport (f := asDuplicatePort) (b := ⟨name, port, other⟩) (by rw [asDuplicatePort, hmessage])
    rw [brokerCollisions, duplicatePorts_eq named_empty] at hmem
    obtain ⟨conf', hconf', hname', hbroker, hvalue, hother⟩ := sections_of_repeat hnames hmem
    obtain rfl := hsame hconf' hname'
    exact ⟨conf', hconf', hname', hbroker, hline, hvalue, hother⟩
  | duplicateShmId name other =>
    rw [hmessage] at hname hsame
    have hmem := hreport (f := asDuplicateShmId) (b := (name, other)) (by rw [asDuplicateShmId, hmessage])
    rw [brokerCollisions, duplicateShmIds_eq named_empty] at hmem
    obtain ⟨r, hr, heq⟩ := List.mem_map.1 hmem
    cases heq
    obtain ⟨conf', hconf', hname', hbroker, hvalue, hother⟩ := sections_of_repeat hnames hr
    obtain rfl := hsame hconf' hname'
    exact ⟨conf', hconf', hname', hbroker, hline, r.key, hvalue, hother⟩
  | masterShmId name other =>
    rw [hmessage] at hname hsame
    have hmem := hreport (f := asMasterShmId) (b := (name, other)) (by rw [asMasterShmId, hmessage])
    rw [brokerCollisions, masterShmIds_eq named_empty] at hmem
    obtain ⟨⟨name', id⟩, hid, heq⟩ := List.mem_map.1 hmem
    cases heq
    obtain ⟨hvalued, hmaster⟩ := List.mem_filter.1 hid
    obtain ⟨conf', hconf', hname', hbroker, hvalue⟩ := mem_valued hvalued
    obtain rfl := hsame hconf' hname'
    exact ⟨conf', hconf', hname', hbroker, hline, rfl, id, hvalue, (of_decide_eq_true hmaster).symm⟩

omit hnames in
theorem eq_nil_iff (l : List ConfTextProblem) : l = [] ↔
    l.filterMap asDuplicatePort = [] ∧ l.filterMap asDuplicateShmId = [] ∧ l.filterMap asMasterShmId = [] := by
  cases l with
  | nil => simp
  | cons p l =>
    refine iff_of_false (List.cons_ne_nil p l) fun ⟨hport, hshm, hmaster⟩ => ?_
    have hnone := And.intro (List.filterMap_eq_nil_iff.1 hport p List.mem_cons_self)
      (And.intro (List.filterMap_eq_nil_iff.1 hshm p List.mem_cons_self)
        (List.filterMap_eq_nil_iff.1 hmaster p List.mem_cons_self))
    cases hmessage : p.message <;> simp [asDuplicatePort, asDuplicateShmId, asMasterShmId, hmessage] at hnone

omit hnames in
theorem brokerCollisions_eq_nil_iff : brokerCollisions lower sections common = [] ↔
    (valuesOf sections (portOf lower)).Nodup ∧ (valuesOf sections (shmIdOf lower)).Nodup ∧
      ∀ id ∈ valuesOf sections (shmIdOf lower), masterShmIdOf lower sections common ≠ some id := by
  rw [eq_nil_iff, brokerCollisions, duplicatePorts_eq named_empty, duplicateShmIds_eq named_empty,
    masterShmIds_eq named_empty, List.map_eq_nil_iff, List.map_eq_nil_iff, FirstSeen.repeats_eq_nil_iff,
    FirstSeen.repeats_eq_nil_iff, List.filter_eq_nil_iff, map_snd_valued, map_snd_valued]
  have hempty : ∀ l : List (Text × Int), ∀ e ∈ l, (Dict.empty : Dict Int Text).get? e.2 = none :=
    fun _ e _ => Dict.get?_empty e.2
  rw [and_iff_left (hempty _), and_iff_left (hempty _), ← @map_snd_valued sections (shmIdOf lower)]
  refine and_congr_right fun _ => and_congr_right fun _ =>
    ⟨fun hnone id hid hmaster => ?_, fun hnone e he hmaster => ?_⟩
  · obtain ⟨e, he, rfl⟩ := List.mem_map.1 hid
    exact hnone e he (decide_eq_true hmaster.symm)
  · exact hnone e.2 (List.mem_map_of_mem he) (of_decide_eq_true hmaster).symm

omit hnames in
theorem length_filter_any {β : Type} (f : ConfTextProblem → Option β) (q : β → Bool) (l : List ConfTextProblem) :
    (l.filter fun p => (f p).any q).length = ((l.filterMap f).filter q).length := by
  induction l with
  | nil => rfl
  | cons p l ih =>
    rw [List.filter_cons, List.filterMap_cons]
    cases hf : f p with
    | none => simpa using ih
    | some b =>
      rw [Option.any_some, List.filter_cons]
      split <;> simpa using ih

/-- The reports about a value are those that name a section with it. -/
theorem count_repeats_named (value : Int) :
    ((repeats .empty (valued valueOf sections)).filter fun r =>
      valueNamed sections valueOf r.name = some value).length = (valuesOf sections valueOf).count value - 1 := by
  rw [← map_snd_valued, ← FirstSeen.count_repeats]
  congr 1
  refine List.filter_congr fun r hr => ?_
  obtain ⟨conf, hconf, hname, -, hvalue, -⟩ := sections_of_repeat hnames hr
  rw [valueNamed_eq hnames hconf hname, hvalue]
  simp

end exact

theorem broker_collisions_exact (lower : Text → Text) (sections : List ConfTextSection) (common : Text)
    (hnames : (sections.map ConfTextSection.name).Nodup) : CollisionsExact lower sections common where
  none_iff := brokerCollisions_eq_nil_iff
  sound _ := collides_of_mem hnames
  ports port := by
    rw [length_filter_any, brokerCollisions, duplicatePorts_eq named_empty]
    exact count_repeats_named hnames port
  shmIds id := by
    rw [length_filter_any, brokerCollisions, duplicateShmIds_eq named_empty, List.filter_map, List.length_map]
    exact count_repeats_named hnames id

/-- Three brokers with one port in three notations, the last of which has the shared memory id of `[broker]`. -/
def collidingBrokers : List ConfTextSection :=
  [⟨some "broker".toList, none, [⟨"MASTER_SHM_ID".toList, "30001".toList, 1⟩]⟩,
    ⟨some "%a".toList, none,
      [⟨"BROKER_PORT".toList, "30000".toList, 2⟩, ⟨"APPL_SERVER_SHM_ID".toList, "1".toList, 3⟩]⟩,
    ⟨some "%b".toList, none,
      [⟨"BROKER_PORT".toList, "0x7530".toList, 4⟩, ⟨"APPL_SERVER_SHM_ID".toList, "2".toList, 5⟩]⟩,
    ⟨some "%c".toList, none,
      [⟨"BROKER_PORT".toList, "072460".toList, 6⟩, ⟨"APPL_SERVER_SHM_ID".toList, "0x30001".toList, 7⟩]⟩]

theorem broker_collisions_exact_three :
    brokerCollisions (fun t => t.map Char.toLower) collidingBrokers "broker".toList =
      [⟨4, brokerPort, .duplicatePort "%b".toList 30000 "%a".toList⟩,
        ⟨6, brokerPort, .duplicatePort "%c".toList 30000 "%a".toList⟩,
        ⟨7, applServerShmId, .masterShmId "%c".toList "broker".toList⟩] ∧
    CollisionsExact (fun t => t.map Char.toLower) collidingBrokers "broker".toList :=
  ⟨by decide, broker_collisions_exact _ _ _ (by decide)⟩

end CubridWebManager.Conf
