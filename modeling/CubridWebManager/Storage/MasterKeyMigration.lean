import CubridWebManager.Lib.PercentDecoding
import CubridWebManager.Lib.Run
import CubridWebManager.Lib.SepList
import CubridWebManager.Lib.Trim
import Mathlib.Logic.Function.Basic

/-!
# The migration of the storage to another key

`scripts/migrate-storage-master-key.mjs` decrypts each record with the old key and writes it back encrypted with the new
one.  A run may stop at any file, also in the middle of a write.

The script has no way to tell a record that is migrated already: what it has written, all of it or a part, does not
decrypt under the old key (`decryptValue_take`), and the next run stops there.  So the migration can be run again if and
only if no run that stopped has begun to write (`rerun_recovers_iff`).
-/

namespace CubridWebManager.Storage

open Transition PercentDecoding

/-! ### Records -/

abbrev Iv := { iv : List UInt8 // iv.length = 16 }

/-- The cipher, on texts in UTF-8. -/
structure Cipher (Key : Type) where
  encipher : Key → Iv → Text → List UInt8
  decipher : Key → List UInt8 → List UInt8 → Option Text

/-- What is taken for granted of the cipher: it pads, it can be undone, and neither the whole nor the beginning of a
cipher text can be deciphered under another key. -/
structure Cipher.Sound {Key : Type} (C : Cipher Key) : Prop where
  padded : ∀ key iv plain, C.encipher key iv plain ≠ []
  roundTrip : ∀ key iv plain, C.decipher key iv.1 (C.encipher key iv plain) = some plain
  wrongKey : ∀ key key' iv plain bytes, key ≠ key' → bytes <+: C.encipher key iv plain →
    C.decipher key' iv.1 bytes = none

def hexChar (n : Nat) : Char := if n < 10 then Char.ofNat ('0'.toNat + n) else Char.ofNat ('a'.toNat + (n - 10))

/-- `toString('hex')` -/
def toHex : List UInt8 → Text
  | [] => []
  | b :: bs => hexChar (b.toNat / 16) :: hexChar (b.toNat % 16) :: toHex bs

/-- `Buffer.from(t, 'hex')`: up to the first two characters that are not hexadecimal digits. -/
def fromHex : Text → List UInt8
  | h :: l :: t =>
    match hexDigit h, hexDigit l with
    | some high, some low => UInt8.ofNat (16 * high + low) :: fromHex t
    | _, _ => []
  | _ => []

section

variable {Key : Type} (C : Cipher Key)

def decryptValue (cipher : Text) (key : Key) : Option Text :=
  match cipher.splitOn ':' with
  | ivHex :: encryptedHex :: _ =>
    if ivHex = [] ∨ encryptedHex = [] then none else C.decipher key (fromHex ivHex) (fromHex encryptedHex)
  | _ => none

def encryptValue (plain : Text) (key : Key) (iv : Iv) : Text := toHex iv.1 ++ ':' :: toHex (C.encipher key iv plain)

end

/-! ### A run of the script -/

/-- Where a run stops at a file. -/
inductive Fault
  /-- `readFile` fails. -/
  | read
  /-- The run stops behind the reading and before the file is changed. -/
  | unwritten
  /-- It stops when so many characters are written. -/
  | torn (written : Nat)
  deriving DecidableEq

abbrev Contents := Text → Text

def skips (name : Text) : Bool := ".tmp".toList <:+ name || name.head? = some '.'

def isBlank (raw : Text) : Bool := raw.trim = []

/-- One run: the order in which the directory is read, where it stops, and the random bytes for each file. -/
structure Attempt where
  order : List Text
  fault? : Text → Option Fault
  iv : Text → Iv

section

variable {Key : Type} (C : Cipher Key) (oldKey newKey : Key) (a : Attempt)

/-- The loop over the files, and whether it has gone through. -/
def migrate : List Text → Contents → Contents × Bool
  | [], s => (s, true)
  | name :: rest, s =>
    if skips name then migrate rest s
    else if a.fault? name = some .read then (s, false)
    else if isBlank (s name) then migrate rest s
    else match decryptValue C (s name) oldKey with
      | none => (s, false)
      | some plain =>
        let enc := encryptValue C plain newKey (a.iv name)
        match a.fault? name with
        | some (.torn written) => (Function.update s name (enc.take written), false)
        | some _ => (s, false)
        | none => migrate rest (Function.update s name enc)

/-- The script on the contents of the directory. -/
def runScript [DecidableEq Key] (s : Contents) : Contents × Bool :=
  if oldKey = newKey then (s, true) else migrate C oldKey newKey a a.order s

/-- A run that stops, over a directory with these files. -/
def stoppedRun [DecidableEq Key] (files : List Text) (s : Contents) (a : Attempt) : Option Contents :=
  if a.order.Perm files ∧ (runScript C oldKey newKey a s).2 = false then some (runScript C oldKey newKey a s).1 else none

end

/-- The run stops at or before the first record that is not empty, and before it is changed. -/
def StopsEarly (a : Attempt) : List Text → Contents → Prop
  | [], _ => False
  | name :: rest, s =>
    if skips name then StopsEarly a rest s
    else a.fault? name = some .read ∨
      if isBlank (s name) then StopsEarly a rest s else a.fault? name = some .unwritten

/-- A record of the directory that is not empty. -/
def IsRecord (files : List Text) (s₀ : Contents) (name : Text) : Prop :=
  name ∈ files ∧ skips name = false ∧ isBlank (s₀ name) = false

section

variable {Key : Type} [DecidableEq Key] (C : Cipher Key) (oldKey newKey : Key) (files : List Text) (s₀ : Contents)

/-- Every record decrypts to its original text under one of the keys, and a run that does not fail goes through and
leaves every record decryptable to it under the new key. -/
def Recoverable (s : Contents) : Prop :=
  (∀ name plain, IsRecord files s₀ name → decryptValue C (s₀ name) oldKey = some plain →
    decryptValue C (s name) oldKey = some plain ∨ decryptValue C (s name) newKey = some plain) ∧
  ∀ a : Attempt, a.order.Perm files → (∀ name, a.fault? name = none) →
    (runScript C oldKey newKey a s).2 = true ∧
    ∀ name plain, IsRecord files s₀ name → decryptValue C (s₀ name) oldKey = some plain →
      decryptValue C ((runScript C oldKey newKey a s).1 name) newKey = some plain

end

/-! ### Hexadecimal digits -/

theorem hexDigit_hexChar {n : Nat} (h : n < 16) : hexDigit (hexChar n) = some n := by
  have hall : ∀ n < 16, hexDigit (hexChar n) = some n := by decide
  exact hall n h

theorem hexChar_ne_colon {n : Nat} (h : n < 16) : hexChar n ≠ ':' := by
  have hall : ∀ n < 16, hexChar n ≠ ':' := by decide
  exact hall n h

theorem colon_not_mem_toHex (bs : List UInt8) : ':' ∉ toHex bs := by
  induction bs with
  | nil => exact List.not_mem_nil
  | cons b bs ih =>
    have hb := b.toNat_lt
    simp only [toHex, List.mem_cons, not_or]
    exact ⟨(hexChar_ne_colon (by omega)).symm, (hexChar_ne_colon (by omega)).symm, ih⟩

theorem toHex_ne_nil {bs : List UInt8} (h : bs ≠ []) : toHex bs ≠ [] := by
  cases bs with
  | nil => exact absurd rfl h
  | cons b bs => exact List.cons_ne_nil _ _

/-- The digits that are there give the bytes from the beginning on. -/
theorem fromHex_take (bs : List UInt8) (n : Nat) : fromHex ((toHex bs).take n) <+: bs := by
  induction bs generalizing n with
  | nil => simp [toHex, fromHex]
  | cons b bs ih =>
    match n with
    | 0 => simp [fromHex]
    | 1 => simp [toHex, fromHex]
    | n + 2 =>
      have hb := b.toNat_lt
      have hbyte : UInt8.ofNat (16 * (b.toNat / 16) + b.toNat % 16) = b := by
        rw [Nat.div_add_mod]
        exact UInt8.ofNat_toNat
      simp only [toHex, List.take_succ_cons, fromHex, hexDigit_hexChar (show b.toNat / 16 < 16 by omega),
        hexDigit_hexChar (show b.toNat % 16 < 16 by omega), hbyte]
      exact (List.prefix_cons_inj b).2 (ih n)

theorem fromHex_toHex (bs : List UInt8) : fromHex (toHex bs) = bs := by
  induction bs with
  | nil => rfl
  | cons b bs ih =>
    have hb := b.toNat_lt
    have hbyte : UInt8.ofNat (16 * (b.toNat / 16) + b.toNat % 16) = b := by
      rw [Nat.div_add_mod]
      exact UInt8.ofNat_toNat
    simp only [toHex, fromHex, hexDigit_hexChar (show b.toNat / 16 < 16 by omega),
      hexDigit_hexChar (show b.toNat % 16 < 16 by omega), hbyte, ih]

/-! ### Encrypted records -/

variable {Key : Type} {C : Cipher Key}

theorem decryptValue_of_parts {ivHex encryptedHex : Text} (hiv : ':' ∉ ivHex) (hencrypted : ':' ∉ encryptedHex) (key : Key) :
    decryptValue C (ivHex ++ ':' :: encryptedHex) key =
      if ivHex = [] ∨ encryptedHex = [] then none else C.decipher key (fromHex ivHex) (fromHex encryptedHex) := by
  rw [decryptValue, List.splitOn_append_cons_self_of_not_mem hiv, List.splitOn_eq_singleton hencrypted]

theorem decryptValue_of_not_mem {t : Text} (h : ':' ∉ t) (key : Key) : decryptValue C t key = none := by
  rw [decryptValue, List.splitOn_eq_singleton h]

theorem decryptValue_encryptValue (hC : C.Sound) (plain : Text) (key : Key) (iv : Iv) :
    decryptValue C (encryptValue C plain key iv) key = some plain := by
  have hiv : toHex iv.1 ≠ [] := by
    refine toHex_ne_nil fun hnil => ?_
    have hlength := iv.2
    rw [hnil] at hlength
    cases hlength
  rw [encryptValue, decryptValue_of_parts (colon_not_mem_toHex _) (colon_not_mem_toHex _),
    if_neg (not_or.2 ⟨hiv, toHex_ne_nil (hC.padded key iv plain)⟩), fromHex_toHex, fromHex_toHex]
  exact hC.roundTrip key iv plain

/-- What a write has left of a record does not decrypt under another key. -/
theorem decryptValue_take (hC : C.Sound) {key key' : Key} (hne : key ≠ key') (plain : Text) (iv : Iv) (n : Nat) :
    decryptValue C ((encryptValue C plain key iv).take n) key' = none := by
  rw [encryptValue, List.take_append]
  cases hm : n - (toHex iv.1).length with
  | zero =>
    rw [List.take_zero, List.append_nil]
    exact decryptValue_of_not_mem (fun hmem => colon_not_mem_toHex _ (List.take_subset _ _ hmem)) _
  | succ m =>
    have hall : (toHex iv.1).take n = toHex iv.1 := List.take_of_length_le (by omega)
    rw [hall, List.take_succ_cons, decryptValue_of_parts (colon_not_mem_toHex _)
      fun hmem => colon_not_mem_toHex _ (List.take_subset _ _ hmem)]
    split
    · rfl
    · rw [fromHex_toHex]
      exact hC.wrongKey key key' iv plain _ hne (fromHex_take _ m)

theorem isBlank_of_decrypt {raw plain : Text} {key : Key} (h : decryptValue C raw key = some plain) :
    isBlank raw = false := by
  have hcolon : ':' ∈ raw := by
    by_contra hnot
    rw [decryptValue_of_not_mem hnot] at h
    cases h
  refine decide_eq_false fun hblank => ?_
  have hall : Trim.All Text.isSpace raw := Trim.all_of_trim_eq_nil hblank
  exact absurd (hall ':' hcolon) (by decide)

/-! ### One run -/

variable {oldKey newKey : Key} {a : Attempt} {s s' : Contents} {name : Text}

theorem migrate_cons (f : Text) (rest : List Text) :
    migrate C oldKey newKey a (f :: rest) s =
      if skips f then migrate C oldKey newKey a rest s
      else if a.fault? f = some .read then (s, false)
      else if isBlank (s f) then migrate C oldKey newKey a rest s
      else match decryptValue C (s f) oldKey with
        | none => (s, false)
        | some plain =>
          match a.fault? f with
          | some (.torn written) => (Function.update s f ((encryptValue C plain newKey (a.iv f)).take written), false)
          | some _ => (s, false)
          | none => migrate C oldKey newKey a rest (Function.update s f (encryptValue C plain newKey (a.iv f))) := rfl

/-- What a run writes does not decrypt under the old key. -/
theorem decrypt_migrate_none (hC : C.Sound) (hne : oldKey ≠ newKey) (order : List Text)
    (h : decryptValue C (s name) oldKey = none) :
    decryptValue C ((migrate C oldKey newKey a order s).1 name) oldKey = none := by
  induction order generalizing s with
  | nil => exact h
  | cons f rest ih =>
    have hwritten : ∀ plain n, decryptValue C
        (Function.update s f ((encryptValue C plain newKey (a.iv f)).take n) name) oldKey = none := by
      intro plain n
      rw [Function.update_apply]
      split
      · exact decryptValue_take hC hne.symm plain _ n
      · exact h
    rw [migrate_cons]
    split
    · exact ih h
    · split
      · exact h
      · split
        · exact ih h
        · split
          · exact h
          · rename_i plain _
            split
            · exact hwritten plain _
            · exact h
            · refine ih ?_
              have hall := hwritten plain (encryptValue C plain newKey (a.iv f)).length
              rwa [List.take_length] at hall

/-- A run that stops early has changed nothing. -/
theorem migrate_of_early {order : List Text} (h : StopsEarly a order s) :
    migrate C oldKey newKey a order s = (s, false) := by
  induction order with
  | nil => exact h.elim
  | cons f rest ih =>
    unfold StopsEarly at h
    rw [migrate_cons]
    split at h
    · rename_i hskips
      rw [if_pos hskips]
      exact ih h
    · rename_i hskips
      rw [if_neg hskips]
      rcases h with hread | h
      · rw [if_pos hread]
      · split
        · rfl
        · split at h
          · rename_i hblank
            rw [if_pos hblank]
            exact ih h
          · rename_i hblank
            rw [if_neg hblank]
            split
            · rfl
            · simp only [h]

theorem stoppedRun_of_early [DecidableEq Key] {files : List Text} (hne : oldKey ≠ newKey) (hperm : a.order.Perm files)
    (h : StopsEarly a a.order s) : stoppedRun C oldKey newKey files s a = some s := by
  rw [stoppedRun, runScript, if_neg hne, migrate_of_early h, if_pos ⟨hperm, rfl⟩]

/-- A run that stops later has made a record that does not decrypt under the old key. -/
theorem exists_of_not_early (hC : C.Sound) (hne : oldKey ≠ newKey) {order : List Text}
    (hdecrypts : ∀ f ∈ order, skips f = false → isBlank (s f) = false → ∃ plain, decryptValue C (s f) oldKey = some plain)
    (hstops : (migrate C oldKey newKey a order s).2 = false) (hearly : ¬ StopsEarly a order s) :
    ∃ f ∈ order, skips f = false ∧ isBlank (s f) = false ∧
      decryptValue C ((migrate C oldKey newKey a order s).1 f) oldKey = none := by
  induction order with
  | nil => cases hstops
  | cons f rest ih =>
    have hrest : ∀ hstops', ¬ StopsEarly a rest s → _ := fun hstops' hearly' =>
      ih (fun f' hf' => hdecrypts f' (List.mem_cons_of_mem _ hf')) hstops' hearly'
    unfold StopsEarly at hearly
    rw [migrate_cons] at hstops ⊢
    split at hearly
    · rename_i hskips
      rw [if_pos hskips] at hstops ⊢
      obtain ⟨f', hf', hfound⟩ := hrest hstops hearly
      exact ⟨f', List.mem_cons_of_mem _ hf', hfound⟩
    · rename_i hskips
      rw [not_or] at hearly
      rw [if_neg hskips, if_neg hearly.1] at hstops ⊢
      obtain ⟨hread, hearly⟩ := hearly
      split at hearly
      · rename_i hblank
        rw [if_pos hblank] at hstops ⊢
        obtain ⟨f', hf', hfound⟩ := hrest hstops hearly
        exact ⟨f', List.mem_cons_of_mem _ hf', hfound⟩
      · -- the record is written, and nothing brings it back
        rename_i hblank
        have hskips : skips f = false := by simpa using hskips
        have hblank : isBlank (s f) = false := by simpa using hblank
        obtain ⟨plain, hplain⟩ := hdecrypts f List.mem_cons_self hskips hblank
        refine ⟨f, List.mem_cons_self, hskips, hblank, ?_⟩
        rw [if_neg (by simp [hblank]), hplain]
        dsimp only
        split
        · rename_i written _
          show decryptValue C (Function.update s f ((encryptValue C plain newKey (a.iv f)).take written) f) oldKey = none
          rw [Function.update_self]
          exact decryptValue_take hC hne.symm plain _ written
        · rename_i fault htorn hfault
          cases fault with
          | read => exact absurd hfault hread
          | unwritten => exact absurd hfault hearly
          | torn written => exact (htorn written rfl).elim
        · refine decrypt_migrate_none hC hne rest ?_
          have hall := decryptValue_take hC hne.symm plain (a.iv f) (encryptValue C plain newKey (a.iv f)).length
          rw [List.take_length] at hall
          rwa [Function.update_self]

theorem migrate_frame {order : List Text} (h : name ∉ order) : (migrate C oldKey newKey a order s).1 name = s name := by
  induction order generalizing s with
  | nil => rfl
  | cons f rest ih =>
    rw [List.mem_cons, not_or] at h
    have hother : ∀ t, Function.update s f t name = s name := fun t => Function.update_of_ne h.1 t s
    rw [migrate_cons]
    split
    · exact ih h.2
    · split
      · rfl
      · split
        · exact ih h.2
        · split
          · rfl
          · split
            · exact hother _
            · rfl
            · rw [ih h.2, hother]

/-- A run without failures goes through the records that decrypt, and they decrypt under the new key then. -/
theorem migrate_of_no_fault (hC : C.Sound) {order : List Text} (hnodup : order.Nodup) (hfault : ∀ f, a.fault? f = none)
    (hdecrypts : ∀ f ∈ order, skips f = false → isBlank (s f) = false → ∃ plain, decryptValue C (s f) oldKey = some plain) :
    (migrate C oldKey newKey a order s).2 = true ∧ ∀ f ∈ order, skips f = false → ∀ plain,
      decryptValue C (s f) oldKey = some plain →
      decryptValue C ((migrate C oldKey newKey a order s).1 f) newKey = some plain := by
  induction order generalizing s with
  | nil => exact ⟨rfl, nofun⟩
  | cons f rest ih =>
    obtain ⟨hnot, hnodup⟩ := List.nodup_cons.1 hnodup
    rw [migrate_cons]
    by_cases hskips : skips f = true
    · obtain ⟨hdone, hrest⟩ := ih hnodup fun f' hf' => hdecrypts f' (List.mem_cons_of_mem _ hf')
      rw [if_pos hskips]
      refine ⟨hdone, fun f' hf' hskips' => hrest f' ((List.mem_cons.1 hf').resolve_left ?_) hskips'⟩
      rintro rfl
      rw [hskips] at hskips'
      cases hskips'
    · rw [if_neg hskips, if_neg (by simp [hfault])]
      by_cases hblank : isBlank (s f) = true
      · obtain ⟨hdone, hrest⟩ := ih hnodup fun f' hf' => hdecrypts f' (List.mem_cons_of_mem _ hf')
        rw [if_pos hblank]
        refine ⟨hdone, fun f' hf' hskips' plain hplain =>
          hrest f' ((List.mem_cons.1 hf').resolve_left ?_) hskips' plain hplain⟩
        rintro rfl
        rw [isBlank_of_decrypt hplain] at hblank
        cases hblank
      · obtain ⟨plain, hplain⟩ := hdecrypts f List.mem_cons_self (by simpa using hskips) (by simpa using hblank)
        rw [if_neg hblank, hplain]
        dsimp only
        rw [hfault f]
        -- the other files are as they were
        have hother : ∀ f' ∈ rest, Function.update s f (encryptValue C plain newKey (a.iv f)) f' = s f' := by
          intro f' hf'
          refine Function.update_of_ne ?_ _ _
          rintro rfl
          exact hnot hf'
        obtain ⟨hdone, hrest⟩ := ih (s := Function.update s f (encryptValue C plain newKey (a.iv f))) hnodup
          fun f' hf' hskips' hblank' => by
            rw [hother f' hf'] at hblank' ⊢
            exact hdecrypts f' (List.mem_cons_of_mem _ hf') hskips' hblank'
        refine ⟨hdone, fun f' hf' hskips' plain' hplain' => ?_⟩
        rcases List.mem_cons.1 hf' with rfl | hf'
        · rw [migrate_frame hnot, Function.update_self, decryptValue_encryptValue hC, ← hplain, hplain']
        · exact hrest f' hf' hskips' plain' (by rwa [hother f' hf'])

/-- An empty file is not written. -/
theorem migrate_of_blank {order : List Text} (h : isBlank (s name) = true) :
    (migrate C oldKey newKey a order s).1 name = s name := by
  induction order generalizing s with
  | nil => rfl
  | cons f rest ih =>
    rw [migrate_cons]
    split
    · exact ih h
    · split
      · rfl
      · split
        · exact ih h
        · rename_i hblank
          have hne : name ≠ f := by
            rintro rfl
            exact hblank h
          have hother : ∀ t, Function.update s f t name = s name := fun t => Function.update_of_ne hne t s
          split
          · rfl
          · split
            · exact hother _
            · rfl
            · rw [ih (by rw [hother, h]), hother]

/-- A run does not go through a record that does not decrypt under the old key. -/
theorem migrate_incomplete {order : List Text} (hmem : name ∈ order) (hskips : skips name = false)
    (hblank : isBlank (s name) = false) (h : decryptValue C (s name) oldKey = none) :
    (migrate C oldKey newKey a order s).2 = false := by
  induction order generalizing s with
  | nil => cases hmem
  | cons f rest ih =>
    rw [migrate_cons]
    by_cases hf : f = name
    · subst hf
      rw [if_neg (by simp [hskips])]
      split
      · rfl
      · rw [if_neg (by simp [hblank]), h]
    · have hmem : name ∈ rest := (List.mem_cons.1 hmem).resolve_left fun heq => hf heq.symm
      have hother : ∀ t, Function.update s f t name = s name := fun t => Function.update_of_ne (Ne.symm hf) t s
      split
      · exact ih hmem hblank h
      · split
        · rfl
        · split
          · exact ih hmem hblank h
          · split
            · rfl
            · split
              · rfl
              · rfl
              · exact ih hmem (by rw [hother, hblank]) (by rw [hother, h])

/-! ### All runs -/

section

variable [DecidableEq Key] {files : List Text} {s₀ : Contents}

/-- The records can be recovered, and the empty files are as they were. -/
structure Intact (C : Cipher Key) (oldKey newKey : Key) (files : List Text) (s₀ s : Contents) : Prop where
  recoverable : Recoverable C oldKey newKey files s₀ s
  blank : ∀ name, isBlank (s₀ name) = true → s name = s₀ name

/-- The records are still encrypted under the old key. -/
theorem Intact.decrypts (h : Intact C oldKey newKey files s₀ s) (hne : oldKey ≠ newKey)
    (hmem : name ∈ files) (hskips : skips name = false) (hblank : isBlank (s name) = false) :
    ∃ plain, decryptValue C (s name) oldKey = some plain := by
  by_contra hnone
  have hnone : decryptValue C (s name) oldKey = none :=
    Option.eq_none_iff_forall_ne_some.2 fun plain hplain => hnone ⟨plain, hplain⟩
  -- a run without failures would stop at it
  have hgoes := (h.recoverable.2 ⟨files, fun _ => none, fun _ => ⟨List.replicate 16 0, rfl⟩⟩ (.refl _) fun _ => rfl).1
  rw [runScript, if_neg hne, migrate_incomplete hmem hskips hblank hnone] at hgoes
  cases hgoes

theorem Intact.initial (hC : C.Sound) (hnodup : files.Nodup)
    (hold : ∀ name, IsRecord files s₀ name → ∃ plain, decryptValue C (s₀ name) oldKey = some plain) :
    Intact C oldKey newKey files s₀ s₀ := by
  refine ⟨⟨fun name plain _ hplain => .inl hplain, fun a hperm hfault => ?_⟩, fun _ _ => rfl⟩
  by_cases hne : oldKey = newKey
  · subst hne
    rw [runScript, if_pos rfl]
    exact ⟨rfl, fun name plain _ hplain => hplain⟩
  · rw [runScript, if_neg hne]
    obtain ⟨hdone, hrest⟩ := migrate_of_no_fault hC (hperm.nodup_iff.2 hnodup) hfault
      fun f hf hskips hblank => hold f ⟨hperm.mem_iff.1 hf, hskips, hblank⟩
    exact ⟨hdone, fun name plain hname hplain => hrest name (hperm.mem_iff.2 hname.1) hname.2.1 plain hplain⟩

/-- A run that stops keeps the records intact if and only if it stops early. -/
theorem Intact.step_iff (hC : C.Sound)
    (hold : ∀ name, IsRecord files s₀ name → ∃ plain, decryptValue C (s₀ name) oldKey = some plain)
    (h : Intact C oldKey newKey files s₀ s) (hstep : stoppedRun C oldKey newKey files s a = some s') :
    Intact C oldKey newKey files s₀ s' ↔ StopsEarly a a.order s := by
  rw [stoppedRun, Option.ite_none_right_eq_some, Option.some.injEq] at hstep
  obtain ⟨⟨hperm, hstops⟩, rfl⟩ := hstep
  have hne : oldKey ≠ newKey := by
    rintro rfl
    rw [runScript, if_pos rfl] at hstops
    cases hstops
  rw [runScript, if_neg hne] at hstops ⊢
  constructor
  · intro hintact
    by_contra hearly
    obtain ⟨f, hf, hskips, hblank, hnone⟩ := exists_of_not_early hC hne
      (fun f hf => h.decrypts hne (hperm.mem_iff.1 hf)) hstops hearly
    have hf := hperm.mem_iff.1 hf
    have hrecord : IsRecord files s₀ f := by
      refine ⟨hf, hskips, Bool.eq_false_iff.2 fun hblank₀ => ?_⟩
      rw [h.blank f hblank₀, hblank₀] at hblank
      cases hblank
    obtain ⟨plain, hplain⟩ := hold f hrecord
    have hfilled : isBlank ((migrate C oldKey newKey a a.order s).1 f) = false := by
      rcases hintact.recoverable.1 f plain hrecord hplain with hsome | hsome
      · exact isBlank_of_decrypt hsome
      · exact isBlank_of_decrypt hsome
    obtain ⟨plain', hplain'⟩ := hintact.decrypts hne hf hskips hfilled
    cases hnone.symm.trans hplain'
  · intro hearly
    rw [migrate_of_early hearly]
    exact h

theorem blank_run {as : List Attempt} (hrun : Run (stoppedRun C oldKey newKey files) Always s₀ as s) :
    ∀ name, isBlank (s₀ name) = true → s name = s₀ name := by
  refine hrun.invariant (I := fun s => ∀ name, isBlank (s₀ name) = true → s name = s₀ name)
    (fun s a s' h _ hstep name hblank => ?_) fun _ _ => rfl
  rw [stoppedRun, Option.ite_none_right_eq_some, Option.some.injEq] at hstep
  obtain ⟨-, rfl⟩ := hstep
  have hsame := h name hblank
  unfold runScript
  split
  · exact hsame
  · rw [migrate_of_blank (by rw [hsame, hblank]), hsame]

/-- The migration can be run again after runs that stopped if and only if each of them stopped before it changed a
record. -/
theorem rerun_recovers_iff (C : Cipher Key) (hC : C.Sound) (oldKey newKey : Key) (files : List Text) (hnodup : files.Nodup)
    (s₀ : Contents) (hold : ∀ name, IsRecord files s₀ name → ∃ plain, decryptValue C (s₀ name) oldKey = some plain)
    (as : List Attempt) (s : Contents) (hrun : Run (stoppedRun C oldKey newKey files) Always s₀ as s) :
    (∀ bs s₁, bs <+: as → Run (stoppedRun C oldKey newKey files) Always s₀ bs s₁ →
      Recoverable C oldKey newKey files s₀ s₁) ↔
    Run (stoppedRun C oldKey newKey files) (fun s a => StopsEarly a a.order s) s₀ as s := by
  rw [← hrun.prefixes_iff (fun s a s' h hstep => h.step_iff hC hold hstep) (Intact.initial hC hnodup hold)]
  refine forall₂_congr fun bs s₁ => forall₂_congr fun _ hrun₁ => ?_
  exact ⟨fun h => ⟨h, blank_run hrun₁⟩, Intact.recoverable⟩

end

/-! ### Two records -/

def charBytes (c : Char) : List UInt8 :=
  [UInt8.ofNat (c.toNat / 65536), UInt8.ofNat (c.toNat / 256 % 256), UInt8.ofNat (c.toNat % 256)]

def readChars : List UInt8 → Text
  | high :: middle :: low :: bytes => Char.ofNat (high.toNat * 65536 + middle.toNat * 256 + low.toNat) :: readChars bytes
  | _ => []

/-- A cipher that only writes the key in front of the text. -/
def tagging : Cipher UInt8 where
  encipher key _ plain := key :: plain.flatMap charBytes
  decipher key _
    | [] => none
    | key' :: bytes => if key' = key then some (readChars bytes) else none

theorem readChars_charBytes (plain : Text) : readChars (plain.flatMap charBytes) = plain := by
  induction plain with
  | nil => rfl
  | cons c t ih =>
    have hchar : c.toNat < 0x110000 := by
      rcases c.valid with hlow | hhigh
      · exact hlow.trans (by decide)
      · exact hhigh.2
    rw [List.flatMap_cons]
    simp only [charBytes, List.cons_append, List.nil_append, readChars, ih, UInt8.toNat_ofNat']
    have hsum : c.toNat / 65536 % 2 ^ 8 * 65536 + c.toNat / 256 % 256 % 2 ^ 8 * 256 + c.toNat % 256 % 2 ^ 8 = c.toNat := by
      omega
    rw [hsum, Char.ofNat_toNat]

theorem tagging_sound : tagging.Sound where
  padded _ _ _ := List.cons_ne_nil _ _
  roundTrip key _ plain := by
    show (if key = key then some (readChars (plain.flatMap charBytes)) else none) = some plain
    rw [if_pos rfl, readChars_charBytes]
  wrongKey key key' _ plain bytes hne hbegins := by
    cases bytes with
    | nil => rfl
    | cons b bytes =>
      obtain ⟨rfl, -⟩ := List.cons_prefix_cons.1 hbegins
      exact if_neg hne

def zeroIv : Iv := ⟨List.replicate 16 0, rfl⟩

/-- Every record is the same host under the key 1. -/
def hostRecords : Contents := fun _ => encryptValue tagging "host".toList 1 zeroIv

theorem hostRecords_decrypt (name : Text) : decryptValue tagging (hostRecords name) 1 = some "host".toList :=
  decryptValue_encryptValue tagging_sound _ _ _

theorem hostRecords_not_blank (name : Text) : isBlank (hostRecords name) = false :=
  isBlank_of_decrypt (hostRecords_decrypt name)

/-- The write of the first record fails. -/
def unwrittenRun : Attempt :=
  ⟨["a".toList, "b".toList], fun name => if name = "a".toList then some .unwritten else none, fun _ => zeroIv⟩

/-- The second record cannot be read. -/
def halfRun : Attempt :=
  ⟨["a".toList, "b".toList], fun name => if name = "b".toList then some .read else none, fun _ => zeroIv⟩

theorem unwrittenRun_early : StopsEarly unwrittenRun unwrittenRun.order hostRecords := by
  rw [unwrittenRun, StopsEarly, if_neg (by decide)]
  refine .inr ?_
  rw [if_neg (by simp [hostRecords_not_blank])]
  rfl

theorem halfRun_not_early : ¬ StopsEarly halfRun halfRun.order hostRecords := by
  intro h
  rw [halfRun, StopsEarly, if_neg (by decide)] at h
  rcases h with h | h
  · exact absurd h (by decide)
  · rw [if_neg (by simp [hostRecords_not_blank])] at h
    exact absurd h (by decide)

theorem rerun_recovers_unwritten :
    ∃ s, Run (stoppedRun tagging 1 2 ["a".toList, "b".toList]) Always hostRecords [unwrittenRun] s ∧
      Recoverable tagging 1 2 ["a".toList, "b".toList] hostRecords s := by
  have hstep := stoppedRun_of_early (C := tagging) (show (1 : UInt8) ≠ 2 by decide) (.refl _) unwrittenRun_early
  have hrun : Run (stoppedRun tagging 1 2 ["a".toList, "b".toList]) Always hostRecords [unwrittenRun] hostRecords :=
    Run.single trivial hstep
  have hiff := rerun_recovers_iff tagging tagging_sound 1 2 ["a".toList, "b".toList] (by decide) hostRecords
    (fun name _ => ⟨_, hostRecords_decrypt name⟩) [unwrittenRun] hostRecords hrun
  exact ⟨hostRecords, hrun, hiff.2 (Run.single unwrittenRun_early hstep) _ _ List.prefix_rfl hrun⟩

/-- The first record is under the new key when the run stops, and no further run goes beyond it. -/
theorem rerun_recovers_fails :
    ∃ s, Run (stoppedRun tagging 1 2 ["a".toList, "b".toList]) Always hostRecords [halfRun] s ∧
      ¬ Recoverable tagging 1 2 ["a".toList, "b".toList] hostRecords s := by
  have hold : ∀ name, IsRecord ["a".toList, "b".toList] hostRecords name →
      ∃ plain, decryptValue tagging (hostRecords name) 1 = some plain := fun name _ => ⟨_, hostRecords_decrypt name⟩
  have hstep : stoppedRun tagging 1 2 ["a".toList, "b".toList] hostRecords halfRun =
      some (runScript tagging 1 2 halfRun hostRecords).1 := by
    refine if_pos ⟨.refl _, ?_⟩
    decide
  have hrun : Run (stoppedRun tagging 1 2 ["a".toList, "b".toList]) Always hostRecords [halfRun] _ := .single trivial hstep
  refine ⟨_, hrun, fun hrecoverable => halfRun_not_early ?_⟩
  exact ((Intact.initial tagging_sound (by decide) hold).step_iff tagging_sound hold hstep).1
    ⟨hrecoverable, blank_run hrun⟩

end CubridWebManager.Storage
