import CubridWebManager.Account.UserService
import CubridWebManager.Lib.Run

/-!
# Credentials and identity

Which fields an account operation changes: `changePassword` the password, if the old one matches, and all others only
the department and the preference (`modify_frame`), as long as the body of an `updateUser` is `Harmless`, which is just
what keeps it to the department (`updateUser_frame_iff`).
-/

namespace CubridWebManager.Account

open JsObject Transition

/-- The body of an `updateUser` has no field but the department, or one that the record has with the same value; the
field `__proto__` becomes none of the record. -/
def Harmless (user : Record) : Op → Prop
  | .updateUser update => ∀ key value, update.ownFields.get? key = some value →
    key = "department" ∨ key = "__proto__" ∨ user.get? key = some value
  | _ => True

section operations

variable {compare : Compare} {user user' : Record} {op : Op} {key : String} {update : Json}

theorem get?_mergePreference (hkey : key ≠ "user_preference") :
    (mergePreference user update).get? key = user.get? key := by
  unfold mergePreference
  rw [Dict.get?_set, if_neg hkey]

theorem get?_setDepartment (user : Record) (department : Option Json) (hdepartment : key ≠ "department") :
    (match department with
      | none => user
      | some department => user.set "department" department).get? key = user.get? key := by
  cases department with
  | none => rfl
  | some department => exact (Dict.get?_set _ _ _ _).trans (if_neg hdepartment)

theorem get?_updateProfile (h : updateProfile user update = .ok user') (hdepartment : key ≠ "department")
    (hpreference : key ≠ "user_preference") : user'.get? key = user.get? key := by
  unfold updateProfile at h
  split at h
  · obtain rfl := Except.ok.inj h
    split
    · exact get?_setDepartment user _ hdepartment
    · exact (get?_mergePreference hpreference).trans (get?_setDepartment user _ hdepartment)
  · cases h
  · cases h

theorem updateUser_ok (h : updateUser user update = .ok user') : user' = assignAll user update.ownFields := by
  unfold updateUser at h
  split at h
  · cases h
  · exact (Except.ok.inj h).symm

/-- `updateUser` changes no field but the department just if its body is harmless. -/
theorem updateUser_frame_iff (h : updateUser user update = .ok user') :
    (∀ key, key ≠ "department" → user'.get? key = user.get? key) ↔ Harmless user (.updateUser update) := by
  obtain rfl := updateUser_ok h
  constructor
  · intro hframe key value hvalue
    by_cases hdepartment : key = "department"
    · exact .inl hdepartment
    by_cases hproto : key = "__proto__"
    · exact .inr (.inl hproto)
    · have hsame := hframe key hdepartment
      rw [get?_assignAll, if_neg hproto, hvalue, Option.some_or] at hsame
      exact .inr (.inr hsame.symm)
  · intro hharmless key hdepartment
    rw [get?_assignAll]
    split
    · rfl
    · rename_i hproto
      cases hvalue : update.ownFields.get? key with
      | none => rw [Option.none_or]
      | some value =>
        rw [Option.some_or]
        exact (((hharmless key value hvalue).resolve_left hdepartment).resolve_left hproto).symm

/-- A field other than the department and the preference changes only by a `changePassword` that has compared the old
password, and this field is the password. -/
theorem modify_frame (h : op.modify compare user = .ok user') (hharmless : Harmless user op)
    (hdepartment : key ≠ "department") (hpreference : key ≠ "user_preference") : user'.get? key = user.get? key ∨
      key = "password" ∧ ∃ dto hashed, op = .changePassword dto hashed ∧ compareOld compare user dto = .ok true ∧
        user'.get? "password" = some (.str hashed) := by
  cases op with
  | changePassword dto hashed =>
    simp only [Op.modify, changePassword] at h
    split at h
    · cases h
    · cases h
    · rename_i hold
      split at h
      · cases h
      · split at h
        · obtain rfl := Except.ok.inj h
          by_cases hkey : key = "password"
          · exact .inr ⟨hkey, dto, hashed, rfl, hold, Dict.get?_set_self _ _ _⟩
          · exact .inl ((Dict.get?_set _ _ _ _).trans (if_neg hkey))
        · cases h
  | updateProfile update => exact .inl (get?_updateProfile h hdepartment hpreference)
  | updateUserPreferences update =>
    obtain rfl := Except.ok.inj h
    exact .inl (get?_mergePreference hpreference)
  | updateUser update => exact .inl ((updateUser_frame_iff h).2 hharmless key hdepartment)

/-- A call that throws changes nothing. -/
theorem step_cases (h : step compare user op = some user') : op.modify compare user = .ok user' ∨ user' = user := by
  unfold step at h
  split at h
  · rename_i user₁ hmodify
    obtain rfl := Option.some.inj h
    exact .inl hmodify
  · exact .inr (Option.some.inj h).symm

theorem step_frame (h : step compare user op = some user') (hharmless : Harmless user op)
    (hdepartment : key ≠ "department") (hpreference : key ≠ "user_preference") : user'.get? key = user.get? key ∨
      key = "password" ∧ ∃ dto hashed, op = .changePassword dto hashed ∧ compareOld compare user dto = .ok true ∧
        user'.get? "password" = some (.str hashed) := by
  rcases step_cases h with hmodify | rfl
  · exact modify_frame hmodify hharmless hdepartment hpreference
  · exact .inl rfl

end operations

/-- The fields that no operation changes. -/
def identityFields : List String := ["id", "uuid", "host_groups"]

/-- Through every sequence of operations the identity stays; in every record reached, the next operation changes the
password only if it is a `changePassword` with the old password, and an `updateUser` only the department. -/
theorem credentials_kept (compare : Compare) {user user₁ : Record} {ops : List Op}
    (hrun : Run (step compare) Harmless user ops user₁) :
    (∀ key ∈ identityFields, user₁.get? key = user.get? key) ∧
    ∀ op user₂, Harmless user₁ op → step compare user₁ op = some user₂ →
      (user₂.get? "password" ≠ user₁.get? "password" → ∃ dto hashed, op = .changePassword dto hashed ∧
        compareOld compare user₁ dto = .ok true ∧ user₂.get? "password" = some (.str hashed)) ∧
      ∀ update, op = .updateUser update → ∀ key, key ≠ "department" → user₂.get? key = user₁.get? key := by
  refine ⟨fun key hkey => ?_, fun op user₂ hharmless hstep => ⟨fun hne => ?_, ?_⟩⟩
  · have hother : key ≠ "department" ∧ key ≠ "user_preference" ∧ key ≠ "password" := by
      simp only [identityFields, List.mem_cons, List.not_mem_nil, or_false] at hkey
      rcases hkey with rfl | rfl | rfl <;> decide
    refine hrun.invariant (I := fun s => s.get? key = user.get? key) (fun s op s' hs hharmless hstep => ?_) rfl
    rcases step_frame hstep hharmless hother.1 hother.2.1 with hsame | ⟨hpassword, -⟩
    · exact hsame.trans hs
    · exact absurd hpassword hother.2.2
  · rcases @step_frame compare user₁ user₂ op "password" hstep hharmless (by decide) (by decide) with hsame | ⟨-, hchanged⟩
    · exact absurd hsame hne
    · exact hchanged
  · rintro update rfl key hkey
    rcases step_cases hstep with hmodify | rfl
    · exact (updateUser_frame_iff hmodify).2 hharmless key hkey
    · rfl

/-- The hash of one password is known. -/
def knownHash : Compare
  | some (.str plain), some (.str hash) => .ok (plain = "first1234" && hash = "$2b$10$first")
  | _, _ => .error "Illegal arguments"

def newUser : Record :=
  .ofList [("uuid", .str "7b1c"), ("id", .str "user1"), ("password", .str "$2b$10$first"),
    ("department", .str "default"), ("host_groups", .obj [])]

def newPassword : Op :=
  .changePassword (.obj [("oldPassword", .str "first1234"), ("newPassword", .str "second5678")]) "$2b$10$second"

/-- The password is changed, then the department. -/
theorem credentials_kept_changed : ∃ user₁ user₂, Run (step knownHash) Harmless newUser [newPassword] user₁ ∧
    user₁.get? "password" = some (.str "$2b$10$second") ∧ user₁.get? "id" = newUser.get? "id" ∧
    step knownHash user₁ (.updateUser (.obj [("department", .str "sales")])) = some user₂ ∧
    user₂.get? "password" = user₁.get? "password" := by
  obtain ⟨user₁, hstep, hpassword⟩ : ∃ user₁, step knownHash newUser newPassword = some user₁ ∧
      user₁.get? "password" = some (.str "$2b$10$second") := ⟨_, rfl, rfl⟩
  have hrun : Run (step knownHash) Harmless newUser [newPassword] user₁ := .single trivial hstep
  obtain ⟨hidentity, hnext⟩ := credentials_kept knownHash hrun
  have hharmless : Harmless user₁ (.updateUser (.obj [("department", .str "sales")])) := by
    intro key value hvalue
    have hget : (if key = "department" then some (Json.str "sales") else none) = some value :=
      (Dict.get?_set _ _ _ _).symm.trans hvalue
    split at hget
    · rename_i hkey
      exact .inl hkey
    · cases hget
  exact ⟨user₁, _, hrun, hpassword, hidentity "id" (by decide), rfl,
    (hnext _ _ hharmless rfl).2 _ rfl "password" (by decide)⟩

/-- `updateUser` stores a password and an id that its body gives. -/
theorem credentials_kept_fails : ∃ user₁,
    step knownHash newUser (.updateUser (.obj [("password", .str "$2b$10$other"), ("id", .str "user2")])) = some user₁ ∧
    newUser.get? "password" = some (.str "$2b$10$first") ∧ user₁.get? "password" = some (.str "$2b$10$other") ∧
    newUser.get? "id" = some (.str "user1") ∧ user₁.get? "id" = some (.str "user2") :=
  ⟨_, rfl, rfl, rfl, rfl, rfl⟩

end CubridWebManager.Account
