import CubridWebManager.Lib.Json
import CubridWebManager.Lib.JsText
import CubridWebManager.Lib.Pieces
import Mathlib.Data.List.DropRight

/-!
# The texts of maintenance jobs

`apps/api-server/src/cms-job/maintenance-job.ts` and the end of an optimize or check job in `cms-job.service.ts`: the
output of the utility and the message of a failure are stored with the job, after the secrets of the request and of the
response, and then what looks like the assignment of a secret, were replaced with `[redacted]`.

A secret that has no character of `[redacted]` is in none of these texts (`maintenance_results_contain_no_secret`).
`toLowerCase` is a parameter, and `toText` is the `String(value)` of a value that is no text.
-/

namespace CubridWebManager.Redaction

open Pieces

inductive MaintenanceType
  | optimize
  | check

structure MaintenanceResult where
  success : Bool
  output : Option Text

structure JobError where
  message : Text
  cmsStatus : Text

inductive JobStatus
  | queued
  | running
  | succeeded
  | failed

/-- The record of an optimize or check job. -/
structure MaintenanceJob where
  type : MaintenanceType
  payload : Json
  status : JobStatus
  error : Option JobError
  result : Option MaintenanceResult

def redacted : Text := "[redacted]".toList

/-! ### Redaction -/

/-- A letter against a pattern with the flag `i`. -/
def eqIgnoringCase (c d : Char) : Bool := c.toLower = d

/-- The text begins with the word, which is in lower case. -/
def startsWithIgnoringCase : Text → Text → Bool
  | [], _ => true
  | _ :: _, [] => false
  | w :: word, c :: t => eqIgnoringCase c w && startsWithIgnoringCase word t

/-- `["']?` -/
def dropQuote : Text → Text
  | [] => []
  | c :: t => if c = '"' || c = '\'' then t else c :: t

/-- `(?:token|dbpasswd|password)` -/
def dropKeyword (t : Text) : Option Text :=
  (["token", "dbpasswd", "password"].find? fun word => startsWithIgnoringCase word.toList t).map fun word =>
    t.drop word.length

/-- `(?:"[^"]*"|'[^']*'|[^\s,;]+)`: the text behind it. -/
def dropValue : Text → Option Text
  | [] => none
  | c :: t =>
    let closed := (t.dropWhile (· ≠ c)).tail
    if (c = '"' || c = '\'') && t.contains c then some closed
    else if Text.isSpace c || c = ',' || c = ';' then none
    else some (t.dropWhile fun d => !(Text.isSpace d || d = ',' || d = ';'))

/-- `((?:["']?(?:token|dbpasswd|password)["']?)\s*[=:]\s*)` and a value, at the beginning of the text. -/
def assignment (t : Text) : Option Match :=
  match dropKeyword (dropQuote t) with
  | none => none
  | some afterKeyword =>
    match (dropQuote afterKeyword).dropWhile Text.isSpace with
    | [] => none
    | c :: afterSign =>
      if c = '=' || c = ':' then
        let value := afterSign.dropWhile Text.isSpace
        (dropValue value).map fun rest => ⟨t.length - value.length, t.length - rest.length⟩
      else none

/-- The property of an object, of no other value. -/
def objectProp (value : Option Json) (key : String) : Option Json :=
  match value with
  | some (.obj fields) => (Json.obj fields).ownFields.get? key
  | some (.arr items) => (Json.arr items).ownFields.get? key
  | _ => none

/-- The secrets in the order in which they are replaced. -/
def secrets (job : MaintenanceJob) (response : Option Json) : List (Option Json) :=
  [objectProp (some job.payload) "dbpasswd", objectProp response "token", objectProp response "dbpasswd",
    objectProp response "password"]

/-- `if (typeof secret === 'string' && secret) output = output.split(secret).join('[redacted]')` -/
def redactSecret (output : Text) : Option Json → Text
  | some (.str secret) => if secret = "" then output else replaceAll secret.toList redacted output
  | _ => output

def redactMaintenanceText (job : MaintenanceJob) (response : Option Json) (value : Text) : Text :=
  replace assignment redacted ((secrets job response).foldl redactSecret value)

/-! ### The output of the utility -/

mutual

/-- Texts and the format of a CMS log, an object with `line`. -/
def textLines : Json → List Text
  | .str s => if Text.trim s.toList = [] then [] else [s.toList]
  | .arr items => textLinesItems items
  | .obj fields => textLinesFields fields
  | _ => []

def textLinesItems : List Json → List Text
  | [] => []
  | value :: items => textLines value ++ textLinesItems items

/-- The lines of the property `line`, of which the last one counts. -/
def textLinesFields : List (String × Json) → List Text
  | [] => []
  | (key, value) :: fields =>
    if key = "line" ∧ "line" ∉ fields.map Prod.fst then textLines value else textLinesFields fields

end

section

variable (toLowerCase : Text → Text) (toText : Json → Text)

def noteLines : Option Json → List Text
  | some (.str note) =>
    if Text.trim note.toList ≠ [] ∧ toLowerCase (Text.trim note.toList) ≠ "none".toList then [note.toList] else []
  | _ => []

def getMaintenanceResult (job : MaintenanceJob) (response : Option Json) (success : Bool) : MaintenanceResult :=
  let lines := ((objectProp response "log").map textLines).getD [] ++
    ((objectProp response "line").map textLines).getD [] ++ noteLines toLowerCase (objectProp response "note")
  let output := redactMaintenanceText job response (List.intercalate ['\n'] lines)
  { success := success, output := if output = [] then none else some output }

/-! ### The end of a job -/

/-- `String(value)` -/
def string : Json → Text
  | .str s => s.toList
  | value => toText value

def isCmsStatusFailure (response : Option Json) : Bool :=
  match objectProp response "status" with
  | none => false
  | some status =>
    let normalized := toLowerCase (Text.trim (string toText status))
    !(normalized = "success".toList || normalized = "ok".toList)

/-- The phrases of an error in a line that was trimmed. -/
def isErrorLine (line : Text) : Bool :=
  startsWithIgnoringCase "error:".toList line ||
    line.tails.any (fun t => startsWithIgnoringCase "error occurred".toList t ||
      startsWithIgnoringCase "can't open file".toList t) ||
    startsWithIgnoringCase "load failed.".toList line || startsWithIgnoringCase "stopped with error.".toList line

/-- The lines of a response that has an array of them. -/
def responseLines (response : Option Json) : List Text :=
  match objectProp response "line" with
  | some (.arr items) => items.map (string toText)
  | _ => []

def getCmsErrorLines (response : Option Json) : List Text :=
  ((responseLines toText response).map Text.trim).filter fun line => line ≠ [] && isErrorLine line

def isCmsLongJobFailure (response : Option Json) : Bool :=
  isCmsStatusFailure toLowerCase toText response || !(getCmsErrorLines toText response).isEmpty

/-- `s.replace(/<end>\s*$/i, '').trim()` -/
def stripCmsArtifacts (s : Text) : Text :=
  let t := s.rdropWhile Text.isSpace
  Text.trim (if startsWithIgnoringCase "<end>".toList (t.drop (t.length - 5)) then t.take (t.length - 5) else s)

/-- A note that says something. -/
def noteMessage : Option Json → Option Text
  | none | some .null => none
  | some note =>
    let value := Text.trim (string toText note)
    if value = [] ∨ toLowerCase value = "none".toList then none
    else some (stripCmsArtifacts (string toText note))

def extractCmsLongJobFailureMessage (response : Option Json) : Text :=
  let errorLines := getCmsErrorLines toText response
  let lineMessage :=
    if errorLines ≠ [] then List.intercalate ['\n'] errorLines
    else Text.trim (List.intercalate ['\n'] ((responseLines toText response).filter fun line => Text.trim line ≠ []))
  match noteMessage toLowerCase toText (objectProp response "note") with
  | some (c :: message) => c :: message
  | _ => if lineMessage ≠ [] then lineMessage else "CMS request failed".toList

/-- How CMS says that the job ended, for an optimize or check job. -/
def applyCmsOutcome (job : MaintenanceJob) (cmsResponse : Option Json) : MaintenanceJob :=
  if isCmsLongJobFailure toLowerCase toText cmsResponse then
    let message := extractCmsLongJobFailureMessage toLowerCase toText cmsResponse
    { job with
      status := .failed
      error := some ⟨redactMaintenanceText job cmsResponse message,
        ((objectProp cmsResponse "status").map (string toText)).getD []⟩
      result := some (getMaintenanceResult toLowerCase job cmsResponse false) }
  else
    { job with status := .succeeded, result := some (getMaintenanceResult toLowerCase job cmsResponse true) }

end

/-! ### Secrets -/

/-- A secret of the job: a text of the request or the response, not empty and without the characters of `[redacted]`. -/
structure IsSecret (job : MaintenanceJob) (response : Option Json) (secret : Text) : Prop where
  mem : ∃ s : String, some (Json.str s) ∈ secrets job response ∧ s.toList = secret
  ne_nil : secret ≠ []
  disjoint : ∀ c ∈ secret, c ∉ redacted

variable {job : MaintenanceJob} {response : Option Json} {secret : Text}

/-- To replace a secret does not bring another one into the text. -/
theorem not_infix_redactSecret (hsecret : secret ≠ []) (hdisjoint : ∀ c ∈ secret, c ∉ redacted) {output : Text}
    (h : ¬secret <:+: output) (s : Option Json) : ¬secret <:+: redactSecret output s := by
  unfold redactSecret
  split
  · split
    · exact h
    · exact not_infix_replace hsecret (by decide) hdisjoint h
  · exact h

/-- Once a secret was replaced it is in no text that comes of it. -/
theorem not_infix_foldl_redactSecret (hsecret : secret ≠ []) (hdisjoint : ∀ c ∈ secret, c ∉ redacted)
    (ss : List (Option Json)) {output : Text}
    (h : ¬secret <:+: output ∨ ∃ s : String, some (Json.str s) ∈ ss ∧ s.toList = secret) :
    ¬secret <:+: ss.foldl redactSecret output := by
  induction ss generalizing output with
  | nil =>
    rcases h with h | ⟨s, hs, -⟩
    · exact h
    · cases hs
  | cons s ss ih =>
    refine ih ?_
    rcases h with h | ⟨s', hs', hsecret'⟩
    · exact .inl (not_infix_redactSecret hsecret hdisjoint h s)
    · rcases List.mem_cons.1 hs' with rfl | hs'
      · refine .inl ?_
        have hne : s' ≠ "" := by
          rintro rfl
          exact hsecret (hsecret'.symm.trans rfl)
        rw [redactSecret, if_neg hne, hsecret']
        exact not_infix_replaceAll hsecret (by decide) hdisjoint
      · exact .inr ⟨s', hs', hsecret'⟩

theorem not_infix_redactMaintenanceText (h : IsSecret job response secret) (value : Text) :
    ¬secret <:+: redactMaintenanceText job response value :=
  not_infix_replace h.ne_nil (by decide) h.disjoint
    (not_infix_foldl_redactSecret h.ne_nil h.disjoint _ (.inr h.mem))

theorem not_infix_getMaintenanceResult (toLowerCase : Text → Text) (h : IsSecret job response secret) (success : Bool) :
    ∀ output ∈ (getMaintenanceResult toLowerCase job response success).output, ¬secret <:+: output := by
  intro output houtput
  simp only [getMaintenanceResult, Option.mem_def, Option.ite_none_left_eq_some, Option.some.injEq] at houtput
  rw [← houtput.2]
  exact not_infix_redactMaintenanceText h _

/-- A word is in none of the texts that are made or stored of an optimize or check job. -/
structure Hides (toLowerCase : Text → Text) (toText : Json → Text) (job : MaintenanceJob) (response : Option Json)
    (word : Text) : Prop where
  text : ∀ value, ¬word <:+: redactMaintenanceText job response value
  result : ∀ success, ∀ output ∈ (getMaintenanceResult toLowerCase job response success).output, ¬word <:+: output
  message : isCmsLongJobFailure toLowerCase toText response = true →
    ∃ error ∈ (applyCmsOutcome toLowerCase toText job response).error, ¬word <:+: error.message
  stored : ∃ result ∈ (applyCmsOutcome toLowerCase toText job response).result,
    ∀ output ∈ result.output, ¬word <:+: output

/-- No secret is in what is stored of an optimize or check job. -/
theorem maintenance_results_contain_no_secret (toLowerCase : Text → Text) (toText : Json → Text)
    (h : IsSecret job response secret) : Hides toLowerCase toText job response secret := by
  refine ⟨not_infix_redactMaintenanceText h, not_infix_getMaintenanceResult toLowerCase h, fun hfailure => ?_, ?_⟩
  · rw [applyCmsOutcome, if_pos hfailure]
    exact ⟨_, rfl, not_infix_redactMaintenanceText h _⟩
  · unfold applyCmsOutcome
    split
    · exact ⟨_, rfl, not_infix_getMaintenanceResult toLowerCase h false⟩
    · exact ⟨_, rfl, not_infix_getMaintenanceResult toLowerCase h true⟩

/-- The password of the request overlaps the token, and both are in the note of the response. -/
theorem maintenance_results_contain_no_secret_overlapping :
    Hides (List.map Char.toLower) (fun _ => []) ⟨.optimize, .obj [("dbpasswd", .str "sun")], .running, none, none⟩
      (some (.obj [("status", .str "failure"), ("token", .str "unsung"), ("note", .str "unsung sunsung")]))
      "unsung".toList := by
  have hall : ("unsung".toList.all fun c => decide (c ∉ redacted)) = true := by decide
  exact maintenance_results_contain_no_secret _ _ ⟨⟨"unsung", .tail _ (.head _), rfl⟩, by decide,
    fun c hc => of_decide_eq_true (List.all_eq_true.1 hall c hc)⟩

example :
    redactMaintenanceText ⟨.check, .obj [("dbpasswd", .str "sun")], .running, none, none⟩
      (some (.obj [("token", .str "unsung")])) "unsung sunsung; \"PassWord\" : 'x y', token=1,2".toList =
      "un[redacted]g [redacted][redacted]g; \"PassWord\" : [redacted], token=[redacted],2".toList := by decide

end CubridWebManager.Redaction
