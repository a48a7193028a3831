import CubridWebManager.Lib.JsNumber
import CubridWebManager.Lib.Trim

/-!
# The text of a volume

`convertExvolInfoToCmsFormat` writes a volume as type, number of pages and path with semicolons between them, and
`parseExvolString` reads such a text.
-/

namespace CubridWebManager.Exvol

inductive DatabaseError where
  | invalidVolumeString (message : String)
  | invalidVolumeFormat (expectedFormat : String)
  | invalidVolumeInfo (message : String)
  | invalidVolumeSize (message : String)
  deriving DecidableEq

structure ParsedExvol where
  type : Text
  size : Text
  path : Text
  deriving DecidableEq

/-- A volume with its size in megabytes and the page size in bytes. -/
structure ExvolInfo where
  type : Text
  size : JsNumber
  pagesize : JsNumber
  volpath : Text

def parseExvolString (volumeString : Text) : Except DatabaseError ParsedExvol :=
  if volumeString = [] then .error (.invalidVolumeString "Volume string must be a non-empty string")
  else
    match volumeString.splitOn ';' with
    | [type, size, path] =>
      let type := Trim.trim Text.isSpace type
      let size := Trim.trim Text.isSpace size
      let path := Trim.trim Text.isSpace path
      if type = [] ∨ size = [] ∨ path = [] then
        .error (.invalidVolumeFormat "all parts (type, size, path) must be non-empty")
      else .ok { type, size, path }
    | _ => .error (.invalidVolumeFormat "\"type;size;path\"")

/-- `1024` -/
def kilo : JsNumber := .ofRat 1024

def sizeInPages (v : ExvolInfo) : JsNumber := ((v.size.mul kilo).mul kilo |>.div v.pagesize).floor

def convertExvolInfoToCmsFormat (v : ExvolInfo) : Except DatabaseError Text :=
  if v.type = [] ∨ v.volpath = [] then .error (.invalidVolumeInfo "Volume info must have type and volpath")
  else if v.size.leZero ∨ v.pagesize.leZero then
    .error (.invalidVolumeSize "Volume size and pagesize must be positive numbers")
  else .ok (v.type ++ ';' :: ((sizeInPages v).text ++ ';' :: v.volpath))

example : convertExvolInfoToCmsFormat ⟨"data".toList, .ofRat 512, .ofRat 16384, "/path/to/dbname".toList⟩ =
    .ok "data;32768;/path/to/dbname".toList := by decide +kernel

/-! ### Reading the text -/

section parse

variable {type size path : Text}

theorem one_lt_length_splitOn {t : Text} (h : ';' ∈ t) : 1 < (t.splitOn ';').length := by
  obtain ⟨w, w', rfl⟩ := List.append_of_mem h
  have hw := List.length_pos_of_ne_nil (List.splitOn_ne_nil ';' w)
  have hw' := List.length_pos_of_ne_nil (List.splitOn_ne_nil ';' w')
  rw [List.splitOn_append_cons_self, List.length_append]
  omega

theorem parseExvolString_of_not_mem (htype : ';' ∉ type) (hsize : ';' ∉ size) (hpath : ';' ∉ path) :
    parseExvolString (type ++ ';' :: (size ++ ';' :: path)) =
      if Trim.trim Text.isSpace type = [] ∨ Trim.trim Text.isSpace size = [] ∨ Trim.trim Text.isSpace path = [] then
        .error (.invalidVolumeFormat "all parts (type, size, path) must be non-empty")
      else .ok ⟨Trim.trim Text.isSpace type, Trim.trim Text.isSpace size, Trim.trim Text.isSpace path⟩ := by
  have hsplit : (type ++ ';' :: (size ++ ';' :: path)).splitOn ';' = [type, size, path] := by
    rw [List.splitOn_append_cons_self_of_not_mem htype, List.splitOn_append_cons_self_of_not_mem hsize,
      List.splitOn_eq_singleton hpath]
  unfold parseExvolString
  rw [if_neg (by simp), hsplit]

theorem parseExvolString_of_mem (h : ';' ∈ type ∨ ';' ∈ path) (p : ParsedExvol) :
    parseExvolString (type ++ ';' :: (size ++ ';' :: path)) ≠ .ok p := by
  have hlength : 3 < ((type ++ ';' :: (size ++ ';' :: path)).splitOn ';').length := by
    have htype := List.length_pos_of_ne_nil (List.splitOn_ne_nil ';' type)
    have hsize := List.length_pos_of_ne_nil (List.splitOn_ne_nil ';' size)
    have hpath := List.length_pos_of_ne_nil (List.splitOn_ne_nil ';' path)
    rw [List.splitOn_append_cons_self, List.splitOn_append_cons_self, List.length_append, List.length_append]
    rcases h with h | h
    · have := one_lt_length_splitOn h
      omega
    · have := one_lt_length_splitOn h
      omega
  unfold parseExvolString
  rw [if_neg (by simp)]
  intro hok
  split at hok
  · rename_i hsplit
    rw [hsplit] at hlength
    exact absurd hlength (lt_irrefl 3)
  · cases hok

/-- The text is read back if and only if the separator is in none of its outer parts and no part is blank. -/
theorem parseExvolString_eq_ok_iff (hsize : ';' ∉ size) {p : ParsedExvol} :
    parseExvolString (type ++ ';' :: (size ++ ';' :: path)) = .ok p ↔
      (';' ∉ type ∧ ';' ∉ path) ∧ (Trim.trim Text.isSpace type ≠ [] ∧ Trim.trim Text.isSpace size ≠ [] ∧
        Trim.trim Text.isSpace path ≠ []) ∧
        p = ⟨Trim.trim Text.isSpace type, Trim.trim Text.isSpace size, Trim.trim Text.isSpace path⟩ := by
  by_cases hmem : ';' ∈ type ∨ ';' ∈ path
  · refine iff_of_false (parseExvolString_of_mem hmem p) fun h => ?_
    exact hmem.elim h.1.1 h.1.2
  · rw [not_or] at hmem
    rw [parseExvolString_of_not_mem hmem.1 hsize hmem.2]
    by_cases hblank : Trim.trim Text.isSpace type = [] ∨ Trim.trim Text.isSpace size = [] ∨
        Trim.trim Text.isSpace path = []
    · rw [if_pos hblank]
      refine iff_of_false (fun h => by cases h) fun h => ?_
      exact hblank.elim h.2.1.1 fun hblank => hblank.elim h.2.1.2.1 h.2.1.2.2
    · rw [if_neg hblank, Except.ok.injEq]
      rw [not_or, not_or] at hblank
      exact ⟨fun h => ⟨hmem, hblank, h.symm⟩, fun h => h.2.2.symm⟩

end parse

end CubridWebManager.Exvol
