import CubridWebManager.CopyVolumes.Mappings
import CubridWebManager.Lib.SepList

/-!
# The checks of the client and of the server

A path goes to CMS with slashes if it is one of Windows, and it keeps its key then unless it is a UNC path: with slashes
a UNC path is an ordinary path from the root, whose key has the case of its letters and another root.  So the checks
agree on the volumes without UNC paths (`copyDbVolumes_of_not_unc`), and a UNC path is what makes them disagree: the
same path with slashes, which the client tells apart from it, is one with it for the server.
-/

namespace CubridWebManager.CopyVolumes

/-! ### Paths with slashes -/

theorem withSlashes_withSlashes (path : Text) : withSlashes (withSlashes path) = withSlashes path := by
  rw [withSlashes, withSlashes, List.map_map]
  refine List.map_congr_left fun c _ => ?_
  by_cases hc : c = '\\' <;> simp [hc]

theorem withSlashes_append (a b : Text) : withSlashes (a ++ b) = withSlashes a ++ withSlashes b := List.map_append

theorem withSlashes_of_not_mem {path : Text} (h : '\\' ∉ path) : withSlashes path = path := by
  have hsame : ∀ c ∈ path, (if c = '\\' then '/' else c) = c := fun c hc => if_neg fun heq : c = '\\' => h (heq ▸ hc)
  rw [withSlashes, List.map_congr_left hsame, List.map_id']

theorem not_mem_withSlashes (path : Text) : '\\' ∉ withSlashes path := by
  intro hmem
  obtain ⟨c, -, hc⟩ := List.mem_map.1 hmem
  by_cases hbackslash : c = '\\' <;> simp [hbackslash] at hc

theorem isUncPath_iff {path : Text} : isUncPath path = true ↔ ∃ rest, path = '\\' :: '\\' :: rest := by
  rw [isUncPath, List.isPrefixOf_iff_prefix]
  constructor
  · rintro ⟨rest, rfl⟩
    exact ⟨rest, rfl⟩
  · rintro ⟨rest, rfl⟩
    exact ⟨rest, rfl⟩

theorem isDrivePath_iff {path : Text} :
    isDrivePath path = true ↔ ∃ c s rest, path = c :: ':' :: s :: rest ∧ c.isAlpha = true ∧ (s = '\\' ∨ s = '/') := by
  constructor
  · intro h
    unfold isDrivePath at h
    split at h
    · rename_i c s rest
      simp only [Bool.and_eq_true, Bool.or_eq_true, decide_eq_true_eq] at h
      exact ⟨c, s, rest, rfl, h⟩
    · cases h
  · rintro ⟨c, s, rest, rfl, halpha, hs⟩
    simp [isDrivePath, halpha, hs]

/-- A path of a drive is not one from the root. -/
theorem isDrivePath_cons_slash (rest : Text) : isDrivePath ('/' :: rest) = false := by
  by_contra h
  obtain ⟨c, s, rest', heq, halpha, -⟩ := isDrivePath_iff.1 (Bool.not_eq_false _ ▸ h)
  obtain rfl := (List.cons.inj heq).1
  revert halpha
  decide

theorem isUncPath_cons_slash (rest : Text) : isUncPath ('/' :: rest) = false := by
  by_contra h
  obtain ⟨rest', heq⟩ := isUncPath_iff.1 (Bool.not_eq_false _ ▸ h)
  cases (List.cons.inj heq).1

theorem isUncPath_of_not_mem {path : Text} (h : '\\' ∉ path) : isUncPath path = false := by
  by_contra hunc
  obtain ⟨rest, rfl⟩ := isUncPath_iff.1 (Bool.not_eq_false _ ▸ hunc)
  exact h List.mem_cons_self

theorem isDrivePath_withSlashes {path : Text} (h : isDrivePath path = true) :
    isDrivePath (withSlashes path) = true := by
  obtain ⟨c, s, rest, rfl, halpha, hs⟩ := isDrivePath_iff.1 h
  have hc : c ≠ '\\' := by
    rintro rfl
    revert halpha
    decide
  refine isDrivePath_iff.2 ⟨c, '/', withSlashes rest, ?_, halpha, .inr rfl⟩
  rcases hs with rfl | rfl <;> simp [withSlashes, hc]

/-- A UNC path with slashes is a path from the root. -/
theorem exists_withSlashes_of_isUncPath {path : Text} (h : isUncPath path = true) :
    ∃ rest, withSlashes path = '/' :: '/' :: rest := by
  obtain ⟨rest, rfl⟩ := isUncPath_iff.1 h
  exact ⟨withSlashes rest, rfl⟩

theorem isWindowsPath_cons_slash (rest : Text) : isWindowsPath ('/' :: rest) = false := by
  rw [isWindowsPath, isDrivePath_cons_slash, isUncPath_cons_slash, Bool.or_false]

theorem toCmsPath_cons_slash (rest : Text) : toCmsPath ('/' :: rest) = '/' :: rest := by
  rw [toCmsPath, isWindowsPath_cons_slash, if_neg Bool.false_ne_true]

theorem toCmsPath_of_isUncPath {path : Text} (h : isUncPath path = true) : toCmsPath path = withSlashes path := by
  rw [toCmsPath, isWindowsPath, h, Bool.or_true, if_pos rfl]

/-! ### The keys -/

variable {toLowerCase : Text → Text}

/-- A path that is no UNC path keeps its key. -/
theorem copyVolumePathKey_toCmsPath {path : Text} (h : isUncPath path = false) :
    copyVolumePathKey toLowerCase (toCmsPath path) = copyVolumePathKey toLowerCase path := by
  cases hdrive : isDrivePath path with
  | false => rw [toCmsPath, isWindowsPath, hdrive, h, Bool.or_false, if_neg Bool.false_ne_true]
  | true =>
    have hwindows : isWindowsPath path = true := by rw [isWindowsPath, hdrive, Bool.true_or]
    have hsent : isWindowsPath (withSlashes path) = true := by
      rw [isWindowsPath, isDrivePath_withSlashes hdrive, Bool.true_or]
    rw [toCmsPath, hwindows, if_pos rfl]
    simp only [copyVolumePathKey, hwindows, hsent, if_true, withSlashes_withSlashes]

theorem pushPart_parts {root part : Text} {parts : List Text} (hparts : ∀ p ∈ parts, p ≠ [] ∧ '/' ∉ p)
    (hpart : '/' ∉ part) : ∀ p ∈ pushPart root parts part, p ≠ [] ∧ '/' ∉ p := by
  have happend : part ≠ [] → ∀ p ∈ parts ++ [part], p ≠ [] ∧ '/' ∉ p := by
    intro hne p hp
    rcases List.mem_append.1 hp with h | h
    · exact hparts p h
    · rw [List.mem_singleton.1 h]
      exact ⟨hne, hpart⟩
  unfold pushPart
  split
  · exact hparts
  · rename_i hkept
    rw [not_or] at hkept
    split
    · split
      · exact fun p hp => hparts p (List.dropLast_subset _ hp)
      · split
        · exact happend hkept.1
        · exact hparts
    · exact happend hkept.1

theorem foldl_pushPart_parts (root : Text) {ps parts : List Text} (hparts : ∀ p ∈ parts, p ≠ [] ∧ '/' ∉ p)
    (hps : ∀ p ∈ ps, '/' ∉ p) : ∀ p ∈ ps.foldl (pushPart root) parts, p ≠ [] ∧ '/' ∉ p := by
  induction ps generalizing parts with
  | nil => exact hparts
  | cons part ps ih =>
    exact ih (pushPart_parts hparts (hps part List.mem_cons_self)) fun p hp => hps p (List.mem_cons_of_mem part hp)

variable (toLowerCase) in
/-- The key of a path from the root: a slash, and what does not begin with one. -/
theorem copyVolumePathKey_cons_slash (path : Text) :
    ∃ rest, copyVolumePathKey toLowerCase ('/' :: path) = '/' :: rest ∧ rest.head? ≠ some '/' := by
  have hkey : copyVolumePathKey toLowerCase ('/' :: path) =
      '/' :: join ((path.splitOn '/').foldl (pushPart ['/']) []) := by
    simp only [copyVolumePathKey, isWindowsPath_cons_slash, rootOf, Bool.false_eq_true, false_and, if_false,
      List.head?_cons, if_true, List.drop_one, List.tail_cons, List.cons_append, List.nil_append]
  refine ⟨_, hkey, ?_⟩
  have hsplit : ∀ p ∈ path.splitOn '/', '/' ∉ p := fun p hp => SepList.not_mem_of_mem_splitOn hp
  have hparts := foldl_pushPart_parts ['/'] (List.forall_mem_nil fun p : Text => p ≠ [] ∧ '/' ∉ p) hsplit
  cases hfold : (path.splitOn '/').foldl (pushPart ['/']) [] with
  | nil => simp [join]
  | cons part parts =>
    obtain ⟨hne, hslash⟩ := hparts part (by simp [hfold])
    obtain ⟨c, part, rfl⟩ := List.exists_cons_of_ne_nil hne
    have hc : c ≠ '/' := fun heq => hslash (heq ▸ List.mem_cons_self)
    cases parts <;> simp [join, List.intercalate, hc]

section

variable (hlower : ∀ t, toLowerCase ('/' :: t) = '/' :: toLowerCase t)
include hlower

/-- The key of a UNC path begins with two slashes. -/
theorem copyVolumePathKey_unc {path : Text} (h : isUncPath path = true) :
    ∃ rest, copyVolumePathKey toLowerCase path = '/' :: '/' :: rest := by
  obtain ⟨rest, hslashes⟩ := exists_withSlashes_of_isUncPath h
  have hwindows : isWindowsPath path = true := by rw [isWindowsPath, h, Bool.or_true]
  simp only [copyVolumePathKey, hwindows, hslashes, if_true, rootOf, isDrivePath_cons_slash, Bool.false_eq_true,
    and_false, if_false, List.isPrefixOf, beq_self_eq_true, Bool.and_self, true_and, List.cons_append, hlower]
  exact ⟨_, rfl⟩

/-- The server has one key for a UNC path and for that path with slashes, and the client has two. -/
theorem copyVolumePathKey_withSlashes_ne {path other : Text} (h : isUncPath path = true)
    (hother : isUncPath other = true) :
    copyVolumePathKey toLowerCase (withSlashes path) ≠ copyVolumePathKey toLowerCase other := by
  obtain ⟨rest, hslashes⟩ := exists_withSlashes_of_isUncPath h
  obtain ⟨keyRest, hkey, hhead⟩ := copyVolumePathKey_cons_slash toLowerCase ('/' :: rest)
  obtain ⟨otherRest, hotherKey⟩ := copyVolumePathKey_unc hlower hother
  rw [hslashes, hkey, hotherKey]
  intro heq
  rw [(List.cons.inj heq).2] at hhead
  exact hhead rfl

end

/-- Two paths are the same for the server if and only if they are for the client. -/
def KeysAgree (toLowerCase : Text → Text) (p q : Text) : Prop :=
  copyVolumePathKey toLowerCase (toCmsPath p) = copyVolumePathKey toLowerCase (toCmsPath q) ↔
    copyVolumePathKey toLowerCase p = copyVolumePathKey toLowerCase q

theorem keysAgree_of_not_unc {p q : Text} (hp : isUncPath p = false) (hq : isUncPath q = false) :
    KeysAgree toLowerCase p q := by
  rw [KeysAgree, copyVolumePathKey_toCmsPath hp, copyVolumePathKey_toCmsPath hq]

theorem not_keysAgree_of_unc (hlower : ∀ t, toLowerCase ('/' :: t) = '/' :: toLowerCase t) {p : Text}
    (hp : isUncPath p = true) : ¬KeysAgree toLowerCase p (withSlashes p) := by
  intro h
  obtain ⟨rest, hslashes⟩ := exists_withSlashes_of_isUncPath hp
  have hsent : toCmsPath (withSlashes p) = toCmsPath p := by
    rw [toCmsPath_of_isUncPath hp, hslashes, toCmsPath_cons_slash]
  exact copyVolumePathKey_withSlashes_ne hlower hp hp (h.1 (by rw [hsent])).symm

/-! ### The checks -/

/-- The sources are distinct and so are the targets, and no target is a source. -/
def Separate (sources targets : List Text) : Prop :=
  sources.Nodup ∧ targets.Nodup ∧ ∀ key ∈ targets, key ∉ sources

theorem length_dedup_eq_iff {l : List Text} : l.dedup.length = l.length ↔ l.Nodup := by
  rw [← List.dedup_eq_self]
  exact ⟨(List.dedup_sublist l).eq_of_length, fun h => congrArg List.length h⟩

section

variable (toLowerCase) (volumes : List Volume)

def sourceKeys : List Text := volumes.map fun v => copyVolumePathKey toLowerCase v.fullPath

def targetKeys : List Text := volumes.map fun v => copyVolumePathKey toLowerCase v.target

/-- The keys of the paths that are sent. -/
def sentSourceKeys : List Text := volumes.map fun v => copyVolumePathKey toLowerCase (toCmsPath v.fullPath)

def sentTargetKeys : List Text := volumes.map fun v => copyVolumePathKey toLowerCase (toCmsPath v.target)

end

/-- Each volume meets the conditions on a volume. -/
def AllOk (volumes : List Volume) : Prop :=
  ∀ (index : Nat) (v : Volume), volumes[index]? = some v → v.ok index = true

theorem canCopyIndividualVolumes_iff {volumes : List Volume} :
    canCopyIndividualVolumes toLowerCase volumes = true ↔
      volumes ≠ [] ∧ AllOk volumes ∧ Separate (sourceKeys toLowerCase volumes) (targetKeys toLowerCase volumes) := by
  have hsource : (volumes.map fun v => copyVolumePathKey toLowerCase v.fullPath).dedup.length = volumes.length ↔
      (sourceKeys toLowerCase volumes).Nodup := by
    rw [← length_dedup_eq_iff, sourceKeys, List.length_map]
  have htarget : (volumes.map fun v => copyVolumePathKey toLowerCase v.target).dedup.length = volumes.length ↔
      (targetKeys toLowerCase volumes).Nodup := by
    rw [← length_dedup_eq_iff, targetKeys, List.length_map]
  have hok : (∀ e ∈ volumes.zipIdx, e.1.ok e.2 = true) ↔ AllOk volumes := by
    simp only [List.mem_zipIdx_iff_getElem?, Prod.forall, AllOk]
    exact forall_comm
  simp only [canCopyIndividualVolumes, Bool.and_eq_true, decide_eq_true_eq, List.all_eq_true, Bool.not_eq_true',
    List.any_eq_false, List.mem_dedup, hsource, htarget, ← hok, Separate, and_assoc]
  rfl

/-- What goes to CMS is not blank. -/
def Nonblank (v : Volume) : Prop := (toCmsPath v.fullPath).trim ≠ [] ∧ (toCmsPath v.target).trim ≠ []

theorem addMapping_eq_ok_iff {c c' : Checked} {source destination : Text} :
    addMapping toLowerCase c source destination = .ok c' ↔
      source.trim ≠ [] ∧ destination.trim ≠ [] ∧ copyVolumePathKey toLowerCase source ∉ c.sources ∧
        copyVolumePathKey toLowerCase destination ∉ c.destinations ∧
          c' = ⟨c.sources ++ [copyVolumePathKey toLowerCase source],
            c.destinations ++ [copyVolumePathKey toLowerCase destination], c.volume ++ [(source, destination)]⟩ := by
  simp only [addMapping]
  split
  · rename_i hrefused
    simp only [reduceCtorEq, false_iff]
    rintro ⟨hsource, hdestination, hnew, hnew', -⟩
    rcases hrefused with h | h | h | h
    · exact hsource h
    · exact hdestination h
    · exact hnew h
    · exact hnew' h
  · rename_i hfine
    simp only [not_or] at hfine
    simp only [Except.ok.injEq, ne_eq, hfine, not_false_eq_true, true_and]
    exact eq_comm

theorem nodup_snoc {key : Text} {keys : List Text} (hkeys : keys.Nodup) (hnew : key ∉ keys) :
    (keys ++ [key]).Nodup := by
  rw [List.nodup_append_comm]
  exact List.nodup_cons.2 ⟨hnew, hkeys⟩

theorem not_mem_of_nodup_append_cons {key : Text} {keys checked : List Text} (h : (checked ++ key :: keys).Nodup) :
    key ∉ checked := fun hmem => List.disjoint_of_nodup_append h hmem List.mem_cons_self

variable (toLowerCase) in
/-- The server accepts mappings after others if their paths are not blank and their keys new and distinct. -/
theorem foldlM_addItem_eq_ok_iff (volumes : List Volume) {c c' : Checked} (hsources : c.sources.Nodup)
    (hdestinations : c.destinations.Nodup) :
    (buildCopyVolumeMappings volumes).foldlM (addItem toLowerCase) c = .ok c' ↔
      (∀ v ∈ volumes, Nonblank v) ∧ (c.sources ++ sentSourceKeys toLowerCase volumes).Nodup ∧
        (c.destinations ++ sentTargetKeys toLowerCase volumes).Nodup ∧
          c' = ⟨c.sources ++ sentSourceKeys toLowerCase volumes, c.destinations ++ sentTargetKeys toLowerCase volumes,
            c.volume ++ volumes.map fun v => (toCmsPath v.fullPath, toCmsPath v.target)⟩ := by
  induction volumes generalizing c with
  | nil =>
    simp only [buildCopyVolumeMappings, sentSourceKeys, sentTargetKeys, List.map_nil, List.foldlM_nil, List.append_nil,
      List.not_mem_nil, false_implies, implies_true, hsources, hdestinations, true_and]
    exact ⟨fun h => (Except.ok.inj h).symm, fun h => congrArg Except.ok h.symm⟩
  | cons v volumes ih =>
    have hitem : addItem toLowerCase c [(toCmsPath v.fullPath, toCmsPath v.target)] =
        addMapping toLowerCase c (toCmsPath v.fullPath) (toCmsPath v.target) := by
      rw [addItem, if_neg (List.cons_ne_nil _ _), List.foldlM_cons]
      simp only [List.foldlM_nil, bind_pure]
    have hcons : (buildCopyVolumeMappings (v :: volumes)).foldlM (addItem toLowerCase) c =
        (addMapping toLowerCase c (toCmsPath v.fullPath) (toCmsPath v.target)).bind fun c₁ =>
          (buildCopyVolumeMappings volumes).foldlM (addItem toLowerCase) c₁ := by
      rw [← hitem]
      rfl
    rw [hcons]
    simp only [sentSourceKeys, sentTargetKeys, List.map_cons, List.forall_mem_cons]
    constructor
    · intro h
      cases hadd : addMapping toLowerCase c (toCmsPath v.fullPath) (toCmsPath v.target) with
      | error e =>
        rw [hadd] at h
        cases h
      | ok c₁ =>
        rw [hadd] at h
        obtain ⟨hsource, htarget, hnew, hnew', rfl⟩ := addMapping_eq_ok_iff.1 hadd
        obtain ⟨hblank, hs, ht, rfl⟩ := (ih (nodup_snoc hsources hnew) (nodup_snoc hdestinations hnew')).1 h
        simp only [sentSourceKeys, sentTargetKeys, List.append_assoc, List.singleton_append] at hs ht ⊢
        exact ⟨⟨⟨hsource, htarget⟩, hblank⟩, hs, ht, trivial⟩
    · rintro ⟨⟨⟨hsource, htarget⟩, hblank⟩, hs, ht, rfl⟩
      have hnew := not_mem_of_nodup_append_cons hs
      have hnew' := not_mem_of_nodup_append_cons ht
      rw [addMapping_eq_ok_iff.2 ⟨hsource, htarget, hnew, hnew', rfl⟩]
      refine (ih (nodup_snoc hsources hnew) (nodup_snoc hdestinations hnew')).2 ?_
      simp only [sentSourceKeys, sentTargetKeys, List.append_assoc, List.singleton_append]
      exact ⟨hblank, hs, ht, trivial⟩

/-- The server's checks pass if the paths are not blank and the keys of the paths as they are sent separate. -/
theorem isOk_copyDbVolumes_iff {volumes : List Volume} :
    (copyDbVolumes toLowerCase (buildCopyVolumeMappings volumes)).isOk = true ↔
      volumes ≠ [] ∧ (∀ v ∈ volumes, Nonblank v) ∧
        Separate (sentSourceKeys toLowerCase volumes) (sentTargetKeys toLowerCase volumes) := by
  have hspec : ∀ c', (buildCopyVolumeMappings volumes).foldlM (addItem toLowerCase) ⟨[], [], []⟩ = .ok c' ↔ _ :=
    fun c' => foldlM_addItem_eq_ok_iff toLowerCase volumes List.nodup_nil List.nodup_nil
  simp only [List.nil_append] at hspec
  have hnil : buildCopyVolumeMappings volumes = [] ↔ volumes = [] := List.map_eq_nil_iff
  rw [copyDbVolumes]
  by_cases hempty : volumes = []
  · rw [if_pos (hnil.2 hempty)]
    simp [Except.isOk, Except.toBool, hempty]
  · rw [if_neg fun h => hempty (hnil.1 h)]
    cases hfold : (buildCopyVolumeMappings volumes).foldlM (addItem toLowerCase) ⟨[], [], []⟩ with
    | error e =>
      simp only [Except.bind, Except.isOk, Except.toBool, Bool.false_eq_true, false_iff]
      rintro ⟨-, hblank, hs, ht, -⟩
      have := (hspec _).2 ⟨hblank, hs, ht, rfl⟩
      rw [hfold] at this
      cases this
    | ok c' =>
      obtain ⟨hblank, hs, ht, rfl⟩ := (hspec c').1 hfold
      simp only [Except.bind, Separate, ne_eq, hempty, not_false_eq_true, hs, ht, true_and]
      cases hfind : (sentTargetKeys toLowerCase volumes).find? (· ∈ sentSourceKeys toLowerCase volumes) with
      | none =>
        have hnone := List.find?_eq_none.1 hfind
        simp only [Except.isOk, Except.toBool, true_iff]
        exact ⟨hblank, fun key hkey hmem => hnone key hkey (decide_eq_true hmem)⟩
      | some key =>
        simp only [Except.isOk, Except.toBool, Bool.false_eq_true, false_iff, not_and]
        intro _ hseparate
        have hsource : key ∈ sentSourceKeys toLowerCase volumes := by simpa using List.find?_some hfind
        exact hseparate key (List.mem_of_find?_eq_some hfind) hsource

/-! ### The volumes that the client accepts -/

theorem trim_ne_nil {t : Text} {c : Char} (hc : c ∈ t) (hspace : Text.isSpace c = false) : t.trim ≠ [] := by
  intro h
  have hall : Trim.All Text.isSpace t := Trim.all_of_trim_eq_nil h
  rw [hall c hc] at hspace
  cases hspace

/-- A path that is sent has the slashes of the path, and all that is neither a slash nor a backslash. -/
theorem exists_mem_toCmsPath {path : Text} {c : Char} (hc : c ∈ path) (hspace : Text.isSpace c = false) :
    ∃ c' ∈ toCmsPath path, Text.isSpace c' = false := by
  rw [toCmsPath]
  split
  · by_cases hbackslash : c = '\\'
    · exact ⟨'/', List.mem_map.2 ⟨c, hc, if_pos hbackslash⟩, by decide⟩
    · exact ⟨c, List.mem_map.2 ⟨c, hc, if_neg hbackslash⟩, hspace⟩
  · exact ⟨c, hc, hspace⟩

theorem exists_mem_of_isAbsolutePath {path : Text} (h : isAbsolutePath path = true) :
    ∃ c ∈ path, Text.isSpace c = false := by
  simp only [isAbsolutePath, Bool.or_eq_true, decide_eq_true_eq] at h
  rcases h with (h | h) | h
  · exact ⟨'/', List.mem_of_mem_head? h, by decide⟩
  · obtain ⟨c, s, rest, rfl, -, -⟩ := isDrivePath_iff.1 h
    exact ⟨':', by simp, by decide⟩
  · obtain ⟨rest, rfl⟩ := isUncPath_iff.1 h
    exact ⟨'\\', List.mem_cons_self, by decide⟩

theorem exists_mem_joinVolumePath (directory name : Text) :
    ∃ c ∈ joinVolumePath directory name, Text.isSpace c = false := by
  refine ⟨if '\\' ∈ directory then '\\' else '/', List.mem_append_right _ List.mem_cons_self, ?_⟩
  split <;> decide

theorem Volume.isAbsolutePath_of_ok {v : Volume} {index : Nat} (h : v.ok index = true) :
    isAbsolutePath v.fullPath = true := by
  simp only [Volume.ok, Bool.and_eq_true] at h
  exact h.1.1.1.2

theorem AllOk.exists_ok {volumes : List Volume} (h : AllOk volumes) {v : Volume} (hv : v ∈ volumes) :
    ∃ index, v.ok index = true := by
  obtain ⟨index, hindex⟩ := List.mem_iff_getElem?.1 hv
  exact ⟨index, h index v hindex⟩

theorem AllOk.nonblank {volumes : List Volume} (h : AllOk volumes) {v : Volume} (hv : v ∈ volumes) : Nonblank v := by
  obtain ⟨index, hok⟩ := h.exists_ok hv
  obtain ⟨c, hc, hspace⟩ := exists_mem_of_isAbsolutePath (Volume.isAbsolutePath_of_ok hok)
  obtain ⟨c', hc', hspace'⟩ := exists_mem_joinVolumePath (v.newLocation.getD []) (v.newVolumeName.getD [])
  obtain ⟨d, hd, hdspace⟩ := exists_mem_toCmsPath hc hspace
  obtain ⟨d', hd', hdspace'⟩ := exists_mem_toCmsPath hc' hspace'
  exact ⟨trim_ne_nil hd hdspace, trim_ne_nil hd' hdspace'⟩

/-- The volume is copied from a UNC path or to one. -/
def Volume.Unc (v : Volume) : Prop := isUncPath v.fullPath = true ∨ isUncPath v.target = true

variable (toLowerCase) in
theorem sentKeys_of_not_unc {volumes : List Volume} (h : ∀ v ∈ volumes, ¬v.Unc) :
    sentSourceKeys toLowerCase volumes = sourceKeys toLowerCase volumes ∧
      sentTargetKeys toLowerCase volumes = targetKeys toLowerCase volumes := by
  constructor
  · refine List.map_congr_left fun v hv => copyVolumePathKey_toCmsPath ?_
    exact Bool.eq_false_iff.2 fun hunc => h v hv (.inl hunc)
  · refine List.map_congr_left fun v hv => copyVolumePathKey_toCmsPath ?_
    exact Bool.eq_false_iff.2 fun hunc => h v hv (.inr hunc)

/-- Without UNC paths the server accepts what the client does. -/
theorem copyDbVolumes_of_not_unc {volumes : List Volume} (hcan : canCopyIndividualVolumes toLowerCase volumes = true)
    (h : ∀ v ∈ volumes, ¬v.Unc) : (copyDbVolumes toLowerCase (buildCopyVolumeMappings volumes)).isOk = true := by
  obtain ⟨hne, hok, hseparate⟩ := canCopyIndividualVolumes_iff.1 hcan
  obtain ⟨hsources, htargets⟩ := sentKeys_of_not_unc toLowerCase h
  refine isOk_copyDbVolumes_iff.2 ⟨hne, fun v hv => hok.nonblank hv, ?_⟩
  rw [hsources, htargets]
  exact hseparate

/-! ### A further volume -/

theorem separate_snoc {sources targets : List Text} {source target : Text} (h : Separate sources targets)
    (hsource : source ∉ sources ∧ source ∉ targets) (htarget : target ∉ sources ∧ target ∉ targets)
    (hne : source ≠ target) : Separate (sources ++ [source]) (targets ++ [target]) := by
  obtain ⟨hsources, htargets, hdisjoint⟩ := h
  refine ⟨nodup_snoc hsources hsource.1, nodup_snoc htargets htarget.2, fun key hkey hmem => ?_⟩
  rcases List.mem_append.1 hkey with hold | hnew
  · rcases List.mem_append.1 hmem with hold' | hnew'
    · exact hdisjoint key hold hold'
    · exact hsource.2 (List.mem_singleton.1 hnew' ▸ hold)
  · rcases List.mem_append.1 hmem with hold' | hnew'
    · exact htarget.1 (List.mem_singleton.1 hnew ▸ hold')
    · exact hne ((List.mem_singleton.1 hnew').symm.trans (List.mem_singleton.1 hnew))

/-- The client accepts a further volume whose keys are new. -/
theorem canCopyIndividualVolumes_snoc {volumes : List Volume}
    (hcan : canCopyIndividualVolumes toLowerCase volumes = true) {w : Volume} (hok : w.ok volumes.length = true)
    {source target : Text}
    (hsourceKey : copyVolumePathKey toLowerCase w.fullPath = source)
    (htargetKey : copyVolumePathKey toLowerCase w.target = target)
    (hsource : source ∉ sourceKeys toLowerCase volumes ∧ source ∉ targetKeys toLowerCase volumes)
    (htarget : target ∉ sourceKeys toLowerCase volumes ∧ target ∉ targetKeys toLowerCase volumes)
    (hne : source ≠ target) : canCopyIndividualVolumes toLowerCase (volumes ++ [w]) = true := by
  obtain ⟨-, hall, hseparate⟩ := canCopyIndividualVolumes_iff.1 hcan
  refine canCopyIndividualVolumes_iff.2 ⟨by simp, ?_, ?_⟩
  · intro index v hv
    rcases Nat.lt_trichotomy index volumes.length with hlt | rfl | hgt
    · rw [List.getElem?_append_left hlt] at hv
      exact hall index v hv
    · rw [List.getElem?_concat_length] at hv
      exact Option.some.inj hv ▸ hok
    · have hlength : (volumes ++ [w]).length ≤ index := by
        rw [List.length_append]
        exact hgt
      rw [List.getElem?_eq_none hlength] at hv
      cases hv
  · have hsources : sourceKeys toLowerCase (volumes ++ [w]) = sourceKeys toLowerCase volumes ++ [source] := by
      simp [sourceKeys, hsourceKey]
    have htargets : targetKeys toLowerCase (volumes ++ [w]) = targetKeys toLowerCase volumes ++ [target] := by
      simp [targetKeys, htargetKey]
    rw [hsources, htargets]
    exact separate_snoc hseparate hsource htarget hne

/-- A path from the root with one part that is longer than the given texts. -/
theorem exists_fresh (keys : List Text) :
    ∃ name : Text, 3 ≤ name.length ∧ (∀ c ∈ name, c = 'a') ∧ '/' :: name ∉ keys := by
  obtain ⟨n, hn⟩ : ∃ n, ∀ key ∈ keys, key.length ≤ n := by
    induction keys with
    | nil => exact ⟨0, by simp⟩
    | cons key keys ih =>
      obtain ⟨n, hn⟩ := ih
      refine ⟨max key.length n, fun k hk => ?_⟩
      rcases List.mem_cons.1 hk with rfl | hk
      · exact Nat.le_max_left _ _
      · exact Nat.le_trans (hn k hk) (Nat.le_max_right _ _)
  refine ⟨List.replicate (n + 3) 'a', by simp, fun c hc => List.eq_of_mem_replicate hc, fun hmem => ?_⟩
  have hle := hn _ hmem
  rw [List.length_cons, List.length_replicate] at hle
  omega

variable (toLowerCase) in
/-- Its key is itself. -/
theorem copyVolumePathKey_name {name : Text} (hlength : 3 ≤ name.length) (hname : ∀ c ∈ name, c = 'a') :
    copyVolumePathKey toLowerCase ('/' :: name) = '/' :: name := by
  have hslash : '/' ∉ name := fun hmem => absurd (hname '/' hmem) (by decide)
  have hpart : pushPart ['/'] [] name = [name] := by
    have hne : name ≠ [] := by
      rintro rfl
      simp at hlength
    have hdot : name ≠ ['.'] := by
      rintro rfl
      simp at hlength
    have hdots : name ≠ ['.', '.'] := by
      rintro rfl
      simp at hlength
    simp [pushPart, hne, hdot, hdots]
  simp only [copyVolumePathKey, isWindowsPath_cons_slash, rootOf, Bool.false_eq_true, false_and, if_false,
    List.head?_cons, if_true, List.drop_one, List.tail_cons, List.splitOn_eq_singleton hslash, List.foldl_cons,
    List.foldl_nil, hpart]
  simp [join]

/-! ### The paths that make the checks disagree -/

/-- A path that a volume is copied from or to. -/
def Volume.Uses (v : Volume) (path : Text) : Prop := path = v.fullPath ∨ path = v.target

/-- Where the server accepts the volumes, no volume has the key of a UNC path of them with slashes. -/
theorem not_mem_keys (hlower : ∀ t, toLowerCase ('/' :: t) = '/' :: toLowerCase t) {volumes : List Volume}
    (hseparate : Separate (sentSourceKeys toLowerCase volumes) (sentTargetKeys toLowerCase volumes)) {v : Volume}
    (hv : v ∈ volumes) {path : Text} (huses : v.Uses path) (hunc : isUncPath path = true) :
    copyVolumePathKey toLowerCase (withSlashes path) ∉ sourceKeys toLowerCase volumes ∧
      copyVolumePathKey toLowerCase (withSlashes path) ∉ targetKeys toLowerCase volumes := by
  obtain ⟨hsources, htargets, hdisjoint⟩ := hseparate
  have hsent : ∀ other, copyVolumePathKey toLowerCase other = copyVolumePathKey toLowerCase (withSlashes path) →
      other ≠ path ∧
        copyVolumePathKey toLowerCase (toCmsPath other) = copyVolumePathKey toLowerCase (toCmsPath path) := by
    intro other heq
    have hother : isUncPath other = false :=
      Bool.eq_false_iff.2 fun hother => copyVolumePathKey_withSlashes_ne hlower hunc hother heq.symm
    rw [copyVolumePathKey_toCmsPath hother, toCmsPath_of_isUncPath hunc]
    refine ⟨?_, heq⟩
    rintro rfl
    rw [hother] at hunc
    cases hunc
  have hmem : ∀ u ∈ volumes, copyVolumePathKey toLowerCase (toCmsPath u.fullPath) ∈ sentSourceKeys toLowerCase volumes ∧
      copyVolumePathKey toLowerCase (toCmsPath u.target) ∈ sentTargetKeys toLowerCase volumes :=
    fun u hu => ⟨List.mem_map.2 ⟨u, hu, rfl⟩, List.mem_map.2 ⟨u, hu, rfl⟩⟩
  constructor
  · intro hkey
    obtain ⟨u, hu, heq⟩ := List.mem_map.1 hkey
    obtain ⟨hne, hsame⟩ := hsent _ heq
    rcases huses with rfl | rfl
    · exact hne (congrArg Volume.fullPath (List.inj_on_of_nodup_map hsources hu hv hsame))
    · exact hdisjoint _ (hmem v hv).2 (hsame ▸ (hmem u hu).1)
  · intro hkey
    obtain ⟨u, hu, heq⟩ := List.mem_map.1 hkey
    obtain ⟨hne, hsame⟩ := hsent _ heq
    rcases huses with rfl | rfl
    · exact hdisjoint _ (hmem u hu).2 (hsame ▸ (hmem v hv).1)
    · exact hne (congrArg Volume.target (List.inj_on_of_nodup_map htargets hu hv hsame))

theorem withSlashes_joinVolumePath {directory name : Text} (hname : '\\' ∉ name) :
    joinVolumePath (withSlashes directory) name = withSlashes (joinVolumePath directory name) := by
  have hcomp : ((fun c => decide (c = '\\') || decide (c = '/')) ∘ fun c : Char => if c = '\\' then '/' else c) =
      fun c : Char => decide (c = '\\') || decide (c = '/') := by
    funext c
    by_cases hc : c = '\\' <;> simp [hc]
  have htrim : (withSlashes directory).rdropWhile (fun c => c = '\\' || c = '/') =
      withSlashes (directory.rdropWhile fun c => c = '\\' || c = '/') := by
    rw [withSlashes, withSlashes, List.rdropWhile, List.rdropWhile, ← List.map_reverse, List.dropWhile_map, hcomp,
      List.map_reverse]
  have htail : withSlashes ((if '\\' ∈ directory then '\\' else '/') :: name) = '/' :: name := by
    rw [withSlashes, List.map_cons]
    refine congrArg₂ List.cons ?_ (withSlashes_of_not_mem hname)
    split <;> simp
  rw [joinVolumePath, joinVolumePath, if_neg (not_mem_withSlashes directory), htrim, withSlashes_append, htail]

/-- A target that is a UNC path is in a directory that begins with a backslash. -/
theorem head_of_isUncPath_join {directory name : Text} (hname : '\\' ∉ name)
    (h : isUncPath (joinVolumePath directory name) = true) : directory.head? = some '\\' := by
  obtain ⟨rest, heq⟩ := isUncPath_iff.1 h
  rw [joinVolumePath] at heq
  have hprefix := List.rdropWhile_prefix (fun c : Char => decide (c = '\\') || decide (c = '/')) directory
  cases hkept : directory.rdropWhile fun c => c = '\\' || c = '/' with
  | nil =>
    rw [hkept, List.nil_append] at heq
    rw [(List.cons.inj heq).2] at hname
    exact absurd List.mem_cons_self hname
  | cons c kept =>
    rw [hkept] at heq hprefix
    obtain ⟨tail, rfl⟩ := hprefix
    rw [(List.cons.inj heq).1]
    rfl

/-- The server refuses a further volume if it has the key of another one as it is sent. -/
theorem copyDbVolumes_snoc {volumes : List Volume} {w : Volume}
    (h : copyVolumePathKey toLowerCase (toCmsPath w.fullPath) ∈ sentSourceKeys toLowerCase volumes ∨
      copyVolumePathKey toLowerCase (toCmsPath w.target) ∈ sentTargetKeys toLowerCase volumes) :
    (copyDbVolumes toLowerCase (buildCopyVolumeMappings (volumes ++ [w]))).isOk = false := by
  refine Bool.eq_false_iff.2 fun hok => ?_
  obtain ⟨-, -, hsources, htargets, -⟩ := isOk_copyDbVolumes_iff.1 hok
  rw [sentSourceKeys, List.map_append] at hsources
  rw [sentTargetKeys, List.map_append] at htargets
  rcases h with h | h
  · exact not_mem_of_nodup_append_cons hsources h
  · exact not_mem_of_nodup_append_cons htargets h

theorem Volume.name_of_ok {v : Volume} {index : Nat} (h : v.ok index = true) :
    ∃ name, v.newVolumeName = some name ∧ '\\' ∉ name ∧ ∀ (i : Nat) (path location : Text), isAbsolutePath path = true →
      isAbsolutePath location = true → Volume.ok ⟨some i, path, ['x'], some name, some location⟩ i = true := by
  simp only [Volume.ok, Bool.and_eq_true] at h
  obtain ⟨⟨⟨⟨-, -⟩, -⟩, hany⟩, -⟩ := h
  cases hname : v.newVolumeName with
  | none =>
    rw [hname] at hany
    cases hany
  | some name =>
    rw [hname, Option.any_some] at hany
    refine ⟨name, rfl, fun hmem => ?_, fun i path location hpath hlocation => ?_⟩
    · simp only [Bool.and_eq_true, Bool.not_eq_true', List.any_eq_false] at hany
      exact hany.1.1.2 '\\' hmem (by simp)
    · simpa [Volume.ok, hpath, hlocation] using hany

theorem isAbsolutePath_withSlashes {path : Text} (h : path.head? = some '\\') :
    isAbsolutePath (withSlashes path) = true := by
  cases path with
  | nil => cases h
  | cons c rest =>
    obtain rfl := Option.some.inj h
    rfl

/-- A name of letters is one that the client accepts. -/
theorem ok_of_letters {name : Text} (hlength : 3 ≤ name.length) (hname : ∀ c ∈ name, c = 'a') (i : Nat)
    {path location : Text} (hpath : isAbsolutePath path = true) (hlocation : isAbsolutePath location = true) :
    Volume.ok ⟨some i, path, ['x'], some name, some location⟩ i = true := by
  obtain ⟨c, rest, rfl⟩ : ∃ c rest, name = c :: rest := List.exists_cons_of_ne_nil (by rintro rfl; simp at hlength)
  obtain rfl := hname c List.mem_cons_self
  have htrim : Text.trim ('a' :: rest) ≠ [] := trim_ne_nil List.mem_cons_self (by decide)
  have hseparators : ∀ c ∈ rest, c ≠ '\\' ∧ c ≠ '/' := by
    intro c hc
    rw [hname c (List.mem_cons_of_mem _ hc)]
    decide
  simpa [Volume.ok, hpath, hlocation, htrim] using hseparators

theorem joinVolumePath_root {name : Text} : joinVolumePath ['/'] name = '/' :: name := by
  simp [joinVolumePath, List.rdropWhile]

/-- A volume with a UNC path can be joined by one without, so that the client accepts them and the server does not. -/
theorem exists_refused (hlower : ∀ t, toLowerCase ('/' :: t) = '/' :: toLowerCase t) {volumes : List Volume}
    (hcan : canCopyIndividualVolumes toLowerCase volumes = true)
    (haccepted : (copyDbVolumes toLowerCase (buildCopyVolumeMappings volumes)).isOk = true) {v : Volume}
    (hv : v ∈ volumes) (hunc : v.Unc) :
    ∃ w : Volume, ¬w.Unc ∧ canCopyIndividualVolumes toLowerCase (volumes ++ [w]) = true ∧
      (copyDbVolumes toLowerCase (buildCopyVolumeMappings (volumes ++ [w]))).isOk = false := by
  obtain ⟨-, hok, -⟩ := canCopyIndividualVolumes_iff.1 hcan
  obtain ⟨-, -, hseparate⟩ := isOk_copyDbVolumes_iff.1 haccepted
  have hsentKey : ∀ {path}, isUncPath path = true → toCmsPath (withSlashes path) = toCmsPath path := by
    intro path hpath
    obtain ⟨rest, hslashes⟩ := exists_withSlashes_of_isUncPath hpath
    rw [toCmsPath_of_isUncPath hpath, hslashes, toCmsPath_cons_slash]
  obtain ⟨path, huses, hpath⟩ : ∃ path, v.Uses path ∧ isUncPath path = true := by
    rcases hunc with h | h
    · exact ⟨_, .inl rfl, h⟩
    · exact ⟨_, .inr rfl, h⟩
  obtain ⟨hsourceKeys, htargetKeys⟩ := not_mem_keys hlower hseparate hv huses hpath
  obtain ⟨fresh, hlength, hfresh, hnew⟩ := exists_fresh (copyVolumePathKey toLowerCase (withSlashes path) ::
    (sourceKeys toLowerCase volumes ++ targetKeys toLowerCase volumes))
  simp only [List.mem_cons, List.mem_append, not_or] at hnew
  obtain ⟨hnewPath, hnewSource, hnewTarget⟩ := hnew
  have hfreshKey := copyVolumePathKey_name toLowerCase hlength hfresh
  have hpathUnc : isUncPath (withSlashes path) = false := isUncPath_of_not_mem (not_mem_withSlashes path)
  rcases huses with rfl | rfl
  · -- a volume whose source is that path with slashes
    have htarget : Volume.target ⟨some volumes.length, withSlashes v.fullPath, ['x'], some fresh, some ['/']⟩ =
        '/' :: fresh := joinVolumePath_root
    refine ⟨⟨some volumes.length, withSlashes v.fullPath, ['x'], some fresh, some ['/']⟩, ?_, ?_,
      copyDbVolumes_snoc (.inl ?_)⟩
    · rw [Volume.Unc, htarget, hpathUnc, isUncPath_cons_slash]
      simp
    · obtain ⟨rest, hrest⟩ := isUncPath_iff.1 hpath
      have habsolute : isAbsolutePath (withSlashes v.fullPath) = true := isAbsolutePath_withSlashes (by rw [hrest]; rfl)
      exact canCopyIndividualVolumes_snoc hcan (ok_of_letters hlength hfresh _ habsolute rfl) rfl
        ((congrArg _ htarget).trans hfreshKey) ⟨hsourceKeys, htargetKeys⟩ ⟨hnewSource, hnewTarget⟩ (Ne.symm hnewPath)
    · rw [hsentKey hpath]
      exact List.mem_map.2 ⟨v, hv, rfl⟩
  · -- a volume whose target is that path with slashes
    obtain ⟨index, hvok⟩ := hok.exists_ok hv
    obtain ⟨name, hname, hbackslash, hnameOk⟩ := Volume.name_of_ok hvok
    have hvtarget : v.target = joinVolumePath (v.newLocation.getD []) name := by
      rw [Volume.target, hname, Option.getD_some]
    have htarget : Volume.target ⟨some volumes.length, '/' :: fresh, ['x'], some name,
        some (withSlashes (v.newLocation.getD []))⟩ = withSlashes v.target := by
      rw [hvtarget, ← withSlashes_joinVolumePath hbackslash]
      rfl
    have habsolute : isAbsolutePath (withSlashes (v.newLocation.getD [])) = true :=
      isAbsolutePath_withSlashes (head_of_isUncPath_join hbackslash (hvtarget ▸ hpath))
    refine ⟨⟨some volumes.length, '/' :: fresh, ['x'], some name, some (withSlashes (v.newLocation.getD []))⟩, ?_, ?_,
      copyDbVolumes_snoc (.inr ?_)⟩
    · rw [Volume.Unc, htarget, hpathUnc, isUncPath_cons_slash]
      simp
    · exact canCopyIndividualVolumes_snoc hcan (hnameOk _ _ _ rfl habsolute) hfreshKey (congrArg _ htarget)
        ⟨hnewSource, hnewTarget⟩ ⟨hsourceKeys, htargetKeys⟩ hnewPath
    · rw [htarget, hsentKey hpath]
      exact List.mem_map.2 ⟨v, hv, rfl⟩

/-- The checks agree where no UNC path is used, and a UNC path is what they do not agree on.  The server accepts volumes
that the client accepts, alone and with any further ones without UNC paths, if and only if they have no UNC path, and
the keys of a path agree with those of the paths that are no UNC paths if and only if it is none. -/
theorem copy_checks_agree_iff (toLowerCase : Text → Text) (hlower : ∀ t, toLowerCase ('/' :: t) = '/' :: toLowerCase t)
    (volumes : List Volume) (hcan : canCopyIndividualVolumes toLowerCase volumes = true) (p : Text) :
    ((∀ more : List Volume, (∀ w ∈ more, ¬w.Unc) → canCopyIndividualVolumes toLowerCase (volumes ++ more) = true →
        (copyDbVolumes toLowerCase (buildCopyVolumeMappings (volumes ++ more))).isOk = true) ↔
      ∀ v ∈ volumes, ¬v.Unc) ∧
    ((∀ q, isAbsolutePath q = true → isUncPath q = false → KeysAgree toLowerCase p q) ↔ isUncPath p = false) := by
  refine ⟨⟨fun h v hv hunc => ?_, fun h more hmore hcan' => ?_⟩, fun h => ?_,
    fun hp q _ hq => keysAgree_of_not_unc hp hq⟩
  · have haccepted := h [] (by simp) (by rwa [List.append_nil])
    rw [List.append_nil] at haccepted
    obtain ⟨w, hw, hcan', hrefused⟩ := exists_refused hlower hcan haccepted hv hunc
    rw [h [w] (by simpa using hw) hcan'] at hrefused
    cases hrefused
  · refine copyDbVolumes_of_not_unc hcan' fun v hv => ?_
    rcases List.mem_append.1 hv with hv | hv
    · exact h v hv
    · exact hmore v hv
  · refine Bool.eq_false_iff.2 fun hp => not_keysAgree_of_unc hlower hp 
      (h (withSlashes p) ?_ (isUncPath_of_not_mem (not_mem_withSlashes p)))
    obtain ⟨rest, rfl⟩ := isUncPath_iff.1 hp
    rfl

/-- A volume of a drive, in another spelling of its directory. -/
theorem copy_checks_agree_iff_drive :
    let lower := List.map Char.toLower
    let v : Volume := ⟨some 0, "C:\\db\\.\\demodb".toList, "demodb".toList, some "copydb".toList, some "c:/DB/".toList⟩
    (copyDbVolumes lower (buildCopyVolumeMappings [v])).isOk = true ∧
      KeysAgree lower v.fullPath "/db/demodb".toList := by
  intro lower v
  obtain ⟨hvolumes, hpaths⟩ := copy_checks_agree_iff lower (fun _ => rfl) [v] (by decide) v.fullPath
  have hunc : ¬v.Unc := by
    have hsource : isUncPath v.fullPath = false := by decide
    have htarget : isUncPath v.target = false := by decide
    rw [Volume.Unc, hsource, htarget]
    simp
  exact ⟨hvolumes.2 (by simpa using hunc) [] (by simp) (by decide), hpaths.2 (by decide) _ (by decide) (by decide)⟩

/-- A volume on a share goes to the directory where it is, spelled with slashes: the client takes this for another file,
and the server refuses it.  And of two spellings of a path on a share that are the same for the client, the server makes
two files. -/
theorem copy_checks_agree_fails :
    let lower := List.map Char.toLower
    let v : Volume :=
      ⟨some 0, "\\\\srv\\share\\db\\demodb".toList, "demodb".toList, some "demodb".toList, some "//srv/share/db".toList⟩
    let p := "\\\\srv\\share\\demodb".toList
    let q := "\\\\SRV\\share\\demodb".toList
    canCopyIndividualVolumes lower [v] = true ∧ (copyDbVolumes lower (buildCopyVolumeMappings [v])).isOk = false ∧
      isAbsolutePath p = true ∧ isAbsolutePath q = true ∧
        copyVolumePathKey lower p = copyVolumePathKey lower q ∧
          copyVolumePathKey lower (toCmsPath p) ≠ copyVolumePathKey lower (toCmsPath q) := by
  decide

end CubridWebManager.CopyVolumes
