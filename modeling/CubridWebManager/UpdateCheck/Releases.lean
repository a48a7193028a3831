import CubridWebManager.UpdateCheck.Version

/-!
# The release to update to

`pickLatestRelease` of `libs/update-check/src/check-for-update.ts`: one pass over the releases of the repository keeps
the one with the highest version.  It is a greatest one of those that are eligible, in whatever order they are listed
(`release_selection_ordered`).
-/

namespace CubridWebManager.UpdateCheck

open JsNumber Comparator

structure GithubRelease where
  /-- `none` where `tag_name` is not a string. -/
  tagName : Option Text
  draft : Bool
  prerelease : Bool
deriving DecidableEq

/-- `compareVersions(a, b) > 0` -/
def Exceeds (a b : ParsedVersion) : Prop := (compareVersions a b).sign = some .gt

instance : DecidableRel Exceeds := fun a b => inferInstanceAs (Decidable ((compareVersions a b).sign = some .gt))

/-- One round of the loop. -/
def consider (allowPrerelease : Bool) (best : Option (GithubRelease × ParsedVersion)) (release : GithubRelease) :
    Option (GithubRelease × ParsedVersion) :=
  match release.draft, release.tagName with
  | false, some tagName =>
    match parseVersion tagName with
    | some version =>
      let isPrerelease := release.prerelease || decide (version.prerelease.length > 0)
      if isPrerelease && !allowPrerelease then best
      else
        match best with
        | none => some (release, version)
        | some (_, bestVersion) => if Exceeds version bestVersion then some (release, version) else best
    | none => best
  | _, _ => best

def pickLatestRelease (releases : List GithubRelease) (currentVersion : Text) : Option GithubRelease :=
  (releases.foldl (consider (isPrereleaseVersion currentVersion)) none).map Prod.fst

/-- Not a draft, with a tag that is a version, and a prerelease only for an installation that is one. -/
def Eligible (currentVersion : Text) (release : GithubRelease) (version : ParsedVersion) : Prop :=
  release.draft = false ∧ (∃ tagName, release.tagName = some tagName ∧ parseVersion tagName = some version) ∧
    (release.prerelease = true ∨ version.prerelease ≠ [] → isPrereleaseVersion currentVersion = true)

/-- What a release brings into the comparison. -/
def candidate (currentVersion : Text) (release : GithubRelease) : Option (GithubRelease × ParsedVersion) :=
  if release.draft then none
  else
    (release.tagName.bind parseVersion).bind fun version =>
      if (release.prerelease || decide (version.prerelease.length > 0)) && !isPrereleaseVersion currentVersion then none
      else some (release, version)

section pick

variable {currentVersion : Text} {release : GithubRelease} {c : GithubRelease × ParsedVersion}

theorem barred_iff (version : ParsedVersion) :
    ((release.prerelease || decide (version.prerelease.length > 0)) && !isPrereleaseVersion currentVersion) = true ↔
      ¬(release.prerelease = true ∨ version.prerelease ≠ [] → isPrereleaseVersion currentVersion = true) := by
  rw [Bool.and_eq_true, Bool.or_eq_true, decide_eq_true_iff, gt_iff_lt, List.length_pos_iff, Bool.not_eq_true',
    Classical.not_imp, Bool.not_eq_true]

theorem candidate_eq_some_iff :
    candidate currentVersion release = some c ↔ c.1 = release ∧ Eligible currentVersion release c.2 := by
  unfold candidate Eligible
  cases release.draft with
  | true => simp
  | false =>
    rw [if_neg Bool.false_ne_true]
    constructor
    · intro h
      obtain ⟨version, hversion, hc⟩ := Option.bind_eq_some_iff.1 h
      obtain ⟨tagName, htag, hparse⟩ := Option.bind_eq_some_iff.1 hversion
      split at hc
      · cases hc
      · rename_i hbar
        rw [barred_iff, not_not] at hbar
        obtain rfl := Option.some.inj hc
        exact ⟨rfl, rfl, ⟨tagName, htag, hparse⟩, hbar⟩
    · rintro ⟨rfl, -, ⟨tagName, htag, hparse⟩, hbar⟩
      have hbar' : ¬((c.1.prerelease || decide (c.2.prerelease.length > 0)) &&
          !isPrereleaseVersion currentVersion) = true := by
        rw [barred_iff, not_not]
        exact hbar
      rw [htag, Option.bind_some, hparse, Option.bind_some, if_neg hbar']

/-- A round passes over a release that is not eligible, and else keeps the better one. -/
theorem consider_eq (best : Option (GithubRelease × ParsedVersion)) (release : GithubRelease) :
    consider (isPrereleaseVersion currentVersion) best release =
      match candidate currentVersion release with
      | none => best
      | some c => better (fun c c' => Exceeds c.2 c'.2) best c := by
  unfold consider candidate
  cases release.draft with
  | true => rfl
  | false =>
    cases release.tagName with
    | none => rfl
    | some tagName =>
      cases hversion : parseVersion tagName with
      | none => simp [hversion]
      | some version =>
        simp only [hversion, Option.bind_some, Bool.false_eq_true, if_false]
        split
        · rfl
        · cases best with
          | none => rfl
          | some b => rfl

theorem foldl_consider (best : Option (GithubRelease × ParsedVersion)) (releases : List GithubRelease) :
    releases.foldl (consider (isPrereleaseVersion currentVersion)) best =
      (releases.filterMap (candidate currentVersion)).foldl (better fun c c' => Exceeds c.2 c'.2) best := by
  induction releases generalizing best with
  | nil => rfl
  | cons release releases ih =>
    rw [List.foldl_cons, consider_eq, ih, List.filterMap_cons]
    cases candidate currentVersion release with
    | none => rfl
    | some c => rfl

theorem exists_parsed {raw : Text} {version : ParsedVersion} (h : parseVersion raw = some version) :
    ∃ g, versionGroups raw = some g ∧ g.parsed = version := Option.map_eq_some_iff.1 h

theorem not_exceeds_self {raw : Text} {v : ParsedVersion} (h : parseVersion raw = some v) : ¬Exceeds v v := by
  obtain ⟨g, -, rfl⟩ := exists_parsed h
  rw [Exceeds, VersionGroups.exceeds_iff]
  exact lt_irrefl _

theorem exceeds_trans {raw raw' raw'' : Text} {v v' v'' : ParsedVersion} (h : parseVersion raw = some v)
    (h' : parseVersion raw' = some v') (h'' : parseVersion raw'' = some v'') (hv : Exceeds v v')
    (hv' : Exceeds v' v'') : Exceeds v v'' := by
  obtain ⟨g, -, rfl⟩ := exists_parsed h
  obtain ⟨g', -, rfl⟩ := exists_parsed h'
  obtain ⟨g'', -, rfl⟩ := exists_parsed h''
  rw [Exceeds, VersionGroups.exceeds_iff] at hv hv' ⊢
  exact hv'.trans hv

/-- The release that is picked is eligible and no other eligible one exceeds it; none is picked only where none is. -/
theorem pickLatestRelease_spec (releases : List GithubRelease) (currentVersion : Text) :
    match pickLatestRelease releases currentVersion with
    | none => ∀ release ∈ releases, ∀ version, ¬Eligible currentVersion release version
    | some best => best ∈ releases ∧ ∃ bestVersion, Eligible currentVersion best bestVersion ∧
        ∀ release ∈ releases, ∀ version, Eligible currentVersion release version → ¬Exceeds version bestVersion := by
  have hcandidate : ∀ c ∈ releases.filterMap (candidate currentVersion),
      c.1 ∈ releases ∧ Eligible currentVersion c.1 c.2 := fun c hc => by
    obtain ⟨release, hrelease, hc⟩ := List.mem_filterMap.1 hc
    obtain ⟨rfl, hc⟩ := candidate_eq_some_iff.1 hc
    exact ⟨hrelease, hc⟩
  have hmem : ∀ release ∈ releases, ∀ version, Eligible currentVersion release version →
      (release, version) ∈ releases.filterMap (candidate currentVersion) := fun release hrelease version h =>
    List.mem_filterMap.2 ⟨release, hrelease, candidate_eq_some_iff.2 ⟨rfl, h⟩⟩
  have hparse : ∀ c ∈ releases.filterMap (candidate currentVersion),
      ∃ raw, parseVersion raw = some c.2 := fun c hc => by
    obtain ⟨-, -, ⟨tagName, -, h⟩, -⟩ := hcandidate c hc
    exact ⟨tagName, h⟩
  have hbest := foldl_better_none (R := fun c c' : GithubRelease × ParsedVersion => Exceeds c.2 c'.2)
    (l := releases.filterMap (candidate currentVersion))
    (fun c hc => not_exceeds_self (hparse c hc).choose_spec)
    fun c hc c' hc' c'' hc'' =>
      exceeds_trans (hparse c hc).choose_spec (hparse c' hc').choose_spec (hparse c'' hc'').choose_spec
  rw [pickLatestRelease, foldl_consider]
  cases hpick : (releases.filterMap (candidate currentVersion)).foldl (better fun c c' => Exceeds c.2 c'.2) none with
  | none =>
    rw [hpick] at hbest
    intro release hrelease version h
    exact absurd (hmem release hrelease version h) (hbest ▸ List.not_mem_nil)
  | some best =>
    rw [hpick] at hbest
    refine ⟨(hcandidate best hbest.1).1, best.2, (hcandidate best hbest.1).2, fun release hrelease version h => ?_⟩
    exact hbest.2 (release, version) (hmem release hrelease version h)

end pick

open VersionGroups

/-- Release selection follows the order of semantic versioning. -/
theorem release_selection_ordered :
    (∀ raw raw' g g', versionGroups raw = some g → versionGroups raw' = some g' → g.Exact → g'.Exact →
      Tells (compareVersions g.parsed g'.parsed) g.precedence g'.precedence False) ∧
    (∀ raw build : Text, (∀ c ∈ raw.getLast?, Text.isSpace c = false) →
      parseVersion (raw ++ '+' :: build) = parseVersion raw) ∧
    (∀ g g' : VersionGroups, g.Exact → g'.Exact → AtMost g.parsed g'.parsed ∨ AtMost g'.parsed g.parsed) ∧
    (∀ g g' g'' : VersionGroups, g.Exact → g'.Exact → g''.Exact →
      AtMost g.parsed g'.parsed → AtMost g'.parsed g''.parsed → AtMost g.parsed g''.parsed) ∧
    ∀ releases currentVersion, match pickLatestRelease releases currentVersion with
      | none => ∀ release ∈ releases, ∀ version, ¬Eligible currentVersion release version
      | some best => best ∈ releases ∧ ∃ bestVersion, Eligible currentVersion best bestVersion ∧
          ∀ release ∈ releases, ∀ version, Eligible currentVersion release version → ¬Exceeds version bestVersion := by
  refine ⟨fun _ _ g g' _ _ => tells_precedence, fun raw build h => ?_, fun g g' hg hg' => ?_,
    fun g g' g'' hg hg' hg'' h h' => ?_, pickLatestRelease_spec⟩
  · rw [parseVersion, parseVersion, versionGroups_build h]
  · rw [atMost_iff hg hg', atMost_iff hg' hg]
    exact le_total _ _
  · rw [atMost_iff hg hg'] at h
    rw [atMost_iff hg' hg''] at h'
    rw [atMost_iff hg hg'']
    exact h.trans h'

/-- The prerelease with the higher number, and the release above both. -/
example :
    let release (tag : String) : GithubRelease := ⟨some tag.toList, false, false⟩
    pickLatestRelease [release "v1.2.0-alpha.10", release "v1.2.0-alpha.9", release "v1.1.9"] "1.2.0-alpha.1".toList =
      some (release "v1.2.0-alpha.10") := by decide +kernel

end CubridWebManager.UpdateCheck
