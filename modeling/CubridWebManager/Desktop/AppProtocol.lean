import CubridWebManager.Lib.PercentDecoding
import CubridWebManager.Lib.PosixPath

/-!
# The handler of the `app` protocol

A request for `/api` goes to the API server, any other one to a file of the renderer.  Both go by the decoded path:

* the API server is sent the path as it came if and only if it has no escapes (`proxied_as_sent_iff`);
* a file is one of the renderer's unless its path leads beside the renderer's directory (`files_confined_iff`).
-/

namespace CubridWebManager.Desktop

open PercentDecoding PosixPath

/-- A character that stands for itself in a URL. -/
def isVisibleAscii (c : Char) : Bool := 0x21 ≤ c.toNat && c.toNat ≤ 0x7e

/-- What `new URL` finds in the URL of a request: everything but visible ASCII is percent-encoded, and the path begins
with a slash. -/
structure AppUrl where
  pathname : Text
  search : Text
  visible : ∀ c ∈ pathname ++ search, isVisibleAscii c = true
  absolute : ['/'] <+: pathname

inductive Reply
  /-- `decodeURIComponent` throws. -/
  | malformed
  /-- 503, as there is no API server. -/
  | notRunning
  /-- The request is made to the API server. -/
  | upstream (requestPath : Text)
  /-- 502, as `https.request` does not take the path. -/
  | proxyFailed
  /-- 403 -/
  | forbidden
  /-- `net.fetch` of the file. -/
  | file (path : PosixPath)
  deriving DecidableEq

def apiPrefix : Text := "/api".toList

def toApiUpstreamPath (pathname : Text) : Option Text :=
  if pathname = apiPrefix ∨ pathname = apiPrefix ++ ['/'] then some ['/']
  else if apiPrefix ++ ['/'] <+: pathname then some (pathname.drop apiPrefix.length)
  else none

/-- The paths that `https.request` takes. -/
def isRequestPath (t : Text) : Bool := t.all fun c => 0x21 ≤ c.toNat && c.toNat ≤ 0xff

def proxyApiRequest (url : AppUrl) (upstreamPath : Text) : Reply :=
  let requestPath := upstreamPath ++ url.search
  if isRequestPath requestPath then .upstream requestPath else .proxyFailed

def relativePath (pathname : Text) : Text :=
  if pathname = ['/'] then "index.html".toList
  else match pathname with
    | '/' :: t => t
    | t => t

def indexHtml (root : PosixPath) : PosixPath := root.resolve "index.html".toList

/-- The part of the handler for files; `isThere` is `fs.existsSync`. -/
def serveFile (root : PosixPath) (isThere : PosixPath → Bool) (pathname : Text) : Reply :=
  let filePath := root.resolve (relativePath pathname)
  if root.text <+: filePath.text then
    if !isThere filePath && !hasExtension (relativePath pathname) then .file (indexHtml root) else .file filePath
  else .forbidden

def handleRequest (root : PosixPath) (isThere : PosixPath → Bool) (apiRunning : Bool) (url : AppUrl) : Reply :=
  match decodeURIComponent url.pathname with
  | none => .malformed
  | some pathname =>
    match toApiUpstreamPath pathname with
    | some upstreamPath => if apiRunning then proxyApiRequest url upstreamPath else .notRunning
    | none => serveFile root isThere pathname

/-! ### Requests to the API server -/

theorem toApiUpstreamPath_of_prefix {pathname : Text} (h : "/api/".toList <+: pathname) :
    toApiUpstreamPath pathname = some (pathname.drop apiPrefix.length) := by
  obtain ⟨rest, rfl⟩ := h
  unfold toApiUpstreamPath
  split
  · rename_i heq
    have hrest : rest = [] := by
      rcases heq with heq | heq
      · exact absurd (congrArg List.length heq) (by simp [apiPrefix])
      · simpa [apiPrefix] using heq
    rw [hrest]
    rfl
  · rw [if_pos]
    exact ⟨rest, rfl⟩

theorem length_toApiUpstreamPath {pathname upstreamPath : Text} (h : toApiUpstreamPath pathname = some upstreamPath) :
    upstreamPath.length ≤ 1 ∨ upstreamPath.length + 4 = pathname.length := by
  unfold toApiUpstreamPath at h
  split at h
  · cases h
    exact .inl (Nat.le_refl 1)
  · split at h
    · rename_i hbegins
      have hle := hbegins.length_le
      simp only [apiPrefix, List.length_append, List.length_singleton, String.length_toList] at hle
      cases h
      simp only [apiPrefix, List.length_drop, String.length_toList]
      right
      have hfour : "/api".length = 4 := rfl
      omega
    · cases h

theorem isRequestPath_of_visible {t : Text} (h : ∀ c ∈ t, isVisibleAscii c = true) : isRequestPath t = true := by
  refine List.all_eq_true.2 fun c hc => ?_
  have hvisible := h c hc
  simp only [isVisibleAscii, Bool.and_eq_true, decide_eq_true_eq] at hvisible ⊢
  omega

theorem serveFile_ne_upstream {root : PosixPath} {isThere : PosixPath → Bool} {pathname requestPath : Text} :
    serveFile root isThere pathname ≠ .upstream requestPath := by
  intro h
  unfold serveFile at h
  dsimp only at h
  split at h
  · split at h <;> cases h
  · cases h

/-- A path that begins with `/api/` goes to the API server as it came, without `/api`, if and only if it has no
escapes. -/
theorem proxied_as_sent_iff (root : PosixPath) (isThere : PosixPath → Bool) (url : AppUrl)
    (hapi : "/api/".toList <+: url.pathname) :
    handleRequest root isThere true url = .upstream (url.pathname.drop apiPrefix.length ++ url.search) ↔
      '%' ∉ url.pathname := by
  constructor
  · intro hsent hmem
    unfold handleRequest at hsent
    split at hsent
    · cases hsent
    · rename_i pathname hdecode
      have hshorter := length_decode_lt hdecode hmem
      split at hsent
      · rename_i upstreamPath hupstream
        rw [if_pos rfl, proxyApiRequest] at hsent
        split at hsent
        · have hpath := List.append_cancel_right (Reply.upstream.inj hsent)
          -- the decoded path is shorter than the path that came
          have hlength := congrArg List.length hpath
          have hfour : apiPrefix.length = 4 := rfl
          have hfive : "/api/".toList.length = 5 := rfl
          have hle := hapi.length_le
          rw [List.length_drop, hfour] at hlength
          rcases length_toApiUpstreamPath hupstream with hone | hsame
          · have heq := hapi.eq_of_length (by omega)
            rw [← heq] at hmem
            exact absurd hmem (by decide)
          · omega
        · cases hsent
      · exact serveFile_ne_upstream hsent
  · intro hplain
    have hvisible : ∀ c ∈ url.pathname.drop apiPrefix.length ++ url.search, isVisibleAscii c = true := by
      intro c hc
      refine url.visible c ?_
      rcases List.mem_append.1 hc with hc | hc
      · exact List.mem_append_left _ (List.drop_subset _ _ hc)
      · exact List.mem_append_right _ hc
    simp only [handleRequest, decode_of_not_mem hplain, toApiUpstreamPath_of_prefix hapi, if_true, proxyApiRequest,
      isRequestPath_of_visible hvisible]

def listDatabases : AppUrl := ⟨"/api/hosts/h1/databases".toList, "?name=a%2Fb".toList, List.all_eq_true.1 (by decide +kernel),
  by decide +kernel⟩

theorem proxied_as_sent_databases :
    handleRequest ⟨[], nofun⟩ (fun _ => true) true listDatabases = .upstream "/hosts/h1/databases?name=a%2Fb".toList :=
  (proxied_as_sent_iff ⟨[], nofun⟩ (fun _ => true) listDatabases (by decide +kernel)).2 (by decide +kernel)

/-- A name with an escaped slash becomes two segments. -/
def escapedSlash : AppUrl := ⟨"/api/databases/a%2Fb".toList, [], List.all_eq_true.1 (by decide +kernel),
  by decide +kernel⟩

theorem proxied_as_sent_fails : ¬ ∀ url : AppUrl, "/api/".toList <+: url.pathname →
    handleRequest ⟨[], nofun⟩ (fun _ => true) true url =
      .upstream (url.pathname.drop apiPrefix.length ++ url.search) := by
  intro hall
  have hsent : handleRequest ⟨[], nofun⟩ (fun _ => true) true escapedSlash = .upstream "/databases/a/b".toList := by
    decide +kernel
  exact absurd (hsent.symm.trans (hall escapedSlash (by decide +kernel))) (by decide +kernel)

/-! ### Requests for files -/

/-- Every file that is served is the root or lies below it. -/
def Confined (root : PosixPath) (isThere : PosixPath → Bool) (apiRunning : Bool) (url : AppUrl) : Prop :=
  ∀ p, handleRequest root isThere apiRunning url = .file p → Within root p

/-- A request that is not for the API is for a path; if that is below the root and exists, it is served. -/
def ServesItself (root : PosixPath) (isThere : PosixPath → Bool) (apiRunning : Bool) (url : AppUrl) : Prop :=
  ∀ pathname, decodeURIComponent url.pathname = some pathname → toApiUpstreamPath pathname = none →
    Within root (root.resolve (relativePath pathname)) → isThere (root.resolve (relativePath pathname)) = true →
    handleRequest root isThere apiRunning url = .file (root.resolve (relativePath pathname))

/-- The decoded path leads to a sibling of the root whose name begins with the root's, or below it, and to something that
exists or has an extension. -/
def LeadsBeside (root : PosixPath) (isThere : PosixPath → Bool) (url : AppUrl) : Prop :=
  ∃ pathname, decodeURIComponent url.pathname = some pathname ∧ toApiUpstreamPath pathname = none ∧
    Beside root (root.resolve (relativePath pathname)) ∧
    (isThere (root.resolve (relativePath pathname)) = true ∨ hasExtension (relativePath pathname) = true)

theorem within_indexHtml (root : PosixPath) : Within root (indexHtml root) :=
  ⟨["index.html".toList], by rfl⟩

theorem proxyApiRequest_ne_file {url : AppUrl} {upstreamPath : Text} {p : PosixPath} :
    proxyApiRequest url upstreamPath ≠ .file p := by
  intro h
  unfold proxyApiRequest at h
  dsimp only at h
  split at h <;> cases h

variable {root : PosixPath} {isThere : PosixPath → Bool} {apiRunning : Bool} {url : AppUrl}

/-- Only the part for files serves one. -/
theorem handleRequest_eq_file {p : PosixPath} (h : handleRequest root isThere apiRunning url = .file p) :
    ∃ pathname, decodeURIComponent url.pathname = some pathname ∧ toApiUpstreamPath pathname = none ∧
      serveFile root isThere pathname = .file p := by
  unfold handleRequest at h
  split at h
  · cases h
  · rename_i pathname hdecode
    split at h
    · split at h
      · exact absurd h proxyApiRequest_ne_file
      · cases h
    · rename_i hfile
      exact ⟨pathname, hdecode, hfile, h⟩

theorem handleRequest_of_file {pathname : Text} (hdecode : decodeURIComponent url.pathname = some pathname)
    (hfile : toApiUpstreamPath pathname = none) :
    handleRequest root isThere apiRunning url = serveFile root isThere pathname := by
  simp only [handleRequest, hdecode, hfile]

/-- The files that are served are below the root, and those that exist there are served as themselves, unless the request
leads beside the root. -/
theorem files_confined_iff (root : PosixPath) (isThere : PosixPath → Bool) (apiRunning : Bool) (url : AppUrl) :
    (Confined root isThere apiRunning url ∧ ServesItself root isThere apiRunning url) ↔ ¬ LeadsBeside root isThere url := by
  constructor
  · rintro ⟨hconfined, -⟩ ⟨pathname, hdecode, hfile, hbeside, hserved⟩
    refine not_within_of_beside hbeside (hconfined _ ?_)
    rw [handleRequest_of_file hdecode hfile]
    unfold serveFile
    dsimp only
    rw [if_pos (text_prefix_iff.2 (.inr hbeside)), if_neg]
    rcases hserved with h | h
    · simp [h]
    · simp [h]
  · intro hnot
    refine ⟨fun p hp => ?_, fun pathname hdecode hfile hwithin hthere => ?_⟩
    · obtain ⟨pathname, hdecode, hfile, hserve⟩ := handleRequest_eq_file hp
      unfold serveFile at hserve
      dsimp only at hserve
      split at hserve
      · rename_i hbegins
        split at hserve
        · rw [← Reply.file.inj hserve]
          exact within_indexHtml root
        · rename_i hserved
          rw [← Reply.file.inj hserve]
          refine (text_prefix_iff.1 hbegins).resolve_right fun hbeside => hnot ⟨pathname, hdecode, hfile, hbeside, ?_⟩
          simp only [Bool.and_eq_true, Bool.not_eq_true', not_and, Bool.not_eq_false] at hserved
          cases hthere : isThere (root.resolve (relativePath pathname)) with
          | false => exact .inr (hserved hthere)
          | true => exact .inl rfl
      · cases hserve
    · rw [handleRequest_of_file hdecode hfile]
      unfold serveFile
      dsimp only
      rw [if_pos (text_prefix_iff.2 (.inl hwithin)), if_neg (by simp [hthere])]

/-- The directory of the renderer. -/
def webManager : PosixPath where
  names := ["app".toList, "web-manager".toList]
  valid := by
    intro n hn
    rcases List.mem_cons.1 hn with rfl | hn
    · exact ⟨by decide, by decide, by decide, by decide⟩
    · rw [List.mem_singleton.1 hn]
      exact ⟨by decide, by decide, by decide, by decide⟩

def besideWebManager : AppUrl :=
  ⟨"/..%2Fweb-manager.bak%2Fkey.pem".toList, [], List.all_eq_true.1 (by decide +kernel), by decide +kernel⟩

theorem files_confined_fails : ¬ Confined webManager (fun _ => true) true besideWebManager := by
  intro hconfined
  have hserved : handleRequest webManager (fun _ => true) true besideWebManager =
      .file (webManager.resolve "../web-manager.bak/key.pem".toList) := by
    decide +kernel
  have hwithin : webManager.names <+: (webManager.resolve "../web-manager.bak/key.pem".toList).names :=
    hconfined _ hserved
  exact absurd hwithin (by decide +kernel)

end CubridWebManager.Desktop
