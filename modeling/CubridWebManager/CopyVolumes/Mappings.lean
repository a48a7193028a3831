import CubridWebManager.Lib.JsText
import Mathlib.Data.List.Dedup
import Mathlib.Data.List.DropRight

/-!
# The copy of individual volumes

The copy dialog lets the user choose a directory and a name for each volume of the database, and the copy removes what
is at the target first.  `canCopyIndividualVolumes` checks in the client that no two volumes are one file and that no
target is a source, `buildCopyVolumeMappings` writes the request, and `copyDbVolumes` is what `copyDbCmsResponse` checks
of it in the server.  Both compare paths by `copyVolumePathKey`.  `toLowerCase` is the method of the strings.
-/

namespace CubridWebManager.CopyVolumes

/-! ### Paths -/

/-- `/^[A-Za-z]:[\\/]/` -/
def isDrivePath : Text → Bool
  | c :: ':' :: s :: _ => c.isAlpha && (s = '\\' || s = '/')
  | _ => false

/-- `path.startsWith('\\\\')` -/
def isUncPath (path : Text) : Bool := ['\\', '\\'].isPrefixOf path

def isWindowsPath (path : Text) : Bool := isDrivePath path || isUncPath path

/-- `/^(?:\/|[A-Za-z]:[\\/]|\\\\)/` -/
def isAbsolutePath (path : Text) : Bool := path.head? = some '/' || isDrivePath path || isUncPath path

/-- `path.replace(/\\/g, '/')` -/
def withSlashes (path : Text) : Text := path.map fun c => if c = '\\' then '/' else c

def join (parts : List Text) : Text := ['/'].intercalate parts

/-- One turn of the loop over the parts of a path. -/
def pushPart (root : Text) (parts : List Text) (part : Text) : List Text :=
  if part = [] ∨ part = ['.'] then parts
  else if part = ['.', '.'] then
    if parts ≠ [] ∧ parts.getLast? ≠ some ['.', '.'] then parts.dropLast
    else if root = [] then parts ++ [part]
    else parts
  else parts ++ [part]

/-- The root of a path and the rest of it. -/
def rootOf (windows : Bool) (value : Text) : Text × Text :=
  if windows ∧ isDrivePath value then (value.take 3, value.drop 3)
  else if windows ∧ ['/', '/'].isPrefixOf value then
    let parts := ((value.drop 2).splitOn '/').filter (· ≠ [])
    -- the server and the share are the root, and `..` does not leave it
    ('/' :: '/' :: join (parts.take 2) ++ ['/'], join (parts.drop 2))
  else if value.head? = some '/' then (['/'], value.drop 1)
  else ([], value)

section

variable (toLowerCase : Text → Text)

def copyVolumePathKey (path : Text) : Text :=
  let windows := isWindowsPath path
  let value := if windows then withSlashes path else path
  let (root, remainder) := rootOf windows value
  let parts := (remainder.splitOn '/').foldl (pushPart root) []
  let key := root ++ join parts
  if windows then toLowerCase key else key

/-! ### The client -/

/-- `directory.replace(/[\\/]+$/, '')`, a separator and the name. -/
def joinVolumePath (directory name : Text) : Text :=
  let separator := if '\\' ∈ directory then '\\' else '/'
  directory.rdropWhile (fun c => c = '\\' || c = '/') ++ separator :: name

/-- A volume of the database with what the user has chosen for it; `volid` is `none` where it is no number. -/
structure Volume where
  volid : Option Nat
  fullPath : Text
  spacename : Text
  newVolumeName : Option Text
  newLocation : Option Text

/-- `joinVolumePath(volume.newLocation, volume.newVolumeName)` -/
def Volume.target (v : Volume) : Text := joinVolumePath (v.newLocation.getD []) (v.newVolumeName.getD [])

/-- The conditions on the volume at an index. -/
def Volume.ok (v : Volume) (index : Nat) : Bool :=
  v.volid = some index && isAbsolutePath v.fullPath && v.spacename ≠ [] &&
    (v.newVolumeName.any fun name =>
      Text.trim name ≠ [] && !(name.any fun c => c = '\\' || c = '/') && name ≠ ['.'] && name ≠ ['.', '.']) &&
    isAbsolutePath (v.newLocation.getD [])

def canCopyIndividualVolumes (volumes : List Volume) : Bool :=
  let sourceKeys := (volumes.map fun v => copyVolumePathKey toLowerCase v.fullPath).dedup
  let targetKeys := (volumes.map fun v => copyVolumePathKey toLowerCase v.target).dedup
  volumes ≠ [] && (volumes.zipIdx.all fun (v, index) => v.ok index) && sourceKeys.length = volumes.length &&
    targetKeys.length = volumes.length && !(targetKeys.any fun key => key ∈ sourceKeys)

def toCmsPath (path : Text) : Text := if isWindowsPath path then withSlashes path else path

/-- The mappings, each as the entries of an object of one key. -/
def buildCopyVolumeMappings (volumes : List Volume) : List (List (Text × Text)) :=
  volumes.map fun v => [(toCmsPath v.fullPath, toCmsPath v.target)]

/-! ### The server -/

/-- An error of the parameters: its message, and the reason in its additional data. -/
structure InvalidParameter where
  message : String
  reason : Option String := none
  deriving DecidableEq

structure Checked where
  sources : List Text
  destinations : List Text
  volume : List (Text × Text)

def addMapping (c : Checked) (source destination : Text) : Except InvalidParameter Checked :=
  let sourceKey := copyVolumePathKey toLowerCase source
  let destinationKey := copyVolumePathKey toLowerCase destination
  if source.trim = [] ∨ destination.trim = [] ∨ sourceKey ∈ c.sources ∨ destinationKey ∈ c.destinations then
    .error { message := "Copy volume paths must be non-empty and unique" }
  else .ok ⟨c.sources ++ [sourceKey], c.destinations ++ [destinationKey], c.volume ++ [(source, destination)]⟩

def addItem (c : Checked) (item : List (Text × Text)) : Except InvalidParameter Checked :=
  if item = [] then .error { message := "Invalid copy volume mapping" }
  else item.foldlM (fun c e => addMapping toLowerCase c e.1 e.2) c

/-- The volumes that go to CMS, for a request whose mappings are objects of strings. -/
def copyDbVolumes (volume : List (List (Text × Text))) : Except InvalidParameter (List (Text × Text)) :=
  if volume = [] then .error { message := "Individual-volume copy requires volume mappings" }
  else
    (volume.foldlM (addItem toLowerCase) ⟨[], [], []⟩).bind fun c =>
      match c.destinations.find? (· ∈ c.sources) with
      | some onSource =>
        .error
          { message := "Volume " ++ String.ofList onSource ++ " would be copied onto a source volume"
            reason := some "COPY_VOLUME_ONTO_SOURCE" }
      | none => .ok c.volume

end

end CubridWebManager.CopyVolumes
