import CubridWebManager.Conf.CubridConfEdit
import CubridWebManager.Lib.ReadModifyWrite

/-!
# The writers of a host's conf files

What the operations that write a conf file of a host make of the lines that CMS answers (`ConfEdit.lines`), and the
queue in which each of them reads and writes (`confProtocol`).  CMS reads and writes a conf file whole, at some time
while the call waits for the answer; what it makes of the lines that it is sent is left open.
-/

namespace CubridWebManager.HostConfig

open Conf

inductive ConfName
  | cubridconf
  | cmconf
  | brokerconf
  deriving DecidableEq

inductive ConfEdit
  | setAutoStart (dbname : Text)
  | removeAutoStart (dbname : Text)
  | ensureDbHaModeOff (dbname : Text)
  | renameAutoStart (oldName newName : Text)
  | forgetDatabaseAfterDelete (dbname : Text)
  /-- `setSystemParamFromRawEdit`, or `setBrokerParamFromRawEdit` for `brokerconf`. -/
  | rawSave (confname : ConfName) (confdata loaded : List Text)
  deriving DecidableEq

def ConfEdit.confname : ConfEdit → ConfName
  | rawSave confname _ _ => confname
  | _ => .cubridconf

/-! ### What is written

The lines are `conflist?.[0]?.confdata` of the answer.  The result is `none` where the operation throws, and `some none`
where it returns without a write. -/

section edits

variable (lower : Text → Text)

/-- `slice(0, n)`, the line, `slice(n)`. -/
def insertLine (confdata : List Text) (n : Nat) (line : Text) : List Text := confdata.take n ++ line :: confdata.drop n

def setAutoStart (dbname : Text) (confdata : Option (List Text)) : Option (Option (List Text)) :=
  match confdata with
  | none | some [] => none
  | some confdata =>
    if serverEntries lower confdata = [] then
      match serviceHeaderLine lower confdata with
      | none => none
      | some headerLine => some (some (insertLine confdata headerLine ("server=".toList ++ dbname)))
    else if isAutostart lower confdata dbname then some none
    else some (some ((editServerList lower confdata (fun names => names ++ [dbname]) true).getD confdata))

def removeAutoStart (dbname : Text) (confdata : Option (List Text)) : Option (Option (List Text)) :=
  match confdata with
  | none | some [] => none
  | some confdata =>
    if serverEntries lower confdata = [] then none
    else if isAutostart lower confdata dbname then
      some (some ((removeAutostart lower confdata dbname).getD confdata))
    else none

/-- `ha_mode` is set in the section. -/
def hasHaMode (confdata : List Text) (sectionName : Text) : Bool :=
  (parseConfText lower confdata).sections.any fun s =>
    s.name.getD [] = sectionName && s.entries.any fun e => lower e.key = "ha_mode".toList

def ensureDbHaModeOff (dbname : Text) (confdata : Option (List Text)) : Option (Option (List Text)) :=
  match confdata with
  | none | some [] => none
  | some confdata =>
    let targetSection := '@' :: dbname
    if hasHaMode lower confdata targetSection then some none
    else
      let header := '[' :: targetSection ++ [']']
      match confdata.findIdx? fun line => line.trim = header with
      | none => some (some (confdata ++ [[], header, "ha_mode=off".toList]))
      | some i => some (some (insertLine confdata (i + 1) "ha_mode=off".toList))

def forgetDatabaseAfterDelete (dbname : Text) (confdata : Option (List Text)) : Option (Option (List Text)) :=
  match confdata with
  | none | some [] => some none
  | some confdata => some (forgetDbInCubridConf lower confdata dbname)

def renameAutoStart (oldName newName : Text) (confdata : Option (List Text)) : Option (Option (List Text)) :=
  match confdata with
  | none | some [] => none
  | some confdata =>
    let renamed := renameDbSection lower ((renameAutostart lower confdata oldName newName).getD confdata) oldName newName
    if renamed.lines = confdata then some none else some (some renamed.lines)

/-- The text that `assertUnchangedSinceLoaded` compares. -/
def confText (lines : List Text) : Text :=
  List.intercalate ['\n'] (lines.map fun line => line.rdropWhile fun c => c = '\r' || c = '\n')

def rawSave (confdata loaded : List Text) (current : Option (List Text)) : Option (Option (List Text)) :=
  if confText loaded = confText (current.getD []) then some (some confdata) else none

def ConfEdit.lines : ConfEdit → Option (List Text) → Option (Option (List Text))
  | setAutoStart dbname => HostConfig.setAutoStart lower dbname
  | removeAutoStart dbname => HostConfig.removeAutoStart lower dbname
  | ensureDbHaModeOff dbname => HostConfig.ensureDbHaModeOff lower dbname
  | renameAutoStart oldName newName => HostConfig.renameAutoStart lower oldName newName
  | forgetDatabaseAfterDelete dbname => HostConfig.forgetDatabaseAfterDelete lower dbname
  | rawSave _ confdata loaded => HostConfig.rawSave confdata loaded

end edits

/-! ### The calls -/

/-- The port is a number; `Number(port)` makes one of a text. -/
structure Host where
  address : String
  port : Int
  deriving DecidableEq

def hostConfigKey (host : Host) : String × Int := (host.address, host.port)

/-- How CMS reads and writes a conf file. -/
structure CmsConf (File : Type) where
  get : File → Option (List Text)
  set : File → List Text → File

structure Call where
  userId : String
  hostUid : String
  edit : ConfEdit
  deriving DecidableEq

/-- The calls in the queues of `withHostConfigMutex`; `hosts` is what `findHostInternal` finds. -/
def confProtocol {File : Type} (lower : Text → Text) (hosts : String → String → Host) (cms : CmsConf File) :
    UpdateProtocol Call (String × Int) (Host × ConfName) File (Option (List Text)) (List Text) where
  key? call := some (hostConfigKey (hosts call.userId call.hostUid))
  object call := (hosts call.userId call.hostUid, call.edit.confname)
  blind? _ := none
  view _ := cms.get
  edit call := call.edit.lines lower
  apply _ := cms.set

end CubridWebManager.HostConfig
