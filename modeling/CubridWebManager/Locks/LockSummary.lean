import CubridWebManager.Lib.JsText
import CubridWebManager.Lib.Tally
import CubridWebManager.Lib.Trim

/-!
# The two views of the lock table

`apps/api-server/src/database/management/lock-summary.ts`: the answer of CMS to `lockdb` has a list of entries, where
one lock object is an entry with its metadata and entries with the holders behind it.  `mergeLotEntries` puts them back
together; `listLockObjects` shows one row for each object, and `summarizeLocks` groups the holders by transaction,
object and mode.
-/

namespace CubridWebManager.Locks

/-- What may be missing, one value or an array of them. -/
inductive OneOrMany (α : Type)
  | missing
  | one (value : α)
  | many (values : List α)

def asArray {α : Type} : OneOrMany α → List α
  | .missing => []
  | .one value => [value]
  | .many values => values

structure Holder where
  tranIndex : Option Text
  grantedMode : Option Text
  count : Option Text

structure Entry where
  obType : Option Text
  oid : Option Text
  numHolders : Option Text
  numBHolders : Option Text
  numWaiters : Option Text
  lockHolders : OneOrMany Holder

structure Transaction where
  index : Option Text
  atUid : Option Text
  uid : Option Text
  host : Option Text
  pid : Option Text
  pname : Option Text

structure Lot where
  entry : OneOrMany Entry

structure LockInfo where
  lot : OneOrMany Lot
  transaction : OneOrMany Transaction

structure LockSummaryRow where
  index : Text
  user : Text
  host : Text
  pid : Text
  program : Text
  obj : Text
  mode : Text
  count : ℕ

structure LockSummary where
  rows : List LockSummaryRow
  totalLocks : ℕ

structure HolderRow where
  index : Text
  mode : Text
  count : Text

structure LockObjectRow where
  oid : Text
  obj : Text
  holders : List HolderRow
  numHolders : Text
  numBlockedHolders : Text
  numWaiters : Text

/-- The text of a value, which is given as what `String(value)` is. -/
def text (value : Option Text) : Text := (value.map Text.trim).getD []

/-- `text || '-'` -/
def orDash (t : Text) : Text := if t = [] then ['-'] else t

/-! ### Merging -/

/-- An entry with metadata. -/
def Entry.startsObject (item : Entry) : Bool := item.obType.isSome || item.oid.isSome

/-- One round of the loop of `mergeLotEntries`: the objects that are complete, and the pending one.  An entry that has
a null for its type or its OID shows the same `-` as one that has none. -/
def mergeItem (state : List Entry × Option Entry) (item : Entry) : List Entry × Option Entry :=
  let (merged, pending) := state
  let holders := asArray item.lockHolders
  if item.startsObject then (merged ++ pending.toList, some { item with lockHolders := .many holders })
  else if holders = [] then (merged, pending)
  else
    match pending with
    | some object => (merged, some { object with lockHolders := .many (asArray object.lockHolders ++ holders) })
    | none => (merged, some { item with obType := some ['-'], oid := some ['-'], lockHolders := .many holders })

def mergeLotEntries (rawEntries : OneOrMany Entry) : List Entry :=
  let (merged, pending) := (asArray rawEntries).foldl mergeItem ([], none)
  merged ++ pending.toList

/-! ### Labels -/

/-- What `.` does not match. -/
def isLineEnd (c : Char) : Bool := c = '\n' || c = '\r' || c.toNat = 0x2028 || c.toNat = 0x2029

/-- The match of `/^(.*?)\s*\([^)]*\)\s*=\s*(.+)$/` with the parenthesis between `before` and `after`. -/
def labelMatchAt (before after : Text) : Option Text :=
  let kind := before.rdropWhile Text.isSpace
  match (after.dropWhile (· ≠ ')')).tail.dropWhile Text.isSpace with
  | '=' :: rest =>
    let name := rest.dropWhile Text.isSpace
    if name ≠ [] && !kind.any isLineEnd && !name.any isLineEnd then some (kind ++ " = ".toList ++ name) else none
  | _ => none

/-- The parentheses are tried from the left. -/
def labelMatch (before : Text) : Text → Option Text
  | [] => none
  | c :: after =>
    (if c = '(' then labelMatchAt before after else none).or (labelMatch (before ++ [c]) after)

def lockObjectLabel (obType : Option Text) : Text :=
  let label := orDash (text obType)
  (labelMatch [] label).getD label

/-! ### The summary -/

/-- The key of a group; `JSON.stringify` of three texts tells them apart. -/
structure GroupKey where
  index : Text
  obj : Text
  mode : Text
  deriving DecidableEq

def holderKey (obj : Text) (holder : Holder) : GroupKey :=
  ⟨orDash (text holder.tranIndex), obj, orDash (text holder.grantedMode)⟩

def newRow (transactions : Dict Text Transaction) (key : GroupKey) : LockSummaryRow :=
  let tran := transactions.get? key.index
  { index := key.index
    user := orDash (text (tran.bind fun t => t.atUid.or t.uid))
    host := orDash (text (tran.bind Transaction.host))
    pid := orDash (text (tran.bind Transaction.pid))
    program := orDash (text (tran.bind Transaction.pname))
    obj := key.obj
    mode := key.mode
    count := 1 }

def addHolder (transactions : Dict Text Transaction) (obj : Text) (groups : Dict GroupKey LockSummaryRow)
    (holder : Holder) : Dict GroupKey LockSummaryRow :=
  let key := holderKey obj holder
  match groups.get? key with
  | some existing => groups.set key { existing with count := existing.count + 1 }
  | none => groups.set key (newRow transactions key)

/-- One round of the loop over the objects; `totalLocks` counts those with a holder. -/
def addEntry (transactions : Dict Text Transaction) (state : Dict GroupKey LockSummaryRow × ℕ) (entry : Entry) :
    Dict GroupKey LockSummaryRow × ℕ :=
  let holders := asArray entry.lockHolders
  if holders = [] then state
  else (holders.foldl (addHolder transactions (lockObjectLabel entry.obType)) state.1, state.2 + 1)

/-- The last transaction of an index counts. -/
def addTransaction (transactions : Dict Text Transaction) (tran : Transaction) : Dict Text Transaction :=
  if text tran.index = [] then transactions else transactions.set (text tran.index) tran

/-- The entries of the answer. -/
def rawEntries (lockinfo : OneOrMany LockInfo) : OneOrMany Entry :=
  match (asArray lockinfo).head?.bind fun info => (asArray info.lot).head? with
  | some lot => lot.entry
  | none => .missing

def summarizeLocks (lockinfo : OneOrMany LockInfo) : LockSummary :=
  let entries := mergeLotEntries (rawEntries lockinfo)
  let transactions := (((asArray lockinfo).head?.map fun info => asArray info.transaction).getD []).foldl
    addTransaction .empty
  let (groups, totalLocks) := entries.foldl (addEntry transactions) (.empty, 0)
  { rows := (groups.entries.map Prod.snd).mergeSort fun a b => b.count ≤ a.count
    totalLocks := totalLocks }

/-! ### The list -/

def compactOid (oid : Option Text) : Text :=
  orDash (List.intercalate ['|'] (((text oid).splitOn '|').map Text.trim))

def lockCount (value : Option Text) : Text :=
  if text value ≠ [] && (text value).all Char.isDigit then text value else ['-']

def holderRow (holder : Holder) : HolderRow where
  index := orDash (text holder.tranIndex)
  mode := orDash (text holder.grantedMode)
  count := text holder.count

def lockObjectRow (entry : Entry) : LockObjectRow where
  oid := compactOid entry.oid
  obj := orDash (text entry.obType)
  holders := (asArray entry.lockHolders).map holderRow
  numHolders := lockCount entry.numHolders
  numBlockedHolders := lockCount entry.numBHolders
  numWaiters := lockCount entry.numWaiters

def listLockObjects (lockinfo : OneOrMany LockInfo) : List LockObjectRow :=
  (mergeLotEntries (rawEntries lockinfo)).map lockObjectRow

example : lockObjectLabel (some "Instance of class ( 0|   553|   1) = dba.t1".toList) =
    "Instance of class = dba.t1".toList := by decide

end CubridWebManager.Locks
