import Throne.Lib.Json
import Throne.Lib.Runs

/-!
# Backups on a WebDAV server

Devices share one folder of archives and an index that describes them
(`src/src/engine/services/WebDavBackup.cpp`). An upload stores its archive under a new name and then
rewrites the index with its own entry; a deletion removes the archive and rewrites the index without it.
Each rewriting fetches the index, lists the folder and puts the new index where the old one has not changed
meanwhile, and starts again where it has.

The requests of all operations reach the server one at a time, in any order. The folder's listing is taken
as it is once read from the server's answer. What Qt makes of dates is a parameter.
-/

namespace Throne.Engine.WebDavBackup

open Lib.Texts Lib.Json

def kWebDavIndexMaxEntries : Nat := 1000
def kWebDavIndexRounds : Nat := 4
def kWebDavIndexFormat : Int := 1

/-! ## Names and dates -/

/-- `endsWith` without case, for a pattern in lower case. -/
def endsWithNoCase (pattern text : Text) : Bool := pattern.isSuffixOf (text.map Char.toLower)

def WebDavSafeFileName (name : Text) : Bool :=
  !name.isEmpty && !name.contains '/' && !name.contains '\\' && name != ".".toList && name != "..".toList && endsWithNoCase ".thrbackup".toList name

/-- Four hexadecimal digits. -/
def hex4 (n : Nat) : Text := [Nat.digitChar (n / 4096 % 16), Nat.digitChar (n / 256 % 16), Nat.digitChar (n / 16 % 16), Nat.digitChar (n % 16)]

/-- The name of a new archive. The stamp is its date as digits, and the number is random and under
`0x10000`. -/
def WebDavNewFileName (version stamp : Text) (random : Nat) : Text :=
  "throne_backup_".toList ++ version.map (fun c => if c.isAlphanum || c == '.' || c == '_' || c == '-' then c else '-') ++
    "_".toList ++ stamp ++ "_".toList ++ hex4 random ++ ".thrbackup".toList

/-- A date in seconds; none is an invalid one. -/
abbrev Date := Option Nat

/-- Newest first; unknown dates sort last. -/
def WebDavNewer : Date → Date → Bool
  | none, _ => false
  | some _, none => true
  | some a, some b => decide (b < a)

/-- The order of `stable_sort`: what is not newer does not move forward. -/
def newestFirst {α : Type} (date : α → Date) (a b : α) : Bool := !WebDavNewer (date b) (date a)

/-- What `QDateTime` reads and writes. -/
structure Dates where
  isoDate : Text → Date
  isoText : Nat → Text
  nameStamp : Text → Date
  isoDate_isoText : ∀ date, isoDate (isoText date) = some date

/-- The pattern of a checksum. -/
def isSha256 (text : Text) : Bool :=
  decide (text.length = 64) && text.all fun c => c.isDigit || (97 ≤ c.toNat && c.toNat ≤ 102)

/-- A string. -/
def asText : Json → Option Text
  | .text text => some text
  | _ => none

/-- An object. -/
def asObject : Json → Option Fields
  | .object object => some object
  | _ => none

/-! ## Entries -/

/-- What an upload knows of its archive. The name is one of `WebDavNewFileName`. -/
structure Backup where
  file : Text
  created_at : Nat
  size : Nat
  sha256 : Text
  device_id : Text
  device_name : Text
  platform : Text
  app_version : Text
  parts : List Text
  safe : WebDavSafeFileName file = true
  hashed : isSha256 sha256 = true

variable (d : Dates)

/-- The entry an upload records. -/
def Backup.entry (b : Backup) : Fields :=
  [("file".toList, .text b.file), ("created_at".toList, .text (d.isoText b.created_at)),
    ("size".toList, .int b.size), ("sha256".toList, .text b.sha256),
    ("device_id".toList, .text b.device_id), ("device_name".toList, .text b.device_name),
    ("platform".toList, .text b.platform), ("app_version".toList, .text b.app_version),
    ("parts".toList, .array (b.parts.map .text))]

/-- `Entry`. -/
structure Entry where
  file : Text
  createdAt : Date
  size : Int
  sha256 : Text
  deviceId : Text
  deviceName : Text
  platform : Text
  appVersion : Text
  parts : List Text
  indexed : Bool

def WebDavEntryFromJson (object : Fields) : Option Entry :=
  let file := object.textAt "file".toList
  if WebDavSafeFileName file then
    let hash := (object.textAt "sha256".toList).map Char.toLower
    some
      { file := file
        createdAt := d.isoDate (object.textAt "created_at".toList)
        size :=
          match object.get "size".toList with
          | some (.int n) => if 0 ≤ n then n else -1
          | _ => -1
        sha256 := if isSha256 hash then hash else []
        deviceId := object.textAt "device_id".toList
        deviceName := object.textAt "device_name".toList
        platform := object.textAt "platform".toList
        appVersion := object.textAt "app_version".toList
        parts := (object.arrayAt "parts".toList).filterMap asText
        indexed := true }
  else none

/-! ## The index -/

/-- The objects of an index. -/
def backupsOf (root : Fields) : List Fields := (root.arrayAt "backups".toList).filterMap asObject

def fileOf (object : Fields) : Text := object.textAt "file".toList

def dateOf (object : Fields) : Date := d.isoDate (object.textAt "created_at".toList)

/-- The entries whose archive is there, each name once and none of the names seen. -/
def keepPresent (present : List Text) : List Text → List Fields → List Fields
  | _, [] => []
  | seen, object :: objects =>
    if seen.contains (fileOf object) || !present.contains (fileOf object) then
      keepPresent present seen objects
    else object :: keepPresent present (fileOf object :: seen) objects

/-- The entries of the new index, newest first, before the list is cut. -/
def keptEntries (root : Fields) (present : List Text) (file : Text) (added : Option Fields) : List Fields :=
  (added.toList ++ keepPresent present [file] (backupsOf root)).mergeSort (newestFirst (dateOf d))

/-- The index with its entries replaced. -/
def withEntries (root : Fields) (entries : List Fields) : Fields :=
  (root.put "format".toList (.int kWebDavIndexFormat)).put "backups".toList (.array (entries.map .object))

/-- The format of an index, this one where it has none. -/
def formatOf (root : Fields) : Int :=
  match root.get "format".toList with
  | some (.int format) => format
  | _ => kWebDavIndexFormat

/-! ## The server and the operations -/

structure WebDavListedFile where
  name : Text
  size : Int
  modified : Date

/-- `WebDavIndex`: the index an operation has fetched, with its strong tag. -/
structure WebDavIndex where
  root : Fields
  existed : Bool
  etag : Text

/-- The next request of an operation. -/
inductive Op where
  | unborn
  | uploadPut (backup : Backup)
  | deleteRequest (file : Text)
  | fetch (file : Text) (added : Option Fields) (round : Nat)
  | list (file : Text) (added : Option Fields) (round : Nat) (index : WebDavIndex)
  | put (file : Text) (added : Option Fields) (round : Nat) (index : WebDavIndex)
      (present : List Text)
  | done

/-- The folder and the index with its tag, and where each operation stands. No code reads the last three:
every index that was served with its tag, every archive that was uploaded, and every entry that was cut off
with the entries that were written instead. -/
structure World where
  folder : List WebDavListedFile
  index : Option (Fields × Text)
  ops : Nat → Op
  tags : List (Text × Fields)
  uploads : List Backup
  cuts : List (Fields × List Fields)

variable (w : World)

/-- What the server answers to a request for the index. -/
def World.fetched : WebDavIndex :=
  match w.index with
  | none => ⟨[], false, []⟩
  | some (root, etag) =>
    ⟨root, true, if !etag.isEmpty && !"W/".toList.isPrefixOf etag then etag else []⟩

/-- Whether the server takes a new index. -/
def World.accepts (round : Nat) (index : WebDavIndex) : Bool :=
  let conditional := decide (round < kWebDavIndexRounds)
  if conditional && !index.etag.isEmpty then w.index.map Prod.snd == some index.etag
  else if conditional && !index.existed then w.index.isNone
  else true

def World.setOp (i : Nat) (op : Op) : World :=
  { w with ops := Function.update w.ops i op }

/-- The next request of an operation. `modified` and `etag` are what the server gives to what it stores. -/
def request (i : Nat) (modified : Date) (etag : Text) : World :=
  match w.ops i with
  | .unborn => w
  | .uploadPut backup =>
    { w.setOp i (.fetch backup.file (some (backup.entry d)) 1) with
      folder := w.folder.filter (fun file => file.name != backup.file) ++
        [⟨backup.file, backup.size, modified⟩]
      uploads := backup :: w.uploads }
  | .deleteRequest file =>
    { w.setOp i (.fetch file none 1) with
      folder := w.folder.filter fun listed => listed.name != file }
  | .fetch file added round =>
    if kWebDavIndexFormat < formatOf w.fetched.root then w.setOp i .done
    else w.setOp i (.list file added round w.fetched)
  | .list file added round index =>
    w.setOp i (.put file added round index (w.folder.map WebDavListedFile.name))
  | .put file added round index present =>
    let kept := keptEntries d index.root present file added
    let written := kept.take kWebDavIndexMaxEntries
    let root := withEntries index.root written
    if w.accepts round index then
      { w.setOp i .done with
        index := some (root, etag)
        tags := (etag, root) :: w.tags
        cuts := (kept.drop kWebDavIndexMaxEntries).map (fun object => (object, written)) ++ w.cuts }
    else if round < kWebDavIndexRounds then w.setOp i (.fetch file added (round + 1))
    else w.setOp i .done
  | .done => w

inductive Event where
  | Upload (i : Nat) (backup : Backup)
  | Delete (i : Nat) (file : Text)
  | next (i : Nat) (modified : Date) (etag : Text)

def step : Event → World
  | .Upload i backup =>
    match w.ops i with
    | .unborn => w.setOp i (.uploadPut backup)
    | _ => w
  | .Delete i file =>
    match w.ops i with
    | .unborn => if WebDavSafeFileName file then w.setOp i (.deleteRequest file) else w
    | _ => w
  | .next i modified etag => request d w i modified etag

/-- An empty folder without an index. -/
def World.init : World := ⟨[], none, fun _ => .unborn, [], [], []⟩

/-! ## The list of backups -/

/-- The entry of a file of the folder: its own of the index, or one made of the listing alone. -/
def listedEntry (objects : List Fields) (file : WebDavListedFile) : Entry :=
  let entry :=
    match (objects.filterMap (WebDavEntryFromJson d)).find? fun entry => entry.file == file.name with
    | some entry => if entry.size < 0 then { entry with size := file.size } else entry
    | none =>
      ⟨file.name, none, file.size, [], [], "Unknown device".toList, [], [], [], false⟩
  match entry.createdAt with
  | some _ => entry
  | none =>
    { entry with
      createdAt :=
        match file.modified with
        | some modified => some modified
        | none => d.nameStamp file.name }

/-- `List`. -/
def ListEntries : List Entry := (w.folder.map (listedEntry d (backupsOf w.fetched.root))).mergeSort (newestFirst Entry.createdAt)

end Throne.Engine.WebDavBackup
