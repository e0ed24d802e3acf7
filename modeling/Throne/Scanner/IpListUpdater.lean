import Throne.Lib.Texts
import Throne.Database.IpListRuns

/-!
# Refreshing an IP list

A refresh reads the header of a list, downloads from its source, reads the header again, replaces the
entries and writes that header back (`ipListUpdaterRefreshOne` of `src/src/scanner/IpListUpdater.cpp`).
Meanwhile the list may be edited, detached and deleted.

The transactions on the entries are those of `IpListsRepo`; the other columns of `ip_lists` are kept
beside its tables. The dialog loads the header of a user's list when it is opened; its `SaveHeader` writes that whole
header back, role and owner included, with the fields the dialog shows and a last update and error. The database takes
every transaction of a delete; those of a replace may fail.
-/

namespace Throne.Scanner

open Lib.Texts Database.IpLists

/-! ## Headers -/

inductive Role where
  | User
  | ScanResult
  | ScanSnapshot
  deriving DecidableEq

inductive SourceKind where
  | Manual
  | Url
  | RuleSet
  deriving DecidableEq

/-- `IpList`, its header. -/
structure IpList where
  name : Text
  related_test_id : Int
  role : Role
  source_kind : SourceKind
  source : Text
  auto_update : Bool
  update_interval : Int
  last_update : Int
  last_error : Text

variable (list : IpList)

def IpList.IsRemote : Bool := list.source_kind != .Manual && !list.source.isEmpty

/-- What `bumpGeneration` asks for with `requireDetached`. -/
def IpList.isDetached : Bool := list.role == .ScanSnapshot && list.related_test_id == -1

def ipListUpdaterRefreshable : Bool := list.IsRemote && list.role == .User

/-- The fields of the dialog. -/
structure Edited where
  name : Text
  source_kind : SourceKind
  source : Text
  auto_update : Bool
  update_interval : Int
  deriving DecidableEq

def IpList.edited : Edited := ⟨list.name, list.source_kind, list.source, list.auto_update, list.update_interval⟩

/-- The candidate of `DialogEditIpList::accept`, made from the header that was loaded. -/
def IpList.edit (edited : Edited) (last_update : Int) (last_error : Text) : IpList :=
  { list with
    name := edited.name
    source_kind := edited.source_kind
    source := edited.source
    auto_update := edited.auto_update
    update_interval := edited.update_interval
    last_update, last_error }

/-- What a refresh does not mean to change. -/
def IpList.stable : IpList := { list with last_update := 0, last_error := [] }

/-! ## Tasks -/

structure ImportOutcome where
  entries : List Entry
  error : Text

/-- The next step of a task. A refresh waits for its replace, and a delete runs as one, each the operation of
the repository with that number. A dialog holds the header it has loaded. -/
inductive Task where
  | header (id : Nat)
  | download (id : Nat) (kind : SourceKind) (source : Text)
  | reread (id : Nat) (kind : SourceKind) (source : Text) (outcome : ImportOutcome)
  | replacing (id : Nat) (kind : SourceKind) (source : Text) (current : IpList) (k : Nat) (stored : Bool)
  | save (id : Nat) (current : IpList)
  | deleting (id : Nat) (onlyIfDetached due : Bool) (k : Nat)
  | editing (id : Nat) (list : IpList)
  | done

/-- Entries a replace has published: where they were fetched from, and the source of the list then. -/
structure Publication where
  id : Nat
  fetched : SourceKind × Text
  stored : SourceKind × Text

/-- The repository, the other columns of the lists it has, and the tasks. No code reads the last three: the
fields last saved of each list, the lists that were detached, and the publications. -/
structure World where
  repo : State
  columns : Nat → IpList
  tasks : List Task
  saved : Nat → Edited
  detached : List Nat
  published : List Publication

variable (w : World)

/-- There is such a list. -/
def World.has (id : Nat) : Bool := (w.repo.db.header id).isSome

/-- `ipListUpdaterHeader`. -/
def World.header (id : Nat) : Option IpList :=
  if w.has id then some (w.columns id) else none

/-- An UPDATE, never an upsert. -/
def World.update (id : Nat) (list : IpList) : World :=
  if w.has id then
    { w with
      repo := { w.repo with db := w.repo.db.setDetached id list.isDetached }
      columns := Function.update w.columns id list }
  else w

/-- A call of the repository, which runs as its operation `w.repo.procs.length`. -/
def World.call (call : Call) : World :=
  { w with repo := Throne.Database.IpLists.step w.repo (.call call) }

def World.setTask (i : Nat) (task : Task) : World :=
  { w with tasks := w.tasks.set i task }

def World.addTask (task : Task) : World := { w with tasks := w.tasks ++ [task] }

/-- The next step of a task that is not one of the repository. `outcome` is what a download gives. -/
def runTask (i : Nat) (outcome : ImportOutcome) (now : Int) : Task → World
  | .header id =>
    match w.header id with
    | none => w.setTask i .done
    | some header =>
      if ipListUpdaterRefreshable header then
        w.setTask i (.download id header.source_kind header.source)
      else w.setTask i .done
  | .download id kind source => w.setTask i (.reread id kind source outcome)
  | .reread id kind source outcome =>
    match w.header id with
    | none => w.setTask i .done
    | some current =>
      if current.source_kind ≠ kind ∨ current.source ≠ source then w.setTask i .done
      else if outcome.error.isEmpty then
        (w.call (.replace id outcome.entries)).setTask i (.replacing id kind source current w.repo.procs.length false)
      else w.setTask i (.save id { current with last_error := outcome.error })
  | .replacing id _ _ current k stored =>
    if w.repo.procs[k]? = some .done then
      if stored then
        w.setTask i (.save id { current with last_update := now, last_error := [] })
      else
        w.setTask i (.save id { current with last_error := "The entries could not be saved".toList })
    else w
  | .save id current => (w.update id current).setTask i .done
  | .deleting _ _ _ _ | .editing _ _ | .done => w

/-! ## Events -/

/-- A delete. -/
def deletes : Proc → Bool
  | .deleteClaim _ _ | .deleteBump _ _ | .deleteSweep _ _ _ | .deleteDrop _ _ => true
  | _ => false

/-- The transaction is the last one of a `ReplaceEntries`. -/
def publishes (ok : Bool) (db : Db) (p : Proc) : Bool :=
  match p with
  | .replaceStage id entries current start =>
    match stageTx ok db id current (current + 1) entries start with
    | some (_, last) => last
    | none => false
  | _ => false

def Task.noteStored (k : Nat) : Task → Task
  | .replacing id kind source current k' stored =>
    .replacing id kind source current k' (if k' = k then true else stored)
  | task => task

/-- What the replace of a refresh publishes. -/
def Task.publication (columns : Nat → IpList) (k : Nat) : Task → Option Publication
  | .replacing id kind source _ k' _ =>
    if k' = k then some ⟨id, (kind, source), ((columns id).source_kind, (columns id).source)⟩ else none
  | _ => none

/-- The next transaction of an operation of the repository. -/
def World.move (k : Nat) (ok : Bool) (choice : Nat) : World :=
  match w.repo.procs[k]? with
  | none => w
  | some p =>
    let moved := Throne.Database.IpLists.step w.repo (.move k (ok || deletes p) choice)
    if publishes ok w.repo.db p then
      { w with
        repo := moved
        tasks := w.tasks.map (Task.noteStored k)
        published := w.tasks.filterMap (Task.publication w.columns k) ++ w.published }
    else { w with repo := moved }

/-- A call that writes entries of lists there are. -/
def writes : Call → Bool
  | .replace _ _ | .upsert _ _ | .remove _ _ | .clear _ => true
  | _ => false

inductive Event where
  | refresh (id : Nat)
  | task (i : Nat) (outcome : ImportOutcome) (now : Int)
  | openDialog (id : Nat)
  | edit (i : Nat) (edited : Edited) (last_update : Int) (last_error : Text)
  | detach (id : Nat)
  | delete (id : Nat) (onlyIfDetached : Bool)
  | write (call : Call)
  | move (k : Nat) (ok : Bool) (choice : Nat)

def step : Event → World
  | .refresh id => w.addTask (.header id)
  | .task i outcome now =>
    match w.tasks[i]? with
    | none => w
    | some task => runTask w i outcome now task
  | .openDialog id =>
    match w.header id with
    | none => w
    | some list => if list.role = .User then w.addTask (.editing id list) else w
  | .edit i edited last_update last_error =>
    match w.tasks[i]? with
    | some (.editing id list) =>
      if w.has id then
        { w.update id (list.edit edited last_update last_error) with
          saved := Function.update w.saved id edited }.setTask i .done
      else w
    | _ => w
  | .detach id =>
    { w.update id { w.columns id with role := .ScanSnapshot, related_test_id := -1 } with
      detached := id :: w.detached }
  | .delete id onlyIfDetached =>
    (w.call (.delete id onlyIfDetached)).addTask (.deleting id onlyIfDetached (!onlyIfDetached || w.detached.contains id) w.repo.procs.length)
  | .write call => if writes call then w.call call else w
  | .move k ok choice => w.move k ok choice

/-- Lists and their columns, and nothing in flight. -/
def World.init (db : Db) (columns : Nat → IpList) : World :=
  ⟨⟨db, [], []⟩, columns, [], fun id => (columns id).edited, [], []⟩

end Throne.Scanner
