import Throne.Lib.Runs
import Throne.Database.IpListTables

/-!
# The operations of the IP list repository, one transaction at a time

`src/src/database/IpListsRepo.cpp`. A bulk write fills a generation nobody is pointed to, chunk by
chunk, and points the list to it with the last chunk; `ListClaim` keeps such writes to one list
apart. Edits (`UpsertEntries`, `RemoveEntries`) write the generation the list points to, also chunk
by chunk, and take no claim. Readers read pages and start over when the list points elsewhere.

Every operation in flight is a `Proc`: the transaction it runs next, with its local variables.
`advance` runs one transaction, taking a claim counts as one. `step` interleaves any number of them.
An event says which operation moves and whether the database took its transaction; `restart` ends
them all and runs `ipListsRepoPurgeLeftovers`.
-/

namespace Throne.Database.IpLists

/-! ## Entries and pages -/

/-- `ipListsRepoUnique`: the first of each target, entries without an address left out. -/
def uniqueEntries (seen : List (String × Int)) : List Entry → List Entry
  | [] => []
  | e :: es =>
    if e.cidr.isEmpty || seen.contains e.target then uniqueEntries seen es
    else e :: uniqueEntries (e.target :: seen) es

/-- The chunk that starts at position `start`, each entry with its position. -/
def chunkFrom (entries : List Entry) (start : Nat) : List (Entry × Nat) := (entries.zipIdx.drop start).take Db.kIpListsRepoChunkRows

/-- What a paged read has so far. `remaining` is `none` without a limit, `after` the last order. -/
structure Cursor where
  remaining : Option Nat
  after : Option Nat
  out : List Entry
  deriving DecidableEq

/-- The rows a read has before it. -/
def unread (db : Db) (id generation offset : Nat) (c : Cursor) : List Row :=
  match c.after with
  | none => (db.ordered id generation).drop offset
  | some after => (db.ordered id generation).filter fun r => decide (after < r.order)

/-- The size of the next page. -/
def pageSize (c : Cursor) : Nat :=
  match c.remaining with
  | none => Db.kIpListsRepoChunkRows
  | some n => min n Db.kIpListsRepoChunkRows

/-- The cursor after a page. -/
def Cursor.advance (c : Cursor) (page : List Row) : Cursor where
  remaining := c.remaining.map (· - page.length)
  after := (page.getLast?.map (·.order)).or c.after
  out := c.out ++ page.map (·.entry)

/-- One page of `ipListsRepoReadGeneration`, and whether the read is complete. -/
def readPage (db : Db) (id generation offset : Nat) (c : Cursor) : Cursor × Bool :=
  let page := (unread db id generation offset c).take (pageSize c)
  let next := c.advance page
  (next, decide (page.length < pageSize c) || next.remaining == some 0)

/-- `ipListsRepoReadGeneration` under one hold of the lock. Each page that is followed by another is
full, so the number of rows bounds the pages. -/
def readHeld (db : Db) (id generation offset : Nat) : Nat → Cursor → List Entry
  | 0, c => c.out
  | fuel + 1, c =>
    match readPage db id generation offset c with
    | (next, true) => next.out
    | (next, false) => readHeld db id generation offset fuel next

/-! ## Operations in flight -/

/-- `ipListsRepoPurgeExcept`: looking for a stale generation, or purging one. -/
inductive Sweep where
  | look
  | purge (generation : Nat)
  deriving DecidableEq

/-- An operation in flight: the transaction it runs next. The constructors that follow a claim hold
it, see `holds`. -/
inductive Proc where
  -- `ReplaceEntries`
  | replaceClaim (id : Nat) (entries : List Entry)
  | replaceRead (id : Nat) (entries : List Entry)
  | replaceSweep (id : Nat) (entries : List Entry) (current : Nat) (sweep : Sweep)
  | replaceStage (id : Nat) (entries : List Entry) (current start : Nat)
  | replacePurge (id generation : Nat)
  -- `AddIpList`
  | addHeader (entries : List Entry) (detached : Bool)
  | addClaim (id : Nat) (entries : List Entry)
  | addStage (id : Nat) (entries : List Entry) (start : Nat)
  | addDiscard (id : Nat) (sweep : Sweep)
  | addDrop (id : Nat)
  -- `UpsertEntries`, `RemoveEntries`
  | upsert (id : Nat) (entries : List Entry) (pinned : Option Nat)
  | remove (id : Nat) (entries : List Entry) (pinned : Option Nat)
  -- `ClearEntries`
  | clearClaim (id : Nat)
  | clearBump (id : Nat)
  | clearSweep (id keep : Nat) (sweep : Sweep)
  -- `DeleteIpList`
  | deleteClaim (id : Nat) (onlyIfDetached : Bool)
  | deleteBump (id : Nat) (onlyIfDetached : Bool)
  | deleteSweep (id fresh : Nat) (sweep : Sweep)
  | deleteDrop (id fresh : Nat)
  -- `CopyAsUserList`; `copied` is what it has put into the new list, the code has it in the table
  | copyClaim (source : Nat)
  | copyHeader (source : Nat)
  | copyTarget (source sourceGeneration id : Nat)
  | copyStage (source sourceGeneration id : Nat) (after : Option Nat) (copied : List Row)
  | copyDiscard (source id : Nat) (sweep : Sweep)
  | copyDrop (source id : Nat)
  -- `DetachIpList`, `SaveHeader`
  | saveHeader (id : Nat) (detached : Bool)
  -- `GetIpList`, `GetEntries`
  | read (id offset : Nat) (limit : Option Nat)
  | page (id generation offset : Nat) (limit : Option Nat) (cursor : Cursor)
  | held (id offset : Nat) (limit : Option Nat)
  | answered (id generation : Nat) (entries : List Entry)
  | done
  deriving DecidableEq

/-- The lists an operation has claimed. -/
def holds : Proc → List Nat
  | .replaceRead id _ | .replaceSweep id _ _ _ | .replaceStage id _ _ _ | .replacePurge id _ => [id]
  | .addStage id _ _ | .addDiscard id _ | .addDrop id => [id]
  | .clearBump id | .clearSweep id _ _ => [id]
  | .deleteBump id _ | .deleteSweep id _ _ | .deleteDrop id _ => [id]
  | .copyHeader source | .copyTarget source _ _ => [source]
  | .copyStage source _ id _ _ | .copyDiscard source id _ | .copyDrop source id => [id, source]
  | _ => []

/-! ## Transactions -/

/-- The rows of generations other than `keep`: the earlier ones if there are any. -/
def staleRows (db : Db) (id : Nat) (keep : Option Nat) : List Row :=
  let mine := db.rows.filter fun r => r.list == id
  match keep with
  | none => mine
  | some g =>
    match mine.filter fun r => decide (r.generation < g) with
    | [] => mine.filter fun r => decide (g < r.generation)
    | below => below

/-- How a sweep goes on. -/
inductive Swept where
  | going (sweep : Sweep)
  | finished (ok : Bool)

/-- One transaction of `ipListsRepoPurgeGeneration`: refused for the generation the list points
to. -/
def purgeTx (ok : Bool) (db : Db) (id generation : Nat) : Option (Db × Bool) :=
  if ok && db.pointer id != some generation then some (db.purgeBatch id generation) else none

/-- One transaction of `ipListsRepoPurgeExcept`. `LIMIT 1` gives any of the stale rows. -/
def sweepStep (ok : Bool) (choice : Nat) (db : Db) (id : Nat) (keep : Option Nat) : Sweep → Db × Swept
  | .look =>
    if ok then
      match (staleRows db id keep)[choice % (staleRows db id keep).length]? with
      | some r => (db, .going (.purge r.generation))
      | none => (db, .finished true)
    else (db, .finished false)
  | .purge generation =>
    match purgeTx ok db id generation with
    | none => (db, .finished false)
    | some (db, true) => (db, .going (.purge generation))
    | some (db, false) => (db, .going .look)

/-- The last generation a list has rows of, or points to. -/
def lastGeneration (db : Db) (id generation : Nat) : Nat :=
  ((db.rows.filter fun r => r.list == id).map (·.generation)).foldl max generation

/-- `ipListsRepoBumpGeneration`: points the list past every generation it has rows of. -/
def bump (ok : Bool) (db : Db) (id : Nat) (requireDetached : Bool) : Option (Db × Nat) :=
  match db.header id with
  | none => none
  | some h =>
    if ok && (!requireDetached || h.detached) then
      let fresh := lastGeneration db id h.generation + 1
      some (db.setGeneration id fresh, fresh)
    else none

/-- One transaction of `ipListsRepoStage`; the last one flips the list to `target`. `none` when it
is refused, else whether it was the last. -/
def stageTx (ok : Bool) (db : Db) (id current target : Nat) (entries : List Entry) (start : Nat) : Option (Db × Bool) :=
  if ok && db.pointer id == some current then
    let staged := db.insertEntries id target (chunkFrom entries start)
    if entries.length ≤ start + Db.kIpListsRepoChunkRows then
      some (staged.setGeneration id target, true)
    else some (staged, false)
  else none

/-- The rows of the source the copy has before it. -/
def sourceUnread (db : Db) (source sourceGeneration : Nat) (after : Option Nat) : List Row :=
  (db.ordered source sourceGeneration).filter fun r =>
    match after with
    | none => true
    | some a => decide (a < r.order)

/-- A row of the source as the copy inserts it. -/
def copyRow (id : Nat) (r : Row) : Row := { r with list := id, generation := 1 }

/-- One transaction of `CopyAsUserList`: the next rows of the source into generation 1 of the new
list. A row a key forbids fails the transaction. `none` when refused, else the rows copied and the
order to go on after, none when they were the last. -/
def copyTx (ok : Bool) (db : Db) (source sourceGeneration id : Nat) (after : Option Nat) : Option (Db × List Row × Option Nat) :=
  let rows := sourceUnread db source sourceGeneration after
  let bound := (rows[Db.kIpListsRepoChunkRows - 1]?).map (·.order)
  let page := match bound with
    | some b => rows.filter fun r => decide (r.order ≤ b)
    | none => rows
  if ok && db.pointer id == some 0 && page.all fun r => db.admits (copyRow id r) then
    let copied := db.insertEntries id 1 (page.map fun r => (r.entry, r.order))
    some (if bound.isNone then copied.setGeneration id 1 else copied, page, bound)
  else none

/-- One transaction of an operation, `ok` when the database takes it. A claim on a list that is
claimed waits. -/
def advance (ok : Bool) (choice : Nat) (db : Db) (claimed : List Nat) : Proc → Db × List Nat × Proc
  | .replaceClaim id entries =>
    if claimed.contains id then (db, claimed, .replaceClaim id entries)
    else (db, id :: claimed, .replaceRead id entries)
  | .replaceRead id entries =>
    match if ok then db.pointer id else none with
    | none => (db, claimed.erase id, .done)
    | some current => (db, claimed, .replaceSweep id entries current .look)
  | .replaceSweep id entries current sweep =>
    match sweepStep ok choice db id (some current) sweep with
    | (db, .going sweep) => (db, claimed, .replaceSweep id entries current sweep)
    | (db, .finished true) => (db, claimed, .replaceStage id entries current 0)
    | (db, .finished false) => (db, claimed.erase id, .done)
  | .replaceStage id entries current start =>
    match stageTx ok db id current (current + 1) entries start with
    | none => (db, claimed, .replacePurge id (current + 1))
    | some (db, true) => (db, claimed, .replacePurge id current)
    | some (db, false) =>
      (db, claimed, .replaceStage id entries current (start + Db.kIpListsRepoChunkRows))
  | .replacePurge id generation =>
    match purgeTx ok db id generation with
    | some (db, true) => (db, claimed, .replacePurge id generation)
    | some (db, false) => (db, claimed.erase id, .done)
    | none => (db, claimed.erase id, .done)
  | .addHeader entries detached =>
    if ok then
      let added := db.addHeader detached
      if Db.kIpListsRepoChunkRows < entries.length then
        (added, claimed, .addClaim (db.lastId + 1) entries)
      else (added.insertEntries (db.lastId + 1) 0 entries.zipIdx, claimed, .done)
    else (db, claimed, .done)
  | .addClaim id entries =>
    if claimed.contains id then (db, claimed, .addClaim id entries)
    else (db, id :: claimed, .addStage id entries 0)
  | .addStage id entries start =>
    match stageTx ok db id 0 1 entries start with
    | none => (db, claimed, .addDiscard id .look)
    | some (db, true) => (db, claimed.erase id, .done)
    | some (db, false) => (db, claimed, .addStage id entries (start + Db.kIpListsRepoChunkRows))
  | .addDiscard id sweep =>
    match sweepStep ok choice db id none sweep with
    | (db, .going sweep) => (db, claimed, .addDiscard id sweep)
    | (db, .finished _) => (db, claimed, .addDrop id)
  | .addDrop id => (if ok then db.removeHeader id else db, claimed.erase id, .done)
  | .upsert id entries pinned =>
    match if ok then db.pointer id else none with
    | none => (db, claimed, .done)
    | some generation =>
      if pinned.isSome && pinned != some generation then (db, claimed, .done)
      else
        let db := db.upsertChunk id generation (entries.take Db.kIpListsRepoChunkRows)
        match entries.drop Db.kIpListsRepoChunkRows with
        | [] => (db, claimed, .done)
        | rest => (db, claimed, .upsert id rest (some generation))
  | .remove id entries pinned =>
    match if ok then db.pointer id else none with
    | none => (db, claimed, .done)
    | some generation =>
      if pinned.isSome && pinned != some generation then (db, claimed, .done)
      else
        let db := db.removeChunk id generation (entries.take Db.kIpListsRepoChunkRows)
        match entries.drop Db.kIpListsRepoChunkRows with
        | [] => (db, claimed, .done)
        | rest => (db, claimed, .remove id rest (some generation))
  | .clearClaim id =>
    if claimed.contains id then (db, claimed, .clearClaim id)
    else (db, id :: claimed, .clearBump id)
  | .clearBump id =>
    match bump ok db id false with
    | none => (db, claimed.erase id, .done)
    | some (db, fresh) => (db, claimed, .clearSweep id fresh .look)
  | .clearSweep id keep sweep =>
    match sweepStep ok choice db id (some keep) sweep with
    | (db, .going sweep) => (db, claimed, .clearSweep id keep sweep)
    | (db, .finished _) => (db, claimed.erase id, .done)
  | .deleteClaim id onlyIfDetached =>
    if claimed.contains id then (db, claimed, .deleteClaim id onlyIfDetached)
    else (db, id :: claimed, .deleteBump id onlyIfDetached)
  | .deleteBump id onlyIfDetached =>
    match bump ok db id onlyIfDetached with
    | none => (db, claimed.erase id, .done)
    | some (db, fresh) => (db, claimed, .deleteSweep id fresh .look)
  | .deleteSweep id fresh sweep =>
    match sweepStep ok choice db id (some fresh) sweep with
    | (db, .going sweep) => (db, claimed, .deleteSweep id fresh sweep)
    | (db, .finished true) => (db, claimed, .deleteDrop id fresh)
    | (db, .finished false) => (db, claimed.erase id, .done)
  | .deleteDrop id fresh =>
    (if ok && db.pointer id == some fresh then db.removeHeader id else db, claimed.erase id, .done)
  | .copyClaim source =>
    if claimed.contains source then (db, claimed, .copyClaim source)
    else (db, source :: claimed, .copyHeader source)
  | .copyHeader source =>
    match if ok then db.pointer source else none with
    | none => (db, claimed.erase source, .done)
    | some generation =>
      (db.addHeader false, claimed, .copyTarget source generation (db.lastId + 1))
  | .copyTarget source sourceGeneration id =>
    if claimed.contains id then (db, claimed, .copyTarget source sourceGeneration id)
    else (db, id :: claimed, .copyStage source sourceGeneration id none [])
  | .copyStage source sourceGeneration id after copied =>
    match copyTx ok db source sourceGeneration id after with
    | none => (db, claimed, .copyDiscard source id .look)
    | some (db, page, some bound) =>
      (db, claimed, .copyStage source sourceGeneration id (some bound) (copied ++ page))
    | some (db, _, none) => (db, (claimed.erase id).erase source, .read id 0 none)
  | .copyDiscard source id sweep =>
    match sweepStep ok choice db id none sweep with
    | (db, .going sweep) => (db, claimed, .copyDiscard source id sweep)
    | (db, .finished _) => (db, claimed, .copyDrop source id)
  | .copyDrop source id =>
    (if ok then db.removeHeader id else db, (claimed.erase id).erase source, .done)
  | .saveHeader id detached => (if ok then db.setDetached id detached else db, claimed, .done)
  | .read id offset limit =>
    match if ok then db.pointer id else none with
    | none => (db, claimed, .done)
    | some generation =>
      if limit == some 0 then (db, claimed, .answered id generation [])
      else (db, claimed, .page id generation offset limit ⟨limit, none, []⟩)
  | .page id generation offset limit cursor =>
    if ok then
      if db.pointer id == some generation then
        match readPage db id generation offset cursor with
        | (next, true) => (db, claimed, .answered id generation next.out)
        | (next, false) => (db, claimed, .page id generation offset limit next)
      -- a replace published between two pages: once more, under one hold of the lock
      else (db, claimed, .held id offset limit)
    else (db, claimed, .done)
  | .held id offset limit =>
    match if ok then db.pointer id else none with
    | none => (db, claimed, .done)
    | some generation =>
      (db, claimed, .answered id generation (if limit == some 0 then []
         else readHeld db id generation offset (db.rows.length + 1) ⟨limit, none, []⟩))
  | .answered id generation entries => (db, claimed, .answered id generation entries)
  | .done => (db, claimed, .done)

/-! ## The system -/

/-- The tables, the claimed lists and the operations in flight. -/
structure State where
  db : Db
  claimed : List Nat
  procs : List Proc

/-- A call of the repository. -/
inductive Call where
  | replace (id : Nat) (entries : List Entry)
  | add (entries : List Entry) (detached : Bool)
  | upsert (id : Nat) (entries : List Entry)
  | remove (id : Nat) (entries : List Entry)
  | clear (id : Nat)
  | delete (id : Nat) (onlyIfDetached : Bool)
  | copy (source : Nat)
  | detach (id : Nat)
  | saveHeader (id : Nat) (detached : Bool)
  | read (id offset : Nat) (limit : Option Nat)

/-- Where a call starts. -/
def Call.proc : Call → Proc
  | .replace id entries => .replaceClaim id (uniqueEntries [] entries)
  | .add entries detached => .addHeader (uniqueEntries [] entries) detached
  | .upsert id entries => .upsert id entries none
  | .remove id entries => .remove id entries none
  | .clear id => .clearClaim id
  | .delete id onlyIfDetached => .deleteClaim id onlyIfDetached
  | .copy source => .copyClaim source
  | .detach id => .saveHeader id true
  | .saveHeader id detached => .saveHeader id detached
  | .read id offset limit => .read id offset limit

/-- What happens: somebody calls, an operation runs its next transaction, or the process ends and
starts again. -/
inductive Event where
  | call (call : Call)
  | move (k : Nat) (ok : Bool) (choice : Nat)
  | restart (deletes : Nat)

/-- The deletes of `ipListsRepoPurgeLeftovers`, two for each list. -/
def leftovers (db : Db) : List (Row → Bool) :=
  db.headers.flatMap fun h =>
    [fun r => r.list == h.id && decide (r.generation < (db.pointer h.id).getD 0),
     fun r => r.list == h.id && decide ((db.pointer h.id).getD 0 < r.generation)]

/-- `ipListsRepoPurgeLeftovers`, which stops at the first delete that fails. -/
def purgeLeftovers (db : Db) (deletes : Nat) : Db :=
  ((leftovers db).take deletes).foldl (fun db gone => db.deleteRows gone) db

/-- One step of the system. -/
def step (s : State) : Event → State
  | .call call => { s with procs := s.procs ++ [call.proc] }
  | .move k ok choice =>
    match s.procs[k]? with
    | none => s
    | some p =>
      match advance ok choice s.db s.claimed p with
      | (db, claimed, p) => ⟨db, claimed, s.procs.set k p⟩
  | .restart deletes => ⟨purgeLeftovers s.db deletes, [], s.procs.map fun _ => .done⟩

end Throne.Database.IpLists
