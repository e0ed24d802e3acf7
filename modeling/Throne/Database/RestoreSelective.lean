import Throne.Database.Repos
import Throne.Lib.Sql

/-!
# Restoring parts of a backup

`Database::restoreSelective` of `src/src/database/Database.cpp`. The backup is attached as `bak`, and
one transaction replaces the tables of the chosen parts, repairs the three ids in `settings` that
point into replaced tables, clears the references between groups and routes when only one of them
came, and raises the id counters.

The backup is any readable database: it may lack tables and columns, have others, and hold values
that this schema does not want. A statement that breaks a constraint throws. `Faults` says which
statements fail for reasons outside the data. Column affinity is not modelled, so a text that looks
like a number stays a text in an ordinary column; an integer key converts it.
-/

namespace Throne.Database.Restore

open Lib.Sql

/-! ## Databases -/

/-- The tables that belong to a part. -/
inductive TableName where
  | profiles | groupsOrder | groups
  | routeRules | routeProfiles
  | settings | markers
  | otpProfiles
  | ipListEntries | ipScans | ipLists
  deriving DecidableEq

/-- The columns of the single row of `entity_ids`. -/
inductive Counter where
  | profile | group | routeProfile | otpProfile | ipList | ipScan
  deriving DecidableEq

/-- The column a counter is kept in. -/
def Counter.column : Counter → String
  | .profile => "profile_last_id"
  | .group => "group_last_id"
  | .routeProfile => "route_profile_last_id"
  | .otpProfile => "otp_profile_last_id"
  | .ipList => "ip_list_last_id"
  | .ipScan => "ip_scan_last_id"

/-- The table a counter numbers. -/
def Counter.table : Counter → TableName
  | .profile => .profiles
  | .group => .groups
  | .routeProfile => .routeProfiles
  | .otpProfile => .otpProfiles
  | .ipList => .ipLists
  | .ipScan => .ipScans

/-- The `INTEGER PRIMARY KEY` of a table. -/
def TableName.key : TableName → Option String
  | .profiles | .groups | .routeProfiles | .otpProfiles | .ipLists | .ipScans => some "id"
  | .groupsOrder => some "group_id"
  | .routeRules | .settings | .markers | .ipListEntries => none

/-- The database of the program. -/
structure Db where
  tables : TableName → Table
  counters : Counter → Value

/-- One table replaced. -/
def Db.put (db : Db) (n : TableName) (t : Table) : Db :=
  { db with tables := Function.update db.tables n t }

/-- What SQLite and the schema keep true of the program's own database: integer keys hold integers,
the counters are `NOT NULL`, and so are the two key columns of `route_rules`, which have no default.
`settings` has a `key` without a default. -/
structure HostDb extends Db where
  keys : ∀ n, (tables n).key = n.key
  integerKeys : ∀ n k, n.key = some k → ∀ row ∈ (tables n).rows, ∃ i, row k = .int i
  countersSet : ∀ c, counters c ≠ .null
  ruleColumns : ∀ c ∈ ["route_profile_id", "rule_order"], (tables .routeRules).fallback c = .null ∧
    ∃ column ∈ (tables .routeRules).columns, column.name = c ∧ column.notNull = true
  settingsKey : "key" ∈ (tables .settings).names ∧ (tables .settings).fallback "key" = .null

/-- A table of the backup. -/
structure BakTable where
  columns : List String
  rows : List Row

/-- A quoted name in a query over the table. SQLite reads one that is no column as a text. -/
def BakTable.get (b : BakTable) (row : Row) (c : String) : Value :=
  if c ∈ b.columns then row c else .text c

/-- The attached backup. -/
structure Backup where
  tables : TableName → Option BakTable
  entityIds : Option BakTable

/-- `BackupParts`, without the icons. -/
structure BackupParts where
  profiles : Bool
  routes : Bool
  settings : Bool
  otp : Bool
  ipLists : Bool

/-- `BackupParts::anyDb`. -/
def BackupParts.anyDb (p : BackupParts) : Bool := p.profiles || p.routes || p.settings || p.otp || p.ipLists

/-- `kProfileTables` .. `kIpListTables` of the chosen parts, in the order they are copied. -/
def BackupParts.tables (p : BackupParts) : List TableName :=
  (if p.profiles then [.profiles, .groupsOrder, .groups] else []) ++
    (if p.routes then [.routeRules, .routeProfiles] else []) ++
    (if p.settings then [.settings, .markers] else []) ++
    (if p.otp then [.otpProfiles] else []) ++
    (if p.ipLists then [.ipListEntries, .ipScans, .ipLists] else [])

/-! ## Copying -/

/-- `c IS NULL OR c IN ('', '[]', 0, '0')`. -/
def isBlank (v : Value) : Bool := v = .null || v = .text "" || v = .text "[]" || v = .int 0 || v = .text "0"

variable (n : TableName)

variable (t : Table)

/-- The columns of the backup's rules that this schema lacks. Other tables are copied without
looking at theirs. -/
def foreignColumns (b : BakTable) : List String :=
  if n = .routeRules then b.columns.filter fun c => c ∉ t.names else []

/-- `keepRow`: a rule with a value in a column this schema lacks is not copied. -/
def keepRow (b : BakTable) (row : Row) : Bool :=
  (foreignColumns n t b).all fun c => isBlank (row c)

/-- The number of rows that are not copied. -/
def skippedRows (b : BakTable) : Nat :=
  (b.rows.filter fun row => !keepRow n t b row).length

/-- `"key" NOT IN (keepKeys)`; there is no such condition without keys to keep. -/
def replacesKey (keepKeys : List String) (key : Value) : Bool := keepKeys.isEmpty || (key != .null && !(keepKeys.map Value.text).contains key)

/-- The columns both sides have. -/
def copiedColumns (b : BakTable) : List String := t.names.filter fun c => c ∈ b.columns

/-- The rows the copy selects. When rules were skipped, the rest of each profile's rules are numbered
again from 0 on. -/
def selectedRows (b : BakTable) (keepKeys : List String) : List Row :=
  let rows := b.rows.filter fun row => keepRow n t b row && replacesKey keepKeys (b.get row "key")
  if 0 < skippedRows n t b ∧ "rule_order" ∈ copiedColumns t b then
    rowNumbered (b.get · "route_profile_id") (b.get · "rule_order") "rule_order" rows
  else rows

/-- The table after the `DELETE` of the copy. -/
def wiped (keepKeys : List String) : Table :=
  { t with rows := t.rows.filter fun row => !replacesKey keepKeys (row "key") }

/-- `copyTable`, with the number of skipped rows. -/
def copyTable (bak : Option BakTable) (keepKeys : List String) : Option (Table × Nat) :=
  match bak with
  | none => some (t, 0)
  | some b =>
    if copiedColumns t b = [] then some (t, 0)
    else
      match (wiped t keepKeys).insertAll
          ((selectedRows n t b keepKeys).map (t.fill (copiedColumns t b))) with
      | none => none
      | some t' => some (t', skippedRows n t b)

/-- The tables of the chosen parts, one after another. -/
def copyTables (bak : Backup) (keep : TableName → List String) : List TableName → Db → Option (Db × Nat)
  | [], db => some (db, 0)
  | n :: ns, db =>
    match copyTable n (db.tables n) (bak.tables n) (keep n) with
    | none => none
    | some (t, skipped) =>
      match copyTables bak keep ns (db.put n t) with
      | none => none
      | some (db, more) => some (db, skipped + more)

/-! ## Ids in the settings -/

/-- `sqlite3_column_int`: the low 32 bits. -/
def getInt : Value → Int
  | .int i => i.bmod (2 ^ 32)
  | _ => 0

/-- `getText`. -/
def getText : Value → String
  | .null => ""
  | .int i => i.repr
  | .text s => s

/-- `QString::toInt`: 0 for what is no number or no `int`. -/
def toInt (s : String) : Int :=
  match parseInt s with
  | some i => if -2 ^ 31 ≤ i ∧ i < 2 ^ 31 then i else 0
  | none => 0

/-- `databaseSettingId`. -/
def databaseSettingId (settings : Table) (key : String) : Option Int :=
  (settings.rows.find? fun row => row "key" = .text key).map fun row => toInt (getText (row "value"))

/-- `databaseSetSettingId`: `INSERT OR REPLACE`. -/
def databaseSetSettingId (settings : Table) (key : String) (id : Int) : Table :=
  { settings with
    rows := (settings.rows.filter fun row => row "key" ≠ .text key) ++
      [settings.fill ["key", "value"] fun c => if c = "key" then .text key else .text id.repr] }

/-- `databaseIdExists`. -/
def databaseIdExists (id : Int) : Bool := t.rows.any fun row => row "id" = .int id

/-- The aggregate `MIN` over the ids of a table. -/
def lowestId : Option Int :=
  ((t.rows.map (· "id")).insertionSort fun a b => a.le b).head?.map getInt

/-- The first group in the order of the tabs. -/
def firstGroup (order groups : Table) : Option Int :=
  ((order.rows.filter fun o => groups.rows.any fun g => g "id" = o "group_id").insertionSort
    fun a b => (a "display_order").le (b "display_order")).head?.map fun o => getInt (o "group_id")

/-- Which tables the restore replaces: the part is chosen and the backup has the table. -/
structure Replaced where
  profiles : Bool
  groups : Bool
  routes : Bool
  settings : Bool

/-- `replaces`. -/
def replaced (parts : BackupParts) (bak : Backup) : Replaced where
  profiles := parts.profiles && (bak.tables .profiles).isSome
  groups := parts.profiles && (bak.tables .groups).isSome
  routes := parts.routes && (bak.tables .routeProfiles).isSome
  settings := parts.settings && (bak.tables .settings).isSome

/-- `keepHostId`. -/
def keepHostId (tableReplaced : Bool) (key : String) (keys : List String) : List String :=
  if !tableReplaced && !keys.contains key then keys ++ [key] else keys

variable (r : Replaced)

/-- `settingKeepKeys`. -/
def settingKeepKeys (preserved : List String) : List String :=
  keepHostId r.routes "current_route_id" (keepHostId r.groups "current_group" (keepHostId r.profiles "remember_id" preserved))

/-- `keptHere`. -/
def keptHere (keepKeys : List String) (key : String) : Bool := !r.settings || keepKeys.contains key

/-- `remember_id`: reset when it does not resolve, or names a profile of the replaced table. -/
def repairRemember (keepKeys : List String) (profiles settings : Table) : Table :=
  match databaseSettingId settings "remember_id" with
  | none => settings
  | some id =>
    if 0 ≤ id ∧ ((r.profiles && keptHere r keepKeys "remember_id") = true ∨
        databaseIdExists profiles id = false) then
      databaseSetSettingId settings "remember_id" NoProfileId
    else settings

/-- Whether a current id may stay. -/
def resolves (stale : Bool) (t : Table) : Option Int → Bool
  | none => false
  | some id => !stale && databaseIdExists t id

/-- `current_group` and `current_route_id`: a missing, stale or dangling id is replaced by the one
to fall back to, if there is any. -/
def repairCurrent (key : String) (stale : Bool) (t : Table) (first : Option Int) (settings : Table) :
    Table :=
  if resolves stale t (databaseSettingId settings key) then settings
  else
    match first with
    | none => settings
    | some id =>
      if some id = databaseSettingId settings key then settings
      else databaseSetSettingId settings key id

/-- The three repairs. -/
def repairIds (keepKeys : List String) (db : Db) : Db :=
  let settings := repairRemember r keepKeys (db.tables .profiles) (db.tables .settings)
  let settings := repairCurrent "current_group" (r.groups && keptHere r keepKeys "current_group") (db.tables .groups)
    ((firstGroup (db.tables .groupsOrder) (db.tables .groups)).or (lowestId (db.tables .groups)))
    settings
  let settings := repairCurrent "current_route_id" (r.routes && keptHere r keepKeys "current_route_id")
    (db.tables .routeProfiles) (lowestId (db.tables .routeProfiles)) settings
  db.put .settings settings

/-! ## References between groups and routes, and the counters -/

/-- `UPDATE t SET column = -1`, on a table that has the column. -/
def clearColumn (column : String) : Table :=
  if column ∈ t.names then { t with rows := t.rows.map fun row => Function.update row column (.int (-1)) }
  else t

/-- Group route overrides and route source groups. -/
def clearReferences (db : Db) : Db :=
  if r.groups != r.routes then
    (db.put .groups (clearColumn (db.tables .groups) "route_id")).put .routeProfiles (clearColumn (db.tables .routeProfiles) "source_gid")
  else db

/-- `MAX(a, b)` of two values. -/
def scalarMax (a b : Value) : Value := if a = .null ∨ b = .null then .null else a.max b

/-- A counter raised above the ids of its table and, if there is one, the backup's counter. -/
def raised (db : Db) (bak : Option Value) (c : Counter) : Value :=
  let own := scalarMax (db.counters c) (orZero (maxOf ((db.tables c.table).rows.map (· "id"))))
  match bak with
  | none => own
  | some v => scalarMax own v

/-- `SELECT COALESCE(MAX(column), 0) FROM bak.entity_ids`. -/
def bakCounter (b : BakTable) (c : Counter) : Value := orZero (maxOf (b.rows.map (· c.column)))

/-- The backup's counter, when it has the column. -/
def bakValue (bak : Backup) (c : Counter) : Option Value :=
  match bak.entityIds with
  | none => none
  | some b => if c.column ∈ b.columns then some (bakCounter b c) else none

/-- One counter raised. -/
def raiseOne (bak : Backup) (c : Counter) (db : Db) : Db :=
  { db with counters := Function.update db.counters c (raised db (bakValue bak c) c) }

/-- The three counters of one statement, which fails when the backup's `entity_ids` lacks one of
them. -/
def raiseThree (bak : Backup) (db : Db) : Option Db :=
  if ∃ b ∈ bak.entityIds, ∃ c ∈ [Counter.profile, .group, .routeProfile], c.column ∉ b.columns then
    none
  else some (raiseOne bak .routeProfile (raiseOne bak .group (raiseOne bak .profile db)))

/-- The counters of the chosen parts. -/
def raiseCounters (parts : BackupParts) (bak : Backup) (db : Db) : Option Db :=
  (if parts.profiles || parts.routes then raiseThree bak db else some db).map fun db =>
    let db := if parts.otp then raiseOne bak .otpProfile db else db
    if parts.ipLists then raiseOne bak .ipScan (raiseOne bak .ipList db) else db

/-! ## The restore -/

/-- Settings saved before there was a `markers` table have been through no migration. -/
def clearMarkers (parts : BackupParts) (bak : Backup) (db : Db) : Db :=
  if parts.settings && (bak.tables .markers).isNone then
    db.put .markers { db.tables .markers with rows := [] }
  else db

/-- What stands between `BEGIN` and `COMMIT`. -/
def restoreBody (bak : Backup) (parts : BackupParts) (preserved : List String) (db : Db) : Option (Db × Nat) :=
  let r := replaced parts bak
  let keepKeys := settingKeepKeys r preserved
  match copyTables bak (fun n => if n = .settings then keepKeys else []) parts.tables db with
  | none => none
  | some (db, skipped) =>
    let db := clearReferences r (repairIds r keepKeys (clearMarkers parts bak db))
    (raiseCounters parts bak db).map fun db => (db, skipped)

/-- What fails for reasons outside the data: `ATTACH` or `BEGIN`, a statement of the transaction
(`COMMIT` included), or a statement after it. -/
structure Faults where
  attaches : Bool
  commits : Bool
  detaches : Bool

/-- How `restoreSelective` ends. -/
inductive Outcome where
  | returned (skipped : Nat)
  | threw
  deriving DecidableEq

/-- `Database::restoreSelective`. `ROLLBACK` puts everything back. -/
def restoreSelective (f : Faults) (bak : Backup) (parts : BackupParts) (preserved : List String) (db : Db) : Db × Outcome :=
  if !parts.anyDb then (db, .returned 0)
  else if !f.attaches then (db, .threw)
  else
    match restoreBody bak parts preserved db with
    | none => (db, .threw)
    | some (db', skipped) =>
      if !f.commits then (db, .threw)
      else if !f.detaches then (db', .threw)
      else (db', .returned skipped)

end Throne.Database.Restore
