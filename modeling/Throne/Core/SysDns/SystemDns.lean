import Mathlib.Data.List.AList
import Mathlib.Data.List.Perm.Basic
import Throne.Lib.Runs
import Throne.Lib.Texts

/-!
# The system DNS on macOS

The core points the network service of the default interface at its own DNS inbound and puts its servers
back (`src/core/internal/sysdns/sysdns_darwin.go`). What it has to put back stands in a state file that all
cores share, so that the next core can do it for one that died.

A core runs one function at a time and one command of it at a step: a call of `networksetup` or `ifconfig`,
or an operation on the state file. Any command may fail, and a failed one changes nothing; a core may be
killed between any two. Cores take steps in any order, and hold the state lock where the code holds it over
several commands. Every choice of the environment is part of the event: whether the command succeeds, the
service of the default interface, the order in which a map is ranged over.

A number stands for one core at a time (`alive` is exact). Once a core is dead another one may start under its
number: the state file outlives a reboot, and numbers are given out again.
-/

namespace Throne.Core.SysDns

open Lib.Texts

abbrev Service := Text
abbrev Servers := List Text

def Address : Text := "127.0.0.53".toList

/-- `record`. -/
structure Record where
  PID : Nat
  Alias : Bool
  Services : AList fun _ : Service => Servers

/-- `record{}`. -/
def Record.empty : Record := ⟨0, false, ∅⟩

/-! ## The state -/

/-- What follows `restoreLocked`: the rest of `followLocked`, or of the loop of `Release`. -/
inductive Then where
  | follow (service : Service)
  /-- `clean` says that no command of this `Release` has failed. -/
  | release (todo : List Service) (clean : Bool)

/-- The command a core is about to run. -/
inductive Pc where
  | idle
  /-- `restoreStaleLocked`, in `Prepare` or on its own: the lock, and the record. -/
  | load (prepare : Bool)
  | replay (prepare : Bool) (stored : Record) (service : Service) (todo : List Service)
  | replayAlias (prepare : Bool) (stored : Record)
  | replayWrite (prepare : Bool) (stored : Record)
  /-- `Prepare`, from the leftovers on. -/
  | merge (leftovers : AList fun _ : Service => Servers)
  | prepareSave
  | prepareAdd
  /-- `pointLocked`. -/
  | pointRead (service : Service)
  | pointSave (service : Service) (previous : Servers)
  | pointSet (service : Service)
  /-- `restoreLocked`. -/
  | restoreSet (service : Service) (next : Then)
  | restoreSave (next : Then)
  /-- `Release`, behind its loop. -/
  | releaseAlias (clean : Bool)
  | releaseSave (clean : Bool)
  | releaseRemove (clean : Bool)

/-- The variables of a core. `current` is none where the code has the empty name. -/
structure Memory where
  root : Bool
  owned : Record
  current : Option Service
  monitor : Bool
  followGen : Nat
  pc : Pc

inductive Process where
  | unborn
  | live (core : Memory)
  | dead

/-- What the cores share. `setBy` names the core that pointed a service at `Address`, until the service is
set back, and is 0 once another core has that number; no code reads it. -/
structure Host where
  dns : Service → Servers
  aliasPresent : Bool
  file : Option Record
  lock : Option Nat
  setBy : Service → Option Nat

structure World where
  host : Host
  procs : Nat → Process

/-- `alive`. -/
def World.alive (w : World) (pid : Nat) : Bool :=
  match w.procs pid with
  | .live _ => true
  | _ => false

variable (core : Memory)

def Memory.goto (pc : Pc) : Memory := { core with pc := pc }

/-! ## Functions -/

/-- A call of one of the package's functions. -/
inductive Call where
  | Prepare
  /-- `service` is the service of the default interface, if there is one. -/
  | Apply (service : Option Service)
  | follow (gen : Nat) (service : Option Service)
  | Release (order : List Service)
  | RestoreStale

/-- `followLocked`. -/
def followLocked (service : Option Service) : Memory :=
  match service with
  | none => core
  | some service =>
    if core.current = some service then core
    else if service ∈ core.owned.Services then core.goto (.pointSet service)
    else core.goto (.pointRead service)

/-- The loop of `Release`. -/
def releaseLoop (todo : List Service) (clean : Bool) : Memory :=
  match todo with
  | [] => core.goto (.releaseAlias clean)
  | service :: todo => core.goto (.restoreSet service (.release todo clean))

/-- A function up to its first command. -/
def begin : Call → Memory
  | .Prepare => if core.root then core.goto (.load true) else core
  | .Apply service =>
    if core.owned.PID = 0 then core
    else followLocked { core with monitor := true, followGen := core.followGen + 1 } service
  | .follow gen service =>
    if gen ≠ core.followGen ∨ core.monitor = false then core else followLocked core service
  | .Release order =>
    let released := { core with monitor := false, current := none, followGen := core.followGen + 1 }
    if core.owned.PID = 0 then released
    else if order.Perm core.owned.Services.keys then releaseLoop released order true
    else core
  | .RestoreStale => if core.root then core.goto (.load false) else core

/-- What follows `restoreStaleLocked`. -/
def replayed (prepare : Bool) (leftovers : AList fun _ : Service => Servers) : Memory :=
  if prepare then core.goto (.merge leftovers) else core.goto .idle

/-- The loop of `restoreStaleLocked`. -/
def replayLoop (prepare : Bool) (stored : Record) (todo : List Service) : Memory :=
  match todo with
  | [] => core.goto (.replayAlias prepare stored)
  | service :: todo => core.goto (.replay prepare stored service todo)

/-- What follows `restoreLocked`. -/
def restored : Then → Memory
  | .follow service => { core with current := some service, pc := .idle }
  | .release todo clean => releaseLoop core todo clean

/-- What follows a `restoreLocked` one of whose commands failed. -/
def restoredUnclean : Then → Memory
  | .follow service => { core with current := some service, pc := .idle }
  | .release todo _ => releaseLoop core todo false

/-- `setDNSServers`, with the servers to put back. -/
def Host.setBack (host : Host) (service : Service) (servers : Servers) : Host :=
  { host with
    dns := Function.update host.dns service servers
    setBy := Function.update host.setBy service none }

/-- `setDNSServers` by the core `p`, with `Address`. -/
def Host.point (host : Host) (p : Nat) (service : Service) : Host :=
  { host with
    dns := Function.update host.dns service [Address]
    setBy := Function.update host.setBy service (some p) }

/-! ## Commands -/

/-- The next command of the core `p`. `ok` says whether it succeeds; the commands on the state file that
succeed wait for the lock. -/
def command (alive : Nat → Bool) (p : Nat) (host : Host) (core : Memory) (ok : Bool) (order : List Service) : Host × Memory :=
  match core.pc with
  | .idle => (host, core)
  | .load prepare =>
    if ok = false then (host, replayed core prepare ∅)
    else if host.lock ≠ none then (host, core)
    else
      match host.file with
      | none => (host, replayed core prepare ∅)
      | some stored =>
        if stored.PID = p ∨ alive stored.PID = true then (host, replayed core prepare ∅)
        else if order.Perm stored.Services.keys then
          ({ host with lock := some p }, replayLoop core prepare stored order)
        else (host, core)
  | .replay prepare stored service todo =>
    if ok = true then
      (host.setBack service ((stored.Services.lookup service).getD []),
        replayLoop core prepare { stored with Services := stored.Services.erase service } todo)
    else (host, replayLoop core prepare stored todo)
  | .replayAlias prepare stored =>
    ({ host with aliasPresent := host.aliasPresent && !(stored.Alias && ok) },
      core.goto (.replayWrite prepare { stored with Alias := false }))
  | .replayWrite prepare stored =>
    if stored.Services.keys = [] then
      ({ host with file := if ok then none else host.file, lock := none }, replayed core prepare ∅)
    else
      ({ host with file := if ok then some stored else host.file, lock := none },
        replayed core prepare stored.Services)
  | .merge leftovers =>
    (host,
      { core with
        owned := ⟨p, core.owned.Alias || !host.aliasPresent, leftovers ∪ core.owned.Services⟩
        pc := .prepareSave })
  | .prepareSave =>
    if ok = false then (host, core.goto .idle)
    else if host.lock ≠ none then (host, core)
    else ({ host with file := some core.owned }, core.goto .prepareAdd)
  | .prepareAdd =>
    ({ host with aliasPresent := host.aliasPresent || (core.owned.Alias && ok) }, core.goto .idle)
  | .pointRead service =>
    if ok = false then (host, core.goto .idle)
    else
      let previous := host.dns service
      (host, core.goto (.pointSave service (if previous = [Address] then [] else previous)))
  | .pointSave service previous =>
    if ok = false then (host, core.goto .idle)
    else if host.lock ≠ none then (host, core)
    else
      let owned := { core.owned with Services := core.owned.Services.insert service previous }
      ({ host with file := some owned }, { core with owned := owned, pc := .pointSet service })
  | .pointSet service =>
    if ok = false then (host, core.goto .idle)
    else
      (host.point p service,
        match core.current with
        | none => { core with current := some service, pc := .idle }
        | some previous => core.goto (.restoreSet previous (.follow service)))
  | .restoreSet service next =>
    if ok = false then (host, restoredUnclean core next)
    else
      (host.setBack service ((core.owned.Services.lookup service).getD []),
        { core with
          owned := { core.owned with Services := core.owned.Services.erase service }
          pc := .restoreSave next })
  | .restoreSave next =>
    if ok = false then (host, restoredUnclean core next)
    else if host.lock ≠ none then (host, core)
    else ({ host with file := some core.owned }, restored core next)
  | .releaseAlias clean =>
    let removed := ok || !(core.owned.Alias && host.aliasPresent)
    ({ host with aliasPresent := host.aliasPresent && !(core.owned.Alias && ok) },
      { core with
        owned := { core.owned with Alias := false }
        pc :=
          if core.owned.Services.keys = [] then .releaseRemove (clean && removed)
          else .releaseSave (clean && removed) })
  | .releaseSave _ =>
    if ok = false then (host, core.goto .idle)
    else if host.lock ≠ none then (host, core)
    else ({ host with file := some core.owned }, core.goto .idle)
  | .releaseRemove _ =>
    if ok = false then (host, { core with owned := .empty, pc := .idle })
    else if host.lock ≠ none then (host, core)
    else
      ({ host with
          file :=
            match host.file with
            | none => none
            | some stored => if stored.PID = p then none else some stored },
        { core with owned := .empty, pc := .idle })

/-! ## Runs -/

inductive Event where
  | start (p : Nat) (root : Bool)
  | kill (p : Nat)
  | call (p : Nat) (call : Call)
  | next (p : Nat) (ok : Bool) (order : List Service)

/-- A core that has just started. -/
def Memory.fresh (root : Bool) : Memory := ⟨root, .empty, none, false, 0, .idle⟩

def World.setProc (w : World) (p : Nat) (proc : Process) : World :=
  { w with procs := Function.update w.procs p proc }

/-- The number is another core's now, which has pointed nothing. -/
def Host.taken (host : Host) (p : Nat) : Host :=
  { host with setBy := fun service => if host.setBy service = some p then some 0 else host.setBy service }

/-- A core starts under a number. -/
def World.started (w : World) (p : Nat) (root : Bool) : World :=
  { w.setProc p (.live (.fresh root)) with host := w.host.taken p }

/-- A step of one core. A call waits for the one before it. -/
def step (w : World) : Event → World
  | .start p root =>
    match w.procs p with
    | .live _ => w
    | _ => if p = 0 then w else w.started p root
  | .kill p =>
    match w.procs p with
    | .live _ =>
      { w.setProc p .dead with
        host := { w.host with lock := if w.host.lock = some p then none else w.host.lock } }
    | _ => w
  | .call p call =>
    match w.procs p with
    | .live core =>
      match core.pc with
      | .idle => w.setProc p (.live (begin core call))
      | _ => w
    | _ => w
  | .next p ok order =>
    match w.procs p with
    | .live core =>
      let (host, core) := command w.alive p w.host core ok order
      { (w.setProc p (.live core)) with host := host }
    | _ => w

/-- Before the first core: the user's own servers, no record, and the alias only if it is the user's. -/
def World.init (userDns : Service → Servers) (userAlias : Bool) : World :=
  ⟨⟨userDns, userAlias, none, none, fun _ => none⟩, fun _ => .unborn⟩

end Throne.Core.SysDns
