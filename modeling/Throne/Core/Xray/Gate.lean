import Throne.Lib.Runs

/-!
# The lazy Xray gate

`Gate` keeps the inbound ports open and starts the Xray instance on the first connection; a sweeper
takes an idle instance down, and `Close` ends the gate. The goroutines of the handled connections, of
the sweeper and of the call of `Close` that finds the gate open take their atomic steps in any order; a
section under one of the two mutexes is one step. Instances are numbered in the order in which they
are created, and the targets that belong to an instance stand by its number.

`created`, `started`, `closes` and `closedConns` record the history.
-/

namespace Throne.Core.Xray

open Lib

/-- A connection of the handler `h`: the accepted one, or the one to the instance. -/
inductive Conn where
  | client (h : Nat)
  | upstream (h : Nat)
deriving DecidableEq

/-- What the next step of `handle` is; an instance number stands for the targets that `ensure`
returned. -/
inductive HandlePc where
  /-- To track the connection. -/
  | accepted
  /-- To count the connection. -/
  | tracked
  /-- To touch the gate. -/
  | counted
  /-- To ensure an instance. -/
  | touched
  /-- To dial. -/
  | ensured (inst : Nat)
  /-- To track the connection to the instance. -/
  | dialed (inst : Nat)
  /-- To relay until both directions are done, and then to forget that connection. -/
  | relaying (inst : Nat)
  /-- To close that connection. -/
  | forgotUpstream (inst : Nat)
  /-- To uncount the connection. -/
  | leaving (inst : Option Nat)
  /-- To touch the gate again. -/
  | uncounted
  /-- To forget the connection. -/
  | untouched
  /-- To close the connection. -/
  | forgotClient
  | done

inductive SweeperPc where
  | waiting
  /-- `idleNow` held without the lock. -/
  | checked
  /-- The instance is taken out and is to be closed. -/
  | closing (inst : Nat)
  | ended

/-- What the `Close` that found the gate open does next, with the instance it took. -/
inductive CloserPc where
  | notCalled
  | marked (inst : Option Nat)
  | signalled (inst : Option Nat)
  | unbridged (inst : Option Nat)
  | closingConns (inst : Option Nat) (conns : List Conn)
  | returned
deriving DecidableEq

/-- Who closed an instance. -/
inductive Closer where
  | start
  | sweep
  | close
deriving DecidableEq

structure Gate where
  idle : Nat
  now : Nat
  lastUse : Nat
  closed : Bool
  inst : Option Nat
  /-- When the last start failed, if the last one did. -/
  failedAt : Option Nat
  stopped : Bool
  bridgesOpen : Bool
  /-- `none` once the gate is closed. -/
  conns : Option (List Conn)
  active : Int
  handles : List HandlePc
  sweeper : SweeperPc
  closer : CloserPc
  created : Nat
  started : List Nat
  closes : List (Nat × Closer)
  closedConns : List Conn

/-- How one `startInstance` ends. `created` says that an instance existed, which it then closes;
`addrInUse` is what `isAddrInUse` says about its error. -/
inductive Attempt where
  | started
  | failed (created addrInUse : Bool)

def gateStartAttempts : Nat := 3

/-- `gateStartCooldown`, in the unit of the clock. -/
def gateStartCooldown : Nat := 1000000000

namespace Gate

variable (g : Gate)

/-- `touch`. -/
def touch : Gate := { g with lastUse := g.now }

/-- `track`, and whether the connection is tracked. -/
def track (conn : Conn) : Gate × Bool :=
  match g.conns with
  | none => (g, false)
  | some conns => ({ g with conns := some (conns ++ [conn]) }, true)

/-- `forget`. -/
def forget (conn : Conn) : Gate :=
  { g with conns := g.conns.map fun conns => conns.filter (· ≠ conn) }

def closeConn (conn : Conn) : Gate :=
  { g with closedConns := g.closedConns ++ [conn] }

def closeInstance (i : Nat) (closer : Closer) : Gate :=
  { g with closes := g.closes ++ [(i, closer)] }

/-- The start loop of `ensure`, with the attempts that are left. -/
def tryStart (g : Gate) : Nat → List Attempt → Gate × Option Nat
  | attempts + 1, .failed created addrInUse :: rest =>
    let g :=
      if created then { g with created := g.created + 1 }.closeInstance g.created .start else g
    if addrInUse then g.tryStart attempts rest else ({ g with failedAt := some g.now }, none)
  | _ + 1, .started :: _ =>
    ({ g with
        inst := some g.created
        failedAt := none
        created := g.created + 1
        started := g.started ++ [g.created] },
      some g.created)
  | _, _ => ({ g with failedAt := some g.now }, none)

/-- `ensure`, with the instance whose targets it returns. -/
def ensure (attempts : List Attempt) : Gate × Option Nat :=
  if g.closed then (g, none)
  else
    match g.inst with
    | some i => (g, some i)
    | none =>
      -- Connections queued behind a failed start share its error.
      match g.failedAt with
      | some failedAt =>
        if g.now - failedAt < gateStartCooldown then (g, none)
        else g.tryStart gateStartAttempts attempts
      | none => g.tryStart gateStartAttempts attempts

/-- `idleNow`. -/
def idleNow : Bool := decide (0 < g.idle) && g.active == 0 && decide (g.idle ≤ g.now - g.lastUse)

def setPc (h : Nat) (pc : HandlePc) : Gate := { g with handles := g.handles.set h pc }

/-- The next step of the handler `h`, which is at `pc`. -/
def handleStep (h : Nat) (attempts : List Attempt) (dialed : Bool) : HandlePc → Gate
  | .accepted =>
    let (g, tracked) := g.track (.client h)
    if tracked then g.setPc h .tracked else g.setPc h .forgotClient
  | .tracked => { g with active := g.active + 1 }.setPc h .counted
  | .counted => g.touch.setPc h .touched
  | .touched =>
    let (g, targets) := g.ensure attempts
    match targets with
    | some i => g.setPc h (.ensured i)
    | none => g.setPc h (.leaving none)
  | .ensured i => if dialed then g.setPc h (.dialed i) else g.setPc h (.leaving (some i))
  | .dialed i =>
    let (g, tracked) := g.track (.upstream h)
    if tracked then g.setPc h (.relaying i) else g.setPc h (.forgotUpstream i)
  | .relaying i => (g.forget (.upstream h)).setPc h (.forgotUpstream i)
  | .forgotUpstream i => (g.closeConn (.upstream h)).setPc h (.leaving (some i))
  | .leaving _ => { g with active := g.active - 1 }.setPc h .uncounted
  | .uncounted => g.touch.setPc h .untouched
  | .untouched => (g.forget (.client h)).setPc h .forgotClient
  | .forgotClient => (g.closeConn (.client h)).setPc h .done
  | .done => g

/-- The next step of `sweep`; `tick` is the branch of its `select` where both are ready. -/
def sweepStep (tick : Bool) : Gate :=
  match g.sweeper with
  | .waiting =>
    if tick then (if g.idleNow then { g with sweeper := .checked } else g)
    else if g.stopped then { g with sweeper := .ended }
    else g
  | .checked =>
    -- Rechecked under the lock.
    if g.idleNow then
      { g with
        inst := none
        sweeper :=
          match g.inst with
          | some i => .closing i
          | none => .waiting }
    else { g with sweeper := .waiting }
  | .closing i => { g.closeInstance i .sweep with sweeper := .waiting }
  | .ended => g

/-- A call of `Close`, or the next step of the one that found the gate open; `conn` is the connection
it closes next, if one is left. -/
def closeStep (conn : Conn) : Gate :=
  match g.closer with
  | .notCalled =>
    { g with closed := true, inst := none, closer := .marked g.inst }
  | .marked i => { g with stopped := true, closer := .signalled i }
  | .signalled i => { g with bridgesOpen := false, closer := .unbridged i }
  | .unbridged i => { g with conns := none, closer := .closingConns i (g.conns.getD []) }
  | .closingConns i conns =>
    if conn ∈ conns then
      { g.closeConn conn with closer := .closingConns i (conns.filter (· ≠ conn)) }
    else if conns.isEmpty = false then g
    else
      match i with
      | some i => { g.closeInstance i .close with closer := .returned }
      | none => { g with closer := .returned }
  | .returned => g

end Gate

/-! ## Runs -/

inductive Event where
  | tick (elapsed : Nat)
  | accept
  | handle (h : Nat) (attempts : List Attempt) (dialed : Bool)
  | sweep (tick : Bool)
  | close (conn : Conn)

def step (g : Gate) : Event → Gate
  | .tick elapsed => { g with now := g.now + elapsed }
  | .accept => if g.bridgesOpen then { g with handles := g.handles ++ [.accepted] } else g
  | .handle h attempts dialed =>
    match g.handles[h]? with
    | some pc => g.handleStep h attempts dialed pc
    | none => g
  | .sweep tick => g.sweepStep tick
  | .close conn => g.closeStep conn

/-- The gate after `StartGate`. -/
def startGate (idle now : Nat) : Gate :=
  { idle := idle, now := now, lastUse := now, closed := false, inst := none, failedAt := none,
    stopped := false, bridgesOpen := true, conns := some [], active := 0, handles := [],
    sweeper := .waiting, closer := .notCalled, created := 0, started := [], closes := [],
    closedConns := [] }

end Throne.Core.Xray
