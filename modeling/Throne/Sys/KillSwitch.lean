import Throne.Lib.Runs
import Throne.Lib.Texts

/-!
# The kill switch

`Sys::KillSwitch` runs one or two guard processes: the guard in `active_` blocks every packet that
does not pass through the program, and the guard in `pending_` is to replace it once it reports
`READY`. The switch lives on the main thread, so each signal, timer and call is one step. The
events of a guard keep arriving after the switch has closed it; a guard is never forgotten here, it
is the position in the list of all guards started so far.

What the surroundings decide during a step is part of the event: whether `QProcess::start` fails at
once, as it does on Windows, and whether the respawn interval has passed.
-/

namespace Throne.Sys

open Lib.Texts

/-! ## Texts and codes -/

/-- `text.section(' ', 0, 0)`. -/
def firstWord (text : List Char) : String := String.ofList (text.takeWhile (· != ' '))

/-- `text.section(' ', 1)`. -/
def afterFirst (text : List Char) : List Char := (text.dropWhile (· != ' ')).drop 1

def kPrivilege : String := "privilege"
def kUnsupported : String := "unsupported"
def kConfig : String := "config"
def kInternal : String := "internal"
def kCrash : String := "crash"
def kTimeout : String := "timeout"
def kOverridden : String := "overridden"

/-- A failure that another guard may not run into. -/
def recoverable (code : String) : Bool := code != kPrivilege && code != kUnsupported && code != kConfig

/-- `killSwitchIdentityMessage`. -/
def killSwitchIdentityMessage (detail : String) : String :=
  "the core cannot adopt the kill-switch group 1950896719 here (it needs CAP_SETGID and that GID " ++
    "mapped in this user namespace); the kill switch keeps blocking traffic, and profiles stay " ++
    "refused until kill_switch is turned off" ++
    (if detail.isEmpty then "" else "; the core reported: " ++ detail)

def overriddenMessage : String :=
  "turned off for this run by --no-kill-switch (THRONE_KILL_SWITCH); profiles stay refused " ++
    "until kill_switch is turned off"

/-! ## Settings and guards -/

/-- The settings the switch reads. -/
structure Settings where
  killSwitch : Bool
  disablePrivateRangeBypass : Bool
  vpnTunIpv4Cidr : String
  vpnTunIpv6Cidr : String
  vpnL3Bridge : Bool
  extraCorePaths : List String

inductive Os where
  | windows
  | linux
  | macos
deriving DecidableEq

/-- The machine: its system, `nativePath`, which resolves a path against the working directory, the
case folding of `Qt::CaseInsensitive` and the path of the core's executable. -/
structure Host where
  os : Os
  nativePath : String → String
  foldCase : String → String
  corePath : String

/-- What a guard is started with. The source keeps the compact JSON text of this object; two texts
are equal exactly when the fields are. -/
structure GuardConfig where
  allowLan : Bool
  tunName : String
  tunCidrs : List String
  extraPaths : List String
  bridgeName : String
  apiPort : UInt16
deriving DecidableEq

def Host.tunName (host : Host) : String := if host.os = .macos then "" else "throne-tun"

def Host.bridgeName (host : Host) (settings : Settings) : String :=
  if host.os = .linux ∧ settings.vpnL3Bridge = true then "throne-br" else ""

/-- The native forms of the extra core paths, each kept once up to case; Windows only. -/
def Host.extraPaths (host : Host) (settings : Settings) : List String :=
  if host.os = .windows then
    settings.extraCorePaths.foldl (fun paths path =>
      let native := host.nativePath path
      if native.isEmpty || paths.any (fun p => host.foldCase p == host.foldCase native) then paths
      else paths ++ [native]) []
  else []

/-- `buildConfig`. -/
def Host.buildConfig (host : Host) (settings : Settings) (apiPort : UInt16) : GuardConfig :=
  { allowLan := !settings.disablePrivateRangeBypass
    tunName := host.tunName
    tunCidrs := [settings.vpnTunIpv4Cidr, settings.vpnTunIpv6Cidr]
    extraPaths := host.extraPaths settings
    bridgeName := host.bridgeName settings
    apiPort := apiPort }

/-- `QProcess::ProcessState`. -/
inductive ProcessState where
  | notRunning
  | starting
  | running
deriving DecidableEq

/-- `GuardProcess`. The guard reads `config`, with `keep_states` added when it replaces a guard that
is in force, and it removes its rules once its input is closed. -/
structure Guard where
  config : GuardConfig
  keepStates : Bool
  process : ProcessState
  readyTimer : Bool
  inputOpen : Bool
  ready : Bool
  closing : Bool

/-- A guard whose process has just been asked to start. -/
def Guard.fresh (config : GuardConfig) (keepStates : Bool) : Guard :=
  { config, keepStates, process := .starting, readyTimer := true, inputOpen := true,
    ready := false, closing := false }

/-- `closeGuard` on one guard. -/
def Guard.close (guard : Guard) : Guard :=
  if guard.closing then guard
  else
    { guard with
      closing := true
      readyTimer := false
      inputOpen := if guard.process = .notRunning then guard.inputOpen else false }

/-- What `onReady` writes to the guard that reported. -/
def Guard.armed (guard : Guard) : Guard := { guard with ready := true, readyTimer := false }

/-- The process is over: it exited, or it never started. -/
def Guard.over (guard : Guard) : Guard :=
  { guard with closing := true, readyTimer := false, process := .notRunning }

/-! ## The switch -/

/-- `KillSwitch::State`. -/
inductive State where
  | disabled
  | arming
  | armed
  | failed
deriving DecidableEq

/-- `KillSwitch::Waiter`; the callback is the ticket under which the answer is recorded. -/
structure Waiter where
  context : Option Nat
  idle : Bool
  ticket : Nat

/-- The members of `KillSwitch` with the settings, the API port, the queued `SetApiPort` turns and
the running respawn timers. -/
structure KillSwitch where
  settings : Settings
  prepareExit : Bool
  apiPort : UInt16
  portTurns : Nat
  respawnTurns : Nat
  overridden : Bool
  identityUnsupported : Bool
  identityDetail : String
  guards : List Guard
  active : Option Nat
  pending : Option Nat
  state : State
  failureCode : String
  failureMessage : String
  lastRespawn : Bool
  waiters : List Waiter
  gone : List Nat
  answers : List (Nat × Bool)

/-- What the surroundings answer during one step: the error of a process that fails to start at
once, and whether `lastRespawn_` has run for the respawn interval. -/
structure Outside where
  startError : Option String
  respawnExpired : Bool

namespace KillSwitch

variable (s : KillSwitch)

/-- `allowsStart`. -/
def allowsStart : Bool := s.state == .disabled || s.state == .armed

def updateGuard (g : Nat) (f : Guard → Guard) : KillSwitch :=
  { s with guards := s.guards.modify g f }

/-- The guard's `closing` flag; what never existed counts as closed. -/
def isClosing (g : Nat) : Bool := (s.guards[g]?).all Guard.closing

/-- The guard's `ready` flag. -/
def isReady (g : Nat) : Bool := (s.guards[g]?).any Guard.ready

/-- `closeGuard`. -/
def closeGuard : Option Nat → KillSwitch
  | none => s
  | some g => s.updateGuard g Guard.close

/-- `closeGuard(std::exchange(pending_, nullptr))`. -/
def closePending : KillSwitch :=
  closeGuard { s with pending := none } s.pending

/-- `closeGuard(std::exchange(active_, nullptr))`. -/
def closeActive : KillSwitch :=
  closeGuard { s with active := none } s.active

/-- `setState`. -/
def setState (state : State) : KillSwitch :=
  if state = .failed then { s with state := .failed }
  else { s with state := state, failureCode := "", failureMessage := "" }

/-- The waiter stays in the list: an idle one while a guard is pending, another while arming. -/
def waits (w : Waiter) : Bool :=
  if w.idle then s.pending.isSome else s.state == .arming

/-- `settle`: a waiter whose context is destroyed is dropped without a call. -/
def settle : KillSwitch :=
  let served := s.waiters.filter fun w => !s.waits w
  let called := served.filter fun w => w.context.all fun c => !s.gone.contains c
  { s with
    waiters := s.waiters.filter s.waits
    answers := s.answers ++ called.map fun w => (w.ticket, s.state == .armed) }

/-- `fail`. -/
def fail (code message : String) : KillSwitch :=
  settle (setState { s with failureCode := code, failureMessage := message } .failed)

/-- `failIdentity`. -/
def failIdentity : KillSwitch :=
  let message := killSwitchIdentityMessage s.identityDetail
  if s.state ≠ .failed ∨ s.failureCode ≠ kUnsupported ∨ s.failureMessage ≠ message then
    settle (setState { s with failureCode := kUnsupported, failureMessage := message } .failed)
  else settle s

/-- `armFailed`: the guard in force stays, and what may work later is tried again. -/
def armFailed (code message : String) : KillSwitch :=
  if s.active.isSome then
    settle (if recoverable code then { s with respawnTurns := s.respawnTurns + 1 } else s)
  else fail s code message

/-- `onStartFailed`. -/
def onStartFailed (host : Host) (s : KillSwitch) (g : Nat) (errorString : String) : KillSwitch :=
  let message := "could not start " ++ host.corePath ++ ": " ++ errorString
  if !s.isClosing g && s.pending == some g then
    armFailed (updateGuard { s with pending := none } g Guard.over) kInternal message
  else s.updateGuard g Guard.over

/-- The part of `spawn` before `QProcess::start`: the new guard is pending, and the state is Arming
unless a guard is in force or the identity failure keeps it Failed. -/
def addGuard (config : GuardConfig) : KillSwitch :=
  let s := s.closePending
  let s :=
    { s with
      guards := s.guards ++ [Guard.fresh config s.active.isSome]
      pending := some s.guards.length }
  if s.active = none ∧ s.identityUnsupported = false then s.setState .arming else s

/-- `spawn`. -/
def spawn (host : Host) (s : KillSwitch) (config : GuardConfig) (out : Outside) : KillSwitch :=
  match out.startError with
  | none => s.addGuard config
  | some error => onStartFailed host (s.addGuard config) s.guards.length error

/-- `apply`. -/
def apply (host : Host) (s : KillSwitch) (out : Outside) : KillSwitch :=
  if s.settings.killSwitch = false then
    let s := { s with identityUnsupported := false, identityDetail := "" }
    settle (setState s.closePending.closeActive .disabled)
  else if s.overridden = true then
    let s := s.closePending.closeActive
    if s.state = .failed ∧ s.failureCode = kOverridden ∧ s.failureMessage = overriddenMessage then
      settle s
    else fail s kOverridden overriddenMessage
  else
    let s := if s.identityUnsupported = true ∧ s.state = .armed then s.failIdentity else s
    let config := host.buildConfig s.settings s.apiPort
    if (s.pending.bind fun g => s.guards[g]?).any (·.config = config) then s
    else if (s.active.bind fun g => s.guards[g]?).any (·.config = config) then
      if s.pending.isSome then settle s.closePending else s
    else s.spawn host config out

/-- `protectionLost`. -/
def protectionLost (host : Host) (s : KillSwitch) (code message : String) (out : Outside) :
    KillSwitch :=
  if s.settings.killSwitch = false then s.apply host out
  else if s.pending.isSome then
    settle (if s.identityUnsupported then s else s.setState .arming)
  else if recoverable code && (!s.lastRespawn || out.respawnExpired) then
    let s := { s with lastRespawn := true }
    s.spawn host (host.buildConfig s.settings s.apiPort) out
  else fail s code message

/-- `onReady`. -/
def onReady (g : Nat) : KillSwitch :=
  if s.pending ≠ some g ∨ s.isReady g = true then s
  else
    let previous := s.active
    let s := s.updateGuard g Guard.armed
    let s := closeGuard { s with active := some g, pending := none } previous
    if s.identityUnsupported then s.failIdentity else settle (s.setState .armed)

/-- The end of `handleLine` and of `onFinished`: the guard `g` leaves its slot, `close` is done to it,
and the loss is reported. -/
def lost (host : Host) (s : KillSwitch) (g : Nat) (close : Guard → Guard) (code lostMessage failedMessage : String) (out : Outside) : KillSwitch :=
  let wasActive := s.active == some g
  let wasPending := s.pending == some g
  let s :=
    updateGuard
      { s with
        active := if wasActive then none else s.active
        pending := if wasPending then none else s.pending } g close
  if wasActive then s.protectionLost host code lostMessage out
  else if wasPending then s.armFailed code failedMessage
  else s

/-- `handleLine`, on a trimmed line. -/
def handleLine (host : Host) (s : KillSwitch) (g : Nat) (line : List Char) (out : Outside) :
    KillSwitch :=
  let verb := firstWord line
  let rest := afterFirst line
  if verb = "WARN" then s
  else if verb = "READY" then s.onReady g
  else if verb ≠ "ERROR" ∧ verb ≠ "FAIL" then s
  else if s.isClosing g then s
  else
    let message := String.ofList (afterFirst rest)
    lost host s g Guard.close (firstWord rest) message message out

/-- One turn of the loop of `readOutput`. -/
def readLine (host : Host) (s : KillSwitch) (g : Nat) (text : List Char) (out : Outside) :
    KillSwitch :=
  if (trimmed text).isEmpty then s else s.handleLine host g (trimmed text) out

/-- `onReadyTimeout`. The state of the process changes only when its exit is reported. -/
def onReadyTimeout (g : Nat) : KillSwitch :=
  if s.pending ≠ some g ∨ s.isReady g = true then s
  else
    armFailed (closeGuard { s with pending := none } (some g)) kTimeout
      "the kill switch did not respond within 15 seconds"

/-- `onFinished`: the output that is left is read first. -/
def onFinished (host : Host) (s : KillSwitch) (g : Nat) (drained : List (List Char)) (exitCode : Int) (crashed : Bool) (out : Outside) : KillSwitch :=
  let s := drained.foldl (fun s text => s.readLine host g text out) s
  if s.isClosing g then s.updateGuard g Guard.over
  else
    let how :=
      if crashed then "the kill switch process crashed"
      else "the kill switch process exited with code " ++ toString exitCode
    lost host s g Guard.over kCrash how (how ++ " before it was ready") out

/-- `noteIdentityUnsupported`. -/
def noteIdentityUnsupported (host : Host) (s : KillSwitch) (detail : String) (out : Outside) :
    KillSwitch :=
  apply host { s with identityDetail := detail, identityUnsupported := true } out

/-- `SetApiPort`: a changed port queues a turn on the main thread. -/
def setApiPort (port : UInt16) : KillSwitch :=
  if s.apiPort = port then s else { s with apiPort := port, portTurns := s.portTurns + 1 }

/-- The turn that `SetApiPort` queued. -/
def portTurn (host : Host) (s : KillSwitch) (out : Outside) : KillSwitch :=
  let s := { s with portTurns := s.portTurns - 1 }
  if s.state ≠ .arming ∧ s.state ≠ .armed ∧ s.active = none ∧ s.pending = none then s
  else if s.prepareExit then s
  else s.apply host out

/-- The timer that `armFailed` started. -/
def respawnTurn (host : Host) (s : KillSwitch) (out : Outside) : KillSwitch :=
  let s := { s with respawnTurns := s.respawnTurns - 1 }
  if s.pending ≠ none ∨ s.active = none then s
  else if s.prepareExit then s
  else s.apply host out

/-- `whenSettled`. -/
def whenSettled (context : Option Nat) (ticket : Nat) : KillSwitch :=
  if s.state ≠ .arming then { s with answers := s.answers ++ [(ticket, s.state == .armed)] }
  else { s with waiters := s.waiters ++ [⟨context, false, ticket⟩] }

/-- `whenIdle`; the switch itself is the context and is never destroyed. -/
def whenIdle (ticket : Nat) : KillSwitch :=
  if s.pending = none then { s with answers := s.answers ++ [(ticket, s.state == .armed)] }
  else { s with waiters := s.waiters ++ [⟨none, true, ticket⟩] }

end KillSwitch

/-! ## Runs -/

/-- One turn of the main thread, or the call of `SetApiPort` on a worker. A change of the settings
is one step with the `apply` that follows it. -/
inductive Event where
  | apply (settings : Settings) (out : Outside)
  | started (g : Nat)
  | line (g : Nat) (text : List Char) (out : Outside)
  | finished (g : Nat) (drained : List (List Char)) (exitCode : Int) (crashed : Bool)
      (out : Outside)
  | startFailed (g : Nat) (errorString : String)
  | readyTimeout (g : Nat)
  | noteIdentityUnsupported (detail : String) (out : Outside)
  | setApiPort (port : UInt16)
  | portTurn (out : Outside)
  | respawnTurn (out : Outside)
  | prepareExit
  | whenSettled (context : Option Nat) (ticket : Nat)
  | whenIdle (ticket : Nat)
  | contextGone (context : Nat)

def step (host : Host) (s : KillSwitch) : Event → KillSwitch
  | .apply settings out => KillSwitch.apply host { s with settings := settings } out
  | .started g => s.updateGuard g fun guard => { guard with process := .running }
  | .line g text out => s.readLine host g text out
  | .finished g drained exitCode crashed out => s.onFinished host g drained exitCode crashed out
  | .startFailed g errorString => s.onStartFailed host g errorString
  | .readyTimeout g =>
    (s.updateGuard g fun guard => { guard with readyTimer := false }).onReadyTimeout g
  | .noteIdentityUnsupported detail out => s.noteIdentityUnsupported host detail out
  | .setApiPort port => s.setApiPort port
  | .portTurn out => s.portTurn host out
  | .respawnTurn out => s.respawnTurn host out
  | .prepareExit => { s with prepareExit := true }
  | .whenSettled context ticket => s.whenSettled context ticket
  | .whenIdle ticket => s.whenIdle ticket
  | .contextGone context => { s with gone := context :: s.gone }

/-- The process of guard `g` is in the state `p`. -/
def KillSwitch.processIs (s : KillSwitch) (g : Nat) (p : ProcessState) : Bool :=
  (s.guards[g]?).any fun guard => guard.process = p

/-- When an event can occur. `QProcess` reports a start or a failed start only of a process that
starts, and output and an exit only of one that runs; the flags of the guard play no part, so a
guard that was closed is heard like any other. -/
def Can (s : KillSwitch) : Event → Bool
  | .started g => s.processIs g .starting
  | .startFailed g _ => s.processIs g .starting
  | .line g _ _ => s.processIs g .running
  | .finished g _ _ _ _ => s.processIs g .running
  | .readyTimeout g => (s.guards[g]?).any Guard.readyTimer
  | .portTurn _ => 0 < s.portTurns
  | .respawnTurn _ => 0 < s.respawnTurns
  | _ => true

/-- The switch as `instance` builds it, after `setOverride`. -/
def built (settings : Settings) (apiPort : UInt16) (overridden : Bool) : KillSwitch :=
  { settings, prepareExit := false, apiPort, portTurns := 0, respawnTurns := 0, overridden,
    identityUnsupported := false, identityDetail := "", guards := [], active := none,
    pending := none, state := .disabled, failureCode := "", failureMessage := "",
    lastRespawn := false, waiters := [], gone := [], answers := [] }

/-- The switch after the `apply` of the program's start. -/
def begun (host : Host) (settings : Settings) (apiPort : UInt16) (overridden : Bool) (out : Outside) : KillSwitch :=
  (built settings apiPort overridden).apply host out

end Throne.Sys
