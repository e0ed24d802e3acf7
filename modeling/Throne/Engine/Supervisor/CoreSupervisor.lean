import Throne.Lib.Runs

/-!
# The core supervisor

`Engine::CoreSupervisor` lives on the main thread; the core process and its tasks live on the thread
`DS_cores`, which runs the posted tasks in order. `CoreProcess::Start` bumps the generation, so every
report of a process names the core it is about, and the main thread receives the reports in any
order: queued, twice, or about cores that were replaced since.

The texts of the supervisor (`lastFailure`, `lastCoreError`) are left out, as is the end of the
program. `exits`, `accepted`, `connections` and `started` record the history, `replaced` is the
newest generation that existed at a `postProcessRestart`, and `startTicket` numbers the assignments
of `m_startWhenUp`.
-/

namespace Throne.Engine.Supervisor

open Lib

/-- `Engine::CoreState`. -/
inductive CoreState where
  | notStarted
  | starting
  | connected
  | backoff
  | gaveUp
  | listenFailed
  | shuttingDown
deriving DecidableEq

/-- What the main thread posts to `DS_cores`. -/
inductive Task where
  | start
  | restart
  /-- The kill of `resetCore`. -/
  | resetKill
  /-- The kill of `killForPrivilegeChange`. -/
  | privilegeKill
  /-- The kill of `onConnectTimeout`; its exit is reported like any other. -/
  | timeoutKill (gen : Nat)

/-- One `coreStarted`: the core it is about and the start it hands over. -/
structure CoreStarted where
  gen : Nat
  profileId : Int
  ticket : Nat
  deriving DecidableEq

def kGiveUpAfter : Nat := 5

/-- `Configs::NoProfileId`. -/
def NoProfileId : Int := -1

/-- `kCoreIdentityExitCode`. -/
def kCoreIdentityExitCode : Int := 86

/-- The members of `CoreSupervisor`, of its process and `started_id` of the settings. -/
structure CoreSupervisor where
  state : CoreState
  tasks : List Task
  haveProcess : Bool
  generation : Nat
  expectedExitGen : Nat
  startWhenUp : Int
  startTicket : Nat
  /-- `setStartWhenUp` made the last assignment of `m_startWhenUp`. -/
  setByCaller : Bool
  probing : Bool
  failures : Nat
  startFailures : Nat
  handledExitGen : Nat
  acceptedGen : Nat
  connectGen : Nat
  timedOutGen : Nat
  restartTimer : Bool
  connectTimer : Bool
  connectedAt : Bool
  profileCrashTimer : Bool
  /-- The `restartDeadCore` calls that `killForPrivilegeChange` has queued. -/
  deadRestarts : Nat
  startedId : Int
  restartCount : Nat
  connections : List Nat
  accepted : List Nat
  exits : List Nat
  replaced : Nat
  started : List CoreStarted

/-- What an exit report finds: `identityUnsupported` of the kill switch, whether the core had been
connected for `kStableMs`, and whether the last crash is within `kProfileCrashWindowMs`. -/
structure ExitWorld where
  identityUnsupported : Bool
  stable : Bool
  crashWindow : Bool

namespace CoreSupervisor

variable (s : CoreSupervisor)

/-- An assignment of `m_startWhenUp` by the supervisor. -/
def waitFor (profileId : Int) : CoreSupervisor :=
  { s with startWhenUp := profileId, startTicket := s.startTicket + 1, setByCaller := false }

/-- `currentGeneration`. -/
def currentGeneration : Nat := if s.haveProcess then s.generation else 0

/-- `canStartCore`. -/
def canStartCore : Bool := s.state != .listenFailed && s.state != .shuttingDown

/-- `beginRestart`. -/
def beginRestart : CoreSupervisor :=
  { s with
    probing := false
    restartTimer := false
    connectTimer := false
    failures := 0
    startFailures := 0
    state := .starting }

/-- `postProcessRestart`. -/
def postProcessRestart : CoreSupervisor :=
  { s with
    handledExitGen := max s.handledExitGen s.currentGeneration
    restartCount := s.restartCount + 1
    tasks := s.tasks ++ [.restart]
    replaced := max s.replaced s.currentGeneration }

/-- `scheduleRestart`. -/
def scheduleRestart : CoreSupervisor :=
  { s with state := .backoff, restartTimer := true }

/-- `start`. -/
def start (startWhenUpProfileId : Int) : CoreSupervisor :=
  if s.state ≠ .notStarted then s
  else
    let s := if 0 ≤ startWhenUpProfileId then s.waitFor startWhenUpProfileId else s
    { s with state := .starting, tasks := s.tasks ++ [.start] }

/-- `resetCore`. -/
def resetCore : CoreSupervisor :=
  if s.canStartCore = false then s
  else if s.state = .backoff ∨ s.state = .gaveUp then
    { s.beginRestart.waitFor (-1) with startedId := NoProfileId }.postProcessRestart
  else { s.beginRestart with tasks := s.tasks ++ [.resetKill] }

/-- `restartNotListening`. -/
def restartNotListening (profileId : Int) : CoreSupervisor :=
  if s.canStartCore = false then s
  else (s.beginRestart.waitFor profileId).postProcessRestart

/-- `restartForGuard`. -/
def restartForGuard : CoreSupervisor :=
  if s.canStartCore = false then s else s.beginRestart.postProcessRestart

/-- `killForPrivilegeChange`. -/
def killForPrivilegeChange : CoreSupervisor :=
  if s.state = .listenFailed ∨ s.state = .shuttingDown then s
  else if s.state = .backoff ∨ s.state = .gaveUp then { s with deadRestarts := s.deadRestarts + 1 }
  else { s with tasks := s.tasks ++ [.privilegeKill] }

/-- `restartDeadCore`, with the `started_id` of the moment it runs. -/
def restartDeadCore : CoreSupervisor :=
  let s := { s with deadRestarts := s.deadRestarts - 1 }
  if s.state ≠ .backoff ∧ s.state ≠ .gaveUp then s
  else (s.beginRestart.waitFor s.startedId).postProcessRestart

/-- `setStartWhenUp`. -/
def setStartWhenUp (profileId : Int) : CoreSupervisor :=
  if s.haveProcess then { s.waitFor profileId with setByCaller := true } else s

/-- `cancelResume`. -/
def cancelResume : CoreSupervisor :=
  { s.waitFor (-1) with startedId := NoProfileId }

variable (gen : Nat)

/-- `emitCoreStarted` for the core `gen`. -/
def emitCoreStarted : CoreSupervisor :=
  { s with
    startFailures := 0
    started := s.started ++ [⟨gen, s.startWhenUp, s.startTicket⟩]
    startWhenUp := -1 }

/-- The core `gen` is let in. -/
def accept : CoreSupervisor :=
  { s with
    connections := s.connections ++ [gen]
    accepted := s.accepted ++ [gen]
    connectedAt := s.connectedAt || decide (s.acceptedGen < gen)
    acceptedGen := if s.acceptedGen < gen then gen else s.acceptedGen
    connectTimer := false
    state := .connected }

/-- `onNewConnection`; `verified` is the answer of `verifyCorePid`. -/
def onNewConnection (windows verified : Bool) : CoreSupervisor :=
  let gen := s.currentGeneration
  if verified = false then s
  else if gen ≤ s.handledExitGen ∨ gen ≤ s.timedOutGen then
    -- Its successor connects instead.
    { s with connections := s.connections ++ [gen] }
  else if windows then (s.accept gen).emitCoreStarted gen
  else { s.accept gen with probing := true }

/-- `onPrivilegeProbed`; a retry only refreshes what is cached. -/
def onPrivilegeProbed (ok rpcConnected : Bool) (attempt : Nat) :
    CoreSupervisor :=
  if (attempt = 0 ∧ s.probing = false) ∨ gen ≠ s.acceptedGen ∨ s.state ≠ .connected then s
  else if ok = false ∧ rpcConnected = false then s
  else if 0 < attempt then s
  else { s with probing := false }.emitCoreStarted gen

/-- `onCoreSpawned`. -/
def onCoreSpawned : CoreSupervisor :=
  if s.state ≠ .starting ∨ gen ≤ s.acceptedGen then s
  else { s with connectGen := gen, connectTimer := true }

/-- `onConnectTimeout`. -/
def onConnectTimeout : CoreSupervisor :=
  let s := { s with connectTimer := false }
  if s.state ≠ .starting then s
  else if s.connectGen ≤ s.acceptedGen ∨ s.connectGen ≠ s.currentGeneration then s
  else { s with timedOutGen := s.connectGen, tasks := s.tasks ++ [.timeoutKill s.connectGen] }

/-- What `onCoreExited` has start next after an exit that nobody asked for. -/
def nextStart (wasConnected tooFrequent : Bool) : CoreSupervisor :=
  -- A core that never connected never took the waiting start.
  if wasConnected = true ∨ s.startWhenUp < 0 then
    if tooFrequent = true ∧ 0 ≤ s.startedId then { s.waitFor (-1) with startedId := NoProfileId }
    else s.waitFor s.startedId
  else s

/-- The part of `onCoreExited` for an exit that nobody asked for. -/
def onUnexpectedExit (wasConnected : Bool) (out : ExitWorld) :
    CoreSupervisor :=
  let failures := (if wasConnected && s.connectedAt && out.stable then 0 else s.failures) + 1
  let startFailures := if wasConnected then s.startFailures else s.startFailures + 1
  let tooFrequent := wasConnected && s.profileCrashTimer && out.crashWindow
  let counted :=
    { s with
      failures := failures
      startFailures := startFailures
      profileCrashTimer := if wasConnected then !tooFrequent else s.profileCrashTimer }
  let s := counted.nextStart wasConnected tooFrequent
  if (kGiveUpAfter ≤ failures ∧ s.startWhenUp < 0) ∨
      (wasConnected = false ∧ kGiveUpAfter ≤ startFailures) then
    { s.waitFor (-1) with startedId := NoProfileId, state := .gaveUp }
  else s.scheduleRestart

/-- `wasProbing` of `onCoreExited`: the core never sent `coreStarted`. -/
def wasProbing : Bool := s.probing && gen == s.acceptedGen

/-- `wasConnected` of `onCoreExited`. -/
def wasConnected (failedToStart : Bool) : Bool := !failedToStart && gen == s.acceptedGen && !s.wasProbing gen

/-- The exit of `gen` is handled. -/
def markExited : CoreSupervisor :=
  { s with
    handledExitGen := gen
    exits := s.exits ++ [gen]
    probing := s.probing && !s.wasProbing gen
    connectTimer := false }

/-- The part of `onCoreExited` for a core that was killed on purpose. -/
def restartKilled (wasProbing : Bool) : CoreSupervisor :=
  let s := { s with failures := 0, startFailures := 0 }
  -- A start still waiting for the probing core carries over to the restarted one.
  if wasProbing = false ∨ s.startWhenUp < 0 then (s.waitFor s.startedId).scheduleRestart
  else s.scheduleRestart

/-- `onCoreExited`. -/
def onCoreExited (failedToStart : Bool) (exitCode : Int) (out : ExitWorld) : CoreSupervisor :=
  if gen ≤ s.handledExitGen then s
  else if s.expectedExitGen = gen then (s.markExited gen).restartKilled (s.wasProbing gen)
  else if s.wasConnected gen failedToStart = false ∧ exitCode = kCoreIdentityExitCode ∧
      out.identityUnsupported = false then
    (s.markExited gen).scheduleRestart
  else (s.markExited gen).onUnexpectedExit (s.wasConnected gen failedToStart) out

/-- `postRestart`, when the restart timer fires. -/
def postRestart : CoreSupervisor :=
  let s := { s with restartTimer := false }
  if s.state ≠ .backoff then s else { s with state := .starting }.postProcessRestart

/-- `DS_cores` runs a task. The stop before the restart of `resetCore` has no effect here, since
`resetCore` has cleared `started_id` itself. -/
def runTask : Task → CoreSupervisor
  | .start => { s with haveProcess := true, generation := s.generation + 1 }
  | .restart => if s.haveProcess then { s with generation := s.generation + 1 } else s
  | .resetKill =>
    if s.haveProcess then { s with startedId := NoProfileId, expectedExitGen := s.generation }
    else s
  | .privilegeKill => if s.haveProcess then { s with expectedExitGen := s.generation } else s
  | .timeoutKill _ => s

end CoreSupervisor

/-! ## Runs -/

inductive Event where
  | start (startWhenUpProfileId : Int)
  | coresTurn
  | coreSpawned (gen : Nat)
  | newConnection (verified : Bool)
  | privilegeProbed (gen : Nat) (ok rpcConnected : Bool) (attempt : Nat)
  | coreExited (gen : Nat) (failedToStart : Bool) (exitCode : Int) (out : ExitWorld)
  | connectTimeout
  | restartTick
  | deadRestart
  | resetCore
  | restartNotListening (profileId : Int)
  | restartForGuard
  | killForPrivilegeChange
  | setStartWhenUp (profileId : Int)
  | cancelResume
  /-- Another part of the program writes `started_id`. -/
  | startedIdSet (profileId : Int)

def step (windows : Bool) (s : CoreSupervisor) : Event → CoreSupervisor
  | .start profileId => s.start profileId
  | .coresTurn =>
    match s.tasks with
    | [] => s
    | task :: tasks => CoreSupervisor.runTask { s with tasks := tasks } task
  | .coreSpawned gen => s.onCoreSpawned gen
  | .newConnection verified => s.onNewConnection windows verified
  | .privilegeProbed gen ok rpcConnected attempt => s.onPrivilegeProbed gen ok rpcConnected attempt
  | .coreExited gen failedToStart exitCode out => s.onCoreExited gen failedToStart exitCode out
  | .connectTimeout => s.onConnectTimeout
  | .restartTick => s.postRestart
  | .deadRestart => s.restartDeadCore
  | .resetCore => s.resetCore
  | .restartNotListening profileId => s.restartNotListening profileId
  | .restartForGuard => s.restartForGuard
  | .killForPrivilegeChange => s.killForPrivilegeChange
  | .setStartWhenUp profileId => s.setStartWhenUp profileId
  | .cancelResume => s.cancelResume
  | .startedIdSet profileId => { s with startedId := profileId }

/-- When an event can occur. Reports are about cores that were started, a core whose process id is
verified is the current one, and each core connects at most once. Probe replies may come at any
time. -/
def Can (s : CoreSupervisor) : Event → Bool
  | .coresTurn => !s.tasks.isEmpty
  | .coreSpawned gen => decide (0 < gen) && decide (gen ≤ s.generation)
  | .coreExited gen _ _ _ => decide (0 < gen) && decide (gen ≤ s.generation)
  | .newConnection true =>
    s.haveProcess && decide (0 < s.generation) && !s.connections.contains s.generation
  | .connectTimeout => s.connectTimer
  | .restartTick => s.restartTimer
  | .deadRestart => decide (0 < s.deadRestarts)
  | _ => true

/-- The supervisor after `listen`. -/
def listened (listening : Bool) : CoreSupervisor :=
  { state := if listening then .notStarted else .listenFailed
    tasks := [], haveProcess := false, generation := 0, expectedExitGen := 0, startWhenUp := -1,
    startTicket := 0, setByCaller := false, probing := false, failures := 0, startFailures := 0,
    handledExitGen := 0, acceptedGen := 0, connectGen := 0, timedOutGen := 0,
    restartTimer := false, connectTimer := false, connectedAt := false,
    profileCrashTimer := false, deadRestarts := 0, startedId := -1, restartCount := 0,
    connections := [], accepted := [], exits := [], replaced := 0, started := [] }

end Throne.Engine.Supervisor
