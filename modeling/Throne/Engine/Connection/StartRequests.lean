import Throne.Lib.Lists
import Throne.Sys.KillSwitch
import Mathlib.Data.List.Infix

/-!
# Start requests

`ConnectionManager::start` and the five places where a start request waits: the direct DNS
selection, `m_killSwitchDeferredStart`, `m_coreStartRequest`, a ranking of the auto selector and the
start worker. All of it runs on the main thread but the worker, whose answers are queued there.

A step is one call or one signal on the main thread, or one move of a worker. What the manager reads
of other objects during a step is a `World`: the profile and its group, the settings, the kill
switch, the core supervisor and the auto selector may answer anything at each step. A prompt that
the provider policy raises inside `start` is part of the step. The runs are those of a program that
is not torn down.

Serials are chosen by callers and need not differ, so every accepted request gets a ticket: its
place in `accepted`.
-/

namespace Throne.Engine.Connection

open Lib

/-- `Engine::StartOutcome`. -/
inductive StartOutcome where
  | started
  | exiting
  | notFound
  | groupUnavailable
  | killSwitchInactive
  | superseded
  | coreUnavailable
  | buildFailed
  | busy
  | extraCoreBlocked
  | geoAssetsMissing
  | strictRouteUnavailable
  | tunFailed
  | startFailed
  deriving DecidableEq

/-- `Engine::StartRequest`; `ticket` tells requests with the same serial apart. -/
structure StartRequest where
  profileId : Int
  interactive : Bool
  serial : Nat
  dnsChecked : Bool
  ticket : Nat

/-- `StartRequest{}`: an empty slot. -/
def StartRequest.none : StartRequest := ⟨-1, true, 0, false, 0⟩

/-- `StartRequest{id}` with the rest of the fields. -/
def StartRequest.of (id : Int) (interactive : Bool) (serial : Nat) (ticket : Nat) : StartRequest := ⟨id, interactive, serial, false, ticket⟩

/-- One `startFinished`. -/
structure Answer where
  ticket : Nat
  serial : Nat
  profileId : Int
  outcome : StartOutcome
  error : String
  deriving DecidableEq

/-- `m_dnsSelect`: alive from its start until `deleteLater` runs; the request is in its lambda until
`Selected`. -/
structure DnsSelect where
  request : StartRequest
  emitted : Bool

/-- The thread that `start` begins: it holds the request, then has its `startFinished` queued. -/
structure Worker where
  request : StartRequest
  finish : Option (StartOutcome × String)

/-- What the manager reads of the rest of the program during one step. -/
structure World where
  prepareExit : Bool
  /-- `GetProfile(request.profileId)` finds the profile. -/
  profileFound : Bool
  /-- The group exists and is not archived. -/
  groupAvailable : Bool
  directDnsAuto : Bool
  useDnsObject : Bool
  serverName : String
  /-- `serverName` parses as an address. -/
  serverIsAddress : Bool
  spmodeVpn : Bool
  killSwitch : Sys.State
  killSwitchFailure : String
  /-- `kGuardRestartWindowMs` has passed since `m_guardCoreRestart` was started. -/
  guardWindowExpired : Bool
  /-- `m_process` of the supervisor exists. -/
  haveProcess : Bool
  coreRunning : Bool
  guardIdentity : Bool
  identityUnsupported : Bool
  windows : Bool
  awaitingCoreStarted : Bool
  canStartCore : Bool
  lastFailure : String
  startedId : Int
  /-- The answer of `rankBeforeStart`. -/
  rankBeforeStart : Bool
  buildError : String
  tunRestoreHeld : Bool
  tunHoldWhy : String

/-- `runningWithoutGuardIdentity`. -/
def World.runningWithoutGuardIdentity (w : World) : Bool :=
  !w.windows && !w.identityUnsupported && w.haveProcess && w.coreRunning && !w.guardIdentity

/-- The members of `ConnectionManager` that decide what happens to a request, with `m_startWhenUp`
of the supervisor and the `whenSettled` callbacks that the kill switch holds. -/
structure ConnectionManager where
  dnsSelect : Option DnsSelect
  killSwitchDeferredStart : StartRequest
  settledCallbacks : Nat
  coreStartRequest : StartRequest
  bootSerial : Nat
  startWhenUp : Int
  guardCoreRestart : Bool
  killSwitchWasFailed : Bool
  killSwitchWasArmed : Bool
  muStarting : Bool
  muStopping : Bool
  rankings : List StartRequest
  workers : List Worker
  queuedCancels : Nat
  accepted : List Nat
  answers : List Answer

namespace ConnectionManager

variable (s : ConnectionManager) (r : StartRequest)

/-- `emit startFinished`. -/
def answer (outcome : StartOutcome) (error : String) :
    ConnectionManager :=
  { s with answers := s.answers ++ [⟨r.ticket, r.serial, r.profileId, outcome, error⟩] }

/-- `failStart`; the dialog or the log line follows the answer. -/
def failStart (outcome : StartOutcome) (error : String) : ConnectionManager := s.answer r outcome error

/-- A new request takes the next ticket. -/
def accept (serial : Nat) : ConnectionManager :=
  { s with accepted := s.accepted ++ [serial] }

/-- `deferStartToCore`. -/
def deferStartToCore : ConnectionManager :=
  let s :=
    if 0 ≤ s.coreStartRequest.profileId then s.answer s.coreStartRequest .superseded "" else s
  { s with coreStartRequest := r }

variable (w : World)

/-- `guardRestartPending`. -/
def guardRestartPending : Bool := s.guardCoreRestart && !w.guardWindowExpired

/-- `setStartWhenUp` of the supervisor. -/
def setStartWhenUp (profileId : Int) : ConnectionManager :=
  if w.haveProcess then { s with startWhenUp := profileId } else s

/-- `restartCoreForGuard`. -/
def restartCoreForGuard :
    ConnectionManager :=
  if w.haveProcess = false then s.answer r .coreUnavailable ""
  else
    let s := (s.setStartWhenUp w r.profileId).deferStartToCore r
    if s.guardRestartPending w then s else { s with guardCoreRestart := true }

/-- `deferStartForDns`; `none` is its `false`. -/
def deferStartForDns : Option ConnectionManager :=
  if w.directDnsAuto = false then .none
  else if w.useDnsObject = true then .none
  else if s.dnsSelect.isSome then
    some (s.failStart r .busy "The address of another server is still being resolved.")
  else if w.serverName ≠ "" ∧ w.serverIsAddress = true then .none
  else some { s with dnsSelect := some ⟨{ r with dnsChecked := true }, false⟩ }

/-- `start` while the kill switch arms: the latest request survives, and one callback is registered
however many came. -/
def deferToKillSwitch : ConnectionManager :=
  if 0 ≤ s.killSwitchDeferredStart.profileId then
    { s.answer s.killSwitchDeferredStart .superseded "" with killSwitchDeferredStart := r }
  else
    { s with killSwitchDeferredStart := r, settledCallbacks := s.settledCallbacks + 1 }

/-- `start` from the locks on: the core takes the request, or it waits for the core. -/
def launch : ConnectionManager :=
  if s.muStarting then s.failStart r .busy "Another profile is starting..."
  else if s.muStopping then s.failStart r .busy "Another profile is stopping..."
  else if w.awaitingCoreStarted then (s.deferStartToCore r).setStartWhenUp w r.profileId
  else if w.coreRunning = false then
    if w.canStartCore = false then s.failStart r .coreUnavailable w.lastFailure
    else { s.deferStartToCore r with startWhenUp := r.profileId }
  else { s with muStarting := true, workers := s.workers ++ [⟨r, .none⟩] }

/-- `start` after the DNS check. -/
def startChecked : ConnectionManager :=
  if w.killSwitch = .arming then s.deferToKillSwitch r
  else if w.killSwitch ≠ .disabled ∧ w.killSwitch ≠ .armed then
    s.answer r .killSwitchInactive w.killSwitchFailure
  else if s.guardRestartPending w = true ∨
      (w.killSwitch = .armed ∧ w.runningWithoutGuardIdentity = true) then
    s.restartCoreForGuard r w
  else if w.rankBeforeStart then { s with rankings := s.rankings ++ [r] }
  else if w.buildError ≠ "" then s.failStart r .buildFailed w.buildError
  else s.launch r w

/-- `start`. -/
def start : ConnectionManager :=
  if w.prepareExit then s.answer r .exiting ""
  else if r.profileId < 0 ∨ w.profileFound = false then s.answer r .notFound ""
  else if w.groupAvailable = false then s.answer r .groupUnavailable ""
  else
    match if r.dnsChecked then .none else s.deferStartForDns r w with
    | some deferred => deferred
    | .none => s.startChecked r w

/-- The `Selected` handler; `address` tells whether a server answered. -/
def onSelected (address : Bool) (w : World) : ConnectionManager :=
  match s.dnsSelect with
  | .none => s
  | some select =>
    let s := { s with dnsSelect := some { select with emitted := true } }
    if address = false ∧ w.spmodeVpn = true then
      s.answer select.request .startFailed ("No DNS server answered, so the address of the VPN server cannot be resolved. " ++
          "Check the connection or set another DNS in the settings.")
    else s.start select.request w

/-- The `whenSettled` callback of `start`. -/
def onSettled : ConnectionManager :=
  let next := s.killSwitchDeferredStart
  let s :=
    { s with
      settledCallbacks := s.settledCallbacks - 1
      killSwitchDeferredStart := StartRequest.none }
  if 0 ≤ next.profileId then s.start next w else s

/-- A ranking calls its continuation. -/
def onRanked (i : Nat) (w : World) : ConnectionManager :=
  match s.rankings[i]? with
  | .none => s
  | some r => start { s with rankings := s.rankings.eraseIdx i } r w

/-- `onCoreStarted`: the supervisor hands over `m_startWhenUp`. -/
def onCoreStarted : ConnectionManager :=
  let id := s.startWhenUp
  let request := s.coreStartRequest
  let bootSerial := s.bootSerial
  let s :=
    { s with
      startWhenUp := -1
      guardCoreRestart := false
      coreStartRequest := StartRequest.none
      bootSerial := 0 }
  let s :=
    if 0 ≤ request.profileId ∧ request.profileId ≠ id then s.answer request .superseded "" else s
  if 0 ≤ id then
    let next :=
      if request.profileId = id then request else StartRequest.of id true 0 s.accepted.length
    let s := if request.profileId = id then s else s.accept 0
    -- Only the boot start is refused while Tun could not be restored.
    if w.tunRestoreHeld = true ∧ next.serial ≠ 0 ∧ next.serial = bootSerial then
      s.answer next .tunFailed ("Tun could not be restored (" ++ w.tunHoldWhy ++ "); the profile was not started without it.")
    else s.start next w
  else s

/-- `onCoreGaveUp`. -/
def onCoreGaveUp (reason : String) : ConnectionManager :=
  let request := s.coreStartRequest
  let s := { s with guardCoreRestart := false, coreStartRequest := StartRequest.none }
  if 0 ≤ request.profileId then s.answer request .coreUnavailable reason else s

/-- The request that `onKillSwitchStateChanged` makes for a profile; a negative id is no profile and
is never answered. -/
def guardRequest (id : Int) (w : World) : ConnectionManager :=
  if 0 ≤ id then (s.accept 0).restartCoreForGuard (StartRequest.of id true 0 s.accepted.length) w
  else s.restartCoreForGuard (StartRequest.of id true 0 0) w

/-- `onKillSwitchStateChanged`. -/
def onKillSwitchStateChanged : ConnectionManager :=
  let failed := w.killSwitch == .failed
  let armed := w.killSwitch == .armed
  let enteredArmed := armed && !s.killSwitchWasArmed
  let s := { s with killSwitchWasFailed := failed, killSwitchWasArmed := armed }
  if enteredArmed = true ∧ s.guardRestartPending w = false ∧
      w.runningWithoutGuardIdentity = true then
    if w.awaitingCoreStarted = true ∧ 0 ≤ s.startWhenUp then
      -- The start waiting for the probing core has not run yet; the guard restart carries it over.
      if 0 ≤ s.coreStartRequest.profileId then
        restartCoreForGuard { s with coreStartRequest := StartRequest.none } s.coreStartRequest w
      else s.guardRequest s.startWhenUp w
    else s.guardRequest w.startedId w
  else s

/-- `setBootStart`. -/
def setBootStart (profileId : Int) (serial : Nat) : ConnectionManager :=
  let r := StartRequest.of profileId false serial s.accepted.length
  ({ s.accept serial with bootSerial := serial } : ConnectionManager).deferStartToCore r

/-- `stop`: with nothing running a user stop queues `cancelResume`; otherwise `mu_stopping` is taken
until the teardown on the main thread. -/
def stop (manual crash running : Bool) : ConnectionManager :=
  if running = false then
    if manual = true ∧ crash = false then { s with queuedCancels := s.queuedCancels + 1 } else s
  else if s.muStopping then s
  else { s with muStopping := true }

/-! ## The start worker -/

end ConnectionManager

/-- What the worker meets between its start and its `startFinished`. -/
structure LaunchReply where
  /-- `extraCoreData->path` is not empty. -/
  extraCore : Bool
  permitted : Bool
  rpcOK : Bool
  error : String
  /-- The answer of `HandleXrayGeoError`. -/
  geoHandled : Bool

/-- `QString::contains`. -/
def containsText (text needle : String) : Bool := decide (needle.toList <:+: text.toList)

/-- `QString::contains` with `Qt::CaseInsensitive`, for a needle of ASCII letters. -/
def containsAnyCase (text needle : String) : Bool := decide (needle.toList.map Char.toLower <:+: text.toList.map Char.toLower)

/-- `profile_start_stage2`: the outcome and the error of its only `startFinished`. -/
def LaunchReply.finish (reply : LaunchReply) : StartOutcome × String :=
  if reply.extraCore = true ∧ reply.permitted = false then (.extraCoreBlocked, "")
  else if reply.rpcOK = false then (.coreUnavailable, "")
  else if reply.error ≠ "" then
    if reply.geoHandled then (.geoAssetsMissing, reply.error)
    else if containsAnyCase reply.error "Fwpm" then (.strictRouteUnavailable, reply.error)
    else if containsText reply.error "configure tun interface" then (.tunFailed, reply.error)
    else (.startFailed, reply.error)
  else (.started, "")

namespace ConnectionManager

/-- The worker queues its `startFinished`. -/
def workerFinishes (s : ConnectionManager) (i : Nat) (reply : LaunchReply) : ConnectionManager :=
  { s with workers := s.workers.modify i fun worker => { worker with finish := some reply.finish } }

/-- The queued `startFinished` of a worker runs on the main thread. -/
def workerAnswers (s : ConnectionManager) (i : Nat) : ConnectionManager :=
  match s.workers[i]? with
  | some ⟨r, some (outcome, error)⟩ =>
    answer { s with workers := s.workers.eraseIdx i } r outcome error
  | _ => s

end ConnectionManager

/-! ## Runs -/

inductive Event where
  | start (profileId : Int) (interactive : Bool) (serial : Nat) (w : World)
  | setBootStart (profileId : Int) (serial : Nat)
  | selected (address : Bool) (w : World)
  | selectDeleted
  | settled (w : World)
  | killSwitchChanged (w : World)
  | ranked (i : Nat) (w : World)
  | coreStarted (w : World)
  | coreGaveUp (reason : String)
  /-- The supervisor writes `m_startWhenUp` itself: at a resume, a crash or a restart of its own. -/
  | supervisorSets (profileId : Int)
  | stop (manual crash running : Bool)
  | stopped
  | cancelResume
  | resetCore
  | workerFinishes (i : Nat) (reply : LaunchReply)
  | workerUnlocks
  | workerAnswers (i : Nat)

def step (s : ConnectionManager) : Event → ConnectionManager
  | .start profileId interactive serial w =>
    (s.accept serial).start (StartRequest.of profileId interactive serial s.accepted.length) w
  | .setBootStart profileId serial => s.setBootStart profileId serial
  | .selected address w => s.onSelected address w
  | .selectDeleted => { s with dnsSelect := none }
  | .settled w => s.onSettled w
  | .killSwitchChanged w => s.onKillSwitchStateChanged w
  | .ranked i w => s.onRanked i w
  | .coreStarted w => s.onCoreStarted w
  | .coreGaveUp reason => s.onCoreGaveUp reason
  | .supervisorSets profileId => { s with startWhenUp := profileId }
  | .stop manual crash running => s.stop manual crash running
  | .stopped => { s with muStopping := false }
  | .cancelResume => { s with queuedCancels := s.queuedCancels - 1, startWhenUp := -1 }
  | .resetCore => { s with startWhenUp := -1 }
  | .workerFinishes i reply => s.workerFinishes i reply
  | .workerUnlocks => { s with muStarting := false }
  | .workerAnswers i => s.workerAnswers i

/-- When an event can occur. The selection emits `Selected` once and is deleted after it, a callback
that is registered is called once, a ranking calls its continuation once, and a worker queues one
answer. A boot start names a profile. -/
def Can (s : ConnectionManager) : Event → Bool
  | .setBootStart profileId _ => decide (0 ≤ profileId)
  | .selected _ _ => s.dnsSelect.any fun select => !select.emitted
  | .selectDeleted => s.dnsSelect.any fun select => select.emitted
  | .settled _ => decide (0 < s.settledCallbacks)
  | .ranked i _ => decide (i < s.rankings.length)
  | .cancelResume => decide (0 < s.queuedCancels)
  | .workerFinishes i _ => (s.workers[i]?).any fun worker => worker.finish.isNone
  | .workerUnlocks => s.muStarting && s.workers.all fun worker => worker.finish.isSome
  | .workerAnswers i => (s.workers[i]?).any fun worker => worker.finish.isSome
  | _ => true

/-- The manager before the first request. -/
def fresh : ConnectionManager :=
  { dnsSelect := none, killSwitchDeferredStart := StartRequest.none, settledCallbacks := 0,
    coreStartRequest := StartRequest.none, bootSerial := 0, startWhenUp := -1,
    guardCoreRestart := false, killSwitchWasFailed := false, killSwitchWasArmed := false,
    muStarting := false, muStopping := false, rankings := [], workers := [], queuedCancels := 0,
    accepted := [], answers := [] }

/-! ## Where a request is -/

/-- The places where a request can be held. -/
inductive Place where
  | dnsSelection
  | killSwitchSlot
  | coreSlot
  | ranking
  | worker

/-- A slot that holds a request names its profile. -/
def slot (place : Place) (r : StartRequest) : List (Place × StartRequest) :=
  if 0 ≤ r.profileId then [(place, r)] else []

/-- The selection holds its request until it emits. -/
def dnsHeld : Option DnsSelect → List (Place × StartRequest)
  | some ⟨r, false⟩ => [(.dnsSelection, r)]
  | _ => []

/-- All requests that are held, each with its place. -/
def ConnectionManager.held (s : ConnectionManager) : List (Place × StartRequest) :=
  dnsHeld s.dnsSelect ++
  slot .killSwitchSlot s.killSwitchDeferredStart ++
  slot .coreSlot s.coreStartRequest ++
  s.rankings.map (fun r => (.ranking, r)) ++
  s.workers.map (fun worker => (.worker, worker.request))

end Throne.Engine.Connection
