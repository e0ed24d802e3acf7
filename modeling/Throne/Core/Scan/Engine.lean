import Throne.Core.Scan.Targets
import Throne.Lib.Lists
import Throne.Lib.Runs

/-!
# One probe call

`Probe` takes a chunk of the positions of a scan and probes them with concurrent workers. A loop
launches one worker for each position while slots are free and the run is not cancelled. A worker
dials its target, drops out when there is no egress or when its failure may come from the abort,
counts its outcome in the session and publishes it under a lock. After the last worker the call
reports the published results and the first position without one.

A schedule is a list of events: the steps of the launch loop and of the workers in any order, the
outcomes of the dials, and the cancellation of the caller's context at any moment. What a dial finds
is a choice of the event; an error of a cancelled context is found only after the cancellation.
-/

namespace Throne.Core.Scan

open Lib.Runs Lib.Lists

/-! ## Requests and responses -/

def defaultConcurrency : Nat := 64

def maxConcurrency : Nat := 1000

def maxChunkTargets : Nat := 2 ^ 16

/-- The part of a request that decides the course of the call. -/
structure ProbeRequest where
  spec : Spec
  cursor : Nat
  maxTargets : Int
  icmpEnabled : Bool
  tcpEnabled : Bool
  httpEnabled : Bool
  concurrency : Int

/-- Why a probe of a target failed. -/
inductive Cause where
  /-- `ErrNoEgress`: the probe was refused, it says nothing about the target. -/
  | noEgress
  /-- An error of the cancelled context. -/
  | aborted
  /-- Any other error. -/
  | other
  deriving DecidableEq

/-- What a result tells about a target beside the verdict. -/
structure Report where
  failedPhase : String
  error : String
  icmpMs : Int
  tcpMs : Int
  tlsMs : Int
  httpMs : Int
  httpStatus : Int
  probePort : Nat
  localFailure : Bool
  deriving DecidableEq

/-- What `safeTarget` returns: a pass, a failure with its cause, or the text of a recovered panic. -/
inductive Outcome where
  | passed (report : Report)
  | failed (cause : Cause) (report : Report)
  | panicked (report : Report)
  deriving DecidableEq

structure Result where
  target : Target
  outcome : Outcome
  deriving DecidableEq

def Result.passed (r : Result) : Bool :=
  match r.outcome with
  | .passed _ => true
  | _ => false

def Result.cause (r : Result) : Option Cause :=
  match r.outcome with
  | .failed cause _ => some cause
  | _ => none

structure ProbeResponse where
  total : Nat
  nextCursor : Nat
  aborted : Bool
  results : List Result
  sampledEntries : Nat
  invalidEntries : Nat
  deriving DecidableEq

/-- The counters of a session that a probe touches. -/
structure Counters where
  probed : Nat
  probePassed : Nat
  deriving DecidableEq

def Counters.recordProbe (c : Counters) (passed : Bool) : Counters :=
  ⟨c.probed + 1, if passed then c.probePassed + 1 else c.probePassed⟩

/-! ## Workers -/

/-- Where a worker stands. `leaving` and `gone` tell whether it has published its result. -/
inductive Phase where
  | dialing
  /-- `safeTarget` has returned. -/
  | dialed (r : Result)
  /-- `egressLost` is stored, the run is about to be cancelled. -/
  | losing
  /-- The check against the abort was passed. -/
  | judged (r : Result)
  /-- The session has counted the result. -/
  | recorded (r : Result)
  /-- The slot is still held. -/
  | leaving (reported : Bool)
  | gone (reported : Bool)
  deriving DecidableEq

def Phase.reported : Phase → Bool
  | .leaving reported => reported
  | .gone reported => reported
  | _ => false

def Phase.isGone : Phase → Bool
  | .gone _ => true
  | _ => false

def Phase.isRecorded : Phase → Bool
  | .recorded _ => true
  | _ => false

/-- The launch loop: before a slot, with a slot and before the goroutine, after the loop. -/
inductive Launcher where
  | waiting
  | acquired
  | ended
  deriving DecidableEq

/-- What the workers of a call share. -/
structure Chunk where
  count : Nat
  concurrency : Nat
  target : Nat → Target

structure RunState where
  launcher : Launcher
  /-- The worker of each launched position of the chunk. -/
  workers : List Phase
  finished : List Bool
  results : List Result
  /-- The positions of the chunk whose results are in `results`, in the same order. -/
  order : List Nat
  cancelled : Bool
  egressLost : Bool
  counters : Counters

def RunState.start (chunk : Chunk) (counters : Counters) (cancelled : Bool) : RunState :=
  ⟨.waiting, [], List.replicate chunk.count false, [], [], cancelled, false, counters⟩

inductive Event where
  /-- The caller's context is cancelled. -/
  | cancel
  /-- The launch loop gets a slot. -/
  | acquire
  /-- The launch loop notices the cancellation in the pause or while it waits for a slot. -/
  | giveUp
  /-- The launch loop looks at the context once more and starts the next worker. -/
  | spawn
  | dial (i : Nat) (outcome : Outcome)
  | work (i : Nat)

def RunState.setWorker (s : RunState) (i : Nat) (phase : Phase) : RunState :=
  { s with workers := s.workers.set i phase }

/-- One step of the `i`-th worker after its dial. -/
def work (s : RunState) (i : Nat) : RunState :=
  match s.workers[i]? with
  | some (.dialed r) =>
    if r.cause = some .noEgress then { s.setWorker i .losing with egressLost := true }
    -- A failure caused by the abort is not a measurement.
    else if r.passed = false ∧ s.cancelled then s.setWorker i (.leaving false)
    else s.setWorker i (.judged r)
  | some .losing => { s.setWorker i (.leaving false) with cancelled := true }
  | some (.judged r) =>
    { s.setWorker i (.recorded r) with counters := s.counters.recordProbe r.passed }
  | some (.recorded r) =>
    { s.setWorker i (.leaving true) with
      finished := s.finished.set i true
      results := s.results ++ [r]
      order := s.order ++ [i] }
  | some (.leaving reported) => s.setWorker i (.gone reported)
  | _ => s

def step (chunk : Chunk) (s : RunState) : Event → RunState
  | .cancel => { s with cancelled := true }
  | .acquire =>
    if s.launcher = .waiting ∧ s.workers.length < chunk.count ∧
        s.workers.countP (fun w => !w.isGone) < chunk.concurrency then
      { s with launcher := .acquired }
    else s
  | .giveUp =>
    if s.launcher = .waiting ∧ s.cancelled then { s with launcher := .ended } else s
  | .spawn =>
    if s.launcher = .acquired then
      if s.cancelled then { s with launcher := .ended }
      else { s with launcher := .waiting, workers := s.workers ++ [.dialing] }
    else s
  | .dial i outcome =>
    -- An error of the context is seen only after the context is done.
    if s.workers[i]? = some .dialing ∧
        ((⟨chunk.target i, outcome⟩ : Result).cause = some .aborted → s.cancelled = true) then
      s.setWorker i (.dialed ⟨chunk.target i, outcome⟩)
    else s
  | .work i => work s i

/-- `wg.Wait()` is over: the loop has ended and every worker is gone. -/
def RunState.returned (chunk : Chunk) (s : RunState) : Bool :=
  (s.launcher == .ended || s.workers.length == chunk.count) && s.workers.all Phase.isGone

/-! ## The call -/

/-- What the setup of a call meets. -/
structure Setup where
  /-- The error of `newHTTPPlan`. -/
  httpPlanError : Option String
  /-- The error of `icmpAvailable`, for IPv6 or not. -/
  icmpAvailable : Bool → Option String

def anyPhase (req : ProbeRequest) : Bool := req.icmpEnabled || req.tcpEnabled || req.httpEnabled

/-- The loop of `icmpCheck`; each family is checked once, at its first target. -/
def icmpCheckLoop (available : Bool → Option String) (checked4 checked6 : Bool) : List Target → Option String
  | [] => none
  | target :: targets =>
    let v6 := !target.addr.is4
    if (if v6 then checked6 else checked4) then
      icmpCheckLoop available checked4 checked6 targets
    else
      match available v6 with
      | some e => some e
      | none =>
        let checked4 := checked4 || !v6
        let checked6 := checked6 || v6
        if checked4 && checked6 then none
        else icmpCheckLoop available checked4 checked6 targets

variable (t : Targets)

/-- The target of a position below the total. -/
def Targets.target (position : Nat) : Target := (t.At position).getD ⟨.v4 0, 0⟩

/-- The number of positions a call takes. -/
def chunkCount (req : ProbeRequest) : Nat :=
  if req.maxTargets ≤ 0 ∨ t.total ≤ req.cursor then 0
  else min (min req.maxTargets.toNat maxChunkTargets) (t.total - req.cursor)

/-- The error of the setup of a call that takes positions. -/
def setupError (setup : Setup) (t : Targets) (req : ProbeRequest) : Option String :=
  if req.httpEnabled ∧ setup.httpPlanError ≠ none then setup.httpPlanError
  else if req.icmpEnabled then
    icmpCheckLoop setup.icmpAvailable false false ((List.range (chunkCount t req)).map fun i => t.target (req.cursor + i))
  else none

def effectiveConcurrency (req : ProbeRequest) : Nat :=
  min (if req.concurrency ≤ 0 then defaultConcurrency else req.concurrency.toNat) maxConcurrency

def Probe.chunk (req : ProbeRequest) : Chunk where
  count := chunkCount t req
  concurrency := effectiveConcurrency req
  target i := t.target (req.cursor + i)

/-- The response of a call that takes no positions. -/
def emptyResponse (req : ProbeRequest) : ProbeResponse := ⟨t.total, min req.cursor t.total, false, [], t.sampledEntries, t.invalidEntries⟩

/-- A call without a phase reports every target of its chunk as passed. -/
def passAll (req : ProbeRequest) (counters : Counters) : Counters × ProbeResponse :=
  let count := chunkCount t req
  let results := (List.range count).map fun i =>
    (⟨t.target (req.cursor + i), .passed ⟨"", "", 0, 0, 0, 0, 0, 0, false⟩⟩ : Result)
  ((List.range count).foldl (fun c _ => c.recordProbe true) counters,
    { emptyResponse t req with nextCursor := req.cursor + count, results := results })

/-- The response after the last worker: it is cut at the first position without a result. -/
def finalResponse (req : ProbeRequest) (s : RunState) : ProbeResponse :=
  let base := { emptyResponse t req with results := s.results }
  match s.finished.findIdx? fun done => !done with
  | none => { base with nextCursor := req.cursor + chunkCount t req }
  | some i => { base with nextCursor := req.cursor + i, aborted := true }

def errEgressLost : String := "no default interface; the scan was paused"

/-- One call with its schedule; `none` when the schedule leaves it running. `cancelled` tells whether
the context is done at the start. -/
def Probe (net : Netip) (setup : Setup) (counters : Counters) (cancelled : Bool) (req : ProbeRequest) (schedule : List Event) :
    Option (Counters × ProbeResponse × Option String) :=
  let t := NewTargets net req.spec
  if req.maxTargets ≤ 0 ∨ t.total ≤ req.cursor then some (counters, emptyResponse t req, none)
  else if req.httpEnabled ∧ setup.httpPlanError ≠ none then
    some (counters, emptyResponse t req, setup.httpPlanError)
  else if anyPhase req = false then
    some ((passAll t req counters).1, (passAll t req counters).2, none)
  else
    match setupError setup t req with
    | some e => some (counters, emptyResponse t req, some e)
    | none =>
      let chunk := Probe.chunk t req
      let s := run (step chunk) (RunState.start chunk counters cancelled) schedule
      if s.returned chunk then
        some (s.counters, finalResponse t req s,
          if s.egressLost then some errEgressLost else none)
      else none

end Throne.Core.Scan
