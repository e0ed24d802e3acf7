import Throne.Lib.Pages
import Throne.Lib.Runs

/-!
# Scan sessions

The registry of `src/core/internal/scan/session.go`. `Acquire` and `Lookup` make a session on first use, `Stop` cancels
it and leaves a tombstone for its id, and at most once a minute each of them prunes: idle sessions without a call in
flight are cancelled and dropped, and so are old tombstones. A session numbers its events and keeps the last 256 in a
ring; `Events` returns a page of those after a number.

A world adds the calls in flight, the events of each session and readers that feed back the number they get. The
monotonic clock only advances; the wall clock reads what it likes. Numbers of events are far below `2 ^ 63`.
-/

namespace Throne.Core.Scan.Sessions

open Lib.Pages Lib.Runs

/-! ## Sessions -/

def eventRingSize : Nat := 256

def eventPageSize : Nat := 64

/-- In nanoseconds. -/
def sessionIdleTTL : Int := 600000000000

def pruneInterval : Int := 60000000000

def ErrStopped : String := "scan stopped"

def missingId : String := "missing scan session id"

structure Event where
  seq : Nat
  kind : String
  phase : String
  target : String
  latencyMs : Int
  error : String

structure Session where
  /-- The context is done. -/
  cancelled : Bool
  inflight : BitVec 32
  /-- In nanoseconds of the wall clock. -/
  lastUsed : Int
  ring : Nat → Event
  lastSeq : Nat

def Session.touch (s : Session) (wall : Int) : Session := { s with lastUsed := wall }

def newSession (wall : Int) : Session where
  cancelled := false
  inflight := 0
  lastUsed := wall
  ring _ := ⟨0, "", "", "", 0, ""⟩
  lastSeq := 0

def Session.emit (s : Session) (kind phase target : String) (latency : Int) (errText : String) : Session :=
  let seq := s.lastSeq + 1
  { s with
    lastSeq := seq
    ring := Function.update s.ring (seq % eventRingSize)
      { seq := seq
        kind := kind
        phase := phase
        target := target
        latencyMs := (latency.tdiv 1000000).bmod (2 ^ 32)
        error := errText } }

/-- The events after a number, and the newest number. -/
def Session.Events (s : Session) (after : Int) : List Event × Nat :=
  if s.lastSeq ≤ after then ([], s.lastSeq)
  else
    let first := (max (max (after + 1) (s.lastSeq - eventPageSize + 1)) 1).toNat
    ((List.range' first (s.lastSeq + 1 - first)).map fun seq => s.ring (seq % eventRingSize), s.lastSeq)

/-! ## The registry -/

/-- None for an id that was stopped before its first call. -/
structure Tombstone where
  session : Option Nat
  since : Nat

/-- Sessions by their addresses, the addresses in use below `next`. -/
structure Registry where
  heap : Nat → Session
  next : Nat
  sessions : List (String × Nat)
  stopped : List (String × Tombstone)
  /-- None is the zero time. -/
  lastPrune : Option Nat

def Registry.empty : Registry where
  heap _ := newSession 0
  next := 0
  sessions := []
  stopped := []
  lastPrune := none

/-- A reading of both clocks. -/
structure Now where
  mono : Nat
  wall : Int

variable (r : Registry)

def Registry.set (p : Nat) (s : Session) : Registry := { r with heap := Function.update r.heap p s }

def Session.idle (s : Session) (now : Now) : Bool := s.inflight = 0 && sessionIdleTTL < now.wall - s.lastUsed

def pruneLocked (now : Now) : Registry :=
  if r.lastPrune.any fun last => (now.mono : Int) - last < pruneInterval then r
  else
    { r with
      lastPrune := some now.mono
      heap := fun p =>
        if r.sessions.any fun entry => entry.2 = p && (r.heap p).idle now then { r.heap p with cancelled := true }
        else r.heap p
      sessions := r.sessions.filter fun entry => !(r.heap entry.2).idle now
      stopped := r.stopped.filter fun entry => !decide (sessionIdleTTL < (now.mono : Int) - entry.2.since) }

/-- The session of an id, a new one for an id without one. -/
def Registry.session (id : String) (wall : Int) : Nat × Registry :=
  match r.sessions.lookup id with
  | some p => (p, r)
  | none => (r.next, { r.set r.next (newSession wall) with next := r.next + 1, sessions := (id, r.next) :: r.sessions })

/-- The session that a call gets, and the registry. -/
def Acquire (id : String) (now : Now) (wall : Int) : Except String Nat × Registry :=
  if id = "" then (.error missingId, r)
  else
    let pruned := pruneLocked r now
    if (pruned.stopped.lookup id).isSome then (.error ErrStopped, pruned)
    else
      let (p, found) := pruned.session id wall
      let s := found.heap p
      (.ok p, found.set p ({ s with inflight := s.inflight + 1 }.touch wall))

/-- What `Acquire` returns beside the session. -/
def release (p : Nat) (wall : Int) : Registry :=
  let s := (r.heap p).touch wall
  r.set p { s with inflight := s.inflight - 1 }

def Lookup (id : String) (now : Now) (wall : Int) : Option Nat × Registry :=
  if id = "" then (none, r)
  else
    let pruned := pruneLocked r now
    match pruned.stopped.lookup id with
    | some stone => (stone.session, pruned)
    | none =>
      let (p, found) := pruned.session id wall
      (some p, found.set p ((found.heap p).touch wall))

/-- An entry of a map replaced. -/
def put {α : Type} (id : String) (value : α) (entries : List (String × α)) : List (String × α) := (id, value) :: entries.filter (·.1 ≠ id)

def Stop (id : String) (now : Now) : Registry :=
  if id = "" then r
  else
    let pruned := pruneLocked r now
    let rest := pruned.sessions.filter (·.1 ≠ id)
    match pruned.sessions.lookup id with
    | some p =>
      { pruned.set p { pruned.heap p with cancelled := true } with
        sessions := rest
        stopped := put id ⟨some p, now.mono⟩ pruned.stopped }
    | none =>
      { pruned with
        sessions := rest
        stopped := put id ⟨(pruned.stopped.lookup id).bind (·.session), now.mono⟩ pruned.stopped }

/-! ## Runs -/

inductive Call where
  | acquire (id : String)
  /-- One of the calls in flight returns. -/
  | release (call : Nat)
  | lookup (id : String)
  | stop (id : String)
  | prune
  | emit (session : Nat) (kind phase target : String) (latency : Int) (errText : String)
  | poll (reader : Nat)

/-- A call, the time since the one before on the monotonic clock, and the wall clock at its start and when the session
is touched. -/
structure Step where
  call : Call
  wait : Nat
  wall : Int
  touched : Int

/-- A reader of a session. -/
structure Poller where
  session : Nat
  reader : Reader Event

structure World where
  registry : Registry
  clock : Nat
  /-- The calls in flight: the id and the session that each was given. -/
  held : List (String × Nat)
  log : Nat → List Event
  pollers : Nat → Poller

/-- Every reader is there from the start, and waits for its session. -/
def World.init (readers : Nat → Nat × Int) : World where
  registry := Registry.empty
  clock := 0
  held := []
  log _ := []
  pollers k := ⟨(readers k).1, Reader.start (readers k).2⟩

/-- The poll of a reader, which feeds the number back. -/
def Poller.poll (poller : Poller) (s : Session) : Poller :=
  let (events, lastSeq) := s.Events poller.reader.cursor
  { poller with
    reader :=
      { cursor := lastSeq
        received := poller.reader.received ++ events
        newest := poller.reader.newest ++ [lastSeq] } }

def step (w : World) (e : Step) : World :=
  let clock := w.clock + e.wait
  let now : Now := ⟨clock, e.wall⟩
  match e.call with
  | .acquire id =>
    match Acquire w.registry id now e.touched with
    | (.ok p, registry) => { w with registry := registry, clock := clock, held := (id, p) :: w.held }
    | (.error _, registry) => { w with registry := registry, clock := clock }
  | .release call =>
    match w.held[call]? with
    | some (_, p) =>
      { w with registry := release w.registry p e.touched, clock := clock, held := w.held.eraseIdx call }
    | none => { w with clock := clock }
  | .lookup id => { w with registry := (Lookup w.registry id now e.touched).2, clock := clock }
  | .stop id => { w with registry := Stop w.registry id now, clock := clock }
  | .prune => { w with registry := pruneLocked w.registry now, clock := clock }
  | .emit p kind phase target latency errText =>
    if p < w.registry.next then
      let s := (w.registry.heap p).emit kind phase target latency errText
      { w with
        registry := w.registry.set p s
        clock := clock
        log := Function.update w.log p (w.log p ++ [s.ring (s.lastSeq % eventRingSize)]) }
    else { w with clock := clock }
  | .poll k =>
    let poller := w.pollers k
    if poller.session < w.registry.next then
      { w with
        clock := clock
        pollers := Function.update w.pollers k (poller.poll (w.registry.heap poller.session)) }
    else { w with clock := clock }

end Throne.Core.Scan.Sessions
