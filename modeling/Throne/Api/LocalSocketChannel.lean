import Throne.Lib.Frames
import Throne.Lib.Runs

/-!
# The RPC channel between the interface and the core

`LocalSocketChannel` sends requests over a local socket and hands each reply to the `Call` waiting
for its id. Calls run on any thread; the socket and the read buffer belong to the io thread, which
runs queued lambdas and socket signals one at a time; `Reconnect` runs on the thread that accepts the
core's connections, one call after the other.

A step is one queued lambda or socket signal of the io thread, one lock region or atomic access of a
`Call`, one stage of a `Reconnect`, or a move of the world: the core answers a request of a
connection, bytes arrive, a peer goes away. Sockets are numbered in the order in which they were
given to `Reconnect`.
-/

namespace Throne.Api

open Lib.Frames List

/-! ## Wire format -/

/-- What a frame can carry: its length is a `uint32`. -/
abbrev Payload := { data : List UInt8 // data.length < 2 ^ 32 }

structure Request where
  id : UInt32
  method : String
  payload : List UInt8

/-- A response frame: `[u32 id][u8 status][u32 dataLen][data]`. -/
structure Reply where
  id : UInt32
  status : UInt8
  data : Payload

/-- The bytes that `writeResponse` sends. -/
def Reply.frame (r : Reply) : List UInt8 := leBytes 4 r.id.toNat ++ [r.status] ++ leBytes 4 r.data.val.length ++ r.data.val

structure Header where
  reqId : UInt32
  status : UInt8
  dataLen : Nat

/-- The header of a response, once its nine bytes are there. -/
def readHeader (buf : List UInt8) : Option Header :=
  if 9 ≤ buf.length then
    some ⟨UInt32.ofNat (leValue (buf.take 4)), (buf.drop 4).headD 0, leValue ((buf.drop 5).take 4)⟩
  else none

/-- `QByteArray::mid`: a negative length takes everything after the position. -/
def mid (buf : List UInt8) (pos : Nat) (len : Int) : List UInt8 :=
  if len < 0 then buf.drop pos else (buf.drop pos).take len.toNat

/-- `static_cast<int>` of a `quint32`. -/
def toInt (n : Nat) : Int := if n < 2 ^ 31 then n else (n : Int) - 2 ^ 32

theorem length_frame (r : Reply) : r.frame.length = 9 + r.data.val.length := by
  simp [Reply.frame]
  omega

theorem readHeader_frame (r : Reply) (rest : List UInt8) : readHeader (r.frame ++ rest) = some ⟨r.id, r.status, r.data.val.length⟩ := by
  have hlen : 9 ≤ (r.frame ++ rest).length := by
    rw [length_append, length_frame]
    omega
  have hid : leValue (leBytes 4 r.id.toNat) = r.id.toNat := by
    apply leValue_leBytes_of_lt
    exact r.id.toNat_lt
  have hdata : leValue (leBytes 4 r.data.val.length) = r.data.val.length := leValue_leBytes_of_lt r.data.property
  have htake : (r.frame ++ rest).take 4 = leBytes 4 r.id.toNat := by
    rw [Reply.frame, append_assoc, append_assoc, append_assoc, take_left' (length_leBytes 4 _)]
  have hdrop : (r.frame ++ rest).drop 4 = r.status :: (leBytes 4 r.data.val.length ++ (r.data.val ++ rest)) := by
    rw [Reply.frame, append_assoc, append_assoc, append_assoc, drop_left' (length_leBytes 4 _)]
    simp
  have hdrop5 : (r.frame ++ rest).drop 5 = leBytes 4 r.data.val.length ++ (r.data.val ++ rest) := by
    have h : (r.frame ++ rest).drop (4 + 1) = ((r.frame ++ rest).drop 4).drop 1 := by
      rw [drop_drop]
    rw [h, hdrop]
    rfl
  rw [readHeader, if_pos hlen, htake, hdrop, hdrop5, hid, take_left' (length_leBytes 4 _), hdata]
  simp

/-- The header of a buffer that ends inside a frame is the header of that frame. -/
theorem readHeader_inside {r : Reply} {part rest : List UInt8} {h : Header}
    (hpart : part ++ rest = r.frame) (hread : readHeader part = some h) : h = ⟨r.id, r.status, r.data.val.length⟩ := by
  have hwhole := readHeader_frame r []
  rw [append_nil, ← hpart] at hwhole
  unfold readHeader at hread hwhole
  split at hread
  · rename_i hnine
    have hlong : 9 ≤ (part ++ rest).length := by
      rw [length_append]
      omega
    rw [if_pos hlong, take_append_of_le_length (by omega), drop_append_of_le_length (by omega), drop_append_of_le_length (by omega),
      take_append_of_le_length (by rw [length_drop]; omega)] at hwhole
    have hhead : (part.drop 4 ++ rest).headD 0 = (part.drop 4).headD 0 := by
      cases hd : part.drop 4 with
      | nil =>
        have := congrArg List.length hd
        rw [length_drop, length_nil] at this
        omega
      | cons b bs => rfl
    rw [hhead, hread] at hwhole
    exact Option.some.inj hwhole
  · cases hread

/-- Response frames as a framing of the reply stream. -/
def replyFraming : Framing UInt8 Reply where
  encode := Reply.frame
  size buf := (readHeader buf).map fun h => 9 + h.dataLen
  size_pos := by
    intro buf k h
    obtain ⟨header, _, rfl⟩ := Option.map_eq_some_iff.1 h
    omega
  size_encode := by
    intro r rest
    rw [readHeader_frame, length_frame]
    rfl
  size_inside := by
    intro r part rest hpart
    cases hread : readHeader part with
    | none => exact Or.inl rfl
    | some h =>
      right
      rw [readHeader_inside hpart hread, length_frame]
      rfl

/-- The data that `processBuffer` cuts out of a buffer that starts with a reply, when its length has
no sign bit. -/
theorem mid_frame (r : Reply) (rest : List UInt8) (h : r.data.val.length < 2 ^ 31) :
    mid (r.frame ++ rest) 9 (toInt r.data.val.length) = r.data.val := by
  have hnine : (leBytes 4 r.id.toNat ++ [r.status] ++ leBytes 4 r.data.val.length).length = 9 := by
    simp
  rw [toInt, if_pos h, mid, if_neg (by omega), Reply.frame, append_assoc _ r.data.val rest, drop_left' hnine, Int.toNat_natCast, take_left]

/-! ## Connections -/

/-- One connection, as far as the two sides have used it. -/
structure Conn where
  /-- Requests written to it, in order. -/
  requests : List Request
  /-- Replies the core wrote, in order, each with the position of the request it answers. -/
  answers : List (Nat × Reply)
  /-- Bytes written by the core that have not arrived. -/
  wire : List UInt8
  /-- Bytes that arrived and were not read. -/
  inbox : List UInt8
  /-- The peer went away, or the interface closed the socket. -/
  gone : Bool

def Conn.opened (alive : Bool) : Conn := ⟨[], [], [], [], !alive⟩

def Conn.write (req : Request) (k : Conn) : Conn :=
  if k.gone then k else { k with requests := k.requests ++ [req] }

def Conn.close (k : Conn) : Conn := { k with gone := true }

def Conn.arrive (bytes : Nat) (k : Conn) : Conn :=
  if k.gone then k
  else { k with wire := k.wire.drop bytes, inbox := k.inbox ++ k.wire.take bytes }

def Conn.drain (k : Conn) : Conn := { k with inbox := [] }

/-- What `Serve` makes of the outcome of a dispatched request: status 1 carries the error text. -/
def response (id : UInt32) : Except Payload Payload → Reply
  | .error text => ⟨id, 1, text⟩
  | .ok data => ⟨id, 0, data⟩

/-- The goroutine of the `i`-th request writes its response. -/
def Conn.answer (i : Nat) (outcome : Except Payload Payload) (k : Conn) : Conn :=
  match k.requests[i]? with
  | none => k
  | some req =>
    if k.gone ∨ i ∈ k.answers.map Prod.fst then k
    else
      { k with
        answers := k.answers ++ [(i, response req.id outcome)]
        wire := k.wire ++ (response req.id outcome).frame }

/-! ## The channel -/

def callOK : Int := 0

def callNotConnected : Int := -1919

/-- Where a `Call` stands: before the load of `connected_`, before the id is drawn, before the id is
registered, before the write is queued, in the first wait, before the slot is reclaimed, in the
second wait, before the result is read, returned. -/
inductive Pc where
  | load
  | number
  | register (id : UInt32)
  | post (id : UInt32)
  | wait (id : UInt32)
  | reclaim (id : UInt32)
  | waitAgain (id : UInt32)
  | finish (id : UInt32) (ok : Bool)
  | returned (id : Option UInt32) (code : Int) (rsp : Option (List UInt8))
  deriving DecidableEq

/-- The id a call has drawn. -/
def Pc.reqId : Pc → Option UInt32
  | .load => none
  | .number => none
  | .register id => some id
  | .post id => some id
  | .wait id => some id
  | .reclaim id => some id
  | .waitAgain id => some id
  | .finish id _ => some id
  | .returned id _ _ => id

/-- A `Call` with its `PendingCall`. -/
structure Call where
  method : String
  payload : List UInt8
  pc : Pc
  done : Bool
  status : UInt8
  data : List UInt8

def Call.opened (method : String) (payload : List UInt8) : Call := ⟨method, payload, .load, false, 1, []⟩

/-- The request of a call that has drawn its id. -/
def Call.request (call : Call) : Option Request :=
  call.pc.reqId.map fun id => ⟨id, call.method, call.payload⟩

/-- The end of `Call`: the return code and what is assigned to `rsp`. -/
def Call.result (call : Call) (ok : Bool) : Int × Option (List UInt8) :=
  if ¬ok ∨ call.status ≠ 0 then (1, if ok then some call.data else none)
  else (callOK, some call.data)

/-- A lambda queued to the io thread. -/
inductive Job where
  | swap (n : Nat)
  | write (req : Request)

/-- Where a `Reconnect` stands: before the lock region of `wakeAllWithError`, before the swap is
queued, before `connected_` is set. -/
inductive Stage where
  | wake (n : Nat)
  | post (n : Nat)
  | publish

structure Chan where
  conns : List Conn
  queue : List Job
  sock : Option Nat
  readBuf : List UInt8
  nextId : UInt32
  pending : List (UInt32 × Nat)
  calls : List Call
  connected : Bool
  reconnecting : Option Stage

def Chan.initial : Chan := ⟨[], [], none, [], 1, [], [], false, none⟩

section

variable (s : Chan)

/-- The lock region of `wakeAllWithError`. -/
def wake : Chan :=
  { s with
    calls := s.calls.mapIdx fun c call =>
      if c ∈ s.pending.map Prod.snd then { call with done := true } else call
    pending := [] }

def wakeAllWithError : Chan := wake { s with connected := false }

def removePending (id : UInt32) (pending : List (UInt32 × Nat)) : List (UInt32 × Nat) :=
  pending.filter fun p => p.1 ≠ id

/-- A reply is handed to the call registered under its id. -/
def complete (reqId : UInt32) (status : UInt8) (data : List UInt8) (s : Chan) : Chan :=
  match s.pending.find? fun p => p.1 = reqId with
  | none => s
  | some (_, c) =>
    { s with
      pending := removePending reqId s.pending
      calls := s.calls.modify c fun call =>
        { call with status := status, data := data, done := true } }

/-- The loop of `processBuffer`; every turn takes at least the nine bytes of a header. -/
def processBufferLoop : Nat → Chan → Chan
  | 0, s => s
  | fuel + 1, s =>
    match readHeader s.readBuf with
    | none => s
    | some h =>
      if s.readBuf.length < 9 + h.dataLen then s
      else
        let data := mid s.readBuf 9 (toInt h.dataLen)
        processBufferLoop fuel (complete h.reqId h.status data { s with readBuf := s.readBuf.drop (9 + h.dataLen) })

def processBuffer : Chan := processBufferLoop s.readBuf.length s

/-- The bytes available on the `n`-th socket. -/
def Chan.available (n : Nat) : List UInt8 := ((s.conns[n]?).map Conn.inbox).getD []

/-- `read_buf += sock->readAll()` on the `n`-th socket. -/
def Chan.readAll (n : Nat) : Chan :=
  { s with readBuf := s.readBuf ++ s.available n, conns := s.conns.modify n Conn.drain }

def onReadyRead : Chan :=
  match s.sock with
  | none => s
  | some n => processBuffer (s.readAll n)

/-- The installed socket is closed and the `n`-th takes its place, with an empty buffer. -/
def Chan.install (n : Nat) : Chan :=
  match s.sock with
  | none => { s with sock := some n, readBuf := [] }
  | some old =>
    { s with conns := s.conns.modify old Conn.close, sock := some n, readBuf := [] }

/-- The lambda queued by `Reconnect`. -/
def swap (n : Nat) (s : Chan) : Chan :=
  -- Bytes that arrived before the signals were connected are read at once.
  if (s.install n).available n = [] then s.install n else onReadyRead (s.install n)

/-- The lambda queued by `Call`. -/
def write (req : Request) (s : Chan) : Chan :=
  match s.sock with
  | none => s
  | some n => { s with conns := s.conns.modify n (Conn.write req) }

/-! ## Steps -/

inductive Event where
  /-- A thread enters `Call`. -/
  | call (method : String) (payload : List UInt8)
  /-- The `c`-th call takes its next step; `timedOut` tells a wait that its time is over. -/
  | advance (c : Nat) (timedOut : Bool)
  /-- `Reconnect` is entered with a socket that is still connected or not. -/
  | reconnect (alive : Bool)
  | reconnectStep
  /-- The io thread runs the next queued lambda. -/
  | io
  /-- Bytes of the `n`-th connection arrive, `readyRead` is emitted. -/
  | deliver (n bytes : Nat)
  /-- The peer of the `n`-th connection goes away, `disconnected` is emitted. -/
  | disconnect (n : Nat)
  /-- The core answers the `i`-th request of the `n`-th connection. -/
  | answer (n i : Nat) (outcome : Except Payload Payload)

def Chan.goto (c : Nat) (pc : Pc) : Chan :=
  { s with calls := s.calls.modify c fun call => { call with pc := pc } }

end

/-- One step of a `Call`. -/
def advance (c : Nat) (timedOut : Bool) (s : Chan) : Chan :=
  match s.calls[c]? with
  | none => s
  | some call =>
    match call.pc with
    | .load =>
      if s.connected then s.goto c .number
      else s.goto c (.returned none callNotConnected none)
    | .number => { s.goto c (.register s.nextId) with nextId := s.nextId + 1 }
    | .register id =>
      { s.goto c (.post id) with pending := (id, c) :: removePending id s.pending }
    | .post id =>
      { s.goto c (.wait id) with
        queue := s.queue ++ [.write ⟨id, call.method, call.payload⟩] }
    | .wait id =>
      -- A wait that ends by its time still answers with the predicate.
      if call.done then s.goto c (.finish id true)
      else if timedOut then s.goto c (.reclaim id)
      else s
    | .reclaim id =>
      if s.pending.any fun p => p.1 = id then
        { s.goto c (.finish id false) with pending := removePending id s.pending }
      else s.goto c (.waitAgain id)
    | .waitAgain id =>
      if call.done then s.goto c (.finish id true)
      else if timedOut then s.goto c (.finish id false)
      else s
    | .finish id ok => s.goto c (.returned (some id) (call.result ok).1 (call.result ok).2)
    | .returned _ _ _ => s

/-- What one step of a `Call` can do. -/
inductive CallStep (s : Chan) (c : Nat) (call : Call) : Chan → Prop
  | enter (hpc : call.pc = .load) (hup : s.connected = true) :
      CallStep s c call (s.goto c .number)
  | refuse (hpc : call.pc = .load) (hdown : s.connected = false) :
      CallStep s c call (s.goto c (.returned none callNotConnected none))
  | number (hpc : call.pc = .number) :
      CallStep s c call { s.goto c (.register s.nextId) with nextId := s.nextId + 1 }
  | register (id : UInt32) (hpc : call.pc = .register id) :
      CallStep s c call { s.goto c (.post id) with pending := (id, c) :: removePending id s.pending }
  | post (id : UInt32) (hpc : call.pc = .post id) :
      CallStep s c call
        { s.goto c (.wait id) with
          queue := s.queue ++ [.write ⟨id, call.method, call.payload⟩] }
  | woken (id : UInt32) (hpc : call.pc = .wait id ∨ call.pc = .waitAgain id)
      (hdone : call.done = true) : CallStep s c call (s.goto c (.finish id true))
  | expire (id : UInt32) (hpc : call.pc = .wait id) (hdone : call.done = false) :
      CallStep s c call (s.goto c (.reclaim id))
  | reclaim (id : UInt32) (hpc : call.pc = .reclaim id) :
      CallStep s c call { s.goto c (.finish id false) with pending := removePending id s.pending }
  | claimed (id : UInt32) (hpc : call.pc = .reclaim id)
      (hnone : ∀ p ∈ s.pending, p.1 ≠ id) : CallStep s c call (s.goto c (.waitAgain id))
  | giveUp (id : UInt32) (hpc : call.pc = .waitAgain id) :
      CallStep s c call (s.goto c (.finish id false))
  | finish (id : UInt32) (ok : Bool) (hpc : call.pc = .finish id ok) :
      CallStep s c call (s.goto c (.returned (some id) (call.result ok).1 (call.result ok).2))

/-- The calls that have returned. -/
def Pc.isReturned : Pc → Bool
  | .returned _ _ _ => true
  | _ => false

/-- A step of a call that does nothing: there is no such call, it has returned, or it waits and its
time is not over. -/
theorem advance_cases {s t : Chan} {c : Nat} {timedOut : Bool} (h : advance c timedOut s = t) :
    (t = s ∧ (timedOut = true → ∀ call, s.calls[c]? = some call → call.pc.isReturned = true)) ∨
    ∃ call, s.calls[c]? = some call ∧ CallStep s c call t := by
  subst h
  rw [advance]
  cases hc : s.calls[c]? with
  | none => exact .inl ⟨rfl, nofun⟩
  | some call =>
    dsimp only
    split
    case h_1 hpc =>
      split
      · rename_i hup
        exact .inr ⟨call, rfl, .enter hpc hup⟩
      · rename_i hdown
        exact .inr ⟨call, rfl, .refuse hpc (by simpa using hdown)⟩
    case h_2 hpc => exact .inr ⟨call, rfl, .number hpc⟩
    case h_3 id hpc => exact .inr ⟨call, rfl, .register id hpc⟩
    case h_4 id hpc => exact .inr ⟨call, rfl, .post id hpc⟩
    case h_5 id hpc =>
      split
      · rename_i hdone
        exact .inr ⟨call, rfl, .woken id (.inl hpc) hdone⟩
      · rename_i hdone
        split
        · exact .inr ⟨call, rfl, .expire id hpc (by simpa using hdone)⟩
        · rename_i htime
          exact .inl ⟨rfl, fun htrue => absurd htrue htime⟩
    case h_6 id hpc =>
      split
      · exact .inr ⟨call, rfl, .reclaim id hpc⟩
      · rename_i hnone
        have hfree : ∀ p ∈ s.pending, p.1 ≠ id := by
          intro p hp heq
          exact hnone (any_eq_true.2 ⟨p, hp, by simp [heq]⟩)
        exact .inr ⟨call, rfl, .claimed id hpc hfree⟩
    case h_7 id hpc =>
      split
      · rename_i hdone
        exact .inr ⟨call, rfl, .woken id (.inr hpc) hdone⟩
      · split
        · exact .inr ⟨call, rfl, .giveUp id hpc⟩
        · rename_i htime
          exact .inl ⟨rfl, fun htrue => absurd htrue htime⟩
    case h_8 id ok hpc => exact .inr ⟨call, rfl, .finish id ok hpc⟩
    case h_9 hpc =>
      refine .inl ⟨rfl, ?_⟩
      rintro _ call' ⟨⟩
      rw [hpc]
      rfl

/-- One stage of the `Reconnect` under way. -/
def reconnectStep (s : Chan) : Chan :=
  match s.reconnecting with
  | none => s
  | some (.wake n) => { wake s with reconnecting := some (.post n) }
  | some (.post n) =>
    { s with queue := s.queue ++ [.swap n], reconnecting := some .publish }
  | some .publish => { s with connected := true, reconnecting := none }

def io (s : Chan) : Chan :=
  match s.queue with
  | [] => s
  | .swap n :: jobs => swap n { s with queue := jobs }
  | .write req :: jobs => write req { s with queue := jobs }

def step (s : Chan) : Event → Chan
  | .call method payload => { s with calls := s.calls ++ [Call.opened method payload] }
  | .advance c timedOut => advance c timedOut s
  | .reconnect alive =>
    -- The caller's thread is busy while a `Reconnect` is under way.
    if s.reconnecting.isSome then s
    else
      { s with
        conns := s.conns ++ [Conn.opened alive]
        connected := false
        reconnecting := some (.wake s.conns.length) }
  | .reconnectStep => reconnectStep s
  | .io => io s
  | .deliver n bytes =>
    let s' := { s with conns := s.conns.modify n (Conn.arrive bytes) }
    if s.sock = some n then onReadyRead s' else s'
  | .disconnect n =>
    let s' := { s with conns := s.conns.modify n Conn.close }
    if s.sock = some n ∧ ((s.conns[n]?).map Conn.gone) = some false then wakeAllWithError s'
    else s'
  | .answer n i outcome => { s with conns := s.conns.modify n (Conn.answer i outcome) }

end Throne.Api
