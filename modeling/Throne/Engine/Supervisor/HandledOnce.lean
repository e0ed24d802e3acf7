import Throne.Engine.Supervisor.Generations

/-!
# What a step does with the waiting start

Relation: a step keeps the waiting start, hands it over with one `coreStarted`, or drops it.
Closure: every event of the supervisor is one of the three (`step_start`), and the invariant carries
over runs, so the exits, the starts and the hand-overs are ordered for good.
Boundary: a start is also dropped when its core is killed on purpose before it probes, and when a
connected core exits (the running profile is resumed instead); `setStartWhenUp` may leave a start
waiting in GaveUp.
-/

namespace Throne.Engine.Supervisor

open Lib CoreSupervisor

/-- The step emits `coreStarted` for the newest accepted core, whose exit is open, and hands over the
start that waits. -/
structure Emits (s t : CoreSupervisor) (x : CoreStarted) : Prop where
  started : t.started = s.started ++ [x]
  newest : x.gen ∈ t.accepted ∧ ∀ g ∈ t.accepted, g ≤ x.gen
  unhandled : t.handledExitGen < x.gen ∧ x.gen ∉ t.exits
  handed : x.profileId = s.startWhenUp ∧ x.ticket = s.startTicket
  taken : t.startWhenUp = -1

structure Keeps (s t : CoreSupervisor) : Prop where
  started : t.started = s.started
  waits : t.startWhenUp = s.startWhenUp
  ticket : t.startTicket = s.startTicket

/-- The events that may replace or drop a start that waits. -/
def Drops (s : CoreSupervisor) : Event → Prop
  | .cancelResume | .resetCore => True
  -- A newer start was asked for.
  | .start _ | .restartNotListening _ | .setStartWhenUp _ => True
  -- The restart of a dead core that `killForPrivilegeChange` queued.
  | .deadRestart => True
  | .coreExited gen failedToStart exitCode out =>
    (s.expectedExitGen = gen ∧ s.wasProbing gen = false) ∨ s.wasConnected gen failedToStart = true ∨
      (s.onCoreExited gen failedToStart exitCode out).state = .gaveUp
  | _ => False

/-- What one event does with the start that waits. -/
def StartStep (windows : Bool) (s : CoreSupervisor) (e : Event) : Prop :=
  Keeps s (step windows s e) ∨ (∃ x, Emits s (step windows s e) x) ∨ ((step windows s e).started = s.started ∧ (0 ≤ s.startWhenUp → Drops s e))

variable {windows : Bool}

/-! ## The steps -/

section

variable (s : CoreSupervisor)

theorem Keeps.refl : Keeps s s := ⟨rfl, rfl, rfl⟩

theorem start_started (profileId : Int) : (s.start profileId).started = s.started := by
  rw [start]
  split
  · rfl
  · split <;> rfl

theorem resetCore_started : s.resetCore.started = s.started := by
  rw [resetCore]
  split
  · rfl
  · split <;> rfl

theorem restartNotListening_started (profileId : Int) : (s.restartNotListening profileId).started = s.started := by
  rw [restartNotListening]
  split <;> rfl

theorem restartDeadCore_started : s.restartDeadCore.started = s.started := by
  rw [restartDeadCore]
  split <;> rfl

theorem setStartWhenUp_started (profileId : Int) : (s.setStartWhenUp profileId).started = s.started := by
  rw [setStartWhenUp]
  split <;> rfl

theorem restartForGuard_keeps : Keeps s s.restartForGuard := by
  rw [restartForGuard]
  split <;> exact ⟨rfl, rfl, rfl⟩

theorem killForPrivilegeChange_keeps : Keeps s s.killForPrivilegeChange := by
  rw [killForPrivilegeChange]
  split
  · exact .refl s
  · split <;> exact ⟨rfl, rfl, rfl⟩

theorem onCoreSpawned_keeps (gen : Nat) : Keeps s (s.onCoreSpawned gen) := by
  rw [onCoreSpawned]
  split <;> exact ⟨rfl, rfl, rfl⟩

theorem onConnectTimeout_keeps : Keeps s s.onConnectTimeout := by
  rw [onConnectTimeout]
  split
  · exact ⟨rfl, rfl, rfl⟩
  · split <;> exact ⟨rfl, rfl, rfl⟩

theorem postRestart_keeps : Keeps s s.postRestart := by
  rw [postRestart]
  split <;> exact ⟨rfl, rfl, rfl⟩

theorem runTask_keeps (task : Task) : Keeps s (s.runTask task) := by
  cases task with
  | start | timeoutKill gen => exact ⟨rfl, rfl, rfl⟩
  | restart | resetKill | privilegeKill =>
    rw [runTask]
    split <;> exact ⟨rfl, rfl, rfl⟩

end

variable {s : CoreSupervisor}

/-- The probe of the newest core is answered. -/
theorem onPrivilegeProbed_start (hs : Sound windows s) (gen : Nat) (ok rpcConnected : Bool)
    (attempt : Nat) : Keeps s (s.onPrivilegeProbed gen ok rpcConnected attempt) ∨
    ∃ x, Emits s (s.onPrivilegeProbed gen ok rpcConnected attempt) x := by
  rw [onPrivilegeProbed]
  split
  next => exact .inl (.refl s)
  next hasked =>
    split
    next => exact .inl (.refl s)
    next =>
      split
      next => exact .inl (.refl s)
      next hfirst =>
        rw [not_or, not_or, not_and, not_not, not_not] at hasked
        obtain ⟨hprobing, rfl, hstate⟩ := hasked
        rw [Bool.not_eq_false] at hprobing
        obtain ⟨hopen, hmem⟩ := hs.emitted.probing_open (hprobing (by omega)) hstate
        right
        refine ⟨⟨s.acceptedGen, s.startWhenUp, s.startTicket⟩, rfl, ⟨hmem, hs.gens.accepted_le⟩, ⟨hopen, ?_⟩, ⟨rfl, rfl⟩, rfl⟩
        intro hexit
        exact absurd (hs.gens.exits_le _ hexit) (Nat.not_le_of_lt hopen)

theorem onNewConnection_start (hs : Sound windows s) {verified : Bool}
    (hcan : Can s (.newConnection verified) = true) : Keeps s (s.onNewConnection windows verified) ∨
    ∃ x, Emits s (s.onNewConnection windows verified) x := by
  cases verified with
  | false =>
    rw [onNewConnection, if_pos rfl]
    exact .inl (.refl s)
  | true =>
    rw [Can, Bool.and_eq_true, Bool.and_eq_true, decide_eq_true_eq, Bool.not_eq_true', List.contains_eq_mem, decide_eq_false_iff_not] at hcan
    obtain ⟨⟨hprocess, hpos⟩, hfirst⟩ := hcan
    have hcurrent : s.currentGeneration = s.generation := by rw [currentGeneration, if_pos hprocess]
    have hnew := hs.gens.newer hpos hfirst
    rw [onNewConnection, hcurrent, if_neg (by decide)]
    split
    next => exact .inl ⟨rfl, rfl, rfl⟩
    next hopen =>
      rw [not_or] at hopen
      have hhandled : s.handledExitGen < s.generation := Nat.lt_of_not_le hopen.1
      split
      next =>
        right
        refine ⟨⟨s.generation, s.startWhenUp, s.startTicket⟩, rfl,
          ⟨List.mem_append_right _ (List.mem_singleton_self _), ?_⟩, ⟨hhandled, ?_⟩, ⟨rfl, rfl⟩, rfl⟩
        · intro g hg
          rcases List.mem_append.1 hg with hg | hg
          · exact Nat.le_of_lt (Nat.lt_of_le_of_lt (hs.gens.accepted_le g hg) hnew)
          · exact Nat.le_of_eq (List.mem_singleton.1 hg)
        · intro hexit
          exact absurd (hs.gens.exits_le _ hexit) (Nat.not_le_of_lt hhandled)
      next => exact .inl ⟨rfl, rfl, rfl⟩

/-- A core that never connected leaves the waiting start alone unless it gives up. -/
theorem onUnexpectedExit_start (s : CoreSupervisor) (wasConnected : Bool) (out : ExitWorld) :
    (s.onUnexpectedExit wasConnected out).started = s.started ∧ (0 ≤ s.startWhenUp → wasConnected = false →
    Keeps s (s.onUnexpectedExit wasConnected out) ∨ (s.onUnexpectedExit wasConnected out).state = .gaveUp) := by
  unfold onUnexpectedExit
  extract_lets failures startFailures tooFrequent counted t
  have hsame : t.started = s.started := (nextStart_same counted wasConnected tooFrequent).started
  split
  · exact ⟨hsame, fun _ _ => .inr rfl⟩
  · refine ⟨hsame, fun hwaits hnever => .inl ?_⟩
    have ht : t = counted := by
      refine if_neg (not_or.2 ⟨?_, Int.not_lt.2 hwaits⟩)
      rw [hnever]
      exact Bool.false_ne_true
    rw [ht]
    exact ⟨rfl, rfl, rfl⟩

theorem onCoreExited_start (s : CoreSupervisor) (gen : Nat) (failedToStart : Bool) (exitCode : Int) (out : ExitWorld) :
    Keeps s (s.onCoreExited gen failedToStart exitCode out) ∨ ((s.onCoreExited gen failedToStart exitCode out).started = s.started ∧
    (0 ≤ s.startWhenUp → Drops s (.coreExited gen failedToStart exitCode out))) := by
  rw [Drops, onCoreExited]
  split
  next => exact .inl (.refl s)
  next =>
    split
    next hexpected =>
      rw [restartKilled]
      split
      next hnone =>
        refine .inr ⟨rfl, fun hwaits => .inl ⟨hexpected, ?_⟩⟩
        rcases hnone with hnever | hneg
        · exact hnever
        · exact absurd hwaits (Int.not_le.2 hneg)
      next => exact .inl ⟨rfl, rfl, rfl⟩
    next =>
      split
      next => exact .inl ⟨rfl, rfl, rfl⟩
      next =>
        obtain ⟨hstarted, hkept⟩ := onUnexpectedExit_start (s.markExited gen) (s.wasConnected gen failedToStart) out
        rcases Decidable.em (0 ≤ s.startWhenUp) with hwaits | hnone
        · cases hconnected : s.wasConnected gen failedToStart with
          | true => exact .inr ⟨by rw [← hconnected]; exact hstarted, fun _ => .inr (.inl rfl)⟩
          | false =>
            rw [hconnected] at hstarted hkept
            rcases hkept hwaits rfl with ⟨h1, h2, h3⟩ | hgave
            · exact .inl ⟨h1, h2, h3⟩
            · exact .inr ⟨hstarted, fun _ => .inr (.inr hgave)⟩
        · exact .inr ⟨hstarted, fun hwaits => absurd hwaits hnone⟩

/-- Every event keeps the waiting start, hands it over or may drop it. -/
theorem step_start {e : Event} (hs : Sound windows s) (hcan : Can s e = true) : StartStep windows s e := by
  cases e with
  | coresTurn =>
    left
    rw [step]
    split
    next => exact .refl s
    next task tasks _ =>
      obtain ⟨h1, h2, h3⟩ := runTask_keeps { s with tasks := tasks } task
      exact ⟨h1, h2, h3⟩
  | coreSpawned gen => exact .inl (onCoreSpawned_keeps s gen)
  | newConnection verified => exact (onNewConnection_start hs hcan).imp_right .inl
  | privilegeProbed gen ok rpcConnected attempt =>
    exact (onPrivilegeProbed_start hs gen ok rpcConnected attempt).imp_right .inl
  | coreExited gen failedToStart exitCode out =>
    exact (onCoreExited_start s gen failedToStart exitCode out).imp_right .inr
  | connectTimeout => exact .inl (onConnectTimeout_keeps s)
  | restartTick => exact .inl (postRestart_keeps s)
  | restartForGuard => exact .inl (restartForGuard_keeps s)
  | killForPrivilegeChange => exact .inl (killForPrivilegeChange_keeps s)
  | startedIdSet profileId => exact .inl ⟨rfl, rfl, rfl⟩
  | start profileId => exact .inr (.inr ⟨start_started s profileId, fun _ => trivial⟩)
  | deadRestart => exact .inr (.inr ⟨restartDeadCore_started s, fun _ => trivial⟩)
  | resetCore => exact .inr (.inr ⟨resetCore_started s, fun _ => trivial⟩)
  | restartNotListening profileId =>
    exact .inr (.inr ⟨restartNotListening_started s profileId, fun _ => trivial⟩)
  | setStartWhenUp profileId =>
    exact .inr (.inr ⟨setStartWhenUp_started s profileId, fun _ => trivial⟩)
  | cancelResume => exact .inr (.inr ⟨rfl, fun _ => trivial⟩)

/-- An exit that was handled, or whose core was replaced, changes nothing. -/
theorem exit_ignored (hs : Sound windows s) {gen : Nat} (hold : gen ∈ s.exits ∨ gen ≤ s.replaced)
    (failedToStart : Bool) (exitCode : Int) (out : ExitWorld) : s.onCoreExited gen failedToStart exitCode out = s := by
  have hle : gen ≤ s.handledExitGen := by
    rcases hold with hmem | hle
    · exact hs.gens.exits_le gen hmem
    · exact Nat.le_trans hle hs.gens.replaced_le
  rw [onCoreExited, if_pos hle]

/-! ## Runs -/

/-- What holds after every run, and of every event that can come next. -/
structure HandledOnce (windows : Bool) (s : CoreSupervisor) : Prop where
  exits_once : s.exits.Pairwise (· < ·)
  ignored : ∀ gen failedToStart exitCode out, gen ∈ s.exits ∨ gen ≤ s.replaced → step windows s (.coreExited gen failedToStart exitCode out) = s
  started_once : s.started.Pairwise fun x y => x.gen < y.gen
  handed_once : (s.started.filter fun x => decide (0 ≤ x.profileId)).Pairwise fun x y => x.ticket < y.ticket
  next : ∀ e, Can s e = true → StartStep windows s e
  backoff : s.state = .backoff → s.restartTimer = true
  gaveUp : s.state = .gaveUp → 0 ≤ s.startWhenUp → s.setByCaller = true

theorem Sound.handledOnce (hs : Sound windows s) : HandledOnce windows s where
  exits_once := hs.gens.exits_increase
  ignored := fun _ failedToStart exitCode out hold => exit_ignored hs hold failedToStart exitCode out
  started_once := hs.emitted.increase
  handed_once := hs.waiting.increase
  next := fun _ hcan => step_start hs hcan
  backoff := hs.timers.backoff
  gaveUp := hs.timers.gaveUp

/-- After every run each exit is handled at most once and never one of a replaced core, `coreStarted`
is emitted at most once for a core and only for the newest accepted one whose exit is open, a start is
handed over at most once and dropped only by what `Drops` lists, Backoff has its timer armed, and only
`setStartWhenUp` leaves a start waiting in GaveUp. -/
theorem generations_handled_once (windows listening : Bool) (events : List Event)
    (hrun : Runs.Along (step windows) (fun s e => Can s e = true) (listened listening) events) :
    HandledOnce windows (Runs.run (step windows) (listened listening) events) :=
  (Runs.inv_run (fun _ _ hs hcan => sound_step hs hcan) events (listened listening) (sound_listened listening) hrun).handledOnce

def quietExit : ExitWorld := ⟨false, false, false⟩

/-- A crash in Connected, a restart, and late reports about both cores. -/
def crashAndRestart : List Event :=
  [.start 5, .coresTurn, .coreSpawned 1, .newConnection true, .privilegeProbed 1 true true 0,
    .startedIdSet 5, .coreExited 1 false 1 quietExit, .coreExited 1 false 1 quietExit, .restartTick,
    .coresTurn, .coreSpawned 2, .privilegeProbed 1 false true 1, .newConnection true,
    .privilegeProbed 2 true true 0, .restartForGuard, .coresTurn, .coreExited 2 false 0 quietExit]

theorem generations_handled_once_restart : HandledOnce false (Runs.run (step false) (listened true) crashAndRestart) :=
  generations_handled_once false true crashAndRestart (by decide)

example : (Runs.run (step false) (listened true) crashAndRestart).started = [⟨1, 5, 1⟩, ⟨2, 5, 2⟩] ∧
    (Runs.run (step false) (listened true) crashAndRestart).exits = [1] := by decide

/-- The first core is killed for new privileges before it connects. -/
def killedBeforeProbe : List Event := [.start 5, .coresTurn, .killForPrivilegeChange, .coresTurn, .coreExited 1 false 0 quietExit]

/-- Five cores exit before they connect, and then a start is set. -/
def setAfterGivingUp : List Event :=
  [.start 5, .coresTurn, .coreExited 1 false 1 quietExit, .restartTick, .coresTurn,
    .coreExited 2 false 1 quietExit, .restartTick, .coresTurn, .coreExited 3 false 1 quietExit,
    .restartTick, .coresTurn, .coreExited 4 false 1 quietExit, .restartTick, .coresTurn,
    .coreExited 5 false 1 quietExit, .setStartWhenUp 7]

/-- A waiting start is dropped by the exit of a core that was killed for new privileges, without
`cancelResume`, `resetCore`, giving up or a newer start; and a start can wait in GaveUp. -/
theorem waiting_start_dropped_by_kill : (Runs.Along (step false) (fun s e => Can s e = true) (listened true) killedBeforeProbe ∧
    (Runs.run (step false) (listened true) (killedBeforeProbe.take 4)).startWhenUp = 5 ∧
    (Runs.run (step false) (listened true) killedBeforeProbe).startWhenUp = -1 ∧
    (Runs.run (step false) (listened true) killedBeforeProbe).state = .backoff ∧
    (Runs.run (step false) (listened true) killedBeforeProbe).started = []) ∧
    Runs.Along (step false) (fun s e => Can s e = true) (listened true) setAfterGivingUp ∧
    (Runs.run (step false) (listened true) setAfterGivingUp).state = .gaveUp ∧
    (Runs.run (step false) (listened true) setAfterGivingUp).startWhenUp = 7 := by
  decide

end Throne.Engine.Supervisor
