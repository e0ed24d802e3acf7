import Throne.Engine.Supervisor.CoreSupervisor
import Mathlib.Tactic.Common

/-!
# Core generations are handled once

The invariant of the supervisor in four parts: the generation markers against the recorded exits and
connections (`Gens`), the cores that `coreStarted` was emitted for (`Emitted`), the starts that were
handed over (`Waiting`), and the restart timer (`Timers`). Each part is stated over the members it is
about, so a step that leaves those members alone keeps it as it is.
-/

namespace Throne.Engine.Supervisor

open Lib CoreSupervisor List

/-- The markers bound what is recorded. -/
structure Gens (generation handled replaced acceptedGen : Nat)
    (connections accepted exits : List Nat) : Prop where
  replaced_le : replaced ≤ handled
  exits_le : ∀ g ∈ exits, g ≤ handled
  exits_increase : exits.Pairwise (· < ·)
  connections_le : ∀ g ∈ connections, g ≤ generation
  accepted_le : ∀ g ∈ accepted, g ≤ acceptedGen
  newest : acceptedGen = 0 ∨ acceptedGen ∈ connections

/-- `coreStarted` was emitted in the order of the generations, and a probing core is newer than all
of them; while the state is Connected its exit is not handled. Windows probes nothing. -/
structure Emitted (windows : Bool) (state : CoreState) (probing : Bool) (handled acceptedGen : Nat) (accepted : List Nat) (started : List CoreStarted) : Prop where
  started_le : ∀ x ∈ started, x.gen ≤ acceptedGen
  increase : started.Pairwise fun x y => x.gen < y.gen
  probing_new : probing = true → ∀ x ∈ started, x.gen < acceptedGen
  probing_open : probing = true → state = .connected → handled < acceptedGen ∧ acceptedGen ∈ accepted
  probe : windows = true → probing = false

/-- Every start that was handed over came from an assignment of its own. -/
structure Waiting (startWhenUp : Int) (ticket : Nat) (started : List CoreStarted) : Prop where
  ticket_le : ∀ x ∈ started, x.ticket ≤ ticket
  unspent : 0 ≤ startWhenUp → ∀ x ∈ started, 0 ≤ x.profileId → x.ticket < ticket
  increase : (started.filter fun x => decide (0 ≤ x.profileId)).Pairwise fun x y => x.ticket < y.ticket

structure Timers (state : CoreState) (restartTimer : Bool) (startWhenUp : Int)
    (setByCaller : Bool) : Prop where
  backoff : state = .backoff → restartTimer = true
  gaveUp : state = .gaveUp → 0 ≤ startWhenUp → setByCaller = true

/-- The invariant. -/
structure Sound (windows : Bool) (s : CoreSupervisor) : Prop where
  gens : Gens s.generation s.handledExitGen s.replaced s.acceptedGen s.connections s.accepted s.exits
  emitted : Emitted windows s.state s.probing s.handledExitGen s.acceptedGen s.accepted s.started
  waiting : Waiting s.startWhenUp s.startTicket s.started
  timers : Timers s.state s.restartTimer s.startWhenUp s.setByCaller

section Parts

variable {windows : Bool} {generation handled replaced acceptedGen : Nat} {connections accepted exits : List Nat}
  {state : CoreState} {probing : Bool} {started : List CoreStarted} {startWhenUp : Int}
  {ticket : Nat}

section

variable (h : Gens generation handled replaced acceptedGen connections accepted exits)

include h

theorem Gens.spawn : Gens (generation + 1) handled replaced acceptedGen connections accepted exits :=
  { h with connections_le := fun g hg => Nat.le_succ_of_le (h.connections_le g hg) }

/-- `postProcessRestart`: what exists now is replaced. -/
theorem Gens.restart (current : Nat) : Gens generation (max handled current) (max replaced current) acceptedGen connections accepted exits :=
  { h with
    replaced_le := by have := h.replaced_le; omega
    exits_le := fun g hg => Nat.le_trans (h.exits_le g hg) (Nat.le_max_left handled current) }

/-- A new exit is handled. -/
theorem Gens.exit {gen : Nat} (hgen : handled < gen) : Gens generation gen replaced acceptedGen connections accepted (exits ++ [gen]) where
  replaced_le := by have := h.replaced_le; omega
  exits_le := by
    intro g hg
    rcases mem_append.1 hg with hg | hg
    · have := h.exits_le g hg
      omega
    · rw [mem_singleton] at hg
      omega
  exits_increase := by
    rw [pairwise_append]
    refine ⟨h.exits_increase, pairwise_singleton _ _, ?_⟩
    intro g hg g' hg'
    rw [mem_singleton] at hg'
    have := h.exits_le g hg
    omega
  connections_le := h.connections_le
  accepted_le := h.accepted_le
  newest := h.newest

/-- A core connects and is not accepted. -/
theorem Gens.connect : Gens generation handled replaced acceptedGen (connections ++ [generation]) accepted exits :=
  { h with
    connections_le := by
      intro g hg
      rcases mem_append.1 hg with hg | hg
      · exact h.connections_le g hg
      · rw [mem_singleton] at hg
        omega
    newest := h.newest.imp_right fun hmem => mem_append_left _ hmem }

/-- The current core connects for the first time, so it is newer than every accepted one. -/
theorem Gens.newer (hpos : 0 < generation) (hfirst : generation ∉ connections) : acceptedGen < generation := by
  rcases h.newest with hzero | hmem
  · omega
  · have hle := h.connections_le acceptedGen hmem
    rcases Nat.lt_or_ge acceptedGen generation with hlt | hge
    · exact hlt
    · have heq : acceptedGen = generation := by omega
      rw [heq] at hmem
      exact absurd hmem hfirst

theorem Gens.accept (hnew : acceptedGen < generation) :
    Gens generation handled replaced generation (connections ++ [generation]) (accepted ++ [generation]) exits :=
  { h.connect with
    accepted_le := by
      intro g hg
      rcases mem_append.1 hg with hg | hg
      · have := h.accepted_le g hg
        omega
      · rw [mem_singleton] at hg
        omega
    newest := .inr (mem_append_right _ (mem_singleton_self _)) }

end

variable {state' : CoreState}

section

variable (h : Emitted windows state probing handled acceptedGen accepted started)

include h

/-- Outside Connected nothing is asked of the probe but its order. -/
theorem Emitted.leave {probing' : Bool} {handled' : Nat} (hprobing : probing' = true → probing = true) (hstate : state' ≠ .connected) :
    Emitted windows state' probing' handled' acceptedGen accepted started :=
  { h with
    probing_new := fun hp => h.probing_new (hprobing hp)
    probing_open := fun _ hs => absurd hs hstate
    probe := by
      intro hw
      have hquiet := h.probe hw
      cases hp : probing'
      · rfl
      · rw [hprobing hp] at hquiet
        exact hquiet }

theorem Emitted.quiet {handled' : Nat} : Emitted windows state' false handled' acceptedGen accepted started where
  started_le := h.started_le
  increase := h.increase
  probing_new := nofun
  probing_open := nofun
  probe := fun _ => rfl

/-- A new core is accepted. -/
theorem Emitted.accept {gen : Nat} (hnew : acceptedGen < gen) (hhandled : handled < gen) {probing' : Bool}
    (hprobe : windows = true → probing' = false) : Emitted windows state' probing' handled gen (accepted ++ [gen]) started where
  started_le := fun x hx => Nat.le_of_lt (Nat.lt_of_le_of_lt (h.started_le x hx) hnew)
  increase := h.increase
  probing_new := fun _ x hx => Nat.lt_of_le_of_lt (h.started_le x hx) hnew
  probing_open := fun _ _ => ⟨hhandled, mem_append_right _ (mem_singleton_self _)⟩
  probe := hprobe

/-- The newest core, which is newer than every started one, is started. -/
theorem Emitted.emit (hnew : ∀ x ∈ started, x.gen < acceptedGen) (profileId : Int) (ticket : Nat) :
    Emitted windows state false handled acceptedGen accepted (started ++ [⟨acceptedGen, profileId, ticket⟩]) where
  started_le := by
    intro x hx
    rcases mem_append.1 hx with hx | hx
    · exact h.started_le x hx
    · rw [mem_singleton] at hx
      exact hx ▸ Nat.le_refl _
  increase := by
    rw [pairwise_append]
    refine ⟨h.increase, pairwise_singleton _ _, ?_⟩
    intro x hx y hy
    rw [mem_singleton] at hy
    rw [hy]
    exact hnew x hx
  probing_new := nofun
  probing_open := nofun
  probe := fun _ => rfl

end

/-- A new assignment of `m_startWhenUp`. -/
theorem Waiting.assign (h : Waiting startWhenUp ticket started) (profileId : Int) : Waiting profileId (ticket + 1) started where
  ticket_le := fun x hx => Nat.le_succ_of_le (h.ticket_le x hx)
  unspent := fun _ x hx _ => Nat.lt_succ_of_le (h.ticket_le x hx)
  increase := h.increase

theorem Waiting.emit (h : Waiting startWhenUp ticket started) (gen : Nat) : Waiting (-1) ticket (started ++ [⟨gen, startWhenUp, ticket⟩]) where
  ticket_le := by
    intro x hx
    rcases mem_append.1 hx with hx | hx
    · exact h.ticket_le x hx
    · rw [mem_singleton] at hx
      exact hx ▸ Nat.le_refl _
  unspent := fun hneg => absurd hneg (by decide)
  increase := by
    rw [filter_append, pairwise_append]
    refine ⟨h.increase, ?_, ?_⟩
    · exact List.Pairwise.filter _ (pairwise_singleton _ _)
    · intro x hx y hy
      rw [mem_filter, mem_singleton, decide_eq_true_eq] at hy
      rw [mem_filter, decide_eq_true_eq] at hx
      obtain ⟨rfl, hy⟩ := hy
      exact h.unspent hy x hx.1 hx.2

variable {restartTimer setByCaller : Bool}

theorem Timers.other (hbackoff : state ≠ .backoff) (hgaveUp : state ≠ .gaveUp) : Timers state restartTimer startWhenUp setByCaller :=
  ⟨fun h => absurd h hbackoff, fun h => absurd h hgaveUp⟩

theorem Timers.starting : Timers .starting restartTimer startWhenUp setByCaller :=
  .other (by decide) (by decide)

theorem Timers.scheduled : Timers .backoff true startWhenUp setByCaller :=
  ⟨fun _ => rfl, nofun⟩

/-- Without a waiting start, or with one the caller set. -/
theorem Timers.noStart {setByCaller' : Bool} {startWhenUp' : Int}
    (h : Timers state restartTimer startWhenUp setByCaller) (hset : startWhenUp' < 0 ∨ setByCaller' = true) :
    Timers state restartTimer startWhenUp' setByCaller' where
  backoff := h.backoff
  gaveUp := by
    intro _ hwaits
    rcases hset with hneg | htrue
    · omega
    · exact htrue

end Parts

/-! ## Every function keeps the invariant -/

variable {windows : Bool} {s : CoreSupervisor} {t : CoreSupervisor}

section

variable (hs : Sound windows s)

include hs

theorem start_sound (profileId : Int) : Sound windows (s.start profileId) := by
  rw [start]
  split
  next => exact hs
  next =>
    have hemitted : Emitted windows .starting s.probing s.handledExitGen s.acceptedGen s.accepted s.started :=
      hs.emitted.leave id (by decide)
    split
    · exact ⟨hs.gens, hemitted, hs.waiting.assign profileId, .starting⟩
    · exact ⟨hs.gens, hemitted, hs.waiting, .starting⟩

/-- The restarts that the callers ask for; `startWhenUp` may be assigned on the way. -/
theorem restarted_sound
    (hgens : t.generation = s.generation ∧ t.handledExitGen = s.handledExitGen ∧ t.replaced = s.replaced ∧ t.acceptedGen = s.acceptedGen ∧ t.connections = s.connections ∧ t.accepted = s.accepted ∧ t.exits = s.exits)
    (hstarted : t.started = s.started) (hstate : t.state = .starting) (hprobing : t.probing = false)
    (hwaiting : Waiting t.startWhenUp t.startTicket t.started) : Sound windows t.postProcessRestart := by
  obtain ⟨h1, h2, h3, h4, h5, h6, h7⟩ := hgens
  refine ⟨?_, ?_, hwaiting, ?_⟩
  · change Gens t.generation (max t.handledExitGen t.currentGeneration)
      (max t.replaced t.currentGeneration) t.acceptedGen t.connections t.accepted t.exits
    apply Gens.restart
    rw [h1, h2, h3, h4, h5, h6, h7]
    exact hs.gens
  · change Emitted windows t.state t.probing _ t.acceptedGen t.accepted t.started
    rw [hprobing, h4, h6, hstarted]
    exact hs.emitted.quiet
  · change Timers t.state t.restartTimer _ _
    rw [hstate]
    exact .starting

theorem resetCore_sound : Sound windows s.resetCore := by
  rw [resetCore]
  split
  next => exact hs
  next =>
    split
    next =>
      exact restarted_sound hs ⟨rfl, rfl, rfl, rfl, rfl, rfl, rfl⟩ rfl rfl rfl (hs.waiting.assign (-1))
    next => exact ⟨hs.gens, hs.emitted.quiet, hs.waiting, .starting⟩

theorem restartNotListening_sound (profileId : Int) : Sound windows (s.restartNotListening profileId) := by
  rw [restartNotListening]
  split
  next => exact hs
  next =>
    exact restarted_sound hs ⟨rfl, rfl, rfl, rfl, rfl, rfl, rfl⟩ rfl rfl rfl (hs.waiting.assign profileId)

theorem restartForGuard_sound : Sound windows s.restartForGuard := by
  rw [restartForGuard]
  split
  next => exact hs
  next => exact restarted_sound hs ⟨rfl, rfl, rfl, rfl, rfl, rfl, rfl⟩ rfl rfl rfl hs.waiting

theorem killForPrivilegeChange_sound : Sound windows s.killForPrivilegeChange := by
  rw [killForPrivilegeChange]
  split
  · exact hs
  · split <;> exact ⟨hs.gens, hs.emitted, hs.waiting, hs.timers⟩

theorem restartDeadCore_sound : Sound windows s.restartDeadCore := by
  rw [restartDeadCore]
  split
  next => exact ⟨hs.gens, hs.emitted, hs.waiting, hs.timers⟩
  next =>
    exact restarted_sound hs ⟨rfl, rfl, rfl, rfl, rfl, rfl, rfl⟩ rfl rfl rfl (hs.waiting.assign s.startedId)

theorem setStartWhenUp_sound (profileId : Int) : Sound windows (s.setStartWhenUp profileId) := by
  rw [setStartWhenUp]
  split
  · exact ⟨hs.gens, hs.emitted, hs.waiting.assign profileId, hs.timers.noStart (.inr rfl)⟩
  · exact hs

theorem cancelResume_sound : Sound windows s.cancelResume :=
  ⟨hs.gens, hs.emitted, hs.waiting.assign (-1), hs.timers.noStart (.inl (show (-1 : Int) < 0 by decide))⟩

/-- The start that waits is handed over with the core that answered its probe. -/
theorem emitCoreStarted_sound (hprobing : s.probing = true) (hstate : s.state = .connected) :
    Sound windows ({ s with probing := false }.emitCoreStarted s.acceptedGen) where
  gens := hs.gens
  emitted := hs.emitted.emit (hs.emitted.probing_new hprobing) s.startWhenUp s.startTicket
  waiting := hs.waiting.emit s.acceptedGen
  timers := by
    change Timers s.state _ _ _
    rw [hstate]
    exact .other (by decide) (by decide)

theorem onPrivilegeProbed_sound (gen : Nat) (ok rpcConnected : Bool)
    (attempt : Nat) : Sound windows (s.onPrivilegeProbed gen ok rpcConnected attempt) := by
  rw [onPrivilegeProbed]
  split
  next => exact hs
  next hasked =>
    split
    next => exact hs
    next =>
      split
      next => exact hs
      next hfirst =>
        rw [not_or, not_or, not_and, not_not, not_not] at hasked
        obtain ⟨hprobing, rfl, hstate⟩ := hasked
        rw [Bool.not_eq_false] at hprobing
        exact emitCoreStarted_sound hs (hprobing (by omega)) hstate

theorem onNewConnection_sound {verified : Bool} (hcan : Can s (.newConnection verified) = true) :
    Sound windows (s.onNewConnection windows verified) := by
  cases verified with
  | false =>
    rw [onNewConnection, if_pos rfl]
    exact hs
  | true =>
    rw [Can, Bool.and_eq_true, Bool.and_eq_true, decide_eq_true_eq, Bool.not_eq_true', contains_eq_mem, decide_eq_false_iff_not] at hcan
    obtain ⟨⟨hprocess, hpos⟩, hfirst⟩ := hcan
    have hcurrent : s.currentGeneration = s.generation := by rw [currentGeneration, if_pos hprocess]
    have hnew := hs.gens.newer hpos hfirst
    have haccepted : (s.accept s.generation).acceptedGen = s.generation := if_pos hnew
    have hgens : Gens s.generation s.handledExitGen s.replaced (s.accept s.generation).acceptedGen
        (s.connections ++ [s.generation]) (s.accepted ++ [s.generation]) s.exits := by
      rw [haccepted]
      exact hs.gens.accept hnew
    rw [onNewConnection, hcurrent, if_neg (by decide)]
    split
    next => exact ⟨hs.gens.connect, hs.emitted, hs.waiting, hs.timers⟩
    next hopen =>
      have hhandled : s.handledExitGen < s.generation := by
        rw [not_or] at hopen
        exact Nat.lt_of_not_le hopen.1
      have hemitted : ∀ probing, (windows = true → probing = false) →
          Emitted windows .connected probing s.handledExitGen (s.accept s.generation).acceptedGen (s.accepted ++ [s.generation]) s.started := by
        intro probing hprobe
        rw [haccepted]
        exact hs.emitted.accept hnew hhandled hprobe
      have htimers : ∀ startWhenUp, Timers .connected s.restartTimer startWhenUp s.setByCaller :=
        fun _ => .other (by decide) (by decide)
      split
      next hwindows =>
        have hprobing : s.probing = false := hs.emitted.probe hwindows
        refine ⟨hgens, ?_, hs.waiting.emit s.generation, htimers (-1)⟩
        have hold : ∀ x ∈ s.started, x.gen < s.generation := fun x hx =>
          Nat.lt_of_le_of_lt (hs.emitted.started_le x hx) hnew
        rw [← haccepted] at hold
        have hemit := (hemitted false fun _ => rfl).emit hold s.startWhenUp s.startTicket
        change Emitted windows .connected s.probing s.handledExitGen (s.accept s.generation).acceptedGen (s.accepted ++ [s.generation])
          (s.started ++ [⟨s.generation, s.startWhenUp, s.startTicket⟩])
        rw [hprobing]
        rw [haccepted] at hemit ⊢
        exact hemit
      next hwindows =>
        exact ⟨hgens, hemitted true fun hw => absurd hw hwindows, hs.waiting, htimers s.startWhenUp⟩

theorem onCoreSpawned_sound (gen : Nat) : Sound windows (s.onCoreSpawned gen) := by
  rw [onCoreSpawned]
  split
  · exact hs
  · exact ⟨hs.gens, hs.emitted, hs.waiting, hs.timers⟩

theorem onConnectTimeout_sound : Sound windows s.onConnectTimeout := by
  rw [onConnectTimeout]
  split
  · exact ⟨hs.gens, hs.emitted, hs.waiting, hs.timers⟩
  · split <;> exact ⟨hs.gens, hs.emitted, hs.waiting, hs.timers⟩

end

/-- The members that the choice of the next start leaves alone. -/
structure SameCores (s t : CoreSupervisor) : Prop where
  generation : t.generation = s.generation
  handled : t.handledExitGen = s.handledExitGen
  replaced : t.replaced = s.replaced
  acceptedGen : t.acceptedGen = s.acceptedGen
  connections : t.connections = s.connections
  accepted : t.accepted = s.accepted
  exits : t.exits = s.exits
  started : t.started = s.started
  probing : t.probing = s.probing

theorem SameCores.gens (h : SameCores s t) (hs : Gens s.generation s.handledExitGen s.replaced s.acceptedGen s.connections s.accepted s.exits) :
    Gens t.generation t.handledExitGen t.replaced t.acceptedGen t.connections t.accepted t.exits := by
  rw [h.generation, h.handled, h.replaced, h.acceptedGen, h.connections, h.accepted, h.exits]
  exact hs

theorem SameCores.emitted (h : SameCores s t) {state state' : CoreState}
    (hs : Emitted windows state s.probing s.handledExitGen s.acceptedGen s.accepted s.started) (hstate : state' ≠ .connected) :
    Emitted windows state' t.probing t.handledExitGen t.acceptedGen t.accepted t.started := by
  rw [h.probing, h.handled, h.acceptedGen, h.accepted, h.started]
  exact hs.leave id hstate

theorem nextStart_same (s : CoreSupervisor) (wasConnected tooFrequent : Bool) : SameCores s (s.nextStart wasConnected tooFrequent) := by
  rw [nextStart]
  split
  · split <;> exact ⟨rfl, rfl, rfl, rfl, rfl, rfl, rfl, rfl, rfl⟩
  · exact ⟨rfl, rfl, rfl, rfl, rfl, rfl, rfl, rfl, rfl⟩

theorem nextStart_waiting (hs : Waiting s.startWhenUp s.startTicket s.started)
    (wasConnected tooFrequent : Bool) : Waiting (s.nextStart wasConnected tooFrequent).startWhenUp
    (s.nextStart wasConnected tooFrequent).startTicket s.started := by
  rw [nextStart]
  split
  · split
    · exact hs.assign (-1)
    · exact hs.assign s.startedId
  · exact hs

/-- An exit that nobody asked for ends in Backoff or in GaveUp. -/
theorem onUnexpectedExit_sound {state : CoreState}
    (hgens : Gens s.generation s.handledExitGen s.replaced s.acceptedGen s.connections s.accepted s.exits)
    (hemitted : Emitted windows state s.probing s.handledExitGen s.acceptedGen s.accepted s.started)
    (hwaiting : Waiting s.startWhenUp s.startTicket s.started) (wasConnected : Bool)
    (out : ExitWorld) : Sound windows (s.onUnexpectedExit wasConnected out) := by
  unfold onUnexpectedExit
  extract_lets failures startFailures tooFrequent counted t
  have hsame : SameCores s t := by
    obtain ⟨h1, h2, h3, h4, h5, h6, h7, h8, h9⟩ := nextStart_same counted wasConnected tooFrequent
    exact ⟨h1, h2, h3, h4, h5, h6, h7, h8, h9⟩
  have hwaits : Waiting t.startWhenUp t.startTicket t.started := by
    rw [hsame.started]
    exact nextStart_waiting (s := counted) hwaiting wasConnected tooFrequent
  split
  · exact ⟨hsame.gens hgens, hsame.emitted hemitted nofun, hwaits.assign (-1),
      ⟨nofun, fun _ hwaits => absurd hwaits (show ¬(0 : Int) ≤ -1 by decide)⟩⟩
  · exact ⟨hsame.gens hgens, hsame.emitted hemitted nofun, hwaits, .scheduled⟩

theorem onCoreExited_sound (hs : Sound windows s) (gen : Nat) (failedToStart : Bool)
    (exitCode : Int) (out : ExitWorld) : Sound windows (s.onCoreExited gen failedToStart exitCode out) := by
  rw [onCoreExited]
  split
  next => exact hs
  next hnew =>
    have hgens : Gens s.generation gen s.replaced s.acceptedGen s.connections s.accepted (s.exits ++ [gen]) := hs.gens.exit (Nat.lt_of_not_le hnew)
    have hemitted : Emitted windows .backoff (s.markExited gen).probing gen s.acceptedGen s.accepted s.started := by
      refine hs.emitted.leave (fun hp => ?_) (by decide)
      rw [markExited, Bool.and_eq_true] at hp
      exact hp.1
    split
    next =>
      rw [restartKilled]
      split
      · exact ⟨hgens, hemitted, hs.waiting.assign s.startedId, .scheduled⟩
      · exact ⟨hgens, hemitted, hs.waiting, .scheduled⟩
    next =>
      split
      · exact ⟨hgens, hemitted, hs.waiting, .scheduled⟩
      · exact onUnexpectedExit_sound hgens hemitted hs.waiting _ out

theorem postRestart_sound (hs : Sound windows s) : Sound windows s.postRestart := by
  rw [postRestart]
  split
  next hstate =>
    exact ⟨hs.gens, hs.emitted, hs.waiting, ⟨fun h => absurd h hstate, hs.timers.gaveUp⟩⟩
  next =>
    exact ⟨hs.gens.restart _, hs.emitted.leave id nofun, hs.waiting, .starting⟩

theorem runTask_sound (hs : Sound windows s) (task : Task) : Sound windows (s.runTask task) := by
  cases task with
  | start => exact ⟨hs.gens.spawn, hs.emitted, hs.waiting, hs.timers⟩
  | restart =>
    rw [runTask]
    split
    · exact ⟨hs.gens.spawn, hs.emitted, hs.waiting, hs.timers⟩
    · exact hs
  | resetKill | privilegeKill =>
    rw [runTask]
    split
    · exact ⟨hs.gens, hs.emitted, hs.waiting, hs.timers⟩
    · exact hs
  | timeoutKill gen => exact hs

/-- One step keeps the invariant. -/
theorem sound_step {e : Event} (hs : Sound windows s) (hcan : Can s e = true) : Sound windows (step windows s e) := by
  cases e with
  | start profileId => exact start_sound hs profileId
  | coresTurn =>
    rw [step]
    split
    next => exact hs
    next task tasks _ =>
      have htaken : Sound windows { s with tasks := tasks } :=
        ⟨hs.gens, hs.emitted, hs.waiting, hs.timers⟩
      exact runTask_sound htaken task
  | coreSpawned gen => exact onCoreSpawned_sound hs gen
  | newConnection verified => exact onNewConnection_sound hs hcan
  | privilegeProbed gen ok rpcConnected attempt => exact onPrivilegeProbed_sound hs gen ok rpcConnected attempt
  | coreExited gen failedToStart exitCode out => exact onCoreExited_sound hs gen failedToStart exitCode out
  | connectTimeout => exact onConnectTimeout_sound hs
  | restartTick => exact postRestart_sound hs
  | deadRestart => exact restartDeadCore_sound hs
  | resetCore => exact resetCore_sound hs
  | restartNotListening profileId => exact restartNotListening_sound hs profileId
  | restartForGuard => exact restartForGuard_sound hs
  | killForPrivilegeChange => exact killForPrivilegeChange_sound hs
  | setStartWhenUp profileId => exact setStartWhenUp_sound hs profileId
  | cancelResume => exact cancelResume_sound hs
  | startedIdSet profileId => exact ⟨hs.gens, hs.emitted, hs.waiting, hs.timers⟩

theorem sound_listened (listening : Bool) : Sound windows (listened listening) where
  gens := ⟨Nat.le_refl 0, forall_mem_nil _, .nil, forall_mem_nil _, forall_mem_nil _, .inl rfl⟩
  emitted :=
    { started_le := forall_mem_nil _
      increase := .nil
      probing_new := nofun
      probing_open := nofun
      probe := fun _ => rfl }
  waiting := ⟨forall_mem_nil _, fun _ => forall_mem_nil _, .nil⟩
  timers := by cases listening <;> exact .other (by decide) (by decide)

end Throne.Engine.Supervisor
