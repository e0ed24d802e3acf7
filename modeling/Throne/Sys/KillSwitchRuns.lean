import Throne.Sys.KillSwitchSafety

/-!
# Runs of the kill switch

One event keeps `Sound` and moves the guards only as it says (`step_moves`). Over a run the events
are the record of what each guard was heard to say, so the guard in force is one that reported
`READY` in this run and has neither reported a failure nor exited since.
-/

namespace Throne.Sys

open Lib Lib.Texts KillSwitch List

/-! ## The events of one guard -/

/-- The event carries a line of guard `g` that satisfies `P`. -/
def Event.Says (e : Event) (g : Nat) (P : List Char → Prop) : Prop :=
  match e with
  | .line k text _ => k = g ∧ P text
  | .finished k drained _ _ _ => k = g ∧ ∃ text ∈ drained, P text
  | _ => False

/-- The process of guard `g` is over with the event. -/
def Event.Ends (e : Event) (g : Nat) : Prop :=
  match e with
  | .finished k _ _ _ _ => k = g
  | .startFailed k _ => k = g
  | _ => False

/-! ## The exit of a guard -/

variable {g : Nat}

section Finished

variable {R F E : Nat → Prop} {s : KillSwitch}

theorem processIs_of_runningIn (h : runningIn s.guards g) : s.processIs g .running = true := by
  obtain ⟨guard, hg, hp⟩ := h
  rw [processIs, hg, Option.any_some, hp]
  rfl

theorem closedIn_of_isClosing {guard : Guard} (hg : s.guards[g]? = some guard) (h : s.isClosing g = true) : closedIn s.guards g := by
  rw [isClosing, hg, Option.all_some] at h
  exact ⟨guard, hg, h⟩

theorem readLine_closes (host : Host) (hs : Sound s) (hrun : s.processIs g .running = true) {text : List Char} (hfails : reportsFailure text)
    (out : Outside) : closedIn (s.readLine host g text out).guards g := by
  obtain ⟨guard, hg, -⟩ := processIs_true hrun
  have hline : (trimmed text).isEmpty = false := by
    cases htext : trimmed text with
    | nil =>
      rw [reportsFailure, htext] at hfails
      rcases hfails with h | h <;> exact absurd h (by decide)
    | cons c cs => rfl
  have hwarn : firstWord (trimmed text) ≠ "WARN" := by
    rcases hfails with h | h <;> rw [h] <;> decide
  have hready : firstWord (trimmed text) ≠ "READY" := by
    rcases hfails with h | h <;> rw [h] <;> decide
  have hother : ¬(firstWord (trimmed text) ≠ "ERROR" ∧ firstWord (trimmed text) ≠ "FAIL") :=
    fun h => hfails.elim h.1 h.2
  rw [readLine, hline, if_neg (by decide), handleLine, if_neg hwarn, if_neg hready, if_neg hother]
  split
  next hclosing => exact closedIn_of_isClosing hg hclosing
  next => exact lost_closes host hs hg Guard.close_closing _ _ _ out

/-- The output that is left when a guard exits: its process still runs for the lines, and a failure
among them closes it. -/
theorem drain_outcome (host : Host) (out : Outside) (drained : List (List Char)) : ∀ {s : KillSwitch}, Sound s → s.processIs g .running = true →
    (∀ text ∈ drained, reportsReady text → R g) → (∀ text ∈ drained, reportsFailure text → F g) →
    Outcome R F (fun _ => False) s (drained.foldl (fun s text => s.readLine host g text out) s) ∧
    (drained.foldl (fun s text => s.readLine host g text out) s).processIs g .running = true := by
  induction drained with
  | nil => exact fun hs hrun _ _ => ⟨.refl hs, hrun⟩
  | cons text drained ih =>
    intro s hs hrun hR hF
    have hline : Outcome R F (fun _ => False) s (s.readLine host g text out) :=
      readLine_outcome host hs hrun (hR text mem_cons_self) (hF text mem_cons_self) out
    have hstill : (s.readLine host g text out).processIs g .running = true := by
      rcases hline.moves.running_stays g (processIs_true hrun) with h | h
      · exact processIs_of_runningIn h
      · exact h.elim
    obtain ⟨hrest, hend⟩ := ih hline.sound hstill (fun t ht => hR t (mem_cons_of_mem text ht)) (fun t ht => hF t (mem_cons_of_mem text ht))
    exact ⟨hline.trans hrest, hend⟩

theorem onFinished_outcome (host : Host) (hs : Sound s)
    (hrun : s.processIs g .running = true) {drained : List (List Char)} (hR : ∀ text ∈ drained, reportsReady text → R g)
    (hF : ∀ text ∈ drained, reportsFailure text → F g) (hE : E g) (exitCode : Int) (crashed : Bool)
    (out : Outside) : Outcome R F E s (s.onFinished host g drained exitCode crashed out) ∧
    closedIn (s.onFinished host g drained exitCode crashed out).guards g := by
  obtain ⟨hdrained, hstill⟩ := drain_outcome host out drained hs hrun hR hF
  rw [onFinished]
  extract_lets how
  generalize drained.foldl (fun s text => s.readLine host g text out) s = t at *
  have ht : Outcome R F E s t := hdrained.mono fun _ h => h.elim
  obtain ⟨guard, hg, -⟩ := processIs_true hstill
  split
  next hclosing =>
    obtain ⟨guard', hg', hclosed⟩ := closedIn_of_isClosing hg hclosing
    -- A closed guard has left its slot.
    have ha : t.active ≠ some g := by
      intro ha
      obtain ⟨x, hx, hforce⟩ := ht.sound.slots.inForce g ha
      rw [hg'] at hx
      cases hx
      rw [hforce.opened] at hclosed
      cases hclosed
    have hp : t.pending ≠ some g := by
      intro hp
      obtain ⟨x, hx, hlive⟩ := ht.sound.slots.live g hp
      rw [hg'] at hx
      cases hx
      rw [hlive.opened] at hclosed
      cases hclosed
    refine ⟨ht.trans (close_other ht.sound ha hp Guard.over_ready Guard.over_closing fun _ => .inr hE), ?_⟩
    exact ⟨guard.over, Lists.getElem?_modify_self hg, rfl⟩
  next =>
    refine ⟨ht.trans ?_, ?_⟩
    · exact lost_outcome host ht.sound Guard.over_ready Guard.over_closing (fun _ => .inr hE) (.inr hE) kCrash _ _ out
    · exact lost_closes host ht.sound hg Guard.over_closing kCrash _ _ out

end Finished

/-! ## One event -/

variable {e : Event}

section OneEvent

variable {R F E : Nat → Prop} {s : KillSwitch}

theorem Sound.applicable (hs : Sound s) (settings : Settings) : Applicable { s with settings := settings } where
  slots := hs.slots
  disabled := by
    intro h
    obtain ⟨-, hactive, hpending, hidentity⟩ := hs.disabled h
    exact ⟨hactive, hpending, fun _ => hidentity⟩
  arming := hs.arming
  armed := fun h => (hs.armed h).1

theorem Sound.keep (hs : Sound s) {f : Guard → Guard} (hready : ∀ x, (f x).ready = x.ready) (hclosing : ∀ x, (f x).closing = x.closing)
    (hinput : ∀ x, (f x).inputOpen = x.inputOpen)
    (hprocess : ∀ x, (f x).process = x.process ∨ (f x).process = .running) : Sound (s.updateGuard g f) :=
  ⟨hs.slots.keep hready hclosing hinput hprocess, hs.disabled, hs.arming, hs.armed⟩

/-- A write that keeps the flags of a guard. -/
theorem keep_outcome (hs : Sound s) {f : Guard → Guard} (hready : ∀ x, (f x).ready = x.ready) (hclosing : ∀ x, (f x).closing = x.closing)
    (hinput : ∀ x, (f x).inputOpen = x.inputOpen)
    (hprocess : ∀ x, (f x).process = x.process ∨ (f x).process = .running) : Outcome R F E s (s.updateGuard g f) where
  sound := hs.keep hready hclosing hinput hprocess
  moves := by
    apply Moves.keep hready hclosing
    intro x hx
    rcases hprocess x with h | h
    · rw [h, hx]
    · exact h
  settings := rfl
  overridden := rfl

theorem onReadyTimeout_outcome (hs : Sound s) (g : Nat) : Outcome R F E s (s.onReadyTimeout g) := by
  rw [onReadyTimeout]
  split
  next => exact .refl hs
  next h =>
    have hp : s.pending = some g := by
      by_contra hne
      exact h (.inl hne)
    exact drop_pending_armFailed hs hp Guard.close_ready Guard.close_closing (fun hrun => .inl (running_close hrun)) _ _

/-- A step that leaves the guards and the state alone. -/
theorem frame_outcome {t : KillSwitch} (hs : Sound s) (hframe : Frame s t) (hstate : t.state = s.state) : Outcome R F E s t :=
  .of_frame hframe (hframe.sound hstate hs) .refl rfl rfl

theorem portTurn_outcome (host : Host) (hs : Sound s) (out : Outside) : Outcome R F E s (s.portTurn host out) := by
  have hframe : Frame s { s with portTurns := s.portTurns - 1 } := ⟨rfl, rfl, rfl, rfl, rfl, rfl⟩
  rw [portTurn]
  split
  · exact frame_outcome hs hframe rfl
  · split
    · exact frame_outcome hs hframe rfl
    · apply Outcome.after_frame hframe
      exact apply_outcome host ((hframe.sound rfl hs).applicable s.settings) out

theorem respawnTurn_outcome (host : Host) (hs : Sound s) (out : Outside) : Outcome R F E s (s.respawnTurn host out) := by
  have hframe : Frame s { s with respawnTurns := s.respawnTurns - 1 } := ⟨rfl, rfl, rfl, rfl, rfl, rfl⟩
  rw [respawnTurn]
  split
  · exact frame_outcome hs hframe rfl
  · split
    · exact frame_outcome hs hframe rfl
    · apply Outcome.after_frame hframe
      exact apply_outcome host ((hframe.sound rfl hs).applicable s.settings) out

theorem noteIdentityUnsupported_outcome (host : Host) (hs : Sound s) (detail : String)
    (out : Outside) : Outcome R F E s (s.noteIdentityUnsupported host detail out) := by
  have hnoted : Applicable { s with identityDetail := detail, identityUnsupported := true } := by
    refine ⟨hs.slots, ?_, hs.arming, fun h => (hs.armed h).1⟩
    intro h
    obtain ⟨hoff, hactive, hpending, -⟩ := hs.disabled h
    refine ⟨hactive, hpending, fun hon => ?_⟩
    rw [hoff] at hon
    cases hon
  have happly : Outcome R F E _ (s.noteIdentityUnsupported host detail out) := apply_outcome host hnoted out
  exact ⟨happly.sound, happly.moves, happly.settings, happly.overridden⟩

theorem setApiPort_frame (s : KillSwitch) (port : UInt16) : Frame s (s.setApiPort port) ∧ (s.setApiPort port).state = s.state := by
  rw [setApiPort]
  split <;> exact ⟨⟨rfl, rfl, rfl, rfl, rfl, rfl⟩, rfl⟩

theorem whenSettled_frame (s : KillSwitch) (context : Option Nat) (ticket : Nat) :
    Frame s (s.whenSettled context ticket) ∧ (s.whenSettled context ticket).state = s.state := by
  rw [whenSettled]
  split <;> exact ⟨⟨rfl, rfl, rfl, rfl, rfl, rfl⟩, rfl⟩

theorem whenIdle_frame (s : KillSwitch) (ticket : Nat) : Frame s (s.whenIdle ticket) ∧ (s.whenIdle ticket).state = s.state := by
  rw [whenIdle]
  split <;> exact ⟨⟨rfl, rfl, rfl, rfl, rfl, rfl⟩, rfl⟩

/-- The switch from which an event is handled: a change of the settings comes first. -/
def Event.receive (e : Event) (s : KillSwitch) : KillSwitch :=
  match e with
  | .apply settings _ => { s with settings := settings }
  | _ => s

theorem step_outcome (host : Host) (hs : Sound s) (hcan : Can s e = true) :
    Outcome (fun g => e.Says g reportsReady) (fun g => e.Says g reportsFailure) (fun g => e.Ends g) (e.receive s) (step host s e) := by
  cases e with
  | apply settings out => exact apply_outcome host (hs.applicable settings) out
  | started g =>
    exact keep_outcome hs (fun _ => rfl) (fun _ => rfl) (fun _ => rfl) fun _ => .inr rfl
  | line g text out =>
    exact readLine_outcome host hs hcan (fun h => ⟨rfl, h⟩) (fun h => ⟨rfl, h⟩) out
  | finished g drained exitCode crashed out =>
    exact (onFinished_outcome host hs hcan (fun text ht h => ⟨rfl, text, ht, h⟩) (fun text ht h => ⟨rfl, text, ht, h⟩) rfl exitCode crashed out).1
  | startFailed g errorString => exact onStartFailed_outcome host hs hcan errorString
  | readyTimeout g =>
    have hsound : Sound (s.updateGuard g fun guard => { guard with readyTimer := false }) :=
      hs.keep (fun _ => rfl) (fun _ => rfl) (fun _ => rfl) fun _ => .inl rfl
    apply Outcome.trans _ (onReadyTimeout_outcome hsound g)
    exact keep_outcome hs (fun _ => rfl) (fun _ => rfl) (fun _ => rfl) fun _ => .inl rfl
  | noteIdentityUnsupported detail out => exact noteIdentityUnsupported_outcome host hs detail out
  | setApiPort port => exact frame_outcome hs (setApiPort_frame s port).1 (setApiPort_frame s port).2
  | portTurn out => exact portTurn_outcome host hs out
  | respawnTurn out => exact respawnTurn_outcome host hs out
  | prepareExit | contextGone context => exact frame_outcome hs ⟨rfl, rfl, rfl, rfl, rfl, rfl⟩ rfl
  | whenSettled context ticket =>
    exact frame_outcome hs (whenSettled_frame s context ticket).1 (whenSettled_frame s context ticket).2
  | whenIdle ticket => exact frame_outcome hs (whenIdle_frame s ticket).1 (whenIdle_frame s ticket).2

/-- A guard that reports a failure or exits is closed with the event. -/
theorem step_closes (host : Host) (hs : Sound s) (hcan : Can s e = true)
    (hg : e.Says g reportsFailure ∨ e.Ends g) : closedIn (step host s e).guards g := by
  cases e with
  | line k text out =>
    rcases hg with ⟨rfl, hfails⟩ | hends
    · exact readLine_closes host hs hcan hfails out
    · cases hends
  | finished k drained exitCode crashed out =>
    have hk : k = g := hg.elim (fun h => h.1) id
    rw [← hk]
    exact (onFinished_outcome host hs hcan (R := fun _ => True) (F := fun _ => True)
      (E := fun _ => True) (fun _ _ _ => trivial) (fun _ _ _ => trivial) trivial exitCode crashed
      out).2
  | startFailed k errorString =>
    have hk : k = g := hg.elim (fun h => h.elim) id
    obtain ⟨guard, hguard, -⟩ := processIs_true hcan
    have hclosed : closedIn (s.guards.modify k Guard.over) k := ⟨guard.over, Lists.getElem?_modify_self hguard, rfl⟩
    rw [← hk]
    change closedIn (s.onStartFailed host k errorString).guards k
    rw [onStartFailed]
    split
    · rw [(armFailed_frame _ kInternal _).guards]
      exact hclosed
    · exact hclosed
  | apply | started | readyTimeout | noteIdentityUnsupported | setApiPort | portTurn | respawnTurn
  | prepareExit | whenSettled | whenIdle | contextGone => rcases hg with h | h <;> cases h

end OneEvent

/-! ## Runs from the program's start -/

/-- The events of a run account for the flags of the guards. -/
structure Heard (past : List Event) (s : KillSwitch) : Prop where
  ready : ∀ g, readyIn s.guards g → ∃ e ∈ past, e.Says g reportsReady
  failed : ∀ g, (∃ e ∈ past, e.Says g reportsFailure ∨ e.Ends g) → closedIn s.guards g

theorem receive_guards (e : Event) (s : KillSwitch) : (e.receive s).guards = s.guards := by
  cases e <;> rfl

theorem step_heard (host : Host) {past : List Event} {s : KillSwitch} (hs : Sound s)
    (hheard : Heard past s) (hcan : Can s e = true) : Heard (past ++ [e]) (step host s e) := by
  have hmoves := (step_outcome host hs hcan).moves
  rw [receive_guards] at hmoves
  constructor
  · intro g hg
    rcases hmoves.ready_heard g hg with hbefore | hsays
    · obtain ⟨e', he', hsays⟩ := hheard.ready g hbefore
      exact ⟨e', mem_append_left [e] he', hsays⟩
    · exact ⟨e, by simp, hsays⟩
  · rintro g ⟨e', he', hends⟩
    rcases mem_append.1 he' with hpast | hnow
    · exact hmoves.closed_stays g (hheard.failed g ⟨e', hpast, hends⟩)
    · rw [mem_singleton] at hnow
      rw [hnow] at hends
      exact step_closes host hs hcan hends

/-- Every run keeps the invariant and the account. -/
theorem run_sound (host : Host) (events : List Event) : ∀ (past : List Event) (s : KillSwitch), Sound s → Heard past s →
    Runs.Along (step host) (fun s e => Can s e = true) s events → Sound (Runs.run (step host) s events) ∧
    Heard (past ++ events) (Runs.run (step host) s events) := by
  induction events with
  | nil =>
    intro past s hs hheard _
    rw [append_nil]
    exact ⟨hs, hheard⟩
  | cons e events ih =>
    rintro past s hs hheard ⟨hcan, hrest⟩
    have hnext := ih (past ++ [e]) (step host s e) (step_outcome host hs hcan).sound (step_heard host hs hheard hcan) hrest
    rw [append_assoc, singleton_append] at hnext
    exact hnext

theorem begun_sound (host : Host) (settings : Settings) (apiPort : UInt16) (overridden : Bool) (out : Outside) :
    Sound (begun host settings apiPort overridden out) ∧ Heard [] (begun host settings apiPort overridden out) := by
  have hbuilt : Applicable (built settings apiPort overridden) := by
    refine ⟨⟨fun g h => ?_, fun g h => ?_, fun g guard h => ?_⟩, fun _ => ⟨rfl, rfl, fun _ => rfl⟩, fun h => ?_, fun h => ?_⟩ <;> cases h
  have hbegun : Outcome (fun _ => False) (fun _ => False) (fun _ => False) _
      (begun host settings apiPort overridden out) := apply_outcome host hbuilt out
  refine ⟨hbegun.sound, ?_, ?_⟩
  · intro g hg
    rcases hbegun.moves.ready_heard g hg with ⟨guard, hnone, -⟩ | hfalse
    · cases hnone
    · exact hfalse.elim
  · rintro g ⟨e, he, -⟩
    cases he

/-- Guard `g` is in force after the run of `events`: it reported `READY` in this run and has neither
reported a failure nor exited, it is not closed, and its process runs with its input open. -/
def InForce (s : KillSwitch) (events : List Event) (g : Nat) : Prop :=
  (∃ guard : Guard, s.guards[g]? = some guard ∧ guard.InForce) ∧ (∃ e ∈ events, e.Says g reportsReady) ∧
    ∀ e ∈ events, ¬e.Says g reportsFailure ∧ ¬e.Ends g

theorem Sound.active_inForce {s : KillSwitch} {events : List Event} (hs : Sound s)
    (hheard : Heard events s) (hg : s.active = some g) : InForce s events g := by
  obtain ⟨guard, hguard, hforce⟩ := hs.slots.inForce g hg
  have hopen : ¬closedIn s.guards g := by
    rintro ⟨guard', hguard', hclosed⟩
    rw [hguard] at hguard'
    cases hguard'
    rw [hforce.opened] at hclosed
    cases hclosed
  refine ⟨⟨guard, hguard, hforce⟩, hheard.ready g ⟨guard, hguard, hforce.ready⟩, ?_⟩
  intro e he
  exact ⟨fun h => hopen (hheard.failed g ⟨e, he, .inl h⟩), fun h => hopen (hheard.failed g ⟨e, he, .inr h⟩)⟩

/-- The kill switch fails closed. -/
structure FailsClosed (host : Host) (s : KillSwitch) (events : List Event) : Prop where
  armed : s.state = .armed → ∃ g, s.active = some g ∧ InForce s events g
  arming : s.state = .arming → s.active = none ∧ ∃ g guard, s.pending = some g ∧ s.guards[g]? = some guard ∧ guard.Live
  disabled : s.state = .disabled → s.settings.killSwitch = false ∧ ∀ (g : Nat) (guard : Guard), s.guards[g]? = some guard → guard.closing = true
  starts : s.allowsStart = true → s.settings.killSwitch = false ∨ ∃ g, s.active = some g ∧ InForce s events g
  noGap : ∀ e, Can s e = true → On (step host s e) → ∀ g, s.active = some g → closedIn (step host s e).guards g →
      e.Says g reportsFailure ∨ e.Ends g ∨ ∃ h, h ≠ g ∧ e.Says h reportsReady ∧ readyIn (step host s e).guards h

/-- After every run from the program's start the switch fails closed: Armed has a guard in force,
Arming has an open guard that may still report and none in force, Disabled has the setting off and no
open guard, and no step opens a gap while the setting is on and not overridden. -/
theorem fails_closed (host : Host) (settings : Settings) (apiPort : UInt16) (overridden : Bool)
    (out : Outside) (events : List Event) (hrun : Runs.Along (step host) (fun s e => Can s e = true)
    (begun host settings apiPort overridden out) events) : FailsClosed host
    (Runs.run (step host) (begun host settings apiPort overridden out) events) events := by
  obtain ⟨hbegun, hnothing⟩ := begun_sound host settings apiPort overridden out
  obtain ⟨hs, hheard⟩ := run_sound host events [] _ hbegun hnothing hrun
  rw [nil_append] at hheard
  generalize Runs.run (step host) (begun host settings apiPort overridden out) events = s at *
  have harmed : s.state = .armed → ∃ g, s.active = some g ∧ InForce s events g := by
    intro h
    obtain ⟨g, hg⟩ := Option.isSome_iff_exists.1 (hs.armed h).1
    exact ⟨g, hg, hs.active_inForce hheard hg⟩
  refine ⟨harmed, ?_, ?_, ?_, ?_⟩
  · intro h
    obtain ⟨hactive, hpending⟩ := hs.arming h
    obtain ⟨g, hg⟩ := Option.isSome_iff_exists.1 hpending
    obtain ⟨guard, hguard, hlive⟩ := hs.slots.live g hg
    exact ⟨hactive, g, guard, hg, hguard, hlive⟩
  · intro h
    obtain ⟨hoff, hactive, hpending, -⟩ := hs.disabled h
    refine ⟨hoff, ?_⟩
    intro g guard hguard
    by_contra hopen
    rcases hs.slots.inSlot g guard hguard (Bool.eq_false_iff.2 hopen) with h | h
    · rw [hactive] at h
      cases h
    · rw [hpending] at h
      cases h
  · intro h
    rw [allowsStart, Bool.or_eq_true, beq_iff_eq, beq_iff_eq] at h
    rcases h with h | h
    · exact .inl (hs.disabled h).1
    · exact .inr (harmed h)
  · intro e hcan hon g hg hclosed
    have hstep := step_outcome host hs hcan
    have hmoves := hstep.moves
    rw [receive_guards, ← hstep.on_eq] at hmoves
    obtain ⟨guard, hguard, hforce⟩ := hs.slots.inForce g hg
    have hopen : ¬closedIn s.guards g := by
      rintro ⟨guard', hguard', hc⟩
      rw [hguard] at hguard'
      cases hguard'
      rw [hforce.opened] at hc
      cases hc
    have hcause := hmoves.handover hon g ⟨guard, hguard, hforce.ready⟩ hopen hclosed
    rcases hcause with hfails | hends | ⟨k, hne, hready, hbefore⟩
    · exact .inl hfails
    · exact .inr (.inl hends)
    · exact .inr (.inr ⟨k, hne, (hmoves.ready_heard k hready).resolve_left hbefore, hready⟩)

/-- A host and settings for a run: the switch is on. -/
def linuxHost : Host := ⟨.linux, id, id, "ThroneCore"⟩

def switchedOn : Settings := ⟨true, false, "172.19.0.1/24", "fdfe:dcba:9876::1/96", true, []⟩

/-- The API port changes under a guard in force; the guard with the new port reports and the old one
is closed and exits. -/
def portChange : List Event :=
  [.started 0, .line 0 "READY".toList ⟨none, false⟩, .setApiPort 19810, .portTurn ⟨none, false⟩,
    .started 1, .line 1 "READY".toList ⟨none, false⟩, .finished 0 [] 0 false ⟨none, false⟩]

theorem fails_closed_port_change : FailsClosed linuxHost
    (Runs.run (step linuxHost) (begun linuxHost switchedOn 0 false ⟨none, false⟩) portChange) portChange :=
  fails_closed linuxHost switchedOn 0 false ⟨none, false⟩ portChange (by decide)

example :
    let s := Runs.run (step linuxHost) (begun linuxHost switchedOn 0 false ⟨none, false⟩) portChange
    s.state = .armed ∧ s.active = some 1 ∧ s.isClosing 0 = true := by decide

end Throne.Sys
