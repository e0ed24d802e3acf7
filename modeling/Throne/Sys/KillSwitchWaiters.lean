import Mathlib.Data.List.Perm.Subperm
import Throne.Lib.History
import Throne.Sys.KillSwitch

/-!
# Who waits for the kill switch

`whenSettled` and `whenIdle` answer at once or put their caller off, and `settle` answers the callers whose wait is
over. No change of the state forgets to call it, so nobody waits for what has come already (`callers_answered`).
-/

namespace Throne.Sys

open KillSwitch Lib.Runs List

/-- The ticket and the context of a call that is to be answered. -/
def Event.asks : Event → Option (Nat × Option Nat)
  | .whenSettled context ticket => some (ticket, context)
  | .whenIdle ticket => some (ticket, none)
  | _ => none

namespace KillSwitch

/-- The tickets that are answered or wait. -/
def tickets (s : KillSwitch) : List Nat := s.answers.map Prod.fst ++ s.waiters.map Waiter.ticket

/-- A caller is answered, waits, or is gone. -/
def Heard (s : KillSwitch) (ask : Nat × Option Nat) : Prop :=
  ask.1 ∈ s.answers.map Prod.fst ∨ (∃ w ∈ s.waiters, (w.ticket, w.context) = ask) ∨ ∃ context ∈ s.gone, ask.2 = some context

/-- Of those who `asked`, nobody is answered twice or forgotten. -/
def Kept (s : KillSwitch) (asked : List (Nat × Option Nat)) : Prop := s.tickets.Subperm (asked.map Prod.fst) ∧ ∀ ask ∈ asked, s.Heard ask

/-- And whoever waits has to. -/
def Served (s : KillSwitch) (asked : List (Nat × Option Nat)) : Prop := s.Kept asked ∧ ∀ w ∈ s.waiters, s.waits w = true

variable {s : KillSwitch} {asked : List (Nat × Option Nat)} {host : Host} {g : Nat} {out : Outside} {code message : String} {config : GuardConfig}

theorem Kept.settle (h : s.Kept asked) : s.settle.Served asked := by
  refine ⟨⟨.trans ?_ h.1, fun ask hask => ?_⟩, fun w hw => (mem_filter.1 hw).2⟩
  · have hparts := (filter_append_perm s.waits s.waiters).map Waiter.ticket
    rw [map_append] at hparts
    rw [tickets, tickets, KillSwitch.settle]
    simp only [map_append, map_map, append_assoc]
    refine (Subperm.refl _).append ((Sublist.subperm ?_).trans (perm_append_comm.trans hparts).subperm)
    exact (filter_sublist.map Waiter.ticket).append_right _
  rcases h.2 ask hask with hdone | ⟨w, hw, rfl⟩ | hgone
  · refine .inl ?_
    rw [KillSwitch.settle, map_append]
    exact mem_append_left _ hdone
  · by_cases hwaits : s.waits w = true
    · exact .inr (.inl ⟨w, mem_filter.2 ⟨hw, hwaits⟩, rfl⟩)
    by_cases hcalled : (w.context.all fun c => !s.gone.contains c) = true
    · refine .inl ?_
      rw [KillSwitch.settle, map_append, map_map]
      refine mem_append_right _ (mem_map.2 ⟨w, mem_filter.2 ⟨mem_filter.2 ⟨hw, ?_⟩, hcalled⟩, rfl⟩)
      rw [Bool.eq_false_iff.2 hwaits]
      rfl
    · refine .inr (.inr ?_)
      cases hcontext : w.context with
      | none => exact absurd (by rw [hcontext]; rfl) hcalled
      | some c =>
        rw [hcontext] at hcalled
        exact ⟨c, by simpa [KillSwitch.settle] using hcalled, rfl⟩
  · exact .inr (.inr hgone)

theorem Kept.setState (h : s.Kept asked) (state : State) : (s.setState state).Kept asked := by
  rw [KillSwitch.setState]
  split <;> exact h

theorem Kept.closeGuard (h : s.Kept asked) (g : Option Nat) : (s.closeGuard g).Kept asked := by
  cases g <;> exact h

theorem Kept.closePending (h : s.Kept asked) : s.closePending.Kept asked := by
  apply Kept.closeGuard
  exact h

theorem Kept.fail (h : s.Kept asked) : (s.fail code message).Served asked := by
  apply Kept.settle
  apply Kept.setState
  exact h

theorem Kept.failIdentity (h : s.Kept asked) : s.failIdentity.Served asked := by
  rw [KillSwitch.failIdentity]
  split
  · exact h.fail
  · exact h.settle

theorem Kept.armFailed (h : s.Kept asked) : (s.armFailed code message).Served asked := by
  rw [KillSwitch.armFailed]
  split
  · apply Kept.settle
    split <;> exact h
  · exact h.fail

theorem Served.onStartFailed (hs : s.Served asked) : (onStartFailed host s g message).Served asked := by
  rw [KillSwitch.onStartFailed]
  split
  · exact Kept.armFailed hs.1
  · exact hs

/-- Whoever waits for an idle switch waits for the new guard. -/
theorem Kept.spawn (h : s.Kept asked) (hwait : ∀ w ∈ s.waiters, w.idle = false → s.state = .arming) : (s.spawn host config out).Served asked := by
  have hadded : (s.addGuard config).Served asked := by
    have hclosed : s.closePending.Kept asked := h.closePending
    have hsame : s.closePending.waiters = s.waiters ∧ s.closePending.state = s.state := by
      rw [KillSwitch.closePending]
      cases s.pending <;> exact ⟨rfl, rfl⟩
    rw [addGuard]
    split
    · rw [KillSwitch.setState, if_neg (by decide)]
      refine ⟨hclosed, fun w _ => ?_⟩
      rw [waits]
      split <;> rfl
    · refine ⟨hclosed, fun w hw => ?_⟩
      rw [waits]
      split
      · rfl
      · next hidle => exact beq_iff_eq.2 (hsame.2.trans (hwait w (hsame.1 ▸ hw) (Bool.eq_false_iff.2 hidle)))
  rw [KillSwitch.spawn]
  split
  · exact hadded
  · exact hadded.onStartFailed

theorem Served.waiting (hs : s.Served asked) : ∀ w ∈ s.waiters, w.idle = false → s.state = .arming := by
  intro w hw hidle
  have hwaits := hs.2 w hw
  rw [waits, hidle] at hwaits
  exact beq_iff_eq.1 hwaits

theorem Kept.closeBoth (h : s.Kept asked) : s.closePending.closeActive.Kept asked := by
  apply Kept.closeGuard
  exact h.closePending

theorem Kept.applyOff (h : s.Kept asked) (hoff : s.settings.killSwitch = false) : (s.apply host out).Served asked := by
  rw [KillSwitch.apply, if_pos hoff]
  apply Kept.settle
  apply Kept.setState
  apply Kept.closeBoth
  exact h

theorem Served.apply (hs : s.Served asked) : (s.apply host out).Served asked := by
  by_cases hoff : s.settings.killSwitch = false
  · exact hs.1.applyOff hoff
  rw [KillSwitch.apply, if_neg hoff]
  split
  · dsimp only
    split
    · exact hs.1.closeBoth.settle
    · exact hs.1.closeBoth.fail
  · have hfirst : (if s.identityUnsupported = true ∧ s.state = .armed then s.failIdentity else s).Served asked := by
      split
      · exact hs.1.failIdentity
      · exact hs
    generalize (if s.identityUnsupported = true ∧ s.state = .armed then s.failIdentity else s) = s₁ at hfirst ⊢
    dsimp only
    split
    · exact hfirst
    · split
      · split
        · exact hfirst.1.closePending.settle
        · exact hfirst
      · exact hfirst.1.spawn hfirst.waiting

theorem Kept.protectionLost (h : s.Kept asked) (hwait : ∀ w ∈ s.waiters, w.idle = false → s.state = .arming) :
    (s.protectionLost host code message out).Served asked := by
  rw [KillSwitch.protectionLost]
  split
  · next hoff => exact h.applyOff hoff
  · split
    · apply Kept.settle
      split
      · exact h
      · exact h.setState _
    · split
      · exact Kept.spawn h hwait
      · exact h.fail

theorem Served.onReady (hs : s.Served asked) : (s.onReady g).Served asked := by
  rw [KillSwitch.onReady]
  split
  · exact hs
  · dsimp only
    split
    · apply Kept.failIdentity
      apply Kept.closeGuard
      exact hs.1
    · apply Kept.settle
      apply Kept.setState
      apply Kept.closeGuard
      exact hs.1

theorem Served.lost (hs : s.Served asked) {close : Guard → Guard} {lostMessage failedMessage : String} :
    (lost host s g close code lostMessage failedMessage out).Served asked := by
  rw [KillSwitch.lost]
  split
  · exact Kept.protectionLost hs.1 hs.waiting
  · split
    · exact Kept.armFailed hs.1
    · exact hs

theorem Served.readLine (hs : s.Served asked) (text : List Char) : (s.readLine host g text out).Served asked := by
  rw [KillSwitch.readLine, handleLine]
  split
  · exact hs
  · dsimp only
    split
    · exact hs
    · split
      · exact hs.onReady
      · split
        · exact hs
        · split
          · exact hs
          · exact hs.lost

end KillSwitch

variable {s : KillSwitch} {asked : List (Nat × Option Nat)} {host : Host}

/-- No step forgets a caller. -/
theorem served_step {e : Event} (hs : s.Served asked) (hasks : e.asks = none) : (step host s e).Served asked := by
  cases e with
  | apply settings out | noteIdentityUnsupported detail out => exact Served.apply hs
  | started g | prepareExit => exact hs
  | line g text out => exact hs.readLine text
  | finished g drained exitCode crashed out =>
    have hdrained : (drained.foldl (fun s text => s.readLine host g text out) s).Served asked := by
      clear hasks
      induction drained generalizing s with
      | nil => exact hs
      | cons text drained ih => exact ih (hs.readLine text)
    rw [step, onFinished]
    dsimp only
    split
    · exact hdrained
    · exact hdrained.lost
  | startFailed g errorString => exact hs.onStartFailed
  | readyTimeout g =>
    rw [step, onReadyTimeout]
    split
    · exact hs
    · apply Kept.armFailed
      apply Kept.closeGuard
      exact hs.1
  | setApiPort port =>
    rw [step, setApiPort]
    split <;> exact hs
  | portTurn out | respawnTurn out =>
    simp only [step, portTurn, respawnTurn]
    split
    · exact hs
    · split
      · exact hs
      · exact Served.apply hs
  | whenSettled context ticket | whenIdle ticket => cases hasks
  | contextGone context =>
    refine ⟨⟨hs.1.1, fun ask hask => ?_⟩, hs.2⟩
    exact (hs.1.2 ask hask).imp_right (Or.imp_right fun ⟨c, hc, hsame⟩ => ⟨c, mem_cons_of_mem _ hc, hsame⟩)

theorem served_answer (hs : s.Served asked) (ask : Nat × Option Nat) (armed : Bool) :
    KillSwitch.Served { s with answers := s.answers ++ [(ask.1, armed)] } (asked ++ [ask]) := by
  refine ⟨⟨?_, fun other hother => ?_⟩, hs.2⟩
  · simp only [tickets, map_append, append_assoc]
    refine (perm_append_comm.append_left _).subperm.trans ?_
    rw [← append_assoc]
    exact hs.1.1.append (.refl _)
  · simp only [KillSwitch.Heard, map_append, mem_append]
    rcases mem_append.1 hother with hother | hother
    · exact (hs.1.2 other hother).imp_left .inl
    · rw [mem_singleton.1 hother]
      exact .inl (.inr mem_cons_self)

theorem served_wait (hs : s.Served asked) (w : Waiter) (hw : s.waits w = true) :
    KillSwitch.Served { s with waiters := s.waiters ++ [w] } (asked ++ [(w.ticket, w.context)]) := by
  refine ⟨⟨?_, fun other hother => ?_⟩, fun w' hw' => ?_⟩
  · simp only [tickets, map_append, ← append_assoc]
    exact hs.1.1.append (.refl _)
  · simp only [KillSwitch.Heard, mem_append]
    rcases mem_append.1 hother with hother | hother
    · exact (hs.1.2 other hother).imp_right (Or.imp_left fun ⟨w', hw', hsame⟩ => ⟨w', .inl hw', hsame⟩)
    · rw [mem_singleton.1 hother]
      exact .inr (.inl ⟨w, .inr mem_cons_self, rfl⟩)
  · rcases mem_append.1 hw' with hw' | hw'
    · exact hs.2 w' hw'
    · rw [mem_singleton.1 hw']
      exact hw

/-- **Every call of `whenSettled` and `whenIdle` is answered**, at most once, unless its caller is gone or has to wait:
for the end of the arming, or for a guard that is not ready yet. -/
theorem callers_answered (host : Host) (settings : Settings) (apiPort : UInt16) (overridden : Bool) (out : Outside) (es : List Event) :
    (run (step host) (begun host settings apiPort overridden out) es).Served (es.filterMap Event.asks) := by
  have hbuilt : (built settings apiPort overridden).Served [] :=
    ⟨⟨.refl _, fun ask hask => absurd hask not_mem_nil⟩, fun w hw => absurd hw not_mem_nil⟩
  refine @inv_history _ _ (step host) (fun es s => s.Served (es.filterMap Event.asks)) _ hbuilt.apply ?_ es
  intro es e hs
  rw [filterMap_append]
  cases e with
  | whenSettled context ticket =>
    rw [step, whenSettled]
    split
    · exact served_answer hs (ticket, context) _
    · next hstate => exact served_wait hs ⟨context, false, ticket⟩ (beq_iff_eq.2 (not_not.1 hstate))
  | whenIdle ticket =>
    rw [step, whenIdle]
    split
    · exact served_answer hs (ticket, none) _
    · next hpending => exact served_wait hs ⟨none, true, ticket⟩ (Option.isSome_iff_ne_none.2 hpending)
  | _ =>
    change KillSwitch.Served _ (_ ++ [])
    rw [append_nil]
    exact served_step hs rfl

end Throne.Sys
