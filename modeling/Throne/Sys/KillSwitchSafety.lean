import Throne.Sys.KillSwitchSlots

/-!
# The kill switch fails closed

`Sound` is the invariant of the switch between two events: the state it reports is the state of its
slots. Each function of the model has one lemma that says what it needs of the switch and that
`Sound` holds after it, and one that bounds what it does to the guards (`Moves`). A run is then a
fold of steps, and what a guard was heard to say in a run is read off its events.
-/

namespace Throne.Sys

open Lib Lib.Lists Lib.Texts KillSwitch

/-- The state that the switch reports agrees with its slots and its setting. -/
structure Sound (s : KillSwitch) : Prop where
  slots : Slots s.guards s.active s.pending
  disabled : s.state = .disabled → s.settings.killSwitch = false ∧ s.active = none ∧ s.pending = none ∧ s.identityUnsupported = false
  arming : s.state = .arming → s.active = none ∧ s.pending.isSome = true
  armed : s.state = .armed → s.active.isSome = true ∧ s.identityUnsupported = false

variable {s : KillSwitch}

theorem Sound.of_failed (hslots : Slots s.guards s.active s.pending) (h : s.state = .failed) : Sound s where
  slots := hslots
  disabled := fun hs => by rw [h] at hs; cases hs
  arming := fun hs => by rw [h] at hs; cases hs
  armed := fun hs => by rw [h] at hs; cases hs

/-! ## Functions that leave the guards alone -/

/-- `s'` has the guards, the slots, the settings and the identity flag of `s`. -/
structure Frame (s s' : KillSwitch) : Prop where
  guards : s'.guards = s.guards
  active : s'.active = s.active
  pending : s'.pending = s.pending
  settings : s'.settings = s.settings
  overridden : s'.overridden = s.overridden
  identity : s'.identityUnsupported = s.identityUnsupported

variable {s' s'' : KillSwitch}

theorem Frame.trans (h : Frame s s') (h' : Frame s' s'') : Frame s s'' :=
  ⟨h'.guards.trans h.guards, h'.active.trans h.active, h'.pending.trans h.pending,
    h'.settings.trans h.settings, h'.overridden.trans h.overridden, h'.identity.trans h.identity⟩

theorem Frame.slots (h : Frame s s') (hs : Slots s.guards s.active s.pending) : Slots s'.guards s'.active s'.pending := by
  rw [h.guards, h.active, h.pending]
  exact hs

theorem Frame.sound (h : Frame s s') (hstate : s'.state = s.state) (hs : Sound s) : Sound s' where
  slots := h.slots hs.slots
  disabled := by
    rw [hstate, h.settings, h.active, h.pending, h.identity]
    exact hs.disabled
  arming := by
    rw [hstate, h.active, h.pending]
    exact hs.arming
  armed := by
    rw [hstate, h.active, h.identity]
    exact hs.armed

section

variable (s)

theorem setState_frame (state : State) : Frame s (s.setState state) := by
  rw [setState]
  split <;> exact ⟨rfl, rfl, rfl, rfl, rfl, rfl⟩

@[simp] theorem setState_state (state : State) : (s.setState state).state = state := by
  rw [setState]
  split
  next h => exact h.symm
  next => rfl

theorem settle_frame : Frame s s.settle := ⟨rfl, rfl, rfl, rfl, rfl, rfl⟩

@[simp] theorem settle_state : s.settle.state = s.state := rfl

theorem fail_frame (code message : String) : Frame s (s.fail code message) := ⟨rfl, rfl, rfl, rfl, rfl, rfl⟩

@[simp] theorem fail_state (code message : String) : (s.fail code message).state = .failed := by
  rw [fail, settle_state, setState_state]

theorem failIdentity_frame : Frame s s.failIdentity := by
  rw [failIdentity]
  split <;> exact ⟨rfl, rfl, rfl, rfl, rfl, rfl⟩

@[simp] theorem failIdentity_state : s.failIdentity.state = .failed := by
  rw [failIdentity]
  split
  next => rw [settle_state, setState_state]
  next h =>
    rw [settle_state]
    by_contra hne
    exact h (.inl hne)

theorem armFailed_frame (code message : String) : Frame s (s.armFailed code message) := by
  rw [armFailed]
  split
  · split <;> exact ⟨rfl, rfl, rfl, rfl, rfl, rfl⟩
  · exact fail_frame s code message

end

/-- A failed attempt leaves a switch with a guard in force as it is, and fails any other. -/
theorem armFailed_sound (hslots : Slots s.guards s.active s.pending)
    (hs : s.active.isSome = true → Sound s) (code message : String) : Sound (s.armFailed code message) := by
  rw [armFailed]
  split
  next hactive =>
    apply Frame.sound _ _ (hs hactive)
    · split <;> exact ⟨rfl, rfl, rfl, rfl, rfl, rfl⟩
    · rw [settle_state]
      split <;> rfl
  next => exact .of_failed ((fail_frame s code message).slots hslots) (fail_state s code message)

/-! ## Closing the slots -/

theorem closePending_slots (h : Slots s.guards s.active s.pending) : Slots s.closePending.guards s.closePending.active none := by
  rw [closePending]
  cases hp : s.pending with
  | none =>
    rw [hp] at h
    exact h
  | some g =>
    rw [hp] at h
    exact h.drop_pending Guard.close_closing

theorem closeActive_slots (h : Slots s.guards s.active s.pending) : Slots s.closeActive.guards none s.closeActive.pending := by
  rw [closeActive]
  cases ha : s.active with
  | none =>
    rw [ha] at h
    exact h
  | some g =>
    rw [ha] at h
    exact h.drop_active Guard.close_closing

/-- `closePending` changes nothing but the guards and its slot. -/
theorem closePending_eq (s : KillSwitch) : s.closePending = { s with pending := none, guards := s.closePending.guards } := by
  rw [closePending]
  cases s.pending <;> rfl

theorem closeActive_eq (s : KillSwitch) : s.closeActive = { s with active := none, guards := s.closeActive.guards } := by
  rw [closeActive]
  cases s.active <;> rfl

variable {f : Guard → Guard} {g : Nat}

section Outcome

variable {R F E : Nat → Prop} {on : Prop}

/-- The pending guard was not in force. -/
theorem closePending_moves (h : Slots s.guards s.active s.pending) : Moves R F E on s.guards s.closePending.guards := by
  rw [closePending]
  cases hp : s.pending with
  | none => exact Moves.refl
  | some g =>
    apply Moves.close
    rintro - ⟨guard, hg, hready⟩ -
    obtain ⟨guard', hg', hlive⟩ := h.live g hp
    rw [hg] at hg'
    cases hg'
    rw [hlive.waiting] at hready
    cases hready

/-- The active guard may be closed when the switch is off or overridden. -/
theorem closeActive_moves (s : KillSwitch) (hoff : ¬on) : Moves R F E on s.guards s.closeActive.guards := by
  rw [closeActive]
  cases s.active with
  | none => exact Moves.refl
  | some g => exact Moves.close fun hon => absurd hon hoff

/-- The switch is on for this run. -/
def On (s : KillSwitch) : Prop := s.settings.killSwitch = true ∧ s.overridden = false

/-- What every function of the model does: the switch is sound after it, the guards move as allowed
and the setting and the override stay. -/
structure Outcome (R F E : Nat → Prop) (s s' : KillSwitch) : Prop where
  sound : Sound s'
  moves : Moves R F E (On s) s.guards s'.guards
  settings : s'.settings = s.settings
  overridden : s'.overridden = s.overridden

theorem Outcome.refl (hs : Sound s) : Outcome R F E s s := ⟨hs, Moves.refl, rfl, rfl⟩

theorem Outcome.on_eq (h : Outcome R F E s s') : On s' = On s := by
  rw [On, On, h.settings, h.overridden]

theorem Outcome.trans (h : Outcome R F E s s') (h' : Outcome R F E s' s'') : Outcome R F E s s'' where
  sound := h'.sound
  moves := h.moves.trans (h.on_eq ▸ h'.moves)
  settings := h'.settings.trans h.settings
  overridden := h'.overridden.trans h.overridden

theorem Outcome.mono {E' : Nat → Prop} (h : Outcome R F E s s') (hE : ∀ g, E g → E' g) : Outcome R F E' s s' :=
  ⟨h.sound, h.moves.mono hE, h.settings, h.overridden⟩

/-- An outcome followed by functions that leave the guards alone. -/
theorem Outcome.of_frame (hframe : Frame s' s'') (hsound : Sound s'')
    (hmoves : Moves R F E (On s) s.guards s'.guards) (hsettings : s'.settings = s.settings)
    (hoverridden : s'.overridden = s.overridden) : Outcome R F E s s'' where
  sound := hsound
  moves := by
    rw [hframe.guards]
    exact hmoves
  settings := hframe.settings.trans hsettings
  overridden := hframe.overridden.trans hoverridden

theorem Outcome.after_frame (hframe : Frame s s') (h : Outcome R F E s' s'') : Outcome R F E s s'' where
  sound := h.sound
  moves := by
    have hmoves := h.moves
    rw [hframe.guards] at hmoves
    rw [On, ← hframe.settings, ← hframe.overridden]
    exact hmoves
  settings := h.settings.trans hframe.settings
  overridden := h.overridden.trans hframe.overridden

/-! ## A guard leaves the pending slot -/

theorem Slots.not_ready (h : Slots s.guards s.active s.pending) (hp : s.pending = some g) : ¬readyIn s.guards g := by
  rintro ⟨guard, hg, hready⟩
  obtain ⟨guard', hg', hlive⟩ := h.live g hp
  rw [hg] at hg'
  cases hg'
  rw [hlive.waiting] at hready
  cases hready

theorem drop_pending_armFailed (hs : Sound s) (hp : s.pending = some g) (hready : ∀ x, (f x).ready = x.ready)
    (hclosing : ∀ x, (f x).closing = true) (hrun : runningIn s.guards g → runningIn (s.guards.modify g f) g ∨ E g) (code message : String) :
    Outcome R F E s (armFailed (updateGuard { s with pending := none } g f) code message) := by
  have hslots := hs.slots
  rw [hp] at hslots
  have hdropped := hslots.drop_pending hclosing
  have hframe := armFailed_frame (updateGuard { s with pending := none } g f) code message
  refine Outcome.of_frame hframe ?_ ?_ rfl rfl
  · apply armFailed_sound hdropped
    -- With a guard in force the state was neither Disabled nor Arming.
    intro hactive
    refine ⟨hdropped, ?_, ?_, hs.armed⟩
    · intro hstate
      rw [updateGuard, (hs.disabled hstate).2.1] at hactive
      cases hactive
    · intro hstate
      rw [updateGuard, (hs.arming hstate).1] at hactive
      cases hactive
  · apply Moves.modify hready (fun x _ => hclosing x) hrun
    exact fun _ hr => absurd hr (hs.slots.not_ready hp)

/-- A guard outside the slots is closed already. -/
theorem close_other (hs : Sound s) (ha : s.active ≠ some g) (hp : s.pending ≠ some g) (hready : ∀ x, (f x).ready = x.ready)
    (hclosing : ∀ x, (f x).closing = true) (hrun : runningIn s.guards g → runningIn (s.guards.modify g f) g ∨ E g) :
    Outcome R F E s (s.updateGuard g f) where
  sound := ⟨hs.slots.modify_closed ha hp hclosing, hs.disabled, hs.arming, hs.armed⟩
  moves := by
    apply Moves.modify hready (fun x _ => hclosing x) hrun
    rintro - ⟨guard, hg, -⟩ hopen
    cases hc : guard.closing with
    | true => exact absurd ⟨guard, hg, hc⟩ hopen
    | false =>
      rcases hs.slots.inSlot g guard hg hc with h | h
      · exact absurd h ha
      · exact absurd h hp
  settings := rfl
  overridden := rfl

theorem processIs_true {p : ProcessState} (h : s.processIs g p = true) : ∃ guard : Guard, s.guards[g]? = some guard ∧ guard.process = p := by
  rw [processIs] at h
  cases hg : s.guards[g]? with
  | none => simp [hg] at h
  | some guard => exact ⟨guard, rfl, by simpa [hg] using h⟩

/-- A guard that starts is not the active one, and its failure ends no running process. -/
theorem onStartFailed_outcome (host : Host) (hs : Sound s) (hstarting : s.processIs g .starting = true) (errorString : String) :
    Outcome R F E s (s.onStartFailed host g errorString) := by
  obtain ⟨guard, hg, hprocess⟩ := processIs_true hstarting
  have hnot : ¬runningIn s.guards g := by
    rintro ⟨guard', hg', hrun⟩
    rw [hg] at hg'
    cases hg'
    rw [hprocess] at hrun
    cases hrun
  have ha : s.active ≠ some g := by
    intro ha
    obtain ⟨guard', hg', hforce⟩ := hs.slots.inForce g ha
    exact hnot ⟨guard', hg', hforce.running⟩
  rw [onStartFailed]
  split
  next h =>
    rw [Bool.and_eq_true, beq_iff_eq] at h
    exact drop_pending_armFailed hs h.2 Guard.over_ready Guard.over_closing (fun hr => absurd hr hnot) _ _
  next h =>
    by_cases hp : s.pending = some g
    · obtain ⟨guard', hg', hlive⟩ := hs.slots.live g hp
      have hopen : s.isClosing g = false := by
        rw [isClosing, hg', Option.all_some, hlive.opened]
      exact absurd (by simp [hopen, hp]) h
    · exact close_other hs ha hp Guard.over_ready Guard.over_closing fun hr => absurd hr hnot

/-! ## Starting a guard -/

/-- What `spawn` needs: its own writes then bring the state and the slots together. -/
structure Spawnable (s : KillSwitch) : Prop where
  slots : Slots s.guards s.active s.pending
  disabled : s.state = .disabled → s.active = none ∧ s.identityUnsupported = false
  arming : s.state = .arming → s.active = none
  armed : s.state = .armed → s.identityUnsupported = false

theorem closePending_length (s : KillSwitch) : s.closePending.guards.length = s.guards.length := by
  rw [closePending]
  cases s.pending with
  | none => rfl
  | some g => exact List.length_modify Guard.close s.guards g

/-- The guards and the slots after `addGuard`; the state is Arming, or it is unchanged while a guard
is in force or the identity failure lasts. -/
theorem addGuard_spec (s : KillSwitch) (config : GuardConfig) : (s.addGuard config).guards
    = s.closePending.guards ++ [Guard.fresh config s.active.isSome] ∧ (s.addGuard config).active = s.active ∧
    (s.addGuard config).pending = some s.guards.length ∧ (s.addGuard config).settings = s.settings ∧
    (s.addGuard config).overridden = s.overridden ∧ (s.addGuard config).identityUnsupported = s.identityUnsupported ∧
    ((s.addGuard config).state = .arming ∧ s.active = none ∨ (s.addGuard config).state = s.state ∧
    (s.active.isSome = true ∨ s.identityUnsupported = true)) := by
  have hlen := closePending_length s
  rw [addGuard, closePending_eq]
  split
  next h =>
    have hframe := setState_frame
      { s with
        guards := s.closePending.guards ++ [Guard.fresh config s.active.isSome]
        pending := some s.closePending.guards.length } .arming
    refine ⟨hframe.guards, hframe.active, ?_, hframe.settings, hframe.overridden, hframe.identity, .inl ⟨setState_state _ .arming, h.1⟩⟩
    rw [← hlen]
    exact hframe.pending
  next h =>
    refine ⟨rfl, rfl, congrArg some hlen, rfl, rfl, rfl, .inr ⟨rfl, ?_⟩⟩
    cases ha : s.active with
    | some g => exact .inl rfl
    | none =>
      cases hi : s.identityUnsupported with
      | true => exact .inr rfl
      | false => exact absurd ⟨ha, hi⟩ h

theorem addGuard_outcome (hs : Spawnable s) (config : GuardConfig) : Outcome R F E s (s.addGuard config) := by
  obtain ⟨hguards, hactive, hpending, hsettings, hoverridden, hidentity, hstate⟩ :=
    addGuard_spec s config
  have hclosed := closePending_slots hs.slots
  rw [closePending_eq] at hclosed
  have hpushed := hclosed.push config s.active.isSome
  rw [closePending_length] at hpushed
  refine ⟨⟨?_, ?_, ?_, ?_⟩, ?_, hsettings, hoverridden⟩
  · rw [hguards, hactive, hpending]
    exact hpushed
  · intro h
    -- A switch in Disabled would have gone to Arming.
    rcases hstate with ⟨harming, -⟩ | ⟨hsame, hwhy⟩
    · rw [harming] at h
      cases h
    · obtain ⟨hnone, hfalse⟩ := hs.disabled (hsame ▸ h)
      rw [hnone, hfalse] at hwhy
      rcases hwhy with hwhy | hwhy <;> cases hwhy
  · intro h
    rw [hactive, hpending]
    rcases hstate with ⟨-, hnone⟩ | ⟨hsame, -⟩
    · exact ⟨hnone, rfl⟩
    · exact ⟨hs.arming (hsame ▸ h), rfl⟩
  · intro h
    rw [hactive, hidentity]
    rcases hstate with ⟨harming, -⟩ | ⟨hsame, hwhy⟩
    · rw [harming] at h
      cases h
    · have hfalse := hs.armed (hsame ▸ h)
      rcases hwhy with hsome | htrue
      · exact ⟨hsome, hfalse⟩
      · rw [hfalse] at htrue
        cases htrue
  · rw [hguards]
    exact (closePending_moves hs.slots).trans (Moves.push config _)

theorem spawn_outcome (host : Host) (hs : Spawnable s) (config : GuardConfig) (out : Outside) : Outcome R F E s (s.spawn host config out) := by
  have hadd : Outcome R F E s (s.addGuard config) := addGuard_outcome hs config
  rw [spawn]
  split
  next => exact hadd
  next error _ =>
    have hstarting : (s.addGuard config).processIs s.guards.length .starting = true := by
      rw [processIs, (addGuard_spec s config).1, ← closePending_length, List.getElem?_concat_length]
      rfl
    exact hadd.trans (onStartFailed_outcome host hadd.sound hstarting error)

/-! ## `apply` -/

theorem closeBoth_eq (s : KillSwitch) : s.closePending.closeActive
    = { s with active := none, pending := none, guards := s.closePending.closeActive.guards } := by
  rw [closeActive_eq, closePending_eq]

theorem closeBoth_slots (h : Slots s.guards s.active s.pending) : Slots s.closePending.closeActive.guards none none := by
  have hpending := closePending_slots h
  have hslot : s.closePending.pending = none := by rw [closePending_eq]
  rw [← hslot] at hpending
  have hactive := closeActive_slots hpending
  rw [closeActive_eq, hslot] at hactive
  exact hactive

/-- With the setting off or overridden `apply` closes both guards and sets the state to Disabled or
Failed. -/
theorem closeBoth_outcome (hslots : Slots s.guards s.active s.pending) (hoff : ¬On s) (hframe : Frame s.closePending.closeActive s')
    (hstate : s'.state = .disabled ∧ s.settings.killSwitch = false ∧
    s.identityUnsupported = false ∨ s'.state = .failed) : Outcome R F E s s' := by
  have heq := closeBoth_eq s
  have hactive : s'.active = none := by rw [hframe.active, heq]
  have hpending : s'.pending = none := by rw [hframe.pending, heq]
  have hsettings : s'.settings = s.settings := by rw [hframe.settings, heq]
  have hclosed : Slots s'.guards s'.active s'.pending := by
    rw [hframe.guards, hactive, hpending]
    exact closeBoth_slots hslots
  refine Outcome.of_frame hframe ?_ ?_ (by rw [heq]) (by rw [heq])
  · rcases hstate with ⟨hdisabled, hkill, hidentity⟩ | hfailed
    · refine ⟨hclosed, ?_, ?_, ?_⟩
      · exact fun _ => ⟨by rw [hsettings, hkill], hactive, hpending, by rw [hframe.identity, heq, hidentity]⟩
      all_goals
        intro h
        rw [hdisabled] at h
        cases h
    · exact .of_failed hclosed hfailed
  · exact (closePending_moves hslots).trans (closeActive_moves s.closePending hoff)

theorem apply_off (host : Host) (hslots : Slots s.guards s.active s.pending)
    (hoff : s.settings.killSwitch = false) (out : Outside) : Outcome R F E s (s.apply host out) := by
  have hnot : ¬On s := by
    rintro ⟨hon, -⟩
    rw [hoff] at hon
    cases hon
  rw [apply, if_pos hoff]
  let t : KillSwitch := { s with identityUnsupported := false, identityDetail := "" }
  have hframe : Frame t.closePending.closeActive (settle (setState t.closePending.closeActive .disabled)) :=
    (setState_frame _ .disabled).trans (settle_frame _)
  have hstate : (settle (setState t.closePending.closeActive .disabled)).state = .disabled := by
    rw [settle_state, setState_state]
  have h : Outcome R F E t (settle (setState t.closePending.closeActive .disabled)) :=
    closeBoth_outcome hslots hnot hframe (.inl ⟨hstate, hoff, rfl⟩)
  exact ⟨h.sound, h.moves, h.settings, h.overridden⟩

theorem apply_overridden (host : Host) (hslots : Slots s.guards s.active s.pending) (hon : s.settings.killSwitch = true)
    (hover : s.overridden = true) (out : Outside) : Outcome R F E s (s.apply host out) := by
  have hnot : ¬On s := by
    rintro ⟨-, hfalse⟩
    rw [hover] at hfalse
    cases hfalse
  rw [apply, if_neg (by rw [hon]; decide), if_pos hover]
  extract_lets t
  split
  next h => exact closeBoth_outcome hslots hnot (settle_frame _) (.inr h.1)
  next => exact closeBoth_outcome hslots hnot (fail_frame _ _ _) (.inr (fail_state _ _ _))

/-- What `apply` needs: the settings may have changed and the identity note may be new. -/
structure Applicable (s : KillSwitch) : Prop where
  slots : Slots s.guards s.active s.pending
  disabled : s.state = .disabled → s.active = none ∧ s.pending = none ∧ (s.settings.killSwitch = true → s.identityUnsupported = false)
  arming : s.state = .arming → s.active = none ∧ s.pending.isSome = true
  armed : s.state = .armed → s.active.isSome = true

/-- The pending guard is given up while another one is in force. -/
theorem closePending_outcome (hs : Sound s) (hactive : s.active.isSome = true) : Outcome R F E s s.closePending.settle := by
  have heq := closePending_eq s
  have hframe := settle_frame s.closePending
  refine Outcome.of_frame hframe ⟨?_, ?_, ?_, ?_⟩ (closePending_moves hs.slots) (by rw [heq]) (by rw [heq])
  · apply hframe.slots
    have hslots := closePending_slots hs.slots
    rw [heq] at hslots ⊢
    exact hslots
  · intro h
    rw [settle_state, heq] at h
    rw [(hs.disabled h).2.1] at hactive
    cases hactive
  · intro h
    rw [settle_state, heq] at h
    rw [(hs.arming h).1] at hactive
    cases hactive
  · intro h
    rw [settle_state, heq] at h
    rw [hframe.active, hframe.identity, heq]
    exact hs.armed h

/-- The rest of `apply` once an identity note was made. -/
theorem apply_rest (host : Host) (hs : Applicable s) (hon : s.settings.killSwitch = true)
    (hnoted : s.state = .armed → s.identityUnsupported = false) (config : GuardConfig) (out : Outside) : Outcome R F E s
    (if (s.pending.bind fun g => s.guards[g]?).any (·.config = config) then s
    else if (s.active.bind fun g => s.guards[g]?).any (·.config = config) then
    if s.pending.isSome then settle s.closePending else s else s.spawn host config out) := by
  have hslot : ∀ slot : Option Nat, (slot.bind fun g => s.guards[g]?).any (·.config = config) = true → slot.isSome = true := by
    intro slot h
    cases slot with
    | none => cases h
    | some g => rfl
  -- With a guard in one of the slots the state is not Disabled.
  have hsound : s.pending.isSome = true ∨ s.active.isSome = true → Sound s := by
    intro h
    refine ⟨hs.slots, ?_, hs.arming, fun ha => ⟨hs.armed ha, hnoted ha⟩⟩
    intro hd
    obtain ⟨ha, hp, -⟩ := hs.disabled hd
    rw [ha, hp] at h
    rcases h with h | h <;> cases h
  split
  next hp => exact .refl (hsound (.inl (hslot _ hp)))
  next =>
    split
    next ha =>
      have hactive := hslot _ ha
      have hnow := hsound (.inr hactive)
      split
      next => exact closePending_outcome hnow hactive
      next => exact .refl hnow
    next =>
      apply spawn_outcome host
      exact ⟨hs.slots, fun hd => ⟨(hs.disabled hd).1, (hs.disabled hd).2.2 hon⟩, fun ha => (hs.arming ha).1, hnoted⟩

theorem apply_outcome (host : Host) (hs : Applicable s) (out : Outside) : Outcome R F E s (s.apply host out) := by
  cases hon : s.settings.killSwitch with
  | false => exact apply_off host hs.slots hon out
  | true =>
    cases hover : s.overridden with
    | true => exact apply_overridden host hs.slots hon hover out
    | false =>
      rw [apply, if_neg (by rw [hon]; decide), if_neg (by rw [hover]; decide)]
      extract_lets t
      by_cases hnote : s.identityUnsupported = true ∧ s.state = .armed
      · -- The note turns an armed switch into a failed one and keeps its guard.
        have ht : t = s.failIdentity := if_pos hnote
        have hframe : Frame s t := by
          rw [ht]
          exact failIdentity_frame s
        have hfailed : t.state = .failed := by rw [ht, failIdentity_state]
        have happlicable : Applicable t := by
          refine ⟨hframe.slots hs.slots, ?_, ?_, ?_⟩ <;> intro h <;> rw [hfailed] at h <;> cases h
        apply Outcome.after_frame hframe
        apply apply_rest host happlicable (by rw [hframe.settings, hon])
        intro h
        rw [hfailed] at h
        cases h
      · have ht : t = s := if_neg hnote
        rw [ht]
        apply apply_rest host hs hon
        intro harmed
        cases hidentity : s.identityUnsupported with
        | false => rfl
        | true => exact absurd ⟨hidentity, harmed⟩ hnote

/-! ## What a guard reports -/

theorem protectionLost_outcome (host : Host) (hslots : Slots s.guards s.active s.pending) (hactive : s.active = none)
    (hdisabled : s.state ≠ .disabled) (harming : s.state ≠ .arming)
    (harmed : s.state = .armed → s.identityUnsupported = false) (code message : String)
    (out : Outside) : Outcome R F E s (s.protectionLost host code message out) := by
  rw [protectionLost]
  split
  next hoff => exact apply_off host hslots hoff out
  next =>
    split
    next hpending =>
      cases hidentity : s.identityUnsupported with
      | true =>
        have hfailed : s.state = .failed := by
          cases hstate : s.state with
          | disabled => exact absurd hstate hdisabled
          | arming => exact absurd hstate harming
          | armed =>
            rw [harmed hstate] at hidentity
            cases hidentity
          | failed => rfl
        exact .of_frame (settle_frame s) (.of_failed hslots hfailed) .refl rfl rfl
      | false =>
        have hframe : Frame s (settle (s.setState .arming)) := (setState_frame s .arming).trans (settle_frame _)
        have hstate : (settle (s.setState .arming)).state = .arming := by
          rw [settle_state, setState_state]
        apply Outcome.of_frame hframe _ .refl rfl rfl
        refine ⟨hframe.slots hslots, ?_, ?_, ?_⟩
        · intro h
          rw [hstate] at h
          cases h
        · intro _
          rw [hframe.active, hframe.pending]
          exact ⟨hactive, hpending⟩
        · intro h
          rw [hstate] at h
          cases h
    next =>
      split
      next =>
        extract_lets t
        have hframe : Frame s t := ⟨rfl, rfl, rfl, rfl, rfl, rfl⟩
        apply Outcome.after_frame hframe
        apply spawn_outcome host
        exact ⟨hslots, fun h => absurd h hdisabled, fun h => absurd h harming, harmed⟩
      next =>
        exact .of_frame (fail_frame s code message) (.of_failed ((fail_frame s code message).slots hslots) (fail_state s code message)) .refl rfl rfl

theorem onReady_outcome (hs : Sound s) (hrun : s.processIs g .running = true) (hR : R g) : Outcome R F E s (s.onReady g) := by
  obtain ⟨guard, hg, hprocess⟩ := processIs_true hrun
  rw [onReady]
  split
  next => exact .refl hs
  next hpending =>
    have hp : s.pending = some g := by
      by_contra hne
      exact hpending (.inl hne)
    have hwaiting : guard.ready = false := by
      obtain ⟨guard', hg', hlive⟩ := hs.slots.live g hp
      rw [hg] at hg'
      cases hg'
      exact hlive.waiting
    have hslots := hs.slots
    rw [hp] at hslots
    extract_lets previous t u
    have hu : Slots u.guards (some g) none ∧ Moves R F E (On s) s.guards u.guards ∧ u.active = some g ∧ u.pending = none ∧ u.settings = s.settings ∧
        u.overridden = s.overridden := by
      cases ha : s.active with
      | none =>
        rw [ha] at hslots
        have hu : u = { t with active := some g, pending := none } := by
          simp only [u, previous, ha, closeGuard]
        rw [hu]
        exact ⟨hslots.promote_first hg hprocess, Moves.armed hR, rfl, rfl, rfl, rfl⟩
      | some k =>
        rw [ha] at hslots
        have hu : u = updateGuard { t with active := some g, pending := none } k Guard.close := by
          simp only [u, previous, ha, closeGuard]
        rw [hu]
        exact ⟨hslots.promote hg hprocess, Moves.replace (hslots.ne rfl rfl).symm hR hg hwaiting, rfl, rfl, rfl, rfl⟩
    obtain ⟨huslots, humoves, huactive, hupending, husettings, huoverridden⟩ := hu
    rw [← huactive, ← hupending] at huslots
    split
    next =>
      exact .of_frame (failIdentity_frame u) (.of_failed ((failIdentity_frame u).slots huslots) (failIdentity_state u))
        humoves husettings huoverridden
    next hidentity =>
      have hframe : Frame u (settle (u.setState .armed)) := (setState_frame u .armed).trans (settle_frame _)
      have hstate : (settle (u.setState .armed)).state = .armed := by
        rw [settle_state, setState_state]
      refine .of_frame hframe ⟨hframe.slots huslots, ?_, ?_, ?_⟩ humoves husettings huoverridden
      · intro h
        rw [hstate] at h
        cases h
      · intro h
        rw [hstate] at h
        cases h
      · intro _
        rw [hframe.active, hframe.identity, huactive]
        exact ⟨rfl, Bool.eq_false_iff.2 hidentity⟩

section Lost

variable (host : Host) {s : KillSwitch} {g : Nat} {f : Guard → Guard} {code lostMessage failedMessage : String} {out : Outside}

theorem lost_active (ha : s.active = some g) (hp : s.pending ≠ some g) : s.lost host g f code lostMessage failedMessage out
    = protectionLost host (updateGuard { s with active := none } g f) code lostMessage out := by
  simp [lost, ha, hp]

theorem lost_pending (ha : s.active ≠ some g) (hp : s.pending = some g) : s.lost host g f code lostMessage failedMessage out
    = armFailed (updateGuard { s with pending := none } g f) code failedMessage := by
  simp [lost, ha, hp]

theorem lost_other (ha : s.active ≠ some g) (hp : s.pending ≠ some g) : s.lost host g f code lostMessage failedMessage out = s.updateGuard g f := by
  simp [lost, ha, hp]

end Lost

/-- The guard in force is lost: the switch is armed again or fails. -/
theorem lost_active_outcome (host : Host) (hs : Sound s) (ha : s.active = some g) (hclosing : ∀ x, (f x).closing = true)
    (code message : String) (out : Outside) :
    Outcome R F E (updateGuard { s with active := none } g f)
      (protectionLost host (updateGuard { s with active := none } g f) code message out) := by
  have hslots := hs.slots
  rw [ha] at hslots
  apply protectionLost_outcome host (hslots.drop_active hclosing) rfl
  · intro h
    have hnone := (hs.disabled h).2.1
    rw [ha] at hnone
    cases hnone
  · intro h
    have hnone := (hs.arming h).1
    rw [ha] at hnone
    cases hnone
  · exact fun h => (hs.armed h).2

/-- A guard reports that it failed, or exits. -/
theorem lost_outcome (host : Host) (hs : Sound s) (hready : ∀ x, (f x).ready = x.ready) (hclosing : ∀ x, (f x).closing = true)
    (hrun : runningIn s.guards g → runningIn (s.guards.modify g f) g ∨ E g) (hFE : F g ∨ E g)
    (code lostMessage failedMessage : String) (out : Outside) : Outcome R F E s (s.lost host g f code lostMessage failedMessage out) := by
  by_cases ha : s.active = some g
  · have hp : s.pending ≠ some g := fun hp => hs.slots.ne ha hp rfl
    have hlost : Outcome R F E _ _ := lost_active_outcome host hs ha hclosing code lostMessage out
    have hclose : Moves R F E (On s) s.guards (s.guards.modify g f) :=
      Moves.modify hready (fun x _ => hclosing x) hrun fun _ _ _ _ => hFE
    rw [lost_active host ha hp]
    exact ⟨hlost.sound, hclose.trans hlost.moves, hlost.settings, hlost.overridden⟩
  · by_cases hp : s.pending = some g
    · rw [lost_pending host ha hp]
      exact drop_pending_armFailed hs hp hready hclosing hrun code failedMessage
    · rw [lost_other host ha hp]
      exact close_other hs ha hp hready hclosing hrun

/-- The guard that was lost is closed. -/
theorem lost_closes (host : Host) (hs : Sound s) {guard : Guard} (hg : s.guards[g]? = some guard) (hclosing : ∀ x, (f x).closing = true)
    (code lostMessage failedMessage : String) (out : Outside) : closedIn (s.lost host g f code lostMessage failedMessage out).guards g := by
  have hnow : closedIn (s.guards.modify g f) g := ⟨f guard, getElem?_modify_self hg, hclosing guard⟩
  by_cases ha : s.active = some g
  · have hp : s.pending ≠ some g := fun hp => hs.slots.ne ha hp rfl
    -- Whatever follows, a closed guard stays closed.
    have hlost : Outcome (fun _ => False) (fun _ => False) (fun _ => False) _ _ :=
      lost_active_outcome host hs ha hclosing code lostMessage out
    rw [lost_active host ha hp]
    exact hlost.moves.closed_stays g hnow
  · by_cases hp : s.pending = some g
    · rw [lost_pending host ha hp, (armFailed_frame _ code failedMessage).guards]
      exact hnow
    · rw [lost_other host ha hp]
      exact hnow

theorem running_close {gs : List Guard} (h : runningIn gs g) : runningIn (gs.modify g Guard.close) g :=
  stays_modify (fun x hx => by rw [x.close_process, hx]) h

/-- A line of output says that its guard failed. -/
def reportsFailure (text : List Char) : Prop := firstWord (trimmed text) = "ERROR" ∨ firstWord (trimmed text) = "FAIL"

/-- A line of output says that its guard is in force. -/
def reportsReady (text : List Char) : Prop := firstWord (trimmed text) = "READY"

theorem readLine_outcome (host : Host) (hs : Sound s) (hrun : s.processIs g .running = true) {text : List Char}
    (hR : reportsReady text → R g) (hF : reportsFailure text → F g) (out : Outside) : Outcome R F E s (s.readLine host g text out) := by
  rw [readLine]
  split
  next => exact .refl hs
  next =>
    rw [handleLine]
    extract_lets verb
    split
    next => exact .refl hs
    next =>
      split
      next h => exact onReady_outcome hs hrun (hR h)
      next =>
        split
        next => exact .refl hs
        next hfails =>
          split
          next => exact .refl hs
          next =>
            apply lost_outcome host hs Guard.close_ready Guard.close_closing
            · exact fun h => .inl (running_close h)
            · left
              apply hF
              by_contra hneither
              rw [reportsFailure, not_or] at hneither
              exact hfails hneither

end Outcome

end Throne.Sys
