import Throne.Sys.KillSwitch
import Throne.Lib.Lists

/-!
# The guards of the kill switch

What a step may do to the list of all guards and to the two slots. `Slots` says which guards are
open: only the ones in the slots, the active one ready and the pending one not yet. `Moves` says
what a step may do to a guard that is in force: it is closed by the switch only after another guard
became ready, by its own failure, or because the switch is off or overridden.
-/

namespace Throne.Sys

open Lib.Lists List

/-- A guard that blocks: it reported `READY`, nobody closed it, its process runs and still has its
input. -/
structure Guard.InForce (guard : Guard) : Prop where
  ready : guard.ready = true
  opened : guard.closing = false
  running : guard.process = .running
  input : guard.inputOpen = true

/-- A guard that may still report `READY`. -/
structure Guard.Live (guard : Guard) : Prop where
  waiting : guard.ready = false
  opened : guard.closing = false
  alive : guard.process ≠ .notRunning
  input : guard.inputOpen = true

/-- The slots and the guards agree. -/
structure Slots (gs : List Guard) (active pending : Option Nat) : Prop where
  inForce : ∀ g, active = some g → ∃ guard : Guard, gs[g]? = some guard ∧ guard.InForce
  live : ∀ g, pending = some g → ∃ guard : Guard, gs[g]? = some guard ∧ guard.Live
  inSlot : ∀ (g : Nat) (guard : Guard), gs[g]? = some guard → guard.closing = false → active = some g ∨ pending = some g

/-! ## One lemma for each kind of write -/

theorem Guard.close_closing (guard : Guard) : guard.close.closing = true := by
  cases h : guard.closing <;> simp [Guard.close, h]

theorem Guard.close_ready (guard : Guard) : guard.close.ready = guard.ready := by
  cases h : guard.closing <;> simp [Guard.close, h]

theorem Guard.close_process (guard : Guard) : guard.close.process = guard.process := by
  cases h : guard.closing <;> simp [Guard.close, h]

theorem Guard.over_closing (guard : Guard) : guard.over.closing = true := rfl

theorem Guard.over_ready (guard : Guard) : guard.over.ready = guard.ready := rfl

variable {guard : Guard} {k : Nat}

section Writes

variable {gs : List Guard} {a p : Option Nat} {f : Guard → Guard} {g : Nat}

/-- The two slots never hold the same guard. -/
theorem Slots.ne (h : Slots gs a p) (ha : a = some g) (hp : p = some k) : g ≠ k := by
  rintro rfl
  obtain ⟨guard, hg, hforce⟩ := h.inForce g ha
  obtain ⟨guard', hg', hlive⟩ := h.live g hp
  rw [hg] at hg'
  cases hg'
  simpa [hforce.ready] using hlive.waiting

/-- A guard that is not in a slot may be closed once more. -/
theorem Slots.modify_closed (h : Slots gs a p) (ha : a ≠ some g) (hp : p ≠ some g)
    (hf : ∀ guard, (f guard).closing = true) : Slots (gs.modify g f) a p where
  inForce := by
    intro k hk
    have hne : g ≠ k := fun hgk => ha (hgk ▸ hk)
    rw [getElem?_modify_ne f gs hne]
    exact h.inForce k hk
  live := by
    intro k hk
    have hne : g ≠ k := fun hgk => hp (hgk ▸ hk)
    rw [getElem?_modify_ne f gs hne]
    exact h.live k hk
  inSlot := by
    intro k guard' hk hopen
    obtain ⟨-, guard, -, rfl⟩ | ⟨-, hk⟩ := getElem?_modify_some hk
    · simp [hf guard] at hopen
    · exact h.inSlot k guard' hk hopen

/-- The pending guard is closed and leaves its slot. -/
theorem Slots.drop_pending (h : Slots gs a (some g)) (hf : ∀ guard, (f guard).closing = true) : Slots (gs.modify g f) a none where
  inForce := by
    intro k hk
    have hne : g ≠ k := (h.ne hk rfl).symm
    rw [getElem?_modify_ne f gs hne]
    exact h.inForce k hk
  live := nofun
  inSlot := by
    intro k guard' hk hopen
    obtain ⟨-, guard, -, rfl⟩ | ⟨hne, hk⟩ := getElem?_modify_some hk
    · simp [hf guard] at hopen
    · rcases h.inSlot k guard' hk hopen with ha | hp
      · exact .inl ha
      · exact absurd (Option.some.inj hp) hne

/-- The active guard is closed and leaves its slot. -/
theorem Slots.drop_active (h : Slots gs (some g) p) (hf : ∀ guard, (f guard).closing = true) : Slots (gs.modify g f) none p where
  inForce := nofun
  live := by
    intro k hk
    have hne : g ≠ k := h.ne rfl hk
    rw [getElem?_modify_ne f gs hne]
    exact h.live k hk
  inSlot := by
    intro k guard' hk hopen
    obtain ⟨-, guard, -, rfl⟩ | ⟨hne, hk⟩ := getElem?_modify_some hk
    · simp [hf guard] at hopen
    · rcases h.inSlot k guard' hk hopen with ha | hp
      · exact absurd (Option.some.inj ha) hne
      · exact .inr hp

/-- A new guard takes the free pending slot. -/
theorem Slots.push (h : Slots gs a none) (config : GuardConfig) (keepStates : Bool) :
    Slots (gs ++ [Guard.fresh config keepStates]) a (some gs.length) where
  inForce := by
    intro k hk
    obtain ⟨guard, hg, hforce⟩ := h.inForce k hk
    exact ⟨guard, by rw [getElem?_append_left (List.getElem?_eq_some_iff.1 hg).1, hg], hforce⟩
  live := by
    rintro k ⟨⟩
    exact ⟨Guard.fresh config keepStates, by simp, rfl, rfl, by simp [Guard.fresh], rfl⟩
  inSlot := by
    intro k guard hk hopen
    rcases Nat.lt_or_ge k gs.length with hlt | hge
    · rw [getElem?_append_left hlt] at hk
      rcases h.inSlot k guard hk hopen with ha | hp
      · exact .inl ha
      · cases hp
    · have hlen := (List.getElem?_eq_some_iff.1 hk).1
      rw [length_append, length_singleton] at hlen
      exact .inr (congrArg some (by omega))

/-- The pending guard becomes the active one when no other guard is in force. -/
theorem Slots.promote_first (h : Slots gs none (some g)) (hg : gs[g]? = some guard)
    (hrun : guard.process = .running) : Slots (gs.modify g Guard.armed) (some g) none where
  inForce := by
    rintro k ⟨⟩
    obtain ⟨guard', hg', hlive⟩ := h.live g rfl
    rw [hg] at hg'
    cases hg'
    exact ⟨guard.armed, getElem?_modify_self hg, rfl, hlive.opened, hrun, hlive.input⟩
  live := nofun
  inSlot := by
    intro k guard' hk hopen
    obtain ⟨hk, -⟩ | ⟨hne, hk⟩ := getElem?_modify_some hk
    · exact .inl (congrArg some hk)
    · rcases h.inSlot k guard' hk hopen with ha | hp
      · cases ha
      · exact absurd (Option.some.inj hp) hne

/-- The pending guard takes the place of the active one, which is closed. -/
theorem Slots.promote (h : Slots gs (some k) (some g)) (hg : gs[g]? = some guard) (hrun : guard.process = .running) :
    Slots ((gs.modify g Guard.armed).modify k Guard.close) (some g) none := by
  have hne : k ≠ g := h.ne rfl rfl
  have hg' : (gs.modify k Guard.close)[g]? = some guard := by
    rw [getElem?_modify_ne Guard.close gs hne, hg]
  have hdrop := h.drop_active Guard.close_closing
  rw [modify_modify_ne Guard.armed Guard.close gs hne.symm]
  exact hdrop.promote_first hg' hrun

/-- A write that keeps the flags, and after which the process is not over. -/
theorem Slots.keep (h : Slots gs a p) (hready : ∀ x, (f x).ready = x.ready)
    (hclosing : ∀ x, (f x).closing = x.closing) (hinput : ∀ x, (f x).inputOpen = x.inputOpen)
    (hprocess : ∀ x, (f x).process = x.process ∨ (f x).process = .running) : Slots (gs.modify g f) a p where
  inForce := by
    intro k hk
    obtain ⟨guard, hg, hforce⟩ := h.inForce k hk
    by_cases hgk : g = k
    · subst hgk
      refine ⟨f guard, getElem?_modify_self hg, ?_, ?_, ?_, ?_⟩
      · rw [hready, hforce.ready]
      · rw [hclosing, hforce.opened]
      · rcases hprocess guard with hp | hp
        · rw [hp, hforce.running]
        · exact hp
      · rw [hinput, hforce.input]
    · exact ⟨guard, by rw [getElem?_modify_ne f gs hgk, hg], hforce⟩
  live := by
    intro k hk
    obtain ⟨guard, hg, hlive⟩ := h.live k hk
    by_cases hgk : g = k
    · subst hgk
      refine ⟨f guard, getElem?_modify_self hg, ?_, ?_, ?_, ?_⟩
      · rw [hready, hlive.waiting]
      · rw [hclosing, hlive.opened]
      · rcases hprocess guard with hp | hp
        · rw [hp]
          exact hlive.alive
        · rw [hp]
          exact nofun
      · rw [hinput, hlive.input]
    · exact ⟨guard, by rw [getElem?_modify_ne f gs hgk, hg], hlive⟩
  inSlot := by
    intro k guard' hk hopen
    obtain ⟨rfl, guard, hg, rfl⟩ | ⟨-, hk⟩ := getElem?_modify_some hk
    · exact h.inSlot g guard hg (by rw [← hclosing, hopen])
    · exact h.inSlot k guard' hk hopen

end Writes

/-! ## What a step may do to the guards -/

/-- Guard `g` of the list has reported `READY`. -/
def readyIn (gs : List Guard) (g : Nat) : Prop := ∃ guard : Guard, gs[g]? = some guard ∧ guard.ready = true

/-- Guard `g` of the list is closed or over. -/
def closedIn (gs : List Guard) (g : Nat) : Prop := ∃ guard : Guard, gs[g]? = some guard ∧ guard.closing = true

/-- The process of guard `g` runs. -/
def runningIn (gs : List Guard) (g : Nat) : Prop := ∃ guard : Guard, gs[g]? = some guard ∧ guard.process = .running

/-- The effect of a step in which the guards of `R` report `READY`, those of `F` report a failure
and those of `E` exit; `on` says that the switch is on and not overridden. -/
structure Moves (R F E : Nat → Prop) (on : Prop) (gs gs' : List Guard) : Prop where
  grows : gs.length ≤ gs'.length
  ready_stays : ∀ g, readyIn gs g → readyIn gs' g
  closed_stays : ∀ g, closedIn gs g → closedIn gs' g
  running_stays : ∀ g, runningIn gs g → runningIn gs' g ∨ E g
  ready_heard : ∀ g, readyIn gs' g → readyIn gs g ∨ R g
  handover : on → ∀ g, readyIn gs g → ¬closedIn gs g → closedIn gs' g → F g ∨ E g ∨ ∃ h, h ≠ g ∧ readyIn gs' h ∧ ¬readyIn gs h

variable {f : Guard → Guard}

section Moves

variable {R F E : Nat → Prop} {on : Prop} {gs gs' gs'' : List Guard}

theorem Moves.refl : Moves R F E on gs gs where
  grows := Nat.le_refl _
  ready_stays := fun _ h => h
  closed_stays := fun _ h => h
  running_stays := fun _ h => .inl h
  ready_heard := fun _ h => .inl h
  handover := fun _ _ _ hopen hclosed => absurd hclosed hopen

theorem Moves.trans (h : Moves R F E on gs gs') (h' : Moves R F E on gs' gs'') : Moves R F E on gs gs'' where
  grows := Nat.le_trans h.grows h'.grows
  ready_stays := fun g hg => h'.ready_stays g (h.ready_stays g hg)
  closed_stays := fun g hg => h'.closed_stays g (h.closed_stays g hg)
  running_stays := by
    intro g hg
    rcases h.running_stays g hg with hg | hE
    · exact h'.running_stays g hg
    · exact .inr hE
  ready_heard := by
    intro g hg
    rcases h'.ready_heard g hg with hg | hR
    · exact h.ready_heard g hg
    · exact .inr hR
  handover := by
    intro hon g hready hopen hclosed
    -- The guard was closed in the first part already, or it was still in force after it.
    by_cases hmid : closedIn gs' g
    · rcases h.handover hon g hready hopen hmid with hF | hE | ⟨k, hne, hk, hk'⟩
      · exact .inl hF
      · exact .inr (.inl hE)
      · exact .inr (.inr ⟨k, hne, h'.ready_stays k hk, hk'⟩)
    · have hlater := h'.handover hon g (h.ready_stays g hready) hmid hclosed
      rcases hlater with hF | hE | ⟨k, hne, hk, hk'⟩
      · exact .inl hF
      · exact .inr (.inl hE)
      · exact .inr (.inr ⟨k, hne, hk, fun hgs => hk' (h.ready_stays k hgs)⟩)

theorem Moves.mono {E' : Nat → Prop} (h : Moves R F E on gs gs') (hE : ∀ g, E g → E' g) : Moves R F E' on gs gs' where
  grows := h.grows
  ready_stays := h.ready_stays
  closed_stays := h.closed_stays
  running_stays := fun g hg => (h.running_stays g hg).imp_right (hE g)
  ready_heard := h.ready_heard
  handover := fun hon g hready hopen hclosed =>
    (h.handover hon g hready hopen hclosed).imp_right fun hother => hother.imp_left (hE g)

variable {g : Nat}

/-- A property of single guards that a write to one guard keeps. -/
theorem stays_modify {P : Guard → Prop} (hf : ∀ x, P x → P (f x)) (h : ∃ guard : Guard, gs[k]? = some guard ∧ P guard) :
    ∃ guard : Guard, (gs.modify g f)[k]? = some guard ∧ P guard := by
  obtain ⟨guard, hk, hP⟩ := h
  by_cases hgk : g = k
  · subst hgk
    exact ⟨f guard, getElem?_modify_self hk, hf guard hP⟩
  · exact ⟨guard, by rw [getElem?_modify_ne f gs hgk, hk], hP⟩

/-- A property of single guards that a write to one guard does not give. -/
theorem of_modify {P : Guard → Prop} (hf : ∀ x, P (f x) → P x) (h : ∃ guard : Guard, (gs.modify g f)[k]? = some guard ∧ P guard) :
    ∃ guard : Guard, gs[k]? = some guard ∧ P guard := by
  obtain ⟨guard', hk, hP⟩ := h
  obtain ⟨rfl, guard, hg, rfl⟩ | ⟨-, hk⟩ := getElem?_modify_some hk
  · exact ⟨guard, hg, hf guard hP⟩
  · exact ⟨guard', hk, hP⟩

/-- A write to one guard that keeps its `ready` flag: closing a guard in force needs a failure. -/
theorem Moves.modify (hready : ∀ x, (f x).ready = x.ready) (hclosing : ∀ x, x.closing = true → (f x).closing = true)
    (hrun : runningIn gs g → runningIn (gs.modify g f) g ∨ E g)
    (hcause : on → readyIn gs g → ¬closedIn gs g → closedIn (gs.modify g f) g → F g ∨ E g) : Moves R F E on gs (gs.modify g f) where
  grows := by simp
  ready_stays := fun k hk => stays_modify (fun x hx => by rw [hready, hx]) hk
  closed_stays := fun k hk => stays_modify hclosing hk
  running_stays := by
    rintro k ⟨guard, hk, hp⟩
    by_cases hgk : g = k
    · subst hgk
      exact hrun ⟨guard, hk, hp⟩
    · exact .inl ⟨guard, by rw [getElem?_modify_ne f gs hgk, hk], hp⟩
  ready_heard := fun k hk => .inl (of_modify (fun x hx => by rw [← hready, hx]) hk)
  handover := by
    rintro hon k hr hopen ⟨guard', hk, hc⟩
    obtain ⟨rfl, guard, hg, rfl⟩ | ⟨-, hk'⟩ := getElem?_modify_some hk
    · exact (hcause hon hr hopen ⟨f guard, hk, hc⟩).imp_right .inl
    · exact absurd ⟨guard', hk', hc⟩ hopen

/-- A write that keeps all three flags of a guard. -/
theorem Moves.keep (hready : ∀ x, (f x).ready = x.ready) (hclosing : ∀ x, (f x).closing = x.closing)
    (hrun : ∀ x, x.process = .running → (f x).process = .running) : Moves R F E on gs (gs.modify g f) := by
  apply Moves.modify hready
  · exact fun x hx => by rw [hclosing, hx]
  · exact fun h => .inl (stays_modify hrun h)
  · exact fun _ _ hopen h => absurd (of_modify (fun x hx => by rw [← hclosing, hx]) h) hopen

/-- `closeGuard` on one guard. -/
theorem Moves.close (hcause : on → readyIn gs g → ¬closedIn gs g → F g ∨ E g) : Moves R F E on gs (gs.modify g Guard.close) := by
  apply Moves.modify Guard.close_ready fun x _ => x.close_closing
  · exact fun h => .inl (stays_modify (fun x hx => by rw [x.close_process, hx]) h)
  · exact fun hon hr hopen _ => hcause hon hr hopen

theorem Moves.push (config : GuardConfig) (keepStates : Bool) : Moves R F E on gs (gs ++ [Guard.fresh config keepStates]) where
  grows := by simp
  ready_stays := fun g ⟨guard, hg, hr⟩ => ⟨guard, getElem?_append_some hg, hr⟩
  closed_stays := fun g ⟨guard, hg, hc⟩ => ⟨guard, getElem?_append_some hg, hc⟩
  running_stays := fun g ⟨guard, hg, hp⟩ => .inl ⟨guard, getElem?_append_some hg, hp⟩
  ready_heard := by
    rintro g ⟨guard, hg, hr⟩
    rcases getElem?_concat_some hg with hg | ⟨-, rfl⟩
    · exact .inl ⟨guard, hg, hr⟩
    · cases hr
  handover := by
    rintro - g - hopen ⟨guard, hg, hc⟩
    rcases getElem?_concat_some hg with hg | ⟨-, rfl⟩
    · exact absurd ⟨guard, hg, hc⟩ hopen
    · cases hc

theorem Moves.armed (hR : R g) : Moves R F E on gs (gs.modify g Guard.armed) where
  grows := by simp
  ready_stays := fun k hk => stays_modify (fun _ _ => rfl) hk
  closed_stays := fun k hk => stays_modify (fun _ hc => hc) hk
  running_stays := fun k hk => .inl (stays_modify (fun _ hp => hp) hk)
  ready_heard := by
    rintro k ⟨guard', hk, hr⟩
    obtain ⟨rfl, -⟩ | ⟨-, hk⟩ := getElem?_modify_some hk
    · exact .inr hR
    · exact .inl ⟨guard', hk, hr⟩
  handover := by
    intro _ k _ hopen hclosed
    have hbefore : closedIn gs k := of_modify (f := Guard.armed) (fun _ hc => hc) hclosed
    exact absurd hbefore hopen

/-- The guard `g` becomes ready and the guard `k` is closed for it. -/
theorem Moves.replace (hne : g ≠ k) (hR : R g) (hg : gs[g]? = some guard) (hwaiting : guard.ready = false) :
    Moves R F E on gs ((gs.modify g Guard.armed).modify k Guard.close) := by
  have harmed : Moves R (fun x => x = k) E on gs (gs.modify g Guard.armed) := Moves.armed hR
  have hclose : Moves R (fun x => x = k) E on (gs.modify g Guard.armed) ((gs.modify g Guard.armed).modify k Guard.close) :=
    Moves.close fun _ _ _ => .inl rfl
  have hall := harmed.trans hclose
  have hready : readyIn ((gs.modify g Guard.armed).modify k Guard.close) g := hclose.ready_stays g ⟨guard.armed, getElem?_modify_self hg, rfl⟩
  have hbefore : ¬readyIn gs g := by
    rintro ⟨guard', hg', hr⟩
    rw [hg] at hg'
    cases hg'
    rw [hwaiting] at hr
    cases hr
  refine { hall with handover := ?_ }
  intro hon x hx hopen hclosed
  rcases hall.handover hon x hx hopen hclosed with rfl | hother
  · exact .inr (.inr ⟨g, hne, hready, hbefore⟩)
  · exact .inr hother

end Moves

end Throne.Sys
