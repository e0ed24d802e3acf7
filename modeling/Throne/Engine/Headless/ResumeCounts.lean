import Throne.Lib.Runs
import Throne.Engine.Headless.ResumeGuard

/-!
# What the resume guard counts

The bad ends of a profile are read off the history of events. As long as every file a boot finds is small
enough to be read, `decide` refuses a profile exactly after `kStrikesToSuppress` of them, and the unstable
boots are those in a row that never became stable (`refuses_after_strikes`). A long reason of an exit makes
the file too large, and the next boot starts from nothing (`strikes_forgotten`).
-/

namespace Throne.Engine.ResumeGuard

open Lib.Texts Lib.Runs List

/-! ## Histories, the last event first -/

/-- The profile of the armed attempt that has not ended. -/
def armedFor : List Event → Option Int
  | [] => none
  | .arm p _ :: h => if p < 0 then armedFor h else some p
  | .boot _ :: _ => none
  | .disarm :: _ => none
  | .strike :: _ => none
  | .survived p :: h => if armedFor h = some p then none else armedFor h
  | .noteExit code _ _ :: h => if badExit code then armedFor h else none
  | .liftSuppression _ :: h => armedFor h
  | .markStable :: h => armedFor h

/-- An attempt of `p` that would end badly now. -/
def atStake (p : Int) (h : List Event) : Nat := if armedFor h = some p then 1 else 0

/-- The attempts of `p` that ended badly since `p` survived, or another profile was decided on or armed. A
process that dies ends its attempt, whatever exit it noted. -/
def badEnds (p : Int) : List Event → Nat
  | [] => 0
  | .boot q :: h => if 0 ≤ q ∧ q ≠ p then 0 else badEnds p h + atStake p h
  | .arm q _ :: h => if 0 ≤ q ∧ q ≠ p then 0 else badEnds p h
  | .strike :: h => badEnds p h + atStake p h
  | .survived q :: h => if q = p then 0 else badEnds p h
  | .disarm :: h => badEnds p h
  | .noteExit _ _ _ :: h => badEnds p h
  | .liftSuppression _ :: h => badEnds p h
  | .markStable :: h => badEnds p h

/-- The boot has become stable, or there is none. -/
def stable : List Event → Bool
  | [] => true
  | .boot _ :: _ => false
  | .markStable :: _ => true
  | _ :: h => stable h

/-- The boots in a row that ended without becoming stable; one that becomes stable ends the row. -/
def unstableRow : List Event → Nat
  | [] => 0
  | .markStable :: _ => 0
  | .boot _ :: h => if stable h then unstableRow h else unstableRow h + 1
  | _ :: h => unstableRow h

variable {p : Int}

theorem armedFor_nonneg {h : List Event} (harmed : armedFor h = some p) : 0 ≤ p := by
  induction h with
  | nil => cases harmed
  | cons e h ih =>
    cases e with
    | arm q now =>
      rw [armedFor] at harmed
      split at harmed
      · exact ih harmed
      · have hq : q = p := Option.some.inj harmed
        omega
    | boot q | disarm | strike => cases harmed
    | survived q =>
      rw [armedFor] at harmed
      split at harmed
      · cases harmed
      · exact ih harmed
    | noteExit code reason now =>
      rw [armedFor] at harmed
      split at harmed
      · exact ih harmed
      · cases harmed
    | liftSuppression q | markStable => exact ih harmed

theorem atStake_none {h : List Event} (p : Int) (hnone : armedFor h = none) : atStake p h = 0 := by
  rw [atStake, hnone]
  rfl

/-- No attempt is counted where there is no profile. -/
theorem badEnds_neg (hp : p < 0) (h : List Event) : badEnds p h = 0 := by
  have hstake : ∀ h, atStake p h = 0 := by
    intro h
    rw [atStake, if_neg]
    intro harmed
    exact absurd (armedFor_nonneg harmed) (by omega)
  induction h with
  | nil => rfl
  | cons e h ih =>
    cases e with
    | boot q | strike => simp [badEnds, ih, hstake]
    | arm q now | survived q => simp [badEnds, ih]
    | disarm | noteExit | liftSuppression | markStable => exact ih

def Event.arms (p : Int) : Event → Bool
  | .arm q _ => q == p
  | _ => false

/-- Every attempt that ends badly was armed, and ends once. -/
theorem badEnds_le_arms (p : Int) (h : List Event) : badEnds p h + atStake p h ≤ h.countP (Event.arms p) := by
  induction h with
  | nil => exact Nat.le_refl 0
  | cons e h ih =>
    have hstake : atStake p h ≤ 1 := by
      rw [atStake]
      split
      · exact Nat.le_refl 1
      · exact Nat.zero_le 1
    cases e with
    | boot q =>
      rw [badEnds, atStake_none (h := .boot q :: h) p rfl, countP_cons_of_neg (by simp [Event.arms])]
      split
      · exact Nat.zero_le _
      · exact ih
    | arm q now =>
      by_cases hq : q = p
      · subst hq
        rw [countP_cons_of_pos (by simp [Event.arms]), badEnds, if_neg (fun h => h.2 rfl)]
        have hnow : atStake q (.arm q now :: h) ≤ 1 := by
          rw [atStake]
          split
          · exact Nat.le_refl 1
          · exact Nat.zero_le 1
        omega
      · rw [countP_cons_of_neg (by simpa [Event.arms] using hq), badEnds]
        by_cases hneg : q < 0
        · have hsame : atStake p (.arm q now :: h) = atStake p h := by
            rw [atStake, armedFor, if_pos hneg, atStake]
          rw [if_neg (fun h => absurd h.1 (by omega)), hsame]
          exact ih
        · have hother : atStake p (.arm q now :: h) = 0 := by
            rw [atStake, armedFor, if_neg hneg, if_neg (fun h => hq (Option.some.inj h))]
          rw [if_pos ⟨by omega, hq⟩, hother]
          exact Nat.zero_le _
    | disarm =>
      rw [badEnds, atStake_none (h := .disarm :: h) p rfl, countP_cons_of_neg (by simp [Event.arms])]
      omega
    | strike =>
      rw [badEnds, atStake_none (h := .strike :: h) p rfl, countP_cons_of_neg (by simp [Event.arms])]
      exact ih
    | survived q =>
      have hless : atStake p (.survived q :: h) ≤ atStake p h := by
        rw [atStake, armedFor, atStake]
        split
        · exact Nat.zero_le _
        · exact Nat.le_refl _
      rw [badEnds, countP_cons_of_neg (by simp [Event.arms])]
      split <;> omega
    | noteExit code reason now =>
      have hless : atStake p (.noteExit code reason now :: h) ≤ atStake p h := by
        rw [atStake, armedFor, atStake]
        cases badExit code with
        | true => exact Nat.le_refl _
        | false => exact Nat.zero_le _
      rw [badEnds, countP_cons_of_neg (by simp [Event.arms])]
      omega
    | liftSuppression q | markStable =>
      rw [badEnds, countP_cons_of_neg (by simp [Event.arms])]
      exact ih

/-! ## The record and the history -/

/-- What the guard in memory says of the history. -/
structure Counts (h : List Event) (g : Guard) : Prop where
  profile : -1 ≤ g.profile
  own : g.strikes = min (badEnds g.profile h) kStrikesToSuppress
  others : ∀ p, p ≠ g.profile → badEnds p h = 0
  armed : armedFor h = if g.armed then some g.profile else none
  bootOpen : g.bootOpen = !stable h
  unstable : g.unstableBoots = min (unstableRow h) kResumeGuardMaxUnstableBoots

/-- The file has the record of the guard, or that of a guard without a profile: then nothing is counted. -/
def RecordOf (s : Saved) (g : Guard) : Prop :=
  (s.profile = g.profile ∧ s.strikes = g.strikes ∧ s.armed = g.armed) ∨
    (s.profile = -1 ∧ s.strikes = 0 ∧ s.armed = false ∧ g.strikes = 0 ∧ g.armed = false)

/-- What the file says of the guard. -/
def Written : Option Saved → Guard → Prop
  | none, g => g.strikes = 0 ∧ g.armed = false ∧ g.bootOpen = false ∧ g.unstableBoots = 0
  | some s, g =>
    s.version = kResumeGuardVersion ∧ s.bootOpen = g.bootOpen ∧ s.unstable = g.unstableBoots ∧ RecordOf s g

def Ok (h : List Event) (w : World) : Prop := Counts h w.guard ∧ Written w.file w.guard

variable {s : Saved}

section Steps

variable {h : List Event} {g : Guard} {w : World}

section

variable (hcounts : Counts h g)

include hcounts

theorem ok_save (w : World) : Ok h (w.save g) := ⟨hcounts, rfl, rfl, rfl, .inl ⟨rfl, rfl, rfl⟩⟩

theorem Counts.strikes_le : g.strikes ≤ kStrikesToSuppress := by
  rw [hcounts.own]
  exact Nat.min_le_right _ _

/-- An armed guard has a profile. -/
theorem Counts.nonneg (harmed : g.armed = true) : 0 ≤ g.profile := by
  have hfor := hcounts.armed
  rw [if_pos harmed] at hfor
  exact armedFor_nonneg hfor

theorem Counts.atStake_own (harmed : g.armed = true) : atStake g.profile h = 1 := by
  rw [atStake, hcounts.armed, if_pos harmed, if_pos rfl]

theorem Counts.atStake_unarmed (harmed : g.armed = false) (p : Int) : atStake p h = 0 := by
  apply atStake_none
  rw [hcounts.armed, harmed]
  rfl

theorem Counts.atStake_other (hp : p ≠ g.profile) : atStake p h = 0 := by
  cases harmed : g.armed with
  | true => rw [atStake, hcounts.armed, harmed, if_pos rfl, if_neg (fun heq => hp (Option.some.inj heq).symm)]
  | false => exact hcounts.atStake_unarmed harmed p

/-- With no strike nothing is counted for anyone. -/
theorem Counts.zero (hstrikes : g.strikes = 0) (p : Int) : badEnds p h = 0 := by
  by_cases hown : p = g.profile
  · have hmin := hcounts.own
    rw [hstrikes, ← hown, kStrikesToSuppress] at hmin
    omega
  · exact hcounts.others p hown

end

/-! ### A boot -/

/-- The guard a process starts with says of the history what the guard before said. -/
theorem counts_record {g' : Guard} (hcounts : Counts h g) (hopen : g'.bootOpen = g.bootOpen) (hunstable : g'.unstableBoots = g.unstableBoots)
    (hrecord : (g'.profile = g.profile ∧ g'.strikes = g.strikes ∧ g'.armed = g.armed) ∨
    (g'.profile = -1 ∧ g'.strikes = 0 ∧ g'.armed = false ∧ g.strikes = 0 ∧ g.armed = false)) : Counts h g' := by
  have hopen' := hopen.trans hcounts.bootOpen
  have hunstable' := hunstable.trans hcounts.unstable
  rcases hrecord with ⟨hprofile, hstrikes, harmed⟩ | ⟨hprofile, hstrikes, harmed, hnone, hunarmed⟩
  · refine ⟨?_, ?_, ?_, ?_, hopen', hunstable'⟩
    · rw [hprofile]
      exact hcounts.profile
    · rw [hprofile, hstrikes]
      exact hcounts.own
    · rw [hprofile]
      exact hcounts.others
    · rw [hprofile, harmed]
      exact hcounts.armed
  · have hfor := hcounts.armed
    rw [hunarmed] at hfor
    refine ⟨by omega, ?_, fun p _ => hcounts.zero hnone p, ?_, hopen', hunstable'⟩
    · rw [hstrikes, hcounts.zero hnone]
      rfl
    · rw [harmed]
      exact hfor

/-- The record of an earlier process is read as it was written. -/
theorem guard_same (hcounts : Counts h g) (hprofile : s.profile = g.profile) (hstrikes : s.strikes = g.strikes) (harmed : s.armed = g.armed) :
    s.guard.profile = g.profile ∧ s.guard.strikes = g.strikes ∧ s.guard.armed = g.armed := by
  have hsame : s.guard.profile = g.profile := by
    have hlow := hcounts.profile
    simp only [Saved.guard, hprofile]
    split
    · omega
    · rfl
  refine ⟨hsame, ?_, ?_⟩
  · simp only [Saved.guard, hstrikes]
    exact Nat.min_eq_left hcounts.strikes_le
  · have harmed' : s.guard.armed = (decide (0 ≤ s.guard.profile) && s.armed) := rfl
    rw [harmed', hsame, harmed]
    cases hg : g.armed with
    | true => simp [hcounts.nonneg hg]
    | false => exact Bool.and_false _

theorem guard_none (hprofile : s.profile = -1) (hstrikes : s.strikes = 0) (harmed : s.armed = false) :
    s.guard.profile = -1 ∧ s.guard.strikes = 0 ∧ s.guard.armed = false := by
  refine ⟨?_, ?_, ?_⟩
  · simp [Saved.guard, hprofile]
  · simp [Saved.guard, hstrikes]
  · simp [Saved.guard, harmed]

/-- The file of the process before can be read. -/
def Readable (w : World) : Prop := ∀ s, w.file = some s → s.size ≤ kResumeGuardMaxBytes

instance (w : World) : Decidable (Readable w) :=
  decidable_of_iff (w.file.all fun s => decide (s.size ≤ kResumeGuardMaxBytes)) <| by
    rw [Readable]
    cases w.file with
    | none | some s => simp

theorem ok_load (hok : Ok h w) (hreadable : Readable w) : Ok h w.load := by
  obtain ⟨hcounts, hwritten⟩ := hok
  rw [World.load]
  cases hfile : w.file with
  | none =>
    rw [hfile] at hwritten
    obtain ⟨hstrikes, harmed, hopen, hunstable⟩ := hwritten
    have hnext : Counts h .fresh := counts_record hcounts hopen.symm hunstable.symm (.inr ⟨rfl, rfl, rfl, hstrikes, harmed⟩)
    refine ⟨hnext, ?_⟩
    exact ⟨rfl, rfl, rfl, rfl⟩
  | some s =>
    rw [hfile] at hwritten
    obtain ⟨hversion, hopen, hunstable, hrecord⟩ := hwritten
    have hsize := hreadable s hfile
    have hbound : min s.unstable kResumeGuardMaxUnstableBoots = s.unstable := by
      rw [hunstable, hcounts.unstable]
      omega
    have hnext : Counts h s.guard ∧ RecordOf s s.guard := by
      rcases hrecord with ⟨hprofile, hstrikes, harmed⟩ | ⟨hprofile, hstrikes, harmed, hnone, hunarmed⟩
      · obtain ⟨hp, hs, ha⟩ := guard_same hcounts hprofile hstrikes harmed
        refine ⟨counts_record hcounts hopen (hbound.trans hunstable) (.inl ⟨hp, hs, ha⟩), .inl ?_⟩
        exact ⟨hprofile.trans hp.symm, hstrikes.trans hs.symm, harmed.trans ha.symm⟩
      · obtain ⟨hp, hs, ha⟩ := guard_none hprofile hstrikes harmed
        refine ⟨counts_record hcounts hopen (hbound.trans hunstable) (.inr ?_), .inl ?_⟩
        · exact ⟨hp, hs, ha, hnone, hunarmed⟩
        · exact ⟨hprofile.trans hp.symm, hstrikes.trans hs.symm, harmed.trans ha.symm⟩
    simp only
    rw [if_neg (by simp [hversion, Nat.not_lt.2 hsize])]
    split
    · exact ok_save hnext.1 w
    · refine ⟨hnext.1, ?_⟩
      exact ⟨hversion, rfl, hbound.symm, hnext.2⟩

/-- The death of the process ends an armed attempt, and a boot that did not become stable. -/
theorem ok_settle (hok : Ok h w) : Ok (.boot (-1) :: h) w.settlePrevious := by
  obtain ⟨hcounts, -⟩ := hok
  have hends : ∀ p, badEnds p (.boot (-1) :: h) = badEnds p h + atStake p h := by
    intro p
    rw [badEnds, if_neg (fun hneg => absurd hneg.1 (by decide))]
  have hrow : (if w.guard.bootOpen then min (w.guard.unstableBoots + 1) kResumeGuardMaxUnstableBoots
      else w.guard.unstableBoots) = min (unstableRow (.boot (-1) :: h)) kResumeGuardMaxUnstableBoots := by
    rw [hcounts.bootOpen, hcounts.unstable, unstableRow]
    cases stable h with
    | true => rfl
    | false =>
      simp only [Bool.not_false, if_true, Bool.false_eq_true, if_false]
      omega
  have hothers : ∀ p, p ≠ w.guard.profile → badEnds p (.boot (-1) :: h) = 0 := by
    intro p hp
    rw [hends, hcounts.others p hp, hcounts.atStake_other hp]
  rw [World.settlePrevious]
  simp only
  split
  · next harmed =>
    apply ok_save
    refine ⟨hcounts.profile, ?_, hothers, rfl, rfl, hrow⟩
    simp only
    rw [hends, hcounts.own, hcounts.atStake_own harmed]
    omega
  · next harmed =>
    have hfalse : w.guard.armed = false := by simpa using harmed
    apply ok_save
    refine ⟨hcounts.profile, ?_, hothers, ?_, rfl, hrow⟩
    · simp only
      rw [hends, hcounts.own, hcounts.atStake_unarmed hfalse, Nat.add_zero]
    · simp only [hfalse]
      rfl

/-- After a boot has settled, deciding on `q` leaves the counts of `q` alone. -/
theorem ok_decide {q : Int} (hok : Ok (.boot (-1) :: h) w) (hunarmed : w.guard.armed = false)
    (hfile : w.file = some w.guard.saved) : Ok (.boot q :: h) (w.decide q) := by
  obtain ⟨hcounts, -⟩ := hok
  have hends : ∀ p, ¬(0 ≤ q ∧ q ≠ p) → badEnds p (.boot q :: h) = badEnds p (.boot (-1) :: h) := by
    intro p hp
    rw [badEnds, if_neg hp, badEnds, if_neg (fun hneg => absurd hneg.1 (by decide))]
  have hkept : ∀ g', g'.profile = w.guard.profile → g'.strikes = w.guard.strikes →
      g'.armed = w.guard.armed → g'.bootOpen = w.guard.bootOpen → g'.unstableBoots = w.guard.unstableBoots →
      (q < 0 ∨ q = w.guard.profile) →
      Counts (.boot q :: h) g' ∧ Written w.file g' := by
    intro g' hprofile hstrikes harmed hopen hunstable hq
    have hown : ¬(0 ≤ q ∧ q ≠ w.guard.profile) := by omega
    refine ⟨⟨?_, ?_, ?_, ?_, hopen.trans hcounts.bootOpen, hunstable.trans hcounts.unstable⟩, ?_⟩
    · rw [hprofile]
      exact hcounts.profile
    · rw [hprofile, hstrikes, hends _ hown]
      exact hcounts.own
    · intro p hp
      rw [hprofile] at hp
      by_cases hqp : 0 ≤ q ∧ q ≠ p
      · rw [badEnds, if_pos hqp]
      · rw [hends p hqp]
        exact hcounts.others p hp
    · rw [harmed, hunarmed]
      rfl
    · rw [hfile]
      exact ⟨rfl, hopen.symm, hunstable.symm, .inl ⟨hprofile.symm, hstrikes.symm, harmed.symm⟩⟩
  rw [World.decide]
  simp only
  split
  · next hneg => exact hkept _ rfl rfl rfl rfl rfl (.inl hneg)
  · next hpos =>
    split
    · next hother =>
      have hnext : Counts (.boot q :: h) { w.guard with suppressed := false, profile := q, strikes := 0, armed := false, armedAt := 0 } := by
        refine ⟨?_, ?_, ?_, rfl, hcounts.bootOpen, hcounts.unstable⟩
        · simp only
          omega
        · simp only
          rw [hends q (fun hne => hne.2 rfl), hcounts.others q hother]
          rfl
        · intro p hp
          simp only at hp
          rw [badEnds, if_pos ⟨by omega, fun heq => hp heq.symm⟩]
      split
      · exact ok_save hnext w
      · next hrecord =>
        refine ⟨hnext, ?_⟩
        simp only
        rw [hfile]
        have hlow := hcounts.profile
        have hprofile : w.guard.profile = -1 := by omega
        have hstrikes : w.guard.strikes = 0 := by
          rw [hcounts.own, hprofile, badEnds_neg (by decide)]
          rfl
        exact ⟨rfl, rfl, rfl, .inr ⟨hprofile, hstrikes, hunarmed, rfl, rfl⟩⟩
    · next hsame =>
      have hsame' : q = w.guard.profile := not_not.1 hsame
      split <;> exact hkept _ rfl rfl rfl rfl rfl (.inr hsame')

theorem settle_written (w : World) : w.settlePrevious.guard.armed = false ∧ w.settlePrevious.file = some w.settlePrevious.guard.saved := by
  rw [World.settlePrevious]
  simp only
  split
  · exact ⟨rfl, rfl⟩
  · next harmed => exact ⟨by simpa [World.save] using harmed, rfl⟩

theorem ok_boot (hok : Ok h w) (hreadable : Readable w) (q : Int) : Ok (.boot q :: h) (step w (.boot q)) := by
  obtain ⟨hunarmed, hfile⟩ := settle_written w.load
  exact ok_decide (ok_settle (ok_load hok hreadable)) hunarmed hfile

/-! ### The other steps -/

section

variable (hok : Ok h w)

include hok

/-- Nothing is counted, and nothing changes that is. -/
theorem ok_same {e : Event} (hends : ∀ p, badEnds p (e :: h) = badEnds p h)
    (harmed : armedFor (e :: h) = armedFor h) (hstable : stable (e :: h) = stable h)
    (hrow : unstableRow (e :: h) = unstableRow h) : Ok (e :: h) w := by
  obtain ⟨hcounts, hwritten⟩ := hok
  refine ⟨⟨hcounts.profile, ?_, ?_, ?_, ?_, ?_⟩, hwritten⟩
  · rw [hends]
    exact hcounts.own
  · intro p hp
    rw [hends]
    exact hcounts.others p hp
  · rw [harmed]
    exact hcounts.armed
  · rw [hstable]
    exact hcounts.bootOpen
  · rw [hrow]
    exact hcounts.unstable

theorem ok_arm (q now : Int) : Ok (.arm q now :: h) (w.arm q now) := by
  obtain ⟨hcounts, hwritten⟩ := hok
  have hends : ∀ p, ¬(0 ≤ q ∧ q ≠ p) → badEnds p (.arm q now :: h) = badEnds p h := fun p hp => by
    rw [badEnds, if_neg hp]
  rw [World.arm]
  simp only
  split
  · next hneg =>
    apply ok_same ⟨hcounts, hwritten⟩
    · exact fun p => hends p (by omega)
    · rw [armedFor, if_pos hneg]
    · rfl
    · rfl
  · next hpos =>
    have harmed : armedFor (.arm q now :: h) = some q := by rw [armedFor, if_neg hpos]
    have hothers : ∀ p, p ≠ q → badEnds p (.arm q now :: h) = 0 := by
      intro p hp
      rw [badEnds, if_pos ⟨by omega, fun heq => hp heq.symm⟩]
    apply ok_save
    by_cases hsame : q = w.guard.profile
    · rw [if_neg (not_not.2 hsame)]
      refine ⟨hcounts.profile, ?_, hsame ▸ hothers, ?_, hcounts.bootOpen, hcounts.unstable⟩
      · simp only
        rw [hends _ (fun hne => hne.2 hsame)]
        exact hcounts.own
      · rw [harmed, hsame]
        rfl
    · rw [if_pos hsame]
      refine ⟨?_, ?_, hothers, ?_, hcounts.bootOpen, hcounts.unstable⟩
      · simp only
        omega
      · simp only
        rw [hends q (fun hne => hne.2 rfl), hcounts.others q hsame]
        rfl
      · rw [harmed]
        rfl

theorem ok_disarm : Ok (.disarm :: h) w.disarm := by
  obtain ⟨hcounts, hwritten⟩ := hok
  rw [World.disarm]
  split
  · apply ok_save
    exact ⟨hcounts.profile, hcounts.own, hcounts.others, rfl, hcounts.bootOpen, hcounts.unstable⟩
  · next harmed =>
    have hnone : armedFor h = none := by
      rw [hcounts.armed, if_neg harmed]
    exact ok_same ⟨hcounts, hwritten⟩ (fun _ => rfl) hnone.symm rfl rfl

theorem ok_strike : Ok (.strike :: h) w.strike := by
  obtain ⟨hcounts, hwritten⟩ := hok
  rw [World.strike]
  split
  · next harmed =>
    apply ok_save
    refine ⟨hcounts.profile, ?_, ?_, rfl, hcounts.bootOpen, hcounts.unstable⟩
    · simp only
      rw [badEnds, hcounts.own, hcounts.atStake_own harmed]
      omega
    · intro p hp
      rw [badEnds, hcounts.others p hp, hcounts.atStake_other hp]
  · next harmed =>
    have hfalse : w.guard.armed = false := by simpa using harmed
    have hnone : armedFor h = none := by
      rw [hcounts.armed, if_neg harmed]
    apply ok_same ⟨hcounts, hwritten⟩
    · intro p
      rw [badEnds, hcounts.atStake_unarmed hfalse, Nat.add_zero]
    · exact hnone.symm
    · rfl
    · rfl

theorem ok_survived (q : Int) : Ok (.survived q :: h) (w.survived q) := by
  obtain ⟨hcounts, hwritten⟩ := hok
  rw [World.survived]
  split
  · next hother =>
    -- Another profile has nothing to clear.
    have hnone : armedFor h ≠ some q := by
      intro harmed
      have hnonneg := armedFor_nonneg harmed
      rw [hcounts.armed] at harmed
      split at harmed
      · have hq : w.guard.profile = q := Option.some.inj harmed
        omega
      · cases harmed
    apply ok_same ⟨hcounts, hwritten⟩
    · intro p
      rw [badEnds]
      split
      · next hqp =>
        rcases hother with hneg | hne
        · rw [badEnds_neg (hqp ▸ hneg)]
        · rw [hcounts.others p (hqp ▸ hne)]
      · rfl
    · rw [armedFor, if_neg hnone]
    · rfl
    · rfl
  · next hown =>
    have hq : q = w.guard.profile := by omega
    have hends : badEnds w.guard.profile (.survived q :: h) = 0 := by rw [badEnds, if_pos hq]
    have hothers : ∀ p, p ≠ w.guard.profile → badEnds p (.survived q :: h) = 0 := by
      intro p hp
      rw [badEnds, if_neg (fun heq => hp (heq.symm.trans hq)), hcounts.others p hp]
    have harmed : armedFor (.survived q :: h) = none := by
      rw [armedFor, hcounts.armed, hq]
      cases w.guard.armed with
      | true => simp
      | false => rfl
    split
    · next hclear =>
      refine ⟨⟨hcounts.profile, ?_, hothers, ?_, hcounts.bootOpen, hcounts.unstable⟩, hwritten⟩
      · rw [hends, hclear.1]
        rfl
      · rw [harmed, hclear.2.1]
        rfl
    · apply ok_save
      refine ⟨hcounts.profile, ?_, hothers, harmed, hcounts.bootOpen, hcounts.unstable⟩
      simp only
      rw [hends]
      rfl

theorem ok_liftSuppression (q : Int) : Ok (.liftSuppression q :: h) (w.liftSuppression q) := by
  rw [World.liftSuppression]
  split
  · obtain ⟨hcounts, hwritten⟩ := hok
    refine ok_same ⟨?_, ?_⟩ (fun _ => rfl) rfl rfl rfl
    · exact ⟨hcounts.profile, hcounts.own, hcounts.others, hcounts.armed, hcounts.bootOpen, hcounts.unstable⟩
    · cases hfile : w.file with
      | none | some s =>
        rw [hfile] at hwritten
        exact hwritten
  · exact ok_same hok (fun _ => rfl) rfl rfl rfl

theorem ok_markStable : Ok (.markStable :: h) w.markStable := by
  obtain ⟨hcounts, hwritten⟩ := hok
  rw [World.markStable]
  split
  · next hclosed =>
    refine ⟨⟨hcounts.profile, hcounts.own, hcounts.others, hcounts.armed, ?_, ?_⟩, hwritten⟩
    · rw [hclosed.1]
      rfl
    · rw [hclosed.2]
      rfl
  · apply ok_save
    exact ⟨hcounts.profile, hcounts.own, hcounts.others, hcounts.armed, rfl, rfl⟩

theorem ok_noteExit (code : Int) (reason : Text) (now : Int) : Ok (.noteExit code reason now :: h) (w.noteExit code reason now) := by
  obtain ⟨hcounts, -⟩ := hok
  rw [World.noteExit]
  simp only
  split
  · next hbad =>
    apply ok_save
    refine ⟨hcounts.profile, hcounts.own, hcounts.others, ?_, hcounts.bootOpen, hcounts.unstable⟩
    rw [armedFor, if_pos hbad]
    exact hcounts.armed
  · next hgood =>
    apply ok_save
    refine ⟨hcounts.profile, hcounts.own, hcounts.others, ?_, hcounts.bootOpen, hcounts.unstable⟩
    rw [armedFor, if_neg hgood]
    rfl

end

/-- A boot finds a file it can read. -/
def Meets (w : World) : Event → Prop
  | .boot _ => Readable w
  | _ => True

instance (w : World) : (e : Event) → Decidable (Meets w e)
  | .boot _ => inferInstanceAs (Decidable (Readable w))
  | .arm _ _ | .disarm | .strike | .survived _ | .liftSuppression _ | .markStable | .noteExit _ _ _ =>
    isTrue trivial

theorem ok_step (hok : Ok h w) (e : Event) (hmeets : Meets w e) : Ok (e :: h) (step w e) := by
  cases e with
  | boot q => exact ok_boot hok hmeets q
  | arm q now => exact ok_arm hok q now
  | disarm => exact ok_disarm hok
  | strike => exact ok_strike hok
  | survived q => exact ok_survived hok q
  | liftSuppression q => exact ok_liftSuppression hok q
  | markStable => exact ok_markStable hok
  | noteExit code reason now => exact ok_noteExit hok code reason now

theorem ok_init : Ok [] World.init := by
  refine ⟨⟨by decide, rfl, fun _ _ => rfl, rfl, rfl, rfl⟩, rfl, rfl, rfl, rfl⟩

/-- The record and the history agree after every run. -/
theorem ok_run (es : List Event) (hmeets : Along step Meets World.init es) : Ok es.reverse (run step World.init es) := by
  induction es using List.reverseRecOn with
  | nil => exact ok_init
  | append_singleton es e ih =>
    rw [along_append] at hmeets
    rw [run_append, reverse_append]
    exact ok_step (ih hmeets.1) e hmeets.2.1

end Steps

/-- What `decide(p)` returns at the next boot. -/
theorem decided_boot {h : List Event} {w : World} (hok : Ok h w) (hreadable : Readable w) (hp : 0 ≤ p) :
    (step w (.boot p)).decided = if kStrikesToSuppress ≤ badEnds p h + atStake p h then -1 else p := by
  obtain ⟨hcounts, -⟩ := ok_settle (ok_load hok hreadable)
  have hends : badEnds p (.boot (-1) :: h) = badEnds p h + atStake p h := by
    rw [badEnds, if_neg (fun hneg => absurd hneg.1 (by decide))]
  show (World.decide _ p).decided = _
  rw [World.decide]
  simp only
  rw [if_neg (by omega)]
  split
  · next hother =>
    have hzero := hcounts.others p hother
    rw [hends] at hzero
    have hfew : ¬kStrikesToSuppress ≤ badEnds p h + atStake p h := by
      rw [hzero]
      decide
    rw [if_neg hfew]
    split <;> rfl
  · next hsame =>
    have hown := hcounts.own
    rw [← not_not.1 hsame, hends] at hown
    by_cases hmany : kStrikesToSuppress ≤ badEnds p h + atStake p h
    · rw [if_pos hmany, if_pos (by omega)]
    · rw [if_neg hmany, if_neg (by omega)]

theorem refuses_after_strikes (es : List Event) (hmeets : Along step Meets World.init es) :
    (∀ p, 0 ≤ p → Readable (run step World.init es) → (step (run step World.init es) (.boot p)).decided =
    if kStrikesToSuppress ≤ badEnds p es.reverse + atStake p es.reverse then -1 else p) ∧
    (∀ p, badEnds p es.reverse + atStake p es.reverse ≤ es.countP (Event.arms p)) ∧
    (run step World.init es).guard.unstableBoots = min (unstableRow es.reverse) kResumeGuardMaxUnstableBoots := by
  have hok := ok_run es hmeets
  refine ⟨?_, ?_, hok.1.unstable⟩
  · intro p hp hreadable
    exact decided_boot hok hreadable hp
  · intro p
    have hcount := badEnds_le_arms p es.reverse
    rwa [countP_reverse] at hcount

/-- Three boots resume profile 4 and die, the last of them with an exit that says why. -/
def threeDeaths (reason : Text) : List Event :=
  [.boot 4, .arm 4 10, .boot 4, .arm 4 20, .boot 4, .arm 4 30, .noteExit ExitCode.CoreGaveUp reason 40]

theorem refuses_after_strikes_three : (step (run step World.init (threeDeaths "the core gave up".toList)) (.boot 4)).decided = -1 := by
  have hruns := refuses_after_strikes (threeDeaths "the core gave up".toList) (by decide +kernel)
  rw [hruns.1 4 (by decide) (by decide +kernel)]
  decide

/-! ## A long reason -/

theorem one_le_utf8Size (text : Text) : text.length ≤ (text.map Char.utf8Size).sum := by
  induction text with
  | nil => exact Nat.le_refl 0
  | cons c text ih =>
    have hc := c.utf8Size_pos
    rw [map_cons, sum_cons, length_cons]
    omega

theorem length_le_jsonText (text : Text) : text.length ≤ (jsonText text).length := by
  have hchars : text.length ≤ (text.flatMap jsonChar).length := by
    induction text with
    | nil => exact Nat.le_refl 0
    | cons c text ih =>
      have hc : 1 ≤ (jsonChar c).length := by
        rw [jsonChar]
        repeat' split
        all_goals exact Nat.succ_le_succ (Nat.zero_le _)
      rw [flatMap_cons, length_append, length_cons]
      omega
  rw [jsonText, length_append, length_append]
  omega

/-- The file is longer than the reason in it. -/
theorem length_le_size {last_exit : LastExit} (h : s.last_exit = some last_exit) : last_exit.reason.length ≤ s.size := by
  have hjson := length_le_jsonText last_exit.reason
  have hsize := one_le_utf8Size s.text
  have htext : (jsonText last_exit.reason).length ≤ s.text.length := by
    unfold Saved.text
    rw [h]
    simp only [length_append]
    omega
  exact Nat.le_trans hjson (Nat.le_trans htext hsize)

/-- The boot after an exit with a long reason starts from nothing, and resumes. -/
theorem decided_long {reason : Text} (h : kResumeGuardMaxBytes < reason.length) :
    (step (run step World.init (threeDeaths reason)) (.boot 4)).decided = 4 := by
  have hthird : run step World.init [.boot 4, .arm 4 10, .boot 4, .arm 4 20, .boot 4, .arm 4 30] =
      ⟨⟨4, 2, true, 30, false, true, 2, none, none⟩, some ⟨1, 4, 2, true, 30, true, 2, none⟩, 4⟩ := by
    decide +kernel
  have hruns : run step World.init (threeDeaths reason) =
      step (run step World.init [.boot 4, .arm 4 10, .boot 4, .arm 4 20, .boot 4, .arm 4 30]) (.noteExit ExitCode.CoreGaveUp reason 40) := rfl
  rw [hruns, hthird]
  have hexit : (⟨ExitCode.CoreGaveUp, reason, 40⟩ : LastExit).reason.length ≤
      (Saved.mk 1 4 2 true 30 true 2 (some ⟨ExitCode.CoreGaveUp, reason, 40⟩)).size := length_le_size rfl
  have hload : ∀ g : Guard, (World.mk g (some ⟨1, 4, 2, true, 30, true, 2, some ⟨ExitCode.CoreGaveUp, reason, 40⟩⟩) 4).load.guard = .fresh := by
    intro g
    rw [World.load]
    simp only
    rw [if_pos (.inl (Nat.lt_of_lt_of_le h hexit))]
  have hdecide : ∀ w : World, w.guard = .fresh → (w.settlePrevious.decide 4).decided = 4 := by
    intro w hw
    simp only [World.settlePrevious, hw, Guard.fresh, World.save, World.decide]
    rfl
  have hnoted : step ⟨⟨4, 2, true, 30, false, true, 2, none, none⟩, some ⟨1, 4, 2, true, 30, true, 2, none⟩, 4⟩
      (.noteExit ExitCode.CoreGaveUp reason 40) =
      World.mk ⟨4, 2, true, 30, false, true, 2, none, some ⟨ExitCode.CoreGaveUp, reason, 40⟩⟩
        (some ⟨1, 4, 2, true, 30, true, 2, some ⟨ExitCode.CoreGaveUp, reason, 40⟩⟩) 4 := rfl
  rw [hnoted, step]
  exact hdecide _ (hload _)

theorem strikes_forgotten :
    let es := threeDeaths (List.replicate (kResumeGuardMaxBytes + 1) 'x')
    badEnds 4 es.reverse + atStake 4 es.reverse = 3 ∧ (step (run step World.init es) (.boot 4)).decided = 4 :=
  ⟨rfl, decided_long (by rw [length_replicate]; exact Nat.lt_succ_self _)⟩

end Throne.Engine.ResumeGuard
