import Mathlib.Data.Finset.Card
import Throne.Lib.Texts

/-!
# The ranking of an auto selector

`AutoSelectorController` of `src/src/engine/autoselector/AutoSelectorController.cpp`: `rank` on a thread of its own,
the sweep it shares with the test run's hooks, and `rankBeforeStart` and `onPoolExhausted`, which begin a ranking and
continue behind it on the UI thread. What is read of the database (who needs a test, how many work already, the
quorum) and what the test run reports are given with the events. Rerank and log lines are left out.

A step of a thread is what it does between two points at which another one can see it: one locked block of the
sweep, one `acquire` of its semaphore, one post to the UI thread.

`Sound` says what a ranking keeps, step by step, and `Queued` what it has posted.
-/

namespace Throne.Engine.AutoSelectorController

open Lib.Texts List

/-! ## The sweep -/

/-- `wake` is what the semaphore holds. -/
structure AutoSelectorSweep where
  wake : Nat
  measured : Finset Int
  working : Finset Int
  workingBefore : Int
  quorum : Int
  quorumMet : Bool
  done : Bool

section

variable (sweep : AutoSelectorSweep)

def AutoSelectorSweep.reachedQuorum : Bool := decide (sweep.quorum > 0) && decide (sweep.workingBefore + sweep.working.card ≥ sweep.quorum)

def AutoSelectorSweep.release : AutoSelectorSweep := { sweep with wake := sweep.wake + 1 }

/-- The end of `onResult`, and the locked block behind `runUrlTests`. -/
def AutoSelectorSweep.meetQuorum : AutoSelectorSweep :=
  if sweep.quorumMet || !sweep.reachedQuorum then sweep else { sweep with quorumMet := true }.release

def AutoSelectorSweep.onResult (id : Int) (works : Bool) : AutoSelectorSweep :=
  { sweep with
    measured := insert id sweep.measured
    working := if works then insert id sweep.working else sweep.working.erase id }.meetQuorum

def AutoSelectorSweep.onFinished : AutoSelectorSweep := { sweep with done := true }.release

end

/-! ## `rank` -/

/-- Where the thread of a ranking is. -/
inductive Place where
  | entered
  /-- Before `runUrlTests`. -/
  | testing
  /-- `runUrlTests` returned true. -/
  | checking
  /-- Before `wake.acquire`. -/
  | waiting
  /-- Before the lock behind it. -/
  | woken
  /-- Before `runOnUiThread(startEarly)`. -/
  | starting (found remaining : Int) (untrusted : List Int)
  | returned (result : Bool)
  /-- What is to be done behind `rank` is posted. -/
  | posted
  deriving DecidableEq

inductive Caller where
  | rankBeforeStart
  | onPoolExhausted

structure Profile where
  id : Int
  type : Text

/-- A ranking: the locals of `rank`, what the closures around it hold, and what was seen of it on the UI thread: how
often `startEarly` was queued, how often the continuation ran, and whether its last closure did. -/
structure Ranking where
  caller : Caller
  ent : Profile
  stale : List Int
  needed : List Int
  sweep : AutoSelectorSweep
  startedEarly : Bool
  place : Place
  queued : Nat
  continued : Nat
  completed : Bool

/-- A closure that `runOnUiThread` got. -/
inductive Posted where
  | startEarly
  | completion (startedEarly : Bool)

inductive RankEvent where
  /-- The thread begins: `stale` is the pool that was built last. -/
  | enter (stale needed : List Int) (workingBefore quorum : Int)
  /-- `runUrlTests` is refused, or it runs. -/
  | runUrlTests (runs : Bool)
  | onResult (id : Int) (works : Bool)
  | onFinished
  /-- The thread goes on. -/
  | next

def Ranking.begin (caller : Caller) (ent : Profile) : Ranking where
  caller := caller
  ent := ent
  stale := []
  needed := []
  sweep := ⟨0, ∅, ∅, 0, 0, false, false⟩
  startedEarly := false
  place := .entered
  queued := 0
  continued := 0
  completed := false

section

variable (call : Ranking)

/-- `rank` up to the test run. -/
def Ranking.enter (stale needed : List Int) (workingBefore quorum : Int) : Ranking :=
  let stale := match call.caller with
    | .rankBeforeStart => []
    | .onPoolExhausted => stale
  if call.ent.type != "autoselector".toList then { call with stale := stale, place := .returned false }
  else if needed.isEmpty then { call with stale := stale, place := .returned false }
  else
    { call with
      stale := stale
      needed := needed
      sweep := { call.sweep with workingBefore := workingBefore, quorum := quorum }
      place := .testing }

/-- The locked block of the loop. -/
def Ranking.wakeUp : Ranking :=
  if call.sweep.done then { call with place := .returned call.startedEarly }
  else if call.startedEarly || !call.sweep.quorumMet then { call with place := .waiting }
  else
    let found := call.sweep.workingBefore + call.sweep.working.card
    let remaining := max 0 ((call.needed.length : Int) - call.sweep.measured.card)
    let untrusted := call.stale.filter fun id => decide (id ∉ call.sweep.measured)
    { call with startedEarly := true, place := .starting found remaining untrusted }

/-- The thread goes on, and what it posts. -/
def Ranking.next : Ranking × Option Posted :=
  match call.place with
  | .entered | .testing | .posted => (call, none)
  | .checking => ({ call with sweep := call.sweep.meetQuorum, place := .waiting }, none)
  | .waiting =>
    if call.sweep.wake = 0 then (call, none)
    else ({ call with sweep := { call.sweep with wake := call.sweep.wake - 1 }, place := .woken }, none)
  | .woken => (call.wakeUp, none)
  | .starting _ _ _ => ({ call with place := .waiting, queued := call.queued + 1 }, some .startEarly)
  | .returned result => ({ call with place := .posted }, some (.completion result))

/-- The test run got the hooks. -/
def Ranking.hooked : Bool :=
  match call.place with
  | .entered | .testing => false
  | _ => true

def Ranking.step : RankEvent → Ranking × Option Posted
  | .enter stale needed workingBefore quorum =>
    match call.place with
    | .entered => (call.enter stale needed workingBefore quorum, none)
    | _ => (call, none)
  | .runUrlTests runs =>
    match call.place with
    | .testing =>
      if runs then ({ call with place := .checking }, none)
      else ({ call with sweep := call.sweep.onFinished, place := .waiting }, none)
    | _ => (call, none)
  | .onResult id works =>
    if call.hooked then ({ call with sweep := call.sweep.onResult id works }, none) else (call, none)
  | .onFinished => if call.hooked then ({ call with sweep := call.sweep.onFinished }, none) else (call, none)
  | .next => call.next

/-! ## The controller -/

/-- `posted` is what the UI thread has not run yet. -/
structure Controller where
  rankings : List Ranking
  rankingInFlight : Int
  rankedFor : Int
  posted : List (Nat × Posted)

def Controller.initial : Controller := ⟨[], 0, -1, []⟩

variable (c : Controller)

def Controller.beginRanking (caller : Caller) (ent : Profile) : Controller :=
  { c with rankings := c.rankings ++ [.begin caller ent], rankingInFlight := c.rankingInFlight + 1 }

/-- The plan's `error` and `needsRanking` are given. -/
def Controller.rankBeforeStart (ent : Profile) (error : Text) (needsRanking : Bool) : Controller × Bool :=
  let justRanked := c.rankedFor == ent.id
  let c := { c with rankedFor := -1 }
  if ent.type != "autoselector".toList || decide (c.rankingInFlight > 0) || justRanked then (c, false)
  else if error != [] || !needsRanking then (c, false)
  else (c.beginRanking .rankBeforeStart ent, true)

/-- `type` is that of the profile, if there is one, and `running` the id of the running snapshot. -/
def Controller.onPoolExhausted (profileID : Int) (type : Option Text) (running : Option Int) :
    Controller :=
  match type with
  | none => c
  | some type => if running != some profileID then c else c.beginRanking .onPoolExhausted ⟨profileID, type⟩

/-- What a ranking goes on with: `resumeRanked` or `restart`, up to the start that `startRanked` calls. -/
def Controller.continueRanking (n : Nat) (call : Ranking) (running : Option Int) : Controller :=
  let c := { c with rankings := c.rankings.set n { call with continued := call.continued + 1 } }
  match call.caller with
  | .rankBeforeStart => { c with rankedFor := call.ent.id }
  | .onPoolExhausted => if running != some call.ent.id then c else { c with rankedFor := call.ent.id }

/-- A closure of a ranking runs. `finishEarlySweep` is left out. -/
def Controller.runClosure (n : Nat) (call : Ranking) (running : Option Int) : Posted → Controller
  | .startEarly => c.continueRanking n call running
  | .completion startedEarly =>
    let c := { c with
      rankings := c.rankings.set n { call with completed := true }
      rankingInFlight := c.rankingInFlight - 1 }
    if startedEarly then c else c.continueRanking n { call with completed := true } running

inductive Event where
  | rankBeforeStart (ent : Profile) (error : Text) (needsRanking : Bool)
  | onPoolExhausted (profileID : Int) (type : Option Text) (running : Option Int)
  | rank (n : Nat) (e : RankEvent)
  /-- The UI thread takes the next closure. -/
  | runPosted (running : Option Int)
  /-- A start that `startRanked` called has returned. -/
  | startReturned

def Controller.step : Event → Controller
  | .rankBeforeStart ent error needsRanking => (c.rankBeforeStart ent error needsRanking).1
  | .onPoolExhausted profileID type running => c.onPoolExhausted profileID type running
  | .rank n e =>
    match c.rankings[n]? with
    | none => c
    | some call =>
      { c with
        rankings := c.rankings.set n (call.step e).1
        posted := c.posted ++ (call.step e).2.toList.map fun task => (n, task) }
  | .runPosted running =>
    match c.posted with
    | [] => c
    | (n, task) :: rest =>
      match c.rankings[n]? with
      | none => { c with posted := rest }
      | some call => { c with posted := rest }.runClosure n call running task
  | .startReturned => { c with rankedFor := -1 }

/-! ## What holds of a ranking -/

/-- `rank` has returned. -/
def Ranking.ended : Bool :=
  match call.place with
  | .returned _ | .posted => true
  | _ => false

/-- It is about to post `startEarly`. -/
def Ranking.owed : Nat :=
  match call.place with
  | .starting _ _ _ => 1
  | _ => 0

/-- How often the thread in its loop got through `acquire`. -/
def Ranking.acquired : Nat :=
  match call.place with
  | .woken => call.startedEarly.toNat + 1
  | _ => call.startedEarly.toNat

/-- The semaphore was released once for a quorum that is met and at least once for an end. -/
def Ranking.Released : Prop :=
  call.sweep.done = false ∧ call.sweep.wake + call.acquired = call.sweep.quorumMet.toNat ∨
  call.sweep.done = true ∧ call.sweep.quorumMet.toNat + 1 ≤ call.sweep.wake + call.acquired

end

/-- What a ranking keeps. -/
structure Sound (call : Ranking) : Prop where
  fresh : call.hooked = false → call.sweep.wake = 0 ∧ call.sweep.done = false ∧ call.sweep.quorumMet = false ∧ call.startedEarly = false
  entered : call.place = .entered → call.needed = []
  met : call.startedEarly = true → call.sweep.quorumMet = true
  queued : call.queued + call.owed = call.startedEarly.toNat
  released : call.hooked = true → call.ended = false → call.Released
  result : ∀ result, call.place = .returned result → result = call.startedEarly
  ended : call.ended = true → call.sweep.done = true ∨ call.needed = []

section Steps

variable {call : Ranking}

theorem hooked_entered (hhooked : call.hooked = true) : call.place ≠ .entered := by
  intro hplace
  rw [Ranking.hooked, hplace] at hhooked
  cases hhooked

/-- A ranking in its loop. -/
theorem sound_loop (hhooked : call.hooked = true) (hended : call.ended = false) (hmet : call.startedEarly = true → call.sweep.quorumMet = true)
    (hqueued : call.queued + call.owed = call.startedEarly.toNat) (hreleased : call.Released) : Sound call where
  fresh := fun hfresh => absurd (hhooked.symm.trans hfresh) (by decide)
  entered := fun hplace => absurd hplace (hooked_entered hhooked)
  met := hmet
  queued := hqueued
  released := fun _ _ => hreleased
  result := by
    intro result hplace
    rw [Ranking.ended, hplace] at hended
    cases hended
  ended := fun h => absurd (hended.symm.trans h) (by decide)

theorem ended_hooked (hended : call.ended = true) : call.hooked = true ∧ call.owed = 0 := by
  unfold Ranking.ended at hended
  split at hended
  · next hplace => exact ⟨by rw [Ranking.hooked, hplace], by rw [Ranking.owed, hplace]⟩
  · next hplace => exact ⟨by rw [Ranking.hooked, hplace], by rw [Ranking.owed, hplace]⟩
  · cases hended

/-- A ranking behind its loop. -/
theorem sound_ended (hended : call.ended = true) (hmet : call.startedEarly = true → call.sweep.quorumMet = true)
    (hqueued : call.queued = call.startedEarly.toNat) (hresult : ∀ result, call.place = .returned result → result = call.startedEarly)
    (hdone : call.sweep.done = true ∨ call.needed = []) : Sound call where
  fresh := fun hfresh => absurd ((ended_hooked hended).1.symm.trans hfresh) (by decide)
  entered := fun hplace => absurd hplace (hooked_entered (ended_hooked hended).1)
  met := hmet
  queued := by rw [(ended_hooked hended).2, hqueued, Nat.add_zero]
  released := fun _ h => absurd (hended.symm.trans h) (by decide)
  result := hresult
  ended := fun _ => hdone

theorem Sound.unhooked (h : Sound call) (hplace : call.hooked = false) : call.queued = 0 := by
  have hqueued := h.queued
  rw [(h.fresh hplace).2.2.2, Bool.toNat_false] at hqueued
  omega

theorem sound_enter (h : Sound call) (hplace : call.place = .entered) (stale needed : List Int)
    (workingBefore quorum : Int) : Sound (call.enter stale needed workingBefore quorum) := by
  have hhooked : call.hooked = false := by rw [Ranking.hooked, hplace]
  obtain ⟨hwake, hdone, hmet, hearly⟩ := h.fresh hhooked
  have hqueued : call.queued = call.startedEarly.toNat := by
    rw [h.unhooked hhooked, hearly, Bool.toNat_false]
  have hreturned (stale : List Int) : Sound { call with stale := stale, place := .returned false } := by
    refine sound_ended rfl h.met hqueued ?_ (.inr (h.entered hplace))
    rintro result ⟨⟩
    exact hearly.symm
  unfold Ranking.enter
  dsimp only
  split
  · exact hreturned _
  · split
    · exact hreturned _
    · exact ⟨fun _ => ⟨hwake, hdone, hmet, hearly⟩, (nomatch ·), h.met, hqueued, (nomatch ·), fun _ => (nomatch ·), (nomatch ·)⟩

/-- What `meetQuorum` can do. -/
theorem meetQuorum_cases (sweep : AutoSelectorSweep) : sweep.meetQuorum = sweep ∨ sweep.quorumMet = false ∧ sweep.reachedQuorum = true ∧
    sweep.meetQuorum = { sweep with quorumMet := true, wake := sweep.wake + 1 } := by
  unfold AutoSelectorSweep.meetQuorum
  split
  · exact .inl rfl
  · next h =>
    rw [Bool.or_eq_true, not_or, Bool.not_eq_true, Bool.not_eq_true', Bool.not_eq_false] at h
    exact .inr ⟨h.1, h.2, rfl⟩

/-- A quorum that is met is released once. -/
theorem meetQuorum_released (sweep : AutoSelectorSweep) :
    sweep.meetQuorum.wake + sweep.quorumMet.toNat = sweep.wake + sweep.meetQuorum.quorumMet.toNat ∧
    sweep.meetQuorum.done = sweep.done ∧ (sweep.quorumMet = true → sweep.meetQuorum.quorumMet = true) := by
  rcases meetQuorum_cases sweep with heq | ⟨hmet, -, heq⟩
  · rw [heq]
    exact ⟨rfl, rfl, id⟩
  · rw [heq, hmet]
    exact ⟨rfl, rfl, nofun⟩

/-- A ranking whose sweep releases a quorum once stays as released. -/
theorem released_meet {sweep : AutoSelectorSweep} (h : call.Released)
    (hwake : sweep.wake + call.sweep.quorumMet.toNat = call.sweep.wake + sweep.quorumMet.toNat)
    (hdone : sweep.done = call.sweep.done) : { call with sweep := sweep }.Released := by
  rcases h with ⟨hrun, hcount⟩ | ⟨hend, hcount⟩
  · refine .inl ⟨hdone.trans hrun, ?_⟩
    show sweep.wake + call.acquired = sweep.quorumMet.toNat
    omega
  · refine .inr ⟨hdone.trans hend, ?_⟩
    show sweep.quorumMet.toNat + 1 ≤ sweep.wake + call.acquired
    omega

theorem released_finish (h : call.Released) : { call with sweep := call.sweep.onFinished }.Released := by
  refine .inr ⟨rfl, ?_⟩
  show call.sweep.quorumMet.toNat + 1 ≤ call.sweep.wake + 1 + call.acquired
  rcases h with ⟨-, hcount⟩ | ⟨-, hcount⟩ <;> omega

theorem sound_onResult (h : Sound call) (hhooked : call.hooked = true) (id : Int) (works : Bool) :
    Sound { call with sweep := call.sweep.onResult id works } := by
  obtain ⟨hwake, hdone, hmet⟩ := meetQuorum_released { call.sweep with
    measured := insert id call.sweep.measured
    working := if works then insert id call.sweep.working else call.sweep.working.erase id }
  refine ⟨fun hfresh => absurd (hhooked.symm.trans hfresh) (by decide), h.entered,
    fun hearly => hmet (h.met hearly), h.queued, fun _ hended => released_meet (h.released hhooked hended) hwake hdone, h.result, ?_⟩
  exact fun hended => (h.ended hended).imp_left hdone.trans

theorem sound_onFinished (h : Sound call) (hhooked : call.hooked = true) : Sound { call with sweep := call.sweep.onFinished } := by
  exact ⟨fun hfresh => absurd (hhooked.symm.trans hfresh) (by decide), h.entered, h.met, h.queued,
    fun _ hended => released_finish (h.released hhooked hended), h.result, fun _ => .inl rfl⟩

theorem sound_runUrlTests (h : Sound call) (hplace : call.place = .testing) : Sound { call with place := .checking } ∧
    Sound { call with sweep := call.sweep.onFinished, place := .waiting } := by
  have hhooked : call.hooked = false := by rw [Ranking.hooked, hplace]
  obtain ⟨hwake, hdone, hmet, hearly⟩ := h.fresh hhooked
  have hqueued : call.queued + 0 = call.startedEarly.toNat := by
    rw [h.unhooked hhooked, hearly, Bool.toNat_false]
  refine ⟨sound_loop rfl rfl h.met hqueued (.inl ⟨hdone, ?_⟩), sound_loop rfl rfl h.met hqueued (.inr ⟨rfl, ?_⟩)⟩
  · show call.sweep.wake + call.startedEarly.toNat = call.sweep.quorumMet.toNat
    rw [hwake, hearly, hmet]
    rfl
  · show call.sweep.quorumMet.toNat + 1 ≤ call.sweep.wake + 1 + call.startedEarly.toNat
    rw [hmet, Bool.toNat_false]
    omega

/-- Through the semaphore the thread comes for the end, or once for the quorum. -/
theorem sound_wakeUp (h : Sound call) (hplace : call.place = .woken) : Sound call.wakeUp := by
  have hhooked : call.hooked = true := by rw [Ranking.hooked, hplace]
  have hended : call.ended = false := by rw [Ranking.ended, hplace]
  have hacquired : call.acquired = call.startedEarly.toNat + 1 := by rw [Ranking.acquired, hplace]
  have hqueued := h.queued
  rw [Ranking.owed, hplace] at hqueued
  unfold Ranking.wakeUp
  split
  · next hdone =>
    refine sound_ended rfl h.met hqueued ?_ (.inl hdone)
    rintro result ⟨⟩
    rfl
  · next hdone =>
    rcases h.released hhooked hended with ⟨-, hcount⟩ | ⟨hend, -⟩
    · rw [hacquired] at hcount
      -- only the quorum's release can have let the thread through, and that for the first time
      have hle := Bool.toNat_le call.sweep.quorumMet
      have hmet : call.sweep.quorumMet = true := Bool.toNat_eq_one.1 (by omega)
      have hearly : call.startedEarly = false := Bool.toNat_eq_zero.1 (by omega)
      rw [hmet, hearly, Bool.toNat_true, Bool.toNat_false] at hcount
      rw [hearly, Bool.toNat_false] at hqueued
      rw [if_neg (by rw [hearly, hmet]; decide)]
      refine sound_loop rfl rfl (fun _ => hmet) ?_ (.inl ⟨Bool.eq_false_iff.2 hdone, ?_⟩)
      · show call.queued + 1 = 1
        omega
      · show call.sweep.wake + 1 = call.sweep.quorumMet.toNat
        rw [hmet, Bool.toNat_true]
        omega
    · exact absurd hend hdone

theorem sound_next (h : Sound call) : Sound call.next.1 := by
  have hqueued := h.queued
  unfold Ranking.next
  split
  · exact h
  · exact h
  · exact h
  · next hplace =>
    have hhooked : call.hooked = true := by rw [Ranking.hooked, hplace]
    have hended : call.ended = false := by rw [Ranking.ended, hplace]
    obtain ⟨hwake, hdone, hmet⟩ := meetQuorum_released call.sweep
    have hreleased := released_meet (h.released hhooked hended) hwake hdone
    rw [Ranking.Released, Ranking.acquired, hplace] at hreleased
    rw [Ranking.owed, hplace] at hqueued
    exact sound_loop rfl rfl (fun hearly => hmet (h.met hearly)) hqueued hreleased
  · next hplace =>
    have hhooked : call.hooked = true := by rw [Ranking.hooked, hplace]
    have hended : call.ended = false := by rw [Ranking.ended, hplace]
    have hreleased := h.released hhooked hended
    rw [Ranking.owed, hplace] at hqueued
    split
    · exact h
    · next hwake =>
      have hacquired : call.acquired = call.startedEarly.toNat := by rw [Ranking.acquired, hplace]
      unfold Ranking.Released at hreleased
      rw [hacquired] at hreleased
      refine sound_loop rfl rfl h.met hqueued ?_
      refine hreleased.imp (And.imp_right fun hcount => ?_) (And.imp_right fun hcount => ?_)
      · show call.sweep.wake - 1 + (call.startedEarly.toNat + 1) = call.sweep.quorumMet.toNat
        omega
      · show call.sweep.quorumMet.toNat + 1 ≤ call.sweep.wake - 1 + (call.startedEarly.toNat + 1)
        omega
  · next hplace => exact sound_wakeUp h hplace
  · next hplace =>
    have hhooked : call.hooked = true := by rw [Ranking.hooked, hplace]
    have hended : call.ended = false := by rw [Ranking.ended, hplace]
    have hreleased := h.released hhooked hended
    rw [Ranking.Released, Ranking.acquired, hplace] at hreleased
    rw [Ranking.owed, hplace] at hqueued
    exact sound_loop rfl rfl h.met hqueued hreleased
  · next result hplace =>
    have hended : call.ended = true := by rw [Ranking.ended, hplace]
    rw [Ranking.owed, hplace] at hqueued
    exact sound_ended rfl h.met hqueued nofun (h.ended hended)

theorem sound_step (h : Sound call) (e : RankEvent) : Sound (call.step e).1 := by
  cases e with
  | enter stale needed workingBefore quorum =>
    unfold Ranking.step
    dsimp only
    split
    · next hplace => exact sound_enter h hplace stale needed workingBefore quorum
    · exact h
  | runUrlTests runs =>
    unfold Ranking.step
    dsimp only
    split
    · next hplace =>
      split
      · exact (sound_runUrlTests h hplace).1
      · exact (sound_runUrlTests h hplace).2
    · exact h
  | onResult id works =>
    unfold Ranking.step
    dsimp only
    split
    · next hhooked => exact sound_onResult h hhooked id works
    · exact h
  | onFinished =>
    unfold Ranking.step
    dsimp only
    split
    · next hhooked => exact sound_onFinished h hhooked
    · exact h
  | next => exact sound_next h

end Steps

/-! ## What is posted -/

/-- What of a ranking is posted, in order. -/
def mine (n : Nat) (posted : List (Nat × Posted)) : List Posted :=
  posted.filterMap fun entry => if entry.1 = n then some entry.2 else none

section Queue

variable {call : Ranking} {tasks : List Posted}

/-- A step of a ranking that posts nothing. -/
structure Quiet (call later : Ranking) : Prop where
  queued : later.queued = call.queued
  continued : later.continued = call.continued
  completed : later.completed = call.completed
  posted : later.place = .posted ↔ call.place = .posted
  startedEarly : call.place = .posted → later.startedEarly = call.startedEarly

end Queue

end Throne.Engine.AutoSelectorController
