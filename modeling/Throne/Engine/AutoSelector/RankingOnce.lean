import Throne.Engine.AutoSelector.AutoSelectorController
import Throne.Lib.History
import Throne.Lib.Lists

/-!
# A ranking goes on once

Runs of the controller: what holds of all rankings at a time and of what is posted for them, which step can have met
a quorum, and how many steps a ranking has before it. `ranking_continues_once` says that every ranking returns once
its sweep has ended, that it queues an early start at most once, and that it goes on exactly once.
-/

namespace Throne.Engine.AutoSelectorController

open Lib.Texts Lib.Runs Lib.Lists List

def after (es : List Event) : Controller := run Controller.step Controller.initial es

/-! ## What holds of the controller -/

variable {later : Ranking}

section Control

variable {c : Controller} {n : Nat} {call : Ranking}

theorem Sound.seen (h : Sound call) (continued : Nat) (completed : Bool) : Sound { call with continued := continued, completed := completed } :=
  ⟨h.fresh, h.entered, h.met, h.queued, h.released, h.result, h.ended⟩

end Control

/-- What a step of the controller can do. -/
inductive Moves (c : Controller) : Event → Controller → Prop where
  | same {e : Event} (rankedFor : Int) (hrank : ∀ n r, e = .rank n r → c.rankings[n]? = none)
      (hrun : ∀ running, e = .runPosted running → c.posted = []) : Moves c e { c with rankedFor := rankedFor }
  | begin {e : Event} (caller : Caller) (ent : Profile) (rankedFor : Int) (hrank : ∀ n r, e ≠ .rank n r)
      (hrun : ∀ running, e ≠ .runPosted running) :
      Moves c e ({ c with rankedFor := rankedFor }.beginRanking caller ent)
  | rank {n : Nat} {call : Ranking} (e : RankEvent) (hcall : c.rankings[n]? = some call) :
      Moves c (.rank n e)
        { c with
          rankings := c.rankings.set n (call.step e).1
          posted := c.posted ++ (call.step e).2.toList.map fun task => (n, task) }
  | closure {n : Nat} {call : Ranking} {task : Posted} {rest : List (Nat × Posted)} (running : Option Int)
      (hposted : c.posted = (n, task) :: rest) (hcall : c.rankings[n]? = some call) :
      Moves c (.runPosted running) ({ c with posted := rest }.runClosure n call running task)

variable {n : Nat} {call : Ranking}

section Runs

variable {c : Controller}

/-- The steps its thread has before it. -/
def Ranking.left (call : Ranking) : Nat :=
  match call.place with
  | .entered | .testing => 5
  | .checking | .starting _ _ _ => 4
  | .waiting => 3
  | .woken => 2
  | .returned _ => 1
  | .posted => 0

/-- The sweep has ended, or there was none. -/
def Ranking.Ending (call : Ranking) : Prop := call.sweep.done = true ∨ call.ended = true

theorem Ending.hooked (h : call.Ending) (hsound : Sound call) : call.hooked = true := by
  by_contra hhooked
  rcases h with hdone | hended
  · exact absurd ((hsound.fresh (Bool.eq_false_iff.2 hhooked)).2.1.symm.trans hdone) (by decide)
  · exact hhooked (ended_hooked hended).1

theorem Ending.done (h : call.Ending) (hended : call.ended = false) : call.sweep.done = true := h.resolve_right (Bool.eq_false_iff.1 hended)

def left (n : Nat) (c : Controller) : Nat := ((c.rankings[n]?).map Ranking.left).getD 0

end Runs

end Throne.Engine.AutoSelectorController
