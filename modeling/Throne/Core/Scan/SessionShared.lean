import Mathlib.Data.List.Nodup
import Throne.Core.Scan.SessionEvents

/-!
# Sessions and the calls that share them

Of each id at most one session is live, and a session that is not live any more is cancelled (`Single`). So the
calls in flight of one id share a session, as long as nobody cancels it, and no other call gets it.
-/

namespace Throne.Core.Scan.Sessions

open Lib.Runs List

structure Single (r : Registry) : Prop where
  keys : (r.sessions.map Prod.fst).Nodup
  live : ∀ p, p < r.next → (r.heap p).cancelled = false → ∃ id, (id, p) ∈ r.sessions

variable {r : Registry} {id : String} {p : Nat}

theorem Single.unique (h : Single r) {q : Nat} (hp : (id, p) ∈ r.sessions) (hq : (id, q) ∈ r.sessions) : p = q :=
  congrArg Prod.snd (inj_on_of_nodup_map h.keys hp hq rfl)

theorem Single.prune (h : Single r) (now : Now) : Single (pruneLocked r now) := by
  rw [pruneLocked]
  split
  · exact h
  · refine ⟨h.keys.sublist (filter_sublist.map _), fun p hp hopen => ?_⟩
    dsimp only at hopen
    split at hopen
    · cases hopen
    · next hany =>
      obtain ⟨id, hmem⟩ := h.live p hp hopen
      refine ⟨id, mem_filter.2 ⟨hmem, ?_⟩⟩
      cases hidle : (r.heap p).idle now with
      | false => rfl
      | true => exact absurd (any_eq_true.2 ⟨(id, p), hmem, by simp [hidle]⟩) hany

/-- A session is changed, but not cancelled. -/
theorem Single.set (h : Single r) {s : Session} (hs : s.cancelled = (r.heap p).cancelled) : Single (r.set p s) := by
  refine ⟨h.keys, fun q hq hopen => h.live q hq ?_⟩
  by_cases hown : q = p
  · rw [hown, set_own, hs] at hopen
    rw [hown]
    exact hopen
  · rw [set_other hown] at hopen
    exact hopen

theorem Single.session (h : Single r) {wall : Int} {found : Registry} (hsession : r.session id wall = (p, found)) : Single found := by
  rw [Registry.session] at hsession
  split at hsession
  · cases hsession
    exact h
  · next hnone =>
    cases hsession
    constructor
    · refine nodup_cons.2 ⟨fun hkey => ?_, h.keys⟩
      obtain ⟨entry, hmem, rfl⟩ := mem_map.1 hkey
      exact not_mem_of_lookup hnone entry.2 hmem
    · intro q hq hopen
      by_cases hnew : q = r.next
      · exact ⟨id, hnew ▸ mem_cons_self⟩
      · have hold : q < r.next := by simp only at hq; omega
        simp only [Registry.set, Function.update_of_ne hnew] at hopen
        obtain ⟨other, hmem⟩ := h.live q hold hopen
        exact ⟨other, mem_cons_of_mem _ hmem⟩

theorem Single.stop (h : Single r) (id : String) (now : Now) : Single (Stop r id now) := by
  have hpruned := h.prune now
  have hkeys := hpruned.keys.sublist ((filter_sublist (p := fun entry => decide (entry.1 ≠ id))).map Prod.fst)
  rw [Stop]
  split
  · exact h
  dsimp only
  split
  · next q hlookup =>
    refine ⟨hkeys, fun p hp hopen => ?_⟩
    by_cases hown : p = q
    · rw [hown, set_own] at hopen
      cases hopen
    · rw [set_other hown] at hopen
      obtain ⟨other, hmem⟩ := hpruned.live p hp hopen
      refine ⟨other, mem_filter.2 ⟨hmem, decide_eq_true fun hsame => ?_⟩⟩
      exact hown (hpruned.unique (hsame ▸ hmem) (mem_of_lookup hlookup))
  · next hlookup =>
    refine ⟨hkeys, fun p hp hopen => ?_⟩
    obtain ⟨other, hmem⟩ := hpruned.live p hp hopen
    refine ⟨other, mem_filter.2 ⟨hmem, decide_eq_true fun hsame => ?_⟩⟩
    exact not_mem_of_lookup hlookup p (hsame ▸ hmem)

theorem step_single {w : World} (h : Single w.registry) (e : Step) : Single (step w e).registry := by
  obtain ⟨call, wait, wall, touched⟩ := e
  cases call with
  | acquire id =>
    rcases acquire_cases w.registry id ⟨w.clock + wait, wall⟩ touched with
      ⟨reason, hsame⟩ | ⟨reason, hpruned⟩ | ⟨p, found, -, hsession, hgot⟩
    · simp only [step, hsame]
      exact h
    · simp only [step, hpruned]
      exact h.prune _
    · simp only [step, hgot]
      exact ((h.prune _).session hsession).set rfl
  | release call =>
    simp only [step]
    split
    · exact h.set rfl
    · exact h
  | lookup id =>
    simp only [step]
    rcases lookup_cases w.registry id ⟨w.clock + wait, wall⟩ touched with hsame | hpruned | ⟨p, found, -, hsession, hgot⟩
    · rw [hsame]
      exact h
    · rw [hpruned]
      exact h.prune _
    · rw [hgot]
      exact ((h.prune _).session hsession).set rfl
  | stop id => exact h.stop id _
  | prune => exact h.prune _
  | emit p kind phase target latency errText =>
    simp only [step]
    split
    · exact h.set rfl
    · exact h
  | poll k =>
    simp only [step]
    split <;> exact h

/-- Over any steps a session counts the calls it was given to, up to `2 ^ 32`, and of the calls in flight on sessions
that nobody cancelled those of one id, and no others, share a session. -/
theorem calls_share (readers : Nat → Nat × Int) (es : List Step) :
    let w := run step (World.init readers) es
    (∀ id p, (id, p) ∈ w.held → (w.registry.heap p).inflight = BitVec.ofNat 32 (calls w.held p)) ∧
      ∀ id other p q, (id, p) ∈ w.held → (other, q) ∈ w.held → (w.registry.heap p).cancelled = false →
        (w.registry.heap q).cancelled = false → (id = other ↔ p = q) := by
  intro w
  have hsound : Sound w.registry w.held := run_sound readers es
  have hsingle : Single w.registry := by
    refine @inv_run_all _ _ step (fun w => Single w.registry) (fun _ e h => step_single h e) es (World.init readers) ?_
    exact ⟨nodup_nil, fun p hp => absurd hp (Nat.not_lt_zero p)⟩
  refine ⟨fun id p hp => hsound.counted p (hsound.held_below id p hp), fun id other p q hp hq hopen hopen' => ?_⟩
  obtain ⟨owner, hlive, hheld⟩ := hsound.owned
  constructor
  · rintro rfl
    obtain ⟨key, hmem⟩ := hsingle.live p (hsound.held_below id p hp) hopen
    obtain ⟨key', hmem'⟩ := hsingle.live q (hsound.held_below id q hq) hopen'
    have hkey : key = id := (hlive key p hmem).symm.trans (hheld id p hp)
    have hkey' : key' = id := (hlive key' q hmem').symm.trans (hheld id q hq)
    exact hsingle.unique (hkey ▸ hmem) (hkey' ▸ hmem')
  · rintro rfl
    exact (hheld id p hp).symm.trans (hheld other p hq)

end Throne.Core.Scan.Sessions
