import Throne.Core.Scan.SessionCalls

/-!
# Events of scan sessions over a run

The ring of a session keeps the last 256 events of its log whatever else is called (`Logged`), so every reader follows
its session (`reads_events`). `sessions_kept` puts together what holds in every world that is reached. An event that
a page goes without is a page behind the newest, no more (`first_event_missed`).
-/

namespace Throne.Core.Scan.Sessions

open Lib.Pages Lib.Runs List

variable {r : Registry} {held : List (String × Nat)} {id : String} {now : Now} {wall : Int} {p : Nat}

/-! ## Events -/

/-- The ring of a session. -/
def Session.numbered (s : Session) : RingLog Event := ⟨s.ring, s.lastSeq⟩

theorem emit_numbered (s : Session) (kind phase target : String) (latency : Int) (errText : String) :
    (s.emit kind phase target latency errText).numbered = s.numbered.push eventRingSize
    ⟨s.lastSeq + 1, kind, phase, target, (latency.tdiv 1000000).bmod (2 ^ 32), errText⟩ :=
  rfl

theorem Events_numbered (s : Session) (after : Int) : s.Events after = (s.numbered.page eventRingSize eventPageSize after, s.lastSeq) := by
  rw [Session.Events, RingLog.page]
  by_cases hseen : (s.lastSeq : Int) ≤ after
  · rw [if_pos hseen]
    exact congrArg (·, s.lastSeq) (if_pos hseen).symm
  · rw [if_neg hseen]
    exact congrArg (·, s.lastSeq) (if_neg hseen).symm

theorem poll_reader (poller : Poller) (s : Session) : (poller.poll s).reader = poller.reader.poll eventRingSize eventPageSize s.numbered := by
  rw [Poller.poll, Events_numbered]
  rfl

/-- The rings keep their logs, whose events have their numbers, and the readers read them. -/
structure Logged (readers : Nat → Nat × Int) (w : World) : Prop where
  kept : ∀ p, p < w.registry.next → Keeps eventRingSize (w.registry.heap p).numbered (w.log p)
  unused : ∀ p, w.registry.next ≤ p → w.log p = []
  numbers : ∀ p n event, Entry (w.log p) n event → event.seq = n
  watched : ∀ k, (w.pollers k).session = (readers k).1
  read : ∀ k, Reads eventPageSize (w.log (readers k).1) (readers k).2 (w.pollers k).reader

theorem Logged.init (readers : Nat → Nat × Int) : Logged readers (World.init readers) where
  kept := fun _ h => absurd h (Nat.not_lt_zero _)
  unused := fun _ _ => rfl
  numbers := fun p n event h => absurd h.2 (by simp [World.init])
  watched := fun _ => rfl
  read := fun k => Reads.start _ _ _

/-- What a call of the registry leaves of the rings: the sessions in use have theirs, and new ones an empty one. -/
structure Grows (r r' : Registry) : Prop where
  next : r.next ≤ r'.next
  kept : ∀ p, p < r.next → (r'.heap p).numbered = (r.heap p).numbered
  fresh : ∀ p, r.next ≤ p → p < r'.next → (r'.heap p).lastSeq = 0

theorem Grows.refl (r : Registry) : Grows r r where
  next := le_refl _
  kept := fun _ _ => rfl
  fresh := fun _ hle hlt => absurd hlt (not_lt_of_ge hle)

theorem Grows.prune (r : Registry) (now : Now) : Grows r (pruneLocked r now) where
  next := prune_next.ge
  kept := by
    intro p _
    rcases prune_heap now p with h | ⟨h, -⟩
    · rw [h]
    · rw [h]
      rfl
  fresh := by
    intro p hle hlt
    rw [prune_next] at hlt
    exact absurd hlt (not_lt_of_ge hle)

theorem Grows.set {found : Registry} (h : Grows r found) (p : Nat) {s : Session}
    (hs : s.numbered = (found.heap p).numbered) : Grows r (found.set p s) where
  next := h.next
  kept := by
    intro q hq
    by_cases hown : q = p
    · rw [hown, set_own, hs]
      exact h.kept p (hown ▸ hq)
    · rw [set_other hown]
      exact h.kept q hq
  fresh := by
    intro q hle hlt
    by_cases hown : q = p
    · rw [hown, set_own]
      have hfresh := h.fresh p (hown ▸ hle) (hown ▸ hlt)
      exact (congrArg RingLog.last hs).trans hfresh
    · rw [set_other hown]
      exact h.fresh q hle hlt

theorem Grows.session {pruned found : Registry} (h : Grows r pruned) (hsession : pruned.session id wall = (p, found)) : Grows r found := by
  rw [Registry.session] at hsession
  split at hsession
  · cases hsession
    exact h
  · cases hsession
    constructor
    · exact h.next.trans (Nat.le_succ _)
    · intro q hq
      have hne : q ≠ pruned.next := (hq.trans_le h.next).ne
      exact (congrArg Session.numbered (set_other hne _)).trans (h.kept q hq)
    · intro q hle hlt
      by_cases hnew : q = pruned.next
      · rw [hnew]
        exact congrArg Session.lastSeq (set_own pruned pruned.next _)
      · have hlt' : q < pruned.next := by
          simp only at hlt
          omega
        exact (congrArg Session.lastSeq (set_other hnew _)).trans (h.fresh q hle hlt')

/-- Calls of the registry leave logs and readers alone. -/
theorem Logged.grow {readers : Nat → Nat × Int} {w next : World} (h : Logged readers w)
    (hgrows : Grows w.registry next.registry) (hlog : next.log = w.log) (hpollers : next.pollers = w.pollers) : Logged readers next := by
  constructor
  · intro p hp
    rw [hlog]
    by_cases hold : p < w.registry.next
    · rw [hgrows.kept p hold]
      exact h.kept p hold
    · have hnone := h.unused p (not_lt.1 hold)
      rw [hnone]
      refine ⟨hgrows.fresh p (not_lt.1 hold) hp, ?_⟩
      intro n hpos hle
      exact absurd (hpos.trans_le hle) (Nat.lt_irrefl 0)
  · intro p hp
    rw [hlog]
    exact h.unused p (hgrows.next.trans hp)
  · rw [hlog]
    exact h.numbers
  · rw [hpollers]
    exact h.watched
  · rw [hlog, hpollers]
    exact h.read

theorem step_logged {readers : Nat → Nat × Int} {w : World} (h : Logged readers w) (e : Step) : Logged readers (step w e) := by
  obtain ⟨call, wait, wall, touched⟩ := e
  cases call with
  | acquire id =>
    rcases acquire_cases w.registry id ⟨w.clock + wait, wall⟩ touched with
      ⟨reason, hsame⟩ | ⟨reason, hpruned⟩ | ⟨p, found, hfree, hsession, hgot⟩
    · apply h.grow _ _ _ <;> simp only [step, hsame]
      exact Grows.refl _
    · apply h.grow _ _ _ <;> simp only [step, hpruned]
      exact Grows.prune _ _
    · apply h.grow _ _ _ <;> simp only [step, hgot]
      exact ((Grows.prune _ _).session hsession).set p rfl
  | release call =>
    rw [step]
    dsimp only
    split
    · exact h.grow ((Grows.refl _).set _ rfl) rfl rfl
    · exact h.grow (Grows.refl _) rfl rfl
  | lookup id =>
    have hgrows : Grows w.registry (Lookup w.registry id ⟨w.clock + wait, wall⟩ touched).2 := by
      rcases lookup_cases w.registry id ⟨w.clock + wait, wall⟩ touched with
        hsame | hpruned | ⟨p, found, hfree, hsession, hgot⟩
      · rw [hsame]
        exact Grows.refl _
      · rw [hpruned]
        exact Grows.prune _ _
      · rw [hgot]
        exact ((Grows.prune _ _).session hsession).set p rfl
    exact h.grow hgrows rfl rfl
  | stop id =>
    have hgrows : Grows w.registry (Stop w.registry id ⟨w.clock + wait, wall⟩) := by
      rcases stop_cases w.registry id ⟨w.clock + wait, wall⟩ with hsame | ⟨session, heap, hstop, hheap⟩
      · rw [hsame]
        exact Grows.refl _
      · have hpruned := Grows.prune w.registry ⟨w.clock + wait, wall⟩
        have hrings (p : Nat) : (heap p).numbered = ((pruneLocked w.registry ⟨w.clock + wait, wall⟩).heap p).numbered := by
          rcases hheap p with hp | ⟨hp, -⟩
          · rw [hp]
          · rw [hp]
            rfl
        rw [hstop]
        refine ⟨hpruned.next, fun p hp => (hrings p).trans (hpruned.kept p hp), fun p hle hlt => ?_⟩
        exact (congrArg RingLog.last (hrings p)).trans (hpruned.fresh p hle hlt)
    exact h.grow hgrows rfl rfl
  | prune => exact h.grow (Grows.prune _ _) rfl rfl
  | emit p kind phase target latency errText =>
    rw [step]
    dsimp only
    split
    · next hp =>
      have hkept := h.kept p hp
      have hslot : ((w.registry.heap p).emit kind phase target latency errText).ring
          (((w.registry.heap p).emit kind phase target latency errText).lastSeq % eventRingSize) =
            ⟨(w.registry.heap p).lastSeq + 1, kind, phase, target, (latency.tdiv 1000000).bmod (2 ^ 32), errText⟩ := by
        simp only [Session.emit, Function.update_self]
      rw [hslot]
      constructor
      · intro q hq
        dsimp only
        by_cases hown : q = p
        · rw [hown, set_own, Function.update_self, emit_numbered]
          exact hkept.push _
        · rw [set_other hown, Function.update_of_ne hown]
          exact h.kept q hq
      · intro q hq
        have hne : q ≠ p := (hp.trans_le hq).ne'
        dsimp only
        rw [Function.update_of_ne hne]
        exact h.unused q hq
      · intro q n event hentry
        dsimp only at hentry
        by_cases hown : q = p
        · rw [hown, Function.update_self] at hentry
          by_cases hnew : n = (w.log p).length + 1
          · obtain ⟨-, hget⟩ := hentry
            rw [hnew, Nat.add_sub_cancel, getElem?_append_right (le_refl _), Nat.sub_self] at hget
            have hevent := Option.some.inj hget
            have hlast : (w.registry.heap p).lastSeq = (w.log p).length := hkept.last
            rw [← hevent, hnew]
            exact congrArg (· + 1) hlast
          · have hle := hentry.le_length
            obtain ⟨hpos, hget⟩ := hentry
            rw [length_append, length_singleton] at hle
            rw [getElem?_append_left (by omega)] at hget
            exact h.numbers p n event ⟨hpos, hget⟩
        · rw [Function.update_of_ne hown] at hentry
          exact h.numbers q n event hentry
      · exact h.watched
      · intro k
        dsimp only
        by_cases hown : (readers k).1 = p
        · rw [hown, Function.update_self]
          exact (hown ▸ h.read k).push _
        · rw [Function.update_of_ne hown]
          exact h.read k
    · exact h.grow (Grows.refl _) rfl rfl
  | poll k =>
    rw [step]
    dsimp only
    split
    · next hsession =>
      constructor
      · exact h.kept
      · exact h.unused
      · exact h.numbers
      · intro j
        dsimp only
        by_cases hown : j = k
        · rw [hown, Function.update_self]
          exact h.watched k
        · rw [Function.update_of_ne hown]
          exact h.watched j
      · intro j
        dsimp only
        by_cases hown : j = k
        · rw [hown, Function.update_self, poll_reader]
          have hkept := h.kept _ hsession
          rw [h.watched k] at hkept ⊢
          exact (h.read k).poll hkept (by decide)
        · rw [Function.update_of_ne hown]
          exact h.read j
    · exact h.grow (Grows.refl _) rfl rfl

/-! ## Every run -/

/-- What a reader has of the events of its session: they come under ever greater numbers, each is the event emitted
under its number, and one that the reader asked for and did not get was a page or more behind the newest at a poll. -/
structure Followed (log : List Event) (start : Int) (reader : Reader Event) : Prop where
  increasing : (reader.received.map (·.seq)).Pairwise (· < ·)
  emitted : ∀ event ∈ reader.received, 0 < event.seq ∧ log[event.seq - 1]? = some event
  missed : ∀ first, reader.newest.head? = some first → ∀ n : Nat, 0 < n → min start first < n →
    (n : Int) ≤ reader.cursor → n ∈ reader.received.map (·.seq) ∨ ∃ newest ∈ reader.newest, n + eventPageSize ≤ newest

/-- Numbers are those that the entries carry. -/
theorem seq_of_entries {log : List Event} (hnumbers : ∀ n event, Entry log n event → event.seq = n)
    {numbers : List Nat} {received : List Event} (h : List.Forall₂ (Entry log) numbers received) :
    received.map (·.seq) = numbers ∧ ∀ event ∈ received, 0 < event.seq ∧ log[event.seq - 1]? = some event := by
  induction h with
  | nil => exact ⟨rfl, nofun⟩
  | cons hentry _ ih =>
    have hseq := hnumbers _ _ hentry
    refine ⟨by rw [map_cons, hseq, ih.1], ?_⟩
    intro event hevent
    rcases mem_cons.1 hevent with rfl | hevent
    · rw [hseq]
      exact hentry
    · exact ih.2 event hevent

theorem reads_events {log : List Event} {start : Int} {reader : Reader Event} (h : Reads eventPageSize log start reader)
    (hnumbers : ∀ n event, Entry log n event → event.seq = n) : Followed log start reader := by
  obtain ⟨numbers, hsorted, hentries, -, hgot⟩ := h.received
  obtain ⟨hseq, hemitted⟩ := seq_of_entries hnumbers hentries
  constructor
  · rw [hseq]
    exact hsorted
  · exact hemitted
  · rw [hseq]
    exact hgot

/-- What holds in every world that is reached. -/
structure SessionsKept (readers : Nat → Nat × Int) (w : World) : Prop where
  /-- No id is live and stopped. -/
  apart : ∀ id p stone, (id, p) ∈ w.registry.sessions → (id, stone) ∉ w.registry.stopped
  /-- After a `Stop` a call is admitted only when the idle time has passed. -/
  admitted : ∀ (id : String) (stop : Step) (es : List Step) (wait : Nat) (wall touched : Int) (p : Nat) (registry : Registry), stop.call = .stop id →
    Acquire (run step (step w stop) es).registry id ⟨(run step (step w stop) es).clock + wait, wall⟩ touched = (.ok p, registry) →
    sessionIdleTTL < ((run step (step w stop) es).clock + wait : Int) - (step w stop).clock
  /-- A session with a call in flight, and fewer than `2 ^ 32`, is cancelled only by a `Stop`. -/
  context : ∀ e id p, (id, p) ∈ w.held → calls w.held p < 2 ^ 32 → (w.registry.heap p).cancelled = false →
    ((step w e).registry.heap p).cancelled = true → e.call = .stop id
  /-- Every reader follows its session. -/
  events : ∀ k, Followed (w.log (readers k).1) (readers k).2 (w.pollers k).reader

theorem run_sound (readers : Nat → Nat × Int) (es : List Step) :
    Sound (run step (World.init readers) es).registry (run step (World.init readers) es).held :=
  @inv_run_all _ _ step (fun w => Sound w.registry w.held) (fun _ e h => step_sound h e) es (World.init readers) Sound.empty

theorem run_logged (readers : Nat → Nat × Int) (es : List Step) : Logged readers (run step (World.init readers) es) :=
  @inv_run_all _ _ step (Logged readers) (fun _ e h => step_logged h e) es (World.init readers) (Logged.init readers)

/-- Over any steps at any times. -/
theorem sessions_kept (readers : Nat → Nat × Int) (es : List Step) : SessionsKept readers (run step (World.init readers) es) := by
  have hsound := run_sound readers es
  have hlogged := run_logged readers es
  constructor
  · exact hsound.apart
  · intro id stop later wait wall touched p registry hstop hok
    by_cases hid : id = ""
    · rw [Acquire, if_pos hid] at hok
      exact absurd (Prod.mk.inj hok).1 (by simp)
    · have hmoment := since_stop hstop hid (run step (World.init readers) es)
      have hkeep (moment : Nat) (v : World) (e : Step) (h : StoppedSince id moment v) : StoppedSince id moment (step v e) := step_since h e
      have hsince := inv_run_all (hkeep _) later _ hmoment
      exact admitted_later hsince (Nat.le_add_right _ _) hok
  · intro e id p hheld hfew hopen hdone
    exact cancelled_by_stop hsound e hheld hfew hopen hdone
  · intro k
    exact reads_events (hlogged.read k) (hlogged.numbers _)

/-! ## The edges -/

/-- Worlds in which only calls of one id were admitted, none after the clocks moved. -/
structure Calling (n : Nat) (w : World) : Prop where
  clock : w.clock = 0
  live : w.registry.sessions = [("a", 0)]
  stopped : w.registry.stopped = []
  pruned : w.registry.lastPrune = some 0
  opened : (w.registry.heap 0).cancelled = false
  used : (w.registry.heap 0).lastUsed = 0
  held : w.held = List.replicate n ("a", 0)

def callStep : Step := ⟨.acquire "a", 0, 0, 0⟩

theorem calling_step {n : Nat} {w : World} (h : Calling n w) : Calling (n + 1) (step w callStep) := by
  have hprune : pruneLocked w.registry ⟨w.clock, 0⟩ = w.registry := by
    rw [pruneLocked, h.pruned, h.clock]
    rfl
  have hget : Acquire w.registry "a" ⟨w.clock, 0⟩ 0 = (.ok 0, w.registry.set 0
        ({ w.registry.heap 0 with inflight := (w.registry.heap 0).inflight + 1 }.touch 0)) := by
    have hsession : w.registry.session "a" 0 = (0, w.registry) := by
      rw [Registry.session, h.live]
      rfl
    rw [Acquire, if_neg (by decide)]
    simp only [hprune, h.stopped, hsession]
    rfl
  have hstep : step w callStep = { w with
      registry := w.registry.set 0
        ({ w.registry.heap 0 with inflight := (w.registry.heap 0).inflight + 1 }.touch 0)
      held := ("a", 0) :: w.held } := by
    simp only [step, callStep, Nat.add_zero, hget]
  rw [hstep]
  refine ⟨h.clock, h.live, h.stopped, h.pruned, ?_, ?_, ?_⟩
  · dsimp only
    rw [set_own]
    exact h.opened
  · dsimp only
    rw [set_own]
    rfl
  · rw [replicate_succ, ← h.held]

/-- So many calls may be in flight. -/
theorem calling_run (n : Nat) : ∃ es, Calling (n + 1) (run step (World.init fun _ => (0, 0)) es) := by
  induction n with
  | zero => exact ⟨[callStep], rfl, rfl, rfl, rfl, rfl, rfl, rfl⟩
  | succ n ih =>
    obtain ⟨es, hes⟩ := ih
    refine ⟨es ++ [callStep], ?_⟩
    rw [run_append]
    exact calling_step hes

/-- With `2 ^ 32` calls in flight none is counted, and pruning cancels their session. -/
theorem full_count_pruned : ∃ es e, e.call = .prune ∧ ("a", 0) ∈ (run step (World.init fun _ => (0, 0)) es).held ∧
    ((run step (World.init fun _ => (0, 0)) es).registry.heap 0).cancelled = false ∧
    ((step (run step (World.init fun _ => (0, 0)) es) e).registry.heap 0).cancelled = true := by
  obtain ⟨es, hes⟩ := calling_run (2 ^ 32 - 1)
  have hsound := run_sound (fun _ => (0, 0)) es
  have hheld : ("a", 0) ∈ (run step (World.init fun _ => (0, 0)) es).held := by
    rw [hes.held]
    exact mem_replicate.2 ⟨by omega, rfl⟩
  have hcalls : calls (run step (World.init fun _ => (0, 0)) es).held 0 = 2 ^ 32 := by
    rw [hes.held, calls, countP_replicate]
    rfl
  have hcount : ((run step (World.init fun _ => (0, 0)) es).registry.heap 0).inflight = 0 := by
    rw [hsound.counted 0 (hsound.held_below _ _ hheld), hcalls]
    rfl
  refine ⟨es, ⟨.prune, 1000000000000, 1000000000000, 0⟩, rfl, hheld, hes.opened, ?_⟩
  have hidle : ((run step (World.init fun _ => (0, 0)) es).registry.heap 0).idle ⟨1000000000000, 1000000000000⟩ = true := by
    rw [Session.idle, hcount, hes.used]
    rfl
  simp only [step, hes.clock, Nat.zero_add, pruneLocked, hes.pruned]
  rw [if_neg (by decide)]
  simp only [hes.live, any_cons, hidle]
  rfl

/-- Of 65 events a reader that asks for all gets the last 64; the first is 64 behind the newest, not more. Nor does a
call in flight keep its session from being pruned when `2 ^ 32` are. -/
theorem first_event_missed :
    (let w := run step (World.init fun _ => (0, 0))
      (callStep :: List.replicate 65 ⟨.emit 0 "ok" "tcp" "host" 0 "", 0, 0, 0⟩ ++ [⟨.poll 0, 0, 0, 0⟩])
    (w.log 0).length = 65 ∧ (w.pollers 0).reader.cursor = 65 ∧ (w.pollers 0).reader.newest = [65] ∧ 1 ∉ (w.pollers 0).reader.received.map (·.seq)) ∧
    ∃ es e, e.call = .prune ∧ ("a", 0) ∈ (run step (World.init fun _ => (0, 0)) es).held ∧
      ((run step (World.init fun _ => (0, 0)) es).registry.heap 0).cancelled = false ∧
      ((step (run step (World.init fun _ => (0, 0)) es) e).registry.heap 0).cancelled = true :=
  ⟨by decide +kernel, full_count_pruned⟩

end Throne.Core.Scan.Sessions
