import Throne.Lib.Lists
import Throne.Lib.Runs
import Mathlib.Algebra.Ring.Nat
import Mathlib.Data.List.Nodup
import Mathlib.Data.List.Perm.Basic

/-!
# The queue of the group updater

`RefreshGroup`, `RefreshWithOutcome`, `RefreshAll`, `enqueue` and `drain` of
`src/src/configs/sub/GroupUpdater.cpp`. Callers on any thread append jobs under the mutex and start a
drain when none runs; the drain takes one job at a time and lets go of the mutex around the job and
its callbacks.

A step is what happens between two moments at which another thread can come in: one critical section,
one job, or one callback. A callback is a number, given out when the request that brings it is made.
`queued`, `ran` and `called` record the history.
-/

namespace Throne.Configs.Sub.Queue

open Lib.Runs Lib.Lists List

/-! ## State -/

/-- A job; `finish` is the callback that runs after it. Refreshes have a gid that is not negative. -/
structure Job where
  gid : Int
  batch : Bool
  finish : Option Nat
  deriving DecidableEq

/-- Where a drain thread stands. -/
inductive Drain where
  /-- At the top of its loop. -/
  | loop
  /-- With a job in hand that has not run. -/
  | took (job : Job)
  | ran (job : Job)
  /-- After `finish`, before the pending mark is cleared. -/
  | finished (job : Job)
  | answering (waiting : List Nat)
  | exited
  deriving DecidableEq

/-- The updater. `refused` holds the callbacks callers are about to call themselves, because their
gid was pending already. -/
structure Updater where
  queue : List Job
  pending : List Int
  waiters : List (Int × Nat)
  pendingBatch : Int
  running : Bool
  drains : List Drain
  refused : List Nat
  issued : Nat
  queued : List Job
  ran : List Job
  called : List Nat
  /-- Messages of callees that threw. -/
  failures : Nat

def initial : Updater := ⟨[], [], [], 0, false, [], [], 0, [], [], [], 0⟩

/-! ## Requests -/

section

variable (s : Updater)

/-- `enqueueLocked`. -/
def enqueueLocked (job : Job) : Updater :=
  let s := { s with queue := s.queue ++ [job], queued := s.queued ++ [job] }
  if s.running then s
  else { s with running := true, drains := s.drains ++ [.loop] }

/-- A request that brings a callback gets a number for it. -/
def token (callback : Bool) : Option Nat := if callback then some s.issued else none

def issue (callback : Bool) : Updater :=
  if callback then { s with issued := s.issued + 1 } else s

def RefreshGroup (gid : Int) (finish : Bool) : Updater :=
  let f := token s finish
  let s := issue s finish
  if s.pending.contains gid then { s with refused := s.refused ++ f.toList }
  else enqueueLocked { s with pending := gid :: s.pending } ⟨gid, false, f⟩

def RefreshWithOutcome (gid : Int) (done : Bool) : Updater :=
  let d := token s done
  let s := issue s done
  if gid < 0 then { s with refused := s.refused ++ d.toList }
  else
    let s := { s with waiters := s.waiters ++ d.toList.map fun c => (gid, c) }
    if s.pending.contains gid then s
    else enqueueLocked { s with pending := gid :: s.pending } ⟨gid, false, none⟩

/-- One group of `RefreshAll`. -/
def refreshOne (gid : Int) : Updater :=
  if s.pending.contains gid then s
  else
    enqueueLocked { s with pending := gid :: s.pending, pendingBatch := s.pendingBatch + 1 } ⟨gid, true, none⟩

/-- `RefreshAll` over the groups that can be updated. -/
def RefreshAll (gids : List Int) : Updater :=
  if 0 < s.pendingBatch then s else gids.foldl refreshOne s

/-- An import or a copy: a job of no gid. -/
def enqueue (finish : Bool) : Updater := enqueueLocked (issue s finish) ⟨-1, false, token s finish⟩

/-- The caller of a refused request calls its callback. -/
def callRefused (i : Nat) : Updater :=
  match s.refused[i]? with
  | none => s
  | some c => { s with refused := s.refused.eraseIdx i, called := s.called ++ [c] }

/-! ## The drain -/

/-- `guarded`: a callee that throws leaves a message and nothing else. -/
def guarded (throws : Bool) : Updater :=
  if throws then { s with failures := s.failures + 1 } else s

def setDrain (i : Nat) (d : Drain) : Updater := { s with drains := s.drains.set i d }

/-- The next step of drain thread `i`; `throws` tells of the job or callback it calls there. -/
def drain (i : Nat) (throws : Bool) : Updater :=
  match s.drains[i]? with
  | none => s
  | some .exited => s
  | some .loop =>
    match s.queue with
    | [] => setDrain { s with running := false } i .exited
    | job :: rest => setDrain { s with queue := rest } i (.took job)
  | some (.took job) =>
    setDrain (guarded { s with ran := s.ran ++ [job] } throws) i (.ran job)
  | some (.ran job) =>
    match job.finish with
    | none => setDrain s i (.finished job)
    | some c => setDrain (guarded { s with called := s.called ++ [c] } throws) i (.finished job)
  | some (.finished job) =>
    let waiting := if 0 ≤ job.gid then s.waiters.filter fun w => w.1 == job.gid else []
    let s :=
      if 0 ≤ job.gid then
        { s with
          pending := s.pending.filter fun g => g != job.gid
          waiters := s.waiters.filter fun w => w.1 != job.gid }
      else s
    let s := if job.batch then { s with pendingBatch := s.pendingBatch - 1 } else s
    setDrain s i (.answering (waiting.map Prod.snd))
  | some (.answering []) => setDrain s i .loop
  | some (.answering (c :: waiting)) =>
    setDrain (guarded { s with called := s.called ++ [c] } throws) i (.answering waiting)

/-! ## Runs -/

inductive Event where
  | refreshGroup (gid : Int) (finish : Bool)
  | refreshWithOutcome (gid : Int) (done : Bool)
  | refreshAll (gids : List Int)
  | enqueue (finish : Bool)
  | callRefused (i : Nat)
  | drain (i : Nat) (throws : Bool)

def step : Event → Updater
  | .refreshGroup gid finish => RefreshGroup s gid finish
  | .refreshWithOutcome gid done => RefreshWithOutcome s gid done
  | .refreshAll gids => RefreshAll s gids
  | .enqueue finish => enqueue s finish
  | .callRefused i => callRefused s i
  | .drain i throws => drain s i throws

/-- Refresh jobs are asked for with ids of groups. -/
def Event.ofGroups : Event → Prop
  | .refreshGroup gid _ => 0 ≤ gid
  | .refreshAll gids => ∀ gid ∈ gids, 0 ≤ gid
  | _ => True

/-! ## What a drain holds -/

/-- The job whose marks are still set. -/
def Drain.hand : Drain → List Job
  | .took job => [job]
  | .ran job => [job]
  | .finished job => [job]
  | _ => []

def Drain.unrun : Drain → List Job
  | .took job => [job]
  | _ => []

/-- The callbacks it will call. -/
def Drain.due : Drain → List Nat
  | .took job => job.finish.toList
  | .ran job => job.finish.toList
  | .answering waiting => waiting
  | _ => []

/-- The jobs queued or running. -/
def busy : List Job := s.drains.flatMap Drain.hand ++ s.queue

/-- The callbacks somebody has yet to call. -/
def held : List Nat := s.queue.filterMap Job.finish ++ s.drains.flatMap Drain.due ++ s.waiters.map Prod.snd ++ s.refused

end

/-- One drain thread is at work when `running` is set, and none else. -/
def Single (running : Bool) (drains : List Drain) : Prop :=
  if running then
    ∃ (i : Nat) (d : Drain), drains[i]? = some d ∧ d ≠ .exited ∧ ∀ (j : Nat) (x : Drain), j ≠ i → drains[j]? = some x → x = .exited
  else ∀ d ∈ drains, d = .exited

/-- The books of the queue while a drain has the jobs `hand` in hand, of which `unrun` have not run,
and the callbacks `due` to call. -/
structure Ledger (hand unrun : List Job) (due : List Nat) (s : Updater) : Prop where
  order : s.queued = s.ran ++ (unrun ++ s.queue)
  pending : ∀ g, g ∈ s.pending ↔ 0 ≤ g ∧ g ∈ (hand ++ s.queue).map Job.gid
  distinct : s.pending.Nodup
  once : (((hand ++ s.queue).map Job.gid).filter fun g => 0 ≤ g).Nodup
  batch : s.pendingBatch = ((hand ++ s.queue).countP Job.batch : Nat)
  waiters : ∀ w ∈ s.waiters, w.1 ∈ s.pending
  tally : ∀ c, s.called.count c + ((s.queue.filterMap Job.finish).count c + due.count c
    + (s.waiters.map Prod.snd).count c + s.refused.count c) = if c < s.issued then 1 else 0

/-- The books of the queue. -/
structure Books (s : Updater) : Prop where
  single : Single s.running s.drains
  idle : s.running = false → s.queue = []
  ledger : Ledger (s.drains.flatMap Drain.hand) (s.drains.flatMap Drain.unrun) (s.drains.flatMap Drain.due) s

/-! ## One drain at work -/

variable {l : List Drain}

theorem flatMap_exited {β : Type} (h : ∀ d ∈ l, d = .exited) (f : Drain → List β) (hf : f .exited = []) : l.flatMap f = [] := by
  rw [flatMap_eq_nil_iff]
  intro d hd
  rw [h d hd, hf]

variable {i : Nat} {d : Drain}

theorem flatMap_alone {β : Type} (hi : l[i]? = some d) (halone : ∀ (j : Nat) x, j ≠ i → l[j]? = some x → x = .exited) (f : Drain → List β)
    (hf : f .exited = []) : l.flatMap f = f d := by
  induction l generalizing i with
  | nil => cases hi
  | cons a l ih =>
    rw [flatMap_cons]
    cases i with
    | zero =>
      have ha : a = d := by simpa using hi
      have hrest : ∀ x ∈ l, x = .exited := by
        intro x hx
        obtain ⟨j, hj⟩ := getElem?_of_mem hx
        exact halone (j + 1) x (Nat.succ_ne_zero j) hj
      rw [ha, flatMap_exited hrest f hf, append_nil]
    | succ i =>
      have ha : a = .exited := halone 0 a (Nat.succ_ne_zero i).symm rfl
      rw [ha, hf, nil_append]
      apply ih hi
      intro j x hj hx
      exact halone (j + 1) x (fun h => hj (Nat.succ.inj h)) hx

/-- The working drain takes a step and goes on working. -/
theorem Single.set {running : Bool} (h : Single running l) (hi : l[i]? = some d) (hd : d ≠ .exited)
    (d' : Drain) : running = true ∧ (l.set i d')[i]? = some d' ∧ ∀ (j : Nat) x, j ≠ i → (l.set i d')[j]? = some x → x = .exited := by
  cases running with
  | false =>
    rw [Single, if_neg (by simp)] at h
    exact absurd (h d (mem_of_getElem? hi)) hd
  | true =>
    rw [Single, if_pos rfl] at h
    obtain ⟨k, dk, hk, _, halone⟩ := h
    have hik : i = k := by
      by_contra hne
      exact hd (halone i d hne hi)
    subst hik
    refine ⟨rfl, ?_, ?_⟩
    · rw [getElem?_set_self (List.getElem?_eq_some_iff.1 hi).1]
    · intro j x hj hx
      rw [getElem?_set_ne (Ne.symm hj)] at hx
      exact halone j x hj hx

theorem Single.alone {running : Bool} (h : Single running l) (hi : l[i]? = some d)
    (hd : d ≠ .exited) : ∀ (j : Nat) x, j ≠ i → l[j]? = some x → x = .exited := by
  obtain ⟨_, _, halone⟩ := h.set hi hd d
  intro j x hj hx
  apply halone j x hj
  rw [getElem?_set_ne (Ne.symm hj)]
  exact hx

variable {s : Updater}

/-- A drain step from `d` to `d'` that keeps the ledger keeps the books. -/
theorem Books.advance {s' : Updater} {d' : Drain} (h : Books s) (hi : s.drains[i]? = some d)
    (hd : d ≠ .exited) (hrun : s'.running = if d' = .exited then false else s.running)
    (hdrains : s'.drains = s.drains.set i d') (hidle : d' = .exited → s'.queue = [])
    (hledger : Ledger d.hand d.unrun d.due s → Ledger d'.hand d'.unrun d'.due s') : Books s' := by
  obtain ⟨hrunning, hset, halone⟩ := h.single.set hi hd d'
  have halone' := h.single.alone hi hd
  have hl := h.ledger
  rw [flatMap_alone hi halone' _ rfl, flatMap_alone hi halone' _ rfl, flatMap_alone hi halone' _ rfl] at hl
  constructor
  · rw [hrun, hdrains]
    by_cases hexit : d' = .exited
    · rw [if_pos hexit, Single, if_neg (by simp)]
      intro x hx
      obtain ⟨j, hj⟩ := getElem?_of_mem hx
      by_cases hji : j = i
      · rw [hji, hset] at hj
        rw [← Option.some.inj hj, hexit]
      · exact halone j x hji hj
    · rw [if_neg hexit, hrunning, Single, if_pos rfl]
      exact ⟨i, d', hset, hexit, halone⟩
  · intro hstopped
    apply hidle
    by_contra hexit
    rw [hrun, if_neg hexit, hrunning] at hstopped
    cases hstopped
  · rw [hdrains, flatMap_alone hset halone _ rfl, flatMap_alone hset halone _ rfl, flatMap_alone hset halone _ rfl]
    exact hledger hl

/-! ## The steps of the drain -/

variable {hand unrun : List Job} {due : List Nat} {t : Updater}

section Drain

variable {s : Updater} {job : Job}

theorem Ledger.setDrain (h : Ledger hand unrun due s) (i : Nat) (d : Drain) : Ledger hand unrun due (setDrain s i d) :=
  ⟨h.order, h.pending, h.distinct, h.once, h.batch, h.waiters, h.tally⟩

theorem guarded_fields (s : Updater) (throws : Bool) : ∃ n, guarded s throws = { s with failures := n } := by
  cases throws with
  | false => exact ⟨s.failures, rfl⟩
  | true => exact ⟨s.failures + 1, rfl⟩

theorem Ledger.guarded (h : Ledger hand unrun due s) (throws : Bool) : Ledger hand unrun due (guarded s throws) := by
  obtain ⟨n, hn⟩ := guarded_fields s throws
  rw [hn]
  exact ⟨h.order, h.pending, h.distinct, h.once, h.batch, h.waiters, h.tally⟩

theorem guarded_thread (s : Updater) (throws : Bool) : (Queue.guarded s throws).running = s.running ∧ (Queue.guarded s throws).drains = s.drains := by
  obtain ⟨n, hn⟩ := guarded_fields s throws
  rw [hn]
  exact ⟨rfl, rfl⟩

theorem Ledger.take {rest : List Job} (h : Ledger [] [] [] s) (hq : s.queue = job :: rest) :
    Ledger [job] [job] job.finish.toList { s with queue := rest } := by
  obtain ⟨horder, hpending, hdistinct, honce, hbatch, hwaiters, htally⟩ := h
  rw [hq] at horder hpending honce hbatch htally
  refine ⟨horder, hpending, hdistinct, honce, hbatch, hwaiters, ?_⟩
  intro c
  have hc := htally c
  have hsplit : ((job :: rest).filterMap Job.finish).count c = job.finish.toList.count c + (rest.filterMap Job.finish).count c := by
    cases hf : job.finish with
    | none => simp [hf]
    | some f => simp [hf, count_cons, Nat.add_comm]
  rw [hsplit, count_nil] at hc
  dsimp only
  omega

theorem Ledger.call {c : Nat} (h : Ledger hand unrun (c :: due) s) : Ledger hand unrun due { s with called := s.called ++ [c] } := by
  refine ⟨h.order, h.pending, h.distinct, h.once, h.batch, h.waiters, ?_⟩
  intro c'
  have hc := h.tally c'
  rw [count_cons] at hc
  dsimp only
  rw [count_append, count_singleton]
  omega

theorem count_waiters_split (waiters : List (Int × Nat)) (gid : Int) (c : Nat) : (waiters.map Prod.snd).count c
    = ((waiters.filter fun w => w.1 == gid).map Prod.snd).count c + ((waiters.filter fun w => w.1 != gid).map Prod.snd).count c := by
  induction waiters with
  | nil => rfl
  | cons w waiters ih =>
    rw [map_cons, count_cons, ih]
    by_cases hw : w.1 = gid
    · rw [filter_cons_of_pos (by simpa using hw), filter_cons_of_neg (by simp [hw]), map_cons, count_cons]
      omega
    · rw [filter_cons_of_neg (by simpa using hw), filter_cons_of_pos (by simp [hw]), map_cons, count_cons]
      omega

/-- The marks of a refresh job are cleared and its waiters are taken. -/
theorem Ledger.clear (h : Ledger [job] [] [] s) (hgid : 0 ≤ job.gid) (n : Int) (hn : n = s.pendingBatch - if job.batch then 1 else 0) :
    Ledger [] [] ((s.waiters.filter fun w => w.1 == job.gid).map Prod.snd)
      { s with
        pending := s.pending.filter fun g => g != job.gid
        waiters := s.waiters.filter fun w => w.1 != job.gid
        pendingBatch := n } := by
  obtain ⟨horder, hpending, hdistinct, honce, hbatch, hwaiters, htally⟩ := h
  -- No other job has this gid.
  have hout : job.gid ∉ s.queue.map Job.gid := by
    rw [cons_append, nil_append, map_cons, filter_cons_of_pos (by simpa using hgid), nodup_cons] at honce
    intro hmem
    exact honce.1 (mem_filter.2 ⟨hmem, by simpa using hgid⟩)
  refine ⟨horder, ?_, hdistinct.filter _, ?_, ?_, ?_, ?_⟩
  · intro g
    rw [mem_filter, hpending g, bne_iff_ne]
    dsimp only
    rw [cons_append, nil_append, map_cons, mem_cons]
    constructor
    · rintro ⟨⟨hg, rfl | hmem⟩, hne⟩
      · exact absurd rfl hne
      · exact ⟨hg, hmem⟩
    · rintro ⟨hg, hmem⟩
      refine ⟨⟨hg, .inr hmem⟩, ?_⟩
      rintro rfl
      exact hout hmem
  · rw [cons_append, nil_append, map_cons, filter_cons_of_pos (by simpa using hgid), nodup_cons] at honce
    exact honce.2
  · rw [cons_append, nil_append, countP_cons] at hbatch
    dsimp only
    rw [nil_append, hn, hbatch]
    cases job.batch with
    | true | false => simp
  · intro w hw
    obtain ⟨hin, hne⟩ := mem_filter.1 hw
    exact mem_filter.2 ⟨hwaiters w hin, hne⟩
  · intro c
    have hc := htally c
    rw [count_waiters_split s.waiters job.gid, count_nil] at hc
    dsimp only
    omega

/-- A job of no group leaves no marks, unless it is counted in the batch. -/
theorem Ledger.drop (h : Ledger [job] [] [] s) (hgid : ¬ 0 ≤ job.gid) (n : Int)
    (hn : n = s.pendingBatch - if job.batch then 1 else 0) : Ledger [] [] [] { s with pendingBatch := n } := by
  obtain ⟨horder, hpending, hdistinct, honce, hbatch, hwaiters, htally⟩ := h
  refine ⟨horder, ?_, hdistinct, ?_, ?_, hwaiters, htally⟩
  · intro g
    rw [hpending g]
    dsimp only
    rw [cons_append, nil_append, map_cons, mem_cons]
    constructor
    · rintro ⟨hg, rfl | hmem⟩
      · exact absurd hg hgid
      · exact ⟨hg, hmem⟩
    · rintro ⟨hg, hmem⟩
      exact ⟨hg, .inr hmem⟩
  · rw [cons_append, nil_append, map_cons, filter_cons_of_neg (by simpa using hgid)] at honce
    exact honce
  · rw [cons_append, nil_append, countP_cons] at hbatch
    dsimp only
    rw [nil_append, hn, hbatch]
    cases job.batch with
    | true | false => simp

/-- The working drain moves on to `d'` in a state whose threads are those of before. -/
theorem Books.move {d' : Drain} (h : Books s) (hi : s.drains[i]? = some d) (hd : d ≠ .exited) (hd' : d' ≠ .exited)
    (hthreads : t.running = s.running ∧ t.drains = s.drains)
    (hledger : Ledger d.hand d.unrun d.due s → Ledger d'.hand d'.unrun d'.due t) : Books (setDrain t i d') := by
  apply h.advance hi hd
  · rw [if_neg hd']
    exact hthreads.1
  · exact congrArg (fun l => l.set i d') hthreads.2
  · intro hexit
    exact absurd hexit hd'
  · intro hl
    exact (hledger hl).setDrain i d'

theorem books_drain {throws : Bool} (h : Books s) : Books (drain s i throws) := by
  rw [drain]
  cases hi : s.drains[i]? with
  | none => exact h
  | some d =>
    cases d with
    | exited => exact h
    | loop =>
      dsimp only
      split
      · next hq =>
        refine h.advance hi Drain.noConfusion rfl rfl (fun _ => hq) ?_
        intro hl
        exact ⟨hl.order, hl.pending, hl.distinct, hl.once, hl.batch, hl.waiters, hl.tally⟩
      · next job rest hq =>
        refine h.move hi Drain.noConfusion Drain.noConfusion ⟨rfl, rfl⟩ ?_
        intro hl
        exact hl.take hq
    | took job =>
      refine h.move hi Drain.noConfusion Drain.noConfusion (guarded_thread { s with ran := s.ran ++ [job] } throws) ?_
      intro hl
      apply Ledger.guarded
      refine ⟨?_, hl.pending, hl.distinct, hl.once, hl.batch, hl.waiters, hl.tally⟩
      rw [hl.order]
      simp [Drain.unrun]
    | ran job =>
      dsimp only
      split
      · next hf =>
        refine h.move hi Drain.noConfusion Drain.noConfusion ⟨rfl, rfl⟩ ?_
        intro hl
        rw [Drain.due, hf] at hl
        exact hl
      · next c hf =>
        refine h.move hi Drain.noConfusion Drain.noConfusion (guarded_thread { s with called := s.called ++ [c] } throws) ?_
        intro hl
        rw [Drain.due, hf] at hl
        exact (Ledger.call hl).guarded throws
    | finished job =>
      dsimp only
      by_cases hgid : 0 ≤ job.gid
      · rw [if_pos hgid, if_pos hgid]
        split
        · next hb =>
          refine h.move hi Drain.noConfusion Drain.noConfusion ⟨rfl, rfl⟩ ?_
          intro hl
          exact hl.clear hgid _ (by rw [if_pos hb])
        · next hb =>
          refine h.move hi Drain.noConfusion Drain.noConfusion ⟨rfl, rfl⟩ ?_
          intro hl
          exact hl.clear hgid _ (by rw [if_neg hb, Int.sub_zero])
      · rw [if_neg hgid, if_neg hgid]
        split
        · next hb =>
          refine h.move hi Drain.noConfusion Drain.noConfusion ⟨rfl, rfl⟩ ?_
          intro hl
          exact hl.drop hgid _ (by rw [if_pos hb])
        · next hb =>
          refine h.move hi Drain.noConfusion Drain.noConfusion ⟨rfl, rfl⟩ ?_
          intro hl
          exact hl.drop hgid _ (by rw [if_neg hb, Int.sub_zero])
    | answering waiting =>
      cases waiting with
      | nil =>
        refine h.move hi Drain.noConfusion Drain.noConfusion ⟨rfl, rfl⟩ ?_
        intro hl
        exact hl
      | cons c waiting =>
        refine h.move hi Drain.noConfusion Drain.noConfusion (guarded_thread { s with called := s.called ++ [c] } throws) ?_
        intro hl
        exact (Ledger.call hl).guarded throws

end Drain

/-! ## The requests -/

/-- `t` is `s` with the marks of `job` set and its callbacks put away. -/
structure Marked (s t : Updater) (job : Job) : Prop where
  queue : t.queue = s.queue
  queued : t.queued = s.queued
  ran : t.ran = s.ran
  called : t.called = s.called
  running : t.running = s.running
  drains : t.drains = s.drains
  pending : (job.gid < 0 ∧ t.pending = s.pending) ∨ (0 ≤ job.gid ∧ job.gid ∉ s.pending ∧ t.pending = job.gid :: s.pending)
  batch : t.pendingBatch = s.pendingBatch + if job.batch then 1 else 0
  waiters : ∀ w ∈ t.waiters, w ∈ s.waiters ∨ (w.1 = job.gid ∧ 0 ≤ job.gid)
  tally : ∀ c, job.finish.toList.count c + (t.waiters.map Prod.snd).count c + t.refused.count c + (if c < s.issued then 1 else 0)
    = (s.waiters.map Prod.snd).count c + s.refused.count c + (if c < t.issued then 1 else 0)

theorem Ledger.append {job : Job} (h : Ledger hand unrun due s) (hm : Marked s t job) :
    Ledger hand unrun due { t with queue := t.queue ++ [job], queued := t.queued ++ [job] } := by
  have hbusy : hand ++ (t.queue ++ [job]) = (hand ++ s.queue) ++ [job] := by
    rw [hm.queue, append_assoc]
  refine ⟨?_, ?_, ?_, ?_, ?_, ?_, ?_⟩
  · dsimp only
    rw [hm.queue, hm.queued, hm.ran, h.order, append_assoc, append_assoc]
  · intro g
    dsimp only
    rw [hbusy, map_append, mem_append, map_singleton, mem_singleton]
    rcases hm.pending with ⟨hneg, hsame⟩ | ⟨hpos, _, hcons⟩
    · rw [hsame, h.pending g]
      constructor
      · rintro ⟨hg, hmem⟩
        exact ⟨hg, .inl hmem⟩
      · rintro ⟨hg, hmem | rfl⟩
        · exact ⟨hg, hmem⟩
        · omega
    · rw [hcons, mem_cons, h.pending g]
      constructor
      · rintro (rfl | ⟨hg, hmem⟩)
        · exact ⟨hpos, .inr rfl⟩
        · exact ⟨hg, .inl hmem⟩
      · rintro ⟨hg, hmem | rfl⟩
        · exact .inr ⟨hg, hmem⟩
        · exact .inl rfl
  · rcases hm.pending with ⟨_, hsame⟩ | ⟨_, hout, hcons⟩
    · dsimp only
      rw [hsame]
      exact h.distinct
    · dsimp only
      rw [hcons]
      exact nodup_cons.2 ⟨hout, h.distinct⟩
  · dsimp only
    rw [hbusy, map_append, filter_append, map_singleton]
    rcases hm.pending with ⟨hneg, _⟩ | ⟨hpos, hout, _⟩
    · rw [filter_cons_of_neg (by simpa using hneg), filter_nil, append_nil]
      exact h.once
    · rw [filter_cons_of_pos (by simpa using hpos), filter_nil]
      apply List.Nodup.append h.once (nodup_singleton _)
      intro g hg hg'
      rw [mem_singleton] at hg'
      subst hg'
      exact hout ((h.pending _).2 ⟨hpos, (mem_filter.1 hg).1⟩)
  · dsimp only
    rw [hbusy, countP_append, countP_singleton, hm.batch, h.batch]
    cases job.batch with
    | true | false => simp
  · intro w hw
    dsimp only
    rcases hm.waiters w hw with hold | ⟨hgid, hpos⟩
    · have hin := h.waiters w hold
      rcases hm.pending with ⟨_, hsame⟩ | ⟨_, _, hcons⟩
      · rw [hsame]
        exact hin
      · rw [hcons]
        exact mem_cons_of_mem _ hin
    · rcases hm.pending with ⟨hneg, _⟩ | ⟨_, _, hcons⟩
      · omega
      · rw [hcons, hgid]
        exact mem_cons_self
  · intro c
    have hsplit : ((t.queue ++ [job]).filterMap Job.finish).count c = (s.queue.filterMap Job.finish).count c + job.finish.toList.count c := by
      rw [hm.queue, filterMap_append, count_append]
      cases hf : job.finish with
      | none | some f => simp [hf]
    have h₁ := h.tally c
    have h₂ := hm.tally c
    dsimp only
    rw [hsplit, hm.called]
    omega

theorem books_enqueueLocked {job : Job} (h : Books s) (hm : Marked s t job) : Books (enqueueLocked t job) := by
  have hl := h.ledger.append hm
  rw [enqueueLocked]
  dsimp only
  cases hr : t.running with
  | true =>
    rw [if_pos rfl]
    constructor
    · have hsingle := h.single
      rw [← hm.running, hr, ← hm.drains] at hsingle
      exact hsingle
    · intro hstopped
      cases hstopped
    · dsimp only
      rw [hm.drains]
      exact ⟨hl.order, hl.pending, hl.distinct, hl.once, hl.batch, hl.waiters, hl.tally⟩
  | false =>
    -- No drain is at work: a new one starts.
    have hexited : ∀ d ∈ s.drains, d = .exited := by
      have hsingle := h.single
      rw [← hm.running, hr, Single, if_neg (by simp)] at hsingle
      exact hsingle
    have hflat : ∀ {β : Type} (f : Drain → List β), f .exited = [] → f .loop = [] → (s.drains ++ [Drain.loop]).flatMap f = s.drains.flatMap f := by
      intro β f _ hloop
      rw [flatMap_append, flatMap_singleton, hloop, append_nil]
    rw [if_neg (by simp)]
    constructor
    · dsimp only
      rw [Single, if_pos rfl, hm.drains]
      refine ⟨s.drains.length, .loop, ?_, Drain.noConfusion, ?_⟩
      · rw [getElem?_append_right (Nat.le_refl _), Nat.sub_self]
        rfl
      · intro j x hj hx
        rcases getElem?_concat_some hx with hold | ⟨hj', _⟩
        · exact hexited x (mem_of_getElem? hold)
        · exact absurd hj' hj
    · intro hstopped
      cases hstopped
    · dsimp only
      rw [hm.drains, hflat Drain.hand rfl rfl, hflat Drain.unrun rfl rfl, hflat Drain.due rfl rfl]
      exact ⟨hl.order, hl.pending, hl.distinct, hl.once, hl.batch, hl.waiters, hl.tally⟩

/-- A callback that is given out and put away in no job. -/
theorem Books.put (h : Books s) (hqueue : t.queue = s.queue) (hqueued : t.queued = s.queued) (hran : t.ran = s.ran)
    (hthreads : t.running = s.running ∧ t.drains = s.drains)
    (hmarks : t.pending = s.pending ∧ t.pendingBatch = s.pendingBatch) (hwaiters : ∀ w ∈ t.waiters, w.1 ∈ s.pending)
    (htally : ∀ c, t.called.count c + (t.waiters.map Prod.snd).count c + t.refused.count c
    + (if c < s.issued then 1 else 0) = s.called.count c + (s.waiters.map Prod.snd).count c + s.refused.count c
    + (if c < t.issued then 1 else 0)) : Books t := by
  constructor
  · rw [hthreads.1, hthreads.2]
    exact h.single
  · rw [hthreads.1, hqueue]
    exact h.idle
  · rw [hthreads.2]
    refine ⟨?_, ?_, ?_, ?_, ?_, ?_, ?_⟩
    · rw [hqueue, hqueued, hran]
      exact h.ledger.order
    · rw [hqueue, hmarks.1]
      exact h.ledger.pending
    · rw [hmarks.1]
      exact h.ledger.distinct
    · rw [hqueue]
      exact h.ledger.once
    · rw [hqueue, hmarks.2]
      exact h.ledger.batch
    · rw [hmarks.1]
      exact hwaiters
    · intro c
      have h₁ := h.ledger.tally c
      have h₂ := htally c
      rw [hqueue]
      omega

/-- A callback that is given out is counted once from then on. -/
theorem count_token (s : Updater) (callback : Bool) (c : Nat) : (token s callback).toList.count c + (if c < s.issued then 1 else 0)
    = if c < (issue s callback).issued then 1 else 0 := by
  cases callback with
  | false => simp [token, issue]
  | true =>
    rw [token, issue, if_pos rfl, if_pos rfl, Option.toList_some, count_singleton]
    dsimp only
    by_cases hc : s.issued = c
    · subst hc
      simp
    · have hbeq : (s.issued == c) = false := by simpa using hc
      rw [hbeq]
      simp only [Bool.false_eq_true, if_false]
      split_ifs <;> omega

theorem issue_fields (s : Updater) (callback : Bool) : ∃ n, issue s callback = { s with issued := n } := by
  cases callback with
  | false => exact ⟨s.issued, rfl⟩
  | true => exact ⟨s.issued + 1, rfl⟩

section Requests

variable {s : Updater}

theorem books_refreshGroup (h : Books s) {gid : Int} (hgid : 0 ≤ gid) (finish : Bool) : Books (RefreshGroup s gid finish) := by
  have htoken := count_token s finish
  rw [RefreshGroup]
  generalize token s finish = f at htoken
  obtain ⟨n, hn⟩ := issue_fields s finish
  rw [hn] at htoken ⊢
  dsimp only at htoken ⊢
  split
  · refine h.put rfl rfl rfl ⟨rfl, rfl⟩ ⟨rfl, rfl⟩ h.ledger.waiters ?_
    intro c
    have hc := htoken c
    dsimp only
    rw [count_append]
    omega
  · next hout =>
    apply books_enqueueLocked h
    refine ⟨rfl, rfl, rfl, rfl, rfl, rfl, .inr ⟨hgid, by simpa using hout, rfl⟩, ?_, ?_, ?_⟩
    · simp
    · intro w hw
      exact .inl hw
    · intro c
      have hc := htoken c
      dsimp only
      omega

theorem books_refreshWithOutcome (h : Books s) (gid : Int) (done : Bool) : Books (RefreshWithOutcome s gid done) := by
  have htoken := count_token s done
  rw [RefreshWithOutcome]
  dsimp only
  generalize token s done = d at htoken
  obtain ⟨n, hn⟩ := issue_fields s done
  rw [hn] at htoken ⊢
  dsimp only at htoken ⊢
  have hmap : ∀ c, ((s.waiters ++ d.toList.map fun c => (gid, c)).map Prod.snd).count c = (s.waiters.map Prod.snd).count c + d.toList.count c := by
    intro c
    rw [map_append, count_append, map_map]
    congr 2
    exact map_id _
  split
  · refine h.put rfl rfl rfl ⟨rfl, rfl⟩ ⟨rfl, rfl⟩ h.ledger.waiters ?_
    intro c
    have hc := htoken c
    dsimp only
    rw [count_append]
    omega
  · next hgid =>
    have hnew : ∀ w ∈ s.waiters ++ d.toList.map (fun c => (gid, c)), w ∈ s.waiters ∨ w.1 = gid := by
      intro w hw
      rcases mem_append.1 hw with hold | hnew
      · exact .inl hold
      · obtain ⟨c, _, rfl⟩ := mem_map.1 hnew
        exact .inr rfl
    split
    · next hin =>
      refine h.put rfl rfl rfl ⟨rfl, rfl⟩ ⟨rfl, rfl⟩ ?_ ?_
      · intro w hw
        rcases hnew w hw with hold | heq
        · exact h.ledger.waiters w hold
        · rw [heq]
          simpa using hin
      · intro c
        have hc := htoken c
        have hm := hmap c
        dsimp only
        omega
    · next hout =>
      apply books_enqueueLocked h
      refine ⟨rfl, rfl, rfl, rfl, rfl, rfl, .inr ⟨by simpa using hgid, by simpa using hout, rfl⟩, ?_, ?_, ?_⟩
      · simp
      · intro w hw
        rcases hnew w hw with hold | heq
        · exact .inl hold
        · exact .inr ⟨heq, by simpa using hgid⟩
      · intro c
        have hc := htoken c
        have hm := hmap c
        dsimp only
        simp only [Option.toList_none, count_nil]
        omega

theorem books_refreshAll (h : Books s) {gids : List Int} (hgids : ∀ gid ∈ gids, 0 ≤ gid) : Books (RefreshAll s gids) := by
  rw [RefreshAll]
  split
  · exact h
  · clear * - h hgids
    induction gids generalizing s with
    | nil => exact h
    | cons gid gids ih =>
      rw [foldl_cons]
      apply ih _ fun g hg => hgids g (mem_cons_of_mem gid hg)
      rw [refreshOne]
      split
      · exact h
      · next hout =>
        apply books_enqueueLocked h
        refine ⟨rfl, rfl, rfl, rfl, rfl, rfl, .inr ⟨hgids gid mem_cons_self, by simpa using hout, rfl⟩, rfl, ?_, ?_⟩
        · intro w hw
          exact .inl hw
        · intro c
          simp

theorem books_enqueue (h : Books s) (finish : Bool) : Books (enqueue s finish) := by
  have htoken := count_token s finish
  rw [enqueue]
  generalize token s finish = f at htoken
  obtain ⟨n, hn⟩ := issue_fields s finish
  rw [hn] at htoken ⊢
  dsimp only at htoken
  apply books_enqueueLocked h
  refine ⟨rfl, rfl, rfl, rfl, rfl, rfl, .inl ⟨(by decide : (-1 : Int) < 0), rfl⟩, ?_, ?_, ?_⟩
  · simp
  · intro w hw
    exact .inl hw
  · intro c
    have hc := htoken c
    dsimp only
    omega

theorem books_callRefused (h : Books s) (i : Nat) : Books (callRefused s i) := by
  rw [callRefused]
  split
  · exact h
  · next c hc =>
    refine h.put rfl rfl rfl ⟨rfl, rfl⟩ ⟨rfl, rfl⟩ h.ledger.waiters ?_
    intro c'
    obtain ⟨hlt, hget⟩ := List.getElem?_eq_some_iff.1 hc
    have hcount := (getElem_cons_eraseIdx_perm hlt).count_eq c'
    rw [hget, count_cons] at hcount
    dsimp only
    rw [count_append, count_singleton]
    omega

theorem books_step (h : Books s) (e : Event) (he : e.ofGroups) : Books (step s e) := by
  cases e with
  | refreshGroup gid finish => exact books_refreshGroup h he finish
  | refreshWithOutcome gid done => exact books_refreshWithOutcome h gid done
  | refreshAll gids => exact books_refreshAll h he
  | enqueue finish => exact books_enqueue h finish
  | callRefused i => exact books_callRefused h i
  | drain i throws => exact books_drain h

end Requests

theorem books_initial : Books initial := by
  refine ⟨?_, fun _ => rfl, ⟨rfl, ?_, nodup_nil, nodup_nil, rfl, ?_, ?_⟩⟩
  · intro d hd
    cases hd
  · intro g
    simp [initial]
  · intro w hw
    cases hw
  · intro c
    simp [initial]

theorem books_run (es : List Event) (hes : ∀ e ∈ es, e.ofGroups) : Books (run step initial es) :=
  inv_run (P := fun _ e => e.ofGroups)
    (fun s e (hs : Books s) (he : e.ofGroups) => books_step hs e he) es initial books_initial
    (along_of_forall es initial hes)

/-! ## A drain left alone stops -/

def Drain.rank : Drain → Nat
  | .exited => 0
  | .loop => 1
  | .answering waiting => 2 + waiting.length
  | .finished _ => 3
  | .ran _ => 4
  | .took _ => 5

/-- The steps the drain has left if nothing is asked of it any more. -/
def work (s : Updater) : Nat := 5 * s.queue.length + s.waiters.length + (s.drains.map Drain.rank).sum

theorem sum_rank_alone (hi : l[i]? = some d) (halone : ∀ (j : Nat) x, j ≠ i → l[j]? = some x → x = .exited) : (l.map Drain.rank).sum = d.rank := by
  have hlen := congrArg List.length (flatMap_alone hi halone (fun d => List.replicate d.rank ()) rfl)
  rw [length_flatMap, length_replicate] at hlen
  simpa using hlen

theorem length_waiters_split (waiters : List (Int × Nat)) (gid : Int) :
    waiters.length = (waiters.filter fun w => w.1 == gid).length + (waiters.filter fun w => w.1 != gid).length := by
  have h := length_eq_length_filter_add (fun w : Int × Nat => w.1 == gid) (l := waiters)
  exact h

theorem work_setDrain (h : Books s) (hi : s.drains[i]? = some d) (hd : d ≠ .exited)
    (ht : t.drains = s.drains) (d' : Drain) : (setDrain t i d').drains[i]? = some d' ∧
    work (setDrain t i d') = 5 * t.queue.length + t.waiters.length + d'.rank := by
  obtain ⟨_, hset, halone⟩ := h.single.set hi hd d'
  rw [setDrain, work]
  dsimp only
  rw [ht, sum_rank_alone hset halone]
  exact ⟨hset, rfl⟩

/-- A step of the working drain takes one off its work. -/
theorem work_drain (h : Books s) (hi : s.drains[i]? = some d) (hd : d ≠ .exited) (throws : Bool) : ∃ d', (drain s i throws).drains[i]? = some d' ∧
    (d' = .exited → (drain s i throws).running = false) ∧ work (drain s i throws) + 1 = work s := by
  have hwork : work s = 5 * s.queue.length + s.waiters.length + d.rank := by
    rw [work, sum_rank_alone hi (h.single.alone hi hd)]
  -- Every step but the last moves on to a working `d'`.
  have hmoved : ∀ (t : Updater) (d' : Drain), t.drains = s.drains → d' ≠ .exited →
      5 * t.queue.length + t.waiters.length + d'.rank + 1 = 5 * s.queue.length + s.waiters.length + d.rank →
      ∃ x, (setDrain t i d').drains[i]? = some x ∧ (x = .exited → (setDrain t i d').running = false) ∧ work (setDrain t i d') + 1 = work s := by
    intro t d' ht hd' hrank
    obtain ⟨hget, hw⟩ := work_setDrain h hi hd ht d'
    refine ⟨d', hget, fun hexit => absurd hexit hd', ?_⟩
    rw [hw, hwork, hrank]
  have hguarded : ∀ t : Updater, (guarded t throws).drains = t.drains ∧
      (guarded t throws).queue = t.queue ∧ (guarded t throws).waiters = t.waiters := by
    intro t
    obtain ⟨n, hn⟩ := guarded_fields t throws
    rw [hn]
    exact ⟨rfl, rfl, rfl⟩
  rw [drain, hi]
  cases d with
  | exited => exact absurd rfl hd
  | loop =>
    dsimp only
    split
    · next hq =>
      obtain ⟨hget, hw⟩ := work_setDrain (t := { s with running := false }) h hi hd rfl .exited
      refine ⟨.exited, hget, fun _ => rfl, ?_⟩
      rw [hw, hwork]
      rfl
    · next job rest hq =>
      refine hmoved _ _ rfl Drain.noConfusion ?_
      dsimp only
      rw [hq, length_cons, Drain.rank, Drain.rank]
      omega
  | took job =>
    obtain ⟨h₁, h₂, h₃⟩ := hguarded { s with ran := s.ran ++ [job] }
    refine hmoved _ _ h₁ Drain.noConfusion ?_
    rw [h₂, h₃]
    rfl
  | ran job =>
    dsimp only
    split
    · exact hmoved _ _ rfl Drain.noConfusion rfl
    · next c hf =>
      obtain ⟨h₁, h₂, h₃⟩ := hguarded { s with called := s.called ++ [c] }
      refine hmoved _ _ h₁ Drain.noConfusion ?_
      rw [h₂, h₃]
      rfl
  | finished job =>
    have hsplit := length_waiters_split s.waiters job.gid
    dsimp only
    by_cases hgid : 0 ≤ job.gid
    · rw [if_pos hgid, if_pos hgid]
      have hrank : 5 * s.queue.length + (s.waiters.filter fun w => w.1 != job.gid).length
          + (Drain.answering ((s.waiters.filter fun w => w.1 == job.gid).map Prod.snd)).rank + 1
            = 5 * s.queue.length + s.waiters.length + (Drain.finished job).rank := by
        rw [Drain.rank, Drain.rank, length_map]
        omega
      split <;> exact hmoved _ _ rfl Drain.noConfusion hrank
    · rw [if_neg hgid, if_neg hgid]
      split <;> exact hmoved _ _ rfl Drain.noConfusion rfl
  | answering waiting =>
    cases waiting with
    | nil => exact hmoved _ _ rfl Drain.noConfusion rfl
    | cons c waiting =>
      obtain ⟨h₁, h₂, h₃⟩ := hguarded { s with called := s.called ++ [c] }
      refine hmoved _ _ h₁ Drain.noConfusion ?_
      rw [h₂, h₃, Drain.rank, Drain.rank, length_cons]
      dsimp only
      omega

/-- What is left when no drain is at work. -/
theorem Books.stopped (h : Books s) (hstopped : s.running = false) :
    (∀ d ∈ s.drains, d = .exited) ∧ s.queue = [] ∧ s.pending = [] ∧ s.pendingBatch = 0 ∧ s.waiters = [] ∧ s.ran = s.queued ∧ work s = 0 := by
  have hexited : ∀ d ∈ s.drains, d = .exited := by
    have hsingle := h.single
    rw [hstopped, Single, if_neg (by simp)] at hsingle
    exact hsingle
  have hqueue := h.idle hstopped
  have hl := h.ledger
  rw [flatMap_exited hexited _ rfl, flatMap_exited hexited _ rfl, flatMap_exited hexited _ rfl] at hl
  have hpending : s.pending = [] := by
    apply eq_nil_iff_forall_not_mem.2
    intro g hg
    have hmem := (hl.pending g).1 hg
    rw [hqueue] at hmem
    exact absurd hmem.2 (by simp)
  have hwaiters : s.waiters = [] := by
    apply eq_nil_iff_forall_not_mem.2
    intro w hw
    have hmem := hl.waiters w hw
    rw [hpending] at hmem
    cases hmem
  have hrank : (s.drains.map Drain.rank).sum = 0 := by
    have hlen := congrArg List.length (flatMap_exited hexited (fun d => List.replicate d.rank ()) rfl)
    rw [length_flatMap] at hlen
    simpa using hlen
  refine ⟨hexited, hqueue, hpending, ?_, hwaiters, ?_, ?_⟩
  · have hbatch := hl.batch
    rw [hqueue] at hbatch
    exact hbatch
  · have horder := hl.order
    rw [hqueue, append_nil, append_nil] at horder
    exact horder.symm
  · rw [work, hqueue, hwaiters, hrank]
    rfl

/-- However its callees end, a drain that gets no more requests stops after its work. -/
theorem drain_stops (h : Books s) (hi : s.drains[i]? = some d)
    (hd : d = .exited → s.running = false) (throws : List Bool) (hlen : throws.length = work s) :
    (run step s (throws.map (Event.drain i))).running = false := by
  induction throws generalizing s d with
  | nil =>
    -- No work left: the drain has exited.
    apply hd
    by_contra hne
    have hrank := sum_rank_alone hi (h.single.alone hi hne)
    rw [length_nil, work, hrank] at hlen
    have hpos : 0 < d.rank := by
      cases d with
      | exited => exact absurd rfl hne
      | answering waiting => exact Nat.lt_of_lt_of_le Nat.zero_lt_two (Nat.le_add_right 2 _)
      | loop => exact Nat.succ_pos 0
      | took job => exact Nat.succ_pos 4
      | ran job => exact Nat.succ_pos 3
      | finished job => exact Nat.succ_pos 2
    omega
  | cons t throws ih =>
    rw [map_cons, run_cons]
    by_cases hexit : d = .exited
    · -- A drain that has exited has no work.
      obtain ⟨_, _, _, _, _, _, hnone⟩ := h.stopped (hd hexit)
      rw [hnone] at hlen
      cases hlen
    · obtain ⟨d', hi', hd', hw⟩ := work_drain h hi hexit t
      apply ih (books_drain h) hi' hd'
      rw [length_cons] at hlen
      omega

/-! ## Everyone is answered once -/

/-- What the queue promises in a state. -/
structure Answered (s : Updater) : Prop where
  one_drain : (s.drains.filter fun d => d ≠ .exited).length ≤ 1
  /-- Jobs run in the order they were queued. -/
  in_order : s.ran <+: s.queued
  pending : ∀ g, g ∈ s.pending ↔ 0 ≤ g ∧ g ∈ (busy s).map Job.gid
  pending_once : s.pending.Nodup
  batch : s.pendingBatch = ((busy s).countP Job.batch : Nat)
  /-- A callback was called once, or one holder will call it. -/
  once : ∀ c < s.issued, s.called.count c + (held s).count c = 1
  stopped : s.running = false → (∀ d ∈ s.drains, d = .exited) ∧ s.queue = [] ∧ s.pending = [] ∧
    s.pendingBatch = 0 ∧ s.ran = s.queued ∧ ∀ c < s.issued, c ∉ s.refused → s.called.count c = 1
  /-- The drain gets there by itself, whatever its jobs and callbacks throw. -/
  stops : s.running = true → ∃ i, ∀ throws : List Bool, throws.length = work s → (run step s (throws.map (Event.drain i))).running = false

theorem Books.answered (h : Books s) : Answered s := by
  have hl := h.ledger
  refine ⟨?_, ?_, hl.pending, hl.distinct, hl.batch, ?_, ?_, ?_⟩
  · cases hr : s.running with
    | false =>
      have hnone : s.drains.filter (fun d => d ≠ .exited) = [] := by
        rw [filter_eq_nil_iff]
        intro d hd
        simp [(h.stopped hr).1 d hd]
      rw [hnone]
      exact Nat.zero_le 1
    | true =>
      have hsingle := h.single
      rw [hr, Single, if_pos rfl] at hsingle
      obtain ⟨i, d, hi, hd, halone⟩ := hsingle
      -- Each working drain counts as one.
      have hone := flatMap_alone hi halone (fun d => if d ≠ .exited then [d] else []) (by simp)
      rw [if_pos hd] at hone
      have hfilter : s.drains.filter (fun d => d ≠ .exited) = s.drains.flatMap fun d => if d ≠ .exited then [d] else [] := by
        clear * -
        induction s.drains with
        | nil => rfl
        | cons a l ih =>
          rw [flatMap_cons, ← ih]
          by_cases ha : a ≠ .exited
          · rw [filter_cons_of_pos (by simpa using ha), if_pos ha]
            rfl
          · rw [filter_cons_of_neg (by simpa using ha), if_neg ha]
            rfl
      rw [hfilter, hone]
      exact Nat.le_refl 1
  · exact ⟨_, hl.order.symm⟩
  · intro c hc
    have htally := hl.tally c
    rw [if_pos hc] at htally
    rw [held, count_append, count_append, count_append]
    exact htally
  · intro hstopped
    obtain ⟨hexited, hqueue, hpending, hbatch, hwaiters, hran, _⟩ := h.stopped hstopped
    refine ⟨hexited, hqueue, hpending, hbatch, hran, ?_⟩
    intro c hc hout
    have htally := hl.tally c
    rw [if_pos hc, hqueue, hwaiters, flatMap_exited hexited _ rfl, count_eq_zero_of_not_mem hout] at htally
    exact htally
  · intro hrunning
    have hsingle := h.single
    rw [hrunning, Single, if_pos rfl] at hsingle
    obtain ⟨i, d, hi, hd, _⟩ := hsingle
    exact ⟨i, fun throws hlen => drain_stops h hi (fun hexit => absurd hexit hd) throws hlen⟩

/-- For every order of requests for groups, of the steps of the drains and of callees that throw. -/
theorem queue_answers (es : List Event) (hes : ∀ e ∈ es, e.ofGroups) : Answered (run step initial es) := (books_run es hes).answered

/-- Group 3 is asked for, asked for again while its job runs, and joined by a waiter; the job and the
callback throw. -/
def joinedEvents : List Event :=
  [.refreshGroup 3 true, .drain 0 false, .refreshGroup 3 true, .refreshWithOutcome 3 true,
    .refreshAll [3, 4], .drain 0 true, .drain 0 true, .callRefused 0, .drain 0 false,
    .drain 0 false, .drain 0 false]

theorem queue_answers_joined : (∀ e ∈ joinedEvents, e.ofGroups) ∧ Answered (run step initial joinedEvents) ∧
    (run step initial joinedEvents).called = [0, 1, 2] := by
  have hevents : ∀ e ∈ joinedEvents, e.ofGroups := by
    simp [joinedEvents, Event.ofGroups]
  exact ⟨hevents, queue_answers joinedEvents hevents, by decide⟩

end Throne.Configs.Sub.Queue
