import Throne.Core.Scan.Session

/-!
# What calls do to the registry

Every call keeps the two maps apart, each session with its id, and in `inflight` the calls in flight modulo `2 ^ 32`
(`Sound`). So no session is pruned that a call holds, with fewer than `2 ^ 32` calls in flight (`cancelled_by_stop`).
After a `Stop` of an id its tombstone stays for the idle time, and no call is admitted (`admitted_later`).
-/

namespace Throne.Core.Scan.Sessions

open Lib.Pages Lib.Runs List

variable {r : Registry} {held : List (String × Nat)} {id : String} {now : Now} {wall : Int} {p : Nat}

/-! ## The registry and the calls in flight -/

/-- The calls in flight of a session. -/
def calls (held : List (String × Nat)) (p : Nat) : Nat := held.countP fun call => call.2 = p

structure Sound (r : Registry) (held : List (String × Nat)) : Prop where
  apart : ∀ id p stone, (id, p) ∈ r.sessions → (id, stone) ∉ r.stopped
  owned : ∃ owner : Nat → String, (∀ id p, (id, p) ∈ r.sessions → owner p = id) ∧ ∀ id p, (id, p) ∈ held → owner p = id
  live_below : ∀ id p, (id, p) ∈ r.sessions → p < r.next
  held_below : ∀ id p, (id, p) ∈ held → p < r.next
  counted : ∀ p, p < r.next → (r.heap p).inflight = BitVec.ofNat 32 (calls held p)

theorem Sound.empty : Sound Registry.empty [] where
  apart := nofun
  owned := ⟨fun _ => "", nofun, nofun⟩
  live_below := nofun
  held_below := nofun
  counted := fun _ h => absurd h (Nat.not_lt_zero _)

theorem set_own (r : Registry) (p : Nat) (s : Session) : (r.set p s).heap p = s := by
  simp only [Registry.set, Function.update_self]

variable {q : Nat}

theorem set_other (h : q ≠ p) (s : Session) : (r.set p s).heap q = r.heap q := by
  simp only [Registry.set, Function.update_of_ne h]

variable {α : Type}

theorem mem_of_lookup {entries : List (String × α)} {value : α} (h : entries.lookup id = some value) : (id, value) ∈ entries := by
  obtain ⟨front, back, hsplit, -⟩ := lookup_eq_some_iff.1 h
  rw [hsplit]
  exact mem_append_right _ mem_cons_self

theorem not_mem_of_lookup {entries : List (String × α)} (h : entries.lookup id = none) (value : α) : (id, value) ∉ entries := by
  intro hmem
  have hne := lookup_eq_none_iff.1 h _ hmem
  rw [bne_self_eq_false] at hne
  exact Bool.false_ne_true hne

/-! ### Pruning -/

theorem prune_sessions : ∀ entry ∈ (pruneLocked r now).sessions, entry ∈ r.sessions := by
  rw [pruneLocked]
  split
  · exact fun _ h => h
  · exact fun _ h => (mem_filter.1 h).1

theorem prune_stopped : ∀ entry ∈ (pruneLocked r now).stopped, entry ∈ r.stopped := by
  rw [pruneLocked]
  split
  · exact fun _ h => h
  · exact fun _ h => (mem_filter.1 h).1

theorem prune_next : (pruneLocked r now).next = r.next := by
  rw [pruneLocked]
  split <;> rfl

variable (now) in
/-- Of a session only the context changes. -/
theorem prune_heap (p : Nat) : (pruneLocked r now).heap p = r.heap p ∨
    (pruneLocked r now).heap p = { r.heap p with cancelled := true } ∧ (r.heap p).inflight = 0 := by
  rw [pruneLocked]
  split
  · exact .inl rfl
  · dsimp only
    split
    · next hany =>
      obtain ⟨entry, -, hidle⟩ := any_eq_true.1 hany
      rw [Bool.and_eq_true, Session.idle, Bool.and_eq_true] at hidle
      exact .inr ⟨rfl, of_decide_eq_true hidle.2.1⟩
    · exact .inl rfl

theorem prune_inflight : ((pruneLocked r now).heap p).inflight = (r.heap p).inflight := by
  rcases prune_heap now p with h | ⟨h, -⟩ <;> rw [h]

theorem Sound.prune (h : Sound r held) (now : Now) : Sound (pruneLocked r now) held where
  apart id p stone hlive hstopped := h.apart id p stone (prune_sessions _ hlive) (prune_stopped _ hstopped)
  owned := by
    obtain ⟨owner, hlive, hheld⟩ := h.owned
    exact ⟨owner, fun id p hmem => hlive id p (prune_sessions _ hmem), hheld⟩
  live_below id p hmem := by
    rw [prune_next]
    exact h.live_below id p (prune_sessions _ hmem)
  held_below id p hmem := by
    rw [prune_next]
    exact h.held_below id p hmem
  counted p hp := by
    rw [prune_next] at hp
    rw [prune_inflight]
    exact h.counted p hp

/-! ### The session of an id -/

variable {found : Registry}

theorem session_live (h : r.session id wall = (p, found)) : (id, p) ∈ found.sessions := by
  rw [Registry.session] at h
  split at h
  · next hlookup =>
    cases h
    exact mem_of_lookup hlookup
  · cases h
    exact mem_cons_self

theorem calls_none (h : ∀ id, (id, p) ∉ held) : calls held p = 0 := by
  rw [calls, countP_eq_zero]
  rintro ⟨id, q⟩ hmem hq
  rw [decide_eq_true_iff] at hq
  exact h id (hq ▸ hmem)

theorem Sound.session (h : Sound r held) (hfree : r.stopped.lookup id = none) (hsession : r.session id wall = (p, found)) : Sound found held := by
  rw [Registry.session] at hsession
  split at hsession
  · cases hsession
    exact h
  · next hnone =>
    cases hsession
    obtain ⟨owner, hlive, hheld⟩ := h.owned
    constructor
    · intro other q stone hmem
      rcases mem_cons.1 hmem with heq | hmem
      · cases heq
        exact not_mem_of_lookup hfree stone
      · exact h.apart other q stone hmem
    · refine ⟨Function.update owner r.next id, ?_, ?_⟩
      · intro other q hmem
        rcases mem_cons.1 hmem with heq | hmem
        · cases heq
          exact Function.update_self _ _ _
        · rw [Function.update_of_ne (h.live_below other q hmem).ne]
          exact hlive other q hmem
      · intro other q hmem
        rw [Function.update_of_ne (h.held_below other q hmem).ne]
        exact hheld other q hmem
    · intro other q hmem
      rcases mem_cons.1 hmem with heq | hmem
      · cases heq
        exact Nat.lt_succ_self _
      · exact (h.live_below other q hmem).trans (Nat.lt_succ_self _)
    · intro other q hmem
      exact (h.held_below other q hmem).trans (Nat.lt_succ_self _)
    · intro q hq
      simp only [Registry.set]
      by_cases hnew : q = r.next
      · rw [hnew, Function.update_self, calls_none]
        · rfl
        · exact fun other hmem => Nat.lt_irrefl _ (h.held_below other r.next hmem)
      · rw [Function.update_of_ne hnew]
        exact h.counted q (by simp only at hq; omega)

/-! ### The calls -/

theorem calls_cons (id : String) (p q : Nat) (held : List (String × Nat)) : calls ((id, p) :: held) q = calls held q + if q = p then 1 else 0 := by
  rw [calls, calls, countP_cons]
  by_cases h : q = p
  · rw [if_pos (decide_eq_true h.symm), if_pos h]
  · rw [if_neg (by rw [decide_eq_true_iff]; exact Ne.symm h), if_neg h]

/-- One more call in flight. -/
theorem Sound.hold (h : Sound found held) (hlive : (id, p) ∈ found.sessions) (wall : Int) :
    Sound (found.set p ({ found.heap p with inflight := (found.heap p).inflight + 1 }.touch wall)) ((id, p) :: held) := by
  obtain ⟨owner, howner, hheld⟩ := h.owned
  refine ⟨h.apart, ⟨owner, howner, ?_⟩, h.live_below, ?_, ?_⟩
  · intro other q hmem
    rcases mem_cons.1 hmem with heq | hmem
    · cases heq
      exact howner _ _ hlive
    · exact hheld other q hmem
  · intro other q hmem
    rcases mem_cons.1 hmem with heq | hmem
    · cases heq
      exact h.live_below _ _ hlive
    · exact h.held_below other q hmem
  · intro q hq
    rw [calls_cons]
    by_cases hown : q = p
    · rw [hown, set_own, if_pos rfl]
      simp only [Session.touch, h.counted p (hown ▸ hq), BitVec.ofNat_add]
      rfl
    · rw [set_other hown, if_neg hown]
      exact h.counted q hq

/-- A session touched. -/
theorem Sound.touch (h : Sound found held) (p : Nat) (wall : Int) : Sound (found.set p ((found.heap p).touch wall)) held := by
  refine ⟨h.apart, h.owned, h.live_below, h.held_below, ?_⟩
  intro q hq
  by_cases hown : q = p
  · rw [hown, set_own]
    exact h.counted p (hown ▸ hq)
  · rw [set_other hown]
    exact h.counted q hq

/-- What an `Acquire` did. -/
theorem acquire_cases (r : Registry) (id : String) (now : Now) (wall : Int) : (∃ reason, Acquire r id now wall = (.error reason, r)) ∨
    (∃ reason, Acquire r id now wall = (.error reason, pruneLocked r now)) ∨
    ∃ p found, (pruneLocked r now).stopped.lookup id = none ∧ (pruneLocked r now).session id wall = (p, found) ∧ Acquire r id now wall =
    (.ok p, found.set p ({ found.heap p with inflight := (found.heap p).inflight + 1 }.touch wall)) := by
  rw [Acquire]
  split
  · exact .inl ⟨_, rfl⟩
  dsimp only
  split
  · exact .inr (.inl ⟨_, rfl⟩)
  · next hfree =>
    rw [Option.not_isSome_iff_eq_none] at hfree
    exact .inr (.inr ⟨_, _, hfree, rfl, rfl⟩)

/-- What a `Lookup` did. -/
theorem lookup_cases (r : Registry) (id : String) (now : Now) (wall : Int) :
    (Lookup r id now wall).2 = r ∨ (Lookup r id now wall).2 = pruneLocked r now ∨
    ∃ p found, (pruneLocked r now).stopped.lookup id = none ∧ (pruneLocked r now).session id wall = (p, found) ∧
    (Lookup r id now wall).2 = found.set p ((found.heap p).touch wall) := by
  rw [Lookup]
  split
  · exact .inl rfl
  dsimp only
  split
  · exact .inr (.inl rfl)
  · next hfree => exact .inr (.inr ⟨_, _, hfree, rfl, rfl⟩)

/-- What a `Stop` did: the id's session is taken out and cancelled. -/
theorem stop_cases (r : Registry) (id : String) (now : Now) : Stop r id now = r ∨ ∃ session heap, Stop r id now = { pruneLocked r now with
        heap := heap
        sessions := (pruneLocked r now).sessions.filter (·.1 ≠ id)
        stopped := put id ⟨session, now.mono⟩ (pruneLocked r now).stopped } ∧
      ∀ p, heap p = (pruneLocked r now).heap p ∨
        heap p = { (pruneLocked r now).heap p with cancelled := true } ∧ (id, p) ∈ (pruneLocked r now).sessions := by
  rw [Stop]
  split
  · exact .inl rfl
  dsimp only
  split
  · next q hlookup =>
    refine .inr ⟨_, _, rfl, ?_⟩
    intro p
    by_cases hown : p = q
    · rw [hown, set_own]
      exact .inr ⟨rfl, mem_of_lookup hlookup⟩
    · rw [set_other hown]
      exact .inl rfl
  · exact .inr ⟨_, _, rfl, fun _ => .inl rfl⟩

variable {other : String}

theorem mem_put {value : α} {entries : List (String × α)} {found : α} (h : (other, found) ∈ put id value entries) :
    other = id ∧ found = value ∨ other ≠ id ∧ (other, found) ∈ entries := by
  rcases mem_cons.1 h with heq | hmem
  · exact .inl (Prod.mk.inj heq)
  · obtain ⟨hmem, hne⟩ := mem_filter.1 hmem
    exact .inr ⟨of_decide_eq_true hne, hmem⟩

theorem Sound.stop (h : Sound r held) (id : String) (now : Now) : Sound (Stop r id now) held := by
  have hpruned := h.prune now
  rcases stop_cases r id now with hsame | ⟨session, heap, hstop, hheap⟩
  · rw [hsame]
    exact h
  rw [hstop]
  obtain ⟨owner, howner, hheld⟩ := hpruned.owned
  refine ⟨?_, ⟨owner, ?_, hheld⟩, ?_, hpruned.held_below, ?_⟩
  · intro other p stone hlive hstone
    obtain ⟨hlive, hne⟩ := mem_filter.1 hlive
    rcases mem_put hstone with ⟨rfl, -⟩ | ⟨-, hstone⟩
    · exact of_decide_eq_true hne rfl
    · exact hpruned.apart other p stone hlive hstone
  · exact fun other p hlive => howner other p (mem_filter.1 hlive).1
  · exact fun other p hlive => hpruned.live_below other p (mem_filter.1 hlive).1
  · intro p hp
    dsimp only
    rcases hheap p with hp' | ⟨hp', -⟩
    all_goals
      rw [hp']
      exact hpruned.counted p hp

theorem calls_eraseIdx {call : Nat} (h : held[call]? = some (id, p)) (q : Nat) :
    calls held q = calls (held.eraseIdx call) q + if q = p then 1 else 0 := by
  induction held generalizing call with
  | nil => cases h
  | cons first held ih =>
    obtain ⟨other, o⟩ := first
    cases call with
    | zero =>
      rw [getElem?_cons_zero] at h
      obtain ⟨rfl, rfl⟩ := Prod.mk.inj (Option.some.inj h)
      exact calls_cons _ _ _ _
    | succ call =>
      rw [getElem?_cons_succ] at h
      rw [eraseIdx_cons_succ, calls_cons, calls_cons, ih h]
      omega

/-- One call in flight less. -/
theorem Sound.release (h : Sound r held) {call : Nat} (hcall : held[call]? = some (id, p)) (wall : Int) :
    Sound (release r p wall) (held.eraseIdx call) := by
  obtain ⟨owner, howner, hheld⟩ := h.owned
  have hsub : ∀ entry ∈ held.eraseIdx call, entry ∈ held := fun _ hmem => (eraseIdx_sublist _ _).subset hmem
  refine ⟨h.apart, ⟨owner, howner, fun other q hmem => hheld other q (hsub _ hmem)⟩, h.live_below,
    fun other q hmem => h.held_below other q (hsub _ hmem), ?_⟩
  intro q hq
  have hcount := h.counted q hq
  rw [calls_eraseIdx hcall q] at hcount
  rw [Sessions.release]
  by_cases hown : q = p
  · rw [hown, if_pos rfl, BitVec.ofNat_add] at hcount
    rw [hown, set_own]
    simp only [Session.touch, hcount]
    exact BitVec.add_sub_cancel _ _
  · rw [if_neg hown, Nat.add_zero] at hcount
    rw [set_other hown]
    exact hcount

theorem step_sound {w : World} (h : Sound w.registry w.held) (e : Step) : Sound (step w e).registry (step w e).held := by
  obtain ⟨call, wait, wall, touched⟩ := e
  cases call with
  | acquire id =>
    rcases acquire_cases w.registry id ⟨w.clock + wait, wall⟩ touched with
      ⟨reason, hsame⟩ | ⟨reason, hpruned⟩ | ⟨p, found, hfree, hsession, hgot⟩
    · simp only [step, hsame]
      exact h
    · simp only [step, hpruned]
      exact h.prune _
    · simp only [step, hgot]
      exact ((h.prune _).session hfree hsession).hold (session_live hsession) touched
  | release call =>
    rw [step]
    dsimp only
    split
    · next hcall => exact h.release hcall touched
    · exact h
  | lookup id =>
    simp only [step]
    rcases lookup_cases w.registry id ⟨w.clock + wait, wall⟩ touched with hsame | hpruned | ⟨p, found, hfree, hsession, hgot⟩
    · rw [hsame]
      exact h
    · rw [hpruned]
      exact h.prune _
    · rw [hgot]
      exact ((h.prune _).session hfree hsession).touch p touched
  | stop id => exact h.stop id _
  | prune => exact h.prune _
  | emit p kind phase target latency errText =>
    rw [step]
    dsimp only
    split
    · refine ⟨h.apart, h.owned, h.live_below, h.held_below, ?_⟩
      intro q hq
      by_cases hown : q = p
      · rw [hown, set_own]
        exact h.counted p (hown ▸ hq)
      · rw [set_other hown]
        exact h.counted q hq
    · exact h
  | poll k =>
    rw [step]
    dsimp only
    split <;> exact h

/-! ## Contexts -/

/-- A session that a call holds is not pruned, with fewer than `2 ^ 32` calls in flight. -/
theorem Sound.busy (h : Sound r held) (hheld : (id, p) ∈ held) (hfew : calls held p < 2 ^ 32) : (r.heap p).inflight ≠ 0 := by
  rw [h.counted p (h.held_below id p hheld)]
  intro hzero
  have hpos : 0 < calls held p := countP_pos_iff.2 ⟨(id, p), hheld, decide_eq_true rfl⟩
  have hcount := congrArg BitVec.toNat hzero
  rw [BitVec.toNat_ofNat, Nat.mod_eq_of_lt hfew] at hcount
  exact hpos.ne' hcount

theorem prune_keeps (hbusy : (r.heap p).inflight ≠ 0) : (pruneLocked r now).heap p = r.heap p := by
  rcases prune_heap now p with hsame | ⟨-, hzero⟩
  · exact hsame
  · exact absurd hzero hbusy

theorem session_keeps (hp : p < r.next) (h : r.session id wall = (q, found)) : found.heap p = r.heap p := by
  rw [Registry.session] at h
  split at h
  · cases h
    rfl
  · cases h
    exact set_other hp.ne _

theorem set_cancelled {s : Session} (h : s.cancelled = (r.heap q).cancelled) : ((r.set q s).heap p).cancelled = (r.heap p).cancelled := by
  by_cases hown : p = q
  · rw [hown, set_own, h]
  · rw [set_other hown]

/-- A context that is done after a step and was not before, while a call holds it, was cancelled by a `Stop` of the
id that the call gave. -/
theorem cancelled_by_stop {w : World} (h : Sound w.registry w.held) (e : Step) (hheld : (id, p) ∈ w.held)
    (hfew : calls w.held p < 2 ^ 32) (hopen : (w.registry.heap p).cancelled = false)
    (hdone : ((step w e).registry.heap p).cancelled = true) : e.call = .stop id := by
  have hbelow := h.held_below id p hheld
  have hkept (now : Now) : (pruneLocked w.registry now).heap p = w.registry.heap p := prune_keeps (h.busy hheld hfew)
  have hopened (now : Now) : ((pruneLocked w.registry now).heap p).cancelled = false := by
    rw [hkept]
    exact hopen
  obtain ⟨call, wait, wall, touched⟩ := e
  cases call with
  | acquire other =>
    exfalso
    rcases acquire_cases w.registry other ⟨w.clock + wait, wall⟩ touched with
      ⟨reason, hsame⟩ | ⟨reason, hpruned⟩ | ⟨q, found, hfree, hsession, hgot⟩
    · simp only [step, hsame] at hdone
      exact Bool.false_ne_true (hopen.symm.trans hdone)
    · simp only [step, hpruned] at hdone
      exact Bool.false_ne_true ((hopened _).symm.trans hdone)
    · simp only [step, hgot] at hdone
      rw [set_cancelled (by rfl), session_keeps (by rw [prune_next]; exact hbelow) hsession] at hdone
      exact Bool.false_ne_true ((hopened _).symm.trans hdone)
  | release call =>
    exfalso
    rw [step] at hdone
    dsimp only at hdone
    split at hdone
    · rw [Sessions.release] at hdone
      dsimp only at hdone
      rw [set_cancelled (by rfl)] at hdone
      exact Bool.false_ne_true (hopen.symm.trans hdone)
    · exact Bool.false_ne_true (hopen.symm.trans hdone)
  | lookup other =>
    exfalso
    simp only [step] at hdone
    rcases lookup_cases w.registry other ⟨w.clock + wait, wall⟩ touched with
      hsame | hpruned | ⟨q, found, hfree, hsession, hgot⟩
    · rw [hsame] at hdone
      exact Bool.false_ne_true (hopen.symm.trans hdone)
    · rw [hpruned] at hdone
      exact Bool.false_ne_true ((hopened _).symm.trans hdone)
    · rw [hgot, set_cancelled (by rfl), session_keeps (by rw [prune_next]; exact hbelow) hsession] at hdone
      exact Bool.false_ne_true ((hopened _).symm.trans hdone)
  | stop other =>
    simp only [step] at hdone
    rcases stop_cases w.registry other ⟨w.clock + wait, wall⟩ with hsame | ⟨session, heap, hstop, hheap⟩
    · rw [hsame] at hdone
      exact absurd (hopen.symm.trans hdone) Bool.false_ne_true
    · rw [hstop] at hdone
      rcases hheap p with hp | ⟨-, hlive⟩
      · have hp' : (heap p).cancelled = true := hdone
        rw [hp] at hp'
        exact absurd ((hopened _).symm.trans hp') Bool.false_ne_true
      · obtain ⟨owner, howner, hcaller⟩ := h.owned
        have hother := howner other p (prune_sessions _ hlive)
        rw [hcaller id p hheld] at hother
        rw [hother]
  | prune => exact absurd ((hopened _).symm.trans hdone) Bool.false_ne_true
  | emit q kind phase target latency errText =>
    exfalso
    rw [step] at hdone
    dsimp only at hdone
    split at hdone
    · dsimp only at hdone
      rw [set_cancelled (by rfl)] at hdone
      exact Bool.false_ne_true (hopen.symm.trans hdone)
    · exact Bool.false_ne_true (hopen.symm.trans hdone)
  | poll k =>
    exfalso
    rw [step] at hdone
    dsimp only at hdone
    split at hdone <;> exact Bool.false_ne_true (hopen.symm.trans hdone)

/-! ## Tombstones -/

/-- Since a moment the id has had a tombstone that is no older, or the idle time has passed. -/
def StoppedSince (id : String) (moment : Nat) (w : World) : Prop :=
  moment ≤ w.clock ∧ ((∃ stone, w.registry.stopped.lookup id = some stone ∧ moment ≤ stone.since) ∨ sessionIdleTTL < (w.clock : Int) - moment)

theorem lookup_filter {entries : List (String × α)} {value : α} {keep : String × α → Bool}
    (h : entries.lookup id = some value) (hkeep : keep (id, value) = true) : (entries.filter keep).lookup id = some value := by
  obtain ⟨front, back, rfl, hfront⟩ := lookup_eq_some_iff.1 h
  rw [filter_append, filter_cons_of_pos hkeep, lookup_append, lookup_cons, beq_self_eq_true]
  have hnone : (front.filter keep).lookup id = none :=
    lookup_eq_none_iff.2 fun entry hentry => hfront entry (mem_filter.1 hentry).1
  rw [hnone]
  rfl

theorem lookup_without (hne : id ≠ other) (entries : List (String × α)) : (entries.filter (·.1 ≠ other)).lookup id = entries.lookup id := by
  induction entries with
  | nil => rfl
  | cons entry entries ih =>
    obtain ⟨key, found⟩ := entry
    by_cases hkey : key = other
    · rw [filter_cons_of_neg (by simpa using hkey), lookup_cons, hkey, beq_false_of_ne hne]
      exact ih
    · rw [filter_cons_of_pos (by simpa using hkey), lookup_cons, lookup_cons, ih]

theorem lookup_put_other (hne : id ≠ other) (value : α) (entries : List (String × α)) : (put other value entries).lookup id = entries.lookup id := by
  rw [put, lookup_cons, beq_false_of_ne hne]
  exact lookup_without hne entries

theorem lookup_put_own (value : α) (entries : List (String × α)) : (put id value entries).lookup id = some value := by
  rw [put, lookup_cons, beq_self_eq_true]

variable (now) in
/-- A tombstone that is pruned is older than the idle time. -/
theorem prune_tombstone {stone : Tombstone} (h : r.stopped.lookup id = some stone) :
    (pruneLocked r now).stopped.lookup id = some stone ∨ sessionIdleTTL < (now.mono : Int) - stone.since := by
  by_cases hold : sessionIdleTTL < (now.mono : Int) - stone.since
  · exact .inr hold
  · left
    rw [pruneLocked]
    split
    · exact h
    · apply lookup_filter h
      rw [decide_eq_false hold]
      rfl

section Since

variable {moment : Nat} {w : World}

theorem since_prune (h : StoppedSince id moment w) {later : Nat} (hlater : w.clock ≤ later) (wall : Int) :
    (∃ stone, (pruneLocked w.registry ⟨later, wall⟩).stopped.lookup id = some stone ∧ moment ≤ stone.since) ∨
    sessionIdleTTL < (later : Int) - moment := by
  obtain ⟨hclock, ⟨stone, hstone, hsince⟩ | hpassed⟩ := h
  · rcases prune_tombstone ⟨later, wall⟩ hstone with hkept | hold
    · exact .inl ⟨stone, hkept, hsince⟩
    · right
      have hold' : sessionIdleTTL < (later : Int) - stone.since := hold
      omega
  · right
    omega

theorem session_stopped (h : r.session id wall = (p, found)) : found.stopped = r.stopped := by
  rw [Registry.session] at h
  split at h
  all_goals
    cases h
    rfl

theorem since_later (h : StoppedSince id moment w) {next : World} (hclock : w.clock ≤ next.clock)
    (hsame : next.registry.stopped = w.registry.stopped) : StoppedSince id moment next := by
  obtain ⟨hmoment, ⟨stone, hstone, hsince⟩ | hpassed⟩ := h
  · exact ⟨hmoment.trans hclock, .inl ⟨stone, by rw [hsame]; exact hstone, hsince⟩⟩
  · exact ⟨hmoment.trans hclock, .inr (by omega)⟩

theorem step_clock (w : World) (e : Step) : (step w e).clock = w.clock + e.wait := by
  obtain ⟨call, wait, wall, touched⟩ := e
  cases call with
  | acquire id =>
    rcases acquire_cases w.registry id ⟨w.clock + wait, wall⟩ touched with
      ⟨reason, hsame⟩ | ⟨reason, hpruned⟩ | ⟨p, found, -, -, hgot⟩
    · simp only [step, hsame]
    · simp only [step, hpruned]
    · simp only [step, hgot]
  | release call | emit p kind phase target latency errText | poll k =>
    rw [step]
    dsimp only
    split <;> rfl
  | lookup id | stop id | prune => rfl

/-- No step takes a tombstone before its time. -/
theorem step_since (h : StoppedSince id moment w) (e : Step) : StoppedSince id moment (step w e) := by
  have hclock : w.clock ≤ (step w e).clock := by
    rw [step_clock]
    exact Nat.le_add_right _ _
  have hpruned (next : World) (hnext : next.clock = w.clock + e.wait)
      (hstopped : next.registry.stopped = (pruneLocked w.registry ⟨w.clock + e.wait, e.wall⟩).stopped) :
      StoppedSince id moment next := by
    refine ⟨by rw [hnext]; exact h.1.trans (Nat.le_add_right _ _), ?_⟩
    rw [hstopped, hnext]
    exact since_prune h (Nat.le_add_right _ _) e.wall
  obtain ⟨call, wait, wall, touched⟩ := e
  cases call with
  | acquire other =>
    rcases acquire_cases w.registry other ⟨w.clock + wait, wall⟩ touched with
      ⟨reason, hsame⟩ | ⟨reason, hgot⟩ | ⟨p, found, hfree, hsession, hgot⟩
    · apply since_later h hclock
      simp only [step, hsame]
    · apply hpruned _ (step_clock _ _)
      simp only [step, hgot]
    · apply hpruned _ (step_clock _ _)
      have hstopped := session_stopped hsession
      simp only [step, hgot]
      exact hstopped
  | release call | emit p kind phase target latency errText | poll k =>
    apply since_later h hclock
    rw [step]
    dsimp only
    split <;> rfl
  | lookup other =>
    rcases lookup_cases w.registry other ⟨w.clock + wait, wall⟩ touched with hsame | hgot | ⟨p, found, hfree, hsession, hgot⟩
    · apply since_later h hclock
      simp only [step, hsame]
    · apply hpruned _ (step_clock _ _)
      simp only [step, hgot]
    · apply hpruned _ (step_clock _ _)
      have hstopped := session_stopped hsession
      simp only [step, hgot]
      exact hstopped
  | stop other =>
    rcases stop_cases w.registry other ⟨w.clock + wait, wall⟩ with hsame | ⟨session, heap, hstop, -⟩
    · apply since_later h hclock
      simp only [step, hsame]
    · refine ⟨h.1.trans hclock, ?_⟩
      simp only [step, hstop]
      by_cases hown : id = other
      · -- Another `Stop` of the id makes the tombstone younger.
        rw [hown, lookup_put_own]
        exact .inl ⟨_, rfl, h.1.trans (Nat.le_add_right _ _)⟩
      · rw [lookup_put_other hown]
        exact since_prune h (Nat.le_add_right _ _) wall
  | prune => exact hpruned _ rfl rfl

/-- A `Stop` leaves a tombstone of its moment. -/
theorem since_stop {e : Step} (hstop : e.call = .stop id) (hid : id ≠ "") (w : World) : StoppedSince id (step w e).clock (step w e) := by
  refine ⟨le_refl _, .inl ?_⟩
  rw [step_clock]
  obtain ⟨call, wait, wall, touched⟩ := e
  obtain rfl : call = .stop id := hstop
  simp only [step, Stop, if_neg hid]
  split <;> exact ⟨_, lookup_put_own _ _, le_refl _⟩

/-- While the tombstone is there no call is admitted. -/
theorem admitted_later (h : StoppedSince id moment w) (hlater : w.clock ≤ now.mono) {registry : Registry}
    (hok : Acquire w.registry id now wall = (.ok p, registry)) : sessionIdleTTL < (now.mono : Int) - moment := by
  rcases acquire_cases w.registry id now wall with ⟨reason, hsame⟩ | ⟨reason, hpruned⟩ | ⟨q, found, hfree, -, -⟩
  · rw [hsame] at hok
    exact absurd (Prod.mk.inj hok).1 (by simp)
  · rw [hpruned] at hok
    exact absurd (Prod.mk.inj hok).1 (by simp)
  · rcases since_prune h hlater now.wall with ⟨stone, hstone, -⟩ | hpassed
    · exact absurd (hfree.symm.trans hstone) (by simp)
    · exact hpassed

end Since

end Throne.Core.Scan.Sessions
