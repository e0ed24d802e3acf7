import Throne.Engine.Connection.StartRequests
import Mathlib.Data.List.InsertIdx

/-!
# Every start request is answered once

`books` counts what the manager has of one request: its answers and the places that hold it. A
function that is given a request adds exactly one to the books of that request and nothing to any
other (`Takes`), whatever branch it goes through. Over a run the books of every accepted request stay
at one, so it is answered once or held once.
-/

namespace Throne.Engine.Connection

open Lib Lib.Lists ConnectionManager List

/-! ## The books of one request -/

/-- One for the request with ticket `t` and serial `n`. -/
def one (r : StartRequest) (t n : Nat) : Nat := if r.ticket = t ∧ r.serial = n then 1 else 0

def slotCount (r : StartRequest) (t n : Nat) : Nat := if 0 ≤ r.profileId then one r t n else 0

def dnsCount (select : Option DnsSelect) (t n : Nat) : Nat :=
  match select with
  | some ⟨r, false⟩ => one r t n
  | _ => 0

def answerCount (answers : List Answer) (t n : Nat) : Nat :=
  answers.countP fun a => decide (a.ticket = t ∧ a.serial = n)

def requestCount (requests : List StartRequest) (t n : Nat) : Nat :=
  requests.countP fun r => decide (r.ticket = t ∧ r.serial = n)

/-- The answers to a request and the places that hold it. -/
def books (s : ConnectionManager) (t n : Nat) : Nat :=
  answerCount s.answers t n + dnsCount s.dnsSelect t n + slotCount s.killSwitchDeferredStart t n +
    slotCount s.coreStartRequest t n + requestCount s.rankings t n +
    requestCount (s.workers.map Worker.request) t n

variable {r : StartRequest}

theorem slotCount_of_nonneg (h : 0 ≤ r.profileId) (t n : Nat) : slotCount r t n = one r t n := if_pos h

@[simp] theorem slotCount_none (t n : Nat) : slotCount StartRequest.none t n = 0 := rfl

theorem requestCount_concat (requests : List StartRequest) (r : StartRequest) (t n : Nat) :
    requestCount (requests ++ [r]) t n = requestCount requests t n + one r t n := by
  simp [requestCount, one, countP_append, countP_singleton]

variable {i : Nat}

/-- Taking one request off a list. -/
theorem requestCount_eraseIdx {requests : List StartRequest} (h : requests[i]? = some r) (t n : Nat) :
    requestCount requests t n = requestCount (requests.eraseIdx i) t n + one r t n := by
  induction requests generalizing i with
  | nil => cases h
  | cons x requests ih =>
    cases i with
    | zero =>
      cases h
      simp [requestCount, one, countP_cons]
    | succ i =>
      have hrest := ih (i := i) h
      simp only [requestCount, eraseIdx_cons_succ, countP_cons] at hrest ⊢
      omega

/-- The settle callback is registered exactly while the kill switch slot holds a request. -/
def Callbacks (s : ConnectionManager) : Prop :=
  s.settledCallbacks = if 0 ≤ s.killSwitchDeferredStart.profileId then 1 else 0

/-- The request `r` is answered or put in one place; nothing else is touched. -/
structure Takes (r : StartRequest) (s s' : ConnectionManager) : Prop where
  accepted : s'.accepted = s.accepted
  books : ∀ t n, books s' t n = books s t n + one r t n
  callbacks : Callbacks s → Callbacks s'

/-- No request moves, or one only changes its place. -/
structure Moves (s s' : ConnectionManager) : Prop where
  accepted : s'.accepted = s.accepted
  books : ∀ t n, books s' t n = books s t n
  callbacks : Callbacks s → Callbacks s'

variable {s s' s'' : ConnectionManager}

theorem Moves.takes (h : Moves s s') (h' : Takes r s' s'') : Takes r s s'' where
  accepted := h'.accepted.trans h.accepted
  books := fun t n => by rw [h'.books, h.books]
  callbacks := fun hs => h'.callbacks (h.callbacks hs)

/-! ## `start` -/

variable {w : World}

section

variable (s : ConnectionManager)

theorem answer_takes (r : StartRequest) (outcome : StartOutcome) (error : String) : Takes r s (s.answer r outcome error) where
  accepted := rfl
  books := by
    intro t n
    simp only [books, answer, answerCount, countP_append, countP_singleton, one, decide_eq_true_eq]
    omega
  callbacks := id

theorem setStartWhenUp_moves (w : World) (profileId : Int) : Moves s (s.setStartWhenUp w profileId) := by
  rw [setStartWhenUp]
  split <;> exact ⟨rfl, fun _ _ => rfl, id⟩

/-- The request that was in the slot is answered, and the new one takes its place. -/
theorem deferStartToCore_books (r : StartRequest) : (s.deferStartToCore r).accepted = s.accepted ∧
    (∀ t n, books (s.deferStartToCore r) t n = books s t n + slotCount r t n) ∧ (Callbacks s → Callbacks (s.deferStartToCore r)) := by
  rw [deferStartToCore]
  split
  next h =>
    have hanswer := answer_takes s s.coreStartRequest .superseded ""
    refine ⟨rfl, ?_, id⟩
    intro t n
    have hbooks := hanswer.books t n
    have hslot := slotCount_of_nonneg h t n
    simp only [books, answer] at hbooks ⊢
    omega
  next h =>
    refine ⟨rfl, ?_, id⟩
    intro t n
    have hslot : slotCount s.coreStartRequest t n = 0 := if_neg h
    simp only [books]
    omega

theorem deferStartToCore_takes (hr : 0 ≤ r.profileId) : Takes r s (s.deferStartToCore r) := by
  obtain ⟨haccepted, hbooks, hcallbacks⟩ := deferStartToCore_books s r
  exact ⟨haccepted, fun t n => by rw [hbooks, slotCount_of_nonneg hr], hcallbacks⟩

/-- With a core process the request goes to the core slot; without one it is answered. -/
theorem restartCoreForGuard_books (r : StartRequest) (hprocess : w.haveProcess = true) : (s.restartCoreForGuard r w).accepted = s.accepted ∧
    (∀ t n, books (s.restartCoreForGuard r w) t n = books s t n + slotCount r t n) ∧
    (Callbacks s → Callbacks (s.restartCoreForGuard r w)) := by
  have hset := setStartWhenUp_moves s w r.profileId
  obtain ⟨haccepted, hbooks, hcallbacks⟩ :=
    deferStartToCore_books (s.setStartWhenUp w r.profileId) r
  rw [restartCoreForGuard, if_neg (by rw [hprocess]; decide)]
  have hall : ∀ t n, books ((s.setStartWhenUp w r.profileId).deferStartToCore r) t n
      = books s t n + slotCount r t n := fun t n => by rw [hbooks, hset.books]
  extract_lets t
  split <;> exact ⟨haccepted.trans hset.accepted, hall, fun hs => hcallbacks (hset.callbacks hs)⟩

theorem restartCoreForGuard_takes (w : World) (hr : 0 ≤ r.profileId) : Takes r s (s.restartCoreForGuard r w) := by
  cases hprocess : w.haveProcess with
  | false =>
    rw [restartCoreForGuard, if_pos hprocess]
    exact answer_takes s r _ _
  | true =>
    obtain ⟨haccepted, hbooks, hcallbacks⟩ := restartCoreForGuard_books s r hprocess
    exact ⟨haccepted, fun t n => by rw [hbooks, slotCount_of_nonneg hr], hcallbacks⟩

/-- The request in the slot is answered by the newer one, whose callback is registered already. -/
theorem deferToKillSwitch_takes (hr : 0 ≤ r.profileId) : Takes r s (s.deferToKillSwitch r) := by
  rw [deferToKillSwitch]
  split
  next h =>
    have hanswer := answer_takes s s.killSwitchDeferredStart .superseded ""
    refine ⟨rfl, ?_, ?_⟩
    · intro t n
      have hbooks := hanswer.books t n
      have hold := slotCount_of_nonneg h t n
      have hnew := slotCount_of_nonneg hr t n
      simp only [books, answer] at hbooks ⊢
      omega
    · intro hs
      rw [Callbacks, if_pos h] at hs
      rw [Callbacks, if_pos hr]
      exact hs
  next h =>
    refine ⟨rfl, ?_, ?_⟩
    · intro t n
      have hold : slotCount s.killSwitchDeferredStart t n = 0 := if_neg h
      have hnew := slotCount_of_nonneg hr t n
      simp only [books]
      omega
    · intro hs
      rw [Callbacks, if_neg h] at hs
      rw [Callbacks, if_pos hr]
      exact congrArg (· + 1) hs

theorem ranking_takes (r : StartRequest) : Takes r s { s with rankings := s.rankings ++ [r] } where
  accepted := rfl
  books := by
    intro t n
    simp only [books, requestCount_concat]
    omega
  callbacks := id

theorem worker_takes (r : StartRequest) : Takes r s { s with muStarting := true, workers := s.workers ++ [⟨r, none⟩] } where
  accepted := rfl
  books := by
    intro t n
    simp only [books, map_append, map_cons, map_nil, requestCount_concat]
    omega
  callbacks := id

theorem launch_takes (w : World) (hr : 0 ≤ r.profileId) : Takes r s (s.launch r w) := by
  have hdefer := deferStartToCore_takes s hr
  rw [launch]
  split
  next => exact answer_takes s r _ _
  next =>
    split
    next => exact answer_takes s r _ _
    next =>
      split
      next =>
        have hset := setStartWhenUp_moves (s.deferStartToCore r) w r.profileId
        exact ⟨hset.accepted.trans hdefer.accepted, fun t n => by rw [hset.books, hdefer.books], fun hs => hset.callbacks (hdefer.callbacks hs)⟩
      next =>
        split
        next =>
          split
          next => exact answer_takes s r _ _
          next => exact ⟨hdefer.accepted, hdefer.books, hdefer.callbacks⟩
        next => exact worker_takes s r

theorem startChecked_takes (w : World) (hr : 0 ≤ r.profileId) : Takes r s (s.startChecked r w) := by
  rw [startChecked]
  split
  next => exact deferToKillSwitch_takes s hr
  next =>
    split
    next => exact answer_takes s r _ _
    next =>
      split
      next => exact restartCoreForGuard_takes s w hr
      next =>
        split
        next => exact ranking_takes s r
        next =>
          split
          next => exact answer_takes s r _ _
          next => exact launch_takes s w hr

end

/-- The DNS selection takes the request only while no other one is under way. -/
theorem deferStartForDns_takes (h : s.deferStartForDns r w = some s') : Takes r s s' := by
  rw [deferStartForDns] at h
  split at h
  next => cases h
  next =>
    split at h
    next => cases h
    next =>
      split at h
      next =>
        cases h
        exact answer_takes s r _ _
      next hfree =>
        split at h
        next => cases h
        next =>
          cases h
          refine ⟨rfl, ?_, id⟩
          intro t n
          have hnone : s.dnsSelect = none := by simpa using hfree
          have hone : one { r with dnsChecked := true } t n = one r t n := rfl
          simp only [books, hnone, dnsCount]
          omega

/-- Whatever way `start` goes, the request is answered or put in one place. -/
theorem start_takes (s : ConnectionManager) (r : StartRequest) (w : World) : Takes r s (s.start r w) := by
  rw [start]
  split
  next => exact answer_takes s r _ _
  next =>
    split
    next => exact answer_takes s r _ _
    next hfound =>
      have hr : 0 ≤ r.profileId := by
        by_contra hneg
        exact hfound (.inl (by omega))
      split
      next => exact answer_takes s r _ _
      next =>
        split
        next deferred hdeferred =>
          cases hchecked : r.dnsChecked with
          | true => rw [hchecked] at hdeferred; cases hdeferred
          | false =>
            rw [hchecked] at hdeferred
            exact deferStartForDns_takes hdeferred
        next => exact startChecked_takes s w hr

/-! ## A request leaves its place -/

/-- The request `r` is taken out of its place and is in hand now. -/
structure Releases (r : StartRequest) (s s' : ConnectionManager) : Prop where
  accepted : s'.accepted = s.accepted
  books : ∀ t n, books s t n = books s' t n + one r t n
  callbacks : Callbacks s → Callbacks s'

theorem Releases.takes (h : Releases r s s') (h' : Takes r s' s'') : Moves s s'' where
  accepted := h'.accepted.trans h.accepted
  books := fun t n => by rw [h'.books, h.books]
  callbacks := fun hs => h'.callbacks (h.callbacks hs)

theorem selected_releases {select : DnsSelect} (h : s.dnsSelect = some select) (hemitted : select.emitted = false) :
    Releases select.request s { s with dnsSelect := some { select with emitted := true } } where
  accepted := rfl
  books := by
    obtain ⟨r, emitted⟩ := select
    cases hemitted
    intro t n
    simp only [books, h, dnsCount]
    omega
  callbacks := id

theorem settled_releases (h : 0 ≤ s.killSwitchDeferredStart.profileId) : Releases s.killSwitchDeferredStart s
      { s with
        settledCallbacks := s.settledCallbacks - 1
        killSwitchDeferredStart := StartRequest.none } where
  accepted := rfl
  books := by
    intro t n
    simp only [books, slotCount_none, slotCount_of_nonneg h]
    omega
  callbacks := by
    intro hs
    rw [Callbacks, if_pos h] at hs
    simp [Callbacks, hs, StartRequest.none]

theorem ranked_releases (h : s.rankings[i]? = some r) : Releases r s { s with rankings := s.rankings.eraseIdx i } where
  accepted := rfl
  books := by
    intro t n
    have herase := requestCount_eraseIdx h t n
    simp only [books]
    omega
  callbacks := id

theorem worker_releases {worker : Worker} (h : s.workers[i]? = some worker) :
    Releases worker.request s { s with workers := s.workers.eraseIdx i } where
  accepted := rfl
  books := by
    intro t n
    have hrequest : (s.workers.map Worker.request)[i]? = some worker.request := by
      rw [getElem?_map, h, Option.map_some]
    have herase := requestCount_eraseIdx hrequest t n
    rw [eraseIdx_map] at herase
    simp only [books]
    omega
  callbacks := id

/-- `s'` is `s` with the core slot empty, up to what holds no request. -/
structure CoreSlotEmptied (s s' : ConnectionManager) : Prop where
  accepted : s'.accepted = s.accepted
  answers : s'.answers = s.answers
  dnsSelect : s'.dnsSelect = s.dnsSelect
  killSwitchSlot : s'.killSwitchDeferredStart = s.killSwitchDeferredStart
  callbacks : s'.settledCallbacks = s.settledCallbacks
  rankings : s'.rankings = s.rankings
  workers : s'.workers = s.workers
  emptied : s'.coreStartRequest = StartRequest.none

theorem CoreSlotEmptied.books (h : CoreSlotEmptied s s') (t n : Nat) : books s t n = books s' t n + slotCount s.coreStartRequest t n := by
  simp only [Connection.books, h.answers, h.dnsSelect, h.killSwitchSlot, h.rankings, h.workers, h.emptied, slotCount_none]
  omega

theorem CoreSlotEmptied.keepsCallbacks (h : CoreSlotEmptied s s') (hs : Callbacks s) : Callbacks s' := by
  rw [Callbacks, h.callbacks, h.killSwitchSlot]
  exact hs

theorem CoreSlotEmptied.releases (h : CoreSlotEmptied s s') (hslot : 0 ≤ s.coreStartRequest.profileId) : Releases s.coreStartRequest s s' where
  accepted := h.accepted
  books := fun t n => by rw [h.books, slotCount_of_nonneg hslot]
  callbacks := h.keepsCallbacks

theorem CoreSlotEmptied.moves (h : CoreSlotEmptied s s') (hslot : ¬0 ≤ s.coreStartRequest.profileId) : Moves s s' where
  accepted := h.accepted
  books := by
    intro t n
    have hnone : slotCount s.coreStartRequest t n = 0 := if_neg hslot
    rw [h.books, hnone, Nat.add_zero]
  callbacks := h.keepsCallbacks

/-! ## A request is made -/

/-- A request with the serial `n` is accepted and is answered or put in one place. -/
structure Grows (serial : Nat) (s s' : ConnectionManager) : Prop where
  accepted : s'.accepted = s.accepted ++ [serial]
  books : ∀ t n, books s' t n = books s t n + if s.accepted.length = t ∧ serial = n then 1 else 0
  callbacks : Callbacks s → Callbacks s'

theorem Takes.grows (h : Takes r (s.accept r.serial) s') (hticket : r.ticket = s.accepted.length) : Grows r.serial s s' where
  accepted := h.accepted
  books := by
    intro t n
    rw [h.books, one, hticket]
    rfl
  callbacks := h.callbacks

theorem Moves.grows {serial : Nat} (h : Moves s s') (h' : Grows serial s' s'') : Grows serial s s'' where
  accepted := by rw [h'.accepted, h.accepted]
  books := fun t n => by rw [h'.books, h.books, h.accepted]
  callbacks := fun hs => h'.callbacks (h.callbacks hs)

/-- What one step does to the requests. -/
def Steps (s s' : ConnectionManager) : Prop := Moves s s' ∨ ∃ serial, Grows serial s s'

theorem Moves.refl (s : ConnectionManager) : Moves s s := ⟨rfl, fun _ _ => rfl, id⟩

theorem Moves.steps (h : Moves s s') (h' : Steps s' s'') : Steps s s'' := by
  rcases h' with hmoves | ⟨serial, hgrows⟩
  · left
    exact ⟨hmoves.accepted.trans h.accepted, fun t n => by rw [hmoves.books, h.books], fun hs => hmoves.callbacks (h.callbacks hs)⟩
  · exact .inr ⟨serial, h.grows hgrows⟩

/-! ## The handlers -/

theorem onSelected_moves (address : Bool) (w : World) (hcan : (s.dnsSelect.any fun select => !select.emitted) = true) :
    Moves s (s.onSelected address w) := by
  rw [onSelected.eq_def]
  split
  next h =>
    rw [h] at hcan
    cases hcan
  next select h =>
    rw [h, Option.any_some, Bool.not_eq_true'] at hcan
    have hreleases := selected_releases h hcan
    split
    · exact hreleases.takes (answer_takes _ _ _ _)
    · exact hreleases.takes (start_takes _ _ _)

section

variable (s : ConnectionManager)

theorem onSettled_moves (w : World) : Moves s (s.onSettled w) := by
  rw [onSettled]
  split
  next h => exact (settled_releases h).takes (start_takes _ _ _)
  next h =>
    refine ⟨rfl, ?_, ?_⟩
    · intro t n
      have hnone : slotCount s.killSwitchDeferredStart t n = 0 := if_neg h
      simp only [books, slotCount_none, hnone]
    · intro hs
      rw [Callbacks, if_neg h] at hs
      simp [Callbacks, hs, StartRequest.none]

theorem onRanked_moves (i : Nat) (w : World) : Moves s (s.onRanked i w) := by
  rw [onRanked.eq_def]
  split
  next => exact Moves.refl s
  next r h => exact (ranked_releases h).takes (start_takes _ _ _)

theorem workerAnswers_moves (i : Nat) : Moves s (s.workerAnswers i) := by
  rw [workerAnswers.eq_def]
  split
  next h => exact (worker_releases h).takes (answer_takes _ _ _ _)
  next => exact Moves.refl s

theorem workerFinishes_moves (i : Nat) (reply : LaunchReply) : Moves s (s.workerFinishes i reply) where
  accepted := rfl
  books := by
    intro t n
    have hrequests : (s.workerFinishes i reply).workers.map Worker.request = s.workers.map Worker.request := by
      apply ext_getElem?
      intro k
      rw [workerFinishes, getElem?_map, getElem?_map, getElem?_modify]
      cases s.workers[k]? with
      | none => rfl
      | some worker =>
        by_cases hk : i = k <;> simp [hk]
    simp only [books, hrequests]
    rfl
  callbacks := id

theorem onCoreGaveUp_moves (reason : String) : Moves s (s.onCoreGaveUp reason) := by
  have hemptied : CoreSlotEmptied s { s with guardCoreRestart := false, coreStartRequest := StartRequest.none } :=
    ⟨rfl, rfl, rfl, rfl, rfl, rfl, rfl, rfl⟩
  rw [onCoreGaveUp]
  split
  next h => exact (hemptied.releases h).takes (answer_takes _ _ _ _)
  next h => exact hemptied.moves h

/-- The core that started gets the request for its profile, or a new one; another request in the slot
is answered. -/
theorem onCoreStarted_steps (w : World) : Steps s (s.onCoreStarted w) := by
  unfold onCoreStarted
  extract_lets id request bootSerial s₁ s₂ next s₃
  have hemptied : CoreSlotEmptied s s₁ := ⟨rfl, rfl, rfl, rfl, rfl, rfl, rfl, rfl⟩
  by_cases hmatch : request.profileId = id
  · -- No other request is in the slot.
    have hs₂ : s₂ = s₁ := if_neg fun h => h.2 hmatch
    have hnext : next = request := if_pos hmatch
    have hs₃ : s₃ = s₁ := by rw [← hs₂]; exact if_pos hmatch
    left
    split
    next hid =>
      have hreleases := hemptied.releases (show 0 ≤ request.profileId by rw [hmatch]; exact hid)
      rw [hs₃, hnext]
      split
      · exact hreleases.takes (answer_takes _ _ _ _)
      · exact hreleases.takes (start_takes _ _ _)
    next hid =>
      rw [hs₂]
      exact hemptied.moves (show ¬0 ≤ request.profileId by rw [hmatch]; exact hid)
  · have hother : Moves s s₂ := by
      by_cases hslot : 0 ≤ request.profileId
      · have hs₂ : s₂ = s₁.answer request .superseded "" := if_pos ⟨hslot, hmatch⟩
        rw [hs₂]
        exact (hemptied.releases hslot).takes (answer_takes _ _ _ _)
      · have hs₂ : s₂ = s₁ := if_neg fun h => hslot h.1
        rw [hs₂]
        exact hemptied.moves hslot
    split
    next =>
      have hnext : next = StartRequest.of id true 0 s₂.accepted.length := if_neg hmatch
      have hs₃ : s₃ = s₂.accept 0 := if_neg hmatch
      have hgrows : ∀ s', Takes (StartRequest.of id true 0 s₂.accepted.length) (s₂.accept 0) s' → Grows 0 s₂ s' := fun _ htakes => htakes.grows rfl
      right
      refine ⟨0, hother.grows ?_⟩
      rw [hs₃, hnext]
      split
      · exact hgrows _ (answer_takes _ _ _ _)
      · exact hgrows _ (start_takes _ _ _)
    next => exact .inl hother

theorem guardRequest_steps (profileId : Int) (hprocess : w.haveProcess = true) : Steps s (s.guardRequest profileId w) := by
  rw [guardRequest]
  split
  next h =>
    right
    refine ⟨0, ?_⟩
    have htakes : Takes (StartRequest.of profileId true 0 s.accepted.length) (s.accept 0) _ := restartCoreForGuard_takes (s.accept 0) w h
    exact htakes.grows rfl
  next h =>
    left
    obtain ⟨haccepted, hbooks, hcallbacks⟩ :=
      restartCoreForGuard_books s (StartRequest.of profileId true 0 0) hprocess
    have hnone : ∀ t n, slotCount (StartRequest.of profileId true 0 0) t n = 0 :=
      fun t n => if_neg h
    exact ⟨haccepted, fun t n => by rw [hbooks, hnone, Nat.add_zero], hcallbacks⟩

theorem onKillSwitchStateChanged_steps (w : World) : Steps s (s.onKillSwitchStateChanged w) := by
  unfold onKillSwitchStateChanged
  extract_lets failed armed enteredArmed s₁
  have hflags : Moves s s₁ := ⟨rfl, fun _ _ => rfl, id⟩
  apply hflags.steps
  split
  next h =>
    have hprocess : w.haveProcess = true := by
      have hrunning := h.2.2
      simp only [World.runningWithoutGuardIdentity, Bool.and_eq_true] at hrunning
      exact hrunning.1.1.2
    split
    next =>
      split
      next hslot =>
        left
        have hemptied : CoreSlotEmptied s₁ { s₁ with coreStartRequest := StartRequest.none } :=
          ⟨rfl, rfl, rfl, rfl, rfl, rfl, rfl, rfl⟩
        exact (hemptied.releases hslot).takes (restartCoreForGuard_takes _ w hslot)
      next => exact guardRequest_steps s₁ _ hprocess
    next => exact guardRequest_steps s₁ _ hprocess
  next => exact .inl (Moves.refl s₁)

theorem setBootStart_grows {profileId : Int} (serial : Nat) (h : 0 ≤ profileId) : Grows serial s (s.setBootStart profileId serial) := by
  have htakes : Takes (StartRequest.of profileId false serial s.accepted.length) (s.accept serial) (s.setBootStart profileId serial) := by
    have hboot : Moves (s.accept serial) ({ s.accept serial with bootSerial := serial } : ConnectionManager) :=
      ⟨rfl, fun _ _ => rfl, id⟩
    exact hboot.takes (deferStartToCore_takes _ h)
  exact htakes.grows rfl

end

/-! ## Runs -/

theorem step_steps {e : Event} (hcan : Can s e = true) : Steps s (step s e) := by
  cases e with
  | start profileId interactive serial w =>
    right
    have htakes := start_takes (s.accept serial) (StartRequest.of profileId interactive serial s.accepted.length) w
    exact ⟨serial, htakes.grows rfl⟩
  | setBootStart profileId serial =>
    exact .inr ⟨serial, setBootStart_grows s serial (of_decide_eq_true hcan)⟩
  | selected address w => exact .inl (onSelected_moves address w hcan)
  | selectDeleted =>
    left
    refine ⟨rfl, ?_, id⟩
    intro t n
    change (s.dnsSelect.any fun select => select.emitted) = true at hcan
    -- What is deleted has emitted, so it holds no request.
    have hnone : dnsCount s.dnsSelect t n = 0 := by
      cases hselect : s.dnsSelect with
      | none => rfl
      | some select =>
        obtain ⟨r, emitted⟩ := select
        rw [hselect, Option.any_some] at hcan
        change emitted = true at hcan
        rw [hcan]
        rfl
    simp only [books, step, hnone]
    rfl
  | settled w => exact .inl (onSettled_moves s w)
  | killSwitchChanged w => exact onKillSwitchStateChanged_steps s w
  | ranked i w => exact .inl (onRanked_moves s i w)
  | coreStarted w => exact onCoreStarted_steps s w
  | coreGaveUp reason => exact .inl (onCoreGaveUp_moves s reason)
  | supervisorSets profileId | stopped | cancelResume | resetCore | workerUnlocks =>
    exact .inl ⟨rfl, fun _ _ => rfl, id⟩
  | stop manual crash running =>
    left
    change Moves s (s.stop manual crash running)
    rw [stop]
    split <;> split <;> exact ⟨rfl, fun _ _ => rfl, id⟩
  | workerFinishes i reply => exact .inl (workerFinishes_moves s i reply)
  | workerAnswers i => exact .inl (workerAnswers_moves s i)

/-- The books of every accepted request stand at one, and there are no other books. -/
structure Kept (s : ConnectionManager) : Prop where
  each : ∀ t n, books s t n = if s.accepted[t]? = some n then 1 else 0
  callbacks : Callbacks s

theorem kept_step (hs : Kept s) (h : Steps s s') : Kept s' := by
  rcases h with hmoves | ⟨serial, hgrows⟩
  · refine ⟨?_, hmoves.callbacks hs.callbacks⟩
    intro t n
    rw [hmoves.books, hmoves.accepted]
    exact hs.each t n
  · refine ⟨?_, hgrows.callbacks hs.callbacks⟩
    intro t n
    rw [hgrows.books, hs.each, hgrows.accepted]
    rcases Nat.lt_trichotomy t s.accepted.length with hlt | rfl | hgt
    · have hnew : ¬(s.accepted.length = t ∧ serial = n) := fun h => by omega
      rw [getElem?_append_left hlt, if_neg hnew, Nat.add_zero]
    · rw [getElem?_concat_length, getElem?_eq_none (Nat.le_refl _)]
      simp
    · have hnew : ¬(s.accepted.length = t ∧ serial = n) := fun h => by omega
      rw [getElem?_eq_none (by omega), getElem?_eq_none (by simp; omega), if_neg hnew, Nat.add_zero]

theorem kept_fresh : Kept fresh where
  each := by
    intro t n
    rfl
  callbacks := rfl

/-! ## Answered or held -/

/-- The elements of a list that carry a ticket, when they all carry the same serial. -/
theorem filter_ticket {α : Type} (l : List α) (ticket serial : α → Nat) {t n : Nat}
    (hother : ∀ m, m ≠ n → l.countP (fun a => decide (ticket a = t ∧ serial a = m)) = 0) :
    (l.filter fun a => decide (ticket a = t)).length = l.countP (fun a => decide (ticket a = t ∧ serial a = n)) ∧
    ∀ a ∈ l, ticket a = t → serial a = n := by
  have hserial : ∀ a ∈ l, ticket a = t → serial a = n := by
    intro a ha hticket
    by_contra hne
    have hnone := countP_eq_zero.1 (hother (serial a) hne) a ha
    simp [hticket] at hnone
  refine ⟨?_, hserial⟩
  rw [← countP_eq_length_filter]
  apply countP_congr
  intro a ha
  simp only [decide_eq_true_eq]
  exact ⟨fun h => ⟨h, hserial a ha h⟩, fun h => h.1⟩

theorem held_count (s : ConnectionManager) (t n : Nat) : books s t n = s.answers.countP (fun a => decide (a.ticket = t ∧ a.serial = n)) +
    s.held.countP (fun p => decide (p.2.ticket = t ∧ p.2.serial = n)) := by
  have hslot : ∀ (place : Place) (r : StartRequest), (slot place r).countP (fun p => decide (p.2.ticket = t ∧ p.2.serial = n)) = slotCount r t n := by
    intro place r
    rw [slot, slotCount]
    split
    · simp [one, countP_singleton]
    · rfl
  have hdns : (dnsHeld s.dnsSelect).countP (fun p => decide (p.2.ticket = t ∧ p.2.serial = n)) = dnsCount s.dnsSelect t n := by
    cases s.dnsSelect with
    | none => rfl
    | some select =>
      obtain ⟨r, emitted⟩ := select
      cases emitted with
      | true => rfl
      | false => simp [dnsHeld, dnsCount, one, countP_singleton]
  simp only [held, countP_append, hslot, hdns, countP_map, books, answerCount, requestCount, Function.comp_def]
  omega

/-- A request is answered by exactly one `startFinished` with its serial, or it is held in exactly one
place; in the kill switch slot it has its callback. -/
def AnsweredOrHeld (s : ConnectionManager) (t serial : Nat) : Prop :=
  (∃ a : Answer, s.answers.filter (fun a => decide (a.ticket = t)) = [a] ∧ a.serial = serial ∧
      s.held.filter (fun p => decide (p.2.ticket = t)) = []) ∨
    (∃ p : Place × StartRequest, s.held.filter (fun p => decide (p.2.ticket = t)) = [p] ∧
      p.2.serial = serial ∧ (p.1 = .killSwitchSlot → s.settledCallbacks = 1) ∧
      s.answers.filter (fun a => decide (a.ticket = t)) = [])

theorem mem_killSwitchSlot {p : Place × StartRequest} (hp : p ∈ s.held)
    (hplace : p.1 = .killSwitchSlot) : 0 ≤ s.killSwitchDeferredStart.profileId := by
  by_contra hneg
  have hempty : slot .killSwitchSlot s.killSwitchDeferredStart = [] := if_neg hneg
  rw [held, hempty] at hp
  simp only [append_nil, mem_append, mem_map] at hp
  rcases hp with ((hdns | hcore) | ⟨r, -, rfl⟩) | ⟨worker, -, rfl⟩
  · rw [dnsHeld.eq_def] at hdns
    split at hdns
    · rw [mem_singleton] at hdns
      rw [hdns] at hplace
      cases hplace
    · cases hdns
  · rw [slot] at hcore
    split at hcore
    · rw [mem_singleton] at hcore
      rw [hcore] at hplace
      cases hplace
    · cases hcore
  · cases hplace
  · cases hplace

theorem Kept.answeredOrHeld (hs : Kept s) {t serial : Nat} (ht : s.accepted[t]? = some serial) : AnsweredOrHeld s t serial := by
  have hone : books s t serial = 1 := by rw [hs.each, if_pos ht]
  have hother : ∀ m, m ≠ serial → books s t m = 0 := by
    intro m hm
    rw [hs.each, if_neg]
    rw [ht]
    exact fun h => hm (Option.some.inj h).symm
  simp only [held_count] at hone hother
  obtain ⟨hanswers, hanswered⟩ := filter_ticket s.answers Answer.ticket Answer.serial fun m hm => (Nat.add_eq_zero_iff.1 (hother m hm)).1
  obtain ⟨hplaces, hheld⟩ := filter_ticket s.held (fun p => p.2.ticket) (fun p => p.2.serial) fun m hm => (Nat.add_eq_zero_iff.1 (hother m hm)).2
  rw [← hanswers, ← hplaces] at hone
  generalize hA : s.answers.filter (fun a => decide (a.ticket = t)) = answers at hone
  generalize hH : s.held.filter (fun p => decide (p.2.ticket = t)) = places at hone
  rcases Nat.lt_or_ge 0 answers.length with hlt | hzero
  · left
    obtain ⟨a, ha⟩ := length_eq_one_iff.1 (show answers.length = 1 by omega)
    have hnone : places = [] := length_eq_zero_iff.1 (by omega)
    have hmem : a ∈ s.answers.filter (fun a => decide (a.ticket = t)) := by
      rw [hA, ha]
      exact mem_singleton_self a
    rw [mem_filter, decide_eq_true_eq] at hmem
    exact ⟨a, hA.trans ha, hanswered a hmem.1 hmem.2, hH.trans hnone⟩
  · right
    obtain ⟨p, hp⟩ := length_eq_one_iff.1 (show places.length = 1 by omega)
    have hnone : answers = [] := length_eq_zero_iff.1 (by omega)
    have hmem : p ∈ s.held.filter (fun p => decide (p.2.ticket = t)) := by
      rw [hH, hp]
      exact mem_singleton_self p
    rw [mem_filter, decide_eq_true_eq] at hmem
    refine ⟨p, hH.trans hp, hheld p hmem.1 hmem.2, ?_, hA.trans hnone⟩
    intro hplace
    have hcallbacks := hs.callbacks
    rw [Callbacks, if_pos (mem_killSwitchSlot hmem.1 hplace)] at hcallbacks
    exact hcallbacks

/-- An answer belongs to a request that was accepted, and carries its serial. -/
theorem Kept.answer_accepted (hs : Kept s) {a : Answer} (ha : a ∈ s.answers) : s.accepted[a.ticket]? = some a.serial := by
  by_contra hne
  have hzero : books s a.ticket a.serial = 0 := by rw [hs.each, if_neg hne]
  rw [held_count] at hzero
  have hnone := countP_eq_zero.1 (Nat.add_eq_zero_iff.1 hzero).1 a ha
  simp at hnone

/-- After every run each accepted start request is either answered by exactly one `startFinished` that
carries its serial, or held in exactly one place, and every `startFinished` answers an accepted
request. -/
theorem starts_answered_once (events : List Event) (hrun : Runs.Along step (fun s e => Can s e = true) fresh events) :
    (∀ t serial, (Runs.run step fresh events).accepted[t]? = some serial →
    AnsweredOrHeld (Runs.run step fresh events) t serial) ∧ ∀ a ∈ (Runs.run step fresh events).answers,
    (Runs.run step fresh events).accepted[a.ticket]? = some a.serial := by
  have hkept : Kept (Runs.run step fresh events) :=
    Runs.inv_run (fun _ _ hs hcan => kept_step hs (step_steps hcan)) events fresh kept_fresh hrun
  exact ⟨fun _ _ ht => hkept.answeredOrHeld ht, fun _ ha => hkept.answer_accepted ha⟩

/-- A world in which nothing holds a start back: the core runs and the kill switch is off. -/
def clearWorld : World :=
  { prepareExit := false, profileFound := true, groupAvailable := true, directDnsAuto := true,
    useDnsObject := false, serverName := "vpn.example", serverIsAddress := false,
    spmodeVpn := true, killSwitch := .disabled, killSwitchFailure := "",
    guardWindowExpired := false, haveProcess := true, coreRunning := true, guardIdentity := true,
    identityUnsupported := false, windows := false, awaitingCoreStarted := false,
    canStartCore := true, lastFailure := "", startedId := -1, rankBeforeStart := false,
    buildError := "", tunRestoreHeld := false, tunHoldWhy := "" }

/-- Two starts meet an arming kill switch after their DNS selections; the later one waits for a core
that crashed and runs when it is back. -/
def twoStarts : List Event :=
  [.start 5 true 1 clearWorld, .selected true { clearWorld with killSwitch := .arming }, .selectDeleted, .start 6 true 2 clearWorld,
    .selected true { clearWorld with killSwitch := .arming }, .selectDeleted,
    .settled { clearWorld with killSwitch := .armed, coreRunning := false },
    .coreStarted { clearWorld with killSwitch := .armed },
    .workerFinishes 0 ⟨false, true, true, "", false⟩, .workerUnlocks, .workerAnswers 0]

theorem starts_answered_once_two : (∀ t serial, (Runs.run step fresh twoStarts).accepted[t]? = some serial →
    AnsweredOrHeld (Runs.run step fresh twoStarts) t serial) ∧ ∀ a ∈ (Runs.run step fresh twoStarts).answers,
    (Runs.run step fresh twoStarts).accepted[a.ticket]? = some a.serial :=
  starts_answered_once twoStarts (by decide)

example : (Runs.run step fresh twoStarts).answers = [⟨0, 1, 5, .superseded, ""⟩, ⟨1, 2, 6, .started, ""⟩] := by decide

end Throne.Engine.Connection
