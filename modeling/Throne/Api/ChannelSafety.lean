import Throne.Api.ChannelCalls

/-!
# Calls get their own answer, and the channel knows whether it is up

What holds of a state of the channel and of every run that goes on from it: a call returns after at
most eight of its own steps and keeps its result, it succeeds only with the reply to its own request,
a reply of a replaced socket is handed to nobody, and only calls that have not returned stand in the
pending map (`Settled`). All of this holds in every run of fewer than `2 ^ 32` calls.

`connected_` tells the truth about the newest socket in the runs that are `Orderly`. It goes wrong
when `Reconnect` is given a socket that is already disconnected, when the newest socket disconnects
before its swap has run or before `Reconnect` has returned (nobody listens to its signal, or the
signal comes before the last store), and when the replaced socket disconnects between the return of
`Reconnect` and the swap (its handler clears the flag of the new socket).
-/

namespace Throne.Api

open Lib.Runs Lib.Lists List

/-! ## The invariant of every run -/

structure Inv (s : Chan) : Prop where
  ordered : Ordered s
  streams : Streams s
  numbered : Numbered s
  matched : Matched s

theorem inv_initial : Inv Chan.initial := ⟨ordered_initial, streams_initial, numbered_initial, matched_initial⟩

variable {s : Chan}

theorem inv_step (h : Inv s) (e : Event) (hfew : s.calls.length < 2 ^ 32) : Inv (step s e) where
  ordered := ordered_step h.ordered e
  streams := streams_step h.ordered h.streams e
  numbered := numbered_step h.ordered h.streams h.numbered e hfew
  matched := matched_step h.ordered h.streams h.numbered h.matched e

theorem pcs_length_le_step (h : Ordered s) (hs : Streams s) (e : Event) : s.pcs.length ≤ (step s e).pcs.length := by
  cases pcs_step h hs e with
  | same hpcs _ _ => rw [hpcs]
  | call hpcs _ _ =>
    rw [hpcs, length_append]
    omega
  | move c timedOut _ pc pc' _ hpcs _ _ => rw [hpcs, length_set]

/-- Calls are never forgotten, so a run of few calls has few calls at every step. -/
theorem few_along (es : List Event) (s : Chan) (h : Ordered s) (hs : Streams s) (hfew : (run step s es).calls.length < 2 ^ 32) :
    Along step (fun s _ => s.calls.length < 2 ^ 32) s es ∧ s.calls.length < 2 ^ 32 := by
  induction es generalizing s with
  | nil => exact ⟨trivial, hfew⟩
  | cons e es ih =>
    obtain ⟨hes, hnext⟩ := ih (step s e) (ordered_step h e) (streams_step h hs e) hfew
    have hle := pcs_length_le_step h hs e
    rw [pcs_length, pcs_length] at hle
    have hs' : s.calls.length < 2 ^ 32 := by omega
    exact ⟨⟨hs', hes⟩, hs'⟩

theorem inv_of_run (es : List Event) (hfew : (run step Chan.initial es).calls.length < 2 ^ 32) : Inv (run step Chan.initial es) := by
  refine inv_run (P := fun s _ => s.calls.length < 2 ^ 32) ?_ es _ inv_initial (few_along es _ ordered_initial streams_initial hfew).1
  intro s e h hs
  exact inv_step h e hs

/-! ## Calls return -/

/-- The step of a call whose wait, if it is in one, is over. -/
def Event.expires (c : Nat) : Event → Bool
  | .advance d timedOut => d = c && timedOut
  | _ => false

def Chan.Returns (s : Chan) (c : Nat) (id : Option UInt32) (code : Int) (rsp : Option (List UInt8)) : Prop :=
  s.pcs[c]? = some (.returned id code rsp)

variable {pc : Pc}

theorem returned_of_rank (h : pc.rank = 0) : ∃ id code rsp, pc = .returned id code rsp := by
  cases pc with
  | returned id code rsp => exact ⟨id, code, rsp, rfl⟩
  | load | number | register id | post id | wait id | reclaim id | waitAgain id | finish id ok => cases h

theorem isReturned_rank (h : pc.isReturned = true) : pc.rank = 0 := by
  cases pc with
  | returned id code rsp => rfl
  | _ => cases h

/-- No step takes a call back, and a step whose time is over takes it forward. -/
theorem rank_step (h : Ordered s) (hs : Streams s) (e : Event) {c : Nat} (hc : s.pcs[c]? = some pc) :
    ∃ pc', (step s e).pcs[c]? = some pc' ∧ pc'.rank ≤ pc.rank ∧
    (pc.rank = 0 → pc' = pc) ∧ (e.expires c = true → pc.rank ≠ 0 → pc'.rank < pc.rank) := by
  have hlt : c < s.pcs.length := (List.getElem?_eq_some_iff.1 hc).1
  cases pcs_step h hs e with
  | same hpcs _ hstuck =>
    refine ⟨pc, by rw [hpcs]; exact hc, le_refl _, fun _ => rfl, ?_⟩
    intro he hrank
    cases e with
    | advance d timedOut =>
      rw [Event.expires, Bool.and_eq_true, decide_eq_true_eq] at he
      obtain ⟨rfl, rfl⟩ := he
      exact absurd (isReturned_rank (hstuck d pc rfl hc)) hrank
    | _ => cases he
  | call hpcs _ hne =>
    refine ⟨pc, ?_, le_refl _, fun _ => rfl, ?_⟩
    · rw [hpcs]
      exact getElem?_append_some hc
    · intro he
      cases e with
      | advance d timedOut => exact absurd rfl (hne d timedOut)
      | _ => cases he
  | move d timedOut hadv pc₀ pc' hd hpcs hrank _ =>
    by_cases hdc : d = c
    · subst hdc
      have hpc : pc₀ = pc := Option.some.inj (hd.symm.trans hc)
      subst hpc
      refine ⟨pc', ?_, le_of_lt hrank, ?_, fun _ _ => hrank⟩
      · rw [hpcs, getElem?_set_self hlt]
      · intro hzero
        omega
    · refine ⟨pc, ?_, le_refl _, fun _ => rfl, ?_⟩
      · rw [hpcs, getElem?_set_ne hdc]
        exact hc
      · intro he
        subst hadv
        rw [Event.expires, Bool.and_eq_true, decide_eq_true_eq] at he
        exact absurd he.1 hdc

theorem rank_run (fs : List Event) (s : Chan) (h : Ordered s) (hs : Streams s) {c : Nat} (hc : s.pcs[c]? = some pc) :
    ∃ pc', (run step s fs).pcs[c]? = some pc' ∧ (pc.rank = 0 → pc' = pc) ∧ pc'.rank ≤ pc.rank - fs.countP (Event.expires c) := by
  induction fs generalizing s pc with
  | nil => exact ⟨pc, hc, fun _ => rfl, by simp⟩
  | cons e fs ih =>
    obtain ⟨pc₁, hc₁, hle, hstay, hless⟩ := rank_step h hs e hc
    obtain ⟨pc₂, hc₂, hstay₂, hle₂⟩ :=
      ih (step s e) (ordered_step h e) (streams_step h hs e) hc₁
    refine ⟨pc₂, hc₂, ?_, ?_⟩
    · intro hzero
      have hsame := hstay hzero
      rw [← hsame] at hzero
      rw [hstay₂ hzero, hsame]
    · rw [countP_cons]
      by_cases he : e.expires c = true
      · rw [if_pos he]
        by_cases hzero : pc.rank = 0
        · omega
        · have := hless he hzero
          omega
      · rw [if_neg he]
        omega

theorem rank_le (pc : Pc) : pc.rank ≤ 8 := by
  cases pc <;> simp [Pc.rank]

/-! ## Replies come from the installed socket -/

theorem sock_advance (c : Nat) (timedOut : Bool) : (advance c timedOut s).sock = s.sock := by
  generalize hadv : advance c timedOut s = t
  rcases advance_cases hadv with ⟨rfl, _⟩ | ⟨call, _, hstep⟩
  · rfl
  · cases hstep with
    | _ => rfl

/-- A socket that was replaced stays replaced. -/
theorem sock_step (h : Ordered s) (e : Event) {n : Nat} (hsock : s.sock = some n) : ∃ n', (step s e).sock = some n' ∧ n ≤ n' := by
  cases e with
  | call method payload | answer m i outcome => exact ⟨n, hsock, le_refl n⟩
  | advance c timedOut => exact ⟨n, (sock_advance c timedOut).trans hsock, le_refl n⟩
  | reconnect alive | disconnect m =>
    refine ⟨n, ?_, le_refl n⟩
    rw [step]
    split <;> exact hsock
  | reconnectStep =>
    refine ⟨n, ?_, le_refl n⟩
    rw [step, reconnectStep]
    split <;> exact hsock
  | io =>
    rw [step, io]
    cases hqueue : s.queue with
    | nil => exact ⟨n, hsock, le_refl n⟩
    | cons job jobs =>
      cases job with
      | swap m =>
        obtain ⟨conns, buf, pending, calls, heq, _⟩ := swap_frame m { s with queue := jobs }
        have hnewer := (h.swap_newer hqueue).2 n hsock
        refine ⟨m, ?_, le_of_lt hnewer⟩
        dsimp only
        rw [heq]
      | write req =>
        refine ⟨n, ?_, le_refl n⟩
        dsimp only
        rw [write]
        split <;> exact hsock
  | deliver m bytes =>
    refine ⟨n, ?_, le_refl n⟩
    rw [step]
    split
    · obtain ⟨conns, buf, pending, calls, heq, _⟩ :=
        onReadyRead_frame { s with conns := s.conns.modify m (Conn.arrive bytes) }
      rw [heq]
      exact hsock
    · exact hsock

theorem sock_run (fs : List Event) (s : Chan) (h : Ordered s) {n : Nat} (hsock : s.sock = some n) :
    ∃ n', (run step s fs).sock = some n' ∧ n ≤ n' := by
  induction fs generalizing s n with
  | nil => exact ⟨n, hsock, le_refl n⟩
  | cons e fs ih =>
    obtain ⟨n₁, hn₁, hle₁⟩ := sock_step h e hsock
    obtain ⟨n₂, hn₂, hle₂⟩ := ih (step s e) (ordered_step h e) hn₁
    exact ⟨n₂, hn₂, le_trans hle₁ hle₂⟩

/-- The steps of the io thread that read the socket. -/
def Event.reads : Event → Bool
  | .io => true
  | .deliver _ _ => true
  | _ => false

/-- A step that reads the socket changes a call only by a reply of the socket that is installed
after it. -/
theorem handed_step (h : Inv s) (e : Event) (he : e.reads = true) {c : Nat} {call' : Call}
    (hc : (step s e).calls[c]? = some call') : s.calls[c]? = some call' ∨ ∃ n, (step s e).sock = some n ∧
    (∀ m, s.sock = some m → m ≤ n) ∧ s.Handed n c call' := by
  cases e with
  | io =>
    rw [step, io] at hc ⊢
    cases hqueue : s.queue with
    | nil =>
      rw [hqueue] at hc
      exact .inl hc
    | cons job jobs =>
      rw [hqueue] at hc
      cases job with
      | write req =>
        left
        dsimp only at hc
        rw [write] at hc
        split at hc <;> exact hc
      | swap n =>
        obtain ⟨conns, buf, pending, calls, heq, _⟩ := swap_frame n { s with queue := jobs }
        obtain ⟨hord, hstr⟩ := install_inv h.ordered h.streams hqueue
        obtain ⟨hnum, hmat⟩ := matched_install_next h.numbered h.matched hqueue
        have hnewer := (h.ordered.swap_newer hqueue).2
        obtain ⟨closed, hinstall, _⟩ := install_frame { s with queue := jobs } n
        dsimp only at hc
        rw [swap] at hc
        split at hc
        · rw [hinstall] at hc
          exact .inl hc
        · rcases (onReadyRead_spec hord hstr hnum hmat).2 c call' hc with hsame | hhanded
          · rw [hinstall] at hsame
            exact .inl hsame
          · right
            obtain ⟨m, hm, k, r, call, data, hk, hr, hcall, hid, heq'⟩ := hhanded
            have hmn : n = m := by
              rw [hinstall] at hm
              exact Option.some.inj hm
            subst hmn
            have hcall' : s.calls[c]? = some call := by
              rw [hinstall] at hcall
              exact hcall
            refine ⟨n, ?_, fun m hm => le_of_lt (hnewer m hm), k, r, call, data, ?_, hr, hcall', hid, heq'⟩
            · dsimp only
              rw [heq]
            · exact install_conns (s := { s with queue := jobs }) hnewer hk
  | deliver n bytes =>
    obtain ⟨hord, hstr⟩ := arrive_inv h.ordered h.streams n bytes
    have hmat := matched_arrive h.matched n bytes
    rw [step] at hc ⊢
    split at hc
    · rename_i hsock
      rw [if_pos hsock]
      have hnum : Numbered { s with conns := s.conns.modify n (Conn.arrive bytes) } :=
        h.numbered.congr rfl rfl
      rcases (onReadyRead_spec hord hstr hnum hmat).2 c call' hc with hsame | hhanded
      · exact .inl hsame
      · right
        obtain ⟨m, hm, k', r, call, data, hk, hr, hcall, hid, heq'⟩ := hhanded
        have hmn : n = m := Option.some.inj (hsock.symm.trans hm)
        subst hmn
        obtain ⟨conns, buf, pending, calls, heq, _⟩ :=
          onReadyRead_frame { s with conns := s.conns.modify n (Conn.arrive bytes) }
        refine ⟨n, by rw [heq]; exact hsock, ?_, ?_⟩
        · intro m hm'
          have : n = m := Option.some.inj (hsock.symm.trans hm')
          omega
        · rcases getElem?_modify_some hk with ⟨_, k, hk', rfl⟩ | ⟨hne, _⟩
          · refine ⟨k, r, call, data, hk', ?_, hcall, hid, heq'⟩
            rw [Conn.arrive] at hr
            split at hr <;> exact hr
          · exact absurd rfl hne
    · exact .inl hc
  | call method payload | advance d timedOut | reconnect alive | reconnectStep | disconnect n
  | answer n i outcome => cases he

/-! ## The connection flag -/

/-- The newest socket given to `Reconnect` has not disconnected. -/
def Chan.newestUp (s : Chan) : Bool :=
  match s.conns.getLast? with
  | none => false
  | some k => !k.gone

structure Published (s : Chan) : Prop where
  idle : s.reconnecting = none → s.connected = s.newestUp
  busy : s.reconnecting ≠ none → s.connected = false ∧ s.newestUp = true

/-- The steps that keep `connected_` in line with the newest socket. `Reconnect` is given a socket
that is connected. The newest socket disconnects after its swap has run and `Reconnect` has
returned. Another installed socket disconnects while a `Reconnect` is under way. -/
def Orderly (s : Chan) : Event → Prop
  | .reconnect alive => s.reconnecting = none → alive = true
  | .disconnect n =>
    (s.conns[n]?).map Conn.gone = some false → if n + 1 = s.conns.length then s.sock = some n ∧ s.reconnecting = none
      else s.sock = some n → s.reconnecting ≠ none
  | _ => True

instance (s : Chan) : (e : Event) → Decidable (Orderly s e)
  | .reconnect alive => inferInstanceAs (Decidable (s.reconnecting = none → alive = true))
  | .disconnect n =>
    inferInstanceAs (Decidable ((s.conns[n]?).map Conn.gone = some false →
      if n + 1 = s.conns.length then s.sock = some n ∧ s.reconnecting = none
      else s.sock = some n → s.reconnecting ≠ none))
  | .call _ _ => isTrue trivial
  | .advance _ _ => isTrue trivial
  | .reconnectStep => isTrue trivial
  | .io => isTrue trivial
  | .deliver _ _ => isTrue trivial
  | .answer _ _ _ => isTrue trivial

theorem newestUp_eq (s : Chan) : s.newestUp = (((s.conns.map Conn.gone).getLast?).map not).getD false := by
  rw [Chan.newestUp, getLast?_map]
  cases s.conns.getLast? with
  | none | some k => rfl

theorem newestUp_congr {t : Chan} (h : t.conns.map Conn.gone = s.conns.map Conn.gone) : t.newestUp = s.newestUp := by
  rw [newestUp_eq, newestUp_eq, h]

/-- Another socket than the newest may close. -/
theorem newestUp_close {t : Chan} {n : Nat} (hconns : t.conns = s.conns.modify n Conn.close)
    (hn : n + 1 ≠ s.conns.length) : t.newestUp = s.newestUp := by
  have hlast : t.conns.getLast? = s.conns.getLast? := by
    rw [hconns, getLast?_eq_getElem?, getLast?_eq_getElem?, length_modify]
    by_cases hempty : s.conns = []
    · rw [hempty]
      simp
    · have hpos : 0 < s.conns.length := length_pos_iff.2 hempty
      exact getElem?_modify_ne _ _ (by omega)
  rw [Chan.newestUp, Chan.newestUp, hlast]

theorem published_initial : Published Chan.initial :=
  ⟨fun _ => rfl, fun h => absurd rfl h⟩

theorem Published.congr {t : Chan} (h : Published s) (hconn : t.connected = s.connected)
    (hrec : t.reconnecting = s.reconnecting) (hup : t.newestUp = s.newestUp) : Published t := by
  constructor
  · rw [hconn, hrec, hup]
    exact h.idle
  · rw [hconn, hrec, hup]
    exact h.busy

/-- Reading the socket and running a swap touch neither the flag nor the newest socket. -/
theorem published_io (hord : Ordered s) (h : Published s) : Published (io s) := by
  rw [io]
  cases hqueue : s.queue with
  | nil => exact h
  | cons job jobs =>
    cases job with
    | write req =>
      dsimp only
      rw [write]
      split
      · exact h.congr rfl rfl rfl
      · refine h.congr rfl rfl (newestUp_congr (map_gone_modify ?_))
        intro k
        rw [Conn.write]
        split <;> rfl
    | swap n =>
      obtain ⟨hknown, hnewer⟩ := hord.swap_newer hqueue
      -- The socket that is closed here is older than the one of this swap.
      have hinstall : Published (Chan.install { s with queue := jobs } n) := by
        rw [Chan.install]
        split
        · exact h.congr rfl rfl rfl
        · rename_i old hold
          refine h.congr rfl rfl (newestUp_close rfl ?_)
          have := hnewer old hold
          omega
      dsimp only
      rw [swap]
      split
      · exact hinstall
      · obtain ⟨conns, buf, pending, calls, heq, hgone⟩ :=
          onReadyRead_frame (Chan.install { s with queue := jobs } n)
        rw [heq]
        exact hinstall.congr rfl rfl (newestUp_congr hgone)

theorem published_step (hord : Ordered s) (h : Published s) {e : Event} (he : Orderly s e) : Published (step s e) := by
  cases e with
  | call method payload => exact h.congr rfl rfl rfl
  | advance c timedOut =>
    rw [step]
    generalize hadv : advance c timedOut s = t
    rcases advance_cases hadv with ⟨rfl, _⟩ | ⟨call, _, hstep⟩
    · exact h
    · cases hstep with
      | _ => exact h.congr rfl rfl rfl
  | reconnect alive =>
    rw [step]
    split
    · exact h
    · rename_i hnot
      have halive := he (by simpa using hnot)
      subst halive
      refine ⟨fun hnone => (by cases hnone), fun _ => ⟨rfl, ?_⟩⟩
      simp [Chan.newestUp, Conn.opened]
  | reconnectStep =>
    rw [step, reconnectStep]
    cases hrec : s.reconnecting with
    | none => exact h
    | some stage =>
      have hbusy := h.busy (by rw [hrec]; exact Option.some_ne_none stage)
      cases stage with
      | wake n | post n => exact ⟨fun hnone => (by cases hnone), fun _ => hbusy⟩
      | publish => exact ⟨fun _ => hbusy.2.symm, fun hsome => absurd rfl hsome⟩
  | io => exact published_io hord h
  | deliver n bytes =>
    have harrive : Published { s with conns := s.conns.modify n (Conn.arrive bytes) } := by
      refine h.congr rfl rfl (newestUp_congr (map_gone_modify ?_))
      intro k
      rw [Conn.arrive]
      split <;> rfl
    rw [step]
    split
    · obtain ⟨conns, buf, pending, calls, heq, hgone⟩ :=
        onReadyRead_frame { s with conns := s.conns.modify n (Conn.arrive bytes) }
      rw [heq]
      exact harrive.congr rfl rfl (newestUp_congr hgone)
    · exact harrive
  | disconnect n =>
    rw [step]
    by_cases hlive : (s.conns[n]?).map Conn.gone = some false
    · have hcase := he hlive
      by_cases hnewest : n + 1 = s.conns.length
      · -- The newest socket is installed, its handler clears the flag.
        rw [if_pos hnewest] at hcase
        rw [if_pos ⟨hcase.1, hlive⟩]
        refine ⟨fun _ => ?_, fun hbusy => absurd hcase.2 hbusy⟩
        have hdown : Chan.newestUp { s with conns := s.conns.modify n Conn.close } = false := by
          obtain ⟨k, hk, _⟩ := Option.map_eq_some_iff.1 hlive
          have hlast : (s.conns.modify n Conn.close).getLast? = some k.close := by
            rw [getLast?_eq_getElem?, length_modify, ← hnewest, Nat.add_sub_cancel]
            exact getElem?_modify_self hk
          rw [Chan.newestUp, hlast]
          rfl
        exact hdown.symm
      · rw [if_neg hnewest] at hcase
        have hup : Chan.newestUp { s with conns := s.conns.modify n Conn.close } = s.newestUp :=
          newestUp_close rfl hnewest
        split
        · -- An older socket is installed: the flag is cleared, and set by `Reconnect` later.
          rename_i hinst
          have hrec := hcase hinst.1
          have hbusy := h.busy hrec
          exact ⟨fun hnone => absurd hnone hrec, fun _ => ⟨rfl, hup.trans hbusy.2⟩⟩
        · exact h.congr rfl rfl hup
    · -- Nothing happens to a socket that is gone already.
      have hsame : (s.conns.modify n Conn.close).map Conn.gone = s.conns.map Conn.gone := by
        apply ext_getElem?
        intro m
        rw [getElem?_map, getElem?_map]
        by_cases hnm : n = m
        · subst hnm
          rw [getElem?_modify]
          cases hk : s.conns[n]? with
          | none => rfl
          | some k =>
            rw [hk, Option.map_some, Option.some.injEq, Bool.not_eq_false] at hlive
            simp [Conn.close, hlive]
        · rw [getElem?_modify_ne _ _ hnm]
      rw [if_neg (fun hinst => hlive hinst.2)]
      exact h.congr rfl rfl (newestUp_congr hsame)
  | answer n i outcome =>
    refine h.congr rfl rfl (newestUp_congr (map_gone_modify ?_))
    intro k
    rw [Conn.answer]
    cases k.requests[i]? with
    | none => rfl
    | some req =>
      dsimp only
      split <;> rfl

/-! ## Main result -/

/-- What holds of a reachable state and of every run that goes on from it. -/
structure Settled (s : Chan) : Prop where
  /-- Eight of its own steps whose time is over bring a call to its end, whatever else happens. -/
  returns : ∀ c, c < s.calls.length → ∀ fs, 8 ≤ fs.countP (Event.expires c) → ∃ id code rsp, (run step s fs).Returns c id code rsp
  /-- A call that has returned keeps its result. -/
  once : ∀ c id code rsp, s.Returns c id code rsp → ∀ fs, (run step s fs).Returns c id code rsp
  /-- A call succeeds with the core's reply to its own request. -/
  own : ∀ (c : Nat) call id rsp, s.calls[c]? = some call → call.pc = .returned id callOK rsp → ∃ data, rsp = some data ∧ s.Answer call data
  /-- Reading changes a call only by a reply of the installed socket. -/
  installed : ∀ e : Event, e.reads = true → ∀ (c : Nat) call', (step s e).calls[c]? = some call' → s.calls[c]? = some call' ∨
      ∃ n, (step s e).sock = some n ∧ (∀ m, s.sock = some m → m ≤ n) ∧ s.Handed n c call'
  /-- A replaced socket is never installed again. -/
  replaced : ∀ n, s.sock = some n → ∀ fs, ∃ n', (run step s fs).sock = some n' ∧ n ≤ n'
  /-- The pending map holds calls that have not returned. -/
  pending : ∀ p ∈ s.pending, ∃ call, s.calls[p.2]? = some call ∧ call.pc.isReturned = false

theorem registered_not_returned {id : UInt32} (h : pc.registered = some id) : pc.isReturned = false := by
  cases pc with
  | returned i code rsp => cases h
  | _ => rfl

theorem settled_of_inv (h : Inv s) : Settled s where
  returns := by
    intro c hc fs hcount
    rw [← pcs_length] at hc
    obtain ⟨pc', hpc', _, hrank⟩ :=
      rank_run fs s h.ordered h.streams (getElem?_eq_getElem hc)
    have hle := rank_le s.pcs[c]
    obtain ⟨id, code, rsp, rfl⟩ := returned_of_rank (show pc'.rank = 0 by omega)
    exact ⟨id, code, rsp, hpc'⟩
  once := by
    intro c id code rsp hret fs
    obtain ⟨pc', hpc', hstay, _⟩ := rank_run fs s h.ordered h.streams hret
    rw [Chan.Returns, hpc', hstay rfl]
  own := by
    intro c call id rsp hc hpc
    exact h.matched.returned c call id rsp hc hpc
  installed := by
    intro e he c call' hc
    exact handed_step h e he hc
  replaced := by
    intro n hn fs
    exact sock_run fs s h.ordered hn
  pending := by
    intro p hp
    obtain ⟨call, hc, _, hreg⟩ := h.matched.registered p hp
    exact ⟨call, hc, registered_not_returned hreg⟩

theorem published_of_run (es : List Event) (h : Along step Orderly Chan.initial es) : Published (run step Chan.initial es) := by
  have hkept : ∀ s e, Ordered s ∧ Published s → Orderly s e → Ordered (step s e) ∧ Published (step s e) :=
    fun s e hs he => ⟨ordered_step hs.1 e, published_step hs.1 hs.2 he⟩
  have hboth := inv_run hkept es Chan.initial ⟨ordered_initial, published_initial⟩ h
  exact hboth.2

/-- In every run of fewer than `2 ^ 32` calls the calls are settled; when its steps are orderly,
`connected_` is set exactly when no `Reconnect` is under way and the newest socket has not
disconnected. -/
theorem channel_settled (es : List Event) (hfew : (run step Chan.initial es).calls.length < 2 ^ 32)
    (horderly : Along step Orderly Chan.initial es) : Settled (run step Chan.initial es) ∧
    ((run step Chan.initial es).connected = true ↔ (run step Chan.initial es).reconnecting = none ∧
    (run step Chan.initial es).newestUp = true) := by
  refine ⟨settled_of_inv (inv_of_run es hfew), ?_⟩
  have hpub := published_of_run es horderly
  constructor
  · intro hconn
    have hidle : (run step Chan.initial es).reconnecting = none := by
      by_contra hbusy
      rw [(hpub.busy hbusy).1] at hconn
      cases hconn
    exact ⟨hidle, (hpub.idle hidle).symm.trans hconn⟩
  · rintro ⟨hidle, hup⟩
    exact (hpub.idle hidle).trans hup

/-- A core connects, a call is answered, the core goes away and another one connects. -/
def reconnected : List Event :=
  [.reconnect true, .reconnectStep, .reconnectStep, .reconnectStep, .io, .call "QueryStats" [],
    .advance 0 false, .advance 0 false, .advance 0 false, .advance 0 false, .io,
    .answer 0 0 (.ok ⟨[7], by decide⟩), .deliver 0 4, .deliver 0 6, .advance 0 false,
    .advance 0 false, .disconnect 0, .reconnect true, .reconnectStep, .reconnectStep,
    .reconnectStep, .io]

theorem channel_settled_reconnected : Along step Orderly Chan.initial reconnected ∧
    (run step Chan.initial reconnected).Returns 0 (some 1) callOK (some [7]) ∧ (run step Chan.initial reconnected).connected = true := by
  have horderly : Along step Orderly Chan.initial reconnected := by decide
  refine ⟨horderly, ?_, ?_⟩
  · rw [Chan.Returns]
    decide
  · exact (channel_settled reconnected (by decide) horderly).2.2 (by decide)

/-- The replaced socket disconnects after `Reconnect` has returned and before its swap. -/
def lateDisconnect : List Event :=
  [.reconnect true, .reconnectStep, .reconnectStep, .reconnectStep, .io, .reconnect true,
    .reconnectStep, .reconnectStep, .reconnectStep, .disconnect 0, .io]

/-- The queue is empty, no `Reconnect` is under way and the newest socket is up, but the channel
takes itself for disconnected. -/
theorem late_disconnect_clears_flag : (run step Chan.initial lateDisconnect).queue = [] ∧
    (run step Chan.initial lateDisconnect).reconnecting = none ∧ ¬((run step Chan.initial lateDisconnect).connected = true ↔
    (run step Chan.initial lateDisconnect).newestUp = true) := by
  decide

end Throne.Api
