import Throne.Api.ChannelStreams

/-!
# Calls of the RPC channel

Ids are drawn from one counter, so fewer than `2 ^ 32` calls draw distinct ids (`Numbered`). The
pending map holds calls that wait under their own id, every request on its way or at the core belongs
to the call that drew its id, and a call that has a reply with status 0 has the reply to its own
request (`Matched`). Both hold after every step, whatever the order of calls, replies, timeouts,
disconnects and reconnects.
-/

namespace Throne.Api

open Lib.Lists List

/-! ## Drawn ids -/

/-- Where each call stands. -/
def Chan.pcs (s : Chan) : List Pc := s.calls.map Call.pc

/-- The id of each call, if it has drawn one. -/
def Chan.ids (s : Chan) : List (Option UInt32) := s.pcs.map Pc.reqId

structure Numbered (s : Chan) : Prop where
  next : s.nextId.toNat = (1 + s.ids.countP Option.isSome) % 2 ^ 32
  range : ∀ (c : Nat) (id : UInt32), s.ids[c]? = some (some id) → 1 ≤ id.toNat ∧ id.toNat ≤ s.ids.countP Option.isSome
  distinct : ∀ (c c' : Nat) (id : UInt32), s.ids[c]? = some (some id) → s.ids[c']? = some (some id) → c = c'

theorem pcs_getElem? (s : Chan) (c : Nat) : s.pcs[c]? = (s.calls[c]?).map Call.pc := by
  rw [Chan.pcs, getElem?_map]

theorem pcs_length (s : Chan) : s.pcs.length = s.calls.length := length_map ..

theorem ids_getElem? (s : Chan) (c : Nat) : s.ids[c]? = (s.calls[c]?).map fun call => call.pc.reqId := by
  rw [Chan.ids, getElem?_map, pcs_getElem?, Option.map_map]
  rfl

theorem ids_length (s : Chan) : s.ids.length = s.calls.length := by
  rw [Chan.ids, length_map, pcs_length]

theorem numbered_initial : Numbered Chan.initial := by
  constructor
  · rfl
  · intro c id h
    cases h
  · intro c c' id h
    cases h

variable {s t : Chan}

theorem Numbered.congr (h : Numbered s) (hids : t.ids = s.ids) (hnext : t.nextId = s.nextId) : Numbered t := by
  constructor
  · rw [hids, hnext]
    exact h.next
  · rw [hids]
    exact h.range
  · rw [hids]
    exact h.distinct

variable {c n : Nat}

/-- The next id of fewer than `2 ^ 32` calls is new. -/
theorem Numbered.draw (h : Numbered s) (hfew : s.calls.length < 2 ^ 32) (hc : s.ids[c]? = some none)
    (hids : t.ids = s.ids.set c (some s.nextId)) (hnext : t.nextId = s.nextId + 1) : Numbered t := by
  have hlt : c < s.ids.length := (List.getElem?_eq_some_iff.1 hc).1
  have hcount : (s.ids.set c (some s.nextId)).countP Option.isSome = s.ids.countP Option.isSome + 1 := by
    simpa using countP_set (some s.nextId) Option.isSome hc
  -- The call that draws has no id, so fewer ids than calls were drawn.
  have hbound : s.ids.countP Option.isSome + 1 ≤ s.ids.length := by
    rw [← hcount]
    refine le_trans countP_le_length ?_
    rw [length_set]
  have hid : s.nextId.toNat = 1 + s.ids.countP Option.isSome := by
    have hnat := h.next
    rw [ids_length] at hbound
    omega
  have hold : ∀ d id, d ≠ c → t.ids[d]? = some (some id) → s.ids[d]? = some (some id) := by
    intro d id hd hdid
    rw [hids, getElem?_set_ne (Ne.symm hd)] at hdid
    exact hdid
  have hnew : ∀ id, t.ids[c]? = some (some id) → id = s.nextId := by
    intro id hcid
    rw [hids, getElem?_set_self hlt, Option.some.injEq, Option.some.injEq] at hcid
    exact hcid.symm
  constructor
  · rw [hids, hcount, hnext, UInt32.toNat_add, hid]
    rfl
  · intro d id hd
    rw [hids, hcount]
    by_cases hdc : d = c
    · subst hdc
      rw [hnew id hd, hid]
      omega
    · have := h.range d id (hold d id hdc hd)
      omega
  · intro d d' id hd hd'
    by_cases hdc : d = c
    · by_cases hdc' : d' = c
      · rw [hdc, hdc']
      · subst hdc
        have hrange := h.range d' id (hold d' id hdc' hd')
        rw [hnew id hd, hid] at hrange
        omega
    · by_cases hdc' : d' = c
      · subst hdc'
        have hrange := h.range d id (hold d id hdc hd)
        rw [hnew id hd', hid] at hrange
        omega
      · exact h.distinct d d' id (hold d id hdc hd) (hold d' id hdc' hd')

/-! ## Where the calls stand -/

/-- The steps a call needs at most until it returns. -/
def Pc.rank : Pc → Nat
  | .load => 8
  | .number => 7
  | .register _ => 6
  | .post _ => 5
  | .wait _ => 4
  | .reclaim _ => 3
  | .waitAgain _ => 2
  | .finish _ _ => 1
  | .returned _ _ _ => 0

/-- What one step does to the places where the calls stand. -/
inductive PcsStep (s t : Chan) (e : Event) : Prop
  | same (hpcs : t.pcs = s.pcs) (hnext : t.nextId = s.nextId)
      (hstuck : ∀ (c : Nat) pc, e = .advance c true → s.pcs[c]? = some pc → pc.isReturned = true)
  | call (hpcs : t.pcs = s.pcs ++ [.load]) (hnext : t.nextId = s.nextId)
      (he : ∀ c timedOut, e ≠ .advance c timedOut)
  | move (c : Nat) (timedOut : Bool) (he : e = .advance c timedOut) (pc pc' : Pc)
      (hc : s.pcs[c]? = some pc) (hpcs : t.pcs = s.pcs.set c pc') (hrank : pc'.rank < pc.rank)
      (hid : (pc'.reqId = pc.reqId ∧ t.nextId = s.nextId) ∨ (pc.reqId = none ∧ pc'.reqId = some s.nextId ∧ t.nextId = s.nextId + 1))

theorem map_pc_eq {l l' : List Call} (h : ∀ c : Nat, (l[c]?).map Call.pc = (l'[c]?).map Call.pc) : l.map Call.pc = l'.map Call.pc := by
  apply ext_getElem?
  intro c
  rw [getElem?_map, getElem?_map]
  exact h c

theorem complete_pcs (id : UInt32) (status : UInt8) (data : List UInt8) (s : Chan) :
    (complete id status data s).pcs = s.pcs ∧ (complete id status data s).nextId = s.nextId := by
  rw [complete]
  split
  · exact ⟨rfl, rfl⟩
  · refine ⟨map_pc_eq ?_, rfl⟩
    intro d
    rw [getElem?_modify]
    cases s.calls[d]? with
    | none => rfl
    | some call =>
      simp only [Option.map_eq_map, Option.map_some]
      split <;> rfl

theorem wake_pcs (s : Chan) : (wake s).pcs = s.pcs := by
  apply map_pc_eq
  intro d
  rw [wake, getElem?_mapIdx]
  cases s.calls[d]? with
  | none => rfl
  | some call =>
    simp only [Option.map_some]
    split <;> rfl

variable {call : Call} {pc : Pc}

theorem goto_pcs (hc : s.calls[c]? = some call) : (s.goto c pc).pcs = s.pcs.set c pc := by
  apply ext_getElem?
  intro d
  rw [pcs_getElem?]
  by_cases hcd : c = d
  · subst hcd
    have hlt : c < s.pcs.length := by
      rw [pcs_length]
      exact (List.getElem?_eq_some_iff.1 hc).1
    rw [getElem?_set_self hlt, Chan.goto, getElem?_modify_self hc]
    rfl
  · rw [getElem?_set_ne hcd, Chan.goto, getElem?_modify_ne _ _ hcd, pcs_getElem?]

variable {timedOut : Bool}

/-- A step of a call that keeps its id. -/
theorem PcsStep.keeping (hc : s.calls[c]? = some call) (hpcs : t.pcs = (s.goto c pc).pcs)
    (hrank : pc.rank < call.pc.rank) (hid : pc.reqId = call.pc.reqId) (hnext : t.nextId = s.nextId) : PcsStep s t (.advance c timedOut) := by
  have hpc : s.pcs[c]? = some call.pc := by
    rw [pcs_getElem?, hc]
    rfl
  exact .move c timedOut rfl call.pc pc hpc (hpcs.trans (goto_pcs hc)) hrank (.inl ⟨hid, hnext⟩)

theorem advance_pcs (h : advance c timedOut s = t) : PcsStep s t (.advance c timedOut) := by
  rcases advance_cases h with ⟨rfl, hstuck⟩ | ⟨call, hc, hstep⟩
  · refine .same rfl rfl ?_
    rintro d pc ⟨⟩ hpc
    rw [pcs_getElem?, Option.map_eq_some_iff] at hpc
    obtain ⟨call, hc, rfl⟩ := hpc
    exact hstuck rfl call hc
  · cases hstep with
    | enter hpc hup =>
      exact .keeping hc rfl (by rw [hpc]; exact Nat.lt_succ_self 7) (by rw [hpc]; rfl) rfl
    | refuse hpc hdown =>
      exact .keeping hc rfl (by rw [hpc]; exact Nat.succ_pos 7) (by rw [hpc]; rfl) rfl
    | number hpc =>
      have hnumber : s.pcs[c]? = some .number := by
        rw [pcs_getElem?, hc, Option.map_some, hpc]
      exact .move c timedOut rfl .number _ hnumber (goto_pcs hc) (Nat.lt_succ_self 6) (.inr ⟨rfl, rfl, rfl⟩)
    | register id hpc =>
      exact .keeping hc rfl (by rw [hpc]; exact Nat.lt_succ_self 5) (by rw [hpc]; rfl) rfl
    | post id hpc =>
      exact .keeping hc rfl (by rw [hpc]; exact Nat.lt_succ_self 4) (by rw [hpc]; rfl) rfl
    | woken id hpc hdone =>
      rcases hpc with hpc | hpc
      all_goals exact .keeping hc rfl (by rw [hpc, Pc.rank, Pc.rank]; omega) (by rw [hpc]; rfl) rfl
    | expire id hpc hdone =>
      exact .keeping hc rfl (by rw [hpc]; exact Nat.lt_succ_self 3) (by rw [hpc]; rfl) rfl
    | reclaim id hpc =>
      exact .keeping hc rfl (by rw [hpc, Pc.rank, Pc.rank]; omega) (by rw [hpc]; rfl) rfl
    | claimed id hpc hnone =>
      exact .keeping hc rfl (by rw [hpc]; exact Nat.lt_succ_self 2) (by rw [hpc]; rfl) rfl
    | giveUp id hpc =>
      exact .keeping hc rfl (by rw [hpc]; exact Nat.lt_succ_self 1) (by rw [hpc]; rfl) rfl
    | finish id ok hpc =>
      exact .keeping hc rfl (by rw [hpc]; exact Nat.lt_succ_self 0) (by rw [hpc]; rfl) rfl

theorem onReadyRead_pcs (h : Ordered s) (hs : Streams s) : (onReadyRead s).pcs = s.pcs ∧ (onReadyRead s).nextId = s.nextId := by
  refine onReadyRead_rule (P := fun t => t.pcs = s.pcs ∧ t.nextId = s.nextId) hs h.sock_known (fun _ _ => ⟨rfl, rfl⟩) (fun _ => ⟨rfl, rfl⟩) ?_
  intro n k t r data buf _ _ _ _ ht
  have hcomplete := complete_pcs r.id r.status data { t with readBuf := buf }
  exact ⟨hcomplete.1.trans ht.1, hcomplete.2.trans ht.2⟩

theorem swap_pcs (h : Ordered (s.install n)) (hs : Streams (s.install n)) : (swap n s).pcs = s.pcs ∧ (swap n s).nextId = s.nextId := by
  obtain ⟨conns, hinstall, _⟩ := install_frame s n
  have hkeep : (s.install n).pcs = s.pcs ∧ (s.install n).nextId = s.nextId := by
    rw [hinstall]
    exact ⟨rfl, rfl⟩
  rw [swap]
  split
  · exact hkeep
  · have hread := onReadyRead_pcs h hs
    exact ⟨hread.1.trans hkeep.1, hread.2.trans hkeep.2⟩

/-- The state right after a swap has installed its socket. -/
theorem install_inv {jobs : List Job} (h : Ordered s) (hs : Streams s)
    (hqueue : s.queue = .swap n :: jobs) : Ordered (Chan.install { s with queue := jobs } n) ∧
      Streams (Chan.install { s with queue := jobs } n) := by
  obtain ⟨_, hnewer⟩ := h.swap_newer hqueue
  refine ⟨?_, streams_install (hs.congr rfl rfl rfl) hnewer⟩
  obtain ⟨conns, hinstall, hlen⟩ := install_frame { s with queue := jobs } n
  rw [hinstall]
  exact h.of_sublist (sockets_swap hqueue rfl rfl rfl) hlen

theorem arrive_inv (h : Ordered s) (hs : Streams s) (n bytes : Nat) : Ordered { s with conns := s.conns.modify n (Conn.arrive bytes) } ∧
      Streams { s with conns := s.conns.modify n (Conn.arrive bytes) } :=
  ⟨h.of_sublist (List.Sublist.refl _) (length_modify ..), hs.modify rfl rfl rfl (arrive_streams bytes)⟩

/-- A step of anything but a call leaves the calls where they stand. -/
theorem pcs_step (h : Ordered s) (hs : Streams s) (e : Event) : PcsStep s (step s e) e := by
  cases e with
  | call method payload =>
    refine .call ?_ rfl ?_
    · simp [step, Chan.pcs, Call.opened]
    · rintro c timedOut ⟨⟩
  | advance c timedOut => exact advance_pcs rfl
  | reconnect alive =>
    rw [step]
    split <;> exact .same rfl rfl (by rintro c pc ⟨⟩)
  | reconnectStep =>
    rw [step, reconnectStep]
    cases s.reconnecting with
    | none => exact .same rfl rfl (by rintro c pc ⟨⟩)
    | some stage =>
      cases stage with
      | wake n => exact .same (wake_pcs s) rfl (by rintro c pc ⟨⟩)
      | post n | publish => exact .same rfl rfl (by rintro c pc ⟨⟩)
  | io =>
    rw [step, io]
    cases hqueue : s.queue with
    | nil => exact .same rfl rfl (by rintro c pc ⟨⟩)
    | cons job jobs =>
      cases job with
      | swap n =>
        obtain ⟨hord, hstr⟩ := install_inv h hs hqueue
        have hswap := swap_pcs hord hstr
        exact .same hswap.1 hswap.2 (by rintro c pc ⟨⟩)
      | write req =>
        dsimp only
        rw [write]
        split <;> exact .same rfl rfl (by rintro c pc ⟨⟩)
  | deliver n bytes =>
    obtain ⟨hord, hstr⟩ := arrive_inv h hs n bytes
    rw [step]
    split
    · have hread := onReadyRead_pcs hord hstr
      exact .same hread.1 hread.2 (by rintro c pc ⟨⟩)
    · exact .same rfl rfl (by rintro c pc ⟨⟩)
  | disconnect n =>
    rw [step]
    split
    · exact .same (wake_pcs _) rfl (by rintro c pc ⟨⟩)
    · exact .same rfl rfl (by rintro c pc ⟨⟩)
  | answer n i outcome => exact .same rfl rfl (by rintro c pc ⟨⟩)

theorem numbered_step (h : Ordered s) (hs : Streams s) (hn : Numbered s) (e : Event) (hfew : s.calls.length < 2 ^ 32) : Numbered (step s e) := by
  cases pcs_step h hs e with
  | same hpcs hnext _ => exact hn.congr (by rw [Chan.ids, hpcs, Chan.ids]) hnext
  | move c timedOut _ pc pc' hc hpcs _ hid =>
    have hids : (step s e).ids = s.ids.set c pc'.reqId := by
      rw [Chan.ids, hpcs, map_set, Chan.ids]
    have hcid : s.ids[c]? = some pc.reqId := by
      rw [Chan.ids, getElem?_map, hc]
      rfl
    rcases hid with ⟨hsame, hnext⟩ | ⟨hnone, hdrawn, hnext⟩
    · refine hn.congr ?_ hnext
      rw [hids, hsame]
      obtain ⟨hlt, hget⟩ := List.getElem?_eq_some_iff.1 hcid
      rw [← hget, set_getElem_self]
    · rw [hnone] at hcid
      rw [hdrawn] at hids
      exact hn.draw hfew hcid hids hnext
  | call hpcs hnext _ =>
    -- A call that has just been entered has no id.
    have hids : (step s e).ids = s.ids ++ [none] := by
      rw [Chan.ids, hpcs, map_append, Chan.ids]
      rfl
    have hcount : (step s e).ids.countP Option.isSome = s.ids.countP Option.isSome := by
      rw [hids]
      simp
    have hold : ∀ (c : Nat) (id : UInt32), (step s e).ids[c]? = some (some id) → s.ids[c]? = some (some id) := by
      intro c id hc
      rw [hids] at hc
      rcases getElem?_concat_some hc with hold | ⟨_, hnew⟩
      · exact hold
      · cases hnew
    constructor
    · rw [hcount, hnext]
      exact hn.next
    · intro c id hc
      rw [hcount]
      exact hn.range c id (hold c id hc)
    · intro c c' id hc hc'
      exact hn.distinct c c' id (hold c id hc) (hold c' id hc')

/-! ## Replies and requests -/

/-- The id under which a call may stand in the pending map. -/
def Pc.registered : Pc → Option UInt32
  | .post id => some id
  | .wait id => some id
  | .reclaim id => some id
  | _ => none

/-- A call that has not been registered yet. -/
def Pc.fresh : Pc → Bool
  | .load => true
  | .number => true
  | .register _ => true
  | _ => false

/-- A request on its way to a connection or written to one. -/
def Chan.Asked (s : Chan) (req : Request) : Prop := Job.write req ∈ s.queue ∨ ∃ (n : Nat) (k : Conn), s.conns[n]? = some k ∧ req ∈ k.requests

/-- The core answered `req` with `r`. -/
def Chan.Replied (s : Chan) (req : Request) (r : Reply) : Prop :=
  ∃ (n : Nat) (k : Conn) (i : Nat), s.conns[n]? = some k ∧ (i, r) ∈ k.answers ∧ k.requests[i]? = some req ∧ r.id = req.id

/-- `data` is the content of a successful reply of the core to the call's own request. The cut of
`processBuffer` is exact below 2 GiB. -/
def Chan.Answer (s : Chan) (call : Call) (data : List UInt8) : Prop :=
  ∃ req r, call.request = some req ∧ s.Replied req r ∧ r.status = 0 ∧ (r.data.val.length < 2 ^ 31 → data = r.data.val)

structure Matched (s : Chan) : Prop where
  registered : ∀ p ∈ s.pending, ∃ call, s.calls[p.2]? = some call ∧ call.done = false ∧ call.pc.registered = some p.1
  fresh : ∀ (c : Nat) call, s.calls[c]? = some call → call.pc.fresh = true → call.done = false
  asked : ∀ req, s.Asked req → ∃ (c : Nat) (call : Call), s.calls[c]? = some call ∧ call.request = some req
  answered : ∀ (n : Nat) k, s.conns[n]? = some k → ∀ a ∈ k.answers, ∃ req, k.requests[a.1]? = some req ∧ a.2.id = req.id
  replied : ∀ (c : Nat) call, s.calls[c]? = some call → call.status = 0 → s.Answer call call.data
  returned : ∀ (c : Nat) call id rsp, s.calls[c]? = some call → call.pc = .returned id callOK rsp → ∃ data, rsp = some data ∧ s.Answer call data

theorem matched_initial : Matched Chan.initial := by
  constructor
  · intro p hp
    cases hp
  · intro c call hc
    cases hc
  · rintro req (hq | ⟨n, k, hk, _⟩)
    · cases hq
    · cases hk
  · intro n k hk
    cases hk
  · intro c call hc
    cases hc
  · intro c call id rsp hc
    cases hc

theorem Chan.Answer.congr {call' : Call} {data : List UInt8} (h : s.Answer call data)
    (hreq : call'.request = call.request) (hmono : ∀ req r, s.Replied req r → t.Replied req r) : t.Answer call' data := by
  obtain ⟨req, r, hcall, hr, hstatus, hdata⟩ := h
  exact ⟨req, r, hreq.trans hcall, hmono req r hr, hstatus, hdata⟩

/-- Steps of the world: connections grow, calls and the pending map stay. -/
theorem Matched.world (h : Matched s) (hcalls : t.calls = s.calls)
    (hpending : t.pending = s.pending) (hasked : ∀ req, t.Asked req → s.Asked req) (hmono : ∀ req r, s.Replied req r → t.Replied req r)
    (hanswered : ∀ (n : Nat) k, t.conns[n]? = some k → ∀ a ∈ k.answers, ∃ req, k.requests[a.1]? = some req ∧ a.2.id = req.id) : Matched t := by
  constructor
  · rw [hcalls, hpending]
    exact h.registered
  · rw [hcalls]
    exact h.fresh
  · intro req hreq
    rw [hcalls]
    exact h.asked req (hasked req hreq)
  · exact hanswered
  · intro c call hc hstatus
    rw [hcalls] at hc
    exact (h.replied c call hc hstatus).congr rfl hmono
  · intro c call id rsp hc hpc
    rw [hcalls] at hc
    obtain ⟨data, hrsp, hans⟩ := h.returned c call id rsp hc hpc
    exact ⟨data, hrsp, hans.congr rfl hmono⟩

/-- A connection only gains requests and replies. -/
def Conn.Grows (k k' : Conn) : Prop := (∃ more, k'.requests = k.requests ++ more) ∧ ∃ new, k'.answers = k.answers ++ new

theorem Conn.Grows.of_same {k k' : Conn} (hreq : k'.requests = k.requests) (hans : k'.answers = k.answers) : k.Grows k' :=
  ⟨⟨[], by rw [hreq, append_nil]⟩, [], by rw [hans, append_nil]⟩

theorem replied_modify {f : Conn → Conn} (hconns : t.conns = s.conns.modify n f)
    (hf : ∀ k : Conn, k.Grows (f k)) (req : Request) (r : Reply) (h : s.Replied req r) : t.Replied req r := by
  obtain ⟨m, k, i, hk, hans, hreq, hid⟩ := h
  by_cases hnm : n = m
  · subst hnm
    obtain ⟨⟨more, hmore⟩, new, hnew⟩ := hf k
    refine ⟨n, f k, i, ?_, ?_, ?_, hid⟩
    · rw [hconns]
      exact getElem?_modify_self hk
    · rw [hnew]
      exact mem_append_left new hans
    · rw [hmore]
      exact getElem?_append_some hreq
  · refine ⟨m, k, i, ?_, hans, hreq, hid⟩
    rw [hconns, getElem?_modify_ne _ _ hnm]
    exact hk

/-- A step on one connection that asks nothing new and answers requests under their ids. -/
theorem Matched.modify {f : Conn → Conn} (h : Matched s) (hcalls : t.calls = s.calls) (hpending : t.pending = s.pending)
    (hconns : t.conns = s.conns.modify n f) (hf : ∀ k : Conn, k.Grows (f k))
    (hqueue : ∀ req, Job.write req ∈ t.queue → Job.write req ∈ s.queue) (hreqs : ∀ k, ∀ req ∈ (f k).requests, req ∈ k.requests ∨ s.Asked req)
    (hans : ∀ k, (∀ a ∈ k.answers, ∃ req, k.requests[a.1]? = some req ∧ a.2.id = req.id) →
    ∀ a ∈ (f k).answers, ∃ req, (f k).requests[a.1]? = some req ∧ a.2.id = req.id) : Matched t := by
  refine h.world hcalls hpending ?_ (replied_modify hconns hf) ?_
  · rintro req (hq | ⟨m, k', hk', hreq⟩)
    · exact .inl (hqueue req hq)
    · rw [hconns] at hk'
      rcases getElem?_modify_some hk' with ⟨rfl, k, hk, rfl⟩ | ⟨_, hk⟩
      · rcases hreqs k req hreq with hold | hasked
        · exact .inr ⟨n, k, hk, hold⟩
        · exact hasked
      · exact .inr ⟨m, k', hk, hreq⟩
  · intro m k' hk'
    rw [hconns] at hk'
    rcases getElem?_modify_some hk' with ⟨rfl, k, hk, rfl⟩ | ⟨_, hk⟩
    · exact hans k (h.answered n k hk)
    · exact h.answered m k' hk

/-- A step on one connection that leaves its requests and answers alone. -/
theorem Matched.touch {f : Conn → Conn} (h : Matched s) (hcalls : t.calls = s.calls)
    (hpending : t.pending = s.pending) (hconns : t.conns = s.conns.modify n f)
    (hf : ∀ k, (f k).requests = k.requests ∧ (f k).answers = k.answers)
    (hqueue : ∀ req, Job.write req ∈ t.queue → Job.write req ∈ s.queue) : Matched t := by
  refine h.modify hcalls hpending hconns (fun k => .of_same (hf k).1 (hf k).2) hqueue ?_ ?_
  · intro k req hreq
    rw [(hf k).1] at hreq
    exact .inl hreq
  · intro k hk
    rw [(hf k).1, (hf k).2]
    exact hk

/-- A step of the `c`-th call that moves it to `pc`. -/
theorem Matched.goto (h : Matched s) (hc : s.calls[c]? = some call) (hcalls : t.calls = (s.goto c pc).calls) (hconns : t.conns = s.conns)
    (hid : ∀ id, call.pc.reqId = some id → pc.reqId = some id) (hfresh : pc.fresh = true → call.pc.fresh = true)
    (hpending : ∀ p ∈ t.pending, (p ∈ s.pending ∧ p.2 ≠ c) ∨ (p.2 = c ∧ call.done = false ∧ pc.registered = some p.1))
    (hqueue : ∀ req, Job.write req ∈ t.queue → Job.write req ∈ s.queue ∨ call.request = some req)
    (hreturn : ∀ id rsp, pc = .returned id callOK rsp → call.status = 0 ∧ rsp = some call.data) : Matched t := by
  have hself : t.calls[c]? = some { call with pc := pc } := by
    rw [hcalls]
    exact getElem?_modify_self hc
  -- What the call has asked under its id, it still asks.
  have hrequest : ∀ req, call.request = some req → Call.request { call with pc := pc } = some req := by
    intro req hreq
    rw [Call.request, Option.map_eq_some_iff] at hreq
    obtain ⟨id, hcid, rfl⟩ := hreq
    rw [Call.request, hid id hcid]
    rfl
  have hkeep : ∀ data, s.Answer call data → t.Answer { call with pc := pc } data := by
    rintro data ⟨req, r, hreq, hr, hrest⟩
    refine ⟨req, r, hrequest req hreq, ?_, hrest⟩
    rw [Chan.Replied, hconns]
    exact hr
  have hmono : ∀ call' data, s.Answer call' data → t.Answer call' data := by
    intro call' data hans
    refine hans.congr rfl ?_
    intro req r hr
    rw [Chan.Replied, hconns]
    exact hr
  have hothers : ∀ (d : Nat) call', t.calls[d]? = some call' → (d = c ∧ call' = { call with pc := pc }) ∨ (d ≠ c ∧ s.calls[d]? = some call') := by
    intro d call' hd
    by_cases hdc : d = c
    · subst hdc
      exact .inl ⟨rfl, Option.some.inj (hd.symm.trans hself)⟩
    · right
      rw [hcalls, Chan.goto, getElem?_modify_ne _ _ (Ne.symm hdc)] at hd
      exact ⟨hdc, hd⟩
  constructor
  · intro p hp
    rcases hpending p hp with ⟨hold, hne⟩ | ⟨heq, hdone, hreg⟩
    · obtain ⟨call', hcall', hrest⟩ := h.registered p hold
      refine ⟨call', ?_, hrest⟩
      rw [hcalls, Chan.goto, getElem?_modify_ne _ _ (Ne.symm hne)]
      exact hcall'
    · rw [heq]
      exact ⟨_, hself, hdone, hreg⟩
  · intro d call' hd hf
    rcases hothers d call' hd with ⟨rfl, rfl⟩ | ⟨_, hold⟩
    · exact h.fresh d call hc (hfresh hf)
    · exact h.fresh d call' hold hf
  · intro req hreq
    have hsource : s.Asked req ∨ call.request = some req := by
      rcases hreq with hq | ⟨n, k, hk, hmem⟩
      · rcases hqueue req hq with hold | hown
        · exact .inl (.inl hold)
        · exact .inr hown
      · rw [hconns] at hk
        exact .inl (.inr ⟨n, k, hk, hmem⟩)
    rcases hsource with hasked | hown
    · obtain ⟨d, call', hd, hcall'⟩ := h.asked req hasked
      by_cases hdc : d = c
      · subst hdc
        have : call' = call := Option.some.inj (hd.symm.trans hc)
        subst this
        exact ⟨d, _, hself, hrequest req hcall'⟩
      · refine ⟨d, call', ?_, hcall'⟩
        rw [hcalls, Chan.goto, getElem?_modify_ne _ _ (Ne.symm hdc)]
        exact hd
    · exact ⟨c, _, hself, hrequest req hown⟩
  · rw [hconns]
    exact h.answered
  · intro d call' hd hstatus
    rcases hothers d call' hd with ⟨rfl, rfl⟩ | ⟨_, hold⟩
    · exact hkeep _ (h.replied d call hc hstatus)
    · exact hmono _ _ (h.replied d call' hold hstatus)
  · intro d call' id rsp hd hpc
    rcases hothers d call' hd with ⟨rfl, rfl⟩ | ⟨_, hold⟩
    · obtain ⟨hstatus, hrsp⟩ := hreturn id rsp hpc
      exact ⟨call.data, hrsp, hkeep _ (h.replied d call hc hstatus)⟩
    · obtain ⟨data, hrsp, hans⟩ := h.returned d call' id rsp hold hpc
      exact ⟨data, hrsp, hmono _ _ hans⟩

theorem registered_not_fresh {id : UInt32} (h : pc.registered = some id) : pc.fresh ≠ true := by
  cases pc with
  | load | number | register i | waitAgain i | finish i ok | returned i code rsp => cases h
  | post i | wait i | reclaim i => simp [Pc.fresh]

/-- A registered call is told that the channel is down: it keeps its status. -/
theorem Matched.wake {s : Chan} (h : Matched s) : Matched (wake s) := by
  have hcall : ∀ (c : Nat) call', (Api.wake s).calls[c]? = some call' →
      ∃ call, s.calls[c]? = some call ∧ call'.request = call.request ∧ call'.pc = call.pc ∧ call'.status = call.status ∧ call'.data = call.data := by
    intro c call' hc
    rw [Api.wake, getElem?_mapIdx, Option.map_eq_some_iff] at hc
    obtain ⟨call, hc, rfl⟩ := hc
    refine ⟨call, hc, ?_⟩
    split <;> exact ⟨rfl, rfl, rfl, rfl⟩
  constructor
  · intro p hp
    cases hp
  · intro c call' hc hf
    rw [Api.wake, getElem?_mapIdx, Option.map_eq_some_iff] at hc
    obtain ⟨call, hc, rfl⟩ := hc
    split
    · rename_i hmem
      -- A call in the pending map has been registered.
      obtain ⟨p, hp, rfl⟩ := mem_map.1 hmem
      obtain ⟨call', hc', _, hreg⟩ := h.registered p hp
      have hsame : call' = call := Option.some.inj (hc'.symm.trans hc)
      subst hsame
      rw [if_pos hmem] at hf
      exact absurd hf (registered_not_fresh hreg)
    · rename_i hmem
      rw [if_neg hmem] at hf
      exact h.fresh c call hc hf
  · intro req hreq
    obtain ⟨c, call, hc, hown⟩ := h.asked req hreq
    have hnew : (Api.wake s).calls[c]? = some (if c ∈ s.pending.map Prod.snd then { call with done := true } else call) := by
      rw [Api.wake, getElem?_mapIdx, hc]
      rfl
    refine ⟨c, _, hnew, ?_⟩
    split <;> exact hown
  · exact h.answered
  · intro c call' hc hstatus
    obtain ⟨call, hold, hreq, _, hst, hdata⟩ := hcall c call' hc
    rw [hst] at hstatus
    rw [hdata]
    exact (h.replied c call hold hstatus).congr hreq fun _ _ hr => hr
  · intro c call' id rsp hc hpc
    obtain ⟨call, hold, hreq, hpc', _⟩ := hcall c call' hc
    rw [hpc'] at hpc
    obtain ⟨data, hrsp, hans⟩ := h.returned c call id rsp hold hpc
    exact ⟨data, hrsp, hans.congr hreq fun _ _ hr => hr⟩

theorem registered_reqId {id : UInt32} (h : pc.registered = some id) : pc.reqId = some id := by
  cases pc with
  | post i | wait i | reclaim i => exact h
  | load | number | register i | waitAgain i | finish i ok | returned i code rsp => cases h

/-- The call registered under the id of a reply is the one that asked the answered request. -/
theorem Matched.owner (h : Matched s) (hn : Numbered s) {k : Conn} {r : Reply}
    (hk : s.conns[n]? = some k) (hr : r ∈ k.replies) {p : UInt32 × Nat} (hp : p ∈ s.pending)
    (hpr : p.1 = r.id) : ∃ call req, s.calls[p.2]? = some call ∧ call.pc.registered = some r.id ∧
    call.request = some req ∧ s.Replied req r := by
  obtain ⟨call, hcall, _, hreg⟩ := h.registered p hp
  obtain ⟨⟨i, r'⟩, hmem, rfl⟩ := mem_map.1 hr
  obtain ⟨req, hreq, hid⟩ := h.answered n k hk _ hmem
  obtain ⟨d, call', hd, hown⟩ := h.asked req (.inr ⟨n, k, hk, mem_of_getElem? hreq⟩)
  rw [hpr] at hreg
  have hsame : d = p.2 := by
    apply hn.distinct d p.2 r'.id
    · rw [ids_getElem?, hd]
      rw [Call.request, Option.map_eq_some_iff] at hown
      obtain ⟨id, hcid, rfl⟩ := hown
      exact congrArg some (hcid.trans (congrArg some hid.symm))
    · rw [ids_getElem?, hcall]
      exact congrArg some (registered_reqId hreg)
  subst hsame
  have hcc : call' = call := Option.some.inj (hd.symm.trans hcall)
  subst hcc
  exact ⟨call', req, hd, hreg, hown, n, k, i, hk, hmem, hreq, hid⟩

theorem mem_removePending {id : UInt32} {pending : List (UInt32 × Nat)} {p : UInt32 × Nat} :
    p ∈ removePending id pending ↔ p ∈ pending ∧ p.1 ≠ id := by
  rw [removePending, mem_filter, decide_eq_true_eq]

theorem Matched.complete {s : Chan} (h : Matched s) (hn : Numbered s) {n : Nat} {k : Conn}
    {r : Reply} {data : List UInt8} (hk : s.conns[n]? = some k) (hr : r ∈ k.replies)
    (hdata : r.data.val.length < 2 ^ 31 → data = r.data.val) : Matched (complete r.id r.status data s) := by
  rw [Api.complete]
  cases hfind : s.pending.find? fun p => p.1 = r.id with
  | none => exact h
  | some p =>
    obtain ⟨id, c⟩ := p
    have hp : (id, c) ∈ s.pending := mem_of_find?_eq_some hfind
    have hpr : id = r.id := by simpa using find?_some hfind
    obtain ⟨call, req, hc, hreg, hown, hreplied⟩ := h.owner hn hk hr hp hpr
    let told : Call := { call with status := r.status, data := data, done := true }
    have hself : (s.calls.modify c fun call =>
      { call with status := r.status, data := data, done := true })[c]? = some told :=
      getElem?_modify_self hc
    have hother : ∀ (d : Nat) call', (s.calls.modify c fun call =>
      { call with status := r.status, data := data, done := true })[d]? = some call' →
      (d = c ∧ call' = told) ∨ s.calls[d]? = some call' := by
      intro d call' hd
      rcases getElem?_modify_some hd with ⟨rfl, call'', hc'', rfl⟩ | ⟨_, hd'⟩
      · left
        have : call'' = call := Option.some.inj (hc''.symm.trans hc)
        subst this
        exact ⟨rfl, rfl⟩
      · exact .inr hd'
    constructor
    · intro p hp'
      rw [mem_removePending] at hp'
      obtain ⟨call', hc', hdone', hreg'⟩ := h.registered p hp'.1
      have hne : c ≠ p.2 := by
        intro heq
        rw [← heq] at hc'
        have : call' = call := Option.some.inj (hc'.symm.trans hc)
        subst this
        exact hp'.2 (Option.some.inj (hreg'.symm.trans hreg))
      refine ⟨call', ?_, hdone', hreg'⟩
      dsimp only
      rw [getElem?_modify_ne _ _ hne]
      exact hc'
    · intro d call' hd hf
      rcases hother d call' hd with ⟨_, rfl⟩ | hd'
      · exact absurd hf (registered_not_fresh hreg)
      · exact h.fresh d call' hd' hf
    · intro req' hreq'
      obtain ⟨d, call', hd, hown'⟩ := h.asked req' hreq'
      by_cases hdc : c = d
      · subst hdc
        have : call' = call := Option.some.inj (hd.symm.trans hc)
        subst this
        exact ⟨c, told, hself, hown'⟩
      · refine ⟨d, call', ?_, hown'⟩
        dsimp only
        rw [getElem?_modify_ne _ _ hdc]
        exact hd
    · exact h.answered
    · intro d call' hd hstatus
      rcases hother d call' hd with ⟨_, rfl⟩ | hd'
      · exact ⟨req, r, hown, hreplied, hstatus, hdata⟩
      · exact h.replied d call' hd' hstatus
    · intro d call' id' rsp hd hpc
      rcases hother d call' hd with ⟨_, rfl⟩ | hd'
      · -- A registered call has not returned.
        have hret : call.pc = .returned id' callOK rsp := hpc
        rw [hret] at hreg
        cases hreg
      · exact h.returned d call' id' rsp hd' hpc

theorem Call.result_ok (call : Call) (ok : Bool) (h : (call.result ok).1 = callOK) : call.status = 0 ∧ (call.result ok).2 = some call.data := by
  rw [Call.result] at h ⊢
  by_cases hfail : ¬ok ∨ call.status ≠ 0
  · rw [if_pos hfail] at h
    cases h
  · rw [if_neg hfail]
    rw [not_or, not_not, not_not] at hfail
    exact ⟨hfail.2, rfl⟩

/-- An entry of the pending map for the `c`-th call. -/
theorem Matched.entry_of (h : Matched s) (hc : s.calls[c]? = some call) {p : UInt32 × Nat}
    (hp : p ∈ s.pending) (hpc : p.2 = c) : call.done = false ∧ call.pc.registered = some p.1 := by
  obtain ⟨call', hc', hdone, hreg⟩ := h.registered p hp
  rw [hpc] at hc'
  have hsame : call' = call := Option.some.inj (hc'.symm.trans hc)
  subst hsame
  exact ⟨hdone, hreg⟩

/-- A step of a call that leaves the pending map and the queue alone. -/
theorem Matched.proceed (h : Matched s) (hc : s.calls[c]? = some call) (hcalls : t.calls = (s.goto c pc).calls) (hconns : t.conns = s.conns)
    (hpending : t.pending = s.pending) (hqueue : t.queue = s.queue)
    (hid : ∀ id, call.pc.reqId = some id → pc.reqId = some id) (hfresh : pc.fresh = true → call.pc.fresh = true)
    (hreg : ∀ p ∈ s.pending, call.done = false → call.pc.registered = some p.1 → pc.registered = some p.1)
    (hreturn : ∀ id rsp, pc = .returned id callOK rsp → call.status = 0 ∧ rsp = some call.data) : Matched t := by
  refine h.goto hc hcalls hconns hid hfresh ?_ ?_ hreturn
  · intro p hp
    rw [hpending] at hp
    by_cases hpc : p.2 = c
    · obtain ⟨hdone, hreg'⟩ := h.entry_of hc hp hpc
      exact .inr ⟨hpc, hdone, hreg p hp hdone hreg'⟩
    · exact .inl ⟨hp, hpc⟩
  · intro req hreq
    rw [hqueue] at hreq
    exact .inl hreq

/-- Where a step of a call leads, the bookkeeping still fits. -/
theorem matched_advance (h : Matched s) (hadv : advance c timedOut s = t) : Matched t := by
  rcases advance_cases hadv with ⟨rfl, _⟩ | ⟨call, hc, hstep⟩
  · exact h
  cases hstep with
  | enter hpc hup | number hpc =>
    refine h.proceed hc rfl rfl rfl rfl ?_ ?_ ?_ ?_
    · rw [hpc]; rintro id ⟨⟩
    · rw [hpc]; exact fun hf => hf
    · rw [hpc]; rintro p _ _ ⟨⟩
    · rintro id rsp ⟨⟩
  | refuse hpc hdown =>
    refine h.proceed hc rfl rfl rfl rfl ?_ ?_ ?_ ?_
    · rw [hpc]; rintro id ⟨⟩
    · rintro ⟨⟩
    · rw [hpc]; rintro p _ _ ⟨⟩
    · intro id rsp hret
      have hcode := (Pc.returned.inj hret).2.1
      cases hcode
  | register id hpc =>
    refine h.goto hc rfl rfl ?_ ?_ ?_ (fun _ => .inl) ?_
    · rw [hpc]; exact fun _ hid => hid
    · rintro ⟨⟩
    · intro p hp
      rcases mem_cons.1 hp with rfl | hold
      · exact .inr ⟨rfl, h.fresh c call hc (by rw [hpc]; rfl), rfl⟩
      · -- A call that is about to be registered has no entry yet.
        have hold := (mem_removePending.1 hold).1
        refine .inl ⟨hold, ?_⟩
        intro hpc'
        have hreg := (h.entry_of hc hold hpc').2
        rw [hpc] at hreg
        cases hreg
    · rintro id' rsp ⟨⟩
  | post id hpc =>
    refine h.goto hc rfl rfl ?_ ?_ ?_ ?_ ?_
    · rw [hpc]; exact fun _ hid => hid
    · rintro ⟨⟩
    · intro p hp
      by_cases hpc' : p.2 = c
      · obtain ⟨hdone, hreg⟩ := h.entry_of hc hp hpc'
        rw [hpc] at hreg
        exact .inr ⟨hpc', hdone, hreg⟩
      · exact .inl ⟨hp, hpc'⟩
    · intro req hreq
      rcases mem_append.1 hreq with hold | hnew
      · exact .inl hold
      · right
        rw [mem_singleton, Job.write.injEq] at hnew
        rw [hnew, Call.request, hpc]
        rfl
    · rintro id' rsp ⟨⟩
  | woken id hpc hdone =>
    refine h.proceed hc rfl rfl rfl rfl ?_ ?_ ?_ ?_
    · rcases hpc with hpc | hpc <;> rw [hpc] <;> exact fun _ hid => hid
    · rintro ⟨⟩
    · intro p _ hnot
      rw [hdone] at hnot
      cases hnot
    · rintro id' rsp ⟨⟩
  | expire id hpc hdone =>
    refine h.proceed hc rfl rfl rfl rfl ?_ ?_ ?_ ?_
    · rw [hpc]; exact fun _ hid => hid
    · rintro ⟨⟩
    · rw [hpc]; exact fun _ _ _ hreg => hreg
    · rintro id' rsp ⟨⟩
  | reclaim id hpc =>
    refine h.goto hc rfl rfl ?_ ?_ ?_ (fun _ => .inl) ?_
    · rw [hpc]; exact fun _ hid => hid
    · rintro ⟨⟩
    · intro p hp
      obtain ⟨hold, hne⟩ := mem_removePending.1 hp
      refine .inl ⟨hold, ?_⟩
      intro hpc'
      have hreg := (h.entry_of hc hold hpc').2
      rw [hpc] at hreg
      exact hne (Option.some.inj hreg).symm
    · rintro id' rsp ⟨⟩
  | claimed id hpc hnone =>
    refine h.proceed hc rfl rfl rfl rfl ?_ ?_ ?_ ?_
    · rw [hpc]; exact fun _ hid => hid
    · rintro ⟨⟩
    · rw [hpc]
      intro p hp _ hreg
      exact absurd (Option.some.inj hreg).symm (hnone p hp)
    · rintro id' rsp ⟨⟩
  | giveUp id hpc =>
    refine h.proceed hc rfl rfl rfl rfl ?_ ?_ ?_ ?_
    · rw [hpc]; exact fun _ hid => hid
    · rintro ⟨⟩
    · rw [hpc]; rintro p _ _ ⟨⟩
    · rintro id' rsp ⟨⟩
  | finish id ok hpc =>
    refine h.proceed hc rfl rfl rfl rfl ?_ ?_ ?_ ?_
    · rw [hpc]; exact fun _ hid => hid
    · rintro ⟨⟩
    · rw [hpc]; rintro p _ _ ⟨⟩
    · intro id' rsp hret
      obtain ⟨_, hcode, hrsp⟩ := Pc.returned.inj hret
      exact hrsp ▸ call.result_ok ok hcode

/-- The `c`-th call was handed a reply with its own id that the core wrote on the `n`-th
connection, and became `call'`. -/
def Chan.Handed (s : Chan) (n c : Nat) (call' : Call) : Prop :=
  ∃ (k : Conn) (r : Reply) (call : Call) (data : List UInt8), s.conns[n]? = some k ∧
    r ∈ k.replies ∧ s.calls[c]? = some call ∧ call.pc.reqId = some r.id ∧
    call' = { call with status := r.status, data := data, done := true }

/-- Handing out one more reply of the `n`-th connection. -/
theorem handed_complete {k : Conn} {r : Reply} {data : List UInt8} (ht : Matched t) (hk : s.conns[n]? = some k) (hr : r ∈ k.replies)
    (hcalls : ∀ (c : Nat) call', t.calls[c]? = some call' → s.calls[c]? = some call' ∨ s.Handed n c call') :
    ∀ (c : Nat) call', (Api.complete r.id r.status data t).calls[c]? = some call' → s.calls[c]? = some call' ∨ s.Handed n c call' := by
  intro c call' hc
  rw [Api.complete] at hc
  cases hfind : t.pending.find? fun p => p.1 = r.id with
  | none =>
    rw [hfind] at hc
    exact hcalls c call' hc
  | some p =>
    obtain ⟨id, d⟩ := p
    rw [hfind] at hc
    rcases getElem?_modify_some hc with ⟨rfl, call, hcall, rfl⟩ | ⟨_, hold⟩
    · obtain ⟨hdone, hreg⟩ := ht.entry_of hcall (mem_of_find?_eq_some hfind) rfl
      have hid : id = r.id := by simpa using find?_some hfind
      rcases hcalls d call hcall with hsame | ⟨_, _, _, _, _, _, _, _, rfl⟩
      · refine .inr ⟨k, r, call, data, hk, hr, hsame, ?_, rfl⟩
        rw [← hid]
        exact registered_reqId hreg
      · -- A call that was handed a reply is not registered any more.
        cases hdone
    · exact hcalls c call' hold

/-- While the replies of the installed socket are handed out the bookkeeping of the calls stays
right, and a call changes only by a reply of that socket. -/
theorem onReadyRead_spec (hord : Ordered s) (hs : Streams s) (hn : Numbered s) (h : Matched s) :
    Matched (onReadyRead s) ∧ ∀ (c : Nat) call', (onReadyRead s).calls[c]? = some call' →
    s.calls[c]? = some call' ∨ ∃ n, s.sock = some n ∧ s.Handed n c call' := by
  -- Requests and replies of the connections do not change while the buffer is read.
  let P : Chan → Prop := fun t => Matched t ∧ Numbered t ∧
    (∀ (n : Nat) k, s.conns[n]? = some k → ∃ k', t.conns[n]? = some k' ∧ k'.replies = k.replies) ∧
    ∀ n, s.sock = some n → ∀ (c : Nat) call', t.calls[c]? = some call' → s.calls[c]? = some call' ∨ s.Handed n c call'
  have hP : P (onReadyRead s) := by
    refine onReadyRead_rule (P := P) hs hord.sock_known ?_ ?_ ?_
    · intro n hsock
      refine ⟨h.touch rfl rfl rfl (fun k => ⟨rfl, rfl⟩) fun _ hq => hq, hn.congr rfl rfl, ?_, fun _ _ c call' hc => .inl hc⟩
      intro m k hk
      by_cases hnm : n = m
      · subst hnm
        exact ⟨k.drain, getElem?_modify_self hk, rfl⟩
      · refine ⟨k, ?_, rfl⟩
        rw [Chan.readAll, getElem?_modify_ne _ _ hnm]
        exact hk
    · intro _
      exact ⟨h, hn, fun n k hk => ⟨k, hk, rfl⟩, fun _ _ c call' hc => .inl hc⟩
    · rintro n k t r data buf hsock hk hr hdata ⟨hmt, hnt, hkt, hct⟩
      obtain ⟨k', hk', hreplies⟩ := hkt n k hk
      have hmt' : Matched { t with readBuf := buf } :=
        hmt.world rfl rfl (fun _ hq => hq) (fun _ _ hq => hq) hmt.answered
      have hnt' : Numbered { t with readBuf := buf } := hnt.congr rfl rfl
      have hpcs := complete_pcs r.id r.status data { t with readBuf := buf }
      have hconns : (Api.complete r.id r.status data { t with readBuf := buf }).conns = t.conns := by
        rw [Api.complete]
        split <;> rfl
      refine ⟨hmt'.complete hnt' hk' (by rw [hreplies]; exact hr) hdata, hnt'.congr (by rw [Chan.ids, hpcs.1, Chan.ids]) hpcs.2, ?_, ?_⟩
      · rw [hconns]
        exact hkt
      · intro m hm
        have hmn : n = m := Option.some.inj (hsock.symm.trans hm)
        subst hmn
        exact handed_complete hmt' hk hr (hct n hsock)
  refine ⟨hP.1, ?_⟩
  intro c call' hc
  cases hsock : s.sock with
  | none =>
    rw [onReadyRead_none hsock] at hc
    exact .inl hc
  | some n =>
    rcases hP.2.2.2 n hsock c call' hc with hsame | hhanded
    · exact .inl hsame
    · exact .inr ⟨n, rfl, hhanded⟩

theorem write_grows (req : Request) (k : Conn) : k.Grows (k.write req) := by
  rw [Conn.write]
  split
  · exact .of_same rfl rfl
  · exact ⟨⟨[req], rfl⟩, [], by rw [append_nil]⟩

section

variable (i : Nat) (outcome : Except Payload Payload) (k : Conn)

include i outcome k

theorem answer_grows : k.Grows (k.answer i outcome) := by
  rw [Conn.answer]
  cases k.requests[i]? with
  | none => exact .of_same rfl rfl
  | some req =>
    dsimp only
    split
    · exact .of_same rfl rfl
    · exact ⟨⟨[], by rw [append_nil]⟩, _, rfl⟩

/-- The core answers a request under its id. -/
theorem answer_answered (h : ∀ a ∈ k.answers, ∃ req, k.requests[a.1]? = some req ∧ a.2.id = req.id) :
    ∀ a ∈ (k.answer i outcome).answers, ∃ req, (k.answer i outcome).requests[a.1]? = some req ∧ a.2.id = req.id := by
  rw [Conn.answer]
  cases hreq : k.requests[i]? with
  | none => exact h
  | some req =>
    dsimp only
    split
    · exact h
    · intro a ha
      rcases mem_append.1 ha with hold | hnew
      · exact h a hold
      · rw [mem_singleton] at hnew
        subst hnew
        refine ⟨req, hreq, ?_⟩
        cases outcome with
        | error text | ok data => rfl

theorem answer_requests : (k.answer i outcome).requests = k.requests := by
  rw [Conn.answer]
  cases k.requests[i]? with
  | none => rfl
  | some req =>
    dsimp only
    split <;> rfl

end

/-- A queued write goes to the installed socket. -/
theorem matched_write {req : Request} {jobs : List Job} (h : Matched s)
    (hqueue : s.queue = .write req :: jobs) : Matched (write req { s with queue := jobs }) := by
  have hjobs : ∀ req', Job.write req' ∈ jobs → Job.write req' ∈ s.queue := by
    intro req' hreq'
    rw [hqueue]
    exact mem_cons_of_mem _ hreq'
  have hasked : s.Asked req := by
    left
    rw [hqueue]
    exact mem_cons_self
  rw [write]
  split
  · refine h.world rfl rfl ?_ (fun _ _ hr => hr) h.answered
    rintro req' (hq | hc)
    · exact .inl (hjobs req' hq)
    · exact .inr hc
  · refine h.modify rfl rfl rfl (write_grows req) hjobs ?_ ?_
    · intro k req' hreq'
      rw [Conn.write] at hreq'
      split at hreq'
      · exact .inl hreq'
      · rcases mem_append.1 hreq' with hold | hnew
        · exact .inl hold
        · rw [mem_singleton] at hnew
          rw [hnew]
          exact .inr hasked
    · intro k hk a ha
      rw [Conn.write] at ha ⊢
      split at ha
      · rename_i hgone
        rw [if_pos hgone]
        exact hk a ha
      · rename_i hgone
        rw [if_neg hgone]
        obtain ⟨req', hreq', hid⟩ := hk a ha
        exact ⟨req', getElem?_append_some hreq', hid⟩

theorem matched_install (h : Matched s) : Matched (s.install n) := by
  rw [Chan.install]
  split
  · exact h.world rfl rfl (fun _ hq => hq) (fun _ _ hr => hr) h.answered
  · exact h.touch rfl rfl rfl (fun k => ⟨rfl, rfl⟩) fun _ hq => hq

theorem matched_install_next {jobs : List Job} (hn : Numbered s) (h : Matched s)
    (hqueue : s.queue = .swap n :: jobs) : Numbered (Chan.install { s with queue := jobs } n) ∧
      Matched (Chan.install { s with queue := jobs } n) := by
  constructor
  · obtain ⟨conns, heq, _⟩ := install_frame { s with queue := jobs } n
    rw [heq]
    exact hn.congr rfl rfl
  · apply matched_install
    refine h.world rfl rfl ?_ (fun _ _ hr => hr) h.answered
    rintro req (hq | hc)
    · left
      rw [hqueue]
      exact mem_cons_of_mem _ hq
    · exact .inr hc

theorem matched_arrive (h : Matched s) (n bytes : Nat) : Matched { s with conns := s.conns.modify n (Conn.arrive bytes) } := by
  refine h.touch rfl rfl rfl ?_ fun _ hq => hq
  intro k
  rw [Conn.arrive]
  split <;> exact ⟨rfl, rfl⟩

theorem matched_reconnect (h : Matched s) (alive : Bool) (stage : Stage) : Matched { s with
      conns := s.conns ++ [Conn.opened alive], connected := false
      reconnecting := some stage } := by
  have hconn : ∀ (n : Nat) k, (s.conns ++ [Conn.opened alive])[n]? = some k → s.conns[n]? = some k ∨ k = Conn.opened alive := by
    intro n k hk
    rcases getElem?_concat_some hk with hold | ⟨_, hnew⟩
    · exact .inl hold
    · exact .inr hnew
  refine h.world rfl rfl ?_ ?_ ?_
  · rintro req (hq | ⟨n, k, hk, hreq⟩)
    · exact .inl hq
    · rcases hconn n k hk with hold | rfl
      · exact .inr ⟨n, k, hold, hreq⟩
      · cases hreq
  · rintro req r ⟨n, k, i, hk, hrest⟩
    exact ⟨n, k, i, getElem?_append_some hk, hrest⟩
  · intro n k hk
    rcases hconn n k hk with hold | rfl
    · exact h.answered n k hold
    · intro a ha
      cases ha

theorem matched_call (h : Matched s) (method : String) (payload : List UInt8) :
    Matched { s with calls := s.calls ++ [Call.opened method payload] } := by
  have hcall : ∀ (c : Nat) call, (s.calls ++ [Call.opened method payload])[c]? = some call →
      s.calls[c]? = some call ∨ call = Call.opened method payload := by
    intro c call hc
    rcases getElem?_concat_some hc with hold | ⟨_, hnew⟩
    · exact .inl hold
    · exact .inr hnew
  constructor
  · intro p hp
    obtain ⟨call, hc, hrest⟩ := h.registered p hp
    exact ⟨call, getElem?_append_some hc, hrest⟩
  · intro c call hc hf
    rcases hcall c call hc with hold | rfl
    · exact h.fresh c call hold hf
    · rfl
  · intro req hreq
    obtain ⟨c, call, hc, hown⟩ := h.asked req hreq
    exact ⟨c, call, getElem?_append_some hc, hown⟩
  · exact h.answered
  · intro c call hc hstatus
    rcases hcall c call hc with hold | rfl
    · exact h.replied c call hold hstatus
    · cases hstatus
  · intro c call id rsp hc hpc
    rcases hcall c call hc with hold | rfl
    · exact h.returned c call id rsp hold hpc
    · cases hpc

theorem matched_step (hord : Ordered s) (hs : Streams s) (hn : Numbered s) (h : Matched s) (e : Event) : Matched (step s e) := by
  cases e with
  | call method payload => exact matched_call h method payload
  | advance c timedOut => exact matched_advance h rfl
  | reconnect alive =>
    rw [step]
    split
    · exact h
    · exact matched_reconnect h alive _
  | reconnectStep =>
    rw [step, reconnectStep]
    split
    · exact h
    · exact h.wake.world rfl rfl (fun _ hq => hq) (fun _ _ hr => hr) h.wake.answered
    · refine h.world rfl rfl ?_ (fun _ _ hr => hr) h.answered
      rintro req (hq | hc)
      · rcases mem_append.1 hq with hold | hnew
        · exact .inl hold
        · rw [mem_singleton] at hnew
          cases hnew
      · exact .inr hc
    · exact h.world rfl rfl (fun _ hq => hq) (fun _ _ hr => hr) h.answered
  | io =>
    rw [step, io]
    cases hqueue : s.queue with
    | nil => exact h
    | cons job jobs =>
      cases job with
      | swap n =>
        obtain ⟨hord', hstr'⟩ := install_inv hord hs hqueue
        obtain ⟨hnum, hinstall⟩ := matched_install_next hn h hqueue
        dsimp only
        rw [swap]
        split
        · exact hinstall
        · exact (onReadyRead_spec hord' hstr' hnum hinstall).1
      | write req => exact matched_write h hqueue
  | deliver n bytes =>
    obtain ⟨hord', hstr'⟩ := arrive_inv hord hs n bytes
    have harrive := matched_arrive h n bytes
    rw [step]
    split
    · exact (onReadyRead_spec hord' hstr' (hn.congr rfl rfl) harrive).1
    · exact harrive
  | disconnect n =>
    have hclose : ∀ connected, Matched { s with
        conns := s.conns.modify n Conn.close, connected := connected } := by
      intro connected
      exact h.touch rfl rfl rfl (fun k => ⟨rfl, rfl⟩) fun _ hq => hq
    rw [step]
    split
    · exact (hclose false).wake
    · exact hclose s.connected
  | answer n i outcome =>
    refine h.modify rfl rfl rfl (answer_grows i outcome) (fun _ hq => hq) ?_ (answer_answered i outcome)
    intro k req hreq
    rw [answer_requests] at hreq
    exact .inl hreq

end Throne.Api
