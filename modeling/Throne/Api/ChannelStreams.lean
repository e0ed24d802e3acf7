import Throne.Api.LocalSocketChannel
import Throne.Lib.Lists

/-!
# Sockets and reply streams of the RPC channel

Two invariants of every run. The sockets that are installed, queued for the swap or about to be
queued are numbered in ascending order, so a swap never brings back an older socket (`Ordered`). The
read buffer, the bytes that arrived on the installed socket and those on their way make up whole
response frames, the ones the core wrote on this connection and that were not handed out yet
(`Streams`). `processBuffer_rule` is the rule for the read loop: what every handed-out reply of the
installed connection preserves, the loop preserves, however the bytes were cut.
-/

namespace Throne.Api

open Lib.Frames Lib.Lists List

/-! ## What the handlers leave alone -/

/-- The read loop touches the buffer, the pending map and the calls. -/
theorem processBufferLoop_frame (fuel : Nat) (s : Chan) : ∃ buf pending calls, processBufferLoop fuel s
    = { s with readBuf := buf, pending := pending, calls := calls } := by
  induction fuel generalizing s with
  | zero => exact ⟨s.readBuf, s.pending, s.calls, rfl⟩
  | succ fuel ih =>
    rw [processBufferLoop]
    cases readHeader s.readBuf with
    | none => exact ⟨s.readBuf, s.pending, s.calls, rfl⟩
    | some h =>
      dsimp only
      split
      · exact ⟨s.readBuf, s.pending, s.calls, rfl⟩
      · obtain ⟨buf, pending, calls, heq⟩ := ih (complete h.reqId h.status (mid s.readBuf 9 (toInt h.dataLen))
          { s with readBuf := s.readBuf.drop (9 + h.dataLen) })
        rw [heq, complete]
        split <;> exact ⟨buf, pending, calls, rfl⟩

theorem processBuffer_frame (s : Chan) : ∃ buf pending calls, processBuffer s = { s with readBuf := buf, pending := pending, calls := calls } :=
  processBufferLoop_frame _ s

/-- Nothing of a complete reply stays in the buffer: the fuel of the loop is enough. -/
theorem processBufferLoop_drained (fuel : Nat) (s : Chan) (hfuel : s.readBuf.length ≤ fuel)
    (k : Nat) (hsize : replyFraming.size (processBufferLoop fuel s).readBuf = some k) : (processBufferLoop fuel s).readBuf.length < k := by
  induction fuel generalizing s with
  | zero =>
    have hpos := replyFraming.size_pos _ _ hsize
    rw [processBufferLoop] at hsize ⊢
    omega
  | succ fuel ih =>
    rw [processBufferLoop] at hsize ⊢
    cases hread : readHeader s.readBuf with
    | none =>
      rw [hread] at hsize
      simp [replyFraming, hread] at hsize
    | some h =>
      rw [hread] at hsize
      dsimp only at hsize ⊢
      by_cases hshort : s.readBuf.length < 9 + h.dataLen
      · rw [if_pos hshort] at hsize ⊢
        simp only [replyFraming, hread, Option.map_some, Option.some.injEq] at hsize
        omega
      · rw [if_neg hshort] at hsize ⊢
        refine ih _ ?_ hsize
        have hbuf : ∀ id st d (t : Chan), (complete id st d t).readBuf = t.readBuf := by
          intro id st d t
          rw [complete]
          split <;> rfl
        rw [hbuf, length_drop]
        omega

variable {s t : Chan}

theorem onReadyRead_none (h : s.sock = none) : onReadyRead s = s := by
  rw [onReadyRead, h]

variable {n : Nat}

theorem onReadyRead_some (h : s.sock = some n) : onReadyRead s = processBuffer (s.readAll n) := by
  rw [onReadyRead, h]

/-- A change that keeps every connection up or gone. -/
theorem map_gone_modify {l : List Conn} {f : Conn → Conn} (hf : ∀ k, (f k).gone = k.gone) : (l.modify n f).map Conn.gone = l.map Conn.gone := by
  apply ext_getElem?
  intro m
  rw [getElem?_map, getElem?_map, getElem?_modify]
  cases l[m]? with
  | none => rfl
  | some k =>
    simp only [Option.map_eq_map, Option.map_some]
    split
    · exact congrArg some (hf k)
    · rfl

theorem length_of_map_gone {l l' : List Conn} (h : l'.map Conn.gone = l.map Conn.gone) : l'.length = l.length := by
  have := congrArg List.length h
  simpa using this

theorem onReadyRead_frame (s : Chan) : ∃ conns buf pending calls, onReadyRead s
      = { s with conns := conns, readBuf := buf, pending := pending, calls := calls } ∧
      conns.map Conn.gone = s.conns.map Conn.gone := by
  rcases hsock : s.sock with _ | n
  · rw [onReadyRead_none hsock]
    exact ⟨s.conns, s.readBuf, s.pending, s.calls, by rw [← hsock], rfl⟩
  · obtain ⟨buf, pending, calls, heq⟩ := processBuffer_frame (s.readAll n)
    rw [onReadyRead_some hsock, heq]
    exact ⟨s.conns.modify n Conn.drain, buf, pending, calls, by rw [← hsock]; rfl, map_gone_modify fun _ => rfl⟩

theorem install_frame (s : Chan) (n : Nat) : ∃ conns, s.install n = { s with conns := conns, sock := some n, readBuf := [] } ∧
      conns.length = s.conns.length := by
  rw [Chan.install]
  cases s.sock with
  | none => exact ⟨s.conns, rfl, rfl⟩
  | some old => exact ⟨_, rfl, length_modify ..⟩

theorem swap_frame (n : Nat) (s : Chan) : ∃ conns buf pending calls, swap n s
      = { s with conns := conns, sock := some n, readBuf := buf, pending := pending,
                 calls := calls } ∧
      conns.length = s.conns.length := by
  obtain ⟨closed, hinstall, hclosed⟩ := install_frame s n
  rw [swap]
  split
  · exact ⟨closed, [], s.pending, s.calls, hinstall, hclosed⟩
  · obtain ⟨conns, buf, pending, calls, heq, hconns⟩ := onReadyRead_frame (s.install n)
    rw [heq, hinstall]
    rw [hinstall] at hconns
    exact ⟨conns, buf, pending, calls, rfl, (length_of_map_gone hconns).trans hclosed⟩

/-! ## The order of the sockets -/

def Job.socket : Job → Option Nat
  | .swap n => some n
  | .write _ => none

/-- The socket of a `Reconnect` whose swap is not queued yet. -/
def Stage.unposted : Stage → Option Nat
  | .wake n => some n
  | .post n => some n
  | .publish => none

/-- The installed socket, those whose swap is queued and the one about to be queued. -/
def Chan.sockets (s : Chan) : List Nat := s.sock.toList ++ s.queue.filterMap Job.socket ++ (s.reconnecting.bind Stage.unposted).toList

structure Ordered (s : Chan) : Prop where
  ascending : s.sockets.Pairwise (· < ·)
  known : ∀ n ∈ s.sockets, n < s.conns.length

/-- Fewer sockets in the same order. -/
theorem Ordered.of_sublist (h : Ordered s) (hsub : List.Sublist t.sockets s.sockets) (hlen : t.conns.length = s.conns.length) : Ordered t := by
  refine ⟨h.ascending.sublist hsub, ?_⟩
  intro n hn
  rw [hlen]
  exact h.known n (hsub.subset hn)

theorem sockets_congr (hsock : t.sock = s.sock) (hqueue : t.queue.filterMap Job.socket = s.queue.filterMap Job.socket)
    (hrec : t.reconnecting = s.reconnecting) : t.sockets = s.sockets := by
  rw [Chan.sockets, Chan.sockets, hsock, hqueue, hrec]

theorem advance_sockets (c : Nat) (timedOut : Bool) (s : Chan) :
    (advance c timedOut s).sockets = s.sockets ∧ (advance c timedOut s).conns = s.conns := by
  generalize hadv : advance c timedOut s = t
  rcases advance_cases hadv with ⟨rfl, _⟩ | ⟨call, _, hstep⟩
  · exact ⟨rfl, rfl⟩
  · cases hstep with
    | post id hpc =>
      refine ⟨sockets_congr rfl ?_ rfl, rfl⟩
      simp [Job.socket]
    | _ => exact ⟨rfl, rfl⟩

theorem ordered_initial : Ordered Chan.initial := by
  constructor
  · exact List.Pairwise.nil
  · intro n hn
    cases hn

/-- A swap installs the next socket, which is newer than the one it replaces. -/
theorem Ordered.swap_newer {jobs : List Job} (h : Ordered s) (hqueue : s.queue = .swap n :: jobs) :
    n < s.conns.length ∧ ∀ old, s.sock = some old → old < n := by
  have hmem : n ∈ s.sockets := by
    simp [Chan.sockets, hqueue, Job.socket]
  refine ⟨h.known n hmem, ?_⟩
  intro old hold
  have hasc := h.ascending
  rw [Chan.sockets, hold, hqueue] at hasc
  simp only [Option.toList_some, filterMap_cons, Job.socket, cons_append, nil_append, pairwise_cons, mem_cons] at hasc
  exact hasc.1 n (.inl rfl)

/-- The sockets after a swap are those before without the replaced one. -/
theorem sockets_swap {jobs : List Job} (hqueue : s.queue = .swap n :: jobs)
    (hsock : t.sock = some n) (hjobs : t.queue = jobs) (hrec : t.reconnecting = s.reconnecting) : List.Sublist t.sockets s.sockets := by
  have hold : List.Sublist (n :: (jobs.filterMap Job.socket ++ (s.reconnecting.bind Stage.unposted).toList)) s.sockets := by
    rw [Chan.sockets, hqueue, append_assoc]
    exact sublist_append_right ..
  simpa [Chan.sockets, hsock, hjobs, hrec] using hold

theorem ordered_io (h : Ordered s) : Ordered (io s) := by
  rw [io]
  cases hqueue : s.queue with
  | nil => exact h
  | cons job jobs =>
    cases job with
    | swap n =>
      obtain ⟨conns, buf, pending, calls, heq, hlen⟩ := swap_frame n { s with queue := jobs }
      dsimp only
      rw [heq]
      exact h.of_sublist (sockets_swap hqueue rfl rfl rfl) hlen
    | write req =>
      have hsame : (write req { s with queue := jobs }).sockets = s.sockets ∧ (write req { s with queue := jobs }).conns.length = s.conns.length := by
        have hskip : List.filterMap Job.socket (.write req :: jobs) = List.filterMap Job.socket jobs := filterMap_cons_none rfl
        rw [write]
        cases hsock : s.sock with
        | none | some n => simp [Chan.sockets, hqueue, hskip, hsock]
      exact h.of_sublist (hsame.1 ▸ List.Sublist.refl _) hsame.2

theorem ordered_reconnectStep (h : Ordered s) : Ordered (reconnectStep s) := by
  rw [reconnectStep]
  cases hrec : s.reconnecting with
  | none => exact h
  | some stage =>
    refine h.of_sublist ?_ ?_
    · cases stage with
      | wake n => simp [Chan.sockets, hrec, Stage.unposted, wake]
      | post n => simp [Chan.sockets, hrec, Stage.unposted, Job.socket]
      | publish => simp [Chan.sockets, hrec, Stage.unposted]
    · cases stage <;> rfl

theorem ordered_reconnect (h : Ordered s) (hrec : s.reconnecting = none) (k : Conn) : Ordered { s with
      conns := s.conns ++ [k], connected := false
      reconnecting := some (.wake s.conns.length) } := by
  have hsock : Chan.sockets { s with
      conns := s.conns ++ [k], connected := false
      reconnecting := some (.wake s.conns.length) } = s.sockets ++ [s.conns.length] := by
    simp [Chan.sockets, hrec, Stage.unposted]
  constructor
  · rw [hsock, pairwise_append]
    refine ⟨h.ascending, pairwise_singleton _ _, ?_⟩
    intro n hn m hm
    rw [mem_singleton.1 hm]
    exact h.known n hn
  · intro n hn
    rw [hsock, mem_append, mem_singleton] at hn
    have hlen : (s.conns ++ [k]).length = s.conns.length + 1 := by simp
    dsimp only
    rw [hlen]
    rcases hn with hn | rfl
    · have := h.known n hn
      omega
    · omega

theorem ordered_step (h : Ordered s) (e : Event) : Ordered (step s e) := by
  cases e with
  | call method payload => exact ⟨h.ascending, h.known⟩
  | advance c timedOut =>
    have hadv := advance_sockets c timedOut s
    exact h.of_sublist (by rw [step, hadv.1]) (by rw [step, hadv.2])
  | reconnect alive =>
    rw [step]
    split
    · exact h
    · rename_i hnot
      exact ordered_reconnect h (by simpa using hnot) _
  | reconnectStep => exact ordered_reconnectStep h
  | io => exact ordered_io h
  | deliver n bytes =>
    have harrive : Ordered { s with conns := s.conns.modify n (Conn.arrive bytes) } :=
      h.of_sublist (List.Sublist.refl _) (length_modify ..)
    rw [step]
    split
    · obtain ⟨conns, buf, pending, calls, heq, hlen⟩ :=
        onReadyRead_frame { s with conns := s.conns.modify n (Conn.arrive bytes) }
      rw [heq]
      exact harrive.of_sublist (List.Sublist.refl _) (length_of_map_gone hlen)
    · exact harrive
  | disconnect n =>
    rw [step]
    split <;> exact h.of_sublist (List.Sublist.refl _) (length_modify ..)
  | answer n i outcome => exact h.of_sublist (List.Sublist.refl _) (length_modify ..)

/-! ## The reply streams -/

/-- The replies the core wrote on a connection. -/
def Conn.replies (k : Conn) : List Reply := k.answers.map Prod.snd

/-- What has been written on a connection and was not read. -/
def Conn.unread (k : Conn) : List UInt8 := k.inbox ++ k.wire

structure Streams (s : Chan) : Prop where
  /-- The buffer and the unread bytes of the installed socket are the replies not yet handed out. -/
  installed : ∀ n k, s.sock = some n → s.conns[n]? = some k → ∃ read left, k.replies = read ++ left ∧ s.readBuf ++ k.unread = replyFraming.stream left
  /-- Nothing of a socket that waits for its swap was read. -/
  waiting : ∀ n k, (∀ m, s.sock = some m → m < n) → s.conns[n]? = some k → k.unread = replyFraming.stream k.replies

/-- One turn of the loop: the buffer holds no complete reply, or the next one is handed out. -/
theorem processBufferLoop_turn {rest : List UInt8} {left : List Reply} (fuel : Nat)
    (hbuf : s.readBuf ++ rest = replyFraming.stream left) : processBufferLoop (fuel + 1) s = s ∨
    ∃ r left' data buf, left = r :: left' ∧ buf ++ rest = replyFraming.stream left' ∧
    (r.data.val.length < 2 ^ 31 → data = r.data.val) ∧ processBufferLoop (fuel + 1) s
    = processBufferLoop fuel (complete r.id r.status data { s with readBuf := buf }) := by
  rw [processBufferLoop]
  cases hread : readHeader s.readBuf with
  | none => exact .inl rfl
  | some h =>
    dsimp only
    by_cases hshort : s.readBuf.length < 9 + h.dataLen
    · rw [if_pos hshort]
      exact .inl rfl
    · rw [if_neg hshort]
      have hsize : replyFraming.size s.readBuf = some (9 + h.dataLen) := by
        simp [replyFraming, hread]
      obtain ⟨r, left', rfl, hlen, hcut, hrest⟩ :=
        replyFraming.cut_of_size hbuf hsize (by omega)
      -- The buffer starts with the frame of `r`, so the header is the one of `r`.
      have hheader : h = ⟨r.id, r.status, r.data.val.length⟩ := by
        have := readHeader_frame r (s.readBuf.drop (9 + h.dataLen))
        rw [show r.frame ++ s.readBuf.drop (9 + h.dataLen) = s.readBuf from hcut.symm, hread] at this
        exact Option.some.inj this
      refine .inr ⟨r, left', mid s.readBuf 9 (toInt h.dataLen), s.readBuf.drop (9 + h.dataLen), rfl, hrest, ?_, ?_⟩
      · intro hsmall
        have hmid := mid_frame r (s.readBuf.drop (9 + h.dataLen)) hsmall
        rw [show r.frame ++ s.readBuf.drop (9 + h.dataLen) = s.readBuf from hcut.symm] at hmid
        rw [hheader]
        exact hmid
      · rw [hheader]

theorem complete_readBuf (id : UInt32) (status : UInt8) (data : List UInt8) (s : Chan) : (complete id status data s).readBuf = s.readBuf := by
  rw [complete]
  split <;> rfl

/-- What every handed-out reply preserves, the loop preserves; the buffer keeps the rest of the
stream. -/
theorem processBufferLoop_rule {P : Chan → Prop} {rest : List UInt8} (fuel : Nat) {left : List Reply}
    (hstep : ∀ t r data buf, r ∈ left → (r.data.val.length < 2 ^ 31 → data = r.data.val) → P t →
      P (complete r.id r.status data { t with readBuf := buf })) :
    ∀ s : Chan, s.readBuf ++ rest = replyFraming.stream left → P s → P (processBufferLoop fuel s) ∧ ∃ read left', left = read ++ left' ∧
        (processBufferLoop fuel s).readBuf ++ rest = replyFraming.stream left' := by
  induction fuel generalizing left with
  | zero =>
    intro s hbuf hs
    exact ⟨hs, [], left, rfl, hbuf⟩
  | succ fuel ih =>
    intro s hbuf hs
    rcases processBufferLoop_turn fuel hbuf with hstop | hturn
    · rw [hstop]
      exact ⟨hs, [], left, rfl, hbuf⟩
    · obtain ⟨r, left', data, buf, rfl, hrest, hdata, hloop⟩ := hturn
      rw [hloop]
      have hnext := hstep s r data buf mem_cons_self hdata hs
      have hlater : ∀ t r' data buf, r' ∈ left' → (r'.data.val.length < 2 ^ 31 → data = r'.data.val) → P t →
          P (complete r'.id r'.status data { t with readBuf := buf }) := by
        intro t r' data buf hr'
        exact hstep t r' data buf (mem_cons_of_mem r hr')
      have hbuf' : (complete r.id r.status data { s with readBuf := buf }).readBuf ++ rest = replyFraming.stream left' := by
        rw [complete_readBuf]
        exact hrest
      obtain ⟨hP, read, left'', hsplit, hend⟩ := ih hlater _ hbuf' hnext
      exact ⟨hP, r :: read, left'', by rw [hsplit, cons_append], hend⟩

/-- After `readAll` the buffer and the bytes on the wire are the replies not yet handed out. -/
theorem Streams.readAll_stream {k : Conn} (hs : Streams s) (hsock : s.sock = some n)
    (hk : s.conns[n]? = some k) : ∃ read left, k.replies = read ++ left ∧ (s.readAll n).readBuf ++ k.wire = replyFraming.stream left := by
  obtain ⟨read, left, hsplit, hbuf⟩ := hs.installed n k hsock hk
  have havail : s.available n = k.inbox := by
    rw [Chan.available, hk]
    rfl
  refine ⟨read, left, hsplit, ?_⟩
  rw [Chan.readAll, havail, append_assoc]
  exact hbuf

/-- Reading the installed socket: what every reply of its connection preserves is preserved. -/
theorem onReadyRead_rule {P : Chan → Prop} (hs : Streams s) (hknown : ∀ n, s.sock = some n → n < s.conns.length)
    (hread : ∀ n, s.sock = some n → P (s.readAll n))
    (hidle : s.sock = none → P s)
    (hstep : ∀ n k t r data buf, s.sock = some n → s.conns[n]? = some k → r ∈ k.replies → (r.data.val.length < 2 ^ 31 → data = r.data.val) → P t →
      P (complete r.id r.status data { t with readBuf := buf })) :
    P (onReadyRead s) := by
  cases hsock : s.sock with
  | none =>
    rw [onReadyRead_none hsock]
    exact hidle hsock
  | some n =>
    rw [onReadyRead_some hsock]
    obtain ⟨k, hk⟩ : ∃ k, s.conns[n]? = some k :=
      ⟨_, getElem?_eq_getElem (hknown n hsock)⟩
    obtain ⟨read, left, hsplit, hbuf⟩ := hs.readAll_stream hsock hk
    refine (processBufferLoop_rule _ ?_ _ hbuf (hread n hsock)).1
    intro t r data buf hr
    exact hstep n k t r data buf hsock hk (by rw [hsplit]; exact mem_append_right read hr)

theorem streams_onReadyRead (hs : Streams s) (hknown : ∀ n, s.sock = some n → n < s.conns.length) : Streams (onReadyRead s) := by
  cases hsock : s.sock with
  | none =>
    rw [onReadyRead_none hsock]
    exact hs
  | some n =>
    rw [onReadyRead_some hsock]
    obtain ⟨k, hk⟩ : ∃ k, s.conns[n]? = some k :=
      ⟨_, getElem?_eq_getElem (hknown n hsock)⟩
    obtain ⟨read, left, hsplit, hbuf⟩ := hs.readAll_stream hsock hk
    obtain ⟨_, read', left', hsplit', hend⟩ :=
      processBufferLoop_rule (P := fun _ => True) (s.readAll n).readBuf.length
        (fun _ _ _ _ _ _ _ => trivial) _ hbuf trivial
    obtain ⟨buf, pending, calls, heq⟩ := processBuffer_frame (s.readAll n)
    rw [← processBuffer, heq] at hend
    rw [heq]
    constructor
    · intro m k' hm hmk
      have hmn : n = m := Option.some.inj (hsock.symm.trans hm)
      subst hmn
      have hkd : k' = k.drain := Option.some.inj (hmk.symm.trans (getElem?_modify_self hk))
      subst hkd
      refine ⟨read ++ read', left', ?_, hend⟩
      rw [append_assoc, ← hsplit']
      exact hsplit
    · intro m k' hm hmk
      rcases getElem?_modify_some hmk with ⟨hnm, _⟩ | ⟨_, hmk'⟩
      · -- The installed socket does not wait for its swap.
        have := hm n hsock
        omega
      · exact hs.waiting m k' hm hmk'

/-- The state of a connection may change as long as its unread bytes and its replies go together. -/
theorem Streams.modify {f : Conn → Conn} (hs : Streams s)
    (hconns : t.conns = s.conns.modify n f) (hsock : t.sock = s.sock) (hbuf : t.readBuf = s.readBuf)
    (hf : ∀ k, ∃ new, (f k).replies = k.replies ++ new ∧ (f k).unread = k.unread ++ replyFraming.stream new) : Streams t := by
  constructor
  · intro m k' hm hmk
    rw [hconns] at hmk
    rw [hsock] at hm
    rw [hbuf]
    rcases getElem?_modify_some hmk with ⟨rfl, k, hk, rfl⟩ | ⟨_, hk⟩
    · obtain ⟨new, hreplies, hunread⟩ := hf k
      obtain ⟨read, left, hsplit, hstream⟩ := hs.installed n k hm hk
      refine ⟨read, left ++ new, ?_, ?_⟩
      · rw [hreplies, hsplit, append_assoc]
      · rw [hunread, ← append_assoc, hstream, Framing.stream_append]
    · exact hs.installed m k' hm hk
  · intro m k' hm hmk
    rw [hconns] at hmk
    rw [hsock] at hm
    rcases getElem?_modify_some hmk with ⟨rfl, k, hk, rfl⟩ | ⟨_, hk⟩
    · obtain ⟨new, hreplies, hunread⟩ := hf k
      rw [hunread, hreplies, Framing.stream_append, hs.waiting n k hm hk]
    · exact hs.waiting m k' hm hk

/-- Steps that touch neither connections, nor the installed socket, nor the buffer. -/
theorem Streams.congr (hs : Streams s) (hconns : t.conns = s.conns) (hsock : t.sock = s.sock) (hbuf : t.readBuf = s.readBuf) : Streams t := by
  constructor
  · intro n k hn hk
    rw [hsock] at hn
    rw [hconns] at hk
    rw [hbuf]
    exact hs.installed n k hn hk
  · intro n k hn hk
    rw [hsock] at hn
    rw [hconns] at hk
    exact hs.waiting n k hn hk

theorem close_streams (k : Conn) : ∃ new, k.close.replies = k.replies ++ new ∧ k.close.unread = k.unread ++ replyFraming.stream new := by
  refine ⟨[], ?_, ?_⟩
  · rw [append_nil]
    rfl
  · rw [Framing.stream_nil, append_nil]
    rfl

theorem write_streams (req : Request) (k : Conn) : ∃ new, (k.write req).replies = k.replies ++ new ∧
    (k.write req).unread = k.unread ++ replyFraming.stream new := by
  refine ⟨[], ?_, ?_⟩
  · rw [Conn.write, append_nil]
    split <;> rfl
  · rw [Conn.write, Framing.stream_nil, append_nil]
    split <;> rfl

theorem arrive_streams (bytes : Nat) (k : Conn) : ∃ new, (k.arrive bytes).replies = k.replies ++ new ∧
    (k.arrive bytes).unread = k.unread ++ replyFraming.stream new := by
  refine ⟨[], ?_, ?_⟩
  · rw [Conn.arrive, append_nil]
    split <;> rfl
  · rw [Conn.arrive, Framing.stream_nil, append_nil]
    split
    · rfl
    · simp [Conn.unread]

theorem answer_streams (i : Nat) (outcome : Except Payload Payload) (k : Conn) : ∃ new, (k.answer i outcome).replies = k.replies ++ new ∧
    (k.answer i outcome).unread = k.unread ++ replyFraming.stream new := by
  have hkeep : ∃ new, k.replies = k.replies ++ new ∧ k.unread = k.unread ++ replyFraming.stream new :=
    ⟨[], by simp, by simp⟩
  rw [Conn.answer]
  cases k.requests[i]? with
  | none => exact hkeep
  | some req =>
    dsimp only
    split
    · exact hkeep
    · refine ⟨[response req.id outcome], ?_, ?_⟩
      · simp [Conn.replies]
      · simp [Conn.unread, replyFraming]

theorem streams_initial : Streams Chan.initial := by
  constructor
  · intro n k hn
    cases hn
  · intro n k _ hk
    cases hk

theorem Ordered.sock_known (h : Ordered s) (n : Nat) (hsock : s.sock = some n) : n < s.conns.length := by
  apply h.known
  simp [Chan.sockets, hsock]

/-- Closing the installed socket leaves the newer ones as they are. -/
theorem install_conns {m : Nat} {k : Conn} (hnewer : ∀ old, s.sock = some old → old < m)
    (hk : (s.install n).conns[m]? = some k) : s.conns[m]? = some k := by
  rw [Chan.install] at hk
  cases hsock : s.sock with
  | none =>
    rw [hsock] at hk
    exact hk
  | some old =>
    rw [hsock] at hk
    have := hnewer old hsock
    rw [← getElem?_modify_ne Conn.close _ (show old ≠ m by omega)]
    exact hk

/-- A swap installs a socket nothing of which was read. -/
theorem streams_install (hs : Streams s) (hnewer : ∀ old, s.sock = some old → old < n) : Streams (s.install n) := by
  have hsock : (s.install n).sock = some n ∧ (s.install n).readBuf = [] := by
    rw [Chan.install]
    cases s.sock <;> exact ⟨rfl, rfl⟩
  constructor
  · intro m k hm hk
    have hmn : n = m := Option.some.inj (hsock.1.symm.trans hm)
    subst hmn
    refine ⟨[], k.replies, rfl, ?_⟩
    rw [hsock.2, nil_append]
    exact hs.waiting n k hnewer (install_conns hnewer hk)
  · intro m k hm hk
    have hlt : n < m := hm n hsock.1
    have hnewer' : ∀ old, s.sock = some old → old < m := by
      intro old hold
      have := hnewer old hold
      omega
    exact hs.waiting m k hnewer' (install_conns hnewer' hk)

theorem streams_io (h : Ordered s) (hs : Streams s) : Streams (io s) := by
  rw [io]
  cases hqueue : s.queue with
  | nil => exact hs
  | cons job jobs =>
    cases job with
    | swap n =>
      obtain ⟨hknown, hnewer⟩ := h.swap_newer hqueue
      have hinstall : Streams (Chan.install { s with queue := jobs } n) :=
        streams_install (hs.congr rfl rfl rfl) hnewer
      dsimp only
      rw [swap]
      split
      · exact hinstall
      · apply streams_onReadyRead hinstall
        intro m hm
        obtain ⟨conns, heq, hlen⟩ := install_frame { s with queue := jobs } n
        rw [heq] at hm ⊢
        have hmn : n = m := Option.some.inj hm
        subst hmn
        exact hlen.symm ▸ hknown
    | write req =>
      dsimp only
      rw [write]
      cases hsock : s.sock with
      | none => exact hs.congr rfl hsock.symm rfl
      | some n => exact hs.modify rfl hsock.symm rfl (write_streams req)

theorem streams_step (h : Ordered s) (hs : Streams s) (e : Event) : Streams (step s e) := by
  cases e with
  | call method payload => exact hs.congr rfl rfl rfl
  | advance c timedOut =>
    rw [step]
    generalize hadv : advance c timedOut s = t
    rcases advance_cases hadv with ⟨rfl, _⟩ | ⟨call, _, hstep⟩
    · exact hs
    · cases hstep with
      | _ => exact hs.congr rfl rfl rfl
  | reconnect alive =>
    rw [step]
    split
    · exact hs
    · constructor
      · intro n k hn hk
        have hlt := h.sock_known n hn
        dsimp only at hk
        rw [getElem?_append_left hlt] at hk
        exact hs.installed n k hn hk
      · intro n k hn hk
        dsimp only at hk
        by_cases hlt : n < s.conns.length
        · rw [getElem?_append_left hlt] at hk
          exact hs.waiting n k hn hk
        · have hmem := mem_of_getElem? hk
          rw [getElem?_append_right (by omega)] at hk
          have hk' : k = Conn.opened alive := by
            simpa using mem_of_getElem? hk
          rw [hk']
          rfl
  | reconnectStep =>
    rw [step, reconnectStep]
    cases s.reconnecting with
    | none => exact hs
    | some stage =>
      cases stage with
      | _ => exact hs.congr rfl rfl rfl
  | io => exact streams_io h hs
  | deliver n bytes =>
    have harrive : Streams { s with conns := s.conns.modify n (Conn.arrive bytes) } :=
      hs.modify rfl rfl rfl (arrive_streams bytes)
    rw [step]
    split
    · apply streams_onReadyRead harrive
      intro m hm
      have := h.sock_known m hm
      dsimp only
      rw [length_modify]
      exact this
    · exact harrive
  | disconnect n =>
    rw [step]
    split <;> exact hs.modify rfl rfl rfl close_streams
  | answer n i outcome => exact hs.modify rfl rfl rfl (answer_streams i outcome)

end Throne.Api
