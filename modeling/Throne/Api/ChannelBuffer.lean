import Throne.Api.ChannelStreams

/-!
# The read buffer of the RPC channel

However the replies are cut into fragments and whatever sockets come and go in between, the buffer starts at the
beginning of a reply and never keeps a complete one (`Drained`).
-/

namespace Throne.Api

open Lib.Frames Lib.Runs

/-- No complete reply waits in the buffer. -/
def Drained (s : Chan) : Prop := ∀ size, replyFraming.size s.readBuf = some size → s.readBuf.length < size

variable {s t : Chan}

theorem drained_empty (h : s.readBuf = []) : Drained s := by
  intro size hsize
  rw [h] at hsize ⊢
  exact replyFraming.size_pos _ _ hsize

theorem Drained.congr (h : Drained s) (hbuf : t.readBuf = s.readBuf) : Drained t := by
  rw [Drained, hbuf]
  exact h

theorem drained_onReadyRead (h : Drained s) : Drained (onReadyRead s) := by
  rw [onReadyRead]
  split
  · exact h
  · exact processBufferLoop_drained _ _ (Nat.le_refl _)

theorem drained_swap (n : Nat) (s : Chan) : Drained (swap n s) := by
  have hempty : Drained (s.install n) := by
    apply drained_empty
    rw [Chan.install]
    split <;> rfl
  rw [swap]
  split
  · exact hempty
  · exact drained_onReadyRead hempty

theorem drained_step (h : Drained s) (e : Event) : Drained (step s e) := by
  cases e with
  | call method payload | answer n i outcome => exact h.congr rfl
  | advance c timedOut =>
    rw [step]
    generalize hadv : advance c timedOut s = t
    rcases advance_cases hadv with ⟨rfl, -⟩ | ⟨call, -, hstep⟩
    · exact h
    · cases hstep <;> exact h.congr rfl
  | reconnect alive =>
    rw [step]
    split
    · exact h
    · exact h.congr rfl
  | reconnectStep =>
    rw [step, reconnectStep]
    split
    · exact h
    all_goals exact h.congr rfl
  | io =>
    rw [step, io]
    split
    · exact h
    · exact drained_swap _ _
    · rw [write]
      split <;> exact h.congr rfl
  | deliver n bytes =>
    rw [step]
    split
    · exact drained_onReadyRead (h.congr rfl)
    · exact h.congr rfl
  | disconnect n =>
    rw [step]
    split <;> exact h.congr rfl

/-- In every run the sockets that are installed or wait for their swap are in the order they were opened. The buffer
and the bytes of the installed connection that are still to be read are the replies the core wrote on it and that were
not handed out yet, and of those the buffer holds not even one whole. -/
theorem buffer_synced (es : List Event) :
    let s := run step Chan.initial es
    s.sockets.Pairwise (· < ·) ∧ ∀ n k, s.sock = some n → s.conns[n]? = some k → ∃ read left,
      k.replies = read ++ left ∧ s.readBuf ++ k.unread = replyFraming.stream left ∧
        ∀ size, replyFraming.size s.readBuf = some size → s.readBuf.length < size := by
  intro s
  obtain ⟨hordered, hstreams, hdrained⟩ : Ordered s ∧ Streams s ∧ Drained s := by
    refine @inv_run_all _ _ step (fun s => Ordered s ∧ Streams s ∧ Drained s) ?_ es Chan.initial ⟨ordered_initial, streams_initial, drained_empty rfl⟩
    rintro s e ⟨hordered, hstreams, hdrained⟩
    exact ⟨ordered_step hordered e, streams_step hordered hstreams e, drained_step hdrained e⟩
  refine ⟨hordered.ascending, fun n k hsock hk => ?_⟩
  obtain ⟨read, left, hread, hbuf⟩ := hstreams.installed n k hsock hk
  exact ⟨read, left, hread, hbuf, hdrained⟩

end Throne.Api
