import Throne.Global.LogBuffer
import Throne.Lib.Runs

/-!
# The log over the API

`Router::logsResponse` of `src/src/api/remote/RouterFeeds.cpp`, and a client that reads the log with it: it feeds
the cursor of an answer back into its next request. `after` is a number that `readCursor` let through, so nothing
here comes to the end of a 64-bit word.

`log_kept` says what the ring keeps and what the client gets, over every order of calls.
-/

namespace Throne.Api.Remote.LogFeed

open Lib.Runs Lib.Windows Global.LogBuffer List

structure LogsResponse where
  cursor : Nat
  more : Bool
  dropped : Nat
  lines : List BufferedLine

def logsResponse (ring : Ring) (sameInstance : Bool) (after : Nat) (limit : Int) : LogsResponse :=
  let page := if sameInstance then BufferedLinesAfter ring after limit else BufferedTail ring limit
  let cursor := if sameInstance then after else page.newestSeq
  let firstHeld := if page.oldestSeq > 0 then page.oldestSeq else page.newestSeq + 1
  { cursor := (page.lines.getLast?.map BufferedLine.seq).getD cursor
    more := page.more
    dropped := if sameInstance && decide (firstHeld > after + 1) then firstHeld - after - 1 else 0
    lines := page.lines }

/-! ## Clients -/

/-- The ring, a client, and all lines that were logged. -/
structure World where
  ring : Ring
  log : List BufferedLine
  reader : Reader BufferedLine

/-- A client that starts behind a number, before the first line. -/
def World.start (base : Nat) : World := ⟨Ring.empty, [], ⟨base, [], 0⟩⟩

inductive Call where
  /-- A text of the user log at a time. -/
  | buffer (chunk : Units) (now : Int)
  /-- Someone else reads. -/
  | linesAfter (after : Nat) (limit : Int)
  | tail (limit : Int)
  /-- The client reads on. -/
  | poll (limit : Int)

def World.step (w : World) : Call → World
  | .buffer chunk now =>
    { w with
      ring := BufferUserLog chunk now w.ring
      log := w.log ++ numbered now w.ring.lastSeq (chunkTexts chunk) }
  | .linesAfter _ _ | .tail _ => w
  | .poll limit =>
    let answer := logsResponse w.ring true w.reader.cursor limit
    { w with reader := ⟨answer.cursor, w.reader.received ++ answer.lines, w.reader.dropped + answer.dropped⟩ }

/-- The client asks for at least one line. -/
def Positive (_ : World) : Call → Prop
  | .poll limit => 0 < limit
  | _ => True

/-- What the client has: lines under ever greater numbers, and a count of exactly those it went without. -/
structure ClientFacts (base : Nat) (w : World) : Prop where
  increasing : (w.reader.received.map BufferedLine.seq).Pairwise (· < ·)
  behind : ∀ line ∈ w.reader.received, base < line.seq
  logged : ∀ line ∈ w.reader.received, line ∈ w.log
  dropped : w.reader.dropped = (w.log.filter fun line =>
    decide (base < line.seq ∧ line.seq ≤ w.reader.cursor ∧ line ∉ w.reader.received)).length

/-- What a poll gives: what is held behind the cursor without a gap, and whether that was all. -/
structure PollFacts (w : World) (limit : Int) : Prop where
  fresh : ∀ line ∈ (logsResponse w.ring true w.reader.cursor limit).lines, w.reader.cursor < line.seq
  missed : ∀ line ∈ w.ring.lines, w.reader.cursor < line.seq → line.seq ≤ (logsResponse w.ring true w.reader.cursor limit).cursor →
    line ∈ (logsResponse w.ring true w.reader.cursor limit).lines
  more : (logsResponse w.ring true w.reader.cursor limit).more = false ↔ w.ring.lastSeq ≤ (logsResponse w.ring true w.reader.cursor limit).cursor

def Polled (w : World) : Call → Prop
  | .poll limit => PollFacts w limit
  | _ => True

/-! ## A page -/

section Page

variable {log : List BufferedLine} {ring : Ring}

/-- How many lines are gone. -/
def goneOf (log : List BufferedLine) (ring : Ring) : Nat := log.length - ring.lines.length

theorem held_drop (h : RingFacts log ring) : ring.lines = log.drop (goneOf log ring) := h.drop

theorem held_length (h : RingFacts log ring) : goneOf log ring + ring.lines.length = log.length := by
  have hle := h.held.length_le
  unfold goneOf
  omega

/-- The number of the oldest line. -/
theorem oldest_seq (h : RingFacts log ring) {oldest : BufferedLine} (hhead : ring.lines.head? = some oldest) : oldest.seq = goneOf log ring + 1 := by
  have hlength := held_length h
  have hlast := h.length
  have hconsecutive := h.consecutive
  obtain ⟨rest, hrest⟩ := head?_eq_some_iff.1 hhead
  rw [hrest] at hconsecutive hlength
  rw [map_cons, length_cons, range'_succ, List.cons.injEq] at hconsecutive
  rw [length_cons] at hlength
  rw [hconsecutive.1]
  omega

theorem slice_lines (ring : Ring) (first : Nat) (limit : Int) : (slice ring first limit).lines = (ring.lines.drop first).take limit.toNat := by
  have hlimit : (max limit 0).toNat = limit.toNat := by omega
  unfold slice
  dsimp only
  rw [hlimit, drop_take, take_eq_take_iff, length_drop]
  omega

section

variable (h : RingFacts log ring)

include h

/-- The lines behind a cursor. -/
theorem linesAfter_eq (after : Nat) (limit : Int) : ∃ first, BufferedLinesAfter ring after limit = slice ring first limit ∧
    (after < ring.lastSeq ∧ first = after - goneOf log ring ∨ ring.lastSeq ≤ after ∧ first = ring.lines.length) ∧
    (BufferedLinesAfter ring after limit).lines = page log (goneOf log ring) after limit.toNat := by
  have hlength := held_length h
  have hlast := h.length
  have hend : ring.lastSeq ≤ after → (slice ring ring.lines.length limit).lines = page log (goneOf log ring) after limit.toNat := by
    intro hle
    rw [slice_lines, drop_length, take_nil, page, drop_eq_nil_of_le (by omega), take_nil]
  unfold BufferedLinesAfter
  split
  · next hnone =>
    have hnil : ring.lines = [] := head?_eq_none_iff.1 hnone
    have hlog : log = [] := by
      by_contra hne
      exact h.newest hne hnil
    rw [hlog, length_nil] at hlast
    exact ⟨_, rfl, .inr ⟨by omega, rfl⟩, hend (by omega)⟩
  · next oldest hhead =>
    have hseq := oldest_seq h hhead
    split
    · next hge => exact ⟨_, rfl, .inr ⟨hge, rfl⟩, hend hge⟩
    · next hless =>
      have hfirst : (if after < oldest.seq then 0 else after - oldest.seq + 1) = after - goneOf log ring := by
        split <;> omega
      rw [hfirst]
      refine ⟨_, rfl, .inl ⟨by omega, rfl⟩, ?_⟩
      rw [slice_lines, held_drop h, drop_drop, page]
      congr 2
      omega

/-- The numbers of a part of the log. -/
theorem between_seqs (a b : Nat) : (between log a b).map BufferedLine.seq = List.range' (a + 1) (min b ring.lastSeq - a) := by
  rw [between, map_drop, map_take, h.logged]
  by_cases hb : b ≤ ring.lastSeq
  · rw [take_range'_of_length_ge hb, drop_range', Nat.min_eq_left hb]
    congr 1
    omega
  · rw [take_range'_of_length_le (by omega), drop_range', Nat.min_eq_right (by omega)]
    congr 1
    omega

theorem seq_of_mem_between {a b : Nat} {line : BufferedLine} (hline : line ∈ between log a b) : a < line.seq ∧ line.seq ≤ b := by
  have hmem : line.seq ∈ List.range' (a + 1) (min b ring.lastSeq - a) := by
    rw [← between_seqs h]
    exact mem_map_of_mem hline
  rw [mem_range'_1] at hmem
  omega

/-- A logged line with such a number is there. -/
theorem mem_between {a b : Nat} {line : BufferedLine} (hline : line ∈ log) (ha : a < line.seq) (hb : line.seq ≤ b) : line ∈ between log a b := by
  have hab : a ≤ b := by omega
  have hparts : log = between log 0 a ++ between log a b ++ log.drop b := by
    rw [← between_append log (Nat.zero_le a) hab, between, drop_zero, take_append_drop]
  rw [hparts, mem_append, mem_append] at hline
  rcases hline with (hfront | hmid) | hback
  · exact absurd (seq_of_mem_between h hfront).2 (by omega)
  · exact hmid
  · have hwhole : log.drop b = between log b log.length := by rw [between, take_length]
    rw [hwhole] at hback
    exact absurd (seq_of_mem_between h hback).1 (by omega)

/-- What the response says of the log. -/
theorem response_eq (after : Nat) (limit : Int) : (logsResponse ring true after limit).lines = page log (goneOf log ring) after limit.toNat ∧
    (logsResponse ring true after limit).cursor = nextCursor log (goneOf log ring) after limit.toNat ∧
    (logsResponse ring true after limit).dropped = goneOf log ring - after := by
  obtain ⟨first, hslice, hfirst, hlines⟩ := linesAfter_eq h after limit
  have hlast := h.length
  have hlength := held_length h
  have hcursor : ((page log (goneOf log ring) after limit.toNat).getLast?.map BufferedLine.seq).getD after =
      nextCursor log (goneOf log ring) after limit.toNat := by
    unfold nextCursor
    split
    · next hnil =>
      rw [hnil]
      rfl
    · next hne =>
      have hseqs := between_seqs h (max after (goneOf log ring)) (max after (goneOf log ring) + limit.toNat)
      have hcount := congrArg List.length hseqs
      rw [← page_eq_between] at hseqs hcount
      rw [length_map, length_range'] at hcount
      rw [← getLast?_map, hseqs, getLast?_range', if_neg, hcount]
      · show max after (goneOf log ring) + 1 + _ - 1 = _
        omega
      · rw [← hcount, length_eq_zero_iff]
        exact hne
  refine ⟨hlines, ?_, ?_⟩
  · unfold logsResponse
    simp only [if_true]
    rw [hlines]
    exact hcursor
  · have holdest : (BufferedLinesAfter ring after limit).oldestSeq = (ring.lines.head?.map BufferedLine.seq).getD 0 := by
      rw [hslice]
      rfl
    have hnewest : (BufferedLinesAfter ring after limit).newestSeq = ring.lastSeq := by
      rw [hslice]
      rfl
    have hfirstHeld : (if (BufferedLinesAfter ring after limit).oldestSeq > 0 then
        (BufferedLinesAfter ring after limit).oldestSeq else (BufferedLinesAfter ring after limit).newestSeq + 1) = goneOf log ring + 1 := by
      rw [holdest, hnewest]
      cases hhead : ring.lines.head? with
      | none =>
        have hnil : ring.lines = [] := head?_eq_none_iff.1 hhead
        rw [hnil, length_nil] at hlength
        rw [Option.map_none, Option.getD_none, if_neg (by decide)]
        omega
      | some oldest =>
        rw [Option.map_some, Option.getD_some, oldest_seq h hhead, if_pos (Nat.succ_pos _)]
    unfold logsResponse
    simp only [if_true, Bool.true_and]
    rw [hfirstHeld]
    by_cases hgap : goneOf log ring + 1 > after + 1
    · rw [if_pos (decide_eq_true hgap)]
      omega
    · rw [if_neg (by simpa using hgap)]
      omega

/-- Whether there is more. -/
theorem response_more (after : Nat) {limit : Int} (hlimit : 0 < limit) :
    (logsResponse ring true after limit).more = false ↔ ring.lastSeq ≤ (logsResponse ring true after limit).cursor := by
  obtain ⟨first, hslice, hfirst, hlines⟩ := linesAfter_eq h after limit
  have hlast := h.length
  have hlength := held_length h
  have hmore : (logsResponse ring true after limit).more = decide (min ring.lines.length (first + (max limit 0).toNat) < ring.lines.length) := by
    show (BufferedLinesAfter ring after limit).more = _
    rw [hslice]
    rfl
  rw [hmore, (response_eq h after limit).2.1, decide_eq_false_iff_not]
  have hpos : 0 < limit.toNat := by omega
  rcases nextCursor_cases log (goneOf log ring) after hpos with ⟨hend, -, hnext⟩ | ⟨hless, -, hnext⟩
  · rw [hnext]
    rcases hfirst with ⟨hbefore, hat⟩ | ⟨hbehind, hat⟩
    · have hnone : ring.lines = [] := eq_nil_of_length_eq_zero (by omega)
      have hlog : log ≠ [] := by
        rintro rfl
        rw [length_nil] at hlast
        omega
      exact absurd hnone (h.newest hlog)
    · omega
  · rw [hnext]
    omega

end

end Page

/-! ## Runs -/

/-- What the calls keep. -/
structure Kept (base : Nat) (w : World) : Prop where
  ring : RingFacts w.log w.ring
  reads : Reads w.log base w.reader

theorem Kept.start (base : Nat) : Kept base (World.start base) := ⟨RingFacts.empty, Reads.start [] base⟩

variable {base : Nat} {w : World}

theorem Kept.step {call : Call} (h : Kept base w) (hcall : Positive w call) : Kept base (w.step call) := by
  cases call with
  | buffer chunk now => exact ⟨h.ring.buffer chunk now, h.reads.push _⟩
  | linesAfter after limit | tail limit => exact h
  | poll limit =>
    have hpos : 0 < limit := hcall
    obtain ⟨hlines, hcursor, hdropped⟩ := response_eq h.ring w.reader.cursor limit
    have hlength := held_length h.ring
    have hheld : w.log ≠ [] → goneOf w.log w.ring < w.log.length := by
      intro hne
      have hnonempty := length_pos_iff.2 (h.ring.newest hne)
      omega
    have hreads := h.reads.poll (by omega) hheld (show 0 < limit.toNat by omega)
    refine ⟨h.ring, ?_⟩
    unfold World.step
    dsimp only
    rw [hlines, hcursor, hdropped]
    exact hreads

theorem Kept.polled {call : Call} (h : Kept base w) (hcall : Positive w call) : Polled w call := by
  cases call with
  | buffer chunk now | linesAfter after limit | tail limit => exact trivial
  | poll limit =>
    have hpos : 0 < limit := hcall
    obtain ⟨hlines, hcursor, -⟩ := response_eq h.ring w.reader.cursor limit
    refine ⟨fun line hline => ?_, fun line hline hbehind hupto => ?_, response_more h.ring _ hpos⟩
    · rw [hlines, page_eq_between] at hline
      have hseq := (seq_of_mem_between h.ring hline).1
      omega
    · rw [hcursor] at hupto
      rw [hlines, page_eq_between]
      have hlog : line ∈ w.log := h.ring.held.subset hline
      have hheld : goneOf w.log w.ring < line.seq := by
        rw [held_drop h.ring] at hline
        have hwhole : w.log.drop (goneOf w.log w.ring) = between w.log (goneOf w.log w.ring) w.log.length := by
          rw [between, take_length]
        rw [hwhole] at hline
        exact (seq_of_mem_between h.ring hline).1
      refine mem_between h.ring hlog (by omega) ?_
      rcases nextCursor_cases w.log (goneOf w.log w.ring) w.reader.cursor (show 0 < limit.toNat by omega) with
        ⟨-, -, hnext⟩ | ⟨-, -, hnext⟩ <;> omega

/-- What a client has at any time. -/
theorem Kept.client (h : Kept base w) : ClientFacts base w := by
  have hseqs := between_seqs h.ring base w.reader.cursor
  have hincreasing : ((between w.log base w.reader.cursor).map BufferedLine.seq).Pairwise (· < ·) := by
    rw [hseqs]
    exact pairwise_lt_range'
  have hnodup : (between w.log base w.reader.cursor).Nodup := List.Nodup.of_map BufferedLine.seq (hincreasing.imp Nat.ne_of_lt)
  have hlog : ∀ line ∈ between w.log base w.reader.cursor, line ∈ w.log :=
    fun line hline => mem_of_mem_take (mem_of_mem_drop hline)
  refine ⟨hincreasing.sublist (h.reads.received.map _), fun line hline => ?_, fun line hline => ?_, ?_⟩
  · exact (seq_of_mem_between h.ring (h.reads.received.subset hline)).1
  · exact hlog line (h.reads.received.subset hline)
  · -- the lines asked for are those with their numbers
    have hasked : w.log.filter (fun line => decide (base < line.seq ∧ line.seq ≤ w.reader.cursor ∧ line ∉ w.reader.received)) =
        (between w.log base w.reader.cursor).filter fun line => decide (line ∉ w.reader.received) := by
      have hparts : w.log = between w.log 0 base ++ between w.log base w.reader.cursor ++
          between w.log w.reader.cursor (max w.reader.cursor w.log.length) := by
        rw [← between_append w.log (Nat.zero_le base) h.reads.from_start,
          ← between_append w.log (Nat.zero_le _) (Nat.le_max_left _ _), between, drop_zero,
          take_of_length_le (Nat.le_max_right _ _)]
      have hfront : (between w.log 0 base).filter (fun line =>
        decide (base < line.seq ∧ line.seq ≤ w.reader.cursor ∧ line ∉ w.reader.received)) = [] := by
        refine filter_eq_nil_iff.2 fun line hline hin => ?_
        have hhigh := (seq_of_mem_between h.ring hline).2
        have hlow := (of_decide_eq_true hin).1
        omega
      have hback : (between w.log w.reader.cursor (max w.reader.cursor w.log.length)).filter (fun line =>
        decide (base < line.seq ∧ line.seq ≤ w.reader.cursor ∧ line ∉ w.reader.received)) = [] := by
        refine filter_eq_nil_iff.2 fun line hline hin => ?_
        have hlow := (seq_of_mem_between h.ring hline).1
        have hhigh := (of_decide_eq_true hin).2.1
        omega
      conv_lhs => rw [hparts]
      rw [filter_append, filter_append, hfront, hback, nil_append, append_nil]
      refine filter_congr fun line hline => ?_
      obtain ⟨hlow, hhigh⟩ := seq_of_mem_between h.ring hline
      simp [hlow, hhigh]
    have hcount := length_filter_notMem h.reads.received hnodup
    have hdropped := h.reads.dropped
    rw [hasked]
    omega

/-- In every order of calls the ring keeps its facts and a client that asks for at least one line at a time has, at
any time, got lines under increasing numbers and been told of exactly those it went without; each poll gives what
is held, without a gap, and says whether that is all. -/
theorem log_kept (base : Nat) (calls : List Call) (hcalls : ∀ limit, .poll limit ∈ calls → 0 < limit) :
    RingFacts (run World.step (World.start base) calls).log (run World.step (World.start base) calls).ring ∧
    ClientFacts base (run World.step (World.start base) calls) ∧ Along World.step Polled (World.start base) calls := by
  have hpositive : ∀ w, ∀ call ∈ calls, Positive w call := by
    intro w call hcall
    cases call with
    | poll limit => exact hcalls limit hcall
    | buffer chunk now | linesAfter after limit | tail limit => exact trivial
  have halong : Along World.step Positive (World.start base) calls := along_of_forall (C := Positive (World.start base)) calls _ (hpositive _)
  have hkept := inv_run (fun w call h => Kept.step h) calls _ (Kept.start base) halong
  exact ⟨hkept.ring, hkept.client, along_mono (fun w call h => Kept.step h) (fun w call h => Kept.polled h) calls _ (Kept.start base) halong⟩

/-- A client that starts at 0, reads one line, is away while the log takes two, and reads them. -/
theorem log_kept_some : ClientFacts 0 (run World.step (World.start 0) [.buffer [97] 0, .poll 1, .buffer [98, 10, 99] 0, .poll 2]) :=
  (log_kept 0 [.buffer [97] 0, .poll 1, .buffer [98, 10, 99] 0, .poll 2] (by simp)).2.1

end Throne.Api.Remote.LogFeed
