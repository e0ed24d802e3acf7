import Throne.Lib.Windows
import Mathlib.Algebra.Ring.Int.Defs

/-!
# The lines of the user log

The ring of `src/src/global/LogBuffer.cpp`: the newest lines of the log, at most 5000 of them and at most 4 MiB of
text. Texts are lists of UTF-16 units here. A call holds the mutex of the ring, so calls come one after another.

`RingFacts` is what the ring keeps of everything that was logged.
-/

namespace Throne.Global.LogBuffer

open Lib.Windows List

/-- A text in UTF-16 units. -/
abbrev Units := List UInt16

/-- A line with its number and its time. -/
structure BufferedLine where
  seq : Nat
  time : Int
  text : Units
  deriving DecidableEq

/-- Lines of the ring, its newest and its oldest number, and whether lines follow. -/
structure BufferedSlice where
  lines : List BufferedLine
  newestSeq : Nat
  oldestSeq : Nat
  more : Bool

def kMaxLines : Nat := 5000

def kMaxBytes : Int := 4 * 1024 * 1024

def kMaxLineLength : Nat := 8192

/-- The lines that are held, the bytes of their texts, and the number of the newest line of all. -/
structure Ring where
  lines : List BufferedLine
  bytes : Int
  lastSeq : Nat

def Ring.empty : Ring := ⟨[], 0, 0⟩

def textBytes (text : Units) : Int := text.length * 2

def isHighSurrogate (unit : UInt16) : Bool := 0xD800 ≤ unit && unit < 0xDC00

/-- A long line is cut to `kMaxLineLength` units with an ellipsis, never between two surrogates. -/
def clipped (line : Units) : Units :=
  if line.length ≤ kMaxLineLength then line
  else
    let keep := kMaxLineLength - 1
    let keep := if isHighSurrogate (line.getD (keep - 1) 0) then keep - 1 else keep
    line.take keep ++ [0x2026]

/-- The lines of a chunk, without those that are empty. -/
def chunkTexts (chunk : Units) : List Units :=
  (chunk.splitOn 10).filterMap fun line =>
    let line := if line.getLast? = some 13 then line.dropLast else line
    if line.isEmpty then none else some (clipped line)

/-- Lines in front go while there are too many, or too much text. -/
def evict : List BufferedLine → Int → List BufferedLine × Int
  | [], bytes => ([], bytes)
  | line :: lines, bytes =>
    if (line :: lines).length > kMaxLines ∨ bytes > kMaxBytes then evict lines (bytes - textBytes line.text)
    else (line :: lines, bytes)

/-- One line goes in behind, and lines in front go until both bounds hold. -/
def pushLine (now : Int) (ring : Ring) (text : Units) : Ring :=
  let bytes := ring.bytes + textBytes text
  let lastSeq := ring.lastSeq + 1
  let (lines, bytes) := evict (ring.lines ++ [⟨lastSeq, now, text⟩]) bytes
  ⟨lines, bytes, lastSeq⟩

/-- The lines of a chunk, one by one. -/
def BufferUserLog (chunk : Units) (now : Int) (ring : Ring) : Ring := (chunkTexts chunk).foldl (pushLine now) ring

/-- The lines of some texts, numbered behind `seq`. -/
def numbered (now : Int) : Nat → List Units → List BufferedLine
  | _, [] => []
  | seq, text :: texts => ⟨seq + 1, now, text⟩ :: numbered now (seq + 1) texts

/-- At most `limit` lines from the place `first` on. -/
def slice (ring : Ring) (first : Nat) (limit : Int) : BufferedSlice :=
  let stop := min ring.lines.length (first + (max limit 0).toNat)
  { lines := (ring.lines.take stop).drop first
    newestSeq := ring.lastSeq
    oldestSeq := (ring.lines.head?.map BufferedLine.seq).getD 0
    more := decide (stop < ring.lines.length) }

/-- The lines behind the number `after`, from the oldest one when that is gone. -/
def BufferedLinesAfter (ring : Ring) (after : Nat) (limit : Int) : BufferedSlice :=
  match ring.lines.head? with
  | none => slice ring ring.lines.length limit
  | some oldest =>
    if after ≥ ring.lastSeq then slice ring ring.lines.length limit
    else slice ring (if after < oldest.seq then 0 else after - oldest.seq + 1) limit

/-- The newest lines. -/
def BufferedTail (ring : Ring) (limit : Int) : BufferedSlice :=
  slice ring (ring.lines.length - min ring.lines.length (max limit 0).toNat) limit

/-! ## What the ring keeps -/

/-- The bytes of the texts of some lines. -/
def heldBytes (lines : List BufferedLine) : Int := (lines.map fun line => textBytes line.text).sum

/-- More than the ring may hold. -/
def Exceeds (lines : List BufferedLine) : Prop := kMaxLines < lines.length ∨ kMaxBytes < heldBytes lines

/-- The ring and all lines that were logged: it holds the newest of them, with consecutive numbers up to `lastSeq`,
within both bounds, and every line that is gone went when the lines from it to the newest were too much. -/
structure RingFacts (log : List BufferedLine) (ring : Ring) : Prop where
  held : ring.lines <:+ log
  logged : log.map BufferedLine.seq = List.range' 1 ring.lastSeq
  consecutive : ring.lines.map BufferedLine.seq = List.range' (ring.lastSeq + 1 - ring.lines.length) ring.lines.length
  bytes : ring.bytes = heldBytes ring.lines
  bounds : ¬Exceeds ring.lines
  newest : log ≠ [] → ring.lines ≠ []
  evicted : ∀ n < log.length - ring.lines.length, ∃ newest ≤ log.length, Exceeds (between log n newest)

theorem length_clipped (line : Units) : (clipped line).length ≤ kMaxLineLength := by
  unfold clipped
  split
  · next h => exact h
  · have hkeep : (if isHighSurrogate (line.getD (kMaxLineLength - 1 - 1) 0) then kMaxLineLength - 1 - 1
        else kMaxLineLength - 1) ≤ kMaxLineLength - 1 := by
      split
      · exact Nat.sub_le _ _
      · exact Nat.le_refl _
    have hone : kMaxLineLength = kMaxLineLength - 1 + 1 := rfl
    dsimp only
    rw [length_append, length_take, length_singleton]
    omega

theorem length_chunkTexts {chunk text : Units} (h : text ∈ chunkTexts chunk) : text.length ≤ kMaxLineLength := by
  obtain ⟨line, -, hline⟩ := mem_filterMap.1 h
  dsimp only at hline
  generalize (if line.getLast? = some 13 then line.dropLast else line) = solid at hline
  split at hline
  · cases hline
  · rw [← Option.some.inj hline]
    exact length_clipped solid

theorem heldBytes_cons (line : BufferedLine) (lines : List BufferedLine) : heldBytes (line :: lines) = textBytes line.text + heldBytes lines := by
  rw [heldBytes, map_cons, sum_cons, heldBytes]

theorem heldBytes_append (front back : List BufferedLine) : heldBytes (front ++ back) = heldBytes front + heldBytes back := by
  rw [heldBytes, map_append, sum_append, heldBytes, heldBytes]

/-- What goes are the lines in front, as long as what is there is too much. -/
theorem evict_spec (lines : List BufferedLine) : ∃ k ≤ lines.length, evict lines (heldBytes lines) = (lines.drop k, heldBytes (lines.drop k)) ∧
    ¬Exceeds (lines.drop k) ∧ ∀ j < k, Exceeds (lines.drop j) := by
  induction lines with
  | nil =>
    refine ⟨0, Nat.le_refl _, rfl, ?_, fun j hj => absurd hj (Nat.not_lt_zero j)⟩
    rintro (hlines | hbytes)
    · cases hlines
    · cases hbytes
  | cons line lines ih =>
    by_cases hover : (line :: lines).length > kMaxLines ∨ heldBytes (line :: lines) > kMaxBytes
    · obtain ⟨k, hk, hevict, hbounds, hfront⟩ := ih
      refine ⟨k + 1, Nat.succ_le_succ hk, ?_, hbounds, fun j hj => ?_⟩
      · have hrest : heldBytes (line :: lines) - textBytes line.text = heldBytes lines := by
          rw [heldBytes_cons]
          omega
        rw [evict, if_pos hover, hrest, hevict]
        rfl
      · cases j with
        | zero => exact hover
        | succ j => exact hfront j (Nat.lt_of_succ_lt_succ hj)
    · exact ⟨0, Nat.zero_le _, by rw [evict, if_neg hover]; rfl, hover, fun j hj => absurd hj (Nat.not_lt_zero j)⟩

variable {log : List BufferedLine} {ring : Ring}

theorem RingFacts.length (h : RingFacts log ring) : log.length = ring.lastSeq := by
  have hlength := congrArg List.length h.logged
  rwa [length_map, length_range'] at hlength

/-- The ring holds what is not gone. -/
theorem RingFacts.drop (h : RingFacts log ring) : ring.lines = log.drop (log.length - ring.lines.length) := by
  obtain ⟨front, hfront⟩ := h.held
  have hlength := congrArg List.length hfront
  rw [length_append] at hlength
  rw [← hfront, length_append, Nat.add_sub_cancel, drop_left]

/-- Consecutive numbers stay so without the lines in front. -/
theorem consecutive_drop {n : Nat} (h : log.map BufferedLine.seq = List.range' 1 n) (k : Nat) (hk : k ≤ n) :
    (log.drop k).map BufferedLine.seq = List.range' (n + 1 - (log.drop k).length) (log.drop k).length := by
  have hlength := congrArg List.length h
  rw [length_map, length_range'] at hlength
  rw [map_drop, h, drop_range', length_drop, hlength]
  congr 1
  omega

theorem RingFacts.empty : RingFacts [] Ring.empty where
  held := suffix_refl _
  logged := rfl
  consecutive := rfl
  bytes := rfl
  bounds := by
    rintro (hlines | hbytes)
    · cases hlines
    · cases hbytes
  newest := fun h => absurd rfl h
  evicted := fun n hn => absurd hn (Nat.not_lt_zero n)

/-- One line more. -/
theorem RingFacts.push (h : RingFacts log ring) (now : Int) {text : Units} (htext : text.length ≤ kMaxLineLength) :
    RingFacts (log ++ [⟨ring.lastSeq + 1, now, text⟩]) (pushLine now ring text) := by
  have hdrop := h.drop
  have hlength := h.length
  have hle := h.held.length_le
  obtain ⟨gone, hgone⟩ : ∃ gone, log.length - ring.lines.length = gone := ⟨_, rfl⟩
  obtain ⟨line, hline⟩ : ∃ line : BufferedLine, line = ⟨ring.lastSeq + 1, now, text⟩ := ⟨_, rfl⟩
  obtain ⟨whole, hwhole⟩ : ∃ whole, log ++ [line] = whole := ⟨_, rfl⟩
  rw [hgone] at hdrop
  have hwholeLength : whole.length = log.length + 1 := by
    rw [← hwhole, length_append]
    rfl
  have hlines : ring.lines ++ [line] = whole.drop gone := by
    rw [← hwhole, drop_append_of_le_length (by omega), ← hdrop]
  have hbytes : ring.bytes + textBytes text = heldBytes (whole.drop gone) := by
    rw [← hlines, heldBytes_append, h.bytes, hline]
    simp [heldBytes]
  obtain ⟨k, hk, hevict, hbounds, hfront⟩ := evict_spec (whole.drop gone)
  rw [length_drop] at hk
  rw [drop_drop] at hevict hbounds
  have hpush : pushLine now ring text = ⟨whole.drop (gone + k), heldBytes (whole.drop (gone + k)), ring.lastSeq + 1⟩ := by
    unfold pushLine
    dsimp only
    rw [← hline, hlines, hbytes, hevict]
  have hlogged : whole.map BufferedLine.seq = List.range' 1 (ring.lastSeq + 1) := by
    rw [← hwhole, map_append, h.logged, hline, range'_concat]
    simp [Nat.add_comm]
  -- the last line alone is not too much
  have hlast : gone + k < whole.length := by
    by_contra hnot
    have hfits : gone + (whole.length - 1 - gone) = whole.length - 1 := by omega
    have hover := hfront (whole.length - 1 - gone) (by omega)
    have hsingle : whole.drop (whole.length - 1) = [line] := by
      rw [hwholeLength, Nat.add_sub_cancel, ← hwhole, drop_left]
    rw [drop_drop, hfits, hsingle] at hover
    rcases hover with hmany | hmuch
    · rw [length_singleton] at hmany
      exact absurd hmany (by decide)
    · have hone : heldBytes [line] = textBytes text := by
        rw [hline]
        simp [heldBytes]
      have hsmall : text.length ≤ 8192 := htext
      rw [hone, textBytes, kMaxBytes] at hmuch
      omega
  rw [hpush, ← hline, hwhole]
  refine ⟨drop_suffix _ _, hlogged, consecutive_drop hlogged _ (by omega), rfl, hbounds, fun _ hnil => ?_, fun n hn => ?_⟩
  · have hzero := drop_eq_nil_iff.1 hnil
    omega
  · dsimp only at hn
    rw [length_drop] at hn
    by_cases hold : n < gone
    · obtain ⟨newest, hnewest, hover⟩ := h.evicted n (hgone ▸ hold)
      refine ⟨newest, by omega, ?_⟩
      rw [← hwhole, between_grow log [line] hnewest]
      exact hover
    · refine ⟨whole.length, Nat.le_refl _, ?_⟩
      have hover := hfront (n - gone) (by omega)
      rw [drop_drop, show gone + (n - gone) = n by omega] at hover
      rw [between, take_length]
      exact hover

/-- What the ring keeps survives a whole chunk. -/
theorem RingFacts.pushAll {texts : List Units} (htexts : ∀ text ∈ texts, text.length ≤ kMaxLineLength) (h : RingFacts log ring) (now : Int) :
    RingFacts (log ++ numbered now ring.lastSeq texts) (texts.foldl (pushLine now) ring) := by
  induction texts generalizing log ring with
  | nil =>
    rw [numbered, append_nil]
    exact h
  | cons text texts ih =>
    have hpush := h.push now (htexts text mem_cons_self)
    have hrest := ih (fun other hother => htexts other (mem_cons_of_mem _ hother)) hpush
    rw [append_assoc] at hrest
    exact hrest

/-- A chunk logs its lines. -/
theorem RingFacts.buffer (h : RingFacts log ring) (chunk : Units) (now : Int) :
    RingFacts (log ++ numbered now ring.lastSeq (chunkTexts chunk)) (BufferUserLog chunk now ring) :=
  h.pushAll (fun _ => length_chunkTexts) now

end Throne.Global.LogBuffer
