import Mathlib.Data.List.Range
import Mathlib.Data.Nat.ModEq

/-!
# A log in a ring, read by pages

The entries of a log are numbered from 1. A ring keeps the last `size` of them, the entry `n` in the slot `n % size`.
A reader asks for what came after its cursor and gets at most the last `page` entries, with the newest number as its
next cursor. With a page that fits the ring (`page ≤ size`) the reader gets entries of the log under ever greater
numbers, and goes without an entry only when that was at least a page behind the newest at a poll (`Reads`, kept by
`Reads.push` and `Reads.poll`).
-/

namespace Throne.Lib.Pages

open List

universe u

variable {α : Type u}

/-- The slots, and the number of the newest entry. -/
structure RingLog (α : Type u) where
  slots : Nat → α
  last : Nat

def RingLog.push (size : Nat) (ring : RingLog α) (entry : α) : RingLog α where
  slots := Function.update ring.slots ((ring.last + 1) % size) entry
  last := ring.last + 1

/-- The first number of a page. -/
def RingLog.first (page : Nat) (ring : RingLog α) (after : Int) : Nat := (max (max (after + 1) (ring.last - page + 1)) 1).toNat

/-- The entries after a number, the last `page` of them. -/
def RingLog.page (size page : Nat) (ring : RingLog α) (after : Int) : List α :=
  if ring.last ≤ after then []
  else
    let first := ring.first page after
    (List.range' first (ring.last + 1 - first)).map fun n => ring.slots (n % size)

/-! ## What a ring keeps -/

/-- An entry of a log under its number. -/
def Entry (log : List α) (n : Nat) (entry : α) : Prop := 0 < n ∧ log[n - 1]? = some entry

theorem Entry.push {log : List α} {n : Nat} {entry : α} (h : Entry log n entry) (new : α) : Entry (log ++ [new]) n entry := by
  obtain ⟨hpos, hget⟩ := h
  have hlt := (List.getElem?_eq_some_iff.1 hget).1
  refine ⟨hpos, ?_⟩
  rw [getElem?_append_left hlt]
  exact hget

theorem Entry.le_length {log : List α} {n : Nat} {entry : α} (h : Entry log n entry) : n ≤ log.length := by
  have hlt := (List.getElem?_eq_some_iff.1 h.2).1
  have hpos := h.1
  omega

/-- The ring has the last `size` entries of the log. -/
structure Keeps (size : Nat) (ring : RingLog α) (log : List α) : Prop where
  last : ring.last = log.length
  entry : ∀ n, 0 < n → n ≤ log.length → log.length < n + size → Entry log n (ring.slots (n % size))

theorem Keeps.push {size : Nat} {ring : RingLog α} {log : List α} (h : Keeps size ring log) (new : α) :
    Keeps size (ring.push size new) (log ++ [new]) := by
  constructor
  · rw [length_append, RingLog.push, h.last]
    rfl
  · intro n hpos hle hlt
    rw [length_append, length_singleton] at hle hlt
    simp only [RingLog.push, h.last]
    by_cases hnew : n = log.length + 1
    · rw [hnew, Function.update_self]
      refine ⟨Nat.succ_pos _, ?_⟩
      rw [Nat.add_sub_cancel, getElem?_append_right (le_refl _), Nat.sub_self]
      rfl
    · -- Within `size` numbers no two have the same slot.
      have hslot : n % size ≠ (log.length + 1) % size := by
        intro heq
        have hdvd : size ∣ log.length + 1 - n := (Nat.modEq_iff_dvd' (by omega)).1 heq
        have hle' := Nat.le_of_dvd (by omega) hdvd
        omega
      rw [Function.update_of_ne hslot]
      exact (h.entry n hpos (by omega) (by omega)).push new

/-- The numbers of a page. -/
theorem RingLog.mem_page_numbers {page : Nat} {ring : RingLog α} {after : Int} (h : after < ring.last) {n : Nat} :
    n ∈ List.range' (ring.first page after) (ring.last + 1 - ring.first page after) ↔
    0 < n ∧ after < n ∧ ring.last < n + page ∧ n ≤ ring.last := by
  rw [mem_range'_1, RingLog.first]
  omega

/-- A page holds entries of the log under their numbers. -/
theorem Keeps.page {size page : Nat} {ring : RingLog α} {log : List α} (h : Keeps size ring log) (hpage : page ≤ size)
    (after : Int) : ∃ numbers : List Nat, numbers.Pairwise (· < ·) ∧ List.Forall₂ (Entry log) numbers (ring.page size page after) ∧
    ∀ n : Nat, n ∈ numbers ↔ 0 < n ∧ after < n ∧ ring.last < n + page ∧ n ≤ ring.last := by
  rw [RingLog.page]
  split
  · next hle =>
    refine ⟨[], List.Pairwise.nil, List.Forall₂.nil, ?_⟩
    intro n
    constructor
    · exact nofun
    · rintro ⟨-, hafter, -, hlast⟩
      omega
  · next hlt =>
    have hafter : after < ring.last := lt_of_not_ge hlt
    refine ⟨_, pairwise_lt_range', ?_, fun n => RingLog.mem_page_numbers hafter⟩
    rw [List.forall₂_map_right_iff, List.forall₂_same]
    intro n hmem
    obtain ⟨hpos, -, hnear, hle⟩ := (RingLog.mem_page_numbers hafter).1 hmem
    rw [h.last] at hnear hle
    exact h.entry n hpos hle (by omega)

/-! ## Readers -/

/-- A reader: its cursor, what it got, and the newest number at each of its polls. -/
structure Reader (α : Type u) where
  cursor : Int
  received : List α
  newest : List Nat

def Reader.start (cursor : Int) : Reader α := ⟨cursor, [], []⟩

/-- A poll feeds the number back that it returns. -/
def Reader.poll (size page : Nat) (ring : RingLog α) (reader : Reader α) : Reader α where
  cursor := ring.last
  received := reader.received ++ ring.page size page reader.cursor
  newest := reader.newest ++ [ring.last]

/-- What a reader has of a log that it reads from a first cursor on: entries under ever greater numbers, and of those
that it has asked for all but the ones that were a page behind at a poll. -/
structure Reads (page : Nat) (log : List α) (start : Int) (reader : Reader α) : Prop where
  received : ∃ numbers : List Nat, numbers.Pairwise (· < ·) ∧ List.Forall₂ (Entry log) numbers reader.received ∧
    (∀ n ∈ numbers, (n : Int) ≤ reader.cursor) ∧
    ∀ first, reader.newest.head? = some first → ∀ n : Nat, 0 < n → min start first < n → (n : Int) ≤ reader.cursor →
      n ∈ numbers ∨ ∃ newest ∈ reader.newest, n + page ≤ newest
  fresh : reader.newest = [] → reader.cursor = start ∧ reader.received = []
  cursor : reader.newest ≠ [] → reader.cursor ≤ log.length

variable {size page : Nat} {ring : RingLog α} {log : List α} {base : Int} {reader : Reader α}

theorem Reads.start (page : Nat) (log : List α) (start : Int) : Reads page log start (Reader.start start) where
  received := ⟨[], List.Pairwise.nil, List.Forall₂.nil, nofun,
    fun first h => absurd h (by simp [Reader.start])⟩
  fresh := fun _ => ⟨rfl, rfl⟩
  cursor := fun h => absurd rfl h

theorem Reads.push (h : Reads page log base reader) (new : α) : Reads page (log ++ [new]) base reader := by
  obtain ⟨numbers, hsorted, hentries, hle, hgot⟩ := h.received
  refine ⟨⟨numbers, hsorted, hentries.imp fun n entry hentry => hentry.push new, hle, hgot⟩, h.fresh, ?_⟩
  intro hpolled
  have hcursor := h.cursor hpolled
  rw [length_append]
  omega

theorem Reads.poll (h : Reads page log base reader) (hkeeps : Keeps size ring log) (hpage : page ≤ size) :
    Reads page log base (reader.poll size page ring) := by
  obtain ⟨numbers, hsorted, hentries, hle, hgot⟩ := h.received
  obtain ⟨more, hmore, hpaged, hmem⟩ := hkeeps.page hpage reader.cursor
  have hnewest : (reader.poll size page ring).newest = reader.newest ++ [ring.last] := rfl
  refine ⟨⟨numbers ++ more, ?_, rel_append hentries hpaged, ?_, ?_⟩, ?_, ?_⟩
  · refine pairwise_append.2 ⟨hsorted, hmore, ?_⟩
    intro n hn m hm
    have hbelow := hle n hn
    have habove := ((hmem m).1 hm).2.1
    omega
  · intro n hn
    simp only [Reader.poll]
    rcases mem_append.1 hn with hn | hn
    · -- Something was received, so the cursor is the newest number of an earlier poll.
      have hpolled : reader.newest ≠ [] := by
        intro hnone
        have hnil := (h.fresh hnone).2
        rw [hnil, List.forall₂_nil_right_iff] at hentries
        rw [hentries] at hn
        exact not_mem_nil hn
      have hcursor := h.cursor hpolled
      have hbelow := hle n hn
      rw [hkeeps.last]
      omega
    · have hlast := ((hmem n).1 hn).2.2.2
      omega
  · intro first hfirst n hpos hasked hn
    simp only [Reader.poll] at hn
    rw [hnewest] at hfirst ⊢
    by_cases hold : (n : Int) ≤ reader.cursor
    · cases hpolls : reader.newest with
      | nil =>
        obtain ⟨hcursor, -⟩ := h.fresh hpolls
        rw [hpolls] at hfirst
        obtain rfl : ring.last = first := Option.some.inj hfirst
        omega
      | cons earlier polls =>
        rw [hpolls] at hfirst
        have hhead : reader.newest.head? = some first := by
          rw [hpolls]
          exact hfirst
        rcases hgot first hhead n hpos hasked hold with hin | ⟨newest, hpoll, hfar⟩
        · exact .inl (mem_append_left _ hin)
        · rw [hpolls] at hpoll
          exact .inr ⟨newest, mem_append_left _ hpoll, hfar⟩
    · by_cases hnear : ring.last < n + page
      · exact .inl (mem_append_right _ ((hmem n).2 ⟨hpos, by omega, hnear, by omega⟩))
      · exact .inr ⟨ring.last, mem_append_right _ (mem_singleton_self _), by omega⟩
  · intro hnone
    rw [hnewest] at hnone
    exact absurd (append_eq_nil_iff.1 hnone).2 (cons_ne_nil _ _)
  · intro _
    simp only [Reader.poll, hkeeps.last]
    exact le_refl _

end Throne.Lib.Pages
