import Mathlib.Data.List.Infix
import Mathlib.Data.List.Nodup
import Mathlib.Order.Lattice

/-!
# A log of which the newest entries are held

The entries of a log are numbered from 1, and those up to `gone` are not held any more. A reader asks for what is
held behind its cursor, at most so many entries; its next cursor is the number of the last one it got, and it is
told how many entries in between are gone. `Reads` is what holds of such a reader of a log that grows and whose
front goes: what it got is a part of what it asked for, and what it was told adds up to the rest.
-/

namespace Throne.Lib.Windows

open List

universe u

variable {α : Type u}

section

variable (log : List α)

/-- The entries with the numbers `a + 1` to `b`. -/
def between (a b : Nat) : List α := (log.take b).drop a

theorem length_between (a b : Nat) : (between log a b).length = min b log.length - a := by
  rw [between, length_drop, length_take]

theorem between_of_le {a b : Nat} (h : b ≤ a) : between log a b = [] := by
  refine drop_eq_nil_of_le ?_
  rw [length_take]
  omega

/-- What is asked for up to two numbers, one behind the other. -/
theorem between_append {a b c : Nat} (hab : a ≤ b) (hbc : b ≤ c) : between log a c = between log a b ++ between log b c := by
  by_cases hb : b ≤ log.length
  · have htake : log.take c = log.take b ++ (log.take c).drop b := by
      have hparts := take_append_drop b (log.take c)
      rw [take_take, Nat.min_eq_left hbc] at hparts
      exact hparts.symm
    have ha : a ≤ (log.take b).length := by
      rw [length_take]
      omega
    calc between log a c = (log.take b ++ (log.take c).drop b).drop a := congrArg (List.drop a) htake
      _ = between log a b ++ between log b c := drop_append_of_le_length ha
  · have hall : log.length ≤ b := by omega
    rw [between, between, between, take_of_length_le hall, take_of_length_le (hall.trans hbc), drop_eq_nil_of_le hall, append_nil]

/-- A log that grows keeps what was in it. -/
theorem between_grow (log more : List α) {a b : Nat} (h : b ≤ log.length) : between (log ++ more) a b = between log a b := by
  rw [between, between, take_append_of_le_length h]

variable (gone after limit : Nat)

/-- The part of the log that is asked for and held. -/
def page : List α := (log.drop (max after gone)).take limit

theorem length_page : (page log gone after limit).length = min limit (log.length - max after gone) := by
  rw [page, length_take, length_drop]

/-- A page is what is between two numbers. -/
theorem page_eq_between : page log gone after limit = between log (max after gone) (max after gone + limit) := by
  rw [page, between, take_drop, Nat.add_comm]

/-- A reader: its cursor, what it got, and how many entries it was told are gone. -/
structure Reader (α : Type u) where
  cursor : Nat
  received : List α
  dropped : Nat

/-- The cursor behind a page. -/
def nextCursor : Nat :=
  if page log gone after limit = [] then after else max after gone + (page log gone after limit).length

/-- A poll: the page, the number of its last entry, and the count of those before it that are gone. -/
def Reader.poll (gone limit : Nat) (reader : Reader α) : Reader α where
  cursor := nextCursor log gone reader.cursor limit
  received := reader.received ++ page log gone reader.cursor limit
  dropped := reader.dropped + (gone - reader.cursor)

end

/-- What a reader has of a log that it reads from a number on. -/
structure Reads (log : List α) (start : Nat) (reader : Reader α) : Prop where
  from_start : start ≤ reader.cursor
  cursor : reader.cursor ≤ log.length ∨ reader.cursor = start
  received : reader.received.Sublist (between log start reader.cursor)
  dropped : reader.dropped + reader.received.length = (between log start reader.cursor).length

variable {log : List α} {base gone limit : Nat} {reader : Reader α}

theorem Reads.start (log : List α) (base : Nat) : Reads log base ⟨base, [], 0⟩ where
  from_start := Nat.le_refl _
  cursor := .inr rfl
  received := nil_sublist _
  dropped := by
    rw [between_of_le log (Nat.le_refl _)]
    rfl

theorem Reads.push (h : Reads log base reader) (more : List α) : Reads (log ++ more) base reader := by
  have hsame : between (log ++ more) base reader.cursor = between log base reader.cursor := by
    rcases h.cursor with hle | heq
    · exact between_grow log more hle
    · rw [heq, between_of_le _ (Nat.le_refl _), between_of_le _ (Nat.le_refl _)]
  refine ⟨h.from_start, ?_, hsame ▸ h.received, hsame ▸ h.dropped⟩
  rcases h.cursor with hle | heq
  · rw [length_append]
    exact .inl (hle.trans (Nat.le_add_right _ _))
  · exact .inr heq

/-- The cursor behind a page: it stays, with nothing to get, or it is the last number of the page. -/
theorem nextCursor_cases (log : List α) (gone after : Nat) (hlimit : 0 < limit) :
    (log.length ≤ max after gone ∧ page log gone after limit = [] ∧ nextCursor log gone after limit = after) ∨
    (max after gone < log.length ∧ page log gone after limit ≠ [] ∧
    nextCursor log gone after limit = min (max after gone + limit) log.length) := by
  have hlength := length_page log gone after limit
  by_cases hend : log.length ≤ max after gone
  · have hnil : page log gone after limit = [] := eq_nil_of_length_eq_zero (by omega)
    exact .inl ⟨hend, hnil, if_pos hnil⟩
  · have hne : page log gone after limit ≠ [] := fun hnil => by
      rw [hnil, length_nil] at hlength
      omega
    refine .inr ⟨by omega, hne, ?_⟩
    rw [nextCursor, if_neg hne, hlength]
    omega

theorem Reads.poll (h : Reads log base reader) (hgone : gone ≤ log.length) (hheld : log ≠ [] → gone < log.length)
    (hlimit : 0 < limit) : Reads log base (reader.poll log gone limit) := by
  have hfrom := h.from_start
  rcases nextCursor_cases log gone reader.cursor hlimit with ⟨hend, hnil, hnext⟩ | ⟨hmore, hne, hnext⟩
  · -- nothing is held behind the cursor, and nothing is gone there
    have hzero : gone - reader.cursor = 0 := by
      by_cases hlog : log = []
      · rw [hlog, length_nil] at hgone
        omega
      · have hless := hheld hlog
        omega
    have hpoll : reader.poll log gone limit = reader := by
      rw [Reader.poll, hnext, hnil, hzero, append_nil, Nat.add_zero]
    rw [hpoll]
    exact h
  · have hbetween : page log gone reader.cursor limit = between log (max reader.cursor gone) (nextCursor log gone reader.cursor limit) := by
      rw [page_eq_between, hnext]
      by_cases hle : max reader.cursor gone + limit ≤ log.length
      · rw [Nat.min_eq_left hle]
      · rw [between, between, take_of_length_le (by omega), Nat.min_eq_right (by omega), take_of_length_le (Nat.le_refl _)]
    have hsplit : between log base (nextCursor log gone reader.cursor limit) =
        between log base reader.cursor ++ (between log reader.cursor (max reader.cursor gone) ++ page log gone reader.cursor limit) := by
      rw [hbetween, ← between_append log (Nat.le_max_left reader.cursor gone) (by omega), ← between_append log hfrom (by omega)]
    refine ⟨?_, ?_, ?_, ?_⟩
    · show base ≤ nextCursor log gone reader.cursor limit
      omega
    · exact .inl (show nextCursor log gone reader.cursor limit ≤ log.length by omega)
    · show (reader.received ++ page log gone reader.cursor limit).Sublist (between log base (nextCursor log gone reader.cursor limit))
      rw [hsplit]
      exact h.received.append (sublist_append_right _ _)
    · show reader.dropped + (gone - reader.cursor) + (reader.received ++ page log gone reader.cursor limit).length =
        (between log base (nextCursor log gone reader.cursor limit)).length
      have hdropped := h.dropped
      rw [hsplit, length_append, length_append, length_append, ← hdropped, length_between log reader.cursor (max reader.cursor gone)]
      omega

/-- What is not in a part of a list without repetitions is as much as the part lacks. -/
theorem length_filter_notMem [DecidableEq α] {part whole : List α} (hpart : part.Sublist whole) (hnodup : whole.Nodup) :
    (whole.filter fun entry => decide (entry ∉ part)).length + part.length = whole.length := by
  induction hpart with
  | slnil => rfl
  | cons entry hsub ih =>
    rename_i part whole
    rw [nodup_cons] at hnodup
    have hnot : entry ∉ part := fun hin => hnodup.1 (hsub.subset hin)
    rw [filter_cons_of_pos (by simpa using hnot), length_cons, length_cons, Nat.succ_add, ih hnodup.2]
  | cons_cons entry hsub ih =>
    rename_i part whole
    rw [nodup_cons] at hnodup
    have hsame : whole.filter (fun other => decide (other ∉ entry :: part)) = whole.filter fun other => decide (other ∉ part) := by
      refine filter_congr fun other hother => ?_
      have hne : other ≠ entry := fun heq => hnodup.1 (heq ▸ hother)
      simp [hne]
    rw [filter_cons_of_neg (by simp), hsame, length_cons, length_cons, ← Nat.add_assoc, ih hnodup.2]

end Throne.Lib.Windows
