import Mathlib.Algebra.BigOperators.Group.List.Basic
import Mathlib.Tactic.Abel

/-!
# Sums under keys

A ledger keeps an amount under each of its keys: the rows of a table under its primary key, or a hash of
counters. `add` is `+=` and the insert that adds up on conflict. Whatever the rows are, the amounts under the
keys that meet a predicate sum up to what was added under such keys (`total_add`, `total_addAll`), and there
is such a key if something was added under one (`has_addAll`). `groupSum` is a query that sums over groups.
-/

namespace Throne.Lib.Ledger

open List

universe u v w

variable {κ : Type u} {β : Type v} {γ : Type w}

abbrev Amounts (κ : Type u) (β : Type v) := List (κ × β)

/-- Add an amount under a key. -/
def add [DecidableEq κ] [Add β] (key : κ) (amount : β) : Amounts κ β → Amounts κ β
  | [] => [(key, amount)]
  | row :: rows => if row.1 = key then (key, row.2 + amount) :: rows else row :: add key amount rows

/-- Add row after row. -/
def addAll [DecidableEq κ] [Add β] (rows ledger : Amounts κ β) : Amounts κ β :=
  rows.foldl (fun ledger row => add row.1 row.2 ledger) ledger

/-- The sum over the keys that meet a predicate. -/
def total [AddCommMonoid β] (p : κ → Bool) (ledger : Amounts κ β) : β :=
  ((ledger.filter fun row => p row.1).map Prod.snd).sum

/-- There is a key that meets a predicate. -/
def has (p : κ → Bool) (ledger : Amounts κ β) : Bool := ledger.any fun row => p row.1

section Keys

variable (p : κ → Bool)

theorem has_append (rows more : Amounts κ β) : has p (rows ++ more) = (has p rows || has p more) := any_append

theorem has_cons (row : κ × β) (rows : Amounts κ β) : has p (row :: rows) = (p row.1 || has p rows) := rfl

theorem has_split (f : κ → Bool) (ledger : Amounts κ β) :
    (has p (ledger.filter fun row => f row.1) || has p (ledger.filter fun row => !f row.1)) = has p ledger := by
  induction ledger with
  | nil => rfl
  | cons row rows ih =>
    rw [filter_cons, filter_cons, has_cons p row rows, ← ih]
    cases f row.1 with
    | true =>
      simp only [if_true, Bool.not_true, Bool.false_eq_true, if_false, has_cons, Bool.or_assoc]
    | false =>
      simp only [if_true, Bool.not_false, Bool.false_eq_true, if_false, has_cons]
      exact Bool.or_left_comm _ _ _

/-- Rows moved to keys that meet the predicate as the old ones do. -/
theorem has_map {κ' : Type w} {q : κ' → Bool} (move : κ → κ') (rows : Amounts κ β)
    (h : ∀ row ∈ rows, q (move row.1) = p row.1) : has q (rows.map fun row => (move row.1, row.2)) = has p rows := by
  induction rows with
  | nil => rfl
  | cons row rows ih =>
    rw [map_cons, has_cons, has_cons, h row mem_cons_self, ih fun r hr => h r (mem_cons_of_mem row hr)]

theorem has_filter (inside : κ → Bool) (ledger : Amounts κ β) :
    has p (ledger.filter fun row => inside row.1) = has (fun key => inside key && p key) ledger :=
  any_filter

variable [DecidableEq κ] [Add β]

theorem has_add (key : κ) (amount : β) (ledger : Amounts κ β) : has p (add key amount ledger) = (has p ledger || p key) := by
  induction ledger with
  | nil => exact Bool.or_comm _ _
  | cons row rows ih =>
    rw [add]
    split
    · next hkey =>
      rw [has_cons, has_cons, hkey]
      cases p key with
      | true => rfl
      | false => exact (Bool.or_false _).symm
    · rw [has_cons, has_cons, ih, Bool.or_assoc]

theorem has_addAll (rows ledger : Amounts κ β) : has p (addAll rows ledger) = (has p ledger || has p rows) := by
  induction rows generalizing ledger with
  | nil => exact (Bool.or_false _).symm
  | cons row rows ih =>
    rw [addAll, foldl_cons, ← addAll, ih, has_add, has_cons, Bool.or_assoc]

variable {P : κ → Prop}

theorem keys_add {key : κ} (amount : β) {ledger : Amounts κ β} (h : ∀ row ∈ ledger, P row.1) (hkey : P key) :
    ∀ row ∈ add key amount ledger, P row.1 := by
  induction ledger with
  | nil =>
    intro row hrow
    rw [mem_singleton.1 hrow]
    exact hkey
  | cons first rows ih =>
    intro row hrow
    rw [add] at hrow
    split at hrow
    · rcases mem_cons.1 hrow with rfl | hrow
      · exact hkey
      · exact h row (mem_cons_of_mem first hrow)
    · rcases mem_cons.1 hrow with rfl | hrow
      · exact h row mem_cons_self
      · exact ih (fun r hr => h r (mem_cons_of_mem first hr)) row hrow

theorem keys_addAll {rows ledger : Amounts κ β} (h : ∀ row ∈ ledger, P row.1) (hrows : ∀ row ∈ rows, P row.1) :
    ∀ row ∈ addAll rows ledger, P row.1 := by
  induction rows generalizing ledger with
  | nil => exact h
  | cons first rows ih =>
    apply ih
    · exact keys_add first.2 h (hrows first mem_cons_self)
    · exact fun r hr => hrows r (mem_cons_of_mem first hr)

end Keys

section Sums

variable [AddCommMonoid β] (p : κ → Bool)

@[simp] theorem total_nil : total p ([] : Amounts κ β) = 0 := rfl

theorem total_cons (row : κ × β) (rows : Amounts κ β) : total p (row :: rows) = (if p row.1 then row.2 else 0) + total p rows := by
  unfold total
  rw [filter_cons]
  split
  · rw [map_cons, sum_cons]
  · rw [zero_add]

theorem total_append (rows more : Amounts κ β) : total p (rows ++ more) = total p rows + total p more := by
  unfold total
  rw [filter_append, map_append, sum_append]

/-- Rows kept and rows taken away sum up to all of them. -/
theorem total_split (f : κ → Bool) (ledger : Amounts κ β) :
    total p (ledger.filter fun row => f row.1) + total p (ledger.filter fun row => !f row.1) = total p ledger := by
  induction ledger with
  | nil => exact zero_add 0
  | cons row rows ih =>
    rw [filter_cons, filter_cons, total_cons p row rows, ← ih]
    cases f row.1 with
    | true =>
      simp only [if_true, Bool.not_true, Bool.false_eq_true, if_false, total_cons]
      abel
    | false =>
      simp only [if_true, Bool.not_false, Bool.false_eq_true, if_false, total_cons]
      abel

theorem total_map {κ' : Type w} {q : κ' → Bool} (move : κ → κ') (rows : Amounts κ β) (h : ∀ row ∈ rows, q (move row.1) = p row.1) :
    total q (rows.map fun row => (move row.1, row.2)) = total p rows := by
  induction rows with
  | nil => rfl
  | cons row rows ih =>
    rw [map_cons, total_cons, total_cons, h row mem_cons_self, ih fun r hr => h r (mem_cons_of_mem row hr)]

theorem total_filter (inside : κ → Bool) (ledger : Amounts κ β) :
    total p (ledger.filter fun row => inside row.1) = total (fun key => inside key && p key) ledger := by
  unfold total
  rw [filter_filter]
  congr 2
  apply filter_congr
  exact fun row _ => Bool.and_comm _ _

/-- Rows of nothing may be left out. -/
theorem total_nonzero [DecidableEq β] (ledger : Amounts κ β) : total p (ledger.filter fun row => decide (row.2 ≠ 0)) = total p ledger := by
  induction ledger with
  | nil => rfl
  | cons row rows ih =>
    rw [filter_cons, total_cons p row rows]
    split
    · rw [total_cons, ih]
    · next hzero =>
      have hrow : row.2 = 0 := by simpa using hzero
      rw [ih, hrow, ite_self, zero_add]

variable [DecidableEq κ]

theorem total_add (key : κ) (amount : β) (ledger : Amounts κ β) : total p (add key amount ledger) = total p ledger + if p key then amount else 0 := by
  induction ledger with
  | nil => rw [add, total_cons, total_nil, add_zero, zero_add]
  | cons row rows ih =>
    rw [add]
    split
    · next hkey =>
      rw [total_cons, total_cons, hkey]
      cases p key with
      | true =>
        simp only [if_true]
        abel
      | false =>
        simp only [Bool.false_eq_true, if_false]
        abel
    · rw [total_cons, total_cons, ih, add_assoc]

theorem total_addAll (rows ledger : Amounts κ β) : total p (addAll rows ledger) = total p ledger + total p rows := by
  induction rows generalizing ledger with
  | nil => exact (add_zero _).symm
  | cons row rows ih =>
    rw [addAll, foldl_cons, ← addAll, ih, total_add, total_cons, add_assoc]

end Sums

/-! ## Grouped sums -/

/-- The sum of each group there is a row of. -/
def groupSum [DecidableEq γ] [AddCommMonoid β] (group : κ → γ) (rows : Amounts κ β) (g : γ) : Option β :=
  if has (fun key => decide (group key = g)) rows then
    some (total (fun key => decide (group key = g)) rows)
  else none

/-- Over the rows of two ledgers with keys of some kind. -/
theorem groupSum_union [DecidableEq γ] [AddCommMonoid β] (group : κ → γ) (inside : κ → Bool) (a b : Amounts κ β) (g : γ) :
    groupSum group ((a.filter fun row => inside row.1) ++ b.filter fun row => inside row.1) g =
    if (has (fun key => inside key && decide (group key = g)) a || has (fun key => inside key && decide (group key = g)) b) then
    some (total (fun key => inside key && decide (group key = g)) a +
    total (fun key => inside key && decide (group key = g)) b) else none := by
  rw [groupSum, has_append, has_filter, has_filter, total_append, total_filter, total_filter]

end Throne.Lib.Ledger
