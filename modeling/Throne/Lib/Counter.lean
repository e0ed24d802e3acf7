import Mathlib.Data.List.Basic

/-!
# Reading a counter that may restart

A reader of a growing counter keeps the last value it saw and counts the growth since. A value below
the last one is taken for a restarted counter and counted whole. `counted` adds up what such a reader
counts over a list of values. Over values in order it counts the last value, less what the base from
which it started hides (`counted_add_hidden`).
-/

namespace Throne.Lib.Counter

open List

/-- What a reader with the last value `base` counts for the value `c`. -/
def growth (base c : Nat) : Nat := if base ≤ c then c - base else c

/-- What a reader with the last value `base` counts over a list of values. -/
def counted : Nat → List Nat → Nat
  | _, [] => 0
  | base, c :: cs => growth base c + counted c cs

/-- The part of the first value that a base hides: the base, unless the value is below it. -/
def hidden (base : Nat) : List Nat → Nat
  | [] => 0
  | c :: _ => if base ≤ c then base else 0

@[simp] theorem counted_nil (base : Nat) : counted base [] = 0 := rfl

@[simp] theorem counted_cons (base c : Nat) (cs : List Nat) :
    counted base (c :: cs) = growth base c + counted c cs := rfl

theorem growth_add_hidden (base c : Nat) (cs : List Nat) : growth base c + hidden base (c :: cs) = c := by
  show (if base ≤ c then c - base else c) + (if base ≤ c then base else 0) = c
  split <;> omega

/-- From a value on, a reader of values in order counts the rest of the growth. -/
theorem counted_sorted (c : Nat) (cs : List Nat) (h : (c :: cs).Pairwise (· ≤ ·)) : counted c cs + c = (c :: cs).getLast (cons_ne_nil c cs) := by
  induction cs generalizing c with
  | nil => simp
  | cons d cs ih =>
    rw [pairwise_cons] at h
    have hle : c ≤ d := h.1 d mem_cons_self
    have hrest := ih d h.2
    rw [getLast_cons (cons_ne_nil d cs), ← hrest, counted_cons, growth, if_pos hle]
    omega

/-- Over values in order a reader counts the last value, less what its base hides. -/
theorem counted_add_hidden (base : Nat) {cs : List Nat} (h : cs.Pairwise (· ≤ ·)) : counted base cs + hidden base cs = cs.getLast?.getD 0 := by
  cases cs with
  | nil => rfl
  | cons c cs =>
    have hrest := counted_sorted c cs h
    have hfirst := growth_add_hidden base c cs
    rw [getLast?_eq_some_getLast (cons_ne_nil c cs), Option.getD_some, ← hrest, counted_cons]
    omega

/-- A base hides nothing exactly when it is zero or above the first value. -/
theorem hidden_eq_zero_iff (base : Nat) (cs : List Nat) : hidden base cs = 0 ↔ base = 0 ∨ ∀ c ∈ cs.head?, c < base := by
  cases cs with
  | nil => simp [hidden]
  | cons c cs =>
    simp only [hidden, head?_cons, Option.mem_some_iff, forall_eq']
    split <;> omega

end Throne.Lib.Counter
