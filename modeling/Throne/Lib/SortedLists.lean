import Mathlib.Data.List.Basic

/-!
# Sorted lists

A list that is in order but for some of its elements (`SortedBut`), and how it comes into order again: the others
fit where they stand (`pairwise_of_fits`), or the list is sorted by an order that need be one on its elements alone
(`pairwise_mergeSort_of_mem`), or they are inserted one by one at the place that a search by halving
finds (`pairwise_insertIdx`, `upperBound_ok`). The search asks an oracle that may fail to answer; where it answers,
only what it says about the list counts.
-/

namespace Throne.Lib.SortedLists

open List

universe u v

variable {α : Type u} {R : α → α → Prop} {xs : List α}

/-! ## In order but for some elements -/

/-- In order but for the elements of a kind, wherever these stand. -/
def SortedBut (c : α → Prop) (R : α → α → Prop) (xs : List α) : Prop :=
  xs.Pairwise fun x y => ¬c x → ¬c y → R x y

variable {c : α → Prop}

theorem sortedBut_none (h : ∀ x ∈ xs, ¬c x) : SortedBut c R xs ↔ xs.Pairwise R := by
  constructor
  · intro hsorted
    exact hsorted.imp_of_mem fun hx hy hxy => hxy (h _ hx) (h _ hy)
  · intro hsorted
    exact hsorted.imp fun hxy _ _ => hxy

/-- Fewer elements are left in order, and by an order that agrees on them. -/
theorem SortedBut.mono {d : α → Prop} {S : α → α → Prop} (h : SortedBut c R xs)
    (hcd : ∀ x ∈ xs, c x → d x) (hRS : ∀ x ∈ xs, ∀ y ∈ xs, ¬d x → ¬d y → R x y → S x y) : SortedBut d S xs := by
  apply List.Pairwise.imp_of_mem _ h
  intro x y hx hy hxy hdx hdy
  exact hRS x hx y hy hdx hdy (hxy (fun hc => hdx (hcd x hx hc)) fun hc => hdy (hcd y hy hc))

theorem sortedBut_filter {p : α → Bool} (hp : ∀ x, p x = true ↔ ¬c x) : SortedBut c R xs ↔ (xs.filter p).Pairwise R := by
  rw [pairwise_filter, SortedBut]
  simp only [hp]

/-- The rest is in order, and each of the other elements fits where it stands. -/
theorem pairwise_of_fits (htrans : ∀ x ∈ xs, ∀ y ∈ xs, ∀ z ∈ xs, R x y → R y z → R x z) (hrest : SortedBut c R xs)
    (hfits : ∀ i (_ : i + 1 < xs.length), c xs[i] ∨ c xs[i + 1] → R xs[i] xs[i + 1]) : xs.Pairwise R := by
  -- among the elements of the list the order is transitive
  let S (x y : α) : Prop := x ∈ xs ∧ y ∈ xs ∧ R x y
  have htrans' : Trans S S S := ⟨fun hxy hyz => ⟨hxy.1, hyz.2.1, htrans _ hxy.1 _ hxy.2.1 _ hyz.2.1 hxy.2.2 hyz.2.2⟩⟩
  apply Pairwise.imp (R := S) fun h => h.2.2
  apply isChain_iff_pairwise.1
  apply isChain_iff_getElem.2
  intro i hi
  refine ⟨getElem_mem _, getElem_mem _, ?_⟩
  by_cases hmoved : c xs[i] ∨ c xs[i + 1]
  · exact hfits i hi hmoved
  · rw [not_or] at hmoved
    exact pairwise_iff_getElem.1 hrest i (i + 1) (by omega) hi (Nat.lt_succ_self i) hmoved.1 hmoved.2

/-! ## Sorting -/

section Sorting

variable {le : α → α → Bool}

/-- Only the elements of a list are compared. -/
theorem mergeSort_attach (xs : List α) (le : α → α → Bool) : (xs.attach.mergeSort fun x y => le x.1 y.1).map Subtype.val = xs.mergeSort le := by
  rw [map_mergeSort (s := le) fun _ _ _ _ => rfl, attach_map_subtype_val]

variable (htrans : ∀ x ∈ xs, ∀ y ∈ xs, ∀ z ∈ xs, le x y = true → le y z = true → le x z = true)
  (htotal : ∀ x ∈ xs, ∀ y ∈ xs, (le x y || le y x) = true)

include htrans htotal

theorem pairwise_mergeSort_of_mem : (xs.mergeSort le).Pairwise fun x y => le x y = true := by
  rw [← mergeSort_attach, pairwise_map]
  exact pairwise_mergeSort (fun x y z => htrans x.1 x.2 y.1 y.2 z.1 z.2) (fun x y => htotal x.1 x.2 y.1 y.2) _

/-- What is in order stays as it is. -/
theorem sublist_mergeSort_of_mem {ys : List α} (hys : ys.Pairwise fun x y => le x y = true) (hsub : ys <+ xs) : ys <+ xs.mergeSort le := by
  rw [← attach_map_subtype_val xs, sublist_map_iff] at hsub
  obtain ⟨zs, hzs, rfl⟩ := hsub
  rw [pairwise_map] at hys
  rw [← mergeSort_attach]
  exact (sublist_mergeSort (fun x y z => htrans x.1 x.2 y.1 y.2 z.1 z.2) (fun x y => htotal x.1 x.2 y.1 y.2) hys hzs).map Subtype.val

end Sorting

/-! ## Insertion -/

variable {i : Nat}

theorem insertIdx_eq (h : i ≤ xs.length) (x : α) : xs.insertIdx i x = xs.take i ++ x :: xs.drop i := by
  induction i generalizing xs with
  | zero => rfl
  | succ i ih =>
    cases xs with
    | nil => exact absurd h (Nat.not_succ_le_zero i)
    | cons y xs =>
      rw [insertIdx_succ_cons, ih (Nat.le_of_succ_le_succ h), take_succ_cons, drop_succ_cons, cons_append]

theorem pairwise_insertIdx {x : α} (h : xs.Pairwise R) (hi : i ≤ xs.length)
    (hfront : ∀ y ∈ xs.take i, R y x) (hback : ∀ y ∈ xs.drop i, R x y) : (xs.insertIdx i x).Pairwise R := by
  have hsplit : (xs.take i ++ xs.drop i).Pairwise R := by rwa [take_append_drop]
  obtain ⟨htake, hdrop, hboth⟩ := pairwise_append.1 hsplit
  rw [insertIdx_eq hi]
  refine pairwise_append.2 ⟨htake, pairwise_cons.2 ⟨hback, hdrop⟩, ?_⟩
  intro y hy z hz
  rcases mem_cons.1 hz with rfl | hz
  · exact hfront y hy
  · exact hboth y hy z hz

/-- What is inserted does not count among others. -/
theorem filter_insertIdx {p : α → Bool} {x : α} (hx : p x = false) (hi : i ≤ xs.length) : (xs.insertIdx i x).filter p = xs.filter p := by
  rw [insertIdx_eq hi, filter_append, filter_cons_of_neg (by rw [hx]; exact Bool.false_ne_true), ← filter_append, take_append_drop]

/-! ## The search -/

variable {place : Nat}

section Search

variable {ε : Type v}

/-- The first place that a value comes before, searched from a place on among a number of elements. -/
def upperBound (before : α → Except ε Bool) (xs : List α) : Nat → Nat → Nat → Except ε Nat
  | 0, first, _ => .ok first
  | fuel + 1, first, count =>
    if count = 0 then .ok first
    else
      match xs[first + count / 2]? with
      | none => .ok first
      | some x =>
        match before x with
        | .error e => .error e
        | .ok true => upperBound before xs fuel first (count / 2)
        | .ok false => upperBound before xs fuel (first + count / 2 + 1) (count - count / 2 - 1)

variable {before : α → Except ε Bool} {p : α → Prop}

/-- An oracle that answers always finds a place. -/
theorem upperBound_total (hanswers : ∀ x, ∃ b, before x = .ok b) (fuel first count : Nat) :
    ∃ place, upperBound before xs fuel first count = .ok place := by
  induction fuel generalizing first count with
  | zero => exact ⟨first, rfl⟩
  | succ fuel ih =>
    rw [upperBound]
    split
    · exact ⟨first, rfl⟩
    split
    · exact ⟨first, rfl⟩
    next x _ =>
    obtain ⟨b, hb⟩ := hanswers x
    rw [hb]
    cases b with
    | true => exact ih first (count / 2)
    | false => exact ih (first + count / 2 + 1) (count - count / 2 - 1)

theorem upperBound_le (fuel first count : Nat) (hend : first + count ≤ xs.length)
    (hfound : upperBound before xs fuel first count = .ok place) : place ≤ xs.length := by
  induction fuel generalizing first count with
  | zero =>
    obtain rfl : first = place := Except.ok.inj hfound
    omega
  | succ fuel ih =>
    rw [upperBound] at hfound
    split at hfound
    · obtain rfl : first = place := Except.ok.inj hfound
      omega
    split at hfound
    · obtain rfl : first = place := Except.ok.inj hfound
      omega
    split at hfound
    · cases hfound
    · exact ih first (count / 2) (by omega) hfound
    · exact ih (first + count / 2 + 1) (count - count / 2 - 1) (by omega) hfound

section

variable (hbefore : ∀ x ∈ xs, ∀ b, before x = .ok b → (b = true ↔ p x)) (hmono : xs.Pairwise fun x y => p x → p y)

include hbefore hmono

/-- What the search keeps: nothing before its window, everything behind it. -/
theorem upperBound_window (fuel first count : Nat) (hfuel : count ≤ fuel) (hend : first + count ≤ xs.length) (hfront : ∀ x ∈ xs.take first, ¬p x)
    (hback : ∀ x ∈ xs.drop (first + count), p x) (hfound : upperBound before xs fuel first count = .ok place) :
    (∀ x ∈ xs.take place, ¬p x) ∧ ∀ x ∈ xs.drop place, p x := by
  induction fuel generalizing first count with
  | zero =>
    obtain rfl : first = place := Except.ok.inj hfound
    obtain rfl : count = 0 := Nat.le_zero.1 hfuel
    exact ⟨hfront, hback⟩
  | succ fuel ih =>
    rw [upperBound] at hfound
    split at hfound
    · next hnone =>
      obtain rfl : first = place := Except.ok.inj hfound
      rw [hnone] at hback
      exact ⟨hfront, hback⟩
    · next hsome =>
      have hmiddle : first + count / 2 < xs.length := by omega
      rw [getElem?_eq_getElem hmiddle] at hfound
      generalize hx : xs[first + count / 2] = x at hfound
      have hmem : x ∈ xs := by
        rw [← hx]
        exact getElem_mem hmiddle
      have hdrop : xs.drop (first + count / 2) = x :: xs.drop (first + count / 2 + 1) := by
        rw [← hx]
        exact drop_eq_getElem_cons hmiddle
      have htake : xs.take (first + count / 2 + 1) = xs.take (first + count / 2) ++ [x] := by
        rw [← hx, take_append_getElem hmiddle]
      simp only at hfound
      cases hanswer : before x with
      | error e =>
        rw [hanswer] at hfound
        cases hfound
      | ok b =>
        rw [hanswer] at hfound
        cases b with
        | true =>
          have hp : p x := (hbefore x hmem true hanswer).1 rfl
          refine ih first (count / 2) (by omega) (by omega) hfront ?_ hfound
          have hpairs : (xs.drop (first + count / 2)).Pairwise fun x y => p x → p y := hmono.drop
          rw [hdrop] at hpairs ⊢
          intro y hy
          rcases mem_cons.1 hy with rfl | hy
          · exact hp
          · exact rel_of_pairwise_cons hpairs hy hp
        | false =>
          have hp : ¬p x := fun hpx => absurd ((hbefore x hmem false hanswer).2 hpx) Bool.false_ne_true
          refine ih (first + count / 2 + 1) (count - count / 2 - 1) (by omega) (by omega) ?_ ?_ hfound
          · have hpairs : (xs.take (first + count / 2 + 1)).Pairwise fun x y => p x → p y := hmono.take
            rw [htake] at hpairs ⊢
            intro y hy
            rcases mem_append.1 hy with hy | hy
            · exact fun hpy => hp ((pairwise_append.1 hpairs).2.2 y hy x mem_cons_self hpy)
            · rwa [mem_singleton.1 hy]
          · rwa [show first + count / 2 + 1 + (count - count / 2 - 1) = first + count by omega]

/-- **The place that is found**: nothing in front of it comes behind the value, everything behind it does. -/
theorem upperBound_ok (hfound : upperBound before xs xs.length 0 xs.length = .ok place) : (∀ x ∈ xs.take place, ¬p x) ∧ ∀ x ∈ xs.drop place, p x := by
  apply upperBound_window hbefore hmono xs.length 0 xs.length (Nat.le_refl _) (by omega) _ _ hfound
  · intro x hx
    cases hx
  · intro x hx
    rw [Nat.zero_add, drop_length] at hx
    cases hx

end

end Search

end Throne.Lib.SortedLists
