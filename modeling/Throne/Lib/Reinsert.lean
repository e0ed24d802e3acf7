import Throne.Lib.SortedLists

/-!
# Taken out and put back

The elements of a kind are taken out of a list with their places (`taken`) and put back into another list, each at
its place or at the end of a list that is shorter (`putBack`). Back in their own list they make it again
(`putBack_taken`). In any other list they keep their order, and so do the elements that were there
(`filter_putBack`, `others_putBack`).
-/

namespace Throne.Lib.Reinsert

open Lib.SortedLists List

universe u

variable {α : Type u} {p : α → Bool}

def taken (p : α → Bool) (xs : List α) : List (α × Nat) := xs.zipIdx.filter fun x => p x.1

def putBack (ys : List α) (xs : List (α × Nat)) : List α :=
  xs.foldl (fun ys x => ys.insertIdx (min x.2 ys.length) x.1) ys

/-- Put back behind a part of the list that is whole already. -/
theorem putBack_from (xs front : List α) :
    putBack (front ++ xs.filter fun x => !p x) ((xs.zipIdx front.length).filter fun x => p x.1) = front ++ xs := by
  induction xs generalizing front with
  | nil => rfl
  | cons x xs ih =>
    have hrest := ih (front ++ [x])
    rw [length_append, length_singleton, append_assoc, append_assoc] at hrest
    rw [zipIdx_cons, filter_cons, filter_cons]
    cases hp : p x with
    | false => exact hrest
    | true =>
      have hplace : min front.length (front ++ xs.filter fun x => !p x).length = front.length := by
        rw [length_append]
        omega
      have hinsert : (front ++ xs.filter fun x => !p x).insertIdx front.length x = front ++ x :: xs.filter fun x => !p x := by
        rw [insertIdx_eq (by rw [length_append]; omega), take_left, drop_left]
      simp only [Bool.not_true, Bool.false_eq_true, if_false, if_true, putBack, foldl_cons, hplace, hinsert]
      exact hrest

/-- **Back in their own list**: the list is what it was. -/
theorem putBack_taken (xs : List α) : putBack (xs.filter fun x => !p x) (taken p xs) = xs := putBack_from xs []

theorem taken_kind {xs : List α} : ∀ x ∈ taken p xs, p x.1 = true := fun _ hx => (mem_filter.1 hx).2

theorem taken_elements (xs : List α) : (taken p xs).map Prod.fst = xs.filter p := by
  have hmap := filter_map (f := Prod.fst) (p := p) (l := xs.zipIdx)
  rw [zipIdx_map_fst] at hmap
  exact hmap.symm

/-- The places go up. -/
theorem taken_places (xs : List α) : (taken p xs).Pairwise fun x y => x.2 < y.2 := by
  apply List.Pairwise.filter
  have hplaces : (xs.zipIdx.map Prod.snd).Pairwise (· < ·) := by
    rw [zipIdx_map_snd]
    exact pairwise_lt_range'
  exact pairwise_map.1 hplaces

/-- The elements of the other list stay as they stand. -/
theorem others_putBack {ys : List α} {xs : List (α × Nat)} (h : ∀ x ∈ xs, p x.1 = true) :
    (putBack ys xs).filter (fun x => !p x) = ys.filter fun x => !p x := by
  induction xs generalizing ys with
  | nil => rfl
  | cons x xs ih =>
    have hx : (!p x.1) = false := by
      rw [h x mem_cons_self]
      rfl
    calc (putBack ys (x :: xs)).filter (fun x => !p x)
        = (ys.insertIdx (min x.2 ys.length) x.1).filter (fun x => !p x) :=
          ih fun y hy => h y (mem_cons_of_mem _ hy)
      _ = ys.filter fun x => !p x := by
          apply filter_insertIdx _ (Nat.min_le_right _ _)
          exact hx

/-- The elements that are put back keep their order, behind those of their kind that are there already. -/
theorem filter_putBack_from {ys : List α} {xs : List (α × Nat)} (hkind : ∀ x ∈ xs, p x.1 = true)
    (hplaces : xs.Pairwise fun x y => x.2 < y.2) (hfree : ∀ x ∈ xs, (ys.drop (min x.2 ys.length)).filter p = []) :
    (putBack ys xs).filter p = ys.filter p ++ xs.map Prod.fst := by
  induction xs generalizing ys with
  | nil => rw [map_nil, append_nil]; rfl
  | cons x xs ih =>
    obtain ⟨hbelow, hplaces⟩ := pairwise_cons.1 hplaces
    obtain ⟨place, hplace⟩ : ∃ place, place = min x.2 ys.length := ⟨_, rfl⟩
    have hle : place ≤ ys.length := hplace ▸ Nat.min_le_right _ _
    have hnone : (ys.drop place).filter p = [] := hplace ▸ hfree x mem_cons_self
    have hinsert := insertIdx_eq hle x.1
    have hkept : (ys.insertIdx place x.1).filter p = ys.filter p ++ [x.1] := by
      calc (ys.insertIdx place x.1).filter p
          = (ys.take place).filter p ++ x.1 :: (ys.drop place).filter p := by
            rw [hinsert, filter_append, filter_cons_of_pos (hkind x mem_cons_self)]
        _ = (ys.take place ++ ys.drop place).filter p ++ [x.1] := by
            rw [filter_append, hnone, append_nil]
        _ = ys.filter p ++ [x.1] := by rw [take_append_drop]
    have hnext : ∀ y ∈ xs, ((ys.insertIdx place x.1).drop (min y.2 (ys.insertIdx place x.1).length)).filter p = [] := by
      intro y hy
      have hlength : (ys.insertIdx place x.1).length = ys.length + 1 := length_insertIdx_of_le_length hle _
      have hbehind : place + 1 ≤ min y.2 (ys.insertIdx place x.1).length := by
        have hlt := hbelow y hy
        omega
      -- behind the place there is nothing of the kind
      rw [hinsert]
      rw [hinsert] at hbehind
      rw [drop_append, length_take, Nat.min_eq_left hle, filter_append, append_eq_nil_iff]
      constructor
      · rw [drop_eq_nil_of_le]
        · rfl
        · rw [length_take]
          omega
      · obtain ⟨more, hmore⟩ := Nat.exists_eq_add_of_le hbehind
        rw [hmore, show place + 1 + more - place = more + 1 by omega, drop_succ_cons]
        rw [filter_eq_nil_iff] at hnone ⊢
        exact fun z hz => hnone z (mem_of_mem_drop hz)
    have hrest := ih (fun y hy => hkind y (mem_cons_of_mem _ hy)) hplaces hnext
    rw [hkept, append_assoc] at hrest
    rw [putBack, foldl_cons, ← hplace]
    exact hrest

/-- The elements that are put back into a list without their kind keep their order. -/
theorem filter_putBack {ys xs : List α} (hys : ys.filter p = []) : (putBack ys (taken p xs)).filter p = xs.filter p := by
  rw [filter_putBack_from taken_kind (taken_places xs), hys, nil_append, taken_elements]
  intro x _
  rw [filter_eq_nil_iff] at hys ⊢
  exact fun z hz => hys z (mem_of_mem_drop hz)

end Throne.Lib.Reinsert
