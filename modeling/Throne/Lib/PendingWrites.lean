import Mathlib.Data.List.Nodup

/-!
# Pending writes over a store

A store maps members to values. Writes are collected under the key that made them, at most one for
each member; `value` reads them over the store, and `commit` writes those that differ and returns
their keys. With one write for each member, what `commit` leaves is what `value` reads.
-/

namespace Throne.Lib.PendingWrites

open List

universe u v w

variable {K : Type u} {M : Type v} {V : Type w}

/-- A value for a member, under the key that asked for it. -/
structure Write (K : Type u) (M : Type v) (V : Type w) where
  key : K
  member : M
  value : V

section Reading

variable [DecidableEq M]

/-- The pending value of a member. -/
def value (store : M → V) (writes : List (Write K M V)) (member : M) : V :=
  match writes.find? fun write => write.member = member with
  | some write => write.value
  | none => store member

/-- A write replaces an earlier one of the same member. -/
def set (writes : List (Write K M V)) (key : K) (member : M) (v : V) : List (Write K M V) :=
  writes.filter (fun write => write.member ≠ member) ++ [⟨key, member, v⟩]

/-- At most one write for each member. -/
def Distinct (writes : List (Write K M V)) : Prop := (writes.map Write.member).Nodup

variable {store : M → V} {writes : List (Write K M V)} {member : M}

theorem mem_set {key : K} {v : V} {write : Write K M V} : write ∈ set writes key member v ↔
    (write ∈ writes ∧ write.member ≠ member) ∨ write = ⟨key, member, v⟩ := by
  rw [set, mem_append, mem_filter, decide_eq_true_eq, mem_singleton]

theorem distinct_set (h : Distinct writes) (key : K) (member : M) (v : V) : Distinct (set writes key member v) := by
  rw [Distinct, set, map_append, nodup_append]
  refine ⟨(List.filter_sublist.map Write.member).nodup h, nodup_singleton _, ?_⟩
  intro m hm m' hm'
  obtain ⟨write, hwrite, rfl⟩ := mem_map.1 hm
  rw [mem_filter, decide_eq_true_eq] at hwrite
  rw [map_singleton, mem_singleton] at hm'
  rw [hm']
  exact hwrite.2

theorem find_set_other {key : K} {member' : M} {v : V} (h : member' ≠ member) :
    (set writes key member v).find? (fun write => write.member = member') = writes.find? fun write => write.member = member' := by
  have hnew : ([⟨key, member, v⟩] : List (Write K M V)).find? (fun write => write.member = member') = none := by
    rw [find?_singleton, if_neg]
    rw [decide_eq_true_eq]
    exact fun heq => h heq.symm
  rw [set, find?_append, hnew, Option.or_none, find?_filter]
  refine congrArg (fun p => List.find? p writes) (funext fun write => ?_)
  rcases Decidable.em (write.member = member') with heq | hne
  · rw [heq]
    simp [h]
  · simp [hne]

theorem value_set_other {key : K} {member' : M} {v : V} (h : member' ≠ member) :
    value store (set writes key member v) member' = value store writes member' := by
  rw [value, value, find_set_other h]

@[simp] theorem value_set_self (key : K) (member : M) (v : V) : value store (set writes key member v) member = v := by
  have hold : (writes.filter fun write => write.member ≠ member).find? (fun write => write.member = member) = none := by
    rw [find?_eq_none]
    intro write hwrite
    rw [mem_filter, decide_eq_true_eq] at hwrite
    rw [decide_eq_true_eq]
    exact hwrite.2
  have hnew : ([⟨key, member, v⟩] : List (Write K M V)).find? (fun write => write.member = member) = some ⟨key, member, v⟩ := by
    rw [find?_singleton, if_pos (decide_eq_true rfl)]
  rw [value, set, find?_append, hold, hnew]
  rfl

theorem value_cons_other {first : Write K M V} (h : first.member ≠ member) : value store (first :: writes) member = value store writes member := by
  have hfind : (first :: writes).find? (fun w => w.member = member) = writes.find? fun w => w.member = member :=
    find?_cons_of_neg (by rw [decide_eq_true_eq]; exact h)
  rw [value, value, hfind]

theorem value_cons_self (first : Write K M V) : value store (first :: writes) first.member = first.value := by
  have hfind : (first :: writes).find? (fun w => w.member = first.member) = some first :=
    find?_cons_of_pos (decide_eq_true rfl)
  rw [value, hfind]

/-- A member without a write reads as in the store. -/
theorem value_of_not_mem (h : member ∉ writes.map Write.member) : value store writes member = store member := by
  have hfind : writes.find? (fun w => w.member = member) = none := by
    rw [find?_eq_none]
    intro write hwrite
    rw [decide_eq_true_eq]
    rintro rfl
    exact h (mem_map_of_mem hwrite)
  rw [value, hfind]

/-- What is read of a member that has a write. -/
theorem value_of_mem (h : Distinct writes) {write : Write K M V} (hwrite : write ∈ writes) : value store writes write.member = write.value := by
  induction writes with
  | nil => cases hwrite
  | cons first rest ih =>
    obtain ⟨hfirst, hrest⟩ := nodup_cons.1 h
    rcases mem_cons.1 hwrite with rfl | hwrite
    · exact value_cons_self write
    · have hne : first.member ≠ write.member := by
        intro heq
        rw [heq] at hfirst
        exact hfirst (mem_map_of_mem hwrite)
      rw [value_cons_other hne]
      exact ih hrest hwrite

/-- A member reads differently from the store only by a write of its own. -/
theorem exists_write (h : value store writes member ≠ store member) :
    ∃ write ∈ writes, write.member = member ∧ write.value = value store writes member := by
  rw [value] at h ⊢
  cases hfind : writes.find? fun write => write.member = member with
  | none =>
    rw [hfind] at h
    exact absurd rfl h
  | some write =>
    refine ⟨write, mem_of_find?_eq_some hfind, ?_, rfl⟩
    exact of_decide_eq_true (find?_some (p := fun w : Write K M V => decide (w.member = member)) hfind)

end Reading

section Commit

variable [DecidableEq M] [DecidableEq V]

/-- Writes the members that differ, and returns the keys of those writes in order. -/
def commit (store : M → V) (writes : List (Write K M V)) : (M → V) × List K :=
  writes.foldl (fun done write =>
      if done.1 write.member = write.value then done
      else (Function.update done.1 write.member write.value, done.2 ++ [write.key]))
    (store, [])

/-- The loop of `commit` from any store: a member that was written is not looked at again. -/
theorem commit_loop {writes : List (Write K M V)} (h : Distinct writes) (store : M → V) (keys : List K) : writes.foldl (fun done write =>
          if done.1 write.member = write.value then done
          else (Function.update done.1 write.member write.value, done.2 ++ [write.key]))
        (store, keys) =
      (fun member => value store writes member, keys ++ (writes.filter fun write => store write.member ≠ write.value).map Write.key) := by
  induction writes generalizing store keys with
  | nil => rw [foldl_nil, filter_nil, map_nil, append_nil]; rfl
  | cons first rest ih =>
    obtain ⟨hfirst, hrest⟩ := nodup_cons.1 h
    rw [foldl_cons]
    split
    next heq =>
      have heq : store first.member = first.value := heq
      rw [ih hrest, filter_cons_of_neg (by rw [decide_eq_true_eq]; exact not_not.2 heq)]
      refine Prod.ext (funext fun member => ?_) rfl
      rcases Decidable.em (first.member = member) with rfl | hne
      · show value store rest first.member = value store (first :: rest) first.member
        rw [value_of_not_mem hfirst, value_cons_self, heq]
      · exact (value_cons_other hne).symm
    next hne =>
      have hne : store first.member ≠ first.value := hne
      have hfilter : (first :: rest).filter (fun write => store write.member ≠ write.value) =
          first :: rest.filter fun write => store write.member ≠ write.value :=
        filter_cons_of_pos (decide_eq_true hne)
      rw [ih hrest, hfilter, map_cons, append_assoc, singleton_append]
      have hsame : ∀ write ∈ rest, Function.update store first.member first.value write.member = store write.member := by
        intro write hwrite
        refine Function.update_of_ne ?_ _ _
        intro heq
        rw [← heq] at hfirst
        exact hfirst (mem_map_of_mem hwrite)
      refine Prod.ext (funext fun member => ?_) ?_
      · show value (Function.update store first.member first.value) rest member = value store (first :: rest) member
        rcases Decidable.em (first.member = member) with rfl | hother
        · rw [value_of_not_mem hfirst, value_cons_self, Function.update_self]
        · rw [value_cons_other hother, value, value, Function.update_of_ne (Ne.symm hother)]
      · refine congrArg (fun l : List (Write K M V) => keys ++ first.key :: l.map Write.key) ?_
        refine filter_congr fun write hwrite => ?_
        rw [hsame write hwrite]

/-- `commit` leaves what is read of the writes and returns the keys of those that differ. -/
theorem commit_eq {writes : List (Write K M V)} (h : Distinct writes) (store : M → V) : commit store writes =
    (fun member => value store writes member, (writes.filter fun write => store write.member ≠ write.value).map Write.key) :=
  commit_loop h store []

end Commit

end Throne.Lib.PendingWrites
