import Mathlib.Data.List.Forall2

/-!
# Updates of one place of a list

A list of the parties of a system is indexed by their numbers, and a step changes one of them. The
lemmas say what is found in a place after `modify`, `set` or `append`, how a count changes when one
place does, what stands across from an element of a list related place by place, and what the chunks
of a list hold.
-/

namespace Throne.Lib.Lists

open List

universe u v

variable {α : Type u} {l : List α} {n : Nat} {a : α}

theorem getElem?_modify_self {f : α → α} (h : l[n]? = some a) : (l.modify n f)[n]? = some (f a) := by
  rw [getElem?_modify, h]
  simp

/-- An element of a modified list comes from the element in its place. -/
theorem getElem?_modify_some {m : Nat} {f : α → α} {b : α} (h : (l.modify n f)[m]? = some b) :
    (n = m ∧ ∃ a, l[m]? = some a ∧ b = f a) ∨ (n ≠ m ∧ l[m]? = some b) := by
  by_cases hnm : n = m
  · subst hnm
    rw [getElem?_modify] at h
    obtain ⟨a, ha, rfl⟩ := Option.map_eq_some_iff.1 h
    exact .inl ⟨rfl, a, ha, by simp⟩
  · rw [getElem?_modify_ne f l hnm] at h
    exact .inr ⟨hnm, h⟩

theorem modify_append_left {m : List α} {f : α → α} (h : n < l.length) : (l ++ m).modify n f = l.modify n f ++ m := by
  apply ext_getElem?
  intro i
  rw [getElem?_modify]
  by_cases hi : i < l.length
  · rw [getElem?_append_left hi, getElem?_append_left (by rwa [length_modify]), getElem?_modify]
  · rw [getElem?_append_right (by omega), getElem?_append_right (by rw [length_modify]; omega), length_modify]
    cases m[i - l.length]? with
    | none => rfl
    | some a => simp [show n ≠ i by omega]

theorem modify_concat (l : List α) (a : α) (f : α → α) : (l ++ [a]).modify l.length f = l ++ [f a] := by
  induction l with
  | nil => rfl
  | cons b l ih => rw [cons_append, length_cons, modify_succ_cons, ih, cons_append]

theorem getElem?_append_some {more : List α} {i : Nat} (h : l[i]? = some a) : (l ++ more)[i]? = some a := by
  rw [getElem?_append_left (List.getElem?_eq_some_iff.1 h).1]
  exact h

/-- A place of a list with one more element at its end. -/
theorem getElem?_concat_some {i : Nat} {b : α} (h : (l ++ [b])[i]? = some a) : l[i]? = some a ∨ (i = l.length ∧ a = b) := by
  by_cases hlt : i < l.length
  · rw [getElem?_append_left hlt] at h
    exact .inl h
  · rw [getElem?_append_right (by omega)] at h
    obtain ⟨hi, ha⟩ := List.getElem?_eq_some_iff.1 h
    rw [length_singleton] at hi
    refine .inr ⟨by omega, ?_⟩
    rw [← ha]
    simp

theorem getElem?_set_some {m : Nat} {b : α} (h : (l.set n a)[m]? = some b) : (n = m ∧ b = a) ∨ (n ≠ m ∧ l[m]? = some b) := by
  by_cases hnm : n = m
  · subst hnm
    have hlt : n < l.length := by
      have := (List.getElem?_eq_some_iff.1 h).1
      rwa [length_set] at this
    rw [getElem?_set_self hlt] at h
    exact .inl ⟨rfl, (Option.some.inj h).symm⟩
  · rw [getElem?_set_ne hnm] at h
    exact .inr ⟨hnm, h⟩

/-- Replacing one element changes a count by what the two elements count. -/
theorem countP_set (b : α) (p : α → Bool) (h : l[n]? = some a) :
    (l.set n b).countP p + (if p a then 1 else 0) = l.countP p + (if p b then 1 else 0) := by
  induction l generalizing n with
  | nil => cases h
  | cons x l ih =>
    cases n with
    | zero =>
      have hx : x = a := by simpa using h
      subst hx
      rw [set_cons_zero, countP_cons, countP_cons]
      omega
    | succ n =>
      have htail := ih (n := n) (by simpa using h)
      rw [set_cons_succ, countP_cons, countP_cons]
      omega

theorem mem_of_forall₂ {β : Type v} {R : α → β → Prop} {m : List β} {b : β} (h : List.Forall₂ R l m) (hb : b ∈ m) : ∃ a ∈ l, R a b := by
  induction h with
  | nil => cases hb
  | cons hr htail ih =>
    rcases mem_cons.1 hb with rfl | hb
    · exact ⟨_, mem_cons_self, hr⟩
    · obtain ⟨a, ha, hab⟩ := ih hb
      exact ⟨a, mem_cons_of_mem _ ha, hab⟩

theorem mem_toChunks_go (l : List α) (acc : Array α) (out : Array (List α)) {c : List α}
    (hc : c ∈ List.toChunks.go n l acc out) (ha : a ∈ c) : a ∈ l ∨ a ∈ acc ∨ ∃ d ∈ out, a ∈ d := by
  induction l generalizing acc out with
  | nil =>
    rw [List.toChunks.go] at hc
    rcases Array.mem_push.mp (Array.mem_toList_iff.mp hc) with hmem | rfl
    · exact .inr (.inr ⟨c, hmem, ha⟩)
    · exact .inr (.inl (Array.mem_toList_iff.mp ha))
  | cons x l ih =>
    rw [List.toChunks.go] at hc
    split at hc
    · rcases ih _ _ hc with h | h | ⟨d, hd, had⟩
      · exact .inl (mem_cons_of_mem x h)
      · have hax : a = x := by simpa using h
        exact .inl (hax ▸ mem_cons_self)
      · rcases Array.mem_push.mp hd with hmem | rfl
        · exact .inr (.inr ⟨d, hmem, had⟩)
        · exact .inr (.inl (Array.mem_toList_iff.mp had))
    · rcases ih _ _ hc with h | h | h
      · exact .inl (mem_cons_of_mem x h)
      · rcases Array.mem_push.mp h with hmem | rfl
        · exact .inr (.inl hmem)
        · exact .inl mem_cons_self
      · exact .inr (.inr h)

/-- The chunks of a list hold its elements only. -/
theorem mem_of_mem_toChunks {c : List α} (hc : c ∈ l.toChunks n) (ha : a ∈ c) : a ∈ l := by
  cases l with
  | nil => simp [List.toChunks] at hc
  | cons x l =>
    cases n with
    | zero =>
      have heq : c = x :: l := by simpa [List.toChunks] using hc
      exact heq ▸ ha
    | succ n =>
      rcases mem_toChunks_go l #[x] #[] hc ha with h | h | ⟨d, hd, -⟩
      · exact mem_cons_of_mem x h
      · have hax : a = x := by simpa using h
        exact hax ▸ mem_cons_self
      · simp at hd

end Throne.Lib.Lists
