import Mathlib.Data.List.Nodup
import Mathlib.Data.List.Perm.Basic

/-!
# First come, first served from keyed queues

Items wait in queues, one queue for each key. A request names a key and takes the first item of its
queue, or nothing when the queue is empty or the request names none; requests are served in their
order. When no item waits twice, the served items are distinct, each came from the queue its request
named, and an item is either served or still waiting (`serve_spec`). Requests with the keys of the
items themselves, in the order of the items, get exactly these items (`serve_self`).
-/

namespace Throne.Lib.Matching

open List

universe u v w

variable {κ : Type u} {α : Type v} [DecidableEq κ]

/-- One request: what it gets and the queues after it. -/
def take (q : κ → List α) : Option κ → Option α × (κ → List α)
  | none => (none, q)
  | some k =>
    match q k with
    | [] => (none, q)
    | a :: rest => (some a, Function.update q k rest)

/-- What each request gets, and the queues after the last one. -/
def serve : (κ → List α) → List (Option κ) → List (Option α) × (κ → List α)
  | q, [] => ([], q)
  | q, r :: rs => ((take q r).1 :: (serve (take q r).2 rs).1, (serve (take q r).2 rs).2)

/-- No item waits twice. -/
structure Distinct (q : κ → List α) : Prop where
  nodup : ∀ k, (q k).Nodup
  disjoint : ∀ k k' a, a ∈ q k → a ∈ q k' → k = k'

/-- A request takes nothing or the head of the queue it names. -/
theorem take_cases (q : κ → List α) (r : Option κ) : take q r = (none, q) ∨
    ∃ k a rest, r = some k ∧ q k = a :: rest ∧ take q r = (some a, Function.update q k rest) := by
  cases r with
  | none => exact .inl rfl
  | some k =>
    rw [take]
    cases hq : q k with
    | nil => exact .inl rfl
    | cons a rest => exact .inr ⟨k, a, rest, rfl, hq, rfl⟩

theorem Distinct.update {q : κ → List α} (h : Distinct q) {k : κ} {a : α} {rest : List α} (hk : q k = a :: rest) :
    Distinct (Function.update q k rest) ∧ ∀ k', a ∉ Function.update q k rest k' := by
  have hnodup := h.nodup k
  rw [hk, nodup_cons] at hnodup
  have hsub : ∀ k' b, b ∈ Function.update q k rest k' → b ∈ q k' := by
    intro k' b hb
    by_cases hkk : k' = k
    · subst hkk
      rw [Function.update_self] at hb
      rw [hk]
      exact mem_cons_of_mem a hb
    · rw [Function.update_of_ne hkk] at hb
      exact hb
  refine ⟨⟨?_, ?_⟩, ?_⟩
  · intro k'
    by_cases hkk : k' = k
    · subst hkk
      rw [Function.update_self]
      exact hnodup.2
    · rw [Function.update_of_ne hkk]
      exact h.nodup k'
  · intro k₁ k₂ b h₁ h₂
    exact h.disjoint k₁ k₂ b (hsub k₁ b h₁) (hsub k₂ b h₂)
  · intro k' hmem
    by_cases hkk : k' = k
    · subst hkk
      rw [Function.update_self] at hmem
      exact hnodup.1 hmem
    · have hother := hsub k' a hmem
      have hhead : a ∈ q k := by
        rw [hk]
        exact mem_cons_self
      exact hkk (h.disjoint k' k a hother hhead)

/-- The served items. -/
def served (q : κ → List α) (rs : List (Option κ)) : List α := (serve q rs).1.filterMap id

/-- What serving a list of requests does to distinct items. -/
structure Served (q : κ → List α) (rs : List (Option κ)) : Prop where
  length : (serve q rs).1.length = rs.length
  /-- Each request gets an item of the queue it names. -/
  named : ∀ (i : Nat) a, (serve q rs).1[i]? = some (some a) → ∃ k, rs[i]? = some (some k) ∧ a ∈ q k
  nodup : (served q rs).Nodup
  /-- An item that waited is served or waits on, not both. -/
  split : ∀ k a, a ∈ q k ↔ (a ∈ served q rs ∧ a ∈ q k) ∨ a ∈ (serve q rs).2 k
  apart : ∀ k a, a ∈ served q rs → a ∉ (serve q rs).2 k

theorem served_cons_none {q : κ → List α} {r : Option κ} {rs : List (Option κ)} (h : take q r = (none, q)) : served q (r :: rs) = served q rs := by
  rw [served, serve, h]
  rfl

theorem served_cons_some {q q' : κ → List α} {r : Option κ} {rs : List (Option κ)} {a : α}
    (h : take q r = (some a, q')) : served q (r :: rs) = a :: served q' rs := by
  rw [served, serve, h]
  rfl

theorem serve_spec (rs : List (Option κ)) (q : κ → List α) (h : Distinct q) : Served q rs := by
  induction rs generalizing q with
  | nil =>
    refine ⟨rfl, ?_, nodup_nil, ?_, ?_⟩
    · intro i a ha
      cases ha
    · intro k a
      exact ⟨fun ha => .inr ha, fun ha => ha.elim (fun hb => hb.2) id⟩
    · intro k a ha
      cases ha
  | cons r rs ih =>
    rcases take_cases q r with hnone | ⟨k, a, rest, rfl, hk, hsome⟩
    · -- The request takes nothing.
      have hrest := ih q h
      have hsecond : (serve q (r :: rs)).2 = (serve q rs).2 := by rw [serve, hnone]
      have hfirst : (serve q (r :: rs)).1 = none :: (serve q rs).1 := by rw [serve, hnone]
      refine ⟨?_, ?_, ?_, ?_, ?_⟩
      · rw [hfirst, length_cons, length_cons, hrest.length]
      · intro i b hb
        rw [hfirst] at hb
        cases i with
        | zero => cases hb
        | succ i => exact hrest.named i b hb
      · rw [served_cons_none hnone]
        exact hrest.nodup
      · rw [served_cons_none hnone, hsecond]
        exact hrest.split
      · rw [served_cons_none hnone, hsecond]
        exact hrest.apart
    · -- The request takes the head of its queue.
      obtain ⟨hupdate, hgone⟩ := h.update hk
      have hrest := ih _ hupdate
      have hsecond : (serve q (some k :: rs)).2 = (serve (Function.update q k rest) rs).2 := by
        rw [serve, hsome]
      have hfirst : (serve q (some k :: rs)).1 = some a :: (serve (Function.update q k rest) rs).1 := by rw [serve, hsome]
      have hqk : ∀ k' b, b ∈ q k' ↔ (b = a ∧ k' = k) ∨ b ∈ Function.update q k rest k' := by
        intro k' b
        by_cases hkk : k' = k
        · subst hkk
          rw [Function.update_self, hk, mem_cons]
          simp
        · rw [Function.update_of_ne hkk]
          simp [hkk]
      have hserved : a ∉ served (Function.update q k rest) rs := by
        intro ha
        obtain ⟨ob, hob, hobb⟩ := mem_filterMap.1 ha
        obtain ⟨i, hi⟩ := getElem?_of_mem hob
        rw [id_eq] at hobb
        subst hobb
        obtain ⟨k', _, hk'⟩ := hrest.named i a hi
        exact hgone k' hk'
      refine ⟨?_, ?_, ?_, ?_, ?_⟩
      · rw [hfirst, length_cons, length_cons, hrest.length]
      · intro i b hb
        rw [hfirst] at hb
        cases i with
        | zero =>
          have hba : b = a := (Option.some.inj (Option.some.inj hb)).symm
          refine ⟨k, rfl, ?_⟩
          rw [hba, hk]
          exact mem_cons_self
        | succ i =>
          obtain ⟨k', hr, hb'⟩ := hrest.named i b hb
          exact ⟨k', hr, (hqk k' b).2 (.inr hb')⟩
      · rw [served_cons_some hsome, nodup_cons]
        exact ⟨hserved, hrest.nodup⟩
      · intro k' b
        rw [served_cons_some hsome, hsecond, mem_cons]
        constructor
        · intro hb
          rcases (hqk k' b).1 hb with ⟨rfl, rfl⟩ | hlater
          · exact .inl ⟨.inl rfl, hb⟩
          · rcases (hrest.split k' b).1 hlater with ⟨hs, _⟩ | hw
            · exact .inl ⟨.inr hs, hb⟩
            · exact .inr hw
        · rintro (⟨_, hb⟩ | hw)
          · exact hb
          · exact (hqk k' b).2 (.inr ((hrest.split k' b).2 (.inr hw)))
      · intro k' b hb hw
        rw [served_cons_some hsome, mem_cons] at hb
        rw [hsecond] at hw
        rcases hb with rfl | hb
        · exact hgone k' ((hrest.split k' b).2 (.inr hw))
        · exact hrest.apart k' b hb hw

/-! ## Queues made from a list -/

variable {β : Type w}

/-- The items of a list, queued under their keys in the order of the list. -/
def queues (key : β → κ) (item : β → α) (l : List β) (k : κ) : List α :=
  (l.filter fun b => key b = k).map item

theorem queues_cons (key : β → κ) (item : β → α) (b : β) (l : List β) : queues key item (b :: l)
    = Function.update (queues key item l) (key b) (item b :: queues key item l (key b)) := by
  funext k
  by_cases hk : k = key b
  · subst hk
    rw [Function.update_self, queues, filter_cons_of_pos (by simp)]
    rfl
  · rw [Function.update_of_ne hk, queues, filter_cons_of_neg (by simpa using Ne.symm hk)]
    rfl

theorem mem_queues {key : β → κ} {item : β → α} {l : List β} {k : κ} {a : α} : a ∈ queues key item l k ↔ ∃ b ∈ l, key b = k ∧ item b = a := by
  rw [queues, mem_map]
  constructor
  · rintro ⟨b, hb, rfl⟩
    rw [mem_filter, decide_eq_true_eq] at hb
    exact ⟨b, hb.1, hb.2, rfl⟩
  · rintro ⟨b, hb, hkey, rfl⟩
    exact ⟨b, mem_filter.2 ⟨hb, decide_eq_true hkey⟩, rfl⟩

/-- Queues of a list of distinct items. -/
theorem distinct_queues (key : β → κ) {item : β → α} {l : List β} (h : (l.map item).Nodup) : Distinct (queues key item l) := by
  constructor
  · intro k
    exact h.sublist (List.filter_sublist.map item)
  · intro k k' a ha ha'
    obtain ⟨b, hb, rfl, hab⟩ := mem_queues.1 ha
    obtain ⟨b', hb', rfl, hab'⟩ := mem_queues.1 ha'
    rw [inj_on_of_nodup_map h hb hb' (hab.trans hab'.symm)]

/-- The items' own keys, in their order, get the items. -/
theorem serve_self (key : β → κ) (item : β → α) (l : List β) : serve (queues key item l) (l.map fun b => some (key b))
    = (l.map fun b => some (item b), fun _ => []) := by
  induction l with
  | nil => rfl
  | cons b l ih =>
    have htake : take (queues key item (b :: l)) (some (key b)) = (some (item b), queues key item l) := by
      rw [queues_cons, take, Function.update_self]
      simp only [Function.update_idem, Function.update_eq_self]
    rw [map_cons, serve, htake, ih, map_cons]

end Throne.Lib.Matching
