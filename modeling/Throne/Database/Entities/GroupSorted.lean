import Mathlib.Data.Prod.Lex
import Throne.Database.Entities.GroupSort

/-!
# What a sort of a group achieves

A rule puts keys whose number is not NaN into a total preorder (`key_le_trans`, `key_le_total`). A whole sort brings any list into order
(`resort_sorted`); the changed profiles moved into place bring a list into order whose other profiles are in order
(`reposition_sorted`). The keys are those that were read: of a key that was not, nothing is asked.
-/

namespace Throne.Database.Groups

open Lib.SortedLists List List

variable {id : Nat}

section Keys

variable {D : Type} [LinearOrder D] [Zero D]

/-! ## The order of keys -/

/-- The value of a number; it is not asked for of NaN. -/
def Double.get : Double D → D
  | .nan => 0
  | .num value => value

/-- The number of a key can be compared. -/
def SortKey.Numeric (key : SortKey D) : Prop := key.number ≠ .nan

/-- What keys are compared by: level, number, text. -/
def SortKey.rank (key : SortKey D) : Lex (Int × Lex (D × Text)) := toLex (key.level, toLex (key.number.get, key.text))

variable {a b c : SortKey D}

theorem ascending_iff (ha : a.Numeric) (hb : b.Numeric) : ascending a b = true ↔ a.rank < b.rank := by
  rw [SortKey.rank, SortKey.rank, Prod.Lex.toLex_lt_toLex, Prod.Lex.toLex_lt_toLex, ascending]
  cases hx : a.number with
  | nan => exact absurd hx ha
  | num x =>
    cases hy : b.number with
    | nan => exact absurd hy hb
    | num y =>
      by_cases hlevel : a.level = b.level
      · by_cases hnumber : x = y <;> simp [hlevel, hnumber, Double.differs, Double.below, Double.get]
      · simp [hlevel]

/-- A key does not come behind another one. -/
def SortRule.le (rule : SortRule D) (a b : SortKey D) : Prop := rule.less b a = false

instance (rule : SortRule D) (a b : SortKey D) : Decidable (rule.le a b) := inferInstanceAs (Decidable (rule.less b a = false))

variable {rule : SortRule D}

theorem key_le_iff (ha : a.Numeric) (hb : b.Numeric) : rule.le a b ↔ a.missing = false ∧ b.missing = true ∨
    a.missing = b.missing ∧ if rule.descending then b.rank ≤ a.rank else a.rank ≤ b.rank := by
  rw [SortRule.le, SortRule.less]
  by_cases hmissing : b.missing = a.missing
  · rw [if_neg (not_not.2 hmissing)]
    have hup : ascending b a = false ↔ a.rank ≤ b.rank := by
      rw [Bool.eq_false_iff, ne_eq, ascending_iff hb ha, not_lt]
    have hdown : ascending a b = false ↔ b.rank ≤ a.rank := by
      rw [Bool.eq_false_iff, ne_eq, ascending_iff ha hb, not_lt]
    cases rule.descending <;> simp [hmissing, hup, hdown]
  · rw [if_pos hmissing]
    cases ha : a.missing <;> cases hb : b.missing <;> simp_all

theorem key_le_trans (hna : a.Numeric) (hnb : b.Numeric) (hnc : c.Numeric) (hab : rule.le a b) (hbc : rule.le b c) : rule.le a c := by
  rw [key_le_iff hna hnb] at hab
  rw [key_le_iff hnb hnc] at hbc
  rw [key_le_iff hna hnc]
  rcases hab with ⟨ha, hb⟩ | ⟨hab, hle⟩
  · rcases hbc with ⟨hb', -⟩ | ⟨hbc, -⟩
    · exact absurd (hb'.symm.trans hb) Bool.false_ne_true
    · exact .inl ⟨ha, hbc ▸ hb⟩
  · rcases hbc with ⟨hb, hc⟩ | ⟨hbc, hle'⟩
    · exact .inl ⟨hab.trans hb, hc⟩
    · refine .inr ⟨hab.trans hbc, ?_⟩
      split at hle
      · next hdown =>
        rw [if_pos hdown] at hle' ⊢
        exact hle'.trans hle
      · next hup =>
        rw [if_neg hup] at hle' ⊢
        exact hle.trans hle'

theorem key_le_total (hna : a.Numeric) (hnb : b.Numeric) : rule.le a b ∨ rule.le b a := by
  rw [key_le_iff hna hnb, key_le_iff hnb hna]
  by_cases hmissing : a.missing = b.missing
  · have hrank : (if rule.descending then b.rank ≤ a.rank else a.rank ≤ b.rank) ∨
        if rule.descending then a.rank ≤ b.rank else b.rank ≤ a.rank := by
      split
      · exact le_total b.rank a.rank
      · exact le_total a.rank b.rank
    rcases hrank with hab | hba
    · exact .inl (.inr ⟨hmissing, hab⟩)
    · exact .inr (.inr ⟨hmissing.symm, hba⟩)
  · cases ha : a.missing <;> cases hb : b.missing
    · exact absurd (ha.trans hb.symm) hmissing
    · exact .inl (.inl ⟨rfl, rfl⟩)
    · exact .inr (.inl ⟨rfl, rfl⟩)
    · exact absurd (ha.trans hb.symm) hmissing

theorem le_of_less (ha : a.Numeric) (hb : b.Numeric) (h : rule.less a b = true) : rule.le a b := by
  have htotal : rule.le a b ∨ rule.le b a := key_le_total ha hb
  rcases htotal with hab | hba
  · exact hab
  · exact absurd (h.symm.trans hba) Bool.false_ne_true.symm

/-! ## The sorts -/

variable {keys : SortKeys D} {κ : Nat → SortKey D}

/-- Profiles in order by their keys. -/
def InOrder (rule : SortRule D) (κ : Nat → SortKey D) (a b : Nat) : Prop := rule.le (κ a) (κ b)

instance (rule : SortRule D) (κ : Nat → SortKey D) : DecidableRel (InOrder rule κ) :=
  fun a b => inferInstanceAs (Decidable (rule.le (κ a) (κ b)))

/-- No key of the profiles is NaN. -/
def AllNumeric (κ : Nat → SortKey D) (ids : List Nat) : Prop := ∀ id ∈ ids, (κ id).Numeric

/-- The keys that were read are those of `κ`. -/
def Agree (keys : SortKeys D) (κ : Nat → SortKey D) : Prop := ∀ id key, keys id = some key → κ id = key

theorem Agree.key (hκ : Agree keys κ) (h : keys id ≠ none) : keys.key id = κ id := by
  obtain ⟨key, hkey⟩ := Option.ne_none_iff_exists'.1 h
  rw [SortKeys.key, hkey, hκ id key hkey]
  rfl

/-- Nothing that is asked for is missing. -/
theorem find?_none {ids : List Nat} (h : (ids.find? fun id => (keys id).isNone) = none) : ∀ id ∈ ids, keys id ≠ none := by
  intro id hid hnone
  have hnot := find?_eq_none.1 h id hid
  rw [hnone] at hnot
  exact hnot rfl

variable {snapshot order placed changed : List Nat}

/-- What the comparison of a whole sort says of profiles whose keys are loaded. -/
theorem not_lessIn (hκ : Agree keys κ) {a b : Nat} (ha : keys a ≠ none) (hb : keys b ≠ none) :
    (!lessIn rule keys b a) = true ↔ InOrder rule κ a b := by
  rw [Bool.not_eq_true', lessIn, hκ.key ha, hκ.key hb]
  rfl

theorem not_lessIn_trans (rule : SortRule D) (hκ : Agree keys κ) (hloaded : ∀ id ∈ snapshot, keys id ≠ none)
    (hnumeric : AllNumeric κ snapshot) : ∀ a ∈ snapshot, ∀ b ∈ snapshot, ∀ c ∈ snapshot,
    (!lessIn rule keys b a) = true → (!lessIn rule keys c b) = true → (!lessIn rule keys c a) = true := by
  intro a ha b hb c hc
  rw [not_lessIn hκ (hloaded a ha) (hloaded b hb), not_lessIn hκ (hloaded b hb) (hloaded c hc), not_lessIn hκ (hloaded a ha) (hloaded c hc)]
  exact key_le_trans (hnumeric a ha) (hnumeric b hb) (hnumeric c hc)

theorem not_lessIn_total (hκ : Agree keys κ) (hloaded : ∀ id ∈ snapshot, keys id ≠ none)
    (hnumeric : AllNumeric κ snapshot) : ∀ a ∈ snapshot, ∀ b ∈ snapshot, (!lessIn rule keys b a || !lessIn rule keys a b) = true := by
  intro a ha b hb
  rw [Bool.or_eq_true, not_lessIn hκ (hloaded a ha) (hloaded b hb), not_lessIn hκ (hloaded b hb) (hloaded a ha)]
  exact key_le_total (hnumeric a ha) (hnumeric b hb)

/-- **A whole sort brings a list into order.** -/
theorem resort_sorted (hκ : Agree keys κ) (hnumeric : AllNumeric κ snapshot)
    (h : resortOrder rule keys snapshot = .ok order) : order.Perm snapshot ∧ order.Pairwise (InOrder rule κ) := by
  rw [resortOrder] at h
  split at h
  · cases h
  next hnone =>
  cases h
  have hloaded := find?_none hnone
  have hperm := mergeSort_perm snapshot fun a b => !lessIn rule keys b a
  have hsorted := pairwise_mergeSort_of_mem (not_lessIn_trans rule hκ hloaded hnumeric) (not_lessIn_total hκ hloaded hnumeric)
  refine ⟨hperm, hsorted.imp_of_mem fun ha hb hab => ?_⟩
  exact (not_lessIn hκ (hloaded _ (hperm.mem_iff.1 ha)) (hloaded _ (hperm.mem_iff.1 hb))).1 hab

theorem place_perm (h : place rule keys order id = .ok placed) : placed.Perm (id :: order) := by
  rw [place] at h
  split at h
  · cases h
  split at h
  · cases h
  next first hsearch =>
  cases h
  exact perm_insertIdx id order (upperBound_le order.length 0 order.length (by omega) hsearch)

/-- A row is placed where it keeps a list in order. -/
theorem place_sorted (hκ : Agree keys κ) (hnumeric : AllNumeric κ (id :: order))
    (h : place rule keys order id = .ok placed) (hsorted : order.Pairwise (InOrder rule κ)) : placed.Pairwise (InOrder rule κ) := by
  rw [place] at h
  split at h
  · cases h
  next key hkey =>
  split at h
  · cases h
  next first hsearch =>
  cases h
  have hanswers : ∀ other ∈ order, ∀ b, comesBefore rule keys key other = .ok b → (b = true ↔ rule.less (κ id) (κ other) = true) := by
    intro other _ b hanswer
    rw [comesBefore] at hanswer
    split at hanswer
    · cases hanswer
    next otherKey hother =>
    rw [hκ id key hkey, hκ other otherKey hother, ← Except.ok.inj hanswer]
  -- what comes before a row comes before the rows behind it
  have hmono : order.Pairwise fun x y => rule.less (κ id) (κ x) = true → rule.less (κ id) (κ y) = true := by
    apply hsorted.imp_of_mem
    intro x y hmx hmy hxy hx
    by_contra hy
    have hle : rule.le (κ y) (κ id) := Bool.eq_false_iff.2 hy
    have htrans := key_le_trans (hnumeric x (mem_cons_of_mem _ hmx)) (hnumeric y (mem_cons_of_mem _ hmy)) (hnumeric id mem_cons_self) hxy hle
    exact absurd (hx.symm.trans htrans) Bool.false_ne_true.symm
  obtain ⟨hfront, hback⟩ := upperBound_ok hanswers hmono hsearch
  apply pairwise_insertIdx hsorted (upperBound_le order.length 0 order.length (by omega) hsearch)
  · intro y hy
    exact Bool.eq_false_iff.2 (hfront y hy)
  · intro y hy
    exact le_of_less (hnumeric id mem_cons_self) (hnumeric y (mem_cons_of_mem _ (mem_of_mem_drop hy))) (hback y hy)

theorem placeAll_perm {positions : List Nat} (h : placeAll rule keys snapshot positions order = .ok placed) :
    placed.Perm (positions.map (idAt snapshot) ++ order) := by
  induction positions generalizing order with
  | nil =>
    obtain rfl := Except.ok.inj h
    exact List.Perm.refl order
  | cons i positions ih =>
    rw [placeAll] at h
    split at h
    · cases h
    next next hplace =>
    calc placed
      _ ~ positions.map (idAt snapshot) ++ next := ih h
      _ ~ positions.map (idAt snapshot) ++ idAt snapshot i :: order := (place_perm hplace).append_left _
      _ ~ idAt snapshot i :: (positions.map (idAt snapshot) ++ order) := perm_middle

theorem placeAll_sorted (hκ : Agree keys κ) {positions : List Nat}
    (hnumeric : AllNumeric κ (positions.map (idAt snapshot) ++ order)) (h : placeAll rule keys snapshot positions order = .ok placed)
    (hsorted : order.Pairwise (InOrder rule κ)) : placed.Pairwise (InOrder rule κ) := by
  induction positions generalizing order with
  | nil =>
    cases h
    exact hsorted
  | cons i positions ih =>
    rw [placeAll] at h
    split at h
    · cases h
    next next hplace =>
    rw [map_cons, cons_append] at hnumeric
    refine ih (fun id hid => ?_) h (place_sorted hκ (fun id hid => ?_) hplace hsorted)
    · apply hnumeric id (perm_middle.mem_iff.1 _)
      rw [mem_append] at hid ⊢
      exact hid.imp_right (place_perm hplace).mem_iff.1
    · exact hnumeric id (perm_middle.mem_iff.1 (mem_append_right _ hid))

theorem idAt_eq {i : Nat} (h : i < snapshot.length) : idAt snapshot i = snapshot[i] := by
  rw [idAt, getD_eq_getElem?_getD, getElem?_eq_getElem h]
  rfl

theorem map_idAt (changed snapshot : List Nat) :
    (changedPositions changed snapshot).map (idAt snapshot) = snapshot.filter fun id => changed.contains id := by
  have hall : (List.range snapshot.length).map (idAt snapshot) = snapshot := by
    apply ext_getElem
    · rw [length_map, length_range]
    · intro i hi hi'
      rw [getElem_map, getElem_range, idAt_eq hi']
  have hfilter := filter_map (f := idAt snapshot) (p := fun id => changed.contains id) (l := List.range snapshot.length)
  rw [hall] at hfilter
  exact hfilter.symm

theorem mem_changedPositions {i : Nat} (h : i < snapshot.length) (hchanged : snapshot[i] ∈ changed) : i ∈ changedPositions changed snapshot := by
  apply mem_filter.2
  rw [idAt_eq h]
  exact ⟨mem_range.2 h, contains_iff_mem.2 hchanged⟩

/-- Rows that fit their neighbours: the list was in order and still is. -/
theorem inPlace_sorted (hκ : Agree keys κ) (hnumeric : AllNumeric κ snapshot)
    (hloaded : ∀ id ∈ around (changedPositions changed snapshot) snapshot, keys id ≠ none)
    (hrest : SortedBut (· ∈ changed) (InOrder rule κ) snapshot) (h : inPlace rule keys (changedPositions changed snapshot) snapshot = true) :
    snapshot.Pairwise (InOrder rule κ) := by
  have hfits := all_eq_true.1 h
  apply pairwise_of_fits (R := InOrder rule κ)
    (fun x hx y hy z hz => key_le_trans (hnumeric x hx) (hnumeric y hy) (hnumeric z hz)) hrest
  intro i hi hmoved
  rcases hmoved with hmoved | hmoved
  · have hi' : i < snapshot.length := Nat.lt_of_succ_lt hi
    have hpos := mem_changedPositions hi' hmoved
    have hown : idAt snapshot i ∈ around (changedPositions changed snapshot) snapshot :=
      mem_flatMap.2 ⟨i, hpos, mem_append_left _ mem_cons_self⟩
    have hnext : idAt snapshot (i + 1) ∈ around (changedPositions changed snapshot) snapshot := by
      refine mem_flatMap.2 ⟨i, hpos, mem_append_right _ ?_⟩
      rw [if_pos hi]
      exact mem_cons_self
    have hfit := (Bool.and_eq_true_iff.1 (hfits i hpos)).2
    rw [decide_eq_false (Nat.ne_of_lt hi), Bool.false_or, Bool.not_eq_true', lessIn, hκ.key (hloaded _ hown),
      hκ.key (hloaded _ hnext), idAt_eq hi', idAt_eq hi] at hfit
    exact hfit
  · have hi' : i < snapshot.length := Nat.lt_of_succ_lt hi
    have hpos := mem_changedPositions hi hmoved
    have hown : idAt snapshot (i + 1) ∈ around (changedPositions changed snapshot) snapshot :=
      mem_flatMap.2 ⟨i + 1, hpos, mem_append_left _ mem_cons_self⟩
    have hlast : idAt snapshot i ∈ around (changedPositions changed snapshot) snapshot := by
      refine mem_flatMap.2 ⟨i + 1, hpos, mem_append_left _ (mem_cons_of_mem _ ?_)⟩
      rw [if_pos (Nat.succ_pos i)]
      exact mem_cons_self
    have hfit := (Bool.and_eq_true_iff.1 (hfits (i + 1) hpos)).1
    rw [decide_eq_false (Nat.succ_ne_zero i), Bool.false_or, Bool.not_eq_true', lessIn, hκ.key (hloaded _ hown),
      Nat.add_sub_cancel, hκ.key (hloaded _ hlast), idAt_eq hi', idAt_eq hi] at hfit
    exact hfit

theorem reposition_perm {order : Option (List Nat)} (h : repositionOrder rule keys changed snapshot = .ok order) :
    (order.getD snapshot).Perm snapshot := by
  rw [repositionOrder] at h
  split at h
  · cases h
  split at h
  · cases h
    exact List.Perm.refl snapshot
  split at h
  · cases h
  next placed hall =>
  cases h
  have hperm := placeAll_perm hall
  rw [map_idAt] at hperm
  exact hperm.trans (filter_append_perm _ snapshot)

/-- **The changed profiles in place bring a list into order** whose other profiles are in order. -/
theorem reposition_sorted (hκ : Agree keys κ) (hnumeric : AllNumeric κ snapshot)
    (hrest : SortedBut (· ∈ changed) (InOrder rule κ) snapshot) {order : Option (List Nat)}
    (h : repositionOrder rule keys changed snapshot = .ok order) : (order.getD snapshot).Pairwise (InOrder rule κ) := by
  rw [repositionOrder] at h
  split at h
  · cases h
  next hnone =>
  have hloaded := find?_none hnone
  split at h
  · next hplace =>
    cases h
    exact inPlace_sorted hκ hnumeric hloaded hrest hplace
  split at h
  · cases h
  next placed hall =>
  cases h
  have hstart : (snapshot.filter fun id => !changed.contains id).Pairwise (InOrder rule κ) := by
    apply (sortedBut_filter _).1 hrest
    intro id
    rw [Bool.not_eq_true', ← contains_iff_mem, Bool.not_eq_true]
  refine placeAll_sorted hκ (fun id hid => hnumeric id ?_) hall hstart
  rw [map_idAt] at hid
  exact (filter_append_perm _ snapshot).mem_iff.1 hid

end Keys

end Throne.Database.Groups
