import Throne.Database.Entities.GroupSorted
import Throne.Database.SortQueue
import Mathlib.Algebra.Ring.Int.Defs

/-!
# Moving changed rows is sorting

`Group::Reposition` on a group that nobody else changes: a whole sort when many rows changed, nothing when the
changed rows fit where they stand, and else the changed rows taken out and inserted again. Whichever way it takes,
the list is in order behind it, the other rows stand as they stood, and it says whether the list is another one
(`Reposition_sorts`), unless a key is NaN (`stranded_behind_nan`).
-/

namespace Throne.Database.Groups

open Lib.SortedLists List List

section Reposition

variable {D : Type} [LinearOrder D] [Zero D]

/-! ## Keys -/

/-- No keys. -/
def SortKeys.none : SortKeys D := fun _ => Option.none

/-- The keys of some more profiles, by what is read of each. -/
def SortKeys.load (keys : SortKeys D) (keyOf : Nat → SortKey D) (ids : List Nat) : SortKeys D :=
  fun id => if (keys id).isNone && ids.contains id then some (keyOf id) else keys id

/-- What `get` answers: a key that is not there is loaded. -/
def SortKeys.get (keyOf : Nat → SortKey D) : SortKeys D := fun id => some (keyOf id)

/-! ## The calls -/

inductive Commit
  | Moved
  | Unchanged
  | Stale

def commit (group : Group) (snapshot : List Nat) (action : GroupSortAction) (order : List Nat) : Commit × Group :=
  if group.profiles ≠ snapshot ∨ group.sort ≠ action then (.Stale, group)
  else if order = group.profiles then (.Unchanged, group)
  else (.Moved, { group with profiles := order })

variable (settings : Settings D) (keyOf : Nat → SortKey D)

/-- `Resort` with a number of attempts left. -/
def Group.resortFrom : Nat → Group → Except Nat (Bool × Group)
  | 0, group => .ok (false, group)
  | attempts + 1, group =>
    if group.KeepsSorted then
      match resortOrder (settings.rule group) (SortKeys.none.load keyOf group.profiles) group.profiles with
      | .error id => .error id
      | .ok order =>
        match commit group group.profiles group.sort order with
        | (.Moved, group) => .ok (true, group)
        | (.Unchanged, group) => .ok (false, group)
        | (.Stale, group) => Group.resortFrom attempts group
    else .ok (false, group)

/-- What the call returns, and the group behind it; or a profile whose key is asked for and not loaded. -/
def Group.Resort (group : Group) : Except Nat (Bool × Group) := group.resortFrom settings keyOf kSortAttempts

/-- `Reposition` with a number of attempts left. -/
def Group.repositionFrom (changed : List Nat) : Nat → Group → Except Nat (Bool × Group)
  | 0, group => .ok (false, group)
  | attempts + 1, group =>
    if group.KeepsSorted then
      let snapshot := group.profiles
      let positions := changedPositions changed snapshot
      if positions = [] then .ok (false, group)
      else if manyChanged positions snapshot then group.Resort settings keyOf
      else if inPlace (settings.rule group) (SortKeys.none.load keyOf (around positions snapshot)) positions snapshot then
        .ok (false, group)
      else
        match placeAll (settings.rule group) (SortKeys.get keyOf) snapshot positions
            (snapshot.filter fun id => !changed.contains id) with
        | .error id => .error id
        | .ok order =>
          match commit group snapshot group.sort order with
          | (.Moved, group) => .ok (true, group)
          | (.Unchanged, group) => .ok (false, group)
          | (.Stale, group) => Group.repositionFrom changed attempts group
    else .ok (false, group)

def Group.Reposition (group : Group) (changed : List Nat) : Except Nat (Bool × Group) :=
  if changed = [] then .ok (false, group) else group.repositionFrom settings keyOf changed kSortAttempts

/-! ## The keys that are asked for -/

variable {settings keyOf}

omit [LinearOrder D] in
theorem load_loaded {ids : List Nat} {id : Nat} (h : id ∈ ids) : SortKeys.none.load keyOf ids id = some (keyOf id) := by
  rw [SortKeys.load, contains_iff_mem.2 h]
  rfl

omit [LinearOrder D] in
theorem agree_load (ids : List Nat) : Agree (SortKeys.none.load keyOf ids) keyOf := by
  intro id key hkey
  rw [SortKeys.load] at hkey
  split at hkey
  · exact Option.some.inj hkey
  · exact absurd hkey (by simp [SortKeys.none])

omit [LinearOrder D] in
theorem agree_get : Agree (SortKeys.get keyOf) keyOf := fun _ _ hkey => Option.some.inj hkey

variable (keyOf) in
/-- A row is placed whatever keys are asked for. -/
theorem place_total (rule : SortRule D) (order : List Nat) (id : Nat) : ∃ placed, place rule (SortKeys.get keyOf) order id = .ok placed := by
  have hanswers (other : Nat) : ∃ b, comesBefore rule (SortKeys.get keyOf) (keyOf id) other = .ok b :=
    ⟨rule.less (keyOf id) (keyOf other), rfl⟩
  obtain ⟨first, hfirst⟩ : ∃ first, upperBound (comesBefore rule (SortKeys.get keyOf) (keyOf id)) order order.length 0 order.length = .ok first :=
    upperBound_total hanswers order.length 0 order.length
  have hkey : SortKeys.get keyOf id = some (keyOf id) := rfl
  refine ⟨order.insertIdx first id, ?_⟩
  rw [place, hkey]
  simp only [hfirst]

variable (keyOf) in
theorem placeAll_total (rule : SortRule D) (snapshot positions order : List Nat) :
    ∃ placed, placeAll rule (SortKeys.get keyOf) snapshot positions order = .ok placed := by
  induction positions generalizing order with
  | nil => exact ⟨order, rfl⟩
  | cons i positions ih =>
    obtain ⟨next, hnext⟩ := place_total keyOf rule order (idAt snapshot i)
    rw [placeAll, hnext]
    exact ih next

variable (keyOf) in
theorem resortOrder_loaded (rule : SortRule D) (snapshot : List Nat) :
    ∃ order, resortOrder rule (SortKeys.none.load keyOf snapshot) snapshot = .ok order := by
  have hnone : (snapshot.find? fun id => (SortKeys.none.load keyOf snapshot id).isNone) = none := by
    rw [find?_eq_none]
    intro id hid
    rw [load_loaded hid]
    exact Bool.false_ne_true
  rw [resortOrder, hnone]
  exact ⟨_, rfl⟩

/-! ## The rows that did not change -/

/-- Rows as they stand without the changed ones. -/
def unchanged (changed order : List Nat) : List Nat := order.filter fun id => !changed.contains id

variable {changed order : List Nat}

theorem place_unchanged {rule : SortRule D} {keys : SortKeys D} {placed : List Nat} {id : Nat}
    (hid : id ∈ changed) (h : place rule keys order id = .ok placed) : unchanged changed placed = unchanged changed order := by
  rw [place] at h
  split at h
  · cases h
  split at h
  · cases h
  next first hsearch =>
  cases h
  apply filter_insertIdx
  · rw [contains_iff_mem.2 hid]
    rfl
  · exact upperBound_le order.length 0 order.length (by omega) hsearch

theorem placeAll_unchanged {rule : SortRule D} {keys : SortKeys D}
    {snapshot positions placed : List Nat} (hpositions : ∀ i ∈ positions, idAt snapshot i ∈ changed)
    (h : placeAll rule keys snapshot positions order = .ok placed) : unchanged changed placed = unchanged changed order := by
  induction positions generalizing order with
  | nil =>
    cases h
    rfl
  | cons i positions ih =>
    rw [placeAll] at h
    split at h
    · cases h
    next next hplace =>
    calc unchanged changed placed
        = unchanged changed next := ih (fun j hj => hpositions j (mem_cons_of_mem _ hj)) h
      _ = unchanged changed order := place_unchanged (hpositions i mem_cons_self) hplace

/-- A stable sort keeps rows that are in order already. -/
theorem resort_unchanged {rule : SortRule D} {snapshot : List Nat} (hnumeric : AllNumeric keyOf snapshot)
    (hrest : SortedBut (· ∈ changed) (InOrder rule keyOf) snapshot)
    (h : resortOrder rule (SortKeys.none.load keyOf snapshot) snapshot = .ok order) :
    unchanged changed order = unchanged changed snapshot := by
  rw [resortOrder] at h
  split at h
  · cases h
  next hnone =>
  cases h
  have hloaded := find?_none hnone
  have hagree : Agree (SortKeys.none.load keyOf snapshot) keyOf := agree_load snapshot
  have hkept : (unchanged changed snapshot).Pairwise fun a b =>
    (!lessIn rule (SortKeys.none.load keyOf snapshot) b a) = true := by
    have hsorted : (unchanged changed snapshot).Pairwise (InOrder rule keyOf) := by
      apply (sortedBut_filter _).1 hrest
      intro id
      rw [Bool.not_eq_true', ← contains_iff_mem, Bool.not_eq_true]
    apply hsorted.imp_of_mem
    intro a b ha hb
    exact (not_lessIn hagree (hloaded a (mem_of_mem_filter ha)) (hloaded b (mem_of_mem_filter hb))).2
  have hsub : unchanged changed snapshot <+ snapshot.mergeSort fun a b => !lessIn rule (SortKeys.none.load keyOf snapshot) b a :=
    sublist_mergeSort_of_mem (not_lessIn_trans rule hagree hloaded hnumeric) (not_lessIn_total hagree hloaded hnumeric) hkept filter_sublist
  -- a part of the sorted list that is as long as what it is a part of
  have hfilter := hsub.filter fun id => !changed.contains id
  rw [unchanged, filter_filter] at hfilter
  simp only [Bool.and_self] at hfilter
  exact (hfilter.eq_of_length ((mergeSort_perm snapshot _).filter _).length_eq.symm).symm

/-! ## The calls -/

/-- What a call leaves of a group, by what it returns. -/
structure Repositioned (settings : Settings D) (keyOf : Nat → SortKey D) (changed : List Nat) (group : Group)
    (moved : Bool) (after : Group) : Prop where
  perm : after.profiles.Perm group.profiles
  sorted : group.KeepsSorted = true → after.profiles.Pairwise (InOrder (settings.rule group) keyOf)
  rest : unchanged changed after.profiles = unchanged changed group.profiles
  told : moved = true ↔ after.profiles ≠ group.profiles
  frame : after = { group with profiles := after.profiles }

variable {group : Group}

/-- Nothing to move. -/
theorem repositioned_still (hsorted : group.KeepsSorted = true → group.profiles.Pairwise (InOrder (settings.rule group) keyOf)) :
    Repositioned settings keyOf changed group false group where
  perm := List.Perm.refl _
  sorted := hsorted
  rest := rfl
  told := iff_of_false Bool.false_ne_true (fun h => h rfl)
  frame := rfl

theorem commit_unchanged (h : order = group.profiles) : commit group group.profiles group.sort order = (.Unchanged, group) := by
  rw [commit, if_neg, if_pos h]
  simp only [ne_eq, not_true_eq_false, or_self, not_false_eq_true]

theorem commit_moved (h : order ≠ group.profiles) : commit group group.profiles group.sort order = (.Moved, { group with profiles := order }) := by
  rw [commit, if_neg, if_neg h]
  simp only [ne_eq, not_true_eq_false, or_self, not_false_eq_true]

theorem repositioned_moved (hne : order ≠ group.profiles) (hperm : order.Perm group.profiles)
    (hsorted : order.Pairwise (InOrder (settings.rule group) keyOf)) (hrest : unchanged changed order = unchanged changed group.profiles) :
    Repositioned settings keyOf changed group true { group with profiles := order } where
  perm := hperm
  sorted _ := hsorted
  rest := hrest
  told := iff_of_true rfl hne
  frame := rfl

/-- A whole sort, where the rows that did not change are in order. -/
theorem Resort_sorts (hkeeps : group.KeepsSorted = true) (hnumeric : AllNumeric keyOf group.profiles)
    (hrest : SortedBut (· ∈ changed) (InOrder (settings.rule group) keyOf) group.profiles) :
    ∃ moved after, group.Resort settings keyOf = .ok (moved, after) ∧ Repositioned settings keyOf changed group moved after := by
  obtain ⟨order, horder⟩ := resortOrder_loaded keyOf (settings.rule group) group.profiles
  obtain ⟨hperm, hsorted⟩ := resort_sorted (agree_load group.profiles) hnumeric horder
  rw [Group.Resort, kSortAttempts, Group.resortFrom, if_pos hkeeps, horder]
  by_cases hsame : order = group.profiles
  · simp only [commit_unchanged hsame]
    exact ⟨false, group, rfl, repositioned_still fun _ => hsame ▸ hsorted⟩
  · simp only [commit_moved hsame]
    exact ⟨true, _, rfl, repositioned_moved hsame hperm hsorted (resort_unchanged hnumeric hrest horder)⟩

/-- **Moving the changed rows is sorting**: in a list of numeric keys whose other rows are in order, every call
succeeds, leaves the same rows in order, the others as they stood, and says whether the list is another one. -/
theorem Reposition_sorts (settings : Settings D) (keyOf : Nat → SortKey D) (group : Group) (changed : List Nat)
    (hnumeric : group.KeepsSorted = true → AllNumeric keyOf group.profiles)
    (hrest : group.KeepsSorted = true → SortedBut (· ∈ changed) (InOrder (settings.rule group) keyOf) group.profiles) :
    ∃ moved after, group.Reposition settings keyOf changed = .ok (moved, after) ∧ Repositioned settings keyOf changed group moved after := by
  rw [Group.Reposition]
  split
  · next hnone =>
    refine ⟨false, group, rfl, repositioned_still fun hkeeps => (sortedBut_none ?_).1 (hrest hkeeps)⟩
    rw [hnone]
    exact fun _ _ => not_mem_nil
  rw [kSortAttempts, Group.repositionFrom]
  by_cases hkeeps : group.KeepsSorted = true
  swap
  · rw [if_neg hkeeps]
    exact ⟨false, group, rfl, repositioned_still fun h => absurd h hkeeps⟩
  have hrest := hrest hkeeps
  have hnumeric := hnumeric hkeeps
  rw [if_pos hkeeps]
  simp only
  split
  · next hnone =>
    -- no row changed
    refine ⟨false, group, rfl, repositioned_still fun _ => (sortedBut_none ?_).1 hrest⟩
    intro id hid hchanged
    obtain ⟨i, hi, rfl⟩ := getElem_of_mem hid
    have hmem := mem_changedPositions hi hchanged
    rw [hnone] at hmem
    cases hmem
  split
  · exact Resort_sorts hkeeps hnumeric hrest
  split
  · next hplace =>
    refine ⟨false, group, rfl, repositioned_still fun _ => inPlace_sorted (agree_load _) hnumeric ?_ hrest hplace⟩
    intro id hid
    rw [load_loaded hid]
    exact Option.some_ne_none _
  obtain ⟨order, horder⟩ := placeAll_total keyOf (settings.rule group) group.profiles
    (changedPositions changed group.profiles) (unchanged changed group.profiles)
  have hstart : (unchanged changed group.profiles).Pairwise (InOrder (settings.rule group) keyOf) := by
    apply (sortedBut_filter _).1 hrest
    intro id
    rw [Bool.not_eq_true', ← contains_iff_mem, Bool.not_eq_true]
  have hparts : ((changedPositions changed group.profiles).map (idAt group.profiles) ++ unchanged changed group.profiles).Perm group.profiles := by
    rw [map_idAt]
    exact filter_append_perm _ group.profiles
  have hsorted := placeAll_sorted agree_get (fun id hid => hnumeric id (hparts.mem_iff.1 hid)) horder hstart
  have hperm : order.Perm group.profiles := (placeAll_perm horder).trans hparts
  have hkept : unchanged changed order = unchanged changed group.profiles := by
    have hchanged : ∀ i ∈ changedPositions changed group.profiles, idAt group.profiles i ∈ changed := fun i hi =>
      contains_iff_mem.1 (mem_filter.1 hi).2
    rw [placeAll_unchanged hchanged horder, unchanged, unchanged, filter_filter]
    simp only [Bool.and_self]
  rw [unchanged] at horder
  rw [horder]
  by_cases hsame : order = group.profiles
  · simp only [commit_unchanged hsame]
    exact ⟨false, group, rfl, repositioned_still fun _ => hsame ▸ hsorted⟩
  · simp only [commit_moved hsame]
    exact ⟨true, _, rfl, repositioned_moved hsame hperm hsorted hkept⟩

end Reposition

/-! ### One row of nine -/

def byNumber : Settings Int where
  doubles := { ofInt := id, bitrateToBps := fun _ => .num 0 }
  show_config_security := false
  gidOf _ := 0

def nineRows : Group where
  profiles := [1, 2, 3, 4, 5, 6, 7, 8, 9]
  sort := { method := .ByLatency }

/-- The latencies 45, 20, .. 90. -/
def nineLatencies (id : Nat) : SortKey Int := { number := .num (if id = 1 then 45 else 10 * id) }

theorem nineRows_repositioned : ∃ moved after, nineRows.Reposition byNumber nineLatencies [1] = .ok (moved, after) ∧
    Repositioned byNumber nineLatencies [1] nineRows moved after :=
  Reposition_sorts byNumber nineLatencies nineRows [1] (fun _ _ _ h => nomatch h) fun _ => by
    rw [SortedBut]
    decide

/-- The row goes behind the fourth. -/
example : (nineRows.Reposition byNumber nineLatencies [1]).map (fun r => r.2.profiles) = .ok [2, 3, 4, 1, 5, 6, 7, 8, 9] := by decide

/-! ### A speed that is NaN -/

/-- The download speeds 10, 20, 30, 40, NaN, 60, 70, 80, and 15 for the ninth row. -/
def nineSpeeds (id : Nat) : SortKey Int :=
  { number := if id = 5 then .nan else .num (if id = 9 then 15 else 10 * id) }

/-- The search for the place of the ninth row passes the NaN in the middle and ends behind it, though no two of the
other rows are out of order. -/
theorem stranded_behind_nan : ¬∀ (settings : Settings Int) (keyOf : Nat → SortKey Int) (group : Group)
    (changed : List Nat), (group.KeepsSorted = true → SortedBut (· ∈ changed) (InOrder (settings.rule group) keyOf) group.profiles) →
    ∃ moved after, group.Reposition settings keyOf changed = .ok (moved, after) ∧ Repositioned settings keyOf changed group moved after := by
  intro hall
  obtain ⟨moved, after, hcall, hsorts⟩ := hall byNumber nineSpeeds
    { nineRows with test_sort_by := .dlSpeed, sort := { method := .ByTestResult } } [9] fun _ => by
      rw [SortedBut]
      decide
  have hlist : (Group.Reposition byNumber nineSpeeds { nineRows with test_sort_by := .dlSpeed, sort := { method := .ByTestResult } } [9]).map
      (fun r => r.2.profiles) = .ok [1, 2, 3, 4, 5, 9, 6, 7, 8] := by decide
  rw [hcall] at hlist
  have hprofiles : after.profiles = [1, 2, 3, 4, 5, 9, 6, 7, 8] := Except.ok.inj hlist
  have hsorted := hsorts.sorted rfl
  rw [hprofiles] at hsorted
  exact absurd hsorted (by decide)

end Throne.Database.Groups
