import Throne.Database.Entities.GroupSorted
import Throne.Database.SortQueue
import Mathlib.Algebra.Ring.Int.Defs

/-!
# Sorted groups stay sorted

A key changes only with a request owed (`keyNow_changed`). Every list is in order but for the profiles whose request
is owed, pending, in the batch, or being served (`Inv`), and each step keeps that, a `Reposition` on the condition
that it is told of every profile with a request outstanding (`told`), a change on the condition that the new key is
not NaN (`numeric`). So whenever nothing is outstanding the list is in order (`stays_sorted`). Without the first
condition a group of numeric keys may end up out of order (`left_unsorted`).
-/

namespace Throne.Database.Groups

open Lib.SortedLists Lib.Runs List

section Queue

variable {D : Type} [Zero D]

/-! ## What is outstanding -/

def Turn.serves (turn : Turn) (gid id : Nat) : Prop :=
  turn.gid = gid ∧ match turn.task with
    | .Resort => True
    | .Reposition changed => id ∈ changed

def Waits (waiting : Batch) (gid id : Nat) : Prop := ∃ pending, waiting.lookup gid = some pending ∧ pending.covers id = true

/-- The worker has a request of the profile. -/
def Worker.holds : Worker D → Nat → Nat → Prop
  | .stopped, _, _ => False
  | .batch waiting, gid, id => Waits waiting gid id
  | .sorting turn, gid, id => Waits turn.waiting gid id ∨ turn.serves gid id
  | .reading turn _ _ _, gid, id => Waits turn.waiting gid id ∨ turn.serves gid id

def Owed (s : State D) (group : Group) (id : Nat) : Prop := ∃ input, (id, input) ∈ s.owed ∧ group.SortReads input = true

/-- A request of the profile is owed, pending, or with the worker. -/
def Awaited (s : State D) (gid : Nat) (group : Group) (id : Nat) : Prop :=
  Owed s group id ∨ Waits s.pendingSorts gid id ∨ s.worker.holds gid id

theorem later_iff (s : State D) (gid : Nat) (group : Group) (id : Nat) :
    later s gid group id = true ↔ Owed s group id ∨ Waits s.pendingSorts gid id := by
  rw [later, Bool.or_eq_true, Option.any_eq_true, any_eq_true, Or.comm, Waits, Owed]
  simp only [Bool.and_eq_true, decide_eq_true_eq]
  constructor
  · rintro (⟨⟨other, input⟩, howed, rfl, hreads⟩ | hwaits)
    · exact .inl ⟨input, howed, hreads⟩
    · exact .inr hwaits
  · rintro (⟨input, howed, hreads⟩ | hwaits)
    · exact .inl ⟨(id, input), howed, rfl, hreads⟩
    · exact .inr hwaits

/-! ## Keys -/

variable {settings : Settings D} {group : Group}

/-- An input that a kept sort does not read leaves its keys alone. -/
theorem keyOf_changed (hkept : group.KeepsSorted = true) {input : SortInput}
    (hunread : group.SortReads input = false) {old new : Option Profile} (h : changedBy input old new = true) :
    (settings.rule group).keyOf new = (settings.rule group).keyOf old := by
  rw [Group.SortReads] at hunread
  rw [Group.KeepsSorted, Group.SortReads] at hkept
  rw [Settings.rule]
  generalize group.sort = action at hkept hunread
  obtain ⟨method, descending⟩ := action
  have hmember (hinput : input = .Membership) : False := by
    rw [hinput, hkept] at hunread
    cases hunread
  cases old with
  | none =>
    cases new with
    | none => rfl
    | some new => exact (hmember (of_decide_eq_true h)).elim
  | some old =>
    cases new with
    | none => exact (hmember (of_decide_eq_true h)).elim
    | some new =>
      obtain ⟨outbound, latency, dl, ul, ip, down, up⟩ := old
      obtain ⟨outbound', latency', dl', ul', ip', down', up'⟩ := new
      cases method <;> cases input <;> simp [sortReads] at hkept hunread <;>
        simp [changedBy] at h <;> cases outbound <;> cases outbound' <;> simp_all [SortRule.keyOf, SortRule.of]

/-! ## Requests -/

section Requests

variable (s : State D) (gid : Nat) (input : SortInput) (changed : List Nat) (full : Bool)

theorem enqueue_groups : (enqueueSort s gid input changed full).groups = s.groups := by
  rw [enqueueSort]
  split
  · rfl
  · split <;> rfl

theorem enqueue_profiles : (enqueueSort s gid input changed full).profiles = s.profiles := by
  rw [enqueueSort]
  split
  · rfl
  · split <;> rfl

theorem enqueue_owed : (enqueueSort s gid input changed full).owed = s.owed := by
  rw [enqueueSort]
  split
  · rfl
  · split <;> rfl

/-- A request wakes a worker that stopped, and no other. -/
theorem enqueue_worker : (enqueueSort s gid input changed full).worker = s.worker ∨
    s.worker = .stopped ∧ (enqueueSort s gid input changed full).worker = .batch ∅ := by
  rw [enqueueSort]
  split
  · exact .inl rfl
  split
  · cases hworker : s.worker with
    | stopped => exact .inr ⟨rfl, rfl⟩
    | batch waiting | sorting turn | reading turn snapshot action keys => exact .inl rfl
  · exact .inl rfl

variable {s gid input changed full}

/-- What was pending still is. -/
theorem enqueue_waits {gid' id : Nat} (h : Waits s.pendingSorts gid' id) : Waits (enqueueSort s gid input changed full).pendingSorts gid' id := by
  obtain ⟨pending, hlookup, hcovers⟩ := h
  rw [enqueueSort]
  split
  · exact ⟨pending, hlookup, hcovers⟩
  split
  · by_cases hgid : gid' = gid
    · rw [hgid] at hlookup ⊢
      refine ⟨_, AList.lookup_insert _, ?_⟩
      rw [hlookup]
      simp only [Option.getD_some]
      rw [PendingSort.covers, Bool.or_eq_true] at hcovers ⊢
      rcases hcovers with hfull | hmem
      · exact .inl (by rw [hfull, Bool.true_or])
      · refine .inr ?_
        split
        · exact hmem
        · rw [contains_iff_mem] at hmem ⊢
          exact mem_append_left _ hmem
    · exact ⟨pending, by rw [AList.lookup_insert_ne hgid, hlookup], hcovers⟩
  · exact ⟨pending, hlookup, hcovers⟩

/-- What is asked for is pending then. -/
theorem enqueue_covers {group : Group} (hgroup : s.groups gid = some group) (hreads : group.SortReads input = true)
    {id : Nat} (hid : id ∈ changed) : Waits (enqueueSort s gid input changed full).pendingSorts gid id := by
  rw [enqueueSort, hgroup]
  simp only
  rw [if_pos hreads]
  refine ⟨_, AList.lookup_insert _, ?_⟩
  rw [PendingSort.covers, Bool.or_eq_true]
  by_cases hfull : (((s.pendingSorts.lookup gid).getD {}).full || full) = true
  · exact .inl hfull
  · refine .inr ?_
    simp only [if_neg hfull]
    rw [contains_iff_mem]
    exact mem_append_right _ hid

theorem enqueue_holds {gid' id : Nat} (h : s.worker.holds gid' id) : (enqueueSort s gid input changed full).worker.holds gid' id := by
  rcases enqueue_worker s gid input changed full with hsame | ⟨hstopped, -⟩
  · rw [hsame]
    exact h
  · rw [hstopped] at h
    exact h.elim

theorem enqueue_reading {turn : Turn} {snapshot : List Nat} {action : GroupSortAction} {keys : SortKeys D}
    (h : (enqueueSort s gid input changed full).worker = .reading turn snapshot action keys) :
    s.worker = .reading turn snapshot action keys := by
  rcases enqueue_worker s gid input changed full with hsame | ⟨-, hbatch⟩
  · rw [← hsame]
    exact h
  · rw [hbatch] at h
    cases h

end Requests

/-! ## The invariant -/

variable [LinearOrder D]

/-- No key that a kept sort reads is NaN. -/
def KeysNumeric (settings : Settings D) (s : State D) : Prop :=
  ∀ gid group, s.groups gid = some group → group.KeepsSorted = true → AllNumeric (s.keyNow settings group) group.profiles

/-- What holds of every state reached. -/
structure Inv (settings : Settings D) (s₀ s : State D) : Prop where
  groups : ∀ gid group₀, s₀.groups gid = some group₀ →
    ∃ profiles, s.groups gid = some { group₀ with profiles := profiles } ∧ profiles.Perm group₀.profiles
  members : ∀ gid group, s.groups gid = some group → ∀ id ∈ group.profiles, settings.gidOf id = gid
  numeric : KeysNumeric settings s
  sorted : ∀ gid group, s.groups gid = some group → group.KeepsSorted = true →
    SortedBut (Awaited s gid group) (InOrder (settings.rule group) (s.keyNow settings group)) group.profiles
  reading : ∀ turn snapshot action keys, s.worker = .reading turn snapshot action keys →
    ∃ group, s.groups turn.gid = some group ∧ group.profiles = snapshot ∧ group.sort = action ∧
      group.KeepsSorted = true ∧ ∀ id ∈ snapshot, ∀ key, keys id = some key → key.Numeric ∧
        (s.keyNow settings group id = key ∨ Owed s group id ∨ Waits s.pendingSorts turn.gid id)

variable {s₀ s s' : State D}

/-- A step that changes neither lists nor profiles and forgets no request. -/
theorem Inv.frame (h : Inv settings s₀ s) (hgroups : s'.groups = s.groups) (hprofiles : s'.profiles = s.profiles)
    (hawaited : ∀ gid group, s.groups gid = some group → group.KeepsSorted = true → ∀ id ∈ group.profiles,
    Awaited s gid group id → Awaited s' gid group id) (hreading : ∀ turn snapshot action keys, s'.worker = .reading turn snapshot action keys →
    ∃ group, s.groups turn.gid = some group ∧ group.profiles = snapshot ∧ group.sort = action ∧
    group.KeepsSorted = true ∧ ∀ id ∈ snapshot, ∀ key, keys id = some key → key.Numeric ∧
    (s.keyNow settings group id = key ∨ Owed s' group id ∨ Waits s'.pendingSorts turn.gid id)) : Inv settings s₀ s' := by
  have hnow (group : Group) : s'.keyNow settings group = s.keyNow settings group := by
    funext id
    rw [State.keyNow, State.keyNow, hprofiles]
  constructor
  · rw [hgroups]
    exact h.groups
  · rw [hgroups]
    exact h.members
  · intro gid group hgroup hkept
    rw [hgroups] at hgroup
    rw [hnow]
    exact h.numeric gid group hgroup hkept
  · intro gid group hgroup hkept
    rw [hgroups] at hgroup
    rw [hnow]
    exact (h.sorted gid group hgroup hkept).mono (hawaited gid group hgroup hkept) fun _ _ _ _ _ _ hxy => hxy
  · intro turn snapshot action keys hworker
    obtain ⟨group, hgroup, hsnapshot, haction, hkept, hkeys⟩ := hreading turn snapshot action keys hworker
    refine ⟨group, ?_, hsnapshot, haction, hkept, ?_⟩
    · rw [hgroups]
      exact hgroup
    · rw [hnow]
      exact hkeys

/-! ## Steps -/

theorem inv_enqueue (h : Inv settings s₀ s) (gid : Nat) (input : SortInput) (changed : List Nat) (full : Bool)
    (howed : ∀ gid' group, s.groups gid' = some group → ∀ id ∈ group.profiles, Owed s group id →
    Owed s' group id ∨ Waits s'.pendingSorts gid' id)
    (hs' : s' = { enqueueSort s gid input changed full with owed := s'.owed }) : Inv settings s₀ s' := by
  have hpending : s'.pendingSorts = (enqueueSort s gid input changed full).pendingSorts := by rw [hs']
  have hworker : s'.worker = (enqueueSort s gid input changed full).worker := by rw [hs']
  have hgroups : s'.groups = s.groups := by
    rw [hs']
    exact enqueue_groups s gid input changed full
  have hprofiles : s'.profiles = s.profiles := by
    rw [hs']
    exact enqueue_profiles s gid input changed full
  have hwaits {gid' id : Nat} (hw : Waits s.pendingSorts gid' id) : Waits s'.pendingSorts gid' id := by
    rw [hpending]
    exact enqueue_waits hw
  apply h.frame hgroups hprofiles
  · rintro gid' group hgroup - id hid (ho | hw | hheld)
    · rcases howed gid' group hgroup id hid ho with ho | hw
      · exact .inl ho
      · exact .inr (.inl hw)
    · exact .inr (.inl (hwaits hw))
    · refine .inr (.inr ?_)
      rw [hworker]
      exact enqueue_holds hheld
  · intro turn snapshot action keys hreading
    rw [hworker] at hreading
    obtain ⟨group, hgroup, hsnapshot, haction, hkept, hkeys⟩ :=
      h.reading turn snapshot action keys (enqueue_reading hreading)
    refine ⟨group, hgroup, hsnapshot, haction, hkept, fun id hid key hkey => ?_⟩
    obtain ⟨hnumeric, hrest⟩ := hkeys id hid key hkey
    refine ⟨hnumeric, ?_⟩
    rcases hrest with hsame | ho | hw
    · exact .inl hsame
    · rw [← hsnapshot] at hid
      exact .inr (howed turn.gid group hgroup id hid ho)
    · exact .inr (.inr (hwaits hw))

theorem inv_reposition (h : Inv settings s₀ s) (gid : Nat) (changed : List Nat) (input : SortInput) :
    Inv settings s₀ (step settings s (.RepositionLater gid changed input)) := by
  refine inv_enqueue h gid input changed false ?_ rfl
  rintro gid' group hgroup id hid ⟨input', hmem, hreads⟩
  by_cases hserved : (settings.gidOf id = gid && changed.contains id && input' = input) = true
  · -- the request is for this group, so it is pending now
    simp only [Bool.and_eq_true, decide_eq_true_eq, contains_iff_mem] at hserved
    obtain ⟨⟨hgid, hchanged⟩, rfl⟩ := hserved
    rw [h.members gid' group hgroup id hid] at hgid
    rw [hgid] at hgroup ⊢
    exact .inr (enqueue_covers hgroup hreads hchanged)
  · refine .inl ⟨input', mem_filter.2 ⟨hmem, ?_⟩, hreads⟩
    rw [Bool.not_eq_true', Bool.eq_false_iff]
    exact hserved

theorem inv_resort (h : Inv settings s₀ s) (gid : Nat) : Inv settings s₀ (step settings s (.ResortLater gid)) := by
  refine inv_enqueue h gid .Membership [] true ?_ rfl
  intro gid' group _ id _ howed
  refine .inl ?_
  rw [Owed, step, enqueue_owed]
  exact howed

/-- A change owes a request: what is not owed has the key it had. -/
theorem keyNow_changed (hkept : group.KeepsSorted = true) {id : Nat} {input : SortInput}
    {profile : Option Profile} (hchange : changedBy input (s.profiles id) profile = true)
    {other : Nat} (hother : ¬Owed (step settings s (.change id input profile)) group other) :
    (step settings s (.change id input profile)).keyNow settings group other = s.keyNow settings group other := by
  rw [step, if_pos hchange] at hother ⊢
  rw [State.keyNow, State.keyNow]
  by_cases hid : other = id
  · rw [hid] at hother ⊢
    simp only [Function.update_self]
    apply keyOf_changed hkept _ hchange
    rw [Bool.eq_false_iff]
    exact fun hreads => hother ⟨input, mem_cons_self, hreads⟩
  · simp only [Function.update_of_ne hid]

theorem inv_change (h : Inv settings s₀ s) (id : Nat) (input : SortInput) (profile : Option Profile)
    (hnumeric : Groups.numeric settings s (.change id input profile) = true) :
    Inv settings s₀ (step settings s (.change id input profile)) := by
  by_cases hchange : changedBy input (s.profiles id) profile = true
  swap
  · rw [step, if_neg hchange]
    exact h
  have hkey {group : Group} (hkept : group.KeepsSorted = true) {other : Nat}
      (hother : ¬Owed (step settings s (.change id input profile)) group other) :
      (step settings s (.change id input profile)).keyNow settings group other = s.keyNow settings group other :=
    keyNow_changed hkept hchange hother
  have howed {group : Group} {other : Nat} (ho : Owed s group other) : Owed (step settings s (.change id input profile)) group other := by
    obtain ⟨input', hmem, hreads⟩ := ho
    rw [step, if_pos hchange]
    exact ⟨input', mem_cons_of_mem _ hmem, hreads⟩
  have hsame : (step settings s (.change id input profile)).groups = s.groups ∧
      (step settings s (.change id input profile)).pendingSorts = s.pendingSorts ∧
        (step settings s (.change id input profile)).worker = s.worker := by
    rw [step, if_pos hchange]
    exact ⟨rfl, rfl, rfl⟩
  obtain ⟨hgroups, hpending, hworker⟩ := hsame
  constructor
  · rw [hgroups]
    exact h.groups
  · rw [hgroups]
    exact h.members
  · intro gid group hgroup hkept other hother
    rw [hgroups] at hgroup
    rw [State.keyNow, step, if_pos hchange]
    by_cases hid : other = id
    · rw [numeric, ← hid, h.members gid group hgroup other hother, hgroup, Option.all_some, hkept, contains_iff_mem.2 hother] at hnumeric
      simp only [hid, Function.update_self]
      rw [SortKey.Numeric]
      exact of_decide_eq_true hnumeric
    · simp only [Function.update_of_ne hid]
      exact h.numeric gid group hgroup hkept other hother
  · intro gid group hgroup hkept
    rw [hgroups] at hgroup
    apply (h.sorted gid group hgroup hkept).mono
    · rintro other _ (ho | hrest)
      · exact .inl (howed ho)
      · refine .inr ?_
        rw [hpending, hworker]
        exact hrest
    · intro x _ y _ hx hy hxy
      rw [InOrder, hkey hkept fun ho => hx (.inl ho), hkey hkept fun ho => hy (.inl ho)]
      exact hxy
  · intro turn snapshot action keys hreading
    rw [hworker] at hreading
    obtain ⟨group, hgroup, hsnapshot, haction, hkept, hkeys⟩ := h.reading turn snapshot action keys hreading
    rw [hgroups, hpending]
    refine ⟨group, hgroup, hsnapshot, haction, hkept, fun other hother key hread => ?_⟩
    obtain ⟨hclean, hrest⟩ := hkeys other hother key hread
    refine ⟨hclean, ?_⟩
    rcases hrest with hnow | ho | hw
    · by_cases ho : Owed (step settings s (.change id input profile)) group other
      · exact .inr (.inl ho)
      · rw [hkey hkept ho]
        exact .inl hnow
    · exact .inr (.inl (howed ho))
    · exact .inr (.inr hw)

theorem inv_takeBatch (h : Inv settings s₀ s) : Inv settings s₀ (step settings s .takeBatch) := by
  rw [step]
  split
  swap
  · exact h
  next waiting hworker =>
  split
  swap
  · exact h
  next hempty =>
  have hnone {gid id : Nat} : ¬Waits waiting gid id := by
    rintro ⟨pending, hlookup, -⟩
    rw [AList.lookup, hempty] at hlookup
    cases hlookup
  have hidle {gid id : Nat} (hheld : s.worker.holds gid id) : False := by
    rw [hworker] at hheld
    exact hnone hheld
  split
  · refine h.frame rfl rfl ?_ ?_
    · rintro gid group - - id - (ho | hw | hheld)
      · exact .inl ho
      · exact .inr (.inl hw)
      · exact (hidle hheld).elim
    · intro turn snapshot action keys hreading
      cases hreading
  · refine h.frame rfl rfl ?_ ?_
    · rintro gid group - - id - (ho | hw | hheld)
      · exact .inl ho
      · exact .inr (.inr hw)
      · exact (hidle hheld).elim
    · intro turn snapshot action keys hreading
      cases hreading

variable {turn : Turn}

/-- A request that a turn begins with is served in it. -/
theorem serves_task {pending : PendingSort} (htask : turn.task = pending.task) {id : Nat}
    (h : pending.covers id = true) : turn.serves turn.gid id := by
  refine ⟨rfl, ?_⟩
  rw [htask, PendingSort.task]
  rw [PendingSort.covers, Bool.or_eq_true] at h
  split
  · next hresort => trivial
  · next changed hreposition =>
    split at hreposition
    · cases hreposition
    next hpart =>
    cases hreposition
    exact contains_iff_mem.1 (h.resolve_left hpart)

theorem inv_turn (h : Inv settings s₀ s) (gid : Nat) : Inv settings s₀ (step settings s (.turn gid)) := by
  rw [step]
  split
  swap
  · exact h
  next waiting hworker =>
  split
  · exact h
  next pending hlookup =>
  refine h.frame rfl rfl ?_ ?_
  · rintro gid' group - - id - (ho | hw | hheld)
    · exact .inl ho
    · exact .inr (.inl hw)
    · refine .inr (.inr ?_)
      rw [hworker] at hheld
      obtain ⟨pending', hlookup', hcovers⟩ := hheld
      by_cases hgid : gid' = gid
      · rw [hgid] at hlookup' ⊢
        obtain rfl := Option.some.inj (hlookup.symm.trans hlookup')
        exact .inr (serves_task rfl hcovers)
      · refine .inl ⟨pending', ?_, hcovers⟩
        rw [← hlookup']
        exact AList.lookup_erase_ne hgid
  · intro turn snapshot action keys hreading
    cases hreading

/-- The worker leaves a turn that no profile of the group needs any more. -/
theorem inv_done (h : Inv settings s₀ s) (hworker : ∀ {gid id : Nat}, s.worker.holds gid id → Waits turn.waiting gid id ∨ turn.serves gid id)
    (hneedless : ∀ group, s.groups turn.gid = some group → group.KeepsSorted = true → ∀ id ∈ group.profiles,
    ¬turn.serves turn.gid id) : Inv settings s₀ (s.done turn) := by
  refine h.frame rfl rfl ?_ ?_
  · rintro gid group hgroup hkept id hid (ho | hw | hheld)
    · exact .inl ho
    · exact .inr (.inl hw)
    · rcases hworker hheld with hw | hserves
      · exact .inr (.inr hw)
      · obtain rfl : turn.gid = gid := hserves.1
        exact absurd hserves (hneedless group hgroup hkept id hid)
  · intro turn' snapshot action keys hreading
    exact absurd hreading (by simp [State.done])

theorem inv_snapshot (h : Inv settings s₀ s) : Inv settings s₀ (step settings s .snapshot) := by
  rw [step]
  split
  swap
  · exact h
  next turn hworker =>
  have hholds {gid id : Nat} (hheld : s.worker.holds gid id) : Waits turn.waiting gid id ∨ turn.serves gid id := by
    rw [hworker] at hheld
    exact hheld
  rw [snapshotStep]
  split
  · next hnone =>
    refine inv_done h hholds fun group hgroup => ?_
    rw [hnone] at hgroup
    cases hgroup
  next group hgroup =>
  -- copying the list starts with no keys
  have hreading : group.KeepsSorted = true → Inv settings s₀ { s with worker := .reading turn group.profiles group.sort fun _ => none } := by
    intro hkept
    refine h.frame rfl rfl ?_ ?_
    · rintro gid' group' - - id - (ho | hw | hheld)
      · exact .inl ho
      · exact .inr (.inl hw)
      · exact .inr (.inr (hholds hheld))
    · intro turn' snapshot action keys hworker'
      cases hworker'
      refine ⟨group, hgroup, rfl, rfl, hkept, fun id _ key hkey => ?_⟩
      cases hkey
  simp only
  split
  swap
  · next hunkept =>
    refine inv_done h hholds fun group' hgroup' hkept => ?_
    rw [hgroup] at hgroup'
    cases hgroup'
    exact absurd hkept hunkept
  next hkept =>
  split
  · exact hreading hkept
  next changed htask =>
  split
  · next hnone =>
    refine inv_done h hholds fun group' hgroup' _ id hid hserves => ?_
    rw [hgroup] at hgroup'
    cases hgroup'
    have hchanged := hserves.2
    rw [htask] at hchanged
    obtain ⟨i, hi, hid⟩ := mem_iff_getElem.1 hid
    rw [← hid] at hchanged
    have hmem := mem_changedPositions hi hchanged
    rw [hnone] at hmem
    cases hmem
  split
  · refine h.frame rfl rfl ?_ ?_
    · rintro gid' group' - - id - (ho | hw | hheld)
      · exact .inl ho
      · exact .inr (.inl hw)
      · refine .inr (.inr ?_)
        rcases hholds hheld with hw | hserves
        · exact .inl hw
        · exact .inr ⟨hserves.1, trivial⟩
    · intro turn' snapshot action keys hreading'
      cases hreading'
  · exact hreading hkept

theorem inv_read (h : Inv settings s₀ s) (id : Nat) : Inv settings s₀ (step settings s (.read id)) := by
  rw [step]
  split
  swap
  · exact h
  next turn snapshot action keys hworker =>
  split
  swap
  · exact h
  next group hgroup hunread =>
  obtain ⟨group', hgroup', hsnapshot, haction, hkept, hkeys⟩ := h.reading turn snapshot action keys hworker
  rw [hgroup] at hgroup'
  cases hgroup'
  have hsame : { group with sort := action } = group := by rw [← haction]
  refine h.frame rfl rfl ?_ ?_
  · rintro gid' group' - - other - (ho | hw | hheld)
    · exact .inl ho
    · exact .inr (.inl hw)
    · refine .inr (.inr ?_)
      rw [hworker] at hheld
      exact hheld
  · intro turn' snapshot' action' keys' hworker'
    cases hworker'
    refine ⟨group, hgroup, hsnapshot, haction, hkept, fun other hother key hkey => ?_⟩
    rw [SortKeys.insert, hsame] at hkey
    split at hkey
    · next heq =>
      obtain rfl := Option.some.inj hkey
      rw [heq, ← hsnapshot] at hother
      rw [heq]
      exact ⟨h.numeric turn.gid group hgroup hkept id hother, .inl rfl⟩
    · exact hkeys other hother key hkey

/-- A request that the worker does not have yet. -/
def Later (s : State D) (gid : Nat) (group : Group) (id : Nat) : Prop := Owed s group id ∨ Waits s.pendingSorts gid id

/-- **An attempt brings the list into order** but for the profiles that have a later request. -/
theorem attempt_sorted (h : Inv settings s₀ s) {snapshot : List Nat} {action : GroupSortAction}
    {keys : SortKeys D} (hworker : s.worker = .reading turn snapshot action keys)
    (hgroup : s.groups turn.gid = some group) (htold : told s .commit = true) {order : Option (List Nat)}
    (horder : orderOf (settings.rule group) keys snapshot turn.task = .ok order) : (order.getD snapshot).Perm snapshot ∧
    SortedBut (Later s turn.gid group) (InOrder (settings.rule group) (s.keyNow settings group)) (order.getD snapshot) := by
  obtain ⟨group', hgroup', hsnapshot, -, hkept, hkeys⟩ := h.reading turn snapshot action keys hworker
  rw [hgroup] at hgroup'
  cases hgroup'
  -- the keys that were read, those as they are for the others
  let κ (id : Nat) : SortKey D := (keys id).getD (s.keyNow settings group id)
  have hagree : Agree keys κ := by
    intro id key hkey
    show (keys id).getD _ = key
    rw [hkey, Option.getD_some]
  have hnow : ∀ id ∈ snapshot, ¬Later s turn.gid group id → κ id = s.keyNow settings group id := by
    intro id hid hlater
    show (keys id).getD _ = _
    cases hkey : keys id with
    | none => rfl
    | some key =>
      rcases (hkeys id hid key hkey).2 with hsame | hrest
      · exact hsame.symm
      · exact absurd hrest hlater
  have hnumeric : AllNumeric κ snapshot := by
    intro id hid
    show SortKey.Numeric ((keys id).getD _)
    cases hkey : keys id with
    | none =>
      rw [← hsnapshot] at hid
      exact h.numeric turn.gid group hgroup hkept id hid
    | some key => exact (hkeys id hid key hkey).1
  cases htask : turn.task with
  | Resort =>
    rw [htask, orderOf] at horder
    split at horder
    · cases horder
    next sorted hresort =>
    cases horder
    obtain ⟨hperm, hsorted⟩ := resort_sorted hagree hnumeric hresort
    refine ⟨hperm, ((sortedBut_none (c := fun _ => False) fun _ _ => id).2 hsorted).mono (fun _ _ => False.elim) ?_⟩
    intro x hx y hy hlx hly hxy
    rw [InOrder, hnow x (hperm.mem_iff.1 hx) hlx, hnow y (hperm.mem_iff.1 hy) hly] at hxy
    exact hxy
  | Reposition changed =>
    rw [htask, orderOf] at horder
    have hperm := reposition_perm horder
    refine ⟨hperm, ?_⟩
    rw [told, hworker] at htold
    simp only at htold
    rw [htask, hgroup] at htold
    simp only [Bool.or_eq_true, Option.any_eq_true, all_eq_true] at htold
    rcases htold with ⟨pending, hlookup, hfull⟩ | htold
    · -- the whole group is sorted later
      apply pairwise_of_forall
      intro x y hx
      refine absurd (.inr ⟨pending, hlookup, ?_⟩) hx
      rw [PendingSort.covers, hfull, Bool.true_or]
    have htold' : ∀ id ∈ snapshot, Later s turn.gid group id → id ∈ changed := by
      intro id hid hlater
      rcases htold id hid with hnot | hmem
      · rw [Bool.not_eq_true', Bool.eq_false_iff, ne_eq, later_iff] at hnot
        exact absurd hlater hnot
      · exact contains_iff_mem.1 hmem
    have hrest : SortedBut (· ∈ changed) (InOrder (settings.rule group) κ) snapshot := by
      have hbefore := h.sorted turn.gid group hgroup hkept
      rw [hsnapshot] at hbefore
      apply hbefore.mono
      · rintro id hid (ho | hw | hheld)
        · exact htold' id hid (.inl ho)
        · exact htold' id hid (.inr hw)
        · rw [hworker] at hheld
          rcases hheld with ⟨pending, hlookup, -⟩ | hserves
          · rw [AList.lookup_eq_none.2 turn.alone] at hlookup
            cases hlookup
          · have hchanged := hserves.2
            rw [htask] at hchanged
            exact hchanged
      · intro x hx y hy hcx hcy hxy
        rw [InOrder, hnow x hx fun hl => hcx (htold' x hx hl), hnow y hy fun hl => hcy (htold' y hy hl)]
        exact hxy
    have hsorted := reposition_sorted hagree hnumeric hrest horder
    refine ((sortedBut_none (c := fun _ => False) fun _ _ => id).2 hsorted).mono (fun _ _ => False.elim) ?_
    intro x hx y hy hlx hly hxy
    rw [InOrder, hnow x (hperm.mem_iff.1 hx) hlx, hnow y (hperm.mem_iff.1 hy) hly] at hxy
    exact hxy

/-- The list of the group in a new order, and the next group of the batch. -/
theorem inv_order (h : Inv settings s₀ s) (hworker : ∀ {gid id : Nat}, s.worker.holds gid id → Waits turn.waiting gid id ∨ turn.serves gid id)
    (hgroup : s.groups turn.gid = some group) {order : List Nat} (hperm : order.Perm group.profiles)
    (hsorted : SortedBut (Later s turn.gid group) (InOrder (settings.rule group) (s.keyNow settings group)) order) : Inv settings s₀
    { s.done turn with groups := Function.update s.groups turn.gid (some { group with profiles := order }) } := by
  have hat : Function.update s.groups turn.gid (some { group with profiles := order }) turn.gid =
      some { group with profiles := order } := Function.update_self _ _ _
  have hoff {gid : Nat} (hgid : gid ≠ turn.gid) : Function.update s.groups turn.gid (some { group with profiles := order }) gid = s.groups gid :=
    Function.update_of_ne hgid _ _
  -- a group is the one whose turn it is, or as it was
  have hcases {gid : Nat} {group' : Group} (hgroup' : Function.update s.groups turn.gid (some { group with profiles := order }) gid = some group') :
      gid = turn.gid ∧ { group with profiles := order } = group' ∨ gid ≠ turn.gid ∧ s.groups gid = some group' := by
    by_cases hgid : gid = turn.gid
    · rw [hgid, hat] at hgroup'
      exact .inl ⟨hgid, Option.some.inj hgroup'⟩
    · rw [hoff hgid] at hgroup'
      exact .inr ⟨hgid, hgroup'⟩
  constructor
  · intro gid group₀ hgroup₀
    obtain ⟨profiles, hsame, hperm₀⟩ := h.groups gid group₀ hgroup₀
    by_cases hgid : gid = turn.gid
    · rw [hgid] at hsame ⊢
      rw [hgroup] at hsame
      cases hsame
      exact ⟨order, hat, hperm.trans hperm₀⟩
    · exact ⟨profiles, (hoff hgid).trans hsame, hperm₀⟩
  · intro gid group' hgroup' id hid
    rcases hcases hgroup' with ⟨rfl, rfl⟩ | ⟨-, hgroup'⟩
    · exact h.members turn.gid group hgroup id (hperm.mem_iff.1 hid)
    · exact h.members gid group' hgroup' id hid
  · intro gid group' hgroup' hkept id hid
    rcases hcases hgroup' with ⟨rfl, rfl⟩ | ⟨-, hgroup'⟩
    · exact h.numeric turn.gid group hgroup hkept id (hperm.mem_iff.1 hid)
    · exact h.numeric gid group' hgroup' hkept id hid
  · intro gid group' hgroup' hkept
    rcases hcases hgroup' with ⟨rfl, rfl⟩ | ⟨hgid, hgroup'⟩
    · refine hsorted.mono ?_ fun _ _ _ _ _ _ hxy => hxy
      rintro id - (ho | hw)
      · exact .inl ho
      · exact .inr (.inl hw)
    · refine (h.sorted gid group' hgroup' hkept).mono ?_ fun _ _ _ _ _ _ hxy => hxy
      rintro id - (ho | hw | hheld)
      · exact .inl ho
      · exact .inr (.inl hw)
      · rcases hworker hheld with hw | hserves
        · exact .inr (.inr hw)
        · exact absurd hserves.1.symm hgid
  · intro turn' snapshot action keys hreading
    exact absurd hreading (by simp [State.done])

theorem inv_commit (h : Inv settings s₀ s) (htold : told s .commit = true) : Inv settings s₀ (step settings s .commit) := by
  rw [step]
  split
  swap
  · exact h
  next turn snapshot action keys hworker =>
  obtain ⟨group, hgroup, hsnapshot, haction, -⟩ := h.reading turn snapshot action keys hworker
  have hholds {gid id : Nat} (hheld : s.worker.holds gid id) : Waits turn.waiting gid id ∨ turn.serves gid id := by
    rw [hworker] at hheld
    exact hheld
  have hsame : { group with sort := action } = group := by rw [← haction]
  rw [commitStep, hgroup]
  simp only [hsame]
  split
  · exact h
  · next hplace =>
    obtain ⟨-, hsorted⟩ := attempt_sorted h hworker hgroup htold hplace
    rw [Option.getD_none, ← hsnapshot] at hsorted
    have hnext := inv_order h hholds hgroup (List.Perm.refl _) hsorted
    have hunchanged : Function.update s.groups turn.gid (some { group with profiles := group.profiles }) = s.groups := by
      rw [Function.update_eq_self_iff]
      exact hgroup.symm
    rw [hunchanged] at hnext
    exact hnext
  · next order horder =>
    obtain ⟨hperm, hsorted⟩ := attempt_sorted h hworker hgroup htold horder
    have hfresh : ¬(group.profiles ≠ snapshot ∨ group.sort ≠ action) := by
      rintro (hstale | hstale)
      · exact hstale hsnapshot
      · exact hstale haction
    rw [if_neg hfresh]
    rw [Option.getD_some, ← hsnapshot] at hperm
    exact inv_order h hholds hgroup hperm hsorted

theorem inv_step (s : State D) (e : Event) (h : Inv settings s₀ s) (htold : told s e = true)
    (hnumeric : numeric settings s e = true) : Inv settings s₀ (step settings s e) := by
  cases e with
  | change id input profile => exact inv_change h id input profile hnumeric
  | RepositionLater gid changed input => exact inv_reposition h gid changed input
  | ResortLater gid => exact inv_resort h gid
  | takeBatch => exact inv_takeBatch h
  | turn gid => exact inv_turn h gid
  | snapshot => exact inv_snapshot h
  | read id => exact inv_read h id
  | commit => exact inv_commit h htold

/-! ## Runs -/

/-- Every kept group is in order, every profile is in its group, and nothing is asked for. -/
structure Start (settings : Settings D) (s : State D) : Prop where
  pending : s.pendingSorts.entries = []
  worker : s.worker = .stopped
  owed : s.owed = []
  members : ∀ gid group, s.groups gid = some group → ∀ id ∈ group.profiles, settings.gidOf id = gid
  sorted : ∀ gid group, s.groups gid = some group → group.KeepsSorted = true →
    group.profiles.Pairwise (InOrder (settings.rule group) (s.keyNow settings group))

theorem Start.inv (h : Start settings s) (hnumeric : KeysNumeric settings s) : Inv settings s s where
  groups gid group₀ hgroup := ⟨group₀.profiles, hgroup, List.Perm.refl _⟩
  members := h.members
  numeric := hnumeric
  sorted gid group hgroup hkept :=
    ((sortedBut_none (c := fun _ => False) fun _ _ => id).2 (h.sorted gid group hgroup hkept)).mono
      (fun _ _ => False.elim) fun _ _ _ _ _ _ hxy => hxy
  reading turn snapshot action keys hreading := by
    rw [h.worker] at hreading
    cases hreading

/-- The queue is empty, the worker has stopped, and every change was followed by its request. -/
structure Settled (s : State D) : Prop where
  pending : s.pendingSorts.entries = []
  worker : s.worker.isStopped = true
  owed : s.owed = []

theorem Settled.not_awaited {D : Type} [Zero D] {s : State D} (h : Settled s) {gid id : Nat} : ¬Awaited s gid group id := by
  rintro (⟨input, hmem, -⟩ | ⟨pending, hlookup, -⟩ | hheld)
  · rw [h.owed] at hmem
    cases hmem
  · rw [AList.lookup, h.pending] at hlookup
    cases hlookup
  · have hstopped := h.worker
    cases hworker : s.worker with
    | stopped =>
      rw [hworker] at hheld
      exact hheld
    | batch waiting | sorting turn | reading turn snapshot action keys =>
      rw [hworker] at hstopped
      cases hstopped

/-- The groups of a state are those of the start, their lists rearranged and in order by the keys as they are. -/
def GroupsSorted (settings : Settings D) (s₀ s : State D) : Prop :=
  ∀ gid group₀, s₀.groups gid = some group₀ → group₀.KeepsSorted = true →
    ∃ profiles, s.groups gid = some { group₀ with profiles := profiles } ∧ profiles.Perm group₀.profiles ∧
      profiles.Pairwise (InOrder (settings.rule group₀) (s.keyNow settings group₀))

/-- **Whenever a run settles, every kept group is in order**, if each `Reposition` was told of every profile with a
request outstanding and no kept sort had a NaN to read. -/
theorem stays_sorted (h : Start settings s₀) (hnumeric : KeysNumeric settings s₀) (es : List Event)
    (hmeets : Along (step settings) (fun s e => told s e = true ∧ numeric settings s e = true) s₀ es)
    (hsettled : Settled (run (step settings) s₀ es)) : GroupsSorted settings s₀ (run (step settings) s₀ es) := by
  have hinv := inv_run (fun s e hs he => inv_step s e hs he.1 he.2) es s₀ (h.inv hnumeric) hmeets
  intro gid group₀ hgroup₀ hkept
  obtain ⟨profiles, hgroup, hperm⟩ := hinv.groups gid group₀ hgroup₀
  refine ⟨profiles, hgroup, hperm, ?_⟩
  exact (sortedBut_none fun _ _ => hsettled.not_awaited).1 (hinv.sorted gid _ hgroup hkept)

end Queue

/-! ### Two test results -/

/-- A profile of a latency. -/
def tested (latency : Int) : Profile where
  outbound := some { DisplayType := [], name := [], DisplayEffectiveAddress := [], EffectiveSecurity := ⟨0, [], []⟩ }
  latency := latency
  dl_speed := []
  ul_speed := []
  ip_out := []
  traffic_downlink := 0
  traffic_uplink := 0

/-- Nine profiles in a group that is kept sorted by latency: 10, 20, .. 90. -/
def nine : State Int where
  groups gid := if gid = 0 then some { profiles := [1, 2, 3, 4, 5, 6, 7, 8, 9], sort := { method := .ByLatency } } else none
  profiles id := some (tested (10 * id))

def whole : Settings Int where
  doubles := { ofInt := id, bitrateToBps := fun _ => .num 0 }
  show_config_security := false
  gidOf _ := 0

theorem nine_start : Start whole nine := by
  have hgroup {gid : Nat} {group : Group} (h : nine.groups gid = some group) :
      gid = 0 ∧ group = { profiles := [1, 2, 3, 4, 5, 6, 7, 8, 9], sort := { method := .ByLatency } } := by
    simp only [nine] at h
    split at h
    · next hgid => exact ⟨hgid, (Option.some.inj h).symm⟩
    · cases h
  refine ⟨rfl, rfl, rfl, ?_, ?_⟩
  · intro gid group h id _
    exact (hgroup h).1.symm
  · intro gid group h _
    rw [(hgroup h).2]
    decide

theorem nine_numeric : KeysNumeric whole nine := by
  intro gid group hgroup _ id _
  simp only [nine] at hgroup
  split at hgroup
  · obtain rfl := Option.some.inj hgroup
    exact fun h => nomatch h
  · cases hgroup

/-- The first profile is tested anew and moved behind the fifth. -/
def oneResult : List Event :=
  [.change 1 .TestResult (some (tested 45)), .RepositionLater 0 [1] .TestResult, .takeBatch, .turn 0, .snapshot,
    .read 1, .read 2, .read 6, .read 4, .read 5, .commit, .takeBatch]

theorem oneResult_sorted : GroupsSorted whole nine (run (step whole) nine oneResult) :=
  stays_sorted nine_start nine_numeric oneResult (by decide) ⟨by decide, by decide, by decide⟩

/-- The sixth profile is tested while the first one is being moved: the search passes it by its new key. -/
def twoResults : List Event :=
  [.change 1 .TestResult (some (tested 45)), .RepositionLater 0 [1] .TestResult, .takeBatch, .turn 0, .snapshot,
    .change 6 .TestResult (some (tested 5)), .read 1, .read 2, .read 6, .read 8, .read 7, .commit,
    .RepositionLater 0 [6] .TestResult, .takeBatch, .turn 0, .snapshot, .read 6, .read 5, .read 1, .read 4, .read 3,
    .read 2, .commit, .takeBatch]

theorem left_unsorted : ¬∀ (settings : Settings Int) (s₀ : State Int) (es : List Event), Start settings s₀ →
    Settled (run (step settings) s₀ es) → GroupsSorted settings s₀ (run (step settings) s₀ es) := by
  intro hall
  have hsettled : Settled (run (step whole) nine twoResults) :=
    ⟨by decide, by decide, by decide⟩
  obtain ⟨profiles, hgroup, -, hsorted⟩ :=
    hall whole nine twoResults nine_start hsettled 0 { profiles := [1, 2, 3, 4, 5, 6, 7, 8, 9], sort := { method := .ByLatency } } rfl rfl
  -- the fifth profile stands in front of the first, which is faster
  have hlist : ((run (step whole) nine twoResults).groups 0).map Group.profiles = some [6, 2, 3, 4, 5, 1, 7, 8, 9] := by
    decide
  rw [hgroup] at hlist
  obtain rfl : profiles = [6, 2, 3, 4, 5, 1, 7, 8, 9] := Option.some.inj hlist
  exact absurd hsorted (by decide)

end Throne.Database.Groups
