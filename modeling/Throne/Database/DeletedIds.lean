import Mathlib.Tactic
import Throne.Database.SharedObjects
import Throne.Lib.Tombstones
import Throne.Lib.Lists

/-!
# Deleted profiles and groups stay deleted

Each repository is seen as a store with tombstones (`ProfilesRepo.view`, `GroupsRepo.view`) and each
of its operations is shown to be a move of that store (`Leads`). What the library says of moves then
holds along every run: a row that was deleted does not come back, whatever old pointers are saved
later, and an id is handed out once.
-/

namespace Throne.Database.Shared

open Lib Lib.Runs Lib.Tombstones List

variable {i : Int} {ptr : Nat}

/-- An entry of a map with one key written. -/
theorem update_some {m : Int → Option Nat} {id : Int} {v : Option Nat}
    (h : Function.update m id v i = some ptr) : i = id ∧ v = some ptr ∨ m i = some ptr := by
  by_cases hid : i = id
  · subst hid
    rw [Function.update_self] at h
    exact .inl ⟨rfl, h⟩
  · rw [Function.update_of_ne hid] at h
    exact .inr h

/-! ## The profiles as a store with tombstones -/

/-- The id is carried by an object, or by a row a `SaveBatch` is about to write. -/
def ProfilesRepo.Carries (r : ProfilesRepo) (i : Int) : Prop :=
  (∃ p ∈ r.objects, p.id = i) ∨ ∃ j ∈ r.jobs, ∃ rows, j.rows = some rows ∧ ∃ p ∈ rows, p.id = i

/-- The store of profiles. An object whose id is negative was not added yet and carries none. -/
def ProfilesRepo.view (r : ProfilesRepo) : View Int where
  stored := { i | i ∈ r.rowIds }
  held := { i | 0 ≤ i ∧ r.Carries i }
  tombstones := { i | i ∈ r.tombstones }
  lastId := r.lastId

/-- An entry of `identityMap`. It leads to the object of that id. The exception is the first id of a
pointer that was twice in one batch: the entry stays, and nothing ever has that id. -/
def ProfilesRepo.Entry (r : ProfilesRepo) (i : Int) (ptr : Nat) : Prop :=
  ∃ p : Profile, r.objects[ptr]? = some p ∧ 0 ≤ p.id ∧ i ≤ r.lastId ∧ (p.id = i ∨ i ∉ r.view.stored ∧ i ∉ r.view.held)

/-- A job that has read its objects: they were added, and so were its rows. -/
def ProfilesRepo.Read (r : ProfilesRepo) (j : SaveJob) : Prop :=
  ∀ rows, j.rows = some rows → (∀ p ∈ rows, 0 ≤ p.id) ∧ ∀ ptr ∈ j.profiles, ∃ p : Profile, r.objects[ptr]? = some p ∧ 0 ≤ p.id

/-- What holds between the operations of `ProfilesRepo`. -/
structure ProfilesRepo.Sound (r : ProfilesRepo) : Prop where
  counter : 0 ≤ r.lastId
  issued : Issued r.view
  rows : ∀ p ∈ r.rows, 0 ≤ p.id
  jobs : ∀ j ∈ r.jobs, r.Read j
  identity : ∀ i ptr, r.identityMap i = some ptr → r.Entry i ptr

/-- Objects stay where they are, and only one without an id gets one, a new one. -/
def ProfilesRepo.Renumbers (r r' : ProfilesRepo) : Prop :=
  ∀ (ptr : Nat) (p : Profile), r.objects[ptr]? = some p → ∃ p' : Profile, r'.objects[ptr]? = some p' ∧ (p'.id = p.id ∨ p.id < 0 ∧ r.lastId < p'.id)

/-- What every operation of `ProfilesRepo` does. -/
structure ProfilesRepo.Leads (r r' : ProfilesRepo) : Prop where
  sound : r'.Sound
  moves : Moves r.view r'.view
  renumbers : r.Renumbers r'

namespace ProfilesRepo

variable {r r' r'' : ProfilesRepo} {i : Int}

theorem mem_tombstones : i ∈ r.view.tombstones ↔ i ∈ r.tombstones := Iff.rfl

theorem mem_rowIds : i ∈ r.rowIds ↔ ∃ p ∈ r.rows, p.id = i := mem_map

variable {ptr : Nat} {p : Profile}

theorem carries_object (h : r.objects[ptr]? = some p) : r.Carries p.id := .inl ⟨p, mem_of_getElem? h, rfl⟩

theorem Renumbers.trans (h : r.Renumbers r') (h' : r'.Renumbers r'') (hle : r.lastId ≤ r'.lastId) : r.Renumbers r'' := by
  intro ptr p hp
  obtain ⟨p', hp', hid⟩ := h ptr p hp
  obtain ⟨p'', hp'', hid'⟩ := h' ptr p' hp'
  refine ⟨p'', hp'', ?_⟩
  omega

theorem Leads.refl (h : r.Sound) : r.Leads r where
  sound := h
  moves := Moves.refl _
  renumbers := fun _ p hp => ⟨p, hp, .inl rfl⟩

theorem Leads.trans (h : r.Leads r') (h' : r'.Leads r'') : r.Leads r'' where
  sound := h'.sound
  moves := h.moves.trans h'.moves
  renumbers := h.renumbers.trans h'.renumbers h.moves.counter

/-- An entry survives a move that keeps the object it leads to. -/
theorem Entry.moves (h : r.Entry i ptr) (hmoves : Moves r.view r'.view) (hkeeps : r.Renumbers r') : r'.Entry i ptr := by
  obtain ⟨p, hp, hnonneg, hle, hid⟩ := h
  obtain ⟨p', hp', hid'⟩ := hkeeps ptr p hp
  have hsame : p'.id = p.id := by omega
  refine ⟨p', hp', by omega, le_trans hle hmoves.counter, ?_⟩
  rcases hid with heq | ⟨hrow, hheld⟩
  · exact .inl (hsame.trans heq)
  · -- An id that was handed out and is not in use stays so.
    have hnot : ¬ r.view.lastId < i := not_lt_of_ge hle
    refine .inr ⟨fun hi => ?_, fun hi => ?_⟩
    · rcases hmoves.stored i hi with hs | ⟨hs, -⟩ | ⟨hs, -⟩
      · exact hrow hs
      · exact hheld hs
      · exact hnot hs
    · rcases hmoves.held i hi with hs | hs | ⟨hs, -⟩
      · exact hheld hs
      · exact hrow hs
      · exact hnot hs

theorem Read.renumbers {j : SaveJob} (h : r.Read j) (hkeeps : r.Renumbers r') : r'.Read j := by
  intro rows hrows
  obtain ⟨hids, hptrs⟩ := h rows hrows
  refine ⟨hids, fun ptr hptr => ?_⟩
  obtain ⟨p, hp, hnonneg⟩ := hptrs ptr hptr
  obtain ⟨p', hp', hid⟩ := hkeeps ptr p hp
  exact ⟨p', hp', by omega⟩

theorem renumbers_of_eq (h : r'.objects = r.objects) : r.Renumbers r' := by
  intro ptr p hp
  exact ⟨p, h ▸ hp, .inl rfl⟩

/-- How an operation is judged: by what it does to the store, to the objects and to `identityMap`. -/
theorem Leads.of_moves (h : r.Sound) (hmoves : Moves r.view r'.view) (hkeeps : r.Renumbers r')
    (hrows : ∀ p ∈ r'.rows, 0 ≤ p.id) (hjobs : ∀ j ∈ r'.jobs, j ∈ r.jobs ∨ r'.Read j)
    (hentry : ∀ i ptr, r'.identityMap i = some ptr → r.identityMap i = some ptr ∨ r'.Entry i ptr) : r.Leads r' where
  sound := {
    counter := le_trans h.counter hmoves.counter
    issued := h.issued.moves hmoves
    rows := hrows
    jobs := by
      intro j hj
      rcases hjobs j hj with hold | hnew
      · exact (h.jobs j hold).renumbers hkeeps
      · exact hnew
    identity := by
      intro i ptr hi
      rcases hentry i ptr hi with hold | hnew
      · exact (h.identity i ptr hold).moves hmoves hkeeps
      · exact hnew }
  moves := hmoves
  renumbers := hkeeps

/-- An operation that keeps the counter and the tombstones: it may write the rows of ids that are
carried and have no tombstone. -/
theorem moves_of_write (hlast : r'.lastId = r.lastId) (htombs : r'.tombstones = r.tombstones)
    (hcarries : ∀ i, 0 ≤ i → r'.Carries i → r.Carries i ∨ i ∈ r.rowIds)
    (hnew : ∀ i ∈ r'.rowIds, i ∈ r.rowIds ∨ 0 ≤ i ∧ r.Carries i ∧ i ∉ r.tombstones)
    (hstay : ∀ i ∈ r.rowIds, i ∈ r'.rowIds) : Moves r.view r'.view where
  counter := hlast.ge
  tombstones := by
    intro i hi
    rw [mem_tombstones, htombs]
    exact hi
  held := by
    intro i hi
    rcases hcarries i hi.1 hi.2 with h | h
    · exact .inl ⟨hi.1, h⟩
    · exact .inr (.inl h)
  stored := by
    intro i hi
    rcases hnew i hi with h | ⟨hnonneg, h, hfree⟩
    · exact .inl h
    · exact .inr (.inl ⟨⟨hnonneg, h⟩, hfree⟩)
  vanished := fun i hi hnot => absurd (hstay i hi) hnot

/-- An operation that touches neither the tables nor the tombstones nor the jobs. -/
theorem Leads.of_objects (h : r.Sound) (hlast : r'.lastId = r.lastId)
    (htombs : r'.tombstones = r.tombstones) (hrows : r'.rows = r.rows) (hjobs : r'.jobs = r.jobs)
    (hobjects : ∀ p ∈ r'.objects, p.id < 0 ∨ (∃ q ∈ r.objects, q.id = p.id) ∨ p.id ∈ r.rowIds) (hkeeps : r.Renumbers r')
    (hentry : ∀ i ptr, r'.identityMap i = some ptr → r.identityMap i = some ptr ∨ r'.Entry i ptr) : r.Leads r' := by
  have hcarries : ∀ i, 0 ≤ i → r'.Carries i → r.Carries i ∨ i ∈ r.rowIds := by
    rintro i hi (⟨p, hp, rfl⟩ | hjob)
    · rcases hobjects p hp with hneg | hq | hq
      · omega
      · exact .inl (.inl hq)
      · exact .inr hq
    · rw [hjobs] at hjob
      exact .inl (.inr hjob)
  have hsame : r'.rowIds = r.rowIds := by rw [rowIds, rowIds, hrows]
  refine Leads.of_moves h (moves_of_write hlast htombs hcarries ?_ ?_) hkeeps ?_ ?_ hentry
  · intro i hi
    rw [hsame] at hi
    exact .inl hi
  · intro i hi
    rw [hsame]
    exact hi
  · rw [hrows]
    exact h.rows
  · intro j hj
    rw [hjobs] at hj
    exact .inl hj

theorem newProfile_leads (h : r.Sound) (p : Profile) : r.Leads (r.newProfile p) := by
  refine Leads.of_objects h rfl rfl rfl rfl ?_ ?_ fun i ptr hi => .inl hi
  · intro q hq
    rcases mem_append.1 hq with hq | hq
    · exact .inr (.inl ⟨q, hq, rfl⟩)
    · rw [mem_singleton] at hq
      subst hq
      exact .inl (Int.negSucc_lt_zero 0)
  · intro ptr q hq
    exact ⟨q, Lists.getElem?_append_some hq, .inl rfl⟩

theorem copyProfile_leads (h : r.Sound) (ptr : Nat) (keepsId : Bool) : r.Leads (r.copyProfile ptr keepsId) := by
  rw [copyProfile]
  split
  · exact Leads.refl h
  next p hp =>
    refine Leads.of_objects h rfl rfl rfl rfl ?_ ?_ fun i ptr hi => .inl hi
    · intro q hq
      rcases mem_append.1 hq with hq | hq
      · exact .inr (.inl ⟨q, hq, rfl⟩)
      · rw [mem_singleton] at hq
        subst hq
        cases keepsId with
        | false => exact .inl (Int.negSucc_lt_zero 0)
        | true => exact .inr (.inl ⟨p, mem_of_getElem? hp, rfl⟩)
    · intro ptr q hq
      exact ⟨q, Lists.getElem?_append_some hq, .inl rfl⟩

theorem edit_leads (h : r.Sound) (ptr : Nat) (f : Profile → Profile) : r.Leads (r.edit ptr f) := by
  refine Leads.of_objects h rfl rfl rfl rfl ?_ ?_ fun i ptr hi => .inl hi
  · intro q hq
    obtain ⟨n, hn⟩ := mem_iff_getElem?.1 hq
    rcases Lists.getElem?_modify_some hn with ⟨-, p, hp, rfl⟩ | ⟨-, hp⟩
    · exact .inr (.inl ⟨p, mem_of_getElem? hp, rfl⟩)
    · exact .inr (.inl ⟨q, mem_of_getElem? hp, rfl⟩)
  · intro n p hp
    by_cases hn : ptr = n
    · subst hn
      exact ⟨_, Lists.getElem?_modify_self hp, .inl rfl⟩
    · refine ⟨p, ?_, .inl rfl⟩
      show (r.objects.modify ptr _)[n]? = some p
      rw [getElem?_modify, hp]
      simp [hn]

theorem expire_leads (h : r.Sound) (id : Int) : r.Leads { r with identityMap := Function.update r.identityMap id none } := by
  refine Leads.of_objects h rfl rfl rfl rfl (fun p hp => .inr (.inl ⟨p, hp, rfl⟩)) (renumbers_of_eq rfl) ?_
  intro i ptr hi
  rcases update_some hi with ⟨-, hv⟩ | hold
  · cases hv
  · exact .inl hold

theorem profileIn_some {rows : List Profile} {id : Int} (h : profileIn rows id = some p) : p ∈ rows ∧ p.id = id :=
  ⟨mem_of_find?_eq_some h, by simpa using find?_some h⟩

theorem getProfile_rows (r : ProfilesRepo) (id : Int) : (r.getProfile id).2.rows = r.rows := by
  rw [getProfile]
  split
  · rfl
  · split <;> rfl

/-- What `GetProfile` finds under the id of a row is an object of that id. -/
theorem getProfile_leads (h : r.Sound) (id : Int) : r.Leads (r.getProfile id).2 ∧
    (id ∈ r.rowIds → ∃ ptr, ∃ p : Profile, (r.getProfile id).1 = some ptr ∧ (r.getProfile id).2.objects[ptr]? = some p ∧ p.id = id) := by
  rw [getProfile]
  split
  next ptr hptr =>
    refine ⟨Leads.refl h, fun hid => ?_⟩
    obtain ⟨p, hp, -, -, heq | ⟨hrow, -⟩⟩ := h.identity id ptr hptr
    · exact ⟨ptr, p, rfl, hp, heq⟩
    · exact absurd hid hrow
  next hnone =>
    split
    next hrow =>
      refine ⟨Leads.refl h, fun hid => ?_⟩
      obtain ⟨p, hp, hpid⟩ := mem_rowIds.1 hid
      have := find?_eq_none.1 hrow p hp
      simp [hpid] at this
    next row hrow =>
      obtain ⟨hmem, hid⟩ := profileIn_some hrow
      have hlast : (r.objects ++ [row])[r.objects.length]? = some row := by simp
      refine ⟨Leads.of_objects h rfl rfl rfl rfl ?_ ?_ ?_, fun _ => ⟨_, row, rfl, hlast, hid⟩⟩
      · intro q hq
        rcases mem_append.1 hq with hq | hq
        · exact .inr (.inl ⟨q, hq, rfl⟩)
        · rw [mem_singleton] at hq
          subst hq
          exact .inr (.inr (mem_rowIds.2 ⟨q, hmem, rfl⟩))
      · intro n p hp
        exact ⟨p, Lists.getElem?_append_some hp, .inl rfl⟩
      · intro i ptr hi
        rcases update_some hi with ⟨rfl, hv⟩ | hold
        · cases hv
          refine .inr ⟨row, hlast, h.rows row hmem, ?_, .inl hid⟩
          exact hid ▸ h.issued.stored row.id (mem_rowIds.2 ⟨row, hmem, rfl⟩)
        · exact .inl hold

/-! ### Saving -/

theorem mem_putProfile {rows : List Profile} : i ∈ (putProfile p rows).map (·.id) ↔ i = p.id ∨ i ∈ rows.map (·.id) := by
  simp only [putProfile, map_cons, mem_cons, mem_map, mem_filter, bne_iff_ne]
  constructor
  · rintro (h | ⟨q, ⟨hq, -⟩, rfl⟩)
    · exact .inl h
    · exact .inr ⟨q, hq, rfl⟩
  · rintro (h | ⟨q, hq, rfl⟩)
    · exact .inl h
    · by_cases hid : q.id = p.id
      · exact .inl hid
      · exact .inr ⟨q, ⟨hq, hid⟩, rfl⟩

variable {groupIds : List Int}

theorem mem_saveToDatabase : (i ∈ (r.saveToDatabase groupIds p).rowIds → i = p.id ∨ i ∈ r.rowIds) ∧
    (i ∈ r.rowIds → i ∈ (r.saveToDatabase groupIds p).rowIds) := by
  rw [saveToDatabase]
  split
  · exact ⟨mem_putProfile.1, fun h => mem_putProfile.2 (.inr h)⟩
  · exact ⟨.inr, id⟩

theorem saveToDatabase_rest (groupIds : List Int) (p : Profile) : (r.saveToDatabase groupIds p).lastId = r.lastId ∧
    (r.saveToDatabase groupIds p).objects = r.objects ∧ (r.saveToDatabase groupIds p).tombstones = r.tombstones ∧
    (r.saveToDatabase groupIds p).jobs = r.jobs := by
  rw [saveToDatabase]
  split <;> exact ⟨rfl, rfl, rfl, rfl⟩

theorem saveToDatabase_identityMap (groupIds : List Int) (p : Profile) : (r.saveToDatabase groupIds p).identityMap = r.identityMap := by
  rw [saveToDatabase]
  split <;> rfl

/-- An operation that writes rows, and may change `identityMap` and the jobs. -/
theorem Leads.of_rows (h : r.Sound) (hlast : r'.lastId = r.lastId)
    (htombs : r'.tombstones = r.tombstones) (hobjects : r'.objects = r.objects) (hjobs : ∀ j ∈ r'.jobs, j ∈ r.jobs)
    (hnew : ∀ i ∈ r'.rowIds, i ∈ r.rowIds ∨ 0 ≤ i ∧ r.Carries i ∧ i ∉ r.tombstones)
    (hstay : ∀ i ∈ r.rowIds, i ∈ r'.rowIds) (hentry : ∀ i ptr, r'.identityMap i = some ptr →
    r.identityMap i = some ptr ∨ ∃ p : Profile, r.objects[ptr]? = some p ∧ 0 ≤ p.id ∧ p.id = i) : r.Leads r' := by
  have hcarries : ∀ i, 0 ≤ i → r'.Carries i → r.Carries i ∨ i ∈ r.rowIds := by
    rintro i - (hobject | ⟨j, hj, hjob⟩)
    · rw [hobjects] at hobject
      exact .inl (.inl hobject)
    · exact .inl (.inr ⟨j, hjobs j hj, hjob⟩)
  refine Leads.of_moves h (moves_of_write hlast htombs hcarries hnew hstay) (renumbers_of_eq hobjects) ?_ (fun j hj => .inl (hjobs j hj)) ?_
  · intro p hp
    rcases hnew p.id (mem_rowIds.2 ⟨p, hp, rfl⟩) with hold | ⟨hnonneg, -⟩
    · obtain ⟨q, hq, hid⟩ := mem_rowIds.1 hold
      exact hid ▸ h.rows q hq
    · exact hnonneg
  · intro i ptr hi
    rcases hentry i ptr hi with hold | ⟨p, hp, hnonneg, rfl⟩
    · exact .inl hold
    · refine .inr ⟨p, hobjects ▸ hp, hnonneg, ?_, .inl rfl⟩
      rw [hlast]
      exact h.issued.held p.id ⟨hnonneg, carries_object hp⟩

theorem save_leads (h : r.Sound) (groupIds : List Int) (ptr : Nat) : r.Leads (r.save groupIds ptr) := by
  rw [save]
  split
  · exact Leads.refl h
  next p hp =>
    split
    · exact Leads.refl h
    next hnonneg =>
      split
      · exact Leads.refl h
      next hfree =>
        obtain ⟨hlast, hobjects, htombs, hjobs⟩ := r.saveToDatabase_rest groupIds p
        refine Leads.of_rows h hlast htombs hobjects (fun j hj => hjobs ▸ hj) ?_ (fun i hi => mem_saveToDatabase.2 hi) ?_
        · intro i hi
          rcases mem_saveToDatabase.1 hi with rfl | hold
          · exact .inr ⟨not_lt.1 hnonneg, carries_object hp, by simpa using hfree⟩
          · exact .inl hold
        · intro i n hi
          rcases update_some hi with ⟨rfl, hv⟩ | hold
          · cases hv
            exact .inr ⟨p, hp, not_lt.1 hnonneg, rfl⟩
          · exact .inl hold

theorem mem_objectsOf {ptrs : List Nat} {keep : Profile → Bool} {x : Nat × Profile} :
    x ∈ r.objectsOf ptrs keep ↔ x.1 ∈ ptrs ∧ r.objects[x.1]? = some x.2 ∧ keep x.2 = true := by
  simp only [objectsOf, mem_filterMap]
  constructor
  · rintro ⟨ptr, hptr, hx⟩
    split at hx
    next p hp =>
      split at hx
      next hkeep =>
        cases hx
        exact ⟨hptr, hp, hkeep⟩
      · cases hx
    · cases hx
  · rintro ⟨hptr, hp, hkeep⟩
    exact ⟨x.1, hptr, by rw [hp]; simp [hkeep]⟩

theorem queueJob_leads (h : r.Sound) (ptrs : List Nat) : r.Leads { r with jobs := r.jobs ++ [⟨ptrs, none⟩] } := by
  refine Leads.of_moves h (moves_of_write rfl rfl ?_ (fun i hi => .inl hi) fun i hi => hi) (renumbers_of_eq rfl) h.rows ?_ fun i ptr hi => .inl hi
  · rintro i - (hobject | ⟨j, hj, rows, hrows, hp⟩)
    · exact .inl (.inl hobject)
    · rcases mem_append.1 hj with hj | hj
      · exact .inl (.inr ⟨j, hj, rows, hrows, hp⟩)
      · rw [mem_singleton] at hj
        subst hj
        cases hrows
  · intro j hj
    rcases mem_append.1 hj with hj | hj
    · exact .inl hj
    · rw [mem_singleton] at hj
      subst hj
      exact .inr nofun

theorem readJob_leads (h : r.Sound) (k : Nat) : r.Leads (r.readJob k) := by
  rw [readJob]
  split
  next ptrs hjob =>
    refine Leads.of_moves h (moves_of_write rfl rfl ?_ (fun i hi => .inl hi) fun i hi => hi) (renumbers_of_eq rfl) h.rows ?_ fun i ptr hi => .inl hi
    · -- The rows of the job are copies of objects.
      rintro i - (hobject | ⟨j, hj, rows, hrows, p, hp, rfl⟩)
      · exact .inl (.inl hobject)
      · rcases mem_or_eq_of_mem_set hj with hj | rfl
        · exact .inl (.inr ⟨j, hj, rows, hrows, p, hp, rfl⟩)
        · cases hrows
          obtain ⟨x, hx, rfl⟩ := mem_map.1 hp
          exact .inl (carries_object (mem_objectsOf.1 hx).2.1)
    · intro j hj
      rcases mem_or_eq_of_mem_set hj with hj | rfl
      · exact .inl hj
      · refine .inr fun rows hrows => ?_
        cases hrows
        constructor
        · intro p hp
          obtain ⟨x, hx, rfl⟩ := mem_map.1 hp
          exact of_decide_eq_true (mem_objectsOf.1 hx).2.2
        · intro ptr hptr
          obtain ⟨x, hx, rfl⟩ := mem_map.1 hptr
          exact ⟨x.2, (mem_objectsOf.1 hx).2.1, of_decide_eq_true (mem_objectsOf.1 hx).2.2⟩
  · exact Leads.refl h

theorem mem_foldl_putProfile (chunk rows : List Profile) (i : Int) : i ∈ (chunk.foldl (fun rows p => putProfile p rows) rows).map (·.id) ↔
    i ∈ chunk.map (·.id) ∨ i ∈ rows.map (·.id) := by
  induction chunk generalizing rows with
  | nil => simp
  | cons p chunk ih =>
    rw [foldl_cons, ih, mem_putProfile, map_cons, mem_cons]
    tauto

theorem mem_replaceChunk {rows chunk : List Profile} : (i ∈ (replaceChunk groupIds rows chunk).map (·.id) →
    i ∈ chunk.map (·.id) ∨ i ∈ rows.map (·.id)) ∧ (i ∈ rows.map (·.id) → i ∈ (replaceChunk groupIds rows chunk).map (·.id)) := by
  rw [replaceChunk]
  split
  · exact ⟨(mem_foldl_putProfile chunk rows i).1, fun h => (mem_foldl_putProfile chunk rows i).2 (.inr h)⟩
  · exact ⟨.inr, id⟩

/-- What `execBatchReplaceProfiles` leaves: the old ids, and ids of its rows. -/
theorem mem_replaceChunks (chunks : List (List Profile)) (rows : List Profile) (i : Int) :
    (i ∈ (chunks.foldl (replaceChunk groupIds) rows).map (·.id) → (∃ chunk ∈ chunks, i ∈ chunk.map (·.id)) ∨ i ∈ rows.map (·.id)) ∧
    (i ∈ rows.map (·.id) → i ∈ (chunks.foldl (replaceChunk groupIds) rows).map (·.id)) := by
  induction chunks generalizing rows with
  | nil => exact ⟨.inr, id⟩
  | cons chunk chunks ih =>
    obtain ⟨hnew, hstay⟩ := ih (replaceChunk groupIds rows chunk)
    constructor
    · intro hi
      rcases hnew hi with ⟨c, hc, hmem⟩ | hmem
      · exact .inl ⟨c, mem_cons_of_mem chunk hc, hmem⟩
      · rcases mem_replaceChunk.1 hmem with h | h
        · exact .inl ⟨chunk, mem_cons_self, h⟩
        · exact .inr h
    · intro hi
      exact hstay (mem_replaceChunk.2 hi)

theorem foldl_update_some (known : List (Nat × Profile)) (m : Int → Option Nat)
    (h : known.foldl (fun (m : Int → Option Nat) x => Function.update m x.2.id (some x.1)) m i = some ptr) :
    m i = some ptr ∨ ∃ x ∈ known, x.1 = ptr ∧ x.2.id = i := by
  induction known generalizing m with
  | nil => exact .inl h
  | cons x known ih =>
    rcases ih _ h with hm | ⟨y, hy, hptr, hid⟩
    · rcases update_some hm with ⟨rfl, hv⟩ | hold
      · cases hv
        exact .inr ⟨x, mem_cons_self, rfl, rfl⟩
      · exact .inl hold
    · exact .inr ⟨y, mem_cons_of_mem x hy, hptr, hid⟩

theorem writeJob_leads (h : r.Sound) (groupIds : List Int) (k : Nat) : r.Leads (r.writeJob groupIds k) := by
  rw [writeJob]
  split
  next valid rows hjob =>
    have hmem : (⟨valid, some rows⟩ : SaveJob) ∈ r.jobs := mem_of_getElem? hjob
    obtain ⟨hids, hptrs⟩ := h.jobs _ hmem rows rfl
    refine Leads.of_rows h rfl rfl rfl (fun j hj => mem_of_mem_eraseIdx hj) ?_ (fun i hi => (mem_replaceChunks _ _ i).2 hi) ?_
    · intro i hi
      rcases (mem_replaceChunks _ _ i).1 hi with ⟨chunk, hchunk, hi⟩ | hold
      · -- A written row was read by the job, and its id has no tombstone now.
        obtain ⟨p, hp, rfl⟩ := mem_map.1 hi
        obtain ⟨hp, hfree⟩ := mem_filter.1 (Lists.mem_of_mem_toChunks hchunk hp)
        exact .inr ⟨hids p hp, .inr ⟨_, hmem, rows, rfl, p, hp, rfl⟩, by simpa using hfree⟩
      · exact .inl hold
    · intro i ptr hi
      rcases foldl_update_some _ _ hi with hold | ⟨x, hx, rfl, rfl⟩
      · exact .inl hold
      · obtain ⟨hvalid, hobject, -⟩ := mem_objectsOf.1 hx
        obtain ⟨p, hp, hnonneg⟩ := hptrs x.1 hvalid
        rw [hobject, Option.some.injEq] at hp
        subst hp
        exact .inr ⟨x.2, hobject, hnonneg, rfl⟩
  · exact Leads.refl h

/-! ### Deleting -/

theorem mem_forget_rowIds {ids deletedIds : List Int} : i ∈ (r.forget ids deletedIds).rowIds ↔ i ∈ r.rowIds ∧ i ∉ ids := by
  simp only [mem_rowIds, forget, mem_filter]
  constructor
  · rintro ⟨p, ⟨hp, hnot⟩, rfl⟩
    exact ⟨⟨p, hp, rfl⟩, by simpa using hnot⟩
  · rintro ⟨⟨p, hp, rfl⟩, hnot⟩
    exact ⟨p, ⟨hp, by simpa using hnot⟩, rfl⟩

/-- `DeleteAndForget` is a move as long as every row it deletes gets a tombstone. -/
theorem forget_leads (h : r.Sound) {ids deletedIds : List Int}
    (hcovers : ∀ i ∈ ids, i ∈ r.rowIds → i ∈ deletedIds) : r.Leads (r.forget ids deletedIds) := by
  have hmoves : Moves r.view (r.forget ids deletedIds).view := {
    counter := le_refl _
    tombstones := fun i hi => mem_append_right deletedIds hi
    held := fun i hi => .inl hi
    stored := fun i hi => .inl (mem_forget_rowIds.1 hi).1
    vanished := by
      intro i hi hnot
      have hids : i ∈ ids := by
        by_contra hids
        exact hnot (mem_forget_rowIds.2 ⟨hi, hids⟩)
      exact mem_append_left r.tombstones (hcovers i hids hi) }
  refine Leads.of_moves h hmoves (renumbers_of_eq rfl) ?_ (fun j hj => .inl hj) ?_
  · intro p hp
    exact h.rows p (mem_of_mem_filter hp)
  · intro i ptr hi
    have hi : (if deletedIds.contains i then none else r.identityMap i) = some ptr := hi
    split at hi
    · cases hi
    · exact .inl hi

theorem getProfileBatch_rows (ids : List Int) (r : ProfilesRepo) : (r.getProfileBatch ids).2.rows = r.rows := by
  induction ids generalizing r with
  | nil => rfl
  | cons id ids ih => exact (ih (r.getProfile id).2).trans (getProfile_rows r id)

/-- The objects `GetProfileBatch` answers with include one for every row among the ids. -/
theorem getProfileBatch_leads (ids : List Int) (h : r.Sound) : r.Leads (r.getProfileBatch ids).2 ∧
    ∀ i ∈ ids, i ∈ r.rowIds → ∃ ptr ∈ (r.getProfileBatch ids).1, ∃ p : Profile,
    (r.getProfileBatch ids).2.objects[ptr]? = some p ∧ p.id = i := by
  induction ids generalizing r with
  | nil => exact ⟨Leads.refl h, nofun⟩
  | cons id ids ih =>
    rw [getProfileBatch]
    obtain ⟨hfirst, hfound⟩ := getProfile_leads h id
    obtain ⟨hrest, hothers⟩ := ih hfirst.sound
    refine ⟨hfirst.trans hrest, fun i hi hrow => ?_⟩
    rcases mem_cons.1 hi with rfl | hi
    · obtain ⟨ptr, p, hptr, hp, hid⟩ := hfound hrow
      obtain ⟨p', hp', hid'⟩ := hrest.renumbers ptr p hp
      have hnonneg : 0 ≤ p.id := by
        obtain ⟨q, hq, hqid⟩ := mem_rowIds.1 hrow
        rw [hid, ← hqid]
        exact h.rows q hq
      refine ⟨ptr, mem_append_left _ (by rw [hptr]; exact mem_singleton_self ptr), p', hp', ?_⟩
      omega
    · have hrow' : i ∈ (r.getProfile id).2.rowIds := by
        rw [rowIds, getProfile_rows]
        exact hrow
      obtain ⟨ptr, hptr, hp⟩ := hothers i hi hrow'
      exact ⟨ptr, mem_append_right _ hptr, hp⟩

/-! ### Adding -/

/-- An operation that hands out ids: what is new in the objects and in the rows is above the
counter. -/
theorem Leads.of_add (h : r.Sound) (hlast : r.lastId ≤ r'.lastId)
    (htombs : r'.tombstones = r.tombstones) (hjobs : r'.jobs = r.jobs) (hkeeps : r.Renumbers r')
    (hobjects : ∀ p ∈ r'.objects, p ∈ r.objects ∨ r.lastId < p.id ∧ p.id ≤ r'.lastId)
    (hrows : ∀ p ∈ r'.rows, p ∈ r.rows ∨ r.lastId < p.id ∧ p.id ≤ r'.lastId) (hstay : ∀ i ∈ r.rowIds, i ∈ r'.rowIds)
    (hentry : ∀ i ptr, r'.identityMap i = some ptr → r.identityMap i = some ptr ∨ r'.Entry i ptr) : r.Leads r' := by
  have hmoves : Moves r.view r'.view := {
    counter := hlast
    tombstones := fun i hi => by
      rw [mem_tombstones, htombs]
      exact hi
    held := by
      rintro i ⟨hnonneg, ⟨p, hp, rfl⟩ | hjob⟩
      · rcases hobjects p hp with hold | hnew
        · exact .inl ⟨hnonneg, .inl ⟨p, hold, rfl⟩⟩
        · exact .inr (.inr hnew)
      · rw [hjobs] at hjob
        exact .inl ⟨hnonneg, .inr hjob⟩
    stored := by
      intro i hi
      obtain ⟨p, hp, rfl⟩ := mem_rowIds.1 hi
      rcases hrows p hp with hold | hnew
      · exact .inl (mem_rowIds.2 ⟨p, hold, rfl⟩)
      · exact .inr (.inr hnew)
    vanished := fun i hi hnot => absurd (hstay i hi) hnot }
  refine Leads.of_moves h hmoves hkeeps ?_ (fun j hj => .inl (hjobs ▸ hj)) hentry
  intro p hp
  rcases hrows p hp with hold | ⟨hlt, -⟩
  · exact h.rows p hold
  · have := h.counter
    omega

section

variable (gid : Int) (ptrs : List Nat) (first : Int)

include gid ptrs first

/-- The objects after a batch was numbered: untouched, or under the id of one of its places. -/
theorem number_objects (hp : (r.number gid ptrs first).objects[ptr]? = some p) :
    (ptr ∉ ptrs ∧ r.objects[ptr]? = some p) ∨ ∃ k : Nat, ptrs[k]? = some ptr ∧ p.id = first + k := by
  induction ptrs generalizing r first with
  | nil => exact .inl ⟨not_mem_nil, hp⟩
  | cons n ptrs ih =>
    rcases ih (first + 1) hp with ⟨hnot, hold⟩ | ⟨k, hk, hid⟩
    · rcases Lists.getElem?_modify_some hold with ⟨rfl, q, -, rfl⟩ | ⟨hne, hq⟩
      · exact .inr ⟨0, rfl, by simp⟩
      · refine .inl ⟨?_, hq⟩
        rw [mem_cons, not_or]
        exact ⟨fun heq => hne heq.symm, hnot⟩
    · refine .inr ⟨k + 1, hk, ?_⟩
      push_cast
      omega

/-- No object is lost when a batch is numbered. -/
theorem number_keeps (hp : r.objects[ptr]? = some p) : ∃ p' : Profile, (r.number gid ptrs first).objects[ptr]? = some p' := by
  induction ptrs generalizing r p first with
  | nil => exact ⟨p, hp⟩
  | cons n ptrs ih =>
    by_cases hn : n = ptr
    · subst hn
      exact ih (first + 1) (Lists.getElem?_modify_self hp)
    · refine ih (p := p) (first + 1) ?_
      show (r.objects.modify n _)[ptr]? = some p
      rw [getElem?_modify, hp]
      simp [hn]

theorem number_entries (hi : (r.number gid ptrs first).identityMap i = some ptr) :
    r.identityMap i = some ptr ∨ ∃ k : Nat, ptrs[k]? = some ptr ∧ i = first + k := by
  induction ptrs generalizing r first with
  | nil => exact .inl hi
  | cons n ptrs ih =>
    rcases ih (first + 1) hi with hold | ⟨k, hk, hid⟩
    · rcases update_some hold with ⟨rfl, hv⟩ | hold
      · cases hv
        exact .inr ⟨0, rfl, by simp⟩
      · exact .inl hold
    · refine .inr ⟨k + 1, hk, ?_⟩
      push_cast
      omega

theorem number_rest : (r.number gid ptrs first).rows = r.rows ∧ (r.number gid ptrs first).lastId = r.lastId ∧
    (r.number gid ptrs first).tombstones = r.tombstones ∧ (r.number gid ptrs first).jobs = r.jobs := by
  induction ptrs generalizing r first with
  | nil => exact ⟨rfl, rfl, rfl, rfl⟩
  | cons n ptrs ih => exact ih (first + 1)

/-- Two pointers of a numbered batch do not get one id. -/
theorem number_unique {ptr' : Nat} {p' : Profile} (hold : ∀ q ∈ r.objects, q.id < first) (hp : (r.number gid ptrs first).objects[ptr]? = some p)
    (hp' : (r.number gid ptrs first).objects[ptr']? = some p') (hnew : first ≤ p.id) (heq : p.id = p'.id) : ptr = ptr' := by
  rcases number_objects gid ptrs first hp with ⟨-, hq⟩ | ⟨k, hk, hid⟩
  · have := hold p (mem_of_getElem? hq)
    omega
  · rcases number_objects gid ptrs first hp' with ⟨-, hq⟩ | ⟨k', hk', hid'⟩
    · have := hold p' (mem_of_getElem? hq)
      omega
    · have hkk : k = k' := by omega
      subst hkk
      rw [hk, Option.some.injEq] at hk'
      exact hk'

end

/-- What `execBatchInsertProfiles` leaves: the old rows, and rows of the batch. -/
theorem insertChunks_rows (groupIds : List Int) (chunks : List (List Profile)) (rows : List Profile) :
    (∀ p ∈ rows, p ∈ (insertChunks groupIds rows chunks).1) ∧
    ∀ p ∈ (insertChunks groupIds rows chunks).1, p ∈ rows ∨ ∃ chunk ∈ chunks, p ∈ chunk := by
  induction chunks generalizing rows with
  | nil => exact ⟨fun p hp => hp, fun p hp => .inl hp⟩
  | cons chunk chunks ih =>
    rw [insertChunks]
    split
    next rows' hrows' =>
      have heq : rows' = rows ++ chunk := by
        rw [insertChunk] at hrows'
        split at hrows'
        · exact (Option.some.inj hrows').symm
        · cases hrows'
      subst heq
      obtain ⟨hstay, hnew⟩ := ih (rows ++ chunk)
      refine ⟨fun p hp => hstay p (mem_append_left chunk hp), fun p hp => ?_⟩
      rcases hnew p hp with hmem | ⟨c, hc, hmem⟩
      · rcases mem_append.1 hmem with hmem | hmem
        · exact .inl hmem
        · exact .inr ⟨chunk, mem_cons_self, hmem⟩
      · exact .inr ⟨c, mem_cons_of_mem chunk hc, hmem⟩
    · obtain ⟨hstay, hnew⟩ := ih rows
      refine ⟨hstay, fun p hp => ?_⟩
      rcases hnew p hp with hmem | ⟨c, hc, hmem⟩
      · exact .inl hmem
      · exact .inr ⟨c, mem_cons_of_mem chunk hc, hmem⟩

/-- A batch that was numbered, with whatever part of it reached the table and `identityMap`. -/
theorem numbered_leads (h : r.Sound) (gid : Int) (toAdd : List Nat) {r1 : ProfilesRepo}
    (hr1 : r1 = { r with lastId := r.lastId + toAdd.length }.number gid toAdd (r.lastId + 1))
    (hneg : ∀ ptr ∈ toAdd, ∃ p : Profile, r.objects[ptr]? = some p ∧ p.id < 0)
    (hobjects : r'.objects = r1.objects) (hlast : r'.lastId = r1.lastId)
    (htombs : r'.tombstones = r1.tombstones) (hjobs : r'.jobs = r1.jobs)
    (hrows : ∀ p ∈ r'.rows, p ∈ r.rows ∨ ∃ ptr ∈ toAdd, r1.objects[ptr]? = some p)
    (hstay : ∀ i ∈ r.rowIds, i ∈ r'.rowIds)
    (hentry : ∀ i ptr, r'.identityMap i = some ptr → r1.identityMap i = some ptr) :
    r.Leads r' := by
  subst hr1
  obtain ⟨-, hlast1, htombs1, hjobs1⟩ :=
    ({ r with lastId := r.lastId + toAdd.length } : ProfilesRepo).number_rest gid toAdd (r.lastId + 1)
  have hcounter := h.counter
  have hlast' : r'.lastId = r.lastId + toAdd.length := hlast.trans hlast1
  have hjobs' : r'.jobs = r.jobs := hjobs.trans hjobs1
  -- What an object of the result is, read against the objects before.
  have hobject : ∀ (ptr : Nat) (p : Profile), r'.objects[ptr]? = some p → (ptr ∉ toAdd ∧ r.objects[ptr]? = some p) ∨
        ∃ k : Nat, toAdd[k]? = some ptr ∧ p.id = r.lastId + 1 + k := by
    intro ptr p hp
    rw [hobjects] at hp
    exact number_objects (r := { r with lastId := r.lastId + toAdd.length }) gid toAdd (r.lastId + 1) hp
  have hplace : ∀ (k : Nat) (ptr : Nat), toAdd[k]? = some ptr → k < toAdd.length := by
    intro k ptr hk
    exact (List.getElem?_eq_some_iff.1 hk).1
  have hold : ∀ p ∈ r.objects, p.id ≤ r.lastId := by
    intro p hp
    by_cases hnonneg : 0 ≤ p.id
    · exact h.issued.held p.id ⟨hnonneg, .inl ⟨p, hp, rfl⟩⟩
    · omega
  have hnewRow : ∀ p ∈ r'.rows, p ∈ r.rows ∨ ∃ k : Nat, ∃ ptr, r'.objects[ptr]? = some p ∧ toAdd[k]? = some ptr ∧ p.id = r.lastId + 1 + k := by
    intro p hp
    rcases hrows p hp with hrow | ⟨ptr, hptr, hobj⟩
    · exact .inl hrow
    · rw [← hobjects] at hobj
      rcases hobject ptr p hobj with ⟨hnot, -⟩ | ⟨k, hk, hid⟩
      · exact absurd hptr hnot
      · exact .inr ⟨k, ptr, hobj, hk, hid⟩
  refine Leads.of_add h (by omega) (htombs.trans htombs1) hjobs' ?_ ?_ ?_ hstay ?_
  · intro ptr p hp
    obtain ⟨p', hp'⟩ := number_keeps (r := { r with lastId := r.lastId + toAdd.length }) gid toAdd (r.lastId + 1) hp
    rw [← hobjects] at hp'
    refine ⟨p', hp', ?_⟩
    rcases hobject ptr p' hp' with ⟨-, hsame⟩ | ⟨k, hk, hid⟩
    · rw [hp, Option.some.injEq] at hsame
      exact .inl (congrArg Profile.id hsame.symm)
    · obtain ⟨q, hq, hqneg⟩ := hneg ptr (mem_of_getElem? hk)
      rw [hp, Option.some.injEq] at hq
      subst hq
      exact .inr ⟨hqneg, by omega⟩
  · intro p hp
    obtain ⟨ptr, hptr⟩ := mem_iff_getElem?.1 hp
    rcases hobject ptr p hptr with ⟨-, hsame⟩ | ⟨k, hk, hid⟩
    · exact .inl (mem_of_getElem? hsame)
    · have := hplace k ptr hk
      exact .inr ⟨by omega, by omega⟩
  · intro p hp
    rcases hnewRow p hp with hrow | ⟨k, ptr, -, hk, hid⟩
    · exact .inl hrow
    · have := hplace k ptr hk
      exact .inr ⟨by omega, by omega⟩
  · intro i ptr hi
    rcases number_entries gid toAdd (r.lastId + 1) (hentry i ptr hi) with hentry | ⟨k, hk, rfl⟩
    · exact .inl hentry
    · have hlt := hplace k ptr hk
      obtain ⟨q, hq, -⟩ := hneg ptr (mem_of_getElem? hk)
      obtain ⟨p, hp⟩ := number_keeps (r := { r with lastId := r.lastId + toAdd.length }) gid toAdd (r.lastId + 1) hq
      rw [← hobjects] at hp
      have hnonneg : 0 ≤ p.id := by
        rcases hobject ptr p hp with ⟨hnot, -⟩ | ⟨k', -, hid⟩
        · exact absurd (mem_of_getElem? hk) hnot
        · omega
      -- Whatever has the id of this place is the object of this place.
      have hown : ∀ (n : Nat) (p' : Profile), r'.objects[n]? = some p' → p'.id = r.lastId + 1 + k → p' = p := by
        intro n p' hp' hid
        rcases hobject n p' hp' with ⟨-, hsame⟩ | ⟨k', hk', hid'⟩
        · have := hold p' (mem_of_getElem? hsame)
          omega
        · have hkk : k' = k := by omega
          subst hkk
          rw [hk, Option.some.injEq] at hk'
          subst hk'
          rw [hp, Option.some.injEq] at hp'
          exact hp'.symm
      refine .inr ⟨p, hp, hnonneg, by omega, ?_⟩
      by_cases hid : p.id = r.lastId + 1 + k
      · exact .inl hid
      · refine .inr ⟨?_, ?_⟩
        · intro hstored
          obtain ⟨p', hp', hid'⟩ := mem_rowIds.1 hstored
          rcases hnewRow p' hp' with hrow | ⟨k', n, hobj, -, -⟩
          · have : p'.id ≤ r.lastId := h.issued.stored p'.id (mem_rowIds.2 ⟨p', hrow, rfl⟩)
            omega
          · exact hid (hown n p' hobj hid' ▸ hid')
        · rintro ⟨hge, ⟨p', hp', hid'⟩ | hjob⟩
          · obtain ⟨n, hn⟩ := mem_iff_getElem?.1 hp'
            exact hid (hown n p' hn hid' ▸ hid')
          · rw [hjobs'] at hjob
            have : r.lastId + 1 + k ≤ r.lastId := h.issued.held _ ⟨hge, .inr hjob⟩
            omega

/-- One object that got the next id is a batch of one. -/
theorem added_leads (h : r.Sound) {p0 : Profile} (hp0 : r.objects[ptr]? = some p0)
    (hneg : p0.id < 0) {gid : Int} (hp : p = { p0 with id := r.lastId + 1, gid := gid })
    (hobjects : r'.objects = r.objects.set ptr p) (hlast : r'.lastId = r.lastId + 1)
    (htombs : r'.tombstones = r.tombstones) (hjobs : r'.jobs = r.jobs)
    (hrows : ∀ q ∈ r'.rows, q ∈ r.rows ∨ q = p) (hstay : ∀ i ∈ r.rowIds, i ∈ r'.rowIds)
    (hentry : ∀ i n, r'.identityMap i = some n → r.identityMap i = some n ∨ i = r.lastId + 1 ∧ n = ptr) : r.Leads r' := by
  have hmodify : r.objects.set ptr p = r.objects.modify ptr fun q =>
    { q with id := r.lastId + 1, gid := gid } := by
    rw [modify_eq_set_getElem?, hp0, hp]
    rfl
  have hlen : ptr < r.objects.length := (List.getElem?_eq_some_iff.1 hp0).1
  refine numbered_leads h gid [ptr] rfl ?_ (hobjects.trans hmodify) hlast htombs hjobs ?_ hstay ?_
  · intro n hn
    rw [mem_singleton] at hn
    subst hn
    exact ⟨p0, hp0, hneg⟩
  · intro q hq
    rcases hrows q hq with hold | rfl
    · exact .inl hold
    · refine .inr ⟨ptr, mem_singleton_self ptr, ?_⟩
      show (r.objects.modify ptr _)[ptr]? = some q
      rw [← hmodify]
      exact getElem?_set_self hlen
  · intro i n hi
    show Function.update r.identityMap (r.lastId + 1) (some ptr) i = some n
    rcases hentry i n hi with hold | ⟨rfl, rfl⟩
    · obtain ⟨-, -, -, hle, -⟩ := h.identity i n hold
      rw [Function.update_of_ne (by omega)]
      exact hold
    · exact Function.update_self ..

end ProfilesRepo

/-! ## The groups as a store with tombstones -/

/-- The store of groups. -/
def GroupsRepo.view (r : GroupsRepo) : View Int where
  stored := { i | i ∈ r.rowIds }
  held := { i | 0 ≤ i ∧ ∃ g ∈ r.objects, g.id = i }
  tombstones := { i | i ∈ r.tombstones }
  lastId := r.lastId

/-- What holds between the operations of `GroupsRepo`. -/
structure GroupsRepo.Sound (r : GroupsRepo) : Prop where
  counter : 0 ≤ r.lastId
  issued : Issued r.view
  rows : ∀ g ∈ r.rows, 0 ≤ g.id
  memMap : ∀ i ptr, r.memMap i = some ptr → ∃ g : Group, r.objects[ptr]? = some g ∧ g.id = i ∧ 0 ≤ i

/-- Objects stay where they are, and only one without an id gets one, a new one. -/
def GroupsRepo.Renumbers (r r' : GroupsRepo) : Prop :=
  ∀ (ptr : Nat) (g : Group), r.objects[ptr]? = some g → ∃ g' : Group, r'.objects[ptr]? = some g' ∧ (g'.id = g.id ∨ g.id < 0 ∧ r.lastId < g'.id)

/-- What every operation of `GroupsRepo` does. -/
structure GroupsRepo.Leads (r r' : GroupsRepo) : Prop where
  sound : r'.Sound
  moves : Moves r.view r'.view
  renumbers : r.Renumbers r'

namespace GroupsRepo

variable {r r' r'' : GroupsRepo}

theorem mem_rowIds {i : Int} : i ∈ r.rowIds ↔ ∃ g ∈ r.rows, g.id = i := mem_map

theorem Leads.refl (h : r.Sound) : r.Leads r where
  sound := h
  moves := Moves.refl _
  renumbers := fun _ g hg => ⟨g, hg, .inl rfl⟩

theorem Leads.trans (h : r.Leads r') (h' : r'.Leads r'') : r.Leads r'' where
  sound := h'.sound
  moves := h.moves.trans h'.moves
  renumbers := by
    intro ptr g hg
    obtain ⟨g', hg', hid⟩ := h.renumbers ptr g hg
    obtain ⟨g'', hg'', hid'⟩ := h'.renumbers ptr g' hg'
    have hle : r.lastId ≤ r'.lastId := h.moves.counter
    refine ⟨g'', hg'', ?_⟩
    omega

theorem Leads.of_moves (h : r.Sound) (hmoves : Moves r.view r'.view) (hkeeps : r.Renumbers r')
    (hrows : ∀ g ∈ r'.rows, 0 ≤ g.id) (hmap : ∀ i ptr, r'.memMap i = some ptr → r.memMap i = some ptr ∨
    ∃ g : Group, r'.objects[ptr]? = some g ∧ g.id = i ∧ 0 ≤ i) : r.Leads r' where
  sound := {
    counter := le_trans h.counter hmoves.counter
    issued := h.issued.moves hmoves
    rows := hrows
    memMap := by
      intro i ptr hi
      rcases hmap i ptr hi with hold | hnew
      · obtain ⟨g, hg, hid, hnonneg⟩ := h.memMap i ptr hold
        obtain ⟨g', hg', hid'⟩ := hkeeps ptr g hg
        exact ⟨g', hg', by omega, hnonneg⟩
      · exact hnew }
  moves := hmoves
  renumbers := hkeeps

/-- An operation that hands out no id and deletes nothing. -/
theorem Leads.of_write (h : r.Sound) (hlast : r'.lastId = r.lastId) (htombs : r'.tombstones = r.tombstones) (hkeeps : r.Renumbers r')
    (hobjects : ∀ g ∈ r'.objects, g.id < 0 ∨ (∃ q ∈ r.objects, q.id = g.id) ∨ g.id ∈ r.rowIds)
    (hnew : ∀ i ∈ r'.rowIds, i ∈ r.rowIds ∨ 0 ≤ i ∧ (∃ g ∈ r.objects, g.id = i) ∧ i ∉ r.tombstones)
    (hstay : ∀ i ∈ r.rowIds, i ∈ r'.rowIds) (hmap : ∀ i ptr, r'.memMap i = some ptr → r.memMap i = some ptr ∨
    ∃ g : Group, r'.objects[ptr]? = some g ∧ g.id = i ∧ 0 ≤ i) : r.Leads r' := by
  have hmoves : Moves r.view r'.view := {
    counter := hlast.ge
    tombstones := fun i hi => by
      show i ∈ r'.tombstones
      rw [htombs]
      exact hi
    held := by
      rintro i ⟨hnonneg, g, hg, rfl⟩
      rcases hobjects g hg with hneg | hq | hrow
      · omega
      · exact .inl ⟨hnonneg, hq⟩
      · exact .inr (.inl hrow)
    stored := by
      intro i hi
      rcases hnew i hi with hold | ⟨hnonneg, hheld, hfree⟩
      · exact .inl hold
      · exact .inr (.inl ⟨⟨hnonneg, hheld⟩, hfree⟩)
    vanished := fun i hi hnot => absurd (hstay i hi) hnot }
  refine Leads.of_moves h hmoves hkeeps ?_ hmap
  intro g hg
  rcases hnew g.id (mem_rowIds.2 ⟨g, hg, rfl⟩) with hold | ⟨hnonneg, -⟩
  · obtain ⟨q, hq, hid⟩ := mem_rowIds.1 hold
    exact hid ▸ h.rows q hq
  · exact hnonneg

theorem mem_saveToDatabase {g : Group} {i : Int} : i ∈ (r.saveToDatabase g).rowIds ↔ i = g.id ∨ i ∈ r.rowIds := by
  simp only [mem_rowIds, saveToDatabase, putGroup, mem_cons, mem_filter, bne_iff_ne]
  constructor
  · rintro ⟨q, rfl | ⟨hq, -⟩, rfl⟩
    · exact .inl rfl
    · exact .inr ⟨q, hq, rfl⟩
  · rintro (rfl | ⟨q, hq, rfl⟩)
    · exact ⟨g, .inl rfl, rfl⟩
    · by_cases hid : q.id = g.id
      · exact ⟨g, .inl rfl, hid.symm⟩
      · exact ⟨q, .inr ⟨hq, hid⟩, rfl⟩

theorem newGroup_leads (h : r.Sound) (g : Group) : r.Leads { r with objects := r.objects ++ [{ g with id := -1 }] } := by
  refine Leads.of_write h rfl rfl ?_ ?_ (fun i hi => .inl hi) (fun i hi => hi) ?_
  · intro ptr q hq
    exact ⟨q, Lists.getElem?_append_some hq, .inl rfl⟩
  · intro q hq
    rcases mem_append.1 hq with hq | hq
    · exact .inr (.inl ⟨q, hq, rfl⟩)
    · rw [mem_singleton] at hq
      subst hq
      exact .inl (Int.negSucc_lt_zero 0)
  · intro i ptr hi
    exact .inl hi

theorem edit_leads (h : r.Sound) (ptr : Nat) (f : Group → Group) : r.Leads (r.edit ptr f) := by
  refine Leads.of_write h rfl rfl ?_ ?_ (fun i hi => .inl hi) (fun i hi => hi) fun i ptr hi => .inl hi
  · intro n g hg
    by_cases hn : ptr = n
    · subst hn
      exact ⟨_, Lists.getElem?_modify_self hg, .inl rfl⟩
    · refine ⟨g, ?_, .inl rfl⟩
      show (r.objects.modify ptr _)[n]? = some g
      rw [getElem?_modify, hg]
      simp [hn]
  · intro q hq
    obtain ⟨n, hn⟩ := mem_iff_getElem?.1 hq
    rcases Lists.getElem?_modify_some hn with ⟨-, g, hg, rfl⟩ | ⟨-, hg⟩
    · exact .inr (.inl ⟨g, mem_of_getElem? hg, rfl⟩)
    · exact .inr (.inl ⟨q, mem_of_getElem? hg, rfl⟩)

theorem save_leads (h : r.Sound) (ptr : Nat) : r.Leads (r.save ptr) := by
  rw [save]
  split
  · exact Leads.refl h
  next g hg =>
    split
    · exact Leads.refl h
    next hnonneg =>
      split
      · exact Leads.refl h
      next hfree =>
        refine Leads.of_write h rfl rfl (fun n q hq => ⟨q, hq, .inl rfl⟩)
          (fun q hq => .inr (.inl ⟨q, hq, rfl⟩)) ?_ (fun i hi => mem_saveToDatabase.2 (.inr hi)) ?_
        · intro i hi
          rcases mem_saveToDatabase.1 hi with rfl | hold
          · exact .inr ⟨not_lt.1 hnonneg, ⟨g, mem_of_getElem? hg, rfl⟩, by simpa using hfree⟩
          · exact .inl hold
        · intro i n hi
          rcases update_some hi with ⟨rfl, hv⟩ | hold
          · cases hv
            exact .inr ⟨g, hg, rfl, not_lt.1 hnonneg⟩
          · exact .inl hold

theorem addGroup_leads (h : r.Sound) (ptr : Nat) : r.Leads (r.addGroup ptr) := by
  rw [addGroup]
  split
  · exact Leads.refl h
  next g hg =>
    split
    · exact Leads.refl h
    next hneg =>
      have hcounter := h.counter
      have hlen : ptr < r.objects.length := (List.getElem?_eq_some_iff.1 hg).1
      have hself : (r.objects.set ptr { g with id := r.lastId + 1 })[ptr]? = some { g with id := r.lastId + 1 } := getElem?_set_self hlen
      refine Leads.of_moves h ?_ ?_ ?_ ?_
      · exact {
          counter := Int.le_of_lt (Int.lt_succ r.lastId)
          tombstones := subset_refl _
          held := by
            rintro i ⟨hnonneg, q, hq, rfl⟩
            rcases mem_or_eq_of_mem_set hq with hq | rfl
            · exact .inl ⟨hnonneg, q, hq, rfl⟩
            · exact .inr (.inr ⟨Int.lt_succ _, le_refl _⟩)
          stored := by
            intro i hi
            rcases mem_saveToDatabase.1 hi with rfl | hold
            · exact .inr (.inr ⟨Int.lt_succ _, le_refl _⟩)
            · exact .inl hold
          vanished := fun i hi hnot => absurd (mem_saveToDatabase.2 (.inr hi)) hnot }
      · intro n q hq
        by_cases hn : ptr = n
        · subst hn
          rw [hg, Option.some.injEq] at hq
          subst hq
          exact ⟨_, hself, .inr ⟨not_le.1 hneg, Int.lt_succ _⟩⟩
        · exact ⟨q, (getElem?_set_ne hn).trans hq, .inl rfl⟩
      · intro q hq
        rcases mem_cons.1 hq with rfl | hq
        · show 0 ≤ r.lastId + 1
          omega
        · exact h.rows q (mem_of_mem_filter hq)
      · intro i n hi
        rcases update_some hi with ⟨rfl, hv⟩ | hold
        · cases hv
          exact .inr ⟨_, hself, rfl, by omega⟩
        · exact .inl hold

theorem groupIn_some {rows : List Group} {id : Int} {g : Group} (h : groupIn rows id = some g) : g ∈ rows ∧ g.id = id :=
  ⟨mem_of_find?_eq_some h, by simpa using find?_some h⟩

/-- Loading a group may write its row again, and changes nothing else. -/
theorem rewritten {row unique : Group} (hmem : row ∈ r.rows) (hid : unique.id = row.id)
    (b : Prop) [Decidable b] (hr' : r' = if b then r else r.saveToDatabase unique) :
    r'.objects = r.objects ∧ r'.lastId = r.lastId ∧ r'.tombstones = r.tombstones ∧
    r'.memMap = r.memMap ∧ ∀ i, i ∈ r'.rowIds ↔ i ∈ r.rowIds := by
  subst hr'
  split
  · exact ⟨rfl, rfl, rfl, rfl, fun _ => Iff.rfl⟩
  · refine ⟨rfl, rfl, rfl, rfl, fun i => ?_⟩
    rw [mem_saveToDatabase, hid]
    constructor
    · rintro (rfl | hi)
      · exact mem_rowIds.2 ⟨row, hmem, rfl⟩
      · exact hi
    · exact .inr

/-- `GetGroup` finds every group that has a row, and changes no row's id. -/
theorem getGroup_leads (h : r.Sound) (id : Int) : r.Leads (r.getGroup id).2 ∧ (id ∈ r.rowIds → (r.getGroup id).1.isSome = true) ∧
    ∀ i, i ∈ (r.getGroup id).2.rowIds ↔ i ∈ r.rowIds := by
  rw [getGroup]
  split
  next ptr hptr => exact ⟨Leads.refl h, fun _ => rfl, fun _ => Iff.rfl⟩
  next hnone =>
    split
    next hrow =>
      refine ⟨Leads.refl h, fun hid => ?_, fun _ => Iff.rfl⟩
      obtain ⟨g, hg, hgid⟩ := mem_rowIds.1 hid
      have := find?_eq_none.1 hrow g hg
      simp [hgid] at this
    next row hrow =>
      obtain ⟨hmem, hid⟩ := groupIn_some hrow
      generalize hunique : { row with profiles := row.profiles.reverse.dedup.reverse } = unique
      have huid : unique.id = row.id := by rw [← hunique]
      dsimp only
      generalize hr1 : (if unique.profiles.length = row.profiles.length then r
        else r.saveToDatabase unique) = r1
      obtain ⟨hobjects, hlast, htombs, hmap, hids⟩ := rewritten hmem huid _ hr1.symm
      have hlen : (r1.objects ++ [unique])[r1.objects.length]? = some unique := by simp
      refine ⟨Leads.of_write h hlast htombs ?_ ?_ (fun i hi => .inl ((hids i).1 hi)) (fun i hi => (hids i).2 hi) ?_, fun _ => rfl, hids⟩
      · intro n g hg
        exact ⟨g, Lists.getElem?_append_some (hobjects ▸ hg), .inl rfl⟩
      · intro q hq
        rcases mem_append.1 hq with hq | hq
        · rw [hobjects] at hq
          exact .inr (.inl ⟨q, hq, rfl⟩)
        · rw [mem_singleton] at hq
          subst hq
          exact .inr (.inr (mem_rowIds.2 ⟨row, hmem, huid.symm⟩))
      · intro i ptr hi
        rcases update_some hi with ⟨rfl, hv⟩ | hold
        · cases hv
          exact .inr ⟨unique, hlen, huid.trans hid, hid ▸ h.rows row hmem⟩
        · rw [hmap] at hold
          exact .inl hold

theorem mem_forget_rowIds {id : Int} {found : Bool} {i : Int} : i ∈ (r.forget id found).rowIds ↔ i ∈ r.rowIds ∧ i ≠ id := by
  simp only [mem_rowIds, forget, mem_filter, bne_iff_ne]
  constructor
  · rintro ⟨g, ⟨hg, hne⟩, rfl⟩
    exact ⟨⟨g, hg, rfl⟩, hne⟩
  · rintro ⟨⟨g, hg, rfl⟩, hne⟩
    exact ⟨g, ⟨hg, hne⟩, rfl⟩

theorem forget_leads (h : r.Sound) {id : Int} {found : Bool} (hfound : id ∈ r.rowIds → found = true) : r.Leads (r.forget id found) := by
  have hmoves : Moves r.view (r.forget id found).view := {
    counter := le_refl _
    tombstones := by
      intro i hi
      show i ∈ if found then id :: r.tombstones else r.tombstones
      split
      · exact mem_cons_of_mem id hi
      · exact hi
    held := fun i hi => .inl hi
    stored := fun i hi => .inl (mem_forget_rowIds.1 hi).1
    vanished := by
      intro i hi hnot
      have hid : i = id := by
        by_contra hne
        exact hnot (mem_forget_rowIds.2 ⟨hi, hne⟩)
      subst hid
      show i ∈ if found then i :: r.tombstones else r.tombstones
      rw [if_pos (hfound hi)]
      exact mem_cons_self }
  refine Leads.of_moves h hmoves (fun n g hg => ⟨g, hg, .inl rfl⟩) (fun g hg => h.rows g (mem_of_mem_filter hg)) ?_
  intro i ptr hi
  rcases update_some hi with ⟨-, hv⟩ | hold
  · cases hv
  · exact .inl hold

end GroupsRepo

/-! ## The operations over both repositories -/

namespace Repos

variable {s s' s'' : Repos}

/-- What holds between the operations. -/
structure Sound (s : Repos) : Prop where
  profiles : s.profiles.Sound
  groups : s.groups.Sound

/-- What every operation does. -/
structure Leads (s s' : Repos) : Prop where
  profiles : s.profiles.Leads s'.profiles
  groups : s.groups.Leads s'.groups

theorem Leads.trans (h : s.Leads s') (h' : s'.Leads s'') : s.Leads s'' where
  profiles := h.profiles.trans h'.profiles
  groups := h.groups.trans h'.groups

theorem Leads.refl (h : s.Sound) : s.Leads s where
  profiles := ProfilesRepo.Leads.refl h.profiles
  groups := GroupsRepo.Leads.refl h.groups

theorem Leads.sound (h : s.Leads s') : s'.Sound := ⟨h.profiles.sound, h.groups.sound⟩

theorem relist_profiles (gid : Int) (f : Group → Group) : (s.relist gid f).profiles = s.profiles := by
  rw [relist]
  split <;> rfl

theorem relist_groups (h : s.groups.Sound) (gid : Int) (f : Group → Group) : s.groups.Leads (s.relist gid f).groups := by
  rw [relist]
  have hget := (GroupsRepo.getGroup_leads h gid).1
  split
  next ptr groups hg =>
    rw [hg] at hget
    have hedit := GroupsRepo.edit_leads hget.sound ptr f
    exact (hget.trans hedit).trans (GroupsRepo.save_leads hedit.sound ptr)
  next groups hg =>
    rw [hg] at hget
    exact hget

theorem relist_leads (h : s.Sound) (gid : Int) (f : Group → Group) : s.Leads (s.relist gid f) where
  profiles := by
    rw [relist_profiles]
    exact ProfilesRepo.Leads.refl h.profiles
  groups := relist_groups h.groups gid f

theorem addProfile_leads (h : s.Sound) (ptr : Nat) (gid : Int) : s.Leads (s.addProfile ptr gid) := by
  rw [addProfile]
  split
  · exact Leads.refl h
  next p0 hp0 =>
    split
    · exact Leads.refl h
    next hneg =>
      have hget := (GroupsRepo.getGroup_leads h.groups (s.targetGroup gid)).1
      have hneg := not_le.1 hneg
      dsimp only
      split
      next groups hg =>
        rw [hg] at hget
        refine ⟨?_, hget⟩
        exact ProfilesRepo.added_leads h.profiles hp0 hneg rfl rfl rfl rfl rfl (fun q hq => .inl hq) (fun i hi => hi) fun i n hi => .inl hi
      next found groups hg =>
        rw [hg] at hget
        generalize hp : { p0 with id := s.profiles.lastId + 1, gid := s.targetGroup gid } = p
        generalize hr : ({ s.profiles with
          lastId := s.profiles.lastId + 1
          objects := s.profiles.objects.set ptr p
          identityMap := Function.update s.profiles.identityMap (s.profiles.lastId + 1) (some ptr) } :
            ProfilesRepo) = r
        obtain ⟨hlast, hobjects, htombs, hjobs⟩ := r.saveToDatabase_rest groups.rowIds p
        have hprofiles : s.profiles.Leads (r.saveToDatabase groups.rowIds p) := by
          subst hr
          refine ProfilesRepo.added_leads h.profiles hp0 hneg hp.symm hobjects hlast htombs hjobs
            (fun q hq => ?_) (fun i hi => ProfilesRepo.mem_saveToDatabase.2 hi) fun i n hi => ?_
          · rw [ProfilesRepo.saveToDatabase] at hq
            split at hq
            · rcases mem_cons.1 hq with hq | hq
              · exact .inr hq
              · exact .inl (mem_of_mem_filter hq)
            · exact .inl hq
          · rw [ProfilesRepo.saveToDatabase_identityMap] at hi
            rcases update_some hi with ⟨hid, hv⟩ | hold
            · exact .inr ⟨hid, (Option.some.inj hv).symm⟩
            · exact .inl hold
        have hs : s.Leads { s with groups := groups, profiles := r.saveToDatabase groups.rowIds p } :=
          ⟨hprofiles, hget⟩
        exact hs.trans (relist_leads hs.sound _ _)

theorem addProfileBatch_leads (h : s.Sound) (ptrs : List Nat) (gid : Int) : s.Leads (s.addProfileBatch ptrs gid) := by
  rw [addProfileBatch]
  have hget := (GroupsRepo.getGroup_leads h.groups (s.targetGroup gid)).1
  dsimp only
  split
  next groups hg =>
    rw [hg] at hget
    exact ⟨ProfilesRepo.Leads.refl h.profiles, hget⟩
  next group groups hg =>
    rw [hg] at hget
    split
    · exact ⟨ProfilesRepo.Leads.refl h.profiles, hget⟩
    · generalize htoAdd : (s.profiles.objectsOf ptrs fun p => decide (p.id < 0)).map (·.1) = toAdd
      have hneg : ∀ ptr ∈ toAdd, ∃ p : Profile, s.profiles.objects[ptr]? = some p ∧ p.id < 0 := by
        intro ptr hptr
        rw [← htoAdd] at hptr
        obtain ⟨x, hx, rfl⟩ := mem_map.1 hptr
        obtain ⟨-, hobject, hid⟩ := ProfilesRepo.mem_objectsOf.1 hx
        exact ⟨x.2, hobject, of_decide_eq_true hid⟩
      generalize hr1 : ProfilesRepo.number { s.profiles with
        lastId := s.profiles.lastId + toAdd.length } (s.targetGroup gid) toAdd
          (s.profiles.lastId + 1) = r1
      have hrows1 : r1.rows = s.profiles.rows := by
        rw [← hr1]
        exact (ProfilesRepo.number_rest _ _ _).1
      obtain ⟨hstay, hnew⟩ := ProfilesRepo.insertChunks_rows groups.rowIds (((r1.objectsOf toAdd fun _ => true).map (·.2)).toChunks chunkSize) r1.rows
      have hrows : ∀ p ∈ (insertChunks groups.rowIds r1.rows (((r1.objectsOf toAdd fun _ => true).map (·.2)).toChunks chunkSize)).1,
          p ∈ s.profiles.rows ∨ ∃ ptr ∈ toAdd, r1.objects[ptr]? = some p := by
        intro p hp
        rcases hnew p hp with hold | ⟨chunk, hchunk, hp⟩
        · exact .inl (hrows1 ▸ hold)
        · obtain ⟨x, hx, rfl⟩ := mem_map.1 (Lists.mem_of_mem_toChunks hchunk hp)
          obtain ⟨hptr, hobject, -⟩ := ProfilesRepo.mem_objectsOf.1 hx
          exact .inr ⟨x.1, hptr, hobject⟩
      have hkept : ∀ i ∈ s.profiles.rowIds, ∃ p ∈ (insertChunks groups.rowIds r1.rows
          (((r1.objectsOf toAdd fun _ => true).map (·.2)).toChunks chunkSize)).1, p.id = i := by
        intro i hi
        obtain ⟨p, hp, hid⟩ := ProfilesRepo.mem_rowIds.1 hi
        exact ⟨p, hstay p (hrows1.symm ▸ hp), hid⟩
      split
      next rows hinsert =>
        rw [hinsert] at hrows hkept
        refine ⟨?_, hget⟩
        refine ProfilesRepo.numbered_leads h.profiles (s.targetGroup gid) toAdd hr1.symm hneg rfl rfl
          rfl rfl hrows (fun i hi => ProfilesRepo.mem_rowIds.2 (hkept i hi)) ?_
        intro i ptr hi
        have hi : (if _ then none else r1.identityMap i) = some ptr := hi
        split at hi
        · cases hi
        · exact hi
      next rows hinsert =>
        rw [hinsert] at hrows hkept
        have hedit := GroupsRepo.edit_leads hget.sound group fun g =>
          g.addProfileBatch (((r1.objectsOf toAdd fun _ => true).map (·.2)).map (·.id))
        refine ⟨?_, (hget.trans hedit).trans (GroupsRepo.save_leads hedit.sound group)⟩
        exact ProfilesRepo.numbered_leads h.profiles (s.targetGroup gid) toAdd hr1.symm hneg rfl rfl
          rfl rfl hrows (fun i hi => ProfilesRepo.mem_rowIds.2 (hkept i hi)) fun i ptr hi => hi

theorem relist_all_leads (f : Group → Group) (gids : List Int) (h : s.Sound) : s.Leads (gids.foldl (fun s gid => s.relist gid f) s) := by
  induction gids generalizing s with
  | nil => exact Leads.refl h
  | cons gid gids ih =>
    have hfirst := relist_leads h gid f
    exact hfirst.trans (ih hfirst.sound)

theorem relist_all_profiles (f : Group → Group) (gids : List Int) : (gids.foldl (fun s gid => s.relist gid f) s).profiles = s.profiles := by
  induction gids generalizing s with
  | nil => rfl
  | cons gid gids ih => rw [foldl_cons, ih, relist_profiles]

/-- `BatchDeleteProfiles` puts a tombstone on every row it deletes, since `GetProfileBatch` found an
object of that id. No row of the ids is left. -/
theorem batchDeleteProfiles_leads (h : s.Sound) (ids : List Int) (stop : Bool) : s.Leads (s.batchDeleteProfiles ids stop) ∧
    ∀ i ∈ s.doomed ids stop, i ∉ (s.batchDeleteProfiles ids stop).profiles.rowIds := by
  rw [batchDeleteProfiles]
  generalize s.doomed ids stop = doomed
  dsimp only
  split
  next hnone =>
    subst hnone
    exact ⟨Leads.refl h, nofun⟩
  · obtain ⟨hget, hfound⟩ := ProfilesRepo.getProfileBatch_leads doomed h.profiles
    generalize (s.profiles.getProfileBatch doomed).1 = found at hfound ⊢
    generalize hr : (s.profiles.getProfileBatch doomed).2 = r at hget hfound ⊢
    generalize hents : ((r.objectsOf found fun _ => true).map (·.2)) = ents
    have hcovers : ∀ i ∈ doomed, i ∈ r.rowIds → i ∈ ents.map (·.id) := by
      intro i hi hrow
      rw [← hr, ProfilesRepo.rowIds, ProfilesRepo.getProfileBatch_rows] at hrow
      obtain ⟨ptr, hptr, p, hp, hid⟩ := hfound i hi hrow
      refine mem_map.2 ⟨p, ?_, hid⟩
      rw [← hents]
      exact mem_map.2 ⟨(ptr, p), ProfilesRepo.mem_objectsOf.2 ⟨hptr, hp, rfl⟩, rfl⟩
    have hforget := ProfilesRepo.forget_leads hget.sound hcovers
    have hs : s.Leads { s with profiles := r.forget doomed (ents.map (·.id)) } :=
      ⟨hget.trans hforget, GroupsRepo.Leads.refl h.groups⟩
    refine ⟨hs.trans (relist_all_leads _ _ hs.sound), fun i hi => ?_⟩
    rw [relist_all_profiles]
    intro hrow
    exact (ProfilesRepo.mem_forget_rowIds.1 hrow).2 hi

/-- `DeleteGroup` puts a tombstone on the group if it existed, and on all its profiles. -/
theorem deleteGroup_leads (h : s.Sound) (id : Int) : s.Leads (s.deleteGroup id) ∧ id ∉ (s.deleteGroup id).groups.rowIds ∧
    ∀ i ∈ s.owned id, i ∉ (s.deleteGroup id).profiles.rowIds := by
  obtain ⟨hget, hfound, hids⟩ := GroupsRepo.getGroup_leads h.groups id
  have hgroups := GroupsRepo.forget_leads hget.sound fun hid => hfound ((hids id).1 hid)
  have hprofiles : s.profiles.Leads (s.profiles.forget (s.owned id) (s.owned id)) :=
    ProfilesRepo.forget_leads h.profiles fun i hi _ => hi
  refine ⟨⟨hprofiles, hget.trans hgroups⟩, fun hid => ?_, fun i hi hrow => ?_⟩
  · exact (GroupsRepo.mem_forget_rowIds.1 hid).2 rfl
  · exact (ProfilesRepo.mem_forget_rowIds.1 hrow).2 hi

end Repos

/-! ## Runs -/

theorem opened_sound (t : Saved) : (opened t).Sound where
  profiles := {
    counter := t.profileCounter
    issued := {
      stored := by
        intro i hi
        obtain ⟨p, hp, rfl⟩ := ProfilesRepo.mem_rowIds.1 hi
        exact (t.profilesIssued p hp).2
      held := by
        rintro i ⟨-, ⟨p, hp, -⟩ | ⟨j, hj, -⟩⟩
        · cases hp
        · cases hj }
    rows := fun p hp => (t.profilesIssued p hp).1
    jobs := nofun
    identity := fun i ptr hi => nomatch hi }
  groups := {
    counter := t.groupCounter
    issued := {
      stored := by
        intro i hi
        obtain ⟨g, hg, rfl⟩ := GroupsRepo.mem_rowIds.1 hi
        exact (t.groupsIssued g hg).2
      held := by
        rintro i ⟨-, g, hg, -⟩
        cases hg }
    rows := fun g hg => (t.groupsIssued g hg).1
    memMap := fun i ptr hi => nomatch hi }

/-- What the process leaves in the file is what the next one opens. -/
def Repos.Sound.saved {s : Repos} (h : s.Sound) : Saved where
  profiles := s.profiles.rows
  groups := s.groups.rows
  profileLastId := s.profiles.lastId
  groupLastId := s.groups.lastId
  profilesIssued := fun p hp =>
    ⟨h.profiles.rows p hp, h.profiles.issued.stored p.id (ProfilesRepo.mem_rowIds.2 ⟨p, hp, rfl⟩)⟩
  groupsIssued := fun g hg =>
    ⟨h.groups.rows g hg, h.groups.issued.stored g.id (GroupsRepo.mem_rowIds.2 ⟨g, hg, rfl⟩)⟩
  profileCounter := h.profiles.counter
  groupCounter := h.groups.counter

variable {s : Repos}

/-- Every event but a restart is an operation of the two stores. -/
theorem step_leads (h : s.Sound) (e : Event) : s.Leads (step s e) ∨ e = .restart := by
  have hp := h.profiles
  have hg := h.groups
  have hprofiles := ProfilesRepo.Leads.refl hp
  have hgroups := GroupsRepo.Leads.refl hg
  cases e with
  | newProfile p => exact .inl ⟨ProfilesRepo.newProfile_leads hp p, hgroups⟩
  | copyProfile ptr keepsId => exact .inl ⟨ProfilesRepo.copyProfile_leads hp ptr keepsId, hgroups⟩
  | editProfile ptr f => exact .inl ⟨ProfilesRepo.edit_leads hp ptr f, hgroups⟩
  | getProfile id => exact .inl ⟨(ProfilesRepo.getProfile_leads hp id).1, hgroups⟩
  | expire id => exact .inl ⟨ProfilesRepo.expire_leads hp id, hgroups⟩
  | addProfile ptr gid => exact .inl (Repos.addProfile_leads h ptr gid)
  | addProfileBatch ptrs gid => exact .inl (Repos.addProfileBatch_leads h ptrs gid)
  | saveProfile ptr => exact .inl ⟨ProfilesRepo.save_leads hp _ ptr, hgroups⟩
  | saveBatch ptrs => exact .inl ⟨ProfilesRepo.queueJob_leads hp ptrs, hgroups⟩
  | readJob k => exact .inl ⟨ProfilesRepo.readJob_leads hp k, hgroups⟩
  | writeJob k => exact .inl ⟨ProfilesRepo.writeJob_leads hp _ k, hgroups⟩
  | batchDeleteProfiles ids stop => exact .inl (Repos.batchDeleteProfiles_leads h ids stop).1
  | newGroup g => exact .inl ⟨hprofiles, GroupsRepo.newGroup_leads hg g⟩
  | editGroup ptr f => exact .inl ⟨hprofiles, GroupsRepo.edit_leads hg ptr f⟩
  | getGroup id => exact .inl ⟨hprofiles, (GroupsRepo.getGroup_leads hg id).1⟩
  | addGroup ptr => exact .inl ⟨hprofiles, GroupsRepo.addGroup_leads hg ptr⟩
  | saveGroup ptr => exact .inl ⟨hprofiles, GroupsRepo.save_leads hg ptr⟩
  | deleteGroup id => exact .inl (Repos.deleteGroup_leads h id).1
  | setStartedId id | setCurrentGroup id => exact .inl ⟨hprofiles, hgroups⟩
  | restart => exact .inr rfl

theorem restart_profiles (s : Repos) : Forgets s.profiles.view (step s .restart).profiles.view where
  counter := rfl
  stored := rfl
  held := by
    refine Set.eq_empty_of_forall_notMem ?_
    rintro i ⟨-, ⟨p, hp, -⟩ | ⟨j, hj, -⟩⟩
    · cases hp
    · cases hj

theorem restart_groups (s : Repos) : Forgets s.groups.view (step s .restart).groups.view where
  counter := rfl
  stored := rfl
  held := by
    refine Set.eq_empty_of_forall_notMem ?_
    rintro i ⟨-, g, hg, -⟩
    cases hg

theorem step_profiles (s : Repos) (e : Event) (h : s.Sound) : (step s e).Sound ∧
    (Moves s.profiles.view (step s e).profiles.view ∨ Forgets s.profiles.view (step s e).profiles.view) := by
  rcases step_leads h e with hleads | rfl
  · exact ⟨hleads.sound, .inl hleads.profiles.moves⟩
  · refine ⟨?_, .inr (restart_profiles s)⟩
    obtain ⟨hprofiles, hgroups⟩ := opened_sound h.saved
    exact ⟨hprofiles, hgroups⟩

theorem step_groups (s : Repos) (e : Event) (h : s.Sound) : (step s e).Sound ∧
    (Moves s.groups.view (step s e).groups.view ∨ Forgets s.groups.view (step s e).groups.view) := by
  refine ⟨(step_profiles s e h).1, ?_⟩
  rcases step_leads h e with hleads | rfl
  · exact .inl hleads.groups.moves
  · exact .inr (restart_groups s)

theorem run_sound (t : Saved) (es : List Event) : (run step (opened t) es).Sound :=
  inv_run_all (fun s e h => (step_profiles s e h).1) es (opened t) (opened_sound t)

/-- The profiles an event deletes. -/
def deletedIds (s : Repos) : Event → List Int
  | .batchDeleteProfiles ids stop => s.doomed ids stop
  | .deleteGroup id => s.owned id
  | _ => []

/-- The groups an event deletes. -/
def deletedGroupIds : Event → List Int
  | .deleteGroup id => [id]
  | _ => []

/-- Every id a profile has, in the table or in memory. -/
def ProfilesRepo.ids (r : ProfilesRepo) : List Int := r.rowIds ++ r.objects.map (·.id)

/-- Every id a group has, in the table or in memory. -/
def GroupsRepo.ids (r : GroupsRepo) : List Int := r.rowIds ++ r.objects.map (·.id)

/-- A row that is there now and is found missing later is missing for good, whatever is done in
between and afterwards. -/
def NeverReturns (rowIds : Repos → List Int) (s : Repos) : Prop :=
  ∀ i ∈ rowIds s, ∀ fs gs : List Event, i ∉ rowIds (run step s fs) → i ∉ rowIds (run step s (fs ++ gs))

theorem profiles_never_return (h : s.Sound) : NeverReturns (·.profiles.rowIds) s := by
  intro i hi fs gs hnot
  have hsound : (run step s fs).Sound := inv_run_all (fun s e h => (step_profiles s e h).1) fs s h
  have hgone := gone_run (fun s : Repos => s.profiles.view) (fun s h => h.profiles.issued) step_profiles fs s h hi hnot
  have hlater := hgone.run step_profiles gs (run step s fs) hsound
  rw [← run_append] at hlater
  exact hlater.stored

theorem groups_never_return (h : s.Sound) : NeverReturns (·.groups.rowIds) s := by
  intro i hi fs gs hnot
  have hsound : (run step s fs).Sound := inv_run_all (fun s e h => (step_profiles s e h).1) fs s h
  have hgone := gone_run (fun s : Repos => s.groups.view) (fun s h => h.groups.issued) step_groups fs s h hi hnot
  have hlater := hgone.run step_groups gs (run step s fs) hsound
  rw [← run_append] at hlater
  exact hlater.stored

theorem deletedIds_removed (h : s.Sound) (e : Event) : (∀ i ∈ deletedIds s e, i ∉ (step s e).profiles.rowIds) ∧
    ∀ i ∈ deletedGroupIds e, i ∉ (step s e).groups.rowIds := by
  cases e with
  | batchDeleteProfiles ids stop =>
    exact ⟨(Repos.batchDeleteProfiles_leads h ids stop).2, nofun⟩
  | deleteGroup id =>
    obtain ⟨-, hgroup, hprofiles⟩ := Repos.deleteGroup_leads h id
    refine ⟨hprofiles, fun i hi => ?_⟩
    rw [mem_singleton.1 hi]
    exact hgroup
  | _ => exact ⟨nofun, nofun⟩

theorem ProfilesRepo.Sound.ids_le {r : ProfilesRepo} (h : r.Sound) (hi : i ∈ r.ids) : i ≤ r.lastId := by
  rcases mem_append.1 hi with hrow | hobject
  · exact h.issued.stored i hrow
  · obtain ⟨p, hp, rfl⟩ := mem_map.1 hobject
    by_cases hnonneg : 0 ≤ p.id
    · exact h.issued.held p.id ⟨hnonneg, .inl ⟨p, hp, rfl⟩⟩
    · have := h.counter
      omega

theorem GroupsRepo.Sound.ids_le {r : GroupsRepo} (h : r.Sound) (hi : i ∈ r.ids) : i ≤ r.lastId := by
  rcases mem_append.1 hi with hrow | hobject
  · exact h.issued.stored i hrow
  · obtain ⟨g, hg, rfl⟩ := mem_map.1 hobject
    by_cases hnonneg : 0 ≤ g.id
    · exact h.issued.held g.id ⟨hnonneg, g, hg, rfl⟩
    · have := h.counter
      omega

/-- An id that a profile gets is above the counter, so above every id of an earlier state. -/
theorem new_profile_id {t : Saved} {es es' : List Event} {e : Event} {p p' : Profile}
    (hp : (run step (opened t) es).profiles.objects[ptr]? = some p) (hp' : (step (run step (opened t) es) e).profiles.objects[ptr]? = some p')
    (hid : p'.id ≠ p.id) (hpre : es' <+: es) : p'.id ∉ (run step (opened t) es').profiles.ids := by
  have hnew : (run step (opened t) es).profiles.lastId < p'.id := by
    rcases step_leads (run_sound t es) e with hleads | rfl
    · obtain ⟨q, hq, hqid⟩ := hleads.profiles.renumbers ptr p hp
      rw [hp', Option.some.injEq] at hq
      subst hq
      rcases hqid with heq | ⟨-, hlt⟩
      · exact absurd heq hid
      · exact hlt
    · cases hp'
  obtain ⟨more, rfl⟩ := hpre
  have hcounter := counter_run (fun s : Repos => s.profiles.view) step_profiles more (run step (opened t) es') (run_sound t es')
  rw [← run_append] at hcounter
  intro hold
  have hle := (run_sound t es').profiles.ids_le hold
  exact not_lt_of_ge (le_trans hle hcounter) hnew

theorem new_group_id {t : Saved} {es es' : List Event} {e : Event} {g g' : Group} (hg : (run step (opened t) es).groups.objects[ptr]? = some g)
    (hg' : (step (run step (opened t) es) e).groups.objects[ptr]? = some g') (hid : g'.id ≠ g.id) (hpre : es' <+: es) :
    g'.id ∉ (run step (opened t) es').groups.ids := by
  have hnew : (run step (opened t) es).groups.lastId < g'.id := by
    rcases step_leads (run_sound t es) e with hleads | rfl
    · obtain ⟨q, hq, hqid⟩ := hleads.groups.renumbers ptr g hg
      rw [hg', Option.some.injEq] at hq
      subst hq
      rcases hqid with heq | ⟨-, hlt⟩
      · exact absurd heq hid
      · exact hlt
    · cases hg'
  obtain ⟨more, rfl⟩ := hpre
  have hcounter := counter_run (fun s : Repos => s.groups.view) step_groups more (run step (opened t) es') (run_sound t es')
  rw [← run_append] at hcounter
  intro hold
  have hle := (run_sound t es').groups.ids_le hold
  exact not_lt_of_ge (le_trans hle hcounter) hnew

/-- The objects after a batch was added: as they were, or numbered. -/
theorem addProfileBatch_objects (s : Repos) (ptrs : List Nat) (gid : Int) : (s.addProfileBatch ptrs gid).profiles.objects = s.profiles.objects ∨
    ∃ (r : ProfilesRepo) (toAdd : List Nat) (gid' : Int), r.objects = s.profiles.objects ∧
    (s.addProfileBatch ptrs gid).profiles.objects = (r.number gid' toAdd (s.profiles.lastId + 1)).objects := by
  rw [Repos.addProfileBatch]
  dsimp only
  split
  · exact .inl rfl
  · split
    · exact .inl rfl
    · generalize (s.profiles.objectsOf ptrs fun p => decide (p.id < 0)).map (·.1) = toAdd
      split
      all_goals exact .inr ⟨{ s.profiles with lastId := s.profiles.lastId + toAdd.length }, toAdd, _, rfl, rfl⟩

/-- Within one batch two pointers get two ids. -/
theorem addProfileBatch_unique (h : s.Sound) (ptrs : List Nat) (gid : Int) {ptr' : Nat} {p p' : Profile}
    (hp : (s.addProfileBatch ptrs gid).profiles.objects[ptr]? = some p) (hp' : (s.addProfileBatch ptrs gid).profiles.objects[ptr']? = some p')
    (hnew : s.profiles.lastId < p.id) (heq : p.id = p'.id) : ptr = ptr' := by
  have hold : ∀ q ∈ s.profiles.objects, q.id < s.profiles.lastId + 1 := by
    intro q hq
    have := h.profiles.ids_le (mem_append_right _ (mem_map.2 ⟨q, hq, rfl⟩))
    omega
  rcases addProfileBatch_objects s ptrs gid with hsame | ⟨r, toAdd, gid', hr, hobjects⟩
  · rw [hsame] at hp
    have := hold p (mem_of_getElem? hp)
    omega
  · rw [hobjects] at hp hp'
    rw [← hr] at hold
    exact ProfilesRepo.number_unique gid' toAdd _ hold hp hp' (by omega) heq

/-- Deleted profiles and groups do not come back. In every run, from whatever the file held: the
deletes remove the rows of the ids they delete; a row that is gone stays gone, whichever old objects
are saved later; the id an object gets is one that no profile (group) had in any earlier state; and
the ids of one batch differ. -/
theorem deleted_never_return (t : Saved) (es : List Event) : (∀ e, (∀ i ∈ deletedIds (run step (opened t) es) e,
    i ∉ (step (run step (opened t) es) e).profiles.rowIds) ∧ ∀ i ∈ deletedGroupIds e, i ∉ (step (run step (opened t) es) e).groups.rowIds) ∧
    NeverReturns (·.profiles.rowIds) (run step (opened t) es) ∧
    NeverReturns (·.groups.rowIds) (run step (opened t) es) ∧ (∀ (e : Event) (ptr : Nat) (p p' : Profile),
    (run step (opened t) es).profiles.objects[ptr]? = some p →
    (step (run step (opened t) es) e).profiles.objects[ptr]? = some p' → p'.id ≠ p.id →
    ∀ es', es' <+: es → p'.id ∉ (run step (opened t) es').profiles.ids) ∧ (∀ (e : Event) (ptr : Nat) (g g' : Group),
    (run step (opened t) es).groups.objects[ptr]? = some g → (step (run step (opened t) es) e).groups.objects[ptr]? = some g' → g'.id ≠ g.id →
    ∀ es', es' <+: es → g'.id ∉ (run step (opened t) es').groups.ids) ∧ (∀ (ptrs : List Nat) (gid : Int) (ptr ptr' : Nat) (p p' : Profile),
    (step (run step (opened t) es) (.addProfileBatch ptrs gid)).profiles.objects[ptr]? = some p →
    (step (run step (opened t) es) (.addProfileBatch ptrs gid)).profiles.objects[ptr']? = some p' →
    (run step (opened t) es).profiles.lastId < p.id → p.id = p'.id → ptr = ptr') := by
  have h := run_sound t es
  refine ⟨deletedIds_removed h, profiles_never_return h, groups_never_return h, ?_, ?_, ?_⟩
  · intro e ptr p p' hp hp' hid es' hpre
    exact new_profile_id hp hp' hid hpre
  · intro e ptr g g' hg hg' hid es' hpre
    exact new_group_id hg hg' hid hpre
  · intro ptrs gid ptr ptr' p p' hp hp' hnew heq
    exact addProfileBatch_unique h ptrs gid hp hp' hnew heq

/-- A file with one group. -/
def oneGroup : Saved where
  profiles := []
  groups := [⟨0, false, "", false, []⟩]
  profileLastId := 0
  groupLastId := 0
  profilesIssued := by decide
  groupsIssued := by decide
  profileCounter := by decide
  groupCounter := by decide

/-- A profile is added and a `SaveBatch` has read it when it is deleted. The job writes no row of
its id, and neither does a `Save` of the old pointer; the next profile gets the next id. -/
theorem deleted_never_return_late_save : (1 ∈ (run step (opened oneGroup)
    [.newProfile ⟨-1, 0, "vless", 0, ""⟩, .addProfile 0 0, .saveBatch [0], .readJob 0]).profiles.rowIds ∧
    1 ∉ (run step (run step (opened oneGroup) [.newProfile ⟨-1, 0, "vless", 0, ""⟩, .addProfile 0 0, .saveBatch [0], .readJob 0])
    [.batchDeleteProfiles [1] false]).profiles.rowIds) ∧ (∀ gs, 1 ∉ (run step (run step (opened oneGroup)
    [.newProfile ⟨-1, 0, "vless", 0, ""⟩, .addProfile 0 0, .saveBatch [0], .readJob 0])
    ([.batchDeleteProfiles [1] false] ++ gs)).profiles.rowIds) ∧ (run step (opened oneGroup)
    [.newProfile ⟨-1, 0, "vless", 0, ""⟩, .addProfile 0 0, .saveBatch [0], .readJob 0,
    .batchDeleteProfiles [1] false, .writeJob 0, .saveProfile 0,
    .newProfile ⟨-1, 0, "vless", 0, ""⟩, .addProfile 1 0]).profiles.rowIds = [2] := by
  refine ⟨by decide, ?_, by decide⟩
  intro gs
  exact (deleted_never_return oneGroup _).2.1 1 (by decide) _ gs (by decide)

end Throne.Database.Shared
