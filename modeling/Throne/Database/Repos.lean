import Mathlib.Data.List.Dedup

/-!
# Profiles and groups: the tables and what the process keeps beside them

`src/src/database/ProfilesRepo.cpp`, `GroupsRepo.cpp`, `Database.cpp` and `entities/Group.cpp`.
Two things hold a profile. The tables hold its row, its group's stored listing and the stored
settings; the process holds the group objects (`memMap`), the live profile objects
(`identityMap`), the tombstones of deleted ids and the settings fields. `Database::transaction`
restores the first kind and knows nothing of the second.

`SELECT`s are taken to answer from the tables. The statements that can fail here are the ones the
callers look at: `BEGIN`, the delete, the insert and `COMMIT` (`Faults`).
-/

namespace Throne.Database

open List

/-! ## Entities -/

/-- `Configs::NoProfileId`. -/
def NoProfileId : Int := -1919

/-- `Configs::kLatencyConnectOnly`. -/
def kLatencyConnectOnly : Int := -2

/-- A profile, with what the refresh of a subscription reads of it. `content` is the digest
`contentKeyOf` makes of its outbound. -/
structure Profile where
  id : Int
  gid : Int
  type : String
  latency : Int
  content : String
  deriving DecidableEq

/-- `Profile::IsWorking`. -/
def Profile.isWorking (p : Profile) : Bool := decide (0 < p.latency) || p.latency == kLatencyConnectOnly

/-- A group: its trimmed subscription URL, the `keep_working` option and the listing. -/
structure Group where
  id : Int
  archive : Bool
  url : String
  keepWorking : Bool
  profiles : List Int

/-- `Group::RemoveProfileBatch`. -/
def Group.removeProfileBatch (g : Group) (ids : List Int) : Group :=
  { g with profiles := g.profiles.filter fun id => !ids.contains id }

/-- `Group::AddProfileBatch`. The set of listed ids is taken before the loop. -/
def Group.addProfileBatch (g : Group) (ids : List Int) : Group :=
  { g with profiles := g.profiles ++ ids.filter fun id => !g.profiles.contains id }

/-! ## The store -/

/-- What `ROLLBACK` restores. Profile ids come from the counter `entity_ids.profile_last_id`, so
no row is above it. -/
structure Tables where
  profiles : List Profile
  groups : List Group
  profileLastId : Int
  retiredProfileId : Int
  issued : ∀ p ∈ profiles, p.id ≤ profileLastId

/-- The tables, and the memory of the process. `identityMap` holds the profile objects that are
still referenced somewhere, `memMap` the group objects. -/
structure Store where
  tables : Tables
  identityMap : List Profile
  tombstones : List Int
  memMap : List Group
  groupTombstones : List Int
  startedId : Int
  retiredProfileId : Int
  currentGroup : Int
  subClear : Bool

/-- The group of that id in a table or in `memMap`. -/
def groupIn (groups : List Group) (id : Int) : Option Group := groups.find? fun g => g.id == id

/-- The profile of that id among rows or live objects. -/
def profileIn (profiles : List Profile) (id : Int) : Option Profile :=
  profiles.find? fun p => p.id == id

/-- Writes a group under its id. -/
def putGroup (g : Group) (groups : List Group) : List Group :=
  g :: groups.filter fun other => other.id != g.id

section

variable (s : Store)

/-- `GroupsRepo::GetGroup`. A group that is only loaded equals its row, so it enters `memMap` here
when it is changed. -/
def Store.getGroup (id : Int) : Option Group := (groupIn s.memMap id).or (groupIn s.tables.groups id)

/-- `ProfilesRepo::GetProfile`. -/
def Store.getProfile (id : Int) : Option Profile := (profileIn s.identityMap id).or (profileIn s.tables.profiles id)

/-- `ProfilesRepo::GetProfileBatch`. -/
def Store.getProfileBatch (ids : List Int) : List Profile := ids.filterMap s.getProfile

/-- `ProfilesRepo::GetProfileIdsByType`: the rows are asked, not the live objects. -/
def Store.getProfileIdsByType (type : String) : List Int :=
  (s.tables.profiles.filter fun p => p.type == type).map (·.id)

/-- The in-memory listing of a group, empty for a group that does not exist. -/
def Store.listing (gid : Int) : List Int :=
  match s.getGroup gid with
  | some g => g.profiles
  | none => []

/-- Whether the profiles table has a row of that id. -/
def Store.stored (id : Int) : Bool := s.tables.profiles.any fun p => p.id == id

/-- The answer of `ProfilesRepo::Save` for a profile of that id: written, unless the id is negative
or tombstoned. -/
def Store.saves (id : Int) : Bool := decide (0 ≤ id) && !s.tombstones.contains id

/-- The group object takes a new value: `memMap` and every holder see it at once. -/
def Store.touchGroup (g : Group) : Store := { s with memMap := putGroup g s.memMap }

/-- `GroupsRepo::Save`. Its answer is not looked at by the callers modelled here. -/
def Store.saveGroup (g : Group) : Store :=
  if g.id < 0 then s
  else if s.groupTombstones.contains g.id then s
  else
    { s with
      tables := { s.tables with groups := putGroup g s.tables.groups }
      memMap := putGroup g s.memMap }

/-- `group->RemoveProfileBatch(ids)` and `Save(group)`, on the group `GetGroup` finds. -/
def Store.unlist (ids : List Int) (gid : Int) : Store :=
  match s.getGroup gid with
  | none => s
  | some g =>
    let g := g.removeProfileBatch ids
    (s.touchGroup g).saveGroup g

/-! ## Transactions -/

/-- How the `DELETE` statements end: all ran, or one threw when this many ids were gone. -/
inductive DeleteResult where
  | done
  | threw (gone : Nat)

/-- How the insert ends: all rows lie, a chunk was refused and this many rows lie, or the id
counter threw before the first row. -/
inductive InsertResult where
  | stored
  | refused (rows : Nat)
  | threw

/-- What the database answers during one refresh. -/
structure Faults where
  begins : Bool
  deletes : DeleteResult
  inserts : InsertResult
  commits : Bool

/-- How a transaction body ends. -/
inductive Ending where
  | returned (ok : Bool)
  | threw

/-- `Database::transaction` at nesting depth `depth`. Inside another transaction the body runs
bare: no `BEGIN`, no `catch`. -/
def transaction (env : Faults) (depth : Nat) (body : Store → Store × Ending) (s : Store) : Store × Ending :=
  match depth with
  | _ + 1 => body s
  | 0 =>
    if env.begins then
      match body s with
      | (s1, .returned true) =>
        if env.commits then (s1, .returned true)
        else ({ s1 with tables := s.tables }, .returned false)
      -- `ROLLBACK`: the tables of before, the memory of now
      | (s1, _) => ({ s1 with tables := s.tables }, .returned false)
    else (s, .returned false)

/-! ## Deleting and adding profiles -/

/-- `DELETE FROM profiles WHERE id IN (...)`. -/
def Tables.deleteProfiles (t : Tables) (ids : List Int) : Tables :=
  { t with
    profiles := t.profiles.filter fun p => !ids.contains p.id
    issued := fun p hp => t.issued p (mem_of_mem_filter hp) }

/-- The delete statements of `BatchDeleteProfiles`, as a transaction body. -/
def deleteRows (env : Faults) (ids : List Int) (s : Store) : Store × Ending :=
  match env.deletes with
  | .done => ({ s with tables := s.tables.deleteProfiles ids }, .returned true)
  | .threw gone => ({ s with tables := s.tables.deleteProfiles (ids.take gone) }, .threw)

/-- `ProfilesRepo::DeleteAndForget` around the delete transaction: rows gone, the ids that existed
leave the identity map and are tombstoned. -/
def deleteAndForget (env : Faults) (depth : Nat) (ids existing : List Int) (s : Store) : Store × Ending :=
  match transaction env depth (deleteRows env ids) s with
  | (s1, .returned true) =>
    ({ s1 with
        identityMap := s1.identityMap.filter fun p => !existing.contains p.id
        tombstones := s1.tombstones ++ existing }, .returned true)
  | (s1, ending) => (s1, ending)

/-- `ProfilesRepo::BatchDeleteProfiles` with `stopRunningProfile` false: the running profile is
dropped from the ids, which are handed back. -/
def batchDeleteProfiles (env : Faults) (depth : Nat) (ids : List Int) (s : Store) : Store × List Int × Ending :=
  let ids := ids.filter fun id => id != s.startedId
  match ids with
  | [] => (s, [], .returned true)
  | _ :: _ =>
    let profiles := s.getProfileBatch ids
    match deleteAndForget env depth ids (profiles.map (·.id)) s with
    | (s1, .returned true) =>
      -- the listings change once the rows are gone
      ((profiles.map (·.gid)).dedup.foldl (fun s gid => s.unlist ids gid) s1, ids,
        .returned true)
    | (s1, ending) => (s1, ids, ending)

/-- `ProfilesRepo::RetireProfile`. -/
def Store.retireProfile (id : Int) : Store :=
  match s.getProfile id with
  | none => s
  | some ent =>
    let s := s.unlist [id] ent.gid
    { s with retiredProfileId := id, tables := { s.tables with retiredProfileId := id } }

end

/-- The profiles with the ids `first`, `first + 1`, … and the group they go to. -/
def numbered (first gid : Int) : List Profile → List Profile
  | [] => []
  | p :: ps => { p with id := first, gid := gid } :: numbered (first + 1) gid ps

theorem numbered_ids (first gid : Int) (ps : List Profile) : ∀ p ∈ numbered first gid ps, first ≤ p.id ∧ p.id < first + ps.length := by
  induction ps generalizing first with
  | nil =>
    intro p hp
    cases hp
  | cons q ps ih =>
    intro p hp
    rcases mem_cons.1 hp with rfl | hp
    · simp only [length_cons]
      omega
    · obtain ⟨h1, h2⟩ := ih (first + 1) p hp
      simp only [length_cons]
      omega

/-- `NewProfileIDRange` and the insert of the numbered rows: the counter moves by `n`, the first
`rows` of them lie in the table. -/
def Tables.insertProfiles (t : Tables) (gid : Int) (toAdd : List Profile) (rows : Nat) : Tables :=
  { t with
    profiles := t.profiles ++ (numbered (t.profileLastId + 1) gid toAdd).take rows
    profileLastId := t.profileLastId + toAdd.length
    issued := by
      intro p hp
      rcases mem_append.1 hp with hp | hp
      · have h := t.issued p hp
        omega
      · have h := numbered_ids (t.profileLastId + 1) gid toAdd p (mem_of_mem_take hp)
        omega }

/-- `ProfilesRepo::AddProfileBatch`. The new objects live no longer than the caller's chunk, so
they leave no entry in the identity map. -/
def addProfileBatch (env : Faults) (profiles : List Profile) (gid : Int) (s : Store) : Store × Ending :=
  let gid := if gid < 0 then s.currentGroup else gid
  match s.getGroup gid with
  | none => (s, .returned false)
  | some g =>
    let toAdd := profiles.filter fun p => decide (p.id < 0)
    if toAdd.isEmpty then (s, .returned true)
    else
      match env.inserts with
      | .threw => (s, .threw)
      | .refused rows =>
        ({ s with tables := s.tables.insertProfiles gid toAdd rows }, .returned false)
      | .stored =>
        let ids := (numbered (s.tables.profileLastId + 1) gid toAdd).map (·.id)
        let g := g.addProfileBatch ids
        let s := { s with tables := s.tables.insertProfiles gid toAdd toAdd.length }
        ((s.touchGroup g).saveGroup g, .returned true)

/-! ## What group writes change -/

@[simp] theorem groupIn_putGroup (g : Group) (groups : List Group) (gid : Int) :
    groupIn (putGroup g groups) gid = if gid = g.id then some g else groupIn groups gid := by
  rw [groupIn, putGroup, find?_cons]
  by_cases h : gid = g.id
  · simp [h]
  · -- the group that is taken out is not the one looked for
    have hother : (g.id == gid) = false := by simpa using Ne.symm h
    simp only [hother, if_neg h, groupIn, find?_filter]
    congr 1
    funext other
    by_cases ho : other.id = gid
    · simp [ho, h]
    · simp [ho]

variable {s : Store} {gid id : Int}

/-- The id of the group that is found. -/
theorem getGroup_id {g : Group} (h : s.getGroup gid = some g) : g.id = gid := by
  rcases Option.or_eq_some_iff.1 h with h | ⟨-, h⟩ <;> simpa using find?_some h

/-- `s1` differs from `s` in its group objects and group rows only. -/
structure GroupsOnly (s s1 : Store) : Prop where
  profiles : s1.tables.profiles = s.tables.profiles
  profileLastId : s1.tables.profileLastId = s.tables.profileLastId
  identityMap : s1.identityMap = s.identityMap
  tombstones : s1.tombstones = s.tombstones
  startedId : s1.startedId = s.startedId
  retiredProfileId : s1.retiredProfileId = s.retiredProfileId
  currentGroup : s1.currentGroup = s.currentGroup
  subClear : s1.subClear = s.subClear

theorem GroupsOnly.rfl : GroupsOnly s s := by
  constructor <;> rfl

variable {s1 : Store}

theorem GroupsOnly.trans {s2 : Store} (h : GroupsOnly s s1) (h' : GroupsOnly s1 s2) : GroupsOnly s s2 where
  profiles := h'.profiles.trans h.profiles
  profileLastId := h'.profileLastId.trans h.profileLastId
  identityMap := h'.identityMap.trans h.identityMap
  tombstones := h'.tombstones.trans h.tombstones
  startedId := h'.startedId.trans h.startedId
  retiredProfileId := h'.retiredProfileId.trans h.retiredProfileId
  currentGroup := h'.currentGroup.trans h.currentGroup
  subClear := h'.subClear.trans h.subClear

theorem GroupsOnly.getProfile (h : GroupsOnly s s1) (id : Int) : s1.getProfile id = s.getProfile id := by
  rw [Store.getProfile, Store.getProfile, h.identityMap, h.profiles]

theorem saveGroup_groupsOnly (s : Store) (g : Group) : GroupsOnly s (s.saveGroup g) := by
  rw [Store.saveGroup]
  split
  · exact GroupsOnly.rfl
  · split
    · exact GroupsOnly.rfl
    · constructor <;> rfl

/-- Saving a group as `GetGroup` finds it changes no lookup. -/
theorem getGroup_saveGroup {g : Group} (h : s.getGroup g.id = some g) (gid : Int) : (s.saveGroup g).getGroup gid = s.getGroup gid := by
  rw [Store.saveGroup]
  split_ifs
  · rfl
  · rfl
  · simp only [Store.getGroup, groupIn_putGroup]
    split
    · next hgid =>
      rw [hgid]
      exact h.symm
    · rfl

/-- Every group that is not held in memory still has the row it has in `t`. Group rows are written
from the group objects, so this lasts through a transaction that began with the tables `t`. -/
def Backed (t : Tables) (s : Store) : Prop := ∀ gid, groupIn s.memMap gid = none → groupIn s.tables.groups gid = groupIn t.groups gid

/-- A rollback to `t` does not change what `GetGroup` finds: it finds the objects. -/
theorem Backed.getGroup_rollback {t : Tables} (h : Backed t s) (gid : Int) : Store.getGroup { s with tables := t } gid = s.getGroup gid := by
  rw [Store.getGroup, Store.getGroup]
  show (groupIn s.memMap gid).or (groupIn t.groups gid) = _
  rcases hm : groupIn s.memMap gid with _ | g
  · rw [h gid hm]
  · rfl

theorem memMap_touch_save (s : Store) (g : Group) (gid : Int) : groupIn ((s.touchGroup g).saveGroup g).memMap gid =
    if gid = g.id then some g else groupIn s.memMap gid := by
  rw [Store.saveGroup]
  split_ifs <;> simp_all [Store.touchGroup]

theorem rows_touch_save (s : Store) (g : Group) (h : gid ≠ g.id) :
    groupIn ((s.touchGroup g).saveGroup g).tables.groups gid = groupIn s.tables.groups gid := by
  rw [Store.saveGroup]
  split_ifs <;> simp [Store.touchGroup, h]

/-- Changing a group object and saving it: `GetGroup` finds the new value for its id and what it
found before for every other. -/
theorem touch_save_spec (s : Store) (g : Group) : GroupsOnly s ((s.touchGroup g).saveGroup g) ∧
    (∀ gid, ((s.touchGroup g).saveGroup g).getGroup gid = if gid = g.id then some g else s.getGroup gid) ∧
    (∀ t, Backed t s → Backed t ((s.touchGroup g).saveGroup g)) := by
  have htouch : GroupsOnly s (s.touchGroup g) := by constructor <;> rfl
  refine ⟨htouch.trans (saveGroup_groupsOnly _ g), ?_, ?_⟩
  · intro gid
    by_cases hg : gid = g.id
    · rw [Store.getGroup, memMap_touch_save, if_pos hg, if_pos hg]
      rfl
    · rw [Store.getGroup, memMap_touch_save, if_neg hg, if_neg hg, rows_touch_save s g hg]
      rfl
  · intro t h gid hnone
    rw [memMap_touch_save] at hnone
    by_cases hg : gid = g.id
    · -- the saved group is held in memory
      simp [hg] at hnone
    · rw [rows_touch_save s g hg]
      exact h gid (by simpa [hg] using hnone)

/-- `RemoveProfileBatch` and `Save` on one group. -/
theorem unlist_spec (s : Store) (ids : List Int) (gid : Int) : GroupsOnly s (s.unlist ids gid) ∧ (∀ x, (s.unlist ids gid).getGroup x =
    if x = gid then (s.getGroup x).map (·.removeProfileBatch ids) else s.getGroup x) ∧ (∀ t, Backed t s → Backed t (s.unlist ids gid)) := by
  rcases hg : s.getGroup gid with _ | g
  · have hunlist : s.unlist ids gid = s := by simp only [Store.unlist, hg]
    rw [hunlist]
    refine ⟨GroupsOnly.rfl, ?_, fun _ h => h⟩
    intro x
    split
    · next hx => rw [hx, hg]; rfl
    · rfl
  · have hunlist : s.unlist ids gid = (s.touchGroup (g.removeProfileBatch ids)).saveGroup (g.removeProfileBatch ids) := by
      simp only [Store.unlist, hg]
    have hid : (g.removeProfileBatch ids).id = gid := (getGroup_id hg : g.id = gid)
    obtain ⟨honly, hget, hback⟩ := touch_save_spec s (g.removeProfileBatch ids)
    rw [hunlist]
    refine ⟨honly, ?_, hback⟩
    intro x
    rw [hget x, hid]
    split
    · next hx => rw [hx, hg]; rfl
    · rfl

theorem listing_congr (h : s1.getGroup gid = s.getGroup gid) : s1.listing gid = s.listing gid := by
  rw [Store.listing, Store.listing, h]

variable {ids : List Int}

theorem listing_remove (h : s1.getGroup gid = (s.getGroup gid).map (·.removeProfileBatch ids)) :
    s1.listing gid = (s.listing gid).filter fun id => !ids.contains id := by
  rw [Store.listing, Store.listing, h]
  rcases s.getGroup gid with _ | g <;> rfl

theorem removeProfileBatch_idem (g : Group) (ids : List Int) : (g.removeProfileBatch ids).removeProfileBatch ids = g.removeProfileBatch ids := by
  simp [Group.removeProfileBatch, filter_filter]

/-- The loop of `BatchDeleteProfiles` over the groups of the deleted profiles. -/
theorem unlist_all_spec (ids gids : List Int) (s : Store) : GroupsOnly s (gids.foldl (fun s gid => s.unlist ids gid) s) ∧
    (∀ x, (gids.foldl (fun s gid => s.unlist ids gid) s).getGroup x =
    if x ∈ gids then (s.getGroup x).map (·.removeProfileBatch ids) else s.getGroup x) ∧
    (∀ t, Backed t s → Backed t (gids.foldl (fun s gid => s.unlist ids gid) s)) := by
  induction gids generalizing s with
  | nil => exact ⟨GroupsOnly.rfl, fun x => by simp, fun _ h => h⟩
  | cons gid gids ih =>
    obtain ⟨honly, hget, hback⟩ := unlist_spec s ids gid
    obtain ⟨honly', hget', hback'⟩ := ih (s.unlist ids gid)
    rw [foldl_cons]
    refine ⟨honly.trans honly', ?_, fun t h => hback' t (hback t h)⟩
    intro x
    rw [hget' x, hget x]
    by_cases hx : x = gid
    · -- a group met twice is filtered twice by the same ids
      rcases hg : s.getGroup x with _ | g
      · simp [hx]
      · simp [hx, removeProfileBatch_idem]
    · simp [hx]

/-! ## What deleting, retiring and adding change -/

theorem getProfile_id {p : Profile} (h : s.getProfile id = some p) : p.id = id := by
  rcases Option.or_eq_some_iff.1 h with h | ⟨-, h⟩ <;> simpa using find?_some h

/-- A stored profile is found. -/
theorem getProfile_stored (h : s.stored id = true) : ∃ p, s.getProfile id = some p := by
  apply Option.isSome_iff_exists.1
  rw [Store.getProfile, Option.isSome_or, Bool.or_eq_true]
  right
  simpa [profileIn, Store.stored, find?_isSome] using h

theorem stored_iff : s.stored id = true ↔ ∃ p ∈ s.tables.profiles, p.id = id := by
  simp [Store.stored]

theorem mem_batch_ids : id ∈ (s.getProfileBatch ids).map (·.id) ↔ id ∈ ids ∧ ∃ p, s.getProfile id = some p := by
  simp only [Store.getProfileBatch, mem_map, mem_filterMap]
  constructor
  · rintro ⟨p, ⟨a, ha, hp⟩, rfl⟩
    rw [getProfile_id hp]
    exact ⟨ha, p, hp⟩
  · rintro ⟨hid, p, hp⟩
    exact ⟨p, ⟨id, hid, hp⟩, getProfile_id hp⟩

theorem mem_batch_gids : gid ∈ (s.getProfileBatch ids).map (·.gid) ↔ ∃ id ∈ ids, ∃ p, s.getProfile id = some p ∧ p.gid = gid := by
  simp only [Store.getProfileBatch, mem_map, mem_filterMap]
  constructor
  · rintro ⟨p, ⟨a, ha, hp⟩, rfl⟩
    exact ⟨a, ha, p, hp, rfl⟩
  · rintro ⟨a, ha, p, hp, rfl⟩
    exact ⟨p, ⟨a, ha, hp⟩, rfl⟩

/-- Deleting other profiles does not change which one is found. -/
theorem profileIn_filter (gone : List Int) (profiles : List Profile) (h : id ∉ gone) :
    profileIn (profiles.filter fun p => !gone.contains p.id) id = profileIn profiles id := by
  rw [profileIn, profileIn, find?_filter]
  congr 1
  funext p
  by_cases hp : p.id = id
  · simp [hp, h]
  · simp [hp]

variable {env : Faults}

/-- `DeleteAndForget` inside another transaction, when the `DELETE` goes through. -/
theorem deleteAndForget_done (hdeletes : env.deletes = .done) (depth : Nat) (ids existing : List Int) (s : Store) :
    deleteAndForget env (depth + 1) ids existing s = ({ s with
          tables := s.tables.deleteProfiles ids
          identityMap := s.identityMap.filter fun p => !existing.contains p.id
          tombstones := s.tombstones ++ existing }, .returned true) := by
  simp only [deleteAndForget, transaction, deleteRows, hdeletes]

/-- `BatchDeleteProfiles` inside another transaction, when the `DELETE` goes through: the found
profiles are tombstoned, and all the ids leave the listings of the groups of the found ones. -/
theorem batchDelete_spec (hdeletes : env.deletes = .done) (depth : Nat)
    (doomed ids : List Int) (s : Store) (hids : doomed.filter (fun id => id != s.startedId) = ids) :
    ∃ s1, batchDeleteProfiles env (depth + 1) doomed s = (s1, ids, .returned true) ∧
    s1.tombstones = s.tombstones ++ (s.getProfileBatch ids).map (·.id) ∧ s1.retiredProfileId = s.retiredProfileId ∧
    s1.tables.profileLastId = s.tables.profileLastId ∧ (∀ gid, s1.getGroup gid = if gid ∈ (s.getProfileBatch ids).map (·.gid)
    then (s.getGroup gid).map (·.removeProfileBatch ids) else s.getGroup gid) ∧ (∀ t, Backed t s → Backed t s1) ∧
    (∀ id, id ∉ ids → s1.getProfile id = s.getProfile id) := by
  simp only [batchDeleteProfiles, hids]
  cases ids with
  | nil =>
    refine ⟨s, rfl, ?_, rfl, rfl, ?_, fun _ h => h, fun _ _ => rfl⟩
    · simp [Store.getProfileBatch]
    · intro gid
      simp [Store.getProfileBatch]
  | cons first rest =>
    simp only [deleteAndForget_done hdeletes]
    generalize first :: rest = ids
    -- the store right after the delete, before the listings change
    generalize hmid : Store.mk _ _ _ _ _ _ _ _ _ = mid
    obtain ⟨honly, hget, hback⟩ :=
      unlist_all_spec ids ((s.getProfileBatch ids).map (·.gid)).dedup mid
    have hgroup : ∀ gid, mid.getGroup gid = s.getGroup gid := by
      intro gid
      subst hmid
      rfl
    refine ⟨_, rfl, ?_, ?_, ?_, ?_, ?_, ?_⟩
    · rw [honly.tombstones]
      subst hmid
      rfl
    · rw [honly.retiredProfileId]
      subst hmid
      rfl
    · rw [honly.profileLastId]
      subst hmid
      rfl
    · intro gid
      rw [hget gid, hgroup gid]
      simp only [mem_dedup]
    · intro t h
      apply hback t
      subst hmid
      exact h
    · intro id hid
      rw [honly.getProfile id]
      subst hmid
      have hexisting : id ∉ (s.getProfileBatch ids).map (·.id) := fun h => hid (mem_batch_ids.1 h).1
      show (profileIn _ id).or (profileIn _ id) = _
      rw [profileIn_filter _ _ hexisting, Tables.deleteProfiles, profileIn_filter _ _ hid]
      rfl

/-- `RetireProfile` of a profile that is found: it leaves the listing of its group. -/
theorem retireProfile_spec (s : Store) {ent : Profile} (hent : s.getProfile id = some ent) :
    (s.retireProfile id).tombstones = s.tombstones ∧ (s.retireProfile id).retiredProfileId = id ∧
    (s.retireProfile id).tables.profileLastId = s.tables.profileLastId ∧ (∀ gid, (s.retireProfile id).getGroup gid =
    if gid = ent.gid then (s.getGroup gid).map (·.removeProfileBatch [id]) else s.getGroup gid) ∧
    (∀ t, Backed t s → Backed t (s.retireProfile id)) := by
  obtain ⟨honly, hget, hback⟩ := unlist_spec s [id] ent.gid
  rw [Store.retireProfile, hent]
  refine ⟨honly.tombstones, rfl, honly.profileLastId, ?_, ?_⟩
  · intro gid
    rw [← hget gid]
    rfl
  · intro t h
    exact hback t h

/-- `AddProfileBatch` never takes anything away in memory: the listing of one group may grow by ids
above the counter, in a refused insert nothing grows. -/
theorem addProfileBatch_spec (env : Faults) (profiles : List Profile) (gid : Int) (s s1 : Store)
    (ending : Ending) (h : addProfileBatch env profiles gid s = (s1, ending)) :
    s1.tombstones = s.tombstones ∧ s1.retiredProfileId = s.retiredProfileId ∧
    (∀ x, ∃ fresh, s1.listing x = s.listing x ++ fresh ∧ ∀ id ∈ fresh, s.tables.profileLastId < id) ∧ (∀ t, Backed t s → Backed t s1) := by
  have hsame : ∀ x, ∃ fresh, s.listing x = s.listing x ++ fresh ∧ ∀ id ∈ fresh, s.tables.profileLastId < id :=
    fun x => ⟨[], (append_nil _).symm, nofun⟩
  simp only [addProfileBatch] at h
  generalize (if gid < 0 then s.currentGroup else gid) = gid at h
  rcases hg : s.getGroup gid with _ | g
  · simp only [hg, Prod.mk.injEq] at h
    obtain ⟨rfl, -⟩ := h
    exact ⟨rfl, rfl, hsame, fun _ h => h⟩
  · simp only [hg] at h
    generalize hadd : profiles.filter (fun p => decide (p.id < 0)) = toAdd at h
    split at h
    · cases h
      exact ⟨rfl, rfl, hsame, fun _ h => h⟩
    · rcases hi : env.inserts with _ | rows | _
      · -- stored: the group object lists the new ids from here on
        simp only [hi] at h
        cases h
        generalize hids : (numbered (s.tables.profileLastId + 1) gid toAdd).map (·.id) = ids
        generalize hmid : ({ s with tables := s.tables.insertProfiles gid toAdd toAdd.length } : Store) = mid
        obtain ⟨honly, hget, hback⟩ := touch_save_spec mid (g.addProfileBatch ids)
        have hmidGroup : ∀ x, mid.getGroup x = s.getGroup x := by
          intro x
          subst hmid
          rfl
        have hid : (g.addProfileBatch ids).id = gid := (getGroup_id hg : g.id = gid)
        refine ⟨?_, ?_, ?_, ?_⟩
        · rw [honly.tombstones]
          subst hmid
          rfl
        · rw [honly.retiredProfileId]
          subst hmid
          rfl
        · intro x
          simp only [Store.listing, hget x, hid, hmidGroup x]
          by_cases hx : x = gid
          · refine ⟨ids.filter fun id => !g.profiles.contains id, ?_, ?_⟩
            · simp [hx, hg, Group.addProfileBatch]
            · intro id hmem
              have hmem := mem_of_mem_filter hmem
              rw [← hids] at hmem
              obtain ⟨p, hp, rfl⟩ := mem_map.1 hmem
              have hrange := numbered_ids _ gid toAdd p hp
              omega
          · simp only [if_neg hx]
            exact hsame x
        · intro t hb
          apply hback t
          subst hmid
          exact hb
      all_goals
        simp only [hi] at h
        cases h
        exact ⟨rfl, rfl, hsame, fun _ h => h⟩

/-- A transaction that began and fails: the memory of where its body stopped over the tables of
where it began. -/
theorem transaction_rollback {body : Store → Store × Ending} {s' : Store}
    {ending : Ending} (hbegins : env.begins = true) (h : transaction env 0 body s = (s', ending))
    (hfails : ending ≠ .returned true) : ∃ s1, s' = { s1 with tables := s.tables } ∧ ∃ e, body s = (s1, e) := by
  rcases hb : body s with ⟨s1, e⟩
  simp only [transaction, hbegins, hb, if_true] at h
  refine ⟨s1, ?_, e, rfl⟩
  split at h
  · next heq =>
    cases heq
    split at h
    · exact absurd (Prod.mk.inj h).2.symm hfails
    · exact (Prod.mk.inj h).1.symm
  · next heq =>
    cases heq
    exact (Prod.mk.inj h).1.symm

end Throne.Database
