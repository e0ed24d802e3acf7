import Throne.Database.Repos
import Throne.Lib.Runs

/-!
# The repositories with shared objects

`src/src/database/ProfilesRepo.cpp` and `GroupsRepo.cpp` once more, now with the pointers. The store
of `Throne.Database.Repos` keeps one value for a profile, which is enough while one caller works. Here
callers keep `shared_ptr`s for as long as they like, so there may be several objects of one id, some
of them older than the row, and `Save` writes whichever it is given.

An object is known by its index in `objects`, which stands for the pointer. `identityMap` (weak
pointers) and `memMap` lead from an id to an object. A pointer past the end of `objects` is the null
pointer. Every statement is taken to commit; what SQLite refuses are the rows that break a key: an
`INSERT` of an id that is there, and a profile whose group has no row (`PRAGMA foreign_keys = ON`).
`groups_order`, the traffic-only updates and the revision counters are left out: no row of the two
tables is created or deleted through them.
-/

namespace Throne.Database.Shared

open Lib.Runs

/-! ## State -/

/-- A `SaveBatch` on its thread: the pointers it was given and, once it has read them, the rows it
is about to write. -/
structure SaveJob where
  profiles : List Nat
  rows : Option (List Profile)

/-- The profiles table with its counter, the profile objects, and the members of `ProfilesRepo`. -/
structure ProfilesRepo where
  rows : List Profile
  lastId : Int
  objects : List Profile
  identityMap : Int → Option Nat
  tombstones : List Int
  jobs : List SaveJob

/-- The groups table with its counter, the group objects, and the members of `GroupsRepo`. -/
structure GroupsRepo where
  rows : List Group
  lastId : Int
  objects : List Group
  memMap : Int → Option Nat
  tombstones : List Int

/-- Both repositories and the two settings they read. -/
structure Repos where
  profiles : ProfilesRepo
  groups : GroupsRepo
  startedId : Int
  currentGroup : Int

/-- What the database file holds when the process starts. Ids are handed out by the counters. -/
structure Saved where
  profiles : List Profile
  groups : List Group
  profileLastId : Int
  groupLastId : Int
  profilesIssued : ∀ p ∈ profiles, 0 ≤ p.id ∧ p.id ≤ profileLastId
  groupsIssued : ∀ g ∈ groups, 0 ≤ g.id ∧ g.id ≤ groupLastId
  profileCounter : 0 ≤ profileLastId
  groupCounter : 0 ≤ groupLastId

/-- A process that has just opened the file. -/
def opened (t : Saved) : Repos where
  profiles := ⟨t.profiles, t.profileLastId, [], fun _ => none, [], []⟩
  groups := ⟨t.groups, t.groupLastId, [], fun _ => none, []⟩
  startedId := NoProfileId
  currentGroup := 0

variable (r : ProfilesRepo)

/-- The rows' ids. -/
def ProfilesRepo.rowIds : List Int := r.rows.map (·.id)

section

variable (r : GroupsRepo)

/-- The rows' ids. -/
def GroupsRepo.rowIds : List Int := r.rows.map (·.id)

/-! ## Groups -/

/-- `GroupsRepo::saveToDatabase`. -/
def GroupsRepo.saveToDatabase (g : Group) : GroupsRepo :=
  { r with rows := putGroup g r.rows }

/-- `GroupsRepo::GetGroup`. A loaded listing loses its repeated ids, and the row is then written
again. -/
def GroupsRepo.getGroup (id : Int) : Option Nat × GroupsRepo :=
  match r.memMap id with
  | some ptr => (some ptr, r)
  | none =>
    match groupIn r.rows id with
    | none => (none, r)
    | some row =>
      let unique := { row with profiles := row.profiles.reverse.dedup.reverse }
      let r := if unique.profiles.length = row.profiles.length then r else r.saveToDatabase unique
      (some r.objects.length,
        { r with
          objects := r.objects ++ [unique]
          memMap := Function.update r.memMap id (some r.objects.length) })

/-- `GroupsRepo::AddGroup`. -/
def GroupsRepo.addGroup (ptr : Nat) : GroupsRepo :=
  match r.objects[ptr]? with
  | none => r
  | some g =>
    if 0 ≤ g.id then r
    else
      let newId := r.lastId + 1
      let g := { g with id := newId }
      let r := { r with
        lastId := newId
        objects := r.objects.set ptr g
        memMap := Function.update r.memMap newId (some ptr) }
      r.saveToDatabase g

/-- `GroupsRepo::Save`. -/
def GroupsRepo.save (ptr : Nat) : GroupsRepo :=
  match r.objects[ptr]? with
  | none => r
  | some g =>
    if g.id < 0 then r
    else if r.tombstones.contains g.id then r
    else { r.saveToDatabase g with memMap := Function.update r.memMap g.id (some ptr) }

/-- A change of the object's fields. Nothing outside `AddGroup` changes an id. -/
def GroupsRepo.edit (ptr : Nat) (f : Group → Group) : GroupsRepo :=
  { r with objects := r.objects.modify ptr fun g => { f g with id := g.id } }

/-- The group's part of `GroupsRepo::DeleteGroup`: the row goes, the object is forgotten, and an id
that existed gets its tombstone. -/
def GroupsRepo.forget (id : Int) (found : Bool) : GroupsRepo :=
  { r with
    rows := r.rows.filter fun g => g.id != id
    memMap := Function.update r.memMap id none
    tombstones := if found then id :: r.tombstones else r.tombstones }

end

/-! ## Profiles -/

/-- Writes a row under its id. -/
def putProfile (p : Profile) (rows : List Profile) : List Profile :=
  p :: rows.filter fun other => other.id != p.id

variable (groupIds : List Int)

/-- `ProfilesRepo::saveToDatabase`: an upsert, refused when the group has no row. -/
def ProfilesRepo.saveToDatabase (p : Profile) :
    ProfilesRepo :=
  if groupIds.contains p.gid then { r with rows := putProfile p r.rows } else r

/-- `ProfilesRepo::GetProfile`. -/
def ProfilesRepo.getProfile (id : Int) : Option Nat × ProfilesRepo :=
  match r.identityMap id with
  | some ptr => (some ptr, r)
  | none =>
    match profileIn r.rows id with
    | none => (none, r)
    | some row =>
      (some r.objects.length,
        { r with
          objects := r.objects ++ [row]
          identityMap := Function.update r.identityMap id (some r.objects.length) })

/-- `ProfilesRepo::GetProfileBatch`. The source loads the missing ids by chunks before it fills
`identityMap`; the objects are the same as one by one. -/
def ProfilesRepo.getProfileBatch (r : ProfilesRepo) : List Int → List Nat × ProfilesRepo
  | [] => ([], r)
  | id :: ids =>
    let (found, r) := r.getProfile id
    let (rest, r) := r.getProfileBatch ids
    (found.toList ++ rest, r)

/-- The ids given to the objects of a batch, in order, with the group and the entry in
`identityMap` of each. A pointer that is in the batch twice gets the second id in the end. -/
def ProfilesRepo.number (r : ProfilesRepo) (gid : Int) : List Nat → Int → ProfilesRepo
  | [], _ => r
  | ptr :: ptrs, id =>
    let r := { r with
      objects := r.objects.modify ptr fun p => { p with id := id, gid := gid }
      identityMap := Function.update r.identityMap id (some ptr) }
    r.number gid ptrs (id + 1)

/-- `BATCH_LIMIT_WRITE / 14`. -/
def chunkSize : Nat := 1500 / 14

/-- `Database::execBatchInsertProfilesChunk`: one statement, refused whole. -/
def insertChunk (rows chunk : List Profile) : Option (List Profile) :=
  let ids := chunk.map (·.id)
  if ids.Nodup ∧ (∀ id ∈ ids, id ∉ rows.map (·.id)) ∧ (∀ p ∈ chunk, p.gid ∈ groupIds) then
    some (rows ++ chunk)
  else none

/-- `Database::execBatchInsertProfiles`: a refused chunk does not stop the others. -/
def insertChunks (groupIds : List Int) (rows : List Profile) : List (List Profile) → List Profile × Bool
  | [] => (rows, true)
  | chunk :: chunks =>
    match insertChunk groupIds rows chunk with
    | some rows => insertChunks groupIds rows chunks
    | none => ((insertChunks groupIds rows chunks).1, false)

/-- `Database::execBatchReplaceProfilesChunk`. The foreign key is looked at when the statement ends,
on the rows it leaves. -/
def replaceChunk (rows chunk : List Profile) : List Profile :=
  let next := chunk.foldl (fun rows p => putProfile p rows) rows
  if ∀ p ∈ next, p.id ∈ chunk.map (·.id) → p.gid ∈ groupIds then next else rows

/-- `ProfilesRepo::Save`. -/
def ProfilesRepo.save (ptr : Nat) : ProfilesRepo :=
  match r.objects[ptr]? with
  | none => r
  | some p =>
    if p.id < 0 then r
    else if r.tombstones.contains p.id then r
    else
      { r.saveToDatabase groupIds p with
        identityMap := Function.update r.identityMap p.id (some ptr) }

/-- The objects of a batch with the given property, with their pointers. -/
def ProfilesRepo.objectsOf (ptrs : List Nat) (keep : Profile → Bool) : List (Nat × Profile) :=
  ptrs.filterMap fun ptr =>
    match r.objects[ptr]? with
    | some p => if keep p then some (ptr, p) else none
    | none => none

/-- `ProfilesRepo::SaveBatch` up to its lock: the rows are made from the objects as they are now. -/
def ProfilesRepo.readJob (k : Nat) : ProfilesRepo :=
  match r.jobs[k]? with
  | some ⟨ptrs, none⟩ =>
    let valid := r.objectsOf ptrs fun p => decide (0 ≤ p.id)
    { r with jobs := r.jobs.set k ⟨valid.map (·.1), some (valid.map (·.2))⟩ }
  | _ => r

/-- `ProfilesRepo::SaveBatch` under its lock: what was deleted meanwhile is left out. -/
def ProfilesRepo.writeJob (k : Nat) : ProfilesRepo :=
  match r.jobs[k]? with
  | some ⟨valid, some rows⟩ =>
    let rows := rows.filter fun p => !r.tombstones.contains p.id
    let known := r.objectsOf valid fun p => !r.tombstones.contains p.id
    { r with
      rows := (rows.toChunks chunkSize).foldl (replaceChunk groupIds) r.rows
      identityMap := known.foldl (fun m x => Function.update m x.2.id (some x.1)) r.identityMap
      jobs := r.jobs.eraseIdx k }
  | _ => r

/-- The end of `ProfilesRepo::DeleteAndForget`, with the rows it deleted. -/
def ProfilesRepo.forget (ids deletedIds : List Int) : ProfilesRepo :=
  { r with
    rows := r.rows.filter fun p => !ids.contains p.id
    identityMap := fun id => if deletedIds.contains id then none else r.identityMap id
    tombstones := deletedIds ++ r.tombstones }

/-! ## Operations over both repositories -/

variable (s : Repos)

/-- Changes a group's listing through `GetGroup` and saves it. A missing group is skipped. -/
def Repos.relist (gid : Int) (f : Group → Group) : Repos :=
  match s.groups.getGroup gid with
  | (some ptr, groups) => { s with groups := (groups.edit ptr f).save ptr }
  | (none, groups) => { s with groups := groups }

/-- `gid < 0 ? current_group : gid`. -/
def Repos.targetGroup (gid : Int) : Int := if gid < 0 then s.currentGroup else gid

/-- `ProfilesRepo::AddProfile`. The id is handed out before the group is looked for. -/
def Repos.addProfile (ptr : Nat) (gid : Int) : Repos :=
  match s.profiles.objects[ptr]? with
  | none => s
  | some p =>
    if 0 ≤ p.id then s
    else
      let newId := s.profiles.lastId + 1
      let p := { p with id := newId, gid := s.targetGroup gid }
      let s := { s with profiles := { s.profiles with
        lastId := newId
        objects := s.profiles.objects.set ptr p } }
      match s.groups.getGroup p.gid with
      | (none, groups) => { s with groups := groups }
      | (some _, groups) =>
        let profiles := { s.profiles with
          identityMap := Function.update s.profiles.identityMap newId (some ptr) }
        let s := { s with
          groups := groups
          profiles := profiles.saveToDatabase groups.rowIds p }
        s.relist p.gid fun g => g.addProfileBatch [newId]

/-- `ProfilesRepo::AddProfileBatch`. -/
def Repos.addProfileBatch (ptrs : List Nat) (gid : Int) : Repos :=
  let gid := s.targetGroup gid
  match s.groups.getGroup gid with
  | (none, groups) => { s with groups := groups }
  | (some group, groups) =>
    let s := { s with groups := groups }
    let toAdd := (s.profiles.objectsOf ptrs fun p => decide (p.id < 0)).map (·.1)
    if toAdd = [] then s
    else
      let firstId := s.profiles.lastId + 1
      let profiles := { s.profiles with lastId := s.profiles.lastId + toAdd.length }.number gid toAdd firstId
      let rows := (profiles.objectsOf toAdd fun _ => true).map (·.2)
      let ids := rows.map (·.id)
      match insertChunks groups.rowIds profiles.rows (rows.toChunks chunkSize) with
      | (rows, false) =>
        { s with profiles := { profiles with
          rows := rows
          identityMap := fun id => if ids.contains id then none else profiles.identityMap id } }
      | (rows, true) =>
        { s with
          profiles := { profiles with rows := rows }
          groups := (groups.edit group fun g => g.addProfileBatch ids).save group }

/-- The ids `BatchDeleteProfiles` goes on with: the running profile is left alone unless it is to be
stopped. -/
def Repos.doomed (ids : List Int) (stopRunningProfile : Bool) : List Int :=
  if ids.contains s.startedId && !stopRunningProfile then ids.filter fun id => id != s.startedId
  else ids

/-- `ProfilesRepo::BatchDeleteProfiles`. The stop itself is the connection's, and reaches this state
only through `started_id`. -/
def Repos.batchDeleteProfiles (ids : List Int) (stopRunningProfile : Bool) : Repos :=
  let ids := s.doomed ids stopRunningProfile
  if ids = [] then s
  else
    let (found, profiles) := s.profiles.getProfileBatch ids
    let ents := (profiles.objectsOf found fun _ => true).map (·.2)
    let s := { s with profiles := profiles.forget ids (ents.map (·.id)) }
    (ents.map (·.gid)).dedup.foldl (fun s gid => s.relist gid fun g => g.removeProfileBatch ids) s

/-- The listing of the object at a pointer. -/
def GroupsRepo.listed (r : GroupsRepo) (ptr : Option Nat) : List Int :=
  match ptr with
  | none => []
  | some ptr =>
    match r.objects[ptr]? with
    | none => []
    | some g => g.profiles

/-- The profiles `DeleteGroup` takes with the group: the listed ones and those whose row names it. -/
def Repos.owned (id : Int) : List Int :=
  let (group, groups) := s.groups.getGroup id
  groups.listed group ++ (s.profiles.rows.filter fun p => p.gid == id).map (·.id)

/-- `GroupsRepo::DeleteGroup`. -/
def Repos.deleteGroup (id : Int) : Repos :=
  let (group, groups) := s.groups.getGroup id
  let profileIds := s.owned id
  { s with
    groups := groups.forget id group.isSome
    profiles := s.profiles.forget profileIds profileIds }

/-! ## Runs -/

/-- What happens to the repositories. Beside their operations: objects are made, copied and edited by
callers, a weak pointer of `identityMap` expires, and the process restarts. `saveBatch` only starts a
job; `readJob` and `writeJob` are its two halves, on a thread of its own. -/
inductive Event where
  | newProfile (p : Profile)
  | copyProfile (ptr : Nat) (keepsId : Bool)
  | editProfile (ptr : Nat) (f : Profile → Profile)
  | getProfile (id : Int)
  | expire (id : Int)
  | addProfile (ptr : Nat) (gid : Int)
  | addProfileBatch (ptrs : List Nat) (gid : Int)
  | saveProfile (ptr : Nat)
  | saveBatch (ptrs : List Nat)
  | readJob (k : Nat)
  | writeJob (k : Nat)
  | batchDeleteProfiles (ids : List Int) (stopRunningProfile : Bool)
  | newGroup (g : Group)
  | editGroup (ptr : Nat) (f : Group → Group)
  | getGroup (id : Int)
  | addGroup (ptr : Nat)
  | saveGroup (ptr : Nat)
  | deleteGroup (id : Int)
  | setStartedId (id : Int)
  | setCurrentGroup (id : Int)
  | restart

/-- `ProfilesRepo::NewProfile`: the id stays -1 until the profile is added. -/
def ProfilesRepo.newProfile (p : Profile) : ProfilesRepo :=
  { r with objects := r.objects ++ [{ p with id := -1 }] }

/-- A copy of an object, made under the same id or under none. -/
def ProfilesRepo.copyProfile (ptr : Nat) (keepsId : Bool) : ProfilesRepo :=
  match r.objects[ptr]? with
  | none => r
  | some p => { r with objects := r.objects ++ [{ p with id := if keepsId then p.id else -1 }] }

/-- A change of the object's fields. Nothing outside the two adds changes an id. -/
def ProfilesRepo.edit (ptr : Nat) (f : Profile → Profile) : ProfilesRepo :=
  { r with objects := r.objects.modify ptr fun p => { f p with id := p.id } }

/-- One event. -/
def step : Event → Repos
  | .newProfile p => { s with profiles := s.profiles.newProfile p }
  | .copyProfile ptr keepsId => { s with profiles := s.profiles.copyProfile ptr keepsId }
  | .editProfile ptr f => { s with profiles := s.profiles.edit ptr f }
  | .getProfile id => { s with profiles := (s.profiles.getProfile id).2 }
  | .expire id =>
    { s with profiles := { s.profiles with
      identityMap := Function.update s.profiles.identityMap id none } }
  | .addProfile ptr gid => s.addProfile ptr gid
  | .addProfileBatch ptrs gid => s.addProfileBatch ptrs gid
  | .saveProfile ptr => { s with profiles := s.profiles.save s.groups.rowIds ptr }
  | .saveBatch ptrs =>
    { s with profiles := { s.profiles with jobs := s.profiles.jobs ++ [⟨ptrs, none⟩] } }
  | .readJob k => { s with profiles := s.profiles.readJob k }
  | .writeJob k => { s with profiles := s.profiles.writeJob s.groups.rowIds k }
  | .batchDeleteProfiles ids stop => s.batchDeleteProfiles ids stop
  | .newGroup g =>
    { s with groups := { s.groups with objects := s.groups.objects ++ [{ g with id := -1 }] } }
  | .editGroup ptr f => { s with groups := s.groups.edit ptr f }
  | .getGroup id => { s with groups := (s.groups.getGroup id).2 }
  | .addGroup ptr => { s with groups := s.groups.addGroup ptr }
  | .saveGroup ptr => { s with groups := s.groups.save ptr }
  | .deleteGroup id => s.deleteGroup id
  | .setStartedId id => { s with startedId := id }
  | .setCurrentGroup id => { s with currentGroup := id }
  | .restart =>
    { s with
      profiles := ⟨s.profiles.rows, s.profiles.lastId, [], fun _ => none, [], []⟩
      groups := ⟨s.groups.rows, s.groups.lastId, [], fun _ => none, []⟩ }

end Throne.Database.Shared
