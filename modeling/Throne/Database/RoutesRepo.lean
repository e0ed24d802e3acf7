import Throne.Database.Entities.RouteProfile

/-!
# The repository of routing profiles

`src/src/database/RoutesRepo.cpp`. Callers keep `shared_ptr`s for as long as they like, so there may
be several objects of one id, some of them older than the row, and `Save` writes whichever it is
given. An object is known by its index in `objects`, which stands for the pointer; `identityMap` (weak
pointers) leads from an id to the object the repository hands out. Unlike the repositories of profiles
and groups this one marks nothing it deleted.

Every statement is taken to commit. Of `forgetDeleted` only the part that may add a routing profile is
kept: what it changes in the groups is in none of the two tables here.
-/

namespace Throne.Database.Routes

/-- The routing profiles' table with its counter, the objects, and the members of `RoutesRepo`. -/
structure RoutesRepo where
  rows : List RouteProfile
  lastId : Int
  objects : List RouteProfile
  identityMap : Int → Option Nat
  current_route_id : Int

namespace RoutesRepo

section

variable (r : RoutesRepo)

/-- The row of an id. -/
def row (id : Int) : Option RouteProfile := r.rows.find? fun p => p.id == id

/-- The rows, `ORDER BY id`. -/
def inOrder : List RouteProfile := r.rows.insertionSort fun p q => p.id ≤ q.id

/-- `RoutesRepo::saveToDatabase`: `INSERT … ON CONFLICT(id) DO UPDATE` of every column. -/
def saveToDatabase (p : RouteProfile) : RoutesRepo :=
  { r with rows := p :: r.rows.filter fun other => other.id != p.id }

/-- The object of a row: the one that is known, else a new one. -/
def objectOf (row : RouteProfile) : Nat × RoutesRepo :=
  match r.identityMap row.id with
  | some ptr => (ptr, r)
  | none =>
    (r.objects.length,
      { r with
        objects := r.objects ++ [row]
        identityMap := Function.update r.identityMap row.id (some r.objects.length) })

/-- `RoutesRepo::GetRouteProfile`. -/
def GetRouteProfile (id : Int) : Option Nat × RoutesRepo :=
  match r.identityMap id with
  | some ptr => (some ptr, r)
  | none =>
    match r.row id with
    | none => (none, r)
    | some row =>
      let (ptr, r) := r.objectOf row
      (some ptr, r)

/-- The loop of `GetAllRouteProfiles`. -/
def objectsOf (r : RoutesRepo) : List RouteProfile → List Nat × RoutesRepo
  | [] => ([], r)
  | row :: rows =>
    let (ptr, r) := r.objectOf row
    let (ptrs, r) := r.objectsOf rows
    (ptr :: ptrs, r)

/-- `RoutesRepo::GetAllRouteProfiles`. -/
def GetAllRouteProfiles : List Nat × RoutesRepo := r.objectsOf r.inOrder

/-- `RoutesRepo::Save`. -/
def Save (ptr : Nat) : RoutesRepo :=
  match r.objects[ptr]? with
  | none => r
  | some p =>
    if p.id < 0 then r
    else
      { r.saveToDatabase p with identityMap := Function.update r.identityMap p.id (some ptr) }

/-- A new object. -/
def make (p : RouteProfile) : RoutesRepo :=
  { r with objects := r.objects ++ [p] }

/-- `NewRouteProfileID`, and the object that gets the id. -/
def number (ptr : Nat) : RoutesRepo :=
  { r with
    lastId := r.lastId + 1
    objects := r.objects.modify ptr fun p => { p with id := r.lastId + 1 } }

/-- `RoutesRepo::AddRouteProfile`. -/
def AddRouteProfile (ptr : Nat) : RoutesRepo :=
  match r.objects[ptr]? with
  | none => r
  | some p => if 0 ≤ p.id then r else (r.number ptr).Save ptr

/-- `RoutesRepo::forgetDeleted`: `current_route_id` moves off a deleted id, and the last profile is
followed by a default one. -/
def forgetDeleted (deleted : List Int) : RoutesRepo :=
  if deleted.contains r.current_route_id then
    match r.inOrder.head? with
    | some remaining => { r with current_route_id := remaining.id }
    | none =>
      let r := (r.make RouteProfile.GetDefaultChain).AddRouteProfile r.objects.length
      { r with current_route_id := r.lastId }
  else r

/-- `DeleteRouteProfiles` under its lock. -/
def forget (ids : List Int) : RoutesRepo :=
  { r with
    rows := r.rows.filter fun p => !ids.contains p.id
    identityMap := fun id => if ids.contains id then none else r.identityMap id }

/-- `RoutesRepo::DeleteRouteProfiles`. -/
def DeleteRouteProfiles (ids : List Int) : RoutesRepo :=
  if ids = [] then r else (r.forget ids).forgetDeleted ids

/-- The loop of `UpdateRouteProfiles` over the list, with the ids it saved. -/
def saveListed (r : RoutesRepo) : List Nat → List Int × RoutesRepo
  | [] => ([], r)
  | ptr :: ptrs =>
    match r.objects[ptr]? with
    | none => r.saveListed ptrs
    | some p =>
      let id := if p.id < 0 then r.lastId + 1 else p.id
      let r := if p.id < 0 then r.number ptr else r
      let (kept, r) := (r.Save ptr).saveListed ptrs
      (id :: kept, r)

/-- What `UpdateRouteProfiles` deletes: the removed ids that are not in the list. -/
def doomed (kept removedIds : List Int) : List Int :=
  (removedIds.filter fun id => decide (0 ≤ id) && !kept.contains id).dedup

/-- `RoutesRepo::UpdateRouteProfiles`. -/
def UpdateRouteProfiles (ptrs : List Nat) (removedIds : List Int) : RoutesRepo :=
  let (kept, r) := r.saveListed ptrs
  r.DeleteRouteProfiles (doomed kept removedIds)

end

/-! ## Rows after an operation -/

variable {r : RoutesRepo}

@[simp] theorem row_saveToDatabase_self (p : RouteProfile) : (r.saveToDatabase p).row p.id = some p := by
  simp [saveToDatabase, row]

/-- A save leaves the other rows. -/
theorem row_saveToDatabase_other {p : RouteProfile} {id : Int} (h : id ≠ p.id) : (r.saveToDatabase p).row id = r.row id := by
  have hne : (p.id == id) = false := by simpa using fun hid => h hid.symm
  simp only [saveToDatabase, row, List.find?_cons, hne, List.find?_filter]
  -- What the filter drops is not the row looked for.
  congr 1
  funext other
  by_cases hid : other.id = id
  · simp [hid, h]
  · simp [hid]

@[simp] theorem row_objectOf (p : RouteProfile) (id : Int) : (r.objectOf p).2.row id = r.row id := by
  rw [objectOf]
  split <;> rfl

@[simp] theorem row_GetRouteProfile (id other : Int) : (r.GetRouteProfile id).2.row other = r.row other := by
  rw [GetRouteProfile]
  split
  · rfl
  · split
    · rfl
    · exact row_objectOf _ other

theorem row_objectsOf (rows : List RouteProfile) (id : Int) : (r.objectsOf rows).2.row id = r.row id := by
  induction rows generalizing r with
  | nil => rfl
  | cons p rows ih =>
    rw [objectsOf]
    exact (ih (r := (r.objectOf p).2)).trans (row_objectOf p id)

@[simp] theorem row_GetAllRouteProfiles (id : Int) : r.GetAllRouteProfiles.2.row id = r.row id := row_objectsOf _ id

theorem row_Save_self {ptr : Nat} {p : RouteProfile} (h : r.objects[ptr]? = some p) (hid : 0 ≤ p.id) : (r.Save ptr).row p.id = some p := by
  rw [Save, h]
  simp only [not_lt.2 hid, if_false]
  exact row_saveToDatabase_self p

theorem number_objects (ptr : Nat) : (r.number ptr).objects[ptr]? = (r.objects[ptr]?).map fun p => { p with id := r.lastId + 1 } :=
  List.getElem?_modify_eq _ ptr r.objects

/-- `Save` writes the row of its object's id and no other. -/
theorem row_Save_other {ptr : Nat} {id : Int} (h : ∀ p, r.objects[ptr]? = some p → p.id ≠ id) : (r.Save ptr).row id = r.row id := by
  rw [Save]
  cases hp : r.objects[ptr]? with
  | none => rfl
  | some p =>
    by_cases hid : p.id < 0
    · simp only [hid, if_true]
    · simp only [hid, if_false]
      exact row_saveToDatabase_other fun heq => h p hp heq.symm

end RoutesRepo

end Throne.Database.Routes
