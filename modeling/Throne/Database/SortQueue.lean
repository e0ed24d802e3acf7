import Mathlib.Data.List.AList
import Throne.Database.Entities.GroupSort
import Throne.Lib.Runs

/-!
# The sort queue

The background queue of `src/src/database/GroupsRepo.cpp` and the sorts that it runs. Requests of a group merge
into one (`enqueueSort`); a worker takes what is pending as a batch and sorts its groups one after the other, in any
order. A sort copies the list, reads the keys one by one while profiles change, in any order, and commits. A change
of a profile owes a request, which comes at any later time.
-/

namespace Throne.Database.Groups

structure PendingSort where
  changed : List Nat := []
  full : Bool := false

def PendingSort.covers (pending : PendingSort) (id : Nat) : Bool := pending.full || pending.changed.contains id

/-- What is pending, by group. -/
abbrev Batch := AList fun _ : Nat => PendingSort

inductive Task
  | Resort
  | Reposition (changed : List Nat)

def PendingSort.task (pending : PendingSort) : Task :=
  if pending.full then .Resort else .Reposition pending.changed

/-- The turn of a group in a batch: what it is sorted for, the attempts so far, and the groups still to come. -/
structure Turn where
  waiting : Batch
  gid : Nat
  alone : gid ∉ waiting
  task : Task
  attempt : Nat := 0

def kSortAttempts : Nat := 3

section Queue

variable {D : Type} [LinearOrder D] [Zero D]

inductive Worker (D : Type) [Zero D]
  | stopped
  | batch (waiting : Batch)
  | sorting (turn : Turn)
  | reading (turn : Turn) (snapshot : List Nat) (action : GroupSortAction) (keys : SortKeys D)

def Worker.isStopped : Worker D → Bool
  | .stopped => true
  | _ => false

/-- What does not change in a run: settings, and the group of a profile. -/
structure Settings (D : Type) where
  doubles : Doubles D
  show_config_security : Bool
  gidOf : Nat → Nat

structure State (D : Type) [Zero D] where
  groups : Nat → Option Group
  profiles : Nat → Option Profile
  pendingSorts : Batch := ∅
  worker : Worker D := .stopped
  owed : List (Nat × SortInput) := []

variable (settings : Settings D)

def Settings.rule (group : Group) : SortRule D := SortRule.of settings.doubles settings.show_config_security group group.sort

variable (s : State D)

/-- The key of a profile as it is now. -/
def State.keyNow (group : Group) (id : Nat) : SortKey D := (settings.rule group).keyOf (s.profiles id)

/-- What an input may change of a profile. -/
def changedBy (input : SortInput) : Option Profile → Option Profile → Bool
  | none, none => true
  | some old, some new =>
    match input with
    | .Membership => true
    | .Config => new.outbound.isSome = old.outbound.isSome && new = { old with outbound := new.outbound }
    | .TestResult =>
      new = { old with latency := new.latency, dl_speed := new.dl_speed, ul_speed := new.ul_speed, ip_out := new.ip_out }
    | .Traffic =>
      new = { old with traffic_downlink := new.traffic_downlink, traffic_uplink := new.traffic_uplink }
  | _, _ => input = .Membership

inductive Event
  | change (id : Nat) (input : SortInput) (profile : Option Profile)
  | RepositionLater (gid : Nat) (changed : List Nat) (input : SortInput)
  | ResortLater (gid : Nat)
  | takeBatch
  | turn (gid : Nat)
  | snapshot
  | read (id : Nat)
  | commit

def enqueueSort (gid : Nat) (input : SortInput) (changed : List Nat) (full : Bool) : State D :=
  match s.groups gid with
  | none => s
  | some group =>
    if group.SortReads input then
      let pending := (s.pendingSorts.lookup gid).getD {}
      let full := pending.full || full
      let changed := if full then pending.changed else pending.changed ++ changed
      { s with
        pendingSorts := s.pendingSorts.insert gid { changed := changed, full := full }
        worker := match s.worker with
          | .stopped => .batch ∅
          | worker => worker }
    else s

/-- The next group of the batch. -/
def State.done (turn : Turn) : State D := { s with worker := .batch turn.waiting }

/-- The start of an attempt of `Resort` or of `Reposition`. -/
def snapshotStep (turn : Turn) : State D :=
  match s.groups turn.gid with
  | none => s.done turn
  | some group =>
    let reading := { s with worker := .reading turn group.profiles group.sort fun _ => none }
    if group.KeepsSorted then
      match turn.task with
      | .Resort => reading
      | .Reposition changed =>
        let positions := changedPositions changed group.profiles
        if positions = [] then s.done turn
        else if manyChanged positions group.profiles then
          { s with worker := .sorting { turn with task := .Resort, attempt := 0 } }
        else reading
    else s.done turn

def orderOf (rule : SortRule D) (keys : SortKeys D) (snapshot : List Nat) : Task → Except Nat (Option (List Nat))
  | .Resort =>
    match resortOrder rule keys snapshot with
    | .error id => .error id
    | .ok order => .ok (some order)
  | .Reposition changed => repositionOrder rule keys changed snapshot

/-- The end of an attempt; nothing happens while a key is missing. -/
def commitStep (turn : Turn) (snapshot : List Nat) (action : GroupSortAction) (keys : SortKeys D) : State D :=
  match s.groups turn.gid with
  | none => s.done turn
  | some group =>
    match orderOf (settings.rule { group with sort := action }) keys snapshot turn.task with
    | .error _ => s
    | .ok none => s.done turn
    | .ok (some order) =>
      if group.profiles ≠ snapshot ∨ group.sort ≠ action then
        -- a change that landed meanwhile means sorting again
        if turn.attempt + 1 < kSortAttempts then
          { s with worker := .sorting { turn with attempt := turn.attempt + 1 } }
        else s.done turn
      else { s.done turn with groups := Function.update s.groups turn.gid (some { group with profiles := order }) }

def step : Event → State D
  | .change id input profile =>
    if changedBy input (s.profiles id) profile then
      { s with profiles := Function.update s.profiles id profile, owed := (id, input) :: s.owed }
    else s
  | .RepositionLater gid changed input =>
    { enqueueSort s gid input changed false with
      owed := s.owed.filter fun o => !(settings.gidOf o.1 = gid && changed.contains o.1 && o.2 = input) }
  | .ResortLater gid => enqueueSort s gid .Membership [] true
  | .takeBatch =>
    match s.worker with
    | .batch waiting =>
      if waiting.entries = [] then
        if s.pendingSorts.entries = [] then { s with worker := .stopped }
        else { s with worker := .batch s.pendingSorts, pendingSorts := ∅ }
      else s
    | _ => s
  | .turn gid =>
    match s.worker with
    | .batch waiting =>
      match waiting.lookup gid with
      | none => s
      | some pending =>
        { s with
          worker := .sorting
            { waiting := waiting.erase gid, gid := gid, alone := fun h => (AList.mem_erase.1 h).1 rfl,
              task := pending.task } }
    | _ => s
  | .snapshot =>
    match s.worker with
    | .sorting turn => snapshotStep s turn
    | _ => s
  | .read id =>
    match s.worker with
    | .reading turn snapshot action keys =>
      match s.groups turn.gid, keys id with
      | some group, none =>
        let key := s.keyNow settings { group with sort := action } id
        { s with worker := .reading turn snapshot action (SortKeys.insert keys id key) }
      | _, _ => s
    | _ => s
  | .commit =>
    match s.worker with
    | .reading turn snapshot action keys => commitStep settings s turn snapshot action keys
    | _ => s

/-- A request of a profile is to come, or to be taken: a change since the last batch, told or not. -/
def later (gid : Nat) (group : Group) (id : Nat) : Bool :=
  ((s.pendingSorts.lookup gid).any fun pending => pending.covers id) ||
    s.owed.any fun o => o.1 = id && group.SortReads o.2

/-- `Reposition` is told of every profile whose request is not taken yet, unless the whole group is sorted later. -/
def told : Event → Bool
  | .commit =>
    match s.worker with
    | .reading turn snapshot _ _ =>
      match turn.task, s.groups turn.gid with
      | .Reposition changed, some group =>
        ((s.pendingSorts.lookup turn.gid).any fun pending => pending.full) ||
          snapshot.all fun id => !later s turn.gid group id || changed.contains id
      | _, _ => true
    | _ => true
  | _ => true

/-- A change leaves a kept sort no NaN to read. -/
def numeric : Event → Bool
  | .change id _ profile =>
    (s.groups (settings.gidOf id)).all fun group =>
      !(group.KeepsSorted && group.profiles.contains id) || ((settings.rule group).keyOf profile).number ≠ .nan
  | _ => true

end Queue

end Throne.Database.Groups
