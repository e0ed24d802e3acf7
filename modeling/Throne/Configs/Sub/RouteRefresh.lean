import Throne.Database.RoutesRepo
import Throne.Lib.Runs

/-!
# The refresh of remote routing profiles

`UI_update_all_remote_routes` of `src/src/configs/sub/RouteUpdater.cpp` runs on a thread of its own.
It lists the routing profiles once and then, profile by profile, waits for the network, puts the
fetched rules into the object it holds and saves that object. The user's operations on the repository
come in between, so the steps of every refresh under way and of the user are the events of one system.

Beside the repository the system keeps a ledger of what the user's operations alone left
(`Ledger.given`): a refresh is meant to change nothing there.
-/

namespace Throne.Configs.Sub.RouteUpdate

open Lib.Texts Lib.Runs Database.Routes

/-! ## One profile -/

/-- `replaceRules`: the rules come from the fetched profile, less its endpoint rules; the profile's
own endpoint rules stay at their indexes, and a rule switched off by name stays off. -/
def replaceRules (servers : Servers) (profile fetched : RouteProfile) : RouteProfile :=
  let endpointRules := profile.Rules.zipIdx.filter fun x => x.1.type == .endpointPreferredBy
  let disabledNames :=
    (profile.Rules.filter fun rule => rule.type != .endpointPreferredBy && rule.disabled).map (·.name)
  let rules := (fetched.Rules.filter fun rule => rule.type != .endpointPreferredBy).map fun rule =>
    if disabledNames.contains rule.name then { rule with disabled := true } else rule
  let rules := endpointRules.foldl (fun rules x => rules.insertIdx (min x.2 rules.length) x.1) rules
  let profile := { profile with isRaw := false, rawRoute := [], Rules := rules }
  { profile.SyncEndpointRules servers with defaultOutboundID := fetched.defaultOutboundID }

/-- `RouteUpdate::UpdateProfile` once the answer is parsed. -/
def refreshed (servers : Servers) (profile fetched : RouteProfile) (now : Int) : RouteProfile :=
  let profile := replaceRules servers profile fetched
  { profile with
    name :=
      if trimmed profile.name = [] ∧ trimmed fetched.name ≠ [] then fetched.name else profile.name
    remoteLastUpdate := now }

/-- The profiles a refresh passes over. -/
def skipped (onlyAllowed : Bool) (p : RouteProfile) : Bool :=
  !p.isRemote || decide (trimmed p.remoteURL = []) || (onlyAllowed && !p.autoUpdate)

/-! ## The system -/

/-- Where a refresh is with the profile at the head of its list. -/
inductive Stage where
  | looking
  | waiting
  | replaced
  deriving DecidableEq

/-- One `UI_update_all_remote_routes` on its thread: the objects it has still to see to. -/
structure Refresh where
  onlyAllowed : Bool
  todo : List Nat
  stage : Stage

/-- The repository and the refreshes under way. -/
structure State where
  repo : RoutesRepo
  refreshes : List Refresh

/-- A step of a refresh, or an operation of the user. An answer of the network carries the profile
that was parsed from it, with the server profiles and the time of that moment. `makeRoute` and
`copyRoute` make the objects a dialog works on; `update` is `RouteService::Update` with the edit it
makes on its copy; a weak pointer may expire when no refresh holds its object. -/
inductive Event where
  | list (onlyAllowed : Bool)
  | look (k : Nat)
  | answer (k : Nat) (fetched : Option RouteProfile) (servers : Servers) (now : Int)
  | save (k : Nat)
  | getRoute (id : Int)
  | expire (id : Int)
  | makeRoute (p : RouteProfile)
  | copyRoute (ptr : Nat) (f : RouteProfile → RouteProfile)
  | editRoute (ptr : Nat) (f : RouteProfile → RouteProfile)
  | addRoute (ptr : Nat)
  | saveRoute (ptr : Nat)
  | update (id : Int) (f : RouteProfile → RouteProfile)
  | updateRouteProfiles (ptrs : List Nat) (removedIds : List Int)
  | deleteRouteProfiles (ids : List Int)
  | setCurrentRoute (id : Int)

variable (s : State)

/-- The refresh `k` goes on with the rest of its list. -/
def State.next (k : Nat) (refresh : Refresh) : State :=
  { s with refreshes := s.refreshes.set k { refresh with todo := refresh.todo.tail, stage := .looking } }

/-- The refresh `k`, if it is at the given stage, with the object at the head of its list. -/
def State.at (k : Nat) (stage : Stage) : Option (Refresh × Nat × RouteProfile) :=
  match s.refreshes[k]? with
  | none => none
  | some refresh =>
    if refresh.stage = stage then
      match refresh.todo.head? with
      | none => none
      | some ptr => (s.repo.objects[ptr]?).map fun p => (refresh, ptr, p)
    else none

/-- The body of the loop up to the request. -/
def State.look (k : Nat) : State :=
  match s.at k .looking with
  | none => s
  | some (refresh, _, p) =>
    if skipped refresh.onlyAllowed p then s.next k refresh
    else { s with refreshes := s.refreshes.set k { refresh with stage := .waiting } }

/-- The rest of `UpdateProfile`. A failed fetch and a raw profile end the work on this profile. -/
def State.answer (k : Nat) (fetched : Option RouteProfile) (servers : Servers) (now : Int) : State :=
  match s.at k .waiting with
  | none => s
  | some (refresh, ptr, p) =>
    match fetched with
    | none => s.next k refresh
    | some fetched =>
      if fetched.isRaw then s.next k refresh
      else
        { repo := { s.repo with
            objects := s.repo.objects.set ptr (refreshed servers p fetched now) }
          refreshes := s.refreshes.set k { refresh with stage := .replaced } }

/-- `routesRepo->Save(p)` at the end of the loop's body. -/
def State.save (k : Nat) : State :=
  match s.at k .replaced with
  | none => s
  | some (refresh, ptr, _) => { s with repo := s.repo.Save ptr }.next k refresh

/-- `RouteService::Update`: the edit is made on a copy, and the copy is saved. -/
def State.update (id : Int) (f : RouteProfile → RouteProfile) : State :=
  match s.repo.GetRouteProfile id with
  | (none, repo) => { s with repo := repo }
  | (some ptr, repo) =>
    match repo.objects[ptr]? with
    | none => { s with repo := repo }
    | some stored =>
      { s with repo := (repo.make { f stored with id := stored.id }).Save repo.objects.length }

/-- One event. -/
def step : Event → State
  | .list onlyAllowed =>
    let (todo, repo) := s.repo.GetAllRouteProfiles
    { repo := repo, refreshes := s.refreshes ++ [⟨onlyAllowed, todo, .looking⟩] }
  | .look k => s.look k
  | .answer k fetched servers now => s.answer k fetched servers now
  | .save k => s.save k
  | .getRoute id => { s with repo := (s.repo.GetRouteProfile id).2 }
  | .expire id =>
    if s.refreshes.any fun refresh => refresh.todo.any fun ptr => s.repo.identityMap id == some ptr then s
    else { s with repo := { s.repo with identityMap := Function.update s.repo.identityMap id none } }
  | .makeRoute p => { s with repo := s.repo.make { p with id := -1 } }
  | .copyRoute ptr f =>
    match s.repo.objects[ptr]? with
    | none => s
    | some p => { s with repo := s.repo.make { f p with id := p.id } }
  | .editRoute ptr f =>
    { s with repo := { s.repo with
      objects := s.repo.objects.modify ptr fun p => { f p with id := p.id } } }
  | .addRoute ptr => { s with repo := s.repo.AddRouteProfile ptr }
  | .saveRoute ptr => { s with repo := s.repo.Save ptr }
  | .update id f => s.update id f
  | .updateRouteProfiles ptrs removedIds =>
    { s with repo := s.repo.UpdateRouteProfiles ptrs removedIds }
  | .deleteRouteProfiles ids => { s with repo := s.repo.DeleteRouteProfiles ids }
  | .setCurrentRoute id => { s with repo := { s.repo with current_route_id := id } }

/-! ## What the user left -/

/-- The fields a refresh does not replace. -/
structure Kept where
  name : Text
  preventModifications : Bool
  isRemote : Bool
  remoteURL : Text
  autoUpdate : Bool
  source_gid : Int
  endpointProfileIDs : List Int
  innerHopEndpointIDs : List Int
  customDns : Bool
  dns : Option RouteDns
  deriving DecidableEq

/-- The kept fields of a profile. -/
def kept (p : RouteProfile) : Kept where
  name := p.name
  preventModifications := p.preventModifications
  isRemote := p.isRemote
  remoteURL := p.remoteURL
  autoUpdate := p.autoUpdate
  source_gid := p.source_gid
  endpointProfileIDs := p.endpointProfileIDs
  innerHopEndpointIDs := p.innerHopEndpointIDs
  customDns := p.customDns
  dns := p.dns

/-- The profile has these fields, except that a blank name may have been filled in. -/
def Kept.Holds (k : Kept) (p : RouteProfile) : Prop :=
  { kept p with name := k.name } = k ∧ (p.name = k.name ∨ trimmed k.name = [])

instance (k : Kept) (p : RouteProfile) : Decidable (k.Holds p) := inferInstanceAs (Decidable (_ ∧ _))

/-- The id under which a save of the object writes. -/
def savedId (r : RoutesRepo) (ptr : Nat) : List Int :=
  ((r.objects[ptr]?).toList.map (·.id)).filter fun id => decide (0 ≤ id)

/-- The id under which an addition of the object writes. -/
def addedId (r : RoutesRepo) (ptr : Nat) : List Int :=
  match r.objects[ptr]? with
  | some p => if 0 ≤ p.id then [] else [r.lastId + 1]
  | none => []

/-- The ids whose rows a deletion changes: the deleted ones, and that of the default profile which
follows the last one. -/
def deletedIds (r : RoutesRepo) (ids : List Int) : List Int :=
  if ids.contains r.current_route_id && (r.forget ids).rows.isEmpty then
    ids ++ [r.lastId + 1]
  else ids

/-- The ids whose rows an operation of the user writes or deletes. -/
def Event.writes : Event → List Int
  | .addRoute ptr => addedId s.repo ptr
  | .saveRoute ptr => savedId s.repo ptr
  | .update id _ =>
    let (ptr, repo) := s.repo.GetRouteProfile id
    ptr.toList.flatMap (savedId repo)
  | .updateRouteProfiles ptrs removedIds =>
    let (kept, repo) := s.repo.saveListed ptrs
    kept ++ deletedIds repo (RoutesRepo.doomed kept removedIds)
  | .deleteRouteProfiles ids => deletedIds s.repo ids
  | _ => []

/-- The system, with the kept fields of each profile as the user's operations alone left them. -/
structure Ledger where
  state : State
  given : Int → Option Kept

/-- One event. What the user writes is given; a refresh gives nothing. -/
def Ledger.step (l : Ledger) (e : Event) : Ledger :=
  let state := RouteUpdate.step l.state e
  { state := state
    given := fun id =>
      if id ∈ e.writes l.state then (state.repo.row id).map kept else l.given id }

/-- The repository as a process finds it: rows, no objects, no refresh. -/
def Ledger.opened (rows : List RouteProfile) (lastId current_route_id : Int) : Ledger :=
  let repo : RoutesRepo := ⟨rows, lastId, [], fun _ => none, current_route_id⟩
  { state := ⟨repo, []⟩, given := fun id => (repo.row id).map kept }

end Throne.Configs.Sub.RouteUpdate
