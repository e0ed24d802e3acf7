import Throne.Lib.Json
import Throne.Lib.Runs

/-!
# The change feed

The topics a remote client follows, and the requests it holds until one of them changes
(`src/src/api/remote/RouterFeeds.cpp`). A change comes as a signal, or is found by a poll that compares
the revisions of the repositories and hashes of what the API shows with those of the poll before.

Everything happens on the main thread, one event at a time. Qt's hash functions are a parameter. Of what the
router reads of its repositories the model has what the polls compare.
-/

namespace Throne.Api.Remote.Feeds

open Lib.Texts Lib.Json

def kMaxHoldSec : Int := 300

/-- The largest cursor a client can send. -/
def kMaxCursor : Int := 9223372036854775807

inductive ChangeTopic where
  | Status
  | Groups
  | Profiles
  | Tests
  | Settings
  deriving DecidableEq

abbrev ChangeTopics := List ChangeTopic

def kTopics : ChangeTopics := [.Status, .Groups, .Profiles, .Tests, .Settings]

/-! ## What the polls read -/

/-- A group, as the API shows it. -/
structure GroupView where
  gid : Int
  name : Text
  url : Text
  archive : Bool
  sub_last_update : Int
  route_id : Int
  import_sub_route : Bool
  profiles : List Int

/-- The tabs in their order, and the groups. -/
structure GroupsView where
  order : List Int
  groups : List GroupView

structure RepoRevisions where
  groups : Nat
  profiles : Nat
  routes : Nat
  settings : Nat

/-- The repositories and the engine: the contents that are hashed, and the revisions. -/
structure Repos where
  status : Fields
  groups : GroupsView
  settings : Fields
  revisions : RepoRevisions
  prepare_exit : Bool

/-- Qt's hash functions, of a document in its compact form, a list of numbers, and the fields of a group
before its profiles. -/
structure QtHash where
  document : Fields → Nat
  range : List Int → Nat → Nat
  multi : Nat → GroupView → Nat

/-- The status without the running profile's traffic counters. -/
def withoutTraffic (status : Fields) : Fields :=
  match status.get "profile".toList with
  | some (.object []) => status
  | some (.object profile) =>
    status.put "profile".toList (.object (profile.filter fun field =>
      field.1 != "traffic_up".toList && field.1 != "traffic_down".toList))
  | _ => status

variable (q : QtHash)

def statusHashNow (repos : Repos) : Nat := q.document (withoutTraffic repos.status)

def groupsHashNow (repos : Repos) : Nat :=
  repos.groups.groups.foldl (fun seed group => q.range group.profiles (q.multi seed group)) (q.range repos.groups.order 0)

def settingsHashNow (repos : Repos) : Nat := q.document repos.settings

/-! ## Requests and answers -/

/-- A parameter of a request. -/
inductive Param where
  | absent
  | unreadable
  | value (n : Int)

/-- None when the parameter is present but not an integer from `min` to `max`. -/
def queryInteger (param : Param) (fallback min max : Int) : Option Int :=
  match param with
  | .absent => some fallback
  | .unreadable => none
  | .value n => if min ≤ n ∧ n ≤ max then some n else none

/-- A request for events. -/
structure Request where
  sameInstance : Bool
  after : Param
  timeout : Param

/-- The cursor and the timeout, or the problem with them. -/
def readCursor (request : Request) : Except Text (Nat × Nat) :=
  match queryInteger request.after 0 0 kMaxCursor with
  | none => .error "\"after\" must be an integer, 0 or more".toList
  | some after =>
    match queryInteger request.timeout 0 0 kMaxHoldSec with
    | none => .error "\"timeout\" must be an integer from 0 to 300 seconds".toList
    | some timeout => .ok (after.toNat, timeout.toNat)

inductive Response where
  | badRequest (message : Text)
  | events (cursor : Nat) (changes : ChangeTopics)
  /-- 503, Throne is shutting down. -/
  | exiting
  deriving DecidableEq

/-- An answer to a request, with the cursor the request had where it could be read. -/
structure Answer where
  id : Nat
  after : Option Nat
  response : Response
  deriving DecidableEq

/-- A request that is held, or was until its answer. -/
structure FeedWaiter where
  id : Nat
  after : Nat
  done : Bool

/-! ## The router -/

/-- What the router keeps of the feed, and whether its timers run. -/
structure Router where
  changeSeq_ : Nat
  topicSeqs_ : ChangeTopic → Nat
  eventWaiters_ : List FeedWaiter
  eventSettle_ : Bool
  statusPoll_ : Bool
  statusHash_ : Option Nat
  repoRevisions_ : Option RepoRevisions
  groupsHash_ : Nat
  settingsHash_ : Nat

/-- No code reads the last two: how many requests there were, and the answers in their order. -/
structure World where
  repos : Repos
  router : Router
  asked : Nat
  answered : List Answer

def Router.noteChanged (r : Router) (topics : ChangeTopics) : Router :=
  if topics.isEmpty then r
  else
    { r with
      changeSeq_ := r.changeSeq_ + 1
      topicSeqs_ := fun topic => if topics.contains topic then r.changeSeq_ + 1 else r.topicSeqs_ topic
      eventSettle_ := !r.eventWaiters_.isEmpty || r.eventSettle_ }

def Router.changedAfter (r : Router) (after : Nat) : Bool :=
  kTopics.any fun topic => decide (after < r.topicSeqs_ topic)

def Router.eventsResponse (r : Router) (after : Nat) (everything : Bool) : Response :=
  .events r.changeSeq_ (kTopics.filter fun topic => everything || decide (after < r.topicSeqs_ topic))

variable (w : World)

/-- Once Throne exits: everything held is answered, and the timers stop. -/
def World.releaseFeeds : World :=
  { w with
    router :=
      { w.router with eventWaiters_ := [], eventSettle_ := false, statusPoll_ := false }
    answered := w.answered ++ (w.router.eventWaiters_.filter fun pending => !pending.done).map
      fun pending => ⟨pending.id, some pending.after, .exiting⟩ }

/-- The answers to what is held and has news. -/
def World.settleEvents : World :=
  if w.repos.prepare_exit then w.releaseFeeds
  else
    { w with
      router :=
        { w.router with
          eventWaiters_ := w.router.eventWaiters_.filter fun pending =>
            !pending.done && !w.router.changedAfter pending.after }
      answered := w.answered ++ (w.router.eventWaiters_.filter fun pending =>
        !pending.done && w.router.changedAfter pending.after).map fun pending => ⟨pending.id, some pending.after,
            w.router.eventsResponse pending.after false⟩ }

variable (repos : Repos)

/-- The topics of what has changed in the repositories since the last poll. -/
def repoTopics (r : Router) (before : RepoRevisions) : ChangeTopics :=
  (if repos.revisions.groups ≠ before.groups ∧ groupsHashNow q repos ≠ r.groupsHash_ then
    [.Groups, .Profiles] else []) ++
  (if repos.revisions.profiles ≠ before.profiles then [.Profiles] else []) ++
  (if repos.revisions.routes ≠ before.routes then [.Status] else []) ++
  (if repos.revisions.settings ≠ before.settings ∧ settingsHashNow q repos ≠ r.settingsHash_ then
    [.Settings, .Status] else [])

def pollRepos (r : Router) : Router :=
  match r.repoRevisions_ with
  | none =>
    { r with
      repoRevisions_ := some repos.revisions
      groupsHash_ := groupsHashNow q repos
      settingsHash_ := settingsHashNow q repos }
  | some before =>
    { r with
      groupsHash_ :=
        if repos.revisions.groups ≠ before.groups then groupsHashNow q repos else r.groupsHash_
      settingsHash_ :=
        if repos.revisions.settings ≠ before.settings then settingsHashNow q repos
        else r.settingsHash_
      repoRevisions_ := some repos.revisions : Router }.noteChanged (repoTopics q repos r before)

/-- Whether the status differs from that of the last poll. -/
def statusMoved (r : Router) : Bool :=
  match r.statusHash_ with
  | none => false
  | some hash => decide (hash ≠ statusHashNow q repos)

/-- Stops only on a tick that finds nothing held, so a client that asks again at once does not restart it. -/
def World.pollStatus : World :=
  if w.repos.prepare_exit then w.releaseFeeds
  else
    let held := w.router.eventWaiters_.filter fun pending => !pending.done
    let r := { w.router with eventWaiters_ := held }
    if held.isEmpty then { w with router := { r with statusPoll_ := false } }
    else
      let noted := if statusMoved q w.repos r then r.noteChanged [.Status] else r
      { w with
        router := pollRepos q w.repos { noted with statusHash_ := some (statusHashNow q w.repos) } }

def World.respond (after : Option Nat) (response : Response) : World :=
  { w with
    asked := w.asked + 1
    answered := w.answered ++ [⟨w.asked, after, response⟩] }

/-- The request is held. -/
def World.hold (after : Nat) : World :=
  { w with
    asked := w.asked + 1
    router := { w.router with eventWaiters_ := w.router.eventWaiters_ ++ [⟨w.asked, after, false⟩] } }

def World.startPoll : World :=
  { w with router := { w.router with statusPoll_ := true } }

def World.getEvents (request : Request) : World :=
  match readCursor request with
  | .error problem => w.respond none (.badRequest problem)
  | .ok (after, timeout) =>
    if !request.sameInstance then w.respond (some after) (w.router.eventsResponse after true)
    else if timeout = 0 ∨ w.router.changedAfter after then
      w.respond (some after) (w.router.eventsResponse after false)
    else if w.router.statusPoll_ then w.hold after
    else (w.hold after).startPoll.pollStatus q

/-- The wait of a request runs out. -/
def World.deadline (id : Nat) : World :=
  match w.router.eventWaiters_.find? fun pending => pending.id == id && !pending.done with
  | none => w
  | some pending =>
    { w with
      router :=
        { w.router with
          eventWaiters_ := w.router.eventWaiters_.map fun other =>
            if other.id = id then { other with done := true } else other }
      answered := w.answered ++ [⟨id, some pending.after, w.router.eventsResponse pending.after false⟩] }

/-! ## Events -/

inductive Event where
  /-- The engine or a handler of the API reports topics. -/
  | changed (topics : ChangeTopics)
  | status (status : Fields)
  | groups (groups : GroupsView)
  | profiles
  | routes
  | settings (settings : Fields)
  | exit
  | settle
  | statusTick
  | deadline (id : Nat)
  | getEvents (request : Request)

/-- A write raises the revision of its repository. -/
def Repos.write : Event → Repos
  | .status status => { repos with status := status }
  | .groups groups =>
    { repos with groups, revisions := { repos.revisions with groups := repos.revisions.groups + 1 } }
  | .profiles =>
    { repos with
      revisions := { repos.revisions with profiles := repos.revisions.profiles + 1 } }
  | .routes =>
    { repos with revisions := { repos.revisions with routes := repos.revisions.routes + 1 } }
  | .settings settings =>
    { repos with
      settings, revisions := { repos.revisions with settings := repos.revisions.settings + 1 } }
  | .exit => { repos with prepare_exit := true }
  | _ => repos

def step : Event → World
  | .changed topics => { w with router := w.router.noteChanged topics }
  | .settle =>
    if w.router.eventSettle_ then
      { w with router := { w.router with eventSettle_ := false } }.settleEvents
    else w
  | .statusTick => if w.router.statusPoll_ then w.pollStatus q else w
  | .deadline id => w.deadline id
  | .getEvents request => w.getEvents q request
  | event => { w with repos := w.repos.write event }

/-- A router that has just started, over any repositories. -/
def World.init : World :=
  ⟨repos, ⟨0, fun _ => 0, [], false, false, none, none, 0, 0⟩, 0, []⟩

end Throne.Api.Remote.Feeds
