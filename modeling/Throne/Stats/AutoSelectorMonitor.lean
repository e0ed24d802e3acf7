import Throne.Lib.Texts

/-!
# The monitor of the auto selector

`AutoSelectorMonitor` of `src/src/stats/autoselector/AutoSelectorMonitor.cpp`. Its own thread asks the core
for the health of the members again and again; a start of a profile gives it the tags of the new build
(`SetBuild`), a stop takes them away (`Clear`). The mutex is held for one step at a time, and never while the
core is asked or a latency is stored.

Builds have numbers, and `infos k` is what build `k` gives to `SetBuild`. Which build the core runs, which one
is in force and which core's status is shown are noted beside the monitor; no code reads them.
-/

namespace Throne.Stats.AutoSelector

open Lib.Texts

/-! ## Builds -/

/-- A profile, under the name that is shown. -/
structure Profile where
  id : Int
  name : Text

structure AutoSelectorBuildInfo where
  groupTag : Text
  profile : Option Profile
  members : List (Text × Option Profile)

/-- `tagToProfile` and `tagToName`: the last member of a tag counts. -/
def AutoSelectorBuildInfo.byTag {α : Type} (info : AutoSelectorBuildInfo) (value : Profile → α) : Text → Option α :=
  info.members.foldl (fun map entry =>
    match entry.2 with
    | none => map
    | some member => Function.update map entry.1 (some (value member))) fun _ => none

/-! ## What the core answers -/

/-- What a status says of a member that the monitor only hands on. -/
structure MemberFigures where
  rank : Int
  selectedUDP : Bool
  qualified : Bool
  active : Bool
  deviationMs : Int
  minMs : Int
  maxMs : Int
  samples : Int
  failures : Int
  dialTotal : Int
  dialFail : Int
  lastOKms : Int
  lastProbeMs : Int
  cooldownUntilMs : Int
  lastError : Text

structure AutoSelectorMember where
  tag : Text
  state : Text
  selected : Bool
  average_ms : Int
  probes : Int
  figures : MemberFigures

/-- What a status says of the group that the monitor only hands on. -/
structure GroupFigures where
  balance : Bool
  balanceMode : Text
  suspendedSinceMs : Int
  membersAlive : Int
  membersQualified : Int
  membersCooldown : Int
  probesInFlight : Int
  roundsCompleted : Int
  lastRoundMs : Int
  nextRoundMs : Int
  lastSwitchMs : Int
  lastSwitchReason : Text

structure AutoSelectorStatus where
  tag : Text
  phase : Text
  selected : Text
  pinned : Text
  suspended : Bool
  members_total : Int
  members_probed : Int
  members : List AutoSelectorMember
  figures : GroupFigures

/-- The answer of the core that runs the build with that number. -/
structure Answer where
  build : Nat
  groups : List AutoSelectorStatus

/-! ## Views -/

structure AutoSelectorMemberView where
  tag : Text
  profileID : Int
  name : Text
  state : Text
  selected : Bool
  pinned : Bool
  averageMs : Int
  probes : Int
  figures : MemberFigures

def AutoSelectorMemberView.isDead (m : AutoSelectorMemberView) : Bool := m.state == "dead".toList

def AutoSelectorMemberView.isUsable (m : AutoSelectorMemberView) : Bool := m.state == "ok".toList || m.state == "degraded".toList

structure AutoSelectorView where
  valid : Bool
  groupTag : Text
  profileID : Int
  phase : Text
  selectedTag : Text
  selectedName : Text
  selectedProfileID : Int
  pinnedTag : Text
  pinnedName : Text
  suspended : Bool
  membersTotal : Int
  membersProbed : Int
  updatedAtMs : Int
  exhaustedSinceMs : Int
  members : List AutoSelectorMemberView
  figures : GroupFigures

/-- `AutoSelectorView{}`. -/
def AutoSelectorView.empty : AutoSelectorView where
  valid := false
  groupTag := []
  profileID := -1
  phase := []
  selectedTag := []
  selectedName := []
  selectedProfileID := -1
  pinnedTag := []
  pinnedName := []
  suspended := false
  membersTotal := 0
  membersProbed := 0
  updatedAtMs := 0
  exhaustedSinceMs := 0
  members := []
  figures := ⟨false, [], 0, 0, 0, 0, 0, 0, 0, 0, 0, []⟩

/-- What `poll` copies before it looks at the members. -/
def AutoSelectorStatus.view (status : AutoSelectorStatus) (wantedTag : Text) (now : Int) : AutoSelectorView :=
  { AutoSelectorView.empty with
    valid := true
    groupTag := wantedTag
    phase := status.phase
    selectedTag := status.selected
    pinnedTag := status.pinned
    suspended := status.suspended
    membersTotal := status.members_total
    membersProbed := status.members_probed
    updatedAtMs := now
    figures := status.figures }

/-! ## The monitor -/

def kPoolExhaustedGraceSecs : Int := 20
def kRebuildBackoffMinSecs : Int := 60
def kRebuildBackoffMaxSecs : Int := 600
def kHealthPersistSecs : Int := 60

structure Monitor where
  view : AutoSelectorView
  tagToProfile : Text → Option Int
  tagToName : Text → Option Text
  groupTag : Text
  profileID : Int
  active : Bool
  exhaustedSince : Int
  lastRebuildRequest : Int
  rebuildBackoffSecs : Int
  lastHealthPersist : Int

variable (m : Monitor)

/-- What `SetBuild` and `Clear` reset. -/
def Monitor.reset : Monitor :=
  { m with
    view := .empty
    tagToProfile := fun _ => none
    tagToName := fun _ => none
    groupTag := []
    profileID := -1
    active := false
    exhaustedSince := 0 }

def Monitor.SetBuild (infos : List AutoSelectorBuildInfo) (now : Int) : Monitor :=
  match infos with
  | [] => m.reset
  | info :: _ =>
    let profileID := (info.profile.map Profile.id).getD (-1)
    { m.reset with
      groupTag := info.groupTag
      profileID := profileID
      tagToProfile := info.byTag Profile.id
      tagToName := info.byTag Profile.name
      view := { AutoSelectorView.empty with
        valid := true
        groupTag := info.groupTag
        profileID := profileID
        phase := "starting".toList
        membersTotal := info.members.length }
      lastHealthPersist := now
      active := true }

/-- A member of the status, under the names of the build in force. -/
def Monitor.entry (pinnedTag : Text) (member : AutoSelectorMember) : AutoSelectorMemberView where
  tag := member.tag
  profileID := (m.tagToProfile member.tag).getD (-1)
  name := (m.tagToName member.tag).getD []
  state := member.state
  selected := member.selected
  pinned := !pinnedTag.isEmpty && member.tag == pinnedTag
  averageMs := member.average_ms
  probes := member.probes
  figures := member.figures

/-- One turn of the loop over the members: the view so far, and how many are usable. -/
def Monitor.addMember (acc : AutoSelectorView × Nat) (member : AutoSelectorMember) : AutoSelectorView × Nat :=
  let entry := m.entry acc.1.pinnedTag member
  ({ acc.1 with
      selectedName := if entry.selected then entry.name else acc.1.selectedName
      selectedProfileID := if entry.selected then entry.profileID else acc.1.selectedProfileID
      pinnedName := if entry.pinned then entry.name else acc.1.pinnedName
      members := acc.1.members ++ [entry] },
    if entry.isUsable || entry.state == "untested".toList then acc.2 + 1 else acc.2)

def Monitor.addMembers (next : AutoSelectorView) (members : List AutoSelectorMember) : AutoSelectorView × Nat :=
  members.foldl m.addMember ({ next with profileID := m.profileID }, 0)

/-- A suspended core must never count as an exhausted pool. -/
def everythingDead (next : AutoSelectorView) (usable : Nat) : Bool :=
  usable == 0 && decide (0 < next.membersProbed) && !next.suspended && next.phase != "starting".toList

/-- The commit of `poll`, and whether it fires. -/
def Monitor.commit (next : AutoSelectorView) (usable : Nat) (now : Int) : Monitor × Bool :=
  let since :=
    if everythingDead next usable then (if m.exhaustedSince = 0 then now else m.exhaustedSince) else 0
  let fire :=
    since != 0 && decide (kPoolExhaustedGraceSecs * 1000 ≤ now - since) &&
      (m.lastRebuildRequest == 0 || decide (m.rebuildBackoffSecs * 1000 ≤ now - m.lastRebuildRequest))
  let backoff :=
    if fire then
      if m.rebuildBackoffSecs = 0 then kRebuildBackoffMinSecs
      else min (m.rebuildBackoffSecs * 2) kRebuildBackoffMaxSecs
    else m.rebuildBackoffSecs
  ({ m with
      exhaustedSince := if fire then 0 else since
      lastRebuildRequest := if fire then now else m.lastRebuildRequest
      rebuildBackoffSecs := if 0 < usable then 0 else backoff
      view := { next with exhaustedSinceMs := since } },
    fire)

/-- The latency `PersistHealth` stores for a member. -/
def AutoSelectorMemberView.health (m : AutoSelectorMemberView) : Option Int :=
  if m.profileID < 0 ∨ m.probes = 0 then none
  else if m.isUsable ∧ 0 < m.averageMs then some m.averageMs
  else if m.isDead then some (-1)
  else none

/-! ## Threads -/

/-- A member copied by `PersistHealth`, with the build whose core gave the status. -/
structure Copied where
  build : Nat
  member : AutoSelectorMemberView

/-- The next step of the monitor's thread. From `wanted` on it carries the build whose core has answered, and
from `persist` on whether the commit has fired. -/
inductive Poll where
  | sleep
  | query
  | wanted (answer : Answer)
  | members (build : Nat) (status : AutoSelectorStatus) (next : AutoSelectorView)
  | commit (build : Nat) (next : AutoSelectorView) (usable : Nat)
  | due (build : Nat) (next : AutoSelectorView) (fire : Bool) (now : Int)
  | persist (build : Nat) (next : AutoSelectorView) (fire : Bool)
  | storing (build : Nat) (next : AutoSelectorView) (fire : Bool) (copies : List Copied)
  | interface (build : Nat) (next : AutoSelectorView)

/-- The next step of a `Clear`. -/
inductive Clear where
  | persist
  | storing (copies : List Copied)
  | clear
  | done

/-- A latency that was stored: the build and the tag it was measured for, and the profile it was stored in. -/
structure Stored where
  build : Nat
  tag : Text
  profileID : Int
  latency : Int

/-- A status without one usable member: its build, and the build whose exhaustion time it started or
extended. -/
structure Exhausted where
  build : Nat
  inForce : Option Nat

/-- `poolExhausted`: the status behind it, and the build in force. -/
structure Emission where
  profileID : Int
  suspended : Bool
  build : Nat
  inForce : Option Nat

/-- The monitor, its thread, the calls of `Clear` and the latencies of the profiles there are. No code reads
the rest. -/
structure World where
  monitor : Monitor
  poll : Poll
  clears : List Clear
  latency : Int → Option Int
  core : Nat
  inForce : Option Nat
  viewOf : Nat
  stored : List Stored
  exhausted : List Exhausted
  emitted : List Emission

variable (w : World)

/-- What `PersistHealth` does under the lock: the members it copies. -/
def World.copied : List Copied :=
  if w.monitor.active && w.monitor.view.valid && !w.monitor.view.suspended then
    w.monitor.view.members.map (Copied.mk w.viewOf)
  else []

def World.persist (now : Int) : World :=
  if w.monitor.active && w.monitor.view.valid && !w.monitor.view.suspended then
    { w with monitor := { w.monitor with lastHealthPersist := now } }
  else w

/-- One turn of the loop of `PersistHealth`. -/
def World.store (copied : Copied) : World :=
  match copied.member.health with
  | none => w
  | some latency =>
    if w.latency copied.member.profileID = none ∨ w.latency copied.member.profileID = some latency then w
    else
      { w with
        latency := Function.update w.latency copied.member.profileID (some latency)
        stored := ⟨copied.build, copied.member.tag, copied.member.profileID, latency⟩ :: w.stored }

/-- Where `poll` goes on after its health is stored. -/
def Poll.fired (build : Nat) (next : AutoSelectorView) (fire : Bool) : Poll :=
  if fire then .interface build next else .sleep

/-- The next step of the monitor's thread. `groups` is what the core answers, `iface` the default interface. -/
def runPoll (groups : Option (List AutoSelectorStatus)) (iface : Option Text) (now : Int) : Poll → World
  | .sleep => { w with poll := if w.monitor.active then .query else .sleep }
  | .query =>
    match groups with
    | none => { w with poll := .sleep }
    | some groups => { w with poll := .wanted ⟨w.core, groups⟩ }
  | .wanted answer =>
    if w.monitor.active then
      match answer.groups.find? fun group => group.tag == w.monitor.groupTag with
      | none => { w with poll := .sleep }
      | some status => { w with poll := .members answer.build status (status.view w.monitor.groupTag now) }
    else { w with poll := .sleep }
  | .members build status next =>
    let (next, usable) := w.monitor.addMembers next status.members
    { w with poll := .commit build next usable }
  | .commit build next usable =>
    if w.monitor.active then
      let (monitor, fire) := w.monitor.commit next usable now
      { w with
        monitor := monitor
        viewOf := build
        exhausted :=
          if everythingDead next usable then ⟨build, w.inForce⟩ :: w.exhausted else w.exhausted
        poll := .due build next fire now }
    else { w with poll := .sleep }
  | .due build next fire now =>
    if kHealthPersistSecs * 1000 ≤ now - w.monitor.lastHealthPersist then
      { w with poll := .persist build next fire }
    else { w with poll := .fired build next fire }
  | .persist build next fire =>
    { w.persist now with poll := .storing build next fire w.copied }
  | .storing build next fire [] => { w with poll := .fired build next fire }
  | .storing build next fire (copied :: copies) =>
    { w.store copied with poll := .storing build next fire copies }
  | .interface build next =>
    -- With no default route the failures say nothing about the profiles.
    if iface = some [] then { w with poll := .sleep }
    else
      { w with
        emitted := ⟨next.profileID, next.suspended, build, w.inForce⟩ :: w.emitted
        poll := .sleep }

def World.setClear (i : Nat) (call : Clear) : World :=
  { w with clears := w.clears.set i call }

/-- The next step of a `Clear`. -/
def runClear (i : Nat) (now : Int) : Clear → World
  | .persist => (w.persist now).setClear i (.storing w.copied)
  | .storing [] => w.setClear i .clear
  | .storing (copied :: copies) => (w.store copied).setClear i (.storing copies)
  | .clear => { w with monitor := w.monitor.reset, inForce := none }.setClear i .done
  | .done => w

/-- `start` is the core's; `profile` is what else changes a latency, or deletes a profile. -/
inductive Event where
  | start (k : Nat)
  | setBuild (k : Nat) (now : Int)
  | clear
  | clearing (i : Nat) (now : Int)
  | poll (groups : Option (List AutoSelectorStatus)) (iface : Option Text) (now : Int)
  | profile (id : Int) (latency : Option Int)

def step (infos : Nat → List AutoSelectorBuildInfo) (w : World) : Event → World
  | .start k => { w with core := k }
  | .setBuild k now =>
    { w with
      monitor := w.monitor.SetBuild (infos k) now
      inForce := if (infos k).isEmpty then none else some k }
  | .clear => { w with clears := w.clears ++ [.persist] }
  | .clearing i now =>
    match w.clears[i]? with
    | none => w
    | some call => runClear w i now call
  | .poll groups iface now => runPoll w groups iface now w.poll
  | .profile id latency => { w with latency := Function.update w.latency id latency }

/-- The monitor as it is created, beside a core and the profiles there are. -/
def World.init (core : Nat) (latency : Int → Option Int) : World where
  monitor := ⟨.empty, fun _ => none, fun _ => none, [], -1, false, 0, 0, 0, 0⟩
  poll := .sleep
  clears := []
  latency := latency
  core := core
  inForce := none
  viewOf := core
  stored := []
  exhausted := []
  emitted := []

end Throne.Stats.AutoSelector
