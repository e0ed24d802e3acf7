import Throne.Lib.Runs
import Throne.Lib.Texts

/-!
# The switch of iCloud Private Relay

The core switches Private Relay off at the interface the traffic takes, and puts the switch back
(`src/core/internal/sysrelay/sysrelay_darwin.go`). What it has to put back stands in a marker file, so that
it can be done at the next start if the core was killed.

A function runs one command at a step: a call of `scutil`, or an operation on the marker file. A command may
fail, and the core may be killed between any two. Between the commands the current set of the network
settings may change; the switch itself is changed by the core alone.
-/

namespace Throne.Core.SysRelay

open Lib.Texts

/-- `valueAbsent`. -/
def valueAbsent : Text := "-".toList

/-- The value of an interface whose relay is off. -/
def relayOff : Text := "1".toList

def interfacePath (set interfaceName : Text) : Text := set ++ "/Network/Interface/".toList ++ interfaceName

/-- The blanks of `strings.Fields`, as far as the marker has them. -/
def isBlank (c : Char) : Bool := (9 ≤ c.toNat && c.toNat ≤ 13) || c.toNat == 32

/-- What `Disable` writes into the marker. -/
def markerText (interfaceName previous : Text) : Text := interfaceName ++ ' ' :: (previous ++ ['\n'])

/-- The command the core is about to run. -/
inductive Pc where
  | idle
  /-- `Disable`: the current set, the old value, the marker (emptied, then written), and `write`. -/
  | disableSet (interfaceName : Text)
  | disableRead (path interfaceName : Text)
  | disableTruncate (path interfaceName previous : Text)
  | disableMark (path interfaceName previous : Text)
  | disableCommit (path : Text)
  | disableVerify (path : Text)
  | disableRemove
  /-- `RepairLeftover` and `Restore`. -/
  | repairStat
  | restoreRead
  | restoreMalformed
  | restoreSet (interfaceName previous : Text)
  | restoreCommit (path previous : Text)
  | restoreVerify (path previous : Text)
  | restoreRemove

/-- `prefs` is the value of `DisablePrivateRelay` at a path, `valueAbsent` where it has none. `marked` is
the path the marker was last written for; no code reads it. -/
structure World where
  prefs : Text → Text
  currentSet : Text
  marker : Option Text
  pc : Pc
  marked : Option Text

inductive Event where
  /-- A call of `Disable`, with the default interface. -/
  | Disable (interfaceName : Text)
  | Restore
  | RepairLeftover
  /-- The next command. `ok` says whether it reports no error, `committed` whether a write of the
  settings took effect. -/
  | next (ok committed : Bool)
  | kill
  | setCurrent (set : Text)

/-- A write of the settings. -/
def World.commit (w : World) (path value : Text) (committed : Bool) : World :=
  if committed then { w with prefs := Function.update w.prefs path value } else w

def World.goto (w : World) (pc : Pc) : World := { w with pc := pc }

/-- The next command. -/
def command (w : World) (ok committed : Bool) : World :=
  match w.pc with
  | .idle => w
  | .disableSet interfaceName =>
    if ok then w.goto (.disableRead (interfacePath w.currentSet interfaceName) interfaceName)
    else w.goto .idle
  | .disableRead path interfaceName =>
    if ok = false ∨ w.prefs path = relayOff then w.goto .idle
    else w.goto (.disableTruncate path interfaceName (w.prefs path))
  | .disableTruncate path interfaceName previous =>
    if ok then
      { w with marker := some [], pc := .disableMark path interfaceName previous }
    else w.goto .idle
  | .disableMark path interfaceName previous =>
    if ok then
      { w with
        marker := some (markerText interfaceName previous)
        marked := some path
        pc := .disableCommit path }
    else w.goto .idle
  | .disableCommit path =>
    (w.commit path relayOff committed).goto (if ok then .disableVerify path else .disableRemove)
  | .disableVerify path =>
    if ok = true ∧ w.prefs path = relayOff then w.goto .idle else w.goto .disableRemove
  | .disableRemove => { w with marker := if ok then none else w.marker, pc := .idle }
  | .repairStat => if ok = false ∨ w.marker = none then w.goto .idle else w.goto .restoreRead
  | .restoreRead =>
    if ok then
      match w.marker with
      | none => w.goto .idle
      | some text =>
        match words isBlank text with
        | [interfaceName, previous] => w.goto (.restoreSet interfaceName previous)
        | _ => w.goto .restoreMalformed
    else w.goto .idle
  | .restoreMalformed => { w with marker := if ok then none else w.marker, pc := .idle }
  | .restoreSet interfaceName previous =>
    if ok then w.goto (.restoreCommit (interfacePath w.currentSet interfaceName) previous)
    else w.goto .idle
  | .restoreCommit path previous =>
    (w.commit path previous committed).goto (if ok then .restoreVerify path previous else .idle)
  | .restoreVerify path previous =>
    if ok = true ∧ w.prefs path = previous then w.goto .restoreRemove else w.goto .idle
  | .restoreRemove => { w with marker := if ok then none else w.marker, pc := .idle }

/-- A step. A function is called when none is running. -/
def step (w : World) : Event → World
  | .Disable interfaceName =>
    match w.pc with
    | .idle => if interfaceName.isEmpty then w else w.goto (.disableSet interfaceName)
    | _ => w
  | .Restore =>
    match w.pc with
    | .idle => w.goto .restoreRead
    | _ => w
  | .RepairLeftover =>
    match w.pc with
    | .idle => w.goto .repairStat
    | _ => w
  | .next ok committed => command w ok committed
  | .kill => w.goto .idle
  | .setCurrent set => { w with currentSet := set }

/-- Before the first `Disable`: the user's own values, and no marker. -/
def World.init (userPrefs : Text → Text) (set : Text) : World := ⟨userPrefs, set, none, .idle, none⟩

end Throne.Core.SysRelay
