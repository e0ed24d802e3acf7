import Throne.Lib.Texts
import Mathlib.Algebra.Ring.Nat

/-!
# The resume guard

`ResumeGuard` of `src/src/engine/headless/ResumeGuard.cpp`: the record of the profile a headless boot resumes,
how often in a row that ended badly, and how many boots in a row never became stable. The record lives in
memory and in `headless-state.json`, which most changes write. A process that dies leaves the file, and the
next boot starts from it.

The file holds what was written last; the time of an exit and of an arm come from the clock.
-/

namespace Throne.Engine.ResumeGuard

open Lib.Texts

/-! ## The record -/

def kStrikesToSuppress : Nat := 3
def kResumeGuardVersion : Int := 1
def kResumeGuardMaxBytes : Nat := 64 * 1024
def kResumeGuardMaxUnstableBoots : Nat := 1000000

namespace ExitCode

def CoreGaveUp : Int := 70
def Stuck : Int := 71

end ExitCode

/-- How the process ended, as it said itself. -/
structure LastExit where
  code : Int
  reason : Text
  time : Int
  deriving DecidableEq

/-- The values in the file. -/
structure Saved where
  version : Int
  profile : Int
  strikes : Nat
  armed : Bool
  armed_at : Int
  bootOpen : Bool
  unstable : Nat
  last_exit : Option LastExit
  deriving DecidableEq

/-- The members of `ResumeGuard`. -/
structure Guard where
  profile : Int
  strikes : Nat
  armed : Bool
  armedAt : Int
  suppressed : Bool
  bootOpen : Bool
  unstableBoots : Nat
  previousExit : Option LastExit
  lastExit : Option LastExit
  deriving DecidableEq

def Guard.fresh : Guard := ⟨-1, 0, false, 0, false, false, 0, none, none⟩

/-! ## The size of the file -/

def hexDigit (n : Nat) : Char := "0123456789abcdef".toList.getD n '0'

/-- A character of a string in compact JSON. -/
def jsonChar (c : Char) : Text :=
  if c.val = 0x22 then "\\\"".toList
  else if c.val = 0x5c then "\\\\".toList
  else if c.val = 0x08 then "\\b".toList
  else if c.val = 0x0c then "\\f".toList
  else if c.val = 0x0a then "\\n".toList
  else if c.val = 0x0d then "\\r".toList
  else if c.val = 0x09 then "\\t".toList
  else if c.val < 0x20 then "\\u00".toList ++ [hexDigit (c.toNat / 16), hexDigit (c.toNat % 16)]
  else [c]

def jsonText (text : Text) : Text := "\"".toList ++ text.flatMap jsonChar ++ "\"".toList

def jsonBool (b : Bool) : Text := if b then "true".toList else "false".toList

/-- The file, its keys in the order of `QJsonObject`. -/
def Saved.text (s : Saved) : Text :=
  "\x7b\"boot\":\x7b\"open\":".toList ++ jsonBool s.bootOpen ++ ",\"unstable\":".toList ++ natText s.unstable ++ (match s.last_exit with
    | none => []
    | some last_exit =>
      "\x7d,\"last_exit\":\x7b\"at\":".toList ++ intText last_exit.time ++ ",\"code\":".toList ++
        intText last_exit.code ++ ",\"reason\":".toList ++ jsonText last_exit.reason) ++
    "\x7d,\"resume\":\x7b\"armed\":".toList ++ jsonBool s.armed ++ ",\"armed_at\":".toList ++ intText s.armed_at ++
    ",\"profile\":".toList ++ intText s.profile ++ ",\"strikes\":".toList ++ natText s.strikes ++
    "\x7d,\"version\":".toList ++ intText s.version ++ "\x7d\n".toList

/-- The size of the file in UTF-8. -/
def Saved.size (s : Saved) : Nat := (s.text.map Char.utf8Size).sum

/-! ## One process after the other -/

/-- The guard of the running process, the file, and what `decide` has returned last. -/
structure World where
  guard : Guard
  file : Option Saved
  decided : Int
  deriving DecidableEq

/-- What `save` writes. -/
def Guard.saved (g : Guard) : Saved where
  version := kResumeGuardVersion
  profile := g.profile
  strikes := g.strikes
  armed := g.armed
  armed_at := g.armedAt
  bootOpen := g.bootOpen
  unstable := g.unstableBoots
  last_exit := g.lastExit

variable (w : World)

/-- The guard goes on as `g`, and writes that. -/
def World.save (g : Guard) : World := { w with guard := g, file := some g.saved }

/-- What the constructor makes of a file it can use. -/
def Saved.guard (s : Saved) : Guard :=
  let profile := if s.profile < 0 then -1 else s.profile
  let armed := decide (0 ≤ profile) && s.armed
  { profile := profile
    strikes := min s.strikes kStrikesToSuppress
    armed := armed
    armedAt := if armed then s.armed_at else 0
    suppressed := false
    bootOpen := s.bootOpen
    unstableBoots := min s.unstable kResumeGuardMaxUnstableBoots
    previousExit := s.last_exit
    lastExit := none }

/-- The constructor, on the file of the process before. -/
def World.load : World :=
  match w.file with
  | none => { w with guard := .fresh }
  | some s =>
    if kResumeGuardMaxBytes < s.size ∨ s.version ≠ kResumeGuardVersion then { w with guard := .fresh }
    else if s.guard.previousExit.isSome then w.save s.guard
    else { w with guard := s.guard }

/-- The process before left something armed: a strike. It left its boot open: one more unstable boot. -/
def World.settlePrevious : World :=
  let g := w.guard
  let g :=
    { g with
      unstableBoots :=
        if g.bootOpen then min (g.unstableBoots + 1) kResumeGuardMaxUnstableBoots else g.unstableBoots
      bootOpen := true }
  if g.armed then
    w.save { g with strikes := min (g.strikes + 1) kStrikesToSuppress, armed := false, armedAt := 0 }
  else w.save g

/-- Which profile to resume, or -1. A profile with its strikes used up is suppressed, another one starts afresh. -/
def World.decide (candidateId : Int) : World :=
  let g := { w.guard with suppressed := false }
  if candidateId < 0 then { w with guard := g, decided := -1 }
  else if candidateId ≠ g.profile then
    let next := { g with profile := candidateId, strikes := 0, armed := false, armedAt := 0 }
    -- A first record is not written before something is armed.
    if 0 ≤ g.profile then { w.save next with decided := candidateId }
    else { w with guard := next, decided := candidateId }
  else if kStrikesToSuppress ≤ g.strikes then
    { w with guard := { g with suppressed := true }, decided := -1 }
  else { w with guard := g, decided := candidateId }

/-- The boot start was dispatched: a death counts against the profile from here on. -/
def World.arm (profileId now : Int) : World :=
  let g := w.guard
  if profileId < 0 then w
  else
    let g := if profileId ≠ g.profile then { g with profile := profileId, strikes := 0 } else g
    w.save { g with armed := true, armedAt := now }

/-- A death counts against nothing again. -/
def World.disarm : World :=
  if w.guard.armed then w.save { w.guard with armed := false, armedAt := 0 } else w

/-- An unexpected exit of the core while armed; it disarms. -/
def World.strike : World :=
  let g := w.guard
  if g.armed then
    w.save { g with strikes := min (g.strikes + 1) kStrikesToSuppress, armed := false, armedAt := 0 }
  else w

/-- The profile ran for long enough: its strikes go. -/
def World.survived (profileId : Int) : World :=
  let g := w.guard
  if profileId < 0 ∨ profileId ≠ g.profile then w
  else if g.strikes = 0 ∧ g.armed = false ∧ g.suppressed = false then w
  else w.save { g with strikes := 0, armed := false, armedAt := 0, suppressed := false }

/-- Another profile started: the suppression is lifted in memory alone. -/
def World.liftSuppression (startedProfileId : Int) : World :=
  if 0 ≤ startedProfileId ∧ startedProfileId ≠ w.guard.profile then
    { w with guard := { w.guard with suppressed := false } }
  else w

/-- A core stayed connected for long enough: the streak of unstable boots ends. -/
def World.markStable : World :=
  let g := w.guard
  if g.bootOpen = false ∧ g.unstableBoots = 0 then w
  else w.save { g with bootOpen := false, unstableBoots := 0 }

/-- An exit a profile can cause. -/
def badExit (code : Int) : Bool := code == ExitCode.CoreGaveUp || code == ExitCode.Stuck

/-- The last words of the process; an exit that no profile causes disarms. -/
def World.noteExit (code : Int) (reason : Text) (now : Int) : World :=
  let g := { w.guard with lastExit := some ⟨code, reason, now⟩ }
  if badExit code then w.save g else w.save { g with armed := false, armedAt := 0 }

/-- `boot` is the death of the process, and what every boot does first. -/
inductive Event where
  | boot (candidateId : Int)
  | arm (profileId now : Int)
  | disarm
  | strike
  | survived (profileId : Int)
  | liftSuppression (startedProfileId : Int)
  | markStable
  | noteExit (code : Int) (reason : Text) (now : Int)

/-- One call, or one death and the boot after it. -/
def step : Event → World
  | .boot candidateId => (w.load.settlePrevious).decide candidateId
  | .arm profileId now => w.arm profileId now
  | .disarm => w.disarm
  | .strike => w.strike
  | .survived profileId => w.survived profileId
  | .liftSuppression startedProfileId => w.liftSuppression startedProfileId
  | .markStable => w.markStable
  | .noteExit code reason now => w.noteExit code reason now

/-- No file yet. -/
def World.init : World := ⟨.fresh, none, -1⟩

end Throne.Engine.ResumeGuard
