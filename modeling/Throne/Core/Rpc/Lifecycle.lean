import Throne.Core.Netip
import Throne.Lib.Runs

/-!
# Starting and stopping a profile

`Start` brings up what a profile needs, in order: an extra process, the Xray sidecar (eager or behind
a gate), one gate for each opaque Xray config, the pinned addresses, the system DNS, the box and a
watch on the egress. Each exit unwinds by hand what came before it, and a deferred reset unpublishes
the box and clears the auto-redirect mark after any error. `Stop` takes everything down through the
references it finds, and does nothing without a published box.

The state holds the references the core keeps and the resources that are alive, so that a resource
without a reference is visible. Library calls succeed or fail as the event says; a failed one starts
nothing. `Start` and `Stop` are serialised by `lifecycleMu`, so a run is a list of requests.

The core keeps track of what it runs along a run exactly when no `Start` of the run takes one of the
exits that reset or forget something: the refusal while a box is published, a failure of the Xray
sidecar or of a gate after an extra process was started, and a later failure after addresses were
pinned (`tracksWhatRuns_iff`).
-/

namespace Throne.Core.Rpc

open Lib.Runs List

/-! ## State -/

/-- What a start brings up, by handle. -/
inductive Resource where
  | box (handle : Nat)
  | process (handle : Nat)
  | xray (handle : Nat)
  | gate (handle : Nat)
  | watch (handle : Nat)
  deriving DecidableEq

structure Process where
  handle : Nat
  path : String
  args : List String
  noOut : Bool
  cleanupPath : String

/-- The references of the core and the world they refer to. -/
structure State where
  boxInstance : Option Nat
  extraProcess : Option Process
  xrayInstance : Option Nat
  xrayGate : Option Nat
  xrayFullGates : List Nat
  stopEgressForwardingWatch : Option Nat
  autoRedirectMark : Nat
  /-- The table of `dnspins`: a name and one of its addresses. -/
  pins : List (String × Addr)
  /-- `sysdns` holds something to release. -/
  systemDNS : Bool
  /-- iCloud Private Relay was switched off and not restored. -/
  relayOff : Bool
  /-- What is open or running. -/
  live : List Resource
  nextHandle : Nat

/-- The state of a core that has started nothing. -/
def State.initial : State := ⟨none, none, none, none, [], none, 0, [], false, false, [], 0⟩

/-- Nothing runs and nothing is set. -/
structure Idle (s : State) : Prop where
  live : s.live = []
  pins : s.pins = []
  mark : s.autoRedirectMark = 0
  systemDNS : s.systemDNS = false

def State.open (s : State) (r : Resource) : State :=
  { s with live := r :: s.live, nextHandle := s.nextHandle + 1 }

def State.close (s : State) (r : Resource) : State :=
  { s with live := s.live.filter (· ≠ r) }

/-- Close whatever a reference refers to. -/
def State.closeRef (s : State) (mk : Nat → Resource) : Option Nat → State
  | none => s
  | some handle => s.close (mk handle)

def State.closeAll (s : State) (mk : Nat → Resource) (handles : List Nat) : State :=
  handles.foldl (fun s handle => s.close (mk handle)) s

/-! ## Requests -/

structure LoadConfigReq where
  coreConfig : String
  needExtraProcess : Bool
  extraProcessArgs : String
  extraProcessConf : Option String
  extraProcessPath : String
  extraNoOut : Bool
  needXray : Bool
  xrayLazyStart : Bool
  xrayFullConfigs : List String
  pinnedDomains : List (String × List String)
  tunIpv4Cidr : String
  disablePrivateRelay : Bool

/-- Library functions that compute from their arguments alone. -/
structure Library where
  /-- `runtime.GOOS == "darwin"`. -/
  darwin : Bool
  shlexSplit : String → Except String (List String)
  sprintf : String → String → String
  toLower : String → String
  netip : Netip
  autoRedirectMarkFor : String → Nat

/-- How the library calls of one `Start` end: `none` is success, `some` an error. -/
structure Outcomes where
  createExtraConfig : Except String (String × String)
  processStart : Option String
  startGate : Option String
  createXrayInstance : Option String
  prepareXray : Option String
  xrayStart : Option String
  startFullGate : Nat → Option String
  sysdnsPrepare : Option String
  boxmainCreate : Option String
  sysdnsApply : Option String
  relayDisable : Option String
  /-- Whether this platform watches the egress. -/
  watchEgressForwarding : Bool

/-! ## Start -/

/-- The next stage, unless the one before ended with an error. -/
def andThen (r : State × Option String) (stage : State → State × Option String) : State × Option String :=
  match r.2 with
  | some e => (r.1, some e)
  | none => stage r.1

/-- An error with what it happened in. -/
def cause (e message : String) : String := message ++ ": " ++ e

/-- Whether a text has a place for a string. -/
def hasPlace : List Char → Bool
  | '%' :: 's' :: _ => true
  | _ :: rest => hasPlace rest
  | [] => false

/-- The first argument that has a place for the path of the extra config gets it. -/
def fillConfPath (lib : Library) (confPath : String) : List String → List String
  | [] => []
  | arg :: args =>
    if hasPlace arg.toList then lib.sprintf arg confPath :: args
    else arg :: fillConfPath lib confPath args

section

variable (lib : Library)

section

variable (req : LoadConfigReq) (o : Outcomes)

/-- The arguments and the cleanup path of the extra process. -/
def extraArgs : Except String (List String × String) :=
  match lib.shlexSplit req.extraProcessArgs with
  | .error e => .error (cause e "Failed to parse args")
  | .ok args =>
    match req.extraProcessConf with
    | none => .ok (args, "")
    | some _ =>
      match o.createExtraConfig with
      | .error e => .error (cause e "Failed to create extra.conf")
      | .ok (confPath, cleanupPath) => .ok (fillConfPath lib confPath args, cleanupPath)

variable (s : State)

def startExtraProcess : State × Option String :=
  if req.needExtraProcess then
    match extraArgs lib req o with
    | .error e => (s, some e)
    | .ok (args, cleanupPath) =>
      -- The reference is set before the process is started, and stays when that fails.
      let p : Process := ⟨s.nextHandle, req.extraProcessPath, args, req.extraNoOut, cleanupPath⟩
      let s := { s with extraProcess := some p }
      match o.processStart with
      | some e => (s, some e)
      | none => (s.open (.process p.handle), none)
  else (s, none)

def storeMark : State :=
  { s with autoRedirectMark := lib.autoRedirectMarkFor req.coreConfig }

def setXray (inst gate : Option Nat) : State :=
  { s with xrayInstance := inst, xrayGate := gate }

/-- The Xray sidecar: cold behind a gate, or created, prepared and started at once. An instance that
cannot be prepared or started is closed. -/
def startXray : State × Option String :=
  if req.needXray then
    if req.xrayLazyStart then
      match o.startGate with
      | some e => (s, some e)
      | none => (setXray (s.open (.gate s.nextHandle)) none (some s.nextHandle), none)
    else
      match o.createXrayInstance with
      | some e => (s, some e)
      | none =>
        let opened := s.open (.xray s.nextHandle)
        match o.prepareXray with
        | some e => (opened.close (.xray s.nextHandle), some e)
        | none =>
          match o.xrayStart with
          | some e => (opened.close (.xray s.nextHandle), some e)
          | none => (setXray opened (some s.nextHandle) none, none)
  else (s, none)

/-- Slots are cleared before the close. -/
def closeXray : State :=
  let cleared := { s with xrayInstance := none, xrayGate := none, xrayFullGates := [] }
  let closed := cleared.closeRef .gate s.xrayGate
  let closed := closed.closeAll .gate s.xrayFullGates
  closed.closeRef .xray s.xrayInstance

/-- Start a gate for each outcome: the gates that opened, the first error and the state. -/
def startGates : List (Option String) → State → List Nat × Option String × State
  | [], s => ([], none, s)
  | some e :: errs, s =>
    let (gates, _, s) := startGates errs s
    (gates, some e, s)
  | none :: errs, s =>
    let (gates, err, s') := startGates errs (s.open (.gate s.nextHandle))
    (s.nextHandle :: gates, err, s')

/-- The outcomes of the gates of the full configs, in order. -/
def fullGateOutcomes (configs : List String) (o : Outcomes) : List (Option String) := (List.range configs.length).map o.startFullGate

/-- The first gate is started alone, the others together; any error closes the gates that opened. -/
def startXrayFullGates (configs : List String) (o : Outcomes) (s : State) : State × Except String (List Nat) :=
  match fullGateOutcomes configs o with
  | [] => (s, .ok [])
  | some e :: _ => (s, .error e)
  | none :: errs =>
    let (gates, err, s) := startGates (none :: errs) s
    match err with
    | some e => (s.closeAll .gate gates, .error e)
    | none => (s, .ok gates)

def startFullGates : State × Option String :=
  if req.xrayFullConfigs = [] then (s, none)
  else
    match startXrayFullGates req.xrayFullConfigs o s with
    | (s, .error e) => (closeXray s, some e)
    | (s, .ok gates) => ({ s with xrayFullGates := gates }, none)

def sysdnsRelease : State := { s with systemDNS := false }

def stopExtraProcess : State :=
  match s.extraProcess with
  | none => s
  | some p => { s.close (.process p.handle) with extraProcess := none }

def stopSidecars : State := closeXray (stopExtraProcess (sysdnsRelease s))

/-- The normal form of a pinned name. -/
def normalize (domain : String) : String :=
  let name := (trimSpace domain).toList
  lib.toLower (String.ofList (if name.getLast? = some '.' then name.dropLast else name))

/-- The table `dnspins.Set` builds: names without text and addresses that do not parse are dropped. -/
def pinTable (entries : List (String × List String)) : List (String × Addr) :=
  (entries.filter fun entry => normalize lib entry.1 ≠ "").flatMap fun entry =>
    (entry.2.filterMap fun address => lib.netip.parseAddr (trimSpace address)).map fun parsed =>
      (normalize lib entry.1, parsed.1.unmap)

/-- The domains of a request as a map: the last entry of a domain counts. -/
def pinnedMap : List (String × List String) → List (String × List String)
  | [] => []
  | (domain, addresses) :: rest =>
    if rest.any fun entry => entry.1 = domain then pinnedMap rest
    else (domain, addresses) :: pinnedMap rest

def setPins : State :=
  { s with pins := pinTable lib (pinnedMap req.pinnedDomains) }

/-- Whether the system DNS is taken over. -/
def takesSystemDNS : Bool := lib.darwin && req.tunIpv4Cidr ≠ ""

/-- `Prepare` may leave something to release even when it fails. -/
def prepareSystemDNS : State × Option String :=
  if takesSystemDNS lib req then
    let s := { s with systemDNS := true }
    match o.sysdnsPrepare with
    | some e => (stopSidecars s, some (cause e "set up the system DNS"))
    | none => (s, none)
  else (s, none)

def createBox : State × Option String :=
  match o.boxmainCreate with
  | some e => (stopSidecars s, some e)
  | none => ({ s.open (.box s.nextHandle) with boxInstance := some s.nextHandle }, none)

/-- A relay that cannot be switched off is no reason not to connect. -/
def disableRelay : State :=
  if req.disablePrivateRelay then
    match o.relayDisable with
    | some _ => s
    | none => { s with relayOff := true }
  else s

def applySystemDNS : State × Option String :=
  if takesSystemDNS lib req then
    match o.sysdnsApply with
    | some e =>
      let closed := (sysdnsRelease s).closeRef .box s.boxInstance
      (stopSidecars closed, some (cause e "set the system DNS"))
    | none => (disableRelay req o s, none)
  else (s, none)

def watchEgress : State × Option String :=
  if req.tunIpv4Cidr ≠ "" then
    if o.watchEgressForwarding then
      ({ s.open (.watch s.nextHandle) with stopEgressForwardingWatch := some s.nextHandle }, none)
    else ({ s with stopEgressForwardingWatch := none }, none)
  else (s, none)

def startBody : State × Option String :=
  if s.boxInstance.isSome then (s, some "instance already started")
  else
    let r := startExtraProcess lib req o s
    let r := andThen r fun s => startXray req o (storeMark lib req s)
    let r := andThen r (startFullGates req o)
    let r := andThen r fun s => prepareSystemDNS lib req o (setPins lib req s)
    let r := andThen r (createBox o)
    let r := andThen r (applySystemDNS lib req o)
    andThen r (watchEgress req o)

/-- After any error the deferred function unpublishes the box and clears the mark. -/
def Start : State × Option String :=
  match startBody lib req o s with
  | (s, none) => (s, none)
  | (s, some e) => ({ s with boxInstance := none, autoRedirectMark := 0 }, some e)

end

/-! ## Stop -/

def stopWatch (s : State) : State :=
  { s.closeRef .watch s.stopEgressForwardingWatch with stopEgressForwardingWatch := none }

/-- `relayRestored` says how the call that restores the relay ends. -/
def restoreRelay (relayRestored : Bool) (s : State) : State :=
  if relayRestored then { s with relayOff := false } else s

/-- The part of `Stop` before the sidecars: the watch, the pins, the system DNS, the relay and the box,
which is unpublished before it is closed. -/
def stopBox (relayRestored : Bool) (box : Nat) (s : State) : State :=
  let s := { stopWatch s with pins := [] }
  let s := restoreRelay relayRestored (sysdnsRelease s)
  State.close { s with boxInstance := none } (.box box)

def Stop (relayRestored : Bool) (s : State) : State :=
  match s.boxInstance with
  | none => s
  | some box =>
    let s := closeXray (stopExtraProcess (stopBox relayRestored box s))
    { s with autoRedirectMark := 0 }

/-! ## Runs -/

inductive Request where
  | start (req : LoadConfigReq) (o : Outcomes)
  | stop (relayRestored : Bool)

def step (s : State) : Request → State
  | .start req o => (Start lib req o s).1
  | .stop relayRestored => Stop relayRestored s

/-! ## What the core has to keep track of -/

/-- The core holds a reference to the resource. -/
def Referenced (s : State) : Resource → Prop
  | .box handle => s.boxInstance = some handle
  | .process handle => ∃ p, s.extraProcess = some p ∧ p.handle = handle
  | .xray handle => s.xrayInstance = some handle
  | .gate handle => s.xrayGate = some handle ∨ handle ∈ s.xrayFullGates
  | .watch handle => s.stopEgressForwardingWatch = some handle

/-- What one request has to leave behind. A refused start leaves the running instance published with
its mark, and a later stop closes it; any other failed start leaves nothing; and whenever no box is
published, nothing runs. -/
def Keeps (s : State) : Request → Prop
  | .start req o =>
    (∀ box, s.boxInstance = some box → (Start lib req o s).1.boxInstance = some box ∧ (Start lib req o s).1.autoRedirectMark = s.autoRedirectMark ∧
      ∀ relayRestored, .box box ∉ (Stop relayRestored (Start lib req o s).1).live) ∧
    (s.boxInstance = none → (Start lib req o s).2.isSome → Idle (Start lib req o s).1) ∧
    ((Start lib req o s).1.boxInstance = none → Idle (Start lib req o s).1)
  | .stop relayRestored =>
    (Stop relayRestored s).boxInstance = none → Idle (Stop relayRestored s)

/-- The core never loses track of what it runs along a sequence of requests. -/
def TracksWhatRuns (requests : List Request) : Prop := Along (step lib) (Keeps lib) State.initial requests

variable (req : LoadConfigReq)

/-- The extra process cannot be started. -/
def extraFails (o : Outcomes) : Bool := req.needExtraProcess && (!(extraArgs lib req o).isOk || o.processStart.isSome)

/-- The Xray sidecar cannot be started. -/
def xrayFails (o : Outcomes) : Bool :=
  req.needXray &&
    if req.xrayLazyStart then o.startGate.isSome
    else o.createXrayInstance.isSome || o.prepareXray.isSome || o.xrayStart.isSome

/-- A gate of a full config cannot be started. -/
def fullGatesFail (o : Outcomes) : Bool := (fullGateOutcomes req.xrayFullConfigs o).any Option.isSome

/-- The system DNS or the box cannot be set up. -/
def lateFails (o : Outcomes) : Bool :=
  (takesSystemDNS lib req && o.sysdnsPrepare.isSome) || o.boxmainCreate.isSome || (takesSystemDNS lib req && o.sysdnsApply.isSome)

/-- A start that takes none of the exits that reset or forget something: no box is published, the
sidecar and the gates fail only without an extra process, and what comes after them fails only
without pinned addresses. -/
def NoForgottenExit (s : State) : Request → Prop
  | .start req o =>
    s.boxInstance = none ∧ (extraFails lib req o = false → (xrayFails req o || fullGatesFail req o → req.needExtraProcess = false) ∧
      ((xrayFails req o || fullGatesFail req o) = false → lateFails lib req o → pinTable lib (pinnedMap req.pinnedDomains) = []))
  | .stop _ => True

end

/-! ## Closing -/

@[simp] theorem mem_open (s : State) (r r' : Resource) :
    r' ∈ (s.open r).live ↔ r' = r ∨ r' ∈ s.live := mem_cons

@[simp] theorem mem_close (s : State) (r r' : Resource) : r' ∈ (s.close r).live ↔ r' ∈ s.live ∧ r' ≠ r := by
  simp [State.close]

theorem mem_closeRef (s : State) (mk : Nat → Resource) (ref : Option Nat) (r : Resource) :
    r ∈ (s.closeRef mk ref).live ↔ r ∈ s.live ∧ ∀ handle, ref = some handle → r ≠ mk handle := by
  cases ref with
  | none | some handle => simp [State.closeRef]

theorem mem_closeAll (mk : Nat → Resource) (handles : List Nat) : ∀ (s : State) (r : Resource),
    r ∈ (s.closeAll mk handles).live ↔ r ∈ s.live ∧ ∀ handle ∈ handles, r ≠ mk handle := by
  induction handles with
  | nil => simp [State.closeAll]
  | cons handle handles ih =>
    intro s r
    show r ∈ ((s.close (mk handle)).closeAll mk handles).live ↔ _
    rw [ih, mem_close, forall_mem_cons, and_assoc]

theorem mem_closeXray (s : State) (r : Resource) : r ∈ (closeXray s).live ↔ r ∈ s.live ∧ (∀ handle, s.xrayGate = some handle → r ≠ .gate handle) ∧
    (∀ handle ∈ s.xrayFullGates, r ≠ .gate handle) ∧ ∀ handle, s.xrayInstance = some handle → r ≠ .xray handle := by
  simp only [closeXray, mem_closeRef, mem_closeAll, and_assoc]

theorem mem_stopExtraProcess (s : State) (r : Resource) : r ∈ (stopExtraProcess s).live ↔
    r ∈ s.live ∧ ∀ p, s.extraProcess = some p → r ≠ .process p.handle := by
  unfold stopExtraProcess
  cases h : s.extraProcess with
  | none => simp
  | some p => simp [State.close]

/-- Closing touches neither the references nor the settings. -/
structure SameSettings (s s' : State) : Prop where
  boxInstance : s'.boxInstance = s.boxInstance
  pins : s'.pins = s.pins
  systemDNS : s'.systemDNS = s.systemDNS

theorem SameSettings.trans {a b c : State} (h : SameSettings a b) (h' : SameSettings b c) : SameSettings a c :=
  ⟨h'.boxInstance.trans h.boxInstance, h'.pins.trans h.pins, h'.systemDNS.trans h.systemDNS⟩

/-- Closing changes only what is alive. -/
theorem closeRef_eq (s : State) (mk : Nat → Resource) (ref : Option Nat) : s.closeRef mk ref = { s with live := (s.closeRef mk ref).live } := by
  cases ref with
  | none | some handle => rfl

theorem closeAll_eq (mk : Nat → Resource) (handles : List Nat) :
    ∀ s : State, s.closeAll mk handles = { s with live := (s.closeAll mk handles).live } := by
  induction handles with
  | nil => exact fun s => rfl
  | cons handle handles ih => exact fun s => ih (s.close (mk handle))

theorem sameSettings_closeRef (s : State) (mk : Nat → Resource) (ref : Option Nat) : SameSettings s (s.closeRef mk ref) := by
  rw [closeRef_eq]
  exact ⟨rfl, rfl, rfl⟩

theorem sameSettings_closeAll (s : State) (mk : Nat → Resource) (handles : List Nat) : SameSettings s (s.closeAll mk handles) := by
  rw [closeAll_eq]
  exact ⟨rfl, rfl, rfl⟩

theorem sameSettings_closeXray (s : State) : SameSettings s (closeXray s) := by
  have h : SameSettings s { s with xrayInstance := none, xrayGate := none, xrayFullGates := [] } :=
    ⟨rfl, rfl, rfl⟩
  exact ((h.trans (sameSettings_closeRef _ _ _)).trans (sameSettings_closeAll _ _ _)).trans (sameSettings_closeRef _ _ _)

theorem sameSettings_stopExtraProcess (s : State) : SameSettings s (stopExtraProcess s) := by
  unfold stopExtraProcess
  cases s.extraProcess with
  | none | some p => exact ⟨rfl, rfl, rfl⟩

theorem stopExtraProcess_xray (s : State) : (stopExtraProcess s).xrayGate = s.xrayGate ∧
    (stopExtraProcess s).xrayFullGates = s.xrayFullGates ∧ (stopExtraProcess s).xrayInstance = s.xrayInstance := by
  unfold stopExtraProcess
  cases s.extraProcess with
  | none | some p => exact ⟨rfl, rfl, rfl⟩

variable {s : State}

/-- Of what is referenced, only the box and the watch outlive the sidecars. -/
theorem mem_sidecarsClosed {r : Resource} (h : r ∈ (closeXray (stopExtraProcess s)).live) :
    r ∈ s.live ∧ (Referenced s r → (∃ handle, r = .box handle) ∨ ∃ handle, r = .watch handle) := by
  obtain ⟨hgate, hfull, hinst⟩ := stopExtraProcess_xray s
  rw [mem_closeXray, mem_stopExtraProcess, hgate, hfull, hinst] at h
  obtain ⟨⟨hlive, hprocess⟩, hgate, hfull, hinst⟩ := h
  refine ⟨hlive, fun href => ?_⟩
  cases r with
  | box handle => exact .inl ⟨handle, rfl⟩
  | watch handle => exact .inr ⟨handle, rfl⟩
  | process handle =>
    obtain ⟨p, hp, rfl⟩ := href
    exact absurd rfl (hprocess p hp)
  | xray handle => exact absurd rfl (hinst handle href)
  | gate handle =>
    rcases href with href | href
    · exact absurd rfl (hgate handle href)
    · exact absurd rfl (hfull handle href)

/-- Everything alive is referenced. -/
def Tracked (s : State) : Prop := ∀ r ∈ s.live, Referenced s r

/-- Everything alive is a referenced sidecar. -/
def Sidecars (s : State) : Prop := ∀ r ∈ s.live, Referenced s r ∧ (∀ handle, r ≠ .box handle) ∧ ∀ handle, r ≠ .watch handle

theorem live_stopSidecars (h : Sidecars s) : (stopSidecars s).live = [] := by
  apply eq_nil_iff_forall_not_mem.2
  intro r hr
  obtain ⟨hlive, hrest⟩ := mem_sidecarsClosed hr
  obtain ⟨href, hbox, hwatch⟩ := h r hlive
  rcases hrest href with ⟨handle, rfl⟩ | ⟨handle, rfl⟩
  · exact hbox handle rfl
  · exact hwatch handle rfl

theorem sameSettings_stopSidecars (s : State) : SameSettings (sysdnsRelease s) (stopSidecars s) :=
  (sameSettings_stopExtraProcess _).trans (sameSettings_closeXray _)

theorem stopWatch_facts (s : State) : SameSettings s (stopWatch s) ∧ (stopWatch s).extraProcess = s.extraProcess ∧
    (stopWatch s).xrayGate = s.xrayGate ∧ (stopWatch s).xrayFullGates = s.xrayFullGates ∧ (stopWatch s).xrayInstance = s.xrayInstance := by
  unfold stopWatch
  cases s.stopEgressForwardingWatch with
  | none | some handle => exact ⟨⟨rfl, rfl, rfl⟩, rfl, rfl, rfl, rfl⟩

theorem stopBox_facts (relayRestored : Bool) (box : Nat) (s : State) :
    (stopBox relayRestored box s).pins = [] ∧ (stopBox relayRestored box s).systemDNS = false ∧
    (stopBox relayRestored box s).boxInstance = none ∧ (stopBox relayRestored box s).extraProcess = s.extraProcess ∧
    (stopBox relayRestored box s).xrayGate = s.xrayGate ∧ (stopBox relayRestored box s).xrayFullGates = s.xrayFullGates ∧
    (stopBox relayRestored box s).xrayInstance = s.xrayInstance := by
  obtain ⟨-, hprocess, hgate, hfull, hinst⟩ := stopWatch_facts s
  cases relayRestored with
  | false | true => exact ⟨rfl, rfl, rfl, hprocess, hgate, hfull, hinst⟩

variable {box : Nat}

theorem mem_stopBox {relayRestored : Bool} {r : Resource} (h : r ∈ (stopBox relayRestored box s).live) : r ∈ s.live ∧ r ≠ .box box ∧
    ∀ handle, s.stopEgressForwardingWatch = some handle → r ≠ .watch handle := by
  have hwatch : r ∈ (stopWatch s).live ∧ r ≠ .box box := by
    cases relayRestored with
    | false | true => exact (mem_close _ _ _).1 h
  obtain ⟨hlive, hne⟩ := (mem_closeRef s .watch s.stopEgressForwardingWatch r).1 hwatch.1
  exact ⟨hlive, hwatch.2, hne⟩

/-- A stop of a published box takes down all that is tracked. -/
theorem idle_stop (hbox : s.boxInstance = some box) (h : Tracked s) (relayRestored : Bool) :
    Idle (Stop relayRestored s) ∧ (Stop relayRestored s).boxInstance = none := by
  obtain ⟨hpins, hdns, hnone, hprocess, hgate, hfull, hinst⟩ := stopBox_facts relayRestored box s
  have hsame := (sameSettings_stopExtraProcess (stopBox relayRestored box s)).trans (sameSettings_closeXray _)
  have hlive : (closeXray (stopExtraProcess (stopBox relayRestored box s))).live = [] := by
    apply eq_nil_iff_forall_not_mem.2
    intro r hr
    obtain ⟨hr, hrest⟩ := mem_sidecarsClosed hr
    obtain ⟨hr, hneBox, hneWatch⟩ := mem_stopBox hr
    have href := h r hr
    -- A sidecar is referenced after the box is down as it was before.
    cases r with
    | box handle =>
      have heq : box = handle := Option.some.inj (hbox.symm.trans href)
      exact hneBox (by rw [heq])
    | watch handle => exact hneWatch handle href rfl
    | process handle =>
      rcases hrest (by rw [Referenced, hprocess]; exact href) with ⟨_, heq⟩ | ⟨_, heq⟩ <;> cases heq
    | xray handle =>
      rcases hrest (by rw [Referenced, hinst]; exact href) with ⟨_, heq⟩ | ⟨_, heq⟩ <;> cases heq
    | gate handle =>
      rcases hrest (by rw [Referenced, hgate, hfull]; exact href) with ⟨_, heq⟩ | ⟨_, heq⟩ <;> cases heq
  rw [Stop, hbox]
  exact ⟨⟨hlive, hsame.pins.trans hpins, rfl, hsame.systemDNS.trans hdns⟩, hsame.boxInstance.trans hnone⟩

/-! ## The stages of a start -/

section Stages

variable (lib : Library) (req : LoadConfigReq) (o : Outcomes)

/-- The only thing alive is the referenced extra process. -/
def OnlyProcess (s : State) : Prop := ∀ r ∈ s.live, ∃ p, s.extraProcess = some p ∧ r = .process p.handle

/-- The extra process, the sidecar and its gate are all that is alive. -/
def NoFullGates (s : State) : Prop :=
  ∀ r ∈ s.live, (∃ p, s.extraProcess = some p ∧ r = .process p.handle) ∨ (∃ handle, s.xrayInstance = some handle ∧ r = .xray handle) ∨
    ∃ handle, s.xrayGate = some handle ∧ r = .gate handle

/-- The same processes are alive in both states. -/
def SameProcesses (s s' : State) : Prop := ∀ handle, .process handle ∈ s'.live ↔ .process handle ∈ s.live

variable {s : State}

theorem startExtraProcess_fails (hs : s.live = []) (h : extraFails lib req o = true) :
    (startExtraProcess lib req o s).2.isSome ∧ (startExtraProcess lib req o s).1.live = [] ∧
    SameSettings s (startExtraProcess lib req o s).1 := by
  unfold extraFails at h
  rw [Bool.and_eq_true] at h
  unfold startExtraProcess
  rw [if_pos h.1]
  cases hargs : extraArgs lib req o with
  | error e => exact ⟨rfl, hs, ⟨rfl, rfl, rfl⟩⟩
  | ok args =>
    have hp : o.processStart.isSome := by simpa [hargs, Except.isOk, Except.toBool] using h.2
    obtain ⟨e, he⟩ := Option.isSome_iff_exists.1 hp
    simp only [he]
    exact ⟨rfl, hs, ⟨rfl, rfl, rfl⟩⟩

theorem startExtraProcess_ok (hs : s.live = []) (h : extraFails lib req o = false) :
    (startExtraProcess lib req o s).2 = none ∧ OnlyProcess (startExtraProcess lib req o s).1 ∧
    SameSettings s (startExtraProcess lib req o s).1 ∧ (req.needExtraProcess = true → ∃ handle,
    .process handle ∈ (startExtraProcess lib req o s).1.live) ∧
    (req.needExtraProcess = false → (startExtraProcess lib req o s).1.live = []) := by
  unfold extraFails at h
  unfold startExtraProcess
  cases hneed : req.needExtraProcess with
  | false =>
    refine ⟨rfl, ?_, ⟨rfl, rfl, rfl⟩, by simp, fun _ => hs⟩
    intro r hr
    simp [hs] at hr
  | true =>
    rw [if_pos rfl]
    rw [hneed, Bool.true_and, Bool.or_eq_false_iff] at h
    cases hargs : extraArgs lib req o with
    | error e => simp [hargs, Except.isOk, Except.toBool] at h
    | ok args =>
      have hp : o.processStart = none := by simpa using h.2
      simp only [hp]
      refine ⟨trivial, ?_, ⟨rfl, rfl, rfl⟩, fun _ => ⟨s.nextHandle, mem_cons_self⟩, by simp⟩
      intro r hr
      rw [mem_open] at hr
      rcases hr with rfl | hr
      · exact ⟨_, rfl, rfl⟩
      · simp [hs] at hr

theorem startXray_fails (hs : OnlyProcess s) (h : xrayFails req o = true) :
    (startXray req o s).2.isSome ∧ SameSettings s (startXray req o s).1 ∧ (∀ r, r ∈ (startXray req o s).1.live ↔ r ∈ s.live) := by
  unfold xrayFails at h
  rw [Bool.and_eq_true] at h
  -- An instance that was opened and closed again is not one of those alive before.
  have hclosed : ∀ r, r ∈ ((s.open (.xray s.nextHandle)).close (.xray s.nextHandle)).live ↔ r ∈ s.live := by
    intro r
    rw [mem_close, mem_open]
    constructor
    · rintro ⟨rfl | hr, hne⟩
      · exact absurd rfl hne
      · exact hr
    · intro hr
      obtain ⟨p, -, rfl⟩ := hs r hr
      exact ⟨.inr hr, by simp⟩
  unfold startXray
  rw [if_pos h.1]
  cases hlazy : req.xrayLazyStart with
  | true =>
    rw [hlazy] at h
    obtain ⟨e, he⟩ := Option.isSome_iff_exists.1 h.2
    simp only [if_true, he]
    exact ⟨rfl, ⟨rfl, rfl, rfl⟩, fun _ => trivial⟩
  | false =>
    rw [hlazy] at h
    cases hcreate : o.createXrayInstance with
    | some e => exact ⟨rfl, ⟨rfl, rfl, rfl⟩, fun _ => Iff.rfl⟩
    | none =>
      cases hprepare : o.prepareXray with
      | some e => exact ⟨rfl, ⟨rfl, rfl, rfl⟩, hclosed⟩
      | none =>
        cases hstart : o.xrayStart with
        | some e => exact ⟨rfl, ⟨rfl, rfl, rfl⟩, hclosed⟩
        | none => simp [hcreate, hprepare, hstart] at h

theorem startXray_ok (hs : OnlyProcess s) (h : xrayFails req o = false) : (startXray req o s).2 = none ∧ NoFullGates (startXray req o s).1 ∧
    SameSettings s (startXray req o s).1 ∧ SameProcesses s (startXray req o s).1 := by
  unfold xrayFails at h
  unfold startXray
  cases hneed : req.needXray with
  | false =>
    exact ⟨rfl, fun r hr => .inl (hs r hr), ⟨rfl, rfl, rfl⟩, fun _ => Iff.rfl⟩
  | true =>
    rw [hneed, Bool.true_and] at h
    rw [if_pos rfl]
    cases hlazy : req.xrayLazyStart with
    | true =>
      have hgate : o.startGate = none := by simpa [hlazy] using h
      simp only [if_true, hgate]
      refine ⟨trivial, ?_, ⟨rfl, rfl, rfl⟩, fun _ => by simp [setXray]⟩
      intro r hr
      rcases (mem_open s _ r).1 hr with rfl | hr
      · exact .inr (.inr ⟨s.nextHandle, rfl, rfl⟩)
      · exact .inl (hs r hr)
    | false =>
      simp only [hlazy, Bool.false_eq_true, if_false, Bool.or_eq_false_iff, Option.isSome_eq_false_iff, Option.isNone_iff_eq_none] at h
      obtain ⟨⟨hcreate, hprepare⟩, hstart⟩ := h
      simp only [Bool.false_eq_true, if_false, hcreate, hprepare, hstart]
      refine ⟨trivial, ?_, ⟨rfl, rfl, rfl⟩, fun _ => by simp [setXray]⟩
      intro r hr
      rcases (mem_open s _ r).1 hr with rfl | hr
      · exact .inr (.inl ⟨s.nextHandle, rfl, rfl⟩)
      · exact .inl (hs r hr)

/-- Gates only add gates. -/
theorem startGates_facts (errs : List (Option String)) : ∀ s : State, SameSettings s (startGates errs s).2.2 ∧
    (startGates errs s).2.2.extraProcess = s.extraProcess ∧ (startGates errs s).2.2.xrayInstance = s.xrayInstance ∧
    (startGates errs s).2.2.xrayGate = s.xrayGate ∧ ((startGates errs s).2.1 = none ↔ errs.any Option.isSome = false) ∧
    ∀ r, r ∈ (startGates errs s).2.2.live ↔ r ∈ s.live ∨ ∃ handle ∈ (startGates errs s).1, r = .gate handle := by
  induction errs with
  | nil =>
    intro s
    refine ⟨⟨rfl, rfl, rfl⟩, rfl, rfl, rfl, by simp [startGates], ?_⟩
    intro r
    simp [startGates]
  | cons err errs ih =>
    intro s
    cases err with
    | some e =>
      obtain ⟨hsame, hprocess, hinst, hgate, -, hlive⟩ := ih s
      exact ⟨hsame, hprocess, hinst, hgate, by simp [startGates], hlive⟩
    | none =>
      obtain ⟨hsame, hprocess, hinst, hgate, herr, hlive⟩ := ih (s.open (.gate s.nextHandle))
      have hopen : SameSettings s (s.open (.gate s.nextHandle)) := ⟨rfl, rfl, rfl⟩
      refine ⟨hopen.trans hsame, hprocess, hinst, hgate, ?_, ?_⟩
      · rw [any_cons]
        exact herr
      · intro r
        show r ∈ (startGates errs (s.open (.gate s.nextHandle))).2.2.live ↔
          r ∈ s.live ∨ ∃ handle ∈ s.nextHandle :: (startGates errs _).1, r = .gate handle
        rw [hlive, mem_open, exists_mem_cons_iff]
        constructor
        · rintro ((hr | hr) | hr)
          · exact .inr (.inl hr)
          · exact .inl hr
          · exact .inr (.inr hr)
        · rintro (hr | hr | hr)
          · exact .inl (.inr hr)
          · exact .inl (.inl hr)
          · exact .inr hr

theorem startXrayFullGates_fails {configs : List String} (h : (fullGateOutcomes configs o).any Option.isSome = true) :
    ∃ e s', startXrayFullGates configs o s = (s', .error e) ∧ SameSettings s s' ∧
    s'.xrayGate = s.xrayGate ∧ s'.xrayInstance = s.xrayInstance ∧ (∀ r ∈ s'.live, r ∈ s.live) ∧ SameProcesses s s' := by
  unfold startXrayFullGates
  cases hout : fullGateOutcomes configs o with
  | nil => simp [hout] at h
  | cons err errs =>
    cases err with
    | some e => exact ⟨e, s, rfl, ⟨rfl, rfl, rfl⟩, rfl, rfl, fun _ hr => hr,
        fun _ => Iff.rfl⟩
    | none =>
      rw [hout] at h
      obtain ⟨hsame, -, hinst, hgate, herr, hlive⟩ := startGates_facts (none :: errs) s
      cases hfirst : (startGates (none :: errs) s).2.1 with
      | none =>
        rw [herr.1 hfirst] at h
        cases h
      | some e =>
        refine ⟨e, ((startGates (none :: errs) s).2.2).closeAll .gate (startGates (none :: errs) s).1,
          by simp only [hfirst], hsame.trans (sameSettings_closeAll _ _ _), ?_, ?_, ?_, ?_⟩
        · rw [closeAll_eq]
          exact hgate
        · rw [closeAll_eq]
          exact hinst
        · intro r hr
          obtain ⟨hr, hne⟩ := (mem_closeAll _ _ _ _).1 hr
          rcases (hlive r).1 hr with hr | ⟨handle, hmem, rfl⟩
          · exact hr
          · exact absurd rfl (hne handle hmem)
        · intro handle
          rw [mem_closeAll, hlive]
          simp

theorem startXrayFullGates_ok {configs : List String} (h : (fullGateOutcomes configs o).any Option.isSome = false) :
    ∃ gates s', startXrayFullGates configs o s = (s', .ok gates) ∧ SameSettings s s' ∧
    s'.extraProcess = s.extraProcess ∧ s'.xrayGate = s.xrayGate ∧ s'.xrayInstance = s.xrayInstance ∧
    ∀ r, r ∈ s'.live ↔ r ∈ s.live ∨ ∃ handle ∈ gates, r = .gate handle := by
  unfold startXrayFullGates
  cases hout : fullGateOutcomes configs o with
  | nil => exact ⟨[], s, rfl, ⟨rfl, rfl, rfl⟩, rfl, rfl, rfl, fun r => by simp⟩
  | cons err errs =>
    rw [hout] at h
    cases err with
    | some e => simp at h
    | none =>
      obtain ⟨hsame, hprocess, hinst, hgate, herr, hlive⟩ := startGates_facts (none :: errs) s
      exact ⟨_, _, by simp only [herr.2 h], hsame, hprocess, hgate, hinst, hlive⟩

theorem startFullGates_fails (hs : NoFullGates s) (h : fullGatesFail req o = true) :
    (startFullGates req o s).2.isSome ∧ SameSettings s (startFullGates req o s).1 ∧
    (∀ r ∈ (startFullGates req o s).1.live, r ∈ s.live ∧ ∃ handle, r = .process handle) ∧ SameProcesses s (startFullGates req o s).1 := by
  have hne : req.xrayFullConfigs ≠ [] := by
    intro hnil
    simp [fullGatesFail, fullGateOutcomes, hnil] at h
  obtain ⟨e, s', hres, hsame, hgate, hinst, hsub, hprocess⟩ := startXrayFullGates_fails o h (s := s)
  unfold startFullGates
  rw [if_neg hne, hres]
  refine ⟨rfl, hsame.trans (sameSettings_closeXray s'), ?_, ?_⟩
  · intro r hr
    rw [mem_closeXray, hgate, hinst] at hr
    obtain ⟨hr, hneGate, -, hneInst⟩ := hr
    refine ⟨hsub r hr, ?_⟩
    rcases hs r (hsub r hr) with ⟨p, -, rfl⟩ | ⟨handle, hhandle, rfl⟩ | ⟨handle, hhandle, rfl⟩
    · exact ⟨p.handle, rfl⟩
    · exact absurd rfl (hneInst handle hhandle)
    · exact absurd rfl (hneGate handle hhandle)
  · intro handle
    show _ ∈ (closeXray s').live ↔ _
    rw [mem_closeXray, hprocess handle]
    simp

theorem startFullGates_ok (hs : NoFullGates s) (h : fullGatesFail req o = false) :
    (startFullGates req o s).2 = none ∧ Sidecars (startFullGates req o s).1 ∧ SameSettings s (startFullGates req o s).1 := by
  unfold startFullGates
  by_cases hnil : req.xrayFullConfigs = []
  · rw [if_pos hnil]
    refine ⟨rfl, ?_, ⟨rfl, rfl, rfl⟩⟩
    intro r hr
    rcases hs r hr with ⟨p, hp, rfl⟩ | ⟨handle, hhandle, rfl⟩ | ⟨handle, hhandle, rfl⟩
    · exact ⟨⟨p, hp, rfl⟩, by simp, by simp⟩
    · exact ⟨hhandle, by simp, by simp⟩
    · exact ⟨.inl hhandle, by simp, by simp⟩
  · obtain ⟨gates, s', hres, hsame, hprocess, hgate, hinst, hlive⟩ :=
      startXrayFullGates_ok o h (s := s)
    rw [if_neg hnil, hres]
    refine ⟨rfl, ?_, ⟨hsame.boxInstance, hsame.pins, hsame.systemDNS⟩⟩
    intro r hr
    rcases (hlive r).1 hr with hr | ⟨handle, hmem, rfl⟩
    · rcases hs r hr with ⟨p, hp, rfl⟩ | ⟨handle, hhandle, rfl⟩ | ⟨handle, hhandle, rfl⟩
      · exact ⟨⟨p, hprocess.trans hp, rfl⟩, by simp, by simp⟩
      · exact ⟨hinst.trans hhandle, by simp, by simp⟩
      · exact ⟨.inl (hgate.trans hhandle), by simp, by simp⟩
    · exact ⟨.inr hmem, by simp, by simp⟩

/-- The stages after the sidecars. -/
def startRest (s : State) : State × Option String :=
  andThen (andThen (andThen (prepareSystemDNS lib req o (setPins lib req s)) (createBox o)) (applySystemDNS lib req o)) (watchEgress req o)

theorem stopSidecars_facts (hs : Sidecars s) : (stopSidecars s).live = [] ∧ (stopSidecars s).pins = s.pins ∧ (stopSidecars s).systemDNS = false :=
  ⟨live_stopSidecars hs, (sameSettings_stopSidecars s).pins, (sameSettings_stopSidecars s).systemDNS⟩

/-- A box that is closed again leaves the sidecars alone. -/
theorem sidecars_closeBox (hs : Sidecars s) : Sidecars ((sysdnsRelease { s.open (.box s.nextHandle) with
    boxInstance := some s.nextHandle }).closeRef .box (some s.nextHandle)) := by
  intro r hr
  rw [mem_closeRef] at hr
  obtain ⟨hr, hne⟩ := hr
  rcases (mem_open s _ r).1 hr with rfl | hr
  · exact absurd rfl (hne _ rfl)
  · obtain ⟨href, hbox, hwatch⟩ := hs r hr
    refine ⟨?_, hbox, hwatch⟩
    cases r with
    | box handle => exact absurd rfl (hbox handle)
    | watch handle => exact absurd rfl (hwatch handle)
    | process handle | xray handle | gate handle => exact href

theorem startRest_fails (hs : Sidecars s) (h : lateFails lib req o = true) : (startRest lib req o s).2.isSome ∧ (startRest lib req o s).1.live = [] ∧
    (startRest lib req o s).1.pins = pinTable lib (pinnedMap req.pinnedDomains) ∧ (startRest lib req o s).1.systemDNS = false := by
  unfold lateFails at h
  unfold startRest prepareSystemDNS applySystemDNS createBox
  cases htakes : takesSystemDNS lib req with
  | false =>
    rw [htakes] at h
    obtain ⟨e, he⟩ := Option.isSome_iff_exists.1 (by simpa using h : o.boxmainCreate.isSome)
    simp only [he, andThen, Bool.false_eq_true, if_false]
    exact ⟨rfl, stopSidecars_facts hs⟩
  | true =>
    rw [htakes] at h
    cases hprepare : o.sysdnsPrepare with
    | some e => exact ⟨rfl, stopSidecars_facts hs⟩
    | none =>
      cases hcreate : o.boxmainCreate with
      | some e => exact ⟨rfl, stopSidecars_facts hs⟩
      | none =>
        obtain ⟨e, he⟩ := Option.isSome_iff_exists.1 (by simpa [hprepare, hcreate] using h : o.sysdnsApply.isSome)
        simp only [he, andThen, if_true]
        exact ⟨rfl, stopSidecars_facts (sidecars_closeBox hs)⟩

/-- Everything alive but the box is a sidecar, and the box is published. -/
def BoxUp (s : State) : Prop := s.boxInstance.isSome ∧ ∀ r ∈ s.live, Referenced s r ∧ ∀ handle, r ≠ .watch handle

theorem boxUp_createBox (hs : Sidecars s) (h : o.boxmainCreate = none) : (createBox o s).2 = none ∧ BoxUp (createBox o s).1 := by
  unfold createBox
  rw [h]
  refine ⟨rfl, rfl, ?_⟩
  intro r hr
  rcases (mem_open s _ r).1 hr with rfl | hr
  · exact ⟨rfl, by simp⟩
  · obtain ⟨href, hbox, hwatch⟩ := hs r hr
    refine ⟨?_, hwatch⟩
    cases r with
    | box handle => exact absurd rfl (hbox handle)
    | watch handle => exact absurd rfl (hwatch handle)
    | process handle | xray handle | gate handle => exact href

theorem boxUp_applySystemDNS (hs : BoxUp s) (h : (takesSystemDNS lib req && o.sysdnsApply.isSome) = false) :
    (applySystemDNS lib req o s).2 = none ∧ BoxUp (applySystemDNS lib req o s).1 := by
  have hrelay : BoxUp (disableRelay req o s) := by
    unfold disableRelay
    cases req.disablePrivateRelay with
    | false => exact hs
    | true =>
      cases o.relayDisable with
      | none | some e => exact hs
  unfold applySystemDNS
  cases htakes : takesSystemDNS lib req with
  | false => exact ⟨rfl, hs⟩
  | true =>
    have happly : o.sysdnsApply = none := by simpa [htakes] using h
    simp only [if_true, happly]
    exact ⟨trivial, hrelay⟩

/-- The watch joins what is tracked; nothing alive was a watch before. -/
theorem tracked_watchEgress (hs : BoxUp s) :
    (watchEgress req o s).2 = none ∧ (watchEgress req o s).1.boxInstance.isSome ∧ Tracked (watchEgress req o s).1 := by
  have hold : ∀ watch, ∀ r ∈ s.live, Referenced { s with stopEgressForwardingWatch := watch } r := by
    intro watch r hr
    obtain ⟨href, hne⟩ := hs.2 r hr
    cases r with
    | watch handle => exact absurd rfl (hne handle)
    | box handle | process handle | xray handle | gate handle => exact href
  unfold watchEgress
  by_cases htun : req.tunIpv4Cidr ≠ ""
  · rw [if_pos htun]
    cases o.watchEgressForwarding with
    | false => exact ⟨rfl, hs.1, hold none⟩
    | true =>
      refine ⟨rfl, hs.1, ?_⟩
      intro r hr
      rcases (mem_open s _ r).1 hr with rfl | hr
      · rfl
      · have href := hold (some s.nextHandle) r hr
        cases r with
        | watch handle | box handle | process handle | xray handle | gate handle => exact href
  · rw [if_neg htun]
    exact ⟨rfl, hs.1, fun r hr => (hs.2 r hr).1⟩

theorem andThen_none {r : State × Option String} (h : r.2 = none) (stage : State → State × Option String) : andThen r stage = stage r.1 := by
  unfold andThen
  rw [h]

theorem andThen_some {r : State × Option String} (h : r.2.isSome) (stage : State → State × Option String) : andThen r stage = r := by
  obtain ⟨s, err⟩ := r
  obtain ⟨e, rfl⟩ := Option.isSome_iff_exists.1 h
  rfl

theorem startRest_ok (hs : Sidecars s) (h : lateFails lib req o = false) :
    (startRest lib req o s).2 = none ∧ (startRest lib req o s).1.boxInstance.isSome ∧ Tracked (startRest lib req o s).1 := by
  unfold lateFails at h
  rw [Bool.or_eq_false_iff, Bool.or_eq_false_iff] at h
  obtain ⟨⟨hprepare, hcreate⟩, happly⟩ := h
  have hprepared : (prepareSystemDNS lib req o (setPins lib req s)).2 = none ∧ Sidecars (prepareSystemDNS lib req o (setPins lib req s)).1 := by
    unfold prepareSystemDNS
    cases htakes : takesSystemDNS lib req with
    | false => exact ⟨rfl, hs⟩
    | true =>
      have hnone : o.sysdnsPrepare = none := by simpa [htakes] using hprepare
      simp only [if_true, hnone]
      exact ⟨trivial, hs⟩
  obtain ⟨hcreated, hbox⟩ := boxUp_createBox o hprepared.2 (by simpa using hcreate)
  obtain ⟨happlied, hbox⟩ := boxUp_applySystemDNS lib req o hbox happly
  unfold startRest
  rw [andThen_none hprepared.1, andThen_none hcreated, andThen_none happlied]
  exact tracked_watchEgress req o hbox

theorem startBody_eq (hbox : s.boxInstance = none) : startBody lib req o s = andThen (andThen (andThen (startExtraProcess lib req o s) fun s =>
      startXray req o (storeMark lib req s)) (startFullGates req o)) (startRest lib req o) := by
  unfold startBody
  rw [hbox, Option.isSome_none, if_neg Bool.false_ne_true]
  simp only
  generalize andThen (andThen (startExtraProcess lib req o s) fun s =>
    startXray req o (storeMark lib req s)) (startFullGates req o) = r
  obtain ⟨s', err⟩ := r
  cases err with
  | none | some e => rfl

end Stages

variable {req : LoadConfigReq}

/-- A failed start from an idle state is idle again exactly when nothing is left alive or pinned. -/
theorem start_failed {lib : Library} {o : Outcomes} (herr : (startBody lib req o s).2.isSome) (hdns : (startBody lib req o s).1.systemDNS = false) :
    (Start lib req o s).2.isSome ∧ (Start lib req o s).1.boxInstance = none ∧ (Idle (Start lib req o s).1 ↔
    (startBody lib req o s).1.live = [] ∧ (startBody lib req o s).1.pins = []) := by
  unfold Start
  generalize startBody lib req o s = r at *
  obtain ⟨s', err⟩ := r
  obtain ⟨e, rfl⟩ := Option.isSome_iff_exists.1 herr
  refine ⟨rfl, rfl, ?_⟩
  constructor
  · exact fun h => ⟨h.live, h.pins⟩
  · exact fun h => ⟨h.1, h.2, rfl, hdns⟩

theorem start_ok {lib : Library} {o : Outcomes} (h : (startBody lib req o s).2 = none) : Start lib req o s = startBody lib req o s := by
  unfold Start
  generalize startBody lib req o s = r at *
  obtain ⟨s', err⟩ := r
  have herr : err = none := h
  subst herr
  rfl

/-- When a sidecar fails, what stays alive is the extra process, if there is one. -/
theorem sidecar_failed (s' : State) (hyes : req.needExtraProcess = true → ∃ handle, .process handle ∈ s.live)
    (hno : req.needExtraProcess = false → s.live = []) (honly : ∀ r ∈ s'.live, ∃ handle, r = .process handle) (hsame : SameProcesses s s') :
    s'.live = [] ↔ req.needExtraProcess = false := by
  constructor
  · intro hnil
    cases hneed : req.needExtraProcess with
    | false => rfl
    | true =>
      obtain ⟨handle, hlive⟩ := hyes hneed
      rw [← hsame handle, hnil] at hlive
      cases hlive
  · intro hneed
    apply eq_nil_iff_forall_not_mem.2
    intro r hr
    obtain ⟨handle, rfl⟩ := honly r hr
    rw [hsame handle, hno hneed] at hr
    exact not_mem_nil hr

/-- How a start from an idle state ends: with an error and idle again under the condition of the
exit, or with a published box and everything tracked. -/
theorem start_spec (lib : Library) (req : LoadConfigReq) (o : Outcomes) (hidle : Idle s) (hbox : s.boxInstance = none) :
    ((Start lib req o s).2.isSome ∧ (Start lib req o s).1.boxInstance = none ∧
    (Idle (Start lib req o s).1 ↔ NoForgottenExit lib s (.start req o))) ∨
    ((Start lib req o s).2 = none ∧ (Start lib req o s).1.boxInstance.isSome ∧
    Tracked (Start lib req o s).1 ∧ NoForgottenExit lib s (.start req o)) := by
  have hbody := startBody_eq lib req o hbox
  cases hextra : extraFails lib req o with
  | true =>
    obtain ⟨herr, hlive, hsame⟩ := startExtraProcess_fails lib req o hidle.live hextra
    rw [andThen_some herr, andThen_some herr, andThen_some herr] at hbody
    have hpins : (startBody lib req o s).1.pins = [] := by rw [hbody, hsame.pins, hidle.pins]
    obtain ⟨hfail, hnone, hiff⟩ := start_failed (by rw [hbody]; exact herr) (by rw [hbody, hsame.systemDNS, hidle.systemDNS])
    left
    refine ⟨hfail, hnone, hiff.trans ?_⟩
    rw [hpins, hbody]
    simp [NoForgottenExit, hbox, hextra, hlive]
  | false =>
    obtain ⟨hnone, honly, hsame, hyes, hno⟩ := startExtraProcess_ok lib req o hidle.live hextra
    rw [andThen_none hnone] at hbody
    have honly' : OnlyProcess (storeMark lib req (startExtraProcess lib req o s).1) := honly
    have hsame' : SameSettings s (storeMark lib req (startExtraProcess lib req o s).1) := ⟨hsame.boxInstance, hsame.pins, hsame.systemDNS⟩
    cases hxray : xrayFails req o with
    | true =>
      obtain ⟨herr, hsame'', hlive⟩ := startXray_fails req o honly' hxray
      rw [andThen_some herr, andThen_some herr] at hbody
      have hleft := sidecar_failed (startBody lib req o s).1 hyes hno (fun r hr => by
          rw [hbody, hlive] at hr
          obtain ⟨p, -, rfl⟩ := honly r hr
          exact ⟨p.handle, rfl⟩)
        (fun handle => by rw [hbody, hlive]; exact Iff.rfl)
      have hpins : (startBody lib req o s).1.pins = [] := by
        rw [hbody, hsame''.pins, hsame'.pins, hidle.pins]
      obtain ⟨hfail, hnobox, hiff⟩ := start_failed (by rw [hbody]; exact herr) (by rw [hbody, hsame''.systemDNS, hsame'.systemDNS, hidle.systemDNS])
      left
      refine ⟨hfail, hnobox, hiff.trans ?_⟩
      rw [hpins, hleft]
      simp [NoForgottenExit, hbox, hextra, hxray]
    | false =>
      obtain ⟨hnone', hfull, hsame'', hprocess⟩ := startXray_ok req o honly' hxray
      rw [andThen_none hnone'] at hbody
      cases hgates : fullGatesFail req o with
      | true =>
        obtain ⟨herr, hsame3, hlive, hprocess'⟩ := startFullGates_fails req o hfull hgates
        rw [andThen_some herr] at hbody
        have hleft := sidecar_failed (startBody lib req o s).1 hyes hno (fun r hr => by rw [hbody] at hr; exact (hlive r hr).2)
          (fun handle => by rw [hbody, hprocess', hprocess]; exact Iff.rfl)
        have hpins : (startBody lib req o s).1.pins = [] := by
          rw [hbody, hsame3.pins, hsame''.pins, hsame'.pins, hidle.pins]
        obtain ⟨hfail, hnobox, hiff⟩ := start_failed (by rw [hbody]; exact herr)
          (by rw [hbody, hsame3.systemDNS, hsame''.systemDNS, hsame'.systemDNS, hidle.systemDNS])
        left
        refine ⟨hfail, hnobox, hiff.trans ?_⟩
        rw [hpins, hleft]
        simp [NoForgottenExit, hbox, hextra, hgates]
      | false =>
        obtain ⟨hnone3, hside, hsame3⟩ := startFullGates_ok req o hfull hgates
        rw [andThen_none hnone3] at hbody
        cases hlate : lateFails lib req o with
        | true =>
          obtain ⟨herr, hlive, hpins, hdns⟩ := startRest_fails lib req o hside hlate
          obtain ⟨hfail, hnobox, hiff⟩ := start_failed (by rw [hbody]; exact herr) (by rw [hbody]; exact hdns)
          left
          refine ⟨hfail, hnobox, hiff.trans ?_⟩
          rw [hbody, hlive, hpins]
          simp [NoForgottenExit, hbox, hextra, hxray, hgates, hlate]
        | false =>
          obtain ⟨hok, hup, htracked⟩ := startRest_ok lib req o hside hlate
          rw [start_ok (by rw [hbody]; exact hok), hbody]
          refine .inr ⟨hok, hup, htracked, ?_⟩
          simp [NoForgottenExit, hbox, hxray, hgates, hlate]

/-! ## Runs of requests -/

/-- Without a published box nothing runs; with one, everything that runs is referenced. -/
def Inv (s : State) : Prop := (s.boxInstance = none → Idle s) ∧ (s.boxInstance.isSome → Tracked s)

/-- A start while a box is published unpublishes it. -/
theorem start_refused (lib : Library) (req : LoadConfigReq) (o : Outcomes) (hbox : s.boxInstance = some box) : Start lib req o s =
    ({ s with boxInstance := none, autoRedirectMark := 0 }, some "instance already started") := by
  simp [Start, startBody, hbox]

theorem stop_spec (hs : Inv s) (relayRestored : Bool) : Idle (Stop relayRestored s) ∧ (Stop relayRestored s).boxInstance = none := by
  cases hbox : s.boxInstance with
  | none =>
    rw [Stop, hbox]
    exact ⟨hs.1 hbox, hbox⟩
  | some box => exact idle_stop hbox (hs.2 (by rw [hbox]; rfl)) relayRestored

theorem keeps_iff (lib : Library) (s : State) (r : Request) (hs : Inv s) : Keeps lib s r ↔ NoForgottenExit lib s r := by
  cases r with
  | stop relayRestored => exact iff_of_true (fun _ => (stop_spec hs relayRestored).1) trivial
  | start req o =>
    cases hbox : s.boxInstance with
    | some box =>
      -- The refused start unpublishes the running box, which neither side allows.
      refine iff_of_false ?_ ?_
      · intro h
        have hpublished := (h.1 box hbox).1
        rw [start_refused lib req o hbox] at hpublished
        cases hpublished
      · intro h
        have hnone : s.boxInstance = none := h.1
        rw [hbox] at hnone
        cases hnone
    | none =>
      rcases start_spec lib req o (hs.1 hbox) hbox with ⟨herr, hnone, hiff⟩ | ⟨hok, hup, -, hcond⟩
      · constructor
        · exact fun h => hiff.1 (h.2.1 hbox herr)
        · intro h
          refine ⟨fun box hsome => ?_, fun _ _ => hiff.2 h, fun _ => hiff.2 h⟩
          rw [hbox] at hsome
          cases hsome
      · refine iff_of_true ⟨fun box hsome => ?_, fun _ herr => ?_, fun hnone => ?_⟩ hcond
        · rw [hbox] at hsome
          cases hsome
        · rw [hok] at herr
          cases herr
        · rw [hnone] at hup
          cases hup

theorem inv_step (lib : Library) (s : State) (r : Request) (hs : Inv s) (h : Keeps lib s r) : Inv (step lib s r) := by
  cases r with
  | stop relayRestored =>
    obtain ⟨hidle, hnone⟩ := stop_spec hs relayRestored
    refine ⟨fun _ => hidle, fun hsome => ?_⟩
    rw [show (step lib s (.stop relayRestored)).boxInstance = none from hnone] at hsome
    cases hsome
  | start req o =>
    refine ⟨h.2.2, fun hsome => ?_⟩
    have hbox : s.boxInstance = none := ((keeps_iff lib s _ hs).1 h).1
    rcases start_spec lib req o (hs.1 hbox) hbox with ⟨-, hnone, -⟩ | ⟨-, -, htracked, -⟩
    · rw [show (step lib s (.start req o)).boxInstance = none from hnone] at hsome
      cases hsome
    · exact htracked

theorem inv_initial : Inv State.initial :=
  ⟨fun _ => ⟨rfl, rfl, rfl, rfl⟩, nofun⟩

/-- The core keeps track of what it runs along a sequence of requests exactly when no start of the
sequence takes an exit that resets or forgets something. -/
theorem tracksWhatRuns_iff (lib : Library) (requests : List Request) : TracksWhatRuns lib requests ↔
    Along (step lib) (NoForgottenExit lib) State.initial requests :=
  along_iff (inv_step lib) (keeps_iff lib) requests State.initial inv_initial

/-- A library on Linux whose configs carry the mark 8227 and whose texts parse. -/
def plainLibrary : Library where
  darwin := false
  shlexSplit text := .ok [text]
  sprintf _ confPath := confPath
  toLower text := text
  netip := ⟨fun text => if text = "192.0.2.1" then some (.v4 (BitVec.ofNat 32 0xc0000201), "") else none,
    fun _ => none⟩
  autoRedirectMarkFor _ := 8227

/-- A profile with an extra process, an Xray sidecar and a pinned name. -/
def fullRequest : LoadConfigReq where
  coreConfig := ""
  needExtraProcess := true
  extraProcessArgs := "run"
  extraProcessConf := none
  extraProcessPath := "/usr/bin/extra"
  extraNoOut := false
  needXray := true
  xrayLazyStart := false
  xrayFullConfigs := []
  pinnedDomains := [("relay.example", ["192.0.2.1"])]
  tunIpv4Cidr := "172.19.0.1/24"
  disablePrivateRelay := false

/-- Every library call succeeds. -/
def allSucceed : Outcomes where
  createExtraConfig := .ok ("/tmp/extra.conf", "/tmp/extra")
  processStart := none
  startGate := none
  createXrayInstance := none
  prepareXray := none
  xrayStart := none
  startFullGate _ := none
  sysdnsPrepare := none
  boxmainCreate := none
  sysdnsApply := none
  relayDisable := none
  watchEgressForwarding := false

/-- A second start unpublishes the running box; an Xray config that is refused leaves the extra
process running; a box that cannot be created leaves the addresses pinned. -/
theorem start_forgets : ¬ TracksWhatRuns plainLibrary [.start fullRequest allSucceed, .start fullRequest allSucceed] ∧
    ¬ TracksWhatRuns plainLibrary [.start fullRequest { allSucceed with createXrayInstance := some "invalid config" }] ∧
    ¬ TracksWhatRuns plainLibrary [.start fullRequest { allSucceed with boxmainCreate := some "decode config" }] := by
  refine ⟨?_, ?_, ?_⟩
  · rintro ⟨-, h, -⟩
    have hpublished := (h.1 2 (by decide)).1
    cases hpublished
  · rintro ⟨h, -⟩
    have hidle := h.2.1 rfl (by decide)
    exact absurd hidle.live (by decide)
  · rintro ⟨h, -⟩
    have hidle := h.2.1 rfl (by decide)
    exact absurd hidle.pins (by decide)

end Throne.Core.Rpc
