import Mathlib.Data.List.Basic

/-!
# The scan worker

`runChunks` walks the positions of a scan in chunks. The core probes a chunk, candidates may be tested
through a config, a rescan tests failures again (`confirmFailures`), a guard asks whether the network is
up before failures count, and then hits are stored, dead entries of a rescan are removed, the cursor is
moved and the progress is saved.

Everything the worker does not decide is an input: an `Env` gives the answer of the call made at each
tick (probe, config build, config test, network check, store) and says whether a stop was requested or
persistence was switched off by then. `stop_` and `persist_` never change back. Each chunk leaves a
`ChunkLog` of what was asked, answered, removed and saved.
-/

namespace Throne.Scanner

/-! ## Entries -/

structure IpListEntry where
  cidr : String
  port : Int
  latencyMs : Int
  deriving DecidableEq

def scanWorkerIsIpv6 (entry : IpListEntry) : Bool := entry.cidr.toList.contains ':'

def scanWorkerHasFamily (entries : List IpListEntry) (ipv6 : Bool) : Bool :=
  entries.any fun entry => scanWorkerIsIpv6 entry == ipv6

/-- Whether a text contains another. -/
def containsChars (needle : List Char) : List Char → Bool
  | [] => needle.isEmpty
  | c :: rest => needle.isPrefixOf (c :: rest) || containsChars needle rest

def containsText (text needle : String) : Bool := containsChars needle.toList text.toList

def scanWorkerIsAborted (error : String) : Bool := containsText error "test aborted" || containsText error "context canceled"

def scanWorkerIsStopped (error : String) : Bool := containsText error "scan stopped"

/-! ## Answers -/

structure ScanProbeResult where
  address : String
  port : Int
  probePort : Int
  passed : Bool
  localFailure : Bool
  httpMs : Int
  tlsMs : Int
  tcpMs : Int
  icmpMs : Int

/-- The answer to `ScanProbe`. -/
structure ScanProbeResponse where
  ok : Bool
  coreError : String
  error : String
  results : List ScanProbeResult
  nextCursor : Nat
  aborted : Bool

/-- What `BuildScanTestConfig` makes of a batch. -/
structure ScanTestBuild where
  error : String
  unsupported : List Int
  outboundTags : List String
  tag2target : List (String × Int)

structure URLTestResult where
  outboundTag : String
  error : String
  latencyMs : Int

/-- The answer to `ScanURLTest`; `vpnStatus` lists the tags whose tunnel is connected. -/
structure ScanURLTestResponse where
  ok : Bool
  coreError : String
  vpnStatus : List String
  results : List URLTestResult

/-- The settings of a scan that `runChunks` reads, and the functions it takes from elsewhere. -/
structure Config where
  rescan : Bool
  configPhase : Bool
  httpEnabled : Bool
  tcpEnabled : Bool
  icmpEnabled : Bool
  basePort : Int
  subBatch : Nat
  stopAfter : Int
  total : Nat
  resultId : Option Nat
  normalizeCidr : String → String

/-- Everything the worker does not decide, by tick. -/
structure Env where
  stopRequested : Nat → Bool
  persistDisabled : Nat → Bool
  scanProbe : Nat → ScanProbeResponse
  buildScanTestConfig : Nat → ScanTestBuild
  scanURLTest : Nat → ScanURLTestResponse
  scanCheckNetwork : Nat → Bool × Bool
  /-- Whether a call of `UpsertEntries` stores all it is given. -/
  upsertEntries : Nat → Bool
  removeEntries : Nat → Nat
  entryCount : Nat → Nat

structure State where
  tick : Nat
  stop : Bool
  persist : Bool
  cursor : Nat
  found : Int
  removed : Int
  /-- What `UpsertEntries` has stored. -/
  stored : List IpListEntry

/-- The next tick, at which one call is made or one flag is read. -/
def State.next (s : State) : State := { s with tick := s.tick + 1 }

variable {s : State}

section

variable (env : Env)

/-- A read of `stop_`. -/
def readStop (s : State) : Bool × State :=
  let stop := s.stop || env.stopRequested s.tick
  (stop, { s.next with stop := stop })

/-- A read of `persist_`. -/
def readPersist (s : State) : Bool × State :=
  let persist := s.persist && !env.persistDisabled s.tick
  (persist, { s.next with persist := persist })

/-- An error that says the scan was stopped raises `stop_`. -/
def noteStopped (error : String) (s : State) : State :=
  if scanWorkerIsStopped error then { s with stop := true } else s

/-! ## One test of a chunk -/

structure ProbeOutcome where
  address : String
  port : Int
  probePort : Int
  latencyMs : Int

structure ChunkResult where
  hits : List IpListEntry
  replaced : List IpListEntry
  failures : List IpListEntry
  localFailures : List IpListEntry
  aborted : Bool
  error : String

def ChunkResult.empty : ChunkResult := ⟨[], [], [], [], false, ""⟩

variable (cfg : Config)

def scanWorkerEntry (address : String) (port latencyMs : Int) : IpListEntry :=
  let canonical := cfg.normalizeCidr address
  ⟨if canonical = "" then address else canonical, port, latencyMs⟩

def scanWorkerProbeLatency (item : ScanProbeResult) : Int :=
  if cfg.httpEnabled && 0 < item.httpMs then item.httpMs
  else if cfg.httpEnabled && 0 < item.tlsMs then item.tlsMs
  else if cfg.tcpEnabled && 0 < item.tcpMs then item.tcpMs
  else if cfg.icmpEnabled then item.icmpMs
  else 0

/-- A hit under another port replaces the stored row of a rescan. -/
def addHit (result : ChunkResult) (candidate : ProbeOutcome) (port latencyMs : Int) :
    ChunkResult :=
  { result with
    hits := result.hits ++ [scanWorkerEntry cfg candidate.address port latencyMs]
    replaced :=
      if cfg.rescan && port ≠ candidate.port then
        result.replaced ++ [scanWorkerEntry cfg candidate.address candidate.port 0]
      else result.replaced }

def addFailure (result : ChunkResult) (address : String) (port : Int) : ChunkResult :=
  { result with failures := result.failures ++ [scanWorkerEntry cfg address port 0] }

/-- Sort the items of a probe answer: candidates are collected, failures join the result. -/
def sortItem (acc : List ProbeOutcome × ChunkResult) (item : ScanProbeResult) : List ProbeOutcome × ChunkResult :=
  let outcome : ProbeOutcome :=
    ⟨item.address, item.port, item.probePort, scanWorkerProbeLatency cfg item⟩
  if item.passed then (acc.1 ++ [outcome], acc.2)
  else if item.localFailure then
    (acc.1, { acc.2 with
      localFailures := acc.2.localFailures ++ [scanWorkerEntry cfg outcome.address outcome.port 0] })
  else (acc.1, addFailure cfg acc.2 outcome.address outcome.port)

variable (candidates : List ProbeOutcome)

def addProbeHits (result : ChunkResult) :
    ChunkResult :=
  candidates.foldl (fun result c =>
    addHit cfg result c (if 0 < c.probePort then c.probePort else c.port) c.latencyMs) result

/-- The candidate an index stands for. -/
def candidateAt (batch : List ProbeOutcome) (index : Int) : Option ProbeOutcome :=
  if index < 0 then none else batch[index.toNat]?

/-- The items of a config test that count: the first one of each index of the batch. -/
def acceptedItems (build : ScanTestBuild) (batch : List ProbeOutcome) : List Int → List URLTestResult → List (Int × ProbeOutcome × URLTestResult)
  | _, [] => []
  | reported, item :: items =>
    let index := (build.tag2target.lookup item.outboundTag).getD (-1)
    match candidateAt batch index with
    | none => acceptedItems build batch reported items
    | some candidate =>
      if index ∈ reported then acceptedItems build batch reported items
      else (index, candidate, item) :: acceptedItems build batch (index :: reported) items

/-- Some item was aborted or some tag was not reported. -/
def cutShortItems (build : ScanTestBuild) (batch : List ProbeOutcome) (response : ScanURLTestResponse) : Bool :=
  let accepted := acceptedItems build batch [] response.results
  accepted.any (fun a => a.2.2.error ≠ "" && scanWorkerIsAborted a.2.2.error) || build.tag2target.any fun t => (accepted.map (·.1)).all (· ≠ t.2)

def applyItem (tunnelsUp : List String) (result : ChunkResult) (item : Int × ProbeOutcome × URLTestResult) : ChunkResult :=
  let candidate := item.2.1
  let configPort := if 0 < candidate.port then candidate.port else cfg.basePort
  if item.2.2.error = "" then addHit cfg result candidate configPort item.2.2.latencyMs
  else if scanWorkerIsAborted item.2.2.error then { result with aborted := true }
  else if item.2.2.outboundTag ∈ tunnelsUp then addHit cfg result candidate configPort 0
  else addFailure cfg result candidate.address candidate.port

def addUnsupported (batch : List ProbeOutcome) (result : ChunkResult) (index : Int) :
    ChunkResult :=
  match candidateAt batch index with
  | none => result
  | some candidate => addFailure cfg result candidate.address candidate.port

/-- The answer to one config test, with what was asked. -/
structure UrlAnswer where
  build : ScanTestBuild
  batch : List ProbeOutcome
  response : ScanURLTestResponse

/-- The answers of the core to one test of a chunk. -/
structure TestAnswers where
  probe : ScanProbeResponse
  urls : List UrlAnswer

/-- The core says that a test was cut short: the probe was aborted, or a config test has an aborted
item or lacks a tag. -/
def TestAnswers.cutShort (a : TestAnswers) : Bool :=
  a.probe.aborted || a.urls.any fun u => u.response.ok && cutShortItems u.build u.batch u.response

/-- The body of the loop in `testConfigs`: `some` is a return with that error. -/
def testBatch (batch : List ProbeOutcome) (result : ChunkResult) (s : State) : Option String × ChunkResult × List UrlAnswer × State :=
  let (stop, s) := readStop env s
  if stop then (some "", { result with aborted := true }, [], s)
  else
    let build := env.buildScanTestConfig s.tick
    let s := s.next
    if build.error ≠ "" then (some build.error, result, [], s)
    else
      let result := build.unsupported.foldl (addUnsupported cfg batch) result
      if build.outboundTags = [] then (none, result, [], s)
      else
        let response := env.scanURLTest s.tick
        let s := s.next
        let answer : UrlAnswer := ⟨build, batch, response⟩
        if response.ok then
          let accepted := acceptedItems build batch [] response.results
          let result := accepted.foldl (applyItem cfg response.vpnStatus) result
          let unreported := build.tag2target.any fun t => (accepted.map (·.1)).all (· ≠ t.2)
          (none, { result with aborted := result.aborted || unreported }, [answer], s)
        else
          let (stop, s) := readStop env (noteStopped response.coreError s)
          if stop then (some "", { result with aborted := true }, [answer], s)
          else if response.coreError = "" then
            (some "The core did not answer the config test", result, [answer], s)
          else (some response.coreError, result, [answer], s)

def testConfigs (env : Env) (cfg : Config) : List (List ProbeOutcome) → ChunkResult → State → String × ChunkResult × List UrlAnswer × State
  | [], result, s => ("", result, [], s)
  | batch :: batches, result, s =>
    match testBatch env cfg batch result s with
    | (some error, result, answers, s) => (error, result, answers, s)
    | (none, result, answers, s) =>
      let (error, result, more, s) := testConfigs env cfg batches result s
      (error, result, answers ++ more, s)

/-- The end of a test whose probe failed. The positions of a call cut short stay unfinished, so its
failures prove nothing; its hits count unless they still have to pass the config test. -/
def failedProbe (response : ScanProbeResponse) (candidates : List ProbeOutcome) (result : ChunkResult) (s : State) : ChunkResult × State :=
  let result := { result with failures := [], localFailures := [] }
  let result := if cfg.configPhase then result else addProbeHits cfg candidates result
  let error := if response.ok then response.error else response.coreError
  let (stop, s) := readStop env (noteStopped error s)
  if stop then ({ result with aborted := true }, s)
  else
    let error := if error = "" then "The core did not answer the probe request" else error
    ({ result with error := error }, s)

/-- The end of a test whose probe was answered: the candidates are hits, or go to the config test. -/
def answeredProbe (result : ChunkResult) (s : State) : ChunkResult × List UrlAnswer × State :=
  if !cfg.configPhase then (addProbeHits cfg candidates result, [], s)
  else if candidates.isEmpty then (result, [], s)
  else if result.aborted then (result, [], s)
  else
    let (stop, s) := readStop env s
    if stop then ({ result with aborted := true }, [], s)
    else
      let (error, result, urls, s) := testConfigs env cfg (candidates.toChunks cfg.subBatch) result s
      ({ result with error := error }, urls, s)

/-- One test of a chunk: its result, the answers it got, and where it says the next chunk starts. -/
def runChunk (chunkStart nextCursor : Nat) (s : State) : ChunkResult × TestAnswers × Nat × State :=
  let response := env.scanProbe s.tick
  let s := s.next
  let (candidates, result) := response.results.foldl (sortItem cfg) ([], ChunkResult.empty)
  if !response.ok || response.error ≠ "" then
    let (result, s) := failedProbe env cfg response candidates result s
    (result, ⟨response, []⟩, nextCursor, s)
  else
    let (result, urls, s) :=
      answeredProbe env cfg candidates { result with aborted := response.aborted } s
    (result, ⟨response, urls⟩, max chunkStart response.nextCursor, s)

/-! ## Testing failures again -/

def kScanWorkerRescanRetries : Nat := 5

/-- One re-test: the failures it was asked about and its result. -/
structure Retest where
  asked : List IpListEntry
  result : ChunkResult

/-- The rounds of `confirmFailures` that are left. -/
def confirmRounds (env : Env) (cfg : Config) (chunkStart : Nat) : Nat → ChunkResult → Nat → State → ChunkResult × Nat × List Retest × State
  | 0, result, next, s => (result, next, [], s)
  | rounds + 1, result, next, s =>
    if result.failures = [] then (result, next, [], s)
    else
      -- The pause before a round polls `stop_`; the read after it decides.
      let (stop, s) := readStop env s
      if stop then ({ result with failures := [], aborted := true }, chunkStart, [], s)
      else
        let (retry, _, _, s) := runChunk env cfg 0 0 s
        let entry : Retest := ⟨result.failures, retry⟩
        if retry.error ≠ "" || retry.aborted then
          -- Unconfirmed, so nothing is removed; a pause re-runs the whole chunk instead.
          let (stop, s) := readStop env s
          if stop then ({ result with failures := [], aborted := true }, chunkStart, [entry], s)
          else ({ result with failures := [] }, next, [entry], s)
        else
          let merged : ChunkResult :=
            { result with
              hits := result.hits ++ retry.hits
              replaced := result.replaced ++ retry.replaced
              localFailures := result.localFailures ++ retry.localFailures
              failures := retry.failures }
          let (merged, next, retests, s) := confirmRounds env cfg chunkStart rounds merged next s
          (merged, next, entry :: retests, s)

def confirmFailures (chunkStart : Nat) (result : ChunkResult) (next : Nat) (s : State) : ChunkResult × Nat × List Retest × State :=
  confirmRounds env cfg chunkStart kScanWorkerRescanRetries result next s

/-! ## The network guard -/

def networkUp (s : State) : Bool × State :=
  let answer := env.scanCheckNetwork s.tick
  (answer.1 && answer.2, s.next)

/-- What the guard finds out: the network checks it made (family and answer), and what they mean. -/
structure Verdict where
  guarded : Bool
  unverified : Bool
  ipv4Up : Bool
  ipv6Up : Bool
  networkError : String
  checks : List (Bool × Bool)

/-- Failures count only once the network is known to be up. A hit only proves its own family
reachable. -/
def isGuarded (result : ChunkResult) : Bool :=
  let anyFailure := !result.failures.isEmpty || !result.localFailures.isEmpty
  let familyUnproven :=
    (scanWorkerHasFamily result.failures false && !scanWorkerHasFamily result.hits false) ||
    (scanWorkerHasFamily result.failures true && !scanWorkerHasFamily result.hits true)
  result.error = "" && anyFailure && (cfg.rescan || result.hits.isEmpty || familyUnproven)

def checkNetwork (result : ChunkResult) (s : State) : Verdict × State :=
  let ipv4Failed := scanWorkerHasFamily result.failures false
  let ipv6Failed := scanWorkerHasFamily result.failures true
  let ipv6Any := ipv6Failed || scanWorkerHasFamily result.localFailures true
  let ipv6Unproven := ipv6Failed && !scanWorkerHasFamily result.hits true
  let (ipv4Up, s) := networkUp env s
  -- An initial pass cannot set a failure aside: one whose family is down rewinds the chunk.
  let ipv4Blocks := !cfg.rescan && !ipv4Up && ipv4Failed
  let asksIpv6 := !ipv4Blocks && ((cfg.rescan && ipv6Failed) || (!cfg.rescan && ipv6Unproven) || (!ipv4Up && ipv6Any))
  let (ipv6Up, s) := if asksIpv6 then networkUp env s else (false, s)
  let ipv6Blocks := !cfg.rescan && !ipv6Up && ipv6Unproven
  let unverified := (!ipv4Up && !ipv6Up) || ipv4Blocks || ipv6Blocks
  let networkError :=
    if unverified then
      if ipv4Up && ipv6Blocks then
        "IPv6 is unreachable from this network. Scan paused (turn off IPv6 scanning to go on)"
      else "Network appears to be down. Scan paused"
    else ""
  let checks := (false, ipv4Up) :: if asksIpv6 then [(true, ipv6Up)] else []
  (⟨true, unverified, ipv4Up, ipv6Up, networkError, checks⟩, s)

def guard (result : ChunkResult) (s : State) : Verdict × State :=
  if isGuarded cfg result then
    let (stop, s) := readStop env s
    if stop then (⟨true, true, false, false, "", []⟩, s) else checkNetwork env cfg result s
  else (⟨false, false, false, false, "", []⟩, s)

/-! ## Storing -/

/-- The failures of a rescan whose family is up. -/
def deadEntries (verdict : Verdict) (result : ChunkResult) : List IpListEntry :=
  if cfg.rescan && verdict.guarded && !verdict.unverified then
    result.failures.filter fun entry =>
      if scanWorkerIsIpv6 entry then verdict.ipv6Up else verdict.ipv4Up
  else []

/-- What is handed to the store after a chunk. -/
structure StoreLog where
  /-- Results are stored: `persist_` is on and the scan has a result list. -/
  stores : Bool
  /-- How `UpsertEntries` ended, if it was called. -/
  upserted : Option Bool
  /-- The entries handed to `RemoveEntries` as dead. -/
  dead : List IpListEntry

def storeHits (hits : List IpListEntry) (s : State) : Option Bool × State :=
  if hits = [] then (none, s)
  else if env.upsertEntries s.tick then (some true, { s.next with stored := s.stored ++ hits })
  else (some false, s.next)

variable (result : ChunkResult)

/-- Rows that a hit under another port replaces go without further evidence. -/
def removeReplaced (s : State) : State :=
  if cfg.rescan && !result.hits.isEmpty && !result.replaced.isEmpty then s.next else s

def removeDead (dead : List IpListEntry) (s : State) : State :=
  if dead = [] then s else { s.next with removed := s.removed + env.removeEntries s.tick }

/-- Store the hits, remove the dead entries and count what is left. -/
def storeResults (verdict : Verdict) (result : ChunkResult) (s : State) : StoreLog × State :=
  let (persist, s) := readPersist env s
  if persist && cfg.resultId.isSome then
    let (upserted, s) := storeHits env result.hits s
    let dead := deadEntries cfg verdict result
    let s := removeDead env dead (removeReplaced cfg result s)
    (⟨true, upserted, dead⟩, { s.next with found := env.entryCount s.tick })
  else (⟨false, none, []⟩, s)

/-- Where the cursor goes after a chunk. -/
def movedCursor (chunkStart next : Nat) (verdict : Verdict) (result : ChunkResult) :
    Nat :=
  let cursor :=
    if result.error ≠ "" || verdict.unverified then chunkStart
    else if result.aborted then (if cfg.configPhase then chunkStart else next)
    else next
  min cursor cfg.total

/-- The cursor saved and what was stored by then. -/
def saveProgress (s : State) : Option (Nat × List IpListEntry) × State :=
  let (persist, s) := readPersist env s
  if persist then (some (s.cursor, s.stored), s) else (none, s)

/-! ## Chunks -/

structure ChunkLog where
  start : Nat
  answers : TestAnswers
  first : ChunkResult
  retests : List Retest
  verdict : Verdict
  store : StoreLog
  /-- Where the chunk leaves the cursor. -/
  cursor : Nat
  /-- The cursor `saveProgress` saves, with what is stored by then. -/
  saved : Option (Nat × List IpListEntry)

/-- How an iteration of the loop ends. -/
inductive Flow where
  | again
  | done (message : String)

def enoughFound (s : State) : Bool := !cfg.rescan && 0 < cfg.stopAfter && cfg.stopAfter ≤ s.found

/-- The end of an iteration. The top of the loop completes a finished pass, even when a stop landed
after its last chunk. -/
def afterChunk (chunkStart : Nat) (verdict : Verdict) (result : ChunkResult) (s : State) : Flow × State :=
  if result.error ≠ "" then (.done result.error, s)
  else if verdict.networkError ≠ "" then (.done verdict.networkError, s)
  else if verdict.unverified then (.done "", s)
  else if cfg.total ≤ s.cursor || enoughFound cfg s then (.again, s)
  else
    let (stop, s) := readStop env s
    if stop then (.done "", s)
    else if result.aborted then (.done "The core ended the scan session early", s)
    else if s.cursor = chunkStart then (.done "The core made no progress on the scan", s)
    else (.again, s)

/-- Test a chunk, and its failures again in a rescan. -/
def testChunk (s : State) : ChunkResult × TestAnswers × ChunkResult × Nat × List Retest × State :=
  let (first, answers, next, s') := runChunk env cfg s.cursor s.cursor s
  if cfg.rescan && first.error = "" && !first.aborted && !first.failures.isEmpty then
    let (result, next, retests, s') := confirmFailures env cfg s.cursor first next s'
    (first, answers, result, next, retests, s')
  else (first, answers, first, next, [], s')

def chunk (s : State) : ChunkLog × Flow × State :=
  let chunkStart := s.cursor
  let (first, answers, result, next, retests, s) := testChunk env cfg s
  let (verdict, s) := guard env cfg result s
  let (store, s) := storeResults env cfg verdict result s
  let cursor := movedCursor cfg chunkStart next verdict result
  let (saved, s) := saveProgress env { s with cursor := cursor }
  let (flow, s) := afterChunk env cfg chunkStart verdict result s
  (⟨chunkStart, answers, first, retests, verdict, store, cursor, saved⟩, flow, s)

/-- How a pass ends. -/
structure Pass where
  logs : List ChunkLog
  completed : Bool
  message : String
  state : State

/-- The loop of `runChunks`, for at most `fuel` iterations. -/
def loop (env : Env) (cfg : Config) : Nat → State → Option Pass
  | 0, _ => none
  | fuel + 1, s =>
    if enoughFound cfg s then some ⟨[], true, "", s⟩
    else if cfg.total ≤ s.cursor then some ⟨[], true, "", s⟩
    else
      let (stop, s) := readStop env s
      if stop then some ⟨[], false, "", s⟩
      else
        match chunk env cfg s with
        | (log, .done message, s) => some ⟨[log], false, message, s⟩
        | (log, .again, s) =>
          (loop env cfg fuel s).map fun pass => { pass with logs := log :: pass.logs }

/-- The number found so far is read from the list before the first chunk. -/
def refreshFound (s : State) : State :=
  let (persist, s) := readPersist env s
  if persist && cfg.resultId.isSome then { s.next with found := env.entryCount s.tick } else s

/-- Every iteration but the last moves the cursor, which bounds their number. -/
def runChunks (s : State) : Option Pass := loop env cfg (cfg.total - s.cursor + 2) (refreshFound env cfg s)

/-! ## The flags and the cursor -/

/-- The flags and the stored entries only move one way, and the cursor stays. -/
structure Later (s s' : State) : Prop where
  stop : s.stop = true → s'.stop = true
  persist : s'.persist = true → s.persist = true
  stored : ∀ e ∈ s.stored, e ∈ s'.stored
  cursor : s'.cursor = s.cursor

theorem Later.refl (s : State) : Later s s := ⟨id, id, fun _ h => h, rfl⟩

theorem Later.trans {a b c : State} (h : Later a b) (h' : Later b c) : Later a c :=
  ⟨fun hs => h'.stop (h.stop hs), fun hp => h.persist (h'.persist hp), fun e he => h'.stored e (h.stored e he), h'.cursor.trans h.cursor⟩

theorem later_next (s : State) : Later s s.next := ⟨id, id, fun _ h => h, rfl⟩

/-- A read of `stop_` gives the value it has from then on. -/
theorem readStop_spec {env : Env} {s' : State} {stop : Bool} (h : readStop env s = (stop, s')) : Later s s' ∧ s'.stop = stop := by
  cases h
  exact ⟨⟨fun hs => by simp [hs], id, fun _ he => he, rfl⟩, rfl⟩

theorem readPersist_spec {env : Env} {s' : State} {persist : Bool} (h : readPersist env s = (persist, s')) : Later s s' ∧ s'.persist = persist := by
  cases h
  refine ⟨⟨id, fun hp => ?_, fun _ he => he, rfl⟩, rfl⟩
  exact (Bool.and_eq_true_iff.1 hp).1

theorem later_noteStopped (error : String) (s : State) : Later s (noteStopped error s) := by
  unfold noteStopped
  split
  · exact ⟨fun _ => rfl, id, fun _ h => h, rfl⟩
  · exact Later.refl s

/-! ## When a test is aborted -/

theorem addProbeHits_aborted : ∀ result : ChunkResult, (addProbeHits cfg candidates result).aborted = result.aborted := by
  induction candidates with
  | nil => exact fun _ => rfl
  | cons c candidates ih => exact fun result => ih (addHit cfg result c _ c.latencyMs)

theorem unsupported_aborted (batch : List ProbeOutcome) (indexes : List Int) : ∀ result : ChunkResult,
    (indexes.foldl (addUnsupported cfg batch) result).aborted = result.aborted := by
  induction indexes with
  | nil => exact fun _ => rfl
  | cons index indexes ih =>
    intro result
    rw [List.foldl_cons, ih]
    unfold addUnsupported
    cases candidateAt batch index with
    | none | some candidate => rfl

/-- A config test is aborted by an item that says so. -/
theorem applyItem_aborted (tunnelsUp : List String) (result : ChunkResult) (item : Int × ProbeOutcome × URLTestResult) :
    (applyItem cfg tunnelsUp result item).aborted = (result.aborted || (item.2.2.error ≠ "" && scanWorkerIsAborted item.2.2.error)) := by
  unfold applyItem
  simp only
  by_cases herror : item.2.2.error = ""
  · rw [if_pos herror]
    simp [herror, addHit]
  · rw [if_neg herror]
    cases haborted : scanWorkerIsAborted item.2.2.error with
    | true => simp [herror]
    | false =>
      rw [if_neg (by simp)]
      split <;> simp [addHit, addFailure]

theorem applyItems_aborted (tunnelsUp : List String) (items : List (Int × ProbeOutcome × URLTestResult)) :
    ∀ result : ChunkResult, (items.foldl (applyItem cfg tunnelsUp) result).aborted =
    (result.aborted || items.any fun a => a.2.2.error ≠ "" && scanWorkerIsAborted a.2.2.error) := by
  induction items with
  | nil => simp
  | cons item items ih =>
    intro result
    rw [List.foldl_cons, ih, applyItem_aborted, List.any_cons, Bool.or_assoc]

/-- Whether the answers to some config tests are cut short. -/
def cutShortUrls (urls : List UrlAnswer) : Bool :=
  urls.any fun u => u.response.ok && cutShortItems u.build u.batch u.response

/-- What a batch of a config test tells: the state is later, and unless it ends with an error the
result is aborted exactly when it was before, the answer is cut short or a stop was seen. -/
theorem testBatch_facts (batch : List ProbeOutcome) (result : ChunkResult) (s : State) :
    Later s (testBatch env cfg batch result s).2.2.2 ∧ ((testBatch env cfg batch result s).2.1.aborted = true →
    result.aborted = true ∨ cutShortUrls (testBatch env cfg batch result s).2.2.1 = true ∨
    (testBatch env cfg batch result s).2.2.2.stop = true) ∧
    (result.aborted = true ∨ cutShortUrls (testBatch env cfg batch result s).2.2.1 = true →
    (testBatch env cfg batch result s).2.1.aborted = true) := by
  unfold testBatch
  rcases hread : readStop env s with ⟨stop, s1⟩
  obtain ⟨hlater, hstop⟩ := readStop_spec hread
  simp only
  cases stop with
  | true => exact ⟨hlater, fun _ => .inr (.inr hstop), fun _ => rfl⟩
  | false =>
    rw [if_neg Bool.false_ne_true]
    have hbuild := hlater.trans (later_next s1)
    generalize env.buildScanTestConfig s1.tick = build
    by_cases herror : build.error ≠ ""
    · rw [if_pos herror]
      exact ⟨hbuild, fun h => .inl h, fun h => h.resolve_right (by simp [cutShortUrls])⟩
    · rw [if_neg herror]
      have hunsupported := unsupported_aborted cfg batch build.unsupported result
      generalize build.unsupported.foldl (addUnsupported cfg batch) result = result' at *
      by_cases htags : build.outboundTags = []
      · rw [if_pos htags]
        refine ⟨hbuild, fun h => .inl (hunsupported ▸ h), fun h => ?_⟩
        rw [hunsupported]
        exact h.resolve_right (by simp [cutShortUrls])
      · rw [if_neg htags]
        have hcall := hbuild.trans (later_next s1.next)
        generalize env.scanURLTest s1.next.tick = response
        cases hok : response.ok with
        | true =>
          have haborted := applyItems_aborted cfg response.vpnStatus (acceptedItems build batch [] response.results) result'
          have hcut : cutShortUrls [⟨build, batch, response⟩] = cutShortItems build batch response := by
            simp [cutShortUrls, hok]
          simp only [if_true]
          rw [haborted, hunsupported, hcut, Bool.or_assoc]
          simp only [Bool.or_eq_true, cutShortItems] at *
          tauto
        | false =>
          rw [if_neg Bool.false_ne_true]
          have hcut : cutShortUrls [⟨build, batch, response⟩] = false := by
            simp [cutShortUrls, hok]
          rcases hread' : readStop env (noteStopped response.coreError s1.next.next) with ⟨stop', s2⟩
          obtain ⟨hlater', hstop'⟩ := readStop_spec hread'
          have hend := (hcall.trans (later_noteStopped response.coreError s1.next.next)).trans hlater'
          simp only
          cases stop' with
          | true => exact ⟨hend, fun _ => .inr (.inr hstop'), fun _ => rfl⟩
          | false =>
            rw [if_neg Bool.false_ne_true]
            have hsame : Later s s2 ∧ (result'.aborted = true → result.aborted = true ∨
                  cutShortUrls [⟨build, batch, response⟩] = true ∨ s2.stop = true) ∧
                (result.aborted = true ∨ cutShortUrls [⟨build, batch, response⟩] = true → result'.aborted = true) := by
              rw [hcut, hunsupported]
              exact ⟨hend, fun h => .inl h, fun h => h.resolve_right (by simp)⟩
            split <;> exact hsame

theorem testConfigs_facts (batches : List (List ProbeOutcome)) : ∀ (result : ChunkResult) (s : State),
    Later s (testConfigs env cfg batches result s).2.2.2 ∧ ((testConfigs env cfg batches result s).2.1.aborted = true →
    result.aborted = true ∨ cutShortUrls (testConfigs env cfg batches result s).2.2.1 = true ∨
    (testConfigs env cfg batches result s).2.2.2.stop = true) ∧
    (result.aborted = true ∨ cutShortUrls (testConfigs env cfg batches result s).2.2.1 = true →
    (testConfigs env cfg batches result s).2.1.aborted = true) := by
  induction batches with
  | nil =>
    intro result s
    exact ⟨Later.refl s, fun h => .inl h, fun h => h.resolve_right (by simp [testConfigs, cutShortUrls])⟩
  | cons batch batches ih =>
    intro result s
    have hbatch := testBatch_facts env cfg batch result s
    unfold testConfigs
    rcases hres : testBatch env cfg batch result s with ⟨ended, result', answers, s'⟩
    rw [hres] at hbatch
    obtain ⟨hlater, hto, hfrom⟩ := hbatch
    cases ended with
    | some error => exact ⟨hlater, hto, hfrom⟩
    | none =>
      obtain ⟨hlater', hto', hfrom'⟩ := ih result' s'
      simp only
      have hcut : ∀ more, cutShortUrls (answers ++ more) = (cutShortUrls answers || cutShortUrls more) :=
        fun more => List.any_append
      refine ⟨hlater.trans hlater', fun h => ?_, fun h => ?_⟩
      · rw [hcut, Bool.or_eq_true]
        rcases hto' h with hresult | hmore | hstop
        · rcases hto hresult with hresult | hanswers | hstop
          · exact .inl hresult
          · exact .inr (.inl (.inl hanswers))
          · exact .inr (.inr (hlater'.stop hstop))
        · exact .inr (.inl (.inr hmore))
        · exact .inr (.inr hstop)
      · rw [hcut, Bool.or_eq_true] at h
        apply hfrom'
        rcases h with hresult | hanswers | hmore
        · exact .inl (hfrom (.inl hresult))
        · exact .inl (hfrom (.inr hanswers))
        · exact .inr hmore

theorem sortItems_aborted (items : List ScanProbeResult) : ∀ acc : List ProbeOutcome × ChunkResult,
    (items.foldl (sortItem cfg) acc).2.aborted = acc.2.aborted := by
  induction items with
  | nil => exact fun _ => rfl
  | cons item items ih =>
    intro acc
    rw [List.foldl_cons, ih]
    unfold sortItem
    simp only
    split
    · rfl
    · split
      · rfl
      · rfl

/-- A failed probe ends with a stop that was seen and no error, or with an error. -/
theorem failedProbe_facts (response : ScanProbeResponse)
    (candidates : List ProbeOutcome) {result : ChunkResult} (haborted : result.aborted = false) (s : State) :
    Later s (failedProbe env cfg response candidates result s).2 ∧ (((failedProbe env cfg response candidates result s).1.aborted = true ∧
    (failedProbe env cfg response candidates result s).2.stop = true) ∨ ((failedProbe env cfg response candidates result s).1.aborted = false ∧
    (failedProbe env cfg response candidates result s).1.error ≠ "")) := by
  unfold failedProbe
  have hkept : (if cfg.configPhase then { result with failures := [], localFailures := [] }
      else addProbeHits cfg candidates { result with failures := [], localFailures := [] }).aborted = false := by
    split
    · exact haborted
    · rw [addProbeHits_aborted]
      exact haborted
  simp only
  generalize (if response.ok then response.error else response.coreError) = message
  rcases hread : readStop env (noteStopped message s) with ⟨stop, s1⟩
  obtain ⟨hlater, hstop⟩ := readStop_spec hread
  have hend := (later_noteStopped message s).trans hlater
  cases stop with
  | true => exact ⟨hend, .inl ⟨rfl, hstop⟩⟩
  | false =>
    refine ⟨hend, .inr ⟨hkept, ?_⟩⟩
    show (if message = "" then "The core did not answer the probe request" else message) ≠ ""
    split
    · decide
    · assumption

/-- An answered probe is aborted when it was so at first, when a config test is cut short or when a stop
was seen. -/
theorem answeredProbe_facts (s : State) : Later s (answeredProbe env cfg candidates result s).2.2 ∧
    ((answeredProbe env cfg candidates result s).1.aborted = true → result.aborted = true ∨
    cutShortUrls (answeredProbe env cfg candidates result s).2.1 = true ∨
    (answeredProbe env cfg candidates result s).2.2.stop = true) ∧ (result.aborted = true ∨
    cutShortUrls (answeredProbe env cfg candidates result s).2.1 = true → (answeredProbe env cfg candidates result s).1.aborted = true) := by
  unfold answeredProbe
  have hnone : ¬ cutShortUrls [] = true := by simp [cutShortUrls]
  cases cfg.configPhase with
  | false =>
    rw [Bool.not_false, if_pos rfl]
    refine ⟨Later.refl s, fun h => .inl ?_, fun h => ?_⟩
    · rw [addProbeHits_aborted] at h
      exact h
    · rw [addProbeHits_aborted]
      exact h.resolve_right hnone
  | true =>
    rw [if_neg (by simp)]
    cases candidates.isEmpty with
    | true => exact ⟨Later.refl s, fun h => .inl h, fun h => h.resolve_right hnone⟩
    | false =>
      rw [if_neg Bool.false_ne_true]
      cases haborted : result.aborted with
      | true =>
        rw [if_pos rfl]
        exact ⟨Later.refl s, fun _ => .inl rfl, fun _ => haborted⟩
      | false =>
        rw [if_neg Bool.false_ne_true]
        rcases hread : readStop env s with ⟨stop, s1⟩
        obtain ⟨hlater, hstop⟩ := readStop_spec hread
        cases stop with
        | true => exact ⟨hlater, fun _ => .inr (.inr hstop), fun _ => rfl⟩
        | false =>
          obtain ⟨hlater', hto, hfrom⟩ :=
            testConfigs_facts env cfg (candidates.toChunks cfg.subBatch) result s1
          rw [haborted] at hto hfrom
          exact ⟨hlater.trans hlater', hto, hfrom⟩

/-- One test of a chunk: the state is later, the next chunk starts no earlier, and unless the test ends
with an error it is aborted exactly when its answers are cut short or a stop was seen. -/
theorem runChunk_facts {chunkStart nextCursor : Nat} (s : State) (hnext : chunkStart ≤ nextCursor) :
    Later s (runChunk env cfg chunkStart nextCursor s).2.2.2 ∧ chunkStart ≤ (runChunk env cfg chunkStart nextCursor s).2.2.1 ∧
    ((runChunk env cfg chunkStart nextCursor s).1.aborted = true → (runChunk env cfg chunkStart nextCursor s).2.1.cutShort = true ∨
    (runChunk env cfg chunkStart nextCursor s).2.2.2.stop = true) ∧ ((runChunk env cfg chunkStart nextCursor s).1.error = "" →
    (runChunk env cfg chunkStart nextCursor s).2.1.cutShort = true → (runChunk env cfg chunkStart nextCursor s).1.aborted = true) := by
  unfold runChunk
  generalize env.scanProbe s.tick = response
  have hsorted := sortItems_aborted cfg response.results ([], ChunkResult.empty)
  simp only
  generalize response.results.foldl (sortItem cfg) ([], ChunkResult.empty) = sorted at *
  obtain ⟨candidates, result⟩ := sorted
  have hcut : ∀ urls, (⟨response, urls⟩ : TestAnswers).cutShort = (response.aborted || cutShortUrls urls) := fun _ => rfl
  split
  · obtain ⟨hlater, hend⟩ := failedProbe_facts env cfg response candidates hsorted s.next
    refine ⟨(later_next s).trans hlater, hnext, fun h => ?_, fun herror _ => ?_⟩
    · rcases hend with ⟨-, hstop⟩ | ⟨hno, -⟩
      · exact .inr hstop
      · rw [hno] at h
        cases h
    · rcases hend with ⟨haborted, -⟩ | ⟨-, hne⟩
      · exact haborted
      · exact absurd herror hne
  · obtain ⟨hlater, hto, hfrom⟩ := answeredProbe_facts env cfg candidates { result with aborted := response.aborted } s.next
    refine ⟨(later_next s).trans hlater, Nat.le_max_left _ _, fun h => ?_, fun _ h => ?_⟩
    · rw [hcut, Bool.or_eq_true, or_assoc]
      exact hto h
    · rw [hcut, Bool.or_eq_true] at h
      exact hfrom h

/-! ## The stages of a chunk -/

theorem confirmRounds_later (chunkStart rounds : Nat) : ∀ (result : ChunkResult) (next : Nat) (s : State), chunkStart ≤ next →
    Later s (confirmRounds env cfg chunkStart rounds result next s).2.2.2 ∧
    chunkStart ≤ (confirmRounds env cfg chunkStart rounds result next s).2.1 := by
  induction rounds with
  | zero => exact fun result next s hnext => ⟨Later.refl s, hnext⟩
  | succ rounds ih =>
    intro result next s hnext
    unfold confirmRounds
    by_cases hnone : result.failures = []
    · rw [if_pos hnone]
      exact ⟨Later.refl s, hnext⟩
    · rw [if_neg hnone]
      rcases hread : readStop env s with ⟨stop, s1⟩
      obtain ⟨hlater, -⟩ := readStop_spec hread
      cases stop with
      | true => exact ⟨hlater, Nat.le_refl _⟩
      | false =>
        obtain ⟨hrun, -⟩ := runChunk_facts env cfg s1 (Nat.le_refl 0)
        rcases hretry : runChunk env cfg 0 0 s1 with ⟨retry, answers, retryNext, s2⟩
        rw [hretry] at hrun
        have hlater2 : Later s s2 := hlater.trans hrun
        cases hfailed : decide (retry.error ≠ "") || retry.aborted with
        | true =>
          rcases hread' : readStop env s2 with ⟨stop', s3⟩
          obtain ⟨hlater', -⟩ := readStop_spec hread'
          simp only [hretry, hfailed, hread', Bool.false_eq_true, if_true, if_false]
          cases stop' with
          | true => exact ⟨hlater2.trans hlater', Nat.le_refl _⟩
          | false => exact ⟨hlater2.trans hlater', hnext⟩
        | false =>
          simp only [hretry, hfailed, Bool.false_eq_true, if_false]
          obtain ⟨hrest, hle⟩ := ih _ next s2 hnext
          exact ⟨hlater2.trans hrest, hle⟩

theorem testChunk_later (s : State) : Later s (testChunk env cfg s).2.2.2.2.2 ∧ s.cursor ≤ (testChunk env cfg s).2.2.2.1 := by
  unfold testChunk
  obtain ⟨hlater, hle, -⟩ := runChunk_facts env cfg s (Nat.le_refl s.cursor)
  rcases hrun : runChunk env cfg s.cursor s.cursor s with ⟨first, answers, next, s1⟩
  rw [hrun] at hlater hle
  simp only
  split
  · obtain ⟨hlater', hle'⟩ :=
      confirmRounds_later env cfg s.cursor kScanWorkerRescanRetries first next s1 hle
    exact ⟨hlater.trans hlater', hle'⟩
  · exact ⟨hlater, hle⟩

theorem networkUp_later (s : State) : Later s (networkUp env s).2 := later_next s

theorem checkNetwork_later (s : State) : Later s (checkNetwork env cfg result s).2 := by
  unfold checkNetwork
  simp only
  split
  · exact (networkUp_later env s).trans (networkUp_later env _)
  · exact networkUp_later env s

theorem guard_later (s : State) : Later s (guard env cfg result s).2 := by
  unfold guard
  split
  · rcases hread : readStop env s with ⟨stop, s1⟩
    obtain ⟨hlater, -⟩ := readStop_spec hread
    cases stop with
    | true => exact hlater
    | false => exact hlater.trans (checkNetwork_later env cfg result s1)
  · exact Later.refl s

theorem storeHits_later (hits : List IpListEntry) (s : State) : Later s (storeHits env hits s).2 := by
  unfold storeHits
  split
  · exact Later.refl s
  · split
    · exact ⟨id, id, fun e he => List.mem_append_left _ he, rfl⟩
    · exact later_next s

theorem storeResults_later (verdict : Verdict) (result : ChunkResult) (s : State) : Later s (storeResults env cfg verdict result s).2 := by
  unfold storeResults
  rcases hread : readPersist env s with ⟨persist, s1⟩
  obtain ⟨hlater, -⟩ := readPersist_spec hread
  simp only
  split
  · have hhits := storeHits_later env result.hits s1
    have hreplaced : ∀ s, Later s (removeReplaced cfg result s) := by
      intro s
      unfold removeReplaced
      split
      · exact later_next s
      · exact Later.refl s
    have hdead : ∀ s, Later s (removeDead env (deadEntries cfg verdict result) s) := by
      intro s
      unfold removeDead
      split
      · exact Later.refl s
      · exact ⟨id, id, fun _ h => h, rfl⟩
    have hall := ((hlater.trans hhits).trans (hreplaced _)).trans (hdead _)
    exact ⟨hall.stop, hall.persist, hall.stored, hall.cursor⟩
  · exact hlater

theorem saveProgress_later (s : State) : Later s (saveProgress env s).2 := by
  unfold saveProgress
  rcases hread : readPersist env s with ⟨persist, s1⟩
  obtain ⟨hlater, -⟩ := readPersist_spec hread
  simp only
  split <;> exact hlater

theorem movedCursor_facts {chunkStart next : Nat} (verdict : Verdict)
    (result : ChunkResult) (hstart : chunkStart ≤ cfg.total) (hnext : chunkStart ≤ next) :
    chunkStart ≤ movedCursor cfg chunkStart next verdict result ∧ movedCursor cfg chunkStart next verdict result ≤ cfg.total ∧
    (chunkStart < movedCursor cfg chunkStart next verdict result → result.error = "" ∧ verdict.unverified = false) := by
  unfold movedCursor
  simp only
  refine ⟨?_, Nat.min_le_right _ _, ?_⟩
  · apply Nat.le_min.2
    refine ⟨?_, hstart⟩
    split
    · exact Nat.le_refl _
    · split
      · split
        · exact Nat.le_refl _
        · exact hnext
      · exact hnext
  · intro hmoved
    split at hmoved
    · next hstay =>
      exact absurd (Nat.lt_of_lt_of_le hmoved (Nat.min_le_left _ _)) (Nat.lt_irrefl _)
    · next hmove =>
      simpa using hmove

/-- The failures of a first test are tested again, or the first test is all there is. -/
theorem testChunk_cases {env : Env} {cfg : Config} {s1 : State} {first result : ChunkResult}
    {answers : TestAnswers} {next : Nat} {retests : List Retest} (h : testChunk env cfg s = (first, answers, result, next, retests, s1)) :
    ∃ next' s1', runChunk env cfg s.cursor s.cursor s = (first, answers, next', s1') ∧ ((first.error = "" ∧ first.aborted = false ∧
    confirmRounds env cfg s.cursor kScanWorkerRescanRetries first next' s1' = (result, next, retests, s1)) ∨
    ((cfg.rescan = true → first.error = "" → first.failures ≠ [] → first.aborted = true) ∧ result = first ∧ retests = [] ∧ s1 = s1')) := by
  unfold testChunk at h
  rcases hrun : runChunk env cfg s.cursor s.cursor s with ⟨first', answers', next', s1'⟩
  rw [hrun] at h
  simp only at h
  split at h
  · next hconfirm =>
    simp only [Bool.and_eq_true, decide_eq_true_eq, Bool.not_eq_true'] at hconfirm
    obtain ⟨⟨⟨-, herror⟩, hnot⟩, -⟩ := hconfirm
    simp only [Prod.mk.injEq] at h
    obtain ⟨rfl, rfl, rfl, rfl, rfl, rfl⟩ := h
    exact ⟨next', s1', rfl, .inl ⟨herror, hnot, rfl⟩⟩
  · next hconfirm =>
    simp only [Prod.mk.injEq] at h
    obtain ⟨rfl, rfl, rfl, rfl, rfl, rfl⟩ := h
    refine ⟨next', s1', rfl, .inr ⟨fun hrescan herror hfailures => ?_, rfl, rfl, rfl⟩⟩
    cases haborted : first'.aborted with
    | true => rfl
    | false => exact absurd (by simp [hrescan, herror, haborted, hfailures]) hconfirm

/-- The stages of a chunk, one after the other. -/
theorem chunk_stages (s : State) : ∃ first answers result next retests s1 verdict s2 store s3 saved s5 flow s6,
      testChunk env cfg s = (first, answers, result, next, retests, s1) ∧
      guard env cfg result s1 = (verdict, s2) ∧
      storeResults env cfg verdict result s2 = (store, s3) ∧
      saveProgress env { s3 with cursor := movedCursor cfg s.cursor next verdict result } =
        (saved, s5) ∧
      afterChunk env cfg s.cursor verdict result s5 = (flow, s6) ∧
      chunk env cfg s = (⟨s.cursor, answers, first, retests, verdict, store, movedCursor cfg s.cursor next verdict result, saved⟩, flow, s6) :=
  ⟨_, _, _, _, _, _, _, _, _, _, _, _, _, _, rfl, rfl, rfl, rfl, rfl, rfl⟩

/-- The top of the loop completes the pass. -/
def Finished (s : State) : Prop := enoughFound cfg s = true ∨ cfg.total ≤ s.cursor

theorem afterChunk_facts (chunkStart : Nat) (verdict : Verdict) (result : ChunkResult) (s : State) :
    Later s (afterChunk env cfg chunkStart verdict result s).2 ∧ (afterChunk env cfg chunkStart verdict result s).2.found = s.found ∧
    ((afterChunk env cfg chunkStart verdict result s).1 = .again → Finished cfg s ∨ s.cursor ≠ chunkStart) := by
  unfold afterChunk
  split
  · exact ⟨Later.refl s, rfl, nofun⟩
  · split
    · exact ⟨Later.refl s, rfl, nofun⟩
    · split
      · exact ⟨Later.refl s, rfl, nofun⟩
      · split
        · next hdone =>
          refine ⟨Later.refl s, rfl, fun _ => .inl ?_⟩
          rcases Bool.or_eq_true_iff.1 hdone with htotal | hfound
          · exact .inr (of_decide_eq_true htotal)
          · exact .inl hfound
        · rcases hread : readStop env s with ⟨stop, s1⟩
          obtain ⟨hlater, -⟩ := readStop_spec hread
          have hfound : s1.found = s.found := by
            cases hread
            rfl
          cases stop with
          | true => exact ⟨hlater, hfound, nofun⟩
          | false =>
            simp only [Bool.false_eq_true, if_false]
            split
            · exact ⟨hlater, hfound, nofun⟩
            · split
              · exact ⟨hlater, hfound, nofun⟩
              · next hmoved =>
                refine ⟨hlater, hfound, fun _ => .inr ?_⟩
                rw [← hlater.cursor]
                exact hmoved

/-- A chunk never moves the cursor back or past the total, and goes on only when the pass is finished
or the cursor moved. -/
theorem chunk_progress (hs : s.cursor < cfg.total) : s.cursor ≤ (chunk env cfg s).2.2.cursor ∧ (chunk env cfg s).2.2.cursor ≤ cfg.total ∧
    ((chunk env cfg s).2.1 = .again → Finished cfg (chunk env cfg s).2.2 ∨ s.cursor < (chunk env cfg s).2.2.cursor) := by
  obtain ⟨first, answers, result, next, retests, s1, verdict, s2, store, s3, saved, s5, flow, s6,
    htest, hguard, hstore, hsave, hafter, hchunk⟩ := chunk_stages env cfg s
  rw [hchunk]
  obtain ⟨-, hnext⟩ := testChunk_later env cfg s
  rw [htest] at hnext
  obtain ⟨hge, hle, -⟩ := movedCursor_facts cfg verdict result (Nat.le_of_lt hs) hnext
  have hsaved := saveProgress_later env { s3 with
    cursor := movedCursor cfg s.cursor next verdict result }
  rw [hsave] at hsaved
  obtain ⟨hlater, hfound, hflow⟩ := afterChunk_facts env cfg s.cursor verdict result s5
  rw [hafter] at hlater hfound hflow
  have hcursor : s6.cursor = movedCursor cfg s.cursor next verdict result := hlater.cursor.trans hsaved.cursor
  refine ⟨by rw [hcursor]; exact hge, by rw [hcursor]; exact hle, fun hagain => ?_⟩
  rcases hflow hagain with hdone | hmoved
  · left
    unfold Finished enoughFound at *
    rw [show s6.found = s5.found from hfound, show s6.cursor = s5.cursor from hlater.cursor]
    exact hdone
  · right
    rw [← show s6.cursor = s5.cursor from hlater.cursor] at hmoved
    have hle' : s.cursor ≤ s6.cursor := by rw [hcursor]; exact hge
    exact Nat.lt_of_le_of_ne hle' (Ne.symm hmoved)

end

/-! ## The loop -/

section Loop

variable {env : Env} {cfg : Config} (Inv : State → Prop) (P : ChunkLog → Prop)

theorem loop_finished (h : Finished cfg s) (fuel : Nat) : loop env cfg (fuel + 1) s = some ⟨[], true, "", s⟩ := by
  unfold loop
  rcases h with hfound | htotal
  · rw [if_pos hfound]
  · by_cases hfound : enoughFound cfg s = true
    · rw [if_pos hfound]
    · rw [if_neg hfound, if_pos htotal]

/-- The rule for passes: what every chunk from a state of the invariant leaves in its log holds of every
chunk of a pass. The pass always ends, and is complete only when it is finished. -/
theorem loop_rule (hread : ∀ s, Inv s → Inv (readStop env s).2) (hchunk : ∀ s, Inv s → s.cursor < cfg.total →
    P (chunk env cfg s).1 ∧ Inv (chunk env cfg s).2.2) : ∀ (fuel : Nat) (s : State), Inv s → cfg.total - s.cursor + 2 ≤ fuel →
    ∃ pass, loop env cfg fuel s = some pass ∧ (∀ log ∈ pass.logs, P log) ∧ (pass.completed = true → Finished cfg pass.state) := by
  intro fuel
  induction fuel with
  | zero => exact fun s _ hfuel => absurd hfuel (by omega)
  | succ fuel ih =>
    intro s hs hfuel
    by_cases hdone : Finished cfg s
    · exact ⟨_, loop_finished hdone fuel, by simp, fun _ => hdone⟩
    · have hfound : ¬ enoughFound cfg s = true := fun h => hdone (.inl h)
      have hcursor : ¬ cfg.total ≤ s.cursor := fun h => hdone (.inr h)
      unfold loop
      rw [if_neg hfound, if_neg hcursor]
      have hinv := hread s hs
      rcases hstop : readStop env s with ⟨stop, s1⟩
      obtain ⟨hlater, -⟩ := readStop_spec hstop
      rw [hstop] at hinv
      cases stop with
      | true => exact ⟨_, rfl, by simp, nofun⟩
      | false =>
        have hlt : s1.cursor < cfg.total := by rw [hlater.cursor]; omega
        obtain ⟨hlog, hinv'⟩ := hchunk s1 hinv hlt
        obtain ⟨hge, -, hagain⟩ := chunk_progress env cfg hlt
        rcases hrun : chunk env cfg s1 with ⟨log, flow, s2⟩
        rw [hrun] at hlog hinv' hge hagain
        simp only [Bool.false_eq_true, if_false, hrun]
        cases flow with
        | done message => exact ⟨_, rfl, by simpa using hlog, nofun⟩
        | again =>
          -- A finished pass needs one more iteration; otherwise the cursor moved.
          obtain ⟨pass, hpass, hlogs, hcomplete⟩ : ∃ pass, loop env cfg fuel s2 = some pass ∧
              (∀ log ∈ pass.logs, P log) ∧ (pass.completed = true → Finished cfg pass.state) := by
            rcases hagain rfl with hfin | hmoved
            · obtain ⟨fuel', rfl⟩ : ∃ fuel', fuel = fuel' + 1 := ⟨fuel - 1, by omega⟩
              exact ⟨_, loop_finished hfin fuel', by simp, fun _ => hfin⟩
            · apply ih s2 hinv'
              have h1 : s1.cursor = s.cursor := hlater.cursor
              have h2 : s1.cursor < s2.cursor := hmoved
              omega
          refine ⟨{ pass with logs := log :: pass.logs }, ?_, ?_, hcomplete⟩
          · show (loop env cfg fuel s2).map _ = _
            rw [hpass]
            rfl
          · intro log' hlog'
            rcases List.mem_cons.1 hlog' with rfl | hlog'
            · exact hlog
            · exact hlogs log' hlog'

theorem refreshFound_later (env : Env) (cfg : Config) (s : State) : Later s (refreshFound env cfg s) := by
  unfold refreshFound
  rcases hread : readPersist env s with ⟨persist, s1⟩
  obtain ⟨hlater, -⟩ := readPersist_spec hread
  simp only
  split
  · exact ⟨hlater.stop, hlater.persist, hlater.stored, hlater.cursor⟩
  · exact hlater

/-- The rule for passes, from the entry of `runChunks` on. -/
theorem runChunks_rule (hlater : ∀ s s', Later s s' → Inv s → Inv s') (hchunk : ∀ s, Inv s → s.cursor < cfg.total →
    P (chunk env cfg s).1 ∧ Inv (chunk env cfg s).2.2) (s : State) (hs : Inv s) :
    ∃ pass, runChunks env cfg s = some pass ∧ (∀ log ∈ pass.logs, P log) ∧ (pass.completed = true → Finished cfg pass.state) := by
  have hrefresh := refreshFound_later env cfg s
  apply loop_rule Inv P _ hchunk _ _ (hlater s _ hrefresh hs) (Nat.le_of_eq (by rw [hrefresh.cursor]))
  intro s' hs'
  have hread : readStop env s' = ((readStop env s').1, (readStop env s').2) := rfl
  exact hlater s' _ (readStop_spec hread).1 hs'

end Loop

end Throne.Scanner
