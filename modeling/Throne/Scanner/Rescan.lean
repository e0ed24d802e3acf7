import Throne.Scanner.ScanWorker

/-!
# What a rescan removes

A rescan removes entries that fail. `Evidence` states what should stand behind each removal of a chunk:
the first test and every re-test of `confirmFailures` reported the entry as a failure, and the network
check of its family answered up in the same chunk. A first test that the core cut short is not
re-tested, yet its failures are still checked against the network and removed. `rescan_evidence` shows
that this is the only way to remove on less, as long as a re-test reports failures only for what it was
asked about.
-/

namespace Throne.Scanner

open List

/-- Everything removed as dead failed the first test of its chunk and every re-test, and the network
check of its family answered up. -/
def Evidence (log : ChunkLog) : Prop :=
  ∀ e ∈ log.store.dead, e ∈ log.first.failures ∧ log.retests.length = kScanWorkerRescanRetries ∧
    (∀ t ∈ log.retests, e ∈ t.result.failures) ∧ (scanWorkerIsIpv6 e, true) ∈ log.verdict.checks

/-- Re-tests report failures only for the entries they were asked about. -/
def Faithful (log : ChunkLog) : Prop := ∀ t ∈ log.retests, ∀ e ∈ t.result.failures, e ∈ t.asked

/-- A first test that the core cut short reports no failure of a family whose network check answers up
while results are stored. -/
def Conclusive (log : ChunkLog) : Prop :=
  log.answers.cutShort = true → log.store.stores = true → ∀ e ∈ log.first.failures, (scanWorkerIsIpv6 e, true) ∉ log.verdict.checks

/-- What is left of the failures after all rounds failed in every round. -/
theorem confirmRounds_failures (env : Env) (cfg : Config) (chunkStart rounds : Nat) : ∀ (result : ChunkResult) (next : Nat) (s : State),
    (∀ t ∈ (confirmRounds env cfg chunkStart rounds result next s).2.2.1, ∀ e ∈ t.result.failures, e ∈ t.asked) →
    ∀ e ∈ (confirmRounds env cfg chunkStart rounds result next s).1.failures, e ∈ result.failures ∧
    (confirmRounds env cfg chunkStart rounds result next s).2.2.1.length = rounds ∧
    ∀ t ∈ (confirmRounds env cfg chunkStart rounds result next s).2.2.1, e ∈ t.result.failures := by
  induction rounds with
  | zero => exact fun result next s _ e he => ⟨he, rfl, by simp [confirmRounds]⟩
  | succ rounds ih =>
    intro result next s
    unfold confirmRounds
    by_cases hnone : result.failures = []
    · rw [if_pos hnone]
      intro _ e he
      rw [hnone] at he
      cases he
    · rw [if_neg hnone]
      rcases hread : readStop env s with ⟨stop, s1⟩
      cases stop with
      | true => exact nofun
      | false =>
        rcases hretry : runChunk env cfg 0 0 s1 with ⟨retry, answers, retryNext, s2⟩
        cases hfailed : decide (retry.error ≠ "") || retry.aborted with
        | true =>
          -- A re-test that did not finish confirms nothing: the failures are dropped.
          rcases hread' : readStop env s2 with ⟨stop', s3⟩
          simp only [hretry, hfailed, hread', Bool.false_eq_true, if_true, if_false]
          cases stop' with
          | true | false => exact nofun
        | false =>
          simp only [hretry, hfailed, Bool.false_eq_true, if_false]
          intro hfaithful e he
          obtain ⟨hfirst, hlength, hrest⟩ := ih _ next s2 (fun t ht => hfaithful t (mem_cons_of_mem _ ht)) e he
          refine ⟨hfaithful _ mem_cons_self e hfirst, ?_, ?_⟩
          · rw [length_cons, hlength]
          · intro t ht
            rcases mem_cons.1 ht with rfl | ht
            · exact hfirst
            · exact hrest t ht

/-- The family's part of a verdict. -/
def Verdict.up (v : Verdict) (ipv6 : Bool) : Bool := if ipv6 then v.ipv6Up else v.ipv4Up

/-- A family is taken for up exactly when a check says so. -/
theorem checkNetwork_up (env : Env) (cfg : Config) (result : ChunkResult) (s : State) (ipv6 : Bool) :
    (ipv6, true) ∈ (checkNetwork env cfg result s).1.checks ↔ (checkNetwork env cfg result s).1.up ipv6 = true := by
  unfold checkNetwork Verdict.up
  simp only
  generalize (networkUp env s).1 = ipv4Up
  split
  all_goals
    cases ipv6 with
    | false | true => simp

variable {cfg : Config}

/-- In a rescan the failures count as soon as one family is up. -/
theorem checkNetwork_verified (env : Env) (hrescan : cfg.rescan = true)
    (result : ChunkResult) (s : State) {ipv6 : Bool} (hup : (checkNetwork env cfg result s).1.up ipv6 = true) :
    (checkNetwork env cfg result s).1.guarded = true ∧ (checkNetwork env cfg result s).1.unverified = false := by
  refine ⟨rfl, ?_⟩
  have hunverified : (checkNetwork env cfg result s).1.unverified =
      (!(checkNetwork env cfg result s).1.ipv4Up && !(checkNetwork env cfg result s).1.ipv6Up) := by
    unfold checkNetwork
    simp [hrescan]
  rw [hunverified]
  cases ipv6 with
  | false => rw [show (checkNetwork env cfg result s).1.ipv4Up = true from hup]; rfl
  | true =>
    rw [show (checkNetwork env cfg result s).1.ipv6Up = true from hup]
    exact Bool.and_false _

/-- What the guard of a rescan does: nothing, an unverified end on a stop, or the network checks. -/
theorem guard_cases (env : Env) (cfg : Config) (result : ChunkResult) (s : State) :
    ((guard env cfg result s).1.guarded = false ∧ (guard env cfg result s).1.checks = []) ∨
    ((guard env cfg result s).1.unverified = true ∧ (guard env cfg result s).1.checks = []) ∨
    (result.error = "" ∧ s.stop = false ∧ ∃ s', (guard env cfg result s).1 = (checkNetwork env cfg result s').1) := by
  unfold guard
  split
  · next hguard =>
    rcases hread : readStop env s with ⟨stop, s1⟩
    obtain ⟨hlater, hstop⟩ := readStop_spec hread
    cases stop with
    | true => exact .inr (.inl ⟨rfl, rfl⟩)
    | false =>
      refine .inr (.inr ⟨?_, ?_, s1, rfl⟩)
      · simp only [isGuarded, Bool.and_eq_true, decide_eq_true_eq] at hguard
        exact hguard.1.1
      · cases hs : s.stop with
        | false => rfl
        | true =>
          rw [hlater.stop hs] at hstop
          cases hstop
  · exact .inl ⟨rfl, rfl⟩

/-- An entry is removed as dead exactly when results are stored and a check says that its family is
up. -/
theorem mem_dead_iff (env : Env) (hrescan : cfg.rescan = true) (result : ChunkResult) (s s' : State) (e : IpListEntry) :
    e ∈ (storeResults env cfg (guard env cfg result s).1 result s').1.dead ↔
    (storeResults env cfg (guard env cfg result s).1 result s').1.stores = true ∧
    e ∈ result.failures ∧ (scanWorkerIsIpv6 e, true) ∈ (guard env cfg result s).1.checks := by
  have hdead : e ∈ deadEntries cfg (guard env cfg result s).1 result ↔ e ∈ result.failures ∧
      (scanWorkerIsIpv6 e, true) ∈ (guard env cfg result s).1.checks := by
    unfold deadEntries
    rcases guard_cases env cfg result s with ⟨hno, hchecks⟩ | ⟨hno, hchecks⟩ | ⟨-, -, s1, hnet⟩
    · simp [hno, hchecks]
    · simp [hno, hchecks]
    · rw [hnet, checkNetwork_up]
      constructor
      · intro h
        split at h
        · rw [mem_filter] at h
          exact h
        · cases h
      · rintro ⟨hfailed, hup⟩
        obtain ⟨hguarded, hverified⟩ := checkNetwork_verified env hrescan result s1 hup
        rw [hrescan, hguarded, hverified, if_pos (by rfl), mem_filter]
        exact ⟨hfailed, hup⟩
  unfold storeResults
  rcases readPersist env s' with ⟨persist, s1⟩
  simp only
  split
  · simp only [true_and]
    exact hdead
  · simp

/-- The removals of one chunk of a rescan. -/
theorem chunk_evidence (env : Env) (hrescan : cfg.rescan = true) (s : State) :
    (Faithful (chunk env cfg s).1 → Conclusive (chunk env cfg s).1 → Evidence (chunk env cfg s).1) ∧
    (Evidence (chunk env cfg s).1 → Conclusive (chunk env cfg s).1) := by
  obtain ⟨first, answers, result, next, retests, s1, verdict, s2, store, s3, saved, s5, flow, s6,
    htest, hguard, hstore, -, -, hchunk⟩ := chunk_stages env cfg s
  rw [hchunk]
  have hdead : ∀ e, e ∈ store.dead ↔ store.stores = true ∧ e ∈ result.failures ∧ (scanWorkerIsIpv6 e, true) ∈ verdict.checks := by
    intro e
    have h := mem_dead_iff env hrescan result s1 s2 e
    simp only [hguard, hstore] at h
    exact h
  obtain ⟨-, -, haborted, hcut⟩ := runChunk_facts env cfg s (Nat.le_refl s.cursor)
  obtain ⟨next', s1', hrun, hcases⟩ := testChunk_cases htest
  simp only [hrun] at haborted hcut
  rcases hcases with ⟨herror, hnot, hrounds⟩ | ⟨hunconfirmed, rfl, rfl, rfl⟩
  · -- The failures were tested again; the first test was not cut short.
    refine ⟨fun hfaithful _ e he => ?_, fun _ hshort => ?_⟩
    · obtain ⟨-, hfailed, hcheck⟩ := (hdead e).1 he
      have hconfirmed := confirmRounds_failures env cfg s.cursor kScanWorkerRescanRetries first next' s1'
      rw [hrounds] at hconfirmed
      obtain ⟨hfirst, hlength, hall⟩ := hconfirmed hfaithful e hfailed
      exact ⟨hfirst, hlength, hall, hcheck⟩
    · rw [hcut herror hshort] at hnot
      cases hnot
  · refine ⟨fun _ hconclusive e he => ?_, fun hevidence _ hstores e hfailed hcheck => ?_⟩
    · obtain ⟨hstores, hfailed, hcheck⟩ := (hdead e).1 he
      -- The entry failed the first test without a re-test, so that test was aborted; by the core, since
      -- a stop would have kept the guard from checking the network.
      have hopen : result.error = "" ∧ s1.stop = false := by
        have hguards := guard_cases env cfg result s1
        simp only [hguard] at hguards
        rcases hguards with ⟨-, hnone⟩ | ⟨-, hnone⟩ | ⟨herror, hstop, -⟩
        · rw [hnone] at hcheck
          cases hcheck
        · rw [hnone] at hcheck
          cases hcheck
        · exact ⟨herror, hstop⟩
      have hshort : answers.cutShort = true := by
        rcases haborted (hunconfirmed hrescan hopen.1 (ne_nil_of_mem hfailed)) with hshort | hstop
        · exact hshort
        · rw [hopen.2] at hstop
          cases hstop
      exact absurd hcheck (hconclusive hshort hstores e hfailed)
    · obtain ⟨-, hlength, -⟩ := hevidence e ((hdead e).2 ⟨hstores, hfailed, hcheck⟩)
      have hzero : 0 = kScanWorkerRescanRetries := hlength
      cases hzero

/-- A rescan ends, and removes on full evidence in every chunk that is conclusive and faithful; among
faithful chunks, only in these. -/
theorem rescan_evidence (env : Env) (cfg : Config) (hrescan : cfg.rescan = true) (s : State) :
    ∃ pass, runChunks env cfg s = some pass ∧ ∀ log ∈ pass.logs,
    (Faithful log → Conclusive log → Evidence log) ∧ (Evidence log → Conclusive log) := by
  obtain ⟨pass, hpass, hlogs, -⟩ := runChunks_rule (fun _ => True)
    (fun log => (Faithful log → Conclusive log → Evidence log) ∧ (Evidence log → Conclusive log))
    (fun _ _ _ _ => trivial) (fun s _ _ => ⟨chunk_evidence env hrescan s, trivial⟩) s trivial
  exact ⟨pass, hpass, hlogs⟩

/-- A rescan of one entry, without a config test. -/
def oneEntryRescan : Config where
  rescan := true
  configPhase := false
  httpEnabled := false
  tcpEnabled := true
  icmpEnabled := false
  basePort := 0
  subBatch := 8
  stopAfter := 0
  total := 1
  resultId := some 3
  normalizeCidr text := text

/-- The state in which the pass starts. -/
def oneEntryStart : State := ⟨0, false, true, 0, 0, 0, []⟩

/-- The entry fails every test; the core says whether it cut the test short. The network is up. -/
def failingEnv (aborted : Bool) : Env where
  stopRequested _ := false
  persistDisabled _ := false
  scanProbe _ := ⟨true, "", "", [⟨"192.0.2.1", 443, 443, false, false, 0, 0, 0, 0⟩], 1, aborted⟩
  buildScanTestConfig _ := ⟨"", [], [], []⟩
  scanURLTest _ := ⟨true, "", [], []⟩
  scanCheckNetwork _ := (true, true)
  upsertEntries _ := true
  removeEntries _ := 1
  entryCount _ := 0

theorem rescan_evidence_confirmed : ∃ pass, runChunks (failingEnv false) oneEntryRescan oneEntryStart = some pass ∧
    pass.logs.map (·.store.dead) = [[⟨"192.0.2.1", 443, 0⟩]] ∧ ∀ log ∈ pass.logs, Evidence log := by
  obtain ⟨pass, hpass, hlogs⟩ := rescan_evidence (failingEnv false) oneEntryRescan rfl oneEntryStart
  have hdead : (runChunks (failingEnv false) oneEntryRescan oneEntryStart).map
      (fun pass => pass.logs.map (·.store.dead)) = some [[⟨"192.0.2.1", 443, 0⟩]] := by decide
  have hfaithful : ((runChunks (failingEnv false) oneEntryRescan oneEntryStart).map fun pass =>
    pass.logs.all fun log => log.retests.all fun t => t.result.failures.all (· ∈ t.asked)) =
    some true := by decide
  have hwhole : ((runChunks (failingEnv false) oneEntryRescan oneEntryStart).map fun pass =>
    pass.logs.all fun log => !log.answers.cutShort) = some true := by decide
  rw [hpass, Option.map_some, Option.some.injEq] at hdead hfaithful hwhole
  refine ⟨pass, hpass, hdead, fun log hlog => (hlogs log hlog).1 ?_ ?_⟩
  · intro t ht e he
    have hlogFaithful := all_eq_true.1 (all_eq_true.1 hfaithful log hlog) t ht
    exact of_decide_eq_true (all_eq_true.1 hlogFaithful e he)
  · intro hshort
    have hno := all_eq_true.1 hwhole log hlog
    rw [hshort] at hno
    cases hno

/-- A failure of a first test that the core cut short is removed without a single re-test. -/
theorem rescan_removes_unconfirmed : ∃ pass, runChunks (failingEnv true) oneEntryRescan oneEntryStart = some pass ∧
    ∃ log ∈ pass.logs, log.store.dead = [⟨"192.0.2.1", 443, 0⟩] ∧ log.retests.length = 0 ∧ ¬ Evidence log := by
  have hrun : (runChunks (failingEnv true) oneEntryRescan oneEntryStart).map (fun pass =>
    pass.logs.map fun log => (log.store.dead, log.retests.length)) =
    some [([⟨"192.0.2.1", 443, 0⟩], 0)] := by decide
  obtain ⟨pass, hpass, hlogs⟩ := Option.map_eq_some_iff.1 hrun
  obtain ⟨log, hlog, hpair⟩ := map_eq_singleton_iff.1 hlogs
  obtain ⟨hdead, hlength⟩ := Prod.mk.inj hpair
  refine ⟨pass, hpass, log, by rw [hlog]; exact mem_singleton_self log, hdead, hlength, ?_⟩
  intro hevidence
  obtain ⟨-, hretests, -⟩ := hevidence ⟨"192.0.2.1", 443, 0⟩ (by rw [hdead]; simp)
  rw [hlength] at hretests
  cases hretests

end Throne.Scanner
