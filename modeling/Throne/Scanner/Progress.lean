import Throne.Scanner.ScanWorker

/-!
# The cursor of a scan pass

The cursor of a pass is saved after every chunk, and a later pass resumes from it. The chunks of a pass
follow each other without a gap (`runChunks_contiguous`). `Kept` states what a saved cursor promises
about its chunk: it stays between the start of the chunk and the total, it moves only past a chunk that
was answered without error and verified, and every hit reported for the chunk is stored by then.
`progress_kept` shows it for every chunk in which the store takes the hits and no re-test is given up
with hits in it; both lose hits while the cursor moves on.
-/

namespace Throne.Scanner

open List

/-- The hits reported for the positions of a chunk, by its first test or by a re-test. -/
def reportedHits (log : ChunkLog) : List IpListEntry := log.first.hits ++ log.retests.flatMap (·.result.hits)

/-- What a saved cursor promises about its chunk. -/
def Kept (cfg : Config) (log : ChunkLog) : Prop :=
  ∀ cursor stored, log.saved = some (cursor, stored) → (log.start ≤ cursor ∧ cursor ≤ cfg.total) ∧
    (log.start < cursor → log.first.error = "" ∧ log.verdict.unverified = false) ∧
    (log.start < cursor → ∀ hit ∈ reportedHits log, hit ∈ stored)

/-- A re-test that ended with an error or was aborted. -/
def Retest.givenUp (t : Retest) : Prop := t.result.error ≠ "" ∨ t.result.aborted = true

/-- In a chunk that was answered without error and verified, the store takes the hits and no re-test is
given up with hits in it. -/
def NothingDropped (log : ChunkLog) : Prop :=
  log.first.error = "" → log.verdict.unverified = false → log.store.upserted ≠ some false ∧ ∀ t ∈ log.retests, t.givenUp → t.result.hits = []

/-- Chunks that follow each other without a gap. -/
def Contiguous : Nat → List ChunkLog → Nat → Prop
  | start, [], cursor => start = cursor
  | start, log :: logs, cursor => log.start = start ∧ Contiguous log.cursor logs cursor

/-- Re-tests keep the error and the hits, and add the hits of every round that counts. -/
theorem confirmRounds_hits (env : Env) (cfg : Config) (chunkStart rounds : Nat) : ∀ (result : ChunkResult) (next : Nat) (s : State),
    (confirmRounds env cfg chunkStart rounds result next s).1.error = result.error ∧ (∀ hit ∈ result.hits,
    hit ∈ (confirmRounds env cfg chunkStart rounds result next s).1.hits) ∧
    ∀ t ∈ (confirmRounds env cfg chunkStart rounds result next s).2.2.1, t.givenUp ∨ ∀ hit ∈ t.result.hits,
    hit ∈ (confirmRounds env cfg chunkStart rounds result next s).1.hits := by
  induction rounds with
  | zero => exact fun result next s => ⟨rfl, fun _ h => h, by simp [confirmRounds]⟩
  | succ rounds ih =>
    intro result next s
    unfold confirmRounds
    by_cases hnone : result.failures = []
    · rw [if_pos hnone]
      exact ⟨rfl, fun _ h => h, by simp⟩
    · rw [if_neg hnone]
      rcases hread : readStop env s with ⟨stop, s1⟩
      cases stop with
      | true => exact ⟨rfl, fun _ h => h, by simp⟩
      | false =>
        rcases hretry : runChunk env cfg 0 0 s1 with ⟨retry, answers, retryNext, s2⟩
        cases hfailed : decide (retry.error ≠ "") || retry.aborted with
        | true =>
          rcases hread' : readStop env s2 with ⟨stop', s3⟩
          have hgivenUp : Retest.givenUp ⟨result.failures, retry⟩ := by
            rcases Bool.or_eq_true_iff.1 hfailed with herror | haborted
            · exact .inl (of_decide_eq_true herror)
            · exact .inr haborted
          simp only [hretry, hfailed, hread', Bool.false_eq_true, if_true, if_false]
          cases stop' with
          | true | false => exact ⟨rfl, fun _ h => h, by simp [hgivenUp]⟩
        | false =>
          simp only [hretry, hfailed, Bool.false_eq_true, if_false]
          obtain ⟨herror, hhits, hrest⟩ := ih
            { result with
              hits := result.hits ++ retry.hits
              replaced := result.replaced ++ retry.replaced
              localFailures := result.localFailures ++ retry.localFailures
              failures := retry.failures } next s2
          refine ⟨herror, fun hit hhit => hhits hit (mem_append_left _ hhit), ?_⟩
          intro t ht
          rcases mem_cons.1 ht with rfl | ht
          · exact .inr fun hit hhit => hhits hit (mem_append_right _ hhit)
          · exact hrest t ht

variable {s : State}

theorem testChunk_hits (env : Env) (cfg : Config) {s1 : State} {first result : ChunkResult}
    {answers : TestAnswers} {next : Nat} {retests : List Retest} (h : testChunk env cfg s = (first, answers, result, next, retests, s1)) :
    result.error = first.error ∧ (∀ hit ∈ first.hits, hit ∈ result.hits) ∧
    ∀ t ∈ retests, t.givenUp ∨ ∀ hit ∈ t.result.hits, hit ∈ result.hits := by
  obtain ⟨next', s1', -, ⟨-, -, hrounds⟩ | ⟨-, rfl, rfl, -⟩⟩ := testChunk_cases h
  · have hhits := confirmRounds_hits env cfg s.cursor kScanWorkerRescanRetries first next' s1'
    rw [hrounds] at hhits
    exact hhits
  · exact ⟨rfl, fun _ hhit => hhit, by simp⟩

variable {cfg : Config} {s' : State}

/-- Hits are stored if the scan has a list, persistence is on and the store takes them. -/
theorem storeResults_stored {env : Env} (hlist : cfg.resultId.isSome = true) {verdict : Verdict} {result : ChunkResult} {store : StoreLog}
    (h : storeResults env cfg verdict result s = (store, s')) (hpersist : s'.persist = true)
    (hupserted : store.upserted ≠ some false) : ∀ hit ∈ result.hits, hit ∈ s'.stored := by
  intro hit hhit
  unfold storeResults at h
  rcases hread : readPersist env s with ⟨persist, s1⟩
  obtain ⟨-, hs1⟩ := readPersist_spec hread
  simp only [hread] at h
  cases persist with
  | false =>
    rw [Bool.false_and, if_neg Bool.false_ne_true] at h
    cases h
    rw [hs1] at hpersist
    cases hpersist
  | true =>
    rw [hlist, Bool.true_and, if_pos rfl] at h
    cases h
    -- Removing and counting leave what is stored alone.
    have hremoved : ∀ (dead : List IpListEntry) (s2 : State), (removeDead env dead (removeReplaced cfg result s2)).stored = s2.stored := by
      intro dead s2
      have hreplaced : (removeReplaced cfg result s2).stored = s2.stored := by
        unfold removeReplaced
        split <;> rfl
      unfold removeDead
      split <;> exact hreplaced
    show hit ∈ (removeDead env _ (removeReplaced cfg result (storeHits env result.hits s1).2)).stored
    rw [hremoved]
    have hcalled : (storeHits env result.hits s1).1 ≠ some false := hupserted
    unfold storeHits at hcalled ⊢
    rw [if_neg (ne_nil_of_mem hhit)] at hcalled ⊢
    split at hcalled
    · next hok =>
      rw [if_pos hok]
      exact mem_append_right _ hhit
    · exact absurd rfl hcalled

/-- The save reads `persist_` and takes the cursor and the stored entries as they are. -/
theorem saveProgress_spec {env : Env} {cursor : Nat} {stored : List IpListEntry} (h : saveProgress env s = (some (cursor, stored), s')) :
    s'.persist = true ∧ cursor = s.cursor ∧ stored = s.stored := by
  unfold saveProgress at h
  rcases hread : readPersist env s with ⟨persist, s1⟩
  obtain ⟨hpersist, hs1⟩ := Prod.mk.inj hread
  simp only [hread] at h
  cases persist with
  | false =>
    rw [if_neg Bool.false_ne_true] at h
    cases (Prod.mk.inj h).1
  | true =>
    rw [if_pos rfl, Prod.mk.injEq, Option.some.injEq, Prod.mk.injEq] at h
    obtain ⟨⟨rfl, rfl⟩, rfl⟩ := h
    subst hs1
    exact ⟨hpersist, rfl, rfl⟩

/-- A scan without a result list does not persist. -/
def ListOrNotPersist (cfg : Config) (s : State) : Prop := cfg.resultId.isSome = true ∨ s.persist = false

theorem listOrNotPersist_of_persist (h : s'.persist = true → s.persist = true) (hs : ListOrNotPersist cfg s) : ListOrNotPersist cfg s' := by
  rcases hs with hlist | hoff
  · exact .inl hlist
  · right
    cases hp : s'.persist with
    | false => rfl
    | true =>
      rw [h hp] at hoff
      cases hoff

/-- A chunk starts at the cursor and leaves it where its log says. -/
theorem chunk_cursor (env : Env) (cfg : Config) (s : State) : (chunk env cfg s).1.start = s.cursor ∧
    (chunk env cfg s).1.cursor = (chunk env cfg s).2.2.cursor := by
  obtain ⟨first, answers, result, next, retests, s1, verdict, s2, store, s3, saved, s5, flow, s6,
    htest, hguard, hstore, hsave, hafter, hchunk⟩ := chunk_stages env cfg s
  rw [hchunk]
  have hsaves := saveProgress_later env { s3 with
    cursor := movedCursor cfg s.cursor next verdict result }
  rw [hsave] at hsaves
  obtain ⟨hafters, -, -⟩ := afterChunk_facts env cfg s.cursor verdict result s5
  rw [hafter] at hafters
  exact ⟨rfl, (hafters.cursor.trans hsaves.cursor).symm⟩

/-- What the saved cursor of one chunk promises. -/
theorem chunk_kept (env : Env) (hs : ListOrNotPersist cfg s) (hcursor : s.cursor < cfg.total) :
    (NothingDropped (chunk env cfg s).1 → Kept cfg (chunk env cfg s).1) ∧ ListOrNotPersist cfg (chunk env cfg s).2.2 := by
  obtain ⟨first, answers, result, next, retests, s1, verdict, s2, store, s3, saved, s5, flow, s6,
    htest, hguard, hstore, hsave, hafter, hchunk⟩ := chunk_stages env cfg s
  rw [hchunk]
  obtain ⟨htests, hnext⟩ := testChunk_later env cfg s
  rw [htest] at htests hnext
  have hguards := guard_later env cfg result s1
  rw [hguard] at hguards
  have hstores := storeResults_later env cfg verdict result s2
  rw [hstore] at hstores
  have hsaves := saveProgress_later env { s3 with
    cursor := movedCursor cfg s.cursor next verdict result }
  rw [hsave] at hsaves
  obtain ⟨hafters, -, -⟩ := afterChunk_facts env cfg s.cursor verdict result s5
  rw [hafter] at hafters
  obtain ⟨hge, hle, hmoved⟩ := movedCursor_facts cfg verdict result (Nat.le_of_lt hcursor) hnext
  obtain ⟨herror, hfirst, hretests⟩ := testChunk_hits env cfg htest
  have hbefore := (htests.trans hguards).trans hstores
  refine ⟨fun hdropped cursor stored hsaved => ?_, ?_⟩
  · have hlog : saved = some (cursor, stored) := hsaved
    rw [hlog] at hsave
    obtain ⟨hpersist, rfl, rfl⟩ := saveProgress_spec hsave
    refine ⟨⟨hge, hle⟩, fun hlt => ?_, fun hlt hit hhit => ?_⟩
    · obtain ⟨hresult, hverified⟩ := hmoved hlt
      exact ⟨herror ▸ hresult, hverified⟩
    · obtain ⟨hresult, hverified⟩ := hmoved hlt
      obtain ⟨hupserted, hgivenUp⟩ := hdropped (herror ▸ hresult) hverified
      have hon : s3.persist = true := hsaves.persist hpersist
      have hlist : cfg.resultId.isSome = true := by
        rcases listOrNotPersist_of_persist hbefore.persist hs with hlist | hoff
        · exact hlist
        · rw [hon] at hoff
          cases hoff
      apply storeResults_stored hlist hstore hon hupserted
      rcases mem_append.1 hhit with hhit | hhit
      · exact hfirst hit hhit
      · obtain ⟨t, ht, hhit⟩ := mem_flatMap.1 hhit
        rcases hretests t ht with hup | hall
        · rw [hgivenUp t ht hup] at hhit
          cases hhit
        · exact hall hit hhit
  · exact listOrNotPersist_of_persist (fun h => hbefore.persist (hsaves.persist (hafters.persist h))) hs

/-- The chunks of a pass follow each other from the cursor it starts with to the one it ends with. -/
theorem loop_contiguous (env : Env) (cfg : Config) : ∀ (fuel : Nat) (s : State) (pass : Pass), loop env cfg fuel s = some pass →
    Contiguous s.cursor pass.logs pass.state.cursor := by
  intro fuel
  induction fuel with
  | zero =>
    intro s pass h
    cases h
  | succ fuel ih =>
    intro s pass h
    unfold loop at h
    split at h
    · cases h
      rfl
    · split at h
      · cases h
        rfl
      · rcases hread : readStop env s with ⟨stop, s1⟩
        obtain ⟨hlater, -⟩ := readStop_spec hread
        simp only [hread] at h
        cases stop with
        | true =>
          cases h
          exact hlater.cursor.symm
        | false =>
          obtain ⟨hstart, hend⟩ := chunk_cursor env cfg s1
          rcases hrun : chunk env cfg s1 with ⟨log, flow, s2⟩
          rw [hrun] at hstart hend
          simp only [Bool.false_eq_true, if_false, hrun] at h
          cases flow with
          | done message =>
            cases h
            exact ⟨hstart.trans hlater.cursor, hend⟩
          | again =>
            obtain ⟨rest, hrest, rfl⟩ := Option.map_eq_some_iff.1 h
            refine ⟨hstart.trans hlater.cursor, ?_⟩
            rw [show log.cursor = s2.cursor from hend]
            exact ih s2 rest hrest

/-- A scan pass never skips a target and never loses a hit, as far as the store takes the hits and no
re-test is given up with hits in it. The pass ends; its chunks follow each other without a gap; every
saved cursor keeps its promises; and the pass is complete only when the cursor reached the total or an
initial scan has found enough. -/
theorem progress_kept (env : Env) (cfg : Config) (s : State) (hlist : ListOrNotPersist cfg s) :
    ∃ pass, runChunks env cfg s = some pass ∧ Contiguous s.cursor pass.logs pass.state.cursor ∧
    (∀ log ∈ pass.logs, NothingDropped log → Kept cfg log) ∧ (pass.completed = true → cfg.total ≤ pass.state.cursor ∨
    (cfg.rescan = false ∧ 0 < cfg.stopAfter ∧ cfg.stopAfter ≤ pass.state.found)) := by
  obtain ⟨pass, hpass, hlogs, hcomplete⟩ := runChunks_rule (ListOrNotPersist cfg) (fun log => NothingDropped log → Kept cfg log)
    (fun _ _ hlater hs => listOrNotPersist_of_persist hlater.persist hs)
    (fun s hs hcursor => chunk_kept env hs hcursor) s hlist
  have hcontiguous := loop_contiguous env cfg _ _ pass hpass
  rw [(refreshFound_later env cfg s).cursor] at hcontiguous
  refine ⟨pass, hpass, hcontiguous, hlogs, fun hdone => ?_⟩
  rcases hcomplete hdone with hfound | htotal
  · right
    simpa [enoughFound, and_assoc] using hfound
  · exact .inl htotal

/-- A scan over one position, without a config test. -/
def onePositionScan (rescan : Bool) : Config where
  rescan := rescan
  configPhase := false
  httpEnabled := false
  tcpEnabled := true
  icmpEnabled := false
  basePort := 0
  subBatch := 8
  stopAfter := 0
  total := 1
  resultId := some 3
  normalizeCidr text := text

/-- The state in which the pass starts. -/
def onePositionStart : State := ⟨0, false, true, 0, 0, 0, []⟩

/-- An answer about the position: whether it passed, and whether the core cut the probe short. -/
def onePositionAnswer (passed aborted : Bool) : ScanProbeResponse :=
  ⟨true, "", "", [⟨"192.0.2.1", 443, 443, passed, false, 0, 0, 20, 0⟩], 1, aborted⟩

/-- The core answers as `probe` says, the network is up and the store takes the hits or not. -/
def onePositionEnv (probe : Nat → ScanProbeResponse) (upserts : Bool) : Env where
  stopRequested _ := false
  persistDisabled _ := false
  scanProbe := probe
  buildScanTestConfig _ := ⟨"", [], [], []⟩
  scanURLTest _ := ⟨true, "", [], []⟩
  scanCheckNetwork _ := (true, true)
  upsertEntries _ := upserts
  removeEntries _ := 0
  entryCount _ := 1

/-- A hit that is stored before the cursor moves past its position. -/
theorem progress_kept_hit : ∃ pass, runChunks (onePositionEnv (fun _ => onePositionAnswer true false) true)
    (onePositionScan false) onePositionStart = some pass ∧ pass.logs.map (·.saved) = [some (1, [⟨"192.0.2.1", 443, 20⟩])] ∧
    ∀ log ∈ pass.logs, Kept (onePositionScan false) log := by
  obtain ⟨pass, hpass, -, hlogs, -⟩ :=
    progress_kept (onePositionEnv (fun _ => onePositionAnswer true false) true) (onePositionScan false) onePositionStart (.inl rfl)
  have hsaved : (runChunks (onePositionEnv (fun _ => onePositionAnswer true false) true)
      (onePositionScan false) onePositionStart).map (fun pass => pass.logs.map (·.saved)) =
      some [some (1, [⟨"192.0.2.1", 443, 20⟩])] := by decide
  have hstore : (runChunks (onePositionEnv (fun _ => onePositionAnswer true false) true)
      (onePositionScan false) onePositionStart).map (fun pass => pass.logs.all fun log =>
        log.store.upserted ≠ some false && log.retests.isEmpty) = some true := by decide
  rw [hpass, Option.map_some, Option.some.injEq] at hsaved hstore
  refine ⟨pass, hpass, hsaved, fun log hlog => hlogs log hlog fun _ _ => ?_⟩
  have hlogStore := all_eq_true.1 hstore log hlog
  rw [Bool.and_eq_true, decide_eq_true_eq, List.isEmpty_iff] at hlogStore
  refine ⟨hlogStore.1, fun t ht => ?_⟩
  rw [hlogStore.2] at ht
  cases ht

/-- The cursor moves past a hit that the store did not take, and past a hit of a re-test that the core
cut short. -/
theorem progress_loses_hits : (∃ pass, runChunks (onePositionEnv (fun _ => onePositionAnswer true false) false)
        (onePositionScan false) onePositionStart = some pass ∧
      ∃ log ∈ pass.logs, ¬ Kept (onePositionScan false) log) ∧
    ∃ pass, runChunks (onePositionEnv (fun tick =>
      if tick = 3 then onePositionAnswer false false else onePositionAnswer true true) true)
      (onePositionScan true) onePositionStart = some pass ∧
      ∃ log ∈ pass.logs, ¬ Kept (onePositionScan true) log := by
  -- In both runs the saved cursor is one and nothing is stored, while a hit was reported.
  have hlost : ∀ (cfg : Config) (run : Option Pass), (run.map fun pass => pass.logs.map fun log => (log.start, log.saved, reportedHits log)) =
        some [(0, some (1, []), [⟨"192.0.2.1", 443, 20⟩])] →
      ∃ pass, run = some pass ∧ ∃ log ∈ pass.logs, ¬ Kept cfg log := by
    intro cfg run hrun
    obtain ⟨pass, hpass, hlogs⟩ := Option.map_eq_some_iff.1 hrun
    obtain ⟨log, hlog, htriple⟩ := map_eq_singleton_iff.1 hlogs
    simp only [Prod.mk.injEq] at htriple
    obtain ⟨hstart, hsaved, hhits⟩ := htriple
    refine ⟨pass, hpass, log, by rw [hlog]; exact mem_singleton_self log, fun hkept => ?_⟩
    have hstored := (hkept 1 [] hsaved).2.2 (by rw [hstart]; exact Nat.one_pos)
    rw [hhits] at hstored
    exact absurd (hstored _ mem_cons_self) not_mem_nil
  exact ⟨hlost _ _ rfl, hlost _ _ rfl⟩

end Throne.Scanner
