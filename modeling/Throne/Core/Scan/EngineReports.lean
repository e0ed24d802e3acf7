import Throne.Core.Scan.Engine
import Throne.Core.Scan.TargetsExact

/-!
# What a probe call reports

Every schedule of a call keeps its books right (`Consistent`): a position is finished exactly when
its worker has published, each publication adds one result for the position's target, and the session
has counted one probe for each result and for each worker between counting and publishing. A worker
that goes on after the abort check carries a measurement, never a failure of the abort.

A response therefore has exactly one result for each position of its chunk that was published, among
them every position below `NextCursor`. It can have results beyond `NextCursor`: when a call is
aborted while an earlier position is unfinished, the later ones that finished are reported now and
probed again by the next call.
-/

namespace Throne.Core.Scan

open Lib.Runs Lib.Lists List

/-- The result says something about its target: it is not a refusal for want of an egress and not an
error of the cancelled context. -/
def Result.Measured (r : Result) : Prop := r.cause ≠ some .noEgress ∧ r.cause ≠ some .aborted

def WorkerOk (chunk : Chunk) (cancelled : Bool) (i : Nat) : Phase → Prop
  | .dialed r => r.target = chunk.target i ∧ (r.cause = some .aborted → cancelled = true)
  | .judged r => r.target = chunk.target i ∧ r.Measured
  | .recorded r => r.target = chunk.target i ∧ r.Measured
  | _ => True

variable {i : Nat}

theorem WorkerOk.mono {chunk : Chunk} {c c' : Bool} {w : Phase} (h : WorkerOk chunk c i w) (hc : c = true → c' = true) : WorkerOk chunk c' i w := by
  cases w with
  | dialed r => exact ⟨h.1, fun hr => hc (h.2 hr)⟩
  | judged r | recorded r => exact h
  | dialing | losing | leaving reported | gone reported => trivial

structure Consistent (chunk : Chunk) (before : Counters) (s : RunState) : Prop where
  launched : s.workers.length ≤ chunk.count
  room : s.launcher = .acquired → s.workers.length < chunk.count
  finished_length : s.finished.length = chunk.count
  nodup : s.order.Nodup
  order : ∀ i, i ∈ s.order ↔ ∃ w, s.workers[i]? = some w ∧ w.reported = true
  finished : ∀ i : Nat, s.finished[i]? = some true ↔ i ∈ s.order
  results : s.results.map Result.target = s.order.map chunk.target
  measured : ∀ r ∈ s.results, r.Measured
  worker : ∀ (i : Nat) w, s.workers[i]? = some w → WorkerOk chunk s.cancelled i w
  probed : s.counters.probed = before.probed + s.results.length + s.workers.countP Phase.isRecorded

theorem consistent_start (chunk : Chunk) (before : Counters) (cancelled : Bool) :
    Consistent chunk before (RunState.start chunk before cancelled) where
  launched := Nat.zero_le _
  room h := by cases h
  finished_length := length_replicate
  nodup := nodup_nil
  order i := by simp [RunState.start]
  finished i := by
    simp only [RunState.start, not_mem_nil, iff_false]
    intro h
    have := mem_of_getElem? h
    rw [mem_replicate] at this
    cases this.2
  results := rfl
  measured r hr := by cases hr
  worker i w hw := by cases hw
  probed := rfl

section Steps

variable {chunk : Chunk} {before : Counters} {s : RunState}

section

variable (h : Consistent chunk before s)

include h

/-- Steps that touch no worker and no book; the context can only become done. -/
theorem Consistent.keep {t : RunState} (hworkers : t.workers = s.workers) (hroom : t.launcher = .acquired → s.workers.length < chunk.count)
    (hbooks : t.finished = s.finished ∧ t.results = s.results ∧ t.order = s.order ∧ t.counters = s.counters)
    (hcancel : s.cancelled = true → t.cancelled = true) : Consistent chunk before t := by
  obtain ⟨hfin, hres, hord, hcnt⟩ := hbooks
  constructor
  · rw [hworkers]
    exact h.launched
  · rw [hworkers]
    exact hroom
  · rw [hfin]
    exact h.finished_length
  · rw [hord]
    exact h.nodup
  · rw [hord, hworkers]
    exact h.order
  · rw [hfin, hord]
    exact h.finished
  · rw [hres, hord]
    exact h.results
  · rw [hres]
    exact h.measured
  · intro i w hw
    rw [hworkers] at hw
    exact (h.worker i w hw).mono hcancel
  · rw [hcnt, hres, hworkers]
    exact h.probed

/-- A worker moves without publishing; the session counts it when it enters the phase after its
count. -/
theorem Consistent.move {t : RunState} {w w' : Phase}
    (hw : s.workers[i]? = some w) (hworkers : t.workers = s.workers.set i w') (hlauncher : t.launcher = s.launcher)
    (hbooks : t.finished = s.finished ∧ t.results = s.results ∧ t.order = s.order) (hcancel : s.cancelled = true → t.cancelled = true)
    (hreported : w'.reported = w.reported) (hok : WorkerOk chunk t.cancelled i w')
    (hprobed : t.counters.probed + (if w.isRecorded then 1 else 0)
    = s.counters.probed + (if w'.isRecorded then 1 else 0)) : Consistent chunk before t := by
  obtain ⟨hfin, hres, hord⟩ := hbooks
  have hlt : i < s.workers.length := (List.getElem?_eq_some_iff.1 hw).1
  constructor
  · rw [hworkers, length_set]
    exact h.launched
  · rw [hworkers, length_set, hlauncher]
    exact h.room
  · rw [hfin]
    exact h.finished_length
  · rw [hord]
    exact h.nodup
  · intro j
    rw [hord, h.order j, hworkers]
    constructor
    · rintro ⟨v, hv, hrep⟩
      by_cases hij : i = j
      · subst hij
        have hvw : v = w := Option.some.inj (hv.symm.trans hw)
        subst hvw
        exact ⟨w', getElem?_set_self hlt, hreported.trans hrep⟩
      · exact ⟨v, (getElem?_set_ne hij).trans hv, hrep⟩
    · rintro ⟨v, hv, hrep⟩
      rcases getElem?_set_some hv with ⟨rfl, rfl⟩ | ⟨_, hv'⟩
      · exact ⟨w, hw, hreported.symm.trans hrep⟩
      · exact ⟨v, hv', hrep⟩
  · rw [hfin, hord]
    exact h.finished
  · rw [hres, hord]
    exact h.results
  · rw [hres]
    exact h.measured
  · intro j v hv
    rw [hworkers] at hv
    rcases getElem?_set_some hv with ⟨rfl, rfl⟩ | ⟨_, hv'⟩
    · exact hok
    · exact (h.worker j v hv').mono hcancel
  · have hcount := countP_set w' Phase.isRecorded hw
    have hold := h.probed
    rw [hres, hworkers]
    omega

/-- A worker publishes its result. -/
theorem Consistent.publish {r : Result} (hw : s.workers[i]? = some (.recorded r)) : Consistent chunk before { s.setWorker i (.leaving true) with
      finished := s.finished.set i true
      results := s.results ++ [r]
      order := s.order ++ [i] } := by
  have hlt : i < s.workers.length := (List.getElem?_eq_some_iff.1 hw).1
  have hfresh : i ∉ s.order := by
    intro hi
    obtain ⟨w, hw', hrep⟩ := (h.order i).1 hi
    have : w = .recorded r := Option.some.inj (hw'.symm.trans hw)
    subst this
    cases hrep
  obtain ⟨htarget, hmeasured⟩ := h.worker i _ hw
  constructor
  · show (s.workers.set i _).length ≤ _
    rw [length_set]
    exact h.launched
  · show s.launcher = _ → (s.workers.set i _).length < _
    rw [length_set]
    exact h.room
  · show (s.finished.set i true).length = _
    rw [length_set]
    exact h.finished_length
  · show (s.order ++ [i]).Nodup
    rw [nodup_append]
    refine ⟨h.nodup, nodup_singleton i, ?_⟩
    intro a ha b hb
    rw [mem_singleton] at hb
    rintro rfl
    exact hfresh (hb ▸ ha)
  · intro j
    show j ∈ s.order ++ [i] ↔ ∃ w, (s.workers.set i (.leaving true))[j]? = some w ∧ _
    rw [mem_append, mem_singleton, h.order j]
    constructor
    · rintro (⟨w, hv, hrep⟩ | rfl)
      · by_cases hij : i = j
        · subst hij
          exact ⟨_, getElem?_set_self hlt, rfl⟩
        · exact ⟨w, (getElem?_set_ne hij).trans hv, hrep⟩
      · exact ⟨_, getElem?_set_self hlt, rfl⟩
    · rintro ⟨w, hv, hrep⟩
      rcases getElem?_set_some hv with ⟨rfl, _⟩ | ⟨_, hv'⟩
      · exact .inr rfl
      · exact .inl ⟨w, hv', hrep⟩
  · intro j
    show (s.finished.set i true)[j]? = some true ↔ j ∈ s.order ++ [i]
    rw [mem_append, mem_singleton, ← h.finished j]
    constructor
    · intro hj
      rcases getElem?_set_some hj with ⟨rfl, _⟩ | ⟨_, hj'⟩
      · exact .inr rfl
      · exact .inl hj'
    · have hin : i < s.finished.length := by
        rw [h.finished_length]
        exact lt_of_lt_of_le hlt h.launched
      rintro (hj | rfl)
      · by_cases hij : i = j
        · subst hij
          exact getElem?_set_self hin
        · exact (getElem?_set_ne hij).trans hj
      · exact getElem?_set_self hin
  · show (s.results ++ [r]).map Result.target = (s.order ++ [i]).map chunk.target
    rw [map_append, map_append, h.results, map_singleton, map_singleton, htarget]
  · intro r' hr'
    rcases mem_append.1 hr' with hold | hnew
    · exact h.measured r' hold
    · rw [mem_singleton] at hnew
      rw [hnew]
      exact hmeasured
  · intro j v hv
    rcases getElem?_set_some hv with ⟨rfl, rfl⟩ | ⟨_, hv'⟩
    · trivial
    · exact h.worker j v hv'
  · show s.counters.probed = before.probed + (s.results ++ [r]).length + (s.workers.set i (.leaving true)).countP Phase.isRecorded
    -- The worker was counted before and its result is counted now.
    have hcount := countP_set (.leaving true) Phase.isRecorded hw
    have hold := h.probed
    rw [length_append, length_singleton]
    simp only [Phase.isRecorded, if_true, Bool.false_eq_true, if_false] at hcount
    omega

theorem consistent_work (i : Nat) : Consistent chunk before (work s i) := by
  cases hw : s.workers[i]? with
  | none =>
    rw [work, hw]
    exact h
  | some w =>
    have hok := h.worker i w hw
    rw [work, hw]
    cases w with
    | dialing | gone reported => exact h
    | recorded r => exact h.publish hw
    | leaving reported =>
      exact h.move hw rfl rfl ⟨rfl, rfl, rfl⟩ (fun hc => hc) rfl trivial rfl
    | losing => exact h.move hw rfl rfl ⟨rfl, rfl, rfl⟩ (fun _ => rfl) rfl trivial rfl
    | judged r => exact h.move hw rfl rfl ⟨rfl, rfl, rfl⟩ (fun hc => hc) rfl hok rfl
    | dialed r =>
      dsimp only
      split
      · exact h.move hw rfl rfl ⟨rfl, rfl, rfl⟩ (fun hc => hc) rfl trivial rfl
      · rename_i hegress
        split
        · exact h.move hw rfl rfl ⟨rfl, rfl, rfl⟩ (fun hc => hc) rfl trivial rfl
        · rename_i hkeep
          -- A failure of the abort has not passed, and the run is cancelled by now.
          have haborted : r.cause ≠ some .aborted := by
            intro hcause
            apply hkeep
            refine ⟨?_, hok.2 hcause⟩
            rw [Result.cause] at hcause
            rw [Result.passed]
            cases hout : r.outcome with
            | passed report =>
              rw [hout] at hcause
              cases hcause
            | failed cause report | panicked report => rfl
          exact h.move hw rfl rfl ⟨rfl, rfl, rfl⟩ (fun hc => hc) rfl ⟨hok.1, hegress, haborted⟩ rfl

theorem consistent_step (e : Event) : Consistent chunk before (step chunk s e) := by
  cases e with
  | cancel => exact h.keep rfl h.room ⟨rfl, rfl, rfl, rfl⟩ (fun _ => rfl)
  | acquire =>
    rw [step]
    split
    · rename_i hfree
      exact h.keep rfl (fun _ => hfree.2.1) ⟨rfl, rfl, rfl, rfl⟩ (fun hc => hc)
    · exact h
  | giveUp =>
    rw [step]
    split
    · exact h.keep rfl (nofun) ⟨rfl, rfl, rfl, rfl⟩ (fun hc => hc)
    · exact h
  | spawn =>
    rw [step]
    split
    · rename_i hacquired
      split
      · exact h.keep rfl (nofun) ⟨rfl, rfl, rfl, rfl⟩ (fun hc => hc)
      · -- A new worker has published nothing and was not counted.
        have hroom := h.room hacquired
        have hnew : ∀ (i : Nat) w, (s.workers ++ [Phase.dialing])[i]? = some w → s.workers[i]? = some w ∨ w = .dialing := by
          intro i w hw
          rcases getElem?_concat_some hw with hold | ⟨_, hlast⟩
          · exact .inl hold
          · exact .inr hlast
        refine ⟨?_, fun hl => (by cases hl), h.finished_length, h.nodup, ?_, h.finished, h.results, h.measured, ?_, ?_⟩
        · show (s.workers ++ [Phase.dialing]).length ≤ _
          rw [length_append, length_singleton]
          omega
        · intro i
          rw [h.order i]
          constructor
          · rintro ⟨w, hw, hrep⟩
            exact ⟨w, getElem?_append_some hw, hrep⟩
          · rintro ⟨w, hw, hrep⟩
            rcases hnew i w hw with hold | rfl
            · exact ⟨w, hold, hrep⟩
            · cases hrep
        · intro i w hw
          rcases hnew i w hw with hold | rfl
          · exact h.worker i w hold
          · trivial
        · show _ = _ + (s.workers ++ [Phase.dialing]).countP Phase.isRecorded
          rw [countP_append]
          exact h.probed
    · exact h
  | dial i outcome =>
    rw [step]
    split
    · rename_i hdial
      exact h.move hdial.1 rfl rfl ⟨rfl, rfl, rfl⟩ (fun hc => hc) rfl ⟨rfl, hdial.2⟩ rfl
    · exact h
  | work i => exact consistent_work h i

end

theorem consistent_run (schedule : List Event) (cancelled : Bool) : Consistent chunk before
    (run (step chunk) (RunState.start chunk before cancelled) schedule) := by
  have hkept : ∀ s e, Consistent chunk before s → Consistent chunk before (step chunk s e) :=
    fun _ e hs => consistent_step hs e
  exact inv_run_all hkept schedule _ (consistent_start chunk before cancelled)

end Steps

/-! ## The response -/

/-- The positions of the chunk of a request. -/
def inChunk (t : Targets) (req : ProbeRequest) (p : Nat) : Prop := req.cursor ≤ p ∧ p < req.cursor + chunkCount t req

/-- `ps` are the positions of the results of a response, in the same order. -/
structure Reports (t : Targets) (setup : Setup) (req : ProbeRequest) (before after : Counters)
    (response : ProbeResponse) (ps : List Nat) : Prop where
  /-- Each result is the one of its position, no position has two. -/
  nodup : ps.Nodup
  results : response.results.map (fun r => some r.target) = ps.map t.At
  chunk : ∀ p ∈ ps, inChunk t req p
  /-- Every position from the cursor to the next cursor has its result. -/
  below : ∀ p, req.cursor ≤ p → p < response.nextCursor → p ∈ ps
  next_le : response.nextCursor ≤ t.total
  forward : req.cursor ≤ t.total → req.cursor ≤ response.nextCursor
  /-- Without an error of the setup, the call is aborted exactly when a position of the chunk has no
  result, and the next cursor is the first of them. -/
  aborted : response.aborted = true ↔ setupError setup t req = none ∧ ∃ p, inChunk t req p ∧ p ∉ ps
  first : response.aborted = true → inChunk t req response.nextCursor ∧ response.nextCursor ∉ ps
  inside : response.aborted = false → ∀ p ∈ ps, p < response.nextCursor
  whole : response.aborted = false → setupError setup t req = none → req.cursor ≤ t.total → response.nextCursor = req.cursor + chunkCount t req
  measured : ∀ r ∈ response.results, r.Measured
  probed : after.probed = before.probed + response.results.length

theorem chunkCount_le (t : Targets) (req : ProbeRequest) (h : req.cursor ≤ t.total) : req.cursor + chunkCount t req ≤ t.total := by
  rw [chunkCount]
  split
  · omega
  · have := Nat.min_le_right (min req.maxTargets.toNat maxChunkTargets) (t.total - req.cursor)
    omega

theorem at_target (net : Netip) (spec : Spec) {p : Nat} (hp : p < (NewTargets net spec).total) :
    (NewTargets net spec).At p = some ((NewTargets net spec).target p) := by
  obtain ⟨hlaid, -⟩ := laidOut_newTargets net spec
  have hvalid := entryOk_validEntries net spec
  obtain ⟨order, hperm, hat⟩ := at?_eq net spec
  obtain ⟨k, r, port, _, _, _, _, hloc⟩ := hlaid.locate_eq hvalid (hperm.lt hp)
  rw [Targets.target, Targets.At, hat p hp, hloc]
  rfl

variable {net : Netip} {req : ProbeRequest}

/-- Results for positions of the chunk are results for positions of the target set. -/
theorem results_at {results : List Result} {is : List Nat} (hcursor : req.cursor ≤ (NewTargets net req.spec).total)
    (hin : ∀ i ∈ is, i < chunkCount (NewTargets net req.spec) req) (hresults : results.map Result.target
    = is.map (Probe.chunk (NewTargets net req.spec) req).target) : results.map (fun r => some r.target)
    = (is.map (req.cursor + ·)).map (NewTargets net req.spec).At := by
  have hsome : results.map (fun r => some r.target) = (results.map Result.target).map some := by
    rw [map_map]
    rfl
  rw [hsome, hresults, map_map, map_map]
  apply map_congr_left
  intro i hi
  have hlt := hin i hi
  have hle := chunkCount_le (NewTargets net req.spec) req hcursor
  show some ((NewTargets net req.spec).target (req.cursor + i)) = _
  rw [Function.comp_apply, at_target net req.spec (by omega)]

variable {setup : Setup}

/-- The response to a request that takes no position, or whose setup fails. -/
theorem reports_empty (counters : Counters) (h : chunkCount (NewTargets net req.spec) req = 0 ∨
    setupError setup (NewTargets net req.spec) req ≠ none) :
    Reports (NewTargets net req.spec) setup req counters counters (emptyResponse (NewTargets net req.spec) req) [] where
  nodup := nodup_nil
  results := rfl
  chunk p hp := by cases hp
  below p hle hlt := by
    have hmin : p < min req.cursor (NewTargets net req.spec).total := hlt
    omega
  next_le := Nat.min_le_right _ _
  forward hcursor := by
    show req.cursor ≤ min req.cursor _
    omega
  aborted := by
    constructor
    · intro habort
      cases habort
    · rintro ⟨hok, p, ⟨hle, hlt⟩, _⟩
      rcases h with hzero | herr
      · omega
      · exact absurd hok herr
  first habort := by cases habort
  inside _ p hp := by cases hp
  whole _ hok hcursor := by
    rcases h with hzero | herr
    · rw [hzero]
      exact Nat.min_eq_left hcursor
    · exact absurd hok herr
  measured r hr := by cases hr
  probed := rfl

theorem foldl_recordProbe (l : List Nat) (c : Counters) : (l.foldl (fun c _ => c.recordProbe true) c).probed = c.probed + l.length := by
  induction l generalizing c with
  | nil => rfl
  | cons a l ih =>
    rw [foldl_cons, ih, length_cons, Counters.recordProbe]
    dsimp only
    omega

/-- A call without phases. -/
theorem reports_passAll (counters : Counters) (hcursor : req.cursor ≤ (NewTargets net req.spec).total) :
    Reports (NewTargets net req.spec) setup req counters (passAll (NewTargets net req.spec) req counters).1
    (passAll (NewTargets net req.spec) req counters).2 ((List.range (chunkCount (NewTargets net req.spec) req)).map (req.cursor + ·)) := by
  have hmem : ∀ p, p ∈ (List.range (chunkCount (NewTargets net req.spec) req)).map (req.cursor + ·) ↔ inChunk (NewTargets net req.spec) req p := by
    intro p
    rw [mem_map, inChunk]
    constructor
    · rintro ⟨i, hi, rfl⟩
      rw [mem_range] at hi
      omega
    · rintro ⟨hle, hlt⟩
      exact ⟨p - req.cursor, by rw [mem_range]; omega, by omega⟩
  constructor
  · exact List.nodup_range.map fun a b hab => Nat.add_left_cancel hab
  · apply results_at hcursor
    · intro i hi
      exact mem_range.1 hi
    · rw [passAll, map_map]
      rfl
  · intro p hp
    exact (hmem p).1 hp
  · intro p hle hlt
    exact (hmem p).2 ⟨hle, hlt⟩
  · exact chunkCount_le _ req hcursor
  · intro _
    exact Nat.le_add_right _ _
  · constructor
    · intro habort
      cases habort
    · rintro ⟨_, p, hp, hnot⟩
      exact absurd ((hmem p).2 hp) hnot
  · intro habort
    cases habort
  · intro _ p hp
    exact ((hmem p).1 hp).2
  · intro _ _ _
    rfl
  · intro r hr
    obtain ⟨i, _, rfl⟩ := mem_map.1 hr
    exact ⟨fun hc => (by cases hc), fun hc => (by cases hc)⟩
  · rw [passAll]
    dsimp only
    rw [foldl_recordProbe, length_map]

variable {before : Counters}

/-- A call whose workers have all gone. -/
theorem reports_final {s : RunState} (hcursor : req.cursor ≤ (NewTargets net req.spec).total)
    (hsetup : setupError setup (NewTargets net req.spec) req = none) (h : Consistent (Probe.chunk (NewTargets net req.spec) req) before s)
    (hret : s.returned (Probe.chunk (NewTargets net req.spec) req) = true) : Reports (NewTargets net req.spec) setup req before s.counters
    (finalResponse (NewTargets net req.spec) req s) (s.order.map (req.cursor + ·)) := by
  generalize ht : NewTargets net req.spec = t at *
  have hcount : (Probe.chunk t req).count = chunkCount t req := rfl
  have hfinlen : s.finished.length = chunkCount t req := h.finished_length
  have hlt : ∀ i ∈ s.order, i < chunkCount t req := by
    intro i hi
    have := (List.getElem?_eq_some_iff.1 ((h.finished i).2 hi)).1
    omega
  have hmem : ∀ p, p ∈ s.order.map (req.cursor + ·) ↔ req.cursor ≤ p ∧ p - req.cursor ∈ s.order := by
    intro p
    rw [mem_map]
    constructor
    · rintro ⟨i, hi, rfl⟩
      exact ⟨by omega, by rwa [Nat.add_sub_cancel_left]⟩
    · rintro ⟨hle, hi⟩
      exact ⟨p - req.cursor, hi, by omega⟩
  -- Every worker is gone, so none is between the count and the publication.
  have hgone : s.workers.countP Phase.isRecorded = 0 := by
    rw [countP_eq_zero]
    intro w hw hrec
    rw [RunState.returned, Bool.and_eq_true, all_eq_true] at hret
    have := hret.2 w hw
    cases w with
    | recorded r => cases this
    | _ => cases hrec
  have hprobed : s.counters.probed = before.probed + s.results.length := by
    have := h.probed
    omega
  have hcommon : s.results.map (fun r => some r.target) = (s.order.map (req.cursor + ·)).map t.At := by
    subst ht
    exact results_at hcursor hlt h.results
  have hnodup : (s.order.map (req.cursor + ·)).Nodup :=
    h.nodup.map fun a b hab => Nat.add_left_cancel hab
  have hchunk : ∀ p ∈ s.order.map (req.cursor + ·), inChunk t req p := by
    intro p hp
    obtain ⟨hle, hi⟩ := (hmem p).1 hp
    have := hlt _ hi
    exact ⟨hle, by omega⟩
  have hle := chunkCount_le t req hcursor
  rw [finalResponse]
  cases hfind : s.finished.findIdx? fun done => !done with
  | none =>
    -- Every position is finished.
    have hall : ∀ i, i < chunkCount t req → i ∈ s.order := by
      intro i hi
      apply (h.finished i).1
      rw [findIdx?_eq_none_iff] at hfind
      have hget : s.finished[i]? = some s.finished[i] := getElem?_eq_getElem (by omega)
      have := hfind _ (mem_of_getElem? hget)
      rw [hget]
      simpa using this
    have hin : ∀ p, inChunk t req p → p ∈ s.order.map (req.cursor + ·) := by
      rintro p ⟨hle', hlt'⟩
      exact (hmem p).2 ⟨hle', hall _ (by omega)⟩
    refine ⟨hnodup, hcommon, hchunk, fun p h1 h2 => hin p ⟨h1, h2⟩, hle,
      fun _ => Nat.le_add_right _ _, ?_, ?_, fun _ p hp => (hchunk p hp).2, fun _ _ _ => rfl, h.measured, hprobed⟩
    · constructor
      · intro habort
        cases habort
      · rintro ⟨_, p, hp, hnot⟩
        exact absurd (hin p hp) hnot
    · intro habort
      cases habort
  | some i =>
    obtain ⟨hi, hnot, hbefore⟩ := findIdx?_eq_some_iff_getElem.1 hfind
    -- The first unfinished position has no result, all before it have theirs.
    have hunfinished : i ∉ s.order := by
      intro hmem'
      have := (h.finished i).2 hmem'
      rw [getElem?_eq_getElem hi, Option.some.injEq] at this
      rw [this] at hnot
      cases hnot
    have hall : ∀ j, j < i → j ∈ s.order := by
      intro j hj
      apply (h.finished j).1
      have hjlen : j < s.finished.length := by omega
      have := hbefore j hj
      rw [getElem?_eq_getElem hjlen]
      simpa using this
    have hfirst : inChunk t req (req.cursor + i) ∧ req.cursor + i ∉ s.order.map (req.cursor + ·) := by
      refine ⟨⟨by omega, by omega⟩, ?_⟩
      rw [hmem, Nat.add_sub_cancel_left]
      exact fun hin => hunfinished hin.2
    refine ⟨hnodup, hcommon, hchunk, ?_, ?_, fun _ => Nat.le_add_right _ _, ?_, fun _ => hfirst,
      fun habort => (by cases habort), fun habort => (by cases habort), h.measured, hprobed⟩
    · intro p hle' hlt'
      have hlt'' : p < req.cursor + i := hlt'
      exact (hmem p).2 ⟨hle', hall _ (by omega)⟩
    · show req.cursor + i ≤ t.total
      omega
    · exact ⟨fun _ => ⟨hsetup, _, hfirst.1, hfirst.2⟩, fun _ => rfl⟩

variable {t : Targets}

theorem chunkCount_pos (h : ¬(req.maxTargets ≤ 0 ∨ t.total ≤ req.cursor)) : req.cursor ≤ t.total := by
  rw [not_or] at h
  omega

variable {after : Counters} {response : ProbeResponse}

/-- Whatever the schedule, a call that returns reports as it should. -/
theorem reports_of_probe {cancelled : Bool} {schedule : List Event} {err : Option String}
    (h : Probe net setup before cancelled req schedule = some (after, response, err)) :
    ∃ ps, Reports (NewTargets net req.spec) setup req before after response ps := by
  rw [Probe] at h
  dsimp only at h
  split at h
  · -- Nothing to probe.
    rename_i hnone
    obtain ⟨rfl, rfl, _⟩ := h
    exact ⟨[], reports_empty before (.inl (by rw [chunkCount, if_pos hnone]))⟩
  · rename_i hsome
    have hcursor := chunkCount_pos hsome
    split at h
    · rename_i hplan
      obtain ⟨rfl, rfl, _⟩ := h
      refine ⟨[], reports_empty before (.inr ?_)⟩
      rw [setupError, if_pos hplan]
      exact hplan.2
    · split at h
      · obtain ⟨rfl, rfl, _⟩ := h
        exact ⟨_, reports_passAll before hcursor⟩
      · split at h
        · rename_i e herr
          obtain ⟨rfl, rfl, _⟩ := h
          refine ⟨[], reports_empty before (.inr ?_)⟩
          rw [herr]
          exact Option.some_ne_none e
        · rename_i hok
          split at h
          · rename_i hret
            obtain ⟨rfl, rfl, _⟩ := h
            exact ⟨_, reports_final hcursor hok (consistent_run schedule cancelled) hret⟩
          · cases h

/-! ## Chains of calls -/

/-- One call of a chain: what it is asked beside the cursor, and what it meets. -/
structure ChainCall where
  setup : Setup
  cancelled : Bool
  req : ProbeRequest
  schedule : List Event

/-- The request of a call of the chain. -/
def ChainCall.request (call : ChainCall) (spec : Spec) (cursor : Nat) : ProbeRequest :=
  { call.req with spec := spec, cursor := cursor }

/-- Calls that go on at the next cursor of the call before; `none` when one of them does not return.
The result has the cursors and the responses, the last cursor and the counters. -/
def chain (net : Netip) (spec : Spec) : Nat → Counters → List ChainCall → Option (List ProbeResponse × Nat × Counters)
  | cursor, counters, [] => some ([], cursor, counters)
  | cursor, counters, call :: calls =>
    match Probe net call.setup counters call.cancelled (call.request spec cursor)
        call.schedule with
    | none => none
    | some (after, response, _) =>
      match chain net spec response.nextCursor after calls with
      | none => none
      | some (responses, last, final) => some (response :: responses, last, final)

/-- The positions a response is counted for: those below its next cursor. -/
def kept (response : ProbeResponse) (ps : List Nat) : List Nat :=
  ps.filter fun p => p < response.nextCursor

theorem Reports.kept_perm {ps : List Nat} (h : Reports t setup req before after response ps) :
    (kept response ps).Perm (List.range' req.cursor (response.nextCursor - req.cursor)) := by
  rw [kept, perm_ext_iff_of_nodup (h.nodup.filter _) nodup_range']
  intro p
  rw [mem_filter, decide_eq_true_eq, mem_range'_1]
  constructor
  · rintro ⟨hp, hlt⟩
    have := (h.chunk p hp).1
    omega
  · rintro ⟨hle, hlt⟩
    have hnext : p < response.nextCursor := by omega
    exact ⟨h.below p hle hnext, hnext⟩

/-- Two neighbouring stretches of positions. -/
theorem range'_glue {a b c : Nat} (hab : a ≤ b) (hbc : b ≤ c) : List.range' a (b - a) ++ List.range' b (c - b) = List.range' a (c - a) := by
  have hlen : c - a = (b - a) + (c - b) := by omega
  have hstart : b = a + 1 * (b - a) := by omega
  rw [hlen, ← range'_append, ← hstart]

/-- What a chain of calls reports. -/
structure ChainReports (t : Targets) (cursor last : Nat) (before after : Counters)
    (responses : List ProbeResponse) (pss : List (List Nat)) : Prop where
  /-- Each response reports for positions of its own. -/
  each : List.Forall₂ (fun response ps => ∃ setup req b a, Reports t setup req b a response ps) responses pss
  bounds : cursor ≤ last ∧ last ≤ t.total
  /-- The results below the next cursors of their responses are one for each position. -/
  once : ((responses.zip pss).flatMap fun rp => kept rp.1 rp.2).Perm (List.range' cursor (last - cursor))
  /-- Without an abort that is every result. -/
  whole : (∀ response ∈ responses, response.aborted = false) → pss.flatten.Perm (List.range' cursor (last - cursor))
  probed : after.probed = before.probed + (responses.map fun response => response.results.length).sum

theorem kept_of_not_aborted {ps : List Nat}
    (h : Reports t setup req before after response ps) (habort : response.aborted = false) : kept response ps = ps := by
  rw [kept, filter_eq_self]
  intro p hp
  exact decide_eq_true (h.inside habort p hp)

theorem chain_reports {spec : Spec} (calls : List ChainCall) {cursor last : Nat} {responses : List ProbeResponse}
    (hcursor : cursor ≤ (NewTargets net spec).total) (h : chain net spec cursor before calls = some (responses, last, after)) :
    ∃ pss, ChainReports (NewTargets net spec) cursor last before after responses pss := by
  induction calls generalizing cursor before responses with
  | nil =>
    obtain ⟨rfl, rfl, rfl⟩ := h
    refine ⟨[], .nil, ⟨le_refl _, hcursor⟩, ?_, ?_, rfl⟩
    · rw [Nat.sub_self]
      exact List.Perm.refl _
    · intro _
      rw [Nat.sub_self]
      exact List.Perm.refl _
  | cons call calls ih =>
    rw [chain] at h
    cases hprobe : Probe net call.setup before call.cancelled (call.request spec cursor) call.schedule with
    | none =>
      rw [hprobe] at h
      cases h
    | some result =>
      obtain ⟨middle, response, err⟩ := result
      rw [hprobe] at h
      dsimp only at h
      obtain ⟨ps, hreports⟩ := reports_of_probe hprobe
      have hreports' : Reports (NewTargets net spec) call.setup (call.request spec cursor) before middle response ps := hreports
      cases hrest : chain net spec response.nextCursor middle calls with
      | none =>
        rw [hrest] at h
        cases h
      | some rest =>
        obtain ⟨rs, last', final⟩ := rest
        rw [hrest] at h
        obtain ⟨rfl, rfl, rfl⟩ := h
        obtain ⟨pss, hpss⟩ := ih hreports'.next_le hrest
        have hforward : cursor ≤ response.nextCursor := hreports'.forward hcursor
        -- The positions of this call come before those of the calls after it.
        have hglue := range'_glue hforward hpss.bounds.1
        refine ⟨ps :: pss, .cons ⟨_, _, _, _, hreports'⟩ hpss.each, ⟨le_trans hforward hpss.bounds.1, hpss.bounds.2⟩, ?_, ?_, ?_⟩
        · rw [zip_cons_cons, flatMap_cons, ← hglue]
          exact hreports'.kept_perm.append hpss.once
        · intro hnone
          rw [flatten_cons, ← hglue]
          have hhead := hnone response mem_cons_self
          rw [← kept_of_not_aborted hreports' hhead]
          exact hreports'.kept_perm.append (hpss.whole fun r hr => hnone r (mem_cons_of_mem _ hr))
        · rw [hpss.probed, hreports'.probed, map_cons, sum_cons]
          omega

/-! ## Main result -/

/-- Every call that returns, whatever its workers, cancellations and losses of the egress, reports
one result for each of a set of positions of its chunk: all those below its next cursor, and none of
them a failure of the abort. Chained calls count each position once below their next cursors. -/
theorem probe_reports (net : Netip) : (∀ setup before cancelled req schedule after response err,
    Probe net setup before cancelled req schedule = some (after, response, err) →
    ∃ ps, Reports (NewTargets net req.spec) setup req before after response ps) ∧
    (∀ spec cursor before calls responses last after, cursor ≤ (NewTargets net spec).total →
    chain net spec cursor before calls = some (responses, last, after) →
    ∃ pss, ChainReports (NewTargets net spec) cursor last before after responses pss) := by
  constructor
  · intro setup before cancelled req schedule after response err h
    exact reports_of_probe h
  · intro spec cursor before calls responses last after hcursor h
    exact chain_reports calls hcursor h

/-- A setup without errors. -/
def plainSetup : Setup := ⟨none, fun _ => none⟩

/-- A TCP probe of the first two positions. -/
def twoTargets : ProbeRequest := ⟨smallSpec, 0, 2, false, true, false, 2⟩

def someReport : Report := ⟨"", "", 0, 3, 0, 0, 0, 80, false⟩

/-- Both workers dial; the second one passes and leaves, then the scan is stopped and the first one
fails by the abort. -/
def overtaken : List Event :=
  [.acquire, .spawn, .acquire, .spawn, .dial 1 (.passed someReport), .work 1, .work 1, .work 1,
    .work 1, .cancel, .dial 0 (.failed .aborted someReport), .work 0, .work 0]

/-- The response to the overtaken call. -/
def overtakenResponse : ProbeResponse := ⟨8, 0, true, [⟨(NewTargets smallNet smallSpec).target 1, .passed someReport⟩], 0, 0⟩

theorem probe_overtaken : Probe smallNet plainSetup ⟨5, 2⟩ false twoTargets overtaken = some (⟨6, 3⟩, overtakenResponse, none) := by
  decide

theorem probe_reports_overtaken : ∃ ps, Reports (NewTargets smallNet twoTargets.spec) plainSetup twoTargets ⟨5, 2⟩ ⟨6, 3⟩ overtakenResponse ps :=
  (probe_reports smallNet).1 plainSetup ⟨5, 2⟩ false twoTargets overtaken ⟨6, 3⟩ overtakenResponse none probe_overtaken

/-- The response of an aborted call has a result outside the positions from its cursor to its next
cursor: both are 0, and the target of position 1 is reported. -/
theorem result_beyond_next_cursor : ∃ after response, Probe smallNet plainSetup ⟨5, 2⟩ false twoTargets overtaken
    = some (after, response, none) ∧ twoTargets.cursor = 0 ∧ response.nextCursor = 0 ∧
    response.results.map Result.target = [(NewTargets smallNet smallSpec).target 1] :=
  ⟨_, _, probe_overtaken, rfl, rfl, by rw [overtakenResponse]; rfl⟩

end Throne.Core.Scan
