import Throne.Database.TrafficStatsRepo
import Throne.Lib.Runs

/-!
# The bytes of the traffic statistics

`TrafficStatsManager` of `src/src/stats/traffic/TrafficStatsManager.cpp` collects bytes by profile and by
application over a minute of the clock and writes them to the tables of that minute when the next delta falls
into another one, or on a flush. A rollup moves old minutes into their hours.

Whatever the calls and the clock, no byte is lost or doubled on the way (`bytes_conserved`): what waits and
what the two tables hold sums up to what was credited. A delta is credited while the aggregation is on, to a
profile or to an application with a name. A rollup is not seen in the queries over whole hours, as long as no
delta was credited before 1970, in UTC and in the zone of the query.

The calls follow one another: the rows a call takes out of the collection are written before the next call.
Amounts have no bound here.
-/

namespace Throne.Stats.Traffic

open Lib.Texts Lib.Ledger Lib.Runs Database.Traffic

/-- `alignMinute`. -/
def alignMinute (secs : Int) : Int := secs.tdiv 60 * 60

structure State where
  configAccum : Amounts Int Bytes
  appAccum : Amounts Text Bytes
  /-- The path last written to `app_meta` for a process name. -/
  appMetaSeen : List (Text × Text)
  /-- The minute the collected bytes are of; 0 before the first. -/
  currentBucket : Int
  trafficStatsRepo : TrafficStatsRepo

/-- A start of the application over the tables of an earlier one. -/
def State.start (r : TrafficStatsRepo) : State := ⟨[], [], [], 0, r⟩

/-- A call with what it reads: the setting `disable_traffic_aggregation`, and the clock. -/
inductive Call
  | addConfigDelta (disabled : Bool) (now : Int) (profileId : Int) (up down : Int)
  | addAppDelta (disabled : Bool) (now metaNow : Int) (processName path : Text) (up down : Int)
  | flush (disabled : Bool)
  | rollupMinuteToHour (olderThanSecs : Int)

/-- One half of `drainLocked`: the rows of a bucket, without those of no bytes. -/
def drainRows {κ : Type} (bucket : Int) (accum : Amounts κ Bytes) : Amounts (Int × κ) Bytes :=
  (accum.filter fun row => decide (row.2 ≠ 0)).map fun row => ((bucket, row.1), row.2)

/-- `drainLocked` and `writeRows`; a batch of no rows changes nothing. -/
def State.drain (s : State) : State :=
  { s with
    configAccum := []
    appAccum := []
    trafficStatsRepo :=
      (s.trafficStatsRepo.UpsertConfigMinuteBatch (drainRows s.currentBucket s.configAccum)).UpsertAppMinuteBatch
        (drainRows s.currentBucket s.appAccum) }

/-- The bucket of a delta begins: the one that ended is written. -/
def State.turn (s : State) (now : Int) : State :=
  let nowBucket := alignMinute now
  { (if s.currentBucket ≠ 0 ∧ nowBucket ≠ s.currentBucket then s.drain else s) with
    currentBucket := nowBucket }

/-- The path of a process is written where it is not the one written before. -/
def State.seePath (s : State) (metaNow : Int) (processName path : Text) : State :=
  if path ≠ [] ∧ s.appMetaSeen.lookup processName ≠ some path then
    { s with
      appMetaSeen := (processName, path) :: s.appMetaSeen.filter fun m => decide (m.1 ≠ processName)
      trafficStatsRepo := s.trafficStatsRepo.UpsertAppMeta processName path metaNow }
  else s

def State.AddConfigDelta (s : State) (disabled : Bool) (now profileId up down : Int) : State :=
  if disabled then s
  else if up = 0 ∧ down = 0 then s
  else
    let s := s.turn now
    { s with configAccum := add profileId (up, down) s.configAccum }

def State.AddAppDelta (s : State) (disabled : Bool) (now metaNow : Int) (processName path : Text) (up down : Int) : State :=
  if disabled then s
  else if processName = [] ∨ (up = 0 ∧ down = 0) then s
  else
    let s := s.turn now
    { s with appAccum := add processName (up, down) s.appAccum }.seePath metaNow processName path

def State.Flush (s : State) (disabled : Bool) : State :=
  if disabled then s else if s.currentBucket = 0 then s else s.drain

def step (s : State) : Call → State
  | .addConfigDelta disabled now profileId up down => s.AddConfigDelta disabled now profileId up down
  | .addAppDelta disabled now metaNow processName path up down =>
    s.AddAppDelta disabled now metaNow processName path up down
  | .flush disabled => s.Flush disabled
  | .rollupMinuteToHour olderThanSecs =>
    { s with trafficStatsRepo := s.trafficStatsRepo.RollupMinuteToHour olderThanSecs }

/-! ## Where the bytes of a key are -/

section Held

variable {κ : Type} [DecidableEq κ] {key : κ} {accum : Amounts κ Bytes} {t : Tables κ}

/-- The bytes of a key in both tables. -/
def storedBytes (key : κ) (t : Tables κ) : Bytes :=
  total (fun k => decide (k.2 = key)) t.minute + total (fun k => decide (k.2 = key)) t.hour

/-- The bytes of a key that wait and those in the tables. -/
def heldBytes (key : κ) (accum : Amounts κ Bytes) (t : Tables κ) : Bytes :=
  total (fun k => decide (k = key)) accum + storedBytes key t

theorem heldBytes_add (k : κ) (amount : Bytes) : heldBytes key (add k amount accum) t = heldBytes key accum t + if k = key then amount else 0 := by
  rw [heldBytes, heldBytes, total_add]
  simp only [decide_eq_true_eq]
  abel

theorem total_drainRows (bucket : Int) : total (fun k => decide (k.2 = key)) (drainRows bucket accum) = total (fun k => decide (k = key)) accum := by
  rw [drainRows, ← total_nonzero _ accum]
  apply total_map _ (fun k : κ => (bucket, k))
  exact fun row _ => rfl

theorem heldBytes_drain (bucket : Int) : heldBytes key [] (t.UpsertMinuteBatch (drainRows bucket accum)) = heldBytes key accum t := by
  have hwritten := total_addAll (fun k : Int × κ => decide (k.2 = key)) (drainRows bucket accum) t.minute
  rw [total_drainRows] at hwritten
  rw [heldBytes, heldBytes, storedBytes, storedBytes, Tables.UpsertMinuteBatch, hwritten, total_nil]
  abel

theorem heldBytes_rollup (olderThanSecs : Int) : heldBytes key accum (t.rollup olderThanSecs) = heldBytes key accum t := by
  have hkeeps : KeepsHours (fun k : Int × κ => decide (k.2 = key)) t := fun row _ => rfl
  rw [heldBytes, heldBytes, storedBytes, storedBytes, total_rollup hkeeps]

end Held

/-- The bytes of a profile. -/
def State.configBytes (s : State) (profileId : Int) : Bytes := heldBytes profileId s.configAccum s.trafficStatsRepo.config_traffic

/-- The bytes of an application. -/
def State.appBytes (s : State) (processName : Text) : Bytes := heldBytes processName s.appAccum s.trafficStatsRepo.app_traffic

/-- What a call credits to a profile: its delta, while the aggregation is on. -/
def Call.configDelta (profileId : Int) : Call → Bytes
  | .addConfigDelta false _ id up down => if id = profileId then (up, down) else 0
  | _ => 0

/-- What a call credits to an application. -/
def Call.appDelta (processName : Text) : Call → Bytes
  | .addAppDelta false _ _ name _ up down => if name = processName ∧ name ≠ [] then (up, down) else 0
  | _ => 0

section Conserved

variable (s : State)

theorem configBytes_drain (profileId : Int) : s.drain.configBytes profileId = s.configBytes profileId := heldBytes_drain s.currentBucket

theorem appBytes_drain (processName : Text) : s.drain.appBytes processName = s.appBytes processName := heldBytes_drain s.currentBucket

theorem configBytes_turn (now profileId : Int) : (s.turn now).configBytes profileId = s.configBytes profileId := by
  unfold State.turn
  by_cases hends : s.currentBucket ≠ 0 ∧ alignMinute now ≠ s.currentBucket
  · simp only [if_pos hends]
    exact configBytes_drain s profileId
  · simp only [if_neg hends]
    rfl

theorem appBytes_turn (now : Int) (processName : Text) : (s.turn now).appBytes processName = s.appBytes processName := by
  unfold State.turn
  by_cases hends : s.currentBucket ≠ 0 ∧ alignMinute now ≠ s.currentBucket
  · simp only [if_pos hends]
    exact appBytes_drain s processName
  · simp only [if_neg hends]
    rfl

theorem configBytes_seePath (metaNow : Int) (processName path : Text) (profileId : Int) :
    (s.seePath metaNow processName path).configBytes profileId = s.configBytes profileId := by
  unfold State.seePath
  split <;> rfl

theorem appBytes_seePath (metaNow : Int) (name path processName : Text) :
    (s.seePath metaNow name path).appBytes processName = s.appBytes processName := by
  unfold State.seePath
  split <;> rfl

/-- A call adds what it credits to the bytes of a profile. -/
theorem configBytes_step (c : Call) (profileId : Int) : (step s c).configBytes profileId = s.configBytes profileId + c.configDelta profileId := by
  cases c with
  | addConfigDelta disabled now id up down =>
    cases disabled with
    | true => exact (add_zero _).symm
    | false =>
      show (State.AddConfigDelta s false now id up down).configBytes profileId = _ + if _ then _ else _
      unfold State.AddConfigDelta
      simp only [Bool.false_eq_true, if_false]
      by_cases hzero : up = 0 ∧ down = 0
      · obtain ⟨rfl, rfl⟩ := hzero
        rw [if_pos ⟨rfl, rfl⟩]
        show _ = _ + if _ then (0 : Bytes) else 0
        rw [ite_self, add_zero]
      · rw [if_neg hzero, ← configBytes_turn s now profileId]
        exact heldBytes_add id (up, down)
  | addAppDelta disabled now metaNow name path up down =>
    cases disabled with
    | true => exact (add_zero _).symm
    | false =>
      show (State.AddAppDelta s false now metaNow name path up down).configBytes profileId = _ + 0
      unfold State.AddAppDelta
      simp only [Bool.false_eq_true, if_false]
      rw [add_zero]
      split
      · rfl
      · rw [configBytes_seePath]
        exact configBytes_turn s now profileId
  | flush disabled =>
    show (s.Flush disabled).configBytes profileId = _ + 0
    unfold State.Flush
    rw [add_zero]
    split
    · rfl
    · split
      · rfl
      · exact configBytes_drain s profileId
  | rollupMinuteToHour olderThanSecs =>
    show heldBytes _ _ _ = _ + 0
    rw [add_zero]
    exact heldBytes_rollup olderThanSecs

theorem appBytes_step (c : Call) (processName : Text) : (step s c).appBytes processName = s.appBytes processName + c.appDelta processName := by
  cases c with
  | addConfigDelta disabled now id up down =>
    cases disabled with
    | true => exact (add_zero _).symm
    | false =>
      show (State.AddConfigDelta s false now id up down).appBytes processName = _ + 0
      unfold State.AddConfigDelta
      simp only [Bool.false_eq_true, if_false]
      rw [add_zero]
      split
      · rfl
      · exact appBytes_turn s now processName
  | addAppDelta disabled now metaNow name path up down =>
    cases disabled with
    | true => exact (add_zero _).symm
    | false =>
      show (State.AddAppDelta s false now metaNow name path up down).appBytes processName = _ + if _ then _ else _
      unfold State.AddAppDelta
      simp only [Bool.false_eq_true, if_false]
      by_cases hname : name = []
      · rw [if_pos (.inl hname), if_neg fun h => h.2 hname, add_zero]
      by_cases hzero : up = 0 ∧ down = 0
      · obtain ⟨rfl, rfl⟩ := hzero
        rw [if_pos (.inr ⟨rfl, rfl⟩)]
        show _ = _ + if _ then (0 : Bytes) else 0
        rw [ite_self, add_zero]
      · rw [if_neg fun h => h.elim hname hzero, appBytes_seePath, ← appBytes_turn s now processName]
        simp only [hname, ne_eq, not_false_eq_true, and_true]
        exact heldBytes_add name (up, down)
  | flush disabled =>
    show (s.Flush disabled).appBytes processName = _ + 0
    unfold State.Flush
    rw [add_zero]
    split
    · rfl
    · split
      · rfl
      · exact appBytes_drain s processName
  | rollupMinuteToHour olderThanSecs =>
    show heldBytes _ _ _ = _ + 0
    rw [add_zero]
    exact heldBytes_rollup olderThanSecs

theorem configBytes_run (calls : List Call) (profileId : Int) : (run step s calls).configBytes profileId =
    s.configBytes profileId + (calls.map (Call.configDelta profileId)).sum := by
  induction calls generalizing s with
  | nil => exact (add_zero _).symm
  | cons c calls ih => rw [run_cons, ih, configBytes_step, List.map_cons, List.sum_cons, add_assoc]

theorem appBytes_run (calls : List Call) (processName : Text) : (run step s calls).appBytes processName =
    s.appBytes processName + (calls.map (Call.appDelta processName)).sum := by
  induction calls generalizing s with
  | nil => exact (add_zero _).symm
  | cons c calls ih => rw [run_cons, ih, appBytes_step, List.map_cons, List.sum_cons, add_assoc]

end Conserved

/-! ## The minutes of the tables -/

/-- The clock of a delta that is credited. -/
def Call.creditTime : Call → Option Int
  | .addConfigDelta false now _ up down => if up = 0 ∧ down = 0 then none else some now
  | .addAppDelta false now _ name _ up down => if name = [] ∨ (up = 0 ∧ down = 0) then none else some now
  | _ => none

/-- The bucket being collected and all minutes of the tables are of a kind. -/
structure Minutes (P : Int → Prop) (s : State) : Prop where
  current : s.currentBucket ≠ 0 → P s.currentBucket
  config : ∀ row ∈ s.trafficStatsRepo.config_traffic.minute, P row.1.1
  app : ∀ row ∈ s.trafficStatsRepo.app_traffic.minute, P row.1.1

section Minutes

variable {P : Int → Prop} {s : State}

theorem drainRows_minutes {κ : Type} {bucket : Int} (accum : Amounts κ Bytes) (h : P bucket) : ∀ row ∈ drainRows bucket accum, P row.1.1 := by
  intro row hrow
  obtain ⟨waiting, -, rfl⟩ := List.mem_map.1 hrow
  exact h

theorem minutes_drain (h : Minutes P s) (hbucket : s.currentBucket ≠ 0) : Minutes P s.drain where
  current := h.current
  config := keys_addAll (P := fun key : Int × Int => P key.1) h.config
    (drainRows_minutes s.configAccum (h.current hbucket))
  app := keys_addAll (P := fun key : Int × Text => P key.1) h.app
    (drainRows_minutes s.appAccum (h.current hbucket))

theorem minutes_turn {now : Int} (h : Minutes P s) (hnow : P (alignMinute now)) : Minutes P (s.turn now) := by
  unfold State.turn
  by_cases hends : s.currentBucket ≠ 0 ∧ alignMinute now ≠ s.currentBucket
  · have hdrained := minutes_drain h hends.1
    simp only [if_pos hends]
    exact ⟨fun _ => hnow, hdrained.config, hdrained.app⟩
  · simp only [if_neg hends]
    exact ⟨fun _ => hnow, h.config, h.app⟩

theorem minutes_seePath (h : Minutes P s) (metaNow : Int) (processName path : Text) : Minutes P (s.seePath metaNow processName path) := by
  unfold State.seePath
  split
  · exact ⟨h.current, h.config, h.app⟩
  · exact h

theorem minutes_step {c : Call} (h : Minutes P s) (hcall : ∀ now ∈ c.creditTime, P (alignMinute now)) : Minutes P (step s c) := by
  cases c with
  | addConfigDelta disabled now id up down =>
    show Minutes P (s.AddConfigDelta disabled now id up down)
    unfold State.AddConfigDelta
    cases disabled with
    | true => exact h
    | false =>
      simp only [Bool.false_eq_true, if_false]
      split
      · exact h
      · next hzero =>
        have hturned := minutes_turn h (hcall now (if_neg hzero))
        exact ⟨hturned.current, hturned.config, hturned.app⟩
  | addAppDelta disabled now metaNow name path up down =>
    show Minutes P (s.AddAppDelta disabled now metaNow name path up down)
    unfold State.AddAppDelta
    cases disabled with
    | true => exact h
    | false =>
      simp only [Bool.false_eq_true, if_false]
      split
      · exact h
      · next hzero =>
        have hturned := minutes_turn h (hcall now (if_neg hzero))
        apply minutes_seePath
        exact ⟨hturned.current, hturned.config, hturned.app⟩
  | flush disabled =>
    show Minutes P (s.Flush disabled)
    unfold State.Flush
    split
    · exact h
    · split
      · exact h
      · next hbucket => exact minutes_drain h hbucket
  | rollupMinuteToHour olderThanSecs =>
    -- the minutes that stay were there before
    exact ⟨h.current, fun row hrow => h.config row (List.mem_of_mem_filter hrow), fun row hrow => h.app row (List.mem_of_mem_filter hrow)⟩

end Minutes

/-- No minute of the tables and no delta credited is of before 1970 in a zone. -/
def After1970 (utcOffsetSecs : Int) (r : TrafficStatsRepo) (calls : List Call) : Prop :=
  (∀ row ∈ r.config_traffic.minute, 0 ≤ row.1.1 + utcOffsetSecs) ∧ (∀ row ∈ r.app_traffic.minute, 0 ≤ row.1.1 + utcOffsetSecs) ∧
      ∀ c ∈ calls, ∀ now ∈ c.creditTime, 0 ≤ now + utcOffsetSecs

instance (utcOffsetSecs : Int) (r : TrafficStatsRepo) (calls : List Call) : Decidable (After1970 utcOffsetSecs r calls) :=
  inferInstanceAs (Decidable (_ ∧ _ ∧ _))

theorem alignMinute_after {now utcOffsetSecs : Int} (hoff : 3600 ∣ utcOffsetSecs) (hnow : 0 ≤ now + utcOffsetSecs)
    (hutc : 0 ≤ now) : 0 ≤ alignMinute now + utcOffsetSecs := by
  obtain ⟨k, rfl⟩ := hoff
  rw [alignMinute, Int.tdiv_eq_ediv_of_nonneg hutc]
  omega

theorem minutes_run {r : TrafficStatsRepo} {calls : List Call} {utcOffsetSecs : Int}
    (hoff : 3600 ∣ utcOffsetSecs) (hutc : After1970 0 r calls) (hlocal : After1970 utcOffsetSecs r calls) :
    Minutes (fun m => 0 ≤ m + utcOffsetSecs) (run step (State.start r) calls) := by
  have hsteps : Along step (fun _ c => ∀ now ∈ c.creditTime, 0 ≤ alignMinute now + utcOffsetSecs) (State.start r) calls := by
    apply along_of_forall
    intro c hc now hnow
    have hutcNow := hutc.2.2 c hc now hnow
    exact alignMinute_after hoff (hlocal.2.2 c hc now hnow) (by omega)
  apply inv_run (fun s c h hcall => minutes_step h hcall) calls (State.start r) ?_ hsteps
  exact ⟨fun h => absurd rfl h, hlocal.1, hlocal.2.1⟩

/-- **The statistics conserve bytes.** From any tables, after any calls, the bytes of a profile or of an
application that wait and are stored are those of the tables and those credited since. If no minute is of
before 1970, a rollup changes no usage over whole hours, and no series in whole hours whose zone has no minute
of before 1970 either. -/
theorem bytes_conserved (r : TrafficStatsRepo) (calls : List Call) : (∀ profileId, (run step (State.start r) calls).configBytes profileId =
      storedBytes profileId r.config_traffic + (calls.map (Call.configDelta profileId)).sum) ∧
    (∀ processName, (run step (State.start r) calls).appBytes processName =
      storedBytes processName r.app_traffic + (calls.map (Call.appDelta processName)).sum) ∧
    (After1970 0 r calls → ∀ fromSecs toSecs olderThanSecs, 3600 ∣ fromSecs → 3600 ∣ toSecs →
      let before := (run step (State.start r) calls).trafficStatsRepo
      let after := before.RollupMinuteToHour olderThanSecs
      after.QueryConfigUsage fromSecs toSecs = before.QueryConfigUsage fromSecs toSecs ∧
      after.QueryAppUsage fromSecs toSecs = before.QueryAppUsage fromSecs toSecs ∧
      ∀ bucketSecs utcOffsetSecs, 3600 ∣ bucketSecs → 3600 ∣ utcOffsetSecs → After1970 utcOffsetSecs r calls →
        after.QueryConfigSeries fromSecs toSecs bucketSecs utcOffsetSecs = before.QueryConfigSeries fromSecs toSecs bucketSecs utcOffsetSecs ∧
        after.QueryAppSeries fromSecs toSecs bucketSecs utcOffsetSecs = before.QueryAppSeries fromSecs toSecs bucketSecs utcOffsetSecs) := by
  refine ⟨fun profileId => ?_, fun processName => ?_, ?_⟩
  · rw [configBytes_run]
    congr 1
    exact zero_add _
  · rw [appBytes_run]
    congr 1
    exact zero_add _
  · intro hutc fromSecs toSecs olderThanSecs hfrom hto
    have hminutes := minutes_run (Int.dvd_zero 3600) hutc hutc
    have hconfig : ∀ row ∈ (run step (State.start r) calls).trafficStatsRepo.config_traffic.minute,
        0 ≤ row.1.1 := fun row hrow => by simpa using hminutes.config row hrow
    have happ : ∀ row ∈ (run step (State.start r) calls).trafficStatsRepo.app_traffic.minute,
        0 ≤ row.1.1 := fun row hrow => by simpa using hminutes.app row hrow
    refine ⟨usage_rollup hconfig hfrom hto olderThanSecs, usage_rollup happ hfrom hto olderThanSecs, ?_⟩
    intro bucketSecs utcOffsetSecs hbucket hoff hlocal
    have hzone := minutes_run hoff hutc hlocal
    exact ⟨series_rollup hconfig hzone.config hfrom hto hbucket hoff olderThanSecs, series_rollup happ hzone.app hfrom hto hbucket hoff olderThanSecs⟩

section Examples

/-- A delta to a profile and one to an application, of some minute, and a flush. -/
def someCalls (disabled : Bool) (now : Int) : List Call :=
  [.addConfigDelta disabled now 7 1 2, .addAppDelta disabled now now "curl".toList [] 3 5, .flush disabled]

def someRepo : TrafficStatsRepo := ⟨.empty, .empty, []⟩

theorem bytes_conserved_day : After1970 0 someRepo (someCalls false 90000) ∧ After1970 (-18000) someRepo (someCalls false 90000) ∧
      let before := (run step (State.start someRepo) (someCalls false 90000)).trafficStatsRepo
      before.QueryAppSeries 0 172800 86400 (-18000) 18000 = some (3, 5) ∧
        (before.RollupMinuteToHour 93600).QueryAppSeries 0 172800 86400 (-18000) 18000 = some (3, 5) := by
  have hutc : After1970 0 someRepo (someCalls false 90000) := by decide
  have hlocal : After1970 (-18000) someRepo (someCalls false 90000) := by decide
  have h := (bytes_conserved someRepo (someCalls false 90000)).2.2 hutc 0 172800 93600 (by decide) (by decide)
  have hseries := (h.2.2 86400 (-18000) (by decide) (by decide) hlocal).2
  have hbefore : (run step (State.start someRepo) (someCalls false 90000)).trafficStatsRepo.QueryAppSeries
      0 172800 86400 (-18000) 18000 = some (3, 5) := by decide
  exact ⟨hutc, hlocal, hbefore, (congrFun hseries 18000).trans hbefore⟩

/-- While the aggregation is off a delta is dropped. And the integer division of the queries rounds toward zero:
bytes of the first minute of 1970 are in the bucket from 01:00 UTC for a zone of five hours less, and a rollup
takes them to the one from 00:00. -/
theorem not_conserved : (run step (State.start someRepo) (someCalls true 90000)).configBytes 7 = 0 ∧
      let before := (run step (State.start someRepo) (someCalls false 60)).trafficStatsRepo
      before.QueryAppSeries 0 86400 3600 (-18000) 3600 = some (3, 5) ∧
        (before.RollupMinuteToHour 3600).QueryAppSeries 0 86400 3600 (-18000) 3600 = none ∧
          (before.RollupMinuteToHour 3600).QueryAppSeries 0 86400 3600 (-18000) 0 = some (3, 5) := by
  decide

end Examples

end Throne.Stats.Traffic
