import Throne.Lib.Ledger
import Throne.Lib.Texts
import Mathlib.Algebra.Group.Prod
import Mathlib.Algebra.Order.Group.Int

/-!
# The tables of the traffic statistics

`TrafficStatsRepo` of `src/src/database/TrafficStatsRepo.cpp`: bytes by profile and by application, in a table
of minutes and a table of hours. A rollup moves the old minutes into their hours. The queries take both tables
together. SQLite's integer division rounds toward zero, so a row of before 1970 is moved to the hour after it,
and a bucket of before 1970 in the zone of the query is the one after (`hourOf_window`, `bucketExpr_hourOf`
are about the others).

A group of a query is there or not, and has its sum; the order of the rows of a result is that of the groups.
-/

namespace Throne.Database.Traffic

open Lib.Texts Lib.Ledger

/-- Bytes up and down. -/
abbrev Bytes := Int × Int

/-- `config_traffic_minute` and `config_traffic_hour`, or those of the applications. The primary key is the
start of the bucket with the profile or the process. -/
structure Tables (κ : Type) where
  minute : Amounts (Int × κ) Bytes
  hour : Amounts (Int × κ) Bytes

def Tables.empty {κ : Type} : Tables κ := ⟨[], []⟩

/-- The hour a rollup moves a minute to: `(bucket_start / 3600) * 3600`. -/
def hourOf (bucket_start : Int) : Int := bucket_start.tdiv 3600 * 3600

/-- `TrafficStatsRepo::bucketExpr`. -/
def bucketExpr (bucketSecs utcOffsetSecs bucket_start : Int) : Int :=
  (bucket_start + utcOffsetSecs).tdiv bucketSecs * bucketSecs - utcOffsetSecs

section Tables

variable {κ : Type} [DecidableEq κ]

/-- `UpsertConfigMinuteBatch` and `UpsertAppMinuteBatch`. -/
def Tables.UpsertMinuteBatch (rows : Amounts (Int × κ) Bytes) (t : Tables κ) : Tables κ :=
  { t with minute := addAll rows t.minute }

/-- One half of `RollupMinuteToHour`: the grouped sums of the old minutes are added to their hours, and the
minutes deleted. -/
def Tables.rollup (olderThanSecs : Int) (t : Tables κ) : Tables κ :=
  let old := t.minute.filter fun row => decide (row.1.1 < olderThanSecs)
  let grouped := addAll (old.map fun row => ((hourOf row.1.1, row.1.2), row.2)) []
  { minute := t.minute.filter fun row => !decide (row.1.1 < olderThanSecs)
    hour := addAll grouped t.hour }

/-- The rows of both tables in a window. -/
def Tables.window (t : Tables κ) (fromSecs toSecs : Int) : Amounts (Int × κ) Bytes :=
  (t.minute.filter fun row => decide (fromSecs ≤ row.1.1 ∧ row.1.1 < toSecs)) ++
    t.hour.filter fun row => decide (fromSecs ≤ row.1.1 ∧ row.1.1 < toSecs)

/-- `QueryConfigUsage` and `QueryAppUsage`. -/
def Tables.QueryUsage (t : Tables κ) (fromSecs toSecs : Int) : κ → Option Bytes := groupSum Prod.snd (t.window fromSecs toSecs)

/-- `QueryConfigSeries` and `QueryAppSeries`. -/
def Tables.QuerySeries (t : Tables κ) (fromSecs toSecs bucketSecs utcOffsetSecs : Int) : Int → Option Bytes :=
  if bucketSecs ≤ 0 then fun _ => none
  else groupSum (fun key => bucketExpr bucketSecs utcOffsetSecs key.1) (t.window fromSecs toSecs)

/-! ## What a rollup keeps -/

/-- Keys that are in or out together with their hour. -/
def KeepsHours (p : Int × κ → Bool) (t : Tables κ) : Prop := ∀ row ∈ t.minute, p (hourOf row.1.1, row.1.2) = p row.1

variable {p : Int × κ → Bool} {t : Tables κ}

section

variable (h : KeepsHours p t) (olderThanSecs : Int)

include h olderThanSecs

/-- The old minutes under their hours. -/
theorem moved_total : total p ((t.minute.filter fun row => decide (row.1.1 < olderThanSecs)).map fun row =>
      ((hourOf row.1.1, row.1.2), row.2)) =
        total p (t.minute.filter fun row => decide (row.1.1 < olderThanSecs)) := by
  apply total_map p fun key : Int × κ => (hourOf key.1, key.2)
  intro row hrow
  exact h row (List.mem_of_mem_filter hrow)

theorem moved_has : has p ((t.minute.filter fun row => decide (row.1.1 < olderThanSecs)).map fun row =>
      ((hourOf row.1.1, row.1.2), row.2)) =
        has p (t.minute.filter fun row => decide (row.1.1 < olderThanSecs)) := by
  apply has_map p fun key : Int × κ => (hourOf key.1, key.2)
  intro row hrow
  exact h row (List.mem_of_mem_filter hrow)

theorem total_rollup : total p (t.rollup olderThanSecs).minute + total p (t.rollup olderThanSecs).hour = total p t.minute + total p t.hour := by
  have hsplit := total_split p (fun key => decide (key.1 < olderThanSecs)) t.minute
  rw [Tables.rollup, total_addAll, total_addAll, moved_total h, total_nil, zero_add, ← hsplit]
  abel

theorem has_rollup : (has p (t.rollup olderThanSecs).minute || has p (t.rollup olderThanSecs).hour) = (has p t.minute || has p t.hour) := by
  have hsplit := has_split p (fun key => decide (key.1 < olderThanSecs)) t.minute
  rw [Tables.rollup, has_addAll, has_addAll, moved_has h, ← hsplit]
  show (_ || (_ || (false || _))) = _
  rw [Bool.false_or, ← Bool.or_assoc, Bool.or_right_comm, Bool.or_comm (has p _) (has p (List.filter _ _))]

end

omit [DecidableEq κ] in
/-- A grouped sum over the window of the tables. -/
theorem groupSum_window {γ : Type} [DecidableEq γ] (group : Int × κ → γ) (t : Tables κ)
    (fromSecs toSecs : Int) (g : γ) : groupSum group (t.window fromSecs toSecs) g =
    if (has (fun key => decide (fromSecs ≤ key.1 ∧ key.1 < toSecs) && decide (group key = g)) t.minute ||
    has (fun key => decide (fromSecs ≤ key.1 ∧ key.1 < toSecs) && decide (group key = g)) t.hour) then
    some (total (fun key => decide (fromSecs ≤ key.1 ∧ key.1 < toSecs) && decide (group key = g)) t.minute +
    total (fun key => decide (fromSecs ≤ key.1 ∧ key.1 < toSecs) && decide (group key = g)) t.hour) else none :=
  groupSum_union group (fun key => decide (fromSecs ≤ key.1 ∧ key.1 < toSecs)) t.minute t.hour g

/-- Where the window and the groups do not tell a minute from its hour, a rollup changes no grouped sum. -/
theorem groupSum_rollup {γ : Type} [DecidableEq γ] {group : Int × κ → γ} {fromSecs toSecs : Int} (hwindow : ∀ row ∈ t.minute,
    (fromSecs ≤ hourOf row.1.1 ∧ hourOf row.1.1 < toSecs ↔ fromSecs ≤ row.1.1 ∧ row.1.1 < toSecs))
    (hgroup : ∀ row ∈ t.minute, group (hourOf row.1.1, row.1.2) = group row.1) (olderThanSecs : Int) :
    groupSum group ((t.rollup olderThanSecs).window fromSecs toSecs) = groupSum group (t.window fromSecs toSecs) := by
  funext g
  have hkeeps : KeepsHours (fun key => decide (fromSecs ≤ key.1 ∧ key.1 < toSecs) && decide (group key = g)) t := by
    intro row hrow
    simp only [hwindow row hrow, hgroup row hrow]
  rw [groupSum_window, groupSum_window, total_rollup hkeeps, has_rollup hkeeps]

end Tables

/-! ## Hours and buckets of after 1970 -/

/-- An hour is on the same side of a full hour as its minutes. -/
theorem hourOf_le_iff {q m : Int} (hm : 0 ≤ m) (hq : 3600 ∣ q) : q ≤ hourOf m ↔ q ≤ m := by
  obtain ⟨k, rfl⟩ := hq
  rw [hourOf, Int.tdiv_eq_ediv_of_nonneg hm]
  omega

theorem hourOf_window {fromSecs toSecs m : Int} (hm : 0 ≤ m) (hfrom : 3600 ∣ fromSecs) (hto : 3600 ∣ toSecs) :
    fromSecs ≤ hourOf m ∧ hourOf m < toSecs ↔ fromSecs ≤ m ∧ m < toSecs := by
  have h1 := hourOf_le_iff hm hfrom
  have h2 := hourOf_le_iff hm hto
  omega

/-- A bucket of whole hours holds a minute and its hour. -/
theorem bucketExpr_hourOf {bucketSecs utcOffsetSecs m : Int} (hm : 0 ≤ m) (hlocal : 0 ≤ m + utcOffsetSecs)
    (hbucket : 3600 ∣ bucketSecs) (hoff : 3600 ∣ utcOffsetSecs) (hpos : 0 < bucketSecs) :
    bucketExpr bucketSecs utcOffsetSecs (hourOf m) = bucketExpr bucketSecs utcOffsetSecs m := by
  have hhour : hourOf m = m / 3600 * 3600 := by rw [hourOf, Int.tdiv_eq_ediv_of_nonneg hm]
  obtain ⟨k, rfl⟩ := hbucket
  obtain ⟨j, rfl⟩ := hoff
  have hk : 0 < k := by omega
  have hlocal' : 0 ≤ hourOf m + 3600 * j := by omega
  -- in hours, both are the hour of the minute in the zone
  have hsame (x : Int) (hx : (x + 3600 * j) / 3600 = m / 3600 + j) : (x + 3600 * j) / (3600 * k) = (m / 3600 + j) / k := by
    rw [← Int.ediv_ediv_of_nonneg (by omega), hx]
  rw [bucketExpr, bucketExpr, Int.tdiv_eq_ediv_of_nonneg hlocal', Int.tdiv_eq_ediv_of_nonneg hlocal, hsame (hourOf m) (by omega), hsame m (by omega)]

/-! ## The repository -/

/-- A row of `app_meta`. -/
structure AppMetaRow where
  process_name : Text
  last_path : Text
  first_seen : Int
  last_seen : Int

structure TrafficStatsRepo where
  config_traffic : Tables Int
  app_traffic : Tables Text
  app_meta : List AppMetaRow

namespace TrafficStatsRepo

variable (r : TrafficStatsRepo)

def UpsertConfigMinuteBatch (rows : Amounts (Int × Int) Bytes) : TrafficStatsRepo :=
  { r with config_traffic := r.config_traffic.UpsertMinuteBatch rows }

def UpsertAppMinuteBatch (rows : Amounts (Int × Text) Bytes) : TrafficStatsRepo :=
  { r with app_traffic := r.app_traffic.UpsertMinuteBatch rows }

/-- The path and the time are refreshed, `first_seen` is kept. -/
def UpsertAppMeta (processName lastPath : Text) (nowSecs : Int) : TrafficStatsRepo :=
  { r with app_meta :=
      if r.app_meta.any fun m => decide (m.process_name = processName) then
        r.app_meta.map fun m =>
          if m.process_name = processName then { m with last_path := lastPath, last_seen := nowSecs } else m
      else r.app_meta ++ [⟨processName, lastPath, nowSecs, nowSecs⟩] }

def RollupMinuteToHour (olderThanSecs : Int) : TrafficStatsRepo :=
  { r with
    config_traffic := r.config_traffic.rollup olderThanSecs
    app_traffic := r.app_traffic.rollup olderThanSecs }

def QueryConfigUsage (fromSecs toSecs : Int) : Int → Option Bytes := r.config_traffic.QueryUsage fromSecs toSecs

def QueryAppUsage (fromSecs toSecs : Int) : Text → Option Bytes := r.app_traffic.QueryUsage fromSecs toSecs

def QueryConfigSeries (fromSecs toSecs bucketSecs utcOffsetSecs : Int) : Int → Option Bytes :=
  r.config_traffic.QuerySeries fromSecs toSecs bucketSecs utcOffsetSecs

def QueryAppSeries (fromSecs toSecs bucketSecs utcOffsetSecs : Int) : Int → Option Bytes :=
  r.app_traffic.QuerySeries fromSecs toSecs bucketSecs utcOffsetSecs

end TrafficStatsRepo

/-! ## Queries after a rollup -/

section Queries

variable {κ : Type} [DecidableEq κ] {t : Tables κ} {fromSecs toSecs : Int}

theorem usage_rollup (h : ∀ row ∈ t.minute, 0 ≤ row.1.1) (hfrom : 3600 ∣ fromSecs) (hto : 3600 ∣ toSecs)
    (olderThanSecs : Int) : (t.rollup olderThanSecs).QueryUsage fromSecs toSecs = t.QueryUsage fromSecs toSecs := by
  apply groupSum_rollup
  · exact fun row hrow => hourOf_window (h row hrow) hfrom hto
  · exact fun row _ => rfl

theorem series_rollup {bucketSecs utcOffsetSecs : Int} (h : ∀ row ∈ t.minute, 0 ≤ row.1.1)
    (hlocal : ∀ row ∈ t.minute, 0 ≤ row.1.1 + utcOffsetSecs) (hfrom : 3600 ∣ fromSecs) (hto : 3600 ∣ toSecs)
    (hbucket : 3600 ∣ bucketSecs) (hoff : 3600 ∣ utcOffsetSecs) (olderThanSecs : Int) :
    (t.rollup olderThanSecs).QuerySeries fromSecs toSecs bucketSecs utcOffsetSecs =
    t.QuerySeries fromSecs toSecs bucketSecs utcOffsetSecs := by
  unfold Tables.QuerySeries
  split
  · rfl
  · next hpos =>
    apply groupSum_rollup
    · exact fun row hrow => hourOf_window (h row hrow) hfrom hto
    · intro row hrow
      exact bucketExpr_hourOf (h row hrow) (hlocal row hrow) hbucket hoff (Int.not_le.1 hpos)

end Queries

end Throne.Database.Traffic
