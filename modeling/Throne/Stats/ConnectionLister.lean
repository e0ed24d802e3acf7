import Throne.Lib.Runs
import Mathlib.Algebra.Group.Prod
import Mathlib.Algebra.BigOperators.Group.List.Basic
import Mathlib.Tactic.Abel
import Mathlib.Tactic.Linarith

/-!
# Traffic accounting of the connection lister

`ConnectionLister::update` asks the core for its open connections and for the ring of recently
closed ones, and passes the bytes each connection moved since the previous answer to
`AddAppDelta`. It keeps two memories between answers: the counters of the connections listed as
open (`lastBytes`) and the ids found in the ring (`accountedClosed`). Both are replaced at the end
of an answer.

A connection that closes while the core lists it is in both lists of one answer. The closed row is
then credited against the memory of the previous answer, not against the open row of the same
answer, so the bytes between the two are passed on twice. `credited_eq_largest_iff` states exactly
when the credited bytes of a connection equal the largest counters seen for it.
-/

namespace Throne.Stats.ConnectionLister

open Lib.Runs List

/-- Uploaded and downloaded bytes. -/
abbrev Bytes := Int × Int

/-- A row of the core's answer, with the fields the accounting reads. -/
structure ConnectionMetaData where
  id : String
  upload : Int
  download : Int
  process : String
  processPath : String

/-- The answer to `QueryConnections`: the open connections and the ring of closed ones. -/
structure QueryConnectionsResp where
  active : List ConnectionMetaData
  closed : List ConnectionMetaData

/-- One call of `AddAppDelta`, together with the connection it is made for. -/
structure AppDelta where
  id : String
  name : String
  path : String
  bytes : Bytes

/-- What the lister remembers between two answers. The newest binding of an id comes first, as an
insertion into the source's hash replaces the older one. -/
structure Accounts where
  lastBytes : List (String × Bytes)
  accountedClosed : List String

/-- The memory of a fresh lister. -/
def Accounts.empty : Accounts := ⟨[], []⟩

/-- The counters of a row. -/
def ConnectionMetaData.counters (cm : ConnectionMetaData) : Bytes := (cm.upload, cm.download)

/-- The counters remembered for a connection, zero for an unknown one. -/
def baseOf (lastBytes : List (String × Bytes)) (id : String) : Bytes := (lastBytes.lookup id).getD (0, 0)

/-- Growth of a counter over the remembered one, a negative growth taken as zero. -/
def grown (base cur : Int) : Int :=
  if cur - base < 0 then 0 else cur - base

/-- The lambda `credit` of the source: the growth over the remembered counters. Nothing is passed on
when both directions are zero. -/
def credit (lastBytes : List (String × Bytes)) (cm : ConnectionMetaData) : List AppDelta :=
  let base := baseOf lastBytes cm.id
  let dUp := grown base.1 cm.upload
  let dDown := grown base.2 cm.download
  if dUp = 0 ∧ dDown = 0 then []
  else
    let name := if cm.process = "" then "Unknown" else cm.process
    [⟨cm.id, name, cm.processPath, (dUp, dDown)⟩]

/-- The accounting part of `ConnectionLister::update`. With the statistics switched off the answer
leaves both memories alone. -/
def update (disableTrafficStats : Bool) (s : Accounts) (resp : QueryConnectionsResp) : Accounts × List AppDelta :=
  if disableTrafficStats then (s, [])
  else
    let fromActive := resp.active.flatMap (credit s.lastBytes)
    let newLast := resp.active.foldl (fun last cm => (cm.id, cm.counters) :: last) []
    let fromClosed := resp.closed.flatMap fun cm =>
      if s.accountedClosed.contains cm.id then [] else credit s.lastBytes cm
    (⟨newLast, resp.closed.map (·.id)⟩, fromActive ++ fromClosed)

/-- One answer with the statistics on; the calls made so far are kept in the second component. -/
def poll (s : Accounts × List AppDelta) (resp : QueryConnectionsResp) : Accounts × List AppDelta :=
  ((update false s.1 resp).1, s.2 ++ (update false s.1 resp).2)

/-- Every call of `AddAppDelta` over a sequence of answers. -/
def deltasOf (answers : List QueryConnectionsResp) : List AppDelta := (run poll (Accounts.empty, []) answers).2

variable (id : String)

/-- The bytes passed on for one connection. -/
def creditedFor (deltas : List AppDelta) : Bytes := ((deltas.filter (·.id = id)).map (·.bytes)).sum

/-! ## What an answer shows of one connection -/

/-- The rows of a connection in a list. -/
def rowsOf (rows : List ConnectionMetaData) : List ConnectionMetaData := rows.filter (·.id = id)

/-- The counters a list shows for a connection. -/
def listed (rows : List ConnectionMetaData) : Option Bytes := (rowsOf id rows).head?.map (·.counters)

/-- What one answer shows of a connection: its counters among the open connections and in the
ring. -/
structure Sighting where
  live : Option Bytes
  closed : Option Bytes

/-- The sighting of a connection in an answer. -/
def sighting (resp : QueryConnectionsResp) : Sighting := ⟨listed id resp.active, listed id resp.closed⟩

/-- The life of a connection as the answers show it. `live` holds the counters of the last answer.
`ring` and `gone` hold the counters the ring showed first and last, and the bytes by which the open
row of an answer with both rows exceeded the answer before it. -/
inductive Stage where
  | unopened
  | live (seen : Bytes)
  | ring (first last relisted : Bytes)
  | gone (first last relisted : Bytes)

/-- The stage after one more sighting. -/
def Stage.next : Stage → Sighting → Stage
  | .unopened, ⟨none, none⟩ => .unopened
  | .unopened, ⟨some a, none⟩ => .live a
  | .unopened, ⟨none, some c⟩ => .ring c c 0
  | .unopened, ⟨some a, some c⟩ => .ring c c a
  | .live seen, ⟨none, none⟩ => .gone seen seen 0
  | .live _, ⟨some a, none⟩ => .live a
  | .live _, ⟨none, some c⟩ => .ring c c 0
  | .live seen, ⟨some a, some c⟩ => .ring c c (a - seen)
  | .ring first _ relisted, ⟨_, some c⟩ => .ring first c relisted
  | .ring first last relisted, ⟨_, none⟩ => .gone first last relisted
  | .gone first last relisted, _ => .gone first last relisted

/-- The sightings a connection can make at a stage: open until it closes, then in the ring for a
contiguous run of answers, in both lists at most in the answer during which it closes, with counters
that start at zero or more and never decrease. -/
def Stage.admits : Stage → Sighting → Prop
  | .unopened, ⟨none, none⟩ => True
  | .unopened, ⟨some a, none⟩ => 0 ≤ a
  | .unopened, ⟨none, some c⟩ => 0 ≤ c
  | .unopened, ⟨some a, some c⟩ => 0 ≤ a ∧ a ≤ c
  | .live _, ⟨none, none⟩ => True
  | .live seen, ⟨some a, none⟩ => seen ≤ a
  | .live seen, ⟨none, some c⟩ => seen ≤ c
  | .live seen, ⟨some a, some c⟩ => seen ≤ a ∧ a ≤ c
  | .ring _ _ _, ⟨none, none⟩ => True
  | .ring _ last _, ⟨none, some c⟩ => last ≤ c
  | .ring _ _ _, ⟨some _, _⟩ => False
  | .gone _ _ _, ⟨none, none⟩ => True
  | .gone _ _ _, _ => False

/-- The answers a core gives about a connection: each list names it at most once and the sightings
follow its life. -/
def Lifecycle (answers : List QueryConnectionsResp) : Prop :=
  (∀ resp ∈ answers, (rowsOf id resp.active).length ≤ 1 ∧ (rowsOf id resp.closed).length ≤ 1) ∧
    Along Stage.next Stage.admits .unopened (answers.map (sighting id))

/-- The stage of a connection after all answers. -/
def stageOf (answers : List QueryConnectionsResp) : Stage := run Stage.next .unopened (answers.map (sighting id))

/-- The bytes shown by the open row of an answer with both rows beyond the answer before it. -/
def Stage.relisted : Stage → Bytes
  | .unopened => 0
  | .live _ => 0
  | .ring _ _ relisted => relisted
  | .gone _ _ relisted => relisted

/-- The bytes by which the ring's counters grew after the ring showed the connection first. -/
def Stage.ringGrowth : Stage → Bytes
  | .unopened => 0
  | .live _ => 0
  | .ring first last _ => last - first
  | .gone first last _ => last - first

/-- The largest counters of a sighting and the ones before it, direction by direction. -/
def Sighting.largest (before : Bytes) (sight : Sighting) : Bytes := before ⊔ sight.live.getD 0 ⊔ sight.closed.getD 0

/-- The largest counters the answers show for a connection, zero for one never listed. -/
def largestSeen (answers : List QueryConnectionsResp) : Bytes := run Sighting.largest 0 (answers.map (sighting id))

/-! ## The bytes one answer credits -/

theorem creditedFor_append (xs ys : List AppDelta) : creditedFor id (xs ++ ys) = creditedFor id xs + creditedFor id ys := by
  simp [creditedFor]

/-- The bytes credited for counters `cur` against the counters remembered. -/
def growth (base cur : Bytes) : Bytes := (grown base.1 cur.1, grown base.2 cur.2)

theorem growth_of_le {base cur : Bytes} (h : base ≤ cur) : growth base cur = cur - base := by
  obtain ⟨h1, h2⟩ := Prod.le_def.1 h
  have e1 : grown base.1 cur.1 = cur.1 - base.1 := if_neg (by omega)
  have e2 : grown base.2 cur.2 = cur.2 - base.2 := if_neg (by omega)
  exact Prod.ext e1 e2

/-- A row credits its own connection with its growth over the remembered counters. -/
theorem creditedFor_credit (last : List (String × Bytes)) (cm : ConnectionMetaData) :
    creditedFor cm.id (credit last cm) = growth (baseOf last cm.id) cm.counters := by
  unfold credit growth
  simp only [ConnectionMetaData.counters]
  split
  · next h => rw [h.1, h.2]; rfl
  · simp [creditedFor]

/-- A row credits no other connection. -/
theorem creditedFor_credit_of_ne (last : List (String × Bytes)) {cm : ConnectionMetaData}
    {id : String} (h : cm.id ≠ id) : creditedFor id (credit last cm) = 0 := by
  unfold credit
  simp only
  split
  · rfl
  · simp [creditedFor, h]

/-- A list of rows credits a connection through its own rows only. -/
theorem creditedFor_flatMap (f : ConnectionMetaData → List AppDelta)
    (hf : ∀ cm, cm.id ≠ id → creditedFor id (f cm) = 0) (rows : List ConnectionMetaData) :
    creditedFor id (rows.flatMap f) = ((rowsOf id rows).map fun cm => creditedFor id (f cm)).sum := by
  induction rows with
  | nil => rfl
  | cons cm rows ih =>
    rw [flatMap_cons, creditedFor_append, ih]
    by_cases h : cm.id = id
    · simp [rowsOf, h]
    · simp [rowsOf, h, hf cm h]

variable {rows : List ConnectionMetaData}

/-- The rows of a connection that a list names at most once, read off what the list shows. -/
theorem rowsOf_cases {id : String} (h : (rowsOf id rows).length ≤ 1) : (rowsOf id rows = [] ∧ listed id rows = none) ∨
    ∃ cm, rowsOf id rows = [cm] ∧ cm.id = id ∧ listed id rows = some cm.counters := by
  unfold listed
  cases hr : rowsOf id rows with
  | nil => exact .inl ⟨rfl, rfl⟩
  | cons cm rest =>
    have hmem : cm ∈ rowsOf id rows := by rw [hr]; exact mem_cons_self
    have hid : cm.id = id := by simpa [rowsOf] using (mem_filter.1 hmem).2
    cases rest with
    | nil => exact .inr ⟨cm, rfl, hid, rfl⟩
    | cons cm' rest => rw [hr] at h; simp at h

/-- The bytes credited for what a list shows of a connection. -/
def growthOf (base : Bytes) (shown : Option Bytes) : Bytes := (shown.map (growth base)).getD 0

theorem creditedFor_active (id : String) (last : List (String × Bytes)) (h : (rowsOf id rows).length ≤ 1) :
    creditedFor id (rows.flatMap (credit last)) = growthOf (baseOf last id) (listed id rows) := by
  rw [creditedFor_flatMap id _ fun cm hcm => creditedFor_credit_of_ne last hcm]
  rcases rowsOf_cases h with ⟨hr, hl⟩ | ⟨cm, hr, rfl, hl⟩
  · simp [hr, hl, growthOf]
  · simp [hr, hl, growthOf, creditedFor_credit]

theorem creditedFor_closed (id : String) (last : List (String × Bytes)) (accounted : List String) (h : (rowsOf id rows).length ≤ 1) :
    creditedFor id (rows.flatMap fun cm => if accounted.contains cm.id then [] else credit last cm)
    = if id ∈ accounted then 0 else growthOf (baseOf last id) (listed id rows) := by
  have hother : ∀ cm : ConnectionMetaData, cm.id ≠ id → creditedFor id (if accounted.contains cm.id then [] else credit last cm) = 0 := by
    intro cm hcm
    split
    · rfl
    · exact creditedFor_credit_of_ne last hcm
  rw [creditedFor_flatMap id _ hother]
  rcases rowsOf_cases h with ⟨hr, hl⟩ | ⟨cm, hr, rfl, hl⟩
  · simp [hr, hl, growthOf]
  · by_cases hmem : cm.id ∈ accounted
    · simp [hr, hmem, creditedFor]
    · simp [hr, hl, hmem, growthOf, creditedFor_credit]

/-- What an answer leaves remembered for a connection is its row among the open ones. -/
theorem lookup_newLast : ∀ (rows : List ConnectionMetaData) (last : List (String × Bytes)),
    (rowsOf id rows).length ≤ 1 → (rows.foldl (fun last cm => (cm.id, cm.counters) :: last) last).lookup id =
    (listed id rows).or (last.lookup id) := by
  intro rows
  induction rows with
  | nil => intro last _; rfl
  | cons cm rows ih =>
    intro last h
    rw [foldl_cons]
    by_cases hid : cm.id = id
    · have hnone : rowsOf id rows = [] := by
        simp only [rowsOf, filter_cons, hid, decide_true, if_true, length_cons] at h
        exact length_eq_zero_iff.1 (by simpa [rowsOf] using h)
      have hrows : rowsOf id (cm :: rows) = [cm] := by
        have e : rowsOf id (cm :: rows) = cm :: rowsOf id rows := by simp [rowsOf, hid]
        rw [e, hnone]
      rw [ih _ (by simp [hnone])]
      simp [listed, hnone, hrows, hid]
    · have hrows : rowsOf id (cm :: rows) = rowsOf id rows := by simp [rowsOf, hid]
      rw [hrows] at h
      have hne : (id == cm.id) = false := by simpa using Ne.symm hid
      have hlisted : listed id (cm :: rows) = listed id rows := by rw [listed, hrows, listed]
      rw [ih _ h, hlisted, lookup_cons, hne]

variable {resp : QueryConnectionsResp}

/-- The memory after an answer, as far as one connection is concerned. -/
theorem update_memory (id : String) (s : Accounts) (ha : (rowsOf id resp.active).length ≤ 1) :
    (update false s resp).1.lastBytes.lookup id = listed id resp.active ∧
    (id ∈ (update false s resp).1.accountedClosed ↔ (listed id resp.closed).isSome) := by
  refine ⟨?_, ?_⟩
  · have h := lookup_newLast id resp.active [] ha
    simpa [update] using h
  · simp only [update, Bool.false_eq_true, if_false, listed, Option.isSome_map, isSome_head?, rowsOf, mem_map]
    constructor
    · rintro ⟨cm, hcm, rfl⟩
      exact ne_nil_of_mem (mem_filter.2 ⟨hcm, by simp⟩)
    · intro hne
      obtain ⟨cm, hcm⟩ := exists_mem_of_ne_nil _ hne
      obtain ⟨hmem, hid⟩ := mem_filter.1 hcm
      exact ⟨cm, hmem, by simpa using hid⟩

/-- The bytes one answer credits to a connection. -/
theorem creditedFor_update (id : String) (s : Accounts) (ha : (rowsOf id resp.active).length ≤ 1)
    (hc : (rowsOf id resp.closed).length ≤ 1) : creditedFor id (update false s resp).2 =
    growthOf (baseOf s.lastBytes id) (sighting id resp).live + if id ∈ s.accountedClosed then 0
    else growthOf (baseOf s.lastBytes id) (sighting id resp).closed := by
  simp only [update, Bool.false_eq_true, if_false, creditedFor_append, sighting]
  rw [creditedFor_active id s.lastBytes ha, creditedFor_closed id s.lastBytes s.accountedClosed hc]

/-! ## The accounts of one connection along its life -/

/-- The memories, the bytes credited so far and the largest counters so far, at each stage of a
connection. -/
def Tracks (s : Accounts) (total largest : Bytes) : Stage → Prop
  | .unopened =>
    s.lastBytes.lookup id = none ∧ id ∉ s.accountedClosed ∧ total = 0 ∧ largest = 0
  | .live seen =>
    s.lastBytes.lookup id = some seen ∧ id ∉ s.accountedClosed ∧ total = seen ∧ largest = seen ∧ 0 ≤ seen
  | .ring first last relisted =>
    id ∈ s.accountedClosed ∧ total = first + relisted ∧ largest = last ∧ 0 ≤ last
  | .gone first last relisted => total = first + relisted ∧ largest = last ∧ 0 ≤ last

/-- One answer keeps the accounts of a connection in step with its stage. -/
theorem tracks_update {id : String} {s : Accounts} {total largest : Bytes} {stage : Stage}
    (ha : (rowsOf id resp.active).length ≤ 1) (hc : (rowsOf id resp.closed).length ≤ 1)
    (htr : Tracks id s total largest stage) (hadm : stage.admits (sighting id resp)) :
    Tracks id (update false s resp).1 (total + creditedFor id (update false s resp).2)
    ((sighting id resp).largest largest) (stage.next (sighting id resp)) := by
  obtain ⟨hlast, hring⟩ := update_memory id s ha
  rw [creditedFor_update id s ha hc]
  have hlive : listed id resp.active = (sighting id resp).live := rfl
  have hclosed : listed id resp.closed = (sighting id resp).closed := rfl
  rw [hlive] at hlast
  rw [hclosed] at hring
  generalize sighting id resp = sight at *
  obtain ⟨live, closed⟩ := sight
  cases stage with
  | unopened =>
    obtain ⟨hnone, hnot, rfl, rfl⟩ := htr
    have hbase : baseOf s.lastBytes id = 0 := by rw [baseOf, hnone]; rfl
    rw [hbase, if_neg hnot]
    cases live with
    | none =>
      cases closed with
      | none => exact ⟨hlast, by simp [hring], rfl, rfl⟩
      | some c =>
        have h0 : (0 : Bytes) ≤ c := hadm
        refine ⟨hring.2 rfl, ?_, by simp [Sighting.largest, h0], h0⟩
        simp [growthOf, growth_of_le h0]
    | some a =>
      cases closed with
      | none =>
        have h0 : (0 : Bytes) ≤ a := hadm
        refine ⟨hlast, by simp [hring], ?_, by simp [Sighting.largest, h0], h0⟩
        simp [growthOf, growth_of_le h0]
      | some c =>
        obtain ⟨h0, hac⟩ : (0 : Bytes) ≤ a ∧ a ≤ c := hadm
        have h0c : (0 : Bytes) ≤ c := h0.trans hac
        refine ⟨hring.2 rfl, ?_, by simp [Sighting.largest, h0, hac], h0c⟩
        simp [growthOf, growth_of_le h0, growth_of_le h0c, add_comm]
  | live seen =>
    obtain ⟨hsome, hnot, htotal, hlargest, h0⟩ := htr
    have hbase : baseOf s.lastBytes id = seen := by rw [baseOf, hsome]; rfl
    rw [hbase, if_neg hnot, htotal, hlargest]
    cases live with
    | none =>
      cases closed with
      | none => exact ⟨rfl, by simp [Sighting.largest, h0], h0⟩
      | some c =>
        have hle : seen ≤ c := hadm
        refine ⟨hring.2 rfl, ?_, by simp [Sighting.largest, h0, hle], h0.trans hle⟩
        simp [growthOf, growth_of_le hle]
    | some a =>
      cases closed with
      | none =>
        have hle : seen ≤ a := hadm
        have h0a : (0 : Bytes) ≤ a := h0.trans hle
        refine ⟨hlast, by simp [hring], ?_, by simp [Sighting.largest, hle, h0a], h0a⟩
        simp [growthOf, growth_of_le hle]
      | some c =>
        obtain ⟨hle, hac⟩ : seen ≤ a ∧ a ≤ c := hadm
        have hlec : seen ≤ c := hle.trans hac
        refine ⟨hring.2 rfl, ?_, by simp [Sighting.largest, hle, hac], h0.trans hlec⟩
        simp only [growthOf, Option.map_some, Option.getD_some, growth_of_le hle, growth_of_le hlec]
        abel
  | ring first last relisted =>
    obtain ⟨hmem, htotal, hlargest, h0⟩ := htr
    rw [if_pos hmem, htotal, hlargest]
    cases live with
    | some a => exact hadm.elim
    | none =>
      cases closed with
      | none => exact ⟨by simp [growthOf], by simp [Sighting.largest, h0], h0⟩
      | some c =>
        have hle : last ≤ c := hadm
        refine ⟨hring.2 rfl, by simp [growthOf], ?_, h0.trans hle⟩
        simp [Sighting.largest, h0, hle]
  | gone first last relisted =>
    obtain ⟨htotal, hlargest, h0⟩ := htr
    rw [htotal, hlargest]
    cases live with
    | some a => exact hadm.elim
    | none =>
      cases closed with
      | none => exact ⟨by simp [growthOf], by simp [Sighting.largest, h0], h0⟩
      | some c => exact hadm.elim

/-- The accounts of a connection after every sequence of answers the core can give about it. -/
theorem tracks_run : ∀ (answers : List QueryConnectionsResp) (s : Accounts) (deltas : List AppDelta)
    (largest : Bytes) (stage : Stage), (∀ resp ∈ answers, (rowsOf id resp.active).length ≤ 1 ∧ (rowsOf id resp.closed).length ≤ 1) →
    Along Stage.next Stage.admits stage (answers.map (sighting id)) →
    Tracks id s (creditedFor id deltas) largest stage → Tracks id (run poll (s, deltas) answers).1
    (creditedFor id (run poll (s, deltas) answers).2) (run Sighting.largest largest (answers.map (sighting id)))
    (run Stage.next stage (answers.map (sighting id))) := by
  intro answers
  induction answers with
  | nil => exact fun _ _ _ _ _ _ h => h
  | cons resp answers ih =>
    intro s deltas largest stage honce halong htr
    obtain ⟨hadm, hrest⟩ := halong
    obtain ⟨ha, hc⟩ := honce resp mem_cons_self
    have hstep := tracks_update ha hc htr hadm
    rw [← creditedFor_append] at hstep
    exact ih _ _ _ _ (fun r hr => honce r (mem_cons_of_mem _ hr)) hrest hstep

/-- For every connection and every sequence of answers about it, the bytes passed to `AddAppDelta`
equal the largest counters seen if and only if, in each direction, the bytes shown by the open row
of an answer that also lists the connection as closed equal the bytes by which the ring's counters
grew later. Both are zero when no answer lists the connection twice with new bytes and the ring
shows it unchanged. -/
theorem credited_eq_largest_iff (id : String) (answers : List QueryConnectionsResp) (h : Lifecycle id answers) :
    creditedFor id (deltasOf answers) = largestSeen id answers ↔ (stageOf id answers).relisted = (stageOf id answers).ringGrowth := by
  have hinit : Tracks id Accounts.empty (creditedFor id []) 0 .unopened := by
    simp [Tracks, Accounts.empty, creditedFor]
  have htr := tracks_run id answers Accounts.empty [] 0 .unopened h.1 h.2 hinit
  unfold deltasOf largestSeen stageOf
  revert htr
  generalize run Stage.next .unopened (answers.map (sighting id)) = stage
  intro htr
  cases stage with
  | unopened => simp [Stage.relisted, Stage.ringGrowth, htr.2.2.1, htr.2.2.2]
  | live seen => simp [Stage.relisted, Stage.ringGrowth, htr.2.2.1, htr.2.2.2.1]
  | ring first last relisted =>
    rw [htr.2.1, htr.2.2.1]
    exact eq_sub_iff_add_eq'.symm
  | gone first last relisted =>
    rw [htr.1, htr.2.1]
    exact eq_sub_iff_add_eq'.symm

/-- A row of the connection `c` owned by a browser. -/
def browserRow (upload download : Int) : ConnectionMetaData := ⟨"c", upload, download, "browser", "/usr/bin/browser"⟩

/-- A connection that is listed while open and found in the ring by the next two answers. -/
def closingAnswers : List QueryConnectionsResp := [⟨[browserRow 10 100], []⟩, ⟨[], [browserRow 15 120]⟩, ⟨[], [browserRow 15 120]⟩]

/-- A connection that closes while its first answer is being listed. -/
def relistedAnswers : List QueryConnectionsResp := [⟨[browserRow 10 100], [browserRow 10 100]⟩]

theorem lifecycle_closingAnswers : Lifecycle "c" closingAnswers := by
  refine ⟨by decide, ?_⟩
  refine ⟨?_, ?_, ?_, trivial⟩
  · show (0 : Bytes) ≤ (10, 100)
    decide
  · show ((10, 100) : Bytes) ≤ (15, 120)
    decide
  · show ((15, 120) : Bytes) ≤ (15, 120)
    exact le_refl _

theorem lifecycle_relistedAnswers : Lifecycle "c" relistedAnswers := by
  refine ⟨by decide, ?_, trivial⟩
  show (0 : Bytes) ≤ (10, 100) ∧ ((10, 100) : Bytes) ≤ (10, 100)
  exact ⟨by decide, le_refl _⟩

/-- The accounting is exact for a connection that closes between two answers. -/
theorem credited_eq_largest_closing : Lifecycle "c" closingAnswers ∧ creditedFor "c" (deltasOf closingAnswers) = largestSeen "c" closingAnswers :=
  ⟨lifecycle_closingAnswers, (credited_eq_largest_iff "c" closingAnswers lifecycle_closingAnswers).2 (by decide)⟩

/-- A connection that closes while it is listed is credited twice: 20 and 200 bytes are passed on
for a connection that moved 10 and 100. -/
theorem credited_twice_relisted : ¬ ∀ (id : String) (answers : List QueryConnectionsResp), Lifecycle id answers →
    creditedFor id (deltasOf answers) = largestSeen id answers := by
  intro h
  have heq := h "c" relistedAnswers lifecycle_relistedAnswers
  have hcredited : creditedFor "c" (deltasOf relistedAnswers) = (20, 200) := by decide
  have hlargest : largestSeen "c" relistedAnswers = (10, 100) := by decide
  rw [hcredited, hlargest] at heq
  cases heq

end Throne.Stats.ConnectionLister
