import Throne.Lib.Counter
import Throne.Lib.Runs
import Mathlib.Algebra.Ring.Nat

/-!
# Traffic of speed tests

A speed test session runs one test after the other. While a test runs a poller reports the byte
counters of the core, and at the end the test itself does; `creditTraffic` turns a report into the
bytes to credit to the profile by keeping the last counters of each outbound tag. A poll that answers
after a newer test has begun is dropped by its generation, but a poll may still be processed after the
result of its own test.

The counters start from zero in every test while the base is kept for the whole session, and a batch
of one profile numbers its tags from one again. `creditedOnce_iff` shows when every profile is
credited the last counters of its test: given that the reports of a test are processed in the order
in which the core gave them, up to the last one, exactly when the base of the tag is zero or above the
first counter of the test, in each direction.
-/

namespace Throne.Engine.Tests

open Lib.Counter Lib.Runs List

/-! ## Crediting -/

/-- A report of the core: the tag of the outbound and its upload and download counters. -/
structure Report where
  tag : String
  ulBytes : Nat
  dlBytes : Nat

structure State where
  sessionGen : Nat
  /-- The last counters of each tag. -/
  credited : String → Nat × Nat
  /-- What was added to each profile. -/
  traffic : Nat → Nat × Nat

/-- The state in which a session starts, with the counters of the last session cleared. -/
def State.initial : State := ⟨0, fun _ => (0, 0), fun _ => (0, 0)⟩

/-- `creditTraffic` while traffic statistics are enabled, for the profile with the given id. -/
def creditTraffic (s : State) (profile : Nat) (r : Report) : State :=
  if r.tag = "" then s
  else
    let base := s.credited r.tag
    let dUp := growth base.1 r.ulBytes
    let dDown := growth base.2 r.dlBytes
    let s := { s with credited := fun tag =>
      if tag = r.tag then (r.ulBytes, r.dlBytes) else s.credited tag }
    if dUp = 0 ∧ dDown = 0 then s
    else
      { s with traffic := fun id =>
        if id = profile then ((s.traffic id).1 + dUp, (s.traffic id).2 + dDown) else s.traffic id }

/-! ## Tests and sessions -/

/-- What a test runs: the outbound tags with their profiles, or a full config with its profile. -/
structure Target where
  tag2entID : List (String × Nat)
  entID : Option Nat

/-- The profile a result is about. -/
def resolveEntID (target : Target) (tag : String) : Option Nat :=
  if target.tag2entID = [] then target.entID else target.tag2entID.lookup tag

/-- Something the application processes while a test is the newest one: the answer to a poll, with
the generation and the tags the poll captured, or the results of the test. -/
inductive Delivery where
  | poll (gen : Nat) (tag2entID : List (String × Nat)) (answer : Option Report)
  | results (reports : List Report)

/-- The reports of a delivery that reach `creditTraffic`, each with its profile. -/
def Delivery.credits (gen : Nat) (target : Target) : Delivery → List (Nat × Report)
  | .poll captured tag2entID answer =>
    if gen ≠ captured then []
    else
      match answer with
      | none => []
      | some r => (tag2entID.lookup r.tag).toList.map fun id => (id, r)
  | .results reports =>
    reports.filterMap fun r => (resolveEntID target r.tag).map fun id => (id, r)

def creditAll (s : State) (credits : List (Nat × Report)) : State :=
  credits.foldl (fun s c => creditTraffic s c.1 c.2) s

def deliver (target : Target) (s : State) (d : Delivery) : State := creditAll s (d.credits s.sessionGen target)

/-- A test of one profile: what it runs, the counters the core reports in the order in which it does,
and what is processed until the next test begins. -/
structure Test where
  profile : Nat
  tag : String
  target : Target
  reported : List (Nat × Nat)
  deliveries : List Delivery

def runSpeedProbe (s : State) (t : Test) : State :=
  t.deliveries.foldl (deliver t.target) { s with sessionGen := s.sessionGen + 1 }

/-- All that a test has credited from a state on. -/
def Test.credits (s : State) (t : Test) : List (Nat × Report) := t.deliveries.flatMap (·.credits (s.sessionGen + 1) t.target)

/-- The last counters the core reported for a test. -/
def Test.lastReported (t : Test) : Nat × Nat := t.reported.getLast?.getD (0, 0)

/-- A test as a session of one profile per batch has it: its target names one profile, all its
reports carry one tag, and the counters grow. -/
structure OneProfile (s : State) (t : Test) : Prop where
  target : t.target.tag2entID = [(t.tag, t.profile)] ∨ t.target.tag2entID = [] ∧ t.target.entID = some t.profile
  tag : t.tag ≠ ""
  tags : ∀ c ∈ t.credits s, c.2.tag = t.tag
  polls : ∀ gen tag2entID answer, .poll gen tag2entID answer ∈ t.deliveries → gen = s.sessionGen + 1 → tag2entID = t.target.tag2entID
  growing : t.reported.Pairwise fun a b => a.1 ≤ b.1 ∧ a.2 ≤ b.2

/-- The counters of a report. -/
def counters (c : Nat × Report) : Nat × Nat := (c.2.ulBytes, c.2.dlBytes)

/-- The reports that are credited are so in the order in which the core gave them, up to the last. -/
structure InOrder (s : State) (t : Test) : Prop where
  order : ((t.credits s).map counters).Sublist t.reported
  last : ((t.credits s).map counters).getLast? = t.reported.getLast?

/-- The base of the tag is zero or above the first counter, in each direction. -/
structure FreshBase (s : State) (t : Test) : Prop where
  up : (s.credited t.tag).1 = 0 ∨ ∀ c ∈ (t.credits s).head?, c.2.ulBytes < (s.credited t.tag).1
  down : (s.credited t.tag).2 = 0 ∨ ∀ c ∈ (t.credits s).head?, c.2.dlBytes < (s.credited t.tag).2

/-- What a profile should be credited over a session. -/
def dueTraffic (tests : List Test) (profile : Nat) : Nat × Nat :=
  (((tests.filter (·.profile = profile)).map (·.lastReported.1)).sum, ((tests.filter (·.profile = profile)).map (·.lastReported.2)).sum)

/-- Every profile is credited the last counters of its test. -/
def CreditedOnce (tests : List Test) : Prop := ∀ profile, (run runSpeedProbe State.initial tests).traffic profile = dueTraffic tests profile

/-! ## What a test credits -/

/-- One direction of a pair of counters. -/
def side (up : Bool) (c : Nat × Nat) : Nat := if up then c.1 else c.2

theorem ext_side {a b : Nat × Nat} (h : ∀ up, side up a = side up b) : a = b := Prod.ext (h true) (h false)

variable (s : State)

theorem creditTraffic_sessionGen (profile : Nat) (r : Report) : (creditTraffic s profile r).sessionGen = s.sessionGen := by
  unfold creditTraffic
  simp only
  split
  · rfl
  · split <;> rfl

theorem creditAll_sessionGen (credits : List (Nat × Report)) : ∀ s : State, (creditAll s credits).sessionGen = s.sessionGen := by
  induction credits with
  | nil => exact fun _ => rfl
  | cons c credits ih =>
    intro s
    show (creditAll (creditTraffic s c.1 c.2) credits).sessionGen = s.sessionGen
    rw [ih, creditTraffic_sessionGen]

/-- A test credits its reports one after the other. -/
theorem runSpeedProbe_eq (t : Test) : runSpeedProbe s t = creditAll { s with sessionGen := s.sessionGen + 1 } (t.credits s) := by
  have h : ∀ (ds : List Delivery) (s' : State), s'.sessionGen = s.sessionGen + 1 → ds.foldl (deliver t.target) s' =
        creditAll s' (ds.flatMap (·.credits (s.sessionGen + 1) t.target)) := by
    intro ds
    induction ds with
    | nil => exact fun _ _ => rfl
    | cons d ds ih =>
      intro s' hgen
      rw [foldl_cons, flatMap_cons, creditAll, foldl_append]
      have hstep : deliver t.target s' d = creditAll s' (d.credits (s.sessionGen + 1) t.target) := by
        rw [deliver, hgen]
      rw [hstep]
      exact ih _ (by rw [creditAll_sessionGen, hgen])
  exact h t.deliveries _ rfl

theorem creditTraffic_facts (profile : Nat) {r : Report} (htag : r.tag ≠ "") (up : Bool) :
    (∀ id, side up ((creditTraffic s profile r).traffic id) = side up (s.traffic id) +
    if id = profile then growth (side up (s.credited r.tag)) (side up (r.ulBytes, r.dlBytes)) else 0) ∧
    side up ((creditTraffic s profile r).credited r.tag) = side up (r.ulBytes, r.dlBytes) := by
  unfold creditTraffic
  rw [if_neg htag]
  simp only
  split
  · next hzero =>
    -- Nothing grew, so not adding it changes no sum.
    refine ⟨fun id => ?_, by simp⟩
    cases up with
    | true => simp [side, hzero.1]
    | false => simp [side, hzero.2]
  · refine ⟨fun id => ?_, by simp⟩
    cases up with
    | true =>
      simp only [side, if_true]
      split <;> rfl
    | false =>
      simp only [side, Bool.false_eq_true, if_false]
      split <;> rfl

/-- Reports of one tag and one profile are credited as a reader of the counters counts them. -/
theorem creditAll_traffic {profile : Nat} {tag : String} (htag : tag ≠ "") (up : Bool) (credits : List (Nat × Report)) :
    ∀ s : State, (∀ c ∈ credits, c.1 = profile ∧ c.2.tag = tag) →
    ∀ id, side up ((creditAll s credits).traffic id) = side up (s.traffic id) + if id = profile then
    counted (side up (s.credited tag)) (credits.map fun c => side up (counters c)) else 0 := by
  induction credits with
  | nil => exact fun s _ id => by simp [creditAll]
  | cons c credits ih =>
    intro s hall id
    obtain ⟨hprofile, hctag⟩ := hall c mem_cons_self
    obtain ⟨htraffic, hcredited⟩ :=
      creditTraffic_facts s c.1 (by rw [hctag]; exact htag : c.2.tag ≠ "") up
    have hrest := ih (creditTraffic s c.1 c.2) (fun d hd => hall d (mem_cons_of_mem c hd)) id
    rw [hctag] at hcredited
    show side up ((creditAll (creditTraffic s c.1 c.2) credits).traffic id) = _
    rw [hrest, htraffic id, hcredited, hprofile, hctag, map_cons, counted_cons]
    split
    · exact Nat.add_assoc _ _ _
    · rfl

/-- All that a test of one profile credits is credited to that profile. -/
theorem OneProfile.credits_profile {s : State} {t : Test} (h : OneProfile s t) : ∀ c ∈ t.credits s, c.1 = t.profile := by
  intro c hc
  obtain ⟨d, hd, hc⟩ := mem_flatMap.1 hc
  have hlookup : ∀ tag id, t.target.tag2entID.lookup tag = some id → id = t.profile := by
    intro tag id hfound
    rcases h.target with hone | ⟨hnone, -⟩
    · rw [hone, lookup_cons] at hfound
      split at hfound
      · exact (Option.some.inj hfound).symm
      · simp at hfound
    · rw [hnone] at hfound
      simp at hfound
  cases d with
  | poll gen tag2entID answer =>
    simp only [Delivery.credits] at hc
    split at hc
    · simp at hc
    · next hgen =>
      rw [not_not] at hgen
      cases answer with
      | none => simp at hc
      | some r =>
        simp only [mem_map, Option.mem_toList] at hc
        obtain ⟨id, hid, rfl⟩ := hc
        rw [h.polls gen tag2entID _ hd hgen.symm] at hid
        exact hlookup r.tag id hid
  | results reports =>
    simp only [Delivery.credits, mem_filterMap, Option.map_eq_some_iff] at hc
    obtain ⟨r, -, id, hid, rfl⟩ := hc
    unfold resolveEntID at hid
    split at hid
    · next hempty =>
      rcases h.target with hone | ⟨-, hent⟩
      · rw [hone] at hempty
        cases hempty
      · rw [hent] at hid
        exact (Option.some.inj hid).symm
    · exact hlookup r.tag id hid

/-- The counters of one direction that a test credits, in order. -/
def Test.values (t : Test) (up : Bool) : List Nat :=
  (t.credits s).map fun c => side up (counters c)

/-- What the base of the tag hides from a test. -/
def hiddenBy (up : Bool) (s : State) (t : Test) : Nat := hidden (side up (s.credited t.tag)) (t.values s up)

theorem test_traffic {s : State} {t : Test} (h : OneProfile s t) (horder : InOrder s t) (up : Bool) (id : Nat) :
    side up ((runSpeedProbe s t).traffic id) + (if id = t.profile then hiddenBy up s t else 0) =
    side up (s.traffic id) + (if id = t.profile then side up t.lastReported else 0) := by
  have hsum := creditAll_traffic h.tag up (t.credits s) { s with sessionGen := s.sessionGen + 1 }
    (fun c hc => ⟨h.credits_profile c hc, h.tags c hc⟩) id
  rw [runSpeedProbe_eq, hsum]
  have hvalues : t.values s up = ((t.credits s).map counters).map (side up) := by
    rw [Test.values, map_map]
    rfl
  have hsorted : (t.values s up).Pairwise (· ≤ ·) := by
    rw [hvalues, pairwise_map]
    refine (h.growing.sublist horder.order).imp ?_
    intro a b hab
    cases up with
    | true => exact hab.1
    | false => exact hab.2
  have hlast : (t.values s up).getLast?.getD 0 = side up t.lastReported := by
    rw [hvalues, getLast?_map, horder.last, Test.lastReported]
    cases t.reported.getLast? with
    | none => cases up <;> rfl
    | some c => rfl
  have hcount := counted_add_hidden (side up (s.credited t.tag)) hsorted
  rw [hlast] at hcount
  by_cases hid : id = t.profile
  · rw [if_pos hid, if_pos hid, if_pos hid, ← hcount, Nat.add_assoc]
    rfl
  · rw [if_neg hid, if_neg hid, if_neg hid]

theorem freshBase_iff (t : Test) : FreshBase s t ↔ ∀ up, hiddenBy up s t = 0 := by
  have hhead : ∀ up, (∀ c ∈ (t.values s up).head?, c < side up (s.credited t.tag)) ↔
      ∀ c ∈ (t.credits s).head?, side up (counters c) < side up (s.credited t.tag) := by
    intro up
    rw [Test.values, head?_map]
    cases (t.credits s).head? with
    | none | some c => simp
  simp only [hiddenBy, hidden_eq_zero_iff, hhead]
  constructor
  · intro h up
    cases up with
    | true => exact h.up
    | false => exact h.down
  · exact fun h => ⟨h true, h false⟩

/-! ## Sessions -/

/-- What the bases hide from the tests of one profile along a session. -/
def hiddenAlong (up : Bool) (id : Nat) : State → List Test → Nat
  | _, [] => 0
  | s, t :: ts =>
    (if id = t.profile then hiddenBy up s t else 0) + hiddenAlong up id (runSpeedProbe s t) ts

theorem hiddenAlong_eq_zero_iff (tests : List Test) : (∀ up id, hiddenAlong up id s tests = 0) ↔ Along runSpeedProbe FreshBase s tests := by
  induction tests generalizing s with
  | nil => simp [hiddenAlong]
  | cons t ts ih =>
    rw [along_cons, ← ih (runSpeedProbe s t), freshBase_iff]
    constructor
    · intro h
      refine ⟨fun up => ?_, fun up id => ?_⟩
      · have hzero := h up t.profile
        rw [hiddenAlong, if_pos rfl] at hzero
        omega
      · have hzero := h up id
        rw [hiddenAlong] at hzero
        omega
    · rintro ⟨hfirst, hrest⟩ up id
      rw [hiddenAlong, hrest up id, hfirst up]
      simp

theorem side_dueTraffic (up : Bool) (tests : List Test) (id : Nat) : side up (dueTraffic tests id) =
    ((tests.filter (·.profile = id)).map fun t => side up t.lastReported).sum := by
  cases up with
  | true | false => rfl

/-- Over a session a profile is credited what is due to it, less what the bases hide. -/
theorem session_traffic (tests : List Test) : ∀ s : State, Along runSpeedProbe OneProfile s tests → Along runSpeedProbe InOrder s tests →
    ∀ up id, side up ((run runSpeedProbe s tests).traffic id) + hiddenAlong up id s tests =
    side up (s.traffic id) + side up (dueTraffic tests id) := by
  induction tests with
  | nil =>
    intro s _ _ up id
    cases up <;> rfl
  | cons t ts ih =>
    intro s hone horder up id
    have hfirst := test_traffic hone.1 horder.1 up id
    have hrest := ih (runSpeedProbe s t) hone.2 horder.2 up id
    have hdue : side up (dueTraffic (t :: ts) id) = (if id = t.profile then side up t.lastReported else 0) + side up (dueTraffic ts id) := by
      rw [side_dueTraffic, side_dueTraffic, filter_cons]
      by_cases heq : t.profile = id
      · simp [heq]
      · simp [heq, Ne.symm heq]
    rw [run_cons, hiddenAlong, hdue]
    omega

/-- Speed test traffic is credited exactly once per profile when the reports of every test are
processed in order up to the last one and every test finds a base that hides nothing. Among the
sessions whose reports are processed in order, only these are credited exactly. -/
theorem creditedOnce_iff (tests : List Test) (hone : Along runSpeedProbe OneProfile State.initial tests) :
    (Along runSpeedProbe (fun s t => InOrder s t ∧ FreshBase s t) State.initial tests → CreditedOnce tests) ∧
    (Along runSpeedProbe InOrder State.initial tests → (CreditedOnce tests ↔ Along runSpeedProbe FreshBase State.initial tests)) := by
  have hiff : Along runSpeedProbe InOrder State.initial tests → (CreditedOnce tests ↔ Along runSpeedProbe FreshBase State.initial tests) := by
    intro horder
    have hsum := session_traffic tests State.initial hone horder
    rw [← hiddenAlong_eq_zero_iff]
    constructor
    · intro h up id
      have hid := hsum up id
      rw [h id] at hid
      have hzero : side up (State.initial.traffic id) = 0 := by cases up <;> rfl
      omega
    · intro h id
      apply ext_side
      intro up
      have hid := hsum up id
      have hzero : side up (State.initial.traffic id) = 0 := by cases up <;> rfl
      rw [h up id, hzero] at hid
      omega
  refine ⟨fun h => ?_, hiff⟩
  obtain ⟨horder, hfresh⟩ := (along_and _ _).1 h
  exact (hiff horder).2 hfresh

/-- A test of a profile under the first tag of its batch. -/
def firstTagTest (profile : Nat) (reported : List (Nat × Nat)) (deliveries : List Delivery) : Test :=
  ⟨profile, "proxy-1-0", ⟨[("proxy-1-0", profile)], none⟩, reported, deliveries⟩

/-- A poll of the given generation for a profile under that tag. -/
def firstTagPoll (gen profile ul dl : Nat) : Delivery := .poll gen [("proxy-1-0", profile)] (some ⟨"proxy-1-0", ul, dl⟩)

def firstTagResults (ul dl : Nat) : Delivery := .results [⟨"proxy-1-0", ul, dl⟩]

/-- Two profiles; the first poll of the second test is below the base. -/
def pollingSession : List Test :=
  [firstTagTest 7 [(3, 30), (5, 50)] [firstTagPoll 1 7 3 30, firstTagResults 5 50],
    firstTagTest 8 [(1, 10), (9, 90)] [firstTagPoll 2 8 1 10, firstTagResults 9 90]]

theorem creditedOnce_polling : CreditedOnce pollingSession := by
  have hone : Along runSpeedProbe OneProfile State.initial pollingSession := by
    refine ⟨⟨.inl rfl, by decide, by decide, ?_, by decide⟩, ⟨.inl rfl, by decide, by decide, ?_, by decide⟩, trivial⟩
    all_goals
      intro gen tag2entID answer hmem _
      simp [firstTagTest, firstTagPoll, firstTagResults] at hmem ⊢
      exact hmem.2.1
  apply (creditedOnce_iff pollingSession hone).1
  exact ⟨⟨⟨by decide, by decide⟩, ⟨by decide, by decide⟩⟩, ⟨⟨by decide, by decide⟩, ⟨by decide, by decide⟩⟩, trivial⟩

/-- Two profiles; the second test moves more than the first. -/
def reusedTagSession : List Test := [firstTagTest 7 [(5, 50)] [firstTagResults 5 50], firstTagTest 8 [(9, 90)] [firstTagResults 9 90]]

/-- One profile; a poll answered before the test ended is processed after its result. -/
def latePollSession : List Test := [firstTagTest 7 [(3, 30), (5, 50)] [firstTagResults 5 50, firstTagPoll 1 7 3 30]]

/-- A tag used again hides the bytes of the test before, and a late poll counts its bytes twice. -/
theorem credited_wrong : (Along runSpeedProbe OneProfile State.initial reusedTagSession ∧ ¬ CreditedOnce reusedTagSession) ∧
    Along runSpeedProbe OneProfile State.initial latePollSession ∧ ¬ CreditedOnce latePollSession := by
  refine ⟨⟨?_, ?_⟩, ?_, ?_⟩
  · refine ⟨⟨.inl rfl, by decide, by decide, ?_, by decide⟩, ⟨.inl rfl, by decide, by decide, ?_, by decide⟩, trivial⟩
    all_goals
      intro gen tag2entID answer hmem
      simp [firstTagTest, firstTagResults] at hmem
  · intro h
    exact absurd (h 8) (by decide)
  · refine ⟨⟨.inl rfl, by decide, by decide, ?_, by decide⟩, trivial⟩
    intro gen tag2entID answer hmem _
    simp [firstTagTest, firstTagPoll, firstTagResults] at hmem ⊢
    exact hmem.2.1
  · intro h
    exact absurd (h 7) (by decide)

end Throne.Engine.Tests
