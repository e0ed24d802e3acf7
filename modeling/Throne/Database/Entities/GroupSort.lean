import Mathlib.Data.List.Lex
import Mathlib.Data.List.Sort
import Throne.Lib.SortedLists

/-!
# Sorting a group

The kept sorts of `src/src/database/entities/Group.cpp`: what a sort reads of a profile (`SortRule.keyOf`), how it
compares (`SortRule.less`), the whole group in order (`resortOrder`), and the changed profiles alone moved into place
(`repositionOrder`). Texts are UTF-16 units, which Qt compares one by one; a double is NaN or a value of a linear
order. The sorts of the standard library are only specified where no key is NaN.
-/

namespace Throne.Database.Groups

open Lib.SortedLists

abbrev Text := List Nat

inductive GroupSortMethod
  | Raw
  | ByType
  | ByAddress
  | ByName
  | ByTestResult
  | ById
  | ByTraffic
  | BySecurity
  | ByLatency
  deriving DecidableEq

structure GroupSortAction where
  method : GroupSortMethod := .Raw
  descending : Bool := false
  deriving DecidableEq

inductive TestBy
  | latency
  | dlSpeed
  | ulSpeed
  | ipOut
  deriving DecidableEq

inductive TrafficBy
  | total
  | dl
  | ul

inductive TypeBy
  | byType
  | bySecurity
  deriving DecidableEq

/-- What changed under a group. -/
inductive SortInput
  | Membership
  | Config
  | TestResult
  | Traffic
  deriving DecidableEq

structure Group where
  profiles : List Nat := []
  test_sort_by : TestBy := .latency
  traffic_sort_by : TrafficBy := .total
  type_sort_by : TypeBy := .byType
  sort : GroupSortAction := {}

structure EffectiveSecurity where
  level : Int
  transport : Text
  label : Text
  deriving DecidableEq

/-- What a sort reads of an outbound. -/
structure Outbound where
  DisplayType : Text
  name : Text
  DisplayEffectiveAddress : Text
  EffectiveSecurity : EffectiveSecurity
  deriving DecidableEq

/-- What a sort reads of a profile. -/
structure Profile where
  outbound : Option Outbound
  latency : Int
  dl_speed : Text
  ul_speed : Text
  ip_out : Text
  traffic_downlink : Int
  traffic_uplink : Int
  deriving DecidableEq

def sortReads (method : GroupSortMethod) (input : SortInput) : Bool :=
  match method with
  | .Raw | .ById => false
  | .ByTestResult | .ByLatency => input = .Membership || input = .TestResult
  | .ByTraffic => input = .Membership || input = .Traffic
  | _ => input = .Membership || input = .Config

def Group.SortReads (group : Group) (input : SortInput) : Bool := sortReads group.sort.method input

def Group.KeepsSorted (group : Group) : Bool := group.SortReads .Membership

/-! ## Keys -/

section Keys

variable {D : Type} [LinearOrder D] [Zero D]

/-- A double: NaN, or a value that can be compared, the infinities among them. -/
inductive Double (D : Type)
  | nan
  | num (value : D)
  deriving DecidableEq

/-- `a != b`. NaN is other than everything, itself included. -/
def Double.differs : Double D → Double D → Bool
  | .num a, .num b => a ≠ b
  | _, _ => true

/-- `a < b`. NaN is below nothing, and nothing is below it. -/
def Double.below : Double D → Double D → Bool
  | .num a, .num b => a < b
  | _, _ => false

/-- Fields that a method leaves unset stay equal. -/
structure SortKey (D : Type) [Zero D] where
  missing : Bool := false
  level : Int := 0
  number : Double D := .num 0
  text : Text := []

/-- What is read as a double. Of a text any double may be read: a speed of "NaNKbps" is NaN. -/
structure Doubles (D : Type) where
  ofInt : Int → D
  bitrateToBps : Text → Double D

def latencyForSort (latency : Int) : Int :=
  if latency = 0 then 100000
  else if latency < 0 then 99999
  else latency

structure SortRule (D : Type) where
  doubles : Doubles D
  method : GroupSortMethod
  descending : Bool
  test_sort_by : TestBy
  traffic_sort_by : TrafficBy
  byLatency : Bool

/-- The constructor, under the setting `show_config_security`. -/
def SortRule.of (doubles : Doubles D) (show_config_security : Bool) (group : Group) (action : GroupSortAction) : SortRule D where
  doubles := doubles
  method :=
    if action.method = .ByType ∨ action.method = .BySecurity then
      if show_config_security && group.type_sort_by = .bySecurity then .BySecurity else .ByType
    else action.method
  descending := action.descending
  test_sort_by := group.test_sort_by
  traffic_sort_by := group.traffic_sort_by
  byLatency := action.method = .ByLatency || (action.method = .ByTestResult && group.test_sort_by = .latency)

/-- No profile stands for one that cannot be loaded. -/
def SortRule.keyOf (rule : SortRule D) : Option Profile → SortKey D
  | none => { missing := true }
  | some profile =>
    match profile.outbound with
    | none => { missing := true }
    | some outbound =>
      if rule.method = .ByType then { text := outbound.DisplayType }
      else if rule.method = .ByName then { text := outbound.name }
      else if rule.method = .ByAddress then { text := outbound.DisplayEffectiveAddress }
      else if rule.method = .BySecurity then
        let security := outbound.EffectiveSecurity
        { level := security.level, text := security.transport ++ security.label }
      else if rule.byLatency then { number := .num (rule.doubles.ofInt (latencyForSort profile.latency)) }
      else if rule.method = .ByTestResult then
        match rule.test_sort_by with
        | .dlSpeed => { number := rule.doubles.bitrateToBps profile.dl_speed }
        | .ulSpeed => { number := rule.doubles.bitrateToBps profile.ul_speed }
        | _ => { text := profile.ip_out }
      else if rule.method = .ByTraffic then
        match rule.traffic_sort_by with
        | .dl => { number := .num (rule.doubles.ofInt profile.traffic_downlink) }
        | .ul => { number := .num (rule.doubles.ofInt profile.traffic_uplink) }
        | .total => { number := .num (rule.doubles.ofInt (profile.traffic_downlink + profile.traffic_uplink)) }
      else {}

def ascending (a b : SortKey D) : Bool :=
  if a.level ≠ b.level then a.level < b.level
  else if a.number.differs b.number then a.number.below b.number
  else a.text < b.text

/-- A profile that cannot be loaded goes last in either direction. -/
def SortRule.less (rule : SortRule D) (a b : SortKey D) : Bool :=
  if a.missing ≠ b.missing then b.missing
  else if rule.descending then ascending b a
  else ascending a b

/-- The keys that were read, by profile. -/
abbrev SortKeys (D : Type) [Zero D] := Nat → Option (SortKey D)

def SortKeys.insert (keys : SortKeys D) (id : Nat) (key : SortKey D) : SortKeys D :=
  fun other => if other = id then some key else keys other

/-- The key of a profile that is loaded. -/
def SortKeys.key (keys : SortKeys D) (id : Nat) : SortKey D := (keys id).getD {}

variable (rule : SortRule D) (keys : SortKeys D)

def lessIn (a b : Nat) : Bool := rule.less (keys.key a) (keys.key b)

/-! ## The whole group -/

/-- The order of `Resort`, or a profile whose key is not loaded. -/
def resortOrder (snapshot : List Nat) : Except Nat (List Nat) :=
  match snapshot.find? fun id => (keys id).isNone with
  | some id => .error id
  | none => .ok (snapshot.mergeSort fun a b => !lessIn rule keys b a)

/-! ## The changed profiles -/

def bit_width (n : Nat) : Nat := if n = 0 then 0 else n.log2 + 1

/-- The profile at a place of a list. -/
def idAt (snapshot : List Nat) (i : Nat) : Nat := snapshot.getD i 0

def changedPositions (changed snapshot : List Nat) : List Nat :=
  (List.range snapshot.length).filter fun i => changed.contains (idAt snapshot i)

/-- `Reposition` sorts the whole group when many profiles changed. -/
def manyChanged (positions snapshot : List Nat) : Bool := snapshot.length ≤ positions.length * (bit_width snapshot.length + 4)

/-- The changed rows and their neighbours. -/
def around (positions snapshot : List Nat) : List Nat :=
  positions.flatMap fun i =>
    idAt snapshot i :: (if 0 < i then [idAt snapshot (i - 1)] else []) ++
      if i + 1 < snapshot.length then [idAt snapshot (i + 1)] else []

def inPlace (positions snapshot : List Nat) : Bool :=
  positions.all fun i =>
    (i = 0 || !lessIn rule keys (idAt snapshot i) (idAt snapshot (i - 1))) &&
      (i + 1 = snapshot.length || !lessIn rule keys (idAt snapshot (i + 1)) (idAt snapshot i))

def comesBefore (key : SortKey D) (other : Nat) : Except Nat Bool :=
  match keys other with
  | none => .error other
  | some otherKey => .ok (rule.less key otherKey)

/-- A row inserted after equal keys, or a profile whose key is not loaded. -/
def place (order : List Nat) (id : Nat) : Except Nat (List Nat) :=
  match keys id with
  | none => .error id
  | some key =>
    match upperBound (comesBefore rule keys key) order order.length 0 order.length with
    | .error other => .error other
    | .ok first => .ok (order.insertIdx first id)

def placeAll (snapshot : List Nat) : List Nat → List Nat → Except Nat (List Nat)
  | [], order => .ok order
  | i :: positions, order =>
    match place rule keys order (idAt snapshot i) with
    | .error id => .error id
    | .ok order => placeAll snapshot positions order

/-- The order of `Reposition`, none when the changed rows are in place, or a profile whose key is not loaded. -/
def repositionOrder (changed snapshot : List Nat) : Except Nat (Option (List Nat)) :=
  let positions := changedPositions changed snapshot
  match (around positions snapshot).find? fun id => (keys id).isNone with
  | some id => .error id
  | none =>
    if inPlace rule keys positions snapshot then .ok none
    else
      -- every changed row is lifted, not just the misplaced ones
      match placeAll rule keys snapshot positions (snapshot.filter fun id => !changed.contains id) with
      | .error id => .error id
      | .ok order => .ok (some order)

end Keys

end Throne.Database.Groups
