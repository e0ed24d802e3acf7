import Throne.Lib.Json
import Throne.Database.Entities.RouteRule

/-!
# The members of an auto selector

`src/src/configs/AutoSelectorPlan.cpp`: which profiles of the tracked groups may be members, in what
order, and how many of them enter the config. What is read of profiles, groups and the selector is kept,
regular expressions and upper case are Qt's (`Texts`), and a member's own JSON is taken as parsed.

A profile read from the database always has an outbound, of the class its type stands for
(`NewOutboundByType`), so its class is read off the type.
-/

namespace Throne.Configs.AutoSelector

open Lib.Texts Lib.Json Database.Routes List

/-! ## Profiles and groups -/

/-- What is read of a profile: `subtype` and `config` are those of a custom one, `list` the hops of a
chain. An empty config is one that does not parse. -/
structure Profile where
  type : Text
  name : Text
  gid : Int
  displayName : Text
  latency : Int
  latency_at : Int
  test_country : Text
  subtype : Text
  config : Fields
  list : List Int

/-- `IsXray`. -/
def Profile.IsXray (p : Profile) : Bool := p.type == "xrayvless".toList || p.type == "custom".toList && p.subtype == "xrayoutbound".toList

/-- `IsXrayFullConfig`. -/
def Profile.IsXrayFullConfig (p : Profile) : Bool := p.type == "custom".toList && p.subtype == "xrayfullconfig".toList

/-- `IsExtraCore`. -/
def Profile.IsExtraCore (p : Profile) : Bool := p.type == "extracore".toList

/-- `isCustomFullConfig`. -/
def Profile.isCustomFullConfig (p : Profile) : Bool := p.type == "custom".toList && p.subtype == "fullconfig".toList

/-- Chains and auto selectors. -/
def Profile.isMeta (p : Profile) : Bool := p.type == "chain".toList || p.type == "autoselector".toList

theorem not_isXray_of_fullConfig {p : Profile} (h : p.IsXrayFullConfig = true) : p.IsXray = false := by
  rw [Profile.IsXrayFullConfig, Bool.and_eq_true, beq_iff_eq, beq_iff_eq] at h
  rw [Profile.IsXray, h.1, h.2]
  decide

/-- `Group`. -/
structure Group where
  name : Text
  landing_proxy_id : Int
  front_proxy_id : Int
  profiles : List Int

/-- The stored profiles and groups. Profiles are numbered from zero on. -/
structure Repo where
  profile : Int → Option Profile
  group : Int → Option Group
  groupIds : List Int
  numbered : ∀ id p, profile id = some p → 0 ≤ id

/-- The fields of `autoSelector` a plan reads. -/
structure Selector where
  gids : List Int
  nameFilter : Text
  countryFilter : Text
  excludeUnavailable : Bool
  resultValidityMins : Int
  poolCap : Int
  buildLimit : Int
  pool : List Int

def kMaxPoolCap : Int := 3000
def kMaxBuildLimit : Int := 500

/-- `Normalize`, as far as a plan reads it. -/
def Selector.Normalize (s : Selector) : Selector :=
  let poolCap := min (max s.poolCap 1) kMaxPoolCap
  { s with
    gids := s.gids.foldl
      (fun tracked gid => if 0 ≤ gid ∧ gid ∉ tracked then tracked ++ [gid] else tracked) []
    poolCap := poolCap
    buildLimit := min (min (max s.buildLimit 1) kMaxBuildLimit) poolCap
    resultValidityMins := max s.resultValidityMins 0 }

/-- Qt's regular expressions, none where the pattern is invalid, and `toUpper`. -/
structure Patterns where
  regex : Text → Option (Text → Bool)
  upper : Text → Text

/-! ## Eligibility -/

/-- `AutoSelectorSkip`. -/
inductive AutoSelectorSkip where
  | None | Missing | MetaType | CoreTransitions | ExtraCore | FullConfig | Malformed | Tailscale
  | ManagementEndpoint | NameFilter | CountryFilter | Unavailable | XrayFullChained
  deriving DecidableEq

/-- The kinds in the order they are reported in. -/
def AutoSelectorSkip.all : List AutoSelectorSkip :=
  [.None, .Missing, .MetaType, .CoreTransitions, .ExtraCore, .FullConfig, .Malformed, .Tailscale,
    .ManagementEndpoint, .NameFilter, .CountryFilter, .Unavailable, .XrayFullChained]

/-- `MemberFilters`; an invalid name pattern filters nothing. -/
structure MemberFilters where
  name : Option (Text → Bool)
  countries : List Text
  excludedCountries : List Text

section

variable (patterns : Patterns)

/-- `buildFilters`. -/
def buildFilters (selector : Selector) : MemberFilters :=
  let codes := (selector.countryFilter.splitOn ',').map trimmed
  let countryOf (code : Text) := trimmed (code.drop 1)
  { name := if (trimmed selector.nameFilter).isEmpty then none else patterns.regex selector.nameFilter
    countries :=
      (codes.filter fun code => code.head? != some '!' && !code.isEmpty).map patterns.upper
    excludedCountries :=
      (codes.filter fun code => code.head? == some '!' && !(countryOf code).isEmpty).map fun code => patterns.upper (countryOf code) }

/-- `hasFreshResult`. -/
def hasFreshResult (member : Profile) (selector : Selector) (now : Int) : Bool :=
  member.latency != 0 && decide (0 < selector.resultValidityMins) && decide (0 < member.latency_at) &&
      decide (now - member.latency_at ≤ selector.resultValidityMins * 60)

/-- `eligibilityOf`. -/
def eligibilityOf (member : Option Profile) (selector : Selector) (filters : MemberFilters) (now : Int) : AutoSelectorSkip :=
  match member with
  | none => .Missing
  | some member =>
    let country := patterns.upper (trimmed member.test_country)
    if member.isMeta then .MetaType
    else if member.type == "tailscale".toList then .Tailscale
    else if member.type == "openvpn".toList || member.type == "openconnect".toList then
      .ManagementEndpoint
    else if member.IsExtraCore then .ExtraCore
    else if member.type == "custom".toList && ! ["outbound".toList, "xrayoutbound".toList,
        "xrayfullconfig".toList].contains member.subtype then
      .FullConfig
    else if member.type == "custom".toList && member.config.isEmpty then .Malformed
    else if filters.name.any fun name => !name member.displayName then .NameFilter
    else if (!filters.countries.isEmpty || !filters.excludedCountries.isEmpty) &&
        (country.isEmpty || filters.excludedCountries.contains country || !filters.countries.isEmpty && !filters.countries.contains country) then
      .CountryFilter
    else if selector.excludeUnavailable && decide (member.latency < 0) &&
        hasFreshResult member selector now then
      .Unavailable
    else .None

/-- `coreTransitions`: a hop that is missing does not count. -/
def coreTransitions (landing member front : Option Profile) : Nat :=
  ([landing, member, front].filterMap id).foldl (fun (state : Nat × Bool) hop =>
      (if hop.IsXray != state.2 then state.1 + 1 else state.1, hop.IsXray)) (0, false) |>.1

/-- `xrayFullConfigFitsChain`. -/
def xrayFullConfigFitsChain (landing front : Option Profile) : Bool :=
  match front, landing with
  | some _, _ => false
  | none, none => true
  | none, some landing => !landing.IsXray && !landing.IsXrayFullConfig && !landing.IsExtraCore

/-- `effectiveLatency`. -/
def effectiveLatency (member : Option Profile) (selector : Selector) (now : Int) : Int :=
  match member with
  | none => 0
  | some member => if hasFreshResult member selector now then member.latency else 0

/-- `latencyRank`. -/
def latencyRank (latency : Int) : Nat :=
  if 0 < latency then 0 else if latency = 0 then 1 else 2

/-- `byLatency`. -/
def byLatency (leftLatency rightLatency : Int) : Bool :=
  if latencyRank leftLatency ≠ latencyRank rightLatency then
    decide (latencyRank leftLatency < latencyRank rightLatency)
  else latencyRank leftLatency == 0 && decide (leftLatency < rightLatency)

/-! ## Members -/

/-- What the loop over the tracked groups has found so far. -/
structure MemberScan where
  seen : List Int
  members : List Int
  unavailable : List Int
  skips : List AutoSelectorSkip
  membersInGroups : Nat
  rankedByTest : Nat

def MemberScan.start : MemberScan := ⟨[], [], [], [], 0, 0⟩

variable (repo : Repo)

/-- The proxy of a group, none where there is none to read. -/
def Repo.proxy (id : Int) : Option Profile := if 0 ≤ id then repo.profile id else none

/-- Why a profile of a group is no member: its own fault, or the chain its group puts it in. -/
def skipOf (selector : Selector) (now : Int) (group : Group) (id : Int) : AutoSelectorSkip :=
  let landing := repo.proxy group.landing_proxy_id
  let front := repo.proxy group.front_proxy_id
  let skip := eligibilityOf patterns (repo.profile id) selector (buildFilters patterns selector) now
  if skip ≠ .None ∧ skip ≠ .Unavailable then skip
  else if (repo.profile id).any Profile.IsXrayFullConfig then
    if xrayFullConfigFitsChain landing front then skip else .XrayFullChained
  else if 2 < coreTransitions landing (repo.profile id) front then .CoreTransitions
  else skip

/-- One pass of the inner loop of `eligibleMembers`; `self` is the selector's own id. -/
def MemberScan.consider (selector : Selector) (now self : Int) (group : Group) (s : MemberScan) (id : Int) : MemberScan :=
  if id = self ∨ id ∈ s.seen then s
  else
    let s := { s with seen := id :: s.seen, membersInGroups := s.membersInGroups + 1 }
    match skipOf patterns repo selector now group id with
    | .None =>
      { s with
        members := s.members ++ [id]
        rankedByTest :=
          if 0 < effectiveLatency (repo.profile id) selector now then s.rankedByTest + 1
          else s.rankedByTest }
    | .Unavailable => { s with unavailable := s.unavailable ++ [id] }
    | skip => { s with skips := s.skips ++ [skip] }

/-- The loops of `eligibleMembers`. -/
def scanGroups (selector : Selector) (now self : Int) (groups : List Group) : MemberScan :=
  groups.foldl (fun s group =>
      group.profiles.foldl (MemberScan.consider patterns repo selector now self group) s)
    .start

/-- `AutoSelectorPlan`. -/
structure AutoSelectorPlan where
  pool : List Int
  build : List Int
  membersInGroups : Nat
  missingGroups : Nat
  eligible : Nat
  rankedByTest : Nat
  keptUnavailable : Nat
  skipped : List (AutoSelectorSkip × Nat)
  truncated : Bool
  poolCapUsed : Int
  buildLimitUsed : Int
  needsRanking : Bool
  error : Text

/-- A plan without members. -/
def AutoSelectorPlan.failed (error : Text) (selector : Selector) (missingGroups : Nat) : AutoSelectorPlan where
  pool := []
  build := []
  membersInGroups := 0
  missingGroups := missingGroups
  eligible := 0
  rankedByTest := 0
  keptUnavailable := 0
  skipped := []
  truncated := false
  poolCapUsed := selector.poolCap
  buildLimitUsed := selector.buildLimit
  needsRanking := false
  error := error

/-- The members `eligibleMembers` ends with: where every one failed its last test, they are kept. -/
def MemberScan.result (s : MemberScan) : List Int :=
  if s.members.isEmpty && !s.unavailable.isEmpty then s.unavailable else s.members

/-- The skips `eligibleMembers` reports, each kind with its count. -/
def MemberScan.skipped (s : MemberScan) : List (AutoSelectorSkip × Nat) :=
  let skips :=
    if s.members.isEmpty then s.skips
    else s.skips ++ List.replicate s.unavailable.length .Unavailable
  (AutoSelectorSkip.all.map fun skip => (skip, skips.count skip)).filter fun entry => entry.2 != 0

/-- `sortByLatency`, a stable sort. -/
def sortByLatency (ids : List Int) (selector : Selector) (now : Int) : List Int :=
  let latency (id : Int) := effectiveLatency (repo.profile id) selector now
  ids.mergeSort fun left right => !byLatency (latency right) (latency left)

/-- `orderMembers`: the persisted order first, newcomers by latency. -/
def orderMembers (members persistedPool : List Int) (selector : Selector) (now : Int) : List Int :=
  let placed := (persistedPool.filter fun id => members.contains id).reverse.dedup.reverse
  placed ++ sortByLatency repo (members.filter fun id => !placed.contains id) selector now

/-- `PlanAutoSelector` with both its readings of the clock, for the members and for their order. -/
def PlanAutoSelectorAt (selector : Selector) (now later self : Int) :
    AutoSelectorPlan :=
  let selector := selector.Normalize
  let groups := selector.gids.filterMap repo.group
  let missingGroups := selector.gids.length - groups.length
  if selector.gids.isEmpty then .failed "Auto selector tracks no group".toList selector 0
  else if groups.isEmpty then
    .failed "Auto selector points at a group that no longer exists".toList selector missingGroups
  else
    let scan := scanGroups patterns repo selector now self groups
    let members := scan.result
    let plan :=
      { AutoSelectorPlan.failed [] selector missingGroups with
        membersInGroups := scan.membersInGroups
        eligible := members.length
        rankedByTest := scan.rankedByTest
        keptUnavailable := if scan.members.isEmpty then scan.unavailable.length else 0
        skipped := scan.skipped }
    if members.isEmpty then { plan with error := "Auto selector has no usable members".toList }
    else
      let ordered := orderMembers repo members selector.pool selector later
      let pool := ordered.take selector.poolCap.toNat
      let build := pool.take selector.buildLimit.toNat
      { plan with
        pool := pool
        build := build
        truncated := decide (selector.poolCap < ordered.length)
        needsRanking := decide (selector.buildLimit < pool.length) &&
          build.any fun id => effectiveLatency (repo.profile id) selector later == 0 }

/-- `PlanAutoSelector`, for the selector with the id `self`. -/
def PlanAutoSelector (selector : Selector) (now self : Int) : AutoSelectorPlan := PlanAutoSelectorAt patterns repo selector now now self

end

/-! ## What a planned member is -/

section Planned

variable {patterns : Patterns} {repo : Repo} {selector : Selector} {now self : Int}

/-- The kinds of skip a member may have and still be planned. -/
def AutoSelectorSkip.usable (skip : AutoSelectorSkip) : Prop := skip = .None ∨ skip = .Unavailable

/-- A tracked group lists the profile, and the chain of that group lets it be a member. -/
def Listed (patterns : Patterns) (repo : Repo) (selector : Selector) (now : Int) (groups : List Group) (id : Int) : Prop :=
  ∃ group ∈ groups, id ∈ group.profiles ∧ (skipOf patterns repo selector now group id).usable

/-- All that the loop has found is listed. -/
def AllListed (patterns : Patterns) (repo : Repo) (selector : Selector) (now : Int) (groups : List Group) (s : MemberScan) : Prop :=
  ∀ x ∈ s.members ++ s.unavailable, Listed patterns repo selector now groups x

variable {id : Int}

theorem consider_listed {groups : List Group} {group : Group} {s : MemberScan}
    (hgroup : group ∈ groups) (hid : id ∈ group.profiles) (h : AllListed patterns repo selector now groups s) :
    AllListed patterns repo selector now groups (s.consider patterns repo selector now self group id) := by
  intro x hx
  rw [MemberScan.consider] at hx
  split at hx
  · exact h x hx
  · simp only at hx
    -- A profile that is taken was found usable in the group at hand.
    split at hx
    · next hskip =>
      simp only [mem_append, mem_singleton] at hx
      rcases hx with (hx | rfl) | hx
      · exact h x (mem_append_left _ hx)
      · exact ⟨group, hgroup, hid, .inl hskip⟩
      · exact h x (mem_append_right _ hx)
    · next hskip =>
      simp only [mem_append, mem_singleton] at hx
      rcases hx with hx | hx | rfl
      · exact h x (mem_append_left _ hx)
      · exact h x (mem_append_right _ hx)
      · exact ⟨group, hgroup, hid, .inr hskip⟩
    · exact h x hx

theorem scanGroups_listed {groups : List Group} : AllListed patterns repo selector now groups
    (scanGroups patterns repo selector now self groups) := by
  rw [scanGroups]
  apply List.foldlRecOn (motive := AllListed patterns repo selector now groups) groups
  · exact nofun
  · intro s hs group hgroup
    apply List.foldlRecOn (motive := AllListed patterns repo selector now groups) group.profiles
    · exact hs
    · intro s hs id hid
      exact consider_listed hgroup hid hs

theorem mem_orderMembers {members persistedPool : List Int} (h : id ∈ orderMembers repo members persistedPool selector now) : id ∈ members := by
  rw [orderMembers, mem_append] at h
  rcases h with h | h
  · rw [mem_reverse, mem_dedup, mem_reverse, mem_filter] at h
    exact contains_iff_mem.1 h.2
  · rw [sortByLatency, mem_mergeSort] at h
    exact (mem_filter.1 h).1

/-- Every member of the build list is listed by a tracked group that lets it be one. -/
theorem build_listed (h : id ∈ (PlanAutoSelector patterns repo selector now self).build) :
    Listed patterns repo selector.Normalize now (selector.Normalize.gids.filterMap repo.group) id := by
  rw [PlanAutoSelector, PlanAutoSelectorAt] at h
  split at h
  · cases h
  · split at h
    · cases h
    · simp only at h
      split at h
      · cases h
      · have hmem := mem_orderMembers (mem_of_mem_take (mem_of_mem_take h))
        apply scanGroups_listed
        rw [MemberScan.result] at hmem
        split at hmem
        · exact mem_append_right _ hmem
        · exact mem_append_left _ hmem

theorem skipOf_usable {group : Group} (h : (skipOf patterns repo selector now group id).usable) :
    (eligibilityOf patterns (repo.profile id) selector (buildFilters patterns selector) now).usable := by
  rw [skipOf] at h
  split at h
  · exact h
  · next hskip =>
    rw [AutoSelectorSkip.usable]
    tauto

/-- What eligibility says of a member, whatever the filters and the tests. -/
theorem eligibilityOf_usable {member : Option Profile} {filters : MemberFilters} (h : (eligibilityOf patterns member selector filters now).usable) :
    ∃ p, member = some p ∧ p.isMeta = false ∧ p.IsExtraCore = false ∧ p.isCustomFullConfig = false := by
  have hunusable : ∀ {skip : AutoSelectorSkip}, skip.usable → skip ≠ .None → skip ≠ .Unavailable → False := by
    rintro skip (h | h) hnone hunavailable
    · exact hnone h
    · exact hunavailable h
  cases member with
  | none =>
    rw [eligibilityOf] at h
    exact (hunusable h (by decide) (by decide)).elim
  | some p =>
    refine ⟨p, rfl, ?_⟩
    simp only [eligibilityOf] at h
    split at h
    · exact (hunusable h (by decide) (by decide)).elim
    · next hmeta =>
      split at h
      · exact (hunusable h (by decide) (by decide)).elim
      · split at h
        · exact (hunusable h (by decide) (by decide)).elim
        · split at h
          · exact (hunusable h (by decide) (by decide)).elim
          · next hcore =>
            split at h
            · exact (hunusable h (by decide) (by decide)).elim
            · next hsubtype =>
              refine ⟨Bool.eq_false_iff.2 hmeta, Bool.eq_false_iff.2 hcore, ?_⟩
              by_contra hfull
              rw [Bool.not_eq_false, Profile.isCustomFullConfig, Bool.and_eq_true, beq_iff_eq, beq_iff_eq] at hfull
              apply hsubtype
              rw [hfull.1, hfull.2]
              decide

/-- A planned member is stored, and neither a chain, an auto selector, an extra core nor a whole config
of sing-box. -/
theorem build_member (h : id ∈ (PlanAutoSelector patterns repo selector now self).build) :
    ∃ p, repo.profile id = some p ∧ p.isMeta = false ∧ p.IsExtraCore = false ∧ p.isCustomFullConfig = false := by
  obtain ⟨group, -, -, hskip⟩ := build_listed h
  exact eligibilityOf_usable (skipOf_usable hskip)

end Planned

end Throne.Configs.AutoSelector
