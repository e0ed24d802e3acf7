import Throne.Configs.AutoSelectorPlan

/-!
# The chains of an auto selector's members

`entIDListtoEntList` and the bridges of `buildOutboundChain` in `src/src/configs/generate.cpp`, beside
what `buildAutoSelectorGroup` does for each planned member. `planned_accepted_iff` says when the hops of
a planned member are accepted: the plan leaves out what a member's group makes impossible, but not
everything the builder refuses. `bridgesFor_eq` is about the bridges, which agree wherever the hops are
accepted.
-/

namespace Throne.Configs.AutoSelector

open Lib.Texts Lib.Json Database.Routes List

/-! ## Hops -/

/-- `chainScan`. -/
structure chainScan where
  hopCount : Nat
  extraCoreCount : Nat
  extraCoreIdx : Option Nat
  xrayFullConfigCount : Nat
  xrayFullConfigIdx : Option Nat
  xrayHopCount : Nat
  hasCustomFullConfig : Bool
  coreTransitions : Nat

/-- `chainScanError`; empty where there is none. -/
def chainScanError (scan : chainScan) : Text :=
  if scan.hasCustomFullConfig then
    "Custom full config profiles cannot be used in a chain; only custom outbound profiles are chainable".toList
  else if 1 < scan.extraCoreCount then
    "Only one extra-core profile is allowed in a chain".toList
  else if 1 < scan.xrayFullConfigCount then
    "Only one custom Xray full config profile is allowed in a chain".toList
  else if 0 < scan.extraCoreCount ∧ 0 < scan.xrayFullConfigCount then
    "Extra-core and custom Xray full config profiles cannot be combined in a chain".toList
  else if 0 < scan.xrayFullConfigCount ∧ 0 < scan.xrayHopCount then
    "Custom Xray full config cannot be combined with other Xray hops in a chain (only one Xray instance is supported at a time)".toList
  else if scan.extraCoreCount = 1 ∧ 1 < scan.hopCount ∧
      scan.extraCoreIdx ≠ some (scan.hopCount - 1) then
    "Extra-core profiles can only be the final hop in a chain (top of the chain editor)".toList
  else if scan.xrayFullConfigCount = 1 ∧ 1 < scan.hopCount ∧
      scan.xrayFullConfigIdx ≠ some (scan.hopCount - 1) then
    "Custom Xray full config can only be the final hop in a chain (top of the chain editor)".toList
  else if 2 < scan.coreTransitions then
    "Too many core transitions, the valid sequence is: (optional sing-box chain)->(optional xray chain)->(optional sing-box chain)".toList
  else []

/-- `missingHopError`, for what is started: a chain says so itself, otherwise the group that names the
proxy does. -/
def missingHopError (repo : Repo) (ent : Profile) (id : Int) : Text :=
  if ent.type = "chain".toList ∧ id ∈ ent.list then
    "Chain \"".toList ++ ent.name ++ "\" has a hop (profile id ".toList ++ intText id ++ ") that no longer exists, edit the chain to remove it".toList
  else
    let groups := (ent.gid :: repo.groupIds).filterMap repo.group
    match groups.find? fun group => group.front_proxy_id == id || group.landing_proxy_id == id with
    | some group =>
      if group.front_proxy_id = id then
        "Group \"".toList ++ group.name ++ "\" has a front proxy that has been deleted.".toList
      else "Group \"".toList ++ group.name ++ "\" has a landing proxy that has been deleted.".toList
    | none => "A proxy in the chain can no longer be found.".toList

def warpProfileID : Int := -2408

/-- What the loop of `entIDListtoEntList` has so far, with the two marks it leaves in the context. -/
structure HopScan where
  ents : List Profile
  scan : chainScan
  inXray : Bool
  singToXrayTransitioned : Bool
  xrayToSingTransitioned : Bool

def HopScan.start : HopScan where
  ents := []
  scan := ⟨0, 0, none, 0, none, 0, false, 0⟩
  inXray := false
  singToXrayTransitioned := false
  xrayToSingTransitioned := false

/-- The next hop runs on a core. -/
def HopScan.enter (s : HopScan) (xray : Bool) : HopScan :=
  { s with
    inXray := xray
    singToXrayTransitioned := s.singToXrayTransitioned || (!s.inXray && xray)
    xrayToSingTransitioned := s.xrayToSingTransitioned || (s.inXray && !xray)
    scan := { s.scan with
      coreTransitions :=
        if xray != s.inXray then s.scan.coreTransitions + 1 else s.scan.coreTransitions } }

/-- The counts of one hop that is no warp. -/
def HopScan.count (s : HopScan) (ent : Profile) : HopScan :=
  { s with
    ents := s.ents ++ [ent]
    scan := { s.scan with
      extraCoreCount := if ent.IsExtraCore then s.scan.extraCoreCount + 1 else s.scan.extraCoreCount
      extraCoreIdx := if ent.IsExtraCore then some s.ents.length else s.scan.extraCoreIdx
      xrayFullConfigCount :=
        if ent.IsXrayFullConfig then s.scan.xrayFullConfigCount + 1 else s.scan.xrayFullConfigCount
      xrayFullConfigIdx :=
        if ent.IsXrayFullConfig then some s.ents.length else s.scan.xrayFullConfigIdx
      xrayHopCount := if ent.IsXray then s.scan.xrayHopCount + 1 else s.scan.xrayHopCount
      hasCustomFullConfig := s.scan.hasCustomFullConfig || ent.isCustomFullConfig } }

/-- The loop of `entIDListtoEntList`. -/
def scanHops (repo : Repo) (warp ent : Profile) : List Int → HopScan → Except Text HopScan
  | [], s => .ok s
  | id :: ids, s =>
    if id = warpProfileID then
      scanHops repo warp ent ids { s.enter false with ents := s.ents ++ [warp] }
    else
      match repo.profile id with
      | none => .error (missingHopError repo ent id)
      | some hop =>
        if hop.type = "chain".toList then .error "Chain in Chain is not allowed".toList
        else if hop.type = "autoselector".toList then
          .error "An auto selector cannot be used as a hop; it is not a fixed server".toList
        else scanHops repo warp ent ids ((s.enter hop.IsXray).count hop)

/-- `entIDListtoEntList`; `warp` is `getWarpProfile()` and `ent` what is started. -/
def entIDListtoEntList (repo : Repo) (warp ent : Profile) (entIDs : List Int) : Except Text HopScan :=
  match scanHops repo warp ent entIDs .start with
  | .error error => .error error
  | .ok s =>
    let error := chainScanError { s.scan with hopCount := s.ents.length }
    if error.isEmpty then .ok s else .error error

/-! ## Bridges -/

/-- `memberBridges`. -/
structure memberBridges where
  singToXray : Bool
  xrayToSing : Bool
  xrayFullConfig : Bool
  deriving DecidableEq

/-- `count`. -/
def memberBridges.count (b : memberBridges) : Nat := b.singToXray.toNat + b.xrayToSing.toNat + b.xrayFullConfig.toNat

/-- The loop of `bridgesFor`. -/
def bridgesFrom (repo : Repo) : List Int → Bool → memberBridges → memberBridges
  | [], _, needed => needed
  | id :: ids, inXray, needed =>
    match repo.profile id with
    | none => bridgesFrom repo ids inXray needed
    | some hop =>
      bridgesFrom repo ids hop.IsXray
        { singToXray := needed.singToXray || (hop.IsXray && !inXray)
          xrayToSing := needed.xrayToSing || (!hop.IsXray && inXray)
          xrayFullConfig := needed.xrayFullConfig || hop.IsXrayFullConfig }

/-- `bridgesFor`. -/
def bridgesFor (repo : Repo) (hopIDs : List Int) : memberBridges := bridgesFrom repo hopIDs false ⟨false, false, false⟩

/-- The bridges `buildOutboundChain` creates for the hops it was given: one for each way between the
cores, and one for the last hop when that is a full config of Xray. -/
def createdBridges (s : HopScan) : memberBridges where
  singToXray := s.singToXrayTransitioned
  xrayToSing := s.xrayToSingTransitioned
  xrayFullConfig := s.ents.getLast?.any Profile.IsXrayFullConfig

/-- The hops `buildAutoSelectorGroup` gives a member: the proxies of the member's own group around it. -/
def hopIDsOf (repo : Repo) (member : Profile) (id : Int) : List Int :=
  match repo.group member.gid with
  | none => [id]
  | some group =>
    (if 0 ≤ group.landing_proxy_id then [group.landing_proxy_id] else []) ++ [id] ++
      (if 0 ≤ group.front_proxy_id then [group.front_proxy_id] else [])

/-- What stands between the hops of a planned member and the builder. Each proxy its group names must
exist and be a hop: in front of the member none that has to come last, behind it no whole sing-box
config; with a whole config of Xray no other Xray hop and nothing behind; and Xray is entered once. -/
structure HopsFit (repo : Repo) (member : Profile) : Prop where
  landing : ∀ group, repo.group member.gid = some group → 0 ≤ group.landing_proxy_id →
    ∃ p, repo.profile group.landing_proxy_id = some p ∧ p.isMeta = false ∧
      p.isCustomFullConfig = false ∧ p.IsExtraCore = false ∧ p.IsXrayFullConfig = false ∧ (member.IsXrayFullConfig = true → p.IsXray = false)
  front : ∀ group, repo.group member.gid = some group → 0 ≤ group.front_proxy_id →
    ∃ p, repo.profile group.front_proxy_id = some p ∧ p.isMeta = false ∧ p.isCustomFullConfig = false ∧ member.IsXrayFullConfig = false ∧
        (p.IsXrayFullConfig = true → member.IsXray = false)
  between : ∀ group landing front, repo.group member.gid = some group →
    0 ≤ group.landing_proxy_id → 0 ≤ group.front_proxy_id → repo.profile group.landing_proxy_id = some landing →
        repo.profile group.front_proxy_id = some front → landing.IsXray = true →
          front.IsXrayFullConfig = false ∧ (front.IsXray = true → member.IsXray = true)

/-! ## What the loop counts -/

/-- One hop of the loop. -/
def HopScan.take (s : HopScan) (hop : Profile) : HopScan := (s.enter hop.IsXray).count hop

/-- Without warp the loop ends well exactly when every hop is there and none is a chain or a selector,
and it has then taken the hops one by one. -/
theorem scanHops_ok_iff {repo : Repo} {warp ent : Profile} {ids : List Int} {s s' : HopScan}
    (hwarp : warpProfileID ∉ ids) : scanHops repo warp ent ids s = .ok s' ↔ ∃ hops : List Profile, ids.map repo.profile = hops.map some ∧
    (∀ hop ∈ hops, hop.isMeta = false) ∧ hops.foldl HopScan.take s = s' := by
  induction ids generalizing s with
  | nil =>
    constructor
    · intro h
      refine ⟨[], rfl, nofun, ?_⟩
      exact Except.ok.inj h
    · rintro ⟨hops, hmap, -, rfl⟩
      rw [map_nil, eq_comm, map_eq_nil_iff] at hmap
      rw [hmap]
      rfl
  | cons id ids ih =>
    have hid : id ≠ warpProfileID := fun h => hwarp (h ▸ mem_cons_self)
    have ih := @ih
    rw [scanHops, if_neg hid]
    cases hprofile : repo.profile id with
    | none =>
      constructor
      · exact nofun
      · rintro ⟨hops, hmap, -, -⟩
        cases hops with
        | nil => exact absurd hmap (cons_ne_nil _ _)
        | cons hop hops =>
          rw [map_cons, map_cons, hprofile] at hmap
          exact nomatch (List.cons.inj hmap).1
    | some hop =>
      by_cases hmeta : hop.isMeta = true
      · -- A chain or a selector ends the loop.
        have herror : ∃ error, (if hop.type = "chain".toList then
              Except.error "Chain in Chain is not allowed".toList
            else if hop.type = "autoselector".toList then
              .error "An auto selector cannot be used as a hop; it is not a fixed server".toList
            else scanHops repo warp ent ids ((s.enter hop.IsXray).count hop)) = .error error := by
          rw [Profile.isMeta, Bool.or_eq_true, beq_iff_eq, beq_iff_eq] at hmeta
          by_cases hchain : hop.type = "chain".toList
          · exact ⟨_, if_pos hchain⟩
          · refine ⟨_, (if_neg hchain).trans (if_pos (hmeta.resolve_left hchain))⟩
        obtain ⟨error, herror⟩ := herror
        constructor
        · intro h
          exact nomatch herror.symm.trans h
        · rintro ⟨hops, hmap, hplain, -⟩
          cases hops with
          | nil => exact absurd hmap (cons_ne_nil _ _)
          | cons hop' hops =>
            rw [map_cons, map_cons, hprofile] at hmap
            obtain rfl := Option.some.inj (List.cons.inj hmap).1
            rw [hplain hop mem_cons_self] at hmeta
            cases hmeta
      · have hplain : ¬hop.type = "chain".toList ∧ ¬hop.type = "autoselector".toList := by
          simpa [Profile.isMeta] using hmeta
        simp only [if_neg hplain.1, if_neg hplain.2]
        rw [ih fun h => hwarp (mem_cons_of_mem _ h)]
        constructor
        · rintro ⟨hops, hmap, hall, rfl⟩
          refine ⟨hop :: hops, ?_, ?_, rfl⟩
          · rw [map_cons, map_cons, hprofile, hmap]
          · intro x hx
            rcases mem_cons.1 hx with rfl | hx
            · exact Bool.eq_false_iff.2 hmeta
            · exact hall x hx
        · rintro ⟨hops, hmap, hall, rfl⟩
          cases hops with
          | nil => exact absurd hmap (cons_ne_nil _ _)
          | cons hop' hops =>
            rw [map_cons, map_cons, hprofile] at hmap
            obtain ⟨hhop, hrest⟩ := List.cons.inj hmap
            cases hhop
            exact ⟨hops, hrest, fun x hx => hall x (mem_cons_of_mem _ hx), rfl⟩

/-- What the loop has counted for the hops it took. -/
structure Scanned (hops : List Profile) (s : HopScan) : Prop where
  ents : s.ents = hops
  extraCores : s.scan.extraCoreCount = hops.countP Profile.IsExtraCore
  extraCoreIdx : ∀ i, s.scan.extraCoreIdx = some i → i < hops.length
  fullConfigs : s.scan.xrayFullConfigCount = hops.countP Profile.IsXrayFullConfig
  fullConfigIdx : ∀ i, s.scan.xrayFullConfigIdx = some i → i < hops.length
  xrayHops : s.scan.xrayHopCount = hops.countP Profile.IsXray
  custom : s.scan.hasCustomFullConfig = hops.any Profile.isCustomFullConfig

theorem scanned_start : Scanned [] .start := by
  constructor <;> first | rfl | exact nofun

variable {hops : List Profile}

theorem Scanned.take {s : HopScan} (h : Scanned hops s) (hop : Profile) : Scanned (hops ++ [hop]) (s.take hop) := by
  obtain ⟨hents, hextra, hextraIdx, hfull, hfullIdx, hxray, hcustom⟩ := h
  constructor
  · rw [← hents]
    rfl
  · rw [countP_append, countP_singleton, ← hextra]
    change (if hop.IsExtraCore then _ + 1 else _) = _
    split <;> rfl
  · intro i hi
    change (if hop.IsExtraCore then some s.ents.length else s.scan.extraCoreIdx) = some i at hi
    rw [length_append, length_singleton]
    split at hi
    · rw [← Option.some.inj hi, hents]
      omega
    · exact Nat.lt_succ_of_lt (hextraIdx i hi)
  · rw [countP_append, countP_singleton, ← hfull]
    change (if hop.IsXrayFullConfig then _ + 1 else _) = _
    split <;> rfl
  · intro i hi
    change (if hop.IsXrayFullConfig then some s.ents.length else s.scan.xrayFullConfigIdx) =
      some i at hi
    rw [length_append, length_singleton]
    split at hi
    · rw [← Option.some.inj hi, hents]
      omega
    · exact Nat.lt_succ_of_lt (hfullIdx i hi)
  · rw [countP_append, countP_singleton, ← hxray]
    change (if hop.IsXray then _ + 1 else _) = _
    split <;> rfl
  · rw [any_append, ← hcustom, any_cons, any_nil, Bool.or_false]
    rfl

theorem scanned_foldl (hops : List Profile) : Scanned hops (hops.foldl HopScan.take .start) := by
  induction hops using List.reverseRecOn with
  | nil => exact scanned_start
  | append_singleton hops hop ih =>
    rw [foldl_append]
    exact ih.take hop

theorem take_extraCoreIdx (s : HopScan) (hop : Profile) :
    (s.take hop).scan.extraCoreIdx = if hop.IsExtraCore then some s.ents.length else s.scan.extraCoreIdx := rfl

theorem take_xrayFullConfigIdx (s : HopScan) (hop : Profile) : (s.take hop).scan.xrayFullConfigIdx =
      if hop.IsXrayFullConfig then some s.ents.length else s.scan.xrayFullConfigIdx := rfl

/-- How often the hops change between the cores. -/
def switches (hops : List Profile) : Nat := (hops.foldl HopScan.take .start).scan.coreTransitions

/-! ## What is accepted -/

/-- A check with an error text passes where its condition is not met and the checks behind it pass. -/
theorem isEmpty_check {c : Prop} [Decidable c] {error rest : Text} (herror : error.isEmpty = false) :
    (if c then error else rest).isEmpty = true ↔ ¬c ∧ rest.isEmpty = true := by
  by_cases hc : c
  · rw [if_pos hc, herror]
    exact ⟨nofun, fun h => absurd hc h.1⟩
  · rw [if_neg hc]
    exact (and_iff_right hc).symm

theorem chainScanError_isEmpty {scan : chainScan} : (chainScanError scan).isEmpty = true ↔
    scan.hasCustomFullConfig = false ∧ scan.extraCoreCount ≤ 1 ∧ scan.xrayFullConfigCount ≤ 1 ∧
    ¬(0 < scan.extraCoreCount ∧ 0 < scan.xrayFullConfigCount) ∧
    ¬(0 < scan.xrayFullConfigCount ∧ 0 < scan.xrayHopCount) ∧ ¬(scan.extraCoreCount = 1 ∧ 1 < scan.hopCount ∧
    scan.extraCoreIdx ≠ some (scan.hopCount - 1)) ∧ ¬(scan.xrayFullConfigCount = 1 ∧ 1 < scan.hopCount ∧
    scan.xrayFullConfigIdx ≠ some (scan.hopCount - 1)) ∧ scan.coreTransitions ≤ 2 := by
  rw [chainScanError]
  iterate 8 rw [isEmpty_check]
  · simp only [Bool.not_eq_true, not_lt, isEmpty_nil, and_true]
  all_goals decide +kernel

/-- A kind of hop that has to come last: at most one, and where it is one of several the last one. -/
theorem last_iff {p : Profile → Bool} (hop : Profile) {idx : Option Nat}
    (hidx : ∀ i, idx = some i → i < hops.length) : ((hops ++ [hop]).countP p ≤ 1 ∧
    ¬((hops ++ [hop]).countP p = 1 ∧ 1 < (hops ++ [hop]).length ∧
    (if p hop then some hops.length else idx) ≠ some ((hops ++ [hop]).length - 1))) ↔ ∀ x ∈ hops, p x = false := by
  have hlength : (hops ++ [hop]).length = hops.length + 1 := by
    rw [length_append, length_singleton]
  rw [countP_append, countP_singleton, hlength, Nat.add_sub_cancel]
  have hnone : (∀ x ∈ hops, p x = false) ↔ hops.countP p = 0 := by
    rw [countP_eq_zero]
    exact forall₂_congr fun x _ => Bool.eq_false_iff
  rw [hnone]
  cases hlast : p hop with
  | true =>
    rw [if_pos rfl, if_pos rfl]
    constructor
    · rintro ⟨hcount, -⟩
      omega
    · intro hcount
      refine ⟨by omega, fun h => h.2.2 rfl⟩
  | false =>
    rw [if_neg Bool.false_ne_true, if_neg Bool.false_ne_true, Nat.add_zero]
    constructor
    · rintro ⟨hcount, hplace⟩
      by_contra hne
      have hone : hops.countP p = 1 := by omega
      have hsome : 0 < hops.length := by
        have hle := countP_le_length (p := p) (l := hops)
        omega
      apply hplace
      refine ⟨hone, by omega, fun h => ?_⟩
      exact absurd (hidx _ h) (lt_irrefl _)
    · intro hcount
      exact ⟨by omega, fun h => by omega⟩

/-- Hops are accepted exactly when none is a whole sing-box config, only the last may be an extra core or
a whole config of Xray, the latter without other Xray hops, and the cores change at most twice. -/
theorem accepts_iff {hop : Profile} : (chainScanError
        { ((hops ++ [hop]).foldl HopScan.take .start).scan with
          hopCount := ((hops ++ [hop]).foldl HopScan.take .start).ents.length }).isEmpty = true ↔
      (∀ x ∈ hops, x.isCustomFullConfig = false ∧ x.IsExtraCore = false ∧
          x.IsXrayFullConfig = false ∧ (hop.IsXrayFullConfig = true → x.IsXray = false)) ∧
        hop.isCustomFullConfig = false ∧ switches (hops ++ [hop]) ≤ 2 := by
  have hall := scanned_foldl (hops ++ [hop])
  have hpre := scanned_foldl hops
  have hfold : (hops ++ [hop]).foldl HopScan.take .start = (hops.foldl HopScan.take .start).take hop := by
    rw [foldl_append]
    rfl
  have hextraIdx : ((hops ++ [hop]).foldl HopScan.take .start).scan.extraCoreIdx = if hop.IsExtraCore then some hops.length
      else (hops.foldl HopScan.take .start).scan.extraCoreIdx := by
    rw [hfold, take_extraCoreIdx, hpre.ents]
  have hfullIdx : ((hops ++ [hop]).foldl HopScan.take .start).scan.xrayFullConfigIdx = if hop.IsXrayFullConfig then some hops.length
      else (hops.foldl HopScan.take .start).scan.xrayFullConfigIdx := by
    rw [hfold, take_xrayFullConfigIdx, hpre.ents]
  have hextra := last_iff (p := Profile.IsExtraCore) hop hpre.extraCoreIdx
  have hfull := last_iff (p := Profile.IsXrayFullConfig) hop hpre.fullConfigIdx
  rw [chainScanError_isEmpty]
  simp only [hall.ents, hall.extraCores, hall.fullConfigs, hall.xrayHops, hall.custom, hextraIdx, hfullIdx]
  have hboth : hop.IsExtraCore = true → hop.IsXrayFullConfig = false := by
    intro hcore
    rw [Profile.IsExtraCore, beq_iff_eq] at hcore
    rw [Profile.IsXrayFullConfig, hcore]
    rfl
  have hcustom : (hops ++ [hop]).any Profile.isCustomFullConfig = false ↔
      (∀ x ∈ hops, x.isCustomFullConfig = false) ∧ hop.isCustomFullConfig = false := by
    rw [any_append, any_cons, any_nil, Bool.or_false, Bool.or_eq_false_iff, any_eq_false]
    simp only [Bool.not_eq_true]
  constructor
  · rintro ⟨hplain, hextraOne, hfullOne, -, hxray, hextraLast, hfullLast, hswitch⟩
    obtain ⟨hplain, hlast⟩ := hcustom.1 hplain
    have hnoExtra := hextra.1 ⟨hextraOne, hextraLast⟩
    have hnoFull := hfull.1 ⟨hfullOne, hfullLast⟩
    refine ⟨fun x hx => ⟨hplain x hx, hnoExtra x hx, hnoFull x hx, fun hcore => ?_⟩, hlast, hswitch⟩
    by_contra hne
    apply hxray
    constructor
    · exact countP_pos_iff.2 ⟨hop, by simp, hcore⟩
    · exact countP_pos_iff.2 ⟨x, mem_append_left _ hx, by simpa using hne⟩
  · rintro ⟨hpre, hlast, hswitch⟩
    obtain ⟨hextraOne, hextraLast⟩ := hextra.2 fun x hx => (hpre x hx).2.1
    obtain ⟨hfullOne, hfullLast⟩ := hfull.2 fun x hx => (hpre x hx).2.2.1
    have hfound : ∀ {p : Profile → Bool}, (∀ x ∈ hops, p x = false) → 0 < (hops ++ [hop]).countP p → p hop = true := by
      intro p hnone hpos
      obtain ⟨x, hx, hp⟩ := countP_pos_iff.1 hpos
      rcases mem_append.1 hx with hx | hx
      · rw [hnone x hx] at hp
        cases hp
      · rw [mem_singleton.1 hx] at hp
        exact hp
    refine ⟨hcustom.2 ⟨fun x hx => (hpre x hx).1, hlast⟩, hextraOne, hfullOne, ?_, ?_, hextraLast, hfullLast, hswitch⟩
    · rintro ⟨hcores, hfulls⟩
      have hcore := hfound (fun x hx => (hpre x hx).2.1) hcores
      have hfullHop := hfound (fun x hx => (hpre x hx).2.2.1) hfulls
      rw [hboth hcore] at hfullHop
      cases hfullHop
    · rintro ⟨hfulls, hxrays⟩
      have hfullHop := hfound (fun x hx => (hpre x hx).2.2.1) hfulls
      have hxrayHop := hfound (fun x hx => (hpre x hx).2.2.2 hfullHop) hxrays
      rw [not_isXray_of_fullConfig hfullHop] at hxrayHop
      cases hxrayHop

/-- One or two hops do not change too often. -/
theorem switches_short (h : hops.length ≤ 2) : switches hops ≤ 2 := by
  have hle : switches hops ≤ hops.length := by
    rw [switches]
    induction hops using List.reverseRecOn with
    | nil => exact le_refl 0
    | append_singleton hops hop ih =>
      have hstep : ∀ s : HopScan, (s.take hop).scan.coreTransitions ≤ s.scan.coreTransitions + 1 := by
        intro s
        change (if (hop.IsXray != s.inXray) = true then _ else _) ≤ _
        split
        · exact le_refl _
        · exact Nat.le_succ _
      have hlength : hops.length ≤ 2 := by
        rw [length_append] at h
        omega
      rw [foldl_append, length_append, length_singleton]
      exact (hstep _).trans (Nat.add_le_add_right (ih hlength) 1)
  exact hle.trans h

/-- Three hops change too often only from Xray to sing-box and back. -/
theorem switches_three (a b c : Profile) : switches [a, b, c] ≤ 2 ↔ (a.IsXray = true → c.IsXray = true → b.IsXray = true) := by
  have hcount : switches [a, b, c] = (if c.IsXray != b.IsXray then 1 else 0) + ((if b.IsXray != a.IsXray then 1 else 0) +
        if a.IsXray then 1 else 0) := by
    cases ha : a.IsXray <;> cases hb : b.IsXray <;> cases hc : c.IsXray <;>
      simp [switches, HopScan.take, HopScan.enter, HopScan.count, HopScan.start, ha, hb, hc]
  rw [hcount]
  cases a.IsXray <;> cases b.IsXray <;> cases c.IsXray <;> decide

/-- The hops that stand for a list of ids. -/
def HopsOf (repo : Repo) (ids : List Int) (hops : List Profile) : Prop := ids.map repo.profile = hops.map some

theorem not_warp {repo : Repo} {ids : List Int} (h : HopsOf repo ids hops) : warpProfileID ∉ ids := by
  intro hmem
  have hsome : repo.profile warpProfileID ∈ hops.map some := by
    rw [← show ids.map repo.profile = hops.map some from h]
    exact mem_map_of_mem hmem
  obtain ⟨p, -, hp⟩ := mem_map.1 hsome
  have hle := repo.numbered _ _ hp.symm
  cases hle

section Accepted

variable {repo : Repo} {warp ent : Profile} {ids : List Int} {hops : List Profile}

theorem entIDListtoEntList_eq {s : HopScan} (h : HopsOf repo ids hops) : entIDListtoEntList repo warp ent ids = .ok s ↔
    (∀ hop ∈ hops, hop.isMeta = false) ∧ hops.foldl HopScan.take .start = s ∧
    (chainScanError { s.scan with hopCount := s.ents.length }).isEmpty = true := by
  have hscan := @scanHops_ok_iff repo warp ent ids .start
  rw [entIDListtoEntList]
  cases hresult : scanHops repo warp ent ids .start with
  | error error =>
    constructor
    · exact nofun
    · rintro ⟨hmeta, hfold, -⟩
      have hok := (hscan (not_warp h)).2 ⟨hops, h, hmeta, hfold⟩
      exact nomatch hresult.symm.trans hok
  | ok t =>
    obtain ⟨hops', hmap, hmeta, hfold⟩ := (hscan (not_warp h)).1 hresult
    obtain rfl : hops' = hops :=
      map_injective_iff.2 (Option.some_injective _) (hmap.symm.trans h)
    simp only
    constructor
    · intro hok
      split at hok
      · next herror =>
        cases hok
        exact ⟨hmeta, hfold, herror⟩
      · cases hok
    · rintro ⟨-, hs, herror⟩
      obtain rfl : t = s := hfold.symm.trans hs
      rw [if_pos herror]

/-- With a hop that is not there the loop ends in an error. -/
theorem entIDListtoEntList_missing {s : HopScan} (hwarp : warpProfileID ∉ ids)
    (h : ∃ id ∈ ids, repo.profile id = none) : entIDListtoEntList repo warp ent ids ≠ .ok s := by
  intro hok
  rw [entIDListtoEntList] at hok
  cases hresult : scanHops repo warp ent ids .start with
  | error error =>
    rw [hresult] at hok
    cases hok
  | ok t =>
    obtain ⟨hops, hmap, -, -⟩ := (scanHops_ok_iff hwarp).1 hresult
    obtain ⟨id, hid, hnone⟩ := h
    have hsome : repo.profile id ∈ hops.map some := by
      rw [← hmap]
      exact mem_map_of_mem hid
    obtain ⟨p, -, hp⟩ := mem_map.1 hsome
    exact nomatch hp.trans hnone

/-- Hops that are all there are accepted under the conditions of `accepts_iff`. -/
theorem accepted_iff {hop : Profile} (h : HopsOf repo ids (hops ++ [hop])) : (∃ s, entIDListtoEntList repo warp ent ids = .ok s) ↔
    (∀ x ∈ hops, x.isMeta = false ∧ x.isCustomFullConfig = false ∧ x.IsExtraCore = false ∧
    x.IsXrayFullConfig = false ∧ (hop.IsXrayFullConfig = true → x.IsXray = false)) ∧
    hop.isMeta = false ∧ hop.isCustomFullConfig = false ∧ switches (hops ++ [hop]) ≤ 2 := by
  constructor
  · rintro ⟨s, hs⟩
    obtain ⟨hmeta, rfl, herror⟩ := (entIDListtoEntList_eq h).1 hs
    obtain ⟨hpre, hlast, hswitch⟩ := accepts_iff.1 herror
    refine ⟨fun x hx => ⟨hmeta x (mem_append_left _ hx), hpre x hx⟩, ?_, hlast, hswitch⟩
    exact hmeta hop (mem_append_right _ (mem_singleton.2 rfl))
  · rintro ⟨hpre, hmeta, hlast, hswitch⟩
    refine ⟨_, (entIDListtoEntList_eq h).2 ⟨fun x hx => ?_, rfl, ?_⟩⟩
    · rcases mem_append.1 hx with hx | hx
      · exact (hpre x hx).1
      · rw [mem_singleton.1 hx]
        exact hmeta
    · exact accepts_iff.2 ⟨fun x hx => (hpre x hx).2, hlast, hswitch⟩

variable {member : Profile}

theorem hopsFit_iff {group : Group} (hgroup : repo.group member.gid = some group) : HopsFit repo member ↔
    (0 ≤ group.landing_proxy_id → ∃ p, repo.profile group.landing_proxy_id = some p ∧ p.isMeta = false ∧
    p.isCustomFullConfig = false ∧ p.IsExtraCore = false ∧ p.IsXrayFullConfig = false ∧
    (member.IsXrayFullConfig = true → p.IsXray = false)) ∧ (0 ≤ group.front_proxy_id →
    ∃ p, repo.profile group.front_proxy_id = some p ∧ p.isMeta = false ∧ p.isCustomFullConfig = false ∧ member.IsXrayFullConfig = false ∧
    (p.IsXrayFullConfig = true → member.IsXray = false)) ∧ ∀ landing front, 0 ≤ group.landing_proxy_id → 0 ≤ group.front_proxy_id →
    repo.profile group.landing_proxy_id = some landing → repo.profile group.front_proxy_id = some front → landing.IsXray = true →
    front.IsXrayFullConfig = false ∧ (front.IsXray = true → member.IsXray = true) := by
  constructor
  · rintro ⟨hlanding, hfront, hbetween⟩
    exact ⟨hlanding group hgroup, hfront group hgroup, fun landing front => hbetween group landing front hgroup⟩
  · rintro ⟨hlanding, hfront, hbetween⟩
    refine ⟨fun other h => ?_, fun other h => ?_, fun other landing front h => ?_⟩
    · obtain rfl := Option.some.inj (hgroup.symm.trans h)
      exact hlanding
    · obtain rfl := Option.some.inj (hgroup.symm.trans h)
      exact hfront
    · obtain rfl := Option.some.inj (hgroup.symm.trans h)
      exact hbetween landing front

/-- No hop of a stored member is the built-in warp profile. -/
theorem hopIDsOf_not_warp {id : Int} (hmember : repo.profile id = some member) : warpProfileID ∉ hopIDsOf repo member id := by
  have hneg : ¬(0 : Int) ≤ warpProfileID := by decide
  have hid : warpProfileID ≠ id := by
    rintro rfl
    exact hneg (repo.numbered _ _ hmember)
  intro hmem
  rw [hopIDsOf] at hmem
  split at hmem
  · exact hid (mem_singleton.1 hmem)
  · simp only [mem_append, mem_singleton, mem_ite_nil_right] at hmem
    rcases hmem with (⟨hle, hmem⟩ | hmem) | ⟨hle, hmem⟩
    · exact hneg (hmem ▸ hle)
    · exact hid hmem
    · exact hneg (hmem ▸ hle)

variable (warp ent) in
/-- The hops of a member that may be one are accepted exactly when they fit. -/
theorem member_accepted_iff {id : Int} (hmember : repo.profile id = some member)
    (hmeta : member.isMeta = false) (hcore : member.IsExtraCore = false) (hcustom : member.isCustomFullConfig = false) :
    (∃ s, entIDListtoEntList repo warp ent (hopIDsOf repo member id) = .ok s) ↔ HopsFit repo member := by
  -- A proxy that is not there is not accepted.
  have hmissing : ∀ {proxy : Int}, proxy ∈ hopIDsOf repo member id → repo.profile proxy = none →
      ¬∃ s, entIDListtoEntList repo warp ent (hopIDsOf repo member id) = .ok s := by
    rintro proxy hmem hnone ⟨s, hs⟩
    exact entIDListtoEntList_missing (hopIDsOf_not_warp hmember) ⟨proxy, hmem, hnone⟩ hs
  cases hgroup : repo.group member.gid with
  | none =>
    have hhops : HopsOf repo [id] ([] ++ [member]) := by
      rw [HopsOf]
      simp [hmember]
    rw [hopIDsOf, hgroup, accepted_iff hhops]
    constructor
    · intro _
      refine ⟨fun group h => ?_, fun group h => ?_, fun group _ _ h => ?_⟩
      all_goals
        rw [hgroup] at h
        cases h
    · intro _
      exact ⟨nofun, hmeta, hcustom, switches_short (by simp)⟩
  | some group =>
    have hids : hopIDsOf repo member id = (if 0 ≤ group.landing_proxy_id then [group.landing_proxy_id] else []) ++ [id] ++
          if 0 ≤ group.front_proxy_id then [group.front_proxy_id] else [] := by
      rw [hopIDsOf, hgroup]
    rw [hopsFit_iff hgroup]
    by_cases hthere : (0 ≤ group.landing_proxy_id → ∃ p, repo.profile group.landing_proxy_id = some p) ∧
        (0 ≤ group.front_proxy_id → ∃ p, repo.profile group.front_proxy_id = some p)
    swap
    · constructor
      · intro h
        refine absurd ⟨fun hlanding => ?_, fun hfront => ?_⟩ hthere
        · refine Option.ne_none_iff_exists'.1 fun hnone => hmissing ?_ hnone h
          rw [hids, if_pos hlanding]
          simp
        · refine Option.ne_none_iff_exists'.1 fun hnone => hmissing ?_ hnone h
          rw [hids, if_pos hfront]
          simp
      · rintro ⟨hl, hf, -⟩
        exact absurd ⟨fun h => (hl h).imp fun _ h => h.1, fun h => (hf h).imp fun _ h => h.1⟩ hthere
    by_cases hlanding : 0 ≤ group.landing_proxy_id
    · obtain ⟨landing, hl⟩ := hthere.1 hlanding
      by_cases hfront : 0 ≤ group.front_proxy_id
      · obtain ⟨front, hf⟩ := hthere.2 hfront
        have hhops : HopsOf repo ([group.landing_proxy_id] ++ [id] ++ [group.front_proxy_id]) ([landing, member] ++ [front]) := by
          rw [HopsOf]
          simp [hl, hmember, hf]
        rw [hids, if_pos hlanding, if_pos hfront, accepted_iff hhops]
        simp only [hlanding, hfront, hl, hf, hmeta, hcore, hcustom, switches_three, mem_cons,
          not_mem_nil, or_false, forall_eq_or_imp, forall_eq, true_and, forall_const,
          cons_append, nil_append, Option.some.injEq, exists_eq_left']
        constructor
        · rintro ⟨⟨⟨hlm, hlc, hle, hlf, hlx⟩, hmf, hmx⟩, hfm, hfc, hswitch⟩
          refine ⟨⟨hlm, hlc, hle, hlf, fun h => ?_⟩, ⟨hfm, hfc, hmf, hmx⟩, ?_⟩
          · exact absurd (hmf.symm.trans h) Bool.false_ne_true
          · rintro _ _ rfl rfl hx
            refine ⟨?_, hswitch hx⟩
            by_contra hfull
            rw [hlx (Bool.eq_true_of_not_eq_false hfull)] at hx
            cases hx
        · rintro ⟨⟨hlm, hlc, hle, hlf, -⟩, ⟨hfm, hfc, hmf, hmx⟩, hbetween⟩
          refine ⟨⟨⟨hlm, hlc, hle, hlf, fun hfull => ?_⟩, hmf, hmx⟩, hfm, hfc, fun hx => (hbetween _ _ rfl rfl hx).2⟩
          by_contra hx
          rw [(hbetween _ _ rfl rfl (Bool.eq_true_of_not_eq_false hx)).1] at hfull
          cases hfull
      · have hhops : HopsOf repo ([group.landing_proxy_id] ++ [id] ++ []) ([landing] ++ [member]) := by
          rw [HopsOf]
          simp [hl, hmember]
        have hswitches : switches [landing, member] ≤ 2 := switches_short (by simp)
        rw [hids, if_pos hlanding, if_neg hfront, accepted_iff hhops]
        simp [hlanding, hfront, hl, hmeta, hcustom, hswitches]
    · by_cases hfront : 0 ≤ group.front_proxy_id
      · obtain ⟨front, hf⟩ := hthere.2 hfront
        have hhops : HopsOf repo ([] ++ [id] ++ [group.front_proxy_id]) ([member] ++ [front]) := by
          rw [HopsOf]
          simp [hmember, hf]
        have hswitches : switches [member, front] ≤ 2 := switches_short (by simp)
        rw [hids, if_neg hlanding, if_pos hfront, accepted_iff hhops]
        simp [hlanding, hfront, hf, hmeta, hcore, hcustom, hswitches]
        tauto
      · have hhops : HopsOf repo ([] ++ [id] ++ []) ([] ++ [member]) := by
          rw [HopsOf]
          simp [hmember]
        have hswitches : switches [member] ≤ 2 := switches_short (by simp)
        rw [hids, if_neg hlanding, if_neg hfront, accepted_iff hhops]
        simp [hlanding, hfront, hmeta, hcustom, hswitches]

/-- `bridgesFor` marks the ways between the cores as the loop over the hops does. -/
theorem bridgesFrom_eq (h : HopsOf repo ids hops) (s : HopScan) (full : Bool) :
    bridgesFrom repo ids s.inXray ⟨s.singToXrayTransitioned, s.xrayToSingTransitioned, full⟩ =
    ⟨(hops.foldl HopScan.take s).singToXrayTransitioned, (hops.foldl HopScan.take s).xrayToSingTransitioned,
    full || hops.any Profile.IsXrayFullConfig⟩ := by
  induction hops generalizing ids s full with
  | nil =>
    rw [HopsOf, map_nil, map_eq_nil_iff] at h
    rw [h, bridgesFrom, any_nil, Bool.or_false]
    rfl
  | cons hop hops ih =>
    cases ids with
    | nil => exact absurd h.symm (cons_ne_nil _ _)
    | cons id ids =>
      obtain ⟨hhop, hrest⟩ := List.cons.inj h
      have hprofile : repo.profile id = some hop := hhop
      rw [bridgesFrom, hprofile, foldl_cons, any_cons, ← Bool.or_assoc, ← ih hrest (s.take hop) (full || hop.IsXrayFullConfig)]
      simp only [HopScan.take, HopScan.enter, HopScan.count, Bool.and_comm]

/-- Where the hops are accepted, the bridges counted for them are the bridges created. -/
theorem bridgesFor_eq {hop : Profile} {s : HopScan} (h : HopsOf repo ids (hops ++ [hop]))
    (hs : entIDListtoEntList repo warp ent ids = .ok s) : bridgesFor repo ids = createdBridges s := by
  obtain ⟨-, rfl, herror⟩ := (entIDListtoEntList_eq h).1 hs
  obtain ⟨hpre, -, -⟩ := accepts_iff.1 herror
  have hfull : (hops ++ [hop]).any Profile.IsXrayFullConfig = hop.IsXrayFullConfig := by
    have hnone : hops.any Profile.IsXrayFullConfig = false := by
      rw [any_eq_false]
      exact fun x hx => Bool.eq_false_iff.1 (hpre x hx).2.2.1
    rw [any_append, hnone, Bool.false_or, any_cons, any_nil, Bool.or_false]
  have hcount := bridgesFrom_eq h .start false
  rw [Bool.false_or, hfull] at hcount
  rw [createdBridges, (scanned_foldl (hops ++ [hop])).ents, getLast?_concat, Option.any_some]
  exact hcount

/-- The hops of a member that are accepted are all there. -/
theorem member_hops {id : Int} (hmember : repo.profile id = some member) {s : HopScan}
    (hs : entIDListtoEntList repo warp ent (hopIDsOf repo member id) = .ok s) :
    ∃ hops hop, HopsOf repo (hopIDsOf repo member id) (hops ++ [hop]) := by
  have hfound : ∀ x ∈ hopIDsOf repo member id, ∃ p, repo.profile x = some p := by
    intro x hx
    cases hprofile : repo.profile x with
    | none => exact absurd hs (entIDListtoEntList_missing (hopIDsOf_not_warp hmember) ⟨x, hx, hprofile⟩)
    | some p => exact ⟨p, rfl⟩
  have hmap : ∀ ids : List Int, (∀ x ∈ ids, ∃ p, repo.profile x = some p) → ∃ hops, HopsOf repo ids hops := by
    intro ids
    induction ids with
    | nil => exact fun _ => ⟨[], rfl⟩
    | cons x ids ih =>
      intro hall
      obtain ⟨p, hp⟩ := hall x mem_cons_self
      obtain ⟨hops, hhops⟩ := ih fun y hy => hall y (mem_cons_of_mem _ hy)
      refine ⟨p :: hops, ?_⟩
      rw [HopsOf, map_cons, map_cons, hp]
      exact congrArg (some p :: ·) hhops
  obtain ⟨hops, hhops⟩ := hmap _ hfound
  rcases eq_nil_or_concat hops with rfl | ⟨pre, last, rfl⟩
  · -- The member itself is a hop.
    have hnil : hopIDsOf repo member id = [] := map_eq_nil_iff.1 hhops
    rw [hopIDsOf] at hnil
    split at hnil
    · exact absurd hnil (cons_ne_nil _ _)
    · simp at hnil
  · exact ⟨pre, last, concat_eq_append ▸ hhops⟩

end Accepted

/-- The plan and the builder agree on every member the plan puts into the build: the builder takes the
member's hops, and the bridges counted for them are those it creates. -/
def PlanAgrees (patterns : Patterns) (repo : Repo) (selector : Selector) (now self : Int) (warp ent : Profile) (builds : Int → Bool) : Prop :=
  ∀ id ∈ (PlanAutoSelector patterns repo selector now self).build, builds id = true →
    ∃ member, repo.profile id = some member ∧ ∃ s, entIDListtoEntList repo warp ent (hopIDsOf repo member id) = .ok s ∧
        bridgesFor repo (hopIDsOf repo member id) = createdBridges s

/-- The plan and the builder agree exactly when the proxies that the group of each planned member names
are there and fit the member. -/
theorem planAgrees_iff (patterns : Patterns) (repo : Repo) (selector : Selector) (now self : Int)
    (warp ent : Profile) (builds : Int → Bool) : PlanAgrees patterns repo selector now self warp ent builds ↔
    ∀ id ∈ (PlanAutoSelector patterns repo selector now self).build, builds id = true →
    ∀ member, repo.profile id = some member → HopsFit repo member := by
  constructor
  · intro h id hid hbuilds member hmember
    obtain ⟨p, hp, hmeta, hcore, hcustom⟩ := build_member hid
    obtain ⟨other, hother, s, hs, -⟩ := h id hid hbuilds
    obtain rfl := Option.some.inj (hmember.symm.trans hp)
    obtain rfl := Option.some.inj (hmember.symm.trans hother)
    exact (member_accepted_iff warp ent hmember hmeta hcore hcustom).1 ⟨s, hs⟩
  · intro h id hid hbuilds
    obtain ⟨member, hmember, hmeta, hcore, hcustom⟩ := build_member hid
    have hfit := h id hid hbuilds member hmember
    obtain ⟨s, hs⟩ := (member_accepted_iff warp ent hmember hmeta hcore hcustom).2 hfit
    obtain ⟨hops, hop, hhops⟩ := member_hops hmember hs
    exact ⟨member, hmember, s, hs, bridgesFor_eq hhops hs⟩

/-- A plain server of the group 1. -/
def plainServer : Profile where
  type := "vless".toList
  name := "server".toList
  gid := 1
  displayName := "server".toList
  latency := 0
  latency_at := 0
  test_country := []
  subtype := []
  config := []
  list := []

/-- One group with one server, whose landing proxy has been deleted. -/
def staleRepo : Repo where
  profile id := if id = 3 then some plainServer else none
  group gid := if gid = 1 then some ⟨"group".toList, 7, -1, [3]⟩ else none
  groupIds := [1]
  numbered id p h := by
    split at h
    · next hid => rw [hid]; decide
    · exact nomatch h

/-- A selector that tracks the group. -/
def trackingSelector : Selector where
  gids := [1]
  nameFilter := []
  countryFilter := []
  excludeUnavailable := true
  resultValidityMins := 1440
  poolCap := 1000
  buildLimit := 300
  pool := [3]

theorem staleLanding_planned : 3 ∈ (PlanAutoSelector ⟨fun _ => none, id⟩ staleRepo trackingSelector 0 0).build := by
  decide

/-- The plan takes the server; the builder refuses it, and the selector does not start. -/
theorem staleLanding_disagrees : ¬PlanAgrees ⟨fun _ => none, id⟩ staleRepo trackingSelector 0 0 plainServer plainServer fun _ => true := by
  intro h
  obtain ⟨member, hmember, s, hs, -⟩ := h 3 staleLanding_planned rfl
  obtain rfl : plainServer = member := Option.some.inj hmember
  have hrefused : entIDListtoEntList staleRepo plainServer plainServer (hopIDsOf staleRepo plainServer 3) =
        .error "Group \"group\" has a landing proxy that has been deleted.".toList := rfl
  exact nomatch hrefused.symm.trans hs

end Throne.Configs.AutoSelector
