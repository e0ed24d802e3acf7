import Mathlib.Tactic
import Throne.Configs.TunInbound

/-!
# With its IPv6 off, the tunnel takes all IPv6

`KeepsIPv6` is what a config has to be like when the tunnel is to refuse IPv6: the tunnel carries an
IPv6 address, nothing of IPv6 is kept out of it, and the rules refuse what comes in and leave everything
else alone. `keeps_ipv6_iff` says for which builds the config is like that: the addresses and the rules
always are, but a rule set named in `route_exclude_address_set` is never filtered.
-/

namespace Throne.Configs

open Lib.Texts Lib.Json Core.SingBox Database.Routes List

/-! ## What a config says of the tunnel -/

/-- The tunnel's inbound. -/
def tunOf (config : Fields) : Option Fields :=
  ((config.arrayAt "inbounds".toList).find? fun inbound =>
    inbound.toObject.textAt "tag".toList == tunIn).map Json.toObject

/-- The rule sets a config defines. -/
def ruleSets (config : Fields) : List Json := (config.objectAt "route".toList).arrayAt "rule_set".toList

/-- A rule set whose rules stand in the config. -/
def isInline (ruleSet : Json) : Bool := ["".toList, "inline".toList].contains (ruleSet.toObject.textAt "type".toList)

/-- The texts of a JSON value: one, or a list of them. -/
def textsOf : Json → List Text
  | .array items => items.map Json.toText
  | .text t => [t]
  | _ => []

mutual

/-- The address ranges of a rule, or of a rule set with its rules. -/
def cidrsOf : Json → List Text
  | .object fields => cidrsOfFields fields
  | _ => []

def cidrsOfFields : List (Text × Json) → List Text
  | [] => []
  | (key, value) :: fields =>
    (if key = "ip_cidr".toList then textsOf value
      else if key = "rules".toList then
        match value with
        | .array items => cidrsOfItems items
        | _ => []
      else []) ++ cidrsOfFields fields

def cidrsOfItems : List Json → List Text
  | [] => []
  | item :: items => cidrsOf item ++ cidrsOfItems items

end

/-- An IPv6 range is kept out of the tunnel by a rule set that stands in the config. -/
def LeavesOutBySet (tun : Fields) (ruleSets : List Json) : Prop :=
  ∃ ruleSet ∈ ruleSets, isInline ruleSet = true ∧ ruleSet.toObject.textAt "tag".toList ∈
      (tun.arrayAt "route_exclude_address_set".toList).map Json.toText ∧
    ∃ range ∈ cidrsOf ruleSet, namesIPv6 range = true

/-- The config refuses IPv6 inside the tunnel, and nothing else changes: `before` is the config without
the policy. -/
structure KeepsIPv6 (before config : Fields) : Prop where
  address : ∃ tun, tunOf config = some tun ∧ ∃ address ∈ tun.arrayAt "address".toList, namesIPv6 address.toText = true
  excluded : ∀ tun ∈ tunOf config, ∀ range ∈ tun.arrayAt "route_exclude_address".toList, namesIPv6 range.toText = false
  sets : ∀ tun ∈ tunOf config, ¬LeavesOutBySet tun (ruleSets config)
  connections : ∀ {ρ : Type} (core : Core ρ) (c : Connection ρ),
    c.inbound = tunIn → c.ipVersion = 6 → (core.routed (routeRules config) c).map actionOf =
        some (if c.port = 53 then "hijack-dns".toList else "reject".toList)
  queries : ∀ {ρ : Type} (core : Core ρ) (q : Query ρ), q.inbound = tunIn ∨ q.inbound = dnsSystem → q.queryType = "AAAA".toList →
      core.answered (dnsRules config) q = some (emptyAAAA tunIn dnsSystem)
  otherConnections : ∀ {ρ : Type} (core : Core ρ) (c : Connection ρ),
    ¬(c.inbound = tunIn ∧ c.ipVersion = 6) → core.routed (routeRules config) c = core.routed (routeRules before) c
  otherQueries : ∀ {ρ : Type} (core : Core ρ) (q : Query ρ), ¬((q.inbound = tunIn ∨ q.inbound = dnsSystem) ∧ q.queryType = "AAAA".toList) →
      core.answered (dnsRules config) q = core.answered (dnsRules before) q

/-! ## The ranges -/

section Ranges

variable (net : Addresses) (os : OSType) (settings : TunSettings) (tun : TunDeps)

/-- The MTU never falls below what IPv6 needs. -/
theorem carries_ipv6 : tunCarriesIPv6 settings = true := by
  rw [tunCarriesIPv6, decide_eq_true_iff]
  exact le_max_right _ _

theorem excludedRanges_ipv4 (hoff : settings.vpn_ipv6 = false) : ∀ range ∈ excludedRanges net os settings tun, namesIPv6 range = false := by
  intro range hrange
  simp only [excludedRanges, leftOut, carries_ipv6, hoff, Bool.not_false, Bool.and_self, if_true] at hrange
  have hcolon := (mem_filter.1 hrange).2
  rw [namesIPv6]
  simpa using hcolon

/-- Whatever stands in `route_exclude_address`, it is no IPv6 range. -/
theorem routeExcludeAddrs_ipv4 (hoff : settings.vpn_ipv6 = false) : ∀ range ∈ routeExcludeAddrs net os settings tun, namesIPv6 range = false := by
  intro range hrange
  rw [routeExcludeAddrs, mem_append, mem_append] at hrange
  rcases hrange with (hfixed | hexcluded) | hloopback
  · split at hfixed
    · cases hfixed
    · fin_cases hfixed <;> decide
  · exact excludedRanges_ipv4 net os settings tun hoff range hexcluded
  · -- `::1` is for a tunnel that carries no IPv6.
    rw [carries_ipv6] at hloopback
    simp at hloopback

end Ranges

/-! ## The inbound -/

section Inbound

variable (net : Addresses) (os : OSType) (settings : TunSettings) (tun : TunDeps)

theorem textArray_texts (texts : List Text) : (textArray texts).toArray.map Json.toText = texts := by
  simp [textArray, Json.toArray, Function.comp_def, Json.toText]

theorem mem_textArray {texts : List Text} {value : Json} (h : value ∈ (textArray texts).toArray) : value.toText ∈ texts := by
  obtain ⟨text, htext, rfl⟩ := mem_map.1 h
  exact htext

theorem tunObject_tag : (tunObject os settings).get "tag".toList = some (.text tunIn) := by
  rw [tunObject]
  split
  · rw [Fields.get_put_other (by decide)]
    rfl
  · rfl

theorem tunObject_sets : (tunObject os settings).get "route_exclude_address_set".toList = none := by
  rw [tunObject]
  split
  · rw [Fields.get_put_other (by decide)]
    rfl
  · rfl

/-- A field written before the last one. -/
theorem tunInbound_get {key : Text} (h : key ≠ "route_exclude_address_set".toList) :
    (tunInbound net os settings tun).get key = (Fields.put "route_exclude_address".toList
    (textArray (routeExcludeAddrs net os settings tun)) (Fields.put "address".toList
    (textArray (settings.vpn_tun_ipv4_cidr :: if tunCarriesIPv6 settings then [settings.vpn_tun_ipv6_cidr] else []))
    (tunObject os settings))).get key := by
  rw [tunInbound]
  split
  · rfl
  · exact Fields.get_put_other h _ _

theorem tunInbound_tag : (tunInbound net os settings tun).textAt "tag".toList = tunIn := by
  rw [Fields.textAt, tunInbound_get net os settings tun (by decide),
    Fields.get_put_other (by decide), Fields.get_put_other (by decide), tunObject_tag]
  rfl

theorem tunInbound_address : (tunInbound net os settings tun).arrayAt "address".toList =
    (textArray [settings.vpn_tun_ipv4_cidr, settings.vpn_tun_ipv6_cidr]).toArray := by
  rw [Fields.arrayAt, tunInbound_get net os settings tun (by decide), Fields.get_put_other (by decide), Fields.get_put_self, carries_ipv6]
  rfl

theorem tunInbound_excluded : (tunInbound net os settings tun).arrayAt "route_exclude_address".toList =
    (textArray (routeExcludeAddrs net os settings tun)).toArray := by
  rw [Fields.arrayAt, tunInbound_get net os settings tun (by decide), Fields.get_put_self]
  rfl

theorem tunInbound_sets : (tunInbound net os settings tun).arrayAt "route_exclude_address_set".toList =
    (textArray (routeExcludeSets settings tun)).toArray := by
  rw [tunInbound]
  split
  · -- The field is left out when there is nothing to name.
    rename_i hempty
    rw [Fields.arrayAt, Fields.get_put_other (by decide), Fields.get_put_other (by decide), tunObject_sets, List.isEmpty_iff.1 hempty]
    rfl
  · rw [Fields.arrayAt, Fields.get_put_self]
    rfl

end Inbound

/-! ## The generated config -/

section Generated

variable {b : Build} {config : Fields}

theorem finish_get {key : Text} (hexperimental : key ≠ "experimental".toList)
    (hservices : key ≠ "services".toList) : (b.finish config).get key = config.get key := by
  rw [Build.finish]
  split
  · rw [Fields.get_put_other hservices, Fields.get_put_other hexperimental]
  · exact Fields.get_put_other hexperimental _ _

variable {config' : Fields}

theorem tunOf_congr (h : config'.get "inbounds".toList = config.get "inbounds".toList) : tunOf config' = tunOf config := by
  rw [tunOf, tunOf, Fields.arrayAt, Fields.arrayAt, h]

theorem route_congr (h : config'.get "route".toList = config.get "route".toList) :
    config'.objectAt "route".toList = config.objectAt "route".toList := by
  rw [Fields.objectAt, Fields.objectAt, h]

theorem dns_congr (h : config'.get "dns".toList = config.get "dns".toList) : config'.objectAt "dns".toList = config.objectAt "dns".toList := by
  rw [Fields.objectAt, Fields.objectAt, h]

/-- No inbound in front of the tunnel's has its tag. -/
theorem localInbounds_tags (os : OSType) (settings : TunSettings) (sections : Sections) :
    ∀ inbound ∈ localInbounds os settings sections, (inbound.toObject.textAt "tag".toList == tunIn) = false := by
  intro inbound h
  rw [localInbounds, mem_append, mem_append] at h
  rcases h with (hdns | hdns) | hmixed
  · split at hdns
    · rw [mem_singleton.1 hdns]
      decide
    · cases hdns
  · rw [mem_singleton.1 hdns]
    have htag : (dnsIn == tunIn) = false := by decide
    exact htag
  · obtain ⟨fields, -, rfl⟩ := mem_map.1 hmixed
    have htag : (mixedIn == tunIn) = false := by decide
    exact htag

/-- The tunnel of a generated config. -/
theorem tunOf_generated (htun : b.settings.spmode_vpn = true) (h : b.generated = some config) :
    tunOf config = some (tunInbound b.net b.os b.settings b.tun) := by
  obtain ⟨route, -, rfl⟩ := Option.map_eq_some_iff.1 h
  rw [tunOf, Fields.arrayAt_put_other (by decide), Fields.arrayAt_put_other (by decide),
    Fields.arrayAt_put_self, inbounds, htun, if_pos rfl, append_assoc, append_assoc,
    find?_append, find?_eq_none.2]
  · have htag : ((Json.object (tunInbound b.net b.os b.settings b.tun)).toObject.textAt "tag".toList == tunIn) = true := by
      rw [beq_iff_eq]
      exact tunInbound_tag b.net b.os b.settings b.tun
    rw [singleton_append, find?_cons, htag]
    rfl
  · intro inbound hinbound
    rw [localInbounds_tags _ _ _ inbound hinbound]
    exact Bool.false_ne_true

/-- The generated config as it is built with the policy. -/
theorem built_with_policy {before : Fields} (hstarted : b.started = .generated)
    (htun : b.settings.spmode_vpn = true) (hoff : b.settings.vpn_ipv6 = false) (hbuild : BuildSingBoxConfig b = some (before, config)) :
    ∃ generated, b.generated = some generated ∧ before = b.finish generated ∧
    config = b.finish (ApplyTunIPv6Policy generated tunIn dnsSystem) := by
  rw [BuildSingBoxConfig, hstarted] at hbuild
  obtain ⟨generated, hgenerated, hpair⟩ := Option.map_eq_some_iff.1 hbuild
  rw [htun, hoff] at hpair
  cases hpair
  exact ⟨generated, hgenerated, rfl, rfl⟩

/-- The rule sets a raw route defines. -/
def rawRuleSets (b : Build) : List Json := Fields.arrayAt (translateRawFields b.sections.outboundMap b.rawRoute) "rule_set".toList

/-- The rule sets of a generated config: those of the build, unless the raw route is used as it is, and
those of the raw route. -/
theorem ruleSets_generated (h : b.generated = some config) : ruleSets config =
    (if b.routeChain.isRaw && b.routeChain.preventModifications then [] else buildRuleSetArray b.settings b.tun b.routeChain b.sections) ++
    (if b.routeChain.isRaw then rawRuleSets b else []) := by
  obtain ⟨route, hroute, rfl⟩ := Option.map_eq_some_iff.1 h
  have hsection : ruleSets (Fields.put "route".toList (.object route) (Fields.put "dns".toList (.object b.sections.dns)
        (Fields.put "inbounds".toList (.array (inbounds b.net b.os b.settings b.tun b.sections))
          b.sections.before))) = Fields.arrayAt route "rule_set".toList := by
    rw [ruleSets, Fields.objectAt_put_self]
  rw [hsection]
  rw [buildRouteSection] at hroute
  split at hroute
  · cases hroute
  · cases hverbatim : b.routeChain.isRaw && b.routeChain.preventModifications with
    | true =>
      have hraw : b.routeChain.isRaw = true := (Bool.and_eq_true_iff.1 hverbatim).1
      simp only [hverbatim, if_true] at hroute
      rw [if_pos rfl, hraw, if_pos rfl, nil_append]
      split at hroute
      · cases hroute
        rfl
      · cases hroute
        rw [Fields.arrayAt_put_other (by decide)]
        rfl
    | false =>
      simp only [hverbatim, Bool.false_eq_true, if_false, Option.some.injEq] at hroute
      subst hroute
      rw [if_neg Bool.false_ne_true, Fields.arrayAt, Fields.get_append (Fields.get_put_self "rule_set".toList _ _)]
      rfl

end Generated

/-! ## The rule sets that are kept out -/

section Sets

variable (b : Build)

/-- The private ranges go into a rule set, and one of them is an IPv6 range that no rule sends
elsewhere. -/
def PrivateRangesInSet : Prop :=
  b.os = .Linux ∧ b.settings.vpn_auto_redirect = true ∧ b.settings.disable_private_range_bypass = false ∧
    (b.routeChain.isRaw && b.routeChain.preventModifications) = false ∧
    ∃ saved ∈ b.settings.vpn_private_ranges, namesIPv6 (routeExcludePrefix b.net saved) = true ∧
      ∀ cidr ∈ get_hijacked_ips b.routeChain b.settings, prefixesOverlap b.net (routeExcludePrefix b.net saved) cidr = false

/-- A raw route defines, under a name the tunnel leaves out, a rule set with an IPv6 range. -/
def RawSetLeavesOut : Prop :=
  b.routeChain.isRaw = true ∧ ∃ ruleSet ∈ rawRuleSets b, isInline ruleSet = true ∧
    ruleSet.toObject.textAt "tag".toList ∈ routeExcludeSets b.settings b.tun ∧
    ∃ range ∈ cidrsOf ruleSet, namesIPv6 range = true

theorem namesIPv6_ne_nil {range : Text} (h : namesIPv6 range = true) : range.isEmpty = false := by
  cases range with
  | nil => cases h
  | cons c cs => rfl

theorem privateRangesInSet_iff (htun : b.settings.spmode_vpn = true) : (b.tun.privateRangesAsRuleSet = true ∧
    ∃ range ∈ b.tun.bypassedPrivateRanges, namesIPv6 range = true) ↔ PrivateRangesInSet b := by
  have hranges : ∀ range, range ∈ bypassedPrivateRanges b.net b.settings b.routeChain ↔
      (∃ saved ∈ b.settings.vpn_private_ranges, routeExcludePrefix b.net saved = range) ∧
        range.isEmpty = false ∧ ∀ cidr ∈ get_hijacked_ips b.routeChain b.settings, prefixesOverlap b.net range cidr = false := by
    intro range
    rw [bypassedPrivateRanges, mem_filter, mem_map]
    simp only [Bool.and_eq_true, Bool.not_eq_true', any_eq_false, Bool.not_eq_true]
  rw [Build.tun, tunDeps, PrivateRangesInSet]
  cases hdisabled : b.settings.disable_private_range_bypass with
  | true => simp
  | false =>
    simp only [Bool.not_false, Bool.true_and, htun, Bool.and_eq_true, beq_iff_eq, Bool.not_eq_true', Bool.false_eq_true, if_false]
    constructor
    · rintro ⟨⟨⟨⟨hos, hredirect⟩, -⟩, hverbatim⟩, range, hrange, hv6⟩
      obtain ⟨⟨saved, hsaved, rfl⟩, -, hhijacked⟩ := (hranges range).1 hrange
      exact ⟨hos, hredirect, trivial, hverbatim, saved, hsaved, hv6, hhijacked⟩
    · rintro ⟨hos, hredirect, -, hverbatim, saved, hsaved, hv6, hhijacked⟩
      have hmem : routeExcludePrefix b.net saved ∈ bypassedPrivateRanges b.net b.settings b.routeChain :=
        (hranges _).2 ⟨⟨saved, hsaved, rfl⟩, namesIPv6_ne_nil hv6, hhijacked⟩
      refine ⟨⟨⟨⟨hos, hredirect⟩, ?_⟩, hverbatim⟩, _, hmem, hv6⟩
      rw [isEmpty_eq_false_iff]
      exact ne_nil_of_mem hmem

theorem remoteRuleSet_not_inline (tag url : Text) : isInline (remoteRuleSet tag url) = false := by
  have htype : (remoteRuleSet tag url).toObject.textAt "type".toList = "remote".toList := rfl
  rw [isInline, htype]
  decide

theorem privateRuleSet_inline (ranges : List Text) : isInline (privateRuleSet ranges) = true := by
  have htype : (privateRuleSet ranges).toObject.textAt "type".toList = "inline".toList := rfl
  rw [isInline, htype]
  decide

theorem cidrsOf_privateRuleSet (ranges : List Text) : cidrsOf (privateRuleSet ranges) = ranges := by
  have htype : "type".toList ≠ "ip_cidr".toList ∧ "type".toList ≠ "rules".toList := by decide
  have htag : "tag".toList ≠ "ip_cidr".toList ∧ "tag".toList ≠ "rules".toList := by decide
  have hrules : "rules".toList ≠ "ip_cidr".toList := by decide
  rw [privateRuleSet]
  simp only [cidrsOf, cidrsOfFields, cidrsOfItems, htype, htag, hrules, if_false, if_true,
    nil_append, append_nil, textArray, textsOf, map_map, Function.comp_def,
    Json.toText, map_id']

/-- Of the rule sets of the build only that of the private ranges stands in the config. -/
theorem inline_built {ruleSet : Json} (h : ruleSet ∈ buildRuleSetArray b.settings b.tun b.routeChain b.sections)
    (hinline : isInline ruleSet = true) : b.tun.privateRangesAsRuleSet = true ∧ ruleSet = privateRuleSet b.tun.bypassedPrivateRanges := by
  rw [buildRuleSetArray, mem_append, mem_append] at h
  rcases h with (hremote | hadblock) | hprivate
  · obtain ⟨item, -, hsource⟩ := mem_filterMap.1 hremote
    obtain ⟨source, -, rfl⟩ := Option.map_eq_some_iff.1 hsource
    rw [remoteRuleSet_not_inline] at hinline
    cases hinline
  · split at hadblock
    · rw [mem_singleton.1 hadblock, remoteRuleSet_not_inline] at hinline
      cases hinline
    · cases hadblock
  · split at hprivate
    · rename_i hset
      exact ⟨hset, mem_singleton.1 hprivate⟩
    · cases hprivate

/-- What the tunnel of a generated config leaves out by a rule set. -/
theorem leavesOut_iff {config : Fields} (htun : b.settings.spmode_vpn = true) (h : b.generated = some config) :
    LeavesOutBySet (tunInbound b.net b.os b.settings b.tun) (ruleSets config) ↔ PrivateRangesInSet b ∨ RawSetLeavesOut b := by
  have hnames : ((tunInbound b.net b.os b.settings b.tun).arrayAt
      "route_exclude_address_set".toList).map Json.toText = routeExcludeSets b.settings b.tun := by
    rw [tunInbound_sets, textArray_texts]
  rw [LeavesOutBySet, hnames, ruleSets_generated h]
  constructor
  · rintro ⟨ruleSet, hmem, hinline, hname, range, hrange, hv6⟩
    rcases mem_append.1 hmem with hbuilt | hraw
    · split at hbuilt
      · cases hbuilt
      · obtain ⟨hset, rfl⟩ := inline_built b hbuilt hinline
        rw [cidrsOf_privateRuleSet] at hrange
        exact .inl ((privateRangesInSet_iff b htun).1 ⟨hset, range, hrange, hv6⟩)
    · split at hraw
      · rename_i hisRaw
        exact .inr ⟨hisRaw, ruleSet, hraw, hinline, hname, range, hrange, hv6⟩
      · cases hraw
  · rintro (hprivate | ⟨hisRaw, ruleSet, hmem, hinline, hname, hrange⟩)
    · have hverbatim := hprivate.2.2.2.1
      obtain ⟨hset, range, hrange, hv6⟩ := (privateRangesInSet_iff b htun).2 hprivate
      refine ⟨privateRuleSet b.tun.bypassedPrivateRanges, ?_, privateRuleSet_inline _, ?_, range, ?_, hv6⟩
      · rw [hverbatim, if_neg Bool.false_ne_true, buildRuleSetArray, if_pos hset]
        exact mem_append_left _ (mem_append_right _ (mem_singleton_self _))
      · rw [routeExcludeSets, if_pos hset]
        exact mem_append_left _ (mem_singleton_self _)
      · rw [cidrsOf_privateRuleSet]
        exact hrange
    · refine ⟨ruleSet, ?_, hinline, hname, hrange⟩
      rw [hisRaw, if_pos rfl]
      exact mem_append_right _ hmem

/-- The rule sets keep no IPv6 range out of the tunnel. A config of the user's own is taken as it is. -/
def SetsWithoutIPv6 : Prop :=
  match b.started with
  | .customFullConfig object => KeepsIPv6 object object
  | .generated => ¬PrivateRangesInSet b ∧ ¬RawSetLeavesOut b

end Sets

/-- A generated config keeps IPv6 in the tunnel exactly when no rule set leaves it out. -/
theorem keeps_generated_iff {b : Build} {before config : Fields}
    (hstarted : b.started = .generated) (htun : b.settings.spmode_vpn = true) (hoff : b.settings.vpn_ipv6 = false)
    (hbuild : BuildSingBoxConfig b = some (before, config)) : KeepsIPv6 before config ↔ ¬PrivateRangesInSet b ∧ ¬RawSetLeavesOut b := by
  obtain ⟨generated, hgenerated, rfl, rfl⟩ := built_with_policy hstarted htun hoff hbuild
  have htunnel : tunOf (b.finish (ApplyTunIPv6Policy generated tunIn dnsSystem)) = some (tunInbound b.net b.os b.settings b.tun) := by
    refine Eq.trans ?_ (tunOf_generated htun hgenerated)
    refine tunOf_congr ((finish_get (by decide) (by decide)).trans ?_)
    rw [ApplyTunIPv6Policy, Fields.get_put_other (by decide), Fields.get_put_other (by decide)]
  have hroute : ∀ c, (b.finish c).objectAt "route".toList = c.objectAt "route".toList :=
    fun c => route_congr (finish_get (by decide) (by decide))
  have hdns : ∀ c, (b.finish c).objectAt "dns".toList = c.objectAt "dns".toList :=
    fun c => dns_congr (finish_get (by decide) (by decide))
  have hrules : routeRules (b.finish (ApplyTunIPv6Policy generated tunIn dnsSystem)) =
      hijackIPv6Dns tunIn :: rejectIPv6 tunIn :: routeRules (b.finish generated) := by
    rw [routeRules, hroute, ← routeRules, routeRules_apply, routeRules, routeRules, hroute]
  have hdnsRules : dnsRules (b.finish (ApplyTunIPv6Policy generated tunIn dnsSystem)) =
      emptyAAAA tunIn dnsSystem :: dnsRules (b.finish generated) := by
    rw [dnsRules, hdns, ← dnsRules, dnsRules_apply, dnsRules, dnsRules, hdns]
  have hsets : ruleSets (b.finish (ApplyTunIPv6Policy generated tunIn dnsSystem)) = ruleSets generated := by
    rw [ruleSets, hroute, ruleSets_apply, ruleSets]
  rw [← not_or, ← leavesOut_iff b htun hgenerated]
  constructor
  · intro hkeeps
    have hnot := hkeeps.sets _ htunnel
    rw [hsets] at hnot
    exact hnot
  · intro hnot
    exact
      { address := by
          refine ⟨_, htunnel, .text b.settings.vpn_tun_ipv6_cidr, ?_, b.settings.tunIPv6⟩
          rw [tunInbound_address]
          exact mem_cons_of_mem _ mem_cons_self
        excluded := by
          intro tun htunmem range hrange
          rw [htunnel, Option.mem_some] at htunmem
          subst htunmem
          rw [tunInbound_excluded] at hrange
          exact routeExcludeAddrs_ipv4 _ _ _ _ hoff _ (mem_textArray hrange)
        sets := by
          intro tun htunmem
          rw [htunnel, Option.mem_some] at htunmem
          subst htunmem
          rw [hsets]
          exact hnot
        connections := by
          intro ρ core c hinbound hversion
          rw [hrules, routed_tunnel core tunIn _ c hinbound hversion]
          by_cases hport : c.port = 53
          · rw [if_pos hport, if_pos hport]
            rfl
          · rw [if_neg hport, if_neg hport]
            rfl
        queries := by
          intro ρ core q hinbound htype
          rw [hdnsRules]
          exact answered_AAAA core tunIn dnsSystem _ q hinbound htype
        otherConnections := by
          intro ρ core c h
          rw [hrules]
          exact routed_other core tunIn _ c h
        otherQueries := by
          intro ρ core q h
          rw [hdnsRules]
          exact answered_other core tunIn dnsSystem _ q h }


/-- With the tunnel on and its IPv6 off, a config that is built refuses IPv6 inside the tunnel, lets
none around it and changes nothing else, if and only if no rule set that stands in the config keeps an
IPv6 range out of the tunnel. -/
theorem keeps_ipv6_iff (b : Build) (before config : Fields) (htun : b.settings.spmode_vpn = true)
    (hoff : b.settings.vpn_ipv6 = false) (hbuild : BuildSingBoxConfig b = some (before, config)) :
    KeepsIPv6 before config ↔ SetsWithoutIPv6 b := by
  cases hstarted : b.started with
  | customFullConfig object =>
    rw [BuildSingBoxConfig, hstarted] at hbuild
    cases hbuild
    rw [SetsWithoutIPv6, hstarted]
  | generated =>
    rw [SetsWithoutIPv6, hstarted]
    exact keeps_generated_iff hstarted htun hoff hbuild

/-- Addresses as far as the default private ranges go. -/
def colonAddresses : Addresses where
  isIPv6 text := ["fc00::".toList, "fe80::".toList, "ff00::".toList].contains text
  parseSubnet _ := none
  addressText _ _ := []

/-- The default settings of the tunnel, with `vpn_auto_redirect` on. -/
def defaultTunnel : TunSettings where
  spmode_vpn := true
  vpn_ipv6 := false
  vpn_mtu := 1420
  vpn_strict_route := true
  vpn_auto_redirect := true
  vpn_tun_ipv4_cidr := "172.19.0.1/24".toList
  vpn_tun_ipv6_cidr := "fdfe:dcba:9876::1/96".toList
  vpn_private_ranges := ["10.0.0.0/8".toList, "fc00::/7".toList, "fe80::/10".toList]
  disable_private_range_bypass := false
  enable_tun_routing := false
  adblock_enable := false
  tunIPv6 := by decide

/-- A build with the default routing profile. -/
def defaultBuild (os : OSType) : Build where
  net := colonAddresses
  os := os
  settings := defaultTunnel
  started := .generated
  routeChain := RouteProfile.GetDefaultChain
  rawRoute := []
  sections := ⟨[], none, [], [], [], [], [], [], [], fun _ => none, fun _ => none, [], [], none⟩

theorem keeps_ipv6_iff_windows : ∃ before config, BuildSingBoxConfig (defaultBuild .Windows) = some (before, config) ∧
    (KeepsIPv6 before config ↔ SetsWithoutIPv6 (defaultBuild .Windows)) :=
  ⟨_, _, rfl, keeps_ipv6_iff (defaultBuild .Windows) _ _ rfl rfl rfl⟩

/-- On Linux with `auto_redirect` the private IPv6 ranges go around the tunnel. -/
theorem private_ranges_around_tunnel : ∃ before config, (defaultBuild .Linux).settings.spmode_vpn = true ∧
    (defaultBuild .Linux).settings.vpn_ipv6 = false ∧ BuildSingBoxConfig (defaultBuild .Linux) = some (before, config) ∧
    ¬KeepsIPv6 before config := by
  have hleak : PrivateRangesInSet (defaultBuild .Linux) := by
    refine ⟨rfl, rfl, rfl, rfl, "fc00::/7".toList, by decide, by decide, ?_⟩
    have hnone : get_hijacked_ips (defaultBuild .Linux).routeChain (defaultBuild .Linux).settings = [] := by decide
    intro cidr hcidr
    rw [hnone] at hcidr
    cases hcidr
  refine ⟨_, _, rfl, rfl, rfl, ?_⟩
  intro hkeeps
  have hnot := (keeps_generated_iff (b := defaultBuild .Linux) rfl rfl rfl rfl).1 hkeeps
  exact hnot.1 hleak

end Throne.Configs
