import Throne.Configs.TunInbound
import Throne.Database.Entities.RouteRuleNarrow

/-!
# What the direct rules are a shortcut for

From its direct rules a routing profile takes the sites whose names the direct DNS server answers
(`get_direct_sites`) and the addresses that are kept out of the tunnel (`get_direct_ips`). Both look at
one list of a rule at a time. `shortcuts_iff` says for which profiles every selector taken this way comes
from a direct rule that matches all the selector matches.

What a selector matches is not looked into: a connection is given by the items that hold of it, and a
selector is the item of the rule it was taken from.
-/

namespace Throne.Configs

open Lib.Texts Lib.Json Core.SingBox Database.Routes List

/-! ## Sites -/

/-- The loops of `get_direct_sites` and `get_proxy_sites`, which differ in the outbound only. -/
def get_sites (outbound : Int) (p : RouteProfile) : List Text :=
  p.Rules.flatMap fun rule =>
    if !rule.disabled && rule.outboundID == outbound && rule.texts .action == "route".toList then
      ((rule.lists .rule_set).filter fun rset => "geosite-".toList.isPrefixOf rset).map (fun rset => "ruleset:".toList ++ rset) ++
        (rule.lists .domain).map (fun domain => "domain:".toList ++ domain) ++
        (rule.lists .domain_suffix).map (fun suffix => "suffix:".toList ++ suffix) ++
        (rule.lists .domain_keyword).map (fun keyword => "keyword:".toList ++ keyword) ++
        (rule.lists .domain_regex).map fun regex => "regex:".toList ++ regex
    else []

/-- `get_direct_sites`. -/
def get_direct_sites (p : RouteProfile) : List Text := get_sites directID p

/-- `get_proxy_sites`. -/
def get_proxy_sites (p : RouteProfile) : List Text := get_sites proxyID p

/-- `DomainSelectors`. -/
structure DomainSelectors where
  ruleSets : List Text
  domains : List Text
  suffixes : List Text
  keywords : List Text
  regexes : List Text

/-- `hasInlineConditions`. -/
def DomainSelectors.hasInlineConditions (selectors : DomainSelectors) : Bool :=
  !selectors.domains.isEmpty || !selectors.suffixes.isEmpty || !selectors.keywords.isEmpty || !selectors.regexes.isEmpty

/-- `parseSelectorList` into the sinks of `sinkFor`. -/
def domainSelectors (items : List Text) : DomainSelectors where
  ruleSets := selected "ruleset:".toList items
  domains := selected "domain:".toList items
  suffixes := selected "suffix:".toList items
  keywords := selected "keyword:".toList items
  regexes := selected "regex:".toList items

/-- `DnsDeps`. -/
structure DnsDeps where
  needDirectDnsRules : Bool
  direct : DomainSelectors
  needProxyDnsRules : Bool
  proxy : DomainSelectors

/-- The part of `calculatePrerequisites` about DNS. -/
def dnsDeps (enable_dns_routing : Bool) (routeChain : RouteProfile) : DnsDeps :=
  let sets := if enable_dns_routing then get_direct_sites routeChain else []
  let proxySets := if enable_dns_routing then get_proxy_sites routeChain else []
  { needDirectDnsRules := !sets.isEmpty
    direct := domainSelectors sets
    needProxyDnsRules := !proxySets.isEmpty
    proxy := domainSelectors proxySets }

/-- `appendDnsRoute`: the rules it appends. -/
def appendDnsRoute (conditions : Fields) (server : Text) (disableIPv6 : Bool) : List Fields :=
  (if disableIPv6 then
    [conditions ++ [("query_type".toList, textArray ["AAAA".toList]), ("action".toList, .text "predefined".toList)]]
  else []) ++ [conditions ++ [("action".toList, .text "route".toList), ("server".toList, .text server)]]

/-- `appendDnsRoutingRules`: the rules it appends. -/
def appendDnsRoutingRules (selectors : DomainSelectors) (server : Text) (disableIPv6 : Bool) : List Fields :=
  (if selectors.ruleSets.isEmpty then []
    else
      appendDnsRoute [("rule_set".toList, textArray selectors.ruleSets)] server disableIPv6) ++
    (if selectors.hasInlineConditions then
      appendDnsRoute [("domain".toList, textArray selectors.domains), ("domain_suffix".toList, textArray selectors.suffixes),
          ("domain_keyword".toList, textArray selectors.keywords),
          ("domain_regex".toList, textArray selectors.regexes)] server disableIPv6
    else [])

/-- The direct DNS rules of `buildDNSSection`. -/
def directDnsRules (dns : DnsDeps) (disableIPv6 : Bool) : List Fields :=
  if dns.needDirectDnsRules then
    appendDnsRoutingRules dns.direct "dns-direct".toList disableIPv6
  else []

/-! ## Addresses kept out -/

/-- What one direct range adds to the excluded ranges. -/
def exclusionsOf (net : Addresses) (os : OSType) (settings : TunSettings) (item : Text) : List Text :=
  leftOut net os settings ([routeExcludePrefix net (withoutZone (trimmed item))].filter fun range => !range.isEmpty)

/-- The direct ranges that reach the exclusions of the tunnel. -/
def directRanges (net : Addresses) (os : OSType) (settings : TunSettings) (p : RouteProfile) : List Text :=
  if settings.spmode_vpn && settings.enable_tun_routing then
    (tunDeps net os settings p).directIPCIDRs.filter fun item =>
      !(exclusionsOf net os settings item).isEmpty
  else []

/-- The direct rule sets that reach the exclusions of the tunnel. -/
def directSets (net : Addresses) (os : OSType) (settings : TunSettings) (p : RouteProfile) : List Text :=
  if settings.spmode_vpn && settings.enable_tun_routing then
    (tunDeps net os settings p).directIPSets
  else []

/-! ## What a direct rule hands on -/

/-- The direct rules: enabled, routed, to the direct outbound. -/
def isDirect (rule : RouteRule) : Bool := !rule.disabled && rule.outboundID == directID && rule.texts .action == "route".toList

/-- The lists `get_direct_sites` looks at, and those `get_direct_ips` does, each with its kind. -/
def siteKinds : List (ListAttr × Text) :=
  [(.rule_set, "ruleset:".toList), (.domain, "domain:".toList), (.domain_suffix, "suffix:".toList),
    (.domain_keyword, "keyword:".toList), (.domain_regex, "regex:".toList)]

def ipKinds : List (ListAttr × Text) := [(.rule_set, "ruleset:".toList), (.ip_cidr, "ip:".toList)]

/-- The items of a rule under some of its lists, of the rule sets those with a certain beginning. -/
def handedOn (sets : Text) (kinds : List (ListAttr × Text)) (rule : RouteRule) : List (Text × Text) :=
  kinds.flatMap fun kind =>
    (filterEmpty ((rule.lists kind.1).filter fun item =>
      kind.1 != .rule_set || sets.isPrefixOf item)).map fun item => (kind.1.key, item)

/-- A direct rule of the profile hands on the item. -/
def HandedOn (sets : Text) (kinds : List (ListAttr × Text)) (p : RouteProfile) (x : Text × Text) :
    Prop :=
  ∃ rule ∈ p.Rules, isDirect rule = true ∧ x ∈ handedOn sets kinds rule

variable {kind value : Text} {items : List Text}

/-- What a sink of one kind takes from one raw item. -/
theorem mem_selected : value ∈ selected kind items ↔ ∃ raw ∈ items, kind <+: trimmed raw ∧
    trimmed ((trimmed raw).drop kind.length) = value ∧ value ≠ [] := by
  rw [selected, mem_filterMap]
  constructor
  · rintro ⟨raw, hraw, hvalue⟩
    by_cases hkind : kind.isPrefixOf (trimmed raw) = true
    · refine ⟨raw, hraw, isPrefixOf_iff_prefix.1 hkind, ?_⟩
      simp only [hkind, if_true] at hvalue
      split at hvalue
      · exact absurd hvalue (Option.some_ne_none _).symm
      · next hne =>
        cases hvalue
        exact ⟨rfl, by simpa [List.isEmpty_iff] using hne⟩
    · simp only [hkind] at hvalue
      exact absurd hvalue (Option.some_ne_none _).symm
  · rintro ⟨raw, hraw, hkind, rfl, hne⟩
    refine ⟨raw, hraw, ?_⟩
    have hset : (trimmed ((trimmed raw).drop kind.length)).isEmpty = false := by
      simpa [List.isEmpty_iff] using hne
    simp only [ isPrefixOf_iff_prefix.2 hkind, if_true, hset, Bool.false_eq_true, if_false]

/-- The kinds of `parseSelectorList`. -/
def selectorKinds : List Text := ["ruleset:".toList, "domain:".toList, "suffix:".toList, "keyword:".toList, "regex:".toList, "ip:".toList]

theorem selectorKinds_solid : ∀ kind ∈ selectorKinds, kind ≠ [] ∧ ∀ c ∈ kind, isSpace c = false := by
  have hall : (selectorKinds.all fun kind => !kind.isEmpty && kind.all fun c => decide (isSpace c = false)) = true := by
    decide
  intro kind hkind
  have hkinds := all_eq_true.1 hall kind hkind
  rw [Bool.and_eq_true] at hkinds
  exact ⟨by simpa using hkinds.1, forall_of_all hkinds.2⟩

/-- No kind begins another. -/
theorem selectorKinds_apart : ∀ kind ∈ selectorKinds, ∀ tag ∈ selectorKinds, kind <+: tag ∨ tag <+: kind → kind = tag := by decide

/-- An item is read under its own kind, and as what is written behind it. -/
theorem read_tagged {tag item : Text} (hkind : kind ∈ selectorKinds) (htag : tag ∈ selectorKinds) :
    (kind <+: trimmed (tag ++ item) ∧ trimmed ((trimmed (tag ++ item)).drop kind.length) = value ∧ value ≠ []) ↔
    kind = tag ∧ trimmed item = value ∧ value ≠ [] := by
  obtain ⟨hne, hsolid⟩ := selectorKinds_solid tag htag
  obtain ⟨rest, hrest, hitem⟩ := strip_tagged hne hsolid item
  have htrimmed : trimmed (tag ++ item) = tag ++ rest := hrest
  rw [htrimmed]
  have hdrop : trimmed ((tag ++ rest).drop tag.length) = trimmed item := by
    rw [drop_left]
    exact hitem
  constructor
  · rintro ⟨hbegins, hvalue, hset⟩
    have hsame : kind = tag := selectorKinds_apart kind hkind tag htag ( prefix_or_prefix_of_prefix hbegins (prefix_append tag rest))
    refine ⟨hsame, ?_, hset⟩
    rw [← hvalue, hsame, hdrop]
  · rintro ⟨rfl, hvalue, hset⟩
    exact ⟨prefix_append _ rest, hdrop.trans hvalue, hset⟩

variable {p : RouteProfile}

/-- A list of raw items made of items under their kinds. -/
theorem mem_selected_tagged {sets : Text} {kinds : List (ListAttr × Text)} {a : ListAttr}
    (hkinds : ∀ k ∈ kinds, k.2 ∈ selectorKinds ∧ ∀ k' ∈ kinds, k'.2 = k.2 → k' = k) (hmem : (a, kind) ∈ kinds)
    (hitems : ∀ raw, raw ∈ items ↔ ∃ rule ∈ p.Rules, isDirect rule = true ∧ ∃ k ∈ kinds,
      ∃ item ∈ rule.lists k.1, (k.1 != .rule_set || sets.isPrefixOf item) = true ∧ raw = k.2 ++ item) :
    value ∈ selected kind items ↔ ∃ rule ∈ p.Rules, isDirect rule = true ∧ value ∈ filterEmpty ((rule.lists a).filter fun item =>
          a != .rule_set || sets.isPrefixOf item) := by
  rw [mem_selected]
  constructor
  · rintro ⟨raw, hraw, hread⟩
    obtain ⟨rule, hrule, hdirect, k, hk, item, hitem, hset, rfl⟩ := (hitems raw).1 hraw
    obtain ⟨hsame, hvalue⟩ := (read_tagged (hkinds _ hmem).1 (hkinds k hk).1).1 hread
    obtain rfl := (hkinds k hk).2 _ hmem hsame
    exact ⟨rule, hrule, hdirect, mem_filterEmpty.2 ⟨item, mem_filter.2 ⟨hitem, hset⟩, hvalue⟩⟩
  · rintro ⟨rule, hrule, hdirect, hvalue⟩
    obtain ⟨item, hitem, hvalue⟩ := mem_filterEmpty.1 hvalue
    obtain ⟨hitem, hset⟩ := mem_filter.1 hitem
    refine ⟨kind ++ item, (hitems _).2 ⟨rule, hrule, hdirect, (a, kind), hmem, item, hitem, hset, rfl⟩, ?_⟩
    exact (read_tagged (hkinds _ hmem).1 (hkinds _ hmem).1).2 ⟨rfl, hvalue⟩

theorem siteKinds_apart : ∀ k ∈ siteKinds, k.2 ∈ selectorKinds ∧ ∀ k' ∈ siteKinds, k'.2 = k.2 → k' = k := by decide

theorem ipKinds_apart : ∀ k ∈ ipKinds, k.2 ∈ selectorKinds ∧ ∀ k' ∈ ipKinds, k'.2 = k.2 → k' = k := by decide

theorem mem_get_direct_sites {raw : Text} : raw ∈ get_direct_sites p ↔ ∃ rule ∈ p.Rules, isDirect rule = true ∧ ∃ k ∈ siteKinds,
    ∃ item ∈ rule.lists k.1, (k.1 != .rule_set || "geosite-".toList.isPrefixOf item) = true ∧ raw = k.2 ++ item := by
  rw [get_direct_sites, get_sites, mem_flatMap]
  refine exists_congr fun rule => and_congr_right fun _ => ?_
  rw [← isDirect]
  cases isDirect rule with
  | false => simp
  | true =>
    have hset : (ListAttr.rule_set != .rule_set) = false := rfl
    have hdomain : (ListAttr.domain != .rule_set) = true := rfl
    have hsuffix : (ListAttr.domain_suffix != .rule_set) = true := rfl
    have hkeyword : (ListAttr.domain_keyword != .rule_set) = true := rfl
    have hregex : (ListAttr.domain_regex != .rule_set) = true := rfl
    simp only [if_true, true_and, mem_append, mem_map, mem_filter, siteKinds,
      mem_cons, not_mem_nil, or_false, exists_eq_or_imp, exists_eq_left, and_assoc,
      or_assoc, eq_comm (a := raw), hset, hdomain, hsuffix, hkeyword, hregex, Bool.false_or,
      Bool.true_or]

theorem mem_get_direct_ips {raw : Text} : raw ∈ get_direct_ips p ↔ ∃ rule ∈ p.Rules, isDirect rule = true ∧ ∃ k ∈ ipKinds,
    ∃ item ∈ rule.lists k.1, (k.1 != .rule_set || "geoip-".toList.isPrefixOf item) = true ∧ raw = k.2 ++ item := by
  rw [get_direct_ips, mem_flatMap]
  refine exists_congr fun rule => and_congr_right fun _ => ?_
  rw [← isDirect]
  cases isDirect rule with
  | false => simp
  | true =>
    have hset : (ListAttr.rule_set != .rule_set) = false := rfl
    have hcidr : (ListAttr.ip_cidr != .rule_set) = true := rfl
    simp only [if_true, true_and, mem_append, mem_map, mem_filter, ipKinds,
      mem_cons, not_mem_nil, or_false, exists_eq_or_imp, exists_eq_left, and_assoc,
      eq_comm (a := raw), hset, hcidr, Bool.false_or, Bool.true_or]

/-! ## Selectors and the rules they come from -/

variable {rule : RouteRule}

section Vouched

variable (others : Text → Bool) (v : Validation) (ruleSetName : Text → Text)

/-- The item comes from a direct rule that matches every connection the item holds of. -/
def Vouched (sets : Text) (kinds : List (ListAttr × Text)) (p : RouteProfile) (x : Text × Text) :
    Prop :=
  ∃ rule ∈ p.Rules, isDirect rule = true ∧ x ∈ handedOn sets kinds rule ∧ ∀ holds : Text × Text → Bool, holds x = true →
      matchesItems others (fun _ item => item) (rule.get_rule_json v ruleSetName "direct".toList) holds = true

/-- Nothing the direct rules are a shortcut for exceeds them: neither a range or a rule set that is kept
out of the tunnel nor a selector of the direct DNS rules. -/
structure ShortcutsWithin (net : Addresses) (os : OSType) (settings : TunSettings)
    (enable_dns_routing direct_dns_disable_ipv6 : Bool) (p : RouteProfile) : Prop where
  ranges : ∀ item ∈ directRanges net os settings p, Vouched others v ruleSetName "geoip-".toList ipKinds p ("ip_cidr".toList, item)
  sets : ∀ item ∈ directSets net os settings p, Vouched others v ruleSetName "geoip-".toList ipKinds p ("rule_set".toList, item)
  sites : ∀ rule ∈ directDnsRules (dnsDeps enable_dns_routing p) direct_dns_disable_ipv6,
    ∀ x ∈ readItems (fun _ item => item) rule, x.1 ≠ "query_type".toList → Vouched others v ruleSetName "geosite-".toList siteKinds p x

/-- A rule that is not inverted and has the item, and in which all that counts is an alternative to it: for an
address, addresses and sets that list them, and for a rule set also any other rule set. -/
structure OnlyAlternatives (rule : RouteRule) (x : Text × Text) : Prop where
  custom : rule.type ≠ .endpointPreferredBy
  plain : rule.flags .invert = false
  item : x ∈ counted others (conditionItems ruleSetName rule)
  alternatives : ∀ c ∈ counted others (conditionItems ruleSetName rule),
    itemGroup others (conditionItems ruleSetName rule) c = itemGroup others (conditionItems ruleSetName rule) x

/-- Of the direct rules that hand on the item, one asks of a connection nothing but the item or an alternative. -/
def HasPlainRule (sets : Text) (kinds : List (ListAttr × Text)) (p : RouteProfile) (x : Text × Text) : Prop :=
  ∃ rule ∈ p.Rules, isDirect rule = true ∧ x ∈ handedOn sets kinds rule ∧ OnlyAlternatives others ruleSetName rule x

/-- The lists of one shortcut are conditions of a rule. -/
def ConditionKinds (kinds : List (ListAttr × Text)) : Prop := ∀ k ∈ kinds, Attr.list k.1 ∈ attributes.filter is_match_attribute

theorem conditionKinds_sites : ConditionKinds siteKinds := by
  rw [ConditionKinds]
  decide

theorem conditionKinds_ips : ConditionKinds ipKinds := by
  rw [ConditionKinds]
  decide

variable {others v ruleSetName} {sets : Text} {kinds : List (ListAttr × Text)} {x : Text × Text}

/-- A rule that hands something on has a condition. -/
theorem conditionItems_ne_nil (hkinds : ConditionKinds kinds) (h : x ∈ handedOn sets kinds rule) : conditionItems ruleSetName rule ≠ [] := by
  obtain ⟨k, hk, hx⟩ := mem_flatMap.1 h
  obtain ⟨value, hvalue, -⟩ := mem_map.1 hx
  obtain ⟨item, hitem, hvalue⟩ := mem_filterEmpty.1 hvalue
  have hmem : value ∈ filterEmpty (rule.lists k.1) := mem_filterEmpty.2 ⟨item, mem_of_mem_filter hitem, hvalue⟩
  exact ne_nil_of_mem (mem_flatMap.2 ⟨_, hkinds k hk, mem_map_of_mem hmem⟩)

/-- No list of a rule is what the rule of an endpoint asks for. -/
theorem handedOn_ne_endpoint (h : x ∈ handedOn sets kinds rule) : x.1 ≠ "preferred_by".toList := by
  obtain ⟨k, -, hx⟩ := mem_flatMap.1 h
  obtain ⟨value, -, rfl⟩ := mem_map.1 hx
  have hkey : ∀ a : ListAttr, a.key ≠ "preferred_by".toList := by decide
  exact hkey k.1

/-- A rule matches all that an item it hands on holds of, exactly when it is not inverted and all its
conditions are alternatives to the item. -/
theorem matches_all_iff (hkinds : ConditionKinds kinds) (h : x ∈ handedOn sets kinds rule) : (∀ holds : Text × Text → Bool, holds x = true →
    matchesItems others (fun _ item => item) (rule.get_rule_json v ruleSetName "direct".toList) holds = true) ↔
    OnlyAlternatives others ruleSetName rule x := by
  by_cases hendpoint : rule.type = .endpointPreferredBy
  · constructor
    · intro hall
      have hitem := (matchesItems_true.1 (hall (fun y => y == x) (beq_self_eq_true x))).2
      have hjson : rule.get_rule_json v ruleSetName "direct".toList = [("preferred_by".toList, .array [.text "direct".toList]),
            ("action".toList, .text "route".toList), ("outbound".toList, .text "direct".toList)] := by
        rw [RouteRule.get_rule_json, if_pos hendpoint]
        rfl
      rw [hjson] at hitem
      -- Only the endpoint's own condition is there, and it does not hold.
      obtain ⟨c, hc⟩ := exists_mem_of_ne_nil (counted others _) (counted_ne_nil (cons_ne_nil ("preferred_by".toList, "direct".toList) []))
      obtain ⟨d, hd, -, hholds⟩ := allHold_iff.1 hitem c hc
      have hmem : d ∈ [("preferred_by".toList, "direct".toList)] := mem_of_counted hd
      refine absurd ?_ (handedOn_ne_endpoint h)
      rw [← eq_of_beq hholds, mem_singleton.1 hmem]
    · exact fun honly => absurd hendpoint honly.custom
  · have hmatches : ∀ holds : Text × Text → Bool, matchesItems others (fun _ item => item)
            (rule.get_rule_json v ruleSetName "direct".toList) holds = true ↔
          itemsHold others (conditionItems ruleSetName rule) holds = !rule.flags .invert := by
      intro holds
      rw [matchesItems_true, readItems_rule hendpoint, generated_negates hendpoint]
      exact and_iff_right (generated_readable hendpoint _)
    simp only [hmatches]
    have hne : counted others (conditionItems ruleSetName rule) ≠ [] := counted_ne_nil (conditionItems_ne_nil hkinds h)
    constructor
    · intro hall
      have hplain : rule.flags .invert = false := by
        have hthis := hall (fun _ => true) rfl
        rw [itemsHold_all] at hthis
        simpa using hthis
      rw [hplain, Bool.not_false] at hall
      obtain ⟨hitem, hgroups⟩ := (allHold_of_item_iff _ hne x).1 hall
      exact ⟨hendpoint, hplain, hitem, hgroups⟩
    · rintro ⟨-, hplain, hitem, hgroups⟩
      rw [hplain, Bool.not_false]
      exact (allHold_of_item_iff _ hne x).2 ⟨hitem, hgroups⟩

theorem vouched_iff (hkinds : ConditionKinds kinds) :
    Vouched others v ruleSetName sets kinds p x ↔ HasPlainRule others ruleSetName sets kinds p x := by
  refine exists_congr fun rule => and_congr_right fun _ => and_congr_right fun _ =>
    and_congr_right fun hmem => ?_
  exact matches_all_iff hkinds hmem

end Vouched

/-! ## Which selectors there are -/

/-- A selector of one kind is an item that a direct rule hands on under the list of that kind. -/
theorem handedOn_iff {sets : Text} {kinds : List (ListAttr × Text)} {a : ListAttr} (value : Text)
    (hkinds : ∀ k ∈ kinds, k.2 ∈ selectorKinds ∧ ∀ k' ∈ kinds, k'.2 = k.2 → k' = k)
    (hkeys : ∀ k ∈ kinds, ∀ k' ∈ kinds, k'.1.key = k.1.key → k' = k) (hmem : (a, kind) ∈ kinds)
    (hitems : ∀ raw, raw ∈ items ↔ ∃ rule ∈ p.Rules, isDirect rule = true ∧ ∃ k ∈ kinds,
    ∃ item ∈ rule.lists k.1, (k.1 != .rule_set || sets.isPrefixOf item) = true ∧ raw = k.2 ++ item) :
    value ∈ selected kind items ↔ HandedOn sets kinds p (a.key, value) := by
  rw [mem_selected_tagged hkinds hmem hitems]
  refine exists_congr fun rule => and_congr_right fun _ => and_congr_right fun _ => ?_
  rw [handedOn, mem_flatMap]
  constructor
  · exact fun hvalue => ⟨(a, kind), hmem, mem_map_of_mem hvalue⟩
  · rintro ⟨k, hk, hx⟩
    obtain ⟨item, hitem, heq⟩ := mem_map.1 hx
    obtain ⟨hkey, rfl⟩ := Prod.mk.inj heq
    obtain rfl := hkeys _ hmem k hk hkey
    exact hitem

theorem siteKinds_keys : ∀ k ∈ siteKinds, ∀ k' ∈ siteKinds, k'.1.key = k.1.key → k' = k := by decide

theorem ipKinds_keys : ∀ k ∈ ipKinds, ∀ k' ∈ ipKinds, k'.1.key = k.1.key → k' = k := by decide

/-- A condition that is a list of texts, in front of other fields. -/
theorem readItems_textArray {key : Text} {group : Core.SingBox.Group} (hgroup : groupOf key = some group)
    (hswitch : switchKeys.contains key = false) (values : List Text) (fields : Fields) :
    readItems (fun _ item => item) ((key, textArray values) :: fields) =
    (values.map fun value => (key, value)) ++ readItems (fun _ item => item) fields := by
  have hfield : readItems (fun _ item => item) [(key, textArray values)] = values.map fun value => (key, value) := by
    rw [readItems_field hgroup, textArray, items, map_map, filterMap_map, ← filterMap_eq_map']
    refine filterMap_congr fun value _ => ?_
    simp only [Function.comp_apply, readItem, hswitch, Bool.false_and, Bool.false_eq_true, if_false]
    rfl
  rw [← hfield]
  exact readItems_append _ [(key, textArray values)] fields

variable {x : Text × Text}

/-- The rules of `appendDnsRoute` have its conditions, and the guard the type of the query. -/
theorem appendDnsRoute_items {conditions : Fields} {server : Text} {disableIPv6 : Bool} (hx : x.1 ≠ "query_type".toList) :
    (∃ rule ∈ appendDnsRoute conditions server disableIPv6, x ∈ readItems (fun _ item => item) rule) ↔
    x ∈ readItems (fun _ item => item) conditions := by
  have hroute : readItems (fun _ item => item) (conditions ++ [("action".toList, .text "route".toList), ("server".toList, .text server)]) =
        readItems (fun _ item => item) conditions := by
    have hnone : readItems (fun _ item => item) [("action".toList, .text "route".toList), ("server".toList, .text server)] = [] := by
      apply readItems_options
      intro field hfield
      rcases mem_cons.1 hfield with rfl | hfield
      · decide
      · have hserver : groupOf "server".toList = none := by decide
        rw [mem_singleton.1 hfield]
        exact hserver
    rw [readItems_append, hnone, append_nil]
  have hguard : ∀ y ∈ readItems (fun _ item => item)
      (conditions ++ [("query_type".toList, textArray ["AAAA".toList]), ("action".toList, .text "predefined".toList)]),
      y.1 = "query_type".toList ∨ y ∈ readItems (fun _ item => item) conditions := by
    intro y hy
    rw [readItems_append, mem_append] at hy
    rcases hy with hy | hy
    · exact .inr hy
    · have hmem : y ∈ [("query_type".toList, "AAAA".toList)] := hy
      rw [mem_singleton.1 hmem]
      exact .inl rfl
  rw [appendDnsRoute]
  constructor
  · rintro ⟨rule, hrule, hitem⟩
    rcases mem_append.1 hrule with hrule | hrule
    · cases disableIPv6 with
      | false => cases hrule
      | true =>
        rw [mem_singleton.1 hrule] at hitem
        exact (hguard x hitem).resolve_left hx
    · rw [mem_singleton.1 hrule, hroute] at hitem
      exact hitem
  · intro hitem
    refine ⟨_, mem_append_right _ (mem_singleton.2 rfl), ?_⟩
    rw [hroute]
    exact hitem

/-- The selectors of the DNS rules. -/
theorem appendDnsRoutingRules_items {selectors : DomainSelectors} {server : Text} {disableIPv6 : Bool} (hx : x.1 ≠ "query_type".toList) :
    (∃ rule ∈ appendDnsRoutingRules selectors server disableIPv6, x ∈ readItems (fun _ item => item) rule) ↔
    x ∈ (selectors.ruleSets.map fun value => ("rule_set".toList, value)) ++ ((selectors.domains.map fun value => ("domain".toList, value)) ++
    ((selectors.suffixes.map fun value => ("domain_suffix".toList, value)) ++
    ((selectors.keywords.map fun value => ("domain_keyword".toList, value)) ++
    selectors.regexes.map fun value => ("domain_regex".toList, value)))) := by
  have hsets : (∃ rule ∈ (if selectors.ruleSets.isEmpty then []
        else appendDnsRoute [("rule_set".toList, textArray selectors.ruleSets)] server disableIPv6),
        x ∈ readItems (fun _ item => item) rule) ↔
      x ∈ selectors.ruleSets.map fun value => ("rule_set".toList, value) := by
    split
    · next hempty =>
      rw [List.isEmpty_iff.1 hempty]
      simp
    · have hset : groupOf "rule_set".toList = some (.own "rule_set".toList) := by decide
      rw [appendDnsRoute_items hx, readItems_textArray hset (by decide)]
      exact (append_nil _).symm ▸ Iff.rfl
  have hinline : (∃ rule ∈ (if selectors.hasInlineConditions then
        appendDnsRoute [("domain".toList, textArray selectors.domains), ("domain_suffix".toList, textArray selectors.suffixes),
            ("domain_keyword".toList, textArray selectors.keywords),
            ("domain_regex".toList, textArray selectors.regexes)] server disableIPv6
        else []), x ∈ readItems (fun _ item => item) rule) ↔
      x ∈ (selectors.domains.map fun value => ("domain".toList, value)) ++ ((selectors.suffixes.map fun value => ("domain_suffix".toList, value)) ++
          ((selectors.keywords.map fun value => ("domain_keyword".toList, value)) ++
            selectors.regexes.map fun value => ("domain_regex".toList, value))) := by
    split
    · rw [appendDnsRoute_items hx]
      have hdomain : groupOf "domain".toList = some .address := by decide
      have hsuffix : groupOf "domain_suffix".toList = some .address := by decide
      have hkeyword : groupOf "domain_keyword".toList = some .address := by decide
      have hregex : groupOf "domain_regex".toList = some .address := by decide
      rw [readItems_textArray hdomain (by decide), readItems_textArray hsuffix (by decide),
        readItems_textArray hkeyword (by decide), readItems_textArray hregex (by decide)]
      exact (append_nil (selectors.regexes.map _)).symm ▸ Iff.rfl
    · next hnone =>
      have hempty : selectors.domains = [] ∧ selectors.suffixes = [] ∧ selectors.keywords = [] ∧ selectors.regexes = [] := by
        simpa [DomainSelectors.hasInlineConditions, List.isEmpty_iff, and_assoc] using hnone
      obtain ⟨hdomains, hsuffixes, hkeywords, hregexes⟩ := hempty
      rw [hdomains, hsuffixes, hkeywords, hregexes]
      simp
  rw [mem_append, ← hsets, ← hinline, appendDnsRoutingRules]
  simp only [mem_append, or_and_right, exists_or]

/-- The selectors of the direct DNS rules are what the direct rules hand on. -/
theorem directDnsRules_items {enable_dns_routing : Bool} (disableIPv6 : Bool) (hx : x.1 ≠ "query_type".toList) :
    (∃ rule ∈ directDnsRules (dnsDeps enable_dns_routing p) disableIPv6, x ∈ readItems (fun _ item => item) rule) ↔
    enable_dns_routing = true ∧ HandedOn "geosite-".toList siteKinds p x := by
  cases enable_dns_routing with
  | false => simp [directDnsRules, dnsDeps]
  | true =>
    have hhanded : ∀ {a : ListAttr} {kind : Text}, (a, kind) ∈ siteKinds → ∀ value, value ∈ selected kind (get_direct_sites p) ↔
          HandedOn "geosite-".toList siteKinds p (a.key, value) := fun hmem value =>
      handedOn_iff value siteKinds_apart siteKinds_keys hmem fun _ => mem_get_direct_sites
    have hset := hhanded (show (ListAttr.rule_set, "ruleset:".toList) ∈ siteKinds by decide)
    have hdomain := hhanded (show (ListAttr.domain, "domain:".toList) ∈ siteKinds by decide)
    have hsuffix := hhanded (show (ListAttr.domain_suffix, "suffix:".toList) ∈ siteKinds by decide)
    have hkeyword := hhanded (show (ListAttr.domain_keyword, "keyword:".toList) ∈ siteKinds by decide)
    have hregex := hhanded (show (ListAttr.domain_regex, "regex:".toList) ∈ siteKinds by decide)
    have hrules : (∃ rule ∈ directDnsRules (dnsDeps true p) disableIPv6, x ∈ readItems (fun _ item => item) rule) ↔
        ∃ rule ∈ appendDnsRoutingRules (domainSelectors (get_direct_sites p)) "dns-direct".toList
            disableIPv6, x ∈ readItems (fun _ item => item) rule := by
      have hdeps : directDnsRules (dnsDeps true p) disableIPv6 = if !(get_direct_sites p).isEmpty then
            appendDnsRoutingRules (domainSelectors (get_direct_sites p)) "dns-direct".toList disableIPv6
          else [] := rfl
      rw [hdeps]
      cases get_direct_sites p with
      | nil => rfl
      | cons site sites => rw [isEmpty_cons, Bool.not_false, if_pos rfl]
    rw [hrules, appendDnsRoutingRules_items hx]
    simp only [domainSelectors, mem_append, mem_map]
    constructor
    · intro h
      refine ⟨trivial, ?_⟩
      rcases h with ⟨value, h, rfl⟩ | ⟨value, h, rfl⟩ | ⟨value, h, rfl⟩ | ⟨value, h, rfl⟩ |
        ⟨value, h, rfl⟩
      · exact (hset value).1 h
      · exact (hdomain value).1 h
      · exact (hsuffix value).1 h
      · exact (hkeyword value).1 h
      · exact (hregex value).1 h
    · rintro ⟨-, hx⟩
      obtain ⟨rule, hrule, hdirect, hmem⟩ := id hx
      obtain ⟨k, hk, hitem⟩ := mem_flatMap.1 hmem
      obtain ⟨value, -, rfl⟩ := mem_map.1 hitem
      simp only [siteKinds, mem_cons, not_mem_nil, or_false] at hk
      rcases hk with rfl | rfl | rfl | rfl | rfl
      · exact .inl ⟨value, (hset value).2 hx, rfl⟩
      · exact .inr (.inl ⟨value, (hdomain value).2 hx, rfl⟩)
      · exact .inr (.inr (.inl ⟨value, (hsuffix value).2 hx, rfl⟩))
      · exact .inr (.inr (.inr (.inl ⟨value, (hkeyword value).2 hx, rfl⟩)))
      · exact .inr (.inr (.inr (.inr ⟨value, (hregex value).2 hx, rfl⟩)))

/-! ## The shortcuts and the rules -/

/-- The condition of `shortcuts_iff`: of the direct rules that hand on a selector, one is not inverted and
asks of a connection nothing but the selector or an alternative to it. It is asked of ranges only where they
are kept out of the tunnel, and of sites only where they have DNS rules. -/
structure PlainRules (others : Text → Bool) (ruleSetName : Text → Text) (net : Addresses)
    (os : OSType) (settings : TunSettings) (enable_dns_routing : Bool) (p : RouteProfile) : Prop where
  ips : settings.spmode_vpn = true → settings.enable_tun_routing = true → ∀ x, HandedOn "geoip-".toList ipKinds p x →
      (x.1 = "ip_cidr".toList → exclusionsOf net os settings x.2 ≠ []) → HasPlainRule others ruleSetName "geoip-".toList ipKinds p x
  sites : enable_dns_routing = true → ∀ x, HandedOn "geosite-".toList siteKinds p x → HasPlainRule others ruleSetName "geosite-".toList siteKinds p x

theorem directSets_iff {net : Addresses} {os : OSType} {settings : TunSettings} : value ∈ directSets net os settings p ↔
    settings.spmode_vpn = true ∧ settings.enable_tun_routing = true ∧ HandedOn "geoip-".toList ipKinds p ("rule_set".toList, value) := by
  have hmem := handedOn_iff value ipKinds_apart ipKinds_keys (show (ListAttr.rule_set, "ruleset:".toList) ∈ ipKinds by decide)
    fun _ => mem_get_direct_ips (p := p)
  rw [directSets, ← and_assoc, ← Bool.and_eq_true]
  split
  · next hon =>
    rw [hon]
    exact hmem.trans (and_iff_right rfl).symm
  · next hoff => simp [hoff]

theorem directRanges_iff {net : Addresses} {os : OSType} {settings : TunSettings} :
    value ∈ directRanges net os settings p ↔ settings.spmode_vpn = true ∧ settings.enable_tun_routing = true ∧
    HandedOn "geoip-".toList ipKinds p ("ip_cidr".toList, value) ∧ exclusionsOf net os settings value ≠ [] := by
  have hmem := handedOn_iff value ipKinds_apart ipKinds_keys (show (ListAttr.ip_cidr, "ip:".toList) ∈ ipKinds by decide)
    fun _ => mem_get_direct_ips (p := p)
  have hset : (!(exclusionsOf net os settings value).isEmpty) = true ↔ exclusionsOf net os settings value ≠ [] := by simp
  rw [directRanges, ← and_assoc, ← Bool.and_eq_true]
  split
  · next hon =>
    rw [hon, mem_filter, hset]
    exact (and_congr_left fun _ => hmem).trans (and_iff_right rfl).symm
  · next hoff => simp [hoff]

/-- Nothing the direct rules are a shortcut for exceeds them, exactly when every selector has a direct
rule that asks for nothing but the selector or an alternative to it. -/
theorem shortcuts_iff (others : Text → Bool) (v : Validation) (ruleSetName : Text → Text)
    (net : Addresses) (os : OSType) (settings : TunSettings) (enable_dns_routing direct_dns_disable_ipv6 : Bool) (p : RouteProfile) :
    ShortcutsWithin others v ruleSetName net os settings enable_dns_routing direct_dns_disable_ipv6 p ↔
    PlainRules others ruleSetName net os settings enable_dns_routing p := by
  constructor
  · rintro ⟨hranges, hsets, hsites⟩
    refine ⟨fun hvpn htun x hx hrange => ?_, fun hdns x hx => ?_⟩
    · obtain ⟨rule, hrule, hdirect, hmem⟩ := id hx
      obtain ⟨k, hk, hitem⟩ := mem_flatMap.1 hmem
      obtain ⟨value, -, rfl⟩ := mem_map.1 hitem
      apply (vouched_iff (v := v) conditionKinds_ips).1
      simp only [ipKinds, mem_cons, not_mem_nil, or_false] at hk
      rcases hk with rfl | rfl
      · exact hsets value (directSets_iff.2 ⟨hvpn, htun, hx⟩)
      · exact hranges value (directRanges_iff.2 ⟨hvpn, htun, hx, hrange rfl⟩)
    · have hkey : x.1 ≠ "query_type".toList := by
        obtain ⟨rule, -, -, hmem⟩ := id hx
        obtain ⟨k, hk, hitem⟩ := mem_flatMap.1 hmem
        obtain ⟨value, -, rfl⟩ := mem_map.1 hitem
        have hkeys : ∀ k ∈ siteKinds, k.1.key ≠ "query_type".toList := by decide
        exact hkeys k hk
      obtain ⟨rule, hrule, hitem⟩ := (directDnsRules_items direct_dns_disable_ipv6 hkey).2 ⟨hdns, hx⟩
      exact (vouched_iff conditionKinds_sites).1 (hsites rule hrule x hitem hkey)
  · rintro ⟨hips, hsites⟩
    refine ⟨fun item hitem => ?_, fun item hitem => ?_, fun rule hrule x hitem hkey => ?_⟩
    · obtain ⟨hvpn, htun, hhanded, hrange⟩ := directRanges_iff.1 hitem
      exact (vouched_iff conditionKinds_ips).2 (hips hvpn htun _ hhanded fun _ => hrange)
    · obtain ⟨hvpn, htun, hhanded⟩ := directSets_iff.1 hitem
      refine (vouched_iff conditionKinds_ips).2 (hips hvpn htun _ hhanded fun hkey => ?_)
      exact absurd hkey (by change "rule_set".toList ≠ "ip_cidr".toList; decide)
    · obtain ⟨hdns, hhanded⟩ := (directDnsRules_items _ hkey).1 ⟨rule, hrule, hitem⟩
      exact (vouched_iff conditionKinds_sites).2 (hsites hdns x hhanded)

theorem routed_tunIPv6 : namesIPv6 "fdfe:dcba:9876::1/96".toList = true := by decide

/-- A tunnel that leaves direct ranges out. -/
def routedTunnel : TunSettings where
  spmode_vpn := true
  vpn_ipv6 := false
  vpn_mtu := 1420
  vpn_strict_route := true
  vpn_auto_redirect := true
  vpn_tun_ipv4_cidr := "172.19.0.1/24".toList
  vpn_tun_ipv6_cidr := "fdfe:dcba:9876::1/96".toList
  vpn_private_ranges := ["192.168.0.0/16".toList]
  disable_private_range_bypass := false
  enable_tun_routing := true
  adblock_enable := false
  tunIPv6 := routed_tunIPv6

/-- A range that one program reaches directly. -/
def programProfile : RouteProfile where
  __ := RouteProfile.default
  Rules := [{ RouteRule.default with
    lists
      | .ip_cidr => ["203.0.113.0/24".toList]
      | .process_name => ["curl".toList]
      | _ => [] }]

/-- The range is left out of the tunnel for every program. -/
theorem shortcuts_exceed : ¬ShortcutsWithin (fun _ => false) plainChecks id
      { isIPv6 := fun _ => false, parseSubnet := fun _ => none, addressText := fun _ _ => [] } .Linux
      routedTunnel true false programProfile := by
  intro h
  obtain ⟨rule, hrule, -, -, hall⟩ := h.ranges "203.0.113.0/24".toList (by decide)
  have hmatches := hall (fun x => x == ("ip_cidr".toList, "203.0.113.0/24".toList)) (by decide)
  rw [mem_singleton.1 hrule] at hmatches
  exact absurd hmatches (by decide)

end Throne.Configs
