import Throne.Database.Entities.RouteProfile
import Throne.Configs.TunIPv6Policy

/-!
# The tunnel in the generated config

What `src/src/configs/generate.cpp` keeps out of the tunnel, and where that ends up in the config: the
ranges of `calculatePrerequisites`, the tun inbound of `buildInboundSection`, the rule sets of
`buildRuleSetArray` and the route section around them, put together by `BuildSingBoxConfig`. The parts
of the config that say nothing of the tunnel (the hops and bridges, the DNS section, the route rules)
come in whole, as `Sections`; where one of them fails there is no config.

Qt reads the addresses (`Addresses`), and JSON texts are taken as parsed.
-/

namespace Throne.Configs

open Lib.Texts Lib.Json Database.Routes

/-! ## Addresses -/

/-- An IP prefix: the address as a number, and how many bits of it count. -/
structure Subnet where
  v6 : Bool
  addr : Nat
  bits : Nat

/-- The length of the address. -/
def Subnet.width (p : Subnet) : Nat := if p.v6 then 128 else 32

/-- What is asked of `QHostAddress`: whether a text is an IPv6 address, `parseSubnet` and `toString`. -/
structure Addresses where
  isIPv6 : Text → Bool
  parseSubnet : Text → Option Subnet
  addressText : Bool → Nat → Text

/-- `isCanonicalDecimal`. -/
def isCanonicalDecimal (text : Text) (maxDigits : Nat) : Bool :=
  !text.isEmpty && decide (text.length ≤ maxDigits) && !(decide (1 < text.length) && text.head? == some '0') && text.all Char.isDigit

/-- `isCanonicalIPv4`. -/
def isCanonicalIPv4 (text : Text) : Bool :=
  let octets := text.splitOn '.'
  octets.length == 4 && octets.all fun octet =>
    isCanonicalDecimal octet 3 && decide (decimalValue octet ≤ 255)

/-- `isIPv6Literal`. -/
def isIPv6Literal (net : Addresses) (text : Text) (allowZone : Bool) : Bool :=
  text.contains ':' && (allowZone || !text.contains '%') && net.isIPv6 text

/-- `routeExcludePrefix`: a bare address gets its full length; empty when unparsable. -/
def routeExcludePrefix (net : Addresses) (range : Text) : Text :=
  let text := trimmed range
  let addr := text.takeWhile (· != '/')
  let maxBits :=
    if isCanonicalIPv4 addr then some 32
    else if isIPv6Literal net addr false then some 128
    else none
  match maxBits with
  | none => []
  | some maxBits =>
    if text.contains '/' then
      let bits := (text.dropWhile (· != '/')).drop 1
      if isCanonicalDecimal bits 3 && decide (decimalValue bits ≤ maxBits) then text else []
    else addr ++ "/".toList ++ natText maxBits

/-- `prefixContains`. -/
def prefixContains (outer inner : Subnet) : Bool :=
  outer.v6 == inner.v6 && decide (outer.bits ≤ inner.bits) && outer.addr >>> (outer.width - outer.bits) == inner.addr >>> (inner.width - outer.bits)

/-- `prefixesOverlap`. -/
def prefixesOverlap (net : Addresses) (lhs rhs : Text) : Bool :=
  match net.parseSubnet lhs, net.parseSubnet rhs with
  | some a, some b => if a.bits ≤ b.bits then prefixContains a b else prefixContains b a
  | _, _ => false

/-- `prefixToString`. -/
def prefixToString (net : Addresses) (p : Subnet) : Text := net.addressText p.v6 p.addr ++ "/".toList ++ natText p.bits

/-- The half of a prefix of one bit less that does not lead to `cut`. -/
def sibling (cut : Subnet) (bits : Nat) : Subnet :=
  { cut with
    bits := bits
    addr := ((cut.addr >>> (cut.width - bits)) ^^^ 1) <<< (cut.width - bits) }

/-- `subtractPrefix`. -/
def subtractPrefix (net : Addresses) (ranges : List Text) (hole : Text) : List Text :=
  match net.parseSubnet hole with
  | none => ranges
  | some cut =>
    ranges.flatMap fun entry =>
      match net.parseSubnet entry with
      | none => [entry]
      | some range =>
        if prefixContains cut range then []
        else if prefixContains range cut then
          ((List.range (cut.bits - range.bits)).map fun i =>
            prefixToString net (sibling cut (range.bits + 1 + i)))
        else [entry]

/-! ## What is kept out -/

/-- `getOS()`. -/
inductive OSType where
  | Unknown
  | Linux
  | Windows
  | Darwin
  deriving DecidableEq

/-- The core reads a prefix with a colon as an IPv6 one. -/
def namesIPv6 (text : Text) : Bool := text.contains ':'

/-- The settings of the tunnel. The registry and the dialog take only an IPv6 prefix for its IPv6
address. -/
structure TunSettings where
  spmode_vpn : Bool
  vpn_ipv6 : Bool
  vpn_mtu : Int
  vpn_strict_route : Bool
  vpn_auto_redirect : Bool
  vpn_tun_ipv4_cidr : Text
  vpn_tun_ipv6_cidr : Text
  vpn_private_ranges : List Text
  disable_private_range_bypass : Bool
  enable_tun_routing : Bool
  adblock_enable : Bool
  tunIPv6 : namesIPv6 vpn_tun_ipv6_cidr = true

def kTunMinIPv6Mtu : Int := 1280

/-- `get_direct_ips`. -/
def get_direct_ips (p : RouteProfile) : List Text :=
  p.Rules.flatMap fun rule =>
    if !rule.disabled && rule.outboundID == directID && rule.texts .action == "route".toList then
      ((rule.lists .rule_set).filter fun rset => "geoip-".toList.isPrefixOf rset).map (fun rset => "ruleset:".toList ++ rset) ++
        (rule.lists .ip_cidr).map fun cidr => "ip:".toList ++ cidr
    else []

/-- `get_hijacked_ips`. -/
def get_hijacked_ips (p : RouteProfile) (settings : TunSettings) : List Text :=
  p.Rules.flatMap fun rule =>
    let action := rule.texts .action
    if rule.disabled || (action == "route".toList && rule.outboundID == directID) then []
    else if action != "route".toList && action != "reject".toList then []
    else
      (if rule.flags .ip_is_private then settings.vpn_private_ranges else []) ++
        rule.lists .ip_cidr

/-- What `parseSelectorList` puts into the sink of one kind. No kind's prefix begins another's. -/
def selected (kind : Text) (items : List Text) : List Text :=
  items.filterMap fun raw =>
    let item := trimmed raw
    if kind.isPrefixOf item then
      let value := trimmed (item.drop kind.length)
      if value.isEmpty then none else some value
    else none

/-- `TunDeps`. -/
structure TunDeps where
  directIPSets : List Text
  directIPCIDRs : List Text
  bypassedPrivateRanges : List Text
  privateRangesAsRuleSet : Bool

/-- The private ranges kept out: the valid ones no rule sends elsewhere than to a direct exit. -/
def bypassedPrivateRanges (net : Addresses) (settings : TunSettings) (routeChain : RouteProfile) : List Text :=
  (settings.vpn_private_ranges.map (routeExcludePrefix net)).filter fun range =>
    !range.isEmpty && !(get_hijacked_ips routeChain settings).any fun cidr => prefixesOverlap net range cidr

/-- The part of `calculatePrerequisites` about the tunnel. -/
def tunDeps (net : Addresses) (os : OSType) (settings : TunSettings) (routeChain : RouteProfile) :
    TunDeps :=
  let ranges :=
    if settings.disable_private_range_bypass then []
    else bypassedPrivateRanges net settings routeChain
  { directIPSets := selected "ruleset:".toList (get_direct_ips routeChain)
    directIPCIDRs := selected "ip:".toList (get_direct_ips routeChain)
    bypassedPrivateRanges := ranges
    privateRangesAsRuleSet :=
      !settings.disable_private_range_bypass && settings.spmode_vpn && os == .Linux && settings.vpn_auto_redirect && !ranges.isEmpty &&
        !(routeChain.isRaw && routeChain.preventModifications) }

/-! ## Tags -/

def proxyTag : Text := "proxy".toList
def tunIn : Text := "tun-in".toList
def dnsSystem : Text := "dns-system".toList
def dnsIn : Text := "dns-in".toList
def mixedIn : Text := "mixed-in".toList
def adblockRuleSet : Text := "throne-adblocksingbox".toList
def privateRangesRuleSet : Text := "throne-private-ranges".toList

/-! ## The tun inbound -/

/-- A bare IPv6 address without its zone. -/
def withoutZone (text : Text) : Text :=
  let zone := text.takeWhile (· != '%')
  if text.contains '%' && zone.contains ':' && !text.contains '/' then zone else text

/-- `tunCarriesIPv6`. -/
def tunCarriesIPv6 (settings : TunSettings) : Bool := decide (kTunMinIPv6Mtu ≤ max settings.vpn_mtu kTunMinIPv6Mtu)

/-- What is left of a range once the tunnel's own subnets and, where IPv6 is refused, IPv6 are taken
out. -/
def leftOut (net : Addresses) (os : OSType) (settings : TunSettings) (ranges : List Text) : List Text :=
  let ranges :=
    if os = .Darwin then
      let ranges := subtractPrefix net ranges settings.vpn_tun_ipv4_cidr
      if tunCarriesIPv6 settings then subtractPrefix net ranges settings.vpn_tun_ipv6_cidr else ranges
    else ranges
  if tunCarriesIPv6 settings && !settings.vpn_ipv6 then ranges.filter fun range => !range.contains ':'
  else ranges

/-- The ranges of `route_exclude_address` that come from the user's settings and rules. -/
def excludedRanges (net : Addresses) (os : OSType) (settings : TunSettings) (tun : TunDeps) : List Text :=
  let ranges :=
    if settings.disable_private_range_bypass || tun.privateRangesAsRuleSet then []
    else tun.bypassedPrivateRanges
  let ranges :=
    if settings.enable_tun_routing then
      ranges ++ (tun.directIPCIDRs.map fun item =>
        routeExcludePrefix net (withoutZone (trimmed item))).filter fun range => !range.isEmpty
    else ranges
  leftOut net os settings ranges

/-- `route_exclude_address`. -/
def routeExcludeAddrs (net : Addresses) (os : OSType) (settings : TunSettings) (tun : TunDeps) : List Text :=
  (if settings.disable_private_range_bypass then []
    else ["127.0.0.0/8".toList, "255.255.255.255/32".toList]) ++
  excludedRanges net os settings tun ++
  (if os = .Linux ∧ settings.vpn_strict_route ∧ tunCarriesIPv6 settings = false then
    ["::1/128".toList]
  else [])

/-- `route_exclude_address_set`. -/
def routeExcludeSets (settings : TunSettings) (tun : TunDeps) : List Text :=
  (if tun.privateRangesAsRuleSet then [privateRangesRuleSet] else []) ++
  (if settings.enable_tun_routing then tun.directIPSets else [])

/-- Texts as a JSON array. -/
def textArray (texts : List Text) : Json := .array (texts.map .text)

/-- The tun inbound up to its addresses. -/
def tunObject (os : OSType) (settings : TunSettings) : Fields :=
  let inboundObj : Fields :=
    [("tag".toList, .text tunIn), ("type".toList, .text "tun".toList),
      ("interface_name".toList, .text (if os = .Darwin then [] else "throne-tun".toList)),
      ("auto_route".toList, .bool true),
      ("mtu".toList, .int (max settings.vpn_mtu kTunMinIPv6Mtu)),
      ("strict_route".toList, .bool settings.vpn_strict_route)]
  if os = .Linux ∧ settings.vpn_auto_redirect then
    Fields.put "auto_redirect".toList (.bool true) inboundObj
  else inboundObj

/-- The tun inbound of `buildInboundSection`. -/
def tunInbound (net : Addresses) (os : OSType) (settings : TunSettings) (tun : TunDeps) : Fields :=
  let inboundObj := Fields.put "address".toList (textArray (settings.vpn_tun_ipv4_cidr ::
      if tunCarriesIPv6 settings then [settings.vpn_tun_ipv6_cidr] else []))
    (tunObject os settings)
  let inboundObj := Fields.put "route_exclude_address".toList (textArray (routeExcludeAddrs net os settings tun)) inboundObj
  if (routeExcludeSets settings tun).isEmpty then inboundObj
  else
    Fields.put "route_exclude_address_set".toList (textArray (routeExcludeSets settings tun)) inboundObj

/-! ## The rest of the config -/

/-- The parts of a config that the other sections' builders make: what stands before the inbounds, the
fields of the two local inbounds after their tag and type, the user's own inbounds and the bridges
behind the generated ones, the DNS section, the route rules with the rules for auxiliary endpoints, the
fields of the route section after its rule sets, and what comes last. -/
structure Sections where
  before : Fields
  mixed : Option Fields
  dnsInFields : Fields
  custom_inbound : List Json
  bridges : List Json
  dns : Fields
  rules : List Json
  auxRules : List Json
  routeOptions : Fields
  outboundMap : Int → Option Text
  ruleSetSource : Text → Option (Text × Text)
  adblockUrl : Text
  experimental : Fields
  services : Option Json

/-- The other inbounds of `buildInboundSection`, in front of the tunnel's. -/
def localInbounds (os : OSType) (settings : TunSettings) (sections : Sections) : List Json :=
  (if os = .Darwin ∧ settings.spmode_vpn then
    [.object [("tag".toList, .text dnsSystem), ("type".toList, .text "direct".toList),
      ("listen".toList, .text "127.0.0.53".toList), ("listen_port".toList, .int 53),
      ("reuse_addr".toList, .bool true)]]
  else []) ++
  [.object (("tag".toList, .text dnsIn) :: ("type".toList, .text "direct".toList) :: sections.dnsInFields)] ++
  (sections.mixed.toList.map fun fields =>
    .object (("tag".toList, .text mixedIn) :: ("type".toList, .text "mixed".toList) :: fields))

/-- The inbounds after `buildInboundSection` and `buildOutboundsSection`. -/
def inbounds (net : Addresses) (os : OSType) (settings : TunSettings) (tun : TunDeps) (sections : Sections) : List Json :=
  localInbounds os settings sections ++
  (if settings.spmode_vpn then [.object (tunInbound net os settings tun)] else []) ++
  sections.custom_inbound ++ sections.bridges

/-- A rule set the core downloads. -/
def remoteRuleSet (tag url : Text) : Json :=
  .object [("type".toList, .text "remote".toList), ("tag".toList, .text tag), ("format".toList, .text "binary".toList), ("url".toList, .text url)]

/-- The private ranges as a rule set of the config's own. -/
def privateRuleSet (ranges : List Text) : Json :=
  .object [("type".toList, .text "inline".toList), ("tag".toList, .text privateRangesRuleSet),
    ("rules".toList, .array [.object [("ip_cidr".toList, textArray ranges)]])]

/-- `get_used_rule_sets`, each once. -/
def neededRuleSets (routeChain : RouteProfile) : List Text :=
  (routeChain.Rules.flatMap fun rule =>
    if rule.disabled then [] else rule.lists .rule_set).reverse.dedup.reverse

/-- `buildRuleSetArray`. -/
def buildRuleSetArray (settings : TunSettings) (tun : TunDeps) (routeChain : RouteProfile) (sections : Sections) : List Json :=
  ((neededRuleSets routeChain).filterMap fun item =>
    (sections.ruleSetSource item).map fun source => remoteRuleSet source.1 source.2) ++
  (if settings.adblock_enable then [remoteRuleSet adblockRuleSet sections.adblockUrl] else []) ++
  (if tun.privateRangesAsRuleSet then [privateRuleSet tun.bypassedPrivateRanges] else [])

mutual

/-- `translateRawOutboundsRec`: the ids of a raw route become tags. -/
def translateRawOutbounds (outboundMap : Int → Option Text) : Json → Json
  | .object fields => .object (translateRawFields outboundMap fields)
  | .array items => .array (translateRawItems outboundMap items)
  | value => value

def translateRawFields (outboundMap : Int → Option Text) : List (Text × Json) → List (Text × Json)
  | [] => []
  | (key, value) :: fields =>
    (key,
      match value with
      | .int id =>
        if key = "outbound".toList ∨ key = "final".toList then
          .text ((outboundMap id).getD proxyTag)
        else .int id
      | value => translateRawOutbounds outboundMap value) :: translateRawFields outboundMap fields

def translateRawItems (outboundMap : Int → Option Text) : List Json → List Json
  | [] => []
  | item :: items => translateRawOutbounds outboundMap item :: translateRawItems outboundMap items

end

/-- `buildRouteSection`, from the raw route as parsed; no config without one. -/
def buildRouteSection (settings : TunSettings) (tun : TunDeps) (routeChain : RouteProfile)
    (rawRoute : Fields) (sections : Sections) : Option Fields :=
  if routeChain.isRaw && rawRoute.isEmpty then none
  else
    let rawRouteObj := translateRawFields sections.outboundMap rawRoute
    if routeChain.isRaw && routeChain.preventModifications then
      if sections.auxRules.isEmpty then some rawRouteObj
      else
        some (Fields.put "rules".toList (.array (Fields.arrayAt rawRouteObj "rules".toList ++ sections.auxRules)) rawRouteObj)
    else
      let ruleSetArray := buildRuleSetArray settings tun routeChain sections ++
        (if routeChain.isRaw then Fields.arrayAt rawRouteObj "rule_set".toList else [])
      let route := if routeChain.isRaw then rawRouteObj else []
      let route := Fields.put "rules".toList (.array sections.rules) route
      some (Fields.put "rule_set".toList (.array ruleSetArray) route ++ sections.routeOptions)

/-- What is started: a custom profile that is a whole config of its own, or one that a config is
generated for. -/
inductive Started where
  | customFullConfig (object : Fields)
  | generated

/-- Everything `BuildSingBoxConfig` reads. -/
structure Build where
  net : Addresses
  os : OSType
  settings : TunSettings
  started : Started
  routeChain : RouteProfile
  rawRoute : Fields
  sections : Sections

/-- The prerequisites of a build. -/
def Build.tun (b : Build) : TunDeps := tunDeps b.net b.os b.settings b.routeChain

/-- The generated sections, before the policy. -/
def Build.generated (b : Build) : Option Fields :=
  (buildRouteSection b.settings b.tun b.routeChain b.rawRoute b.sections).map fun route =>
    Fields.put "route".toList (.object route) (Fields.put "dns".toList (.object b.sections.dns)
        (Fields.put "inbounds".toList (.array (inbounds b.net b.os b.settings b.tun b.sections)) b.sections.before))

/-- The sections that come after the policy. -/
def Build.finish (b : Build) (config : Fields) : Fields :=
  let config := Fields.put "experimental".toList (.object b.sections.experimental) config
  match b.sections.services with
  | some services => Fields.put "services".toList services config
  | none => config

/-- `BuildSingBoxConfig`: the config, and what it is without `ApplyTunIPv6Policy`. -/
def BuildSingBoxConfig (b : Build) : Option (Fields × Fields) :=
  match b.started with
  | .customFullConfig object => some (object, object)
  | .generated =>
    b.generated.map fun config =>
      if b.settings.spmode_vpn && !b.settings.vpn_ipv6 then
        (b.finish config, b.finish (ApplyTunIPv6Policy config tunIn dnsSystem))
      else (b.finish config, b.finish config)

end Throne.Configs
