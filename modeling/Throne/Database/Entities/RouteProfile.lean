import Throne.Database.Entities.RouteRule

/-!
# Routing profiles

`RouteProfile` of `src/include/database/entities/RouteProfile.h`, with the DNS settings a profile may
have of its own, and `SyncEndpointRules`, which keeps one rule for each endpoint.
-/

namespace Throne.Database.Routes

open Lib.Texts

/-- `RouteDns`. -/
structure RouteDns where
  remote_dns : Text
  remote_dns_disable_ipv6 : Bool
  direct_dns : Text
  direct_dns_disable_ipv6 : Bool
  dns_final_out : Text
  enable_dns_routing : Bool
  fake_dns : Bool
  fakeip_disable_ipv6 : Bool
  deriving DecidableEq

/-- `RouteProfile`. -/
structure RouteProfile where
  id : Int
  name : Text
  Rules : List RouteRule
  defaultOutboundID : Int
  isRaw : Bool
  rawRoute : Text
  preventModifications : Bool
  isRemote : Bool
  remoteURL : Text
  autoUpdate : Bool
  remoteLastUpdate : Int
  source_gid : Int
  endpointProfileIDs : List Int
  innerHopEndpointIDs : List Int
  customDns : Bool
  dns : Option RouteDns

/-- `RouteProfile()`. -/
def RouteProfile.default : RouteProfile where
  id := -1
  name := []
  Rules := []
  defaultOutboundID := proxyID
  isRaw := false
  rawRoute := []
  preventModifications := false
  isRemote := false
  remoteURL := []
  autoUpdate := false
  remoteLastUpdate := 0
  source_gid := -1
  endpointProfileIDs := []
  innerHopEndpointIDs := []
  customDns := false
  dns := none

/-- `GetDefaultChain`. -/
def RouteProfile.GetDefaultChain : RouteProfile where
  __ := RouteProfile.default
  name := "Default".toList
  Rules := [{ RouteRule.default with
    name := "Route DNS".toList
    texts
      | .action => "hijack-dns".toList
      | .protocol => "dns".toList
      | _ => [] }]

/-- What the routing profiles ask of the server profiles for their endpoints: the inner hops of a
chain (`AuxEndpointInnerHops`) and the name a profile is displayed with, while it exists. -/
structure Servers where
  innerHops : Int → List Int
  displayName : Int → Option Text

/-- `endpointRuleTargets`: each endpoint once, followed by its inner hops where they are opened. -/
def RouteProfile.endpointRuleTargets (p : RouteProfile) (servers : Servers) : List Int :=
  p.endpointProfileIDs.foldl (fun targets id =>
      if targets.contains id then targets
      else if p.innerHopEndpointIDs.contains id then
        (servers.innerHops id).foldl (fun targets hopID => if targets.contains hopID then targets else targets ++ [hopID])
          (targets ++ [id])
      else targets ++ [id])
    []

/-- `MakeEndpointRule`. -/
def MakeEndpointRule (servers : Servers) (endpointProfileID : Int) : RouteRule where
  __ := RouteRule.default
  type := .endpointPreferredBy
  outboundID := endpointProfileID
  name :=
    match servers.displayName endpointProfileID with
    | some display => display ++ " route prefer".toList
    | none => "Endpoint".toList

/-- The loop of `SyncEndpointRules` over the rules: the rules kept and the endpoints that have
theirs. -/
def keepPaired (targets : List Int) : List RouteRule → List Int → List RouteRule × List Int
  | [], paired => ([], paired)
  | rule :: rules, paired =>
    if rule.type = .endpointPreferredBy then
      if !targets.contains rule.outboundID || paired.contains rule.outboundID then
        keepPaired targets rules paired
      else
        let (kept, paired) := keepPaired targets rules (rule.outboundID :: paired)
        (rule :: kept, paired)
    else
      let (kept, paired) := keepPaired targets rules paired
      (rule :: kept, paired)

/-- `SyncEndpointRules`: one rule for each target; what has no target goes, what is missing comes
last. -/
def RouteProfile.SyncEndpointRules (p : RouteProfile) (servers : Servers) : RouteProfile :=
  if p.isRaw then p
  else
    let targets := p.endpointRuleTargets servers
    let (kept, paired) := keepPaired targets p.Rules []
    { p with
      Rules := kept ++ (targets.filter fun id => !paired.contains id).map (MakeEndpointRule servers) }

end Throne.Database.Routes
