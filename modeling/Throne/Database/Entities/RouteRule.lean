import Mathlib.Data.Fintype.Pi
import Throne.Lib.Texts

/-!
# Routing rules

`RouteRule` of `src/include/database/entities/RouteRule.h`. Its forty attributes are of three kinds,
lists of texts, single texts and switches, and nearly everything the source does with them it does
kind by kind. So an attribute is a value of `ListAttr`, `TextAttr` or `FlagAttr`, named as in
`RouteRule::get_attributes`, and a rule keeps one function for each kind. What only the window reads
(`uiVisibleAttributes` and the two beside it) is left out.
-/

namespace Throne.Database.Routes

open Lib.Texts

/-! ## Ids -/

def INVALID_ID : Int := -99999
def proxyID : Int := -1
def directID : Int := -2
def blockID : Int := -3
/-- The outbound `get_rule_json` turns into the action `hijack-dns`. -/
def dnsOutID : Int := -4
def warpBypassID : Int := -5

/-! ## Kinds of rules and of attributes -/

/-- `ruleType`. -/
inductive RuleType where
  | custom
  | simpleAddressProxy | simpleAddressBypass | simpleAddressBlock
  | simpleProcessNameProxy | simpleProcessNameBypass | simpleProcessNameBlock
  | simpleProcessPathProxy | simpleProcessPathBypass | simpleProcessPathBlock
  | simpleAddressWarpBypass | simpleProcessNameWarpBypass | simpleProcessPathWarpBypass
  | endpointPreferredBy
  deriving DecidableEq

/-- The attributes that are lists of texts. -/
inductive ListAttr where
  | inbound | domain | domain_suffix | domain_keyword | domain_regex | source_ip_cidr | ip_cidr
  | source_port | source_port_range | port | port_range
  | process_name | process_path | process_path_regex | package_name | wifi_ssid | wifi_bssid
  | rule_set | sniffers
  deriving DecidableEq

/-- The attributes that are one text. -/
inductive TextAttr where
  | ip_version | network | protocol | action | method | override_address | override_port
  | tls_fragment_fallback_delay | tls_spoof | tls_spoof_method | strategy
  deriving DecidableEq

/-- The attributes that are on or off. -/
inductive FlagAttr where
  | source_ip_is_private | ip_is_private | invert | no_drop | tls_fragment | tls_record_fragment
  | override_destination
  deriving DecidableEq

instance : Fintype ListAttr :=
  ⟨{.inbound, .domain, .domain_suffix, .domain_keyword, .domain_regex, .source_ip_cidr, .ip_cidr,
    .source_port, .source_port_range, .port, .port_range, .process_name, .process_path,
    .process_path_regex, .package_name, .wifi_ssid, .wifi_bssid, .rule_set, .sniffers},
    fun a => by cases a <;> decide⟩

instance : Fintype TextAttr :=
  ⟨{.ip_version, .network, .protocol, .action, .method, .override_address, .override_port,
    .tls_fragment_fallback_delay, .tls_spoof, .tls_spoof_method, .strategy},
    fun a => by cases a <;> decide⟩

instance : Fintype FlagAttr :=
  ⟨{.source_ip_is_private, .ip_is_private, .invert, .no_drop, .tls_fragment, .tls_record_fragment, .override_destination},
    fun a => by cases a <;> decide⟩

/-- `RouteRule`. -/
structure RouteRule where
  name : Text
  type : RuleType
  disabled : Bool
  lists : ListAttr → List Text
  texts : TextAttr → Text
  flags : FlagAttr → Bool
  outboundID : Int

/-- `RouteRule()`: nothing set, a direct route. -/
def RouteRule.default : RouteRule where
  name := []
  type := .custom
  disabled := false
  lists _ := []
  texts
    | .action => "route".toList
    | _ => []
  flags _ := false
  outboundID := directID

end Throne.Database.Routes
