import Throne.Database.Entities.RouteRule
import Throne.Lib.Json

/-!
# Routing rules as JSON

The two directions between a `RouteRule` and JSON: `get_rule_json` of
`src/src/database/entities/RouteRule.cpp`, which the core reads, and `parse_rule_object` of
`RouteProfile.cpp`, which imports a rule and repairs it with the errors `validate` finds. Warnings are
texts beside the result and are left out; an error is kept by the attribute and the item it names.

The checks of single values that are a grammar of their own come from `Validation`, and what is asked
of the server profiles from `Outbounds`.
-/

namespace Throne.Database.Routes

open Lib.Texts Lib.Json

/-! ## Attributes and their keys -/

/-- An attribute of a rule. -/
inductive Attr where
  | list (a : ListAttr)
  | text (a : TextAttr)
  | flag (a : FlagAttr)
  | outbound
  deriving DecidableEq

def ListAttr.key : ListAttr → Text
  | .inbound => "inbound".toList
  | .domain => "domain".toList
  | .domain_suffix => "domain_suffix".toList
  | .domain_keyword => "domain_keyword".toList
  | .domain_regex => "domain_regex".toList
  | .source_ip_cidr => "source_ip_cidr".toList
  | .ip_cidr => "ip_cidr".toList
  | .source_port => "source_port".toList
  | .source_port_range => "source_port_range".toList
  | .port => "port".toList
  | .port_range => "port_range".toList
  | .process_name => "process_name".toList
  | .process_path => "process_path".toList
  | .process_path_regex => "process_path_regex".toList
  | .package_name => "package_name".toList
  | .wifi_ssid => "wifi_ssid".toList
  | .wifi_bssid => "wifi_bssid".toList
  | .rule_set => "rule_set".toList
  | .sniffers => "sniffers".toList

def TextAttr.key : TextAttr → Text
  | .ip_version => "ip_version".toList
  | .network => "network".toList
  | .protocol => "protocol".toList
  | .action => "action".toList
  | .method => "method".toList
  | .override_address => "override_address".toList
  | .override_port => "override_port".toList
  | .tls_fragment_fallback_delay => "tls_fragment_fallback_delay".toList
  | .tls_spoof => "tls_spoof".toList
  | .tls_spoof_method => "tls_spoof_method".toList
  | .strategy => "strategy".toList

def FlagAttr.key : FlagAttr → Text
  | .source_ip_is_private => "source_ip_is_private".toList
  | .ip_is_private => "ip_is_private".toList
  | .invert => "invert".toList
  | .no_drop => "no_drop".toList
  | .tls_fragment => "tls_fragment".toList
  | .tls_record_fragment => "tls_record_fragment".toList
  | .override_destination => "override_destination".toList

def Attr.key : Attr → Text
  | .list a => a.key
  | .text a => a.key
  | .flag a => a.key
  | .outbound => "outbound".toList

/-- `get_attributes`, before what a platform leaves out. -/
def attributes : List Attr :=
  [.text .ip_version, .text .network, .text .protocol, .list .inbound, .list .domain,
    .list .domain_suffix, .list .domain_keyword, .list .domain_regex, .list .source_ip_cidr,
    .flag .source_ip_is_private, .list .ip_cidr, .flag .ip_is_private, .list .source_port,
    .list .source_port_range, .list .port, .list .port_range, .list .process_name,
    .list .process_path, .list .process_path_regex, .list .package_name, .list .wifi_ssid,
    .list .wifi_bssid, .list .rule_set, .flag .invert, .text .action, .outbound,
    .text .override_address, .text .override_port, .flag .tls_fragment,
    .text .tls_fragment_fallback_delay, .flag .tls_record_fragment, .text .tls_spoof,
    .text .tls_spoof_method, .text .method, .flag .no_drop, .flag .override_destination,
    .text .strategy]

/-- `get_attributes`. -/
def get_attributes (darwin : Bool) : List Attr :=
  if darwin then
    attributes.filter fun a => a != .list .wifi_ssid && a != .list .wifi_bssid
  else attributes

/-- `is_match_attribute`. -/
def is_match_attribute : Attr → Bool
  | .list .sniffers => false
  | .list _ => true
  | .text .ip_version => true
  | .text .network => true
  | .text .protocol => true
  | .flag .source_ip_is_private => true
  | .flag .ip_is_private => true
  | .flag .invert => true
  | _ => false

/-- `action_scope`: the actions an attribute is for; none when it is for every action. -/
def action_scope : Attr → List Text
  | .outbound => ["route".toList, "bypass".toList]
  | .text .override_address | .text .override_port | .flag .tls_fragment
  | .text .tls_fragment_fallback_delay | .flag .tls_record_fragment | .text .tls_spoof
  | .text .tls_spoof_method => ["route".toList, "route-options".toList, "bypass".toList]
  | .text .method | .flag .no_drop => ["reject".toList]
  | .flag .override_destination => ["sniff".toList]
  | .text .strategy => ["resolve".toList]
  | _ => []

/-- The attribute `set_field_value` writes for a key. -/
def attrOf (key : Text) : Option Attr :=
  if key = "reject_method".toList then some (.text .method)
  else (.list .sniffers :: attributes).find? fun a => a.key == key

/-- `isStorableRuleKey`. -/
def isStorableRuleKey (key : Text) : Bool := ["name".toList, "type".toList, "disabled".toList].contains key || (attrOf key).isSome

/-! ## Values -/

/-- The value of a field as `get_current_value_string` gives it. -/
def RouteRule.current (rule : RouteRule) : Attr → List Text
  | .list a => rule.lists a
  | .text a => [rule.texts a]
  | .flag _ => []
  | .outbound => [intText rule.outboundID]

/-- `QString::toInt`, `int` being 32 bits wide. -/
def toInt (text : Text) : Int :=
  match readInt (trimmed text) with
  | some n => if -2147483648 ≤ n ∧ n ≤ 2147483647 then n else 0
  | none => 0

/-- `filterEmpty`: the texts without blanks at their ends, the blank ones left out. -/
def filterEmpty (base : List Text) : List Text :=
  (base.map trimmed).filter fun text => !text.isEmpty

/-- `isValidStrArray`. -/
def isValidStrArray (texts : List Text) : Bool := texts.any fun text => !(trimmed text).isEmpty

/-- `set_field_value`. -/
def RouteRule.set_field_value (rule : RouteRule) (attr : Attr) (value : List Text) : RouteRule :=
  let scalar := trimmed (value.headD [])
  match attr with
  | .list a => { rule with lists := Function.update rule.lists a (filterEmpty value) }
  | .text .action =>
    let action := if scalar.isEmpty then "route".toList else scalar
    { rule with texts := Function.update rule.texts .action action }
  | .text a => { rule with texts := Function.update rule.texts a scalar }
  | .flag a => { rule with flags := Function.update rule.flags a (scalar == "true".toList) }
  | .outbound => { rule with outboundID := toInt scalar }

/-- `clear_attribute_value`. The action and the sniffers have no branch of their own there. -/
def RouteRule.clear_attribute_value (rule : RouteRule) : Attr → RouteRule
  | .list .sniffers => rule
  | .list a => { rule with lists := Function.update rule.lists a [] }
  | .text .action => rule
  | .text a => { rule with texts := Function.update rule.texts a [] }
  | .flag a => { rule with flags := Function.update rule.flags a false }
  | .outbound => { rule with outboundID := directID }

/-! ## Validation -/

/-- The checks of `Validation` that are a grammar of their own: each says that a text passes. `ruleSet`
is a built-in name or an address of a `.srs` file; `spoof` passes what is at most a warning. -/
structure Validation where
  cidr : Text → Bool
  portRange : Text → Bool
  ruleSet : Text → Bool
  overrideAddress : Text → Bool
  duration : Text → Bool
  spoof : Text → Bool
  lower : Text → Text

/-- `Validation::Port`. -/
def isPort (text : Text) : Bool := isDigits text && decide (1 ≤ decimalValue text) && decide (decimalValue text ≤ 65535)

variable (v : Validation)

/-- `check_value` as far as it finds an error. -/
def refuses (attr : Attr) (raw : Text) : Bool :=
  let value := trimmed raw
  if value.isEmpty then false
  else
    match attr with
    | .list .ip_cidr | .list .source_ip_cidr => !v.cidr value
    | .list .port | .list .source_port =>
      if value.contains ':' || value.contains '-' then true
      else value != "0".toList && !isPort value
    | .list .port_range | .list .source_port_range => !v.portRange value
    | .list .rule_set => !v.ruleSet value
    | .text .override_address => !v.overrideAddress value
    | .text .override_port => value != "0".toList && !isPort value
    | .text .tls_fragment_fallback_delay => !v.duration value
    | .text .tls_spoof => !v.spoof value
    | .text .ip_version => ! ["4".toList, "6".toList].contains value
    | .text .network => ! ["tcp".toList, "udp".toList, "icmp".toList].contains value
    | .text .protocol =>
      ! ["tls".toList, "http".toList, "quic".toList, "dns".toList, "stun".toList,
        "bittorrent".toList, "dtls".toList, "ssh".toList, "rdp".toList, "ntp".toList].contains value
    | .text .action =>
      ! ["route".toList, "route-options".toList, "direct".toList, "bypass".toList, "reject".toList,
        "hijack-dns".toList, "sniff".toList, "resolve".toList].contains value
    | .text .method => ! ["default".toList, "drop".toList, "reply".toList].contains (v.lower value)
    | .text .strategy =>
      ! ["as_is".toList, "prefer_ipv4".toList, "prefer_ipv6".toList, "ipv4_only".toList, "ipv6_only".toList].contains value
    | .text .tls_spoof_method =>
      ! ["wrong-sequence".toList, "wrong-checksum".toList, "wrong-ack".toList, "wrong-md5".toList, "wrong-timestamp".toList].contains value
    | _ => false

/-- What the server profiles are asked: whether an id exists, the id of a name, and whether routing
rules cannot use an existing one. -/
structure Outbounds where
  known : Int → Bool
  byName : Text → Option Int
  unusable : Int → Bool

/-- No server profiles. -/
def noProfiles : Outbounds where
  known _ := false
  byName _ := none
  unusable _ := false

variable (o : Outbounds)

/-- `routeRuleOutboundProblem`. -/
def routeRuleOutboundProblem (id : Int) : Bool :=
  if id = proxyID ∨ id = directID ∨ id = warpBypassID then false
  else decide (id < 0) || !o.known id || o.unusable id

/-- `effective_action`. -/
def RouteRule.effective_action (rule : RouteRule) : Text :=
  if rule.texts .action = "route".toList then
    if rule.outboundID = blockID then "reject".toList
    else if rule.outboundID = dnsOutID then "hijack-dns".toList
    else "route".toList
  else rule.texts .action

/-- `has_match_conditions`. -/
def RouteRule.has_match_conditions (rule : RouteRule) (darwin : Bool) : Bool :=
  rule.flags .source_ip_is_private || rule.flags .ip_is_private || (get_attributes darwin).any fun attr =>
      is_match_attribute attr && isValidStrArray (rule.current attr)

/-- An issue of severity `Error`: its attribute and, of a list, the item. -/
structure RuleError where
  attr : Attr
  value : Text
  deriving DecidableEq

/-- The errors in the values of one attribute. -/
def RouteRule.valueErrors (rule : RouteRule) (attr : Attr) : List RuleError :=
  match attr with
  | .outbound => []
  | attr =>
    ((rule.current attr).filter (refuses v attr)).map fun item =>
      ⟨attr, match attr with
        | .list _ => trimmed item
        | _ => []⟩

/-- The errors of `validate`. -/
def RouteRule.errors (darwin : Bool) (rule : RouteRule) : List RuleError :=
  if rule.type = .endpointPreferredBy then []
  else
    let act := rule.effective_action
    ((get_attributes darwin).filter fun attr =>
      (action_scope attr).isEmpty || (action_scope attr).contains act).flatMap (rule.valueErrors v) ++
      (if (act = "route".toList ∨ act = "bypass".toList) ∧ routeRuleOutboundProblem o rule.outboundID
        then [⟨.outbound, []⟩] else []) ++
      (if act = "route-options".toList then
        (if rule.flags .tls_fragment && rule.flags .tls_record_fragment then
          [⟨.flag .tls_record_fragment, []⟩] else []) ++
        (let anyOption := !(trimmed (rule.texts .override_address)).isEmpty ||
            decide (0 < toInt (rule.texts .override_port)) || rule.flags .tls_fragment ||
            rule.flags .tls_record_fragment || !(trimmed (rule.texts .tls_spoof)).isEmpty
          if !anyOption && rule.has_match_conditions darwin then [⟨.text .action, []⟩] else [])
      else [])

/-! ## Import -/

/-- One repair of `routeProfileCheckImportedRule`; nothing when the rule is dropped. -/
def RouteRule.repair (rule : RouteRule) (error : RuleError) : Option RouteRule :=
  match error.attr with
  | .list a =>
    if !rule.flags .invert && !error.value.isEmpty then
      let kept := (rule.lists a).filter fun item => !refuses v (.list a) item
      if kept.isEmpty && rule.type == .custom && is_match_attribute (.list a) then none
      else some (rule.set_field_value (.list a) kept)
    else if is_match_attribute (.list a) then none
    else some (rule.clear_attribute_value (.list a))
  | .outbound => some { rule with outboundID := proxyID }
  | attr =>
    if attr = .text .action ∨ is_match_attribute attr = true then none
    else some (rule.clear_attribute_value attr)

/-- How the loop of `routeProfileCheckImportedRule` ends: the rule without errors, the error it is dropped for, which
the warning names, or all passes used up. -/
inductive RepairEnd where
  | kept (rule : RouteRule)
  | dropped (error : RuleError)
  | exhausted

/-- The rule that is kept. -/
def RepairEnd.rule : RepairEnd → Option RouteRule
  | .kept rule => some rule
  | _ => none

/-- `routeProfileCheckImportedRule`: each pass repairs the first error. -/
def routeProfileCheckImportedRule (v : Validation) (o : Outbounds) (darwin : Bool) : Nat → RouteRule → RepairEnd
  | 0, _ => .exhausted
  | passes + 1, rule =>
    match (rule.errors v o darwin).head? with
    | none => .kept rule
    | some error =>
      match rule.repair v error with
      | none => .dropped error
      | some repaired => routeProfileCheckImportedRule v o darwin passes repaired

/-- What `routeProfileCheckImportedRule` hands on. -/
def checkImportedRule (v : Validation) (o : Outbounds) (darwin : Bool) (passes : Nat) (rule : RouteRule) : Option RouteRule :=
  (routeProfileCheckImportedRule v o darwin passes rule).rule

/-- `ruleTypeToToken`. -/
def RuleType.token : RuleType → Text
  | .custom => "custom".toList
  | .simpleAddressProxy => "simple_address_proxy".toList
  | .simpleAddressBypass => "simple_address_bypass".toList
  | .simpleAddressBlock => "simple_address_block".toList
  | .simpleProcessNameProxy => "simple_process_name_proxy".toList
  | .simpleProcessNameBypass => "simple_process_name_bypass".toList
  | .simpleProcessNameBlock => "simple_process_name_block".toList
  | .simpleProcessPathProxy => "simple_process_path_proxy".toList
  | .simpleProcessPathBypass => "simple_process_path_bypass".toList
  | .simpleProcessPathBlock => "simple_process_path_block".toList
  | .simpleAddressWarpBypass => "simple_address_warp_bypass".toList
  | .simpleProcessNameWarpBypass => "simple_process_name_warp_bypass".toList
  | .simpleProcessPathWarpBypass => "simple_process_path_warp_bypass".toList
  | .endpointPreferredBy => "endpoint_preferred_by".toList

/-- The types with a token other than `custom`. -/
def ruleTypes : List RuleType :=
  [.simpleAddressProxy, .simpleAddressBypass, .simpleAddressBlock, .simpleProcessNameProxy,
    .simpleProcessNameBypass, .simpleProcessNameBlock, .simpleProcessPathProxy,
    .simpleProcessPathBypass, .simpleProcessPathBlock, .simpleAddressWarpBypass,
    .simpleProcessNameWarpBypass, .simpleProcessPathWarpBypass, .endpointPreferredBy]

/-- `tokenToRuleType`. -/
def tokenToRuleType (token : Text) : RuleType :=
  (ruleTypes.find? fun type => type.token == token).getD .custom

/-- `isOutboundIDValid`. -/
def isOutboundIDValid (id : Int) : Bool := id == -1 || id == -2 || o.known id

/-- `getOutboundID`. -/
def getOutboundID (name : Text) : Int :=
  if name = "proxy".toList then -1
  else if name = "direct".toList then -2
  else if name = "block".toList then blockID
  else if name = "warp-bypass".toList then warpBypassID
  else (o.byName name).getD INVALID_ID

/-- `routeProfileScalarText`. Objects, arrays and null carry no value a rule field can hold. -/
def scalarText : Json → Option Text
  | .bool b => some (if b then "true".toList else "false".toList)
  | .text t => some t
  | .int n => some (intText n)
  | .real shown => some shown
  | _ => none

/-- The texts of a field; nothing when it is unusable. -/
def fieldTexts : Json → Option (List Text)
  | .array items => items.mapM scalarText
  | value => (scalarText value).map fun text => [text]

/-- `QJsonValue::toInt`. -/
def jsonInt : Json → Int
  | .int n => if -2147483648 ≤ n ∧ n ≤ 2147483647 then n else 0
  | _ => 0

/-- The outbound of a rule object. What is unknown becomes the proxy. -/
def importedOutbound (value : Json) : Int :=
  match value with
  | .int _ | .real _ => if isOutboundIDValid o (jsonInt value) then jsonInt value else proxyID
  | .text name => if getOutboundID o name = INVALID_ID then proxyID else getOutboundID o name
  | _ => proxyID

/-- The loop of `parse_rule_object` over one field; nothing when the rule is dropped. -/
def RouteRule.readField (rule : RouteRule) (field : Text × Json) : Option RouteRule :=
  if field.1 = "name".toList ∨ field.1 = "type".toList then some rule
  else if field.1 = "disabled".toList then
    match field.2 with
    | .bool b => some { rule with disabled := b }
    | _ => some { rule with disabled := false }
  else
    match attrOf field.1 with
    | none => some rule
    | some .outbound => some { rule with outboundID := importedOutbound o field.2 }
    | some attr =>
      match fieldTexts field.2 with
      | none => if is_match_attribute attr then none else some rule
      | some texts => some (rule.set_field_value attr texts)

/-- `parse_rule_object`, over the fields in the order of their keys. -/
def parse_rule_object (darwin : Bool) (obj : Fields) : Option RouteRule :=
  if obj.all fun field => isStorableRuleKey field.1 then
    let type := tokenToRuleType (obj.textAt "type".toList)
    match obj.foldlM (RouteRule.readField o) { RouteRule.default with type := type } with
    | none => none
    | some rule =>
      if rule.type = .endpointPreferredBy then some rule else checkImportedRule v o darwin 64 rule
  else none

/-! ## The core's rule -/

/-- What an item of a list attribute is emitted as; `ruleSetName` is `get_rule_set_name`. -/
def emitItem (ruleSetName : Text → Text) (a : ListAttr) (item : Text) : Json :=
  match a with
  | .port | .source_port => .int (toInt item)
  | .rule_set => .text (ruleSetName item)
  | _ => .text item

/-- The fields of attributes, as far as they have one. -/
def fieldsOf (field : Attr → Option Json) (attrs : List Attr) : Fields :=
  attrs.filterMap fun attr => (field attr).map fun value => (attr.key, value)

/-- A text that is left out when it is empty. -/
def textValue (text : Text) : Option Json :=
  if (trimmed text).isEmpty then none else some (.text (trimmed text))

/-- A switch that is left out when it is off. -/
def flagValue (on : Bool) : Option Json := if on then some (.bool true) else none

/-- What `get_rule_json` emits for a condition, if it is set. -/
def RouteRule.conditionField (ruleSetName : Text → Text) (rule : RouteRule) (attr : Attr) : Option Json :=
  match attr with
  | .list a =>
    if isValidStrArray (rule.lists a) then
      some (.array ((filterEmpty (rule.lists a)).map (emitItem ruleSetName a)))
    else none
  | .text .ip_version =>
    if (trimmed (rule.texts .ip_version)).isEmpty then none
    else some (.int (toInt (rule.texts .ip_version)))
  | .text a => textValue (rule.texts a)
  | .flag a => flagValue (rule.flags a)
  | .outbound => none

/-- The fields of `get_rule_json` up to the action. -/
def RouteRule.conditionFields (ruleSetName : Text → Text) (rule : RouteRule) : Fields :=
  fieldsOf (rule.conditionField ruleSetName) (attributes.filter is_match_attribute)

/-- The action `get_rule_json` emits. -/
def RouteRule.emittedAction (rule : RouteRule) : Text :=
  if rule.texts .action = "route".toList then
    if rule.outboundID = -3 then "reject".toList
    else if rule.outboundID = -4 then "hijack-dns".toList
    else "route".toList
  else rule.texts .action

/-- The action is one that routing options are emitted for. -/
def RouteRule.routes (rule : RouteRule) : Bool := ["route".toList, "route-options".toList, "bypass".toList].contains rule.emittedAction

/-- The method of a rejecting rule; empty when the core does not know it. -/
def RouteRule.emittedMethod (rule : RouteRule) : Text :=
  let method := v.lower (trimmed (rule.texts .method))
  if ["default".toList, "drop".toList, "reply".toList].contains method then method else []

/-- What `get_rule_json` emits for the action and what belongs to it. -/
def RouteRule.actionField (rule : RouteRule) (outbound : Json) : Attr → Option Json
  | .text .action => some (.text rule.emittedAction)
  | .text .method =>
    if rule.emittedAction = "reject".toList then textValue (rule.emittedMethod v) else none
  | .flag .no_drop =>
    if rule.emittedAction = "reject".toList then
      flagValue (rule.flags .no_drop && v.lower (trimmed (rule.texts .method)) != "drop".toList)
    else none
  | .text .override_address =>
    if rule.routes then textValue (rule.texts .override_address) else none
  | .text .override_port =>
    if rule.routes then
      if 0 < toInt (rule.texts .override_port) then some (.int (toInt (rule.texts .override_port)))
      else none
    else none
  | .flag .tls_fragment => if rule.routes then flagValue (rule.flags .tls_fragment) else none
  | .text .tls_fragment_fallback_delay =>
    if rule.routes && rule.flags .tls_fragment then
      textValue (rule.texts .tls_fragment_fallback_delay)
    else none
  | .flag .tls_record_fragment =>
    if rule.routes then flagValue (rule.flags .tls_record_fragment) else none
  | .text .tls_spoof => if rule.routes then textValue (rule.texts .tls_spoof) else none
  | .text .tls_spoof_method =>
    if rule.routes && !(trimmed (rule.texts .tls_spoof)).isEmpty then
      textValue (rule.texts .tls_spoof_method)
    else none
  | .outbound =>
    if rule.emittedAction = "route".toList ∨ rule.emittedAction = "bypass".toList then some outbound
    else none
  | .flag .override_destination =>
    if rule.emittedAction = "sniff".toList then flagValue (rule.flags .override_destination)
    else none
  | .text .strategy =>
    if rule.emittedAction = "resolve".toList then textValue (rule.texts .strategy) else none
  | _ => none

/-- The action and what belongs to it, in the order of `get_rule_json`. -/
def actionAttributes : List Attr :=
  [.text .action, .text .method, .flag .no_drop, .text .override_address, .text .override_port,
    .flag .tls_fragment, .text .tls_fragment_fallback_delay, .flag .tls_record_fragment,
    .text .tls_spoof, .text .tls_spoof_method, .outbound, .flag .override_destination,
    .text .strategy]

/-- The fields of `get_rule_json` from the action on. -/
def RouteRule.actionFields (rule : RouteRule) (outbound : Json) : Fields := fieldsOf (rule.actionField v outbound) actionAttributes

/-- `get_rule_json`. An endpoint rule without a tag has none. -/
def RouteRule.get_rule_json (ruleSetName : Text → Text) (rule : RouteRule) (outboundTag : Text) : Fields :=
  if rule.type = .endpointPreferredBy then
    if outboundTag.isEmpty then []
    else
      [("preferred_by".toList, .array [.text outboundTag]), ("action".toList, .text "route".toList), ("outbound".toList, .text outboundTag)]
  else
    rule.conditionFields ruleSetName ++ rule.actionFields v (if outboundTag.isEmpty then .int rule.outboundID else .text outboundTag)

/-- The rule behind `get_rule_json`, which puts the action it emits in place of the rule's own. -/
def RouteRule.afterJson (rule : RouteRule) : RouteRule :=
  if rule.type = .endpointPreferredBy then rule
  else { rule with texts := Function.update rule.texts .action rule.emittedAction }

end Throne.Database.Routes
