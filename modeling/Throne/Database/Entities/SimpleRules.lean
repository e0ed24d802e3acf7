import Throne.Database.Entities.RouteProfile
import Throne.Database.Entities.RouteRuleJson

/-!
# Simple rules

The lines `prefix:value` of `src/src/database/entities/RouteProfile.cpp`, which stand in rules of their own: for each
of the four actions one of addresses, one of process names and one of process paths, and for a server the custom rules
to it that hold nothing else. A text of lines replaces the simple rules of an action (`UpdateSimpleRules`); one line is
switched on and off for a target (`AppendSimpleRule`, `HasSimpleRule`, `RemoveSimpleRule`).
-/

namespace Throne.Database.Routes

open Lib.Texts

/-! ## Actions and targets -/

inductive SimpleAction
  | bypass
  | block
  | proxy
  | warpBypass
  deriving DecidableEq

def simpleActionToString : SimpleAction → Text
  | .bypass => "direct".toList
  | .block => "block".toList
  | .proxy => "proxy".toList
  | .warpBypass => "warp-bypass".toList

structure SimpleTarget where
  action : SimpleAction := .proxy
  serverID : Int := INVALID_ID

def SimpleTarget.isServer (target : SimpleTarget) : Bool := 0 ≤ target.serverID

/-- What is asked of a server profile; no second name without an outbound. -/
structure Server where
  name : Text
  DisplayTypeAndName : Option Text

/-- The checks of values, the operating system and the server profiles. -/
structure SimpleEnv where
  validation : Validation
  /-- What `Validation::Cidr` says of a text that does not pass. -/
  cidrProblem : Text → Text
  cidrProblem_said : ∀ text, cidrProblem text ≠ []
  ruleSetName : Text → Text
  darwin : Bool
  server : Int → Option Server
  /-- Lower case makes no line end and leaves no text blank. -/
  lower_line : ∀ text, '\n' ∉ text → '\n' ∉ validation.lower text
  lower_kept : ∀ text, trimmed text ≠ [] → trimmed (validation.lower text) ≠ []

/-! ## The rules themselves -/

def addressType : SimpleAction → RuleType
  | .bypass => .simpleAddressBypass
  | .block => .simpleAddressBlock
  | .proxy => .simpleAddressProxy
  | .warpBypass => .simpleAddressWarpBypass

def processNameType : SimpleAction → RuleType
  | .bypass => .simpleProcessNameBypass
  | .block => .simpleProcessNameBlock
  | .proxy => .simpleProcessNameProxy
  | .warpBypass => .simpleProcessNameWarpBypass

def processPathType : SimpleAction → RuleType
  | .bypass => .simpleProcessPathBypass
  | .block => .simpleProcessPathBlock
  | .proxy => .simpleProcessPathProxy
  | .warpBypass => .simpleProcessPathWarpBypass

/-- The types of an action, in the order they are reset. -/
def simpleTypes (action : SimpleAction) : List RuleType := [addressType action, processNameType action, processPathType action]

def isAddressType : RuleType → Bool
  | .simpleAddressProxy | .simpleAddressBypass | .simpleAddressBlock | .simpleAddressWarpBypass => true
  | _ => false

def ruleTypeToString : RuleType → Text
  | .custom => "custom".toList
  | .simpleAddressProxy => "Simple Address Proxy".toList
  | .simpleAddressBypass => "Simple Address Bypass".toList
  | .simpleAddressBlock => "Simple Address Block".toList
  | .simpleProcessNameProxy => "Simple Process Name Proxy".toList
  | .simpleProcessNameBypass => "Simple Process Name Bypass".toList
  | .simpleProcessNameBlock => "Simple Process Name Block".toList
  | .simpleProcessPathProxy => "Simple Process Path Proxy".toList
  | .simpleProcessPathBypass => "Simple Process Path Bypass".toList
  | .simpleProcessPathBlock => "Simple Process Path Block".toList
  | .simpleAddressWarpBypass => "Simple Address Warp-bypass".toList
  | .simpleProcessNameWarpBypass => "Simple Process Name Warp-bypass".toList
  | .simpleProcessPathWarpBypass => "Simple Process Path Warp-bypass".toList
  | .endpointPreferredBy => "Endpoint".toList

/-- A simple rule without values; one that rejects keeps the outbound that it has by default. -/
def simpleRule (type : RuleType) (action : String) (outboundID : Int) : RouteRule :=
  { RouteRule.default with
    name := ruleTypeToString type
    type := type
    texts
      | .action => action.toList
      | _ => []
    outboundID := outboundID }

def get_simple_rules : List RouteRule :=
  [simpleRule .simpleAddressProxy "route" proxyID, simpleRule .simpleAddressBypass "route" directID, simpleRule .simpleAddressBlock "reject" directID,
    simpleRule .simpleProcessNameProxy "route" proxyID,
    simpleRule .simpleProcessNameBypass "route" directID,
    simpleRule .simpleProcessNameBlock "reject" directID,
    simpleRule .simpleProcessPathProxy "route" proxyID,
    simpleRule .simpleProcessPathBypass "route" directID,
    simpleRule .simpleProcessPathBlock "reject" directID,
    simpleRule .simpleAddressWarpBypass "route" warpBypassID,
    simpleRule .simpleProcessNameWarpBypass "route" warpBypassID,
    simpleRule .simpleProcessPathWarpBypass "route" warpBypassID]

def NewSimpleRule (type : RuleType) : Option RouteRule := get_simple_rules.find? fun rule => rule.type = type

def reset_simple_rule (rule : RouteRule) : RouteRule :=
  match NewSimpleRule rule.type with
  | some clean => { clean with disabled := rule.disabled }
  | none => rule

/-- The first rule of a kind changed. -/
def updateFirst (q : RouteRule → Bool) (f : RouteRule → RouteRule) : List RouteRule → List RouteRule
  | [] => []
  | rule :: rules => if q rule then f rule :: rules else rule :: updateFirst q f rules

/-! ## Lines -/

/-- The lists that lines stand in, by the words in front of the colon. -/
def simpleLists : List (Text × ListAttr) :=
  [("domain".toList, .domain), ("suffix".toList, .domain_suffix), ("keyword".toList, .domain_keyword),
    ("regex".toList, .domain_regex), ("ruleset".toList, .rule_set), ("ip".toList, .ip_cidr),
    ("processName".toList, .process_name), ("processPath".toList, .process_path)]

/-- The lists of addresses. -/
def addressLists : List ListAttr := [.domain, .domain_suffix, .domain_keyword, .domain_regex, .rule_set, .ip_cidr]

/-- The front of a line and its value, without blanks around them. -/
def lineParts (content : Text) : Option (Text × Text) :=
  if content.contains ':' then
    some (trimmed (content.takeWhile (· != ':')), trimmed ((content.dropWhile (· != ':')).drop 1))
  else none

/-- These are stored and compared in lower case. -/
def storedValue (v : Validation) (a : ListAttr) (value : Text) : Text :=
  if a = .domain ∨ a = .domain_suffix ∨ a = .domain_keyword then v.lower value else value

variable (c : SimpleEnv)

/-- The message of `check_value` for an error in a line; empty for none. -/
def valueProblem (a : ListAttr) (value : Text) : Text :=
  if refuses c.validation (.list a) value then
    match a with
    | .rule_set =>
      ("Unknown rule-set. Use a built-in name such as geosite-google, or an http(s) URL of a binary .srs file.").toList
    | _ => c.cidrProblem (trimmed value)
  else []

/-- The message of `CheckSimpleRule` for an error; empty for none. -/
def CheckSimpleRule (rawLine : Text) : Text :=
  let line := trimmed rawLine
  if line = [] then []
  else
    let parts := (lineParts line).getD ([], trimmed line)
    match simpleLists.lookup parts.1 with
    | none =>
      ("Start the line with domain:, suffix:, keyword:, regex:, ruleset:, ip:, processName: or processPath:.").toList
    | some a =>
      if parts.2 = [] then "Add a value after \"".toList ++ parts.1 ++ ":\".".toList
      else valueProblem c a (storedValue c.validation a parts.2)

def get_rule_type (content : Text) (action : SimpleAction) : RuleType :=
  if ["domain".toList, "suffix".toList, "keyword".toList, "regex".toList, "ruleset".toList, "ip".toList].any
      (·.isPrefixOf content) then addressType action
  else if "processName".toList.isPrefixOf content then processNameType action
  else if "processPath".toList.isPrefixOf content then processPathType action
  else .custom

/-- A value behind those of a list, if it is not there. -/
def RouteRule.addValue (rule : RouteRule) (a : ListAttr) (value : Text) : RouteRule :=
  if (rule.lists a).contains value then rule
  else { rule with lists := Function.update rule.lists a (rule.lists a ++ [value]) }

def notAddress : Text := "Start the line with domain:, suffix:, keyword:, regex:, ruleset: or ip:.".toList

def notProcess : Text := "Start the line with processName: or processPath:.".toList

/-- The rule with the line's value, or the reason against it. -/
def add_simple_address_rule (content : Text) (rule : RouteRule) : Except Text RouteRule :=
  match lineParts content with
  | none => .error notAddress
  | some (subType, address) =>
    if address = [] then .error notAddress
    else
      match simpleLists.lookup subType with
      | none => .error notAddress
      | some a =>
        if addressLists.contains a then .ok (rule.addValue a (storedValue c.validation a address))
        else .error notAddress

def add_simple_process_rule (content : Text) (rule : RouteRule) : Except Text RouteRule :=
  match lineParts content with
  | none => .error notProcess
  | some (front, address) =>
    if address = [] then .error notProcess
    else if front = "processPath".toList then .ok (rule.addValue .process_path address)
    else if front = "processName".toList then .ok (rule.addValue .process_name address)
    else .error notProcess

def add_simple_rule (content : Text) (rule : RouteRule) (type : RuleType) : Except Text RouteRule :=
  if CheckSimpleRule c content ≠ [] then .error (CheckSimpleRule c content)
  else if isAddressType type then add_simple_address_rule c content rule
  else add_simple_process_rule content rule

/-! ## Empty rules -/

/-- A custom rule is empty when its JSON says nothing beside its action. The action that is looked at is the one
that asking for the JSON leaves. -/
def RouteRule.isEmpty (rule : RouteRule) : Bool :=
  if rule.type ≠ .custom then
    if rule.type = .endpointPreferredBy then false
    else if isAddressType rule.type then addressLists.all fun a => (rule.lists a).isEmpty
    else (rule.lists .process_name).isEmpty && (rule.lists .process_path).isEmpty
  else
    let keys := (rule.get_rule_json c.validation c.ruleSetName []).length
    let action := rule.afterJson.texts .action
    if ["route".toList, "route-options".toList, "hijack-dns".toList].contains action then keys ≤ 1
    else if ["sniff".toList, "resolve".toList, "reject".toList, "bypass".toList].contains action then keys < 1
    else false

/-- The rule behind `isEmpty`. -/
def RouteRule.afterEmpty (rule : RouteRule) : RouteRule := if rule.type = .custom then rule.afterJson else rule

variable (rules : List RouteRule)

/-- The rules are shared, so a rule that is kept is the one behind `isEmpty`. -/
def FilterEmptyRules : List RouteRule := (rules.filter fun rule => !rule.isEmpty c).map RouteRule.afterEmpty

/-! ## The text of an action -/

/-- A rule's lines. -/
def RouteRule.simpleText (rule : RouteRule) : Text :=
  simpleLists.flatMap fun list => (rule.lists list.2).flatMap fun value => list.1 ++ ':' :: value ++ ['\n']

def GetSimpleRules (action : SimpleAction) : Text :=
  rules.flatMap fun rule => if (simpleTypes action).contains rule.type then rule.simpleText else []

def ResetSimpleRule (type : RuleType) : List RouteRule :=
  if rules.any fun rule => rule.type = type then updateFirst (fun rule => rule.type = type) reset_simple_rule rules
  else rules ++ (NewSimpleRule type).toList

/-- `QString::split` at line ends. -/
def splitLines : Text → List Text
  | [] => [[]]
  | c :: rest =>
    if c = '\n' then [] :: splitLines rest
    else
      match splitLines rest with
      | [] => [[c]]
      | line :: lines => (c :: line) :: lines

def rejectedLine (action : SimpleAction) (label raw reason : Text) (i : Nat) : Text :=
  "Line ".toList ++ natText (i + 1) ++ " of the ".toList ++
    (if label = [] then simpleActionToString action else label) ++ " rules (\"".toList ++ raw ++ "\"): ".toList ++
    reason ++ ['\n']

/-- One line of `UpdateSimpleRules`: the reasons so far and the rules. -/
def updateLine (action : SimpleAction) (label : Text) (state : Text × List RouteRule) (item : Text × Nat) : Text × List RouteRule :=
  let raw := trimmed item.1
  if raw = [] then state
  else
    let type := get_rule_type raw action
    if type = .custom then (state.1 ++ rejectedLine action label raw (CheckSimpleRule c raw) item.2, state.2)
    else
      match state.2.find? fun rule => rule.type = type with
      | none =>
        (state.1 ++ "internal error, failed to get rule for: ".toList ++ ruleTypeToString type ++ ['\n'], state.2)
      | some rule =>
        match add_simple_rule c raw rule type with
        | .error reason => (state.1 ++ rejectedLine action label raw reason item.2, state.2)
        | .ok changed => (state.1, updateFirst (fun rule => rule.type = type) (fun _ => changed) state.2)

/-- The reasons against lines, and the rules behind. -/
def UpdateSimpleRules (content : Text) (action : SimpleAction) (label : Text) : Text × List RouteRule :=
  let reset := (simpleTypes action).foldl ResetSimpleRule rules
  let updated := (splitLines content).zipIdx.foldl (updateLine c action label) ([], reset)
  (updated.1, FilterEmptyRules c updated.2)

/-! ## One line of a target -/

def is_attribute_at_default (rule : RouteRule) : Attr → Bool
  | .text .action => true
  | .flag a => !rule.flags a
  | .outbound => rule.outboundID = directID
  | .text .override_port =>
    (trimmed (rule.texts .override_port)).isEmpty || trimmed (rule.texts .override_port) = "0".toList
  | .text .tls_fragment_fallback_delay => !isValidStrArray [rule.texts .tls_fragment_fallback_delay]
  | .text a => (rule.texts a).isEmpty
  | .list a => !isValidStrArray (rule.lists a)

/-- The lists of a kind of lines: addresses, process names or process paths. -/
def kindLists (content : Text) : List ListAttr :=
  match get_rule_type content .proxy with
  | .simpleAddressProxy => addressLists
  | .simpleProcessNameProxy => [.process_name]
  | _ => [.process_path]

def is_server_rule_for (rule : RouteRule) (content : Text) : Bool :=
  if rule.type ≠ .custom ∨ rule.disabled = true ∨ rule.texts .action ≠ "route".toList ∨ rule.outboundID < 0 ∨
      rule.has_match_conditions c.darwin = false then false
  else if get_rule_type content .proxy = .custom then false
  else
    (get_attributes c.darwin).all fun attr =>
      attr = .outbound || (kindLists content).any (fun a => attr = .list a) || is_attribute_at_default rule attr

/-- A rule is one of `rules_for`. -/
def isRuleOf (content : Text) (target : SimpleTarget) (rule : RouteRule) : Bool :=
  get_rule_type content target.action ≠ .custom &&
    if target.isServer then rule.outboundID = target.serverID && is_server_rule_for c rule content
    else rule.type = get_rule_type content target.action

def rules_for (content : Text) (target : SimpleTarget) : List RouteRule := rules.filter (isRuleOf c content target)

/-- The list that a line lives in, and its value. -/
def simple_rule_values (content : Text) : Option (ListAttr × Text) :=
  match lineParts content with
  | none => none
  | some (front, value) =>
    if value = [] then none
    else (simpleLists.lookup front).map fun a => (a, storedValue c.validation a value)

/-- The first of some names that no rule has. -/
def freshName (base : Text) : Text :=
  (((base :: (List.range rules.length).map fun n => base ++ ' ' :: natText (n + 2)).find? fun name =>
    !rules.any fun rule => rule.name = name)).getD base

/-- A rule for a server, named as the server list names it. -/
def newServerRule (content : Text) (target : SimpleTarget) (server : Server) : RouteRule :=
  let serverName := if trimmed server.name = [] then server.DisplayTypeAndName.getD server.name else server.name
  let kind : String :=
    match get_rule_type content .proxy with
    | .simpleAddressProxy => " (address)"
    | .simpleProcessNameProxy => " (process)"
    | _ => " (process path)"
  { RouteRule.default with
    name := freshName rules (serverName ++ kind.toList)
    outboundID := target.serverID }

/-- Whether the line stands in the target's rules now, the reason if it does not, and the rules. -/
def AppendSimpleRule (rawRule : Text) (target : SimpleTarget) : Bool × Text × List RouteRule :=
  let raw := trimmed rawRule
  if raw = [] then (false, [], rules)
  else
    let type := get_rule_type raw target.action
    if type = .custom then (false, CheckSimpleRule c raw, rules)
    else
      match rules.find? (isRuleOf c raw target) with
      | some rule =>
        match add_simple_rule c raw rule type with
        | .error reason => (false, reason, rules)
        | .ok changed => (true, [], updateFirst (isRuleOf c raw target) (fun _ => changed) rules)
      | none =>
        let new :=
          if target.isServer then (c.server target.serverID).map (newServerRule rules raw target)
          else NewSimpleRule type
        match new with
        | none => (false, [], rules)
        | some rule =>
          match add_simple_rule c raw rule type with
          | .error reason => (false, reason, rules)
          | .ok changed => (true, [], rules ++ [changed])

def HasSimpleRule (rawRule : Text) (target : SimpleTarget) : Bool :=
  let raw := trimmed rawRule
  (rules_for c rules raw target).any fun rule =>
    match simple_rule_values c raw with
    | none => false
    | some (a, value) => (rule.lists a).contains value

/-- A rule without a value; none when it is left empty. -/
def withoutValue (target : SimpleTarget) (a : ListAttr) (value : Text) (rule : RouteRule) : Option RouteRule :=
  let rest := { rule with lists := Function.update rule.lists a ((rule.lists a).filter (· ≠ value)) }
  if (rule.lists a).contains value then
    -- a server rule's outbound makes `isEmpty` see it as set
    if (if target.isServer then !rest.has_match_conditions c.darwin else rest.isEmpty c) then none else some rest
  else some rule

/-- Whether the line stood in the target's rules, and the rules without it. -/
def RemoveSimpleRule (rawRule : Text) (target : SimpleTarget) : Bool × List RouteRule :=
  let raw := trimmed rawRule
  match simple_rule_values c raw with
  | none => (false, rules)
  | some (a, value) =>
    ((rules_for c rules raw target).any fun rule => (rule.lists a).contains value,
      rules.filterMap fun rule => if isRuleOf c raw target rule then withoutValue c target a value rule else some rule)

end Throne.Database.Routes
