import Throne.Core.SingBox.RuleMatch

/-!
# The policy of a tunnel without IPv6

`src/src/configs/TunIPv6Policy.cpp`: two route rules and one DNS rule in front of all others. The
second half says what the three rules do to the decisions of the core.
-/

namespace Throne.Configs

open Lib.Texts Lib.Json Core.SingBox

/-! ## The rules -/

/-- Everything over IPv6 is rejected, with an answer. -/
def rejectIPv6 (tunTag : Text) : Json :=
  .object [("inbound".toList, .text tunTag), ("ip_version".toList, .int 6), ("action".toList, .text "reject".toList), ("no_drop".toList, .bool true)]

/-- The tunnel's own DNS address answers over IPv6 too. -/
def hijackIPv6Dns (tunTag : Text) : Json :=
  .object [("inbound".toList, .text tunTag), ("ip_version".toList, .int 6), ("port".toList, .int 53), ("action".toList, .text "hijack-dns".toList)]

/-- A client of the tunnel learns no IPv6 address. -/
def emptyAAAA (tunTag systemDnsTag : Text) : Json :=
  .object [("inbound".toList, .array [.text tunTag, .text systemDnsTag]),
    ("query_type".toList, .text "AAAA".toList), ("action".toList, .text "predefined".toList),
    ("rcode".toList, .text "NOERROR".toList)]

/-- `ApplyTunIPv6Policy`. -/
def ApplyTunIPv6Policy (config : Fields) (tunTag systemDnsTag : Text) : Fields :=
  let route := config.objectAt "route".toList
  let rules := hijackIPv6Dns tunTag :: rejectIPv6 tunTag :: route.arrayAt "rules".toList
  let config := Fields.put "route".toList (.object (Fields.put "rules".toList (.array rules) route)) config
  let dns := config.objectAt "dns".toList
  let dnsRules := emptyAAAA tunTag systemDnsTag :: dns.arrayAt "rules".toList
  Fields.put "dns".toList (.object (Fields.put "rules".toList (.array dnsRules) dns)) config

/-- The route rules of a config. -/
def routeRules (config : Fields) : List Json := (config.objectAt "route".toList).arrayAt "rules".toList

/-- The DNS rules of a config. -/
def dnsRules (config : Fields) : List Json := (config.objectAt "dns".toList).arrayAt "rules".toList

section Sections

variable (config : Fields) (tunTag systemDnsTag : Text)

theorem routeRules_apply : routeRules (ApplyTunIPv6Policy config tunTag systemDnsTag) =
    hijackIPv6Dns tunTag :: rejectIPv6 tunTag :: routeRules config := by
  have hne : "route".toList ≠ "dns".toList := by decide
  rw [routeRules, ApplyTunIPv6Policy, Fields.objectAt_put_other hne, Fields.objectAt_put_self, Fields.arrayAt_put_self, routeRules]

theorem dnsRules_apply : dnsRules (ApplyTunIPv6Policy config tunTag systemDnsTag) = emptyAAAA tunTag systemDnsTag :: dnsRules config := by
  have hne : "dns".toList ≠ "route".toList := by decide
  rw [dnsRules, ApplyTunIPv6Policy, Fields.objectAt_put_self, Fields.arrayAt_put_self, Fields.objectAt_put_other hne, dnsRules]

/-- The rule sets of the route section stay. -/
theorem ruleSets_apply : ((ApplyTunIPv6Policy config tunTag systemDnsTag).objectAt "route".toList).arrayAt
    "rule_set".toList = (config.objectAt "route".toList).arrayAt "rule_set".toList := by
  have hne : "route".toList ≠ "dns".toList := by decide
  have hkeys : "rule_set".toList ≠ "rules".toList := by decide
  rw [ApplyTunIPv6Policy, Fields.objectAt_put_other hne, Fields.objectAt_put_self, Fields.arrayAt_put_other hkeys]

end Sections

/-! ## What the core decides -/

/-- A connection as the rules see it. The policy reads the inbound it came through, the IP version and
the port of its destination; `rest` is what other conditions look at. -/
structure Connection (ρ : Type) where
  inbound : Text
  ipVersion : Int
  port : Int
  rest : ρ

/-- A DNS query as the rules see it. -/
structure Query (ρ : Type) where
  inbound : Text
  queryType : Text
  rest : ρ

variable {ρ : Type}

/-- How the core matches connections and queries, for everything the policy does not use, and what the
rules that pass traffic on change of it. -/
structure Core (ρ : Type) where
  item : Text → Json → Connection ρ → Bool
  logical : Json → Connection ρ → Bool
  changed : Json → Connection ρ → Connection ρ
  queryItem : Text → Json → Query ρ → Bool
  queryLogical : Json → Query ρ → Bool
  queryChanged : Json → Query ρ → Query ρ

/-- One item of one condition of a route rule. -/
def Core.connectionItem (core : Core ρ) (key : Text) (value : Json) (c : Connection ρ) : Bool :=
  if key = "inbound".toList then
    match value with
    | .text tag => tag == c.inbound
    | _ => false
  else if key = "ip_version".toList then
    match value with
    | .int n => n == c.ipVersion
    | _ => false
  else if key = "port".toList then
    match value with
    | .int n => n == c.port
    | _ => false
  else core.item key value c

/-- One item of one condition of a DNS rule. -/
def Core.dnsItem (core : Core ρ) (key : Text) (value : Json) (q : Query ρ) : Bool :=
  if key = "inbound".toList then
    match value with
    | .text tag => tag == q.inbound
    | _ => false
  else if key = "query_type".toList then
    match value with
    | .text type => type == q.queryType
    | _ => false
  else core.queryItem key value q

/-- The route rule a connection is decided by. -/
def Core.routed (core : Core ρ) (rules : List Json) (c : Connection ρ) : Option Json :=
  decides (ruleMatches core.connectionItem core.logical) core.changed rules c

/-- The DNS rule a query is decided by. -/
def Core.answered (core : Core ρ) (rules : List Json) (q : Query ρ) : Option Json :=
  decides (ruleMatches core.dnsItem core.queryLogical) core.queryChanged rules q

section Items

theorem group_inbound : groupOf "inbound".toList = some (.own "inbound".toList) := by decide
theorem group_ip_version : groupOf "ip_version".toList = some (.own "ip_version".toList) := by decide
theorem group_query_type : groupOf "query_type".toList = some (.own "query_type".toList) := by decide
theorem group_port : groupOf "port".toList = some .port := by decide
theorem group_action : groupOf "action".toList = none := by decide
theorem group_no_drop : groupOf "no_drop".toList = none := by decide
theorem group_rcode : groupOf "rcode".toList = none := by decide

theorem own_inbound_ip_version : "inbound".toList ≠ "ip_version".toList := by decide

theorem own_inbound_query_type : "inbound".toList ≠ "query_type".toList := by decide

/-- Text and number values are items of their own under every key. -/
theorem items_text (key text : Text) : items key (.text text) = [.text text] := by
  simp [items, isOff]

theorem items_int (key : Text) (n : Int) : items key (.int n) = [.int n] := by
  simp [items, isOff]

variable (core : Core ρ) (c : Connection ρ) (q : Query ρ)

theorem connectionItem_inbound (tag : Text) : core.connectionItem "inbound".toList (.text tag) c = (tag == c.inbound) := rfl

theorem connectionItem_ip_version (n : Int) : core.connectionItem "ip_version".toList (.int n) c = (n == c.ipVersion) := by
  have hinbound : "ip_version".toList ≠ "inbound".toList := by decide
  simp only [Core.connectionItem, hinbound, if_false, if_true]

theorem connectionItem_port (n : Int) : core.connectionItem "port".toList (.int n) c = (n == c.port) := by
  have hinbound : "port".toList ≠ "inbound".toList := by decide
  have hversion : "port".toList ≠ "ip_version".toList := by decide
  simp only [Core.connectionItem, hinbound, hversion, if_false, if_true]

theorem dnsItem_inbound (tag : Text) : core.dnsItem "inbound".toList (.text tag) q = (tag == q.inbound) := rfl

theorem dnsItem_query_type (type : Text) : core.dnsItem "query_type".toList (.text type) q = (type == q.queryType) := by
  have hinbound : "query_type".toList ≠ "inbound".toList := by decide
  simp only [Core.dnsItem, hinbound, if_false, if_true]

end Items

section Decisions

variable (core : Core ρ) (tunTag systemDnsTag : Text)

theorem matches_rejectIPv6 (c : Connection ρ) : ruleMatches core.connectionItem core.logical (rejectIPv6 tunTag) c =
    (tunTag == c.inbound && (6 : Int) == c.ipVersion) := by
  rw [rejectIPv6, ruleMatches_plain]
  · rw [conditionsHold, conditions_cons_condition group_inbound, conditions_cons_condition group_ip_version, conditions_cons_option group_action,
      conditions_cons_option group_no_drop, items_text, items_int]
    simp [-String.reduceToList, allHold, conditions, group_inbound, group_ip_version, own_inbound_ip_version,
      own_inbound_ip_version.symm, connectionItem_inbound, connectionItem_ip_version]
  all_goals
    simp only [List.map_cons, List.map_nil]
    decide

theorem matches_hijackIPv6Dns (c : Connection ρ) : ruleMatches core.connectionItem core.logical (hijackIPv6Dns tunTag) c =
    (tunTag == c.inbound && ((6 : Int) == c.ipVersion && (53 : Int) == c.port)) := by
  rw [hijackIPv6Dns, ruleMatches_plain]
  · rw [conditionsHold, conditions_cons_condition group_inbound, conditions_cons_condition group_ip_version, conditions_cons_condition group_port,
      conditions_cons_option group_action, items_text, items_int, items_int]
    simp [-String.reduceToList, allHold, conditions, group_inbound, group_ip_version, group_port, own_inbound_ip_version,
      own_inbound_ip_version.symm, connectionItem_inbound,
      connectionItem_ip_version, connectionItem_port]
  all_goals
    simp only [List.map_cons, List.map_nil]
    decide

theorem matches_emptyAAAA (q : Query ρ) : ruleMatches core.dnsItem core.queryLogical (emptyAAAA tunTag systemDnsTag) q =
    ((tunTag == q.inbound || systemDnsTag == q.inbound) && "AAAA".toList == q.queryType) := by
  rw [emptyAAAA, ruleMatches_plain]
  · rw [conditionsHold, conditions_cons_condition group_inbound, conditions_cons_condition group_query_type, conditions_cons_option group_action,
      conditions_cons_option group_rcode, items_text, items]
    simp [-String.reduceToList, allHold, conditions, group_inbound, group_query_type, own_inbound_query_type,
      own_inbound_query_type.symm, dnsItem_inbound, dnsItem_query_type]
  all_goals
    simp only [List.map_cons, List.map_nil]
    decide

theorem actionOf_hijackIPv6Dns : actionOf (hijackIPv6Dns tunTag) = "hijack-dns".toList := rfl

theorem actionOf_rejectIPv6 : actionOf (rejectIPv6 tunTag) = "reject".toList := rfl

theorem actionOf_emptyAAAA : actionOf (emptyAAAA tunTag systemDnsTag) = "predefined".toList := rfl

theorem final_hijackIPv6Dns : passes (hijackIPv6Dns tunTag) = false := by
  rw [passes, actionOf_hijackIPv6Dns]
  decide

theorem final_rejectIPv6 : passes (rejectIPv6 tunTag) = false := by
  rw [passes, actionOf_rejectIPv6]
  decide

theorem final_emptyAAAA : passes (emptyAAAA tunTag systemDnsTag) = false := by
  rw [passes, actionOf_emptyAAAA]
  decide

variable (rules : List Json)

/-- An IPv6 connection from the tunnel is answered when it asks for a name, and else rejected. -/
theorem routed_tunnel (c : Connection ρ) (htun : c.inbound = tunTag) (hversion : c.ipVersion = 6) :
    core.routed (hijackIPv6Dns tunTag :: rejectIPv6 tunTag :: rules) c =
    some (if c.port = 53 then hijackIPv6Dns tunTag else rejectIPv6 tunTag) := by
  have hreject : ruleMatches core.connectionItem core.logical (rejectIPv6 tunTag) c = true := by
    rw [matches_rejectIPv6, htun, hversion]
    simp
  rw [Core.routed]
  by_cases hport : c.port = 53
  · have hhijack : ruleMatches core.connectionItem core.logical (hijackIPv6Dns tunTag) c = true := by
      rw [matches_hijackIPv6Dns, htun, hversion, hport]
      simp
    rw [decides_cons_match hhijack (final_hijackIPv6Dns tunTag), if_pos hport]
  · have hhijack : ruleMatches core.connectionItem core.logical (hijackIPv6Dns tunTag) c = false := by
      have hne : ((53 : Int) == c.port) = false := by simpa using fun h => hport h.symm
      rw [matches_hijackIPv6Dns, hne, Bool.and_false, Bool.and_false]
    rw [decides_cons_other hhijack, decides_cons_match hreject (final_rejectIPv6 tunTag), if_neg hport]

/-- Every other connection is decided as without the policy. -/
theorem routed_other (c : Connection ρ) (h : ¬(c.inbound = tunTag ∧ c.ipVersion = 6)) :
    core.routed (hijackIPv6Dns tunTag :: rejectIPv6 tunTag :: rules) c = core.routed rules c := by
  have hnot : (tunTag == c.inbound && (6 : Int) == c.ipVersion) = false := by
    rw [Bool.eq_false_iff]
    intro hboth
    rw [Bool.and_eq_true, beq_iff_eq, beq_iff_eq] at hboth
    exact h ⟨hboth.1.symm, hboth.2.symm⟩
  have hreject : ruleMatches core.connectionItem core.logical (rejectIPv6 tunTag) c = false := by
    rw [matches_rejectIPv6]
    exact hnot
  have hhijack : ruleMatches core.connectionItem core.logical (hijackIPv6Dns tunTag) c = false := by
    rw [matches_hijackIPv6Dns, ← Bool.and_assoc, hnot, Bool.false_and]
  rw [Core.routed, decides_cons_other hhijack, decides_cons_other hreject, Core.routed]

/-- A question for IPv6 addresses from the tunnel or the system's resolver is answered with nothing. -/
theorem answered_AAAA (q : Query ρ) (htun : q.inbound = tunTag ∨ q.inbound = systemDnsTag) (htype : q.queryType = "AAAA".toList) :
    core.answered (emptyAAAA tunTag systemDnsTag :: rules) q = some (emptyAAAA tunTag systemDnsTag) := by
  have hmatch : ruleMatches core.dnsItem core.queryLogical (emptyAAAA tunTag systemDnsTag) q = true := by
    rw [matches_emptyAAAA, htype]
    rcases htun with h | h <;> simp [h]
  rw [Core.answered, decides_cons_match hmatch (final_emptyAAAA tunTag systemDnsTag)]

/-- Every other query is decided as without the policy. -/
theorem answered_other (q : Query ρ) (h : ¬((q.inbound = tunTag ∨ q.inbound = systemDnsTag) ∧ q.queryType = "AAAA".toList)) :
    core.answered (emptyAAAA tunTag systemDnsTag :: rules) q = core.answered rules q := by
  have hmatch : ruleMatches core.dnsItem core.queryLogical (emptyAAAA tunTag systemDnsTag) q = false := by
    rw [matches_emptyAAAA, Bool.eq_false_iff]
    intro hboth
    rw [Bool.and_eq_true, Bool.or_eq_true, beq_iff_eq, beq_iff_eq, beq_iff_eq] at hboth
    exact h ⟨hboth.1.imp Eq.symm Eq.symm, hboth.2.symm⟩
  rw [Core.answered, decides_cons_other hmatch, Core.answered]

end Decisions

end Throne.Configs
