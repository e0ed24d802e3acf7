import Throne.Lib.Json

/-!
# How the core reads its rules

The meaning of a rule of the core's `route` or `dns` section, given by how one item of one condition
matches (`item`). The items of a condition are alternatives, and so are the conditions of one group:
the destination addresses, the destination ports, the source addresses and the source ports are a group
each, every other condition is one of its own. The groups must hold together (`allHold`), and `invert`
negates the whole. A rule that is not of this form (a logical rule) matches as `logical` says.

Rules are tried in order. One with an action that only changes what is known of the traffic is
followed by the next, with what it changed; the first other one that matches decides.
-/

namespace Throne.Core.SingBox

open Lib.Texts Lib.Json List

/-- Conditions that are alternatives to each other. -/
inductive Group where
  | address
  | port
  | sourceAddress
  | sourcePort
  | own (key : Text)
  deriving DecidableEq

def addressKeys : List Text :=
  ["domain".toList, "domain_suffix".toList, "domain_keyword".toList, "domain_regex".toList, "ip_cidr".toList, "ip_is_private".toList]

def portKeys : List Text := ["port".toList, "port_range".toList]

def sourceAddressKeys : List Text := ["source_ip_cidr".toList, "source_ip_is_private".toList]

def sourcePortKeys : List Text := ["source_port".toList, "source_port_range".toList]

/-- The conditions that stand for themselves, those of route rules and of DNS rules. -/
def ownKeys : List Text :=
  ["inbound".toList, "ip_version".toList, "network".toList, "protocol".toList, "auth_user".toList,
    "client".toList, "query_type".toList, "process_name".toList, "process_path".toList,
    "process_path_regex".toList, "package_name".toList, "user".toList, "user_id".toList,
    "clash_mode".toList, "network_type".toList, "network_is_expensive".toList,
    "network_is_constrained".toList, "wifi_ssid".toList, "wifi_bssid".toList, "rule_set".toList,
    "preferred_by".toList]

local instance : LawfulBEq Text := inferInstance

/-- The group of a key; a key that is no condition has none. -/
def groupOf (key : Text) : Option Group :=
  if key ∈ addressKeys then some .address
  else if key ∈ portKeys then some .port
  else if key ∈ sourceAddressKeys then some .sourceAddress
  else if key ∈ sourcePortKeys then some .sourcePort
  else if key ∈ ownKeys then some (.own key)
  else none

/-! ## Groups of alternatives -/

section Groups

variable {γ δ α : Type} [DecidableEq γ] [DecidableEq δ]

/-- In every group that has an item, some item holds. -/
def allHold (group : α → γ) (conditions : List α) (holds : α → Bool) : Bool :=
  conditions.all fun c => conditions.any fun d => decide (group d = group c) && holds d

theorem allHold_iff {group : α → γ} {conditions : List α} {holds : α → Bool} : allHold group conditions holds = true ↔
    ∀ c ∈ conditions, ∃ d ∈ conditions, group d = group c ∧ holds d = true := by
  simp only [allHold, all_eq_true, any_eq_true, Bool.and_eq_true, decide_eq_true_iff]

/-- Conditions imply others, however the items hold, exactly when for every group of those others there is
a group here whose items are all in that one. The two sides may be grouped in different ways. -/
theorem allHold_imp_iff (group : α → γ) (group' : α → δ) (source target : List α) :
    (∀ holds : α → Bool, allHold group source holds = true → allHold group' target holds = true) ↔
    ∀ c ∈ target, ∃ d ∈ source, ∀ e ∈ source, group e = group d → e ∈ target ∧ group' e = group' c := by
  classical
  constructor
  · intro h c hc
    by_contra hnone
    -- Let hold what is not in the group of `c`: every group of the source has such an item.
    have hsource : allHold group source (fun x => !decide (x ∈ target ∧ group' x = group' c)) = true := by
      rw [allHold_iff]
      intro d hd
      by_contra hfails
      refine hnone ⟨d, hd, fun e he hgroup => ?_⟩
      by_contra hout
      exact hfails ⟨e, he, hgroup, by rw [decide_eq_false hout]; rfl⟩
    obtain ⟨e, he, hgroup, hholds⟩ := allHold_iff.1 (h _ hsource) c hc
    rw [decide_eq_true ⟨he, hgroup⟩] at hholds
    cases hholds
  · intro h holds hsource
    rw [allHold_iff] at hsource ⊢
    intro c hc
    obtain ⟨d, hd, hall⟩ := h c hc
    obtain ⟨e, he, hgroup, hholds⟩ := hsource d hd
    obtain ⟨hmem, hgroup'⟩ := hall e he hgroup
    exact ⟨e, hmem, hgroup', hholds⟩

/-- One item implies conditions, however the items hold, exactly when it is one of them and they are all
of its group. -/
theorem allHold_of_item_iff (group : α → γ) {conditions : List α} (hne : conditions ≠ []) (x : α) :
    (∀ holds : α → Bool, holds x = true → allHold group conditions holds = true) ↔ x ∈ conditions ∧ ∀ c ∈ conditions, group c = group x := by
  classical
  constructor
  · intro h
    have hx : ∀ c ∈ conditions, x ∈ conditions ∧ group c = group x := by
      intro c hc
      obtain ⟨d, hd, hgroup, hholds⟩ := allHold_iff.1 (h (fun y => decide (y = x)) (decide_eq_true rfl)) c hc
      obtain rfl := of_decide_eq_true hholds
      exact ⟨hd, hgroup.symm⟩
    obtain ⟨c, hc⟩ := exists_mem_of_ne_nil _ hne
    exact ⟨(hx c hc).1, fun c hc => (hx c hc).2⟩
  · rintro ⟨hx, hall⟩ holds hholds
    exact allHold_iff.2 fun c hc => ⟨x, hx, (hall c hc).symm, hholds⟩

end Groups

/-! ## Rules -/

/-- The switches among the conditions. -/
def switchKeys : List Text := ["ip_is_private".toList, "source_ip_is_private".toList]

/-- A switch that is off is no condition. -/
def isOff (key : Text) (value : Json) : Bool :=
  switchKeys.contains key &&
    match value with
    | .bool b => !b
    | _ => false

/-- The items under a key: a single value is a list of one. -/
def items (key : Text) (value : Json) : List Json :=
  match value with
  | .array values => values
  | .null => []
  | value => if isOff key value then [] else [value]

/-- The conditions of a rule, item by item, each with its key. -/
def conditions (fields : Fields) : List (Text × Json) :=
  fields.flatMap fun field =>
    if (groupOf field.1).isSome then (items field.1 field.2).map fun value => (field.1, value) else []

theorem conditions_cons_condition {key : Text} {group : Group} (h : groupOf key = some group)
    (value : Json) (fields : Fields) : conditions ((key, value) :: fields) =
    (items key value).map (fun value => (key, value)) ++ conditions fields := by
  rw [conditions, flatMap_cons, h, Option.isSome_some, if_pos rfl, conditions]

/-- A field that is no condition. -/
theorem conditions_cons_option {key : Text} (h : groupOf key = none) (value : Json)
    (fields : Fields) : conditions ((key, value) :: fields) = conditions fields := by
  rw [conditions, flatMap_cons, h, Option.isSome_none, if_neg Bool.false_ne_true, nil_append, conditions]

variable {τ : Type}

/-- The conditions of a rule hold. -/
def conditionsHold (item : Text → Json → τ → Bool) (fields : Fields) (t : τ) : Bool :=
  allHold (fun x => groupOf x.1) (conditions fields) fun x => item x.1 x.2 t

/-- The switch `invert`. -/
def inverted (fields : Fields) : Bool :=
  match fields.get "invert".toList with
  | some (.bool b) => b
  | _ => false

/-- The rule matches. -/
def ruleMatches (item : Text → Json → τ → Bool) (logical : Json → τ → Bool) (rule : Json) (t : τ) :
    Bool :=
  match rule with
  | .object fields =>
    if Fields.textAt fields "type".toList = "logical".toList then logical rule t
    else conditionsHold item fields t != inverted fields
  | _ => logical rule t

/-- A rule that says neither what kind it is nor `invert` matches when its conditions hold. -/
theorem ruleMatches_plain {item : Text → Json → τ → Bool} {logical : Json → τ → Bool}
    {fields : Fields} (htype : "type".toList ∉ fields.map Prod.fst) (hinvert : "invert".toList ∉ fields.map Prod.fst) (t : τ) :
    ruleMatches item logical (.object fields) t = conditionsHold item fields t := by
  have hplain : Fields.textAt fields "type".toList ≠ "logical".toList := by
    rw [Fields.textAt_absent htype]
    decide
  have hnot : inverted fields = false := by
    rw [inverted, Fields.get_absent hinvert]
  rw [ruleMatches]
  simp only [hplain, if_false, hnot, Bool.bne_false]

/-- The action of a rule, `route` when it names none. -/
def actionOf (rule : Json) : Text :=
  match rule.toObject.textAt "action".toList with
  | [] => "route".toList
  | action => action

/-- The actions after which the next rule is tried. -/
def passes (rule : Json) : Bool := ["sniff".toList, "resolve".toList, "route-options".toList].contains (actionOf rule)

/-- The rule that decides, if any. -/
def decides (matched : Json → τ → Bool) (changed : Json → τ → τ) : List Json → τ → Option Json
  | [], _ => none
  | rule :: rules, t =>
    if matched rule t then
      if passes rule then decides matched changed rules (changed rule t) else some rule
    else decides matched changed rules t

section Decides

variable {matched : Json → τ → Bool} {changed : Json → τ → τ} {rule : Json} {rules : List Json} {t : τ}

/-- A rule that does not match is passed over. -/
theorem decides_cons_other (h : matched rule t = false) : decides matched changed (rule :: rules) t = decides matched changed rules t := by
  rw [decides, h]
  rfl

/-- A rule in front that matches and ends the search decides. -/
theorem decides_cons_match (h : matched rule t = true) (hfinal : passes rule = false) : decides matched changed (rule :: rules) t = some rule := by
  rw [decides, h, hfinal]
  rfl

end Decides

end Throne.Core.SingBox
