import Throne.Database.Entities.SimpleRulesLines

/-!
# Switching a line on and off

What `AppendSimpleRule` and `RemoveSimpleRule` do to the rules (`append_cases`, `removed_absent`). A rule of a target
is still one with other values in the list of the line (`isRuleOf_withList`), so switching on and off is seen
afterwards and undoes itself, and the rules of other targets stay (`toggle_exact`). A built-in target's rule that is
left without values of its kind goes whole, whatever else it holds (`other_kind_dropped`).
-/

namespace Throne.Database.Routes

open Lib.Texts List

variable {c : SimpleEnv} {rules : List RouteRule} {raw : Text} {target : SimpleTarget}

/-! ## Other values in one list -/

def RouteRule.withList (rule : RouteRule) (a : ListAttr) (values : List Text) : RouteRule :=
  { rule with lists := Function.update rule.lists a values }

section WithList

variable {rule : RouteRule} {a b : ListAttr} {values : List Text} {value : Text}

theorem withList_own : (rule.withList a values).lists a = values := by
  simp only [RouteRule.withList, Function.update_self]

theorem withList_other (h : b ≠ a) : (rule.withList a values).lists b = rule.lists b := by
  simp only [RouteRule.withList, Function.update_of_ne h]

theorem withList_self : rule.withList a (rule.lists a) = rule := by
  rw [RouteRule.withList, Function.update_eq_self]

theorem withList_withList (others : List Text) : (rule.withList a others).withList a values = rule.withList a values := by
  rw [RouteRule.withList, RouteRule.withList, RouteRule.withList, Function.update_idem]

theorem addValue_new (h : value ∉ rule.lists a) : rule.addValue a value = rule.withList a (rule.lists a ++ [value]) := by
  rw [RouteRule.addValue, if_neg (mt contains_iff_mem.1 h)]
  rfl

/-- A value added is values in one list. -/
theorem addValue_withList (rule : RouteRule) (a : ListAttr) (value : Text) : ∃ values, rule.addValue a value = rule.withList a values := by
  by_cases h : value ∈ rule.lists a
  · exact ⟨rule.lists a, (addValue_again h).trans withList_self.symm⟩
  · exact ⟨_, addValue_new h⟩

theorem default_withList {attr : Attr} (h : attr ≠ .list a) :
    is_attribute_at_default (rule.withList a values) attr = is_attribute_at_default rule attr := by
  cases attr with
  | list b =>
    have hb : b ≠ a := fun heq => h (congrArg Attr.list heq)
    rw [is_attribute_at_default, is_attribute_at_default, withList_other hb]
  | text t => cases t <;> rfl
  | flag _ | outbound => rfl

end WithList

/-! ## Values of a line -/

/-- The value in a line has no blanks around it. -/
theorem lineParts_trimmed {front rest : Text} (h : lineParts raw = some (front, rest)) : trimmed rest = rest := by
  rw [lineParts] at h
  split at h
  · obtain ⟨-, rfl⟩ := Prod.mk.inj (Option.some.inj h)
    exact trimmed_trimmed _
  · cases h

variable {a : ListAttr} {value : Text}

/-- A value is not blank. -/
theorem value_said (h : simple_rule_values c raw = some (a, value)) : trimmed value ≠ [] := by
  obtain ⟨front, rest, hparts, hne, -, rfl⟩ := values_parts h
  have hrest : trimmed rest ≠ [] := by
    rw [lineParts_trimmed hparts]
    exact hne
  rw [storedValue]
  split
  · exact c.lower_kept rest hrest
  · exact hrest

/-- The list of a line is one of its kind. -/
theorem mem_kindLists (htrim : trimmed raw = raw) (h : simple_rule_values c raw = some (a, value)) : a ∈ kindLists raw := by
  have hkinds : ∀ list ∈ simpleLists, lineType list.2 .proxy = .simpleAddressProxy ∧ list.2 ∈ addressLists ∨
      lineType list.2 .proxy = .simpleProcessNameProxy ∧ list.2 ∈ [ListAttr.process_name] ∨
      lineType list.2 .proxy = .simpleProcessPathProxy ∧ list.2 ∈ [ListAttr.process_path] := by decide
  obtain ⟨front, rest, -, -, hlookup, -⟩ := values_parts h
  rw [kindLists, type_of_values htrim h]
  rcases hkinds _ (mem_simpleLists hlookup) with ⟨htype, hmem⟩ | ⟨htype, hmem⟩ | ⟨htype, hmem⟩
  all_goals
    rw [htype]
    exact hmem

variable {rule : RouteRule}

/-- A rule with a value of a line has match conditions. -/
theorem has_match_of_value (h : simple_rule_values c raw = some (a, value)) (hmem : value ∈ rule.lists a) :
    rule.has_match_conditions c.darwin = true := by
  have hlists : ∀ darwin : Bool, ∀ list ∈ simpleLists,
      Attr.list list.2 ∈ get_attributes darwin ∧ is_match_attribute (.list list.2) = true := by decide
  obtain ⟨front, rest, -, -, hlookup, -⟩ := values_parts h
  obtain ⟨hattr, hmatch⟩ := hlists c.darwin _ (mem_simpleLists hlookup)
  have hvalid : isValidStrArray (rule.current (.list a)) = true := by
    rw [isValidStrArray, any_eq_true]
    refine ⟨value, hmem, ?_⟩
    rw [Bool.not_eq_true', isEmpty_eq_false_iff]
    exact value_said h
  rw [RouteRule.has_match_conditions, Bool.or_eq_true, any_eq_true]
  refine .inr ⟨.list a, hattr, ?_⟩
  rw [hvalid, hmatch]
  rfl

/-! ## Rules of a target -/

section Target

variable {rule : RouteRule} {a : ListAttr} {values : List Text} {value : Text}

theorem server_rule_withList (ha : a ∈ kindLists raw) (h : is_server_rule_for c rule raw = true)
    (hmatch : (rule.withList a values).has_match_conditions c.darwin = true) : is_server_rule_for c (rule.withList a values) raw = true := by
  rw [is_server_rule_for] at h ⊢
  split at h
  · cases h
  next hguard =>
  push Not at hguard
  obtain ⟨htype, hdisabled, haction, hid, -⟩ := hguard
  split at h
  · cases h
  next hkind =>
  have hguard' : ¬((rule.withList a values).type ≠ .custom ∨ (rule.withList a values).disabled = true ∨
      (rule.withList a values).texts .action ≠ "route".toList ∨ (rule.withList a values).outboundID < 0 ∨
      (rule.withList a values).has_match_conditions c.darwin = false) := by
    push Not
    exact ⟨htype, hdisabled, haction, hid, ne_of_eq_of_ne hmatch Bool.true_eq_false.mp⟩
  rw [if_neg hguard', if_neg hkind, all_eq_true]
  intro attr hattr
  have hold := all_eq_true.1 h attr hattr
  by_cases hown : attr = .list a
  · have hany : (kindLists raw).any (fun b => attr = .list b) = true :=
      any_eq_true.2 ⟨a, ha, decide_eq_true hown⟩
    rw [hany, Bool.or_true, Bool.true_or]
  · rw [default_withList hown]
    exact hold

/-- A server rule has match conditions. -/
theorem server_rule_matches (h : is_server_rule_for c rule raw = true) : rule.has_match_conditions c.darwin = true := by
  rw [is_server_rule_for] at h
  split at h
  · cases h
  next hguard =>
  push Not at hguard
  exact eq_true_of_ne_false hguard.2.2.2.2

theorem isRuleOf_server (h : target.isServer = true) : isRuleOf c raw target rule = true ↔ get_rule_type raw target.action ≠ .custom ∧
    rule.outboundID = target.serverID ∧ is_server_rule_for c rule raw = true := by
  rw [isRuleOf, if_pos h, Bool.and_eq_true, decide_eq_true_iff, Bool.and_eq_true, decide_eq_true_iff]

theorem isRuleOf_builtin (h : target.isServer = false) : isRuleOf c raw target rule = true ↔ get_rule_type raw target.action ≠ .custom ∧
    rule.type = get_rule_type raw target.action := by
  rw [isRuleOf, h, if_neg Bool.false_ne_true, Bool.and_eq_true, decide_eq_true_iff, decide_eq_true_iff]

/-- With other values in a list of the kind it is a rule of the target still. -/
theorem isRuleOf_withList (ha : a ∈ kindLists raw) (h : isRuleOf c raw target rule = true)
    (hmatch : target.isServer = true → (rule.withList a values).has_match_conditions c.darwin = true) :
    isRuleOf c raw target (rule.withList a values) = true := by
  cases hserver : target.isServer with
  | true =>
    obtain ⟨hline, hid, hrule⟩ := (isRuleOf_server hserver).1 h
    exact (isRuleOf_server hserver).2 ⟨hline, hid, server_rule_withList ha hrule (hmatch hserver)⟩
  | false =>
    have htype := (isRuleOf_builtin hserver).1 h
    exact (isRuleOf_builtin hserver).2 htype

/-- With one more value, too. -/
theorem isRuleOf_addValue (htrim : trimmed raw = raw) (hvalues : simple_rule_values c raw = some (a, value))
    (h : isRuleOf c raw target rule = true) : isRuleOf c raw target (rule.addValue a value) = true := by
  by_cases hmem : value ∈ rule.lists a
  · rw [addValue_again hmem]
    exact h
  · rw [addValue_new hmem]
    apply isRuleOf_withList (mem_kindLists htrim hvalues) h
    intro _
    apply has_match_of_value hvalues
    rw [withList_own]
    exact mem_append_right _ (mem_singleton_self value)

end Target

/-! ## A new rule -/

/-- The rule that a target gets. -/
def NewRule (c : SimpleEnv) (rules : List RouteRule) (raw : Text) (target : SimpleTarget) (new : RouteRule) : Prop :=
  if target.isServer then ∃ server, c.server target.serverID = some server ∧ new = newServerRule rules raw target server
  else NewSimpleRule (get_rule_type raw target.action) = some new

section New

variable {new : RouteRule} {a : ListAttr} {value : Text}

theorem new_lists (h : NewRule c rules raw target new) (a : ListAttr) : new.lists a = [] := by
  rw [NewRule] at h
  split at h
  · obtain ⟨server, -, rfl⟩ := h
    rfl
  · have hall : ∀ rule ∈ get_simple_rules, ∀ a, rule.lists a = [] := by
      intro rule hrule
      simp only [get_simple_rules, mem_cons, not_mem_nil, or_false] at hrule
      rcases hrule with rfl | rfl | rfl | rfl | rfl | rfl | rfl | rfl | rfl | rfl | rfl | rfl <;> exact fun _ => rfl
    exact hall new (mem_of_find?_eq_some h) a

/-- A new server rule has every attribute but the outbound at its default, and no match conditions. -/
theorem new_server_default (server : Server) {attr : Attr} (h : attr ≠ .outbound) :
    is_attribute_at_default (newServerRule rules raw target server) attr = true := by
  cases attr with
  | list _ | flag _ => rfl
  | text t => cases t <;> rfl
  | outbound => exact absurd rfl h

theorem new_server_unmatched (server : Server) : (newServerRule rules raw target server).has_match_conditions c.darwin = false := by
  have hflags : (newServerRule rules raw target server).flags = fun _ => false := rfl
  rw [RouteRule.has_match_conditions, hflags, Bool.false_or, Bool.false_or, any_eq_false]
  intro attr _
  rw [Bool.not_eq_true]
  cases attr with
  | list _ | flag _ => exact Bool.and_false _
  | text t => cases t <;> rfl
  | outbound => rfl

section

variable (htrim : trimmed raw = raw) (hvalues : simple_rule_values c raw = some (a, value)) (h : NewRule c rules raw target new)

include htrim hvalues h

/-- A new rule is empty. -/
theorem new_leftEmpty : (if target.isServer then !new.has_match_conditions c.darwin else new.isEmpty c) = true := by
  have hlists := new_lists h
  rw [NewRule] at h
  split at h
  · next hserver =>
    obtain ⟨server, -, rfl⟩ := h
    rw [if_pos hserver, new_server_unmatched]
    rfl
  · next hserver =>
    rw [NewSimpleRule, find?_eq_some_iff_append] at h
    have htype : new.type = lineType a target.action := (of_decide_eq_true h.1).trans (type_of_values htrim hvalues target.action)
    obtain ⟨hcustom, hendpoint⟩ := simpleTypes_ne_custom (htype ▸ lineType_mem a target.action)
    rw [if_neg hserver, RouteRule.isEmpty, if_pos hcustom, if_neg hendpoint]
    split
    · exact all_eq_true.2 fun a _ => List.isEmpty_iff.2 (hlists a)
    · rw [hlists, hlists]
      rfl

/-- With the value of the line the new rule is one of the target. -/
theorem isRuleOf_new : isRuleOf c raw target (new.addValue a value) = true := by
  have hkind (action : SimpleAction) : get_rule_type raw action ≠ .custom := by
    rw [type_of_values htrim hvalues]
    exact (simpleTypes_ne_custom (lineType_mem a action)).1
  have hfresh : value ∉ new.lists a := by
    rw [new_lists h]
    exact not_mem_nil
  rw [NewRule] at h
  cases hserver : target.isServer with
  | true =>
    rw [if_pos hserver] at h
    obtain ⟨server, -, rfl⟩ := h
    have hid : 0 ≤ target.serverID := of_decide_eq_true hserver
    refine (isRuleOf_server hserver).2 ⟨hkind _, ?_, ?_⟩
    · rw [addValue_new hfresh]
      rfl
    · rw [addValue_new hfresh, is_server_rule_for, if_neg, if_neg (hkind _), all_eq_true]
      · intro attr _
        by_cases houtbound : attr = .outbound
        · rw [decide_eq_true houtbound, Bool.true_or, Bool.true_or]
        by_cases hown : attr = .list a
        · have hany : (kindLists raw).any (fun b => attr = .list b) = true :=
            any_eq_true.2 ⟨a, mem_kindLists htrim hvalues, decide_eq_true hown⟩
          rw [hany, Bool.or_true, Bool.true_or]
        · rw [default_withList hown, new_server_default server houtbound, Bool.or_true]
      · push Not
        refine ⟨rfl, Bool.false_ne_true, rfl, hid, ?_⟩
        rw [has_match_of_value hvalues]
        · exact Bool.true_eq_false.mp
        · rw [withList_own]
          exact mem_append_right _ (mem_singleton_self value)
  | false =>
    rw [hserver, if_neg Bool.false_ne_true] at h
    refine (isRuleOf_builtin hserver).2 ⟨hkind _, ?_⟩
    rw [NewSimpleRule, find?_eq_some_iff_append] at h
    have htype := of_decide_eq_true h.1
    exact addValue_type.trans htype

end

end New

/-! ## What a call does -/

section Calls

variable {a : ListAttr} {value : Text}

theorem updateFirst_split {p : RouteRule → Bool} {f : RouteRule → RouteRule} {front back : List RouteRule} (hfront : ∀ other ∈ front, p other = false) (hrule : p rule = true) :
    updateFirst p f (front ++ rule :: back) = front ++ f rule :: back := by
  induction front with
  | nil => exact if_pos hrule
  | cons first front ih =>
    rw [cons_append, updateFirst, hfront first mem_cons_self, if_neg Bool.false_ne_true,
      ih fun other hother => hfront other (mem_cons_of_mem _ hother), cons_append]

/-- A line is added to the first rule of its target. -/
theorem append_existing (htrim : trimmed raw = raw) (hvalues : simple_rule_values c raw = some (a, value))
    (hcheck : CheckSimpleRule c raw = []) {front back : List RouteRule}
    (hfront : ∀ other ∈ front, isRuleOf c raw target other = false) (hrule : isRuleOf c raw target rule = true) :
    AppendSimpleRule c (front ++ rule :: back) raw target = (true, [], front ++ rule.addValue a value :: back) := by
  have hne : raw ≠ [] := by
    rintro rfl
    exact absurd hvalues (by simp [simple_rule_values, lineParts])
  have htype := type_of_values htrim hvalues target.action
  have hfind : (front ++ rule :: back).find? (isRuleOf c raw target) = some rule := by
    refine find?_eq_some_iff_append.2 ⟨hrule, front, back, rfl, ?_⟩
    intro other hother
    rw [hfront other hother]
    rfl
  rw [AppendSimpleRule, htrim, if_neg hne]
  simp only [htype, if_neg (simpleTypes_ne_custom (lineType_mem a target.action)).1, hfind, add_of_values hcheck hvalues]
  rw [updateFirst_split hfront hrule]

/-- A call that is refused changes nothing. One that is not adds the value of the line to the first rule of the
target, or behind all rules to a new one. -/
theorem append_cases (c : SimpleEnv) (rules : List RouteRule) (htrim : trimmed raw = raw) (target : SimpleTarget) :
    ((AppendSimpleRule c rules raw target).1 = false ∧ (AppendSimpleRule c rules raw target).2.2 = rules) ∨
    ∃ a value, simple_rule_values c raw = some (a, value) ∧ CheckSimpleRule c raw = [] ∧
    (AppendSimpleRule c rules raw target).1 = true ∧ ((∃ front rule back, rules = front ++ rule :: back ∧
    (∀ other ∈ front, isRuleOf c raw target other = false) ∧ isRuleOf c raw target rule = true ∧
    (AppendSimpleRule c rules raw target).2.2 = front ++ rule.addValue a value :: back) ∨
    ((∀ rule ∈ rules, isRuleOf c raw target rule = false) ∧ ∃ new, NewRule c rules raw target new ∧
    (AppendSimpleRule c rules raw target).2.2 = rules ++ [new.addValue a value])) := by
  rw [AppendSimpleRule, htrim]
  split
  · exact .inl ⟨rfl, rfl⟩
  next hne =>
  dsimp only
  split
  · exact .inl ⟨rfl, rfl⟩
  next hline =>
  by_cases hcheck : CheckSimpleRule c raw = []
  · obtain ⟨a, value, hvalues⟩ := accepted_values htrim hne hcheck
    have htype := type_of_values htrim hvalues target.action
    have hadd (rule : RouteRule) : add_simple_rule c raw rule (get_rule_type raw target.action) = .ok (rule.addValue a value) := by
      rw [htype]
      exact add_of_values hcheck hvalues rule target.action
    split
    · next rule hfind =>
      obtain ⟨hrule, front, back, rfl, hfront⟩ := find?_eq_some_iff_append.1 hfind
      have hfalse : ∀ other ∈ front, isRuleOf c raw target other = false := by
        intro other hother
        rw [← Bool.not_eq_true']
        exact hfront other hother
      simp only [hadd]
      refine .inr ⟨a, value, hvalues, hcheck, trivial, .inl ⟨front, rule, back, rfl, hfalse, hrule, ?_⟩⟩
      exact updateFirst_split hfalse hrule
    · next hfind =>
      have hnone : ∀ rule ∈ rules, isRuleOf c raw target rule = false := by
        intro rule hrule
        rw [← Bool.not_eq_true]
        exact find?_eq_none.1 hfind rule hrule
      split
      · exact .inl ⟨rfl, rfl⟩
      next new hnew =>
      simp only [hadd]
      refine .inr ⟨a, value, hvalues, hcheck, trivial, .inr ⟨hnone, new, ?_, rfl⟩⟩
      rw [NewRule]
      split at hnew
      · next hisServer =>
        obtain ⟨server, hserver, rfl⟩ := Option.map_eq_some_iff.1 hnew
        rw [if_pos hisServer]
        exact ⟨server, hserver, rfl⟩
      · next hisServer =>
        rw [if_neg hisServer]
        exact hnew
  · have hadd (rule : RouteRule) (type : RuleType) : add_simple_rule c raw rule type = .error (CheckSimpleRule c raw) := add_refused hcheck rule type
    left
    split
    · simp only [hadd]
      exact ⟨trivial, trivial⟩
    · split
      · exact ⟨rfl, rfl⟩
      · simp only [hadd]
        exact ⟨trivial, trivial⟩

/-- A line is in a target's rules when its value is in its list of one of them. -/
theorem has_iff (c : SimpleEnv) (rules : List RouteRule) (htrim : trimmed raw = raw) (target : SimpleTarget) :
    HasSimpleRule c rules raw target = true ↔ ∃ a value, simple_rule_values c raw = some (a, value) ∧
    ∃ rule ∈ rules, isRuleOf c raw target rule = true ∧ value ∈ rule.lists a := by
  rw [HasSimpleRule, htrim, any_eq_true]
  constructor
  · rintro ⟨rule, hrule, hvalue⟩
    obtain ⟨hmem, hown⟩ := mem_filter.1 hrule
    split at hvalue
    · cases hvalue
    · next a value hvalues =>
      exact ⟨a, value, hvalues, rule, hmem, hown, contains_iff_mem.1 hvalue⟩
  · rintro ⟨a, value, hvalues, rule, hmem, hown, hvalue⟩
    refine ⟨rule, mem_filter.2 ⟨hmem, hown⟩, ?_⟩
    rw [hvalues]
    exact contains_iff_mem.2 hvalue

/-- What a removal does to a rule. -/
def removeFrom (c : SimpleEnv) (raw : Text) (target : SimpleTarget) (a : ListAttr) (value : Text) (rule : RouteRule) : Option RouteRule :=
  if isRuleOf c raw target rule then withoutValue c target a value rule else some rule

theorem remove_rules (htrim : trimmed raw = raw) (hvalues : simple_rule_values c raw = some (a, value)) :
    (RemoveSimpleRule c rules raw target).2 = rules.filterMap (removeFrom c raw target a value) := by
  rw [RemoveSimpleRule, htrim, hvalues]
  rfl

/-- Rules of other targets and rules without the value stay. -/
theorem removeFrom_absent (h : isRuleOf c raw target rule = true → value ∉ rule.lists a) : removeFrom c raw target a value rule = some rule := by
  rw [removeFrom]
  split
  · next hown =>
    rw [withoutValue, if_neg]
    rw [contains_iff_mem]
    exact h hown
  · rfl

theorem removed_absent (h : ∀ rule ∈ rules, isRuleOf c raw target rule = true → value ∉ rule.lists a) :
    rules.filterMap (removeFrom c raw target a value) = rules := by
  rw [filterMap_congr fun rule hrule => removeFrom_absent (h rule hrule), filterMap_some]

/-- Whether a rule is left empty: a server's without match conditions, another without values of its kind. -/
def leftEmpty (c : SimpleEnv) (target : SimpleTarget) (rule : RouteRule) : Bool :=
  if target.isServer then !rule.has_match_conditions c.darwin else rule.isEmpty c

theorem removeFrom_own (hown : isRuleOf c raw target rule = true) (hmem : value ∈ rule.lists a) : removeFrom c raw target a value rule =
    if leftEmpty c target (rule.withList a ((rule.lists a).filter (· ≠ value))) then none
    else some (rule.withList a ((rule.lists a).filter (· ≠ value))) := by
  rw [removeFrom, if_pos hown, withoutValue, if_pos (contains_iff_mem.2 hmem)]
  rfl

/-- What was added alone is taken off alone. -/
theorem removeFrom_added (hown : isRuleOf c raw target (rule.addValue a value) = true) (hfresh : value ∉ rule.lists a) :
    removeFrom c raw target a value (rule.addValue a value) = if leftEmpty c target rule then none else some rule := by
  have hmem : value ∈ (rule.addValue a value).lists a := mem_addValue.2 (.inr ⟨rfl, rfl⟩)
  have hback : (rule.addValue a value).withList a (((rule.addValue a value).lists a).filter (· ≠ value)) = rule := by
    have hfilter : (rule.lists a ++ [value]).filter (· ≠ value) = rule.lists a := by
      rw [filter_append, filter_eq_self.2]
      · simp only [ne_eq, not_true_eq_false, decide_false, filter_cons, Bool.false_eq_true, if_false, filter_nil, append_nil]
      · intro other hother
        exact decide_eq_true fun heq => hfresh (heq ▸ hother)
    rw [addValue_new hfresh, withList_withList, withList_own, hfilter, withList_self]
  rw [removeFrom_own hown hmem, hback]

end Calls

/-! ## Other targets -/

/-- Two targets with the same rules: one server, or one action. -/
def SimpleTarget.same (target other : SimpleTarget) : Bool :=
  if target.isServer then other.serverID = target.serverID else !other.isServer && other.action = target.action

theorem get_rule_type_mem {action : SimpleAction} (h : get_rule_type raw action ≠ .custom) : get_rule_type raw action ∈ simpleTypes action := by
  rw [get_rule_type] at h ⊢
  split
  · exact mem_cons_self
  split
  · exact mem_cons_of_mem _ mem_cons_self
  split
  · exact mem_cons_of_mem _ (mem_cons_of_mem _ mem_cons_self)
  · next haddress hname hpath =>
    rw [if_neg haddress, if_neg hname, if_neg hpath] at h
    exact absurd rfl h

theorem simpleTypes_disjoint {action other : SimpleAction} {type : RuleType} (h : type ∈ simpleTypes action)
    (hother : type ∈ simpleTypes other) : action = other := by
  cases action <;> cases other <;> revert type <;> decide

theorem server_rule_custom (h : is_server_rule_for c rule raw = true) : rule.type = .custom := by
  rw [is_server_rule_for] at h
  split at h
  · cases h
  next hguard =>
  push Not at hguard
  exact hguard.1

/-- A rule of a target is no rule of another, for whatever line. -/
theorem isRuleOf_other (h : isRuleOf c raw target rule = true) {other : SimpleTarget}
    (hother : target.same other = false) (line : Text) : isRuleOf c line other rule = false := by
  rw [← Bool.not_eq_true]
  intro hboth
  rw [SimpleTarget.same] at hother
  cases htarget : target.isServer with
  | true =>
    rw [if_pos htarget, decide_eq_false_iff_not] at hother
    obtain ⟨-, hid, hrule⟩ := (isRuleOf_server htarget).1 h
    cases hserver : other.isServer with
    | true => exact hother (((isRuleOf_server hserver).1 hboth).2.1.symm.trans hid)
    | false =>
      obtain ⟨hline, htype⟩ := (isRuleOf_builtin hserver).1 hboth
      exact hline (htype.symm.trans (server_rule_custom hrule))
  | false =>
    rw [htarget, if_neg Bool.false_ne_true] at hother
    obtain ⟨hline, htype⟩ := (isRuleOf_builtin htarget).1 h
    cases hserver : other.isServer with
    | true => exact hline (htype.symm.trans (server_rule_custom ((isRuleOf_server hserver).1 hboth).2.2))
    | false =>
      obtain ⟨hline', htype'⟩ := (isRuleOf_builtin hserver).1 hboth
      rw [hserver, Bool.not_false, Bool.true_and, decide_eq_false_iff_not] at hother
      have hmem := get_rule_type_mem hline
      rw [← htype, htype'] at hmem
      exact hother (simpleTypes_disjoint (get_rule_type_mem hline') hmem)

/-! ## The toggle -/

/-- A rule after a call: as it was, or one of the target with other values in a list of the line's kind. -/
def Touched (c : SimpleEnv) (raw : Text) (target : SimpleTarget) (old new : RouteRule) : Prop :=
  new = old ∨ isRuleOf c raw target old = true ∧ isRuleOf c raw target new = true ∧ ∃ a ∈ kindLists raw, ∃ values, new = old.withList a values

/-- The rules as they were, up to an empty one of a type. -/
def Restored (c : SimpleEnv) (type : RuleType) (rules after : List RouteRule) : Prop :=
  after = rules ∨ ∃ front rule back, rules = front ++ rule :: back ∧ rule.type = type ∧ rule.isEmpty c = true ∧ after = front ++ back

/-- What a call leaves of the other rules: those of other targets stay, and no server rule is new that has no match
conditions. -/
structure Apart (c : SimpleEnv) (target : SimpleTarget) (rules after : List RouteRule) : Prop where
  others : ∀ other, target.same other = false → ∀ line, rules_for c after line other = rules_for c rules line other
  conditions : target.isServer = true → ∀ rule ∈ after, rule ∈ rules ∨ rule.has_match_conditions c.darwin = true

/-- A line switched on and off for a target. -/
structure Toggle (c : SimpleEnv) (rules : List RouteRule) (line : Text) (target : SimpleTarget) : Prop where
  on : (AppendSimpleRule c rules line target).1 = true → HasSimpleRule c (AppendSimpleRule c rules line target).2.2 line target = true
  again : (AppendSimpleRule c rules line target).1 = true → AppendSimpleRule c (AppendSimpleRule c rules line target).2.2 line target =
      (true, [], (AppendSimpleRule c rules line target).2.2)
  off : HasSimpleRule c (RemoveSimpleRule c rules line target).2 line target = false
  restored : HasSimpleRule c rules line target = false → (AppendSimpleRule c rules line target).1 = true →
    Restored c (get_rule_type (trimmed line) target.action) rules (RemoveSimpleRule c (AppendSimpleRule c rules line target).2.2 line target).2
  refused : (AppendSimpleRule c rules line target).1 = false → (AppendSimpleRule c rules line target).2.2 = rules
  appended : ∃ changed added, (AppendSimpleRule c rules line target).2.2 = changed ++ added ∧
    List.Forall₂ (Touched c (trimmed line) target) rules changed ∧
    ∀ rule ∈ added, isRuleOf c (trimmed line) target rule = true ∧ ∀ a, a ∉ kindLists (trimmed line) → rule.lists a = []
  removed : ∃ kept : RouteRule → Bool, List.Forall₂ (Touched c (trimmed line) target) (rules.filter kept) (RemoveSimpleRule c rules line target).2 ∧
    ∀ rule ∈ rules, kept rule = false → isRuleOf c (trimmed line) target rule = true ∧
      ∃ a value, simple_rule_values c (trimmed line) = some (a, value) ∧ value ∈ rule.lists a ∧
        leftEmpty c target (rule.withList a ((rule.lists a).filter (· ≠ value))) = true
  append_apart : Apart c target rules (AppendSimpleRule c rules line target).2.2
  remove_apart : Apart c target rules (RemoveSimpleRule c rules line target).2

section Toggle

variable (htrim : trimmed raw = raw)
include htrim

theorem append_has (h : (AppendSimpleRule c rules raw target).1 = true) :
    HasSimpleRule c (AppendSimpleRule c rules raw target).2.2 raw target = true := by
  rcases append_cases c rules htrim target with ⟨hfalse, -⟩ | ⟨a, value, hvalues, -, -, hcases⟩
  · exact absurd (hfalse.symm.trans h) Bool.false_ne_true
  have hin (rule : RouteRule) : value ∈ (rule.addValue a value).lists a := mem_addValue.2 (.inr ⟨rfl, rfl⟩)
  rw [has_iff _ _ htrim]
  refine ⟨a, value, hvalues, ?_⟩
  rcases hcases with ⟨front, rule, back, rfl, -, hrule, hafter⟩ | ⟨-, new, hnew, hafter⟩
  · rw [hafter]
    exact ⟨_, mem_append_right _ mem_cons_self, isRuleOf_addValue htrim hvalues hrule, hin rule⟩
  · rw [hafter]
    exact ⟨_, mem_append_right _ mem_cons_self, isRuleOf_new htrim hvalues hnew, hin new⟩

theorem append_again (h : (AppendSimpleRule c rules raw target).1 = true) :
    AppendSimpleRule c (AppendSimpleRule c rules raw target).2.2 raw target = (true, [], (AppendSimpleRule c rules raw target).2.2) := by
  rcases append_cases c rules htrim target with ⟨hfalse, -⟩ | ⟨a, value, hvalues, hcheck, -, hcases⟩
  · exact absurd (hfalse.symm.trans h) Bool.false_ne_true
  have hagain (rule : RouteRule) : (rule.addValue a value).addValue a value = rule.addValue a value :=
    addValue_again (mem_addValue.2 (.inr ⟨rfl, rfl⟩))
  rcases hcases with ⟨front, rule, back, rfl, hfront, hrule, hafter⟩ | ⟨hnone, new, hnew, hafter⟩
  · rw [hafter, append_existing htrim hvalues hcheck hfront (isRuleOf_addValue htrim hvalues hrule), hagain]
  · rw [hafter, append_existing htrim hvalues hcheck hnone (isRuleOf_new htrim hvalues hnew), hagain]

theorem remove_has : HasSimpleRule c (RemoveSimpleRule c rules raw target).2 raw target = false := by
  rw [← Bool.not_eq_true]
  intro h
  obtain ⟨a, value, hvalues, new, hnew, hown, hvalue⟩ := (has_iff _ _ htrim _).1 h
  rw [remove_rules htrim hvalues] at hnew
  obtain ⟨rule, -, hrule⟩ := mem_filterMap.1 hnew
  by_cases hmem : isRuleOf c raw target rule = true ∧ value ∈ rule.lists a
  · rw [removeFrom_own hmem.1 hmem.2] at hrule
    split at hrule
    · cases hrule
    · rw [← Option.some.inj hrule, withList_own] at hvalue
      exact absurd rfl (of_decide_eq_true (mem_filter.1 hvalue).2)
  · rw [removeFrom_absent (not_and.1 hmem)] at hrule
    cases hrule
    exact hmem ⟨hown, hvalue⟩

theorem remove_restores (hoff : HasSimpleRule c rules raw target = false)
    (h : (AppendSimpleRule c rules raw target).1 = true) : Restored c (get_rule_type raw target.action) rules
    (RemoveSimpleRule c (AppendSimpleRule c rules raw target).2.2 raw target).2 := by
  rcases append_cases c rules htrim target with ⟨hfalse, -⟩ | ⟨a, value, hvalues, -, -, hcases⟩
  · exact absurd (hfalse.symm.trans h) Bool.false_ne_true
  have habsent : ∀ rule ∈ rules, isRuleOf c raw target rule = true → value ∉ rule.lists a := by
    intro rule hrule hown hvalue
    have hon := (has_iff c rules htrim target).2 ⟨a, value, hvalues, rule, hrule, hown, hvalue⟩
    exact Bool.false_ne_true (hoff.symm.trans hon)
  rw [remove_rules htrim hvalues]
  rcases hcases with ⟨front, rule, back, rfl, -, hrule, hafter⟩ | ⟨-, new, hnew, hafter⟩
  · have hfront := fun other hother => habsent other (mem_append_left _ hother)
    have hback := fun other hother => habsent other (mem_append_right _ (mem_cons_of_mem _ hother))
    have hfresh := habsent rule (mem_append_right _ mem_cons_self) hrule
    have hadded := removeFrom_added (isRuleOf_addValue htrim hvalues hrule) hfresh
    rw [hafter, filterMap_append, filterMap_cons, removed_absent hfront, removed_absent hback, hadded]
    split
    · next hnone =>
      split at hnone
      · next hempty =>
        cases hserver : target.isServer with
        | true =>
          rw [leftEmpty, if_pos hserver, server_rule_matches ((isRuleOf_server hserver).1 hrule).2.2] at hempty
          cases hempty
        | false =>
          rw [leftEmpty, hserver, if_neg Bool.false_ne_true] at hempty
          exact .inr ⟨front, rule, back, rfl, ((isRuleOf_builtin hserver).1 hrule).2, hempty, rfl⟩
      · cases hnone
    · next kept hsome =>
      split at hsome
      · cases hsome
      · rw [← Option.some.inj hsome]
        exact .inl rfl
  · have hfresh : value ∉ new.lists a := by
      rw [new_lists hnew]
      exact not_mem_nil
    have hempty : leftEmpty c target new = true := new_leftEmpty htrim hvalues hnew
    have hadded := removeFrom_added (isRuleOf_new htrim hvalues hnew) hfresh
    rw [if_pos hempty] at hadded
    rw [hafter, filterMap_append, removed_absent habsent, filterMap_cons, hadded]
    exact .inl (append_nil rules)

theorem append_refused (h : (AppendSimpleRule c rules raw target).1 = false) : (AppendSimpleRule c rules raw target).2.2 = rules := by
  rcases append_cases c rules htrim target with ⟨-, hsame⟩ | ⟨-, -, -, -, htrue, -⟩
  · exact hsame
  · exact absurd (h.symm.trans htrue) Bool.false_ne_true

/-! ### What else changes -/

theorem touched_addValue (hvalues : simple_rule_values c raw = some (a, value)) (h : isRuleOf c raw target rule = true) : Touched c raw target rule (rule.addValue a value) := by
  obtain ⟨values, hwith⟩ := addValue_withList rule a value
  exact .inr ⟨h, isRuleOf_addValue htrim hvalues h, a, mem_kindLists htrim hvalues, values, hwith⟩

variable (target) in
/-- A removal touches a rule of the target, or drops it because it is left empty. -/
theorem removeFrom_spec (hvalues : simple_rule_values c raw = some (a, value)) (rule : RouteRule) :
    (∃ new, removeFrom c raw target a value rule = some new ∧ Touched c raw target rule new) ∨
    removeFrom c raw target a value rule = none ∧ isRuleOf c raw target rule = true ∧ value ∈ rule.lists a ∧
    leftEmpty c target (rule.withList a ((rule.lists a).filter (· ≠ value))) = true := by
  by_cases hmem : isRuleOf c raw target rule = true ∧ value ∈ rule.lists a
  · obtain ⟨hown, hvalue⟩ := hmem
    rw [removeFrom_own hown hvalue]
    split
    · next hempty => exact .inr ⟨rfl, hown, hvalue, hempty⟩
    · next hkept =>
      have ha := mem_kindLists htrim hvalues
      refine .inl ⟨_, rfl, .inr ⟨hown, isRuleOf_withList ha hown ?_, a, ha, _, rfl⟩⟩
      intro hserver
      rw [leftEmpty, if_pos hserver, Bool.not_eq_true', Bool.not_eq_false] at hkept
      exact hkept
  · exact .inl ⟨rule, removeFrom_absent (not_and.1 hmem), .inl rfl⟩

theorem append_frame : ∃ changed added, (AppendSimpleRule c rules raw target).2.2 = changed ++ added ∧
    List.Forall₂ (Touched c raw target) rules changed ∧
    ∀ rule ∈ added, isRuleOf c raw target rule = true ∧ ∀ a, a ∉ kindLists raw → rule.lists a = [] := by
  have hsame (rules : List RouteRule) : List.Forall₂ (Touched c raw target) rules rules :=
    List.forall₂_same.2 fun _ _ => .inl rfl
  rcases append_cases c rules htrim target with ⟨-, hafter⟩ | ⟨a, value, hvalues, -, -, hcases⟩
  · exact ⟨rules, [], by rw [hafter, append_nil], hsame rules, nofun⟩
  rcases hcases with ⟨front, rule, back, rfl, -, hrule, hafter⟩ | ⟨-, new, hnew, hafter⟩
  · refine ⟨front ++ rule.addValue a value :: back, [], by rw [hafter, append_nil], ?_, nofun⟩
    exact rel_append (hsame front) (List.Forall₂.cons (touched_addValue htrim hvalues hrule) (hsame back))
  · refine ⟨rules, [new.addValue a value], hafter, hsame rules, ?_⟩
    intro rule hrule
    rw [mem_singleton.1 hrule]
    refine ⟨isRuleOf_new htrim hvalues hnew, fun b hb => ?_⟩
    obtain ⟨values, hwith⟩ := addValue_withList new a value
    have hne : b ≠ a := fun heq => hb (heq ▸ mem_kindLists htrim hvalues)
    rw [hwith, withList_other hne, new_lists hnew]

theorem remove_frame : ∃ kept : RouteRule → Bool, List.Forall₂ (Touched c raw target) (rules.filter kept) (RemoveSimpleRule c rules raw target).2 ∧
    ∀ rule ∈ rules, kept rule = false → isRuleOf c raw target rule = true ∧
    ∃ a value, simple_rule_values c raw = some (a, value) ∧ value ∈ rule.lists a ∧
    leftEmpty c target (rule.withList a ((rule.lists a).filter (· ≠ value))) = true := by
  cases hvalues : simple_rule_values c raw with
  | none =>
    refine ⟨fun _ => true, ?_, fun _ _ h => absurd h.symm Bool.false_ne_true⟩
    have hsame : (RemoveSimpleRule c rules raw target).2 = rules := by
      rw [RemoveSimpleRule, htrim, hvalues]
    rw [hsame, filter_true]
    exact List.forall₂_same.2 fun _ _ => .inl rfl
  | some parts =>
    obtain ⟨a, value⟩ := parts
    refine ⟨fun rule => (removeFrom c raw target a value rule).isSome, ?_, ?_⟩
    · rw [remove_rules htrim hvalues]
      induction rules with
      | nil => exact List.Forall₂.nil
      | cons rule rules ih =>
        rcases removeFrom_spec target htrim hvalues rule with ⟨new, hnew, htouched⟩ | ⟨hnone, -⟩
        · rw [filterMap_cons, hnew, filter_cons, hnew]
          exact List.Forall₂.cons htouched ih
        · rw [filterMap_cons, hnone, filter_cons, hnone]
          exact ih
    · intro rule _ hnot
      rcases removeFrom_spec target htrim hvalues rule with ⟨new, hnew, -⟩ | ⟨-, hown, hvalue, hempty⟩
      · have hsome : (removeFrom c raw target a value rule).isSome = false := hnot
        rw [hnew] at hsome
        exact absurd hsome.symm Bool.false_ne_true
      · exact ⟨hown, a, value, rfl, hvalue, hempty⟩

theorem append_apart : Apart c target rules (AppendSimpleRule c rules raw target).2.2 := by
  rcases append_cases c rules htrim target with ⟨-, hafter⟩ | ⟨a, value, hvalues, -, -, hcases⟩
  · rw [hafter]
    exact ⟨fun _ _ _ => rfl, fun _ _ h => .inl h⟩
  rcases hcases with ⟨front, rule, back, rfl, -, hrule, hafter⟩ | ⟨-, new, hnew, hafter⟩
  · have hown := isRuleOf_addValue htrim hvalues hrule
    rw [hafter]
    constructor
    · intro other hother line
      rw [rules_for, rules_for, filter_append, filter_append, filter_cons, filter_cons, isRuleOf_other hrule hother, isRuleOf_other hown hother]
      rfl
    · intro hserver new hnew
      rw [mem_append, mem_cons] at hnew
      rcases hnew with hfront | rfl | hback
      · exact .inl (mem_append_left _ hfront)
      · exact .inr (server_rule_matches ((isRuleOf_server hserver).1 hown).2.2)
      · exact .inl (mem_append_right _ (mem_cons_of_mem _ hback))
  · have hown := isRuleOf_new htrim hvalues hnew
    rw [hafter]
    constructor
    · intro other hother line
      rw [rules_for, rules_for, filter_append, filter_singleton, isRuleOf_other hown hother]
      exact append_nil _
    · intro hserver rule hrule
      rcases mem_append.1 hrule with hrule | hrule
      · exact .inl hrule
      · rw [mem_singleton.1 hrule]
        exact .inr (server_rule_matches ((isRuleOf_server hserver).1 hown).2.2)

theorem remove_apart : Apart c target rules (RemoveSimpleRule c rules raw target).2 := by
  cases hvalues : simple_rule_values c raw with
  | none =>
    rw [RemoveSimpleRule, htrim, hvalues]
    exact ⟨fun _ _ _ => rfl, fun _ _ h => .inl h⟩
  | some parts =>
    obtain ⟨a, value⟩ := parts
    rw [remove_rules htrim hvalues]
    constructor
    · intro other hother line
      induction rules with
      | nil => rfl
      | cons rule rules ih =>
        rw [rules_for, rules_for] at ih ⊢
        rcases removeFrom_spec target htrim hvalues rule with ⟨new, hnew, htouched⟩ | ⟨hnone, hown, -⟩
        · rw [filterMap_cons, hnew, filter_cons, filter_cons, ih]
          rcases htouched with rfl | ⟨hown, hown', -⟩
          · rfl
          · rw [isRuleOf_other hown hother, isRuleOf_other hown' hother]
            rfl
        · rw [filterMap_cons, hnone, filter_cons, isRuleOf_other hown hother]
          exact ih
    · intro hserver new hnew
      obtain ⟨rule, hrule, hsome⟩ := mem_filterMap.1 hnew
      rcases removeFrom_spec target htrim hvalues rule with ⟨_, hnew', htouched⟩ | ⟨hnone, -⟩
      · obtain rfl := Option.some.inj (hnew'.symm.trans hsome)
        rcases htouched with rfl | ⟨-, hown, -⟩
        · exact .inl hrule
        · exact .inr (server_rule_matches ((isRuleOf_server hserver).1 hown).2.2)
      · exact absurd (hnone.symm.trans hsome) (by simp)

end Toggle

/-- For every profile, line and target. -/
theorem toggle_exact (c : SimpleEnv) (rules : List RouteRule) (line : Text) (target : SimpleTarget) : Toggle c rules line target := by
  have happend (rules : List RouteRule) : AppendSimpleRule c rules line target = AppendSimpleRule c rules (trimmed line) target := by
    rw [AppendSimpleRule, AppendSimpleRule, trimmed_trimmed]
  have hhas (rules : List RouteRule) : HasSimpleRule c rules line target = HasSimpleRule c rules (trimmed line) target := by
    rw [HasSimpleRule, HasSimpleRule, trimmed_trimmed]
  have hremove (rules : List RouteRule) : RemoveSimpleRule c rules line target = RemoveSimpleRule c rules (trimmed line) target := by
    rw [RemoveSimpleRule, RemoveSimpleRule, trimmed_trimmed]
  have htrim := trimmed_trimmed line
  constructor
  · intro h
    rw [happend, hhas] at *
    exact append_has htrim h
  · intro h
    simp only [happend] at *
    exact append_again htrim h
  · rw [hremove, hhas]
    exact remove_has htrim
  · intro hoff h
    simp only [happend, hhas, hremove] at *
    exact remove_restores htrim hoff h
  · intro h
    rw [happend] at *
    exact append_refused htrim h
  · rw [happend]
    exact append_frame htrim
  · rw [hremove]
    exact remove_frame htrim
  · rw [happend]
    exact append_apart htrim
  · rw [hremove]
    exact remove_apart htrim

/-- A rule for addresses through the proxy that holds a process name, too. -/
def mixedRule : RouteRule := ((simpleRule .simpleAddressProxy "route" proxyID).addValue .domain "a".toList).addValue .process_name "x".toList

/-- With its last address the whole rule goes. -/
theorem other_kind_dropped : ListAttr.process_name ∉ kindLists "domain:a".toList ∧ mixedRule.lists .process_name = ["x".toList] ∧
    (RemoveSimpleRule plainEnv [mixedRule] "domain:a".toList {}).2 = [] := by
  decide

end Throne.Database.Routes
