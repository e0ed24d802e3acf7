import Throne.Database.Entities.RouteRuleImport

/-!
# The repairs of an imported rule end

How the loop of `routeProfileCheckImportedRule` of `src/src/database/entities/RouteProfile.cpp` ends. A repair makes a
rule hold less and nothing else (`Less`), so it brings no error that was not there, but one: the last option of a
`route-options` rule may be cleared. The conditions are checked before the options, so nothing takes the conditions of
such a rule away again, and a later pass drops it for having no option (`Doomed`).
-/

namespace Throne.Database.Routes

open Lib.Texts Lib.Json List

variable {v : Validation} {o : Outbounds} {darwin : Bool} {rule rule' : RouteRule} {error : RuleError}

/-! ## The errors of a rule -/

/-- The action error: a `route-options` rule without an option. -/
def noOption : RuleError := ⟨.text .action, []⟩

/-- An option of a `route-options` rule is set. -/
def RouteRule.anyOption (rule : RouteRule) : Bool :=
  !(trimmed (rule.texts .override_address)).isEmpty || decide (0 < toInt (rule.texts .override_port)) ||
    rule.flags .tls_fragment || rule.flags .tls_record_fragment || !(trimmed (rule.texts .tls_spoof)).isEmpty

/-- An attribute is one of the action. -/
def applies (act : Text) (attr : Attr) : Bool := (action_scope attr).isEmpty || (action_scope attr).contains act

/-- The kinds of errors. -/
inductive HasError (v : Validation) (o : Outbounds) (darwin : Bool) (rule : RouteRule) : RuleError → Prop
  | list (a : ListAttr) (item : Text) (attr : Attr.list a ∈ get_attributes darwin)
    (act : applies rule.effective_action (.list a) = true) (held : item ∈ rule.lists a)
    (refused : refuses v (.list a) item = true) : HasError v o darwin rule ⟨.list a, trimmed item⟩
  | text (a : TextAttr) (attr : Attr.text a ∈ get_attributes darwin)
    (act : applies rule.effective_action (.text a) = true) (refused : refuses v (.text a) (rule.texts a) = true) :
    HasError v o darwin rule ⟨.text a, []⟩
  | outbound (act : rule.effective_action = "route".toList ∨ rule.effective_action = "bypass".toList)
    (problem : routeRuleOutboundProblem o rule.outboundID = true) : HasError v o darwin rule ⟨.outbound, []⟩
  | fragments (act : rule.effective_action = "route-options".toList)
    (both : rule.flags .tls_fragment = true ∧ rule.flags .tls_record_fragment = true) :
    HasError v o darwin rule ⟨.flag .tls_record_fragment, []⟩
  | options (act : rule.effective_action = "route-options".toList) (none : rule.anyOption = false)
    (matching : rule.has_match_conditions darwin = true) : HasError v o darwin rule noOption

variable {attr : Attr}

theorem mem_valueErrors : error ∈ rule.valueErrors v attr ↔ (∃ a item, attr = .list a ∧ item ∈ rule.lists a ∧ refuses v (.list a) item = true ∧
    error = ⟨.list a, trimmed item⟩) ∨ ∃ a, attr = .text a ∧ refuses v (.text a) (rule.texts a) = true ∧ error = ⟨.text a, []⟩ := by
  cases attr with
  | list a =>
    show error ∈ ((rule.lists a).filter (refuses v (.list a))).map (fun item => ⟨.list a, trimmed item⟩) ↔ _
    rw [mem_map]
    constructor
    · rintro ⟨item, hitem, rfl⟩
      exact .inl ⟨a, item, rfl, (mem_filter.1 hitem).1, (mem_filter.1 hitem).2, rfl⟩
    · rintro (⟨b, item, heq, hitem, hrefused, rfl⟩ | ⟨b, heq, -⟩)
      · cases heq
        exact ⟨item, mem_filter.2 ⟨hitem, hrefused⟩, rfl⟩
      · cases heq
  | text a =>
    show error ∈ ([rule.texts a].filter (refuses v (.text a))).map (fun _ => ⟨.text a, []⟩) ↔ _
    rw [mem_map]
    constructor
    · rintro ⟨item, hitem, rfl⟩
      obtain ⟨hitem, hrefused⟩ := mem_filter.1 hitem
      rw [mem_singleton.1 hitem] at hrefused
      exact .inr ⟨a, rfl, hrefused, rfl⟩
    · rintro (⟨b, item, heq, -⟩ | ⟨b, heq, hrefused, rfl⟩)
      · cases heq
      · cases heq
        exact ⟨rule.texts a, mem_filter.2 ⟨mem_singleton_self _, hrefused⟩, rfl⟩
  | flag a => exact ⟨nofun, by rintro (⟨b, item, heq, -⟩ | ⟨b, heq, -⟩) <;> cases heq⟩
  | outbound => exact ⟨nofun, by rintro (⟨b, item, heq, -⟩ | ⟨b, heq, -⟩) <;> cases heq⟩

theorem mem_errors (h : rule.type ≠ .endpointPreferredBy) : error ∈ rule.errors v o darwin ↔ HasError v o darwin rule error := by
  have hone : ∀ {p : Prop} [Decidable p] {e : RuleError}, (error ∈ if p then [e] else []) ↔ p ∧ error = e := by
    intro p _ e
    split <;> simp [*]
  rw [RouteRule.errors, if_neg h]
  dsimp only
  rw [mem_append, mem_append, mem_flatMap, hone]
  constructor
  · rintro ((⟨attr, hattr, herror⟩ | ⟨⟨hact, hproblem⟩, rfl⟩) | hoptions)
    · obtain ⟨hmem, happlies⟩ := mem_filter.1 hattr
      rcases mem_valueErrors.1 herror with ⟨a, item, rfl, hitem, hrefused, rfl⟩ | ⟨a, rfl, hrefused, rfl⟩
      · exact .list a item hmem happlies hitem hrefused
      · exact .text a hmem happlies hrefused
    · exact .outbound hact hproblem
    · split at hoptions
      · next hact =>
        rw [mem_append, hone, hone, Bool.and_eq_true, Bool.and_eq_true, Bool.not_eq_true'] at hoptions
        rcases hoptions with ⟨hboth, rfl⟩ | ⟨⟨hnone, hmatching⟩, rfl⟩
        · exact .fragments hact hboth
        · exact .options hact hnone hmatching
      · cases hoptions
  · intro herror
    cases herror with
    | list a item attr act held refused =>
      exact .inl (.inl ⟨.list a, mem_filter.2 ⟨attr, act⟩, mem_valueErrors.2 (.inl ⟨a, item, rfl, held, refused, rfl⟩)⟩)
    | text a attr act refused =>
      exact .inl (.inl ⟨.text a, mem_filter.2 ⟨attr, act⟩, mem_valueErrors.2 (.inr ⟨a, rfl, refused, rfl⟩)⟩)
    | outbound act problem => exact .inl (.inr ⟨⟨act, problem⟩, rfl⟩)
    | fragments act both =>
      refine .inr ?_
      rw [if_pos act, mem_append, hone, Bool.and_eq_true]
      exact .inl ⟨both, rfl⟩
    | options act none matching =>
      refine .inr ?_
      rw [if_pos act, mem_append, hone, hone, Bool.and_eq_true, Bool.and_eq_true, Bool.not_eq_true']
      exact .inr ⟨⟨none, matching⟩, rfl⟩

/-! ## A rule that holds less -/

/-- A rule that holds less than another: items are taken out of lists, texts cleared, switches turned off, and the
outbound may have become the proxy. -/
structure Less (rule rule' : RouteRule) : Prop where
  type : rule'.type = rule.type
  action : rule'.effective_action = rule.effective_action
  lists : ∀ a, ∀ item ∈ rule'.lists a, ∃ held ∈ rule.lists a, trimmed held = trimmed item
  texts : ∀ a, rule'.texts a = rule.texts a ∨ rule'.texts a = []
  flags : ∀ a, rule'.flags a = true → rule.flags a = true
  outbound : rule'.outboundID = rule.outboundID ∨ rule'.outboundID = proxyID

theorem refuses_blank {raw : Text} (h : (trimmed raw).isEmpty = true) : refuses v attr raw = false := by
  unfold refuses
  exact if_pos h

theorem refuses_trimmed {item held : Text} (h : trimmed held = trimmed item) : refuses v attr held = refuses v attr item := by
  unfold refuses
  rw [h]

theorem matching_less (h : Less rule rule') (hmatching : rule'.has_match_conditions darwin = true) : rule.has_match_conditions darwin = true := by
  rw [RouteRule.has_match_conditions, Bool.or_eq_true, Bool.or_eq_true, any_eq_true] at hmatching ⊢
  refine hmatching.imp (Or.imp (h.flags _) (h.flags _)) ?_
  rintro ⟨attr, hattr, hset⟩
  rw [Bool.and_eq_true] at hset
  refine ⟨attr, hattr, ?_⟩
  rw [hset.1, Bool.true_and, isValidStrArray, any_eq_true]
  obtain ⟨text, htext, hne⟩ := any_eq_true.1 hset.2
  cases attr with
  | list a =>
    obtain ⟨held, hheld, hsame⟩ := h.lists a text htext
    exact ⟨held, hheld, by rw [hsame]; exact hne⟩
  | text a =>
    rcases h.texts a with hsame | hcleared
    · exact ⟨text, by rwa [RouteRule.current, ← hsame], hne⟩
    · rw [RouteRule.current, hcleared, mem_singleton] at htext
      rw [htext] at hne
      cases hne
  | flag a => cases htext
  | outbound => exact absurd hset.1 (by decide)

/-- Of a rule that holds less, every error was one before, unless it is that no option is left. -/
theorem HasError.of_less (h : Less rule rule') (herror : HasError v o darwin rule' error) : HasError v o darwin rule error ∨
    error = noOption ∧ rule.effective_action = "route-options".toList ∧ rule.anyOption = true ∧ rule'.anyOption = false := by
  cases herror with
  | list a item attr act held refused =>
    obtain ⟨before, hbefore, hsame⟩ := h.lists a item held
    rw [← hsame]
    exact .inl (.list a before attr (h.action ▸ act) hbefore ((refuses_trimmed hsame).trans refused))
  | text a attr act refused =>
    rcases h.texts a with hsame | hcleared
    · exact .inl (.text a attr (h.action ▸ act) (hsame ▸ refused))
    · rw [hcleared] at refused
      cases refused
  | outbound act problem =>
    rcases h.outbound with hsame | hproxy
    · exact .inl (.outbound (h.action ▸ act) (hsame ▸ problem))
    · rw [hproxy] at problem
      cases problem
  | fragments act both => exact .inl (.fragments (h.action ▸ act) ⟨h.flags _ both.1, h.flags _ both.2⟩)
  | options act none matching =>
    by_cases hoption : rule.anyOption = true
    · exact .inr ⟨rfl, h.action ▸ act, hoption, none⟩
    · exact .inl (.options (h.action ▸ act) (Bool.eq_false_iff.2 hoption) (matching_less h matching))

/-! ## One repair -/

theorem Less.refl (rule : RouteRule) : Less rule rule :=
  ⟨rfl, rfl, fun _ item hitem => ⟨item, hitem, rfl⟩, fun _ => .inl rfl, fun _ h => h, .inl rfl⟩

theorem less_list {a : ListAttr} {value : List Text} (h : ∀ item ∈ filterEmpty value, ∃ held ∈ rule.lists a, trimmed held = trimmed item) :
    Less rule (rule.set_field_value (.list a) value) := by
  refine { Less.refl rule with lists := fun b item hitem => ?_ }
  by_cases hb : b = a
  · subst hb
    exact h item (by simpa [RouteRule.set_field_value] using hitem)
  · exact ⟨item, by simpa [RouteRule.set_field_value, Function.update_of_ne hb] using hitem, rfl⟩

theorem less_clear_text {a : TextAttr} (h : a ≠ .action) : Less rule { rule with texts := Function.update rule.texts a [] } := by
  have haction : Function.update rule.texts a [] .action = rule.texts .action := Function.update_of_ne (Ne.symm h) _ _
  refine { Less.refl rule with action := ?_, texts := fun b => ?_ }
  · simp only [RouteRule.effective_action, haction]
  · by_cases hb : b = a
    · subst hb
      exact .inr (Function.update_self _ _ _)
    · exact .inl (Function.update_of_ne hb _ _)

theorem less_clear_flag (a : FlagAttr) : Less rule { rule with flags := Function.update rule.flags a false } := by
  refine { Less.refl rule with flags := fun b hflag => ?_ }
  by_cases hb : b = a
  · subst hb
    simp at hflag
  · rwa [← Function.update_of_ne hb false rule.flags]

/-- The proxy is no outbound that stands for another action. -/
theorem less_proxy (hact : rule.effective_action = "route".toList ∨ rule.effective_action = "bypass".toList) :
    Less rule { rule with outboundID := proxyID } := by
  refine { Less.refl rule with action := ?_, outbound := .inr rfl }
  by_cases haction : rule.texts .action = "route".toList
  · have hproxy : ({ rule with outboundID := proxyID } : RouteRule).effective_action = "route".toList := by
      rw [RouteRule.effective_action]
      exact (if_pos haction).trans rfl
    rw [hproxy]
    rw [RouteRule.effective_action, if_pos haction] at hact ⊢
    split at hact
    · exact absurd hact (by decide)
    · next hblock =>
      split at hact
      · exact absurd hact (by decide)
      · next hdns => rw [if_neg hblock, if_neg hdns]
  · exact (if_neg haction).trans (if_neg haction).symm

/-- The attributes of which one may be the last option. -/
def optionAttr (attr : Attr) : Prop := attr = .text .override_address ∨ attr = .text .override_port ∨ attr = .text .tls_spoof

theorem list_matches {a : ListAttr} (h : Attr.list a ∈ get_attributes darwin) : is_match_attribute (.list a) = true := by
  cases a with
  | sniffers => exact absurd h (by cases darwin <;> decide)
  | _ => rfl

/-- The repair of a text, which the action has none of. -/
theorem repair_text {a : TextAttr} (h : rule.repair v ⟨.text a, []⟩ = some rule') :
    a ≠ .action ∧ rule' = { rule with texts := Function.update rule.texts a [] } := by
  simp only [RouteRule.repair] at h
  split at h
  · cases h
  · next hno =>
    rw [not_or] at hno
    have hne : a ≠ .action := fun heq => hno.1 (congrArg Attr.text heq)
    refine ⟨hne, (Option.some.inj h).symm.trans ?_⟩
    cases a <;> first | rfl | exact absurd rfl hne

/-- A repair makes the rule hold less, ends what it was made for, and takes the last option away only where that was
at fault. -/
theorem repair_less (herror : HasError v o darwin rule error) (h : rule.repair v error = some rule') :
    Less rule rule' ∧ (∀ e, HasError v o darwin rule' e → e.attr ≠ error.attr) ∧
    (rule.anyOption = true → rule.effective_action = "route-options".toList → rule'.anyOption = true ∨ optionAttr error.attr) := by
  cases herror with
  | list a item attr act held refused =>
    have hne : (trimmed item).isEmpty = false :=
      Bool.eq_false_iff.2 fun hempty => nomatch (refuses_blank hempty).symm.trans refused
    rw [RouteRule.repair] at h
    dsimp only at h
    split at h
    · split at h
      · cases h
      · cases h
        have hkept : ∀ item ∈ filterEmpty ((rule.lists a).filter fun item => !refuses v (.list a) item),
            (∃ held ∈ rule.lists a, trimmed held = trimmed item) ∧ refuses v (.list a) item = false := by
          intro item hitem
          obtain ⟨held, hheld, rfl, -⟩ := mem_filterEmpty.1 hitem
          rw [mem_filter, Bool.not_eq_true'] at hheld
          have hsame := trimmed_trimmed held
          exact ⟨⟨held, hheld.1, hsame.symm⟩, (refuses_trimmed hsame).trans hheld.2⟩
        refine ⟨less_list fun item hitem => (hkept item hitem).1, ?_, fun hoption _ => .inl hoption⟩
        intro e he heq
        cases he with
        | list b item attr' act' held' refused' =>
          cases heq
          have hitem : item ∈ filterEmpty ((rule.lists a).filter fun item => !refuses v (.list a) item) := by
            simpa [RouteRule.set_field_value] using held'
          exact nomatch (hkept item hitem).2.symm.trans refused'
        | _ => cases heq
    · rw [if_pos (list_matches attr)] at h
      cases h
  | text a attr act refused =>
    obtain ⟨hne, rfl⟩ := repair_text h
    refine ⟨less_clear_text hne, ?_, ?_⟩
    · intro e he heq
      cases he with
      | text b attr' act' refused' =>
        cases heq
        dsimp only at refused'
        rw [Function.update_self] at refused'
        cases refused'
      | options _ _ _ => exact hne (Attr.text.inj heq.symm)
      | _ => cases heq
    · intro hoption _
      by_cases hattr : optionAttr (.text a)
      · exact .inr hattr
      · rw [optionAttr, not_or, not_or] at hattr
        have hsame : ∀ b, Attr.text a ≠ .text b → Function.update rule.texts a [] b = rule.texts b :=
          fun b hb => Function.update_of_ne (fun heq => hb (congrArg Attr.text heq.symm)) _ _
        refine .inl ?_
        rw [RouteRule.anyOption] at hoption ⊢
        simpa only [hsame _ hattr.1, hsame _ hattr.2.1, hsame _ hattr.2.2] using hoption
  | outbound act problem =>
    cases h
    refine ⟨less_proxy act, ?_, fun hoption _ => .inl hoption⟩
    intro e he heq
    cases he with
    | outbound act' problem' => cases problem'
    | _ => cases heq
  | fragments act both =>
    cases h
    refine ⟨less_clear_flag _, ?_, ?_⟩
    · intro e he heq
      cases he with
      | fragments act' both' =>
        have hoff := both'.2
        simp [RouteRule.clear_attribute_value] at hoff
      | _ => cases heq
    · intro _ _
      refine .inl ?_
      have hstays : Function.update rule.flags .tls_record_fragment false .tls_fragment = true :=
        (Function.update_of_ne (by decide) _ _).trans both.1
      show (_ || Function.update rule.flags .tls_record_fragment false .tls_fragment || _ || _) = true
      rw [hstays, Bool.or_true, Bool.true_or, Bool.true_or]
  | options act none matching => cases h

/-! ## A rule without an option -/

/-- One pass that repairs the rule. -/
def Pass (v : Validation) (o : Outbounds) (darwin : Bool) (rule rule' : RouteRule) : Prop :=
  ∃ error, (rule.errors v o darwin).head? = some error ∧ rule.repair v error = some rule'

/-- A `route-options` rule without an option of which the conditions are in order. -/
structure Doomed (v : Validation) (o : Outbounds) (darwin : Bool) (rule : RouteRule) : Prop where
  type : rule.type ≠ .endpointPreferredBy
  act : rule.effective_action = "route-options".toList
  unset : rule.anyOption = false
  matching : rule.has_match_conditions darwin = true
  conditions : ∀ e ∈ rule.errors v o darwin, is_match_attribute e.attr = false

theorem conditions_stand_first : get_attributes darwin = (get_attributes darwin).filter is_match_attribute ++
    (get_attributes darwin).filter fun attr => !is_match_attribute attr := by
  cases darwin <;> decide

theorem mem_flatMap_valueErrors {attrs : List Attr} (h : error ∈ attrs.flatMap (rule.valueErrors v)) : error.attr ∈ attrs := by
  obtain ⟨attr, hattr, herror⟩ := mem_flatMap.1 h
  rcases mem_valueErrors.1 herror with ⟨a, item, rfl, -, -, rfl⟩ | ⟨a, rfl, -, rfl⟩ <;> exact hattr

/-- The errors of the conditions stand before all others. -/
theorem errors_split (v : Validation) (o : Outbounds) (darwin : Bool) (h : rule.type ≠ .endpointPreferredBy) :
    ∃ conditions others, rule.errors v o darwin = conditions ++ others ∧
    (∀ e ∈ conditions, is_match_attribute e.attr = true) ∧ ∀ e ∈ others, is_match_attribute e.attr = false := by
  rw [RouteRule.errors, if_neg h]
  dsimp only
  rw [conditions_stand_first, filter_append, flatMap_append, append_assoc, append_assoc]
  refine ⟨_, _, rfl, fun e he => ?_, fun e he => ?_⟩
  · exact (mem_filter.1 (mem_filter.1 (mem_flatMap_valueErrors he)).1).2
  · rcases mem_append.1 he with hvalue | hrest
    · simpa using (mem_filter.1 (mem_filter.1 (mem_flatMap_valueErrors hvalue)).1).2
    · rcases mem_append.1 hrest with houtbound | hoptions
      · split at houtbound
        · rw [mem_singleton.1 houtbound]
          rfl
        · cases houtbound
      · split at hoptions
        · rcases mem_append.1 hoptions with hflag | hnone
          · split at hflag
            · rw [mem_singleton.1 hflag]
              rfl
            · cases hflag
          · split at hnone
            · rw [mem_singleton.1 hnone]
              rfl
            · cases hnone
        · cases hoptions

/-- Where something else than a condition is the first at fault, no condition is. -/
theorem conditions_first (htype : rule.type ≠ .endpointPreferredBy)
    (hhead : (rule.errors v o darwin).head? = some error) (hother : is_match_attribute error.attr = false) {e : RuleError}
    (he : e ∈ rule.errors v o darwin) : is_match_attribute e.attr = false := by
  obtain ⟨conditions, others, herrors, hconditions, hothers⟩ := errors_split v o darwin htype
  rw [herrors] at hhead he
  cases conditions with
  | nil => exact hothers e he
  | cons head conditions =>
    cases hhead
    exact nomatch (hconditions _ mem_cons_self).symm.trans hother

theorem anyOption_less (h : Less rule rule') (hnone : rule.anyOption = false) : rule'.anyOption = false := by
  have htext : ∀ a, (trimmed (rule.texts a)).isEmpty = true → (trimmed (rule'.texts a)).isEmpty = true := by
    intro a hempty
    rcases h.texts a with hsame | hcleared
    · rwa [hsame]
    · rw [hcleared]
      rfl
  have hport : toInt (rule.texts .override_port) ≤ 0 → toInt (rule'.texts .override_port) ≤ 0 := by
    intro hzero
    rcases h.texts .override_port with hsame | hcleared
    · rwa [hsame]
    · rw [hcleared]
      decide
  have hflag : ∀ a, rule.flags a = false → rule'.flags a = false :=
    fun a hoff => Bool.eq_false_iff.2 fun hon => nomatch hoff.symm.trans (h.flags a hon)
  rw [RouteRule.anyOption] at hnone ⊢
  simp only [Bool.or_eq_false_iff, Bool.not_eq_false', decide_eq_false_iff_not, not_lt] at hnone ⊢
  obtain ⟨⟨⟨⟨haddress, hzero⟩, hfragment⟩, hrecord⟩, hspoof⟩ := hnone
  exact ⟨⟨⟨⟨htext _ haddress, hport hzero⟩, hflag _ hfragment⟩, hflag _ hrecord⟩, htext _ hspoof⟩

/-- Clearing a text that is no condition leaves the conditions as they are. -/
theorem matching_clear_text {a : TextAttr} (h : is_match_attribute (.text a) = false) :
    ({ rule with texts := Function.update rule.texts a [] } : RouteRule).has_match_conditions darwin =
      rule.has_match_conditions darwin := by
  have hcurrent : ∀ attr, is_match_attribute attr = true →
      ({ rule with texts := Function.update rule.texts a [] } : RouteRule).current attr = rule.current attr := by
    intro attr hmatch
    cases attr with
    | text b =>
      have hne : b ≠ a := fun heq => nomatch (heq ▸ hmatch).symm.trans h
      exact congrArg (fun text => [text]) (Function.update_of_ne hne _ _)
    | list _ | flag _ | outbound => rfl
  rw [RouteRule.has_match_conditions, RouteRule.has_match_conditions]
  congr 2
  funext attr
  cases hmatch : is_match_attribute attr with
  | false => rfl
  | true => rw [hcurrent attr hmatch]

/-- No pass helps such a rule: what is left at fault are texts that are no options. -/
theorem Doomed.pass (h : Doomed v o darwin rule) (hpass : Pass v o darwin rule rule') : Doomed v o darwin rule' := by
  obtain ⟨error, hhead, hrepair⟩ := hpass
  have hmem := mem_of_mem_head? hhead
  have herror := (mem_errors h.type).1 hmem
  have hless := (repair_less herror hrepair).1
  have hother := h.conditions error hmem
  have htype : rule'.type ≠ .endpointPreferredBy := fun heq => h.type (hless.type.symm.trans heq)
  refine ⟨htype, hless.action.trans h.act, anyOption_less hless h.unset, ?_, fun e he => ?_⟩
  · cases herror with
    | list a item attr => exact nomatch (list_matches attr).symm.trans hother
    | text a =>
      obtain ⟨-, rfl⟩ := repair_text hrepair
      exact (matching_clear_text hother).trans h.matching
    | outbound act => rw [h.act] at act; exact absurd act (by decide)
    | fragments act both =>
      have hnone := h.unset
      rw [RouteRule.anyOption, both.1, Bool.or_true, Bool.true_or, Bool.true_or] at hnone
      cases hnone
    | options => cases hrepair
  · rcases ((mem_errors htype).1 he).of_less hless with hbefore | ⟨rfl, -⟩
    · exact h.conditions e ((mem_errors h.type).2 hbefore)
    · rfl

/-- Only for its missing option such a rule is dropped. -/
theorem Doomed.refused (h : Doomed v o darwin rule) (hmem : error ∈ rule.errors v o darwin)
    (hdropped : rule.repair v error = none) : error = noOption := by
  have hother := h.conditions error hmem
  cases (mem_errors h.type).1 hmem with
  | list a item attr => exact nomatch (list_matches attr).symm.trans hother
  | text a =>
    by_cases ha : a = .action
    · rw [ha, noOption]
    · simp only [RouteRule.repair] at hdropped
      split at hdropped
      · next hno =>
        rcases hno with haction | hmatch
        · exact absurd (Attr.text.inj haction) ha
        · exact nomatch hmatch.symm.trans hother
      · cases hdropped
  | outbound => cases hdropped
  | fragments => cases hdropped
  | options => rfl

/-- The loop has such a rule dropped for having no option. -/
theorem Doomed.ends (h : Doomed v o darwin rule) (passes : Nat) : routeProfileCheckImportedRule v o darwin passes rule = .exhausted ∨
    routeProfileCheckImportedRule v o darwin passes rule = .dropped noOption := by
  induction passes generalizing rule with
  | zero => exact .inl rfl
  | succ passes ih =>
    rw [routeProfileCheckImportedRule]
    cases hhead : (rule.errors v o darwin).head? with
    | none =>
      have hnone : noOption ∈ rule.errors v o darwin := (mem_errors h.type).2 (.options h.act h.unset h.matching)
      rw [head?_eq_none_iff.1 hhead] at hnone
      cases hnone
    | some error =>
      dsimp only
      cases hrepair : rule.repair v error with
      | none => exact .inr (congrArg RepairEnd.dropped (h.refused (mem_of_mem_head? hhead) hrepair))
      | some repaired => exact ih (h.pass ⟨error, hhead, hrepair⟩)

/-- Of a `route-options` rule the action is at fault only where it has conditions and no option. -/
theorem HasError.matching (h : HasError v o darwin rule noOption)
    (hact : rule.effective_action = "route-options".toList) : rule.has_match_conditions darwin = true := by
  generalize hnone : noOption = error at h
  cases h with
  | text a attr act refused =>
    cases hnone
    have haction : rule.texts .action = "route-options".toList := by
      rw [RouteRule.effective_action] at hact
      split at hact
      · split at hact
        · exact absurd hact (by decide)
        · split at hact <;> exact absurd hact (by decide)
      · exact hact
    rw [haction] at refused
    cases refused
  | options act none matching => exact matching
  | _ => cases hnone

/-- An action error that was not there at first is the missing option, and no later pass mends it. -/
theorem doomed_later {later : RouteRule} (hpasses : Relation.ReflTransGen (Pass v o darwin) rule later)
    (hlater : noOption ∈ later.errors v o darwin) (hnew : noOption ∉ rule.errors v o darwin) : Doomed v o darwin later := by
  induction hpasses with
  | refl => exact absurd hlater hnew
  | tail hbefore hpass ih =>
    rename_i before later
    by_cases hthere : noOption ∈ before.errors v o darwin
    · exact (ih hthere).pass hpass
    · obtain ⟨error, hhead, hrepair⟩ := hpass
      have htype : before.type ≠ .endpointPreferredBy := by
        intro heq
        rw [RouteRule.errors, if_pos heq] at hhead
        cases hhead
      have herror := (mem_errors htype).1 (mem_of_mem_head? hhead)
      obtain ⟨hless, -, hoption⟩ := repair_less herror hrepair
      have htype' : later.type ≠ .endpointPreferredBy := fun heq => htype (hless.type.symm.trans heq)
      rcases ((mem_errors htype').1 hlater).of_less hless with hhad | ⟨-, hact, hany, hnone⟩
      · exact absurd ((mem_errors htype).2 hhad) hthere
      · have hother : is_match_attribute error.attr = false := by
          rcases hoption hany hact with hleft | hlast | hlast | hlast
          · exact absurd (hnone.symm.trans hleft) Bool.false_ne_true
          all_goals rw [hlast]; rfl
        have hact' := hless.action.trans hact
        refine ⟨htype', hact', hnone, ((mem_errors htype').1 hlater).matching hact', fun e he => ?_⟩
        rcases ((mem_errors htype').1 he).of_less hless with hhad | ⟨rfl, -⟩
        · exact conditions_first htype hhead hother ((mem_errors htype).2 hhad)
        · rfl

/-! ## The passes -/

/-- The attributes at fault, but for the action. -/
def faults (v : Validation) (o : Outbounds) (darwin : Bool) (rule : RouteRule) : Finset Attr :=
  ((rule.errors v o darwin).map RuleError.attr).toFinset.erase (.text .action)

theorem HasError.mem_attributes (h : HasError v o darwin rule error) : error.attr ∈ attributes := by
  have hsub : ∀ attr, attr ∈ get_attributes darwin → attr ∈ attributes := by
    intro attr hattr
    cases darwin with
    | false => exact hattr
    | true =>
      rw [get_attributes, if_pos rfl] at hattr
      exact mem_of_mem_filter hattr
  cases h with
  | list a item attr act held refused => exact hsub _ attr
  | text a attr act refused => exact hsub _ attr
  | outbound act problem => decide
  | fragments act both => decide
  | options act none matching => decide

theorem faults_few (h : rule.type ≠ .endpointPreferredBy) : (faults v o darwin rule).card < 64 := by
  have hsub : faults v o darwin rule ⊆ attributes.toFinset := by
    intro attr hattr
    obtain ⟨error, herror, rfl⟩ := mem_map.1 (mem_toFinset.1 (Finset.mem_of_mem_erase hattr))
    exact mem_toFinset.2 ((mem_errors h).1 herror).mem_attributes
  exact lt_of_le_of_lt (Finset.card_le_card hsub) (lt_of_le_of_lt (toFinset_card_le _) (by decide))

/-- A repair leaves fewer attributes at fault. -/
theorem faults_repair (htype : rule.type ≠ .endpointPreferredBy) (herror : error ∈ rule.errors v o darwin)
    (h : rule.repair v error = some rule') : (faults v o darwin rule').card < (faults v o darwin rule).card := by
  have hhas := (mem_errors htype).1 herror
  obtain ⟨hless, hended, -⟩ := repair_less hhas h
  have htype' : rule'.type ≠ .endpointPreferredBy := fun heq => htype (hless.type.symm.trans heq)
  have haction : error.attr ≠ .text .action := by
    intro heq
    obtain ⟨attr, value⟩ := error
    cases heq
    cases h
  refine Finset.card_lt_card (Finset.ssubset_iff_of_subset ?_ |>.2 ⟨error.attr, ?_, ?_⟩)
  · intro attr hattr
    obtain ⟨hne, hmem⟩ := Finset.mem_erase.1 hattr
    obtain ⟨e, he, rfl⟩ := mem_map.1 (mem_toFinset.1 hmem)
    rcases ((mem_errors htype').1 he).of_less hless with hbefore | ⟨rfl, -⟩
    · exact Finset.mem_erase.2 ⟨hne, mem_toFinset.2 (mem_map_of_mem ((mem_errors htype).2 hbefore))⟩
    · exact absurd rfl hne
  · exact Finset.mem_erase.2 ⟨haction, mem_toFinset.2 (mem_map_of_mem herror)⟩
  · intro hmem
    obtain ⟨e, he, heq⟩ := mem_map.1 (mem_toFinset.1 (Finset.mem_of_mem_erase hmem))
    exact hended e ((mem_errors htype').1 he) heq

/-- With more passes than attributes at fault the loop comes to an end of its own. -/
theorem passes_enough {passes : Nat} (htype : rule.type ≠ .endpointPreferredBy) (hpasses : (faults v o darwin rule).card < passes) :
    (∃ kept, routeProfileCheckImportedRule v o darwin passes rule = .kept kept ∧ kept.errors v o darwin = []) ∨
    ∃ error, routeProfileCheckImportedRule v o darwin passes rule = .dropped error := by
  induction passes generalizing rule with
  | zero => exact absurd hpasses (Nat.not_lt_zero _)
  | succ passes ih =>
    rw [routeProfileCheckImportedRule]
    cases hhead : (rule.errors v o darwin).head? with
    | none => exact .inl ⟨rule, rfl, head?_eq_none_iff.1 hhead⟩
    | some error =>
      dsimp only
      have herror := mem_of_mem_head? hhead
      cases hrepair : rule.repair v error with
      | none => exact .inr ⟨error, rfl⟩
      | some repaired =>
        have hfewer := faults_repair htype herror hrepair
        have hless := (repair_less ((mem_errors htype).1 herror) hrepair).1
        exact ih (fun heq => htype (hless.type.symm.trans heq)) (by omega)

/-- As a rule that a pass of the loop hands on ends, so does the first one, unless its passes are used up. -/
theorem ends_as_later {later : RouteRule} (hpasses : Relation.ReflTransGen (Pass v o darwin) rule later) (passes : Nat) :
    routeProfileCheckImportedRule v o darwin passes rule = .exhausted ∨ ∃ rest, routeProfileCheckImportedRule v o darwin passes rule =
    routeProfileCheckImportedRule v o darwin rest later := by
  induction hpasses using Relation.ReflTransGen.head_induction_on generalizing passes with
  | refl => exact .inr ⟨passes, rfl⟩
  | head hpass hrest ih =>
    obtain ⟨error, hhead, hrepair⟩ := hpass
    cases passes with
    | zero => exact .inl rfl
    | succ passes =>
      rw [routeProfileCheckImportedRule, hhead]
      dsimp only
      rw [hrepair]
      exact ih passes

/-- Of every rule the loop finds, within its 64 passes, what has no errors or what it is dropped for. A repair ends
the error it was made for, and the only error it can bring is the one of the action, where it cleared the last option
of a `route-options` rule; where a pass of the loop brings that error, the loop drops the rule for it. -/
theorem repairs_end (v : Validation) (o : Outbounds) (darwin : Bool) (rule : RouteRule) :
    ((∃ kept, routeProfileCheckImportedRule v o darwin 64 rule = .kept kept ∧ kept.errors v o darwin = []) ∨
    ∃ error, routeProfileCheckImportedRule v o darwin 64 rule = .dropped error) ∧
    (∀ error ∈ rule.errors v o darwin, ∀ rule', rule.repair v error = some rule' → error ∉ rule'.errors v o darwin ∧
    ∀ e ∈ rule'.errors v o darwin, e ∈ rule.errors v o darwin ∨
    e = noOption ∧ rule.effective_action = "route-options".toList ∧ optionAttr error.attr) ∧
    ∀ later, Relation.ReflTransGen (Pass v o darwin) rule later → noOption ∈ later.errors v o darwin →
    noOption ∉ rule.errors v o darwin → routeProfileCheckImportedRule v o darwin 64 rule = .dropped noOption := by
  have hends : (∃ kept, routeProfileCheckImportedRule v o darwin 64 rule = .kept kept ∧ kept.errors v o darwin = []) ∨
      ∃ error, routeProfileCheckImportedRule v o darwin 64 rule = .dropped error := by
    by_cases htype : rule.type = .endpointPreferredBy
    · -- Nothing is asked of the rule of an endpoint.
      have hnone : rule.errors v o darwin = [] := if_pos htype
      refine .inl ⟨rule, ?_, hnone⟩
      rw [routeProfileCheckImportedRule, hnone]
      rfl
    · exact passes_enough htype (faults_few htype)
  refine ⟨hends, fun error herror rule' hrepair => ?_, fun later hpasses hlater hnew => ?_⟩
  · have htype : rule.type ≠ .endpointPreferredBy := by
      intro heq
      rw [RouteRule.errors, if_pos heq] at herror
      cases herror
    obtain ⟨hless, hended, hoption⟩ := repair_less ((mem_errors htype).1 herror) hrepair
    have htype' : rule'.type ≠ .endpointPreferredBy := fun heq => htype (hless.type.symm.trans heq)
    refine ⟨fun hagain => hended error ((mem_errors htype').1 hagain) rfl, fun e he => ?_⟩
    rcases ((mem_errors htype').1 he).of_less hless with hbefore | ⟨rfl, hact, hany, hnone⟩
    · exact .inl ((mem_errors htype).2 hbefore)
    · rcases hoption hany hact with hleft | hcleared
      · exact absurd (hnone.symm.trans hleft) Bool.false_ne_true
      · exact .inr ⟨rfl, hact, hcleared⟩
  · have hexhausted : routeProfileCheckImportedRule v o darwin 64 rule ≠ .exhausted := by
      rcases hends with ⟨kept, hkept, -⟩ | ⟨error, hdropped⟩ <;> simp [*]
    obtain ⟨rest, hrest⟩ := (ends_as_later hpasses 64).resolve_left hexhausted
    rw [hrest] at hexhausted ⊢
    exact ((doomed_later hpasses hlater hnew).ends rest).resolve_left hexhausted

/-- Checks that refuse an address with a blank in it. -/
def blankChecks : Validation where
  cidr _ := true
  portRange _ := true
  ruleSet _ := true
  overrideAddress text := !text.contains ' '
  duration _ := true
  spoof _ := true
  lower := id

/-- A `route-options` rule of which the only option is at fault. -/
def lastOption : Fields :=
  [("action".toList, .text "route-options".toList), ("domain".toList, .array [.text "a.example".toList]),
    ("override_address".toList, .text "a b".toList)]

/-- Clearing the last option brings the error that the rule has none. -/
theorem repair_brings_error : ¬∀ (v : Validation) (o : Outbounds) (darwin : Bool) (obj : Fields) (rule : RouteRule),
      obj.foldlM (RouteRule.readField o) { RouteRule.default with type := typeOf obj } = some rule →
      ∀ error ∈ rule.errors v o darwin, ∀ rule', rule.repair v error = some rule' → ∀ e ∈ rule'.errors v o darwin, e ∈ rule.errors v o darwin := by
  intro h
  obtain ⟨rule, hrule⟩ : ∃ rule, lastOption.foldlM (RouteRule.readField noProfiles)
      { RouteRule.default with type := typeOf lastOption } = some rule := ⟨_, rfl⟩
  have herrors : rule.errors blankChecks noProfiles false = [⟨.text .override_address, []⟩] := by
    cases hrule
    decide
  have hcleared : (rule.clear_attribute_value (.text .override_address)).errors blankChecks noProfiles false = [noOption] := by
    cases hrule
    decide
  have hnew := h blankChecks noProfiles false lastOption rule hrule ⟨.text .override_address, []⟩
    (by rw [herrors]; exact mem_singleton_self _) _ rfl noOption
    (by rw [hcleared]; exact mem_singleton_self _)
  rw [herrors] at hnew
  exact absurd hnew (by decide)

end Throne.Database.Routes
