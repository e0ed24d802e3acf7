import Throne.Core.SingBox.RuleMatch
import Throne.Database.Entities.RouteRuleImport

/-!
# Importing a rule and what it matches

The object a rule is imported from is a rule of the core itself, and so is what the imported rule
generates. Both are read item by item (`readItems`), and a connection is given by the items that hold of
it. `neverWidens_iff` says for which objects the generated rule matches nothing the object does not
match.
-/

namespace Throne.Database.Routes

open Lib.Texts Lib.Json Core.SingBox List

/-! ## Reading a rule -/

/-- What the core is given for an item: ports are numbers, and a rule set has the name it is defined
under. -/
def coreText (ruleSetName : Text → Text) (key item : Text) : Text :=
  if key = "port".toList ∨ key = "source_port".toList then
    if isDigits item then natText (decimalValue item) else item
  else if key = "rule_set".toList then ruleSetName item
  else item

/-- One item of a condition; a switch that says no is none. -/
def readItem (given : Text → Text → Text) (condition : Text × Json) : Option (Text × Text) :=
  let text := (scalarText condition.2).getD []
  if switchKeys.contains condition.1 && text == "false".toList then none
  else some (condition.1, given condition.1 text)

/-- The conditions of a rule as texts, item by item. -/
def readItems (given : Text → Text → Text) (fields : Fields) : List (Text × Text) := (conditions fields).filterMap (readItem given)

/-- A switch that says yes, no or nothing. -/
def saysSwitch (texts : List Text) : Bool := texts == [] || texts == ["true".toList] || texts == ["false".toList]

/-- The switches among the conditions say yes or no. -/
def readable (fields : Fields) : Bool :=
  [FlagAttr.invert, .ip_is_private, .source_ip_is_private].all fun a =>
    saysSwitch (textsAt fields (.flag a))

/-- `invert` is on. -/
def negates (fields : Fields) : Bool := textsAt fields (.flag .invert) == ["true".toList]

/-- The rule sets that list destination addresses and nothing else: the site and country sets, and of the
others those that `others` names. -/
def listsAddresses (others : Text → Bool) (set : Text) : Bool :=
  "geosite-".toList.isPrefixOf set || "geoip-".toList.isPrefixOf set || others set

/-- A rule is merged with the sets it names. Where it has addresses of its own and a set lists some too, that
set is one of its addresses; in any other rule the sets are alternatives to each other alone. -/
def mergesSets (others : Text → Bool) (items : List (Text × Text)) : Bool :=
  (items.any fun x => groupOf x.1 == some .address) && items.any fun x => x.1 == "rule_set".toList && listsAddresses others x.2

/-- The items that count. Beside sets that are among the addresses a set of other things counts for nothing: an
address must hold all the same, and where one does the sets of addresses match. -/
def counted (others : Text → Bool) (items : List (Text × Text)) : List (Text × Text) :=
  if mergesSets others items then items.filter fun x => x.1 != "rule_set".toList || listsAddresses others x.2
  else items

/-- The group of an item among those of its rule. -/
def itemGroup (others : Text → Bool) (items : List (Text × Text)) (x : Text × Text) : Option Core.SingBox.Group :=
  if mergesSets others items && x.1 == "rule_set".toList then some .address else groupOf x.1

/-- The items of a rule match a connection. -/
def itemsHold (others : Text → Bool) (items : List (Text × Text)) (holds : Text × Text → Bool) : Bool :=
  allHold (itemGroup others items) (counted others items) holds

/-- The rule matches a connection of which the items `holds` hold. A rule the core cannot read matches
nothing. -/
def matchesItems (others : Text → Bool) (given : Text → Text → Text) (fields : Fields) (holds : Text × Text → Bool) : Bool :=
  readable fields && (itemsHold others (readItems given fields) holds != negates fields)

/-- What a rule generates matches nothing that the object does not match. An empty object is no rule. -/
def NeverWidens (v : Validation) (others : Text → Bool) (ruleSetName : Text → Text) (obj : Fields) (rule : RouteRule) : Prop :=
  ∀ (tag : Text) (holds : Text × Text → Bool), rule.get_rule_json v ruleSetName tag ≠ [] →
    matchesItems others (fun _ item => item) (rule.get_rule_json v ruleSetName tag) holds = true →
      matchesItems others (coreText ruleSetName) obj holds = true

/-! ## When nothing widens -/

/-- The conditions that are matched item by item. -/
def itemAttributes : List Attr :=
  (attributes.filter is_match_attribute).filter fun attr => attr != .flag .invert

/-- The items an import leaves. -/
def survivors (v : Validation) (ruleSetName : Text → Text) (obj : Fields) : List (Text × Text) :=
  itemAttributes.flatMap fun attr =>
    (keptOf v obj attr).map fun item => (attr.key, coreText ruleSetName attr.key item)

/-- For every group of the target there is a group of the source whose items are all in it. -/
def Covers (others : Text → Bool) (source target : List (Text × Text)) : Prop :=
  ∀ c ∈ counted others target, ∃ d ∈ counted others source, ∀ e ∈ counted others source,
    itemGroup others source e = itemGroup others source d → e ∈ counted others target ∧ itemGroup others target e = itemGroup others target c

instance (others : Text → Bool) (source target : List (Text × Text)) : Decidable (Covers others source target) :=
  inferInstanceAs (Decidable (∀ c ∈ counted others target, ∃ d ∈ counted others source,
    ∀ e ∈ counted others source, itemGroup others source e = itemGroup others source d →
      e ∈ counted others target ∧ itemGroup others target e = itemGroup others target c))

/-- The import of an object only narrows it: the items that are left imply those that were there, or,
under `invert`, are implied by them. The rule of an endpoint has no conditions of its own. -/
def Narrows (v : Validation) (others : Text → Bool) (ruleSetName : Text → Text) (obj : Fields) :
    Prop :=
  if typeOf obj = .endpointPreferredBy then
    readable obj = true ∧ negates obj = false ∧ readItems (coreText ruleSetName) obj = []
  else if readable obj = true then
    if negates obj = true then
      Covers others (readItems (coreText ruleSetName) obj) (survivors v ruleSetName obj)
    else Covers others (survivors v ruleSetName obj) (readItems (coreText ruleSetName) obj)
  else
    trimmed ((textsAt obj (.flag .invert)).headD []) = "true".toList ∧ survivors v ruleSetName obj = []

/-! ## Emitted items -/

theorem keptOf_tidy (v : Validation) (obj : Fields) (attr : Attr) : Tidy (keptOf v obj attr) := by
  cases attr with
  | list a => exact (filterEmpty_tidy _).filter _
  | text a => exact filterEmpty_tidy _
  | flag a =>
    intro text htext
    simp only [keptOf, accepted, storedOf] at htext
    split at htext
    · rw [mem_singleton.1 htext]
      decide
    · cases htext
  | outbound => exact tidy_nil

variable {item : Text}

/-- A port that passes is emitted as the number it says. -/
theorem emitted_port (htidy : trimmed item = item) (h : item = "0".toList ∨ isPort item = true) :
    isDigits item = true ∧ intText (toInt item) = natText (decimalValue item) := by
  rcases h with rfl | hport
  · decide
  · rw [isPort, Bool.and_eq_true, Bool.and_eq_true, decide_eq_true_iff, decide_eq_true_iff] at hport
    obtain ⟨⟨hdigits, -⟩, hbound⟩ := hport
    refine ⟨hdigits, ?_⟩
    have hint : toInt item = (decimalValue item : Int) := by
      rw [toInt, htidy, readInt_of_digits hdigits]
      exact if_pos ⟨by omega, by omega⟩
    rw [hint]
    rfl

/-- A port that is not refused. -/
theorem port_of_not_refused {v : Validation} (htidy : trimmed item = item)
    (hne : item ≠ []) (h : refuses v (.list .port) item = false) : item = "0".toList ∨ isPort item = true := by
  have hempty : item.isEmpty = false := by simpa [List.isEmpty_iff] using hne
  simp only [refuses, htidy, hempty, Bool.false_eq_true, if_false] at h
  split at h
  · cases h
  · by_cases hzero : item = "0".toList
    · exact .inl hzero
    · right
      rw [bne_iff_ne.2 hzero, Bool.true_and, Bool.not_eq_false'] at h
      exact h

/-- An item is emitted as what the core is given for it. -/
theorem emitItem_text {v : Validation} {a : ListAttr} (ruleSetName : Text → Text)
    (htidy : trimmed item = item) (hne : item ≠ []) (hpass : refuses v (.list a) item = false) :
    (scalarText (emitItem ruleSetName a item)).getD [] = coreText ruleSetName a.key item := by
  have hport : ∀ key : Text, key = "port".toList ∨ key = "source_port".toList → refuses v (.list .port) item = false →
      intText (toInt item) = coreText ruleSetName key item := by
    intro key hkey hpass
    obtain ⟨hdigits, htext⟩ := emitted_port htidy (port_of_not_refused htidy hne hpass)
    rw [coreText, if_pos hkey, if_pos hdigits, htext]
  cases a with
  | port => exact hport _ (.inl rfl) hpass
  | source_port => exact hport _ (.inr rfl) hpass
  | _ => rfl

/-- The items of one field. -/
theorem readItems_append (given : Text → Text → Text) (fields more : Fields) :
    readItems given (fields ++ more) = readItems given fields ++ readItems given more := by
  rw [readItems, conditions, flatMap_append, filterMap_append]
  rfl

variable {fields : Fields}

/-- The fields of an object that are no conditions. -/
theorem readItems_options {given : Text → Text → Text} (h : ∀ field ∈ fields, groupOf field.1 = none) : readItems given fields = [] := by
  have hnone : conditions fields = [] := by
    rw [conditions, flatMap_eq_nil_iff]
    intro field hfield
    rw [h field hfield, Option.isSome_none, if_neg Bool.false_ne_true]
  rw [readItems, hnone, filterMap_nil]

theorem readItems_field {given : Text → Text → Text} {key : Text} {group : Core.SingBox.Group}
    (h : groupOf key = some group) (value : Json) : readItems given [(key, value)] =
    ((items key value).map fun value => (key, value)).filterMap (readItem given) := by
  rw [readItems, conditions_cons_condition h, conditions, flatMap_nil, append_nil]

variable {attr : Attr}

theorem fieldsOf_none {field : Attr → Option Json} (h : field attr = none) : fieldsOf field [attr] = [] := by
  rw [fieldsOf, filterMap_cons, h]
  rfl

theorem fieldsOf_some {field : Attr → Option Json} {value : Json} (h : field attr = some value) : fieldsOf field [attr] = [(attr.key, value)] := by
  rw [fieldsOf, filterMap_cons, h]
  rfl

theorem groupOf_list {a : ListAttr} (h : is_match_attribute (.list a) = true) : ∃ group, groupOf a.key = some group := by
  cases a <;> first | exact absurd h (by decide) | exact ⟨_, rfl⟩

/-- What `get_rule_json` emits for a condition, item by item. -/
def emittedItems (ruleSetName : Text → Text) (rule : RouteRule) : Attr → List (Text × Text)
  | .list a =>
    (filterEmpty (rule.lists a)).map fun item =>
      (a.key, (scalarText (emitItem ruleSetName a item)).getD [])
  | .text .ip_version =>
    if (trimmed (rule.texts .ip_version)).isEmpty then []
    else [(TextAttr.ip_version.key, intText (toInt (rule.texts .ip_version)))]
  | .text a =>
    if (trimmed (rule.texts a)).isEmpty then [] else [(a.key, trimmed (rule.texts a))]
  | .flag .invert => []
  | .flag a => if rule.flags a then [(a.key, "true".toList)] else []
  | .outbound => []

/-- The conditions of a rule, `invert` apart. -/
def conditionItems (ruleSetName : Text → Text) (rule : RouteRule) : List (Text × Text) :=
  (attributes.filter is_match_attribute).flatMap (emittedItems ruleSetName rule)

variable {attrs : List Attr}

section Emitted

variable {v : Validation} {ruleSetName : Text → Text} {rule : RouteRule}

theorem isValidStrArray_eq (items : List Text) : isValidStrArray items = !(filterEmpty items).isEmpty := by
  cases h : isValidStrArray items with
  | true =>
    obtain ⟨item, hitem, hset⟩ := any_eq_true.1 h
    have hmem : trimmed item ∈ filterEmpty items :=
      mem_filterEmpty.2 ⟨item, hitem, rfl, by simpa [List.isEmpty_iff] using hset⟩
    cases hitems : filterEmpty items with
    | nil =>
      rw [hitems] at hmem
      cases hmem
    | cons _ _ => rfl
  | false =>
    have hnone : filterEmpty items = [] := by
      rw [eq_nil_iff_forall_not_mem]
      intro value hvalue
      obtain ⟨item, hitem, rfl, hne⟩ := mem_filterEmpty.1 hvalue
      rw [isValidStrArray, any_eq_false] at h
      exact h item hitem (by simpa [List.isEmpty_iff] using hne)
    rw [hnone]
    rfl

/-- The field of a condition, read item by item. -/
theorem readItems_condition (hmatch : is_match_attribute attr = true) :
    readItems (fun _ item => item) (fieldsOf (rule.conditionField ruleSetName) [attr]) = emittedItems ruleSetName rule attr := by
  cases attr with
  | list a =>
    cases hvalid : isValidStrArray (rule.lists a) with
    | false =>
      have hnone : rule.conditionField ruleSetName (.list a) = none := by
        rw [RouteRule.conditionField, hvalid]
        rfl
      have hempty : filterEmpty (rule.lists a) = [] := by
        rw [isValidStrArray_eq, Bool.not_eq_false', List.isEmpty_iff] at hvalid
        exact hvalid
      rw [fieldsOf_none hnone, emittedItems, hempty]
      rfl
    | true =>
      obtain ⟨group, hgroup⟩ := groupOf_list hmatch
      have hswitch : switchKeys.contains a.key = false := by cases a <;> rfl
      have hfield : rule.conditionField ruleSetName (.list a) = some (.array ((filterEmpty (rule.lists a)).map (emitItem ruleSetName a))) := by
        rw [RouteRule.conditionField, if_pos hvalid]
      have hkey : Attr.key (.list a) = a.key := rfl
      rw [fieldsOf_some hfield, hkey, readItems_field hgroup, items, map_map, filterMap_map, emittedItems, ← filterMap_eq_map']
      refine filterMap_congr fun item _ => ?_
      simp only [Function.comp_apply, readItem, hswitch, Bool.false_and, Bool.false_eq_true, if_false]
  | text a =>
    cases hset : (trimmed (rule.texts a)).isEmpty with
    | true =>
      have hnone : rule.conditionField ruleSetName (.text a) = none := by
        cases a <;> simp only [RouteRule.conditionField, textValue, hset, if_true]
      rw [fieldsOf_none hnone]
      cases a <;> simp only [emittedItems, hset, if_true] <;> rfl
    | false =>
      have hvalue : textValue (rule.texts a) = some (.text (trimmed (rule.texts a))) := by
        rw [textValue, hset]
        rfl
      cases a with
      | network =>
        have hfield : rule.conditionField ruleSetName (.text .network) = _ := hvalue
        rw [fieldsOf_some hfield, emittedItems, hset]
        · rfl
        · exact nofun
      | protocol =>
        have hfield : rule.conditionField ruleSetName (.text .protocol) = _ := hvalue
        rw [fieldsOf_some hfield, emittedItems, hset]
        · rfl
        · exact nofun
      | ip_version =>
        have hfield : rule.conditionField ruleSetName (.text .ip_version) = some (.int (toInt (rule.texts .ip_version))) := by
          simp only [RouteRule.conditionField, hset, Bool.false_eq_true, if_false]
        rw [fieldsOf_some hfield, emittedItems, hset]
        rfl
      | _ => cases hmatch
  | flag a =>
    cases hflag : rule.flags a with
    | false =>
      have hnone : rule.conditionField ruleSetName (.flag a) = none := by
        rw [RouteRule.conditionField, hflag]
        rfl
      rw [fieldsOf_none hnone]
      cases a <;> simp only [emittedItems, hflag] <;> rfl
    | true =>
      have hfield : rule.conditionField ruleSetName (.flag a) = some (.bool true) := by
        rw [RouteRule.conditionField, hflag]
        rfl
      rw [fieldsOf_some hfield]
      cases a <;> first | exact absurd hmatch (by decide) | (simp only [emittedItems, hflag]; rfl)
  | outbound => cases hmatch

theorem readItems_conditions (hmatch : ∀ attr ∈ attrs, is_match_attribute attr = true) :
    readItems (fun _ item => item) (fieldsOf (rule.conditionField ruleSetName) attrs) = attrs.flatMap (emittedItems ruleSetName rule) := by
  induction attrs with
  | nil => rfl
  | cons attr attrs ih =>
    have hsplit : fieldsOf (rule.conditionField ruleSetName) (attr :: attrs) =
        fieldsOf (rule.conditionField ruleSetName) [attr] ++ fieldsOf (rule.conditionField ruleSetName) attrs := by
      rw [fieldsOf, fieldsOf, fieldsOf, ← filterMap_append]
      rfl
    rw [hsplit, readItems_append, readItems_condition (hmatch attr mem_cons_self), ih fun other h => hmatch other (mem_cons_of_mem _ h), flatMap_cons]

/-- What is stored as it passes its check is emitted as it is. -/
theorem emittedItems_stored (hmatch : is_match_attribute attr = true) (htidy : Tidy (rule.stored attr))
    (hpass : ∀ item ∈ rule.stored attr, refuses v attr item = false) : emittedItems ruleSetName rule attr = if attr = .flag .invert then []
    else (rule.stored attr).map fun item => (attr.key, coreText ruleSetName attr.key item) := by
  cases attr with
  | list a =>
    have hself : filterEmpty (rule.lists a) = rule.lists a := filterEmpty_of_tidy htidy
    rw [if_neg (by simp), emittedItems, RouteRule.stored, hself]
    refine map_congr_left fun item hitem => ?_
    rw [emitItem_text ruleSetName (htidy item hitem).1 (htidy item hitem).2 (hpass item hitem)]
    rfl
  | text a =>
    rw [if_neg (by simp)]
    by_cases hempty : rule.texts a = []
    · rw [RouteRule.stored, hempty]
      cases a <;> simp only [emittedItems, hempty] <;> rfl
    · have hstored : rule.stored (.text a) = [rule.texts a] := by
        rw [RouteRule.stored, if_neg (by simpa [List.isEmpty_iff] using hempty)]
      rw [hstored] at htidy hpass ⊢
      have hself : trimmed (rule.texts a) = rule.texts a := (htidy _ (mem_singleton.2 rfl)).1
      have hset : (rule.texts a).isEmpty = false := by simpa [List.isEmpty_iff] using hempty
      have hpass := hpass _ (mem_singleton.2 rfl)
      cases a with
      | network | protocol =>
        simp only [emittedItems, hself, hset, Bool.false_eq_true, if_false]
        rfl
      | ip_version =>
        have hversion : rule.texts .ip_version = "4".toList ∨ rule.texts .ip_version = "6".toList := by
          refine or_iff_not_imp_left.2 ?_
          simpa [refuses, hself, hset] using hpass
        simp only [emittedItems, hself, hset, Bool.false_eq_true, if_false]
        rcases hversion with h4 | h6
        · rw [h4]
          rfl
        · rw [h6]
          rfl
      | _ => cases hmatch
  | flag a =>
    cases hflag : rule.flags a with
    | false =>
      rw [RouteRule.stored, hflag]
      cases a <;> simp only [emittedItems, hflag] <;> rfl
    | true =>
      rw [RouteRule.stored, hflag]
      cases a <;> first | exact absurd hmatch (by decide) | (simp only [emittedItems, hflag]; rfl)
  | outbound => cases hmatch

theorem conditions_stored (hmatch : ∀ attr ∈ attrs, is_match_attribute attr = true)
    (htidy : ∀ attr, is_match_attribute attr = true → Tidy (rule.stored attr))
    (hpass : ∀ attr, is_match_attribute attr = true → ∀ item ∈ rule.stored attr, refuses v attr item = false) :
    attrs.flatMap (emittedItems ruleSetName rule) = (attrs.filter fun attr => attr != .flag .invert).flatMap fun attr =>
        (rule.stored attr).map fun item => (attr.key, coreText ruleSetName attr.key item) := by
  induction attrs with
  | nil => rfl
  | cons attr attrs ih =>
    have hhere := hmatch attr mem_cons_self
    rw [flatMap_cons, ih fun other h => hmatch other (mem_cons_of_mem _ h), emittedItems_stored hhere (htidy attr hhere) (hpass attr hhere)]
    by_cases hinvert : attr = .flag .invert
    · rw [if_pos hinvert, filter_cons_of_neg (by simpa using hinvert), nil_append]
    · rw [if_neg hinvert, filter_cons_of_pos (by simpa using hinvert), flatMap_cons]

end Emitted

/-! ## Fields by their keys -/

section Keys

variable (field : Attr → Option Json)

/-- The field under the key of an attribute is the one of that attribute. -/
theorem fieldsOf_get (attr : Attr) (attrs : List Attr) : (fieldsOf field attrs).get attr.key = if attr ∈ attrs then field attr else none := by
  induction attrs with
  | nil => rfl
  | cons other attrs ih =>
    rw [fieldsOf, filterMap_cons]
    by_cases heq : attr = other
    · subst heq
      rw [if_pos mem_cons_self]
      cases hfield : field attr with
      | none =>
        rw [hfield, ite_self] at ih
        exact ih
      | some value => exact Fields.get_cons_self rfl _
    · simp only [mem_cons, heq, false_or]
      cases hfield : field other with
      | none => exact ih
      | some value =>
        refine (Fields.get_cons_other ?_ _).trans ih
        -- Different attributes have different keys.
        intro hsame
        change other.key = attr.key at hsame
        have hattr := attrOf_key other
        rw [hsame, attrOf_key attr] at hattr
        exact heq (Option.some.inj hattr)

/-- The fields of options say nothing of what a rule matches. -/
theorem fieldsOf_options (h : ∀ attr ∈ attrs, groupOf attr.key = none) : ∀ x ∈ fieldsOf field attrs, groupOf x.1 = none := by
  intro x hx
  obtain ⟨attr, hattr, hfield⟩ := mem_filterMap.1 hx
  obtain ⟨value, -, rfl⟩ := Option.map_eq_some_iff.1 hfield
  exact h attr hattr

end Keys

/-- From the action on, a generated rule says nothing of what it matches. -/
theorem actionAttributes_options : ∀ attr ∈ actionAttributes, groupOf attr.key = none := by
  decide

/-! ## Generated rules -/

section Generated

variable {v : Validation} {o : Outbounds} {darwin : Bool} {obj : Fields} {rule : RouteRule} {ruleSetName : Text → Text}

section

variable (hcustom : rule.type ≠ .endpointPreferredBy)

include hcustom

/-- A switch of a generated rule. -/
theorem generated_switch {a : FlagAttr} (hmatch : is_match_attribute (.flag a) = true) (tag : Text) :
    textsAt (rule.get_rule_json v ruleSetName tag) (.flag a) = rule.stored (.flag a) := by
  have hmem : Attr.flag a ∈ attributes.filter is_match_attribute := by
    cases a <;> first | decide | cases hmatch
  have hother : Attr.flag a ∉ actionAttributes := by
    cases a <;> first | decide | cases hmatch
  rw [textsAt, RouteRule.get_rule_json, if_neg hcustom, Fields.get_or, RouteRule.conditionFields,
    RouteRule.actionFields, fieldsOf_get, fieldsOf_get, if_pos hmem, if_neg hother, Option.or_none,
    RouteRule.conditionField, flagValue, RouteRule.stored]
  split <;> rfl

theorem generated_readable (tag : Text) : readable (rule.get_rule_json v ruleSetName tag) = true := by
  rw [readable, all_eq_true]
  intro a ha
  have hmatch : is_match_attribute (.flag a) = true := by
    revert a
    decide
  rw [generated_switch hcustom hmatch, RouteRule.stored]
  split <;> rfl

theorem generated_negates (tag : Text) : negates (rule.get_rule_json v ruleSetName tag) = rule.flags .invert := by
  rw [negates, generated_switch hcustom rfl, RouteRule.stored]
  cases rule.flags .invert <;> rfl

/-- The items of the core's rule are the conditions of the rule. -/
theorem readItems_rule (tag : Text) : readItems (fun _ item => item) (rule.get_rule_json v ruleSetName tag) = conditionItems ruleSetName rule := by
  have hoptions : ∀ outbound, readItems (fun _ item => item) (rule.actionFields v outbound) = [] :=
    fun outbound => readItems_options (fieldsOf_options _ actionAttributes_options)
  rw [RouteRule.get_rule_json, if_neg hcustom, readItems_append, hoptions, append_nil, RouteRule.conditionFields, conditionItems]
  exact readItems_conditions fun attr hattr => (mem_filter.1 hattr).2

end

/-- The items of a generated rule are the ones its import left. -/
theorem generated_items (hkeys : (obj.map Prod.fst).Nodup) (h : parse_rule_object v o darwin obj = some rule)
    (hcustom : typeOf obj ≠ .endpointPreferredBy) (tag : Text) :
    readItems (fun _ item => item) (rule.get_rule_json v ruleSetName tag) = survivors v ruleSetName obj := by
  obtain ⟨-, htype, hstored⟩ := parse_stored hkeys h
  have hstored := hstored hcustom
  rw [← htype] at hcustom
  have htidy : ∀ attr, is_match_attribute attr = true → Tidy (rule.stored attr) := by
    intro attr hmatch
    rw [(hstored attr hmatch).1]
    exact keptOf_tidy v obj attr
  rw [readItems_rule hcustom, conditionItems, conditions_stored
    (fun attr hattr => (mem_filter.1 hattr).2) htidy fun attr hmatch => (hstored attr hmatch).2]
  refine flatMap_congr fun attr hattr => ?_
  have hmatch := (mem_filter.1 (mem_filter.1 hattr).1).2
  rw [(hstored attr hmatch).1]

/-! ## Import never widens, and where it does -/

variable {others : Text → Bool} {given : Text → Text → Text}

theorem not_matchesItems (h : readable fields = false) (holds : Text × Text → Bool) : matchesItems others given fields holds = false := by
  rw [matchesItems, h, Bool.false_and]

/-- An imported rule is inverted when the first value under `invert` says so. -/
theorem invert_of_stored (h : rule.stored (.flag .invert) = keptOf v obj (.flag .invert)) : rule.flags .invert =
    decide (trimmed ((textsAt obj (.flag .invert)).headD []) = "true".toList) := by
  simp only [RouteRule.stored, keptOf, accepted, storedOf] at h
  cases hflag : rule.flags .invert with
  | true =>
    rw [hflag, if_pos rfl] at h
    by_cases hsays : trimmed ((textsAt obj (.flag .invert)).headD []) = "true".toList
    · exact (decide_eq_true hsays).symm
    · rw [if_neg hsays] at h
      exact absurd h (cons_ne_nil _ _)
  | false =>
    rw [hflag, if_neg Bool.false_ne_true] at h
    by_cases hsays : trimmed ((textsAt obj (.flag .invert)).headD []) = "true".toList
    · rw [if_pos hsays] at h
      exact absurd h.symm (cons_ne_nil _ _)
    · exact (decide_eq_false hsays).symm

/-- Where the object can be read, that is what it says. -/
theorem invert_of_readable (hreadable : readable obj = true)
    (h : rule.stored (.flag .invert) = keptOf v obj (.flag .invert)) : rule.flags .invert = negates obj := by
  have hsays : saysSwitch (textsAt obj (.flag .invert)) = true := all_eq_true.1 hreadable .invert mem_cons_self
  have hcases : textsAt obj (.flag .invert) = [] ∨ textsAt obj (.flag .invert) = ["true".toList] ∨
      textsAt obj (.flag .invert) = ["false".toList] := by
    simpa only [saysSwitch, Bool.or_eq_true, beq_iff_eq, or_assoc] using hsays
  rw [invert_of_stored h, negates]
  rcases hcases with htexts | htexts | htexts
  all_goals
    rw [htexts]
    decide

/-- A condition that is read comes from a field. -/
theorem key_of_readItems {x : Text × Text} (h : x ∈ readItems given fields) : x.1 ∈ fields.map Prod.fst := by
  obtain ⟨condition, hcondition, hread⟩ := mem_filterMap.1 h
  obtain ⟨field, hfield, hitem⟩ := mem_flatMap.1 hcondition
  have hkey : x.1 = field.1 := by
    simp only [readItem] at hread
    split at hread
    · exact absurd hread (Option.some_ne_none _).symm
    · rw [← Option.some.inj hread]
      split at hitem
      · obtain ⟨value, -, rfl⟩ := mem_map.1 hitem
        rfl
      · cases hitem
  rw [hkey]
  exact mem_map_of_mem hfield

/-- Items of rules that are not inverted. -/
theorem covers_iff {source target : List (Text × Text)} : (∀ holds : Text × Text → Bool,
    itemsHold others source holds = true → itemsHold others target holds = true) ↔ Covers others source target :=
  allHold_imp_iff _ _ _ _

theorem matchesItems_true {holds : Text × Text → Bool} : matchesItems others given fields holds = true ↔ readable fields = true ∧
    itemsHold others (readItems given fields) holds = !negates fields := by
  rw [matchesItems, Bool.and_eq_true, bne_iff_ne, Bool.eq_not]

/-- Items that all hold make every group hold. -/
theorem itemsHold_all (items : List (Text × Text)) : itemsHold others items (fun _ => true) = true :=
  allHold_iff.2 fun c hc => ⟨c, hc, rfl, rfl⟩

/-- Some item counts, if there is one. -/
theorem counted_ne_nil {items : List (Text × Text)} (h : items ≠ []) : counted others items ≠ [] := by
  rw [counted]
  split
  · next hmerges =>
    -- An address of the rule's own.
    obtain ⟨haddress, -⟩ := Bool.and_eq_true_iff.1 hmerges
    obtain ⟨x, hx, hgroup⟩ := any_eq_true.1 haddress
    refine ne_nil_of_mem (mem_filter.2 ⟨hx, ?_⟩)
    rw [Bool.or_eq_true]
    refine .inl (bne_iff_ne.2 fun hset => ?_)
    rw [hset] at hgroup
    exact absurd hgroup (by decide)
  · exact h

theorem mem_of_counted {items : List (Text × Text)} {x : Text × Text} (h : x ∈ counted others items) : x ∈ items := by
  rw [counted] at h
  split at h
  · exact mem_of_mem_filter h
  · exact h

/-- The rule of an endpoint, made from an object with conditions or without. -/
theorem neverWidens_endpoint (hkeys : ∀ field ∈ obj, isStorableRuleKey field.1 = true)
    (htype : rule.type = .endpointPreferredBy) : NeverWidens v others ruleSetName obj rule ↔
    readable obj = true ∧ negates obj = false ∧ readItems (coreText ruleSetName) obj = [] := by
  constructor
  · intro h
    have hrule : rule.get_rule_json v ruleSetName "x".toList = [("preferred_by".toList, .array [.text "x".toList]),
          ("action".toList, .text "route".toList), ("outbound".toList, .text "x".toList)] := by
      rw [RouteRule.get_rule_json, if_pos htype]
      rfl
    have hmatches : ∀ holds : Text × Text → Bool, holds ("preferred_by".toList, "x".toList) = true →
          matchesItems others (coreText ruleSetName) obj holds = true := by
      intro holds hholds
      apply h "x".toList holds
      · rw [hrule]
        exact cons_ne_nil _ _
      · rw [hrule, matchesItems_true]
        refine ⟨by decide, allHold_iff.2 fun c hc => ?_⟩
        obtain rfl : c = ("preferred_by".toList, "x".toList) := mem_singleton.1 (mem_of_counted hc)
        exact ⟨_, hc, rfl, hholds⟩
    obtain ⟨hreadable, hplain⟩ := matchesItems_true.1 (hmatches (fun _ => true) rfl)
    rw [itemsHold_all, eq_comm, Bool.not_eq_true'] at hplain
    refine ⟨hreadable, hplain, ?_⟩
    by_contra hne
    obtain ⟨c, hc⟩ := exists_mem_of_ne_nil (counted others _) (counted_ne_nil hne)
    -- Let only the endpoint's own condition hold.
    have honly := (matchesItems_true.1 (hmatches (fun x => x == ("preferred_by".toList, "x".toList)) (by decide))).2
    rw [hplain, Bool.not_false] at honly
    obtain ⟨d, hd, hgroup, hholds⟩ := allHold_iff.1 honly c hc
    have hkey : d.1 = "preferred_by".toList := congrArg Prod.fst (eq_of_beq hholds)
    obtain ⟨field, hfield, hname⟩ := mem_map.1 (key_of_readItems (mem_of_counted hd))
    have hstorable := hkeys field hfield
    rw [hname, hkey] at hstorable
    cases hstorable
  · rintro ⟨hreadable, hplain, hempty⟩ tag holds - -
    rw [matchesItems_true, hempty, hplain]
    exact ⟨hreadable, rfl⟩

theorem generated_ne_nil (hcustom : rule.type ≠ .endpointPreferredBy) (tag : Text) : rule.get_rule_json v ruleSetName tag ≠ [] := by
  have haction : ∀ outbound, ("action".toList, Json.text rule.emittedAction) ∈ rule.actionFields v outbound := by
    exact fun _ => mem_cons_self
  rw [RouteRule.get_rule_json, if_neg hcustom]
  exact ne_nil_of_mem (mem_append_right _ (haction _))

/-- Without conditions and inverted, a rule matches nothing. Every other one matches something. -/
theorem never_matches_iff {survivors : List (Text × Text)} {p : Prop} [Decidable p]
    (h : rule.flags .invert = decide p) : (∀ holds : Text × Text → Bool,
    ¬itemsHold others survivors holds = !rule.flags .invert) ↔ p ∧ survivors = [] := by
  constructor
  · intro hnever
    have hinvert : rule.flags .invert = true := by
      have hall := hnever fun _ => true
      rw [itemsHold_all] at hall
      simpa using hall
    refine ⟨of_decide_eq_true (h.symm.trans hinvert), ?_⟩
    by_contra hne
    obtain ⟨c, hc⟩ := exists_mem_of_ne_nil (counted others _) (counted_ne_nil hne)
    have hnone := hnever fun _ => false
    rw [hinvert, Bool.not_true, Bool.not_eq_false] at hnone
    obtain ⟨d, -, -, hholds⟩ := allHold_iff.1 hnone c hc
    cases hholds
  · rintro ⟨hp, rfl⟩ holds
    rw [h, decide_eq_true hp]
    exact Bool.noConfusion

end Generated

/-- An imported rule never matches what its object does not match, exactly when the import only narrows
the object. -/
theorem neverWidens_iff (v : Validation) (o : Outbounds) (darwin : Bool) (others : Text → Bool)
    (ruleSetName : Text → Text) (obj : Fields) (hkeys : (obj.map Prod.fst).Nodup)
    (rule : RouteRule) (h : parse_rule_object v o darwin obj = some rule) :
    NeverWidens v others ruleSetName obj rule ↔ Narrows v others ruleSetName obj := by
  obtain ⟨hstorable, htype, hstored⟩ := parse_stored hkeys h
  by_cases hendpoint : typeOf obj = .endpointPreferredBy
  · rw [Narrows, if_pos hendpoint]
    exact neverWidens_endpoint hstorable (htype.trans hendpoint)
  · have hcustom : rule.type ≠ .endpointPreferredBy := by
      rw [htype]
      exact hendpoint
    have hinvert := (hstored hendpoint (.flag .invert) rfl).1
    have hrule : NeverWidens v others ruleSetName obj rule ↔ ∀ holds : Text × Text → Bool,
        itemsHold others (survivors v ruleSetName obj) holds = !rule.flags .invert → matchesItems others (coreText ruleSetName) obj holds = true := by
      constructor
      · intro hnever holds hsurvive
        refine hnever [] holds (generated_ne_nil hcustom []) (matchesItems_true.2 ?_)
        rw [generated_items hkeys h hendpoint, generated_negates hcustom]
        exact ⟨generated_readable hcustom [], hsurvive⟩
      · intro hall tag holds _ hmatches
        have hitems := (matchesItems_true.1 hmatches).2
        rw [generated_items hkeys h hendpoint, generated_negates hcustom] at hitems
        exact hall holds hitems
    rw [Narrows, if_neg hendpoint, hrule]
    by_cases hreadable : readable obj = true
    · rw [if_pos hreadable, invert_of_readable hreadable hinvert]
      simp only [matchesItems_true, hreadable, true_and]
      cases negates obj with
      | true =>
        rw [if_pos rfl, ← covers_iff, Bool.not_true]
        -- What matches are the connections for which the conditions fail.
        constructor
        · intro hfail holds hobj
          by_contra hsurvive
          have hnot := hfail holds (Bool.not_eq_true _ ▸ hsurvive)
          rw [hobj] at hnot
          cases hnot
        · intro hhold holds hsurvive
          by_contra hobj
          have hnot := hhold holds (by simpa using hobj)
          rw [hsurvive] at hnot
          cases hnot
      | false =>
        rw [if_neg Bool.false_ne_true, ← covers_iff, Bool.not_false]
    · rw [if_neg hreadable]
      have hnothing : ∀ holds, matchesItems others (coreText ruleSetName) obj holds = false := not_matchesItems (Bool.eq_false_iff.2 hreadable)
      simp only [hnothing, Bool.false_eq_true, imp_false]
      exact never_matches_iff (invert_of_stored hinvert)

/-- Checks for rules that hold none of the values they are about. -/
def plainChecks : Validation where
  cidr _ := false
  portRange _ := false
  ruleSet _ := false
  overrideAddress _ := false
  duration _ := false
  spoof _ := false
  lower text := text.map Char.toLower

/-- A port that is none is taken out, which narrows the rule. -/
theorem neverWidens_iff_ports : ∃ rule, parse_rule_object plainChecks noProfiles false [("domain".toList, .array [.text "example.com".toList]),
    ("port".toList, .array [.int 443, .int 70000])] = some rule ∧ NeverWidens plainChecks (fun _ => false) id
    [("domain".toList, .array [.text "example.com".toList]), ("port".toList, .array [.int 443, .int 70000])] rule := by
  obtain ⟨rule, hrule⟩ := Option.isSome_iff_exists.1
    (show (parse_rule_object plainChecks noProfiles false [("domain".toList, .array [.text "example.com".toList]),
          ("port".toList, .array [.int 443, .int 70000])]).isSome = true by decide)
  refine ⟨rule, hrule, (neverWidens_iff plainChecks noProfiles false (fun _ => false) id _ (by decide) rule hrule).2 ?_⟩
  unfold Narrows
  decide

/-- Two values under `network` of an inverted rule, and a condition that is blank. -/
theorem import_widens : (∃ rule, parse_rule_object plainChecks noProfiles false [("invert".toList, .bool true),
    ("network".toList, .array [.text "tcp".toList, .text "udp".toList])] = some rule ∧
    matchesItems (fun _ => false) (fun _ item => item) (rule.get_rule_json plainChecks id [])
    (fun x => x == ("network".toList, "udp".toList)) = true ∧ matchesItems (fun _ => false) (coreText id)
    [("invert".toList, .bool true), ("network".toList, .array [.text "tcp".toList, .text "udp".toList])]
    (fun x => x == ("network".toList, "udp".toList)) = false) ∧ ∃ rule, parse_rule_object plainChecks noProfiles false
    [("domain".toList, .array [.text []])] = some rule ∧
    matchesItems (fun _ => false) (fun _ item => item) (rule.get_rule_json plainChecks id []) (fun _ => false) = true ∧
    matchesItems (fun _ => false) (coreText id) [("domain".toList, .array [.text []])] (fun _ => false) = false := by
  constructor
  all_goals
    refine ⟨_, (Option.some_get (by decide)).symm, ?_, ?_⟩ <;> decide

end Throne.Database.Routes
