import Throne.Database.Entities.RouteRuleJson

/-!
# What an import keeps of a rule

`stored` is what a rule holds under a condition, whatever its kind. An import writes every field of the
object once (`readFields_stored`) and its repairs only take refused items out of lists
(`checkImportedRule_kept`), so what an imported rule holds under a condition is a function of the one
field of that name (`parse_stored`).
-/

namespace Throne.Database.Routes

open Lib.Texts Lib.Json List

/-! ## Texts -/

@[simp] theorem trimmed_nil : trimmed [] = [] := rfl

/-- A list with no blank items and no blanks around one. -/
def Tidy (texts : List Text) : Prop := ∀ text ∈ texts, trimmed text = text ∧ text ≠ []

theorem mem_filterEmpty {items : List Text} {value : Text} : value ∈ filterEmpty items ↔ ∃ item ∈ items, trimmed item = value ∧ value ≠ [] := by
  rw [filterEmpty, mem_filter, mem_map]
  constructor
  · rintro ⟨⟨item, hitem, rfl⟩, hne⟩
    exact ⟨item, hitem, rfl, by simpa [List.isEmpty_iff] using hne⟩
  · rintro ⟨item, hitem, rfl, hne⟩
    exact ⟨⟨item, hitem, rfl⟩, by simpa [List.isEmpty_iff] using hne⟩

theorem filterEmpty_tidy (base : List Text) : Tidy (filterEmpty base) := by
  intro text htext
  obtain ⟨hmem, hne⟩ := mem_filter.1 htext
  obtain ⟨raw, -, rfl⟩ := mem_map.1 hmem
  refine ⟨trimmed_trimmed raw, ?_⟩
  rintro hempty
  rw [hempty] at hne
  cases hne

theorem filterEmpty_of_tidy {base : List Text} (h : Tidy base) : filterEmpty base = base := by
  have hmap : base.map trimmed = base := by
    rw [map_congr_left fun text htext => (h text htext).1, map_id']
  rw [filterEmpty, hmap, filter_eq_self]
  intro text htext
  simpa [List.isEmpty_iff] using (h text htext).2

theorem Tidy.filter {texts : List Text} (h : Tidy texts) (p : Text → Bool) : Tidy (texts.filter p) :=
  fun text htext => h text (mem_of_mem_filter htext)

theorem tidy_nil : Tidy [] := nofun

/-! ## What a rule holds -/

/-- What a rule holds under an attribute, as texts. -/
def RouteRule.stored (rule : RouteRule) : Attr → List Text
  | .list a => rule.lists a
  | .text a => if (rule.texts a).isEmpty then [] else [rule.texts a]
  | .flag a => if rule.flags a then ["true".toList] else []
  | .outbound => []

/-- What `set_field_value` makes of texts. -/
def storedOf : Attr → List Text → List Text
  | .list _, value => filterEmpty value
  | .text _, value => filterEmpty (value.take 1)
  | .flag _, value => if trimmed (value.headD []) = "true".toList then ["true".toList] else []
  | .outbound, _ => []

theorem storedOf_nil (attr : Attr) : storedOf attr [] = [] := by
  cases attr with
  | list a | text a | outbound => rfl
  | flag a =>
    rw [storedOf, if_neg]
    decide

variable {attr : Attr}

theorem stored_default (h : is_match_attribute attr = true) : RouteRule.default.stored attr = [] := by
  cases attr with
  | list a | flag a | outbound => rfl
  | text a => cases a <;> first | rfl | cases h

theorem stored_set_self (h : is_match_attribute attr = true) (rule : RouteRule)
    (value : List Text) : (rule.set_field_value attr value).stored attr = storedOf attr value := by
  cases attr with
  | list a | flag a => simp [RouteRule.set_field_value, RouteRule.stored, storedOf]
  | text a =>
    have hset : rule.set_field_value (.text a) value = { rule with texts := Function.update rule.texts a (trimmed (value.headD [])) } := by
      cases a <;> first | rfl | cases h
    rw [hset]
    cases value with
    | nil => simp [RouteRule.stored, storedOf, filterEmpty]
    | cons text more =>
      by_cases hempty : trimmed text = []
      · simp [RouteRule.stored, storedOf, filterEmpty, hempty]
      · simp [RouteRule.stored, storedOf, filterEmpty, hempty, List.isEmpty_iff]
  | outbound => cases h

section Frames

variable {other : Attr} (rule : RouteRule)

theorem stored_update_list {a : ListAttr} (h : other ≠ .list a) (value : List Text) :
    { rule with lists := Function.update rule.lists a value }.stored other = rule.stored other := by
  cases other with
  | list b => exact Function.update_of_ne (fun heq => h (congrArg Attr.list heq)) _ _
  | text b | flag b | outbound => rfl

theorem stored_update_text {a : TextAttr} (h : other ≠ .text a) (value : Text) :
    { rule with texts := Function.update rule.texts a value }.stored other = rule.stored other := by
  cases other with
  | text b =>
    have hsame : Function.update rule.texts a value b = rule.texts b :=
      Function.update_of_ne (fun heq => h (congrArg Attr.text heq)) _ _
    simp only [RouteRule.stored, hsame]
  | list b | flag b | outbound => rfl

theorem stored_update_flag {a : FlagAttr} (h : other ≠ .flag a) (value : Bool) :
    { rule with flags := Function.update rule.flags a value }.stored other = rule.stored other := by
  cases other with
  | flag b =>
    have hsame : Function.update rule.flags a value b = rule.flags b :=
      Function.update_of_ne (fun heq => h (congrArg Attr.flag heq)) _ _
    simp only [RouteRule.stored, hsame]
  | list b | text b | outbound => rfl

theorem stored_outboundID (id : Int) : { rule with outboundID := id }.stored other = rule.stored other := by
  cases other <;> rfl

/-- A field that is written leaves the other attributes alone. -/
theorem stored_set_other (h : other ≠ attr) (value : List Text) : (rule.set_field_value attr value).stored other = rule.stored other := by
  cases attr with
  | list a => exact stored_update_list rule h _
  | text a => cases a <;> exact stored_update_text rule h _
  | flag a => exact stored_update_flag rule h _
  | outbound => exact stored_outboundID rule _

theorem stored_clear_other (h : other ≠ attr) : (rule.clear_attribute_value attr).stored other = rule.stored other := by
  cases attr with
  | list a => cases a <;> first | rfl | exact stored_update_list rule h _
  | text a => cases a <;> first | rfl | exact stored_update_text rule h _
  | flag a => exact stored_update_flag rule h _
  | outbound => exact stored_outboundID rule _

end Frames

theorem set_field_value_type (rule : RouteRule) (attr : Attr) (value : List Text) : (rule.set_field_value attr value).type = rule.type := by
  cases attr with
  | list a | flag a | outbound => rfl
  | text a => cases a <;> rfl

theorem clear_attribute_value_type (rule : RouteRule) (attr : Attr) : (rule.clear_attribute_value attr).type = rule.type := by
  cases attr with
  | list a | text a => cases a <;> rfl
  | flag a | outbound => rfl

/-! ## The fields of an object -/

/-- Every attribute has its key for itself. -/
theorem attrOf_key (attr : Attr) : attrOf attr.key = some attr := by
  cases attr with
  | list a | text a | flag a => cases a <;> rfl
  | outbound => rfl

theorem key_of_attrOf {key : Text} (h : attrOf key = some attr) (hmatch : is_match_attribute attr = true) : key = attr.key := by
  rw [attrOf] at h
  split at h
  · cases h
    cases hmatch
  · have hfound : (attr.key == key) = true :=
      find?_some (p := fun a : Attr => a.key == key) h
    exact (eq_of_beq hfound).symm

theorem attrOf_name : attrOf "name".toList = none := by decide

theorem attrOf_type : attrOf "type".toList = none := by decide

theorem attrOf_disabled : attrOf "disabled".toList = none := by decide

/-- The texts of the field under the key of an attribute. -/
def textsAt (obj : Fields) (attr : Attr) : List Text := ((obj.get attr.key).bind fieldTexts).getD []

variable {o : Outbounds} {rule rule' : RouteRule}

/-- A field that is read, seen from one condition: it is the one for it, or leaves it alone. -/
theorem readField_stored (hmatch : is_match_attribute attr = true) {field : Text × Json}
    (h : rule.readField o field = some rule') : rule'.type = rule.type ∧ if field.1 = attr.key then
    ∃ texts, fieldTexts field.2 = some texts ∧ rule'.stored attr = storedOf attr texts else rule'.stored attr = rule.stored attr := by
  have hattr := attrOf_key attr
  rw [RouteRule.readField] at h
  split at h
  · rename_i hschema
    cases h
    refine ⟨rfl, ?_⟩
    rw [if_neg]
    · intro heq
      rw [← heq] at hattr
      rcases hschema with hname | htype
      · rw [hname, attrOf_name] at hattr
        exact Option.some_ne_none _ hattr.symm
      · rw [htype, attrOf_type] at hattr
        exact Option.some_ne_none _ hattr.symm
  · split at h
    · rename_i hdisabled
      have hrule : ∃ b, rule' = { rule with disabled := b } := by
        split at h <;> exact ⟨_, (Option.some.inj h).symm⟩
      obtain ⟨b, rfl⟩ := hrule
      refine ⟨rfl, ?_⟩
      rw [if_neg]
      · cases attr <;> rfl
      · intro heq
        rw [← heq, hdisabled, attrOf_disabled] at hattr
        exact Option.some_ne_none _ hattr.symm
    · split at h
      · rename_i hnone
        cases h
        refine ⟨rfl, ?_⟩
        rw [if_neg]
        intro heq
        rw [heq, hattr] at hnone
        exact absurd hnone (Option.some_ne_none _)
      · rename_i houtbound
        cases h
        refine ⟨rfl, ?_⟩
        rw [if_neg]
        · exact stored_outboundID rule _
        · intro heq
          rw [heq, hattr] at houtbound
          cases houtbound
          cases hmatch
      · rename_i written _ hwritten
        split at h
        · -- What the field holds cannot be used.
          rename_i hunusable
          split at h
          · exact absurd h (Option.some_ne_none _).symm
          · rename_i hother
            cases h
            refine ⟨rfl, ?_⟩
            rw [if_neg]
            intro heq
            rw [heq, hattr] at hwritten
            cases hwritten
            exact hother hmatch
        · rename_i texts htexts
          cases h
          refine ⟨set_field_value_type rule written texts, ?_⟩
          split
          · rename_i heq
            rw [heq, hattr] at hwritten
            cases hwritten
            exact ⟨texts, htexts, stored_set_self hmatch rule texts⟩
          · rename_i hne
            refine stored_set_other rule ?_ texts
            rintro rfl
            exact hne (key_of_attrOf hwritten hmatch)

/-- All fields of an object, seen from one condition. -/
theorem readFields_stored (hmatch : is_match_attribute attr = true) {obj : Fields}
    (hkeys : (obj.map Prod.fst).Nodup) (h : obj.foldlM (RouteRule.readField o) rule = some rule') :
    rule'.type = rule.type ∧ rule'.stored attr = if attr.key ∈ obj.map Prod.fst then storedOf attr (textsAt obj attr)
    else rule.stored attr := by
  induction obj generalizing rule with
  | nil =>
    cases h
    exact ⟨rfl, rfl⟩
  | cons field obj ih =>
    rw [foldlM_cons] at h
    obtain ⟨next, hnext, hrest⟩ := Option.bind_eq_some_iff.1 h
    rw [map_cons, nodup_cons] at hkeys
    obtain ⟨htype, hfield⟩ := readField_stored hmatch hnext
    obtain ⟨htype', hstored⟩ := ih hkeys.2 hrest
    refine ⟨htype'.trans htype, ?_⟩
    by_cases heq : field.1 = attr.key
    · -- No later field has this key.
      rw [if_pos heq] at hfield
      obtain ⟨texts, htexts, hnow⟩ := hfield
      rw [heq] at hkeys
      rw [if_neg hkeys.1] at hstored
      have hhere : textsAt (field :: obj) attr = texts := by
        rw [textsAt, Fields.get_cons_self heq, Option.bind_some, htexts, Option.getD_some]
      rw [hstored, hnow, if_pos (by simp [heq]), hhere]
    · rw [if_neg heq] at hfield
      have hlater : textsAt (field :: obj) attr = textsAt obj attr := by
        rw [textsAt, Fields.get_cons_other heq, textsAt]
      have hmem : (attr.key ∈ (field :: obj).map Prod.fst) ↔ attr.key ∈ obj.map Prod.fst := by
        rw [map_cons, mem_cons]
        exact or_iff_right fun h => heq h.symm
      rw [hstored, hfield, hlater]
      simp only [hmem]

/-! ## Repairs -/

/-- What the checks leave of the texts under an attribute: they take items out of lists only. -/
def accepted (v : Validation) (attr : Attr) (texts : List Text) : List Text :=
  match attr with
  | .list a => texts.filter fun item => !refuses v (.list a) item
  | _ => texts

theorem accepted_accepted (v : Validation) (attr : Attr) (texts : List Text) : accepted v attr (accepted v attr texts) = accepted v attr texts := by
  cases attr with
  | list a =>
    rw [accepted, accepted, filter_filter]
    simp only [Bool.and_self]
  | text a | flag a | outbound => rfl

/-- The lists of the conditions are tidy. -/
def TidyConditions (rule : RouteRule) : Prop := ∀ a, is_match_attribute (.list a) = true → Tidy (rule.lists a)

/-- A rule after some repairs: still of its type, still tidy, and the same under every condition but
for refused items. -/
structure Repaired (v : Validation) (rule rule' : RouteRule) : Prop where
  type : rule'.type = rule.type
  tidy : TidyConditions rule'
  stored : ∀ attr, is_match_attribute attr = true → accepted v attr (rule'.stored attr) = accepted v attr (rule.stored attr)

variable {v : Validation} {darwin : Bool}

theorem repair_clears (hother : is_match_attribute attr = false) (htidy : TidyConditions rule) :
    Repaired v rule (rule.clear_attribute_value attr) := by
  refine ⟨clear_attribute_value_type rule attr, fun a hmatch => ?_, fun other hmatch => ?_⟩
  · have hsame : (rule.clear_attribute_value attr).stored (.list a) = rule.stored (.list a) := by
      refine stored_clear_other rule ?_
      rintro rfl
      rw [hmatch] at hother
      cases hother
    simp only [RouteRule.stored] at hsame
    rw [hsame]
    exact htidy a hmatch
  · rw [stored_clear_other rule]
    rintro rfl
    rw [hmatch] at hother
    cases hother

/-- One repair. -/
theorem repair_repaired {error : RuleError} (h : rule.repair v error = some rule') (htidy : TidyConditions rule) : Repaired v rule rule' := by
  obtain ⟨attr, value⟩ := error
  have hclears : ∀ attr, (if attr = .text .action ∨ is_match_attribute attr = true then none
      else some (rule.clear_attribute_value attr)) = some rule' → Repaired v rule rule' := by
    intro attr hcleared
    split at hcleared
    · exact absurd hcleared (Option.some_ne_none _).symm
    · rename_i hneither
      cases hcleared
      exact repair_clears (Bool.eq_false_iff.2 fun hmatch => hneither (.inr hmatch)) htidy
  cases attr with
  | list a =>
    simp only [RouteRule.repair] at h
    split at h
    · split at h
      · exact absurd h (Option.some_ne_none _).symm
      · cases h
        refine ⟨rfl, fun b hmatch => ?_, fun other hmatch => ?_⟩
        · by_cases heq : b = a
          · subst heq
            simpa [RouteRule.set_field_value] using filterEmpty_tidy _
          · simpa [RouteRule.set_field_value, Function.update_of_ne heq] using htidy b hmatch
        · by_cases heq : other = .list a
          · subst heq
            have hkept : filterEmpty ((rule.lists a).filter fun item => !refuses v (.list a) item) =
                (rule.lists a).filter fun item => !refuses v (.list a) item :=
              filterEmpty_of_tidy ((htidy a hmatch).filter _)
            rw [stored_set_self hmatch, storedOf, hkept]
            exact accepted_accepted v (.list a) (rule.lists a)
          · rw [stored_set_other rule heq]
    · split at h
      · exact absurd h (Option.some_ne_none _).symm
      · rename_i hother
        cases h
        exact repair_clears (Bool.eq_false_iff.2 hother) htidy
  | text a => exact hclears (.text a) h
  | flag a => exact hclears (.flag a) h
  | outbound =>
    cases h
    exact ⟨rfl, htidy, fun other _ => by rw [stored_outboundID]⟩

/-- Only the two conditions on the wireless network can be missing, and nothing is refused there. -/
theorem refuses_missing (hmatch : is_match_attribute attr = true) (h : attr ∉ get_attributes darwin) (raw : Text) : refuses v attr raw = false := by
  cases attr with
  | list a =>
    cases a <;> first
        | exact absurd hmatch (by decide)
        | simp only [refuses, ite_self]; done
        | exact absurd (by cases darwin <;> decide) h
  | text a =>
    cases a <;> exact absurd (by cases darwin <;> decide) h
  | flag a | outbound => simp only [refuses, ite_self]

/-- A rule without errors holds nothing that is refused under a condition. -/
theorem not_refused_of_errors (h : (rule.errors v o darwin).head? = none)
    (htype : rule.type ≠ .endpointPreferredBy) (hmatch : is_match_attribute attr = true) :
    ∀ text ∈ rule.stored attr, refuses v attr text = false := by
  by_cases hmem : attr ∈ get_attributes darwin
  · rw [RouteRule.errors, if_neg htype, head?_eq_none_iff] at h
    have hvalues := (append_eq_nil_iff.1 (append_eq_nil_iff.1 h).1).1
    have hnone : rule.valueErrors v attr = [] := by
      refine flatMap_eq_nil_iff.1 hvalues attr (mem_filter.2 ⟨hmem, ?_⟩)
      cases attr with
      | list a => rfl
      | text a | flag a => cases a <;> first | rfl | cases hmatch
      | outbound => cases hmatch
    intro text htext
    cases attr with
    | list a =>
      simp only [RouteRule.valueErrors, RouteRule.current, map_eq_nil_iff, filter_eq_nil_iff] at hnone
      exact Bool.eq_false_iff.2 (hnone text htext)
    | text a =>
      simp only [RouteRule.valueErrors, RouteRule.current, map_eq_nil_iff, filter_eq_nil_iff, mem_singleton, forall_eq] at hnone
      simp only [RouteRule.stored] at htext
      split at htext
      · cases htext
      · rw [mem_singleton.1 htext]
        exact Bool.eq_false_iff.2 hnone
    | flag a | outbound => simp only [refuses, ite_self]
  · exact fun text _ => refuses_missing hmatch hmem text

theorem accepted_of_not_refused {texts : List Text} (h : ∀ text ∈ texts, refuses v attr text = false) : accepted v attr texts = texts := by
  cases attr with
  | list a =>
    rw [accepted, filter_eq_self]
    intro text htext
    rw [h text htext]
    rfl
  | text a | flag a | outbound => rfl

/-- All repairs: what is left under a condition are the items that pass. -/
theorem checkImportedRule_kept {passes : Nat} (h : checkImportedRule v o darwin passes rule = some rule') (htidy : TidyConditions rule)
    (htype : rule.type ≠ .endpointPreferredBy) : rule'.type = rule.type ∧ ∀ attr, is_match_attribute attr = true →
    rule'.stored attr = accepted v attr (rule.stored attr) ∧ ∀ text ∈ rule'.stored attr, refuses v attr text = false := by
  induction passes generalizing rule with
  | zero => exact absurd h (Option.some_ne_none _).symm
  | succ passes ih =>
    rw [checkImportedRule, routeProfileCheckImportedRule] at h
    split at h
    · rename_i hdone
      cases h
      refine ⟨rfl, fun attr hmatch => ?_⟩
      have hpass := not_refused_of_errors hdone htype hmatch
      exact ⟨(accepted_of_not_refused hpass).symm, hpass⟩
    · split at h
      · cases h
      · rename_i next hnext
        have hstep := repair_repaired hnext htidy
        obtain ⟨htype', hkept⟩ := ih h hstep.tidy (by rw [hstep.type]; exact htype)
        refine ⟨htype'.trans hstep.type, fun attr hmatch => ?_⟩
        obtain ⟨hstored, hpass⟩ := hkept attr hmatch
        exact ⟨hstored.trans (hstep.stored attr hmatch), hpass⟩

/-! ## Imported rules -/

/-- What the import of an object leaves under a condition. -/
def keptOf (v : Validation) (obj : Fields) (attr : Attr) : List Text := accepted v attr (storedOf attr (textsAt obj attr))

/-- The type an object gives its rule. -/
def typeOf (obj : Fields) : RuleType := tokenToRuleType (obj.textAt "type".toList)

/-- What an imported rule holds under each condition. -/
theorem parse_stored {obj : Fields} (hkeys : (obj.map Prod.fst).Nodup) (h : parse_rule_object v o darwin obj = some rule) :
    (∀ field ∈ obj, isStorableRuleKey field.1 = true) ∧ rule.type = typeOf obj ∧
    (typeOf obj ≠ .endpointPreferredBy → ∀ attr, is_match_attribute attr = true → rule.stored attr = keptOf v obj attr ∧
    ∀ text ∈ rule.stored attr, refuses v attr text = false) := by
  rw [parse_rule_object] at h
  split at h
  · rename_i hstorable
    refine ⟨all_eq_true.1 hstorable, ?_⟩
    simp only at h
    split at h
    · exact absurd h (Option.some_ne_none _).symm
    · rename_i read hread
      have hfields : ∀ attr, is_match_attribute attr = true → read.type = typeOf obj ∧ read.stored attr = storedOf attr (textsAt obj attr) := by
        intro attr hmatch
        obtain ⟨htype, hstored⟩ := readFields_stored hmatch hkeys hread
        refine ⟨htype, hstored.trans ?_⟩
        split
        · rfl
        · -- Without a field there is nothing under the condition.
          rename_i hmissing
          rw [textsAt, Fields.get_absent hmissing, Option.bind_none, Option.getD_none, storedOf_nil]
          exact stored_default hmatch
      have htype := (hfields (.flag .invert) rfl).1
      split at h
      · rename_i hendpoint
        cases h
        exact ⟨htype, fun hother => absurd (htype.symm.trans hendpoint) hother⟩
      · rename_i hchecked
        have htidy : TidyConditions read := by
          intro a hmatch
          have hstored := (hfields (.list a) hmatch).2
          simp only [RouteRule.stored, storedOf] at hstored
          rw [hstored]
          exact filterEmpty_tidy _
        obtain ⟨htype', hkept⟩ := checkImportedRule_kept h htidy hchecked
        refine ⟨htype'.trans htype, fun _ attr hmatch => ?_⟩
        rw [keptOf, ← (hfields attr hmatch).2]
        exact hkept attr hmatch
  · exact absurd h (Option.some_ne_none _).symm

end Throne.Database.Routes
