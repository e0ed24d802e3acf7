import Throne.Database.Entities.SimpleRules

/-!
# Where a line goes

A line that is accepted names one list and one value (`accepted_values`). The list alone says what type of rule it
goes to (`type_of_values`), and adding the line is adding the value to that list (`add_of_values`).
-/

namespace Throne.Database.Routes

open Lib.Texts List

variable {c : SimpleEnv}

/-! ## Lists and types -/

/-- The type of the rule that a list's lines go to. -/
def lineType (a : ListAttr) (action : SimpleAction) : RuleType :=
  if addressLists.contains a then addressType action
  else if a = .process_name then processNameType action
  else processPathType action

theorem lineType_mem (a : ListAttr) (action : SimpleAction) : lineType a action ∈ simpleTypes action := by
  rw [lineType, simpleTypes]
  split
  · exact mem_cons_self
  split
  · exact mem_cons_of_mem _ mem_cons_self
  · exact mem_cons_of_mem _ (mem_cons_of_mem _ mem_cons_self)

theorem simpleTypes_ne_custom {action : SimpleAction} {type : RuleType} (h : type ∈ simpleTypes action) :
    type ≠ .custom ∧ type ≠ .endpointPreferredBy := by
  cases action <;> revert type <;> decide

theorem simpleTypes_nodup (action : SimpleAction) : (simpleTypes action).Nodup := by
  cases action <;> decide

variable {a : ListAttr}

theorem mem_simpleLists {front : Text} (h : simpleLists.lookup front = some a) : (front, a) ∈ simpleLists := by
  obtain ⟨xs, ys, hsplit, -⟩ := lookup_eq_some_iff.1 h
  rw [hsplit]
  exact mem_append_right _ mem_cons_self

theorem isAddressType_lineType (action : SimpleAction) : isAddressType (lineType a action) = addressLists.contains a := by
  rw [lineType]
  split
  · next h =>
    rw [h]
    cases action <;> rfl
  · next h =>
    rw [Bool.not_eq_true] at h
    rw [h]
    split <;> cases action <;> rfl

/-! ## The parts of a line -/

/-- Of a text that begins with no blank only the end is taken off. -/
theorem trimmed_front {text : Text} (h : ∀ ch, text.head? = some ch → isSpace ch = false) : trimmed text <+: text := by
  have hfront : text.dropWhile isSpace = text := by
    cases text with
    | nil => rfl
    | cons ch rest =>
      rw [dropWhile_cons_of_neg]
      rw [h ch rfl]
      exact Bool.false_ne_true
  rw [trimmed, strip, hfront]
  exact rdropWhile_prefix isSpace text

/-- A text without blanks at its ends begins with none. -/
theorem head_of_trimmed {text : Text} (h : trimmed text = text) : ∀ ch, text.head? = some ch → isSpace ch = false := by
  intro ch hhead
  cases text with
  | nil => cases hhead
  | cons first rest =>
    obtain rfl : first = ch := Option.some.inj hhead
    by_contra hspace
    rw [Bool.not_eq_false] at hspace
    have hlength : (trimmed (first :: rest)).length ≤ rest.length := by
      rw [trimmed, strip, dropWhile_cons_of_pos hspace]
      exact ( rdropWhile_prefix isSpace _).length_le.trans (dropWhile_suffix isSpace).length_le
    rw [h, length_cons] at hlength
    exact Nat.lt_irrefl _ hlength

variable {raw : Text} {value : Text}

/-- A line begins with its front. -/
theorem front_of_line {front : Text} (htrim : trimmed raw = raw) (h : lineParts raw = some (front, value)) : ∃ rest, raw = front ++ rest := by
  rw [lineParts] at h
  split at h
  · next hcolon =>
    have hparts := Option.some.inj h
    have hfront : front = trimmed (raw.takeWhile (· != ':')) := (congrArg Prod.fst hparts).symm
    have hword : trimmed (raw.takeWhile (· != ':')) <+: raw.takeWhile (· != ':') := by
      apply trimmed_front
      intro ch hhead
      apply head_of_trimmed htrim ch
      cases raw with
      | nil => cases hhead
      | cons first rest =>
        rw [takeWhile_cons] at hhead
        split at hhead
        · exact hhead
        · cases hhead
    obtain ⟨rest, hrest⟩ := hword.trans ( takeWhile_prefix _)
    rw [hfront]
    exact ⟨rest, hrest.symm⟩
  · cases h

theorem values_parts (h : simple_rule_values c raw = some (a, value)) :
    ∃ front rest, lineParts raw = some (front, rest) ∧ rest ≠ [] ∧ simpleLists.lookup front = some a ∧
    value = storedValue c.validation a rest := by
  rw [simple_rule_values] at h
  split at h
  · cases h
  next front rest hparts =>
  split at h
  · cases h
  next hne =>
  obtain ⟨b, hlookup, hpair⟩ := Option.map_eq_some_iff.1 h
  cases hpair
  exact ⟨front, rest, hparts, hne, hlookup, rfl⟩

/-- The list of a line says its type. -/
theorem type_of_values (htrim : trimmed raw = raw) (h : simple_rule_values c raw = some (a, value)) (action : SimpleAction) :
    get_rule_type raw action = lineType a action := by
  obtain ⟨front, rest, hparts, -, hlookup, -⟩ := values_parts h
  obtain ⟨back, rfl⟩ := front_of_line htrim hparts
  have hmem := mem_simpleLists hlookup
  simp only [simpleLists, mem_cons, Prod.mk.injEq, not_mem_nil, or_false] at hmem
  rcases hmem with ⟨rfl, rfl⟩ | ⟨rfl, rfl⟩ | ⟨rfl, rfl⟩ | ⟨rfl, rfl⟩ | ⟨rfl, rfl⟩ | ⟨rfl, rfl⟩ | ⟨rfl, rfl⟩ | ⟨rfl, rfl⟩ <;> rfl

/-- A line that nothing is said against names a list and a value. -/
theorem accepted_values (htrim : trimmed raw = raw) (hne : raw ≠ [])
    (h : CheckSimpleRule c raw = []) : ∃ a value, simple_rule_values c raw = some (a, value) := by
  rw [CheckSimpleRule, htrim, if_neg hne] at h
  cases hparts : lineParts raw with
  | none =>
    have hnone : simpleLists.lookup ([] : Text) = none := by decide
    rw [hparts] at h
    simp only [Option.getD_none, hnone] at h
    cases h
  | some parts =>
    rw [hparts] at h
    simp only [Option.getD_some] at h
    split at h
    · cases h
    next a hlookup =>
    split at h
    · exact absurd (append_eq_nil_iff.1 h).2 (by decide)
    next hvalue =>
    refine ⟨a, storedValue c.validation a parts.2, ?_⟩
    rw [simple_rule_values, hparts]
    simp only [if_neg hvalue, hlookup, Option.map_some]

/-- Such a line is added as its value. -/
theorem add_of_values (hcheck : CheckSimpleRule c raw = [])
    (h : simple_rule_values c raw = some (a, value)) (rule : RouteRule) (action : SimpleAction) :
    add_simple_rule c raw rule (lineType a action) = .ok (rule.addValue a value) := by
  obtain ⟨front, rest, hparts, hne, hlookup, rfl⟩ := values_parts h
  rw [add_simple_rule, if_neg (not_not.2 hcheck), isAddressType_lineType]
  split
  · next haddress =>
    rw [add_simple_address_rule, hparts]
    simp only [if_neg hne, hlookup, haddress, if_true]
  · next hprocess =>
    rw [add_simple_process_rule, hparts]
    have hmem := mem_simpleLists hlookup
    simp only [simpleLists, mem_cons, Prod.mk.injEq, not_mem_nil, or_false] at hmem
    rcases hmem with ⟨-, rfl⟩ | ⟨-, rfl⟩ | ⟨-, rfl⟩ | ⟨-, rfl⟩ | ⟨-, rfl⟩ | ⟨-, rfl⟩ | ⟨rfl, rfl⟩ | ⟨rfl, rfl⟩
    · exact absurd rfl hprocess
    · exact absurd rfl hprocess
    · exact absurd rfl hprocess
    · exact absurd rfl hprocess
    · exact absurd rfl hprocess
    · exact absurd rfl hprocess
    · simp only [if_neg hne]
      rw [if_neg (by decide), if_pos trivial, storedValue, if_neg (by decide)]
    · simp only [if_neg hne]
      rw [if_pos trivial, storedValue, if_neg (by decide)]

/-- A line that something is said against is refused. -/
theorem add_refused (h : CheckSimpleRule c raw ≠ []) (rule : RouteRule) (type : RuleType) :
    add_simple_rule c raw rule type = .error (CheckSimpleRule c raw) := by
  rw [add_simple_rule, if_pos h]

/-! ## Values -/

section Values

variable {rule : RouteRule} {a b : ListAttr} {value other : Text}

theorem addValue_type : (rule.addValue a value).type = rule.type := by
  rw [RouteRule.addValue]
  split <;> rfl

theorem mem_addValue : other ∈ (rule.addValue a value).lists b ↔ other ∈ rule.lists b ∨ (b = a ∧ other = value) := by
  rw [RouteRule.addValue]
  split
  · next h =>
    rw [contains_iff_mem] at h
    constructor
    · exact Or.inl
    · rintro (hmem | ⟨rfl, rfl⟩)
      · exact hmem
      · exact h
  · by_cases hb : b = a
    · rw [hb]
      simp only [Function.update_self, mem_append, mem_singleton, true_and]
    · simp only [Function.update_of_ne hb, hb, false_and, or_false]

theorem addValue_nodup (h : (rule.lists b).Nodup) : ((rule.addValue a value).lists b).Nodup := by
  rw [RouteRule.addValue]
  split
  · exact h
  · next hnew =>
    rw [contains_iff_mem] at hnew
    by_cases hb : b = a
    · subst hb
      simp only [Function.update_self]
      refine nodup_append.2 ⟨h, nodup_singleton value, ?_⟩
      intro x hx y hy hxy
      rw [mem_singleton.1 hy] at hxy
      exact hnew (hxy ▸ hx)
    · simp only [Function.update_of_ne hb]
      exact h

/-- A value that is there is not added again. -/
theorem addValue_again (h : value ∈ rule.lists a) : rule.addValue a value = rule := by
  rw [RouteRule.addValue, if_pos (contains_iff_mem.2 h)]

end Values

/-! ## The first rule of a kind -/

section First

variable {p q : RouteRule → Bool} {f : RouteRule → RouteRule} {rules : List RouteRule}

/-- Among rules of another kind nothing changes. -/
theorem updateFirst_other (h : ∀ rule, p rule = true → q rule = false ∧ q (f rule) = false) : (updateFirst p f rules).filter q = rules.filter q := by
  induction rules with
  | nil => rfl
  | cons rule rules ih =>
    rw [updateFirst]
    split
    · next hp =>
      obtain ⟨hold, hnew⟩ := h rule hp
      rw [filter_cons_of_neg (by rw [hnew]; exact Bool.false_ne_true), filter_cons_of_neg (by rw [hold]; exact Bool.false_ne_true)]
    · rw [filter_cons, filter_cons, ih]

/-- Of its kind the first one changes. -/
theorem updateFirst_own (h : ∀ rule, p rule = true → p (f rule) = true) :
    (updateFirst p f rules).filter p = ((rules.filter p).head?.map f).toList ++ (rules.filter p).tail := by
  induction rules with
  | nil => rfl
  | cons rule rules ih =>
    rw [updateFirst]
    split
    · next hp =>
      rw [filter_cons_of_pos (h rule hp), filter_cons_of_pos hp]
      rfl
    · next hp => rw [filter_cons_of_neg hp, filter_cons_of_neg hp, ih]

variable (f) in
/-- Changed to what the first one is changed to. -/
theorem updateFirst_const {rule : RouteRule} (h : rules.find? p = some rule) : updateFirst p (fun _ => f rule) rules = updateFirst p f rules := by
  induction rules with
  | nil => cases h
  | cons first rules ih =>
    rw [find?_cons] at h
    rw [updateFirst, updateFirst]
    cases hp : p first with
    | true =>
      rw [hp] at h
      rw [if_pos rfl, if_pos rfl, Option.some.inj h]
    | false =>
      rw [hp] at h
      rw [if_neg Bool.false_ne_true, if_neg Bool.false_ne_true, ih h]

end First

/-! ## A plain environment -/

/-- Texts that are in lower case already, no networks, no rule sets and one server. -/
def plainEnv : SimpleEnv where
  validation :=
    { cidr _ := false
      portRange _ := false
      ruleSet _ := false
      overrideAddress _ := false
      duration _ := false
      spoof _ := false
      lower text := text }
  cidrProblem _ := "Not an IP address or network.".toList
  cidrProblem_said _ := by decide
  ruleSetName text := text
  darwin := false
  server id := if id = 7 then some ⟨"home".toList, none⟩ else none
  lower_line _ h := h
  lower_kept _ h := h

end Throne.Database.Routes
