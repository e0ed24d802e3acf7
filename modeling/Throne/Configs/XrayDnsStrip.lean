import Throne.Lib.Json
import Mathlib.Data.List.Dedup

/-!
# Taking DNS out of an Xray configuration

`StripXrayDns` of `src/src/configs/XrayDnsStrip.cpp` takes the section `dns`, the outbounds with the protocol
`dns` and the routing rules that go to them out of a configuration. A tag that is missing reads as the empty
text, in outbounds and in rules, so a rule without an outbound goes with an outbound without a tag.

`strip_exact` says when only DNS is taken out and the counts are right.
-/

namespace Throne.Configs.XrayDns

open Lib.Texts Lib.Json List

structure XrayDnsStripResult where
  outbounds : Nat
  rules : Nat

/-- `config[key]` on an object that may be written: a field that is missing is made, with the value null. -/
def touch (key : Text) (config : Fields) : Fields :=
  if (config.get key).isSome then config else Fields.put key .null config

def isDns (outbound : Json) : Bool := outbound.toObject.textAt "protocol".toList == "dns".toList

def tagOf (outbound : Json) : Text := outbound.toObject.textAt "tag".toList

def outboundTagOf (rule : Json) : Text := rule.toObject.textAt "outboundTag".toList

/-- The tags of the outbounds that go, each once. -/
def dnsTags (outbounds : List Json) : List Text := ((outbounds.filter isDns).map tagOf).dedup

/-- `value.toObject()`, as a value. -/
def asObject (value : Json) : Json := .object value.toObject

/-- The configuration without its DNS outbounds, and the tags of those. -/
def stripOutbounds (config : Fields) : Fields × List Text :=
  let config := touch "outbounds".toList config
  let outbounds := config.arrayAt "outbounds".toList
  let tags := dnsTags outbounds
  let keptOutbounds := (outbounds.filter fun outbound => !isDns outbound).map asObject
  (if tags = [] then config else Fields.put "outbounds".toList (.array keptOutbounds) config, tags)

/-- The configuration without the rules that go to such a tag, and how many there were. -/
def stripRules (tags : List Text) (config : Fields) : Fields × Nat :=
  let config := touch "routing".toList config
  let routing := config.objectAt "routing".toList
  let rules := routing.arrayAt "rules".toList
  let removed := (rules.filter fun rule => outboundTagOf rule ∈ tags).length
  let keptRules := (rules.filter fun rule => outboundTagOf rule ∉ tags).map asObject
  (if removed = 0 then config
    else Fields.put "routing".toList (.object (Fields.put "rules".toList (.array keptRules) routing)) config, removed)

def StripXrayDns (config : Fields) : Fields × XrayDnsStripResult :=
  let (config, tags) := stripOutbounds (config.filter fun field => field.1 != "dns".toList)
  let (config, rules) := stripRules tags config
  (config, ⟨tags.length, rules⟩)

/-! ## What is left -/

/-- The outbounds and the rules of a configuration. -/
def outboundsOf (config : Fields) : List Json := config.arrayAt "outbounds".toList

def rulesOf (config : Fields) : List Json := (config.objectAt "routing".toList).arrayAt "rules".toList

/-- A text that is written under a key. -/
def written (fields : Fields) (key : Text) : Option Text :=
  match fields.get key with
  | some (.text text) => some text
  | _ => none

/-- A rule names an outbound that goes. -/
def aims (outbounds : List Json) (rule : Json) : Bool :=
  match written rule.toObject "outboundTag".toList with
  | some tag => outbounds.any fun outbound => isDns outbound && written outbound.toObject "tag".toList == some tag
  | none => false

/-- Only DNS was taken out, all of it, and the result says how much. -/
structure DnsStripped (config config' : Fields) (result : XrayDnsStripResult) : Prop where
  dns : config'.get "dns".toList = none
  outbounds : config'.get "outbounds".toList = if (outboundsOf config).any isDns then
      some (.array ((outboundsOf config).filter fun outbound => !isDns outbound))
    else config.get "outbounds".toList
  rules : rulesOf config' = (rulesOf config).filter fun rule => !aims (outboundsOf config) rule
  routing : ∀ key, key ≠ "rules".toList → (config'.objectAt "routing".toList).get key = (config.objectAt "routing".toList).get key
  untouched : (∀ rule ∈ rulesOf config, aims (outboundsOf config) rule = false) → config'.get "routing".toList = config.get "routing".toList
  others : ∀ key, key ≠ "dns".toList → key ≠ "outbounds".toList → key ≠ "routing".toList → config'.get key = config.get key
  counts : result = ⟨((outboundsOf config).filter isDns).length, ((rulesOf config).filter (aims (outboundsOf config))).length⟩
  again : StripXrayDns config' = (config', ⟨0, 0⟩)

/-- A configuration of which no more than DNS is taken. -/
structure Strippable (config : Fields) : Prop where
  /-- Both sections are there. -/
  sections : (config.get "outbounds".toList).isSome = true ∧ (config.get "routing".toList).isSome = true
  /-- Where an outbound goes, all outbounds are objects. -/
  outbounds : (outboundsOf config).any isDns = true → ∀ outbound ∈ outboundsOf config, asObject outbound = outbound
  /-- The outbounds that go have different tags. -/
  tags : (((outboundsOf config).filter isDns).map tagOf).Nodup
  /-- No rule without an outbound meets an outbound without a tag. -/
  named : ∀ rule ∈ rulesOf config, outboundTagOf rule ∈ ((outboundsOf config).filter isDns).map tagOf → aims (outboundsOf config) rule = true
  /-- Where a rule goes, all rules are objects. -/
  rules : (∃ rule ∈ rulesOf config, aims (outboundsOf config) rule = true) → ∀ rule ∈ rulesOf config, asObject rule = rule

/-! ## Reading -/

variable {key : Text}

theorem get_filter_ne (config : Fields) {other : Text} (h : other ≠ key) :
    Fields.get (config.filter fun field => field.1 != key) other = config.get other := by
  induction config with
  | nil => rfl
  | cons field config ih =>
    obtain ⟨k, value⟩ := field
    by_cases hk : k = key
    · have hdrop : (k != key) = false := by simpa using hk
      rw [filter_cons_of_neg (by simpa using hk), ih, Fields.get_cons, if_neg]
      exact fun heq => h (heq ▸ hk)
    · rw [filter_cons_of_pos (by simpa using hk), Fields.get_cons, Fields.get_cons, ih]

theorem get_filter_self (key : Text) (config : Fields) : Fields.get (config.filter fun field => field.1 != key) key = none := by
  apply Fields.get_absent
  intro hin
  obtain ⟨field, hfield, heq⟩ := mem_map.1 hin
  have hne := (mem_filter.1 hfield).2
  rw [heq] at hne
  exact absurd hne (by simp)

theorem get_touch_other {other : Text} (h : other ≠ key) (config : Fields) : (touch key config).get other = config.get other := by
  unfold touch
  split
  · rfl
  · exact Fields.get_put_other h _ _

theorem get_touch_self (key : Text) (config : Fields) : (touch key config).get key = some ((config.get key).getD .null) := by
  unfold touch
  split
  · next hsome =>
    obtain ⟨value, hvalue⟩ := Option.isSome_iff_exists.1 hsome
    rw [hvalue]
    rfl
  · next hnone =>
    rw [Option.not_isSome_iff_eq_none.1 hnone]
    exact Fields.get_put_self key .null config

theorem touch_of_isSome {config : Fields} (h : (config.get key).isSome = true) : touch key config = config := if_pos h

/-- A section that is made is read like one that is missing. -/
theorem arrayAt_touch (key : Text) (config : Fields) : (touch key config).arrayAt key = config.arrayAt key := by
  rw [Fields.arrayAt, Fields.arrayAt, get_touch_self]
  cases config.get key <;> rfl

theorem objectAt_touch (key : Text) (config : Fields) : (touch key config).objectAt key = config.objectAt key := by
  rw [Fields.objectAt, Fields.objectAt, get_touch_self]
  cases config.get key <;> rfl

theorem isDns_asObject (value : Json) : isDns (asObject value) = isDns value := rfl

/-- What is read as a text that is not empty is written. -/
theorem written_of_textAt {fields : Fields} (h : fields.textAt key ≠ []) : written fields key = some (fields.textAt key) := by
  unfold Fields.textAt at h ⊢
  unfold written
  cases hget : fields.get key with
  | none =>
    rw [hget] at h
    exact absurd rfl h
  | some value =>
    rw [hget] at h
    cases value with
    | text text => rfl
    | null | bool | int | real | array | object => exact absurd rfl h

theorem textAt_of_written {fields : Fields} {text : Text} (h : written fields key = some text) : fields.textAt key = text := by
  unfold written at h
  split at h
  · next hget =>
    rw [Fields.textAt, hget]
    exact Option.some.inj h
  · cases h

/-- A value with a field is an object. -/
theorem asObject_of_written {value : Json} {text : Text} (h : written value.toObject key = some text) : asObject value = value := by
  cases value with
  | object fields => rfl
  | null | bool | int | real | text | array => exact absurd h (by simp [written, Json.toObject])

theorem asObject_of_isDns {outbound : Json} (h : isDns outbound = true) : asObject outbound = outbound := by
  have hprotocol : outbound.toObject.textAt "protocol".toList ≠ [] := by
    rw [eq_of_beq h]
    decide
  exact asObject_of_written (written_of_textAt hprotocol)

variable {rule : Json} {outbounds : List Json}

/-- A rule that names an outbound that goes reads its tag. -/
theorem tag_of_aims (h : aims outbounds rule = true) : outboundTagOf rule ∈ (outbounds.filter isDns).map tagOf ∧ asObject rule = rule := by
  unfold aims at h
  split at h
  · next tag htag =>
    obtain ⟨outbound, hmem, hboth⟩ := any_eq_true.1 h
    rw [Bool.and_eq_true] at hboth
    refine ⟨?_, asObject_of_written htag⟩
    rw [outboundTagOf, textAt_of_written htag, ← textAt_of_written (eq_of_beq hboth.2)]
    exact mem_map_of_mem (mem_filter.2 ⟨hmem, hboth.1⟩)
  · cases h

/-! ## The strip -/

variable {config' : Fields} {result : XrayDnsStripResult}

section Strip

variable (config : Fields)

theorem stripOutbounds_spec : (stripOutbounds config).2 = dnsTags (outboundsOf config) ∧ (stripOutbounds config).1.get "outbounds".toList = some (
    if dnsTags (outboundsOf config) = [] then (config.get "outbounds".toList).getD .null
    else .array (((outboundsOf config).filter fun outbound => !isDns outbound).map asObject)) ∧
    ∀ key, key ≠ "outbounds".toList → (stripOutbounds config).1.get key = config.get key := by
  have houtbounds : (touch "outbounds".toList config).arrayAt "outbounds".toList = outboundsOf config := arrayAt_touch _ config
  unfold stripOutbounds
  simp only [houtbounds]
  refine ⟨trivial, ?_, fun key hkey => ?_⟩
  · split
    · exact get_touch_self _ config
    · exact Fields.get_put_self _ _ _
  · split
    · exact get_touch_other hkey config
    · rw [Fields.get_put_other hkey, get_touch_other hkey]

theorem stripRules_spec (tags : List Text) : (stripRules tags config).2 = ((rulesOf config).filter fun rule => outboundTagOf rule ∈ tags).length ∧
    (stripRules tags config).1.get "routing".toList = some ( if ((rulesOf config).filter fun rule => outboundTagOf rule ∈ tags).length = 0 then
    (config.get "routing".toList).getD .null else .object (Fields.put "rules".toList
    (.array (((rulesOf config).filter fun rule => outboundTagOf rule ∉ tags).map asObject)) (config.objectAt "routing".toList))) ∧
    ∀ key, key ≠ "routing".toList → (stripRules tags config).1.get key = config.get key := by
  have hrules : (config.objectAt "routing".toList).arrayAt "rules".toList = rulesOf config := rfl
  unfold stripRules
  simp only [objectAt_touch, hrules]
  refine ⟨trivial, ?_, fun key hkey => ?_⟩
  · split
    · exact get_touch_self _ config
    · exact Fields.get_put_self _ _ _
  · split
    · exact get_touch_other hkey config
    · rw [Fields.get_put_other hkey, get_touch_other hkey]

/-- The tags that are looked for, as they are read. -/
theorem mem_dnsTags {tag : Text} : tag ∈ dnsTags outbounds ↔ tag ∈ (outbounds.filter isDns).map tagOf := mem_dedup

theorem dnsTags_eq_nil : dnsTags outbounds = [] ↔ outbounds.any isDns = false := by
  rw [dnsTags, dedup_eq_nil, map_eq_nil_iff, filter_eq_nil_iff, any_eq_false]

/-- A rule goes. -/
def goes (rule : Json) : Bool := decide (outboundTagOf rule ∈ dnsTags (outboundsOf config))

/-- What the strip makes of a configuration. -/
structure StripFacts (config' : Fields) (result : XrayDnsStripResult) : Prop where
  dns : config'.get "dns".toList = none
  outbounds : config'.get "outbounds".toList = some (
    if (outboundsOf config).any isDns then
      .array (((outboundsOf config).filter fun outbound => !isDns outbound).map asObject)
    else (config.get "outbounds".toList).getD .null)
  routing : config'.get "routing".toList = some (
    if (rulesOf config).any (goes config) then
      .object (Fields.put "rules".toList (.array (((rulesOf config).filter fun rule => !goes config rule).map asObject))
        (config.objectAt "routing".toList))
    else (config.get "routing".toList).getD .null)
  others : ∀ key, key ≠ "dns".toList → key ≠ "outbounds".toList → key ≠ "routing".toList → config'.get key = config.get key
  counts : result = ⟨(dnsTags (outboundsOf config)).length, ((rulesOf config).filter (goes config)).length⟩

theorem strip_spec : StripFacts config (StripXrayDns config).1 (StripXrayDns config).2 := by
  obtain ⟨base, hbase⟩ : ∃ base : Fields, config.filter (fun field => field.1 != "dns".toList) = base := ⟨_, rfl⟩
  have hget (key : Text) (hkey : key ≠ "dns".toList) : base.get key = config.get key := by
    rw [← hbase, get_filter_ne config hkey]
  have hnone : base.get "dns".toList = none := by rw [← hbase, get_filter_self]
  have houtbounds : outboundsOf base = outboundsOf config := by
    rw [outboundsOf, outboundsOf, Fields.arrayAt, Fields.arrayAt, hget "outbounds".toList (by decide)]
  obtain ⟨htags, hfirst, hfirstKept⟩ := stripOutbounds_spec base
  generalize hcut : stripOutbounds base = cut at htags hfirst hfirstKept
  have hrouting : cut.1.objectAt "routing".toList = config.objectAt "routing".toList := by
    rw [Fields.objectAt, Fields.objectAt, hfirstKept "routing".toList (by decide), hget "routing".toList (by decide)]
  have hrules : rulesOf cut.1 = rulesOf config := by rw [rulesOf, rulesOf, hrouting]
  obtain ⟨hremoved, hsecond, hsecondKept⟩ := stripRules_spec cut.1 cut.2
  have hstrip : StripXrayDns config = ((stripRules cut.2 cut.1).1, ⟨cut.2.length, (stripRules cut.2 cut.1).2⟩) := by
    rw [StripXrayDns, hbase, hcut]
  rw [houtbounds] at htags hfirst
  rw [hrules, hrouting, htags, hfirstKept "routing".toList (by decide), hget "routing".toList (by decide)] at hsecond
  rw [hrules, htags] at hremoved
  rw [hstrip]
  refine ⟨?_, ?_, ?_, fun key hdns houtbounds' hrouting' => ?_, ?_⟩
  · rw [hsecondKept "dns".toList (by decide), hfirstKept "dns".toList (by decide), hnone]
  · rw [hsecondKept "outbounds".toList (by decide), hfirst, hget "outbounds".toList (by decide)]
    by_cases hany : (outboundsOf config).any isDns = true
    · rw [if_pos hany, if_neg]
      rw [dnsTags_eq_nil, hany]
      exact Bool.true_eq_false_eq_False
    · rw [if_neg hany, if_pos]
      rw [dnsTags_eq_nil]
      exact Bool.eq_false_iff.2 hany
  · rw [htags, hsecond]
    by_cases hany : (rulesOf config).any (goes config) = true
    · rw [if_pos hany, if_neg]
      · rw [show ((rulesOf config).filter fun rule => decide (outboundTagOf rule ∉ dnsTags (outboundsOf config))) =
            (rulesOf config).filter fun rule => !goes config rule from
          filter_congr fun rule _ => decide_not]
      · intro hzero
        obtain ⟨rule, hrule, hgoes⟩ := any_eq_true.1 hany
        exact filter_eq_nil_iff.1 (eq_nil_of_length_eq_zero hzero) rule hrule hgoes
    · rw [if_neg hany, if_pos]
      rw [length_eq_zero_iff, filter_eq_nil_iff]
      intro rule hrule hgoes
      exact hany (any_eq_true.2 ⟨rule, hrule, hgoes⟩)
  · rw [hsecondKept _ hrouting', hfirstKept _ houtbounds', hget _ hdns]
  · rw [htags, hremoved]
    rfl

theorem goes_of_aims (h : aims (outboundsOf config) rule = true) : goes config rule = true := decide_eq_true (mem_dnsTags.2 (tag_of_aims h).1)

/-- No DNS outbound is left. -/
theorem outboundsOf_strip (h : StripFacts config config' result) : outboundsOf config' =
    if (outboundsOf config).any isDns then ((outboundsOf config).filter fun outbound => !isDns outbound).map asObject
    else outboundsOf config := by
  rw [outboundsOf, Fields.arrayAt, h.outbounds]
  split
  · rfl
  · rw [outboundsOf, Fields.arrayAt]
    cases config.get "outbounds".toList <;> rfl

theorem routing_strip (h : StripFacts config config' result) : config'.objectAt "routing".toList = if (rulesOf config).any (goes config) then
    Fields.put "rules".toList (.array (((rulesOf config).filter fun rule => !goes config rule).map asObject))
    (config.objectAt "routing".toList) else config.objectAt "routing".toList := by
  rw [Fields.objectAt, h.routing]
  split
  · rfl
  · rw [Fields.objectAt]
    cases config.get "routing".toList <;> rfl

theorem rulesOf_strip (h : StripFacts config config' result) : rulesOf config' =
    if (rulesOf config).any (goes config) then ((rulesOf config).filter fun rule => !goes config rule).map asObject else rulesOf config := by
  rw [rulesOf, routing_strip config h]
  split
  · exact Fields.arrayAt_put_self _ _ _
  · rfl

theorem any_dns_strip (h : StripFacts config config' result) : (outboundsOf config').any isDns = false := by
  rw [outboundsOf_strip config h, any_eq_false]
  split
  · intro outbound hmem hdns
    obtain ⟨original, horiginal, rfl⟩ := mem_map.1 hmem
    rw [isDns_asObject] at hdns
    have hnot := (mem_filter.1 horiginal).2
    rw [hdns] at hnot
    cases hnot
  · next hany => exact any_eq_false.1 (Bool.eq_false_iff.2 hany)

/-- A configuration that was stripped stays as it is. -/
theorem strip_again (h : StripFacts config config' result) : StripXrayDns config' = (config', ⟨0, 0⟩) := by
  have hkept : config'.filter (fun field => field.1 != "dns".toList) = config' := by
    refine filter_eq_self.2 fun field hfield => ?_
    have hkey := lookup_eq_none_iff.1 h.dns field hfield
    exact bne_iff_ne.2 fun heq => bne_iff_ne.1 hkey heq.symm
  have htags : dnsTags (outboundsOf config') = [] := dnsTags_eq_nil.2 (any_dns_strip config h)
  have houtbounds : touch "outbounds".toList config' = config' := touch_of_isSome (by rw [h.outbounds]; rfl)
  have hrouting : touch "routing".toList config' = config' := touch_of_isSome (by rw [h.routing]; rfl)
  have hfirst : stripOutbounds config' = (config', []) := by
    unfold stripOutbounds
    simp only [houtbounds]
    rw [show config'.arrayAt "outbounds".toList = outboundsOf config' from rfl, htags, if_pos rfl]
  have hsecond : stripRules [] config' = (config', 0) := by
    have hnone : ((rulesOf config').filter fun rule => decide (outboundTagOf rule ∈ ([] : List Text))) = [] :=
      filter_eq_nil_iff.2 fun rule _ hin => absurd (of_decide_eq_true hin) not_mem_nil
    unfold stripRules
    simp only [hrouting]
    rw [show (config'.objectAt "routing".toList).arrayAt "rules".toList = rulesOf config' from rfl, hnone, length_nil, if_pos rfl]
  rw [StripXrayDns, hkept, hfirst]
  dsimp only
  rw [hsecond]
  rfl

/-! ## When no more than DNS goes -/

theorem isSome_of_outbound {outbound : Json} (h : outbound ∈ outboundsOf config) : (config.get "outbounds".toList).isSome = true := by
  rw [outboundsOf, Fields.arrayAt] at h
  cases hget : config.get "outbounds".toList with
  | none =>
    rw [hget] at h
    cases h
  | some value => rfl

theorem isSome_of_rule (h : rule ∈ rulesOf config) : (config.get "routing".toList).isSome = true := by
  rw [rulesOf, Fields.objectAt] at h
  cases hget : config.get "routing".toList with
  | none =>
    rw [hget] at h
    cases h
  | some value => rfl

/-- Two filters of which one takes no more than the other, and as many, take the same. -/
theorem filter_eq_of_length {α : Type} {p q : α → Bool} {items : List α} (hpq : ∀ item, q item = true → p item = true)
    (hlength : (items.filter p).length = (items.filter q).length) : ∀ item ∈ items, p item = q item := by
  intro item hitem
  have hsub : (items.filter q).Sublist (items.filter p) := monotone_filter_right items hpq
  have heq := hsub.eq_of_length hlength.symm
  cases hp : p item with
  | false =>
    cases hq : q item with
    | false => rfl
    | true => exact absurd (hpq item hq) (by rw [hp]; exact Bool.false_ne_true)
  | true =>
    have hin : item ∈ items.filter q := heq ▸ mem_filter.2 ⟨hitem, hp⟩
    exact ((mem_filter.1 hin).2).symm

/-- A list that is written as objects and is the same has objects alone. -/
theorem all_objects {items : List Json} (h : items.map asObject = items) : ∀ item ∈ items, asObject item = item := by
  induction items with
  | nil => exact nofun
  | cons first items ih =>
    rw [map_cons, List.cons.injEq] at h
    rw [forall_mem_cons]
    exact ⟨h.1, ih h.2⟩

theorem map_objects {items : List Json} (h : ∀ item ∈ items, asObject item = item) : items.map asObject = items := by
  rw [map_congr_left h, map_id']

variable {config}
variable {config' : Fields} {result : XrayDnsStripResult}

theorem strippable_of_stripped (hfacts : StripFacts config config' result) (h : DnsStripped config config' result) : Strippable config := by
  have hlengths : (dnsTags (outboundsOf config)).length = ((outboundsOf config).filter isDns).length ∧
      ((rulesOf config).filter (goes config)).length = ((rulesOf config).filter (aims (outboundsOf config))).length := by
    have heq := hfacts.counts.symm.trans h.counts
    exact ⟨congrArg XrayDnsStripResult.outbounds heq, congrArg XrayDnsStripResult.rules heq⟩
  have hgoes : ∀ rule ∈ rulesOf config, goes config rule = aims (outboundsOf config) rule :=
    filter_eq_of_length (fun rule => goes_of_aims config) hlengths.2
  refine ⟨⟨?_, ?_⟩, fun hany outbound houtbound => ?_, ?_, fun rule hrule htag => ?_, fun hsome => ?_⟩
  · by_cases hany : (outboundsOf config).any isDns = true
    · obtain ⟨outbound, hmem, -⟩ := any_eq_true.1 hany
      exact isSome_of_outbound config hmem
    · have hkept := h.outbounds
      rw [if_neg hany, hfacts.outbounds] at hkept
      rw [← hkept]
      rfl
  · by_cases hsome : ∃ rule ∈ rulesOf config, aims (outboundsOf config) rule = true
    · obtain ⟨rule, hrule, -⟩ := hsome
      exact isSome_of_rule config hrule
    · have hkept := h.untouched fun rule hrule => Bool.eq_false_iff.2 fun haims => hsome ⟨rule, hrule, haims⟩
      rw [← hkept, hfacts.routing]
      rfl
  · have hsame := hfacts.outbounds.symm.trans h.outbounds
    rw [if_pos hany, if_pos hany, Option.some.injEq, Json.array.injEq] at hsame
    cases hdns : isDns outbound with
    | true => exact asObject_of_isDns hdns
    | false => exact all_objects hsame outbound (mem_filter.2 ⟨houtbound, by rw [hdns]; rfl⟩)
  · have hlength := hlengths.1
    rw [dnsTags, ← length_map (f := tagOf)] at hlength
    exact dedup_eq_self.1 ((dedup_sublist _).eq_of_length hlength)
  · rw [← hgoes rule hrule]
    exact decide_eq_true (mem_dnsTags.2 htag)
  · obtain ⟨rule, hrule, haims⟩ := hsome
    have hany : (rulesOf config).any (goes config) = true := any_eq_true.2 ⟨rule, hrule, goes_of_aims config haims⟩
    have hsame := (rulesOf_strip config hfacts).symm.trans h.rules
    rw [if_pos hany, ← filter_congr fun rule hrule => congrArg (! ·) (hgoes rule hrule)] at hsame
    intro rule hrule
    cases hrule' : aims (outboundsOf config) rule with
    | true => exact (tag_of_aims hrule').2
    | false => exact all_objects hsame rule (mem_filter.2 ⟨hrule, by rw [hgoes rule hrule, hrule']; rfl⟩)

theorem stripped_of_strippable (hfacts : StripFacts config config' result) (h : Strippable config) : DnsStripped config config' result := by
  have hgoes : ∀ rule ∈ rulesOf config, goes config rule = aims (outboundsOf config) rule := by
    intro rule hrule
    cases haims : aims (outboundsOf config) rule with
    | true => exact goes_of_aims config haims
    | false =>
      refine decide_eq_false fun htag => ?_
      rw [h.named rule hrule (mem_dnsTags.1 htag)] at haims
      exact absurd haims.symm Bool.false_ne_true
  have hany : (rulesOf config).any (goes config) = true ↔ ∃ rule ∈ rulesOf config, aims (outboundsOf config) rule = true := by
    rw [any_eq_true]
    exact exists_congr fun rule => and_congr_right fun hrule => by rw [hgoes rule hrule]
  refine ⟨hfacts.dns, ?_, ?_, fun key hkey => ?_, fun hnone => ?_, hfacts.others, ?_, strip_again config hfacts⟩
  · rw [hfacts.outbounds]
    split
    · next hdns =>
      rw [map_objects fun outbound hmem => h.outbounds hdns outbound (mem_of_mem_filter hmem)]
    · obtain ⟨value, hvalue⟩ := Option.isSome_iff_exists.1 h.sections.1
      rw [hvalue]
      rfl
  · rw [rulesOf_strip config hfacts, ← filter_congr fun rule hrule => congrArg (! ·) (hgoes rule hrule)]
    split
    · next hsome =>
      exact map_objects fun rule hmem => h.rules (hany.1 hsome) rule (mem_of_mem_filter hmem)
    · next hnone =>
      refine (filter_eq_self.2 fun rule hrule => ?_).symm
      rw [any_eq_false.1 (Bool.eq_false_iff.2 hnone) rule hrule |> Bool.eq_false_iff.2]
      rfl
  · rw [routing_strip config hfacts]
    split
    · exact Fields.get_put_other hkey _ _
    · rfl
  · rw [hfacts.routing, if_neg]
    · obtain ⟨value, hvalue⟩ := Option.isSome_iff_exists.1 h.sections.2
      rw [hvalue]
      rfl
    · intro hsome
      obtain ⟨rule, hrule, haims⟩ := hany.1 hsome
      rw [hnone rule hrule] at haims
      cases haims
  · rw [hfacts.counts, filter_congr hgoes, dnsTags, h.tags.dedup, length_map]

end Strip

/-- Only DNS is taken out, all of it, and counted right, exactly from the configurations of which no more than
DNS is taken. -/
theorem strip_exact (config : Fields) : DnsStripped config (StripXrayDns config).1 (StripXrayDns config).2 ↔ Strippable config :=
  ⟨strippable_of_stripped (strip_spec config), stripped_of_strippable (strip_spec config)⟩

/-- An outbound with the protocol `dns` and no tag, and a rule that goes to a balancer. -/
def balanced : Fields :=
  [("outbounds".toList, .array [.object [("protocol".toList, .text "dns".toList)],
       .object [("tag".toList, .text "proxy".toList), ("protocol".toList, .text "vless".toList)]]),
    ("routing".toList, .object [("rules".toList, .array [.object [("balancerTag".toList, .text "balancer".toList)]])])]

/-- The rule that goes to a balancer is lost. -/
theorem balancer_rule_lost : ¬ DnsStripped balanced (StripXrayDns balanced).1 (StripXrayDns balanced).2 := by
  intro h
  have hrules : (StripXrayDns balanced).2.rules = 1 := by decide
  have hnone : ((rulesOf balanced).filter (aims (outboundsOf balanced))).length = 0 := by decide
  rw [h.counts, hnone] at hrules
  cases hrules

end Throne.Configs.XrayDns
