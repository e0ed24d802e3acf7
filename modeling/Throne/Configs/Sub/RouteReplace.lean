import Throne.Configs.Sub.RouteRefresh
import Throne.Lib.Reinsert

/-!
# The same document again

A refresh replaces the rules of a profile by those of the document and keeps the profile's endpoint rules at their
places. The rules that come out are the document's, each endpoint has one rule, and a rule is only switched off where
the profile had switched off one of its name. The second refresh with the same document changes nothing, unless the
document itself has a name on a rule that is off and on one that is on: what the document switched off counts as
switched off locally the next time (`same_document_iff`).
-/

namespace Throne.Configs.Sub.RouteUpdate

open Lib.Texts Lib.Reinsert Database.Routes List

/-! ## Endpoint rules -/

def isEndpoint (rule : RouteRule) : Bool := rule.type == .endpointPreferredBy

/-- An endpoint rule of an endpoint. -/
def isRuleFor (id : Int) (rule : RouteRule) : Bool := isEndpoint rule && rule.outboundID == id

/-- The rules of a document, or of a profile, that are not its endpoint rules. -/
def ownRules (rules : List RouteRule) : List RouteRule := rules.filter fun rule => !isEndpoint rule

def disabledNames (rules : List RouteRule) : List Text :=
  (rules.filter fun rule => rule.type != .endpointPreferredBy && rule.disabled).map (·.name)

/-- A rule switched off where its name is. -/
def switched (names : List Text) (rule : RouteRule) : RouteRule :=
  if names.contains rule.name then { rule with disabled := true } else rule

theorem switched_endpoint (names : List Text) (rule : RouteRule) : isEndpoint (switched names rule) = isEndpoint rule := by
  rw [switched]
  split <;> rfl

theorem switched_name (names : List Text) (rule : RouteRule) : (switched names rule).name = rule.name := by
  rw [switched]
  split <;> rfl

theorem switched_disabled (names : List Text) (rule : RouteRule) :
    (switched names rule).disabled = true ↔ rule.disabled = true ∨ rule.name ∈ names := by
  rw [switched]
  split
  · next h => simp [contains_iff_mem.1 h]
  · next h =>
    rw [contains_iff_mem] at h
    simp [h]

theorem mem_disabledNames {rules : List RouteRule} {name : Text} :
    name ∈ disabledNames rules ↔ ∃ rule ∈ ownRules rules, rule.disabled = true ∧ rule.name = name := by
  rw [disabledNames, mem_map]
  constructor
  · rintro ⟨rule, hrule, rfl⟩
    obtain ⟨hmem, hboth⟩ := mem_filter.1 hrule
    rw [Bool.and_eq_true] at hboth
    exact ⟨rule, mem_filter.2 ⟨hmem, hboth.1⟩, hboth.2, rfl⟩
  · rintro ⟨rule, hrule, hdisabled, rfl⟩
    obtain ⟨hmem, hown⟩ := mem_filter.1 hrule
    exact ⟨rule, mem_filter.2 ⟨hmem, Bool.and_eq_true_iff.2 ⟨hown, hdisabled⟩⟩, rfl⟩

/-! ## Pairing -/

variable {id : Int} {rule : RouteRule}

section Pairing

variable {targets : List Int}

/-- The rules that are not endpoint rules pass. -/
theorem keepPaired_own (targets : List Int) (rules : List RouteRule) (paired : List Int) :
    ownRules (keepPaired targets rules paired).1 = ownRules rules := by
  induction rules generalizing paired with
  | nil => rfl
  | cons rule rules ih =>
    rw [keepPaired]
    split
    · next hendpoint =>
      have hskip (rest : List RouteRule) : ownRules (rule :: rest) = ownRules rest := by
        rw [ownRules, filter_cons_of_neg (by rw [isEndpoint, hendpoint]; decide), ownRules]
      split
      · rw [ih, hskip]
      · simp only [hskip, ih]
    · next hown =>
      have htake (rest : List RouteRule) : ownRules (rule :: rest) = rule :: ownRules rest := by
        rw [ownRules, filter_cons_of_pos (by rw [isEndpoint, beq_false_of_ne hown]; decide), ownRules]
      simp only [htake, ih]

/-- Of the rules for a target the first is kept, unless the target has its own already. -/
theorem keepPaired_target (rules : List RouteRule) (paired : List Int) (hid : id ∈ targets) :
    (keepPaired targets rules paired).1.filter (isRuleFor id) = (if id ∈ paired then [] else (rules.filter (isRuleFor id)).take 1) ∧
    (id ∈ (keepPaired targets rules paired).2 ↔ id ∈ paired ∨ rules.filter (isRuleFor id) ≠ []) := by
  induction rules generalizing paired with
  | nil =>
    rw [keepPaired]
    simp
  | cons rule rules ih =>
    rw [keepPaired]
    split
    · next hendpoint =>
      have hkind : isRuleFor id rule = (rule.outboundID == id) := by
        rw [isRuleFor, isEndpoint, hendpoint]
        rfl
      by_cases hsame : rule.outboundID = id
      · have hfor : isRuleFor id rule = true := by rw [hkind, hsame, beq_self_eq_true]
        rw [filter_cons_of_pos hfor, hsame]
        by_cases hpaired : id ∈ paired
        · have hgone : (!targets.contains id || paired.contains id) = true := by
            rw [contains_iff_mem.2 hpaired, Bool.or_true]
          obtain ⟨hkept, hids⟩ := ih paired
          rw [if_pos hgone, hkept, hids]
          simp [hpaired]
        · have hstays : ¬(!targets.contains id || paired.contains id) = true := by
            rw [contains_iff_mem.2 hid, Bool.not_true, Bool.false_or, contains_iff_mem]
            exact hpaired
          obtain ⟨hkept, hids⟩ := ih (id :: paired)
          rw [if_neg hstays]
          simp only [filter_cons_of_pos hfor, hkept, hids, hpaired]
          simp
      · have hfor : isRuleFor id rule = false := by rw [hkind, beq_false_of_ne hsame]
        rw [filter_cons_of_neg (by rw [hfor]; exact Bool.false_ne_true)]
        split
        · exact ih paired
        · obtain ⟨hkept, hids⟩ := ih (rule.outboundID :: paired)
          have hmem : id ∈ rule.outboundID :: paired ↔ id ∈ paired := by
            rw [mem_cons]
            exact or_iff_right (Ne.symm hsame)
          rw [hmem] at hids
          simp only [filter_cons_of_neg (show ¬isRuleFor id rule = true by rw [hfor]; exact Bool.false_ne_true), hkept, hids, hmem, and_self]
    · next hown =>
      have hfor : isRuleFor id rule = false := by
        rw [isRuleFor, isEndpoint, beq_false_of_ne hown, Bool.false_and]
      obtain ⟨hkept, hids⟩ := ih paired
      simp only [filter_cons_of_neg (show ¬isRuleFor id rule = true by rw [hfor]; exact Bool.false_ne_true), hkept, hids, and_self]

/-- The endpoints of the endpoint rules. -/
def endpointIDs (rules : List RouteRule) : List Int := (rules.filter isEndpoint).map (·.outboundID)

theorem endpointIDs_endpoint (h : rule.type = .endpointPreferredBy) (rules : List RouteRule) :
    endpointIDs (rule :: rules) = rule.outboundID :: endpointIDs rules := by
  rw [endpointIDs, filter_cons_of_pos (by rw [isEndpoint, h]; rfl), map_cons, endpointIDs]

theorem endpointIDs_own (h : rule.type ≠ .endpointPreferredBy) (rules : List RouteRule) : endpointIDs (rule :: rules) = endpointIDs rules := by
  rw [endpointIDs, filter_cons_of_neg (by rw [isEndpoint, beq_false_of_ne h]; exact Bool.false_ne_true), endpointIDs]

/-- What is paired stays as it is. -/
theorem keepPaired_paired {rules : List RouteRule} {paired : List Int} (hids : ∀ id ∈ endpointIDs rules, id ∈ targets)
    (hnodup : (endpointIDs rules).Nodup) (hfree : ∀ id ∈ endpointIDs rules, id ∉ paired) : (keepPaired targets rules paired).1 = rules := by
  induction rules generalizing paired with
  | nil => rfl
  | cons rule rules ih =>
    rw [keepPaired]
    split
    · next hendpoint =>
      rw [endpointIDs_endpoint hendpoint] at hids hnodup hfree
      obtain ⟨hnew, hnodup⟩ := nodup_cons.1 hnodup
      have hstays : ¬(!targets.contains rule.outboundID || paired.contains rule.outboundID) = true := by
        rw [contains_iff_mem.2 (hids _ mem_cons_self), Bool.not_true, Bool.false_or, contains_iff_mem]
        exact hfree _ mem_cons_self
      rw [if_neg hstays]
      have hrest := @ih (rule.outboundID :: paired) (fun id hid => hids id (mem_cons_of_mem _ hid)) hnodup (fun id hid hmem => by
          rcases mem_cons.1 hmem with rfl | hmem
          · exact hnew hid
          · exact hfree id (mem_cons_of_mem _ hid) hmem)
      simp only [hrest]
    · next hown =>
      rw [endpointIDs_own hown] at hids hnodup hfree
      simp only [ih hids hnodup hfree]

/-- The endpoint rules that are kept are for targets, each for another one. -/
theorem keepPaired_ids (targets : List Int) (rules : List RouteRule) (paired : List Int) : (endpointIDs (keepPaired targets rules paired).1).Nodup ∧
    ∀ id ∈ endpointIDs (keepPaired targets rules paired).1, id ∈ targets ∧ id ∉ paired := by
  induction rules generalizing paired with
  | nil =>
    rw [keepPaired]
    simp [endpointIDs]
  | cons rule rules ih =>
    rw [keepPaired]
    split
    · next hendpoint =>
      split
      · exact ih paired
      · next hstays =>
        rw [Bool.not_eq_true, Bool.or_eq_false_iff, Bool.not_eq_false', contains_iff_mem, ← Bool.not_eq_true, contains_iff_mem] at hstays
        obtain ⟨hnodup, hids⟩ := ih (rule.outboundID :: paired)
        simp only [endpointIDs_endpoint hendpoint]
        refine ⟨nodup_cons.2 ⟨fun hmem => (hids _ hmem).2 mem_cons_self, hnodup⟩, ?_⟩
        intro id hid
        rcases mem_cons.1 hid with rfl | hid
        · exact hstays
        · exact ⟨(hids id hid).1, fun hmem => (hids id hid).2 (mem_cons_of_mem _ hmem)⟩
    · next hown =>
      simp only [endpointIDs_own hown]
      exact ih paired

end Pairing

/-! ## The rules in step with the targets -/

/-- The rules of `SyncEndpointRules`. -/
def synced (servers : Servers) (targets : List Int) (rules : List RouteRule) : List RouteRule :=
  (keepPaired targets rules []).1 ++ (targets.filter fun id => !(keepPaired targets rules []).2.contains id).map (MakeEndpointRule servers)

section Synced

variable {servers : Servers} {targets : List Int} {rules : List RouteRule}

theorem made_endpoint (servers : Servers) (id : Int) : (MakeEndpointRule servers id).type = .endpointPreferredBy := rfl

theorem synced_own (servers : Servers) (targets : List Int) (rules : List RouteRule) : ownRules (synced servers targets rules) = ownRules rules := by
  have hmade : ownRules ((targets.filter fun id => !(keepPaired targets rules []).2.contains id).map (MakeEndpointRule servers)) = [] := by
    apply filter_eq_nil_iff.2
    intro rule hrule
    obtain ⟨id, -, rfl⟩ := mem_map.1 hrule
    rw [isEndpoint, made_endpoint]
    decide
  have happend (xs ys : List RouteRule) : ownRules (xs ++ ys) = ownRules xs ++ ownRules ys := filter_append _ _
  rw [synced, happend, hmade, append_nil, keepPaired_own]

/-- The first rule for a target is its rule. -/
theorem synced_target (hid : id ∈ targets) (hrule : rules.filter (isRuleFor id) ≠ []) :
    (synced servers targets rules).filter (isRuleFor id) = (rules.filter (isRuleFor id)).take 1 := by
  obtain ⟨hkept, hids⟩ := keepPaired_target rules [] hid
  have hpaired : id ∈ (keepPaired targets rules []).2 := hids.2 (.inr hrule)
  have hmade : ((targets.filter fun id => !(keepPaired targets rules []).2.contains id).map
      (MakeEndpointRule servers)).filter (isRuleFor id) = [] := by
    apply filter_eq_nil_iff.2
    intro rule hmem
    obtain ⟨other, hother, rfl⟩ := mem_map.1 hmem
    have hnot := (mem_filter.1 hother).2
    rw [isRuleFor, Bool.and_eq_true, beq_iff_eq]
    rintro ⟨-, hsame⟩
    rw [show other = id from hsame, contains_iff_mem.2 hpaired] at hnot
    cases hnot
  rw [synced, filter_append, hkept, hmade, append_nil, if_neg not_mem_nil]

theorem mem_endpointIDs : id ∈ endpointIDs rules ↔ rules.filter (isRuleFor id) ≠ [] := by
  rw [endpointIDs, mem_map, ne_eq, filter_eq_nil_iff, not_forall]
  constructor
  · rintro ⟨rule, hrule, rfl⟩
    obtain ⟨hmem, hendpoint⟩ := mem_filter.1 hrule
    exact ⟨rule, fun hnot => hnot hmem (Bool.and_eq_true_iff.2 ⟨hendpoint, beq_self_eq_true _⟩)⟩
  · rintro ⟨rule, hrule⟩
    rw [Classical.not_imp, not_not, isRuleFor, Bool.and_eq_true, beq_iff_eq] at hrule
    exact ⟨rule, mem_filter.2 ⟨hrule.1, hrule.2.1⟩, hrule.2.2⟩

/-- Each target has one endpoint rule, and nothing else has. -/
theorem synced_ids (servers : Servers) (rules : List RouteRule) (hnodup : targets.Nodup) : (endpointIDs (synced servers targets rules)).Nodup ∧
    ∀ id, id ∈ endpointIDs (synced servers targets rules) ↔ id ∈ targets := by
  obtain ⟨hkept, hids⟩ := keepPaired_ids targets rules []
  have hmade : endpointIDs ((targets.filter fun id => !(keepPaired targets rules []).2.contains id).map
      (MakeEndpointRule servers)) = targets.filter fun id => !(keepPaired targets rules []).2.contains id := by
    have hall : ∀ ids : List Int, endpointIDs (ids.map (MakeEndpointRule servers)) = ids := by
      intro ids
      induction ids with
      | nil => rfl
      | cons id ids ih =>
        rw [map_cons, endpointIDs_endpoint (made_endpoint servers id), ih]
        rfl
    exact hall _
  have hsplit : endpointIDs (synced servers targets rules) = endpointIDs (keepPaired targets rules []).1 ++
        targets.filter fun id => !(keepPaired targets rules []).2.contains id := by
    rw [synced]
    conv => rhs; rw [← hmade]
    rw [endpointIDs, filter_append, map_append, endpointIDs, endpointIDs]
  -- a target is paired just when it has a rule that is kept
  have hpaired : ∀ id ∈ targets, (id ∈ (keepPaired targets rules []).2 ↔ id ∈ endpointIDs (keepPaired targets rules []).1) := by
    intro id hid
    obtain ⟨hfor, hpair⟩ := keepPaired_target rules [] hid
    rw [hpair, mem_endpointIDs, hfor, if_neg not_mem_nil, or_iff_right not_mem_nil]
    cases rules.filter (isRuleFor id) <;> simp
  rw [hsplit]
  refine ⟨nodup_append.2 ⟨hkept, hnodup.filter _, ?_⟩, ?_⟩
  · intro id hid other hother hsame
    obtain ⟨htarget, hnot⟩ := mem_filter.1 hother
    rw [← hsame] at htarget hnot
    rw [contains_iff_mem.2 ((hpaired id htarget).2 hid)] at hnot
    cases hnot
  · intro id
    rw [mem_append]
    constructor
    · rintro (hid | hid)
      · exact (hids id hid).1
      · exact (mem_filter.1 hid).1
    · intro hid
      by_cases hin : id ∈ (keepPaired targets rules []).2
      · exact .inl ((hpaired id hid).1 hin)
      · refine .inr (mem_filter.2 ⟨hid, ?_⟩)
        rw [Bool.not_eq_true', ← Bool.not_eq_true, contains_iff_mem]
        exact hin

/-- Rules in step stay as they are. -/
theorem synced_step (hnodup : (endpointIDs rules).Nodup) (hids : ∀ id, id ∈ endpointIDs rules ↔ id ∈ targets) :
    synced servers targets rules = rules := by
  have hkept : (keepPaired targets rules []).1 = rules :=
    keepPaired_paired (fun id hid => (hids id).1 hid) hnodup fun _ _ => not_mem_nil
  have hnone : (targets.filter fun id => !(keepPaired targets rules []).2.contains id) = [] := by
    apply filter_eq_nil_iff.2
    intro id hid
    have hpaired := (keepPaired_target rules [] hid).2.2 (.inr (mem_endpointIDs.1 ((hids id).2 hid)))
    rw [contains_iff_mem.2 hpaired]
    decide
  rw [synced, hkept, hnone, map_nil, append_nil]

/-- Rules for different endpoints have one for each. -/
theorem rule_alone (hnodup : (endpointIDs rules).Nodup) (hrule : rule ∈ rules)
    (hendpoint : isEndpoint rule = true) : rules.filter (isRuleFor rule.outboundID) = [rule] := by
  have hpairs : (rules.filter (isRuleFor rule.outboundID)).Pairwise fun a b => a.outboundID ≠ b.outboundID := by
    apply List.Pairwise.sublist _ (pairwise_map.1 hnodup)
    apply monotone_filter_right
    intro other hother
    exact (Bool.and_eq_true_iff.1 hother).1
  have hfor : ∀ other ∈ rules.filter (isRuleFor rule.outboundID), other.outboundID = rule.outboundID := fun other hother =>
    beq_iff_eq.1 (Bool.and_eq_true_iff.1 (mem_filter.1 hother).2).2
  have hmem : rule ∈ rules.filter (isRuleFor rule.outboundID) := mem_filter.2 ⟨hrule, Bool.and_eq_true_iff.2 ⟨hendpoint, beq_self_eq_true _⟩⟩
  cases hrules : rules.filter (isRuleFor rule.outboundID) with
  | nil =>
    rw [hrules] at hmem
    cases hmem
  | cons first others =>
    rw [hrules] at hpairs hfor hmem
    cases others with
    | nil => rw [mem_singleton.1 hmem]
    | cons second others =>
      have hne := rel_of_pairwise_cons hpairs mem_cons_self
      exact absurd ((hfor first mem_cons_self).trans (hfor second (mem_cons_of_mem _ mem_cons_self)).symm) hne

end Synced

/-! ## The targets -/

/-- A list without the elements that are there already. -/
theorem addNew_nodup (ids targets : List Int) (h : targets.Nodup) :
    (ids.foldl (fun targets id => if targets.contains id then targets else targets ++ [id]) targets).Nodup := by
  induction ids generalizing targets with
  | nil => exact h
  | cons id ids ih =>
    rw [foldl_cons]
    apply ih
    split
    · exact h
    · next hnew =>
      rw [contains_iff_mem] at hnew
      exact nodup_append.2 ⟨h, nodup_singleton id, fun a ha b hb hab => by
        rw [mem_singleton.1 hb] at hab
        exact hnew (hab ▸ ha)⟩

theorem endpointRuleTargets_nodup (p : RouteProfile) (servers : Servers) : (p.endpointRuleTargets servers).Nodup := by
  rw [RouteProfile.endpointRuleTargets]
  have hall : ∀ (ids targets : List Int), targets.Nodup → (ids.foldl (fun targets id =>
        if targets.contains id then targets
        else if p.innerHopEndpointIDs.contains id then
          (servers.innerHops id).foldl (fun targets hopID => if targets.contains hopID then targets else targets ++ [hopID]) (targets ++ [id])
        else targets ++ [id]) targets).Nodup := by
    intro ids
    induction ids with
    | nil => exact fun _ h => h
    | cons id ids ih =>
      intro targets h
      rw [foldl_cons]
      apply ih
      split
      · exact h
      · next hnew =>
        have hadd := addNew_nodup [id] targets h
        rw [foldl_cons, if_neg hnew] at hadd
        split
        · exact addNew_nodup _ _ hadd
        · exact hadd
  exact hall _ [] nodup_nil

/-! ## A refresh -/

section Refresh

variable {servers : Servers} {profile fetched : RouteProfile}

/-- The rules of the document, switched off where the profile has switched off one of the name. -/
def carried (profile fetched : RouteProfile) : List RouteRule := (ownRules fetched.Rules).map (switched (disabledNames profile.Rules))

/-- What a refresh leaves. -/
theorem replaceRules_eq (servers : Servers) (profile fetched : RouteProfile) : replaceRules servers profile fetched = { profile with
        isRaw := false
        rawRoute := []
        Rules := synced servers (profile.endpointRuleTargets servers)
          (putBack (carried profile fetched) (taken isEndpoint profile.Rules))
        defaultOutboundID := fetched.defaultOutboundID } := rfl

theorem carried_own (profile fetched : RouteProfile) :
    (carried profile fetched).filter isEndpoint = [] ∧ ownRules (carried profile fetched) = carried profile fetched := by
  have hown : ∀ rule ∈ carried profile fetched, isEndpoint rule = false := by
    intro rule hrule
    obtain ⟨document, hdocument, rfl⟩ := mem_map.1 hrule
    rw [switched_endpoint, ← Bool.not_eq_true']
    exact (mem_filter.1 hdocument).2
  constructor
  · apply filter_eq_nil_iff.2
    intro rule hrule
    rw [hown rule hrule]
    exact Bool.false_ne_true
  · apply filter_eq_self.2
    intro rule hrule
    rw [hown rule hrule]
    rfl

/-- The rules that are not endpoint rules are the document's. -/
theorem replaceRules_own (servers : Servers) (profile fetched : RouteProfile) :
    ownRules (replaceRules servers profile fetched).Rules = carried profile fetched := by
  rw [replaceRules_eq]
  simp only
  rw [synced_own]
  calc ownRules (putBack (carried profile fetched) (taken isEndpoint profile.Rules))
      = ownRules (carried profile fetched) := others_putBack taken_kind
    _ = carried profile fetched := (carried_own profile fetched).2

/-- The endpoint rules are those of the profile, as far as they have targets. -/
theorem replaceRules_target (hid : id ∈ profile.endpointRuleTargets servers) (hrule : profile.Rules.filter (isRuleFor id) ≠ []) :
    (replaceRules servers profile fetched).Rules.filter (isRuleFor id) = (profile.Rules.filter (isRuleFor id)).take 1 := by
  have hfor (rules : List RouteRule) : rules.filter (isRuleFor id) = (rules.filter isEndpoint).filter fun rule => rule.outboundID == id := by
    rw [filter_filter]
    apply filter_congr
    intro rule _
    rw [isRuleFor, Bool.and_comm]
  have hback : (putBack (carried profile fetched) (taken isEndpoint profile.Rules)).filter (isRuleFor id) = profile.Rules.filter (isRuleFor id) := by
    rw [hfor, filter_putBack (carried_own profile fetched).1, ← hfor]
  rw [replaceRules_eq]
  simp only
  rw [synced_target hid, hback]
  rw [hback]
  exact hrule

/-- A second refresh carries the same rules, or leaves other ones. -/
theorem replaceRules_again_iff : replaceRules servers (replaceRules servers profile fetched) fetched = replaceRules servers profile fetched ↔
    carried (replaceRules servers profile fetched) fetched = carried profile fetched := by
  constructor
  · intro hsame
    rw [← replaceRules_own servers (replaceRules servers profile fetched) fetched, hsame, replaceRules_own]
  · intro hcarried
    obtain ⟨after, hafter⟩ : ∃ after, after = replaceRules servers profile fetched := ⟨_, rfl⟩
    have hrules : after.Rules = synced servers (profile.endpointRuleTargets servers)
        (putBack (carried profile fetched) (taken isEndpoint profile.Rules)) := by
      rw [hafter, replaceRules_eq]
    have hback : putBack (carried after fetched) (taken isEndpoint after.Rules) = after.Rules := by
      rw [hafter, hcarried, ← replaceRules_own servers profile fetched]
      exact putBack_taken _
    obtain ⟨hnodup, hids⟩ := synced_ids servers (putBack (carried profile fetched) (taken isEndpoint profile.Rules))
      (endpointRuleTargets_nodup profile servers)
    rw [← hrules] at hnodup hids
    rw [← hafter, replaceRules_eq servers after fetched, hback]
    have htargets : after.endpointRuleTargets servers = profile.endpointRuleTargets servers := by
      rw [hafter]
      rfl
    rw [htargets, synced_step hnodup hids, hafter]
    rfl

/-- No rule of the document that is on has the name of one that is off, unless the profile has switched off one of
that name. -/
def NoTwins (profile fetched : RouteProfile) : Prop :=
  ∀ rule ∈ ownRules fetched.Rules, rule.disabled = false → rule.name ∈ disabledNames fetched.Rules → rule.name ∈ disabledNames profile.Rules

instance (profile fetched : RouteProfile) : Decidable (NoTwins profile fetched) :=
  inferInstanceAs (Decidable (∀ rule ∈ ownRules fetched.Rules, rule.disabled = false →
    rule.name ∈ disabledNames fetched.Rules → rule.name ∈ disabledNames profile.Rules))

/-- The names that are off after a refresh: those of the profile, and those of the document. -/
theorem disabled_again (hrule : rule ∈ ownRules fetched.Rules) : rule.name ∈ disabledNames (replaceRules servers profile fetched).Rules ↔
    rule.name ∈ disabledNames fetched.Rules ∨ rule.name ∈ disabledNames profile.Rules := by
  rw [mem_disabledNames, replaceRules_own]
  constructor
  · rintro ⟨other, hother, hdisabled, hname⟩
    obtain ⟨document, hdocument, rfl⟩ := mem_map.1 hother
    rw [switched_name] at hname
    rcases (switched_disabled _ _).1 hdisabled with hoff | hoff
    · exact .inl (mem_disabledNames.2 ⟨document, hdocument, hoff, hname⟩)
    · exact .inr (hname ▸ hoff)
  · rintro (hoff | hoff)
    · obtain ⟨document, hdocument, hdisabled, hname⟩ := mem_disabledNames.1 hoff
      exact ⟨_, mem_map.2 ⟨document, hdocument, rfl⟩, (switched_disabled _ _).2 (.inl hdisabled), by rw [switched_name, hname]⟩
    · exact ⟨_, mem_map.2 ⟨rule, hrule, rfl⟩, (switched_disabled _ _).2 (.inr hoff), switched_name _ _⟩

theorem switched_eq_iff {names others : List Text} :
    switched names rule = switched others rule ↔ (rule.disabled = false → (rule.name ∈ names ↔ rule.name ∈ others)) := by
  have hsame : switched names rule = switched others rule ↔ ((switched names rule).disabled = true ↔ (switched others rule).disabled = true) := by
    constructor
    · intro h
      rw [h]
    · intro h
      have hshape (names : List Text) : switched names rule = { rule with disabled := (switched names rule).disabled } := by
        rw [switched]
        split <;> rfl
      rw [hshape names, hshape others, Bool.eq_iff_iff.2 h]
  rw [hsame, switched_disabled, switched_disabled]
  cases rule.disabled <;> simp

theorem carried_again_iff : carried (replaceRules servers profile fetched) fetched = carried profile fetched ↔ NoTwins profile fetched := by
  rw [carried, carried, map_inj_left]
  simp only [switched_eq_iff]
  constructor
  · intro h rule hrule hon hoff
    exact (h rule hrule hon).1 ((disabled_again hrule).2 (.inl hoff))
  · intro h rule hrule hon
    rw [disabled_again hrule]
    exact ⟨fun hoff => hoff.elim (h rule hrule hon) id, Or.inr⟩

/-- What a refresh keeps, and the next one with the same document. -/
structure RefreshKeeps (servers : Servers) (profile fetched : RouteProfile) : Prop where
  again : replaceRules servers (replaceRules servers profile fetched) fetched = replaceRules servers profile fetched
  /-- The document's rules in order, each switched off only where the profile has one of its name switched off. -/
  rules : List.Forall₂ (fun document rule => rule = { document with disabled := rule.disabled } ∧
      (document.disabled = true → rule.disabled = true) ∧
      (rule.disabled = true → document.disabled = true ∨ ∃ old ∈ profile.Rules, old.disabled = true ∧ old.name = document.name))
    (ownRules fetched.Rules) (ownRules (replaceRules servers profile fetched).Rules)
  /-- An endpoint that is still a target has the one rule that it had, of several the first. -/
  endpoints : ∀ rule ∈ profile.Rules, isEndpoint rule = true → rule.outboundID ∈ profile.endpointRuleTargets servers →
    (replaceRules servers profile fetched).Rules.filter (isRuleFor rule.outboundID) = (profile.Rules.filter (isRuleFor rule.outboundID)).take 1
  /-- Where no endpoint has several, every rule of a target is kept. -/
  once : (endpointIDs profile.Rules).Nodup → ∀ rule ∈ profile.Rules, isEndpoint rule = true → rule.outboundID ∈ profile.endpointRuleTargets servers →
      (replaceRules servers profile fetched).Rules.filter (isRuleFor rule.outboundID) = [rule]
  outbound : (replaceRules servers profile fetched).defaultOutboundID = fetched.defaultOutboundID

/-- **A refresh with the same document is a no-op just when the document has no name both off and on** that the
profile has not switched off. -/
theorem same_document_iff (servers : Servers) (profile fetched : RouteProfile) : RefreshKeeps servers profile fetched ↔ NoTwins profile fetched := by
  constructor
  · intro h
    exact carried_again_iff.1 (replaceRules_again_iff.1 h.again)
  · intro h
    have hfirst : ∀ rule ∈ profile.Rules, isEndpoint rule = true → rule.outboundID ∈ profile.endpointRuleTargets servers →
          (replaceRules servers profile fetched).Rules.filter (isRuleFor rule.outboundID) =
            (profile.Rules.filter (isRuleFor rule.outboundID)).take 1 := by
      intro rule hrule hendpoint htarget
      apply replaceRules_target htarget
      rw [← mem_endpointIDs]
      exact mem_map.2 ⟨rule, mem_filter.2 ⟨hrule, hendpoint⟩, rfl⟩
    refine ⟨replaceRules_again_iff.2 (carried_again_iff.2 h), ?_, hfirst, ?_, rfl⟩
    · rw [replaceRules_own, carried, List.forall₂_map_right_iff, List.forall₂_same]
      intro document _
      refine ⟨?_, fun hoff => (switched_disabled _ _).2 (.inl hoff), ?_⟩
      · rw [switched]
        split <;> rfl
      · intro hoff
        rcases (switched_disabled _ _).1 hoff with hoff | hoff
        · exact .inl hoff
        · obtain ⟨old, hold, hdisabled, hname⟩ := mem_disabledNames.1 hoff
          exact .inr ⟨old, (mem_filter.1 hold).1, hdisabled, hname⟩
    · intro hnodup rule hrule hendpoint htarget
      rw [hfirst rule hrule hendpoint htarget, rule_alone hnodup hrule hendpoint]
      rfl

end Refresh

/-! ### A name on two rules -/

def named (name : String) (disabled : Bool) : RouteRule :=
  { RouteRule.default with name := name.toList, disabled := disabled }

/-- A profile with an endpoint and its rule, and a rule that is switched off. -/
def localRoute : RouteProfile :=
  { RouteProfile.default with
    Rules := [named "ads" true, { named "nas" false with type := .endpointPreferredBy, outboundID := 7 }]
    endpointProfileIDs := [7] }

/-- A document with a rule of that name. -/
def sharedRoute : RouteProfile :=
  { RouteProfile.default with Rules := [named "ads" false, named "video" false], defaultOutboundID := directID }

/-- A document with one rule of a name off and one on. -/
def twinRoute : RouteProfile := { RouteProfile.default with Rules := [named "video" true, named "video" false] }

def noServers : Servers where
  innerHops _ := []
  displayName _ := none

example : (replaceRules noServers localRoute sharedRoute).Rules.map (fun rule => (rule.name, rule.disabled)) =
    [("ads".toList, true), ("nas".toList, false), ("video".toList, false)] := by decide

/-- The second refresh switches the other rule off. -/
theorem twin_switched_off : (replaceRules noServers localRoute twinRoute).Rules.map (·.disabled) = [true, false, false] ∧
    (replaceRules noServers (replaceRules noServers localRoute twinRoute) twinRoute).Rules.map (·.disabled) =
    [true, false, true] ∧ ¬RefreshKeeps noServers localRoute twinRoute := by
  refine ⟨by decide, by decide, ?_⟩
  intro h
  exact absurd (carried_again_iff.1 (replaceRules_again_iff.1 h.again)) (by decide)

end Throne.Configs.Sub.RouteUpdate
