import Throne.Database.Entities.SimpleRulesLines

/-!
# The text replaces the list

What `UpdateSimpleRules` leaves of a profile. The first rule of each of the action's types holds the lines of the text
and no others, and of the rest only empty rules go (`update_spec`). A second rule of such a type keeps its lines, and
a custom rule loses an action that is emitted as another one when it is asked whether it is empty; but for these two
the text replaces the list and nothing else (`text_replaces_iff`).
-/

namespace Throne.Database.Routes

open Lib.Texts List

variable {c : SimpleEnv}

/-! ## Lines of a text -/

theorem splitLines_ne_nil (text : Text) : splitLines text ≠ [] := by
  cases text with
  | nil => exact cons_ne_nil _ _
  | cons ch rest =>
    rw [splitLines]
    split
    · exact cons_ne_nil _ _
    · split <;> exact cons_ne_nil _ _

/-- A line end parts the lines in front of it from those behind. -/
theorem splitLines_append (front back : Text) : splitLines (front ++ '\n' :: back) = splitLines front ++ splitLines back := by
  induction front with
  | nil => rfl
  | cons ch rest ih =>
    rw [cons_append, splitLines, splitLines]
    split
    · rw [ih, cons_append]
    · rw [ih]
      cases hlines : splitLines rest with
      | nil => exact absurd hlines (splitLines_ne_nil rest)
      | cons line lines => rfl

variable {line : Text}

theorem splitLines_line (h : '\n' ∉ line) : splitLines line = [line] := by
  induction line with
  | nil => rfl
  | cons ch rest ih =>
    rw [mem_cons, not_or] at h
    rw [splitLines, if_neg (Ne.symm h.1), ih h.2]

variable {text : Text}

theorem mem_splitLines (h : line ∈ splitLines text) : '\n' ∉ line := by
  induction text generalizing line with
  | nil =>
    rw [mem_singleton.1 h]
    exact not_mem_nil
  | cons ch rest ih =>
    rw [splitLines] at h
    split at h
    · rcases mem_cons.1 h with rfl | h
      · exact not_mem_nil
      · exact ih h
    · next hch =>
      split at h
      · rw [mem_singleton.1 h, mem_singleton]
        exact Ne.symm hch
      · next first lines hrest =>
        have hfirst : '\n' ∉ first := ih (by rw [hrest]; exact mem_cons_self)
        rcases mem_cons.1 h with rfl | h
        · rw [mem_cons, not_or]
          exact ⟨Ne.symm hch, hfirst⟩
        · exact ih (by rw [hrest]; exact mem_cons_of_mem _ h)

/-- The lines of a text that are not empty. -/
def shownLines (text : Text) : List Text := (splitLines text).filter (· ≠ [])

theorem shownLines_line (h : '\n' ∉ line) (hne : line ≠ []) (rest : Text) : shownLines (line ++ '\n' :: rest) = line :: shownLines rest := by
  rw [shownLines, splitLines_append, splitLines_line h, filter_append, shownLines, filter_cons_of_pos (by simpa using hne)]
  rfl

/-- A text of whole lines. -/
def Whole (text : Text) : Prop := text = [] ∨ ∃ front, text = front ++ ['\n']

theorem shownLines_whole (h : Whole text) (rest : Text) : shownLines (text ++ rest) = shownLines text ++ shownLines rest := by
  rcases h with rfl | ⟨front, rfl⟩
  · rfl
  · have hsplit (back : Text) : shownLines (front ++ '\n' :: back) = shownLines front ++ shownLines back := by
      rw [shownLines, splitLines_append, filter_append, shownLines, shownLines]
    rw [append_assoc, singleton_append, hsplit, hsplit]
    have hnone : shownLines [] = [] := rfl
    rw [hnone, append_nil]

theorem whole_append {front back : Text} (hfront : Whole front) (hback : Whole back) : Whole (front ++ back) := by
  rcases hback with rfl | ⟨text, rfl⟩
  · rw [append_nil]
    exact hfront
  · exact .inr ⟨front ++ text, (append_assoc _ _ _).symm⟩

theorem whole_flatMap {α : Type} {f : α → Text} {xs : List α} (h : ∀ x ∈ xs, Whole (f x)) : Whole (xs.flatMap f) := by
  induction xs with
  | nil => exact .inl rfl
  | cons x xs ih =>
    rw [flatMap_cons]
    exact whole_append (h x mem_cons_self) (ih fun y hy => h y (mem_cons_of_mem _ hy))

theorem shownLines_flatMap {α : Type} {f : α → Text} {xs : List α} (h : ∀ x ∈ xs, Whole (f x)) :
    shownLines (xs.flatMap f) = xs.flatMap fun x => shownLines (f x) := by
  induction xs with
  | nil => rfl
  | cons x xs ih =>
    rw [flatMap_cons, flatMap_cons, shownLines_whole (h x mem_cons_self), ih fun y hy => h y (mem_cons_of_mem _ hy)]

/-! ## Lines of a rule -/

/-- The lines that a rule shows. -/
def ruleLines (rule : RouteRule) : List Text := shownLines rule.simpleText

theorem whole_line (word value : Text) : Whole (word ++ ':' :: value ++ ['\n']) := .inr ⟨_, rfl⟩

theorem whole_simpleText (rule : RouteRule) : Whole rule.simpleText :=
  whole_flatMap fun _ _ => whole_flatMap fun _ _ => whole_line _ _

theorem ruleLines_eq (rule : RouteRule) : ruleLines rule = simpleLists.flatMap fun list =>
      (rule.lists list.2).flatMap fun value => shownLines (list.1 ++ ':' :: value ++ ['\n']) := by
  rw [ruleLines, RouteRule.simpleText, shownLines_flatMap fun _ _ => whole_flatMap fun _ _ => whole_line _ _]
  congr 1
  funext list
  exact shownLines_flatMap fun _ _ => whole_line _ _

/-- A text that begins with a character shows a line. -/
theorem shownLines_ne_nil {ch : Char} (h : ch ≠ '\n') (rest : Text) : shownLines (ch :: rest) ≠ [] := by
  obtain ⟨line, lines, hlines⟩ := exists_cons_of_ne_nil (splitLines_ne_nil rest)
  rw [shownLines, splitLines, if_neg h, hlines, filter_cons_of_pos (by simp)]
  exact cons_ne_nil _ _

/-- The words are words: not empty, no colon in them, no line end. -/
theorem words_plain : ∀ list ∈ simpleLists, list.1 ≠ [] ∧ ':' ∉ list.1 ∧ '\n' ∉ list.1 := by
  decide

/-- A value shows a line at least. -/
theorem line_shown {list : Text × ListAttr} (hlist : list ∈ simpleLists) (value : Text) : shownLines (list.1 ++ ':' :: value ++ ['\n']) ≠ [] := by
  obtain ⟨hne, -, hline⟩ := words_plain list hlist
  obtain ⟨ch, rest, hword⟩ := exists_cons_of_ne_nil hne
  rw [hword, mem_cons, not_or] at hline
  rw [hword]
  exact shownLines_ne_nil (Ne.symm hline.1) _

/-- The line of a value. -/
def valueLine (a : ListAttr) (value : Text) : Text :=
  match simpleLists.find? fun list => list.2 = a with
  | some list => list.1 ++ ':' :: value
  | none => []

theorem valueLine_eq {list : Text × ListAttr} (h : list ∈ simpleLists) (value : Text) : valueLine list.2 value = list.1 ++ ':' :: value := by
  have hfind : ∀ list ∈ simpleLists, (simpleLists.find? fun other => other.2 = list.2) = some list := by decide
  rw [valueLine, hfind list h]

/-- A line says its list and its value. -/
theorem valueLine_inj {first second : Text × ListAttr} (hfirst : first ∈ simpleLists) (hsecond : second ∈ simpleLists)
    {value other : Text} (h : valueLine first.2 value = valueLine second.2 other) : first = second ∧ value = other := by
  rw [valueLine_eq hfirst, valueLine_eq hsecond] at h
  have hword {list : Text × ListAttr} (hlist : list ∈ simpleLists) (value : Text) : (list.1 ++ ':' :: value).takeWhile (· != ':') = list.1 := by
    rw [takeWhile_append_of_pos, takeWhile_cons_of_neg (by decide), append_nil]
    intro ch hch
    rw [bne_iff_ne]
    rintro rfl
    exact (words_plain list hlist).2.1 hch
  have hwords : first.1 = second.1 := by rw [← hword hfirst value, h, hword hsecond other]
  have hlists : first = second := by
    have hinj : ∀ first ∈ simpleLists, ∀ second ∈ simpleLists, first.1 = second.1 → first = second := by decide
    exact hinj first hfirst second hsecond hwords
  rw [hlists] at h
  exact ⟨hlists, (List.cons.inj (append_cancel_left h)).2⟩

/-- The lists of a rule hold whole lines. -/
def PlainRule (rule : RouteRule) : Prop := ∀ a, ∀ value ∈ rule.lists a, '\n' ∉ value

/-- Such a rule shows a line for each value. -/
theorem ruleLines_plain {rule : RouteRule} (h : PlainRule rule) :
    ruleLines rule = simpleLists.flatMap fun list => (rule.lists list.2).map (valueLine list.2) := by
  rw [ruleLines_eq]
  apply flatMap_congr
  intro list hlist
  have hline : ∀ value ∈ rule.lists list.2, shownLines (list.1 ++ ':' :: value ++ ['\n']) = [valueLine list.2 value] := by
    intro value hvalue
    obtain ⟨hne, -, hword⟩ := words_plain list hlist
    have hplain : '\n' ∉ list.1 ++ ':' :: value := by
      rw [mem_append, mem_cons, not_or, not_or]
      exact ⟨hword, by decide, h list.2 value hvalue⟩
    rw [shownLines_line hplain (append_ne_nil_of_left_ne_nil hne _), valueLine_eq hlist]
    rfl
  rw [flatMap_congr hline, map_eq_flatMap]

/-! ## Resetting -/

section Reset

variable {rules : List RouteRule} {action : SimpleAction} {type : RuleType}

/-- Of each type there is a clean rule. -/
theorem newSimpleRule_clean (h : type ∈ simpleTypes action) :
    ∃ clean, NewSimpleRule type = some clean ∧ clean.type = type ∧ ∀ a, clean.lists a = [] := by
  cases action <;>
    · simp only [simpleTypes, mem_cons, not_mem_nil, or_false] at h
      rcases h with rfl | rfl | rfl <;> exact ⟨_, rfl, rfl, fun _ => rfl⟩

theorem reset_clean {rule : RouteRule} (h : rule.type ∈ simpleTypes action) :
    (reset_simple_rule rule).type = rule.type ∧ ∀ a, (reset_simple_rule rule).lists a = [] := by
  obtain ⟨clean, hnew, htype, hlists⟩ := newSimpleRule_clean h
  rw [reset_simple_rule, hnew]
  exact ⟨htype, hlists⟩

/-- The rules of other types stay. -/
theorem ResetSimpleRule_other (h : type ∈ simpleTypes action) {q : RouteRule → Bool}
    (hq : ∀ rule, rule.type = type → q rule = false) : (ResetSimpleRule rules type).filter q = rules.filter q := by
  rw [ResetSimpleRule]
  split
  · apply updateFirst_other
    intro rule hrule
    have hown : rule.type = type := of_decide_eq_true hrule
    have hreset := (reset_clean  (hown ▸ h)).1
    exact ⟨hq rule hown, hq _ (hreset.trans hown)⟩
  · obtain ⟨clean, hnew, htype, -⟩ := newSimpleRule_clean h
    rw [hnew, Option.toList_some, filter_append, filter_singleton, hq clean htype]
    exact append_nil _

/-- Of its own the first one is clean, and the others stay. -/
theorem ResetSimpleRule_own (h : type ∈ simpleTypes action) : ∃ clean, clean.type = type ∧ (∀ a, clean.lists a = []) ∧
    (ResetSimpleRule rules type).filter (·.type = type) = clean :: (rules.filter (·.type = type)).tail := by
  rw [ResetSimpleRule]
  split
  · next hany =>
    have hkeep : ∀ rule : RouteRule, decide (rule.type = type) = true → decide ((reset_simple_rule rule).type = type) = true := by
      intro rule hrule
      have hown : rule.type = type := of_decide_eq_true hrule
      exact decide_eq_true ((reset_clean  (hown ▸ h)).1.trans hown)
    rw [updateFirst_own hkeep]
    obtain ⟨rule, hmem, hrule⟩ := any_eq_true.1 hany
    obtain ⟨first, rest, hrules⟩ := exists_cons_of_ne_nil (ne_nil_of_mem (mem_filter.2 ⟨hmem, hrule⟩) : rules.filter (·.type = type) ≠ [])
    have hfirst : first.type = type := by
      have hin : first ∈ rules.filter (·.type = type) := by rw [hrules]; exact mem_cons_self
      exact of_decide_eq_true (mem_filter.1 hin).2
    obtain ⟨htype, hlists⟩ := reset_clean  (hfirst ▸ h)
    refine ⟨reset_simple_rule first, htype.trans hfirst, hlists, ?_⟩
    rw [hrules]
    rfl
  · next hany =>
    obtain ⟨clean, hnew, htype, hlists⟩ := newSimpleRule_clean h
    have hnone : rules.filter (·.type = type) = [] := by
      rw [filter_eq_nil_iff]
      intro rule hmem hrule
      exact hany (any_eq_true.2 ⟨rule, hmem, hrule⟩)
    refine ⟨clean, htype, hlists, ?_⟩
    rw [hnew, Option.toList_some, filter_append, hnone, filter_singleton, decide_eq_true htype]
    rfl

end Reset

/-! ## Filling -/

/-- Rules whose first ones of the action's types hold some values and no others. -/
structure Filled (action : SimpleAction) (rules : List RouteRule) (entries : List (ListAttr × Text))
    (now : List RouteRule) : Prop where
  own : ∀ type ∈ simpleTypes action, ∃ rule, rule.type = type ∧ now.filter (·.type = type) = rule :: (rules.filter (·.type = type)).tail ∧
    (∀ a value, value ∈ rule.lists a ↔ lineType a action = type ∧ (a, value) ∈ entries) ∧
    ∀ a, (rule.lists a).Nodup
  others : ∀ q : RouteRule → Bool, (∀ rule, rule.type ∈ simpleTypes action → q rule = false) → now.filter q = rules.filter q

section Fill

variable {rules now : List RouteRule} {action : SimpleAction} {entries : List (ListAttr × Text)}

/-- After the reset nothing stands in them. -/
theorem filled_reset : Filled action rules [] ((simpleTypes action).foldl ResetSimpleRule rules) := by
  constructor
  · intro type htype
    have hrun : ∀ types : List RuleType, types.Nodup → (∀ t ∈ types, t ∈ simpleTypes action) →
        ∀ now : List RouteRule, type ∈ types → ∃ clean : RouteRule, clean.type = type ∧ (∀ a, clean.lists a = []) ∧
          (types.foldl ResetSimpleRule now).filter (·.type = type) = clean :: (now.filter (·.type = type)).tail := by
      intro types hnodup hsimple
      have hskip : ∀ types : List RuleType, (∀ t ∈ types, t ∈ simpleTypes action) → type ∉ types → ∀ now : List RouteRule,
            (types.foldl ResetSimpleRule now).filter (·.type = type) = now.filter (·.type = type) := by
        intro types
        induction types with
        | nil => exact fun _ _ _ => rfl
        | cons t types ih =>
          intro hsimple hnot now
          rw [mem_cons, not_or] at hnot
          rw [foldl_cons, ih (fun s hs => hsimple s (mem_cons_of_mem _ hs)) hnot.2]
          apply ResetSimpleRule_other (hsimple t mem_cons_self)
          rintro rule rfl
          exact decide_eq_false (Ne.symm hnot.1)
      induction types with
      | nil => exact nofun
      | cons t types ih =>
        intro now hmem
        rw [nodup_cons] at hnodup
        have hrest : ∀ s ∈ types, s ∈ simpleTypes action := fun s hs => hsimple s (mem_cons_of_mem _ hs)
        rw [foldl_cons]
        rcases mem_cons.1 hmem with rfl | hmem
        · rw [hskip types hrest hnodup.1]
          exact ResetSimpleRule_own (hsimple type mem_cons_self)
        · obtain ⟨clean, hclean⟩ := ih hnodup.2 hrest (ResetSimpleRule now t) hmem
          rw [ResetSimpleRule_other (hsimple t mem_cons_self)] at hclean
          · exact ⟨clean, hclean⟩
          · rintro rule hrule
            exact decide_eq_false fun htype => hnodup.1 (hrule ▸ htype ▸ hmem)
    obtain ⟨clean, hclean, hlists, hfilter⟩ :=
      hrun (simpleTypes action) (simpleTypes_nodup action) (fun _ h => h) rules htype
    refine ⟨clean, hclean, hfilter, ?_, ?_⟩
    · intro a value
      rw [hlists a]
      simp only [not_mem_nil, and_false]
    · intro a
      rw [hlists a]
      exact nodup_nil
  · intro q hq
    have hrun : ∀ types : List RuleType, (∀ t ∈ types, t ∈ simpleTypes action) → ∀ now : List RouteRule,
        (types.foldl ResetSimpleRule now).filter q = now.filter q := by
      intro types
      induction types with
      | nil => exact fun _ _ => rfl
      | cons t types ih =>
        intro hsimple now
        rw [foldl_cons, ih fun s hs => hsimple s (mem_cons_of_mem _ hs)]
        apply ResetSimpleRule_other (hsimple t mem_cons_self)
        rintro rule rfl
        exact hq rule (hsimple _ mem_cons_self)
    exact hrun (simpleTypes action) (fun _ h => h) rules

/-- One more value in its list. -/
theorem filled_value (h : Filled action rules entries now) (a : ListAttr) (value : Text) : Filled action rules (entries ++ [(a, value)])
    (updateFirst (·.type = lineType a action) (·.addValue a value) now) := by
  constructor
  · intro type htype
    obtain ⟨rule, hrule, hfilter, hvalues, hnodup⟩ := h.own type htype
    by_cases hown : lineType a action = type
    · refine ⟨rule.addValue a value, addValue_type.trans hrule, ?_, ?_, fun b => addValue_nodup (hnodup b)⟩
      · rw [hown, updateFirst_own, hfilter]
        · rfl
        · intro other hother
          rw [addValue_type]
          exact hother
      · intro b other
        rw [mem_addValue, hvalues, mem_append, mem_singleton, Prod.mk.injEq]
        constructor
        · rintro (⟨htype, hmem⟩ | ⟨rfl, rfl⟩)
          · exact ⟨htype, .inl hmem⟩
          · exact ⟨hown, .inr ⟨rfl, rfl⟩⟩
        · rintro ⟨htype, hmem | hnew⟩
          · exact .inl ⟨htype, hmem⟩
          · exact .inr hnew
    · refine ⟨rule, hrule, ?_, ?_, hnodup⟩
      · rw [updateFirst_other, hfilter]
        intro other hother
        have hne : other.type ≠ type := fun htype => hown ((of_decide_eq_true hother).symm.trans htype)
        rw [addValue_type]
        exact ⟨decide_eq_false hne, decide_eq_false hne⟩
      · intro b other
        rw [hvalues, mem_append, mem_singleton, Prod.mk.injEq]
        constructor
        · rintro ⟨htype, hmem⟩
          exact ⟨htype, .inl hmem⟩
        · rintro ⟨htype, hmem | ⟨rfl, -⟩⟩
          · exact ⟨htype, hmem⟩
          · exact absurd htype hown
  · intro q hq
    rw [updateFirst_other, h.others q hq]
    intro other hother
    have hsimple : other.type ∈ simpleTypes action := (of_decide_eq_true hother) ▸ lineType_mem a action
    refine ⟨hq other hsimple, hq _ ?_⟩
    rw [addValue_type]
    exact hsimple

/-- What a line adds. -/
def lineEntries (c : SimpleEnv) (line : Text) : List (ListAttr × Text) := (simple_rule_values c (trimmed line)).toList

theorem filled_line (h : Filled action rules entries now) (haccepted : CheckSimpleRule c line = [])
    (label reasons : Text) (i : Nat) : ∃ next, updateLine c action label (reasons, now) (line, i) = (reasons, next) ∧
    Filled action rules (entries ++ lineEntries c line) next := by
  rw [updateLine, lineEntries]
  have hcheck : CheckSimpleRule c (trimmed line) = [] := by
    rw [CheckSimpleRule, trimmed_trimmed]
    exact haccepted
  split
  · next hblank =>
    have hnone : simple_rule_values c [] = none := rfl
    rw [hblank, hnone, Option.toList_none, append_nil]
    exact ⟨now, rfl, h⟩
  · next hne =>
    obtain ⟨a, value, hvalues⟩ := accepted_values (trimmed_trimmed line) hne hcheck
    have htype := type_of_values (trimmed_trimmed line) hvalues action
    have hsimple := lineType_mem a action
    obtain ⟨rule, -, hfilter, -, -⟩ := h.own _ hsimple
    have hfind : now.find? (fun rule => rule.type = lineType a action) = some rule := by
      rw [← head?_filter, hfilter]
      rfl
    refine ⟨updateFirst (·.type = lineType a action) (·.addValue a value) now, ?_, ?_⟩
    · rw [htype, if_neg (simpleTypes_ne_custom hsimple).1, hfind]
      simp only [add_of_values hcheck hvalues]
      exact congrArg (Prod.mk reasons) (updateFirst_const (·.addValue a value) hfind)
    · rw [hvalues, Option.toList_some]
      exact filled_value h a value

theorem filled_lines {lines : List Text} (h : Filled action rules entries now)
    (haccepted : ∀ line ∈ lines, CheckSimpleRule c line = []) (label reasons : Text) (i : Nat) :
    ∃ next, (lines.zipIdx i).foldl (updateLine c action label) (reasons, now) = (reasons, next) ∧
    Filled action rules (entries ++ lines.flatMap (lineEntries c)) next := by
  induction lines generalizing entries now i with
  | nil =>
    rw [flatMap_nil, append_nil]
    exact ⟨now, rfl, h⟩
  | cons line lines ih =>
    obtain ⟨next, hline, hnext⟩ := filled_line h (haccepted line mem_cons_self) label reasons i
    rw [zipIdx_cons, foldl_cons, hline, flatMap_cons, ← append_assoc]
    exact ih hnext (fun other hother => haccepted other (mem_cons_of_mem _ hother)) (i + 1)

end Fill

/-! ## Showing -/

/-- Rules of some types, type by type. -/
theorem filter_types_perm {types : List RuleType} (h : types.Nodup) (rules : List RouteRule) :
    (rules.filter fun rule => types.contains rule.type).Perm (types.flatMap fun type => rules.filter (·.type = type)) := by
  induction types with
  | nil =>
    have hnone : rules.filter (fun rule => ([] : List RuleType).contains rule.type) = [] := by
      rw [filter_eq_nil_iff]
      intro rule _
      exact Bool.false_ne_true
    rw [hnone]
    exact List.Perm.refl _
  | cons type types ih =>
    rw [nodup_cons] at h
    rw [flatMap_cons]
    refine (filter_append_perm (·.type = type) _).symm.trans (List.Perm.append ?_ ?_)
    · rw [filter_filter]
      apply List.Perm.of_eq
      apply filter_congr
      intro rule _
      rw [contains_cons]
      by_cases htype : rule.type = type
      · simp only [htype, decide_true, beq_self_eq_true, Bool.true_or, Bool.and_true]
      · simp only [htype, decide_false, Bool.false_and]
    · rw [filter_filter]
      refine (List.Perm.of_eq (filter_congr ?_)).trans (ih h.2)
      intro rule _
      rw [contains_cons]
      by_cases htype : rule.type = type
      · have hnot : types.contains type = false := by
          rw [Bool.eq_false_iff, ne_eq, contains_iff_mem]
          exact h.1
        simp only [htype, hnot, decide_true, Bool.not_true, Bool.false_and]
      · have hbeq : (rule.type == type) = false := beq_eq_false_iff_ne.2 htype
        simp only [htype, hbeq, decide_false, Bool.not_false, Bool.true_and, Bool.false_or]

section Shown

variable {rules now : List RouteRule} {action : SimpleAction} {entries : List (ListAttr × Text)}

/-- The lines of an action are those of its rules. -/
theorem shownLines_GetSimpleRules (rules : List RouteRule) (action : SimpleAction) : shownLines (GetSimpleRules rules action) =
    (rules.filter fun rule => (simpleTypes action).contains rule.type).flatMap ruleLines := by
  rw [GetSimpleRules, shownLines_flatMap]
  · induction rules with
    | nil => rfl
    | cons rule rules ih =>
      rw [flatMap_cons, ih]
      by_cases htype : (simpleTypes action).contains rule.type = true
      · rw [if_pos htype, filter_cons, if_pos htype, flatMap_cons]
        rfl
      · rw [if_neg htype, filter_cons, if_neg htype]
        rfl
  · intro rule _
    split
    · exact whole_simpleText rule
    · exact .inl rfl

variable {rule : RouteRule}

/-- A simple rule that is not empty shows a line. -/
theorem ruleLines_ne_nil (htype : rule.type ∈ simpleTypes action) (h : rule.isEmpty c = false) : ruleLines rule ≠ [] := by
  have hvalue : ∃ list ∈ simpleLists, ∃ value, value ∈ rule.lists list.2 := by
    by_contra hnone
    push Not at hnone
    have hempty : ∀ list ∈ simpleLists, rule.lists list.2 = [] :=
      fun list hlist => eq_nil_iff_forall_not_mem.2 (hnone list hlist)
    obtain ⟨hcustom, hendpoint⟩ := simpleTypes_ne_custom htype
    rw [RouteRule.isEmpty, if_pos hcustom, if_neg hendpoint] at h
    split at h
    · have hall : ∀ a ∈ addressLists, ∃ list ∈ simpleLists, list.2 = a := by decide
      rw [all_eq_false] at h
      obtain ⟨a, ha, hset⟩ := h
      obtain ⟨list, hlist, rfl⟩ := hall a ha
      exact hset (List.isEmpty_iff.2 (hempty list hlist))
    · have hname := hempty ("processName".toList, .process_name) (by decide)
      have hpath := hempty ("processPath".toList, .process_path) (by decide)
      rw [hname, hpath] at h
      cases h
  obtain ⟨list, hlist, value, hmem⟩ := hvalue
  rw [ruleLines_eq]
  intro hnone
  rw [flatMap_eq_nil_iff] at hnone
  exact line_shown hlist value (flatMap_eq_nil_iff.1 (hnone list hlist) value hmem)

/-- A rule with the values of its type and no others. -/
structure Holds (action : SimpleAction) (entries : List (ListAttr × Text)) (rule : RouteRule) : Prop where
  values : ∀ a value, value ∈ rule.lists a ↔ lineType a action = rule.type ∧ (a, value) ∈ entries
  nodup : ∀ a, (rule.lists a).Nodup

/-- The values of a text: in lists that have a word, and each in a line of its own. -/
def PlainEntries (entries : List (ListAttr × Text)) : Prop := ∀ entry ∈ entries, '\n' ∉ entry.2 ∧ ∃ list ∈ simpleLists, list.2 = entry.1

section

variable (h : Holds action entries rule) (hplain : PlainEntries entries)

include h hplain

theorem Holds.plain : PlainRule rule :=
  fun a value hvalue => (hplain _ ((h.values a value).1 hvalue).2).1

/-- Its lines are those of these values. -/
theorem Holds.mem_lines : line ∈ ruleLines rule ↔ ∃ entry ∈ entries, lineType entry.1 action = rule.type ∧ line = valueLine entry.1 entry.2 := by
  rw [ruleLines_plain (h.plain hplain)]
  simp only [mem_flatMap, mem_map]
  constructor
  · rintro ⟨list, -, value, hvalue, rfl⟩
    obtain ⟨htype, hentry⟩ := (h.values _ _).1 hvalue
    exact ⟨(list.2, value), hentry, htype, rfl⟩
  · rintro ⟨⟨a, value⟩, hentry, htype, rfl⟩
    obtain ⟨-, list, hlist, rfl⟩ := hplain _ hentry
    exact ⟨list, hlist, value, (h.values _ _).2 ⟨htype, hentry⟩, rfl⟩

theorem Holds.lines_nodup : (ruleLines rule).Nodup := by
  rw [ruleLines_plain (h.plain hplain), nodup_flatMap]
  have hlists : simpleLists.Nodup := by decide
  constructor
  · intro list hlist
    refine (nodup_map_iff_inj_on (h.nodup list.2)).2 ?_
    intro value _ other _ heq
    exact (valueLine_inj hlist hlist heq).2
  · refine hlists.imp_of_mem ?_
    intro first second hfirst hsecond hne line hin hout
    obtain ⟨value, -, rfl⟩ := mem_map.1 hin
    obtain ⟨other, -, heq⟩ := mem_map.1 hout
    exact hne (valueLine_inj hsecond hfirst heq).1.symm

/-- Of a rule that is left empty nothing was shown. -/
theorem Holds.lines_of_empty (htype : rule.type ∈ simpleTypes action) (hempty : rule.isEmpty c = true) : ruleLines rule = [] := by
  rw [eq_nil_iff_forall_not_mem]
  intro line hline
  obtain ⟨⟨a, value⟩, hentry, hown, -⟩ := (h.mem_lines hplain).1 hline
  have hvalue := (h.values a value).2 ⟨hown, hentry⟩
  obtain ⟨hcustom, hendpoint⟩ := simpleTypes_ne_custom htype
  rw [RouteRule.isEmpty, if_pos hcustom, if_neg hendpoint, ← hown, isAddressType_lineType] at hempty
  split at hempty
  · next haddress =>
    have hnone := List.isEmpty_iff.1 (all_eq_true.1 hempty a (contains_iff_mem.1 haddress))
    rw [hnone] at hvalue
    exact not_mem_nil hvalue
  · next haddress =>
    obtain ⟨-, list, hlist, hword⟩ := hplain _ hentry
    rw [Bool.and_eq_true, List.isEmpty_iff, List.isEmpty_iff] at hempty
    have hkinds : ∀ list ∈ simpleLists, addressLists.contains list.2 = true ∨ list.2 = .process_name ∨ list.2 = .process_path := by decide
    have ha : list.2 = a := hword
    rcases hkinds list hlist with hin | hname | hpath
    · exact haddress (ha ▸ hin)
    · rw [← ha, hname, hempty.1] at hvalue
      exact not_mem_nil hvalue
    · rw [← ha, hpath, hempty.2] at hvalue
      exact not_mem_nil hvalue

end

end Shown

/-! ## The rules that are kept -/

section Kept

variable {rule : RouteRule}

@[simp] theorem afterEmpty_type (rule : RouteRule) : rule.afterEmpty.type = rule.type := by
  rw [RouteRule.afterEmpty, RouteRule.afterJson]
  split
  · split <;> rfl
  · rfl

theorem afterEmpty_simple (h : rule.type ≠ .custom) : rule.afterEmpty = rule := if_neg h

theorem afterEmpty_custom (h : rule.type = .custom) :
    rule.afterEmpty = { rule with texts := Function.update rule.texts .action rule.emittedAction } := by
  rw [RouteRule.afterEmpty, if_pos h, RouteRule.afterJson, if_neg]
  rw [h]
  decide

/-- What is emitted once is emitted again. -/
theorem emittedAction_again : ({ rule with
    texts := Function.update rule.texts .action rule.emittedAction } : RouteRule).emittedAction =
    rule.emittedAction := by
  rw [RouteRule.emittedAction]
  simp only [Function.update_self]
  split
  · next hroute =>
    rw [RouteRule.emittedAction] at hroute
    split at hroute
    · next hown =>
      rw [RouteRule.emittedAction, if_pos hown]
    · next hother => exact absurd hroute hother
  · rfl

/-- The JSON of a rule is asked for a second time with the same answer. -/
theorem get_rule_json_again (v : Validation) (ruleSetName : Text → Text) (tag : Text) (h : rule.type = .custom) :
    rule.afterEmpty.get_rule_json v ruleSetName tag = rule.get_rule_json v ruleSetName tag := by
  have hcondition : ∀ attr ∈ attributes.filter is_match_attribute,
      rule.afterEmpty.conditionField ruleSetName attr = rule.conditionField ruleSetName attr := by
    rw [afterEmpty_custom h]
    intro attr hattr
    cases attr with
    | text a => cases a <;> first | rfl | exact absurd hattr (by decide)
    | list a | flag a | outbound => rfl
  have haction (outbound : Lib.Json.Json) : rule.afterEmpty.actionField v outbound = rule.actionField v outbound := by
    rw [afterEmpty_custom h]
    funext attr
    cases attr with
    | text a =>
      cases a <;> simp only [RouteRule.actionField, RouteRule.routes, RouteRule.emittedMethod, emittedAction_again] <;> rfl
    | flag a => cases a <;> simp only [RouteRule.actionField, RouteRule.routes, emittedAction_again] <;> rfl
    | outbound => simp only [RouteRule.actionField, emittedAction_again]
    | list a => rfl
  have hid : rule.afterEmpty.outboundID = rule.outboundID := by rw [afterEmpty_custom h]
  rw [RouteRule.get_rule_json, RouteRule.get_rule_json, afterEmpty_type, RouteRule.conditionFields,
    RouteRule.conditionFields, fieldsOf, fieldsOf, filterMap_congr fun attr hattr => by rw [hcondition attr hattr],
    RouteRule.actionFields, RouteRule.actionFields, haction, hid]

theorem isEmpty_again (rule : RouteRule) : rule.afterEmpty.isEmpty c = rule.isEmpty c := by
  by_cases hcustom : rule.type = .custom
  · have haction : rule.afterEmpty.afterJson.texts .action = rule.afterJson.texts .action := by
      have hendpoint : rule.type ≠ .endpointPreferredBy := by
        rw [hcustom]
        decide
      rw [RouteRule.afterJson, RouteRule.afterJson, afterEmpty_type, if_neg hendpoint, if_neg hendpoint, afterEmpty_custom hcustom]
      simp only [Function.update_self, emittedAction_again]
    rw [RouteRule.isEmpty, RouteRule.isEmpty, afterEmpty_type, if_neg (not_not.2 hcustom),
      if_neg (not_not.2 hcustom), get_rule_json_again _ _ _ hcustom]
    simp only [haction]
  · rw [afterEmpty_simple hcustom]

/-- A rule keeps its action, unless it routes to what is no outbound of the core. -/
theorem afterEmpty_eq_iff : rule.afterEmpty = rule ↔ (rule.type = .custom → rule.texts .action = "route".toList →
    rule.outboundID ≠ blockID ∧ rule.outboundID ≠ dnsOutID) := by
  by_cases hcustom : rule.type = .custom
  swap
  · exact iff_of_true (afterEmpty_simple hcustom) fun h => absurd h hcustom
  have hsame : rule.afterEmpty = rule ↔ rule.emittedAction = rule.texts .action := by
    rw [afterEmpty_custom hcustom]
    constructor
    · intro h
      have htexts := congrFun (congrArg RouteRule.texts h) TextAttr.action
      simpa only [Function.update_self] using htexts
    · intro h
      rw [h, Function.update_eq_self]
  rw [hsame, RouteRule.emittedAction, blockID, dnsOutID]
  split
  · next hroute =>
    rw [hroute]
    split
    · next hblock => exact iff_of_false (by decide) fun h => (h hcustom rfl).1 hblock
    split
    · next hdns => exact iff_of_false (by decide) fun h => (h hcustom rfl).2 hdns
    · next hblock hdns => exact iff_of_true rfl fun _ _ => ⟨hblock, hdns⟩
  · next hother => exact iff_of_true rfl fun _ h => absurd h hother

/-- Of one simple type the rules that are kept are those that are not empty. -/
theorem filterEmpty_simple {action : SimpleAction} {type : RuleType} (htype : type ∈ simpleTypes action)
    (rules : List RouteRule) : (FilterEmptyRules c rules).filter (·.type = type) =
    (rules.filter (·.type = type)).filter fun rule => !rule.isEmpty c := by
  rw [FilterEmptyRules, filter_map, filter_filter, filter_filter]
  have hkept : ((fun rule : RouteRule => decide (rule.type = type)) ∘ RouteRule.afterEmpty) = fun rule => decide (rule.type = type) := by
    funext rule
    rw [Function.comp_apply, afterEmpty_type]
  rw [hkept, filter_congr fun rule _ => Bool.and_comm (decide (rule.type = type)) (!rule.isEmpty c)]
  refine (map_congr_left fun rule hrule => ?_).trans (map_id _)
  have hown := (Bool.and_eq_true_iff.1 (mem_filter.1 hrule).2).2
  refine afterEmpty_simple fun hcustom => (simpleTypes_ne_custom htype).1 ?_
  rw [← of_decide_eq_true hown, hcustom]

end Kept

/-! ## The list after the text -/

section Replaced

variable {rules : List RouteRule} {action : SimpleAction} {content label : Text}

/-- The values of a text. -/
def textEntries (c : SimpleEnv) (content : Text) : List (ListAttr × Text) := (splitLines content).flatMap (lineEntries c)

/-- The lines of a text in normal form. -/
def normalLines (c : SimpleEnv) (content : Text) : List Text :=
  (textEntries c content).map fun entry => valueLine entry.1 entry.2

theorem mem_trimmed {ch : Char} (h : ch ∈ trimmed text) : ch ∈ text :=
  (dropWhile_suffix isSpace).subset (( rdropWhile_prefix isSpace _).subset h)

theorem plain_textEntries (c : SimpleEnv) (content : Text) : PlainEntries (textEntries c content) := by
  rintro ⟨a, value⟩ hentry
  obtain ⟨line, hline, hin⟩ := mem_flatMap.1 hentry
  rw [lineEntries, Option.mem_toList] at hin
  obtain ⟨front, rest, hparts, -, hlookup, rfl⟩ := values_parts hin
  refine ⟨?_, (front, a), mem_simpleLists hlookup, rfl⟩
  have hrest : '\n' ∉ rest := by
    intro hmem
    rw [lineParts] at hparts
    split at hparts
    · obtain ⟨-, rfl⟩ := Prod.mk.inj (Option.some.inj hparts)
      have htail := (drop_suffix 1 _).subset (mem_trimmed hmem)
      exact mem_splitLines hline (mem_trimmed ((dropWhile_suffix _).subset htail))
    · cases hparts
  rw [storedValue]
  split
  · exact c.lower_line rest hrest
  · exact hrest

/-- The rules that a text is not about and that are not empty. -/
def otherRules (c : SimpleEnv) (action : SimpleAction) (rules : List RouteRule) : List RouteRule :=
  rules.filter fun rule => !(simpleTypes action).contains rule.type && !rule.isEmpty c

/-- A text in place of an action's lines: these are shown afterwards, each once, and of the other rules those that
are not empty stay as they are. -/
structure Replaced (c : SimpleEnv) (rules : List RouteRule) (content : Text) (action : SimpleAction)
    (after : List RouteRule) : Prop where
  once : (shownLines (GetSimpleRules after action)).Nodup
  lines : ∀ line, line ∈ shownLines (GetSimpleRules after action) ↔ line ∈ normalLines c content
  others : otherRules c action after = otherRules c action rules

/-- Every line is accepted when no reason is given. -/
theorem accepted_of_no_reason (h : (UpdateSimpleRules c rules content action label).1 = []) :
    ∀ line ∈ splitLines content, CheckSimpleRule c line = [] := by
  have hline (state : Text × List RouteRule) (item : Text × Nat) : ∃ more, (updateLine c action label state item).1 = state.1 ++ more ∧
        (more = [] → CheckSimpleRule c item.1 = []) := by
    have hrejected (reason : Text) : rejectedLine action label (trimmed item.1) reason item.2 = [] → CheckSimpleRule c item.1 = [] :=
      fun hnone => absurd (append_eq_nil_iff.1 hnone).2 (cons_ne_nil _ _)
    rw [updateLine]
    split
    · next hblank =>
      refine ⟨[], (append_nil _).symm, fun _ => ?_⟩
      rw [CheckSimpleRule, if_pos hblank]
    dsimp only
    split
    · exact ⟨_, rfl, hrejected _⟩
    split
    · refine ⟨_, by rw [append_assoc, append_assoc], fun hnone => ?_⟩
      exact absurd (append_eq_nil_iff.1 hnone).1 (by decide)
    split
    · exact ⟨_, rfl, hrejected _⟩
    · next hadd =>
      refine ⟨[], (append_nil _).symm, fun _ => ?_⟩
      rw [add_simple_rule] at hadd
      split at hadd
      · cases hadd
      · next hcheck =>
        rw [not_not, CheckSimpleRule, trimmed_trimmed] at hcheck
        exact hcheck
  have hlines (lines : List Text) (i : Nat) (state : Text × List RouteRule) :
      ∃ more, ((lines.zipIdx i).foldl (updateLine c action label) state).1 = state.1 ++ more ∧
        (more = [] → ∀ line ∈ lines, CheckSimpleRule c line = []) := by
    induction lines generalizing i state with
    | nil => exact ⟨[], (append_nil _).symm, by simp⟩
    | cons line lines ih =>
      obtain ⟨first, hfirst, hcheck⟩ := hline state (line, i)
      obtain ⟨rest, hrest, hchecks⟩ := ih (i + 1) (updateLine c action label state (line, i))
      refine ⟨first ++ rest, ?_, ?_⟩
      · rw [zipIdx_cons, foldl_cons, hrest, hfirst, append_assoc]
      · intro hnone
        rw [append_eq_nil_iff] at hnone
        intro other hother
        rcases mem_cons.1 hother with rfl | hother
        · exact hcheck hnone.1
        · exact hchecks hnone.2 other hother
  obtain ⟨more, hmore, hchecks⟩ := hlines (splitLines content) 0 ([], (simpleTypes action).foldl ResetSimpleRule rules)
  apply hchecks
  rw [← nil_append more, ← hmore]
  exact h

/-- What the text leaves: a rule of each type with its values, and behind it the rules that were there. -/
theorem update_spec (h : (UpdateSimpleRules c rules content action label).1 = []) :
    ∃ now, (UpdateSimpleRules c rules content action label).2 = FilterEmptyRules c now ∧ Filled action rules (textEntries c content) now := by
  obtain ⟨now, hrun, hfilled⟩ := filled_lines filled_reset (accepted_of_no_reason h) label [] 0
  refine ⟨now, ?_, hfilled⟩
  rw [UpdateSimpleRules, hrun]

/-- The lines shown afterwards: those of the values, and those of the rules behind. -/
theorem shown_perm {now : List RouteRule} (h : Filled action rules (textEntries c content) now) :
    ∃ lines : List Text, lines.Nodup ∧ (∀ line, line ∈ lines ↔ line ∈ normalLines c content) ∧
      (shownLines (GetSimpleRules (FilterEmptyRules c now) action)).Perm (lines ++ (simpleTypes action).flatMap fun type =>
          ((rules.filter (·.type = type)).tail.filter fun rule => !rule.isEmpty c).flatMap ruleLines) := by
  have hplain := plain_textEntries c content
  have hown : ∀ type, ∃ first : RouteRule, type ∈ simpleTypes action → first.type = type ∧
      now.filter (·.type = type) = first :: (rules.filter (·.type = type)).tail ∧
      Holds action (textEntries c content) first := by
    intro type
    by_cases htype : type ∈ simpleTypes action
    · obtain ⟨first, hfirst, hfilter, hvalues, hnodup⟩ := h.own type htype
      exact ⟨first, fun _ => ⟨hfirst, hfilter, ⟨by rw [hfirst]; exact hvalues, hnodup⟩⟩⟩
    · exact ⟨RouteRule.default, fun hin => absurd hin htype⟩
  choose first hfirst using hown
  refine ⟨(simpleTypes action).flatMap fun type => ruleLines (first type), ?_, ?_, ?_⟩
  · rw [nodup_flatMap]
    constructor
    · intro type htype
      exact (hfirst type htype).2.2.lines_nodup hplain
    · refine (simpleTypes_nodup action).imp_of_mem ?_
      intro type other htype hother hne line hin hout
      obtain ⟨htypeEq, -, hholds⟩ := hfirst type htype
      obtain ⟨hotherEq, -, hothers⟩ := hfirst other hother
      obtain ⟨entry, hentry, hown, hline⟩ := (hholds.mem_lines hplain).1 hin
      obtain ⟨entry', hentry', hown', hline'⟩ := (hothers.mem_lines hplain).1 hout
      obtain ⟨-, list, hlist, hword⟩ := hplain entry hentry
      obtain ⟨-, list', hlist', hword'⟩ := hplain entry' hentry'
      rw [hline, ← hword, ← hword'] at hline'
      have hsame := (valueLine_inj hlist hlist' hline').1
      rw [← hword, hsame, hword', hown', hotherEq, htypeEq] at hown
      exact hne hown.symm
  · intro line
    rw [mem_flatMap, normalLines, mem_map]
    constructor
    · rintro ⟨type, htype, hline⟩
      obtain ⟨entry, hentry, -, hshown⟩ := ((hfirst type htype).2.2.mem_lines hplain).1 hline
      exact ⟨entry, hentry, hshown.symm⟩
    · rintro ⟨entry, hentry, rfl⟩
      have htype := lineType_mem entry.1 action
      obtain ⟨hown, -, hholds⟩ := hfirst _ htype
      exact ⟨_, htype, (hholds.mem_lines hplain).2 ⟨entry, hentry, hown.symm, rfl⟩⟩
  · rw [shownLines_GetSimpleRules]
    refine ((filter_types_perm (simpleTypes_nodup action) _).flatMap_right ruleLines).trans ?_
    refine List.Perm.trans (List.Perm.of_eq ?_) (flatMap_append_perm _ _ _).symm
    rw [flatMap_assoc]
    apply flatMap_congr
    intro type htype
    obtain ⟨hown, hfilter, hholds⟩ := hfirst type htype
    rw [filterEmpty_simple htype, hfilter, filter_cons]
    split
    · rw [flatMap_cons]
    · next hempty =>
      rw [Bool.not_eq_true', Bool.not_eq_false] at hempty
      have hsimple : (first type).type ∈ simpleTypes action := by
        rw [hown]
        exact htype
      rw [hholds.lines_of_empty hplain hsimple hempty, nil_append]

/-- Behind a text the other rules are those that were there, as `isEmpty` leaves them. -/
theorem otherRules_kept {now : List RouteRule} (h : Filled action rules (textEntries c content) now) :
    otherRules c action (FilterEmptyRules c now) = (otherRules c action rules).map RouteRule.afterEmpty := by
  have hsame : ((fun rule : RouteRule => !(simpleTypes action).contains rule.type && !rule.isEmpty c) ∘
      RouteRule.afterEmpty) = fun rule => !(simpleTypes action).contains rule.type && !rule.isEmpty c := by
    funext rule
    rw [Function.comp_apply, afterEmpty_type, isEmpty_again]
  rw [otherRules, otherRules, FilterEmptyRules, filter_map, hsame, filter_filter, ← h.others]
  · congr 1
    apply filter_congr
    intro rule _
    rw [Bool.and_assoc, Bool.and_self]
  · intro rule htype
    rw [contains_iff_mem.2 htype]
    rfl

/-- A text is shown as it was given, and the other rules are as they were, just when no second rule of its types
holds anything and no other rule has an action that is emitted as another one. -/
theorem text_replaces_iff (haccepted : (UpdateSimpleRules c rules content action label).1 = []) :
    Replaced c rules content action (UpdateSimpleRules c rules content action label).2 ↔
    (∀ type ∈ simpleTypes action, ∀ rule ∈ (rules.filter (·.type = type)).tail, rule.isEmpty c = true) ∧
    ∀ rule ∈ rules, rule.type = .custom → rule.isEmpty c = false → rule.texts .action = "route".toList →
    rule.outboundID ≠ blockID ∧ rule.outboundID ≠ dnsOutID := by
  obtain ⟨now, hafter, hfilled⟩ := update_spec haccepted
  rw [hafter]
  obtain ⟨lines, hnodup, hlines, hperm⟩ := shown_perm hfilled
  have hothers : otherRules c action (FilterEmptyRules c now) = otherRules c action rules ↔
      ∀ rule ∈ rules, rule.type = .custom → rule.isEmpty c = false → rule.texts .action = "route".toList →
        rule.outboundID ≠ blockID ∧ rule.outboundID ≠ dnsOutID := by
    have hmap := map_inj_left (l := otherRules c action rules) (f := RouteRule.afterEmpty) (g := id)
    rw [map_id] at hmap
    simp only [otherRules_kept hfilled, hmap, id_eq, afterEmpty_eq_iff]
    constructor
    · intro hkept rule hrule hcustom hset
      refine hkept rule (mem_filter.2 ⟨hrule, ?_⟩) hcustom
      rw [hset, Bool.not_false, Bool.and_true, Bool.not_eq_true', Bool.eq_false_iff, ne_eq, contains_iff_mem]
      exact fun htype => (simpleTypes_ne_custom htype).1 hcustom
    · intro hkept rule hrule hcustom
      obtain ⟨hmem, hset⟩ := mem_filter.1 hrule
      exact hkept rule hmem hcustom (Bool.not_eq_true' _ ▸ (Bool.and_eq_true_iff.1 hset).2)
  constructor
  · intro hreplaced
    refine ⟨fun type htype rule hrule => ?_, hothers.1 hreplaced.others⟩
    by_contra hset
    rw [Bool.not_eq_true] at hset
    have hown : rule.type = type := of_decide_eq_true (mem_filter.1 (mem_of_mem_tail hrule)).2
    obtain ⟨line, hline⟩ := exists_mem_of_ne_nil _ (ruleLines_ne_nil (hown ▸ htype) hset)
    have hbehind : line ∈ (simpleTypes action).flatMap fun type =>
      ((rules.filter (·.type = type)).tail.filter fun rule => !rule.isEmpty c).flatMap ruleLines :=
      mem_flatMap.2 ⟨type, htype, mem_flatMap.2 ⟨rule, mem_filter.2 ⟨hrule, by rw [hset]; rfl⟩, hline⟩⟩
    have hshown := hperm.mem_iff.2 (mem_append_right lines hbehind)
    have hgiven := (hlines line).2 ((hreplaced.lines line).1 hshown)
    exact (nodup_append.1 (hperm.nodup_iff.1 hreplaced.once)).2.2 line hgiven line hbehind rfl
  · rintro ⟨hempty, hactions⟩
    have hnone : ((simpleTypes action).flatMap fun type =>
      ((rules.filter (·.type = type)).tail.filter fun rule => !rule.isEmpty c).flatMap ruleLines) = [] := by
      rw [flatMap_eq_nil_iff]
      intro type htype
      have hkept : ((rules.filter (·.type = type)).tail.filter fun rule => !rule.isEmpty c) = [] := by
        rw [filter_eq_nil_iff]
        intro rule hrule
        rw [hempty type htype rule hrule]
        exact Bool.false_ne_true
      rw [hkept]
      rfl
    rw [hnone, append_nil] at hperm
    exact ⟨hperm.nodup_iff.2 hnodup, fun line => hperm.mem_iff.trans (hlines line), hothers.2 hactions⟩

end Replaced

/-- Two rules for addresses through the proxy, as a profile that was imported can have them. -/
def twoProxyRules : List RouteRule :=
  [(simpleRule .simpleAddressProxy "route" proxyID).addValue .domain "a".toList,
    (simpleRule .simpleAddressProxy "route" proxyID).addValue .domain "b".toList]

/-- The text "domain:a" in place of both leaves the second. -/
theorem second_rule_shown : (UpdateSimpleRules plainEnv twoProxyRules "domain:a".toList .proxy []).1 = [] ∧ "domain:b".toList ∈ shownLines
    (GetSimpleRules (UpdateSimpleRules plainEnv twoProxyRules "domain:a".toList .proxy []).2 .proxy) ∧
    "domain:b".toList ∉ normalLines plainEnv "domain:a".toList := by
  decide

theorem deleted_line_stays : ¬ ∀ (c : SimpleEnv) (rules : List RouteRule) (content label : Text) (action : SimpleAction),
    (UpdateSimpleRules c rules content action label).1 = [] →
    Replaced c rules content action (UpdateSimpleRules c rules content action label).2 := by
  intro h
  obtain ⟨haccepted, hshown, hgiven⟩ := second_rule_shown
  exact hgiven (((h plainEnv twoProxyRules _ _ _ haccepted).lines _).1 hshown)

/-- With one rule of the type the text replaces the list. -/
theorem one_rule_replaced : Replaced plainEnv (twoProxyRules.drop 1) "domain:a".toList .proxy
    (UpdateSimpleRules plainEnv (twoProxyRules.drop 1) "domain:a".toList .proxy []).2 :=
  (text_replaces_iff (by decide)).2 (by decide)

end Throne.Database.Routes
