import Throne.Global.GoRegexp
import Mathlib.Algebra.Ring.Nat

/-!
# The flat scan over a regular expression

`validationRe2Unsupported` over the text of a regular expression: what it sees of the weights, and exactly when its
answer is Go's. A repeat behind a flag group is one of nothing to it, and behind an empty quotation one of a single
atom; a range that ends in a bracket in front of a colon can lead it past the class, where it reads that far.
-/

namespace Throne.Global.Validation

open Lib.Texts List

/-! ## What the scan sees -/

/-- The weight in front of a repeat. -/
def behindGaps (w : Nat) (gaps : List Gap) : Nat :=
  match gaps.getLast? with
  | none => w
  | some (.flags _) => 0
  | some .nothing => 1

namespace Regexp

/-- The largest product the scan sees. -/
def seen : Regexp → Nat
  | .repeated sub gaps op _ =>
    if gaps.isEmpty then op.weigh sub.seen else max sub.seen (op.weigh (behindGaps sub.seen gaps))
  | concat a b => max a.seen b.seen
  | alternate a b => max a.seen b.seen
  | group _ sub => sub.seen
  | _ => 1

/-- The scan sees too many repeats. -/
def SeenTooMany : Regexp → Prop
  | .repeated sub gaps op _ => sub.SeenTooMany ∨ op.TooMany (behindGaps sub.seen gaps)
  | concat a b => a.SeenTooMany ∨ b.SeenTooMany
  | alternate a b => a.SeenTooMany ∨ b.SeenTooMany
  | group _ sub => sub.SeenTooMany
  | _ => False

/-- Every repeat is right behind what it repeats. -/
def Tight : Regexp → Prop
  | .repeated sub gaps _ _ => sub.Tight ∧ gaps = []
  | concat a b => a.Tight ∧ b.Tight
  | alternate a b => a.Tight ∧ b.Tight
  | group _ sub => sub.Tight
  | _ => True

theorem seen_pos (t : Regexp) : 1 ≤ t.seen := by
  induction t with
  | empty | leaf l | quote text | gap g => exact Nat.le_refl 1
  | concat a b iha ihb | alternate a b iha ihb => exact iha.trans (Nat.le_max_left _ _)
  | group kind sub ih => exact ih
  | repeated sub gaps op lazily ih =>
    rw [seen]
    split
    · exact op.weigh_pos ih
    · exact ih.trans (Nat.le_max_left _ _)

/-- Without gaps the scan sees what Go counts. -/
theorem seen_of_tight {t : Regexp} (h : t.Tight) : t.seen = t.weight ∧ (t.SeenTooMany ↔ t.Refused) := by
  induction t with
  | empty | leaf l | quote text | gap g => exact ⟨rfl, Iff.rfl⟩
  | concat a b iha ihb | alternate a b iha ihb =>
    obtain ⟨ha, hb⟩ := h
    exact ⟨by rw [seen, weight, (iha ha).1, (ihb hb).1], or_congr (iha ha).2 (ihb hb).2⟩
  | group kind sub ih => exact ih h
  | repeated sub gaps op lazily ih =>
    obtain ⟨hsub, rfl⟩ := h
    obtain ⟨hseen, hiff⟩ := ih hsub
    refine ⟨?_, ?_⟩
    · rw [seen, weight, hseen]
      rfl
    · rw [((Regexp.repeated sub [] op lazily).refused_weight).2 sub [] op lazily rfl, SeenTooMany, hiff, hseen]
      rfl

end Regexp

/-! ### Ranges that open a class -/

def ClassItem.Aligned (behind : Text) : ClassItem → Prop
  | .range _ (.plain c) => ¬Opens c behind
  | _ => True

def ItemsAligned : Text → List ClassItem → Prop
  | _, [] => True
  | behind, item :: items => item.Aligned (itemsText items ++ behind) ∧ ItemsAligned behind items

def Leaf.Aligned (behind : Text) : Leaf → Prop
  | .klass _ items => ItemsAligned (']' :: behind) items
  | _ => True

/-- No range ends in a bracket that the scan takes for a class. Behind a repeat that it reports the scan reads
nothing, and nothing is asked. -/
def Regexp.Aligned : Regexp → Text → Prop
  | .leaf l, behind => l.Aligned behind
  | .concat a b, behind =>
    a.Aligned (wrapEnd a.isAlternate (wrapped b.isAlternate b.text ++ behind)) ∧ (¬a.SeenTooMany → b.Aligned (wrapEnd b.isAlternate behind))
  | .alternate a b, behind => a.Aligned ('|' :: (b.text ++ behind)) ∧ (¬a.SeenTooMany → b.Aligned behind)
  | .group _ sub, behind => sub.Aligned (')' :: behind)
  | .repeated sub gaps op lazily, behind =>
    sub.Aligned (wrapEnd (!sub.isAtom) (gaps.flatMap Gap.text ++ (op.text ++ ((if lazily then ['?'] else []) ++ behind))))
  | _, _ => True

/-! ## Facing a text -/

variable {c : Char}

section Facing

variable {p rest : Text} {i : Nat}

/-- From the place on the pattern is this text. -/
def Facing (p : Text) (i : Nat) (rest : Text) : Prop := i ≤ p.length ∧ p.drop i = rest

theorem Facing.get (h : Facing p i rest) (k : Nat) : p[i + k]? = rest[k]? := by
  rw [← h.2, getElem?_drop]

theorem Facing.head (h : Facing p i (c :: rest)) : p[i]? = some c := h.get 0

theorem Facing.length (h : Facing p i rest) : p.length = i + rest.length := by
  have hle := h.1
  rw [← h.2, length_drop]
  omega

theorem Facing.past {front : Text} (h : Facing p i (front ++ rest)) : Facing p (i + front.length) rest := by
  have hlen := h.length
  rw [length_append] at hlen
  refine ⟨by omega, ?_⟩
  rw [← drop_drop, h.2, drop_left]

theorem Facing.next (h : Facing p i (c :: rest)) : Facing p (i + 1) rest := by
  rw [← singleton_append] at h
  exact h.past

theorem Facing.drop (h : Facing p i rest) (k : Nat) : p.drop (i + k) = rest.drop k := by
  rw [← drop_drop, h.2]

theorem Facing.holdsAt (h : Facing p i rest) (k : Nat) (test : Char → Bool) : holdsAt p (i + k) test = some (rest[k]?.any test) := by
  rw [holdsAt_eq, h.get]

theorem Facing.isAt (h : Facing p i rest) (k : Nat) (c : Char) : isAt p (i + k) c = some (rest[k]?.any (· == c)) := h.holdsAt k _

theorem Facing.indexOf (h : Facing p i rest) (k : Nat) (pattern : Text) :
    indexOf p pattern (i + k) = (cutAt pattern (rest.drop k)).map fun parts => i + k + parts.1.length := by
  rw [Validation.indexOf, h.drop]

theorem Facing.inside (h : Facing p i (c :: rest)) : i < p.length := by
  have hlen := h.length
  rw [length_cons] at hlen
  omega

end Facing

/-! ## The outcome of a scan -/

namespace Re2Scan

variable {p : Text} {s s' : Re2Scan}

/-- What the loop comes to from here on. -/
def outcome (p : Text) (s : Re2Scan) : Option Re2Verdict := scan p (p.length - s.i) s

theorem outcome_go (hi : s.i < p.length) (h : s.turn p = some (.go s')) : outcome p s = outcome p s' := by
  obtain ⟨step, hstep, hlt⟩ := turn_advances hi
  obtain rfl := Option.some.inj (hstep.symm.trans h)
  have hadvance := hlt s' rfl
  obtain ⟨verdict, hverdict⟩ := scan_enough (p := p) (p.length - s'.i) s' (by omega)
  obtain ⟨turns, hturns⟩ : ∃ turns, p.length - s.i = turns + 1 := ⟨p.length - s.i - 1, by omega⟩
  obtain ⟨more, hmore⟩ : ∃ more, turns = p.length - s'.i + more := ⟨turns - (p.length - s'.i), by omega⟩
  rw [outcome, outcome, hturns, scan, if_pos hi, h, hmore]
  exact (hverdict more).trans (hverdict 0).symm

theorem outcome_done {verdict : Re2Verdict} (hi : s.i < p.length) (h : s.turn p = some (.done verdict)) : outcome p s = some verdict := by
  obtain ⟨turns, hturns⟩ : ∃ turns, p.length - s.i = turns + 1 := ⟨p.length - s.i - 1, by omega⟩
  rw [outcome, hturns, scan, if_pos hi, h]
  rfl

theorem outcome_end (h : p.length ≤ s.i) : outcome p s = some .fine := by
  rw [outcome, Nat.sub_eq_zero_of_le h, scan, if_neg (by omega)]

end Re2Scan

/-! ## Escapes -/

section Escapes

variable {p rest : Text} {i : Nat}

theorem octal_range (h : octalDigit c = true) : 48 ≤ c.toNat ∧ c.toNat < 56 := by
  rw [octalDigit, Bool.and_eq_true, decide_eq_true_eq, decide_eq_true_eq, Char.le_def, Char.le_def, UInt32.le_iff_toNat_le,
    UInt32.le_iff_toNat_le] at h
  exact ⟨h.1, Nat.lt_succ_of_le h.2⟩

theorem braced_read {digits : Text} (h : Facing p i ('{' :: digits ++ '}' :: rest)) (hno : '}' ∉ digits) :
    isAt p i '{' = some true ∧ indexOf p ['}'] i = some (i + (digits.length + 1)) ∧ mid p (i + 1) digits.length = digits := by
  refine ⟨h.isAt 0 '{', ?_, ?_⟩
  · have hcut : cutAt ['}'] (('{' :: digits) ++ '}' :: rest) = some ('{' :: digits, rest) :=
      (cutAt_char (by rw [mem_cons, not_or]; exact ⟨by decide, hno⟩) rest).2
    have hfound := h.indexOf 0 ['}']
    rw [drop_zero, hcut] at hfound
    exact hfound
  · rw [mid, h.drop 1]
    exact take_left

theorem foreign_known (hat : Bool) (name : PropertyName) : foreignProperty ((if hat then ['^'] else []) ++ name.text) = false := by
  have hplain : ∀ c, (c = '^' ∨ c = '&' ∨ c = ':' ∨ c = '=') → c ∉ name.text := by
    rintro c hc hmem
    have hno : ∀ c : Char, (c = '^' ∨ c = '&' ∨ c = ':' ∨ c = '=') → validationAsciiAlnum c = false ∧ propertyMark c = false := by
      rintro c (rfl | rfl | rfl | rfl) <;> decide
    rcases name.plain c hmem with h | h
    · exact nomatch (hno c hc).1.symm.trans h
    · exact nomatch (hno c hc).2.symm.trans h
  have hname : (if ((if hat then ['^'] else []) ++ name.text).head? = some '^' then
      ((if hat then ['^'] else []) ++ name.text).tail else (if hat then ['^'] else []) ++ name.text) = name.text := by
    cases hat with
    | true => rfl
    | false =>
      refine if_neg fun hhead => hplain '^' (.inl rfl) ?_
      exact mem_of_mem_head? hhead
  have hdrop : ∀ c, (c = '&' ∨ c = ':' ∨ c = '=') → (name.text.dropWhile propertyMark).elem c = false := by
    intro c hc
    refine Bool.eq_false_iff.2 fun helem => hplain c (.inr hc) ?_
    exact (dropWhile_sublist _).subset (mem_of_elem_eq_true helem)
  have hx : ∀ c, (c = 'X' ∨ c = 'x') → ((name.text.dropWhile propertyMark).head? == some c) = false := by
    intro c hc
    refine beq_eq_false_iff_ne.2 fun hhead => ?_
    obtain ⟨hupper, hlower⟩ := name.known c hhead
    rcases hc with rfl | rfl
    · exact hupper rfl
    · exact hlower rfl
  rw [foreignProperty, hname]
  show ((name.text.dropWhile propertyMark).head? == some 'X' || (name.text.dropWhile propertyMark).head? == some 'x' ||
    (name.text.dropWhile propertyMark).elem '&' || (name.text.dropWhile propertyMark).elem ':' || (name.text.dropWhile propertyMark).elem '=') = false
  rw [hx 'X' (.inl rfl), hx 'x' (.inr rfl), hdrop '&' (.inl rfl), hdrop ':' (.inr (.inl rfl)), hdrop '=' (.inr (.inr rfl))]
  rfl

theorem property_plain (hat : Bool) (name : PropertyName) : '}' ∉ (if hat then ['^'] else []) ++ name.text := by
  rw [mem_append, not_or]
  constructor
  · cases hat <;> decide
  · intro hmem
    rcases name.plain '}' hmem with h | h <;> cases h

variable {escape : Text}

theorem escapeProperty_braced (hat : Bool) (name : PropertyName) (h : Facing p i ('{' :: ((if hat then ['^'] else []) ++ name.text) ++ '}' :: rest)) :
    escapeProperty p escape i = some ([], i + (((if hat then ['^'] else []) ++ name.text).length + 2)) := by
  obtain ⟨hbrace, hclose, hmid⟩ := braced_read h (property_plain hat name)
  have hlen : i + (((if hat then ['^'] else []) ++ name.text).length + 1) - i - 1 =
      ((if hat then ['^'] else []) ++ name.text).length := by omega
  rw [escapeProperty, hbrace, Option.map_some, if_pos rfl, hclose]
  dsimp only
  rw [hlen, hmid, foreign_known, if_neg Bool.false_ne_true]
  rfl

theorem escapeProperty_single (h : Facing p i (c :: rest)) (hc : "LMNPSZC".toList.elem c = true) : escapeProperty p escape i = some ([], i + 1) := by
  have hmem := mem_of_elem_eq_true hc
  have hfacts : ∀ c ∈ "LMNPSZC".toList, (c == '{') = false ∧ foreignProperty [c] = false := forall_of_all (by decide)
  obtain ⟨hbrace, hforeign⟩ := hfacts c hmem
  have hmid : mid p i 1 = [c] := by
    rw [mid, h.2]
    rfl
  have hno : isAt p i '{' = some false := by
    refine (h.isAt 0 '{').trans ?_
    exact congrArg some hbrace
  rw [escapeProperty, hno, Option.map_some, if_neg Bool.false_ne_true, if_pos h.inside, hmid]
  dsimp only
  rw [hforeign, if_neg Bool.false_ne_true]

theorem escapeHex_pair {high low : Char} (h : Facing p i (high :: low :: rest))
    (hhigh : validationHexDigit high = true) (hlow : validationHexDigit low = true) : escapeHex p escape i = some ([], i + 2) := by
  have hbrace : isAt p i '{' = some false := by
    refine (h.isAt 0 '{').trans ?_
    refine congrArg some (beq_eq_false_iff_ne.2 ?_)
    rintro rfl
    cases hhigh
  have hlen := h.length
  rw [length_cons, length_cons] at hlen
  have hfirst : holdsAt p i validationHexDigit = some true := (h.holdsAt 0 _).trans (congrArg some hhigh)
  have hsecond : holdsAt p (i + 1) validationHexDigit = some true := (h.holdsAt 1 _).trans (congrArg some hlow)
  rw [escapeHex, hbrace, Option.bind_some, if_neg Bool.false_ne_true, if_pos (by omega), hfirst, Option.bind_some, hsecond]
  rfl

theorem escapeHex_code {digits : Text} (h : Facing p i ('{' :: digits ++ '}' :: rest))
    (hset : digits ≠ []) (hplain : ∀ c ∈ digits, validationHexDigit c = true) (hknown : hexNumber digits ≤ 0x10FFFF) :
    escapeHex p escape i = some ([], i + (digits.length + 2)) := by
  have hno : '}' ∉ digits := fun hmem => absurd (hplain '}' hmem) (by decide)
  obtain ⟨hbrace, hclose, hmid⟩ := braced_read h hno
  have hlen : i + (digits.length + 1) - i - 1 = digits.length := by omega
  have hok : (!digits.isEmpty && digits.all validationHexDigit && decide (hexNumber digits ≤ 0x10FFFF)) = true := by
    rw [isEmpty_eq_false_iff.2 hset, all_eq_true.2 hplain, decide_eq_true hknown]
    rfl
  rw [escapeHex, hbrace, Option.bind_some, if_pos rfl, hclose]
  dsimp only
  rw [hlen, hmid, if_pos hok]
  rfl

/-- An escape is taken for what it is. -/
theorem validationRe2Escape_read (e : Escape) (h : Facing p i (e.text ++ rest)) (inClass : Bool) :
    validationRe2Escape p i inClass = some ([], i + e.front.length) := by
  cases e with
  | sign c ascii plain =>
    have hd : p[i + 1]? = some c := h.get 1
    rw [validationRe2Escape, hd, Option.bind_some, if_pos (by rw [decide_eq_true ascii, plain]; rfl)]
    rfl
  | letter c known =>
    have hd : p[i + 1]? = some c := h.get 1
    have hmem := mem_of_elem_eq_true known
    have hfacts : ∀ c ∈ "dDsSwWafnrtv".toList, (decide (c.toNat < 0x80) && !validationAsciiAlnum c) = false ∧
        (c == 'p' || c == 'P') = false ∧ (c == 'x') = false ∧ "dDsSwWafnrtv0".toList.elem c = true :=
      forall_of_all (by decide)
    obtain ⟨hsign, hp, hx, hknown⟩ := hfacts c hmem
    rw [validationRe2Escape, hd, Option.bind_some]
    dsimp only
    rw [hsign, hp, hx, hknown]
    rfl
  | octal first others digit digits more =>
    have hd : p[i + 1]? = some first := h.get 1
    obtain ⟨hlow, hhigh⟩ := octal_range digit
    have hfacts : ∀ n < 56, 48 ≤ n → (decide ((Char.ofNat n).toNat < 0x80) && !validationAsciiAlnum (Char.ofNat n)) = false ∧
        (Char.ofNat n == 'p' || Char.ofNat n == 'P') = false ∧ (Char.ofNat n == 'x') = false ∧
        "AbBz".toList.elem (Char.ofNat n) = false ∧
        (Char.ofNat n ≠ '0' → "dDsSwWafnrtv0".toList.elem (Char.ofNat n) = false ∧
          (decide ('1' ≤ Char.ofNat n) && decide (Char.ofNat n ≤ '7')) = true) := by decide
    have hfirst := hfacts first.toNat hhigh hlow
    rw [Char.ofNat_toNat] at hfirst
    obtain ⟨hsign, hp, hx, hassertion, hother⟩ := hfirst
    rw [validationRe2Escape, hd, Option.bind_some]
    dsimp only
    rw [hsign, hp, hx, hassertion]
    by_cases hzero : first = '0'
    · have hletter : "dDsSwWafnrtv0".toList.elem first = true := by
        rw [hzero]
        decide
      rw [hletter]
      rfl
    · obtain ⟨hletter, hrange⟩ := hother hzero
      have hoctal : holdsAt p (i + 2) octalDigit = some true := by
        have hbehind : Facing p (i + 2) (others ++ rest) := h.next.next
        cases others with
        | nil => exact absurd rfl (more hzero)
        | cons d ds => exact (hbehind.holdsAt 0 _).trans (congrArg some (digits d mem_cons_self))
      rw [hletter, hrange]
      show (holdsAt p (i + 2) octalDigit).map _ = _
      rw [hoctal]
      rfl
  | hex high low digits =>
    have hd : p[i + 1]? = some 'x' := h.get 1
    have hbehind : Facing p (i + 2) (high :: low :: rest) := h.next.next
    rw [validationRe2Escape, hd, Option.bind_some]
    exact escapeHex_pair hbehind digits.1 digits.2
  | code digits set plain known =>
    have hd : p[i + 1]? = some 'x' := h.get 1
    have hbehind : Facing p (i + 2) ('{' :: digits ++ '}' :: rest) := by
      have htext : Facing p i ('\\' :: 'x' :: '{' :: digits ++ ['}'] ++ [] ++ rest) := h
      rw [append_nil, append_assoc] at htext
      exact htext.next.next
    rw [validationRe2Escape, hd, Option.bind_some]
    refine (escapeHex_code hbehind set plain known).trans ?_
    rw [Escape.front, length_append, length_cons, length_cons, length_cons, length_singleton]
    congr 2
    omega
  | category negated c known =>
    have hd : p[i + 1]? = some (propertyLetter negated) := h.get 1
    have hbehind : Facing p (i + 2) (c :: rest) := h.next.next
    rw [validationRe2Escape, hd, Option.bind_some]
    cases negated with
    | true | false => exact escapeProperty_single hbehind known
  | property negated hat name =>
    have hd : p[i + 1]? = some (propertyLetter negated) := h.get 1
    have hbehind : Facing p (i + 2) ('{' :: ((if hat then ['^'] else []) ++ name.text) ++ '}' :: rest) := by
      have htext : Facing p i ('\\' :: propertyLetter negated :: '{' :: ((if hat then ['^'] else []) ++ name.text) ++ ['}'] ++ [] ++ rest) := h
      rw [append_nil, append_assoc] at htext
      exact htext.next.next
    have hlen : i + 2 + (((if hat then ['^'] else []) ++ name.text).length + 2) =
        i + (Escape.property negated hat name).front.length := by
      simp only [Escape.front, length_append, length_cons, length_nil]
      omega
    rw [validationRe2Escape, hd, Option.bind_some, ← hlen]
    cases negated with
    | true | false => exact escapeProperty_braced hat name hbehind

end Escapes

/-! ## Classes -/

namespace Re2Scan

section Classes

variable {p rest : Text} {s : Re2Scan}

/-- One more character of a class. -/
theorem outcome_classChar {c : Char} (h : Facing p s.i (c :: rest)) (hin : s.inClass = true) (hslash : c ≠ '\\')
    (hclose : c = ']' → s.i ≤ s.classStart) (hopens : ¬Opens c rest) : outcome p s = outcome p (s.moved (s.i + 1)) := by
  have hstays : (!(c == ']' && decide (s.classStart < s.i))) = true := by
    by_cases hc : c = ']'
    · rw [decide_eq_false (Nat.not_lt.2 (hclose hc)), Bool.and_false]
      rfl
    · rw [beq_eq_false_iff_ne.2 hc]
      rfl
  have hnext : ({ s with inClass := !(c == ']' && decide (s.classStart < s.i)), i := s.i + 1 } : Re2Scan) = s.moved (s.i + 1) := by
    rw [hstays, ← hin]
    rfl
  refine outcome_go h.inside ?_
  rw [turn, h.head, Option.bind_some, if_neg (by rw [beq_iff_eq]; exact hslash), if_pos hin, classStep, hnext]
  by_cases hopen : c = '['
  · rw [if_pos (beq_iff_eq.2 hopen), h.isAt 1, Option.map_some]
    split
    · next hnamed =>
      have hcolon : rest.head? = some ':' := by
        cases rest with
        | nil => cases hnamed
        | cons d rest => exact congrArg some (beq_iff_eq.1 hnamed)
      have hnone : indexOf p [':', ']'] (s.i + 2) = none := by
        rw [h.indexOf 2]
        refine Option.map_eq_none_iff.2 (Option.not_isSome_iff_eq_none.1 fun hsome => hopens ⟨hopen, hcolon, ?_⟩)
        rw [← hsome]
        cases rest <;> rfl
      rw [hnone]
    · rfl
  · rw [if_neg (by rw [beq_iff_eq]; exact hopen)]

theorem outcome_classDigits {digits : Text} (hdigits : ∀ c ∈ digits, octalDigit c = true)
    (h : Facing p s.i (digits ++ rest)) (hin : s.inClass = true) : outcome p s = outcome p (s.moved (s.i + digits.length)) := by
  induction digits generalizing s with
  | nil => rfl
  | cons c digits ih =>
    have hc := hdigits c mem_cons_self
    have hne : ∀ d, octalDigit d = false → c ≠ d := by
      rintro d hd rfl
      exact nomatch hd.symm.trans hc
    rw [outcome_classChar h hin (hne _ (by decide)) (fun heq => absurd heq (hne _ (by decide))) fun hopens => hne _ (by decide) hopens.1]
    have hrest : Facing p (s.moved (s.i + 1)).i (digits ++ rest) := h.next
    rw [ih (fun d hd => hdigits d (mem_cons_of_mem c hd)) hrest hin]
    show outcome p (s.moved (s.i + 1 + digits.length)) = _
    rw [length_cons, Nat.add_right_comm]
    rfl

theorem rest_digits (e : Escape) : ∀ c ∈ e.rest, octalDigit c = true := by
  cases e with
  | octal first others digit digits more => exact digits
  | _ => exact nofun

theorem outcome_classEscape {e : Escape} (h : Facing p s.i (e.text ++ rest)) (hin : s.inClass = true) :
    outcome p s = outcome p (s.moved (s.i + e.text.length)) := by
  have hread := validationRe2Escape_read e h true
  rw [Escape.text, append_assoc] at h
  obtain ⟨c, behind, hfront⟩ : ∃ c behind, e.front = '\\' :: c :: behind := by
    cases e <;> exact ⟨_, _, rfl⟩
  have hpast : Facing p (s.moved (s.i + e.front.length)).i (e.rest ++ rest) := h.past
  rw [hfront] at h
  have hlen := h.length
  rw [length_append, length_cons, length_cons] at hlen
  have hgo : s.turn p = some (.go (s.moved (s.i + e.front.length))) := by
    rw [turn, h.head, Option.bind_some, if_pos (by decide), escapeStep, if_neg (by omega), h.holdsAt 1, Option.bind_some, hin,
      if_neg (by rw [Bool.not_true, Bool.false_and]; exact Bool.false_ne_true), hread, Option.map_some]
    rfl
  rw [outcome_go h.inside hgo, outcome_classDigits (rest_digits e) hpast hin]
  show outcome p (s.moved (s.i + e.front.length + e.rest.length)) = _
  rw [Escape.text, length_append, Nat.add_assoc]

theorem outcome_classItemChar {c : ClassChar} (h : Facing p s.i (c.text ++ rest)) (hin : s.inClass = true)
    (hplain : ∀ d, c = .plain d → d ≠ '\\' ∧ (d = ']' → s.i ≤ s.classStart) ∧ ¬Opens d rest) :
    outcome p s = outcome p (s.moved (s.i + c.text.length)) := by
  cases c with
  | plain d =>
    obtain ⟨hslash, hclose, hopens⟩ := hplain d rfl
    exact outcome_classChar h hin hslash hclose hopens
  | escaped e => exact outcome_classEscape h hin

theorem outcome_named {name : Text} (hat : Bool) (hplain : ∀ c ∈ name, validationAsciiAlnum c = true)
    (h : Facing p s.i ('[' :: ':' :: ((if hat then ['^'] else []) ++ name) ++ [':', ']'] ++ rest)) (hin : s.inClass = true) :
    outcome p s = outcome p (s.moved (s.i + (((if hat then ['^'] else []) ++ name).length + 4))) := by
  have hfree : ∀ c ∈ (if hat then ['^'] else []) ++ name, c ≠ ':' := by
    intro c hc heq
    rcases mem_append.1 hc with hc | hc
    · rw [heq] at hc
      cases hat with
      | true => exact absurd hc (by decide)
      | false => cases hc
    · rw [heq] at hc
      exact absurd (hplain _ hc) (by decide)
  rw [append_assoc] at h
  have hcut := cutAt_append [':', ']'] ':' [']'] rfl _ hfree ([':', ']'] ++ rest)
  rw [cutAt_here (cons_ne_nil _ _), Option.map_some, append_nil] at hcut
  have hindex : indexOf p [':', ']'] (s.i + 2) = some (s.i + 2 + ((if hat then ['^'] else []) ++ name).length) := by
    rw [h.indexOf 2]
    exact congrArg (Option.map _) hcut
  refine outcome_go h.inside ?_
  rw [turn, h.head, Option.bind_some, if_neg (by decide), if_pos hin, classStep, if_pos (by decide), h.isAt 1, Option.map_some]
  rw [if_pos (by rfl), hindex]
  show some (Re2Step.go (s.moved _)) = some (Re2Step.go (s.moved _))
  congr 3
  omega

/-- The items of a class, from one on. -/
theorem outcome_items {items : List ClassItem} {first : Bool} (h : Facing p s.i (itemsText items ++ rest))
    (hin : s.inClass = true) (hstart : first = true → s.i ≤ s.classStart) (hwritten : ItemsWritten first rest items)
    (haligned : ItemsAligned rest items) : outcome p s = outcome p (s.moved (s.i + (itemsText items).length)) := by
  induction items generalizing s first with
  | nil => rfl
  | cons item items ih =>
    obtain ⟨hitem, hwritten⟩ := hwritten
    obtain ⟨halign, haligned⟩ := haligned
    have htext : itemsText (item :: items) = item.text ++ itemsText items := flatMap_cons
    rw [htext, append_assoc] at h
    have hone : outcome p s = outcome p (s.moved (s.i + item.text.length)) := by
      cases item with
      | named hat name plain =>
        rw [outcome_named hat plain h hin, ClassItem.text]
        congr 3
        simp only [length_append, length_cons, length_nil]
      | single c =>
        refine outcome_classItemChar h hin ?_
        rintro d rfl
        exact ⟨hitem.1, fun heq => hstart (hitem.2.1 heq), hitem.2.2⟩
      | range low high =>
        rw [ClassItem.text, append_assoc] at h
        have hlow := outcome_classItemChar h hin (by
          rintro d rfl
          exact ⟨hitem.1.1, fun heq => hstart (hitem.1.2.1 heq), hitem.1.2.2⟩)
        have hdash : Facing p (s.moved (s.i + low.text.length)).i ('-' :: (high.text ++ (itemsText items ++ rest))) := h.past
        have hmark := outcome_classChar hdash hin (by decide) (fun heq => absurd heq (by decide)) fun hopens => absurd hopens.1 (by decide)
        have hend : Facing p ((s.moved (s.i + low.text.length)).moved (s.i + low.text.length + 1)).i
            (high.text ++ (itemsText items ++ rest)) := hdash.next
        have hhigh := outcome_classItemChar hend hin (by
          rintro d rfl
          exact ⟨hitem.2.1, fun heq => absurd heq hitem.2.2, halign⟩)
        have hlen : s.i + low.text.length + 1 + high.text.length = s.i + (ClassItem.range low high).text.length := by
          rw [ClassItem.text, length_append, length_cons]
          omega
        rw [← hlen]
        exact hlow.trans (hmark.trans hhigh)
    have hnext : Facing p (s.moved (s.i + item.text.length)).i (itemsText items ++ rest) := h.past
    rw [hone, ih hnext hin (fun hno : false = true => nomatch hno) hwritten haligned]
    show outcome p (s.moved (s.i + item.text.length + (itemsText items).length)) = _
    rw [htext, length_append, Nat.add_assoc]

end Classes

end Re2Scan

/-! ## Counts -/

variable {j min : Nat}

section Counts

variable {p rest : Text} {i : Nat}

/-- A number as the scan reads it: from eight digits on it is too large anyway. -/
def Numeral.read (n : Numeral) : Nat := if n.digits.length > 7 then 100000000 else n.value

theorem foldl_decimal_ge (digits : Text) (v : Nat) : v * 10 ^ digits.length ≤ digits.foldl (fun n c => 10 * n + (c.toNat - '0'.toNat)) v := by
  induction digits generalizing v with
  | nil => rw [length_nil, Nat.pow_zero, Nat.mul_one, foldl_nil]
  | cons c digits ih =>
    refine le_trans ?_ (ih (10 * v + (c.toNat - '0'.toNat)))
    rw [length_cons, Nat.pow_succ, Nat.mul_comm _ 10, ← Nat.mul_assoc, Nat.mul_comm v 10]
    exact Nat.mul_le_mul_right _ (Nat.le_add_right _ _)

theorem digit_bounds (h : validationDigit c = true) : 48 ≤ c.toNat ∧ c.toNat < 58 := by
  rw [validationDigit, Bool.and_eq_true, decide_eq_true_eq, decide_eq_true_eq, Char.le_def, Char.le_def,
    UInt32.le_iff_toNat_le, UInt32.le_iff_toNat_le] at h
  exact ⟨h.1, Nat.lt_succ_of_le h.2⟩

/-- Without a zero in front a number has as many digits as it needs. -/
theorem digits_short {digits : Text} {k : Nat} (hdigits : ∀ c ∈ digits, validationDigit c = true)
    (hlead : digits.head? = some '0' → digits.length = 1) (hlt : decimalValue digits < 10 ^ (k + 1)) : digits.length ≤ k + 1 := by
  cases digits with
  | nil => exact Nat.zero_le _
  | cons c digits =>
    by_cases hzero : c = '0'
    · rw [hlead (congrArg some hzero)]
      exact Nat.le_add_left 1 k
    · have hrange := digit_bounds (hdigits c mem_cons_self)
      have hpos : c.toNat ≠ 48 := fun heq => hzero (Char.toNat_inj.1 heq)
      have hfirst : 1 ≤ 10 * 0 + (c.toNat - '0'.toNat) := by
        show 1 ≤ 10 * 0 + (c.toNat - 48)
        omega
      have hlarge : 10 ^ digits.length < 10 ^ (k + 1) :=
        calc 10 ^ digits.length = 1 * 10 ^ digits.length := (Nat.one_mul _).symm
          _ ≤ (10 * 0 + (c.toNat - '0'.toNat)) * 10 ^ digits.length := Nat.mul_le_mul_right _ hfirst
          _ ≤ decimalValue (c :: digits) := foldl_decimal_ge digits _
          _ < 10 ^ (k + 1) := hlt
      exact (Nat.pow_lt_pow_iff_right (by decide)).1 hlarge

/-- Eight digits without a zero in front are a large number. -/
theorem Numeral.long (n : Numeral) (h : n.digits.length > 7) : 1000 < n.value := by
  by_contra hsmall
  have hlt : decimalValue n.digits < 10 ^ 7 := Nat.lt_of_le_of_lt (Nat.not_lt.1 hsmall) (by decide)
  exact absurd (digits_short n.plain n.short hlt) (Nat.not_le.2 h)

theorem Numeral.read_cases (n : Numeral) : n.read = n.value ∨ 1000 < n.read ∧ 1000 < n.value := by
  rw [Numeral.read]
  split
  · next h => exact .inr ⟨by decide, n.long h⟩
  · exact .inl rfl

theorem repeatNumber_read (n : Numeral) (h : Facing p i (n.digits ++ rest)) (hstop : ∀ c, rest.head? = some c → validationDigit c = false) :
    repeatNumber p i = some (some (n.read, i + n.digits.length)) := by
  have hdigits : (p.drop i).takeWhile validationDigit = n.digits := by rw [h.2, takeWhile_front n.plain hstop]
  rw [repeatNumber, hdigits, if_neg (by rw [List.isEmpty_iff]; exact n.set)]
  split
  · next hlong =>
    obtain ⟨c, digits, hc⟩ := exists_cons_of_ne_nil n.set
    have hfirst : p[i]? = some c := by
      rw [hc] at h
      exact h.head
    have hzero : (c == '0') = false := by
      refine beq_eq_false_iff_ne.2 fun heq => ?_
      have hone := n.short (by rw [hc, heq]; rfl)
      omega
    rw [hfirst, Option.map_some, hzero]
    rfl
  · rfl

/-- What is read as a number is one. -/
theorem numeral_of_repeatNumber {value stop : Nat} (h : repeatNumber p i = some (some (value, stop))) :
    ∃ n : Numeral, n.digits <+: p.drop i ∧ stop = i + n.digits.length := by
  rw [repeatNumber] at h
  have hplain : ∀ c ∈ (p.drop i).takeWhile validationDigit, validationDigit c = true :=
    fun c hc => mem_takeWhile_imp hc
  split at h
  · cases h
  · next hset =>
    rw [List.isEmpty_iff] at hset
    split at h
    · next hlong =>
      obtain ⟨c, hc, heq⟩ := Option.map_eq_some_iff.1 h
      split at heq
      · cases heq
      · next hzero =>
        cases heq
        refine ⟨⟨_, hset, hplain, fun hhead => absurd ?_ hzero⟩, takeWhile_prefix _, rfl⟩
        have hsame : ((p.drop i).takeWhile validationDigit).head? = p[i]? := by
          rw [← head?_drop]
          cases hdrop : p.drop i with
          | nil =>
            rw [hdrop] at hset
            exact absurd rfl hset
          | cons d behind =>
            rw [hdrop] at hset
            by_cases hd : validationDigit d = true
            · rw [takeWhile_cons_of_pos hd]
              rfl
            · rw [takeWhile_cons_of_neg hd] at hset
              exact absurd rfl hset
        rw [hsame, hc] at hhead
        exact beq_iff_eq.2 (Option.some.inj hhead)
    · next hshort =>
      cases h
      refine ⟨⟨_, hset, hplain, fun _ => ?_⟩, takeWhile_prefix _, rfl⟩
      have hpos := length_pos_iff.2 hset
      omega

/-- The bounds of a count, as the scan reads them. -/
def Count.readMax (c : Count) : Option Nat :=
  match c.upper with
  | .same => some c.min.read
  | .unbounded => none
  | .upTo n => some n.read

theorem repeatClose_read (max : Option Nat) (h : Facing p j ('}' :: rest)) : repeatClose p j min max = some (some (j + 1, min, max)) := by
  have hclosed : isAt p j '}' = some true := h.isAt 0 '}'
  rw [repeatClose, hclosed]
  rfl

/-- A count is taken for what it is. -/
theorem validationRepeatEnd_read (c : Count) (h : Facing p i (c.text ++ rest)) :
    validationRepeatEnd p i = some (some (i + c.text.length, c.min.read, c.readMax)) := by
  obtain ⟨min, upper⟩ := c
  cases upper with
  | same =>
    have htext : Facing p i ('{' :: (min.digits ++ '}' :: rest)) := by
      simpa only [Count.text, append_assoc, cons_append, nil_append, append_nil] using h
    have hmin := repeatNumber_read min htext.next (by rintro c ⟨⟩; decide)
    have hbehind : Facing p (i + 1 + min.digits.length) ('}' :: rest) := htext.next.past
    have hcomma : isAt p (i + 1 + min.digits.length) ',' = some false := hbehind.isAt 0 ','
    rw [validationRepeatEnd, hmin, Option.bind_some]
    dsimp only
    rw [hcomma, Option.bind_some, if_neg Bool.false_ne_true, repeatClose_read _ hbehind]
    simp only [Count.text, Count.readMax, length_append, length_cons, length_nil]
    congr 3
    omega
  | unbounded =>
    have htext : Facing p i ('{' :: (min.digits ++ ',' :: '}' :: rest)) := by
      simpa only [Count.text, append_assoc, cons_append, nil_append, append_nil] using h
    have hmin := repeatNumber_read min htext.next (by rintro c ⟨⟩; decide)
    have hbehind : Facing p (i + 1 + min.digits.length) (',' :: '}' :: rest) := htext.next.past
    have hcomma : isAt p (i + 1 + min.digits.length) ',' = some true := hbehind.isAt 0 ','
    have hclosed : isAt p (i + 1 + min.digits.length + 1) '}' = some true := hbehind.isAt 1 '}'
    rw [validationRepeatEnd, hmin, Option.bind_some]
    dsimp only
    rw [hcomma, Option.bind_some, if_pos rfl, hclosed, Option.bind_some, if_pos rfl, repeatClose_read _ hbehind.next]
    simp only [Count.text, Count.readMax, length_append, length_cons, length_nil]
    congr 3
    omega
  | upTo n =>
    have htext : Facing p i ('{' :: (min.digits ++ ',' :: (n.digits ++ '}' :: rest))) := by
      simpa only [Count.text, append_assoc, cons_append, nil_append, append_nil] using h
    have hmin := repeatNumber_read min htext.next (by rintro c ⟨⟩; decide)
    have hbehind : Facing p (i + 1 + min.digits.length) (',' :: (n.digits ++ '}' :: rest)) := htext.next.past
    have hcomma : isAt p (i + 1 + min.digits.length) ',' = some true := hbehind.isAt 0 ','
    have hopen : isAt p (i + 1 + min.digits.length + 1) '}' = some false := by
      rw [hbehind.isAt 1 '}']
      obtain ⟨d, digits, hd⟩ := exists_cons_of_ne_nil n.set
      have hne : d ≠ '}' := by
        rintro rfl
        exact absurd (n.plain _ (hd ▸ mem_cons_self)) (by decide)
      rw [hd]
      exact congrArg some (beq_eq_false_iff_ne.2 hne)
    have hmax := repeatNumber_read n hbehind.next (by rintro c ⟨⟩; decide)
    have hend : Facing p (i + 1 + min.digits.length + 1 + n.digits.length) ('}' :: rest) := hbehind.next.past
    rw [validationRepeatEnd, hmin, Option.bind_some]
    dsimp only
    rw [hcomma, Option.bind_some, if_pos rfl, hopen, Option.bind_some, if_neg Bool.false_ne_true, hmax, Option.bind_some]
    dsimp only
    rw [repeatClose_read _ hend]
    simp only [Count.text, Count.readMax, length_append, length_cons, length_nil]
    congr 3
    omega

variable {found : Nat × Nat × Option Nat}

theorem repeatClose_found {max : Option Nat} (h : repeatClose p j min max = some (some found)) : p[j]? = some '}' := by
  rw [repeatClose, isAt_eq, Option.map_some] at h
  cases hget : p[j]? with
  | none =>
    rw [hget] at h
    cases h
  | some c =>
    rw [hget, Option.any_some] at h
    split at h
    · next hc => rw [beq_iff_eq.1 hc]
    · cases h

/-- The bounds are read as they are, or are too large both ways. -/
theorem Count.read_cases (c : Count) : ((decide (c.min.read > 1000) || c.readMax.any (· > 1000)) = true ∧
    (1000 < c.min.value ∨ ∃ m ∈ c.max, 1000 < m)) ∨ ((decide (c.min.read > 1000) || c.readMax.any (· > 1000)) = false ∧ c.min.value ≤ 1000 ∧
    (∀ m ∈ c.max, m ≤ 1000) ∧ c.min.read = c.min.value ∧ c.readMax = c.max) := by
  obtain ⟨min, upper⟩ := c
  by_cases hmin : 1000 < min.value
  · have hread : min.read > 1000 := by
      rcases min.read_cases with heq | hlarge
      · rw [heq]
        exact hmin
      · exact hlarge.1
    exact .inl ⟨by rw [decide_eq_true hread, Bool.true_or], .inl hmin⟩
  · have hread : min.read = min.value := min.read_cases.resolve_right fun hlarge => hmin hlarge.2
    have hfine : decide (min.read > 1000) = false := decide_eq_false (by rw [hread]; exact hmin)
    cases upper with
    | same =>
      refine .inr ⟨?_, Nat.not_lt.1 hmin, ?_, hread, congrArg some hread⟩
      · rw [hfine]
        exact hfine
      · rintro m ⟨⟩
        exact Nat.not_lt.1 hmin
    | unbounded =>
      refine .inr ⟨?_, Nat.not_lt.1 hmin, nofun, hread, rfl⟩
      rw [hfine]
      rfl
    | upTo n =>
      by_cases hmax : 1000 < n.value
      · have hlarge : n.read > 1000 := by
          rcases n.read_cases with heq | hlarge
          · rw [heq]
            exact hmax
          · exact hlarge.1
        refine .inl ⟨?_, .inr ⟨n.value, rfl, hmax⟩⟩
        rw [Bool.or_eq_true]
        exact .inr (decide_eq_true hlarge)
      · have hupper : n.read = n.value := n.read_cases.resolve_right fun hlarge => hmax hlarge.2
        refine .inr ⟨?_, Nat.not_lt.1 hmin, ?_, hread, congrArg some hupper⟩
        · rw [hfine]
          exact decide_eq_false (by rw [hupper]; exact hmax)
        · rintro m ⟨⟩
          exact Nat.not_lt.1 hmax

theorem Facing.eq_cons (h : Facing p i rest) (hc : p[i]? = some c) : ∃ behind, rest = c :: behind := by
  have hget : rest[0]? = some c := (h.get 0).symm.trans hc
  cases rest with
  | nil => cases hget
  | cons d behind =>
    cases hget
    exact ⟨behind, rfl⟩

theorem Facing.eq_cons_of_isAt (h : Facing p i rest) (hc : Validation.isAt p i c = some true) : ∃ behind, rest = c :: behind := by
  rw [isAt_eq, Option.some.injEq] at hc
  cases hget : p[i]? with
  | none =>
    rw [hget] at hc
    cases hc
  | some d =>
    rw [hget, Option.any_some, beq_iff_eq] at hc
    exact h.eq_cons (hc ▸ hget)

theorem Facing.eq_digits {value stop : Nat} (h : Facing p i rest) (hnumber : repeatNumber p i = some (some (value, stop))) :
    ∃ (n : Numeral) (behind : Text), rest = n.digits ++ behind ∧ Facing p stop behind := by
  obtain ⟨n, hfront, rfl⟩ := numeral_of_repeatNumber hnumber
  rw [h.2] at hfront
  obtain ⟨behind, rfl⟩ := hfront
  exact ⟨n, behind, rfl, h.past⟩

theorem Facing.eq_closed {max : Option Nat} (h : Facing p j rest)
    (hclose : repeatClose p j min max = some (some found)) : ∃ behind, rest = '}' :: behind :=
  h.eq_cons (repeatClose_found hclose)

/-- What is taken for a count is one. -/
theorem count_of_repeatEnd (h : Facing p i ('{' :: rest)) (hfound : validationRepeatEnd p i = some (some found)) :
    ∃ c : Count, c.text <+: '{' :: rest := by
  obtain ⟨number, hmin, -⟩ := repeatNumber_ends (p := p) (i + 1)
  rw [validationRepeatEnd, hmin, Option.bind_some] at hfound
  cases number with
  | none => cases hfound
  | some number =>
    obtain ⟨value, j⟩ := number
    obtain ⟨min, behind, rfl, hbehind⟩ := h.next.eq_digits hmin
    dsimp only at hfound
    obtain ⟨comma, hcomma⟩ : ∃ comma, isAt p j ',' = some comma := ⟨_, isAt_eq p j ','⟩
    rw [hcomma, Option.bind_some] at hfound
    cases comma with
    | false =>
      obtain ⟨last, rfl⟩ := hbehind.eq_closed hfound
      exact ⟨⟨min, .same⟩, last, by simp [Count.text]⟩
    | true =>
      obtain ⟨behind, rfl⟩ := hbehind.eq_cons_of_isAt hcomma
      obtain ⟨closed, hclosed⟩ : ∃ closed, isAt p (j + 1) '}' = some closed := ⟨_, isAt_eq p (j + 1) '}'⟩
      rw [if_pos rfl, hclosed, Option.bind_some] at hfound
      cases closed with
      | true =>
        obtain ⟨last, rfl⟩ := hbehind.next.eq_cons_of_isAt hclosed
        exact ⟨⟨min, .unbounded⟩, last, by simp [Count.text]⟩
      | false =>
        obtain ⟨number, hmax, -⟩ := repeatNumber_ends (p := p) (j + 1)
        rw [if_neg Bool.false_ne_true, hmax, Option.bind_some] at hfound
        cases number with
        | none => cases hfound
        | some number =>
          obtain ⟨value', k⟩ := number
          obtain ⟨n, behind, rfl, hend⟩ := hbehind.next.eq_digits hmax
          obtain ⟨last, rfl⟩ := hend.eq_closed hfound
          exact ⟨⟨min, .upTo n⟩, last, by simp [Count.text]⟩

end Counts

/-! ## One piece after the other -/

/-- Nothing here makes the repeat in front of it lazy or possessive, or a group special. -/
def Calm (text : Text) : Prop := ∀ c, text.head? = some c → c ≠ '*' ∧ c ≠ '+' ∧ c ≠ '?'

namespace Re2Scan

section Pieces

variable {p rest behind : Text} {s : Re2Scan}

theorem outcome_atom {c : Char} (h : Facing p s.i (c :: rest)) (hout : s.inClass = false)
    (hc : "\\[()|*+?".toList.elem c = false) (hbrace : c = '{' → ∀ count : Count, ¬count.text <+: c :: rest) :
    outcome p s = outcome p (s.atom.moved (s.i + 1)) := by
  have hne : ∀ d, "\\[()|*+?".toList.elem d = true → (c == d) = false := by
    rintro d hd
    refine beq_eq_false_iff_ne.2 ?_
    rintro rfl
    exact nomatch hc.symm.trans hd
  refine outcome_go h.inside ?_
  rw [turn, h.head, Option.bind_some, hne '\\' (by decide), hne '[' (by decide), hne '(' (by decide), hne ')' (by decide),
    hne '|' (by decide), hne '*' (by decide), hne '+' (by decide), hne '?' (by decide), hout]
  by_cases hopen : c = '{'
  · subst hopen
    obtain ⟨found, hfound, -⟩ := validationRepeatEnd_ends (p := p) s.i
    cases found with
    | some found =>
      obtain ⟨count, hcount⟩ := count_of_repeatEnd h hfound
      exact absurd hcount (hbrace rfl count)
    | none =>
      show s.countStep p = _
      rw [countStep, hfound]
      rfl
  · rw [beq_eq_false_iff_ne.2 hopen]
    rfl

theorem outcome_digits {digits : Text} (hdigits : ∀ c ∈ digits, octalDigit c = true)
    (h : Facing p s.i (digits ++ rest)) (hout : s.inClass = false) (htop : 1 ≤ s.top) (hlast : s.last = 1) :
    ∃ s', outcome p s = outcome p s' ∧ s'.i = s.i + digits.length ∧ s'.inClass = false ∧ s'.below = s.below ∧
    s'.top = s.top ∧ s'.last = 1 := by
  induction digits generalizing s with
  | nil => exact ⟨s, rfl, rfl, hout, rfl, rfl, hlast⟩
  | cons c digits ih =>
    have hc := hdigits c mem_cons_self
    have hplain : "\\[()|*+?".toList.elem c = false := by
      obtain ⟨hlow, hhigh⟩ := octal_range hc
      have hall : ∀ n < 56, 48 ≤ n → "\\[()|*+?".toList.elem (Char.ofNat n) = false := by decide
      have hchar := hall c.toNat hhigh hlow
      rwa [Char.ofNat_toNat] at hchar
    have hone := outcome_atom h hout hplain (by rintro rfl; exact absurd hc (by decide))
    have htops : s.atom.top = s.top := by
      show max s.top s.last = s.top
      omega
    have hnext : Facing p (s.atom.moved (s.i + 1)).i (digits ++ rest) := h.next
    obtain ⟨s', heq, hi, hout', hbelow, htop', hlast'⟩ := ih (fun d hd => hdigits d (mem_cons_of_mem c hd)) hnext hout (htops ▸ htop) rfl
    refine ⟨s', hone.trans heq, ?_, hout', hbelow, htop'.trans htops, hlast'⟩
    rw [hi, length_cons]
    show s.i + 1 + digits.length = _
    omega

/-- The scan comes to a place outside of a class, with the same groups open. -/
structure Reached (p : Text) (s s' : Re2Scan) (i : Nat) : Prop where
  same : outcome p s = outcome p s'
  place : s'.i = i
  outside : s'.inClass = false
  below : s'.below = s.below

theorem Reached.trans {s₁ s₂ s₃ : Re2Scan} {i j : Nat} (h : Reached p s₁ s₂ i) (h' : Reached p s₂ s₃ j) : Reached p s₁ s₃ j :=
  ⟨h.same.trans h'.same, h'.place, h'.outside, h'.below.trans h.below⟩

/-- The scan has an atom of some weight in front of it. -/
structure AtomRead (p : Text) (s s' : Re2Scan) (i w : Nat) : Prop extends Reached p s s' i where
  top : s'.top = max s.top s.last
  last : s'.last = w

theorem escape_second (e : Escape) : ∃ c behind, e.front = '\\' :: c :: behind ∧ c ≠ 'Q' := by
  cases e with
  | sign c ascii plain =>
    refine ⟨c, [], rfl, ?_⟩
    rintro rfl
    cases plain
  | letter c known =>
    refine ⟨c, [], rfl, ?_⟩
    rintro rfl
    cases known
  | octal first others digit digits more =>
    refine ⟨first, [], rfl, ?_⟩
    rintro rfl
    cases digit
  | hex high low digits | code digits set plain known => exact ⟨'x', _, rfl, by decide⟩
  | category negated c known | property negated hat name =>
    refine ⟨propertyLetter negated, _, rfl, ?_⟩
    cases negated <;> decide

/-- What `validationRe2Escape` takes is an atom. -/
theorem outcome_escaped {c : Char} {stop : Nat} (h : Facing p s.i ('\\' :: c :: rest)) (hout : s.inClass = false)
    (hquote : c ≠ 'Q') (hread : validationRe2Escape p s.i false = some ([], stop)) : outcome p s = outcome p (s.atom.moved stop) := by
  have hlen := h.length
  rw [length_cons, length_cons] at hlen
  refine outcome_go h.inside ?_
  have hno : holdsAt p (s.i + 1) (· == 'Q') = some false := by
    rw [h.holdsAt 1]
    exact congrArg some (beq_eq_false_iff_ne.2 hquote)
  rw [turn, h.head, Option.bind_some, if_pos (by decide), escapeStep, if_neg (by omega), hno, Option.bind_some, hout, if_neg (by decide), hread]
  rfl

theorem read_escape {e : Escape} (h : Facing p s.i (e.text ++ behind)) (hout : s.inClass = false) (htop : 1 ≤ s.top) :
    ∃ s', AtomRead p s s' (s.i + e.text.length) 1 := by
  have hread := validationRe2Escape_read e h false
  obtain ⟨c, more, hfront, hquote⟩ := escape_second e
  rw [Escape.text, append_assoc] at h
  have hpast : Facing p (s.atom.moved (s.i + e.front.length)).i (e.rest ++ behind) := h.past
  rw [hfront] at h
  have hone := outcome_escaped h hout hquote hread
  have htops : 1 ≤ s.atom.top := le_trans htop (Nat.le_max_left _ _)
  obtain ⟨s', heq, hi, hout', hbelow, htop', hlast⟩ := outcome_digits (rest_digits e) hpast hout htops rfl
  refine ⟨s', ⟨⟨hone.trans heq, ?_, hout', hbelow⟩, htop', hlast⟩⟩
  rw [hi, Escape.text, length_append, ← Nat.add_assoc]
  rfl

theorem length_item_pos (item : ClassItem) : 1 ≤ item.text.length := by
  have hescape : ∀ e : Escape, 1 ≤ e.text.length := by
    intro e
    obtain ⟨c, more, hfront, -⟩ := escape_second e
    rw [Escape.text, hfront, length_append, length_cons]
    omega
  cases item with
  | named hat name plain | range low high =>
    rw [ClassItem.text, length_append, length_cons]
    omega
  | single c =>
    cases c with
    | plain d => exact Nat.le_refl 1
    | escaped e => exact hescape e

theorem read_klass {negated : Bool} {items : List ClassItem} (h : Facing p s.i ((Leaf.klass negated items).text ++ behind)) (hout : s.inClass = false)
    (hwritten : (Leaf.klass negated items).Written behind) (haligned : (Leaf.klass negated items).Aligned behind) :
    ∃ s', AtomRead p s s' (s.i + (Leaf.klass negated items).text.length) 1 := by
  obtain ⟨hset, hitems, hhat⟩ := hwritten
  have htext : Facing p s.i ('[' :: ((if negated then ['^'] else []) ++ (itemsText items ++ ']' :: behind))) := by
    simpa only [Leaf.text, append_assoc, cons_append, nil_append] using h
  obtain ⟨start, hstart⟩ : ∃ start, start = s.i + 1 + (if negated then ['^'] else []).length := ⟨_, rfl⟩
  obtain ⟨t, ht⟩ : ∃ t : Re2Scan, t = { s.atom with inClass := true, classStart := start, i := start } := ⟨_, rfl⟩
  have hopen : outcome p s = outcome p t := by
    have hnegated : isAt p (s.i + 1) '^' = some negated := by
      rw [htext.isAt 1]
      cases negated with
      | true => rfl
      | false =>
        have hfirst := hhat rfl
        obtain ⟨item, others, rfl⟩ := exists_cons_of_ne_nil hset
        have hpos := length_item_pos item
        obtain ⟨c, more, hc⟩ := exists_cons_of_length_pos hpos
        have hitemsText : itemsText (item :: others) = c :: (more ++ itemsText others) := by
          rw [itemsText, flatMap_cons, hc, cons_append]
          rfl
        rw [hitemsText] at hfirst ⊢
        exact congrArg some (beq_eq_false_iff_ne.2 fun heq => hfirst (congrArg some heq))
    refine outcome_go htext.inside ?_
    rw [turn, htext.head, Option.bind_some, if_neg (by decide), hout, if_neg Bool.false_ne_true, if_pos (by decide), openClass, hnegated, ht, hstart]
    cases negated <;> rfl
  have hfacing : Facing p t.i (itemsText items ++ ']' :: behind) := by
    rw [ht, hstart]
    exact htext.next.past
  have hread : outcome p t = outcome p (t.moved (t.i + (itemsText items).length)) :=
    outcome_items hfacing (by rw [ht]) (fun _ => by rw [ht]) hitems haligned
  have hclose : Facing p (t.moved (t.i + (itemsText items).length)).i (']' :: behind) := hfacing.past
  have hlong : 1 ≤ (itemsText items).length := by
    obtain ⟨item, others, rfl⟩ := exists_cons_of_ne_nil hset
    have hpos := length_item_pos item
    rw [itemsText, flatMap_cons, length_append]
    omega
  have hend : (t.moved (t.i + (itemsText items).length)).turn p =
      some (.go { t with inClass := false, i := t.i + (itemsText items).length + 1 }) := by
    have hbehind : decide (t.classStart < t.i + (itemsText items).length) = true := by
      rw [ht]
      exact decide_eq_true (show start < start + _ by omega)
    have hin : (t.moved (t.i + (itemsText items).length)).inClass = true := by
      rw [ht]
      rfl
    rw [turn, hclose.head, Option.bind_some, if_neg (by decide), if_pos hin, classStep, if_neg (by decide)]
    show some (Re2Step.go { t with
      inClass := !((']' == ']') && decide (t.classStart < t.i + (itemsText items).length)), i := _ }) = _
    rw [hbehind]
    rfl
  refine ⟨{ t with inClass := false, i := t.i + (itemsText items).length + 1 },
    ⟨⟨hopen.trans (hread.trans (outcome_go hclose.inside hend)), ?_, rfl, ?_⟩, ?_, ?_⟩⟩
  · show t.i + (itemsText items).length + 1 = _
    rw [ht, hstart, Leaf.text]
    simp only [length_append, length_cons, length_nil]
    omega
  all_goals
    rw [ht]
    rfl

/-- A leaf is an atom of weight 1. -/
theorem read_leaf {l : Leaf} (h : Facing p s.i (l.text ++ behind)) (hout : s.inClass = false) (htop : 1 ≤ s.top)
    (hwritten : l.Written behind) (haligned : l.Aligned behind) : ∃ s', AtomRead p s s' (s.i + l.text.length) 1 := by
  cases l with
  | char c =>
    exact ⟨_, ⟨⟨outcome_atom h hout hwritten.1 fun _ => hwritten.2, rfl, hout, rfl⟩, rfl, rfl⟩⟩
  | escape e => exact read_escape h hout htop
  | assertion c known =>
    have hmem := mem_of_elem_eq_true known
    have hd : p[s.i + 1]? = some c := h.get 1
    have hread : validationRe2Escape p s.i false = some ([], s.i + 2) := by
      have hfacts : ∀ c ∈ "AbBz".toList, (decide (c.toNat < 0x80) && !validationAsciiAlnum c) = false ∧
          (c == 'p' || c == 'P') = false ∧ (c == 'x') = false ∧ "dDsSwWafnrtv0".toList.elem c = false :=
        forall_of_all (by decide)
      obtain ⟨hsign, hp, hx, hletter⟩ := hfacts c hmem
      rw [validationRe2Escape, hd, Option.bind_some]
      dsimp only
      rw [hsign, hp, hx, hletter, known]
      rfl
    have hquote : c ≠ 'Q' := by
      rintro rfl
      cases known
    exact ⟨_, ⟨⟨outcome_escaped h hout hquote hread, rfl, hout, rfl⟩, rfl, rfl⟩⟩
  | klass negated items => exact read_klass h hout hwritten haligned

/-! ### Quotations and flag groups -/

theorem cutAt_quoted {text : Text} (h : Quotable text) (rest : Text) : cutAt ['\\', 'E'] (text ++ '\\' :: 'E' :: rest) = some (text, rest) := by
  induction text with
  | nil => exact cutAt_here (cons_ne_nil _ _) rest
  | cons c text ih =>
    have hno : ['\\', 'E'].isPrefixOf (c :: (text ++ '\\' :: 'E' :: rest)) = false := by
      refine Bool.eq_false_iff.2 fun hprefix => ?_
      obtain ⟨back, hback⟩ := isPrefixOf_iff_prefix.1 hprefix
      obtain ⟨rfl, htail⟩ := List.cons.inj hback
      cases text with
      | nil => exact absurd (List.cons.inj htail).1 (by decide)
      | cons d text =>
        cases htail
        exact h [] text rfl
    have hquotable : Quotable text := fun front back heq => h (c :: front) back (by rw [heq, cons_append])
    rw [cons_append, cutAt, hno, if_neg Bool.false_ne_true, ih hquotable, Option.map_some]

theorem outcome_quote {text : Text} (h : Facing p s.i ('\\' :: 'Q' :: text ++ ['\\', 'E'] ++ behind))
    (hout : s.inClass = false) (hquotable : Quotable text) :
    outcome p s = outcome p (s.atom.moved (s.i + ('\\' :: 'Q' :: text ++ ['\\', 'E']).length)) := by
  have htext : Facing p s.i ('\\' :: 'Q' :: (text ++ '\\' :: 'E' :: behind)) := by
    simpa only [append_assoc, cons_append, nil_append] using h
  have hlen := htext.length
  rw [length_cons, length_cons] at hlen
  have hindex : indexOf p ['\\', 'E'] (s.i + 2) = some (s.i + 2 + text.length) := by
    rw [htext.indexOf 2]
    exact congrArg (Option.map _) (cutAt_quoted hquotable behind)
  have hquote : holdsAt p (s.i + 1) (· == 'Q') = some true := htext.holdsAt 1 _
  have hgo : s.turn p = some (.go (s.atom.moved (s.i + 2 + text.length + 2))) := by
    rw [turn, htext.head, Option.bind_some, if_pos (by decide), escapeStep, if_neg (by omega), hquote, Option.bind_some,
      hout, if_pos (by decide), hindex]
    rfl
  have hstop : s.i + 2 + text.length + 2 = s.i + ('\\' :: 'Q' :: text ++ ['\\', 'E']).length := by
    simp only [length_append, length_cons, length_nil]
    omega
  rw [outcome_go htext.inside hgo, hstop]

theorem groupFlags_letters {whole flags : Text} (hflags : ∀ c ∈ flags, "imsU".toList.elem c = true) (more : Text)
    (k : Nat) (negated sawFlag : Bool) : groupFlags whole (flags ++ more) k negated sawFlag =
    groupFlags whole more (k + flags.length) negated (sawFlag || !flags.isEmpty) := by
  induction flags generalizing k sawFlag with
  | nil => rw [nil_append, length_nil, isEmpty_nil, Bool.not_true, Bool.or_false, Nat.add_zero]
  | cons c flags ih =>
    have hmem := mem_of_elem_eq_true (hflags c mem_cons_self)
    have hfacts : ∀ c ∈ "imsU".toList, (c == ':' || c == ')') = false ∧ (c == '-') = false ∧
        (c == 'i' || c == 'm' || c == 's' || c == 'U') = true := forall_of_all (by decide)
    obtain ⟨hend, hminus, hflag⟩ := hfacts c hmem
    rw [cons_append, groupFlags, hend, hminus, hflag, if_neg Bool.false_ne_true, if_neg Bool.false_ne_true,
      if_pos rfl, ih fun d hd => hflags d (mem_cons_of_mem c hd)]
    rw [length_cons, isEmpty_cons, Bool.not_false, Bool.or_true, Bool.true_or, Nat.add_right_comm]
    rfl

/-- Flags up to their end. -/
theorem validationRe2Group_flags (flags : Flags) {close : Char} (hclose : close = ':' ∨ close = ')') (more : Text) :
    validationRe2Group (flags.text ++ close :: more) = { bad := [], length := flags.text.length + 1, opens := close == ':' } := by
  obtain ⟨on, off, known⟩ := flags
  have hon : ∀ c ∈ on, "imsU".toList.elem c = true := fun c hc => known c (mem_append_left _ hc)
  have hoff : ∀ c ∈ off, "imsU".toList.elem c = true := fun c hc => known c (mem_append_right _ hc)
  have hcloses : (close == ':' || close == ')') = true := by
    rcases hclose with rfl | rfl <;> rfl
  obtain ⟨whole, hwhole⟩ : ∃ whole, (Flags.mk on off known).text ++ close :: more = whole := ⟨_, rfl⟩
  have hflags : groupFlags whole whole 0 false false = { bad := [], length := (Flags.mk on off known).text.length + 1, opens := close == ':' } := by
    have hend : ∀ k negated sawFlag, (negated = true → sawFlag = true) →
        groupFlags whole (close :: more) k negated sawFlag = { bad := [], length := k + 1, opens := close == ':' } := by
      intro k negated sawFlag hsaw
      have hno : (negated && !sawFlag) = false := by
        cases negated with
        | false => rfl
        | true => rw [hsaw rfl]; rfl
      rw [groupFlags, hcloses, if_pos rfl, hno, if_neg Bool.false_ne_true]
    rw [← congrArg (groupFlags whole · 0 false false) hwhole, Flags.text]
    by_cases hnone : off = []
    · rw [if_pos hnone, append_nil, groupFlags_letters hon, hend _ false _ nofun, Nat.zero_add]
    · have hminus : groupFlags whole ('-' :: (off ++ close :: more)) (0 + on.length) false (false || !on.isEmpty) =
          groupFlags whole (off ++ close :: more) (0 + on.length + 1) true false := by
        rw [groupFlags, if_neg (by decide), if_pos (by decide), if_neg Bool.false_ne_true]
      have hset : (false || !off.isEmpty) = true := by
        rw [isEmpty_eq_false_iff.2 hnone]
        rfl
      rw [if_neg hnone, append_assoc, groupFlags_letters hon, cons_append, hminus, groupFlags_letters hoff,
        hend _ _ _ (fun _ => hset), length_append, length_cons]
      congr 2
      show 0 + on.length + 1 + off.length = on.length + (off.length + 1)
      omega
  have hfirst : ∃ c others, whole = c :: others ∧ "imsU-:)".toList.elem c = true ∧ (c = '-' → validationDigit (others.getD 0 '\x00') = false) := by
    have hletters : ∀ c ∈ "imsU".toList, "imsU-:)".toList.elem c = true ∧ c ≠ '-' ∧ validationDigit c = false :=
      forall_of_all (by decide)
    rw [← hwhole, Flags.text]
    cases on with
    | cons c on =>
      have hc := hletters c (mem_of_elem_eq_true (hon c mem_cons_self))
      exact ⟨c, _, rfl, hc.1, fun heq => absurd heq hc.2.1⟩
    | nil =>
      cases off with
      | nil =>
        rcases hclose with rfl | rfl
        · exact ⟨':', more, rfl, by decide, fun heq => absurd heq (by decide)⟩
        · exact ⟨')', more, rfl, by decide, fun heq => absurd heq (by decide)⟩
      | cons c off =>
        have hc := hletters c (mem_of_elem_eq_true (hoff c mem_cons_self))
        exact ⟨'-', _, rfl, by decide, fun _ => hc.2.2⟩
  obtain ⟨c, others, hcons, hc, hdigit⟩ := hfirst
  have hfacts : ∀ c ∈ "imsU-:)".toList, (c == 'P') = false ∧ (c == '<') = false ∧
      "=!>(#|'R&+".toList.elem c = false ∧ validationDigit c = false := forall_of_all (by decide)
  obtain ⟨hpython, hangle, hspecial, hplain⟩ := hfacts c (mem_of_elem_eq_true hc)
  have hminus : (c == '-' && validationDigit (others.getD 0 '\x00')) = false := by
    by_cases heq : c = '-'
    · rw [hdigit heq, Bool.and_false]
    · rw [beq_eq_false_iff_ne.2 heq, Bool.false_and]
  rw [hwhole, ← hflags, hcons, validationRe2Group]
  show (if (c == 'P' && _ || c == '<' && _ && _) = true then _ else
    if (c == '<' || c == 'P' && _ || c == '-' && validationDigit (others.getD 0 '\x00')) = true then _ else
      if ("=!>(#|'R&+".toList.elem c || validationDigit c) = true then _ else _) = _
  rw [hpython, hangle, hspecial, hplain, hminus]
  rfl

theorem validationRe2Group_named (python : Bool) {name : Text} (known : validationGoCaptureName name = true)
    (more : Text) : validationRe2Group ((if python then ['P'] else []) ++ '<' :: name ++ '>' :: more) =
    { bad := [], length := ((if python then ['P'] else []) ++ '<' :: name).length + 1 } := by
  have hplain : ∀ c ∈ name, validationAsciiAlnum c = true ∨ c = '_' := by
    intro c hc
    rw [validationGoCaptureName, Bool.and_eq_true, all_eq_true] at known
    have hchar := known.2 c hc
    rw [Bool.or_eq_true, beq_iff_eq] at hchar
    exact hchar
  have hfree : ∀ d, validationAsciiAlnum d = false → d ≠ '_' → d ∉ name := by
    rintro d hd hne hmem
    rcases hplain d hmem with h | h
    · exact nomatch hd.symm.trans h
    · exact hne h
  have hclose : '>' ∉ (if python then ['P'] else []) ++ '<' :: name := by
    rw [mem_append, mem_cons, not_or, not_or]
    refine ⟨?_, by decide, hfree '>' (by decide) (by decide)⟩
    cases python <;> decide
  have hindex : indexOf ((if python then ['P'] else []) ++ '<' :: name ++ '>' :: more) ['>'] 0 =
      some ((if python then ['P'] else []) ++ '<' :: name).length := by
    rw [indexOf, drop_zero, (cutAt_char hclose more).2, Option.map_some, Nat.zero_add]
  rw [validationRe2Group, hindex]
  cases python with
  | true =>
    have hmid : mid ('P' :: '<' :: name ++ '>' :: more) 2 (('P' :: '<' :: name).length - 2) = name := by
      show (name ++ '>' :: more).take name.length = name
      exact take_left
    show (if !validationGoCaptureName (mid ('P' :: '<' :: name ++ '>' :: more) 2 (('P' :: '<' :: name).length - 2)) then _
      else _) = _
    rw [hmid, known]
    rfl
  | false =>
    have hmid : mid ('<' :: name ++ '>' :: more) 1 (('<' :: name).length - 1) = name := by
      show (name ++ '>' :: more).take name.length = name
      exact take_left
    have hset : name ≠ [] := by
      rintro rfl
      cases known
    obtain ⟨c, others, hc⟩ := exists_cons_of_ne_nil hset
    have hsecond : (('<' :: name ++ '>' :: more).getD 1 '\x00' != '=' && ('<' :: name ++ '>' :: more).getD 1 '\x00' != '!') = true := by
      have hne : ∀ d, validationAsciiAlnum d = false → d ≠ '_' → c ≠ d := by
        rintro d hd hno rfl
        exact hfree c hd hno (hc ▸ mem_cons_self)
      rw [hc]
      show (c != '=' && c != '!') = true
      rw [bne_iff_ne.2 (hne '=' (by decide) (by decide)), bne_iff_ne.2 (hne '!' (by decide) (by decide))]
      rfl
    have hnamed : (('<' == 'P' && ('<' :: name ++ '>' :: more).getD 1 '\x00' == '<') ||
        ('<' == '<' && ('<' :: name ++ '>' :: more).getD 1 '\x00' != '=' && ('<' :: name ++ '>' :: more).getD 1 '\x00' != '!')) = true := by
      rw [show ('<' == 'P') = false by decide, show ('<' == '<') = true by decide, Bool.true_and, hsecond]
      rfl
    show (if (('<' == 'P' && ('<' :: name ++ '>' :: more).getD 1 '\x00' == '<') ||
        ('<' == '<' && ('<' :: name ++ '>' :: more).getD 1 '\x00' != '=' && ('<' :: name ++ '>' :: more).getD 1 '\x00' != '!')) = true then
      if !validationGoCaptureName (mid ('<' :: name ++ '>' :: more) 1 (('<' :: name).length - 1)) then _ else _
      else _) = _
    rw [if_pos hnamed, hmid, known]
    rfl

/-- A group of Go's flags or names. -/
theorem outcome_special {group : ValidationRe2Group} (h : Facing p s.i ('(' :: '?' :: rest)) (hout : s.inClass = false)
    (hgroup : validationRe2Group rest = group) (hbad : group.bad = []) :
    outcome p s = outcome p ((if group.opens then s.commit.push else s.commit).moved (s.i + 2 + group.length)) := by
  have hverb : isAt p (s.i + 1) '*' = some false := h.isAt 1 '*'
  have hspecial : isAt p (s.i + 1) '?' = some true := h.isAt 1 '?'
  have hdrop : p.drop (s.i + 2) = rest := h.drop 2
  refine outcome_go h.inside ?_
  rw [turn, h.head, Option.bind_some, if_neg (by decide), hout, if_neg Bool.false_ne_true, if_neg (by decide),
    if_pos (by decide), openGroup, hverb, Option.bind_some, if_neg Bool.false_ne_true, hspecial, Option.map_some,
    if_pos rfl, hdrop, hgroup]
  dsimp only
  rw [if_neg (by rw [hbad]; exact fun hno => hno rfl)]

/-- A group is opened. -/
theorem outcome_opening {kind : GroupKind} (h : Facing p s.i (kind.opening ++ rest)) (hout : s.inClass = false)
    (hcalm : Calm rest) : outcome p s = outcome p (s.commit.push.moved (s.i + kind.opening.length)) := by
  cases kind with
  | capture =>
    have hno : ∀ c, (c = '*' ∨ c = '?') → isAt p (s.i + 1) c = some false := by
      intro c hc
      rw [h.isAt 1]
      cases rest with
      | nil => rfl
      | cons d rest =>
        obtain ⟨hstar, -, hquest⟩ := hcalm d rfl
        refine congrArg some (beq_eq_false_iff_ne.2 ?_)
        rcases hc with rfl | rfl
        · exact hstar
        · exact hquest
    refine outcome_go h.inside ?_
    rw [turn, h.head, Option.bind_some, if_neg (by decide), hout, if_neg Bool.false_ne_true, if_neg (by decide),
      if_pos (by decide), openGroup, hno '*' (.inl rfl), Option.bind_some, if_neg Bool.false_ne_true,
      hno '?' (.inr rfl)]
    rfl
  | named python name known =>
    have htext : Facing p s.i ('(' :: '?' :: ((if python then ['P'] else []) ++ '<' :: name ++ '>' :: rest)) := by
      simpa only [GroupKind.opening, append_assoc, cons_append, nil_append] using h
    have hlen : s.i + 2 + (((if python then ['P'] else []) ++ '<' :: name).length + 1) =
        s.i + (GroupKind.named python name known).opening.length := by
      simp only [GroupKind.opening, length_append, length_cons, length_nil]
      omega
    rw [outcome_special htext hout (validationRe2Group_named python known rest) rfl, ← hlen]
    rfl
  | flagged flags =>
    have htext : Facing p s.i ('(' :: '?' :: (flags.text ++ ':' :: rest)) := by
      simpa only [GroupKind.opening, append_assoc, cons_append, nil_append] using h
    have hlen : s.i + 2 + (flags.text.length + 1) = s.i + (GroupKind.flagged flags).opening.length := by
      simp only [GroupKind.opening, length_append, length_cons, length_nil]
      omega
    rw [outcome_special htext hout (validationRe2Group_flags flags (.inl rfl) rest) rfl, ← hlen]
    rfl

/-- What a gap leaves of the last weight: a flag group is no atom, an empty quotation one of its own. -/
def gapped (s : Re2Scan) : Gap → Re2Scan
  | .flags _ => s.commit
  | .nothing => s.atom

theorem outcome_gap (g : Gap) (h : Facing p s.i (g.text ++ rest)) (hout : s.inClass = false) :
    outcome p s = outcome p ((s.gapped g).moved (s.i + g.text.length)) := by
  cases g with
  | flags flags =>
    have htext : Facing p s.i ('(' :: '?' :: (flags.text ++ ')' :: rest)) := by
      simpa only [Gap.text, append_assoc, cons_append, nil_append] using h
    have hlen : s.i + 2 + (flags.text.length + 1) = s.i + (Gap.flags flags).text.length := by
      simp only [Gap.text, length_append, length_cons, length_nil]
      omega
    rw [outcome_special htext hout (validationRe2Group_flags flags (.inr rfl) rest) rfl, ← hlen]
    rfl
  | nothing =>
    have hquotable : Quotable [] := by
      intro front back heq
      cases front <;> cases heq
    have htext : Facing p s.i ('\\' :: 'Q' :: [] ++ ['\\', 'E'] ++ rest) := h
    exact outcome_quote htext hout hquotable

theorem outcome_closing (h : Facing p s.i (')' :: rest)) (hout : s.inClass = false) : outcome p s = outcome p (s.commit.pop.moved (s.i + 1)) := by
  refine outcome_go h.inside ?_
  rw [turn, h.head, Option.bind_some, if_neg (by decide), hout, if_neg Bool.false_ne_true, if_neg (by decide), if_neg (by decide), if_pos (by decide)]

theorem outcome_bar (h : Facing p s.i ('|' :: rest)) (hout : s.inClass = false) : outcome p s = outcome p (s.commit.moved (s.i + 1)) := by
  refine outcome_go h.inside ?_
  rw [turn, h.head, Option.bind_some, if_neg (by decide), hout, if_neg Bool.false_ne_true, if_neg (by decide),
    if_neg (by decide), if_neg (by decide), if_pos (by decide)]

/-! ### Repeats -/

/-- A `?` behind a repeat. -/
def lazyText (lazily : Bool) : Text := if lazily then ['?'] else []

variable {lazily : Bool}

theorem lazyStep_read {t : Re2Scan} {i : Nat} (h : Facing p i (lazyText lazily ++ behind)) (hcalm : Calm behind) :
    t.lazyStep p i = some (.go (t.moved (i + (lazyText lazily).length))) := by
  have hquest : isAt p i '?' = some lazily := by
    refine (h.isAt 0 '?').trans ?_
    cases lazily with
    | true => rfl
    | false =>
      cases behind with
      | nil => rfl
      | cons c behind => exact congrArg some (beq_eq_false_iff_ne.2 (hcalm c rfl).2.2)
  rw [lazyStep, hquest, Option.map_some]
  cases lazily <;> rfl

theorem not_possessive {i : Nat} (h : Facing p i (lazyText lazily ++ behind)) (hcalm : Calm behind) : isAt p i '+' = some false := by
  refine (h.isAt 0 '+').trans ?_
  cases lazily with
  | true => rfl
  | false =>
    cases behind with
    | nil => rfl
    | cons c behind => exact congrArg some (beq_eq_false_iff_ne.2 (hcalm c rfl).2.1)

theorem outcome_simple {c : Char} (hc : c = '*' ∨ c = '+' ∨ c = '?')
    (h : Facing p s.i (c :: (lazyText lazily ++ behind))) (hout : s.inClass = false) (hcalm : Calm behind) :
    outcome p s = outcome p (s.moved (s.i + 1 + (lazyText lazily).length)) := by
  refine outcome_go h.inside ?_
  have hturn : s.turn p = s.repeatStep p := by
    rw [turn, h.head, Option.bind_some, hout]
    rcases hc with rfl | rfl | rfl <;> rfl
  rw [hturn, repeatStep, not_possessive h.next hcalm, Option.bind_some, if_neg Bool.false_ne_true, lazyStep_read h.next hcalm]

theorem outcome_count {c : Count} (h : Facing p s.i (c.text ++ (lazyText lazily ++ behind))) (hout : s.inClass = false) (hcalm : Calm behind) :
    ((RepeatOp.count c).TooMany s.last → outcome p s = some .tooManyRepeats) ∧ (¬(RepeatOp.count c).TooMany s.last → outcome p s = outcome p
    ({ s with last := (RepeatOp.count c).weigh s.last }.moved (s.i + c.text.length + (lazyText lazily).length))) := by
  obtain ⟨rest, hrest⟩ : ∃ rest, c.text ++ (lazyText lazily ++ behind) = '{' :: rest := ⟨_, rfl⟩
  have hend := validationRepeatEnd_read c h
  have hpast : Facing p (s.i + c.text.length) (lazyText lazily ++ behind) := h.past
  rw [hrest] at h
  have hturn : s.turn p = s.countStep p := by
    rw [turn, h.head, Option.bind_some, hout]
    rfl
  have hin := h.inside
  rw [countStep, hend, Option.bind_some] at hturn
  dsimp only at hturn
  rw [RepeatOp.TooMany, RepeatOp.weigh]
  rcases c.read_cases with ⟨hlarge, hbounds⟩ | ⟨hfine, hmin, hmax, hminRead, hmaxRead⟩
  · rw [hlarge, if_pos rfl] at hturn
    have hdone := outcome_done hin hturn
    exact ⟨fun _ => hdone, fun hno => absurd (hbounds.elim .inl fun hmax => .inr (.inl hmax)) hno⟩
  · rw [hfine, if_neg Bool.false_ne_true, not_possessive hpast hcalm, Option.bind_some, if_neg Bool.false_ne_true, hminRead, hmaxRead] at hturn
    have hno : ¬1000 < c.min.value ∧ ¬∃ m ∈ c.max, 1000 < m :=
      ⟨Nat.not_lt.2 hmin, fun h => h.elim fun m hm => absurd (hmax m hm.1) (Nat.not_le.2 hm.2)⟩
    rw [or_iff_right hno.1, or_iff_right hno.2]
    by_cases hzero : c.max = some 0
    · rw [if_pos hzero, lazyStep_read hpast hcalm] at hturn
      rw [if_pos hzero]
      exact ⟨fun hmany => absurd hzero hmany.1, fun _ => outcome_go hin hturn⟩
    · rw [if_neg hzero] at hturn
      rw [if_neg hzero]
      by_cases hone : 1 < c.max.getD c.min.value
      · rw [if_pos hone] at hturn
        rw [if_pos hone]
        by_cases hproduct : s.last * c.max.getD c.min.value > 1000
        · rw [if_pos hproduct] at hturn
          exact ⟨fun _ => outcome_done hin hturn, fun hfew => absurd ⟨hzero, hone, hproduct⟩ hfew⟩
        · rw [if_neg hproduct, lazyStep_read hpast hcalm] at hturn
          exact ⟨fun hmany => absurd hmany.2.2 hproduct, fun _ => outcome_go hin hturn⟩
      · rw [if_neg hone, lazyStep_read hpast hcalm] at hturn
        rw [if_neg hone]
        exact ⟨fun hmany => absurd hmany.2.1 hone, fun _ => outcome_go hin hturn⟩

/-- A repeat of what weighs `s.last`. -/
theorem outcome_repeat {op : RepeatOp} (h : Facing p s.i (op.text ++ (lazyText lazily ++ behind)))
    (hout : s.inClass = false) (hcalm : Calm behind) : (op.TooMany s.last → outcome p s = some .tooManyRepeats) ∧
    (¬op.TooMany s.last → outcome p s =
    outcome p ({ s with last := op.weigh s.last }.moved (s.i + op.text.length + (lazyText lazily).length))) := by
  cases op with
  | star => exact ⟨False.elim, fun _ => outcome_simple (.inl rfl) h hout hcalm⟩
  | plus => exact ⟨False.elim, fun _ => outcome_simple (.inr (.inl rfl)) h hout hcalm⟩
  | quest => exact ⟨False.elim, fun _ => outcome_simple (.inr (.inr rfl)) h hout hcalm⟩
  | count c => exact outcome_count h hout hcalm

/-- The last gap alone counts. -/
theorem behindGaps_cons (v w : Nat) (g g' : Gap) (gaps : List Gap) : behindGaps v (g' :: gaps) = behindGaps w (g :: g' :: gaps) := by
  rw [behindGaps, behindGaps, getLast?_cons_cons]
  cases hget : (g' :: gaps).getLast? with
  | none => exact absurd (getLast?_eq_none_iff.1 hget) (cons_ne_nil _ _)
  | some last => cases last <;> rfl

/-- The gaps between a repeat and what it repeats. -/
theorem outcome_gaps (gaps : List Gap) (h : Facing p s.i (gaps.flatMap Gap.text ++ rest)) (hout : s.inClass = false) (htop : 1 ≤ s.top) :
    ∃ s', Reached p s s' (s.i + (gaps.flatMap Gap.text).length) ∧ s'.last = behindGaps s.last gaps ∧
    s'.top = if gaps.isEmpty then s.top else max s.top s.last := by
  induction gaps generalizing s with
  | nil => exact ⟨s, ⟨rfl, rfl, hout, rfl⟩, rfl, rfl⟩
  | cons g gaps ih =>
    rw [flatMap_cons, append_assoc] at h
    have hgap := outcome_gap g h hout
    obtain ⟨t, ht⟩ : ∃ t, t = (s.gapped g).moved (s.i + g.text.length) := ⟨_, rfl⟩
    have hplace : t.i = s.i + g.text.length := by rw [ht]; rfl
    have hfacts : t.inClass = false ∧ t.below = s.below ∧ t.top = max s.top s.last ∧ t.last ≤ 1 ∧ t.last = behindGaps s.last [g] := by
      rw [ht]
      cases g with
      | flags flags => exact ⟨hout, rfl, rfl, Nat.zero_le 1, rfl⟩
      | nothing => exact ⟨hout, rfl, rfl, Nat.le_refl 1, rfl⟩
    obtain ⟨hout', hbelow, htop', hsmall, hlast⟩ := hfacts
    have hnext : Facing p t.i (gaps.flatMap Gap.text ++ rest) := by
      rw [hplace]
      exact h.past
    obtain ⟨s', hreached, hlast', htops⟩ := ih hnext hout' (by rw [htop']; exact htop.trans (Nat.le_max_left _ _))
    have hone : Reached p s t (s.i + g.text.length) := ⟨hgap.trans (by rw [ht]), hplace, hout', hbelow⟩
    refine ⟨s', ?_, ?_, ?_⟩
    · have hboth := hone.trans hreached
      rwa [hplace, Nat.add_assoc, ← length_append, ← flatMap_cons] at hboth
    · rw [hlast']
      cases gaps with
      | nil => exact hlast
      | cons g' gaps => exact behindGaps_cons t.last s.last g g' gaps
    · rw [htops]
      cases gaps with
      | nil => exact htop'
      | cons g' gaps =>
        show max t.top t.last = max s.top s.last
        rw [← htop']
        omega

end Pieces

/-! ## The whole expression -/

section Whole

variable {p behind : Text} {s : Re2Scan}

/-- The scan over a piece: it sees too many repeats there, or what the piece weighs. -/
structure Scans (p : Text) (s : Re2Scan) (i w : Nat) (tooMany : Prop) (atom : Bool) : Prop where
  few : ¬tooMany → ∃ s', Reached p s s' i ∧ 1 ≤ s'.top ∧ max s'.top s'.last = max (max s.top s.last) w ∧
    (atom = true → s'.top = max s.top s.last ∧ s'.last = w)
  many : tooMany → outcome p s = some .tooManyRepeats

variable {tooMany : Prop} {atom : Bool}

theorem Scans.append {i j w w' : Nat} {tooMany' : Prop} {atom' : Bool} (h : Scans p s i w tooMany atom)
    (h' : ¬tooMany → ∀ t : Re2Scan, t.i = i → t.inClass = false → 1 ≤ t.top → Scans p t j w' tooMany' atom') :
    Scans p s j (max w w') (tooMany ∨ tooMany') false := by
  constructor
  · intro hno
    rw [not_or] at hno
    obtain ⟨t, hreached, htop, hweight, -⟩ := h.few hno.1
    obtain ⟨t', hreached', htop', hweight', -⟩ := (h' hno.1 t hreached.place hreached.outside htop).few hno.2
    refine ⟨t', hreached.trans hreached', htop', ?_, nofun⟩
    rw [hweight', hweight, Nat.max_assoc]
  · intro hmany
    by_cases hfirst : tooMany
    · exact h.many hfirst
    · obtain ⟨t, hreached, htop, -, -⟩ := h.few hfirst
      rw [hreached.same]
      exact (h' hfirst t hreached.place hreached.outside htop).many (hmany.resolve_left hfirst)

variable {text : Text}

theorem scans_group {kind : GroupKind} {w : Nat}
    (h : Facing p s.i (kind.opening ++ (text ++ ')' :: behind))) (hout : s.inClass = false) (htop : 1 ≤ s.top)
    (hcalm : Calm (text ++ ')' :: behind)) (hw : 1 ≤ w)
    (hinner : ∀ t : Re2Scan, Facing p t.i (text ++ ')' :: behind) → t.inClass = false → 1 ≤ t.top →
    Scans p t (t.i + text.length) w tooMany atom) : Scans p s (s.i + (kind.opening ++ text ++ [')']).length) w tooMany true := by
  obtain ⟨t, ht⟩ : ∃ t, t = s.commit.push.moved (s.i + kind.opening.length) := ⟨_, rfl⟩
  have hopen : outcome p s = outcome p t := by
    rw [ht]
    exact outcome_opening h hout hcalm
  have hfacing : Facing p t.i (text ++ ')' :: behind) := by
    rw [ht]
    exact h.past
  have hscans := hinner t hfacing (by rw [ht]; exact hout) (by rw [ht]; exact Nat.le_refl 1)
  constructor
  · intro hfew
    obtain ⟨t', hreached, htop', hweight, -⟩ := hscans.few hfew
    have hclose : Facing p t'.i (')' :: behind) := by
      rw [hreached.place]
      exact hfacing.past
    have hbelow : t'.below = max s.top s.last :: s.below := by
      rw [hreached.below, ht]
      rfl
    have hw' : max t'.top t'.last = w := by
      rw [hweight, ht]
      show max (max 1 0) w = w
      omega
    have hpop : t'.commit.pop = { t' with top := max s.top s.last, below := s.below, last := w } := by
      rw [pop, commit]
      dsimp only
      rw [hbelow, hw']
    refine ⟨t'.commit.pop.moved (t'.i + 1),
      ⟨hopen.trans (hreached.same.trans (outcome_closing hclose hreached.outside)), ?_, ?_, ?_⟩, ?_, ?_, fun _ => ?_⟩
    · show t'.i + 1 = _
      rw [hreached.place, ht]
      simp only [length_append, length_cons, length_nil]
      show s.i + kind.opening.length + text.length + 1 = _
      omega
    · rw [hpop]
      exact hreached.outside
    · rw [hpop]
      rfl
    · rw [hpop]
      exact htop.trans (Nat.le_max_left _ _)
    · rw [hpop]
      rfl
    · rw [hpop]
      exact ⟨rfl, rfl⟩
  · exact fun hmany => hopen.trans (hscans.many hmany)

theorem calm_cons {c : Char} (h : "*+?".toList.elem c = false) (rest : Text) : Calm (c :: rest) := by
  rintro d ⟨⟩
  refine ⟨?_, ?_, ?_⟩
  all_goals
    rintro rfl
    cases h

/-- A piece, with a group around it where it needs one. -/
theorem scans_wrapped {w : Nat} (wrap : Bool) (h : Facing p s.i (wrapped wrap text ++ behind)) (hout : s.inClass = false) (htop : 1 ≤ s.top)
    (hcalm : wrap = true → Calm (text ++ ')' :: behind)) (hw : 1 ≤ w)
    (hinner : ∀ t : Re2Scan, Facing p t.i (text ++ wrapEnd wrap behind) → t.inClass = false → 1 ≤ t.top →
    Scans p t (t.i + text.length) w tooMany atom) : Scans p s (s.i + (wrapped wrap text).length) w tooMany (wrap || atom) := by
  cases wrap with
  | false => exact hinner s h hout htop
  | true =>
    have hflags : (GroupKind.flagged ⟨[], [], nofun⟩).opening = ['(', '?', ':'] := rfl
    have htext : Facing p s.i ((GroupKind.flagged ⟨[], [], nofun⟩).opening ++ (text ++ ')' :: behind)) := by
      rw [hflags]
      simpa only [wrapped, if_true, append_assoc, cons_append, nil_append] using h
    have hgroup := scans_group htext hout htop (hcalm rfl) hw hinner
    rwa [hflags] at hgroup

theorem calm_leaf {l : Leaf} (h : l.Written behind) (rest : Text) : Calm (l.text ++ rest) := by
  cases l with
  | char c =>
    refine calm_cons (Bool.eq_false_iff.2 fun hc => ?_) rest
    have hsub : ∀ c ∈ "*+?".toList, "\\[()|*+?".toList.elem c = true := forall_of_all (by decide)
    exact nomatch h.1.symm.trans (hsub c (mem_of_elem_eq_true hc))
  | escape e =>
    obtain ⟨c, more, hfront, -⟩ := escape_second e
    rw [Leaf.text, Escape.text, hfront]
    exact calm_cons (by decide) _
  | assertion c known | klass negated items => exact calm_cons (by decide) _

theorem calm_wrapped {wrap : Bool} (h : wrap = false → Calm (text ++ behind)) : Calm (wrapped wrap text ++ behind) := by
  cases wrap with
  | false => exact h rfl
  | true => exact calm_cons (by decide) _

theorem calm_opening (kind : GroupKind) (rest : Text) : Calm (kind.opening ++ rest) := by
  cases kind with
  | capture | named python name known | flagged flags => exact calm_cons (by decide) _

/-- No expression begins with a repeat. -/
theorem calm_text (t : Regexp) (h : t.Written behind) (hcalm : t.isAtom = true ∨ Calm behind) : Calm (t.text ++ behind) := by
  induction t generalizing behind with
  | empty => exact hcalm.resolve_left nofun
  | leaf l => exact calm_leaf h behind
  | quote text => exact calm_cons (by decide) _
  | gap g => cases g <;> exact calm_cons (by decide) _
  | concat a b iha ihb =>
    have hbehind := hcalm.resolve_left nofun
    rw [Regexp.text, append_assoc]
    have hb : Calm (wrapped b.isAlternate b.text ++ behind) := by
      refine calm_wrapped fun hwrap => ihb ?_ (.inr hbehind)
      have hwritten := h.2
      rwa [hwrap] at hwritten
    refine calm_wrapped fun hwrap => iha ?_ (.inr hb)
    have hwritten := h.1
    rwa [hwrap] at hwritten
  | alternate a b iha ihb =>
    rw [Regexp.text, append_assoc]
    exact iha h.1 (.inr (calm_cons (by decide) _))
  | group kind sub ih =>
    rw [Regexp.text, append_assoc, append_assoc]
    exact calm_opening kind _
  | repeated sub gaps op lazily ih =>
    rw [Regexp.text, append_assoc, append_assoc, append_assoc]
    refine calm_wrapped fun hwrap => ih ?_ (.inl ?_)
    · have hwritten : sub.Written _ := h
      rwa [hwrap] at hwritten
    · rw [Bool.not_eq_false'] at hwrap
      exact hwrap

theorem wrapEnd_calm {wrap : Bool} (h : wrap = false → atom = true ∨ Calm behind) : atom = true ∨ Calm (wrapEnd wrap behind) := by
  cases wrap with
  | false => exact h rfl
  | true => exact .inr (calm_cons (by decide) _)

theorem scans_bar {w : Nat} (h : Facing p s.i ('|' :: (text ++ behind))) (hout : s.inClass = false) (htop : 1 ≤ s.top)
    (hinner : ∀ t : Re2Scan, Facing p t.i (text ++ behind) → t.inClass = false → 1 ≤ t.top →
    Scans p t (t.i + text.length) w tooMany atom) : Scans p s (s.i + ('|' :: text).length) w tooMany false := by
  have hbar := outcome_bar h hout
  have hscans := hinner (s.commit.moved (s.i + 1)) h.next hout (htop.trans (Nat.le_max_left _ _))
  constructor
  · intro hfew
    obtain ⟨t, hreached, htop', hweight, -⟩ := hscans.few hfew
    refine ⟨t, ⟨hbar.trans hreached.same, ?_, hreached.outside, hreached.below⟩, htop', ?_, nofun⟩
    · rw [hreached.place, length_cons]
      show s.i + 1 + text.length = _
      omega
    · rw [hweight]
      show max (max (max s.top s.last) 0) w = _
      rw [Nat.max_zero]
  · exact fun hmany => hbar.trans (hscans.many hmany)

/-- A repeat behind what it repeats, and the gaps between them. -/
theorem scans_repeat {w : Nat} {gaps : List Gap} {op : RepeatOp} {lazily : Bool}
    (h : Facing p s.i (text ++ (gaps.flatMap Gap.text ++ (op.text ++ (lazyText lazily ++ behind)))))
    (hcalm : Calm behind) (hscans : Scans p s (s.i + text.length) w tooMany true) :
    Scans p s (s.i + (text ++ gaps.flatMap Gap.text ++ op.text ++ lazyText lazily).length)
    (if gaps.isEmpty then op.weigh w else max w (op.weigh (behindGaps w gaps))) (tooMany ∨ op.TooMany (behindGaps w gaps)) false := by
  have hread : ¬tooMany → ∃ t, Reached p s t (s.i + text.length + (gaps.flatMap Gap.text).length) ∧ 1 ≤ t.top ∧ t.last = behindGaps w gaps ∧
      t.top = if gaps.isEmpty then max s.top s.last else max (max s.top s.last) w := by
    intro hfew
    obtain ⟨t, hreached, htop, -, hatom⟩ := hscans.few hfew
    obtain ⟨htops, hlast⟩ := hatom rfl
    have hgaps : Facing p t.i (gaps.flatMap Gap.text ++ (op.text ++ (lazyText lazily ++ behind))) := by
      rw [hreached.place]
      exact h.past
    obtain ⟨t', hreached', hlast', htops'⟩ := outcome_gaps gaps hgaps hreached.outside htop
    rw [hlast] at hlast' htops'
    rw [htops] at htops'
    rw [hreached.place] at hreached'
    refine ⟨t', hreached.trans hreached', ?_, hlast', htops'⟩
    rw [htops']
    split <;> omega
  constructor
  · intro hno
    rw [not_or] at hno
    obtain ⟨t, hreached, htop, hlast, htops⟩ := hread hno.1
    have hop : Facing p t.i (op.text ++ (lazyText lazily ++ behind)) := by
      rw [hreached.place]
      exact h.past.past
    have hrepeat := (outcome_repeat hop hreached.outside hcalm).2 (by rw [hlast]; exact hno.2)
    refine ⟨_, ⟨hreached.same.trans hrepeat, ?_, hreached.outside, hreached.below⟩, htop, ?_, nofun⟩
    · show t.i + op.text.length + (lazyText lazily).length = _
      rw [hreached.place]
      simp only [length_append]
      omega
    · show max t.top (op.weigh t.last) = _
      rw [htops, hlast]
      cases gaps with
      | nil => rfl
      | cons g gaps => exact Nat.max_assoc _ _ _
  · intro hmany
    by_cases hfirst : tooMany
    · exact hscans.many hfirst
    · obtain ⟨t, hreached, htop, hlast, -⟩ := hread hfirst
      have hop : Facing p t.i (op.text ++ (lazyText lazily ++ behind)) := by
        rw [hreached.place]
        exact h.past.past
      rw [hreached.same]
      exact (outcome_repeat hop hreached.outside hcalm).1 (by rw [hlast]; exact hmany.resolve_left hfirst)

/-- Over the text of an expression the scan sees what `seen` says. -/
theorem scans_text (t : Regexp) (h : Facing p s.i (t.text ++ behind)) (hout : s.inClass = false) (htop : 1 ≤ s.top)
    (hwritten : t.Written behind) (haligned : t.Aligned behind) (hcalm : t.isAtom = true ∨ Calm behind) :
    Scans p s (s.i + t.text.length) t.seen t.SeenTooMany t.isAtom := by
  induction t generalizing s behind with
  | empty =>
    refine ⟨fun _ => ⟨s, ⟨rfl, rfl, hout, rfl⟩, htop, ?_, nofun⟩, False.elim⟩
    show max s.top s.last = max (max s.top s.last) 1
    omega
  | leaf l =>
    obtain ⟨s', hread⟩ := read_leaf h hout htop hwritten haligned
    refine ⟨fun _ => ⟨s', hread.toReached, ?_, ?_, fun _ => ⟨hread.top, hread.last⟩⟩, False.elim⟩
    · rw [hread.top]
      exact htop.trans (Nat.le_max_left _ _)
    · rw [hread.top, hread.last]
      rfl
  | quote text =>
    refine ⟨fun _ => ⟨_, ⟨outcome_quote h hout hwritten, rfl, hout, rfl⟩, ?_, rfl, nofun⟩, False.elim⟩
    exact htop.trans (Nat.le_max_left _ _)
  | gap g =>
    refine ⟨fun _ => ⟨_, ⟨outcome_gap g h hout, rfl, ?_, ?_⟩, ?_, ?_, nofun⟩, False.elim⟩
    · cases g <;> exact hout
    · cases g <;> rfl
    · cases g <;> exact htop.trans (Nat.le_max_left _ _)
    · cases g with
      | flags flags =>
        show max (max s.top s.last) 0 = max (max s.top s.last) 1
        omega
      | nothing => rfl
  | concat a b iha ihb =>
    have hbehind := hcalm.resolve_left nofun
    rw [Regexp.text, append_assoc] at h
    have hb : Calm (wrapped b.isAlternate b.text ++ behind) := by
      refine calm_wrapped fun hwrap => calm_text b ?_ (.inr hbehind)
      have hwritten := hwritten.2
      rwa [hwrap] at hwritten
    have hfirst := scans_wrapped a.isAlternate h hout htop
      (fun hwrap => calm_text a (by have hw := hwritten.1; rwa [hwrap] at hw) (.inr (calm_cons (by decide) _)))
      a.seen_pos fun t ht hout' htop' =>
        iha ht hout' htop' hwritten.1 haligned.1 (wrapEnd_calm fun _ => .inr hb)
    have hsecond : ¬a.SeenTooMany → ∀ t : Re2Scan, t.i = s.i + (wrapped a.isAlternate a.text).length → t.inClass = false → 1 ≤ t.top →
        Scans p t (s.i + (Regexp.concat a b).text.length) b.seen b.SeenTooMany (b.isAlternate || b.isAtom) := by
      intro hfew t hplace hout' htop'
      have hnext : Facing p t.i (wrapped b.isAlternate b.text ++ behind) := by
        rw [hplace]
        exact h.past
      rw [Regexp.text, length_append, ← Nat.add_assoc, ← hplace]
      exact scans_wrapped b.isAlternate hnext hout' htop'
        (fun hwrap => calm_text b (by have hw := hwritten.2; rwa [hwrap] at hw) (.inr (calm_cons (by decide) _)))
        b.seen_pos fun t ht hout' htop' =>
          ihb ht hout' htop' hwritten.2 (haligned.2 hfew) (wrapEnd_calm fun _ => .inr hbehind)
    exact hfirst.append hsecond
  | alternate a b iha ihb =>
    have hbehind := hcalm.resolve_left nofun
    rw [Regexp.text, append_assoc] at h
    have hfirst := iha h hout htop hwritten.1 haligned.1 (.inr (calm_cons (by decide) _))
    have hsecond : ¬a.SeenTooMany → ∀ t : Re2Scan, t.i = s.i + a.text.length → t.inClass = false → 1 ≤ t.top →
        Scans p t (s.i + (Regexp.alternate a b).text.length) b.seen b.SeenTooMany false := by
      intro hfew t hplace hout' htop'
      have hbar : Facing p t.i ('|' :: (b.text ++ behind)) := by
        rw [hplace]
        exact h.past
      rw [Regexp.text, length_append, ← Nat.add_assoc, ← hplace]
      exact scans_bar hbar hout' htop' fun t ht hout' htop' =>
        ihb ht hout' htop' hwritten.2 (haligned.2 hfew) (.inr hbehind)
    exact hfirst.append hsecond
  | group kind sub ih =>
    rw [Regexp.text, append_assoc, append_assoc] at h
    have hinner : ∀ t : Re2Scan, Facing p t.i (sub.text ++ ')' :: behind) → t.inClass = false → 1 ≤ t.top →
        Scans p t (t.i + sub.text.length) sub.seen sub.SeenTooMany sub.isAtom :=
      fun t ht hout' htop' => ih ht hout' htop' hwritten haligned (.inr (calm_cons (by decide) _))
    exact scans_group h hout htop (calm_text sub hwritten (.inr (calm_cons (by decide) _))) sub.seen_pos hinner
  | repeated sub gaps op lazily ih =>
    have hbehind := hcalm.resolve_left nofun
    have hsub : sub.Written _ := hwritten
    rw [Regexp.text, append_assoc, append_assoc, append_assoc] at h
    have hoperand := scans_wrapped (!sub.isAtom) h hout htop
      (fun hwrap => calm_text sub (by rwa [hwrap] at hsub) (.inr (calm_cons (by decide) _))) sub.seen_pos
      fun t ht hout' htop' => ih ht hout' htop' hsub haligned (wrapEnd_calm fun hwrap => .inl (by simpa using hwrap))
    rw [Bool.not_or_self] at hoperand
    exact scans_repeat h hbehind hoperand

end Whole

end Re2Scan

/-! ## When the answer is Go's -/

/-- The check of an expression ends, and reports too many repeats where the scan sees them. -/
theorem reports_iff (t : Regexp) (hwritten : t.Written []) (haligned : t.Aligned []) :
    validationRe2Unsupported t.text = some .tooManyRepeats ↔ t.SeenTooMany := by
  have hcalm : Calm [] := nofun
  have hfacing : Facing t.text ({} : Re2Scan).i (t.text ++ []) := ⟨Nat.zero_le _, (append_nil _).symm⟩
  have hscans := Re2Scan.scans_text t hfacing rfl (Nat.le_refl 1) hwritten haligned (.inr hcalm)
  have houtcome : validationRe2Unsupported t.text = Re2Scan.outcome t.text {} := rfl
  rw [houtcome]
  constructor
  · intro hreports
    by_contra hfew
    obtain ⟨s', hreached, -, -, -⟩ := hscans.few hfew
    have hend : t.text.length ≤ s'.i := by
      rw [hreached.place]
      exact Nat.le_add_left _ _
    rw [hreached.same, Re2Scan.outcome_end hend] at hreports
    cases hreports
  · exact hscans.many

/-- Over the text of a regular expression the check reports too many repeats exactly where Go refuses it, if and only
if what it sees is what Go counts. Then it does so where every repeat is right behind what it repeats. The check of any
pattern ends. -/
theorem repeats_exact (t : Regexp) (hwritten : t.Written []) (haligned : t.Aligned []) (p : Text) :
    ((validationRe2Unsupported t.text = some .tooManyRepeats ↔ t.Refused) ↔ (t.SeenTooMany ↔ t.Refused)) ∧
    (t.Tight → (validationRe2Unsupported t.text = some .tooManyRepeats ↔ t.Refused)) ∧
    ∃ verdict, validationRe2Unsupported p = some verdict := by
  rw [reports_iff t hwritten haligned]
  exact ⟨Iff.rfl, fun htight => (Regexp.seen_of_tight htight).2, validationRe2Unsupported_ends p⟩

theorem no_count (h : c ≠ '{') (rest : Text) (count : Count) : ¬count.text <+: c :: rest := by
  rintro ⟨behind, heq⟩
  exact h (List.cons.inj heq).1.symm

def countOf (digits : Text) (set : digits ≠ []) (plain : ∀ c ∈ digits, validationDigit c = true)
    (short : digits.head? = some '0' → digits.length = 1) : RepeatOp :=
  .count ⟨⟨digits, set, plain, short⟩, .same⟩

/-- `(?:a{40}){30}` -/
def nestedRepeat : Regexp :=
  .repeated (.repeated (.leaf (.char 'a')) [] (countOf ['4', '0'] (by decide) (forall_of_all (by decide)) (by decide)) false)
    [] (countOf ['3', '0'] (by decide) (forall_of_all (by decide)) (by decide)) false

theorem repeats_exact_nested : validationRe2Unsupported nestedRepeat.text = some .tooManyRepeats ↔ nestedRepeat.Refused :=
  (repeats_exact nestedRepeat ⟨by decide, no_count (by decide) _⟩ trivial []).2.1 ⟨⟨trivial, rfl⟩, rfl⟩

def thousand : RepeatOp := countOf ['1', '0', '0', '0'] (by decide) (forall_of_all (by decide)) (by decide)

/-- `(?:a{1000})(?i){1000}` -/
def gappedRepeat : Regexp :=
  .repeated (.repeated (.leaf (.char 'a')) [] thousand false) [.flags ⟨['i'], [], forall_of_all (by decide)⟩] thousand false

/-- A repeat behind a flag group is one of what is in front of the group, and the check does not see it. -/
theorem repeats_not_exact : ¬∀ t : Regexp, t.Written [] → (validationRe2Unsupported t.text = some .tooManyRepeats ↔ t.Refused) := by
  intro h
  have hwritten : gappedRepeat.Written [] := ⟨by decide, no_count (by decide) _⟩
  have htext : gappedRepeat.text = "(?:a{1000})(?i){1000}".toList := by decide
  have hfine : validationRe2Unsupported "(?:a{1000})(?i){1000}".toList = some .fine := by decide
  have hrefused : gappedRepeat.Refused :=
    .inr (.inr (.inr ⟨.inl (by decide), by decide⟩))
  have hreports := (h gappedRepeat hwritten).2 hrefused
  rw [htext, hfine] at hreports
  cases hreports

/-- The range ends in the bracket, and the scan goes on at the last one. -/
example : validationRe2Unsupported "[!-[:]{1001}:]".toList = some .fine := by decide

end Throne.Global.Validation
