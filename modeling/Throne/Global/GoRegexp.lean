import Throne.Global.ValidationRe2

/-!
# Regular expressions and Go's limit of repeats

A regular expression of Go's syntax as the tree it is, and the text it is written as. Flag groups (`(?i)`) and empty
quotations are no atoms: a repeat behind them is one of what was in front of them, as Go reads it. `Refused` is what
`regexp/syntax` refuses for its repeats, over `repeatIsValid` as it is written there.

A tree is not always written so that it reads as itself: a bare brace in front of `2}` is a repeat. `Written` says of
every character left bare that it reads as itself, whatever is behind it.
-/

namespace Throne.Global.Validation

open Lib.Texts

/-! ## The pieces -/

/-- A number, without a zero in front. -/
structure Numeral where
  digits : Text
  set : digits ≠ []
  plain : ∀ c ∈ digits, validationDigit c = true
  short : digits.head? = some '0' → digits.length = 1

def Numeral.value (n : Numeral) : Nat := decimalValue n.digits

def octalDigit (c : Char) : Bool := '0' ≤ c && c ≤ '7'

/-- Marks the lookup of a property passes over. -/
def propertyMark (c : Char) : Bool := c == '_' || c == '-' || c == ' '

/-- The name of a property, of which none begins with X. -/
structure PropertyName where
  text : Text
  plain : ∀ c ∈ text, validationAsciiAlnum c = true ∨ propertyMark c = true
  known : ∀ c, (text.dropWhile propertyMark).head? = some c → c ≠ 'X' ∧ c ≠ 'x'

/-- A character or a class of characters behind a backslash. -/
inductive Escape where
  | sign (c : Char) (ascii : c.toNat < 0x80) (plain : validationAsciiAlnum c = false)
  | letter (c : Char) (known : "dDsSwWafnrtv".toList.elem c = true)
  | octal (first : Char) (rest : Text) (digit : octalDigit first = true) (digits : ∀ c ∈ rest, octalDigit c = true)
    (more : first ≠ '0' → rest ≠ [])
  | hex (high low : Char) (digits : validationHexDigit high = true ∧ validationHexDigit low = true)
  | code (digits : Text) (set : digits ≠ []) (plain : ∀ c ∈ digits, validationHexDigit c = true)
    (known : hexNumber digits ≤ 0x10FFFF)
  | category (negated : Bool) (c : Char) (known : "LMNPSZC".toList.elem c = true)
  | property (negated hat : Bool) (name : PropertyName)

/-- `\p` or `\P`. -/
def propertyLetter (negated : Bool) : Char := if negated then 'P' else 'p'

/-- What the escape is recognized by. -/
def Escape.front : Escape → Text
  | .sign c _ _ => ['\\', c]
  | .letter c _ => ['\\', c]
  | .octal first _ _ _ _ => ['\\', first]
  | .hex high low _ => ['\\', 'x', high, low]
  | .code digits _ _ _ => '\\' :: 'x' :: '{' :: digits ++ ['}']
  | .category negated c _ => ['\\', propertyLetter negated, c]
  | .property negated hat name =>
    '\\' :: propertyLetter negated :: '{' :: ((if hat then ['^'] else []) ++ name.text) ++ ['}']

/-- The digits behind the first one of an octal number. -/
def Escape.rest : Escape → Text
  | .octal _ rest _ _ _ => rest
  | _ => []

def Escape.text (e : Escape) : Text := e.front ++ e.rest

/-! ### Classes -/

inductive ClassChar where
  | plain (c : Char)
  | escaped (e : Escape)

def ClassChar.text : ClassChar → Text
  | .plain c => [c]
  | .escaped e => e.text

inductive ClassItem where
  | named (hat : Bool) (name : Text) (plain : ∀ c ∈ name, validationAsciiAlnum c = true)
  | single (c : ClassChar)
  | range (low high : ClassChar)

def ClassItem.text : ClassItem → Text
  | .named hat name _ => '[' :: ':' :: ((if hat then ['^'] else []) ++ name) ++ [':', ']']
  | .single c => c.text
  | .range low high => low.text ++ '-' :: high.text

/-- A bracket in front of a colon opens a named class, where one is closed later on. -/
def Opens (c : Char) (behind : Text) : Prop := c = '[' ∧ behind.head? = some ':' ∧ (cutAt [':', ']'] behind.tail).isSome = true

/-- The character reads as itself in front of a text. Only a first bracket is one of the class. -/
def ClassChar.Written (first : Bool) (behind : Text) : ClassChar → Prop
  | .plain c => c ≠ '\\' ∧ (c = ']' → first = true) ∧ ¬Opens c behind
  | .escaped _ => True

/-- The upper end of a range, which opens no class. -/
def ClassChar.WrittenEnd : ClassChar → Prop
  | .plain c => c ≠ '\\' ∧ c ≠ ']'
  | .escaped _ => True

def ClassItem.Written (first : Bool) (behind : Text) : ClassItem → Prop
  | .named _ _ _ => True
  | .single c => c.Written first behind
  | .range low high => low.Written first ('-' :: (high.text ++ behind)) ∧ high.WrittenEnd

def itemsText (items : List ClassItem) : Text := items.flatMap ClassItem.text

def ItemsWritten : Bool → Text → List ClassItem → Prop
  | _, _, [] => True
  | first, behind, item :: items =>
    item.Written first (itemsText items ++ behind) ∧ ItemsWritten false behind items

/-! ### Atoms and gaps -/

inductive Leaf where
  | char (c : Char)
  | escape (e : Escape)
  | assertion (c : Char) (known : "AbBz".toList.elem c = true)
  | klass (negated : Bool) (items : List ClassItem)

def Leaf.text : Leaf → Text
  | .char c => [c]
  | .escape e => e.text
  | .assertion c _ => ['\\', c]
  | .klass negated items => '[' :: ((if negated then ['^'] else []) ++ itemsText items) ++ [']']

/-- Flags to set, and flags to clear. -/
structure Flags where
  on : Text
  off : Text
  known : ∀ c ∈ on ++ off, "imsU".toList.elem c = true

def Flags.text (flags : Flags) : Text := flags.on ++ if flags.off = [] then [] else '-' :: flags.off

/-- What is no atom. -/
inductive Gap where
  | flags (flags : Flags)
  | nothing

def Gap.text : Gap → Text
  | .flags f => '(' :: '?' :: f.text ++ [')']
  | .nothing => ['\\', 'Q', '\\', 'E']

inductive GroupKind where
  | capture
  | named (python : Bool) (name : Text) (known : validationGoCaptureName name = true)
  | flagged (flags : Flags)

def GroupKind.opening : GroupKind → Text
  | .capture => ['(']
  | .named python name _ => '(' :: '?' :: ((if python then ['P'] else []) ++ '<' :: name) ++ ['>']
  | .flagged flags => '(' :: '?' :: flags.text ++ [':']

/-! ### Repeats -/

/-- The upper bound of a count: the lower one, none, or its own. -/
inductive Upper where
  | same
  | unbounded
  | upTo (n : Numeral)

structure Count where
  min : Numeral
  upper : Upper

def Count.text (c : Count) : Text :=
  '{' :: c.min.digits ++ (match c.upper with
    | .same => []
    | .unbounded => [',']
    | .upTo n => ',' :: n.digits) ++ ['}']

/-- The upper bound, if there is one. -/
def Count.max (c : Count) : Option Nat :=
  match c.upper with
  | .same => some c.min.value
  | .unbounded => none
  | .upTo n => some n.value

inductive RepeatOp where
  | star
  | plus
  | quest
  | count (count : Count)

def RepeatOp.text : RepeatOp → Text
  | .star => ['*']
  | .plus => ['+']
  | .quest => ['?']
  | .count c => c.text

/-! ## The tree -/

inductive Regexp where
  | empty
  | leaf (leaf : Leaf)
  | quote (text : Text)
  | gap (gap : Gap)
  | concat (a b : Regexp)
  | alternate (a b : Regexp)
  | group (kind : GroupKind) (sub : Regexp)
  | repeated (sub : Regexp) (gaps : List Gap) (op : RepeatOp) (lazily : Bool)

/-- A group around what would not hold together. -/
def wrapped (wrap : Bool) (text : Text) : Text := if wrap then '(' :: '?' :: ':' :: text ++ [')'] else text

/-- What a wrapped text has behind it. -/
def wrapEnd (wrap : Bool) (behind : Text) : Text := if wrap then ')' :: behind else behind

namespace Regexp

/-- What a repeat can stand behind. -/
def isAtom : Regexp → Bool
  | leaf _ => true
  | group _ _ => true
  | _ => false

def isAlternate : Regexp → Bool
  | alternate _ _ => true
  | _ => false

def text : Regexp → Text
  | empty => []
  | leaf l => l.text
  | quote t => '\\' :: 'Q' :: t ++ ['\\', 'E']
  | gap g => g.text
  | concat a b => wrapped a.isAlternate a.text ++ wrapped b.isAlternate b.text
  | alternate a b => a.text ++ '|' :: b.text
  | group kind sub => kind.opening ++ sub.text ++ [')']
  | .repeated sub gaps op lazily =>
    wrapped (!sub.isAtom) sub.text ++ gaps.flatMap Gap.text ++ op.text ++ if lazily then ['?'] else []

end Regexp

/-- The leaf reads as itself in front of a text. -/
def Leaf.Written (behind : Text) : Leaf → Prop
  | .char c => "\\[()|*+?".toList.elem c = false ∧ ∀ count : Count, ¬count.text <+: c :: behind
  | .klass negated items => items ≠ [] ∧ ItemsWritten true (']' :: behind) items ∧
    (negated = false → (itemsText items).head? ≠ some '^')
  | _ => True

/-- A quotation does not end before its end. -/
def Quotable (text : Text) : Prop := ∀ front back, text ≠ front ++ '\\' :: 'E' :: back

namespace Regexp

/-- The expression reads as itself in front of a text. -/
def Written : Regexp → Text → Prop
  | empty, _ => True
  | leaf l, behind => l.Written behind
  | quote t, _ => Quotable t
  | gap _, _ => True
  | concat a b, behind =>
    a.Written (wrapEnd a.isAlternate (wrapped b.isAlternate b.text ++ behind)) ∧ b.Written (wrapEnd b.isAlternate behind)
  | alternate a b, behind => a.Written ('|' :: (b.text ++ behind)) ∧ b.Written behind
  | group _ sub, behind => sub.Written (')' :: behind)
  | .repeated sub gaps op lazily, behind =>
    sub.Written (wrapEnd (!sub.isAtom) (gaps.flatMap Gap.text ++ (op.text ++ ((if lazily then ['?'] else []) ++ behind))))

/-! ## Go's limit -/

/-- `repeatIsValid` of `regexp/syntax`. -/
def repeatIsValid : Regexp → Nat → Bool
  | .repeated sub _ (.count c) _, n =>
    if c.max = some 0 then true
    else
      let m := c.max.getD c.min.value
      if m > n then false else sub.repeatIsValid (if m > 0 then n / m else n)
  | .repeated sub _ _ _, n => sub.repeatIsValid n
  | concat a b, n => a.repeatIsValid n && b.repeatIsValid n
  | alternate a b, n => a.repeatIsValid n && b.repeatIsValid n
  | group _ sub, n => sub.repeatIsValid n
  | _, _ => true

/-- A bound is above 1000, or a repeat of at least 2 is not valid. -/
def Refused : Regexp → Prop
  | .repeated sub gaps (.count c) lazily =>
    sub.Refused ∨ 1000 < c.min.value ∨ (∃ m ∈ c.max, 1000 < m) ∨ (2 ≤ c.min.value ∨ ∃ m ∈ c.max, 2 ≤ m) ∧
        (Regexp.repeated sub gaps (.count c) lazily).repeatIsValid 1000 = false
  | .repeated sub _ _ _ => sub.Refused
  | concat a b => a.Refused ∨ b.Refused
  | alternate a b => a.Refused ∨ b.Refused
  | group _ sub => sub.Refused
  | _ => False

end Regexp

/-! ## Weights -/

/-- What a repeat makes of the weight of what it repeats. -/
def RepeatOp.weigh (w : Nat) : RepeatOp → Nat
  | .count c =>
    if c.max = some 0 then 1 else if 1 < c.max.getD c.min.value then w * c.max.getD c.min.value else w
  | _ => w

/-- A repeat of something of that weight is too much. -/
def RepeatOp.TooMany (w : Nat) : RepeatOp → Prop
  | .count c => 1000 < c.min.value ∨ (∃ m ∈ c.max, 1000 < m) ∨
      c.max ≠ some 0 ∧ 1 < c.max.getD c.min.value ∧ 1000 < w * c.max.getD c.min.value
  | _ => False

theorem RepeatOp.weigh_pos {w : Nat} (h : 1 ≤ w) (op : RepeatOp) : 1 ≤ op.weigh w := by
  cases op with
  | count c =>
    rw [RepeatOp.weigh]
    split
    · exact Nat.le_refl 1
    · split
      · next hm => exact Nat.mul_pos h (by omega)
      · exact h
  | star | plus | quest => exact h

theorem RepeatOp.weigh_le {w : Nat} (h : w ≤ 1000) {op : RepeatOp} (hop : ¬op.TooMany w) : op.weigh w ≤ 1000 := by
  cases op with
  | count c =>
    rw [RepeatOp.weigh]
    split
    · decide
    · next hmax =>
      split
      · next hm => exact Nat.not_lt.1 fun hlt => hop (.inr (.inr ⟨hmax, hm, hlt⟩))
      · exact h
  | star | plus | quest => exact h

namespace Regexp

/-- The largest product of the bounds along a path. -/
def weight : Regexp → Nat
  | .repeated sub _ op _ => op.weigh sub.weight
  | concat a b => max a.weight b.weight
  | alternate a b => max a.weight b.weight
  | group _ sub => sub.weight
  | _ => 1

theorem weight_pos (t : Regexp) : 1 ≤ t.weight := by
  induction t with
  | empty | leaf l | quote text | gap g => exact Nat.le_refl 1
  | concat a b iha ihb | alternate a b iha ihb => exact iha.trans (Nat.le_max_left _ _)
  | group kind sub ih => exact ih
  | repeated sub gaps op lazily ih => exact op.weigh_pos ih

/-- `repeatIsValid` compares the weight. -/
theorem repeatIsValid_iff (t : Regexp) {n : Nat} (hn : 1 ≤ n) : t.repeatIsValid n = true ↔ t.weight ≤ n := by
  induction t generalizing n with
  | empty | leaf l | quote text | gap g => exact ⟨fun _ => hn, fun _ => rfl⟩
  | concat a b iha ihb | alternate a b iha ihb =>
    rw [repeatIsValid, Bool.and_eq_true, iha hn, ihb hn, weight, Nat.max_le]
  | group kind sub ih => rw [repeatIsValid, ih hn, weight]
  | repeated sub gaps op lazily ih =>
    cases op with
    | star | plus | quest => exact ih hn
    | count c =>
      have hsub := sub.weight_pos
      rw [repeatIsValid, weight, RepeatOp.weigh]
      split
      · exact ⟨fun _ => hn, fun _ => rfl⟩
      · obtain ⟨m, hm⟩ : ∃ m, c.max.getD c.min.value = m := ⟨_, rfl⟩
        rw [hm]
        dsimp only
        split
        · next hlt =>
          -- a bound above what is left is a product above it
          rw [if_pos (by omega : 1 < m)]
          have hle : m ≤ sub.weight * m := Nat.le_mul_of_pos_left m hsub
          exact ⟨(nomatch ·), fun h => by omega⟩
        · next hge =>
          by_cases hone : 1 < m
          · rw [if_pos hone, if_pos (by omega : m > 0), ih (Nat.div_pos (by omega) (by omega)), Nat.le_div_iff_mul_le (by omega)]
          · rw [if_neg hone]
            by_cases hzero : m > 0
            · have heq : m = 1 := by omega
              rw [if_pos hzero, heq, Nat.div_one, ih hn]
            · rw [if_neg hzero, ih hn]

/-- What Go refuses, by the weights. -/
theorem refused_weight (t : Regexp) : (¬t.Refused → t.weight ≤ 1000) ∧ ∀ sub gaps op lazily, t = .repeated sub gaps op lazily →
    (t.Refused ↔ sub.Refused ∨ op.TooMany sub.weight) := by
  induction t with
  | empty | leaf l | quote text | gap g => exact ⟨fun _ => show 1 ≤ 1000 by decide, nofun⟩
  | concat a b iha ihb | alternate a b iha ihb =>
    refine ⟨fun h => ?_, nofun⟩
    rw [Refused, not_or] at h
    exact Nat.max_le.2 ⟨iha.1 h.1, ihb.1 h.2⟩
  | group kind sub ih => exact ⟨ih.1, nofun⟩
  | repeated sub gaps op lazily ih =>
    have hiff : (Regexp.repeated sub gaps op lazily).Refused ↔ sub.Refused ∨ op.TooMany sub.weight := by
      cases op with
      | star | plus | quest => exact (or_iff_left id).symm
      | count c =>
        by_cases hsub : sub.Refused
        · exact ⟨fun _ => .inl hsub, fun _ => .inl hsub⟩
        · have hle := ih.1 hsub
          rw [Refused, RepeatOp.TooMany, ← Bool.not_eq_true, repeatIsValid_iff _ (by decide), weight, RepeatOp.weigh]
          refine or_congr_right (or_congr_right (or_congr_right ?_))
          by_cases hzero : c.max = some 0
          · rw [if_pos hzero]
            exact ⟨fun h => absurd (by decide) h.2, fun h => absurd hzero h.1⟩
          · rw [if_neg hzero]
            by_cases hone : 1 < c.max.getD c.min.value
            · rw [if_pos hone, Nat.not_le]
              refine ⟨fun h => ⟨hzero, hone, h.2⟩, fun h => ⟨?_, h.2.2⟩⟩
              cases hmax : c.max with
              | none =>
                rw [hmax, Option.getD_none] at hone
                exact .inl hone
              | some m =>
                rw [hmax, Option.getD_some] at hone
                exact .inr ⟨m, rfl, hone⟩
            · rw [if_neg hone]
              exact ⟨fun h => absurd hle h.2, fun h => absurd h.2.1 hone⟩
    refine ⟨fun h => ?_, fun _ _ _ _ heq => ?_⟩
    · rw [hiff, not_or] at h
      exact RepeatOp.weigh_le (ih.1 h.1) h.2
    · cases heq
      exact hiff

end Regexp

end Throne.Global.Validation
