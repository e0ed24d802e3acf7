import Mathlib.Data.List.DropRight

/-!
# Texts as lists of characters

What a program does to short texts, over the characters themselves: taking the blanks off both ends
(`strip`), for any predicate that says what a blank is and for Qt's own (`trimmed`).
-/

namespace Throne.Lib.Texts

open List

/-- A text. -/
abbrev Text := List Char

variable {text : Text}

/-- What is true of all characters of a text, by checking them. -/
theorem forall_of_all {P : Char → Prop} [DecidablePred P] (h : (text.all fun c => decide (P c)) = true) : ∀ c ∈ text, P c :=
  fun c hc => of_decide_eq_true (all_eq_true.1 h c hc)

variable {blank : Char → Bool}

/-- The text without the blanks at its ends. -/
def strip (blank : Char → Bool) (text : Text) : Text := (text.dropWhile blank).rdropWhile blank

@[simp] theorem strip_nil : strip blank [] = [] := rfl

/-- Nothing is taken off twice. -/
@[simp] theorem strip_strip (text : Text) : strip blank (strip blank text) = strip blank text := by
  have hfront : (strip blank text).dropWhile blank = strip blank text := by
    rw [dropWhile_eq_self_iff]
    intro hpos
    -- The first character left is the first one behind the blanks in front.
    have hprefix : strip blank text <+: text.dropWhile blank := rdropWhile_prefix blank _
    have hhead : (strip blank text)[0] = (text.dropWhile blank).get ⟨0, hpos.trans_le hprefix.length_le⟩ := hprefix.getElem hpos
    rw [hhead, get_eq_getElem]
    have hnot := head_dropWhile_not (p := blank) (ne_nil_of_length_pos (hpos.trans_le hprefix.length_le))
    rw [head_eq_getElem] at hnot
    rw [hnot]
    exact Bool.false_ne_true
  calc strip blank (strip blank text)
      = ((strip blank text).dropWhile blank).rdropWhile blank := rfl
    _ = (strip blank text).rdropWhile blank := by rw [hfront]
    _ = strip blank text := rdropWhile_idempotent blank _

/-- A text without blanks stays as it is. -/
theorem strip_eq_self (h : ∀ c ∈ text, blank c = false) : strip blank text = text := by
  have hfront : text.dropWhile blank = text := by
    cases text with
    | nil => rfl
    | cons c cs => rw [dropWhile_cons_of_neg (by rw [h c mem_cons_self]; decide)]
  rw [strip, hfront, rdropWhile_eq_self_iff]
  intro hne
  rw [h _ (getLast_mem hne)]
  exact Bool.false_ne_true

/-- Blanks at the end make no difference. -/
theorem strip_append_blanks {blanks : Text} (h : ∀ c ∈ blanks, blank c = true) : strip blank (text ++ blanks) = strip blank text := by
  have hnone : blanks.dropWhile blank = [] := dropWhile_eq_nil_iff.2 h
  rw [strip, strip, dropWhile_append]
  split
  · next hall =>
    rw [hnone, List.isEmpty_iff.1 hall]
  · rw [List.rdropWhile, reverse_append, dropWhile_append_of_pos, List.rdropWhile]
    exact fun c hc => h c (mem_reverse.1 hc)

/-- Behind a tag without blanks only the end of a text is taken off. -/
theorem strip_behind {tag : Text} (hne : tag ≠ []) (hsolid : ∀ c ∈ tag, blank c = false)
    (text : Text) : strip blank (tag ++ text) = tag ++ text.rdropWhile blank := by
  have hfront : (tag ++ text).dropWhile blank = tag ++ text := by
    cases tag with
    | nil => exact absurd rfl hne
    | cons c cs =>
      rw [cons_append, dropWhile_cons_of_neg]
      rw [hsolid c mem_cons_self]
      exact Bool.false_ne_true
  have hback : tag.reverse.dropWhile blank = tag.reverse := by
    rw [dropWhile_eq_self_iff]
    intro hpos
    rw [hsolid _ (mem_reverse.1 (getElem_mem hpos))]
    exact Bool.false_ne_true
  rw [strip, hfront, List.rdropWhile, List.rdropWhile, reverse_append, dropWhile_append]
  split
  · next hall =>
    rw [hback, reverse_reverse, List.isEmpty_iff.1 hall, reverse_nil, append_nil]
  · rw [reverse_append, reverse_reverse]

/-- Then only the front of the text is left to take off. -/
theorem strip_tagged {tag : Text} (hne : tag ≠ []) (hsolid : ∀ c ∈ tag, blank c = false) (text : Text) :
    ∃ rest, strip blank (tag ++ text) = tag ++ rest ∧ strip blank rest = strip blank text := by
  refine ⟨text.rdropWhile blank, strip_behind hne hsolid text, ?_⟩
  calc strip blank (text.rdropWhile blank)
      = strip blank (text.rdropWhile blank ++ text.rtakeWhile blank) :=
        (strip_append_blanks fun c hc => mem_rtakeWhile_imp hc).symm
    _ = strip blank text := by rw [rdropWhile_append_rtakeWhile]

/-! ## Numbers -/

/-- The value of a text of digits. -/
def decimalValue (digits : Text) : Nat :=
  digits.foldl (fun n c => 10 * n + (c.toNat - '0'.toNat)) 0

/-- The text is made of digits. -/
def isDigits (text : Text) : Bool := !text.isEmpty && text.all Char.isDigit

/-- A number in decimal digits. -/
def natText (n : Nat) : Text := (toString n).toList

/-- An integer in decimal digits. -/
def intText (n : Int) : Text := (toString n).toList

/-- The integer a text says, with an optional sign. -/
def readInt (text : Text) : Option Int :=
  match text with
  | '-' :: digits => if isDigits digits then some (-(decimalValue digits : Int)) else none
  | '+' :: digits => if isDigits digits then some (decimalValue digits) else none
  | digits => if isDigits digits then some (decimalValue digits) else none

/-- Digits alone say a number without a sign. -/
theorem readInt_of_digits (h : isDigits text = true) : readInt text = some (decimalValue text : Int) := by
  cases text with
  | nil => cases h
  | cons c digits =>
    have hdigit : c.isDigit = true := by
      rw [isDigits, Bool.and_eq_true, all_cons, Bool.and_eq_true] at h
      exact h.2.1
    have hminus : c ≠ '-' := fun heq => absurd (heq ▸ hdigit) (by decide)
    have hplus : c ≠ '+' := fun heq => absurd (heq ▸ hdigit) (by decide)
    have hread : readInt (c :: digits) = if isDigits (c :: digits) then some (decimalValue (c :: digits) : Int) else none := by
      rw [readInt.eq_3]
      · exact fun rest heq => hminus (List.cons.inj heq).1
      · exact fun rest heq => hplus (List.cons.inj heq).1
    rw [hread, if_pos h]

theorem natText_eq (n : Nat) : natText n = Nat.toDigits 10 n := by
  rw [natText, Nat.toString_eq_ofList_toDigits, String.toList_ofList]

variable {c : Char}

theorem isDigit_of_mem_natText {n : Nat} (h : c ∈ natText n) : c.isDigit = true := by
  rw [natText_eq] at h
  exact Nat.isDigit_of_mem_toDigits (by decide) (by decide) h

/-- A number is written in digits. -/
theorem isDigits_natText (n : Nat) : isDigits (natText n) = true := by
  rw [isDigits, Bool.and_eq_true, all_eq_true]
  refine ⟨?_, fun c hc => isDigit_of_mem_natText hc⟩
  rw [natText_eq]
  simp

/-- What is written of a number says it. -/
theorem decimalValue_natText (n : Nat) : decimalValue (natText n) = n := by
  rw [natText_eq]
  exact Nat.ofDigitChars_ten_toDigits

theorem intText_negSucc (n : Nat) : intText (Int.negSucc n) = '-' :: natText (n + 1) := by
  show ("-" ++ toString (n + 1)).toList = _
  rw [String.toList_append]
  rfl

/-- What is written of an integer says it. -/
theorem readInt_intText (n : Int) : readInt (intText n) = some n := by
  cases n with
  | ofNat n =>
    show readInt (natText n) = some (n : Int)
    rw [readInt_of_digits (isDigits_natText n), decimalValue_natText]
  | negSucc n =>
    rw [intText_negSucc, readInt, if_pos (isDigits_natText _), decimalValue_natText]
    rfl

theorem mem_intText {n : Int} (h : c ∈ intText n) : c = '-' ∨ c.isDigit = true := by
  cases n with
  | ofNat n => exact .inr (isDigit_of_mem_natText h)
  | negSucc n =>
    rw [intText_negSucc] at h
    rcases mem_cons.1 h with hc | hc
    · exact .inl hc
    · exact .inr (isDigit_of_mem_natText hc)

/-! ## Parts of a text -/

/-- What stands before and behind the first occurrence of a pattern. -/
def cutAt (pattern : Text) : Text → Option (Text × Text)
  | [] => if pattern.isEmpty then some ([], []) else none
  | c :: cs =>
    if pattern.isPrefixOf (c :: cs) then some ([], (c :: cs).drop pattern.length)
    else (cutAt pattern cs).map fun parts => (c :: parts.1, parts.2)

/-- The text without the occurrences of a pattern, found from the left; `skip` more characters belong to
the one found last. -/
def removeAll (pattern : Text) : Text → Nat → Text
  | [], _ => []
  | _ :: cs, skip + 1 => removeAll pattern cs skip
  | c :: cs, 0 =>
    if pattern.isPrefixOf (c :: cs) then removeAll pattern cs (pattern.length - 1)
    else c :: removeAll pattern cs 0

/-- A pattern that begins at none of the characters of the front of a text is first looked for behind
it. -/
theorem cutAt_append (pattern : Text) (first : Char) (tail : Text)
    (hpattern : pattern = first :: tail) (front : Text) (h : ∀ c ∈ front, c ≠ first) (text : Text) :
    cutAt pattern (front ++ text) = (cutAt pattern text).map fun parts => (front ++ parts.1, parts.2) := by
  induction front with
  | nil => simp
  | cons c front ih =>
    have hno : pattern.isPrefixOf (c :: (front ++ text)) = false := by
      rw [hpattern, List.isPrefixOf, Bool.and_eq_false_imp]
      intro hsame
      exact absurd (eq_of_beq hsame).symm (h c mem_cons_self)
    rw [cons_append, cutAt, hno, if_neg Bool.false_ne_true, ih fun d hd => h d (mem_cons_of_mem _ hd), Option.map_map]
    rfl

theorem cutAt_here {pattern : Text} (hne : pattern ≠ []) (text : Text) : cutAt pattern (pattern ++ text) = some ([], text) := by
  cases pattern with
  | nil => exact absurd rfl hne
  | cons c cs =>
    have hhere : (c :: cs).isPrefixOf ((c :: cs) ++ text) = true := isPrefixOf_iff_prefix.2 (prefix_append _ text)
    rw [cons_append] at hhere ⊢
    rw [cutAt, if_pos hhere, ← cons_append, drop_left]

/-- A character that is not in the front is found behind it. -/
theorem cutAt_char {front : Text} (h : c ∉ front) (rest : Text) : cutAt [c] front = none ∧ cutAt [c] (front ++ c :: rest) = some (front, rest) := by
  have hne : ∀ d ∈ front, d ≠ c := by
    rintro d hd rfl
    exact h hd
  have hnone := cutAt_append [c] c [] rfl front hne []
  have hsome := cutAt_append [c] c [] rfl front hne ([c] ++ rest)
  rw [cutAt_here (cons_ne_nil c []) rest] at hsome
  rw [append_nil] at hnone
  refine ⟨hnone, ?_⟩
  rw [singleton_append] at hsome
  rw [hsome, Option.map_some, append_nil]

/-! ## Words -/

/-- A text of one word. -/
def IsWord (blank : Char → Bool) (text : Text) : Prop := text ≠ [] ∧ ∀ c ∈ text, blank c = false

/-- The words of a text, which blanks separate. -/
def words (blank : Char → Bool) (text : Text) : List Text :=
  (text.splitOnP blank).filter fun word => !word.isEmpty

variable {word : Text}

theorem IsWord.isEmpty (h : IsWord blank word) : word.isEmpty = false := by
  cases word with
  | nil => exact absurd rfl h.1
  | cons c cs => rfl

/-- A word in front, with a blank behind it. -/
theorem words_cons (h : IsWord blank word) (hc : blank c = true) (text : Text) : words blank (word ++ c :: text) = word :: words blank text := by
  rw [words, splitOnP_append_cons_of_forall_mem h.2 c hc, filter_cons_of_pos]
  · rfl
  · rw [h.isEmpty]
    rfl

theorem words_word (h : IsWord blank word) : words blank word = [word] := by
  rw [words, splitOnP_eq_singleton h.2, filter_cons_of_pos]
  · rfl
  · rw [h.isEmpty]
    rfl

/-- Nothing is taken off two words, whatever is between them. -/
theorem strip_between {first last : Text} (hfirst : IsWord blank first) (hlast : IsWord blank last) (between : Text) :
    strip blank (first ++ between ++ last) = first ++ between ++ last := by
  have hfront : (first ++ between ++ last).dropWhile blank = first ++ between ++ last := by
    obtain ⟨hne, hsolid⟩ := hfirst
    cases first with
    | nil => exact absurd rfl hne
    | cons c cs =>
      rw [cons_append, cons_append, dropWhile_cons_of_neg]
      rw [hsolid c mem_cons_self]
      exact Bool.false_ne_true
  rw [strip, hfront, rdropWhile_eq_self_iff]
  intro hne
  rw [getLast_append_of_ne_nil _ hlast.1, hlast.2 _ (getLast_mem hlast.1)]
  exact Bool.false_ne_true

@[simp] theorem words_nil : words blank [] = [] := by
  rw [words, splitOnP_nil]
  rfl

/-! ## The front of a text -/

section Front

variable {α : Type} {p : α → Bool} {front front' behind behind' text : List α} {c : α}

theorem takeWhile_front (hfront : ∀ c ∈ front, p c = true) (hbehind : ∀ c, behind.head? = some c → p c = false) :
    (front ++ behind).takeWhile p = front := by
  rw [takeWhile_append_of_pos hfront]
  cases behind with
  | nil => rw [takeWhile_nil, append_nil]
  | cons c behind =>
    rw [takeWhile_cons_of_neg (by rw [hbehind c rfl]; exact Bool.false_ne_true), append_nil]

theorem head_dropWhile (h : (text.dropWhile p).head? = some c) : p c = false := by
  have hno := head?_dropWhile_not p text
  rw [h] at hno
  exact hno

theorem head_stops (hp : p c = false) : ∀ d, (c :: text).head? = some d → p d = false := by
  rintro d ⟨⟩
  exact hp

/-- A text has one front of a kind of characters. -/
theorem front_unique (h : front ++ behind = front' ++ behind') (hfront : ∀ c ∈ front, p c = true)
    (hbehind : ∀ c, behind.head? = some c → p c = false) (hfront' : ∀ c ∈ front', p c = true)
    (hbehind' : ∀ c, behind'.head? = some c → p c = false) : front = front' ∧ behind = behind' := by
  have hsame := takeWhile_front hfront hbehind
  rw [h, takeWhile_front hfront' hbehind'] at hsame
  subst hsame
  exact ⟨rfl, append_cancel_left h⟩

end Front

/-! ## White space -/

/-- The white space of `QChar::isSpace`. -/
def isSpace (c : Char) : Bool :=
  (9 ≤ c.toNat && c.toNat ≤ 13) || c.toNat == 0x20 || c.toNat == 0x85 || c.toNat == 0xA0 ||
    c.toNat == 0x1680 || (0x2000 ≤ c.toNat && c.toNat ≤ 0x200A) || c.toNat == 0x2028 ||
    c.toNat == 0x2029 || c.toNat == 0x202F || c.toNat == 0x205F || c.toNat == 0x3000

/-- `QString::trimmed`. -/
def trimmed (text : Text) : Text := strip isSpace text

@[simp] theorem trimmed_trimmed (text : Text) : trimmed (trimmed text) = trimmed text := strip_strip text

end Throne.Lib.Texts
