import Throne.Lib.Texts
import Mathlib.Algebra.Ring.Int.Defs
import Mathlib.Algebra.Ring.Nat

/-!
# Durations

`ParseDurationNs` and `validationFormatDuration` of `src/src/global/Validation.cpp`: a sign and segments of a
number with a unit, summed in a word of 64 bits. `durations_exact` says which texts of whole segments are read
as the sum they say. The sum of two segments of 2⁶³ ns is nothing in the word, and goes past the check behind it.
-/

namespace Throne.Global.Validation

open Lib.Texts List

def toUtf8 (text : Text) : List UInt8 := text.flatMap String.utf8EncodeChar

/-- The names are in UTF-8; the second and the third start with a micro sign and with a Greek letter. -/
def durationUnits : List (List UInt8 × UInt64) :=
  [(toUtf8 "ns".toList, 1), (toUtf8 "us".toList, 1000), ([0xC2, 0xB5, 0x73], 1000), ([0xCE, 0xBC, 0x73], 1000),
    (toUtf8 "ms".toList, 1000000), (toUtf8 "s".toList, 1000000000), (toUtf8 "m".toList, 60000000000),
    (toUtf8 "h".toList, 3600000000000), (toUtf8 "d".toList, 86400000000000)]

def validationDurationUnit (name : List UInt8) : UInt64 := (durationUnits.lookup name).getD 0

def kLimit : UInt64 := (1 : UInt64) <<< 63

def digit (byte : UInt8) : Bool := 48 ≤ byte && byte ≤ 57

/-- The digits in front, behind a value, and what is behind them. -/
def readDigits : UInt64 → List UInt8 → Option (UInt64 × List UInt8)
  | v, [] => some (v, [])
  | v, byte :: rest =>
    if digit byte then
      if v > kLimit / 10 then none
      else
        let v := v * 10 + (byte - 48).toUInt64
        if v > kLimit then none else readDigits v rest
    else some (v, byte :: rest)

/-- The digits of a fraction, with what they are divided by. Digits the word has no room for do not count. -/
def readFraction : UInt64 → Float → Bool → List UInt8 → UInt64 × Float × List UInt8
  | f, scale, _, [] => (f, scale, [])
  | f, scale, overflow, byte :: rest =>
    if digit byte then
      if overflow then readFraction f scale overflow rest
      else if f > (kLimit - 1) / 10 then readFraction f scale true rest
      else
        let y := f * 10 + (byte - 48).toUInt64
        if y > kLimit then readFraction f scale true rest else readFraction y (scale * 10) overflow rest
    else (f, scale, byte :: rest)

/-- The fraction behind a point, and whether it has digits. -/
def fractionOf : List UInt8 → UInt64 × Float × Bool × List UInt8
  | 46 :: rest =>
    let (f, scale, behind) := readFraction 0 1 false rest
    (f, scale, decide (behind.length ≠ rest.length), behind)
  | bytes => (0, 1, false, bytes)

/-- The bytes of the name of a unit. -/
def inUnit (byte : UInt8) : Bool := byte != 46 && !digit byte

/-- The nanoseconds of the segment in front, and what is behind it. -/
def readSegment (bytes : List UInt8) : Option (UInt64 × List UInt8) :=
  if bytes.head?.any (fun first => first == 46 || digit first) then
    match readDigits 0 bytes with
    | none => none
    | some (v, rest) =>
      let pre := decide (rest.length ≠ bytes.length)
      let (f, scale, post, rest) := fractionOf rest
      if !pre && !post then none
      else
        let name := rest.takeWhile inUnit
        if name = [] then none
        else
          let unit := validationDurationUnit name
          if unit = 0 then none
          else if v > kLimit / unit then none
          else
            let v := v * unit
            if f > 0 then
              let v := v + (f.toFloat * (unit.toFloat / scale)).toUInt64
              if v > kLimit then none else some (v, rest.dropWhile inUnit)
            else some (v, rest.dropWhile inUnit)
  else none

variable {v : UInt64} {rest : List UInt8}

theorem readDigits_le {w : UInt64} {bytes : List UInt8} (h : readDigits v bytes = some (w, rest)) : rest.length ≤ bytes.length := by
  induction bytes generalizing v with
  | nil =>
    rw [readDigits, Option.some.injEq, Prod.mk.injEq] at h
    exact h.2 ▸ Nat.le_refl _
  | cons byte bytes ih =>
    rw [readDigits] at h
    split at h
    · split at h
      · cases h
      · dsimp only at h
        split at h
        · cases h
        · exact Nat.le_succ_of_le (ih h)
    · rw [Option.some.injEq, Prod.mk.injEq] at h
      exact h.2 ▸ Nat.le_refl _

theorem readFraction_le (f : UInt64) (scale : Float) (overflow : Bool) (bytes : List UInt8) :
    (readFraction f scale overflow bytes).2.2.length ≤ bytes.length := by
  induction bytes generalizing f scale overflow with
  | nil => exact Nat.le_refl _
  | cons byte bytes ih =>
    rw [readFraction]
    split
    · split
      · exact Nat.le_succ_of_le (ih _ _ _)
      · split
        · exact Nat.le_succ_of_le (ih _ _ _)
        · dsimp only
          split <;> exact Nat.le_succ_of_le (ih _ _ _)
    · exact Nat.le_refl _

theorem fractionOf_le (bytes : List UInt8) : (fractionOf bytes).2.2.2.length ≤ bytes.length := by
  unfold fractionOf
  split
  · exact Nat.le_succ_of_le (readFraction_le _ _ _ _)
  · exact Nat.le_refl _

/-- A segment has a unit, so something is left out of the text. -/
theorem readSegment_shorter {bytes : List UInt8} (h : readSegment bytes = some (v, rest)) : rest.length < bytes.length := by
  have hshort {behind : List UInt8} (hname : behind.takeWhile inUnit ≠ []) : (behind.dropWhile inUnit).length < behind.length := by
    have hparts := congrArg List.length (takeWhile_append_dropWhile (p := inUnit) (l := behind))
    have hpos := length_pos_iff.2 hname
    rw [length_append] at hparts
    omega
  unfold readSegment at h
  split at h
  · split at h
    · cases h
    · next w behind hdigits =>
      have hle := readDigits_le hdigits
      have hfraction := fractionOf_le behind
      dsimp only at h
      split at h
      · cases h
      · split at h
        · cases h
        · next hname =>
          have hless : ((fractionOf behind).2.2.2.dropWhile inUnit).length < (fractionOf behind).2.2.2.length := hshort hname
          split at h
          · cases h
          · split at h
            · cases h
            · split at h
              · split at h
                · cases h
                · rw [Option.some.injEq, Prod.mk.injEq] at h
                  rw [← h.2]
                  exact hless.trans_le (hfraction.trans hle)
              · rw [Option.some.injEq, Prod.mk.injEq] at h
                rw [← h.2]
                exact hless.trans_le (hfraction.trans hle)
  · cases h

/-- The loop over the segments, with the sum so far. -/
def sumSegments (d : UInt64) (bytes : List UInt8) : Option UInt64 :=
  if bytes = [] then some d
  else
    match _h : readSegment bytes with
    | none => none
    | some (v, rest) => if d + v > kLimit then none else sumSegments (d + v) rest
termination_by bytes.length
decreasing_by exact readSegment_shorter _h

def ParseDurationNs (text : Text) : Option Int64 :=
  let bytes := toUtf8 (trimmed text)
  let neg := bytes.head? == some 45
  let bytes := if neg || bytes.head? == some 43 then bytes.tail else bytes
  if bytes = [48] then some 0
  else if bytes = [] then none
  else
    match sumSegments 0 bytes with
    | none => none
    | some d =>
      if neg then some (if d = kLimit then Int64.minValue else -d.toInt64)
      else if d > kLimit - 1 then none
      else some d.toInt64

/-- The units a duration is shown in, the long ones first. -/
def shownUnits : List (UInt64 × Text) :=
  [(3600000000000, "h".toList), (60000000000, "m".toList), (1000000000, "s".toList), (1000000, "ms".toList),
    (1000, "us".toList), (1, "ns".toList)]

def showUnits : List (UInt64 × Text) → UInt64 → Text
  | [], _ => []
  | (unit, name) :: units, v =>
    if v / unit ≠ 0 then natText (v / unit).toNat ++ name ++ showUnits units (v % unit) else showUnits units v

def validationFormatDuration (ns : Int64) : Text :=
  if ns = 0 then "0s".toList
  else if ns < 0 then '-' :: showUnits shownUnits (0 - ns.toUInt64)
  else showUnits shownUnits ns.toUInt64

/-! ## Texts of whole segments -/

inductive DurationUnit where
  | ns | us | ms | s | m | h | d

def DurationUnit.name : DurationUnit → Text
  | .ns => "ns".toList
  | .us => "us".toList
  | .ms => "ms".toList
  | .s => "s".toList
  | .m => "m".toList
  | .h => "h".toList
  | .d => "d".toList

def DurationUnit.nanoseconds : DurationUnit → Nat
  | .ns => 1
  | .us => 10 ^ 3
  | .ms => 10 ^ 6
  | .s => 10 ^ 9
  | .m => 60 * 10 ^ 9
  | .h => 3600 * 10 ^ 9
  | .d => 86400 * 10 ^ 9

/-- Some digits and a unit. -/
structure Segment where
  digits : Text
  unit : DurationUnit
  digits_ok : isDigits digits = true

def Segment.text (segment : Segment) : Text := segment.digits ++ segment.unit.name

def Segment.value (segment : Segment) : Nat := decimalValue segment.digits * segment.unit.nanoseconds

inductive Sign where
  | none | plus | minus
  deriving DecidableEq

def Sign.text : Sign → Text
  | .none => []
  | .plus => ['+']
  | .minus => ['-']

def durationText (sign : Sign) (segments : List Segment) : Text := sign.text ++ segments.flatMap Segment.text

def total (segments : List Segment) : Nat := (segments.map Segment.value).sum

/-- What the text says. -/
def meaning (sign : Sign) (segments : List Segment) : Int :=
  if sign = .minus then -(total segments : Int) else total segments

/-- The text is read as what it says, where that is in range, and else as nothing. -/
def ReadExactly (sign : Sign) (segments : List Segment) : Prop :=
  (ParseDurationNs (durationText sign segments)).map Int64.toInt =
    if -2 ^ 63 ≤ meaning sign segments ∧ meaning sign segments < 2 ^ 63 then some (meaning sign segments) else none

/-- The sum has room in the word, or it is given up for another reason: one segment is too long, a sum is above
the limit in the word, or the sum is at the limit in the word and has no minus. -/
def Bounded (sign : Sign) (segments : List Segment) : Prop :=
  total segments < 2 ^ 64 ∨ (∃ segment ∈ segments, 2 ^ 63 < segment.value) ∨ (∃ front, front <+: segments ∧ 2 ^ 63 < total front % 2 ^ 64) ∨
    sign ≠ .minus ∧ total segments % 2 ^ 64 = 2 ^ 63

/-! ## The words -/

theorem kLimit_toNat : kLimit.toNat = 2 ^ 63 := by decide

theorem gt_kLimit : v > kLimit ↔ 2 ^ 63 < v.toNat := by
  rw [gt_iff_lt, UInt64.lt_iff_toNat_lt, kLimit_toNat]

/-- The product is above the limit where the quotient says so. -/
theorem gt_div {unit : UInt64} (hpos : 0 < unit.toNat) : v > kLimit / unit ↔ 2 ^ 63 < v.toNat * unit.toNat := by
  rw [gt_iff_lt, UInt64.lt_iff_toNat_lt, UInt64.toNat_div, kLimit_toNat, Nat.div_lt_iff_lt_mul hpos]

/-! ## One segment -/

/-- The value of some digits behind a value. -/
def valueFrom (v : Nat) (digits : Text) : Nat := digits.foldl (fun n c => 10 * n + (c.toNat - '0'.toNat)) v

theorem le_valueFrom (digits : Text) (v : Nat) : v ≤ valueFrom v digits := by
  induction digits generalizing v with
  | nil => exact Nat.le_refl _
  | cons c digits ih =>
    have hle := ih (10 * v + (c.toNat - '0'.toNat))
    rw [valueFrom, foldl_cons]
    unfold valueFrom at hle
    omega

variable {c : Char}

theorem digit_range (h : c.isDigit = true) : 48 ≤ c.toNat ∧ c.toNat ≤ 57 := by
  have hrange := h
  unfold Char.isDigit at hrange
  simp only [ge_iff_le, Bool.and_eq_true, decide_eq_true_eq] at hrange
  exact ⟨hrange.1, hrange.2⟩

/-- A digit is one byte. -/
theorem encode_digit (h : c.isDigit = true) : String.utf8EncodeChar c = [UInt8.ofNat c.toNat] := by
  obtain ⟨hlow, hhigh⟩ := digit_range h
  have hc : c = Char.ofNat c.toNat := (Char.ofNat_toNat c).symm
  have hall : ∀ n < 58, 48 ≤ n → String.utf8EncodeChar (Char.ofNat n) = [UInt8.ofNat (Char.ofNat n).toNat] := by
    decide
  rw [hc]
  exact hall c.toNat (by omega) hlow

theorem digit_byte (h : c.isDigit = true) : digit (UInt8.ofNat c.toNat) = true := by
  obtain ⟨hlow, hhigh⟩ := digit_range h
  have hall : ∀ n < 58, 48 ≤ n → digit (UInt8.ofNat n) = true := by decide
  exact hall c.toNat (by omega) hlow

/-- What a digit adds. -/
theorem digit_value (h : c.isDigit = true) : (UInt8.ofNat c.toNat - 48).toUInt64.toNat = c.toNat - '0'.toNat := by
  obtain ⟨hlow, hhigh⟩ := digit_range h
  have hall : ∀ n < 58, 48 ≤ n → (UInt8.ofNat n - 48).toUInt64.toNat = n - '0'.toNat := by decide
  exact hall c.toNat (by omega) hlow

theorem toUtf8_append (front back : Text) : toUtf8 (front ++ back) = toUtf8 front ++ toUtf8 back := flatMap_append

theorem toUtf8_digit (h : c.isDigit = true) (digits : Text) : toUtf8 (c :: digits) = UInt8.ofNat c.toNat :: toUtf8 digits := by
  rw [toUtf8, flatMap_cons, encode_digit h]
  rfl

/-- The digits in front are read to their value, unless it is above the limit. -/
theorem readDigits_digits {digits : Text} (hdigits : ∀ c ∈ digits, c.isDigit = true)
    (hrest : rest.head?.any digit = false) (hv : v.toNat ≤ 2 ^ 63) : readDigits v (toUtf8 digits ++ rest) =
    if 2 ^ 63 < valueFrom v.toNat digits then none else some (UInt64.ofNat (valueFrom v.toNat digits), rest) := by
  induction digits generalizing v with
  | nil =>
    have hvalue : valueFrom v.toNat [] = v.toNat := rfl
    rw [hvalue, if_neg (by omega), UInt64.ofNat_toNat]
    show readDigits v rest = _
    cases rest with
    | nil => rfl
    | cons byte rest =>
      have hbyte : ¬digit byte = true := Bool.eq_false_iff.1 hrest
      rw [readDigits, if_neg hbyte]
  | cons c digits ih =>
    have hc : c.isDigit = true := hdigits c mem_cons_self
    have hvalue : valueFrom v.toNat (c :: digits) = valueFrom (10 * v.toNat + (c.toNat - '0'.toNat)) digits := rfl
    have hle := le_valueFrom digits (10 * v.toNat + (c.toNat - '0'.toNat))
    have hten : v > kLimit / 10 ↔ 2 ^ 63 < v.toNat * 10 := gt_div (by decide)
    rw [toUtf8_digit hc, cons_append, readDigits, if_pos (digit_byte hc), hvalue]
    dsimp only
    by_cases hbig : v > kLimit / 10
    · have hover := hten.1 hbig
      rw [if_pos hbig, if_pos (by omega)]
    · have hsmall : v.toNat * 10 ≤ 2 ^ 63 := Nat.not_lt.1 (mt hten.2 hbig)
      have hdigit : c.toNat - '0'.toNat ≤ 9 := by
        have hrange := digit_range hc
        have hzero : '0'.toNat = 48 := rfl
        omega
      have hnext : (v * 10 + (UInt8.ofNat c.toNat - 48).toUInt64).toNat = 10 * v.toNat + (c.toNat - '0'.toNat) := by
        rw [UInt64.toNat_add, UInt64.toNat_mul, digit_value hc]
        show (v.toNat * 10 % 2 ^ 64 + _) % 2 ^ 64 = _
        omega
      rw [if_neg hbig]
      split
      · next hover =>
        have hlimit := gt_kLimit.1 hover
        rw [if_pos (by omega)]
      · next hunder =>
        have hlimit := Nat.not_lt.1 (mt gt_kLimit.2 hunder)
        rw [ih (fun d hd => hdigits d (mem_cons_of_mem _ hd)) hlimit, hnext]

/-- A unit is read whole, and is known. -/
theorem unit_bytes (unit : DurationUnit) : toUtf8 unit.name ≠ [] ∧ (∀ byte ∈ toUtf8 unit.name, inUnit byte = true) ∧
    validationDurationUnit (toUtf8 unit.name) = UInt64.ofNat unit.nanoseconds := by
  have hall : ∀ unit : DurationUnit, toUtf8 unit.name ≠ [] ∧ (toUtf8 unit.name).all inUnit = true ∧
      validationDurationUnit (toUtf8 unit.name) = UInt64.ofNat unit.nanoseconds := by
    intro unit
    cases unit <;> decide
  exact ⟨(hall unit).1, all_eq_true.1 (hall unit).2.1, (hall unit).2.2⟩

theorem nanoseconds_range (unit : DurationUnit) : 0 < unit.nanoseconds ∧ unit.nanoseconds < 2 ^ 63 := by
  cases unit <;> decide

/-- A segment in front is read to its value, unless it is above the limit. -/
theorem readSegment_text (segment : Segment) (hrest : ∀ byte, rest.head? = some byte → digit byte = true) :
    readSegment (toUtf8 segment.text ++ rest) = if 2 ^ 63 < segment.value then none else some (UInt64.ofNat segment.value, rest) := by
  obtain ⟨hname, hin, hunit⟩ := unit_bytes segment.unit
  obtain ⟨hpos, hlt⟩ := nanoseconds_range segment.unit
  have hdigits := segment.digits_ok
  rw [isDigits, Bool.and_eq_true, all_eq_true] at hdigits
  have hunitNat : (UInt64.ofNat segment.unit.nanoseconds).toNat = segment.unit.nanoseconds :=
    UInt64.toNat_ofNat_of_lt' (hlt.trans (by decide))
  -- what stands behind the digits
  obtain ⟨behind, hbehind⟩ : ∃ behind, toUtf8 segment.unit.name ++ rest = behind := ⟨_, rfl⟩
  obtain ⟨first, more, hfirst, hfirstIn⟩ : ∃ first more, behind = first :: more ∧ inUnit first = true := by
    cases hbytes : toUtf8 segment.unit.name with
    | nil => exact absurd hbytes hname
    | cons first more =>
      rw [hbytes] at hbehind hin
      exact ⟨first, more ++ rest, hbehind.symm, hin first mem_cons_self⟩
  rw [inUnit, Bool.and_eq_true, bne_iff_ne, Bool.not_eq_true'] at hfirstIn
  have htake : behind.takeWhile inUnit = toUtf8 segment.unit.name ∧ behind.dropWhile inUnit = rest := by
    refine front_unique (takeWhile_append_dropWhile.trans hbehind.symm) (fun _ => mem_takeWhile_imp)
      (fun _ => head_dropWhile) hin fun byte hbyte => ?_
    rw [inUnit, hrest byte hbyte, Bool.not_true, Bool.and_false]
  have htext : toUtf8 segment.text ++ rest = toUtf8 segment.digits ++ behind := by
    rw [Segment.text, toUtf8_append, append_assoc, hbehind]
  have hbehindHead : behind.head?.any digit = false := by
    rw [hfirst]
    exact hfirstIn.2
  have hread := readDigits_digits hdigits.2 hbehindHead (v := 0) (Nat.zero_le _)
  have hvalue : valueFrom (0 : UInt64).toNat segment.digits = decimalValue segment.digits := rfl
  rw [hvalue] at hread
  have hfraction : fractionOf behind = (0, 1, false, behind) := by
    unfold fractionOf
    split
    · exact absurd (List.cons.inj hfirst).1.symm hfirstIn.1
    · rfl
  -- there is a digit
  obtain ⟨c, more', hc⟩ : ∃ c more', segment.digits = c :: more' := by
    cases hcs : segment.digits with
    | nil =>
      rw [hcs] at hdigits
      exact absurd hdigits.1 (by decide)
    | cons c more' => exact ⟨c, more', rfl⟩
  have hdigit : digit (UInt8.ofNat c.toNat) = true := digit_byte (hdigits.2 c (by rw [hc]; exact mem_cons_self))
  have hhead : toUtf8 segment.digits = UInt8.ofNat c.toNat :: toUtf8 more' := by
    rw [hc, toUtf8_digit (hdigits.2 c (by rw [hc]; exact mem_cons_self))]
  have hsome : (toUtf8 segment.digits ++ behind).head?.any (fun first => first == 46 || digit first) = true := by
    rw [hhead, cons_append, head?_cons, Option.any_some, hdigit, Bool.or_true]
  have hpre : decide (behind.length ≠ (toUtf8 segment.digits ++ behind).length) = true := by
    rw [hhead]
    simp only [length_append, length_cons, decide_eq_true_eq]
    omega
  rw [htext, readSegment, if_pos hsome, hread]
  by_cases hbig : 2 ^ 63 < decimalValue segment.digits
  · have hover : 2 ^ 63 < segment.value := hbig.trans_le (Nat.le_mul_of_pos_right _ hpos)
    rw [if_pos hbig, if_pos hover]
  · have hdigitsNat : (UInt64.ofNat (decimalValue segment.digits)).toNat = decimalValue segment.digits :=
      UInt64.toNat_ofNat_of_lt' ((Nat.not_lt.1 hbig).trans_lt (by decide))
    have hproduct : UInt64.ofNat (decimalValue segment.digits) > kLimit / UInt64.ofNat segment.unit.nanoseconds ↔ 2 ^ 63 < segment.value := by
      rw [gt_div (by rw [hunitNat]; exact hpos), hdigitsNat, hunitNat]
      rfl
    have hknown : ¬UInt64.ofNat segment.unit.nanoseconds = 0 := by
      intro hzero
      rw [hzero] at hunitNat
      exact absurd hunitNat.symm (Nat.ne_of_gt hpos)
    rw [if_neg hbig]
    dsimp only
    rw [hfraction]
    dsimp only
    rw [hpre, if_neg (by decide), htake.1, if_neg hname, hunit, if_neg hknown]
    by_cases hover : 2 ^ 63 < segment.value
    · rw [if_pos (hproduct.2 hover), if_pos hover]
    · rw [if_neg (mt hproduct.1 hover), if_neg hover, if_neg (by decide), htake.2, Segment.value, UInt64.ofNat_mul]

/-! ## The sum -/

/-- The sum in the word. -/
def sumValues : Nat → List Nat → Option Nat
  | d, [] => some d
  | d, value :: values =>
    if 2 ^ 63 < value ∨ 2 ^ 63 < (d + value) % 2 ^ 64 then none else sumValues ((d + value) % 2 ^ 64) values

variable {segments : List Segment}

/-- A text of segments starts with a digit. -/
theorem head_segments {byte : UInt8} (h : (toUtf8 (segments.flatMap Segment.text)).head? = some byte) : digit byte = true := by
  cases segments with
  | nil => exact absurd h (by simp [toUtf8])
  | cons segment segments =>
    have hdigits := segment.digits_ok
    rw [isDigits, Bool.and_eq_true, all_eq_true] at hdigits
    rw [flatMap_cons, Segment.text] at h
    cases hc : segment.digits with
    | nil =>
      rw [hc] at hdigits
      exact absurd hdigits.1 (by decide)
    | cons c more =>
      rw [hc] at h hdigits
      have hdigit := hdigits.2 c mem_cons_self
      rw [cons_append, cons_append, toUtf8_digit hdigit, head?_cons, Option.some.injEq] at h
      exact h ▸ digit_byte hdigit

theorem segment_ne_nil (segment : Segment) (rest : List UInt8) : toUtf8 segment.text ++ rest ≠ [] := by
  obtain ⟨hname, -, -⟩ := unit_bytes segment.unit
  rw [Segment.text, toUtf8_append]
  simp [hname]

theorem sumSegments_texts (segments : List Segment) (d : UInt64) : sumSegments d (toUtf8 (segments.flatMap Segment.text)) =
    (sumValues d.toNat (segments.map Segment.value)).map UInt64.ofNat := by
  induction segments generalizing d with
  | nil =>
    rw [sumSegments, if_pos (by simp [toUtf8]), map_nil, sumValues, Option.map_some, UInt64.ofNat_toNat]
  | cons segment segments ih =>
    have hread := readSegment_text segment (fun byte => @head_segments segments byte)
    rw [flatMap_cons, toUtf8_append, sumSegments, if_neg (segment_ne_nil segment _), map_cons, sumValues]
    by_cases hbig : 2 ^ 63 < segment.value
    · rw [if_pos hbig] at hread
      rw [if_pos (.inl hbig)]
      split
      · rfl
      · next v rest hsome => exact absurd (hread.symm.trans hsome) (by simp)
    · rw [if_neg hbig] at hread
      have hsum : (d + UInt64.ofNat segment.value).toNat = (d.toNat + segment.value) % 2 ^ 64 := by
        rw [UInt64.toNat_add, UInt64.toNat_ofNat_of_lt' ((Nat.not_lt.1 hbig).trans_lt (by decide))]
      split
      · next hnone => exact absurd (hread.symm.trans hnone) (by simp)
      · next v rest hsome =>
        have hpair := Option.some.inj (hsome.symm.trans hread)
        rw [Prod.mk.injEq] at hpair
        obtain ⟨rfl, rfl⟩ := hpair
        by_cases hover : 2 ^ 63 < (d.toNat + segment.value) % 2 ^ 64
        · rw [if_pos (gt_kLimit.2 (hsum ▸ hover)), if_pos (.inr hover)]
          rfl
        · rw [if_neg fun hgt => hover (hsum ▸ gt_kLimit.1 hgt), if_neg (by omega), ih, hsum]

/-- What makes the sum stop. -/
def Stops (d : Nat) (values : List Nat) : Prop :=
  (∃ value ∈ values, 2 ^ 63 < value) ∨ ∃ front, front <+: values ∧ 2 ^ 63 < (d + front.sum) % 2 ^ 64

theorem stops_cons {d value : Nat} {values : List Nat} (hd : d ≤ 2 ^ 63) : Stops d (value :: values) ↔
    (2 ^ 63 < value ∨ 2 ^ 63 < (d + value) % 2 ^ 64) ∨ Stops ((d + value) % 2 ^ 64) values := by
  have hsum (front : List Nat) : ((d + value) % 2 ^ 64 + front.sum) % 2 ^ 64 = (d + (value :: front).sum) % 2 ^ 64 := by
    rw [Nat.mod_add_mod, sum_cons, Nat.add_assoc]
  constructor
  · rintro (⟨v, hv, hbig⟩ | ⟨front, hfront, hover⟩)
    · rcases mem_cons.1 hv with rfl | hin
      · exact .inl (.inl hbig)
      · exact .inr (.inl ⟨v, hin, hbig⟩)
    · cases front with
      | nil =>
        rw [sum_nil] at hover
        omega
      | cons v front =>
        rw [cons_prefix_cons] at hfront
        obtain ⟨rfl, hfront⟩ := hfront
        exact .inr (.inr ⟨front, hfront, (hsum front).symm ▸ hover⟩)
  · rintro ((hbig | hover) | ⟨v, hv, hbig⟩ | ⟨front, hfront, hover⟩)
    · exact .inl ⟨value, mem_cons_self, hbig⟩
    · refine .inr ⟨[value], cons_prefix_cons.2 ⟨rfl, nil_prefix⟩, ?_⟩
      rwa [sum_singleton]
    · exact .inl ⟨v, mem_cons_of_mem _ hv, hbig⟩
    · exact .inr ⟨value :: front, cons_prefix_cons.2 ⟨rfl, hfront⟩, hsum front ▸ hover⟩

/-- The sum stops, or it is the sum in the word. -/
theorem sumValues_eq (values : List Nat) {d : Nat} (hd : d ≤ 2 ^ 63) : Stops d values ∧ sumValues d values = none ∨
    ¬Stops d values ∧ sumValues d values = some ((d + values.sum) % 2 ^ 64) := by
  induction values generalizing d with
  | nil =>
    refine .inr ⟨?_, ?_⟩
    · rintro (⟨v, hv, -⟩ | ⟨front, hfront, hover⟩)
      · cases hv
      · rw [prefix_nil.1 hfront, sum_nil] at hover
        omega
    · rw [sumValues, sum_nil, Nat.add_zero, Nat.mod_eq_of_lt (by omega)]
  | cons value values ih =>
    rw [stops_cons hd, sumValues]
    by_cases hstop : 2 ^ 63 < value ∨ 2 ^ 63 < (d + value) % 2 ^ 64
    · exact .inl ⟨.inl hstop, if_pos hstop⟩
    · rw [if_neg hstop]
      rcases ih (d := (d + value) % 2 ^ 64) (by omega) with ⟨hrest, hnone⟩ | ⟨hrest, hsome⟩
      · exact .inl ⟨.inr hrest, hnone⟩
      · refine .inr ⟨fun h => h.elim hstop hrest, ?_⟩
        rw [hsome, Nat.mod_add_mod, sum_cons, Nat.add_assoc]

/-! ## The text -/

theorem total_eq (segments : List Segment) : total segments = (segments.map Segment.value).sum := rfl

theorem total_append (front rest : List Segment) : total (front ++ rest) = total front + total rest := by
  rw [total, map_append, sum_append, total, total]

theorem stops_iff (segments : List Segment) : Stops 0 (segments.map Segment.value) ↔ (∃ segment ∈ segments, 2 ^ 63 < segment.value) ∨
    ∃ front, front <+: segments ∧ 2 ^ 63 < total front % 2 ^ 64 := by
  unfold Stops
  apply or_congr
  · constructor
    · rintro ⟨value, hvalue, hbig⟩
      obtain ⟨segment, hin, rfl⟩ := mem_map.1 hvalue
      exact ⟨segment, hin, hbig⟩
    · rintro ⟨segment, hin, hbig⟩
      exact ⟨segment.value, mem_map_of_mem hin, hbig⟩
  · constructor
    · rintro ⟨front, hfront, hover⟩
      obtain ⟨front', hfront', rfl⟩ := prefix_map_iff.1 hfront
      exact ⟨front', hfront', by rwa [Nat.zero_add] at hover⟩
    · rintro ⟨front, hfront, hover⟩
      exact ⟨front.map Segment.value, hfront.map _, by rwa [Nat.zero_add]⟩

/-- No blank is in such a text. -/
theorem solid_text (sign : Sign) (segments : List Segment) : ∀ c ∈ durationText sign segments, isSpace c = false := by
  intro c hc
  rw [durationText, mem_append, mem_flatMap] at hc
  rcases hc with hsign | ⟨segment, -, hin⟩
  · have hall : ∀ sign : Sign, (sign.text.all fun c => !isSpace c) = true := by
      intro sign
      cases sign <;> decide
    simpa using all_eq_true.1 (hall sign) c hsign
  · rw [Segment.text, mem_append] at hin
    rcases hin with hdigit | hunit
    · have hdigits := segment.digits_ok
      rw [isDigits, Bool.and_eq_true, all_eq_true] at hdigits
      obtain ⟨hlow, hhigh⟩ := digit_range (hdigits.2 c hdigit)
      have hall : ∀ n < 58, 48 ≤ n → isSpace (Char.ofNat n) = false := by decide
      rw [← Char.ofNat_toNat c]
      exact hall c.toNat (by omega) hlow
    · have hall : ∀ unit : DurationUnit, (unit.name.all fun c => !isSpace c) = true := by
        intro unit
        cases unit <;> decide
      simpa using all_eq_true.1 (hall segment.unit) c hunit

theorem segments_bytes (hne : segments ≠ []) :
    ∃ byte rest, toUtf8 (segments.flatMap Segment.text) = byte :: rest ∧ digit byte = true ∧ rest ≠ [] := by
  cases segments with
  | nil => exact absurd rfl hne
  | cons segment segments =>
    obtain ⟨hname, -, -⟩ := unit_bytes segment.unit
    cases hbytes : toUtf8 ((segment :: segments).flatMap Segment.text) with
    | nil =>
      rw [flatMap_cons, toUtf8_append] at hbytes
      exact absurd hbytes (segment_ne_nil segment _)
    | cons byte rest =>
      refine ⟨byte, rest, rfl, head_segments (by rw [hbytes]; rfl), ?_⟩
      rintro rfl
      have hdigits := segment.digits_ok
      rw [isDigits, Bool.and_eq_true, all_eq_true] at hdigits
      cases hc : segment.digits with
      | nil =>
        rw [hc] at hdigits
        exact absurd hdigits.1 (by decide)
      | cons c more =>
        rw [hc] at hdigits
        rw [flatMap_cons, Segment.text, hc, cons_append, cons_append,
          toUtf8_digit (hdigits.2 c mem_cons_self), List.cons.injEq, toUtf8_append, toUtf8_append] at hbytes
        exact hname (append_eq_nil_iff.1 (append_eq_nil_iff.1 hbytes.2).1).2

/-- What the text is read as. -/
theorem parse_text (sign : Sign) (hne : segments ≠ []) : ParseDurationNs (durationText sign segments) =
      match (sumValues 0 (segments.map Segment.value)).map UInt64.ofNat with
      | none => none
      | some d =>
        if sign = .minus then some (if d = kLimit then Int64.minValue else -d.toInt64)
        else if d > kLimit - 1 then none
        else some d.toInt64 := by
  obtain ⟨byte, rest, hbytes, hdigit, hrest⟩ := segments_bytes hne
  have hminus : byte ≠ 45 := fun heq => absurd (heq ▸ hdigit) (by decide)
  have hplus : byte ≠ 43 := fun heq => absurd (heq ▸ hdigit) (by decide)
  have htrim : trimmed (durationText sign segments) = durationText sign segments := strip_eq_self (solid_text sign segments)
  have hsum := sumSegments_texts segments 0
  rw [hbytes] at hsum
  have hzero : ¬(byte :: rest) = [48] := fun heq => hrest (List.cons.inj heq).2
  rw [ParseDurationNs, htrim, durationText, toUtf8_append, hbytes]
  cases sign with
  | none =>
    have hfront : toUtf8 Sign.none.text ++ byte :: rest = byte :: rest := rfl
    have hhead : ((byte :: rest).head? == some 45) = false ∧ ((byte :: rest).head? == some 43) = false := by
      simp [hminus, hplus]
    rw [hfront, hhead.1, hhead.2]
    simp only [Bool.or_self, Bool.false_eq_true, if_false, if_neg hzero, hsum, reduceCtorEq]
    rfl
  | plus =>
    have hfront : toUtf8 Sign.plus.text ++ byte :: rest = 43 :: byte :: rest := rfl
    have hhead : ((43 :: byte :: rest : List UInt8).head? == some 45) = false ∧
        ((43 :: byte :: rest : List UInt8).head? == some 43) = true := ⟨rfl, rfl⟩
    rw [hfront, hhead.1, hhead.2]
    simp only [Bool.false_or, if_true, tail_cons, Bool.false_eq_true, if_false, if_neg hzero, hsum, reduceCtorEq]
    rfl
  | minus =>
    have hfront : toUtf8 Sign.minus.text ++ byte :: rest = 45 :: byte :: rest := rfl
    have hhead : ((45 :: byte :: rest : List UInt8).head? == some 45) = true := rfl
    rw [hfront, hhead]
    simp only [Bool.true_or, if_true, tail_cons, if_neg hzero, if_neg (cons_ne_nil byte rest), hsum]
    rfl

/-- A word below the limit is the same number with a sign. -/
theorem toInt_toInt64 {d : UInt64} (h : d.toNat < 2 ^ 63) : d.toInt64.toInt = d.toNat ∧ (-d.toInt64).toInt = -d.toNat := by
  have hword : d.toInt64 = Int64.ofNat d.toNat := by
    rw [← UInt64.toInt64_ofNat', UInt64.ofNat_toNat]
  rw [hword]
  exact ⟨Int64.toInt_ofNat_of_lt h, Int64.toInt_neg_ofNat_of_le h.le⟩

theorem readExactly_iff (sign : Sign) (hne : segments ≠ []) : ReadExactly sign segments ↔ Bounded sign segments := by
  have hstops := stops_iff segments
  rw [ReadExactly, parse_text sign hne]
  rcases sumValues_eq (segments.map Segment.value) (d := 0) (Nat.zero_le _) with ⟨hstop, hnone⟩ | ⟨hstop, hsome⟩
  · -- the sum is given up, and is too long
    have hlong : 2 ^ 63 < total segments := by
      rcases hstops.1 hstop with ⟨segment, hin, hbig⟩ | ⟨front, hfront, hover⟩
      · obtain ⟨front, back, rfl⟩ := append_of_mem hin
        have hone : total (segment :: back) = segment.value + total back := sum_cons
        rw [total_append, hone]
        omega
      · have hle : total front ≤ total segments := by
          obtain ⟨rest, rfl⟩ := hfront
          rw [total_append]
          exact Nat.le_add_right _ _
        have hmod := Nat.mod_le (total front) (2 ^ 64)
        omega
    rw [hnone, Option.map_none]
    have hrange : ¬(-2 ^ 63 ≤ meaning sign segments ∧ meaning sign segments < 2 ^ 63) := by
      unfold meaning
      split <;> omega
    rw [if_neg hrange]
    exact ⟨fun _ => .inr ((hstops.1 hstop).imp_right .inl), fun _ => rfl⟩
  · -- the sum is what it is in the word
    rw [hsome, Nat.zero_add, ← total_eq, Option.map_some]
    have hsmall : total segments % 2 ^ 64 ≤ 2 ^ 63 := by
      by_contra hover
      exact hstop (hstops.2 (.inr ⟨segments, prefix_refl _, Nat.not_le.1 hover⟩))
    obtain ⟨d, hd⟩ : ∃ d, UInt64.ofNat (total segments % 2 ^ 64) = d := ⟨_, rfl⟩
    have hdNat : d.toNat = total segments % 2 ^ 64 := by
      rw [← hd]
      exact UInt64.toNat_ofNat_of_lt' (Nat.mod_lt _ (by decide))
    have hbounded : Bounded sign segments ↔ total segments < 2 ^ 64 ∨ sign ≠ .minus ∧ total segments % 2 ^ 64 = 2 ^ 63 := by
      constructor
      · rintro (h | h | h | h)
        · exact .inl h
        · exact absurd (hstops.2 (.inl h)) hstop
        · exact absurd (hstops.2 (.inr h)) hstop
        · exact .inr h
      · rintro (h | h)
        · exact .inl h
        · exact .inr (.inr (.inr h))
    rw [hd, hbounded]
    by_cases hsign : sign = .minus
    · have hresult : (if d = kLimit then Int64.minValue else -d.toInt64).toInt = -d.toNat := by
        split
        · next heq =>
          rw [heq]
          decide
        · next hne' =>
          have hbelow : d.toNat ≠ 2 ^ 63 := fun heq => hne' (UInt64.toNat_inj.1 (heq.trans kLimit_toNat.symm))
          exact (toInt_toInt64 (by omega)).2
      dsimp only
      rw [if_pos hsign, Option.map_some, hresult, meaning, if_pos hsign, hdNat]
      constructor
      · intro h
        split at h
        · have heq := Option.some.inj h
          exact .inl (by omega)
        · cases h
      · rintro (h | h)
        · rw [if_pos (by omega)]
          congr 1
          omega
        · exact absurd hsign h.1
    · dsimp only
      rw [if_neg hsign, meaning, if_neg hsign]
      have hlimit : d > kLimit - 1 ↔ d.toNat = 2 ^ 63 := by
        rw [gt_iff_lt, UInt64.lt_iff_toNat_lt, show (kLimit - 1).toNat = 2 ^ 63 - 1 by decide]
        omega
      by_cases hat : d > kLimit - 1
      · have hmod : total segments % 2 ^ 64 = 2 ^ 63 := hdNat ▸ hlimit.1 hat
        rw [if_pos hat, Option.map_none, if_neg (by omega)]
        exact ⟨fun _ => .inr ⟨hsign, hmod⟩, fun _ => rfl⟩
      · have hmod : total segments % 2 ^ 64 ≠ 2 ^ 63 := hdNat ▸ mt hlimit.2 hat
        rw [if_neg hat, Option.map_some, (toInt_toInt64 (by omega)).1, hdNat]
        constructor
        · intro h
          split at h
          · have heq := Option.some.inj h
            exact .inl (by omega)
          · cases h
        · rintro (h | h)
          · rw [if_pos (by omega)]
            congr 1
            omega
          · exact absurd h.2 hmod

/-! ## Durations that are shown -/

def formatUnits : List DurationUnit := [.h, .m, .s, .ms, .us, .ns]

/-- The segments a number is shown with. -/
def shownSegments : List DurationUnit → Nat → List Segment
  | [], _ => []
  | unit :: units, v =>
    if v / unit.nanoseconds ≠ 0 then
      ⟨natText (v / unit.nanoseconds), unit, isDigits_natText _⟩ :: shownSegments units (v % unit.nanoseconds)
    else shownSegments units v

theorem showUnits_text (units : List DurationUnit) (v : UInt64) :
    showUnits (units.map fun unit => (UInt64.ofNat unit.nanoseconds, unit.name)) v = (shownSegments units v.toNat).flatMap Segment.text := by
  induction units generalizing v with
  | nil => rfl
  | cons unit units ih =>
    obtain ⟨hpos, hlt⟩ := nanoseconds_range unit
    have hunit : (UInt64.ofNat unit.nanoseconds).toNat = unit.nanoseconds :=
      UInt64.toNat_ofNat_of_lt' (hlt.trans (by decide))
    have hdiv : (v / UInt64.ofNat unit.nanoseconds).toNat = v.toNat / unit.nanoseconds := by
      rw [UInt64.toNat_div, hunit]
    have hmod : (v % UInt64.ofNat unit.nanoseconds).toNat = v.toNat % unit.nanoseconds := by
      rw [UInt64.toNat_mod, hunit]
    have hzero : v / UInt64.ofNat unit.nanoseconds = 0 ↔ v.toNat / unit.nanoseconds = 0 := by
      rw [← hdiv, ← UInt64.toNat_inj]
      rfl
    rw [map_cons, showUnits, shownSegments]
    by_cases h : v.toNat / unit.nanoseconds = 0
    · rw [if_neg (not_not.2 (hzero.2 h)), if_neg (not_not.2 h), ih]
    · rw [if_pos (mt hzero.1 h), if_pos h, flatMap_cons, Segment.text, hdiv, ih, hmod]

/-- Nothing is lost where nanoseconds come last. -/
theorem total_shown (units : List DurationUnit) (v : Nat) : total (shownSegments (units ++ [.ns]) v) = v := by
  have hsegment (unit : DurationUnit) : Segment.value ⟨natText (v / unit.nanoseconds), unit, isDigits_natText _⟩ =
      v / unit.nanoseconds * unit.nanoseconds := by
    rw [Segment.value, decimalValue_natText]
  induction units generalizing v with
  | nil =>
    rw [nil_append, shownSegments]
    split
    · rw [total, map_cons, hsegment]
      simp [shownSegments, DurationUnit.nanoseconds]
    · next hzero =>
      rw [not_not] at hzero
      simp only [DurationUnit.nanoseconds, Nat.div_one] at hzero
      rw [hzero]
      rfl
  | cons unit units ih =>
    rw [cons_append, shownSegments]
    split
    · rw [total, map_cons, sum_cons, hsegment]
      have hrest := ih (v % unit.nanoseconds) fun unit => by rw [Segment.value, decimalValue_natText]
      rw [total] at hrest
      rw [hrest, Nat.div_add_mod']
    · exact ih v hsegment

/-- The size of a duration. -/
theorem magnitude (ns : Int64) :
    (0 ≤ ns.toInt → (ns.toUInt64.toNat : Int) = ns.toInt) ∧ (ns.toInt < 0 → ((0 - ns.toUInt64).toNat : Int) = -ns.toInt) := by
  have hword : ns.toUInt64.toNat = ns.toBitVec.toNat := rfl
  have hint : ns.toInt = ns.toBitVec.toInt := rfl
  have hcond := BitVec.toInt_eq_toNat_cond ns.toBitVec
  have hlt := ns.toBitVec.isLt
  rw [hint, hword, UInt64.toNat_sub, hword]
  simp only [UInt64.toNat_zero]
  split at hcond <;> constructor <;> intro hsign <;> omega

theorem parse_format (ns : Int64) : ParseDurationNs (validationFormatDuration ns) = some ns := by
  by_cases hzero : ns = 0
  · rw [hzero]
    have htext : validationFormatDuration 0 = durationText .none [⟨"0".toList, .s, by decide⟩] := by decide
    rw [htext, parse_text .none (cons_ne_nil _ _)]
    decide
  · obtain ⟨hpos, hneg⟩ := magnitude ns
    have hunits : shownUnits = formatUnits.map fun unit => (UInt64.ofNat unit.nanoseconds, unit.name) := by decide
    have hlow := ns.minValue_le_toInt
    have hhigh := ns.toInt_lt
    rw [Int64.toInt_minValue] at hlow
    have hne : ns.toInt ≠ 0 := fun h => hzero (Int64.toInt_inj.1 h)
    obtain ⟨sign, v, htext, hmeaning, hsize⟩ : ∃ (sign : Sign) (v : Nat),
        validationFormatDuration ns = durationText sign (shownSegments formatUnits v) ∧
        (if sign = .minus then -(v : Int) else v) = ns.toInt ∧ 0 < v ∧ v ≤ 2 ^ 63 := by
      by_cases hminus : ns < 0
      · have hlt : ns.toInt < 0 := Int64.lt_iff_toInt_lt.1 hminus
        refine ⟨.minus, (0 - ns.toUInt64).toNat, ?_, ?_, ?_⟩
        · rw [validationFormatDuration, if_neg hzero, if_pos hminus, hunits, showUnits_text]
          rfl
        · rw [if_pos rfl, hneg hlt, Int.neg_neg]
        · have := hneg hlt
          omega
      · have hge : 0 ≤ ns.toInt := Int.not_lt.1 fun hlt => hminus (Int64.lt_iff_toInt_lt.2 hlt)
        refine ⟨.none, ns.toUInt64.toNat, ?_, ?_, ?_⟩
        · rw [validationFormatDuration, if_neg hzero, if_neg hminus, hunits, showUnits_text]
          rfl
        · rw [if_neg (by decide), hpos hge]
        · have := hpos hge
          omega
    have htotal : total (shownSegments formatUnits v) = v := total_shown [.h, .m, .s, .ms, .us] v
    have hsegments : shownSegments formatUnits v ≠ [] := by
      intro hnil
      rw [hnil] at htotal
      exact absurd htotal (Nat.ne_of_lt hsize.1)
    have hread := (readExactly_iff sign hsegments).2 (.inl (by omega))
    have hsays : meaning sign (shownSegments formatUnits v) = ns.toInt := by rw [meaning, htotal, hmeaning]
    rw [ReadExactly, ← htext, hsays, if_pos ⟨hlow, hhigh⟩, Option.map_eq_some_iff] at hread
    obtain ⟨result, hresult, hsame⟩ := hread
    rw [hresult, Int64.toInt_inj.1 hsame]

/-- A text of segments is read as what it says exactly where it is bounded, and every duration is shown so that
it is read again. -/
theorem durations_exact (sign : Sign) {segments : List Segment} (hne : segments ≠ []) (ns : Int64) :
    (ReadExactly sign segments ↔ Bounded sign segments) ∧ ParseDurationNs (validationFormatDuration ns) = some ns :=
  ⟨readExactly_iff sign hne, parse_format ns⟩

/-- Half a word of nanoseconds. -/
def halfWord : Segment := ⟨"9223372036854775808".toList, .ns, by decide⟩

theorem halfWord_read : ReadExactly .minus [halfWord] :=
  (durations_exact .minus (cons_ne_nil halfWord []) 0).1.2 (.inl (by decide))

/-- Twice half a word is read as no time. -/
theorem wrapped_sum : ¬ReadExactly .none [halfWord, halfWord] := by
  intro h
  have hread : ParseDurationNs (durationText .none [halfWord, halfWord]) = some 0 := by
    rw [parse_text .none (cons_ne_nil _ _)]
    decide
  have hmeaning : meaning .none [halfWord, halfWord] = 2 ^ 64 := by decide
  rw [ReadExactly, hread, hmeaning, if_neg (by omega)] at h
  cases h

end Throne.Global.Validation
