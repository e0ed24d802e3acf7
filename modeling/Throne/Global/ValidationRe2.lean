import Throne.Lib.Texts

/-!
# The regex check of the rules

`validationRe2Unsupported` of `src/src/global/Validation.cpp` with what it calls: whether the core's regex engine, RE2,
takes a pattern. A pattern is the list of its characters, and a read is made where the source makes it: `none` is a
read outside of the pattern. The weights are `int` in the source, and stay below 1000 * 1000.
-/

namespace Throne.Global.Validation

open Lib.Texts

/-! ## Characters and places -/

def validationDigit (c : Char) : Bool := '0' ≤ c && c ≤ '9'

def validationHexDigit (c : Char) : Bool := ('0' ≤ c && c ≤ '9') || ('a' ≤ c && c ≤ 'f') || ('A' ≤ c && c ≤ 'F')

def validationAsciiAlnum (c : Char) : Bool := ('0' ≤ c && c ≤ '9') || ('a' ≤ c && c ≤ 'z') || ('A' ≤ c && c ≤ 'Z')

/-- `i < p.size() && test(p[i])`. -/
def holdsAt (p : Text) (i : Nat) (test : Char → Bool) : Option Bool :=
  if i < p.length then p[i]?.map test else some false

def isAt (p : Text) (i : Nat) (c : Char) : Option Bool := holdsAt p i (· == c)

/-- `p.indexOf(pattern, i)`. -/
def indexOf (p pattern : Text) (i : Nat) : Option Nat := (cutAt pattern (p.drop i)).map fun parts => i + parts.1.length

/-- `p.mid(i, n)`. -/
def mid (p : Text) (i n : Nat) : Text := (p.drop i).take n

/-! ## Escapes -/

/-- The value of hexadecimal digits. -/
def hexNumber (digits : Text) : Nat :=
  digits.foldl (fun n c =>
    16 * n + if validationDigit c then c.toNat - '0'.toNat else
      if 'a' ≤ c then c.toNat - 'a'.toNat + 10 else c.toNat - 'A'.toNat + 10) 0

/-- A property Go has no name like. -/
def foreignProperty (name : Text) : Bool :=
  let name := if name.head? = some '^' then name.tail else name
  let name := name.dropWhile fun c => c == '_' || c == '-' || c == ' '
  name.head? == some 'X' || name.head? == some 'x' || name.elem '&' || name.elem ':' || name.elem '='

/-- The property behind `\p`. -/
def escapeProperty (p escape : Text) (start : Nat) : Option (Text × Nat) :=
  let judged (name : Text) (i : Nat) :=
    (if foreignProperty name then escape ++ mid p start (i - start) else [], i)
  (isAt p start '{').map fun braced =>
    if braced then
      match indexOf p ['}'] start with
      | none => ([], start)
      | some close => judged (mid p (start + 1) (close - start - 1)) (close + 1)
    else if start < p.length then judged (mid p start 1) (start + 1)
    else judged [] start

/-- The character behind `\x`. -/
def escapeHex (p escape : Text) (start : Nat) : Option (Text × Nat) :=
  (isAt p start '{').bind fun braced =>
    if braced then
      match indexOf p ['}'] start with
      | none => some (escape ++ p.drop start, p.length)
      | some close =>
        let digits := mid p (start + 1) (close - start - 1)
        let ok := !digits.isEmpty && digits.all validationHexDigit && decide (hexNumber digits ≤ 0x10FFFF)
        some (if ok then [] else escape ++ mid p start (close + 1 - start), close + 1)
    else if start + 1 < p.length then
      (holdsAt p start validationHexDigit).bind fun first =>
        (holdsAt p (start + 1) validationHexDigit).map fun second =>
          if first && second then ([], start + 2) else (escape ++ mid p start 2, start)
    else some (escape ++ mid p start 2, start)

/-- `validationRe2Escape`: the token that is not supported, or nothing, and the place behind the escape. -/
def validationRe2Escape (p : Text) (i : Nat) (inClass : Bool) : Option (Text × Nat) :=
  p[i + 1]?.bind fun d =>
    let escape := ['\\', d]
    let start := i + 2
    if d.toNat < 0x80 && !validationAsciiAlnum d then some ([], start)
    else if d == 'p' || d == 'P' then escapeProperty p escape start
    else if d == 'x' then escapeHex p escape start
    else if "dDsSwWafnrtv0".toList.elem d then some ([], start)
    else if "AbBz".toList.elem d && !inClass then some ([], start)
    else if '1' ≤ d && d ≤ '7' then
      (holdsAt p start fun c => '0' ≤ c && c ≤ '7').map fun octal => (if octal then [] else escape, start)
    else some (escape, start)

/-! ## Groups -/

def validationGoCaptureName (name : Text) : Bool :=
  !name.isEmpty && name.all fun c => validationAsciiAlnum c || c == '_'

structure ValidationRe2Group where
  bad : Text
  length : Nat := 0
  opens : Bool := true

/-- What is not supported of a group. -/
def groupToken (rest : Text) (length : Nat) : ValidationRe2Group := { bad := "(?".toList ++ rest.take length }

/-- The flags from one on. -/
def groupFlags (rest : Text) : Text → Nat → Bool → Bool → ValidationRe2Group
  | [], _, _, _ => { bad := [] }
  | f :: fs, k, negated, sawFlag =>
    if f == ':' || f == ')' then
      if negated && !sawFlag then groupToken rest (k + 1) else { bad := [], length := k + 1, opens := f == ':' }
    else if f == '-' then if negated then groupToken rest (k + 1) else groupFlags rest fs (k + 1) true false
    else if f == 'i' || f == 'm' || f == 's' || f == 'U' then groupFlags rest fs (k + 1) negated true
    else groupToken rest (k + 1)

/-- `validationRe2Group`, of what is behind `(?`. -/
def validationRe2Group (rest : Text) : ValidationRe2Group :=
  let c0 := rest.getD 0 '\x00'
  let c1 := rest.getD 1 '\x00'
  if (c0 == 'P' && c1 == '<') || (c0 == '<' && c1 != '=' && c1 != '!') then
    let nameStart := if c0 == 'P' then 2 else 1
    match indexOf rest ['>'] 0 with
    | none => { bad := [] }
    | some close =>
      if !validationGoCaptureName (mid rest nameStart (close - nameStart)) then groupToken rest (close + 1)
      else { bad := [], length := close + 1 }
  else if c0 == '<' || (c0 == 'P' && (c1 == '=' || c1 == '>')) || (c0 == '-' && validationDigit c1) then
    groupToken rest 2
  else if "=!>(#|'R&+".toList.elem c0 || validationDigit c0 then groupToken rest 1
  else groupFlags rest rest 0 false false

/-! ## Repeats -/

/-- A number from a place on, and the place behind it. A missing number and a leading zero are none. -/
def repeatNumber (p : Text) (start : Nat) : Option (Option (Nat × Nat)) :=
  let digits := (p.drop start).takeWhile validationDigit
  let out := if digits.length > 7 then 100000000 else decimalValue digits
  if digits.isEmpty then some none
  else if digits.length > 1 then
    p[start]?.map fun c => if c == '0' then none else some (out, start + digits.length)
  else some (some (out, start + digits.length))

/-- The brace at the end of a repeat. -/
def repeatClose (p : Text) (j min : Nat) (max : Option Nat) : Option (Option (Nat × Nat × Option Nat)) :=
  (isAt p j '}').map fun closed => if closed then some (j + 1, min, max) else none

/-- `validationRepeatEnd`: the place behind a repeat and its bounds, where the upper one may be open, or none when the
brace is a literal. -/
def validationRepeatEnd (p : Text) (i : Nat) : Option (Option (Nat × Nat × Option Nat)) :=
  (repeatNumber p (i + 1)).bind fun
    | none => some none
    | some (min, j) =>
      (isAt p j ',').bind fun comma =>
        if comma then
          (isAt p (j + 1) '}').bind fun closed =>
            if closed then repeatClose p (j + 1) min none
            else
              (repeatNumber p (j + 1)).bind fun
                | none => some none
                | some (max, j) => repeatClose p j min (some max)
        else repeatClose p j min (some min)

/-! ## The scan -/

inductive Re2Verdict where
  | fine
  | unsupported (token : Text)
  | tooManyRepeats
  deriving DecidableEq

/-- The message of a verdict. -/
def Re2Verdict.message : Re2Verdict → Text
  | .fine => []
  | .unsupported token => "The core's regex engine (RE2) does not support \"".toList ++ token ++ "\".".toList
  | .tooManyRepeats =>
    "The core's regex engine (RE2) allows at most 1000 repetitions, counting nested repeats multiplied together.".toList

/-- The variables of the loop. The weights of the open groups are never none: `top` is the last one. -/
structure Re2Scan where
  top : Nat := 1
  below : List Nat := []
  last : Nat := 0
  inClass : Bool := false
  classStart : Nat := 0
  i : Nat := 0

inductive Re2Step where
  | done (verdict : Re2Verdict)
  | go (s : Re2Scan)

namespace Re2Scan

variable (s : Re2Scan)

def commit : Re2Scan := { s with top := max s.top s.last, last := 0 }

/-- A new atom. -/
def atom : Re2Scan := { s.commit with last := 1 }

/-- A new group. -/
def push : Re2Scan := { s with top := 1, below := s.top :: s.below }

/-- A group is closed, and is the atom before what follows. -/
def pop : Re2Scan :=
  match s.below with
  | [] => s
  | top :: below => { s with top := top, below := below, last := s.top }

def moved (i : Nat) : Re2Scan := { s with i := i }

variable (p : Text)

def escapeStep : Option Re2Step :=
  if p.length ≤ s.i + 1 then some (.done .fine)
  else
    let next := if s.inClass then s else s.atom
    (holdsAt p (s.i + 1) (· == 'Q')).bind fun quote =>
      if !s.inClass && quote then
        match indexOf p ['\\', 'E'] (s.i + 2) with
        | none => some (.done .fine)
        | some stop => some (.go (next.moved (stop + 2)))
      else
        (validationRe2Escape p s.i s.inClass).map fun (bad, i) =>
          if bad ≠ [] then .done (.unsupported bad) else .go (next.moved i)

def classStep (c : Char) : Option Re2Step :=
  let next : Re2Step := .go { s with inClass := !(c == ']' && decide (s.classStart < s.i)), i := s.i + 1 }
  if c == '[' then
    (isAt p (s.i + 1) ':').map fun named =>
      if named then
        match indexOf p [':', ']'] (s.i + 2) with
        | none => next
        | some stop => .go (s.moved (stop + 2))
      else next
  else some next

def openClass : Option Re2Step :=
  (isAt p (s.i + 1) '^').map fun negated =>
    let start := if negated then s.i + 2 else s.i + 1
    .go { s.atom with inClass := true, classStart := start, i := start }

def openGroup : Option Re2Step :=
  (isAt p (s.i + 1) '*').bind fun verb =>
    if verb then
      some (.done (.unsupported (match indexOf p [')'] s.i with
        | none => mid p s.i 2
        | some close => mid p s.i (close - s.i + 1))))
    else
      (isAt p (s.i + 1) '?').map fun special =>
        if special then
          let group := validationRe2Group (p.drop (s.i + 2))
          if group.bad ≠ [] then .done (.unsupported group.bad)
          else .go ((if group.opens then s.commit.push else s.commit).moved (s.i + 2 + group.length))
        else .go (s.commit.push.moved (s.i + 1))

/-- Behind a repeat a `?` makes it lazy. -/
def lazyStep (i : Nat) : Option Re2Step :=
  (isAt p i '?').map fun lazily => .go (s.moved (if lazily then i + 1 else i))

def repeatStep : Option Re2Step :=
  (isAt p (s.i + 1) '+').bind fun possessive =>
    if possessive then some (.done (.unsupported (mid p s.i 2))) else s.lazyStep p (s.i + 1)

def countStep : Option Re2Step :=
  (validationRepeatEnd p s.i).bind fun
    | none => some (.go (s.atom.moved (s.i + 1)))
    | some (stop, min, max) =>
      if min > 1000 || max.any (· > 1000) then some (.done .tooManyRepeats)
      else
        (isAt p stop '+').bind fun possessive =>
          if possessive then some (.done (.unsupported (mid p s.i (stop - s.i + 1))))
          else if max = some 0 then { s with last := 1 }.lazyStep p stop
          else if 1 < max.getD min then
            if s.last * max.getD min > 1000 then some (.done .tooManyRepeats)
            else { s with last := s.last * max.getD min }.lazyStep p stop
          else s.lazyStep p stop

/-- One turn of the loop. -/
def turn : Option Re2Step :=
  p[s.i]?.bind fun c =>
    if c == '\\' then s.escapeStep p
    else if s.inClass then s.classStep p c
    else if c == '[' then s.openClass p
    else if c == '(' then s.openGroup p
    else if c == ')' then some (.go (s.commit.pop.moved (s.i + 1)))
    else if c == '|' then some (.go (s.commit.moved (s.i + 1)))
    else if c == '*' || c == '+' || c == '?' then s.repeatStep p
    else if c == '{' then s.countStep p
    else some (.go (s.atom.moved (s.i + 1)))

/-- The loop, with a bound on its turns. Out of turns is not to end. -/
def scan (p : Text) : Nat → Re2Scan → Option Re2Verdict
  | 0, s => if s.i < p.length then none else some .fine
  | turns + 1, s =>
    if s.i < p.length then
      (s.turn p).bind fun
        | .done verdict => some verdict
        | .go s => scan p turns s
    else some .fine

end Re2Scan

/-- `validationRe2Unsupported`. -/
def validationRe2Unsupported (p : Text) : Option Re2Verdict := Re2Scan.scan p p.length {}

/-! ## The scan ends -/

section Ends

variable {p : Text} {i : Nat}

theorem holdsAt_eq (p : Text) (i : Nat) (test : Char → Bool) : holdsAt p i test = some (p[i]?.any test) := by
  rw [holdsAt]
  split
  · next h => rw [List.getElem?_eq_getElem h, Option.map_some, Option.any_some]
  · next h => rw [List.getElem?_eq_none (Nat.not_lt.1 h), Option.any_none]

theorem isAt_eq (p : Text) (i : Nat) (c : Char) : isAt p i c = some (p[i]?.any (· == c)) := holdsAt_eq p i _

theorem indexOf_ge {pattern : Text} {found : Nat} (h : indexOf p pattern i = some found) : i ≤ found := by
  obtain ⟨parts, -, rfl⟩ := Option.map_eq_some_iff.1 h
  exact Nat.le_add_right _ _

theorem escapeProperty_ends (escape : Text) (start : Nat) : ∃ bad stop, escapeProperty p escape start = some (bad, stop) ∧ start ≤ stop := by
  rw [escapeProperty, isAt_eq, Option.map_some]
  cases p[start]?.any (· == '{') with
  | true =>
    cases hclose : indexOf p ['}'] start with
    | none => exact ⟨_, _, rfl, Nat.le_refl _⟩
    | some close => exact ⟨_, _, rfl, Nat.le_succ_of_le (indexOf_ge hclose)⟩
  | false =>
    simp only [Bool.false_eq_true, if_false]
    split
    · exact ⟨_, _, rfl, Nat.le_succ _⟩
    · exact ⟨_, _, rfl, Nat.le_refl _⟩

theorem escapeHex_ends (escape : Text) {start : Nat} (hstart : start ≤ p.length) :
    ∃ bad stop, escapeHex p escape start = some (bad, stop) ∧ start ≤ stop := by
  rw [escapeHex, isAt_eq, Option.bind_some]
  cases p[start]?.any (· == '{') with
  | true =>
    cases hclose : indexOf p ['}'] start with
    | none => exact ⟨_, _, rfl, hstart⟩
    | some close => exact ⟨_, _, rfl, Nat.le_succ_of_le (indexOf_ge hclose)⟩
  | false =>
    simp only [Bool.false_eq_true, if_false, holdsAt_eq, Option.bind_some, Option.map_some]
    split
    · split
      · exact ⟨_, _, rfl, Nat.le_add_right _ _⟩
      · exact ⟨_, _, rfl, Nat.le_refl _⟩
    · exact ⟨_, _, rfl, Nat.le_refl _⟩

/-- Where there is something to escape, the escape ends behind it. -/
theorem validationRe2Escape_ends (hi : i + 1 < p.length) (inClass : Bool) :
    ∃ bad stop, validationRe2Escape p i inClass = some (bad, stop) ∧ i + 2 ≤ stop := by
  rw [validationRe2Escape, List.getElem?_eq_getElem hi, Option.bind_some]
  dsimp only
  split
  · exact ⟨_, _, rfl, Nat.le_refl _⟩
  · split
    · exact escapeProperty_ends _ _
    · split
      · exact escapeHex_ends _ hi
      · split
        · exact ⟨_, _, rfl, Nat.le_refl _⟩
        · split
          · exact ⟨_, _, rfl, Nat.le_refl _⟩
          · split
            · rw [holdsAt_eq, Option.map_some]
              exact ⟨_, _, rfl, Nat.le_refl _⟩
            · exact ⟨_, _, rfl, Nat.le_refl _⟩

theorem repeatNumber_ends (start : Nat) : ∃ found, repeatNumber p start = some found ∧ ∀ value stop, found = some (value, stop) → start ≤ stop := by
  rw [repeatNumber]
  split
  · exact ⟨none, rfl, nofun⟩
  · next hsome =>
    split
    · next hlong =>
      obtain ⟨c, hc⟩ : ∃ c, p[start]? = some c := by
        rw [Option.ne_none_iff_exists'.symm, ne_eq, List.getElem?_eq_none_iff]
        intro hbehind
        rw [List.drop_of_length_le hbehind] at hlong
        cases hlong
      rw [hc, Option.map_some]
      refine ⟨_, rfl, fun value stop h => ?_⟩
      split at h
      · cases h
      · cases h
        exact Nat.le_add_right _ _
    · refine ⟨_, rfl, fun value stop h => ?_⟩
      cases h
      exact Nat.le_add_right _ _

theorem repeatClose_ends (j min : Nat) (max : Option Nat) :
    ∃ found, repeatClose p j min max = some found ∧ ∀ bounds, found = some bounds → j < bounds.1 := by
  rw [repeatClose, isAt_eq, Option.map_some]
  refine ⟨_, rfl, fun bounds h => ?_⟩
  split at h
  · cases h
    exact Nat.lt_succ_self j
  · cases h

theorem validationRepeatEnd_ends (i : Nat) : ∃ found, validationRepeatEnd p i = some found ∧ ∀ bounds, found = some bounds → i < bounds.1 := by
  obtain ⟨found, hmin, hbehind⟩ := repeatNumber_ends (p := p) (i + 1)
  rw [validationRepeatEnd, hmin, Option.bind_some]
  cases found with
  | none => exact ⟨none, rfl, nofun⟩
  | some number =>
    obtain ⟨min, j⟩ := number
    have hj := hbehind min j rfl
    have hclose : ∀ k ≥ j, ∀ max, ∃ found, repeatClose p k min max = some found ∧ ∀ bounds, found = some bounds → i < bounds.1 := by
      intro k hk max
      obtain ⟨found, heq, hlt⟩ := repeatClose_ends (p := p) k min max
      exact ⟨found, heq, fun bounds h => by have hlt := hlt bounds h; omega⟩
    dsimp only
    rw [isAt_eq, Option.bind_some]
    split
    · rw [isAt_eq, Option.bind_some]
      split
      · exact hclose (j + 1) (Nat.le_succ j) none
      · obtain ⟨found, hmax, hbehind'⟩ := repeatNumber_ends (p := p) (j + 1)
        rw [hmax, Option.bind_some]
        cases found with
        | none => exact ⟨none, rfl, nofun⟩
        | some number =>
          obtain ⟨max, k⟩ := number
          exact hclose k (by have hk := hbehind' max k rfl; omega) (some max)
    · exact hclose j (Nat.le_refl j) (some min)

namespace Re2Scan

/-- The turn reads inside, and goes on behind its place. -/
def Advances (s : Re2Scan) (turned : Option Re2Step) : Prop := ∃ step, turned = some step ∧ ∀ s', step = .go s' → s.i < s'.i

variable {s : Re2Scan}

theorem Advances.done (verdict : Re2Verdict) : s.Advances (some (.done verdict)) := ⟨_, rfl, nofun⟩

theorem Advances.go {s' : Re2Scan} (h : s.i < s'.i) : s.Advances (some (.go s')) := by
  refine ⟨_, rfl, fun s'' heq => ?_⟩
  cases heq
  exact h

theorem escapeStep_advances (s : Re2Scan) (p : Text) : s.Advances (s.escapeStep p) := by
  rw [escapeStep]
  split
  · exact .done _
  next hlen =>
    dsimp only
    rw [holdsAt_eq, Option.bind_some]
    split
    · split
      · exact .done _
      · next stop hstop =>
        have hle := indexOf_ge hstop
        exact .go (show s.i < stop + 2 by omega)
    · obtain ⟨bad, stop, heq, hle⟩ := validationRe2Escape_ends (p := p) (i := s.i) (by omega) s.inClass
      rw [heq, Option.map_some]
      dsimp only
      split
      · exact .done _
      · exact .go (show s.i < stop by omega)

theorem classStep_advances (s : Re2Scan) (p : Text) (c : Char) : s.Advances (s.classStep p c) := by
  rw [classStep]
  split
  · rw [isAt_eq, Option.map_some]
    split
    · split
      · exact .go (Nat.lt_succ_self _)
      · next stop hstop =>
        have hle := indexOf_ge hstop
        exact .go (show s.i < stop + 2 by omega)
    · exact .go (Nat.lt_succ_self _)
  · exact .go (Nat.lt_succ_self _)

theorem openClass_advances (s : Re2Scan) (p : Text) : s.Advances (s.openClass p) := by
  rw [openClass, isAt_eq, Option.map_some]
  refine .go ?_
  show s.i < ite _ _ _
  split <;> omega

theorem openGroup_advances (s : Re2Scan) (p : Text) : s.Advances (s.openGroup p) := by
  rw [openGroup, isAt_eq, Option.bind_some]
  split
  · exact .done _
  · rw [isAt_eq, Option.map_some]
    split
    · dsimp only
      split
      · exact .done _
      · exact .go (show s.i < s.i + 2 + _ by omega)
    · exact .go (Nat.lt_succ_self _)

theorem lazyStep_advances {s t : Re2Scan} (p : Text) {i : Nat} (h : s.i < i) : s.Advances (t.lazyStep p i) := by
  rw [lazyStep, isAt_eq, Option.map_some]
  refine .go ?_
  show s.i < ite _ _ _
  split
  · omega
  · exact h

theorem repeatStep_advances (s : Re2Scan) (p : Text) : s.Advances (s.repeatStep p) := by
  rw [repeatStep, isAt_eq, Option.bind_some]
  split
  · exact .done _
  · exact lazyStep_advances p (Nat.lt_succ_self _)

theorem countStep_advances (s : Re2Scan) (p : Text) : s.Advances (s.countStep p) := by
  obtain ⟨found, heq, hlt⟩ := validationRepeatEnd_ends (p := p) s.i
  rw [countStep, heq, Option.bind_some]
  cases found with
  | none => exact .go (Nat.lt_succ_self _)
  | some bounds =>
    obtain ⟨stop, min, max⟩ := bounds
    have hstop := hlt _ rfl
    dsimp only
    split
    · exact .done _
    · rw [isAt_eq, Option.bind_some]
      split
      · exact .done _
      · split
        · exact lazyStep_advances p hstop
        · split
          · split
            · exact .done _
            · exact lazyStep_advances p hstop
          · exact lazyStep_advances p hstop

theorem turn_advances (h : s.i < p.length) : s.Advances (s.turn p) := by
  rw [turn, List.getElem?_eq_getElem h, Option.bind_some]
  split
  · exact escapeStep_advances s p
  · split
    · exact classStep_advances s p _
    · split
      · exact openClass_advances s p
      · split
        · exact openGroup_advances s p
        · split
          · exact .go (Nat.lt_succ_self _)
          · split
            · exact .go (Nat.lt_succ_self _)
            · split
              · exact repeatStep_advances s p
              · split
                · exact countStep_advances s p
                · exact .go (Nat.lt_succ_self _)

/-- Enough turns are as good as more, and end the scan. -/
theorem scan_enough (turns : Nat) (s : Re2Scan) (h : p.length ≤ s.i + turns) : ∃ verdict, ∀ more, scan p (turns + more) s = some verdict := by
  induction turns generalizing s with
  | zero =>
    refine ⟨.fine, fun more => ?_⟩
    have hend : ¬s.i < p.length := by omega
    cases more with
    | zero | succ more => exact if_neg hend
  | succ turns ih =>
    by_cases hi : s.i < p.length
    · obtain ⟨step, hstep, hlt⟩ := turn_advances hi
      cases step with
      | done verdict =>
        refine ⟨verdict, fun more => ?_⟩
        rw [Nat.succ_add, scan, if_pos hi, hstep]
        rfl
      | go s' =>
        have hadvance := hlt s' rfl
        obtain ⟨verdict, hverdict⟩ := ih s' (by omega)
        refine ⟨verdict, fun more => ?_⟩
        rw [Nat.succ_add, scan, if_pos hi, hstep]
        exact hverdict more
    · refine ⟨.fine, fun more => ?_⟩
      rw [Nat.succ_add, scan, if_neg hi]

end Re2Scan

/-- The scan of any pattern ends, and reads nothing outside of it. -/
theorem validationRe2Unsupported_ends (p : Text) : ∃ verdict, validationRe2Unsupported p = some verdict := by
  obtain ⟨verdict, h⟩ := Re2Scan.scan_enough (p := p) p.length {} (Nat.le_add_left _ _)
  exact ⟨verdict, h 0⟩

end Ends

end Throne.Global.Validation
