import Throne.Global.Re2Repeats
import Throne.Global.ValidationDuration

/-!
# Addresses, prefixes and integers as the core reads them

`validationParseInt`, `validationParseIp` and `Cidr` of `src/src/global/Validation.cpp` with what they call. A text is
the list of its characters, a read is made where the source makes it, and `none` is a read outside of the text.
-/

namespace Throne.Global.Validation

open Lib.Texts List

/-! ## Integers -/

/-- The loop of `validationParseInt` from the place `i` on; `quint64` wraps around. -/
def parseIntLoop (s : Text) (limit : Nat) : Nat → Nat → Nat → Option (Option Nat)
  | 0, _, v => some (some v)
  | left + 1, i, v =>
    s[i]?.bind fun c =>
      if validationDigit c then
        let d := c.toNat - '0'.toNat
        if v > (limit - d) / 10 then some none
        else parseIntLoop s limit left (i + 1) ((v * 10 + d) % 2 ^ 64)
      else some none

/-- The value behind the loop: `qint64(v)`, or what a minus sign makes of it. -/
def signedValue (neg : Bool) (limit v : Nat) : Int :=
  if !neg then (v : Int).bmod (2 ^ 64) else if v = limit then -2 ^ 63 else -(v : Int).bmod (2 ^ 64)

def validationParseInt (s : Text) : Option (Option Int) :=
  if s.isEmpty then some none
  else
    s[0]?.bind fun first =>
      let neg := first == '-'
      let i := if neg then 1 else 0
      if i = s.length then some none
      else
        let limit := 2 ^ 63 - 1 + if neg then 1 else 0
        (parseIntLoop s limit (s.length - i) i 0).map (Option.map (signedValue neg limit))

/-! ## IPv4 -/

/-- The loop of `validationIpv4Fields` from the place `i` on. -/
def ipv4Loop (s : Text) : Nat → Nat → Nat → Nat → Nat → Option Bool
  | 0, _, _, pos, _ => some (pos == 3)
  | left + 1, i, val, pos, digLen =>
    s[i]?.bind fun c =>
      if validationDigit c then
        if digLen = 1 ∧ val = 0 then some false
        else
          let val := val * 10 + (c.toNat - '0'.toNat)
          if val > 255 then some false else ipv4Loop s left (i + 1) val pos (digLen + 1)
      else if c = '.' then
        if i = 0 ∨ i = s.length - 1 then some false
        else
          s[i - 1]?.bind fun before =>
            if before = '.' ∨ pos = 3 then some false else ipv4Loop s left (i + 1) 0 (pos + 1) 0
      else some false

def validationIpv4Fields (s : Text) : Option Bool := ipv4Loop s s.length 0 0 0 0

/-! ## IPv6 -/

/-- `u <= '9' ? u - '0' : (u | 0x20) - 'a' + 10`. -/
def hexValue (c : Char) : Nat := if c ≤ '9' then c.toNat - '0'.toNat else (c.toNat ||| 0x20) - 'a'.toNat + 10

/-- The loop over a group from `p` on: its length, or nothing where the group is refused. -/
def hexLoop (s : Text) (p : Nat) : Nat → Nat → Nat → Option (Option Nat)
  | 0, off, _ => some (some off)
  | left + 1, off, acc =>
    s[p + off]?.bind fun c =>
      if !validationHexDigit c then some (some off)
      else
        let acc := (acc * 16 + hexValue c) % 2 ^ 32
        if off > 3 ∨ acc > 0xFFFF then some none else hexLoop s p left (off + 1) acc

/-- What is said behind the groups. -/
def ipv6End (s : Text) (p i : Nat) (ellipsis : Option Nat) : Bool :=
  if p ≠ s.length then false else if i < 16 then ellipsis.isSome else ellipsis.isNone

/-- The loop over the groups; every turn adds two bytes, so nine turns are enough. -/
def ipv6Loop (s : Text) : Nat → Nat → Nat → Option Nat → Option Bool
  | 0, _, _, _ => none
  | turns + 1, p, i, ellipsis =>
    if i < 16 then
      (hexLoop s p (s.length - p) 0 0).bind fun
        | none => some false
        | some off =>
          if off = 0 then some false
          else
            (isAt s (p + off) '.').bind fun dotted =>
              if dotted then
                if ellipsis.isNone ∧ i ≠ 12 then some false
                else if i + 4 > 16 then some false
                else (validationIpv4Fields (s.drop p)).map fun ok => ok && ipv6End s s.length (i + 4) ellipsis
              else if p + off = s.length then some (ipv6End s (p + off) (i + 2) ellipsis)
              else
                s[p + off]?.bind fun c =>
                  if c ≠ ':' ∨ p + off + 1 = s.length then some false
                  else
                    s[p + off + 1]?.bind fun next =>
                      if next = ':' then
                        if ellipsis.isSome then some false
                        else if p + off + 2 = s.length then
                          some (ipv6End s (p + off + 2) (i + 2) (some (i + 2)))
                        else ipv6Loop s turns (p + off + 2) (i + 2) (some (i + 2))
                      else ipv6Loop s turns (p + off + 1) (i + 2) ellipsis
    else some (ipv6End s p i ellipsis)

/-- An address without its zone. -/
def ipv6Address (s : Text) : Option Bool :=
  (isAt s 0 ':').bind fun first =>
    (isAt s 1 ':').bind fun second =>
      if first && second then if s.length = 2 then some true else ipv6Loop s 9 2 0 (some 0)
      else ipv6Loop s 9 0 0 none

/-- Whether the text is an address, and whether it has a zone. -/
def validationIpv6 (s : Text) : Option (Bool × Bool) :=
  match indexOf s ['%'] 0 with
  | none => (ipv6Address s).map fun ok => (ok, false)
  | some pct =>
    if pct = s.length - 1 then some (false, false)
    else (ipv6Address (s.take pct)).map fun ok => (ok, true)

/-! ## Addresses and prefixes -/

inductive ValidationIpKind where
  | Invalid
  | V4
  | V6
  deriving DecidableEq

structure ValidationIp where
  kind : ValidationIpKind := .Invalid
  zoned : Bool := false

/-- The loop of `validationParseIp` over what is left. -/
def parseIpLoop (s : Text) : Text → Option ValidationIp
  | [] => some {}
  | c :: rest =>
    if c = '.' then (validationIpv4Fields s).map fun ok => { kind := if ok then .V4 else .Invalid }
    else if c = ':' then
      (validationIpv6 s).map fun ip => { kind := if ip.1 then .V6 else .Invalid, zoned := ip.2 }
    else if c = '%' then some {}
    else parseIpLoop s rest

def validationParseIp (s : Text) : Option ValidationIp := parseIpLoop s s

inductive Family where
  | Any
  | V4
  | V6
  deriving DecidableEq

def validationIpMessage : Family → Text
  | .V4 => "Not a valid IPv4 address (four numbers from 0 to 255 separated by dots).".toList
  | .V6 => "Not a valid IPv6 address.".toList
  | .Any => "Not a valid IP address.".toList

def validationCheckIp (ip : ValidationIp) (family : Family) : Text :=
  if ip.kind = .Invalid then validationIpMessage family
  else if family = .V4 ∧ ip.kind ≠ .V4 then validationIpMessage family
  else if family = .V6 ∧ ip.kind ≠ .V6 then validationIpMessage family
  else if ip.zoned then "An IPv6 zone (the part starting with %) is not allowed here.".toList
  else []

/-- `validationEmpty`. -/
def validationEmpty (required : Bool) : Text := if required then "This field is required.".toList else []

def needPrefix : Text := "Use an address with a prefix length, for example 10.0.0.0/8 or fd00::/8.".toList

/-- `text.lastIndexOf(c)`. -/
def lastIndexOf (text : Text) (c : Char) : Option Nat :=
  if text.elem c then some ((text.rdropWhile (· != c)).length - 1) else none

/-- The bits behind an address. -/
def checkBits (ip : ValidationIp) (bits : Text) : Option Text :=
  if bits.elem '.' then some "Use a prefix length instead of a netmask, for example 10.0.0.0/8.".toList
  else if bits.isEmpty || !bits.all validationDigit then some needPrefix
  else
    (if bits.length > 1 then bits[0]?.map (· == '0') else some false).map fun leading =>
      if leading then "Write the prefix length without leading zeros.".toList
      else
        let maxBits := if ip.kind = .V4 then 32 else 128
        if bits.length > 3 ∨ decimalValue bits > maxBits then
          "The prefix length must be from 0 to ".toList ++ natText maxBits ++ ['.']
        else []

/-- `Cidr`, for a field that may or may not be empty. -/
def Cidr (text : Text) (family : Family) (allowBareIp required : Bool) : Option Text :=
  let t := trimmed text
  if t.isEmpty then some (validationEmpty required)
  else
    match lastIndexOf t '/' with
    | none => if allowBareIp then (validationParseIp t).map (validationCheckIp · family) else some needPrefix
    | some slash =>
      (validationParseIp (t.take slash)).bind fun ip =>
        let message := validationCheckIp ip family
        if !message.isEmpty then some message else checkBits ip (t.drop (slash + 1))

/-! ## What the core takes -/

/-- A number that `strconv` reads into 64 bits with a sign, a plus sign apart. -/
def IntegerText (s : Text) (n : Int) : Prop :=
  ∃ (neg : Bool) (digits : Text), s = (if neg then ['-'] else []) ++ digits ∧ digits ≠ [] ∧
    (∀ c ∈ digits, validationDigit c = true) ∧
    n = (if neg then -(decimalValue digits : Int) else decimalValue digits) ∧ -2 ^ 63 ≤ n ∧ n < 2 ^ 63

def Octet (text : Text) : Prop :=
  text ≠ [] ∧ (∀ c ∈ text, validationDigit c = true) ∧ (text.head? = some '0' → text = ['0']) ∧ decimalValue text ≤ 255

/-- An octet, and so many more with a dot in front of each. -/
def Octets : Nat → Text → Prop
  | 0, text => Octet text
  | n + 1, text => ∃ first rest, text = first ++ '.' :: rest ∧ Octet first ∧ Octets n rest

def Ipv4 (text : Text) : Prop := Octets 3 text

def HexGroup (text : Text) : Prop := text ≠ [] ∧ text.length ≤ 4 ∧ ∀ c ∈ text, validationHexDigit c = true

/-- Groups with a colon between each two, how many bytes they are, and whether there is an ellipsis among them. The last
ones may be an IPv4 address. -/
inductive Groups : Nat → Bool → Text → Prop
  | last {group : Text} (h : HexGroup group) : Groups 2 false group
  | ipv4 {text : Text} (h : Ipv4 text) : Groups 4 false text
  | more {n : Nat} {elided : Bool} {group rest : Text} (h : HexGroup group) (hrest : Groups n elided rest) :
    Groups (n + 2) elided (group ++ ':' :: rest)
  | ends {group : Text} (h : HexGroup group) : Groups 2 true (group ++ [':', ':'])
  | ellipsis {n : Nat} {group rest : Text} (h : HexGroup group) (hrest : Groups n false rest) :
    Groups (n + 2) true (group ++ ':' :: ':' :: rest)

/-- Groups behind an ellipsis, or none. -/
def Behind (n : Nat) (text : Text) : Prop := text = [] ∧ n = 0 ∨ Groups n false text

/-- All sixteen bytes, or fewer with an ellipsis, which stands for the groups that are missing. -/
def Ipv6 (text : Text) : Prop := Groups 16 false text ∨ ∃ n < 16, Groups n true text ∨ ∃ back, text = ':' :: ':' :: back ∧ Behind n back

/-- An address that may have a zone. -/
def Ipv6Zoned (text : Text) (zoned : Bool) : Prop :=
  ∃ addr, Ipv6 addr ∧ if zoned then ∃ zone, zone ≠ [] ∧ text = addr ++ '%' :: zone else text = addr

/-- An address without a zone and the number of its bits, as `netip.ParsePrefix` takes them. -/
def Prefix (text : Text) : Prop :=
  ∃ addr bits, text = addr ++ '/' :: bits ∧ bits ≠ [] ∧ (∀ c ∈ bits, validationDigit c = true) ∧ (bits.head? = some '0' → bits = ['0']) ∧
    (Ipv4 addr ∧ decimalValue bits ≤ 32 ∨ Ipv6 addr ∧ decimalValue bits ≤ 128)

/-! ## Integers are read as they are -/

section Integers

variable {s rest : Text} {i v : Nat}

theorem parseIntLoop_reads (limit : Nat) (h : Facing s i rest) (hlow : 9 ≤ limit) (hhigh : limit < 2 ^ 64)
    (hv : v ≤ limit) : parseIntLoop s limit rest.length i v =
    some (if rest.all validationDigit = true ∧ valueFrom v rest ≤ limit then some (valueFrom v rest) else none) := by
  induction rest generalizing i v with
  | nil =>
    rw [if_pos ⟨rfl, hv⟩]
    rfl
  | cons c rest ih =>
    rw [length_cons, parseIntLoop, h.head, Option.bind_some]
    by_cases hc : validationDigit c = true
    · obtain ⟨hfirst, hlast⟩ := digit_bounds hc
      have hzero : '0'.toNat = 48 := rfl
      have hvalue : valueFrom v (c :: rest) = valueFrom (10 * v + (c.toNat - '0'.toNat)) rest := rfl
      rw [if_pos hc]
      dsimp only
      by_cases hbig : v > (limit - (c.toNat - '0'.toNat)) / 10
      · have hle := le_valueFrom rest (10 * v + (c.toNat - '0'.toNat))
        rw [if_pos hbig, if_neg]
        rintro ⟨-, hfits⟩
        rw [hvalue] at hfits
        omega
      · have hnext : (v * 10 + (c.toNat - '0'.toNat)) % 2 ^ 64 = 10 * v + (c.toNat - '0'.toNat) := by omega
        rw [if_neg hbig, hnext, ih h.next (by omega), hvalue]
        simp only [all_cons, hc, Bool.true_and]
    · rw [if_neg hc, if_neg fun hall => hc (all_eq_true.1 hall.1 c mem_cons_self)]

/-- The limit leaves room for the sign. -/
theorem parsed_iff (neg : Bool) {limit : Nat} (hlimit : limit = 2 ^ 63 - 1 + if neg then 1 else 0) (digits : Text)
    (n : Int) : (if digits.all validationDigit = true ∧ valueFrom 0 digits ≤ limit then
    some (valueFrom 0 digits) else none).map (signedValue neg limit) = some n ↔ (∀ c ∈ digits, validationDigit c = true) ∧
    n = (if neg then -(decimalValue digits : Int) else decimalValue digits) ∧ -2 ^ 63 ≤ n ∧ n < 2 ^ 63 := by
  show _ ↔ _ ∧ n = (if neg then -(valueFrom 0 digits : Int) else valueFrom 0 digits) ∧ _
  generalize valueFrom 0 digits = v
  have hvalue : v ≤ limit → signedValue neg limit v = if neg then -(v : Int) else v := by
    intro hle
    rw [signedValue, Int.bmod_def]
    cases neg <;> grind
  rw [← all_eq_true]
  by_cases hread : digits.all validationDigit = true ∧ v ≤ limit
  · rw [if_pos hread, Option.map_some, hvalue hread.2, Option.some.injEq, and_iff_right hread.1]
    cases neg <;> grind
  · rw [if_neg hread]
    refine iff_of_false nofun ?_
    rintro ⟨hdigits, rfl, hlow, hhigh⟩
    refine hread ⟨hdigits, ?_⟩
    cases neg <;> grind

theorem integerText_iff (neg : Bool) {digits : Text} (hplus : neg = false → digits.head? ≠ some '-') (n : Int) :
    IntegerText ((if neg then ['-'] else []) ++ digits) n ↔ digits ≠ [] ∧ (∀ c ∈ digits, validationDigit c = true) ∧
    n = (if neg then -(decimalValue digits : Int) else decimalValue digits) ∧ -2 ^ 63 ≤ n ∧ n < 2 ^ 63 := by
  refine ⟨?_, fun h => ⟨neg, digits, rfl, h⟩⟩
  rintro ⟨neg', digits', hsame, h⟩
  cases neg with
  | true =>
    cases neg' with
    | true =>
      cases hsame
      exact h
    | false =>
      obtain rfl : '-' :: digits = digits' := hsame
      exact absurd (h.2.1 '-' mem_cons_self) (by decide)
  | false =>
    cases neg' with
    | true =>
      obtain rfl : digits = '-' :: digits' := hsame
      exact absurd rfl (hplus rfl)
    | false =>
      obtain rfl : digits = digits' := hsame
      exact h

/-- The value of a text is read exactly, where it has one. -/
theorem validationParseInt_reads (s : Text) : ∃ value, validationParseInt s = some value ∧ ∀ n, value = some n ↔ IntegerText s n := by
  obtain ⟨neg, digits, rfl, hplus⟩ : ∃ neg digits, s = (if neg then ['-'] else []) ++ digits ∧
      (neg = false → digits.head? ≠ some '-') := by
    by_cases hneg : s.head? = some '-'
    · exact ⟨true, s.tail, (eq_cons_of_mem_head? hneg), nofun⟩
    · exact ⟨false, s, rfl, fun _ => hneg⟩
  simp only [integerText_iff neg hplus]
  cases digits with
  | nil =>
    refine ⟨none, by cases neg <;> rfl, fun n => iff_of_false nofun fun h => h.1 rfl⟩
  | cons c rest =>
    obtain ⟨limit, hlimit⟩ : ∃ limit, limit = 2 ^ 63 - 1 + if neg then 1 else 0 := ⟨_, rfl⟩
    have hread : validationParseInt ((if neg then ['-'] else []) ++ c :: rest) =
        (parseIntLoop ((if neg then ['-'] else []) ++ c :: rest) limit (c :: rest).length (if neg then 1 else 0) 0).map
          (Option.map (signedValue neg limit)) := by
      rw [hlimit]
      cases neg with
      | true => rfl
      | false =>
        have hc : c ≠ '-' := fun heq => hplus rfl (congrArg some heq)
        simp [validationParseInt, hc, beq_eq_false_iff_ne.2 hc]
    have hfacing : Facing ((if neg then ['-'] else []) ++ c :: rest) (if neg then 1 else 0) (c :: rest) := by
      cases neg with
      | true => exact ⟨Nat.le_add_left 1 _, rfl⟩
      | false => exact ⟨Nat.zero_le _, rfl⟩
    have hbounds : 9 ≤ limit ∧ limit < 2 ^ 64 := by
      rw [hlimit]
      cases neg <;> decide
    rw [parseIntLoop_reads limit hfacing hbounds.1 hbounds.2 (Nat.zero_le _)] at hread
    refine ⟨_, hread, fun n => ?_⟩
    rw [and_iff_right (cons_ne_nil _ _)]
    exact parsed_iff neg hlimit (c :: rest) n

end Integers

/-! ## IPv4 addresses -/

section Ipv4

variable {n : Nat} {text : Text}

theorem octets_chars (h : Octets n text) : ∀ c ∈ text, validationDigit c = true ∨ c = '.' := by
  induction n generalizing text with
  | zero => exact fun c hc => .inl (h.2.1 c hc)
  | succ n ih =>
    obtain ⟨first, rest, rfl, hfirst, hrest⟩ := h
    intro c hc
    rcases mem_append.1 hc with hc | hc
    · exact .inl (hfirst.2.1 c hc)
    · exact (mem_cons.1 hc).elim .inr (ih hrest c)

/-- The octet in front of a text, and what is behind it. -/
theorem octets_iff {octet behind : Text} (hdigits : ∀ c ∈ octet, validationDigit c = true)
    (hbehind : ∀ c, behind.head? = some c → validationDigit c = false) : Octets n (octet ++ behind) ↔
    Octet octet ∧ (n = 0 ∧ behind = [] ∨ ∃ m rest, n = m + 1 ∧ behind = '.' :: rest ∧ Octets m rest) := by
  constructor
  · intro h
    cases n with
    | zero =>
      cases behind with
      | nil => exact ⟨by rwa [append_nil] at h, .inl ⟨rfl, rfl⟩⟩
      | cons c behind => exact nomatch (hbehind c rfl).symm.trans (h.2.1 c (by simp))
    | succ n =>
      obtain ⟨first, rest, htext, hfirst, hrest⟩ := h
      obtain ⟨rfl, rfl⟩ := front_unique htext hdigits hbehind hfirst.2.1 (head_stops (by decide))
      exact ⟨hfirst, .inr ⟨n, rest, rfl, rfl, hrest⟩⟩
  · rintro ⟨hoctet, ⟨rfl, rfl⟩ | ⟨m, rest, rfl, rfl, hrest⟩⟩
    · rwa [append_nil]
    · exact ⟨octet, rest, rfl, hoctet, hrest⟩

theorem octets_first (h : Octets n text) : Octet (text.takeWhile validationDigit) := by
  rw [← takeWhile_append_dropWhile (p := validationDigit) (l := text)] at h
  refine ((octets_iff (fun c hc => mem_takeWhile_imp hc) fun c hc => ?_).1 h).1
  exact head_dropWhile hc

theorem not_octets_nil : ¬Octets n [] := fun h => (octets_first h).1 rfl

theorem decimalValue_snoc (digits : Text) (c : Char) : decimalValue (digits ++ [c]) = decimalValue digits * 10 + (c.toNat - '0'.toNat) := by
  rw [decimalValue, foldl_append, foldl_cons, foldl_nil, Nat.mul_comm]
  rfl

/-- The octet that the loop is in is the text read since the last dot. -/
theorem ipv4Loop_reads {s rest octet : Text} {i pos : Nat} (h : Facing s i rest) (hpos : pos ≤ 3)
    (hdigits : ∀ c ∈ octet, validationDigit c = true) (hlead : octet.head? = some '0' → octet = ['0'])
    (hval : decimalValue octet ≤ 255) (hbefore : 0 < i → ∃ b, s[i - 1]? = some b ∧ (b = '.' ↔ octet = []))
    (hstart : i = 0 → octet = []) (hset : octet = [] → rest ≠ [] ∨ pos = 0) :
    ∃ ok, ipv4Loop s rest.length i (decimalValue octet) pos octet.length = some ok ∧ (ok = true ↔ Octets (3 - pos) (octet ++ rest)) := by
  induction rest generalizing i pos octet with
  | nil =>
    refine ⟨pos == 3, rfl, ?_⟩
    rw [octets_iff hdigits (by rintro c ⟨⟩), beq_iff_eq]
    constructor
    · intro hthree
      have hne : octet ≠ [] := fun hempty => (hset hempty).elim (fun hno => hno rfl) (by omega)
      exact ⟨⟨hne, hdigits, hlead, hval⟩, .inl ⟨by omega, rfl⟩⟩
    · rintro ⟨-, ⟨hzero, -⟩ | ⟨m, rest, -, hno, -⟩⟩
      · omega
      · cases hno
  | cons c rest ih =>
    have hno : ∀ {t : Prop}, ¬t → (false = true ↔ t) := fun ht => iff_of_false Bool.false_ne_true ht
    rw [length_cons, ipv4Loop, h.head, Option.bind_some]
    have hfirst : validationDigit c = true → Octets (3 - pos) (octet ++ c :: rest) → Octet (octet ++ c :: rest.takeWhile validationDigit) := by
      intro hc hoctets
      have hoctet := octets_first hoctets
      rwa [takeWhile_append_of_pos hdigits, takeWhile_cons_of_pos hc] at hoctet
    by_cases hc : validationDigit c = true
    · rw [if_pos hc]
      by_cases hzero : octet.length = 1 ∧ decimalValue octet = 0
      · -- A digit behind a zero.
        rw [if_pos hzero]
        refine ⟨false, rfl, hno fun hoctets => ?_⟩
        have hoctet := hfirst hc hoctets
        obtain ⟨d, rfl⟩ := length_eq_one_iff.1 hzero.1
        have hd := digit_bounds (hdigits d mem_cons_self)
        have hvalue : decimalValue [d] = d.toNat - 48 := by
          rw [← nil_append [d], decimalValue_snoc]
          exact Nat.zero_add _
        have hsame : d = '0' := Char.toNat_inj.1 (show d.toNat = 48 by omega)
        subst hsame
        exact absurd (hoctet.2.2.1 rfl) (by simp)
      · rw [if_neg hzero, ← decimalValue_snoc]
        dsimp only
        by_cases hbig : decimalValue (octet ++ [c]) > 255
        · rw [if_pos hbig]
          refine ⟨false, rfl, hno fun hoctets => ?_⟩
          have hoctet := (hfirst hc hoctets).2.2.2
          have hle := le_valueFrom (rest.takeWhile validationDigit) (decimalValue (octet ++ [c]))
          have hvalue : decimalValue (octet ++ c :: rest.takeWhile validationDigit) =
              valueFrom (decimalValue (octet ++ [c])) (rest.takeWhile validationDigit) := by
            rw [← singleton_append, ← append_assoc, decimalValue, foldl_append]
            rfl
          rw [hvalue] at hoctet
          exact absurd (hle.trans hoctet) (Nat.not_le.2 hbig)
        · rw [if_neg hbig]
          have hnext := @ih (octet ++ [c]) (i + 1) pos h.next hpos ?_ ?_ (Nat.not_lt.1 hbig) ?_ ?_ ?_
          · rwa [length_append, append_assoc] at hnext
          · intro d hd
            exact (mem_append.1 hd).elim (hdigits d) fun hd => mem_singleton.1 hd ▸ hc
          · intro hhead
            cases octet with
            | nil => exact congrArg (fun c => [c]) (Option.some.inj hhead)
            | cons d octet =>
              have hone := hlead hhead
              rw [hone] at hzero
              exact absurd ⟨rfl, by decide⟩ hzero
          · exact fun _ => ⟨c, h.head, iff_of_false (by rintro rfl; exact absurd hc (by decide)) (by simp)⟩
          · exact fun hno => absurd hno (Nat.succ_ne_zero _)
          · exact fun hno => absurd hno (by simp)
    · rw [if_neg hc]
      have hc' := Bool.eq_false_iff.2 hc
      by_cases hdot : c = '.'
      · subst hdot
        rw [if_pos rfl]
        have hlen := h.length
        rw [length_cons] at hlen
        have hiff := @octets_iff (3 - pos) octet ('.' :: rest) hdigits (head_stops hc')
        by_cases hends : i = 0 ∨ i = s.length - 1
        · rw [if_pos hends]
          refine ⟨false, rfl, hno fun hoctets => ?_⟩
          obtain ⟨hoctet, ⟨-, hno⟩ | ⟨m, rest', -, hsame, hrest⟩⟩ := hiff.1 hoctets
          · cases hno
          · rcases hends with hi | hi
            · exact hoctet.1 (hstart hi)
            · cases hsame
              have hnil : rest = [] := length_eq_zero_iff.1 (by omega)
              exact not_octets_nil (hnil ▸ hrest)
        · rw [if_neg hends]
          rw [not_or] at hends
          obtain ⟨b, hb, hdot⟩ := hbefore (Nat.pos_of_ne_zero hends.1)
          rw [hb, Option.bind_some]
          by_cases hstop : b = '.' ∨ pos = 3
          · rw [if_pos hstop]
            refine ⟨false, rfl, hno fun hoctets => ?_⟩
            obtain ⟨hoctet, ⟨-, hno⟩ | ⟨m, rest', hm, -, -⟩⟩ := hiff.1 hoctets
            · cases hno
            · exact hstop.elim (fun hb => hoctet.1 (hdot.1 hb)) (by omega)
          · rw [if_neg hstop]
            rw [not_or, hdot] at hstop
            obtain ⟨ok, hok, hreads⟩ := @ih [] (i + 1) (pos + 1) h.next (by omega) (by simp) (by simp) (by decide)
              (fun _ => ⟨'.', h.head, by simp⟩) (fun _ => rfl) fun _ => .inl (by grind)
            refine ⟨ok, hok, hreads.trans ?_⟩
            rw [hiff, and_iff_right ⟨hstop.1, hdigits, hlead, hval⟩]
            constructor
            · exact fun hrest => .inr ⟨3 - (pos + 1), rest, by omega, rfl, hrest⟩
            · rintro (⟨-, hno⟩ | ⟨m, rest', hm, hsame, hrest⟩)
              · cases hno
              · cases hsame
                rwa [show 3 - (pos + 1) = m by omega]
      · rw [if_neg hdot]
        refine ⟨false, rfl, hno fun hoctets => ?_⟩
        exact (octets_chars hoctets c (by simp)).elim hc hdot

theorem validationIpv4Fields_reads (s : Text) : ∃ ok, validationIpv4Fields s = some ok ∧ (ok = true ↔ Ipv4 s) :=
  @ipv4Loop_reads s s [] 0 0 ⟨Nat.zero_le _, rfl⟩ (Nat.zero_le 3) (by simp) (by simp) (by decide)
    (fun h => absurd h (Nat.lt_irrefl 0)) (fun _ => rfl) fun _ => .inr rfl

end Ipv4

/-! ## IPv6 addresses -/

section Ipv6

variable {s rest : Text} {p off acc : Nat}

theorem hexValue_lt {c : Char} (h : validationHexDigit c = true) : hexValue c < 16 := by
  have hrange : c.toNat < 103 := by
    simp only [validationHexDigit, Bool.or_eq_true, Bool.and_eq_true, decide_eq_true_eq, Char.le_def, UInt32.le_iff_toNat_le] at h
    have hlast : 'f'.val.toNat = 102 ∧ '9'.val.toNat = 57 ∧ 'F'.val.toNat = 70 := by decide
    show c.val.toNat < 103
    omega
  have hall : ∀ n < 103, validationHexDigit (Char.ofNat n) = true → hexValue (Char.ofNat n) < 16 := by decide
  have hc := hall c.toNat hrange
  rw [Char.ofNat_toNat] at hc
  exact hc h

/-- The digits of a group are counted, up to four. -/
theorem hexLoop_reads (h : Facing s (p + off) rest) (hoff : off ≤ 4) (hacc : acc < 16 ^ off) :
    hexLoop s p rest.length off acc = some (if off + (rest.takeWhile validationHexDigit).length ≤ 4 then
    some (off + (rest.takeWhile validationHexDigit).length) else none) := by
  induction rest generalizing off acc with
  | nil =>
    rw [takeWhile_nil, length_nil, Nat.add_zero, if_pos hoff]
    rfl
  | cons c rest ih =>
    rw [length_cons, hexLoop, h.head, Option.bind_some]
    by_cases hc : validationHexDigit c = true
    · have hvalue := hexValue_lt hc
      rw [hc, takeWhile_cons_of_pos hc, length_cons]
      dsimp only
      rw [if_neg (by decide)]
      by_cases hlong : off > 3
      · rw [if_pos (.inl hlong), if_neg (by omega)]
      · have hpow : 16 ^ (off + 1) = 16 ^ off * 16 := Nat.pow_succ ..
        have hle : 16 ^ (off + 1) ≤ 16 ^ 4 := Nat.pow_le_pow_right (by decide) (by omega)
        have hfits : (acc * 16 + hexValue c) % 2 ^ 32 = acc * 16 + hexValue c := Nat.mod_eq_of_lt (by omega)
        rw [hfits, if_neg (by omega), ih h.next (by omega) (by omega), Nat.add_right_comm, Nat.add_assoc]
    · have hno := Bool.eq_false_iff.2 hc
      rw [hno, takeWhile_cons_of_neg hc, length_nil, if_pos (by decide), if_pos (show off + 0 ≤ 4 from hoff)]
      rfl

theorem octet_hex {c : Char} (h : validationDigit c = true) : validationHexDigit c = true := by
  rw [validationDigit] at h
  rw [validationHexDigit, h, Bool.true_or, Bool.true_or]

variable {elided : Bool} {n i : Nat} {group behind text : Text}

/-- The group in front of a text, and what is behind it. -/
theorem groups_iff (hgroup : ∀ c ∈ group, validationHexDigit c = true)
    (hbehind : ∀ c, behind.head? = some c → validationHexDigit c = false) (fits : Nat → Prop) :
    (∃ n, fits n ∧ Groups n elided (group ++ behind)) ↔ HexGroup group ∧ (elided = false ∧ behind = [] ∧ fits 2 ∨
    elided = false ∧ behind.head? = some '.' ∧ fits 4 ∧ Ipv4 (group ++ behind) ∨
    ∃ rest, behind = ':' :: rest ∧ ((∃ n, fits (n + 2) ∧ Groups n elided rest) ∨
    elided = true ∧ ∃ back, rest = ':' :: back ∧ ∃ n, fits (n + 2) ∧ Behind n back)) := by
  constructor
  · rintro ⟨n, hn, h⟩
    generalize htext : group ++ behind = text at h
    cases h with
    | last h =>
      obtain ⟨rfl, rfl⟩ := front_unique (htext.trans (append_nil _).symm) hgroup hbehind h.2.2 (by rintro c ⟨⟩)
      exact ⟨h, .inl ⟨rfl, rfl, hn⟩⟩
    | ipv4 h =>
      obtain ⟨first, rest, rfl, hfirst, hrest⟩ := id h
      obtain ⟨rfl, rfl⟩ := front_unique htext hgroup hbehind (fun c hc => octet_hex (hfirst.2.1 c hc)) (head_stops (by decide))
      have hshort := digits_short (k := 2) hfirst.2.1 (fun h => by rw [hfirst.2.2.1 h]; rfl) (Nat.lt_of_le_of_lt hfirst.2.2.2 (by decide))
      exact ⟨⟨hfirst.1, Nat.le_succ_of_le hshort, hgroup⟩, .inr (.inl ⟨rfl, rfl, hn, h⟩)⟩
    | more h hrest =>
      obtain ⟨rfl, rfl⟩ := front_unique htext hgroup hbehind h.2.2 (head_stops (by decide))
      exact ⟨h, .inr (.inr ⟨_, rfl, .inl ⟨_, hn, hrest⟩⟩)⟩
    | ends h =>
      obtain ⟨rfl, rfl⟩ := front_unique htext hgroup hbehind h.2.2 (head_stops (by decide))
      exact ⟨h, .inr (.inr ⟨_, rfl, .inr ⟨rfl, [], rfl, 0, hn, .inl ⟨rfl, rfl⟩⟩⟩)⟩
    | ellipsis h hrest =>
      obtain ⟨rfl, rfl⟩ := front_unique htext hgroup hbehind h.2.2 (head_stops (by decide))
      exact ⟨h, .inr (.inr ⟨_, rfl, .inr ⟨rfl, _, rfl, _, hn, .inr hrest⟩⟩)⟩
  · rintro ⟨h, ⟨rfl, rfl, hn⟩ | ⟨rfl, -, hn, hipv4⟩ | ⟨rest, rfl, ⟨n, hn, hrest⟩ | ⟨rfl, back, rfl, n, hn, hback⟩⟩⟩
    · exact ⟨2, hn, (append_nil group).symm ▸ .last h⟩
    · exact ⟨4, hn, .ipv4 hipv4⟩
    · exact ⟨n + 2, hn, .more h hrest⟩
    · rcases hback with ⟨rfl, rfl⟩ | hback
      · exact ⟨2, hn, .ends h⟩
      · exact ⟨n + 2, hn, .ellipsis h hback⟩

/-- What may be left behind `i` bytes, with an ellipsis among them or not. -/
def Ipv6Rest (i : Nat) (elided : Bool) (text : Text) : Prop :=
  if elided then ∃ n, i + n < 16 ∧ Groups n false text
  else (∃ n, i + n = 16 ∧ Groups n false text) ∨ ∃ n, i + n < 16 ∧ Groups n true text

theorem rest_iff (hgroup : ∀ c ∈ group, validationHexDigit c = true) (hbehind : ∀ c, behind.head? = some c → validationHexDigit c = false) :
    Ipv6Rest i elided (group ++ behind) ↔ HexGroup group ∧ (behind = [] ∧ (if elided then i + 2 < 16 else i + 2 = 16) ∨
    behind.head? = some '.' ∧ (if elided then i + 4 < 16 else i + 4 = 16) ∧ Ipv4 (group ++ behind) ∨
    ∃ rest, behind = ':' :: rest ∧ (Ipv6Rest (i + 2) elided rest ∨
    elided = false ∧ ∃ back, rest = ':' :: back ∧ ∃ n, i + 2 + n < 16 ∧ Behind n back)) := by
  have hadd : ∀ n, i + 2 + n = i + (n + 2) := fun n => by omega
  simp only [Ipv6Rest, groups_iff hgroup hbehind fun n => i + n < 16, groups_iff hgroup hbehind fun n => i + n = 16, hadd]
  cases elided with
  | true => simp
  | false =>
    simp
    grind

theorem not_rest_colon : ¬Ipv6Rest i elided (':' :: text) := fun h =>
  ((@rest_iff elided i [] _ nofun (head_stops (by decide))).1 h).1.1 rfl

theorem rest_cons {c : Char} (h : HexGroup group) (hc : validationHexDigit c = false) : Ipv6Rest i elided (group ++ c :: rest) ↔
    c = '.' ∧ (if elided then i + 4 < 16 else i + 4 = 16) ∧ Ipv4 (group ++ c :: rest) ∨ c = ':' ∧ (Ipv6Rest (i + 2) elided rest ∨
    elided = false ∧ ∃ back, rest = ':' :: back ∧ ∃ n, i + 2 + n < 16 ∧ Behind n back) := by
  rw [rest_iff h.2.2 (head_stops hc), and_iff_right h]
  simp

theorem behind_iff : (∃ n, i + n < 16 ∧ Behind n text) ↔ if text = [] then i < 16 else Ipv6Rest i true text := by
  split
  · next hnil => exact ⟨fun ⟨n, hlt, _⟩ => by omega, fun hlt => ⟨0, hlt, .inl ⟨hnil, rfl⟩⟩⟩
  · next hset => simp [Behind, Ipv6Rest, hset]

/-- Behind the groups read so far the loop takes what may be left. -/
theorem ipv6Loop_reads {turns : Nat} {ellipsis : Option Nat} (h : Facing s p rest) (hi : i + 2 * turns = 16) (hne : rest ≠ [] ∨ i < 16) :
    ∃ ok, ipv6Loop s (turns + 1) p i ellipsis = some ok ∧ (ok = true ↔ Ipv6Rest i ellipsis.isSome rest) := by
  induction turns generalizing p i ellipsis rest with
  | zero =>
    have hlen := h.length
    have hset := length_pos_iff.2 (hne.resolve_right (by omega))
    refine ⟨false, ?_, iff_of_false Bool.false_ne_true ?_⟩
    · rw [ipv6Loop, if_neg (by omega), ipv6End, if_pos (by omega)]
    · rw [Ipv6Rest]
      split
      · rintro ⟨n, hlt, -⟩
        omega
      · rintro (⟨n, hsame, hgroups⟩ | ⟨n, hlt, -⟩)
        · obtain rfl : n = 0 := by omega
          cases hgroups
        · omega
  | succ turns ih =>
    have hno : ∀ {t : Prop}, ¬t → (false = true ↔ t) := fun ht => iff_of_false Bool.false_ne_true ht
    obtain ⟨group, behind, rfl, hhex, hstop⟩ : ∃ group behind, rest = group ++ behind ∧
        (∀ c ∈ group, validationHexDigit c = true) ∧ ∀ c, behind.head? = some c → validationHexDigit c = false :=
      ⟨_, _, takeWhile_append_dropWhile.symm, fun _ => mem_takeWhile_imp, fun _ => head_dropWhile⟩
    have hlen := h.length
    have hread := @hexLoop_reads s (group ++ behind) p 0 0 h (Nat.zero_le 4) (by decide)
    rw [takeWhile_front hhex hstop, Nat.zero_add] at hread
    rw [ipv6Loop, if_pos (by omega), show s.length - p = (group ++ behind).length by omega, hread, Option.bind_some]
    by_cases hfew : group.length ≤ 4
    swap
    · rw [if_neg hfew]
      exact ⟨false, rfl, hno fun hrest => hfew ((rest_iff hhex hstop).1 hrest).1.2.1⟩
    rw [if_pos hfew]
    dsimp only
    by_cases hempty : group.length = 0
    · rw [if_pos hempty]
      exact ⟨false, rfl, hno fun hrest => ((rest_iff hhex hstop).1 hrest).1.1 (length_eq_zero_iff.1 hempty)⟩
    have hg : HexGroup group := ⟨fun hnil => hempty (length_eq_zero_iff.2 hnil), hfew, hhex⟩
    have hend : Facing s (p + group.length) behind := h.past
    have hdotted := hend.isAt 0 '.'
    rw [Nat.add_zero] at hdotted
    rw [if_neg hempty, hdotted, Option.bind_some]
    cases behind with
    | nil =>
      have hlast : p + group.length = s.length := hend.length.symm
      refine ⟨_, (if_neg Bool.false_ne_true).trans (if_pos hlast), ?_⟩
      rw [rest_iff hhex hstop, and_iff_right hg, ipv6End, if_neg (not_not.2 hlast)]
      cases ellipsis <;> simp
      omega
    | cons c behind =>
      rw [rest_cons hg (hstop c rfl)]
      have hinside := hend.inside
      by_cases hdot : c = '.'
      · subst hdot
        obtain ⟨ok, hok, hipv4⟩ := validationIpv4Fields_reads (s.drop p)
        rw [h.2] at hipv4
        have hsame : (if ellipsis.isNone = true ∧ i ≠ 12 then some false
            else if i + 4 > 16 then some false
            else (some ok).map fun ok => ok && ipv6End s s.length (i + 4) ellipsis) =
            some (decide (if ellipsis.isSome then i + 4 < 16 else i + 4 = 16) && ok) := by
          cases ellipsis <;> simp [ipv6End] <;> grind
        rw [show (('.' :: behind)[0]?.any (· == '.')) = true from rfl, if_pos rfl, hok]
        exact ⟨_, hsame, by simp [hipv4]⟩
      · have hnot : ((c :: behind)[0]?.any (· == '.')) = false := beq_eq_false_iff_ne.2 hdot
        rw [hnot, if_neg Bool.false_ne_true, if_neg (by omega), hend.head, Option.bind_some, 
          or_iff_right (a := c = '.' ∧ _) fun hdot' => hdot hdot'.1]
        by_cases hcolon : c = ':'
        swap
        · rw [if_pos (.inl hcolon)]
          exact ⟨false, rfl, hno fun hrest => hcolon hrest.1⟩
        subst hcolon
        have hlen' := hend.length
        rw [length_cons] at hlen'
        rw [and_iff_right rfl]
        cases behind with
        | nil =>
          rw [if_pos (.inr (by rw [hlen']; rfl))]
          refine ⟨false, rfl, hno ?_⟩
          rintro (hrest | ⟨-, back, hnil, -⟩)
          · exact ((@rest_iff _ _ [] [] (fun _ h => nomatch h) (fun _ h => nomatch h)).1 hrest).1.1 rfl
          · cases hnil
        | cons d behind =>
          rw [length_cons] at hlen'
          rw [if_neg (by rw [hlen']; simp), hend.next.head, Option.bind_some]
          by_cases hd : d = ':'
          · subst hd
            rw [if_pos rfl, or_iff_right not_rest_colon]
            cases ellipsis with
            | some place => exact ⟨false, rfl, hno fun hrest => nomatch hrest.1⟩
            | none =>
              have hback : (∃ back, ':' :: behind = ':' :: back ∧ ∃ n, i + 2 + n < 16 ∧ Behind n back) ↔
                  ∃ n, i + 2 + n < 16 ∧ Behind n behind := by simp
              rw [if_neg (by decide), and_iff_right (show (none : Option Nat).isSome = false from rfl), hback, behind_iff]
              by_cases hends : behind = []
              · have hlast : p + group.length + 2 = s.length := by
                  rw [hlen', hends]
                  rfl
                refine ⟨_, if_pos hlast, ?_⟩
                rw [if_pos hends, ipv6End, if_neg (not_not.2 hlast)]
                split <;> simp [*]
              · rw [if_neg hends, if_neg fun hlast => hends (length_eq_zero_iff.1 (by omega))]
                exact ih hend.next.next (by omega) (.inl hends)
          · rw [if_neg hd, or_iff_left fun ⟨_, back, hsame, _⟩ => hd (List.cons.inj hsame).1]
            exact ih hend.next (by omega) (.inl (cons_ne_nil _ _))

theorem ipv6_iff : Ipv6 text ↔ Ipv6Rest 0 false text ∨ ∃ back, text = ':' :: ':' :: back ∧ ∃ n, 0 + n < 16 ∧ Behind n back := by
  simp only [Ipv6, Ipv6Rest, Nat.zero_add, Bool.false_eq_true, if_false, exists_eq_left]
  grind

theorem ipv6Address_reads (s : Text) : ∃ ok, ipv6Address s = some ok ∧ (ok = true ↔ Ipv6 s) := by
  have hfacing : Facing s 0 s := ⟨Nat.zero_le _, rfl⟩
  have hfirst := hfacing.isAt 0 ':'
  have hsecond := hfacing.isAt 1 ':'
  rw [Nat.zero_add] at hsecond
  rw [ipv6Address, hfirst, hsecond, Option.bind_some, Option.bind_some, ipv6_iff]
  by_cases hellipsis : ∃ back, s = ':' :: ':' :: back
  · obtain ⟨back, rfl⟩ := hellipsis
    have hback : (∃ back', ':' :: ':' :: back = ':' :: ':' :: back' ∧ ∃ n, 0 + n < 16 ∧ Behind n back') ↔ ∃ n, 0 + n < 16 ∧ Behind n back := by simp
    rw [or_iff_right not_rest_colon, hback, behind_iff]
    show ∃ ok, (if (true && true) = true then (if (':' :: ':' :: back).length = 2 then some true
      else ipv6Loop (':' :: ':' :: back) 9 2 0 (some 0)) else _) = some ok ∧ _
    rw [if_pos (by decide)]
    by_cases hends : back = []
    · rw [if_pos hends, hends]
      exact ⟨true, rfl, by decide⟩
    · rw [if_neg hends, if_neg (by simpa using hends)]
      exact ipv6Loop_reads hfacing.next.next rfl (.inl hends)
  · have hno : (s[0]?.any (· == ':') && s[1]?.any (· == ':')) = false := by
      rw [Bool.and_eq_false_imp]
      intro hcolon
      refine Bool.eq_false_iff.2 fun hcolon' => hellipsis ?_
      match s, hcolon, hcolon' with
      | c :: d :: back, hcolon, hcolon' => exact ⟨back, by rw [beq_iff_eq.1 hcolon, beq_iff_eq.1 hcolon']⟩
    rw [hno, if_neg Bool.false_ne_true, or_iff_left fun ⟨back, hsame, _⟩ => hellipsis ⟨back, hsame⟩]
    exact ipv6Loop_reads hfacing rfl (.inr (by decide))

/-- A group comes first, or the ellipsis. -/
theorem ipv6_colon (h : Ipv6 text) : ∃ group rest, text = group ++ ':' :: rest ∧ ∀ c ∈ group, validationHexDigit c = true := by
  rcases h with h | ⟨n, -, h | ⟨back, rfl, -⟩⟩
  · cases h with
    | more h hrest => exact ⟨_, _, rfl, h.2.2⟩
  · cases h with
    | more h _ | ends h | ellipsis h _ => exact ⟨_, _, rfl, h.2.2⟩
  · exact ⟨[], _, rfl, nofun⟩

/-- No other characters are in an address. -/
def addressChar (c : Char) : Bool := validationHexDigit c || c == '.' || c == ':'

theorem ipv4_chars (h : Octets n text) : ∀ c ∈ text, addressChar c = true := by
  intro c hc
  rw [addressChar]
  rcases octets_chars h c hc with hdigit | rfl
  · rw [octet_hex hdigit, Bool.true_or, Bool.true_or]
  · decide

theorem groups_chars (h : Groups n elided text) : ∀ c ∈ text, addressChar c = true := by
  have hgroup : ∀ {group : Text}, HexGroup group → ∀ c ∈ group, addressChar c = true := by
    intro group h c hc
    rw [addressChar, h.2.2 c hc, Bool.true_or, Bool.true_or]
  have hcolon : addressChar ':' = true := by decide
  induction h with
  | last h => exact hgroup h
  | ipv4 h => exact ipv4_chars h
  | more h _ ih => exact forall_mem_append.2 ⟨hgroup h, forall_mem_cons.2 ⟨hcolon, ih⟩⟩
  | ends h => exact forall_mem_append.2 ⟨hgroup h, forall_of_all (by decide)⟩
  | ellipsis h _ ih =>
    exact forall_mem_append.2 ⟨hgroup h, forall_mem_cons.2 ⟨hcolon, forall_mem_cons.2 ⟨hcolon, ih⟩⟩⟩

theorem ipv6_chars (h : Ipv6 text) : ∀ c ∈ text, addressChar c = true := by
  rcases h with h | ⟨n, -, h | ⟨back, rfl, ⟨rfl, -⟩ | h⟩⟩
  · exact groups_chars h
  · exact groups_chars h
  · exact forall_of_all (by decide)
  · exact forall_mem_cons.2 ⟨by decide, forall_mem_cons.2 ⟨by decide, groups_chars h⟩⟩

theorem ipv6Zoned_false : Ipv6Zoned text false ↔ Ipv6 text :=
  ⟨fun ⟨_, h, heq⟩ => heq ▸ h, fun h => ⟨text, h, rfl⟩⟩

/-- A zone is told apart from the address. -/
theorem validationIpv6_reads (s : Text) : ∃ ok zoned, validationIpv6 s = some (ok, zoned) ∧ ∀ z, ok = true ∧ zoned = z ↔ Ipv6Zoned s z := by
  have hfree : ∀ {addr : Text}, Ipv6 addr → '%' ∉ addr := fun h hmem => absurd (ipv6_chars h '%' hmem) (by decide)
  by_cases hzone : '%' ∈ s
  · obtain ⟨front, zone, rfl, hfront⟩ := eq_append_cons_of_mem hzone
    have hindex : indexOf (front ++ '%' :: zone) ['%'] 0 = some front.length := by
      rw [indexOf, drop_zero, (cutAt_char hfront zone).2, Option.map_some, Nat.zero_add]
    have hzoned : ∀ z, Ipv6Zoned (front ++ '%' :: zone) z ↔ Ipv6 front ∧ zone ≠ [] ∧ z = true := by
      intro z
      cases z with
      | false =>
        refine iff_of_false (fun h => ?_) fun h => Bool.false_ne_true h.2.2
        exact hfree (ipv6Zoned_false.1 h) hzone
      | true =>
        constructor
        · rintro ⟨addr, haddr, zone', hset, heq⟩
          have hne : ∀ {text : Text}, '%' ∉ text → ∀ c ∈ text, (c != '%') = true := fun h c hc =>
            bne_iff_ne.2 fun heq => h (heq ▸ hc)
          obtain ⟨rfl, hsame⟩ := front_unique heq (hne hfront) (head_stops rfl) (hne (hfree haddr)) (head_stops rfl)
          cases hsame
          exact ⟨haddr, hset, rfl⟩
        · rintro ⟨haddr, hset, -⟩
          exact ⟨front, haddr, zone, hset, rfl⟩
    by_cases hset : zone = []
    · refine ⟨false, false, ?_, fun z => iff_of_false (fun h => Bool.false_ne_true h.1) fun h => ((hzoned z).1 h).2.1 hset⟩
      rw [validationIpv6, hindex, hset]
      exact if_pos (by simp)
    · obtain ⟨ok, hok, hreads⟩ := ipv6Address_reads front
      refine ⟨ok, true, ?_, fun z => ?_⟩
      · rw [validationIpv6, hindex]
        dsimp only
        rw [if_neg (by simpa using hset), take_left, hok, Option.map_some]
      · rw [hzoned, hreads, and_iff_right hset]
        exact and_congr_right fun _ => eq_comm
  · have hindex : indexOf s ['%'] 0 = none := by
      rw [indexOf, drop_zero, (cutAt_char hzone []).1]
      rfl
    obtain ⟨ok, hok, hreads⟩ := ipv6Address_reads s
    refine ⟨ok, false, ?_, fun z => ?_⟩
    · rw [validationIpv6, hindex]
      dsimp only
      rw [hok, Option.map_some]
    · cases z with
      | false => rw [ipv6Zoned_false, and_iff_left rfl, hreads]
      | true =>
        refine iff_of_false (fun h => Bool.false_ne_true h.2) ?_
        rintro ⟨addr, -, zone, -, rfl⟩
        exact hzone (by simp)

end Ipv6

/-! ## Addresses and prefixes -/

section Addresses

/-- None of the characters that decide what a text is taken for. -/
def plainChar (c : Char) : Bool := c != '.' && c != ':' && c != '%'

theorem hex_plain {c : Char} (h : validationHexDigit c = true) : plainChar c = true := by
  have hne : ∀ d, validationHexDigit d = false → (c != d) = true := by
    rintro d hd
    refine bne_iff_ne.2 ?_
    rintro rfl
    exact nomatch hd.symm.trans h
  rw [plainChar, hne '.' (by decide), hne ':' (by decide), hne '%' (by decide)]
  rfl

theorem parseIpLoop_plain {s front rest : Text} (h : ∀ c ∈ front, plainChar c = true) : parseIpLoop s (front ++ rest) = parseIpLoop s rest := by
  induction front with
  | nil => rfl
  | cons c front ih =>
    have hc := h c mem_cons_self
    rw [plainChar, Bool.and_eq_true, Bool.and_eq_true, bne_iff_ne, bne_iff_ne, bne_iff_ne] at hc
    rw [cons_append, parseIpLoop, if_neg hc.1.1, if_neg hc.1.2, if_neg hc.2]
    exact ih fun d hd => h d (mem_cons_of_mem c hd)

/-- An address is classified as what it is, and nothing else is. -/
theorem validationParseIp_reads (s : Text) : ∃ ip, validationParseIp s = some ip ∧
    (ip.kind = .V4 ∧ ip.zoned = false ↔ Ipv4 s) ∧ (ip.kind = .V4 → ip.zoned = false) ∧ ∀ z, ip.kind = .V6 ∧ ip.zoned = z ↔ Ipv6Zoned s z := by
  have hfront : ∀ c ∈ s.takeWhile plainChar, plainChar c = true := fun c hc => mem_takeWhile_imp hc
  have hsplit := takeWhile_append_dropWhile (p := plainChar) (l := s)
  have hloop : validationParseIp s = parseIpLoop s (s.dropWhile plainChar) := by
    rw [validationParseIp]
    nth_rewrite 2 [← hsplit]
    exact parseIpLoop_plain hfront
  have hfirst : ∀ {front rest : Text} {c : Char}, s = front ++ c :: rest → (∀ d ∈ front, plainChar d = true) →
      plainChar c = false → (s.dropWhile plainChar).head? = some c := by
    intro front rest c heq hplain hc
    have hboth := (front_unique (hsplit.trans heq) hfront (fun d hd => head_dropWhile hd) hplain (head_stops hc)).2
    rw [hboth]
    rfl
  have hipv4 : Ipv4 s → (s.dropWhile plainChar).head? = some '.' := by
    rintro ⟨first, rest, heq, hoctet, -⟩
    exact hfirst heq (fun c hc => hex_plain (octet_hex (hoctet.2.1 c hc))) (by decide)
  have hipv6 : ∀ z, Ipv6Zoned s z → (s.dropWhile plainChar).head? = some ':' := by
    rintro z ⟨addr, haddr, hz⟩
    obtain ⟨group, rest, rfl, hhex⟩ := ipv6_colon haddr
    have heq : ∃ more, s = group ++ ':' :: more := by
      cases z with
      | false => exact ⟨_, hz⟩
      | true =>
        obtain ⟨zone, -, rfl⟩ := hz
        exact ⟨_, append_assoc ..⟩
    obtain ⟨more, heq⟩ := heq
    exact hfirst heq (fun c hc => hex_plain (hhex c hc)) (by decide)
  rw [hloop]
  cases hrest : s.dropWhile plainChar with
  | nil =>
    rw [hrest] at hipv4 hipv6
    exact ⟨{}, rfl, iff_of_false (fun h => nomatch h.1) (fun h => nomatch hipv4 h), nofun,
      fun z => iff_of_false (fun h => nomatch h.1) fun h => nomatch hipv6 z h⟩
  | cons c rest =>
    have hc : plainChar c = false := head_dropWhile (by rw [hrest]; rfl)
    rw [hrest] at hipv4 hipv6
    rw [parseIpLoop]
    by_cases hdot : c = '.'
    · subst hdot
      obtain ⟨ok, hok, hreads⟩ := validationIpv4Fields_reads s
      rw [if_pos rfl, hok]
      refine ⟨_, rfl, ?_, fun _ => rfl, fun z => iff_of_false ?_ fun h => absurd (Option.some.inj (hipv6 z h)) (by decide)⟩
      · rw [← hreads]
        cases ok <;> decide
      · cases ok <;> exact fun h => nomatch h.1
    · rw [if_neg hdot]
      have hnot : ¬Ipv4 s := fun h => hdot (Option.some.inj (hipv4 h))
      by_cases hcolon : c = ':'
      · obtain ⟨ok, zoned, hok, hreads⟩ := validationIpv6_reads s
        rw [if_pos hcolon, hok]
        refine ⟨_, rfl, iff_of_false ?_ hnot, ?_, fun z => ?_⟩
        · cases ok <;> exact fun h => nomatch h.1
        · cases ok <;> exact nofun
        · rw [← hreads]
          cases ok <;> simp
      · rw [if_neg hcolon]
        have hnone : ∀ z, ¬Ipv6Zoned s z := fun z h => hcolon (Option.some.inj (hipv6 z h))
        split
        · exact ⟨{}, rfl, iff_of_false (fun h => nomatch h.1) hnot, nofun, fun z => iff_of_false (fun h => nomatch h.1) (hnone z)⟩
        · next hpercent =>
          have hplain : plainChar c = true := by simp [plainChar, hdot, hcolon, hpercent]
          exact nomatch hc.symm.trans hplain

/-- Without a family every address is fine that has no zone. -/
theorem checkIp_any {s : Text} {ip : ValidationIp} (h : validationParseIp s = some ip) :
    (validationCheckIp ip .Any = [] ↔ Ipv4 s ∨ Ipv6 s) ∧ (ip.kind = .V4 ∧ ip.zoned = false ↔ Ipv4 s) ∧
    (ip.kind = .V6 ∧ ip.zoned = false ↔ Ipv6 s) := by
  obtain ⟨ip', hip, hipv4, -, hipv6⟩ := validationParseIp_reads s
  obtain rfl := Option.some.inj (h.symm.trans hip)
  have hfalse := (hipv6 false).trans ipv6Zoned_false
  refine ⟨?_, hipv4, hfalse⟩
  rw [← hipv4, ← hfalse]
  obtain ⟨kind, zoned⟩ := ip
  cases kind <;> cases zoned <;> first | exact iff_of_true rfl (by decide) | exact iff_of_false (by decide) (by decide)

theorem checkBits_reads (ip : ValidationIp) (bits : Text) : ∃ message, checkBits ip bits = some message ∧
    (message = [] ↔ bits ≠ [] ∧ (∀ c ∈ bits, validationDigit c = true) ∧ (bits.head? = some '0' → bits = ['0']) ∧
    decimalValue bits ≤ if ip.kind = .V4 then 32 else 128) := by
  have hno : ∀ {message : Text} {t : Prop}, message ≠ [] → ¬t → ∃ m, some message = some m ∧ (m = [] ↔ t) :=
    fun hne ht => ⟨_, rfl, iff_of_false hne ht⟩
  rw [checkBits]
  by_cases hdot : bits.elem '.' = true
  · rw [if_pos hdot]
    exact hno (by decide) fun h => absurd (h.2.1 '.' (mem_of_elem_eq_true hdot)) (by decide)
  rw [if_neg hdot]
  by_cases hdigits : (bits.isEmpty || !bits.all validationDigit) = true
  · rw [if_pos hdigits]
    refine hno (by decide) fun h => ?_
    rw [Bool.or_eq_true, List.isEmpty_iff, Bool.not_eq_true', Bool.eq_false_iff, ne_eq, all_eq_true] at hdigits
    exact hdigits.elim h.1 fun hno => hno h.2.1
  rw [if_neg hdigits]
  rw [Bool.or_eq_true, not_or, List.isEmpty_iff, Bool.not_eq_true', Bool.not_eq_false, all_eq_true] at hdigits
  rw [and_iff_right hdigits.1, and_iff_right hdigits.2]
  obtain ⟨c, more, rfl⟩ := exists_cons_of_ne_nil hdigits.1
  have hleading : (if (c :: more).length > 1 then (c :: more)[0]?.map (· == '0') else some false) =
      some (decide (more ≠ [] ∧ c = '0')) := by
    cases more with
    | nil => simp
    | cons d more =>
      simp
      rfl
  rw [hleading, Option.map_some]
  by_cases hzero : more ≠ [] ∧ c = '0'
  · rw [decide_eq_true hzero]
    dsimp only
    rw [if_pos rfl]
    refine hno (by decide) fun h => hzero.1 ?_
    exact (List.cons.inj (h.1 (congrArg some hzero.2))).2
  rw [decide_eq_false hzero]
  have hlead : (c :: more).head? = some '0' → c :: more = ['0'] := by
    intro hhead
    have hc := Option.some.inj hhead
    rw [hc, not_not.1 fun hne => hzero ⟨hne, hc⟩]
  rw [and_iff_right hlead]
  dsimp only
  rw [if_neg Bool.false_ne_true]
  generalize hmax : (if ip.kind = .V4 then 32 else 128) = maxBits
  have hsmall : maxBits < 1000 := by
    rw [← hmax]
    split <;> decide
  split
  · next hbig =>
    refine hno (by simp) fun h => ?_
    have hshort := digits_short (k := 2) hdigits.2 (fun h => by rw [hlead h]; rfl) (by omega)
    exact hbig.elim (by omega) (by omega)
  · next hfits =>
    exact ⟨[], rfl, iff_of_true rfl (Nat.not_lt.1 fun hlt => hfits (.inr hlt))⟩

end Addresses

/-! ## The validators -/

theorem lastIndexOf_none {text : Text} {c : Char} (h : c ∉ text) : lastIndexOf text c = none :=
  if_neg fun hmem => h (mem_of_elem_eq_true hmem)

theorem lastIndexOf_last {front back : Text} {c : Char} (h : c ∉ back) : lastIndexOf (front ++ c :: back) c = some front.length := by
  have hne : ∀ d ∈ back.reverse, (d != c) = true := fun d hd =>
    bne_iff_ne.2 fun heq => h (heq ▸ mem_reverse.1 hd)
  have hdrop : (front ++ c :: back).rdropWhile (· != c) = front ++ [c] := by
    rw [List.rdropWhile, reverse_append, reverse_cons, append_assoc, dropWhile_append_of_pos hne]
    simp
  rw [lastIndexOf, if_pos (by simp), hdrop, length_append]
  rfl

theorem not_address_slash {text : Text} (h : Ipv4 text ∨ Ipv6 text) : '/' ∉ text :=
  fun hmem => absurd (h.elim (fun h => ipv4_chars h '/' hmem) fun h => ipv6_chars h '/' hmem) (by decide)

/-- Around its last slash a prefix is an address and the number of its bits. -/
theorem prefix_iff {addr bits : Text} : Prefix (addr ++ '/' :: bits) ↔ (Ipv4 addr ∨ Ipv6 addr) ∧ bits ≠ [] ∧
    (∀ c ∈ bits, validationDigit c = true) ∧ (bits.head? = some '0' → bits = ['0']) ∧
    (Ipv4 addr ∧ decimalValue bits ≤ 32 ∨ Ipv6 addr ∧ decimalValue bits ≤ 128) := by
  constructor
  · rintro ⟨addr', bits', heq, hset, hdigits, hlead, hbits⟩
    have haddr : Ipv4 addr' ∨ Ipv6 addr' := hbits.imp And.left And.left
    have hslash : '/' ∉ bits' := fun hmem => absurd (hdigits '/' hmem) (by decide)
    obtain ⟨rfl, -, rfl⟩ := (append_cons_inj_of_notMem (not_address_slash haddr) hslash).1 heq.symm
    exact ⟨haddr, hset, hdigits, hlead, hbits⟩
  · rintro ⟨-, hset, hdigits, hlead, hbits⟩
    exact ⟨addr, bits, rfl, hset, hdigits, hlead, hbits⟩

theorem prefix_missing {text : Text} (h : '/' ∉ text) : ¬Prefix text := by
  rintro ⟨addr, bits, rfl, -⟩
  exact h (by simp)

theorem not_address_nil : ¬(Ipv4 [] ∨ Ipv6 []) := by
  rintro (h | h)
  · exact not_octets_nil h
  · obtain ⟨group, rest, hno, -⟩ := ipv6_colon h
    cases group <;> cases hno

theorem exists_last {text : Text} {c : Char} (h : c ∈ text) : ∃ front back, text = front ++ c :: back ∧ c ∉ back := by
  obtain ⟨back, front, heq, hback⟩ := eq_append_cons_of_mem (mem_reverse.2 h)
  refine ⟨front.reverse, back.reverse, ?_, fun hmem => hback (mem_reverse.1 hmem)⟩
  rw [← reverse_reverse text, heq, reverse_append, reverse_cons, append_assoc]
  rfl

/-- Without a family a prefix is taken, and an address or nothing where the field allows it. -/
theorem Cidr_reads (text : Text) (allowBareIp required : Bool) : ∃ message, Cidr text .Any allowBareIp required = some message ∧
    (message = [] ↔ trimmed text = [] ∧ required = false ∨
    allowBareIp = true ∧ (Ipv4 (trimmed text) ∨ Ipv6 (trimmed text)) ∨ Prefix (trimmed text)) := by
  rw [Cidr]
  generalize trimmed text = t
  by_cases ht : t = []
  · subst ht
    refine ⟨validationEmpty required, rfl, ?_⟩
    rw [or_iff_left (not_or.2 ⟨fun h => not_address_nil h.2, prefix_missing not_mem_nil⟩), and_iff_right rfl]
    cases required <;> decide
  rw [if_neg (by rwa [List.isEmpty_iff]), or_iff_right fun h => ht h.1]
  by_cases hslash : '/' ∈ t
  · obtain ⟨addr, bits, rfl, hbits⟩ := exists_last hslash
    have hdrop : (addr ++ '/' :: bits).drop (addr.length + 1) = bits := by simp
    obtain ⟨ip, hip, -⟩ := validationParseIp_reads addr
    obtain ⟨hchecked, hipv4, hipv6⟩ := checkIp_any hip
    rw [lastIndexOf_last hbits, or_iff_right fun h => not_address_slash h.2 hslash, prefix_iff]
    dsimp only
    rw [take_left, hip, Option.bind_some, hdrop]
    by_cases haddr : Ipv4 addr ∨ Ipv6 addr
    · obtain ⟨message, hmessage, hreads⟩ := checkBits_reads ip bits
      rw [hchecked.2 haddr]
      refine ⟨message, hmessage, ?_⟩
      rw [hreads, and_iff_right haddr, ← hipv4, ← hipv6]
      refine and_congr_right fun _ => and_congr_right fun _ => and_congr_right fun _ => ?_
      rw [← hipv4, ← hipv6] at haddr
      rcases haddr with ⟨hkind, hzone⟩ | ⟨hkind, hzone⟩ <;> simp [hkind, hzone]
    · have hne := fun hempty => haddr (hchecked.1 hempty)
      rw [if_pos (by simpa [List.isEmpty_iff] using hne)]
      exact ⟨_, rfl, iff_of_false hne fun h => haddr h.1⟩
  · rw [lastIndexOf_none hslash, or_iff_left (prefix_missing hslash)]
    obtain ⟨ip, hip, -⟩ := validationParseIp_reads t
    cases allowBareIp with
    | false => exact ⟨needPrefix, rfl, iff_of_false (by decide) fun h => nomatch h.1⟩
    | true => exact ⟨_, congrArg (Option.map _) hip, (checkIp_any hip).1.trans (and_iff_right rfl).symm⟩

/-- The validators take what the core takes, of a text without the blanks around it where it is a prefix: addresses as
`netip.ParseAddr` reads them, prefixes as `netip.ParsePrefix` does, and integers of 64 bits. -/
theorem validators_exact : (∀ s, ∃ ip, validationParseIp s = some ip ∧ (ip.kind = .V4 ↔ Ipv4 s) ∧ (ip.kind = .V6 ↔ ∃ zoned, Ipv6Zoned s zoned)) ∧
    (∀ text allowBareIp required, ∃ message, Cidr text .Any allowBareIp required = some message ∧
    (message = [] ↔ trimmed text = [] ∧ required = false ∨
    allowBareIp = true ∧ (Ipv4 (trimmed text) ∨ Ipv6 (trimmed text)) ∨ Prefix (trimmed text))) ∧
    ∀ s, ∃ value, validationParseInt s = some value ∧ ∀ n, value = some n ↔ IntegerText s n := by
  refine ⟨fun s => ?_, Cidr_reads, validationParseInt_reads⟩
  obtain ⟨ip, hip, hipv4, hzone, hipv6⟩ := validationParseIp_reads s
  refine ⟨ip, hip, ?_, ?_⟩
  · rw [← hipv4]
    exact ⟨fun h => ⟨h, hzone h⟩, And.left⟩
  · exact ⟨fun h => ⟨ip.zoned, (hipv6 _).1 ⟨h, rfl⟩⟩, fun ⟨z, hz⟩ => ((hipv6 z).2 hz).1⟩

/-- A blank in front of a prefix is taken off, and the core would not take it. -/
theorem prefix_trimmed : ¬∀ text, Cidr text .Any false true = some [] ↔ Prefix text := by
  intro h
  obtain ⟨addr, bits, heq, -, -, -, hbits⟩ := (h " 10.0.0.0/8".toList).1 (by decide)
  have hblank : ' ' ∉ addr := fun hmem =>
    absurd (hbits.elim (fun h => ipv4_chars h.1 ' ' hmem) fun h => ipv6_chars h.1 ' ' hmem) (by decide)
  have hhead := congrArg List.head? heq
  rw [show " 10.0.0.0/8".toList.head? = some ' ' by decide] at hhead
  cases addr with
  | nil => cases hhead
  | cons c addr =>
    cases hhead
    exact hblank mem_cons_self

end Throne.Global.Validation
