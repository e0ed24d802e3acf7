import Throne.Database.Entities.RouteRule

/-!
# Addresses of an IP list

The reader and the writer of addresses and networks of `src/src/scanner/IpListParse.cpp`: dotted octets and
groups of hex digits, in brackets or not, with a zone that is dropped and a number of leading bits.
`NormalizeCidr` writes the network a text says in one way: IPv4 addresses that are mapped into IPv6 as IPv4,
the host bits zero, a host without a number of bits. An empty answer means the text is no network; neither is
the whole address space.
-/

namespace Throne.Scanner.IpListParse

open Lib.Texts Database.Routes

/-- An address. IPv4 lives in the low 32 bits of `lo`. -/
structure IpListParseAddr where
  v6 : Bool
  hi : Nat
  lo : Nat
  deriving DecidableEq

variable (addr : IpListParseAddr)

def ipListParseBits : Nat := if addr.v6 then 128 else 32

variable (text : Text)

/-- Digits alone, and at most so many. -/
def ipListParseDecimal (maxDigits : Nat) : Option Nat :=
  if text.isEmpty || decide (maxDigits < text.length) then none
  else if text.all Char.isDigit then some (decimalValue text) else none

def ipListParseHexDigit (c : Char) : Option Nat :=
  if '0' ≤ c ∧ c ≤ '9' then some (c.toNat - '0'.toNat)
  else if 'a' ≤ c ∧ c ≤ 'f' then some (c.toNat - 'a'.toNat + 10)
  else if 'A' ≤ c ∧ c ≤ 'F' then some (c.toNat - 'A'.toNat + 10)
  else none

def ipListParsePort : Option Int :=
  match ipListParseDecimal text 5 with
  | some value => if value > 65535 then none else some value
  | none => none

/-- One of the four parts: up to 255, without a leading zero. -/
def ipListParseOctet (part : Text) : Option Nat :=
  match ipListParseDecimal part 3 with
  | some octet =>
    if octet > 255 then none
    else if 1 < part.length ∧ part.head? = some '0' then none
    else some octet
  | none => none

/-- Four octets between dots; the short, integer and octal forms are refused. -/
def ipListParseV4 : Option Nat :=
  match (text.splitOn '.').map ipListParseOctet with
  | [some a, some b, some c, some d] => some ((((a <<< 8 ||| b) <<< 8 ||| c) <<< 8) ||| d)
  | _ => none

/-- The value of a group: `(value << 4) | digit` over its digits. -/
def hexValue (group : Text) : Option Nat :=
  group.foldlM (fun value c => (ipListParseHexDigit c).map fun digit => (value <<< 4) ||| digit) 0

/-- The groups between colons, behind `count` others; the last may be four octets if `allowV4Tail`. -/
def ipListParseGroups (allowV4Tail : Bool) : Nat → List Text → Option (List Nat)
  | _, [] => some []
  | count, group :: rest =>
    if rest = [] ∧ allowV4Tail = true ∧ '.' ∈ group then
      if count > 6 then none
      else (ipListParseV4 group).map fun v4 => [v4 >>> 16, v4 &&& 0xffff]
    else if group = [] ∨ 4 < group.length ∨ 8 ≤ count then none
    else
      match hexValue group, ipListParseGroups allowV4Tail (count + 1) rest with
      | some value, some values => some (value :: values)
      | _, _ => none

def ipListParseV6Part (allowV4Tail : Bool) : Option (List Nat) :=
  if text = [] then some [] else ipListParseGroups allowV4Tail 0 (text.splitOn ':')

/-- A word of four groups: `(word << 16) | group` over them. -/
def wordOf (groups : List Nat) : Nat := groups.foldl (fun word group => word <<< 16 ||| group) 0

/-- The eight groups of a text; "::" stands for those that are missing. -/
def ipListParseV6Groups : Option (List Nat) :=
  match cutAt "::".toList text with
  | none =>
    match ipListParseV6Part text true with
    | some head => if head.length = 8 then some head else none
    | none => none
  | some (left, right) =>
    -- a second gap may begin with the second colon of the first
    if (cutAt "::".toList (':' :: right)).isSome then none
    else
      match ipListParseV6Part left false, ipListParseV6Part right true with
      | some head, some tail =>
        if head.length + tail.length > 7 then none
        else some (head ++ List.replicate (8 - head.length - tail.length) 0 ++ tail)
      | _, _ => none

def ipListParseV6 : Option (Nat × Nat) :=
  (ipListParseV6Groups text).map fun groups => (wordOf (groups.take 4), wordOf (groups.drop 4))

/-- An address; what follows a `%` in an IPv6 address is its zone. -/
def ipListParseAddress : Option IpListParseAddr :=
  if text.contains ':' then
    (ipListParseV6 (text.takeWhile (· ≠ '%'))).map fun words => ⟨true, words.1, words.2⟩
  else (ipListParseV4 text).map fun v4 => ⟨false, 0, v4⟩

def ipListParseIsMapped : Bool := addr.v6 && decide (addr.hi = 0) && decide (addr.lo >>> 32 = 0xffff)

/-- The leading bits of a word, `& (~0 << (width - keep))`. -/
def keepHigh (width keep word : Nat) : Nat := word >>> (width - keep) <<< (width - keep)

def ipListParseMask (bits : Nat) : IpListParseAddr :=
  if !addr.v6 then { addr with lo := keepHigh 32 bits addr.lo }
  else if bits < 64 then { addr with hi := keepHigh 64 bits addr.hi, lo := 0 }
  else if bits = 64 then { addr with lo := 0 }
  else if bits < 128 then { addr with lo := keepHigh 128 bits addr.lo }
  else addr

/-- `QString::number(group, 16)`. -/
def hexText (group : Nat) : Text := Nat.toDigits 16 group

/-- The 16-bit groups of a word. -/
def groupsOf (word : Nat) : List Nat := [word >>> 48 &&& 0xffff, word >>> 32 &&& 0xffff, word >>> 16 &&& 0xffff, word &&& 0xffff]

/-- The first of the longest runs of zero groups that are longer than `bestLength`. Inside a run the rest of it
is no longer than the run. -/
def longestZeros : Nat → List Nat → Option Nat × Nat → Option Nat × Nat
  | _, [], best => best
  | i, group :: rest, (bestStart, bestLength) =>
    let length := ((group :: rest).takeWhile (· = 0)).length
    longestZeros (i + 1) rest (if length > bestLength then (some i, length) else (bestStart, bestLength))

/-- Groups with colons between them. -/
def joinGroups (groups : List Nat) : Text := [':'].intercalate (groups.map hexText)

/-- As RFC 5952 has it: the first longest run of two or more zero groups becomes "::". -/
def formatGroups (groups : List Nat) : Text :=
  match longestZeros 0 groups (none, 1) with
  | (none, _) => joinGroups groups
  | (some bestStart, bestLength) =>
    joinGroups (groups.take bestStart) ++ "::".toList ++ joinGroups (groups.drop (bestStart + bestLength))

def ipListParseFormat : Text :=
  if !addr.v6 then
    ['.'].intercalate [natText (addr.lo >>> 24), natText (addr.lo >>> 16 &&& 0xff), natText (addr.lo >>> 8 &&& 0xff), natText (addr.lo &&& 0xff)]
  else formatGroups (groupsOf addr.hi ++ groupsOf addr.lo)

def ipListParseCidr (bits : Nat) : Text :=
  if ipListParseBits addr ≤ bits then ipListParseFormat addr
  else ipListParseFormat addr ++ '/' :: natText bits

/-- What a text says before its number of bits, and that number. -/
def networkParts : Option (Text × Option Text) :=
  if "[".toList.isPrefixOf text then
    match cutAt "]".toList text with
    | none => none
    | some (front, suffix) =>
      let body := front.drop 1
      match suffix, cutAt "/".toList body with
      | [], some (address, bits) => some (address, some bits)
      | [], none => some (body, none)
      | '/' :: bits, none => some (body, some bits)
      | _, _ => none
  else
    match cutAt "/".toList text with
    | some (address, bits) => some (address, some bits)
    | none => some (text, none)

/-- An IPv4 address mapped into IPv6, with 96 bits or more, as IPv4. -/
def unmapNetwork (bits : Nat) : IpListParseAddr × Nat :=
  if ipListParseIsMapped addr ∧ 96 ≤ bits then (⟨false, 0, addr.lo &&& 0xffffffff⟩, bits - 96) else (addr, bits)

def ipListParseNetwork : Option (IpListParseAddr × Nat) :=
  match networkParts (trimmed text) with
  | none => none
  | some (body, bitsText) =>
    match ipListParseAddress body with
    | none => none
    | some addr =>
      match bitsText with
      | none => finish addr (ipListParseBits addr)
      | some bitsText =>
        match ipListParseDecimal bitsText 3 with
        | none => none
        | some value => if value > ipListParseBits addr then none else finish addr value
where
  finish (addr : IpListParseAddr) (bits : Nat) : Option (IpListParseAddr × Nat) :=
    let unmapped := unmapNetwork addr bits
    if unmapped.2 = 0 then none else some (ipListParseMask unmapped.1 unmapped.2, unmapped.2)

def NormalizeCidr : Text :=
  match ipListParseNetwork text with
  | none => []
  | some (addr, bits) => ipListParseCidr addr bits

example : NormalizeCidr " [2001:DB8:0:0:1::7%eth0/48]".toList = "2001:db8::/48".toList := by decide

example : NormalizeCidr "::ffff:10.1.2.3/104".toList = "10.0.0.0/8".toList := by decide

end Throne.Scanner.IpListParse
