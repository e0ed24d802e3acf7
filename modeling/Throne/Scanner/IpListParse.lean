import Throne.Scanner.IpListAddress

/-!
# Reading an IP list

`ParseIpListText` and `EntriesFromCidrs` of `src/src/scanner/IpListParse.cpp`. A list has lines of addresses,
networks and ranges, with ports or without, between blanks or in columns under a header. A word that is an
address is turned into the networks it says: itself, or for a range the blocks that make it up.

The text is what `QString::fromUtf8` made of the bytes; a character outside the first plane counts once. The
case folding of Qt is a parameter.
-/

namespace Throne.Scanner.IpListParse

open Lib.Texts Database.Routes

/-! ## Ranges -/

def ipListParseLess (a b : IpListParseAddr) : Bool :=
  if a.hi ≠ b.hi then decide (a.hi < b.hi) else decide (a.lo < b.lo)

/-- `std::countr_zero` of a word of so many bits. -/
def countrZero : Nat → Nat → Nat
  | 0, _ => 0
  | width + 1, n => if n % 2 = 1 then 0 else countrZero width (n / 2) + 1

/-- `std::bit_width`. -/
def bitWidth (n : Nat) : Nat := if n = 0 then 0 else n.log2 + 1

/-- Unsigned words of 64 bits. -/
def add64 (a b : Nat) : Nat := (a + b) % 2 ^ 64
def sub64 (a b : Nat) : Nat := (a + 2 ^ 64 - b) % 2 ^ 64

/-- The zero bits at the end of an address. -/
def coverAlign (first : IpListParseAddr) : Nat :=
  min (if first.lo ≠ 0 then countrZero 64 first.lo
    else if first.hi ≠ 0 then 64 + countrZero 64 first.hi
    else 128) (ipListParseBits first)

/-- The greatest power of two up to the number of addresses. -/
def coverFit (first last : IpListParseAddr) : Nat :=
  let diffLo := sub64 last.lo first.lo
  let diffHi := sub64 (sub64 last.hi first.hi) (if last.lo < first.lo then 1 else 0)
  let sizeLo := add64 diffLo 1
  let sizeHi := add64 diffHi (if sizeLo = 0 then 1 else 0)
  if sizeHi ≠ 0 then 64 + bitWidth sizeHi - 1 else bitWidth sizeLo - 1

/-- The last address of a block of `2 ^ k`. -/
def blockEnd (first : IpListParseAddr) (k : Nat) : IpListParseAddr :=
  if 64 ≤ k then
    { first with
      lo := 2 ^ 64 - 1
      hi := if 64 < k then first.hi ||| (2 ^ (k - 64) - 1) else first.hi }
  else if 0 < k then { first with lo := first.lo ||| (2 ^ k - 1) }
  else first

/-- The address behind a block. -/
def afterBlock (blockEnd : IpListParseAddr) : IpListParseAddr :=
  let lo := add64 blockEnd.lo 1
  { blockEnd with lo := lo, hi := add64 blockEnd.hi (if lo = 0 then 1 else 0) }

/-- The loop of `ipListParseCoverRange`, for at most `fuel` blocks: each with the number of its leading bits. -/
def coverLoop : Nat → IpListParseAddr → IpListParseAddr → List (IpListParseAddr × Nat)
  | 0, _, _ => []
  | fuel + 1, first, last =>
    let k := min (coverAlign first) (coverFit first last)
    let stop := blockEnd first k
    let block := (first, ipListParseBits first - k)
    if stop.hi = last.hi ∧ stop.lo = last.lo then [block]
    else block :: coverLoop fuel (afterBlock stop) last

/-- The two words of an address as a number. -/
def IpListParseAddr.value (addr : IpListParseAddr) : Nat := addr.hi * 2 ^ 64 + addr.lo

/-- `none` when the cover would be the whole address space. A block takes away one address at least. -/
def ipListParseCoverRange (first last : IpListParseAddr) : Option (List Text) :=
  let topHi := if first.v6 then 2 ^ 64 - 1 else 0
  let topLo := if first.v6 then 2 ^ 64 - 1 else 2 ^ 32 - 1
  if first.hi = 0 ∧ first.lo = 0 ∧ last.hi = topHi ∧ last.lo = topLo then none
  else
    some ((coverLoop (last.value - first.value + 1) first last).map fun block =>
      ipListParseCidr block.1 block.2)

def ipListParseRangeEnd (text : Text) : Option IpListParseAddr :=
  let text := if text.head? = some '[' ∧ text.getLast? = some ']' then (text.drop 1).dropLast else text
  if text.contains '/' then none
  else
    (ipListParseAddress text).map fun addr =>
      if ipListParseIsMapped addr then ⟨false, 0, addr.lo &&& 0xffffffff⟩ else addr

/-- The upper end of a range and the port behind it; -1 for none. -/
def rangeRight (right : Text) : Option (Text × Int) :=
  if right.head? = some '[' then
    match cutAt "]".toList right with
    | none => none
    | some (inside, []) => some (inside ++ [']'], -1)
    | some (inside, ':' :: port) => (ipListParsePort port).map fun port => (inside ++ [']'], port)
    | some _ => none
  else if right.count ':' = 1 then
    match cutAt ":".toList right with
    | none => none
    | some (address, port) => (ipListParsePort port).map fun port => (address, port)
  else some (right, -1)

/-- The last address of a range: another end, or the last octet of it. -/
def rangeLast (first : IpListParseAddr) (right : Text) : Option IpListParseAddr :=
  match (if first.v6 then none else ipListParseDecimal right 3) with
  | some octet =>
    if octet > 255 ∨ (1 < right.length ∧ right.head? = some '0') then none
    else some { first with lo := first.lo >>> 8 <<< 8 ||| octet }
  | none =>
    match ipListParseRangeEnd right with
    | some last => if last.v6 ≠ first.v6 then none else some last
    | none => none

/-- The ends of a range in order, and its port. -/
def rangeEnds (token : Text) : Option (IpListParseAddr × IpListParseAddr × Int) :=
  match cutAt "-".toList token with
  | none => none
  | some (left, right) =>
    match rangeRight right with
    | none => none
    | some (right, port) =>
      match ipListParseRangeEnd left with
      | none => none
      | some first =>
        (rangeLast first right).map fun last =>
          if ipListParseLess last first then (last, first, port) else (first, last, port)

def ipListParseRangeToken (token : Text) : Option (List Text × Int) :=
  match rangeEnds token with
  | none => none
  | some (first, last, port) => (ipListParseCoverRange first last).map fun cidrs => (cidrs, port)

/-- The network of a word and the port behind it; -1 for none. -/
def networkPort (token : Text) : Option (Text × Int) :=
  if token.head? = some '[' then
    match cutAt "]".toList token with
    | none => none
    | some (inside, ':' :: port) => (ipListParsePort port).map fun port => (inside ++ [']'], port)
    | some _ => some (token, -1)
  else if token.count ':' = 1 then
    match cutAt ":".toList token with
    | none => none
    | some (address, port) => (ipListParsePort port).map fun port => (address, port)
  else some (token, -1)

/-- The networks a word says, and its port. -/
def ipListParseAddressToken (token : Text) : Option (List Text × Int) :=
  if token = [] then none
  else if token.contains '-' then ipListParseRangeToken token
  else
    match networkPort token with
    | none => none
    | some (network, port) =>
      (ipListParseNetwork network).map fun parsed => ([ipListParseCidr parsed.1 parsed.2], port)

/-! ## Words of a line -/

inductive IpListParseKind
  | address
  | port
  | other
  deriving DecidableEq

structure IpListParseToken where
  text : Text
  field : Nat
  kind : IpListParseKind
  cidrs : List Text
  port : Int

def tokenOf (text : Text) (field : Nat) : IpListParseToken :=
  match ipListParseAddressToken text with
  | some (cidrs, port) => ⟨text, field, .address, cidrs, port⟩
  | none =>
    match ipListParsePort text with
    | some port => ⟨text, field, .port, [], port⟩
    | none => ⟨text, field, .other, [], -1⟩

def ipListParseLooksLikeAddress (token : Text) : Bool :=
  if token = [] then false
  else if token.head? = some '[' ∨ (cutAt "::".toList token).isSome ∨ 7 ≤ token.count ':' then true
  else if token.count '.' < 2 ∨ (token.head?.map Char.isDigit) ≠ some true then false
  else token.all fun c => c.isDigit || c == '.' || c == '/' || c == ':' || c == '-'

/-- The names of columns. -/
def kNames : List Text :=
  ["address".toList, "host".toList, "hostname".toList, "cidr".toList, "subnet".toList, "network".toList,
    "prefix".toList, "range".toList, "endpoint".toList, "server".toList, "target".toList]

local instance : LawfulBEq Text := inferInstance

section Lines

variable (foldCase : Char → Char)

/-- `QStringView::contains` without regard to case. -/
def containsNoCase (pattern text : Text) : Bool := (cutAt pattern (text.map foldCase)).isSome

def ipListParseIsColumnName (token : Text) : Bool :=
  "ip".toList.isPrefixOf (token.map foldCase) || "addr".toList.isPrefixOf (token.map foldCase) ||
    containsNoCase foldCase "port".toList token || kNames.any fun name => decide (token.map foldCase = name)

def ipListParseIsSeparator (c : Char) : Bool := c == ',' || c == ';' || c == '\t' || c == '|'

def ipListParseRangeChar (c : Char) : Bool := (ipListParseHexDigit c).isSome || c == '.' || c == ':' || c == '[' || c == ']'

/-- A hyphen or a dash. -/
def isDash (c : Char) : Bool := c == '-' || c.toNat == 0x2013

/-- The blanks around the dash of a range are left out; `out` is the text so far, backwards, and `skipping`
says that blanks behind a dash are being left out. -/
def joinFrom : Bool → Text → Text → Text
  | _, out, [] => out.reverse
  | skipping, out, c :: rest =>
    if skipping && isSpace c then joinFrom true out rest
    else
      let front := out.dropWhile isSpace
      let back := rest.dropWhile isSpace
      if isDash c && front.head?.any ipListParseRangeChar && back.head?.any ipListParseRangeChar then
        joinFrom true ('-' :: front) rest
      else joinFrom false (c :: out) rest

def ipListParseJoinRanges (line : Text) : Text := joinFrom false [] line

def ipListParseUnquote (text : Text) : Text := trimmed (strip (fun c => c == '"' || c == '\'') (trimmed text))

/-- Separated fields keep their empty cells. -/
def ipListParseSplit (text : Text) (bySeparator : Bool) : List Text :=
  if bySeparator then text.splitOnP ipListParseIsSeparator else words isSpace text

/-- A line without its comment, its ranges joined; `none` where there is nothing in it. -/
def contentLine (raw : Text) : Option Text :=
  let line := raw.takeWhile (· ≠ '#')
  let line := match cutAt "//".toList line with
    | some (front, _) => front
    | none => line
  let line := trimmed line
  if line = [] ∨ line.head? = some ';' then none
  else some (if line.any isDash then ipListParseJoinRanges line else line)

def lineFields (line : Text) : List Text := (ipListParseSplit line (line.any ipListParseIsSeparator)).map ipListParseUnquote

/-- The words of the fields, with the number of their field. -/
def lineWords (line : Text) : List (Text × Nat) :=
  (lineFields line).zipIdx.flatMap fun (field, f) =>
    (ipListParseSplit field false).filterMap fun word =>
      let text := ipListParseUnquote word
      if text = [] then none else some (text, f)

def lineTokens (line : Text) : List IpListParseToken := (lineWords line).map fun word => tokenOf word.1 word.2

/-! ## The list -/

structure IpListEntry where
  cidr : Text
  port : Int
  latencyMs : Int

structure ParseResult where
  entries : List IpListEntry
  rejected : Nat
  duplicates : Nat
  samples : List Text

/-- What is kept between lines. -/
structure Reading where
  result : ParseResult
  seen : List Text
  firstContentLine : Bool
  tabularFile : Bool
  portColumn : Option Nat

def Reading.start : Reading := ⟨⟨[], 0, 0, []⟩, [], true, false, none⟩

def kIpListParseMaxSamples : Nat := 5
def kIpListParseSampleChars : Nat := 64

def reject (r : Reading) (token : Text) : Reading :=
  { r with result :=
    { r.result with
      rejected := r.result.rejected + 1
      samples :=
        if r.result.samples.length < kIpListParseMaxSamples then
          r.result.samples ++ [token.take kIpListParseSampleChars]
        else r.result.samples } }

/-- The port an entry gets. -/
def entryPort (defaultPort port : Int) : Int := if port ≤ 0 then defaultPort else port

def seenKey (cidr : Text) (port : Int) : Text := cidr ++ ' ' :: intText port

def addCidr (port : Int) (r : Reading) (cidr : Text) : Reading :=
  if seenKey cidr port ∈ r.seen then
    { r with result := { r.result with duplicates := r.result.duplicates + 1 } }
  else
    { r with
      seen := seenKey cidr port :: r.seen
      result := { r.result with entries := r.result.entries ++ [⟨cidr, port, 0⟩] } }

def add (defaultPort : Int) (r : Reading) (cidrs : List Text) (port : Int) : Reading := cidrs.foldl (addCidr (entryPort defaultPort port)) r

/-- The port of an address without one, in a file of columns. -/
def columnPort (r : Reading) (fields : List Text) (token : IpListParseToken) : Int :=
  match r.portColumn with
  | none => -1
  | some column =>
    if column = token.field then -1
    else
      match fields[column]? with
      | none => -1
      | some field => (ipListParsePort field).getD (-1)

/-- The words of a line that has an address; a port that was taken for the address before it is `consumed`. -/
def addTokens (defaultPort : Int) (fields : List Text) (tabular : Bool) : Bool → List IpListParseToken → Reading → Reading
  | _, [], r => r
  | true, _ :: rest, r => addTokens defaultPort fields tabular false rest r
  | false, token :: rest, r =>
    match token.kind with
    | .address =>
      if token.port < 0 ∧ r.tabularFile = true then
        addTokens defaultPort fields tabular false rest (add defaultPort r token.cidrs (columnPort r fields token))
      else if token.port < 0 ∧ (rest.head?.map (·.kind)) = some .port then
        addTokens defaultPort fields tabular true rest (add defaultPort r token.cidrs ((rest.head?.map (·.port)).getD (-1)))
      else addTokens defaultPort fields tabular false rest (add defaultPort r token.cidrs token.port)
    | .port =>
      addTokens defaultPort fields tabular false rest (if tabular then r else reject r token.text)
    | .other =>
      addTokens defaultPort fields tabular false rest (if !tabular || ipListParseLooksLikeAddress token.text then reject r token.text else r)

/-- A line without an address: a header, or it is rejected. -/
def noAddress (r : Reading) (line : Text) (fields : List Text) (tokens : List IpListParseToken) (tabular : Bool) : Reading :=
  let addressShaped := tokens.any fun token => ipListParseLooksLikeAddress token.text
  let namesColumn := tokens.any fun token => ipListParseIsColumnName foldCase token.text
  if r.firstContentLine = true ∧ addressShaped = false ∧ namesColumn = true then
    { r with
      firstContentLine := false
      tabularFile := true
      portColumn := fields.findIdx? fun field => containsNoCase foldCase "port".toList field }
  else
    let r := { r with firstContentLine := false }
    if !tabular then tokens.foldl (fun r token => reject r token.text) r
    else if addressShaped then
      (tokens.filter fun token => ipListParseLooksLikeAddress token.text).foldl (fun r token => reject r token.text) r
    else reject r line

def readLine (defaultPort : Int) (r : Reading) (raw : Text) : Reading :=
  match contentLine raw with
  | none => r
  | some line =>
    let fields := lineFields line
    let tokens := lineTokens line
    if tokens.isEmpty then r
    else
      let tabular := line.any ipListParseIsSeparator || r.tabularFile
      if tokens.all fun token => decide (token.kind ≠ .address) then
        noAddress foldCase r line fields tokens tabular
      else addTokens defaultPort fields tabular false tokens { r with firstContentLine := false }

def checkedPort (defaultPort : Int) : Int := if defaultPort < 0 ∨ 65535 < defaultPort then 0 else defaultPort

/-- The lines of a text; the one behind the last newline is empty and says nothing. -/
def rawLines (content : Text) : List Text :=
  (if content.head? = some '\uFEFF' then content.drop 1 else content).splitOn '\n'

def ParseIpListText (content : Text) (defaultPort : Int) : ParseResult :=
  ((rawLines content).foldl (readLine foldCase (checkedPort defaultPort)) Reading.start).result

end Lines

/-- One turn of the loop of `EntriesFromCidrs`. -/
def addEntry (defaultPort : Int) (entries : List IpListEntry) (text : Text) : List IpListEntry :=
  let cidr := NormalizeCidr text
  if cidr = [] ∨ cidr ∈ entries.map (·.cidr) then entries else entries ++ [⟨cidr, defaultPort, 0⟩]

def EntriesFromCidrs (cidrs : List Text) (defaultPort : Int) : List IpListEntry := cidrs.foldl (addEntry (checkedPort defaultPort)) []

example : (ParseIpListText Char.toLower "# list\n10.0.0.1 - 10.0.0.6, 443\n[::1]:80".toList 53).entries.map (fun e => (e.cidr, e.port)) =
      [("10.0.0.1".toList, 443), ("10.0.0.2/31".toList, 443), ("10.0.0.4/31".toList, 443), ("10.0.0.6".toList, 443),
        ("::1".toList, 80)] := by decide

end Throne.Scanner.IpListParse
