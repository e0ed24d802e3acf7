import Mathlib.Data.BitVec
import Mathlib.Data.List.SplitOn
import Mathlib.Data.List.TakeWhile

/-!
# The configuration of the control API

What `RemoteApi` reads of `QHostAddress`, the parser of `remote_api_allow`, the configuration that
the settings and the headless overlay give, and the check of a peer. Texts are lists of characters.
How Qt reads an IPv6 address and the base64 of the key are parameters. Scope ids are left out, since
`isInSubnet` ignores them.
-/

namespace Throne.Api.Remote

/-! ## Addresses -/

inductive HostAddress where
  | null
  /-- `QHostAddress::Any`. -/
  | any
  | ipv4 (value : BitVec 32)
  | ipv6 (value : BitVec 128)
deriving DecidableEq

namespace HostAddress

/-- `isLoopback`: `127.0.0.0/8`, `::1` and the loopback addresses mapped into IPv6. -/
def isLoopback : HostAddress → Bool
  | .null | .any => false
  | .ipv4 value => value.toNat / 2 ^ 24 == 127
  | .ipv6 value => value == 1 || value.toNat / 2 ^ 24 == 0xffff * 2 ^ 8 + 127

/-- `isInSubnet`: the address and the subnet agree in their first `netmask` bits. -/
def isInSubnet : HostAddress → HostAddress → Nat → Bool
  | .ipv4 address, .ipv4 subnet, netmask =>
    address >>> (32 - netmask) == subnet >>> (32 - netmask)
  | .ipv6 address, .ipv6 subnet, netmask =>
    address >>> (128 - netmask) == subnet >>> (128 - netmask)
  | _, _, _ => false

end HostAddress

/-- `QString::toUInt`: decimal digits, with an optional plus sign, of a 32-bit value. -/
def toUInt (text : List Char) : Option Nat :=
  let digits := if text.head? = some '+' then text.tail else text
  if digits.isEmpty || !digits.all Char.isDigit then none
  else
    let value := digits.foldl (fun n c => n * 10 + (c.toNat - '0'.toNat)) 0
    if value < 2 ^ 32 then some value else none

/-- One part of an IPv4 address. -/
def toOctet (text : List Char) : Option Nat := (toUInt text).filter (· ≤ 255)

/-- The octets of an IPv4 address. Trailing ones may be missing, also after a dot. -/
def toOctets (text : List Char) : Option (List Nat) :=
  let parts := text.splitOn '.'
  if 4 < parts.length then none
  else
    let parts := if parts.getLast? = some [] then parts.dropLast else parts
    if parts.isEmpty || !parts.all (fun part => (toOctet part).isSome) then none
    else some (parts.filterMap toOctet)

/-- The address with these octets, the missing ones zero. -/
def ipv4OfOctets (octets : List Nat) : BitVec 32 :=
  BitVec.ofNat 32 (octets.foldl (fun n octet => n * 256 + octet) 0 * 256 ^ (4 - octets.length))

/-- A dotted netmask, whose set bits are the leading ones. -/
def prefixLength (text : List Char) : Option Nat :=
  match toOctets text with
  | some octets =>
    (List.range 33).find? fun n => ipv4OfOctets octets == BitVec.allOnes 32 <<< (32 - n)
  | none => none

/-- The netmask of a subnet text, in bits or dotted; `some none` where none is given. -/
def givenNetmask (subnet : List Char) : Option (Option Nat) :=
  let isIpv6 := (subnet.takeWhile (· ≠ '/')).contains ':'
  let maskStr := (subnet.dropWhile (· ≠ '/')).tail
  if subnet.contains '/' = false then some none
  else if !isIpv6 && maskStr.contains '.' then (prefixLength maskStr).map some
  else (toUInt maskStr).map some

section

variable (setAddress6 : List Char → Option (BitVec 128))

/-- `parseSubnet` of an IPv6 address. -/
def ipv6Subnet (netStr : List Char) (given : Option Nat) : Option (HostAddress × Nat) :=
  let netmask := given.getD 128
  if 128 < netmask then none
  else
    (setAddress6 netStr).map fun (net : BitVec 128) =>
      (HostAddress.ipv6 ((net >>> (128 - netmask)) <<< (128 - netmask)), netmask)

/-- `parseSubnet` of an IPv4 address, whose last octets may be missing. Without a netmask the octets
that are there count. -/
def ipv4Subnet (netStr : List Char) (given : Option Nat) : Option (HostAddress × Nat) :=
  (toOctets netStr).bind fun octets =>
    let netmask := given.getD (8 * octets.length)
    if 32 < netmask then none
    else some (.ipv4 ((ipv4OfOctets octets >>> (32 - netmask)) <<< (32 - netmask)), netmask)

/-- `QHostAddress::parseSubnet`. -/
def parseSubnet (subnet : List Char) : Option (HostAddress × Nat) :=
  let netStr := subnet.takeWhile (· ≠ '/')
  (givenNetmask subnet).bind fun given =>
    if netStr.contains ':' then ipv6Subnet setAddress6 netStr given else ipv4Subnet netStr given

/-! ## The allow list -/

/-- A comma, or what `\s` matches. -/
def isSeparator (c : Char) : Bool := c == ',' || c == ' ' || ('\t' ≤ c && c ≤ '\r')

/-- The entries of an allow-list text. -/
def entries (text : List Char) : List (List Char) :=
  (text.splitOnP isSeparator).filter fun entry => !entry.isEmpty

/-- The host part of an entry is IPv6, or IPv4 with all its dots. -/
def writtenInFull (entry : List Char) : Bool :=
  let host := entry.takeWhile (· ≠ '/')
  host.contains ':' || host.count '.' == 3

/-- What `ParseAllowList` makes of one entry. -/
def keptSubnet (entry : List Char) : Option (HostAddress × Nat) :=
  let host := entry.takeWhile (· ≠ '/')
  if writtenInFull entry = false then none
  else
    let entry :=
      if entry.contains '/' then entry
      else entry ++ (if host.contains ':' then ['/', '1', '2', '8'] else ['/', '3', '2'])
    parseSubnet setAddress6 entry

/-- `ParseAllowList`. -/
def parseAllowList (text : List Char) : List (HostAddress × Nat) := (entries text).filterMap (keptSubnet setAddress6)

end

/-! ## The configuration -/

/-- `kDefaultPort`. -/
def kDefaultPort : Nat := 9095

structure Config where
  enabled : Bool
  lan : Bool
  port : Nat
  key : List UInt8
  /-- Applies only with `lan`; empty allows every address. -/
  allow : List (HostAddress × Nat)
  adminLan : Bool
  address : HostAddress

/-- `Config{}`. -/
def Config.default : Config :=
  { enabled := false, lan := false, port := kDefaultPort, key := [], allow := [], adminLan := false,
    address := .null }

/-- The settings of the control API. -/
structure Settings where
  remoteApiEnable : Bool
  remoteApiLan : Bool
  remoteApiAdminLan : Bool
  remoteApiPort : Int
  remoteApiKey : List Char
  remoteApiAllow : List Char

inductive ConfigSource where
  | settings
  | flags
  | environment
  | default

/-- Headless flags and environment over the settings. -/
structure Overlay where
  headless : Bool
  enabled : Option Bool
  address : HostAddress
  port : Option Nat
  keyFile : List Char
  adminLan : Option Bool
  allow : Option (List Char)
  listenSource : ConfigSource
  key : List UInt8
  defaultKeyFile : List Char

structure Effective where
  config : Config
  source : ConfigSource
  explicitListen : Bool
  keyFile : List Char

/-- What the configuration reads with the help of Qt. -/
structure Readers where
  setAddress6 : List Char → Option (BitVec 128)
  keyFromText : List Char → List UInt8

/-- `ConfigFromSettings`. -/
def configFromSettings (readers : Readers) (settings : Settings) : Config :=
  { enabled := settings.remoteApiEnable
    lan := settings.remoteApiLan
    adminLan := settings.remoteApiAdminLan
    port :=
      if 1 ≤ settings.remoteApiPort ∧ settings.remoteApiPort ≤ 65535 then
        settings.remoteApiPort.toNat
      else kDefaultPort
    key := readers.keyFromText settings.remoteApiKey
    allow := parseAllowList readers.setAddress6 settings.remoteApiAllow
    address := .null }

/-- The default listener, which applies when the settings leave the API off. -/
def Overlay.defaultListener (overlay : Overlay) (effective : Effective) : Effective :=
  if effective.config.enabled then effective
  else
    { effective with
      config := { Config.default with enabled := true, key := overlay.key }
      keyFile := overlay.defaultKeyFile
      source := .default }

/-- The overlay's listener. -/
def Overlay.listen (overlay : Overlay) (effective : Effective) : Effective :=
  match overlay.port with
  | some port =>
    let address : HostAddress :=
      if overlay.address = HostAddress.null then .ipv4 0x7f000001 else overlay.address
    { effective with
      config :=
        { effective.config with address := address, port := port, lan := !address.isLoopback }
      explicitListen := true
      source := overlay.listenSource }
  | none => effective

/-- The overlay's key file. -/
def Overlay.useKeyFile (overlay : Overlay) (effective : Effective) : Effective :=
  if overlay.keyFile.isEmpty then effective
  else
    { effective with
      config := { effective.config with key := overlay.key }, keyFile := overlay.keyFile }

/-- The overlay's management flag and allow list. -/
def Overlay.restrict (readers : Readers) (overlay : Overlay) (effective : Effective) : Effective :=
  { effective with
    config :=
      { effective.config with
        adminLan := overlay.adminLan.getD effective.config.adminLan
        allow :=
          match overlay.allow with
          | some text => parseAllowList readers.setAddress6 text
          | none => effective.config.allow } }

/-- `EffectiveConfig`. -/
def effectiveConfig (readers : Readers) (settings : Settings) (overlay : Overlay) : Effective :=
  let effective : Effective := ⟨configFromSettings readers settings, .settings, false, []⟩
  if overlay.headless = false then effective
  else
    let effective := overlay.defaultListener effective
    if overlay.enabled = some false then
      { effective with
        config := { effective.config with enabled := false }, source := overlay.listenSource }
    else overlay.restrict readers (overlay.useKeyFile (overlay.listen effective))

/-- The allow-list text that `EffectiveConfig` builds the configuration from, if it listens and has
one. -/
def allowText (settings : Settings) (overlay : Overlay) : Option (List Char) :=
  if overlay.headless = false then some settings.remoteApiAllow
  else if overlay.enabled = some false then none
  else
    match overlay.allow with
    | some text => some text
    | none => if settings.remoteApiEnable then some settings.remoteApiAllow else none

/-! ## The listener -/

/-- What `Server::Worker` checks a peer against. -/
structure Worker where
  config : Config
  /-- The specific address the listener is bound to, or null. -/
  localAddress : HostAddress

/-- `isLocal`. -/
def Worker.isLocal (worker : Worker) (address : HostAddress) : Bool :=
  address.isLoopback || (worker.localAddress ≠ .null && address == worker.localAddress)

/-- `isAllowed`. -/
def Worker.isAllowed (worker : Worker) (address : HostAddress) : Bool :=
  if worker.isLocal address then true
  else if worker.config.lan = false then false
  else if worker.config.allow.isEmpty then true
  else worker.config.allow.any fun subnet => address.isInSubnet subnet.1 subnet.2

end Throne.Api.Remote
