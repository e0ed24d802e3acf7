import Throne.Lib.PendingWrites
import Throne.Api.Remote.Config
import Mathlib.Data.Rat.Defs

/-!
# The settings registry

`Engine::SettingsRegistry`: the keys that the API reads and writes, and `Put`, which checks every key
of a request over pending writes before it commits any. A pointer to a member of `SettingsRepo` is a
constructor of one of three enumerations, one for each type of value. The syntax checks of addresses,
URLs and durations are parameters, as is the listener of the API itself (`EffectiveConfig`, which reads
none of the members here).
-/

namespace Throne.Engine.Services

open Lib Lib.PendingWrites

/-! ## Settings -/

inductive BoolMember where
  | rememberEnable
  | disableMixedInbound
  | randomInboundPort
  | subRespectServerInterval
  | killSwitch
  | vpnStrictRoute
  | vpnAutoRedirect
  | vpnIpv6
  | coreDnsInLan
  | enableNtp
deriving DecidableEq

inductive IntMember where
  | inboundSocksPort
  | testConcurrent
  | urlTestTimeoutMs
  | subAutoUpdate
  | routeAutoUpdate
  | vpnMtu
  | coreDnsInPort
  | coreBoxClashApi
  | coreBoxApiPort
deriving DecidableEq

inductive StringMember where
  | logLevel
  | xrayLogLevel
  | inboundAddress
  | testLatencyUrl
  | vpnTunIpv4Cidr
  | vpnTunIpv6Cidr
  | coreBoxClashListenAddr
  | coreBoxClashApiSecret
  | remoteDns
  | directDns
  | ntpServerAddress
  | ntpInterval
deriving DecidableEq

/-- The members of `SettingsRepo` that the registry reads or writes. -/
structure Settings where
  bools : BoolMember → Bool
  ints : IntMember → Int
  strings : StringMember → String

/-- A JSON value; arrays and objects are never accepted, so one constructor stands for them. -/
inductive JsonValue where
  | null
  | bool (value : Bool)
  | number (value : ℚ)
  | string (value : String)
  | other
deriving DecidableEq

/-- `toInt` of a JSON number, for the whole numbers that pass the checks. -/
def JsonValue.toInt : JsonValue → Int
  | .number value => value.num.tdiv value.den
  | _ => 0

def JsonValue.toBool : JsonValue → Bool
  | .bool value => value
  | _ => false

def JsonValue.toText : JsonValue → String
  | .string value => value
  | _ => ""

/-- `QChar::isSpace`. -/
def isSpace (c : Char) : Bool :=
  ('\t' ≤ c && c ≤ '\r') || c == ' ' || c.val == 0x85 || c.val == 0xa0 || c.val == 0x1680 ||
    (0x2000 ≤ c.val && c.val ≤ 0x200a) || c.val == 0x2028 || c.val == 0x2029 || c.val == 0x202f ||
    c.val == 0x205f || c.val == 0x3000

/-- `QString::trimmed`. -/
def trimmed (text : String) : String := String.ofList ((text.toList.dropWhile isSpace).reverse.dropWhile isSpace).reverse

/-- What `Validation` and Qt say about a text. -/
structure Syntaxes where
  ip : String → Bool
  httpUrl : String → Bool
  cidrV4 : String → Bool
  cidrV6 : String → Bool
  hostOrEmpty : String → Bool
  dnsAddress : String → Bool
  duration : String → Bool
  /-- `QHostAddress(text)`, null where the text is no address. -/
  hostAddress : String → Throne.Api.Remote.HostAddress

/-! ## The pending writes of one request -/

/-- `Patch`. -/
structure Patch where
  bools : List (Write String BoolMember Bool)
  ints : List (Write String IntMember Int)
  strings : List (Write String StringMember String)
  keys : List String

namespace Patch

def empty : Patch := ⟨[], [], [], []⟩

variable (p : Patch)

variable (key : String)

def touched : List String :=
  if p.keys.contains key then p.keys else p.keys ++ [key]

def setBool (member : BoolMember) (value : Bool) : Patch :=
  { p with bools := set p.bools key member value, keys := p.touched key }

def setInt (member : IntMember) (value : Int) : Patch :=
  { p with ints := set p.ints key member value, keys := p.touched key }

def setString (member : StringMember) (value : String) : Patch :=
  { p with strings := set p.strings key member value, keys := p.touched key }

/-- `value`, of every member. -/
def overlay (s : Settings) : Settings :=
  ⟨fun m => value s.bools p.bools m, fun m => value s.ints p.ints m, fun m => value s.strings p.strings m⟩

/-- `touches`. -/
def touches : Bool := p.keys.contains key

/-- `commit`: the settings with the writes that differ, and the keys of those writes in the order in
which they were first set. -/
def commit (s : Settings) : Settings × List String :=
  let bools := PendingWrites.commit s.bools p.bools
  let ints := PendingWrites.commit s.ints p.ints
  let strings := PendingWrites.commit s.strings p.strings
  let changed := bools.2 ++ ints.2 ++ strings.2
  (⟨bools.1, ints.1, strings.1⟩, p.keys.filter changed.contains)

end Patch

/-! ## Keys -/

inductive Restart where
  | none
  | profile
  | tun

/-- `Effect`, as a set of flags. -/
structure Effect where
  applyKillSwitch : Bool
  checkPeriodic : Bool

def noEffect : Effect := ⟨false, false⟩
def applyKillSwitch : Effect := ⟨true, false⟩
def checkPeriodic : Effect := ⟨false, true⟩

/-- How a key stores its value. -/
inductive Kind where
  | bool (member : BoolMember) (inverted : Bool)
  | int (member : IntMember) (min max : Int)
  /-- The integer key of the mixed inbound's port. -/
  | inboundPort (min max : Int)
  | string (member : StringMember) (valid : String → Bool) (rule : String)
  | autoUpdate (member : IntMember) (fallbackMinutes : Nat)
  | portOrOff (member : IntMember)

structure Key where
  name : String
  restart : Restart
  effects : Effect
  kind : Kind

def kMinAutoUpdate : Int := 30
def kMaxAutoUpdate : Int := 525600

section

variable (name : String)

/-- `boolKey`. -/
def boolKey (member : BoolMember) (restart : Restart) (effects : Effect) (inverted : Bool) : Key :=
  ⟨name, restart, effects, .bool member inverted⟩

/-- `intKey`. -/
def intKey (member : IntMember) (min max : Int) (restart : Restart) (effects : Effect) : Key := ⟨name, restart, effects, .int member min max⟩

/-- `stringKey`. -/
def stringKey (member : StringMember) (restart : Restart) (valid : String → Bool) (rule : String) : Key :=
  ⟨name, restart, noEffect, .string member valid rule⟩

/-- `enumKey`. -/
def enumKey (member : StringMember) (restart : Restart) (allowed : List String) :
    Key :=
  stringKey name member restart allowed.contains ("must be one of: " ++ String.intercalate ", " allowed)

/-- `autoUpdateKey`. -/
def autoUpdateKey (member : IntMember) (fallbackMinutes : Nat) : Key := ⟨name, .none, checkPeriodic, .autoUpdate member fallbackMinutes⟩

/-- `portOrOffKey`. -/
def portOrOffKey (member : IntMember) (restart : Restart) : Key := ⟨name, restart, noEffect, .portOrOff member⟩

end

def hostRule : String := "must be empty or a host name or IP address, without a scheme, port or spaces"

def dnsRule : String :=
  "must be a DNS address: local, dhcp://auto, dhcp://<interface>, udp|tcp|tls|quic://host[:port], " ++ "https|h3://host[:port][/path] or host[:port]"

def logLevels : List String := ["trace", "debug", "info", "warn", "error", "fatal", "panic"]

/-- `XrayLogLevels`. -/
def xrayLogLevels : List String := ["debug", "info", "warning", "error", "none"]

/-- `keys`; `tun_auto_redirect` exists on Linux only. -/
def keys (syntaxes : Syntaxes) (linux : Bool) : List Key :=
  [ boolKey "remember_enable" .rememberEnable .none noEffect false, enumKey "log_level" .logLevel .profile logLevels,
    enumKey "xray_log_level" .xrayLogLevel .profile xrayLogLevels,
    boolKey "inbound_enabled" .disableMixedInbound .profile noEffect true,
    stringKey "inbound_address" .inboundAddress .profile syntaxes.ip "must be an IPv4 or IPv6 address, such as 127.0.0.1 or ::",
    ⟨"inbound_port", .profile, noEffect, .inboundPort 1 65535⟩,
    stringKey "test_url" .testLatencyUrl .none syntaxes.httpUrl "must be an http:// or https:// URL with a host",
    intKey "test_concurrency" .testConcurrent 1 499 .none noEffect,
    intKey "test_timeout_ms" .urlTestTimeoutMs 0 60000 .none noEffect,
    autoUpdateKey "sub_auto_update" .subAutoUpdate 30,
    boolKey "sub_respect_server_interval" .subRespectServerInterval .none checkPeriodic false,
    autoUpdateKey "route_auto_update" .routeAutoUpdate 1440,
    boolKey "kill_switch" .killSwitch .none applyKillSwitch false,
    boolKey "tun_strict_route" .vpnStrictRoute .tun applyKillSwitch false ] ++
  (if linux then [boolKey "tun_auto_redirect" .vpnAutoRedirect .tun applyKillSwitch false] else []) ++
  [ intKey "tun_mtu" .vpnMtu 1280 10000 .tun applyKillSwitch, boolKey "tun_ipv6" .vpnIpv6 .tun applyKillSwitch false,
    { stringKey "tun_ipv4_cidr" .vpnTunIpv4Cidr .tun syntaxes.cidrV4 "must be an IPv4 address with a prefix length, such as 172.19.0.1/24" with
      effects := applyKillSwitch },
    { stringKey "tun_ipv6_cidr" .vpnTunIpv6Cidr .tun syntaxes.cidrV6 "must be an IPv6 address with a prefix length, such as fdfe:dcba:9876::1/96" with
      effects := applyKillSwitch },
    intKey "dns_in_port" .coreDnsInPort 1 65535 .profile noEffect,
    boolKey "dns_in_lan" .coreDnsInLan .profile noEffect false,
    portOrOffKey "clash_api_port" .coreBoxClashApi .profile,
    stringKey "clash_listen_addr" .coreBoxClashListenAddr .profile syntaxes.hostOrEmpty
      "must be empty (127.0.0.1) or a host name or IP address, without a scheme, port or spaces",
    portOrOffKey "singbox_api_port" .coreBoxApiPort .profile,
    stringKey "remote_dns" .remoteDns .profile syntaxes.dnsAddress dnsRule,
    stringKey "direct_dns" .directDns .profile syntaxes.dnsAddress dnsRule,
    boolKey "ntp_enabled" .enableNtp .profile noEffect false,
    stringKey "ntp_server" .ntpServerAddress .profile syntaxes.hostOrEmpty hostRule,
    stringKey "ntp_interval" .ntpInterval .profile syntaxes.duration "must be a duration such as 30m or 1h (units ns, us, ms, s, m, h, d)" ]

namespace Kind

/-- `get` of a key. -/
def get (s : Settings) : Kind → JsonValue
  | .bool member inverted => .bool (s.bools member != inverted)
  | .int member _ _ => .number (s.ints member)
  | .inboundPort _ _ => .number (s.ints .inboundSocksPort)
  | .string member _ _ => .string (s.strings member)
  | .autoUpdate member _ =>
    .number (if kMinAutoUpdate ≤ s.ints member then (s.ints member : ℚ) else 0)
  | .portOrOff member => .number (if 0 < s.ints member then (s.ints member : ℚ) else 0)

/-- `wholeNumber`. -/
def wholeNumber : JsonValue → Option Int
  | .number value =>
    if value.den = 1 ∧ |value.num| ≤ 9007199254740992 then some value.num else none
  | _ => none

/-- `integerProblem`; the problem, or the empty text. -/
def integerProblem (name : String) (value : JsonValue) (min max : Int) : String :=
  match wholeNumber value with
  | none => "\"" ++ name ++ "\" must be an integer"
  | some number =>
    if number < min ∨ max < number then
      "\"" ++ name ++ "\" must be from " ++ toString min ++ " to " ++ toString max
    else ""

/-- `check` of a key. -/
def check (name : String) (value : JsonValue) : Kind → String
  | .bool _ _ =>
    match value with
    | .bool _ => ""
    | _ => "\"" ++ name ++ "\" must be true or false"
  | .int _ min max | .inboundPort min max => integerProblem name value min max
  | .string _ valid rule =>
    match value with
    | .string text => if valid (trimmed text) then "" else "\"" ++ name ++ "\" " ++ rule
    | _ => "\"" ++ name ++ "\" must be a string"
  | .autoUpdate _ _ =>
    match wholeNumber value with
    | none => "\"" ++ name ++ "\" must be an integer"
    | some minutes =>
      if minutes ≠ 0 ∧ (minutes < kMinAutoUpdate ∨ kMaxAutoUpdate < minutes) then
        "\"" ++ name ++ "\" must be 0 (off) or from " ++ toString kMinAutoUpdate ++ " to " ++ toString kMaxAutoUpdate ++ " minutes"
      else ""
  | .portOrOff _ =>
    match wholeNumber value with
    | none => "\"" ++ name ++ "\" must be an integer"
    | some port =>
      if port < 0 ∨ 65535 < port then
        "\"" ++ name ++ "\" must be 0 (off) or from 1 to 65535"
      else ""

/-- `autoUpdateOff`: stored negative is off, and keeps the minutes. -/
def autoUpdateOff (stored : Int) (fallbackMinutes : Nat) : Int :=
  if kMinAutoUpdate ≤ stored then -stored
  else if stored ≤ -kMinAutoUpdate then stored
  else -fallbackMinutes

/-- `set` of a key, over the pending values. -/
def set (s : Settings) (name : String) (value : JsonValue) (p : Patch) : Kind → Patch
  | .bool member inverted => p.setBool name member (value.toBool != inverted)
  | .int member _ _ => p.setInt name member value.toInt
  -- A random port is picked again at every launch, which would discard the one set here.
  | .inboundPort _ _ =>
    (p.setInt name .inboundSocksPort value.toInt).setBool name .randomInboundPort false
  | .string member _ _ => p.setString name member (trimmed value.toText)
  | .autoUpdate member fallbackMinutes =>
    let minutes := value.toInt
    p.setInt name member (if minutes ≠ 0 then minutes else autoUpdateOff ((p.overlay s).ints member) fallbackMinutes)
  | .portOrOff member =>
    let port := value.toInt
    let stored := (p.overlay s).ints member
    p.setInt name member (if port ≠ 0 then port else if 0 < stored then -stored else stored)

end Kind

namespace Key

def get (key : Key) (s : Settings) : JsonValue := key.kind.get s

def check (key : Key) (value : JsonValue) : String := key.kind.check key.name value

def set (key : Key) (s : Settings) (value : JsonValue) (p : Patch) : Patch := key.kind.set s key.name value p

end Key

/-! ## The rules across keys -/

structure PortUser where
  key : String
  member : IntMember
  label : String
deriving DecidableEq

/-- The ports that `portConflict` compares. -/
def portUsers : List PortUser :=
  [⟨"inbound_port", .inboundSocksPort, "the mixed inbound (inbound_port)"⟩,
    ⟨"dns_in_port", .coreDnsInPort, "the core's DNS server (dns_in_port)"⟩,
    ⟨"clash_api_port", .coreBoxClashApi, "the Clash API (clash_api_port)"⟩,
    ⟨"singbox_api_port", .coreBoxApiPort, "the sing-box API (singbox_api_port)"⟩]

/-- The mixed inbound listens at its stored port. -/
def mixedOn (s : Settings) : Bool := !s.bools .disableMixedInbound && !s.bools .randomInboundPort

def inUse (s : Settings) (user : PortUser) : Bool := decide (0 < s.ints user.member) && (user.member != .inboundSocksPort || mixedOn s)

/-- Who else uses the port of `user` in the pending settings `t`; empty if no one does. -/
def portHolder (t : Settings) (api : Throne.Api.Remote.Config) (user : PortUser) : String :=
  match portUsers.find? fun other =>
    other.member != user.member && inUse t other && t.ints other.member == t.ints user.member with
  | some other => other.label
  | none => if api.enabled && t.ints user.member == (api.port : Int) then "the Throne API" else ""

/-- What `portConflict` says about one port, `t` being the pending settings. -/
def userConflict (s t : Settings) (api : Throne.Api.Remote.Config) (user : PortUser) : String :=
  let changes := decide (t.ints user.member ≠ s.ints user.member)
  let mixedTurnsOn :=
    mixedOn t && (t.bools .disableMixedInbound != s.bools .disableMixedInbound || t.bools .randomInboundPort != s.bools .randomInboundPort)
  -- While the mixed inbound was off, other ports could take its stored port unchecked.
  let reenabled := user.member == .inboundSocksPort && mixedTurnsOn && !changes
  let port := t.ints user.member
  if !changes && !reenabled then ""
  else if port ≤ 0 then ""
  else
    let holder := portHolder t api user
    if holder ≠ "" ∧ reenabled = true then
      "\"inbound_enabled\" would turn the mixed inbound on at port " ++ toString port ++ ", which " ++
        holder ++ " already uses; choose a different inbound_port"
    else if holder ≠ "" then
      "\"" ++ user.key ++ "\" " ++ toString port ++ " is already used by " ++ holder ++ "; choose a different port"
    else ""

/-- `portConflict`: the first problem. -/
def portConflict (s t : Settings) (api : Throne.Api.Remote.Config) : String := ((portUsers.map (userConflict s t api)).find? (· ≠ "")).getD ""

/-- The host of a listen address, without the brackets of an IPv6 address. -/
def bareHost (text : String) : String :=
  if text.toList.head? = some '[' ∧ text.toList.getLast? = some ']' then
    String.ofList (text.toList.drop 1).dropLast
  else text

/-- Case-insensitive equality with a text of lower-case letters; the long s folds to s. -/
def equalsFolded (text folded : String) : Bool :=
  (text.toList.map fun c => if c.val = 0x17f then 's' else c.toLower) == folded.toList

variable (syntaxes : Syntaxes)

/-- The listen address stays on this host; empty stands for `127.0.0.1`. -/
def isLoopbackHost (text : String) : Bool :=
  let host := bareHost text
  host.isEmpty || equalsFolded host "localhost" || (syntaxes.hostAddress host).isLoopback

/-- `clashExposure`. -/
def clashExposure (s : Settings) (p : Patch) : String :=
  let t := p.overlay s
  if !p.touches "clash_api_port" && !p.touches "clash_listen_addr" then ""
  else if t.ints .coreBoxClashApi ≤ 0 ∨ s.strings .coreBoxClashApiSecret ≠ "" then ""
  -- Already on at this address: moving its port opens nothing new.
  else if 0 < s.ints .coreBoxClashApi ∧
      t.strings .coreBoxClashListenAddr = s.strings .coreBoxClashListenAddr then ""
  else if isLoopbackHost syntaxes (t.strings .coreBoxClashListenAddr) then ""
  else
    "\"clash_listen_addr\" " ++ bareHost (t.strings .coreBoxClashListenAddr) ++
      " would open the Clash API to other hosts without a secret; keep it on 127.0.0.1, " ++
      "or set the Clash API secret in Throne's settings first"

/-! ## Values and Put -/

structure ServiceError where
  status : Nat
  code : String
  message : String

def badRequest (message : String) : ServiceError := ⟨400, "bad_request", message⟩

structure Context where
  profileRunning : Bool
  tunOn : Bool
  systemProxyOn : Bool

structure PutResult where
  changed : List String
  restartNeeded : Bool

/-- What `Put` reads of the rest of the program: the platform, the shutdown flags (`prepare_exit`,
`noSave`), an open settings window and the API's own listener. -/
structure World where
  linux : Bool
  exiting : Bool
  editing : Bool
  api : Throne.Api.Remote.Config

/-- What `Put` leaves: the settings, its error or its result, and what it set off. -/
structure Outcome where
  settings : Settings
  error : Option ServiceError
  result : PutResult
  saved : Bool
  effects : Effect

/-- `Values`. -/
def values (world : World) (s : Settings) : List (String × JsonValue) :=
  (keys syntaxes world.linux).map fun key => (key.name, key.get s)

/-- `findKey`. -/
def findKey (linux : Bool) (name : String) : Option Key :=
  (keys syntaxes linux).find? fun key => key.name = name

/-- The loop of `Put` over the request. -/
def collect (syntaxes : Syntaxes) (linux : Bool) (s : Settings) : List (String × JsonValue) → Patch → Except ServiceError Patch
  | [], p => .ok p
  | (name, value) :: rest, p =>
    match findKey syntaxes linux name with
    | none => .error (badRequest ("Unknown setting \"" ++ name ++ "\""))
    | some key =>
      -- A value sent back unchanged passes and writes nothing, even when it is invalid.
      if value = .null ∨ value = key.get s then collect syntaxes linux s rest p
      else if key.check value ≠ "" then .error (badRequest (key.check value))
      else collect syntaxes linux s rest (key.set s value p)

/-- The core refuses an empty NTP interval, which would fail every start. -/
def fillNtpInterval (s : Settings) (p : Patch) : Patch :=
  if (p.touches "ntp_enabled" || p.touches "ntp_interval") && (p.overlay s).bools .enableNtp &&
      (p.overlay s).strings .ntpInterval == "" then
    p.setString "ntp_interval" .ntpInterval "30m"
  else p

def Restart.needed (context : Context) : Restart → Bool
  | .none => false
  | .profile => context.profileRunning
  | .tun => context.profileRunning && context.tunOn

/-- The checks of the request as a whole, before anything is written. -/
def checkPending (world : World) (context : Context) (s : Settings) (p : Patch) : Option ServiceError :=
  let t := p.overlay s
  let conflict := portConflict s t world.api
  let exposure := clashExposure syntaxes s p
  if conflict ≠ "" then some (badRequest conflict)
  else if exposure ≠ "" then some (badRequest exposure)
  else if context.systemProxyOn &&
      (t.bools .disableMixedInbound != s.bools .disableMixedInbound) &&
      t.bools .disableMixedInbound then
    some ⟨409, "mixed_inbound_disabled", "The system proxy needs Throne's mixed inbound; turn the system proxy off first"⟩
  else none

/-- What `Put` does once every check has passed. -/
def finish (world : World) (context : Context) (s : Settings) (p : Patch) :
    Outcome :=
  let committed := (fillNtpInterval s p).commit s
  if committed.2.isEmpty then ⟨committed.1, none, ⟨[], false⟩, false, noEffect⟩
  else
    let changed := committed.2.mergeSort fun a b => decide (a ≤ b)
    let changedKeys := changed.filterMap (findKey syntaxes world.linux)
    ⟨committed.1, none, ⟨changed, changedKeys.any fun key => key.restart.needed context⟩, true,
      ⟨changedKeys.any fun key => key.effects.applyKillSwitch, changedKeys.any fun key => key.effects.checkPeriodic⟩⟩

/-- `Put`. -/
def put (world : World) (context : Context) (s : Settings) (request : List (String × JsonValue)) : Outcome :=
  let failed (error : ServiceError) : Outcome := ⟨s, some error, ⟨[], false⟩, false, noEffect⟩
  if world.exiting then failed ⟨503, "exiting", "Throne is shutting down"⟩
  else if world.editing then
    failed ⟨409, "editing", "Throne's settings window is open; close it and try again"⟩
  else
    match collect syntaxes world.linux s request Patch.empty with
    | .error error => failed error
    | .ok p =>
      match checkPending syntaxes world context s p with
      | some error => failed error
      | none => finish syntaxes world context s p

end Throne.Engine.Services
