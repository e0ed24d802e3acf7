import Throne.Configs.TunInbound
import Throne.Database.Entities.RouteRuleJson

/-!
# DNS server addresses

The address of a DNS server as the user writes it is read twice: by `Fsnt::ParseDnsAddress`
(`src/src/configs/DnsAddress.cpp`), which the probe and the automatic selection use, and by
`Configs::ParseDnsAddress` (`src/src/configs/generate.cpp`), from which `buildDnsObj` makes the server of
the core's config. A text the second one refuses is split the old way (`legacyDnsObj`).

Schemes are compared in lower case. Only the ASCII letters become letters of a scheme, so `Char.toLower`
stands for `toLower` and for comparing without case. `toAceHost` is a parameter.
-/

namespace Throne.Configs.Dns

open Lib.Texts Lib.Json Database.Routes List

/-! ## Texts -/

/-- `toLower`, as far as schemes are concerned. -/
def lowered (text : Text) : Text := text.map Char.toLower

/-- `startsWith` without case, for a pattern in lower case. -/
def startsWithNoCase (pattern text : Text) : Bool := pattern.isPrefixOf (lowered text)

/-- `toInt(&ok)`, `int` being 32 bits wide. -/
def toIntOk (text : Text) : Option Int :=
  (readInt (trimmed text)).filter fun n => decide (-2147483648 ≤ n) && decide (n ≤ 2147483647)

/-- What stands before the first `c`, if there is one, and what stands behind it. -/
def splitFirst (c : Char) (text : Text) : Option (Text × Text) :=
  if text.contains c then some (text.takeWhile (· != c), (text.dropWhile (· != c)).drop 1) else none

/-- Where a path begins: the text before the first slash, and the rest with it. -/
def splitPath (text : Text) : Text × Text := (text.takeWhile (· != '/'), text.dropWhile (· != '/'))

end Throne.Configs.Dns

/-! ## The probe's parser -/

namespace Throne.Fsnt

open Lib.Texts Database.Routes Configs.Dns

/-- `Fsnt::DnsAddress`. -/
structure DnsAddress where
  type : Text
  server : Text
  port : Int
  path : Text
  interfaceName : Text
  deriving DecidableEq

def kSchemes : List Text := ["udp".toList, "tcp".toList, "tls".toList, "quic".toList, "https".toList, "h3".toList]

/-- `typeCarriesPath`. -/
def typeCarriesPath (type : Text) : Bool := type == "https".toList || type == "h3".toList

/-- The port of `splitHostPort`. -/
def readPort (text : Text) : Except Text Int :=
  if text.isEmpty then .error "порт не указан".toList
  else
    match toIntOk text with
    | some parsed =>
      if 1 ≤ parsed ∧ parsed ≤ 65535 then .ok parsed
      else .error "порт должен быть числом от 1 до 65535".toList
    | none => .error "порт должен быть числом от 1 до 65535".toList

/-- `splitHostPort`; the port is -1 where none is given. -/
def splitHostPort (input : Text) : Except Text (Text × Int) :=
  match input with
  | '[' :: inner =>
    match splitFirst ']' inner with
    | none => .error "не закрыта скобка в адресе IPv6".toList
    | some (host, rest) =>
      match rest with
      | [] => .ok (host, -1)
      | ':' :: rest => (readPort rest).map fun port => (host, port)
      | _ => .error "после ] ожидается :порт".toList
  | _ =>
    if 1 < input.count ':' then .ok (input, -1)
    else
      match splitFirst ':' input with
      | none => .ok (input, -1)
      | some (host, rest) => (readPort rest).map fun port => (host, port)

/-- The part of `ParseDnsAddress` behind the scheme. -/
def parseServer (type rest : Text) : Except Text DnsAddress :=
  if !typeCarriesPath type && rest.contains '/' then
    .error "путь допустим только для https и h3".toList
  else
    let (rest, path) := splitPath rest
    if rest.isEmpty then .error "не указан адрес сервера".toList
    else
      match splitHostPort rest with
      | .error error => .error error
      | .ok (server, port) =>
        if server.isEmpty then .error "не указан адрес сервера".toList
        else if server.contains ' ' then .error "адрес содержит пробел".toList
        else .ok ⟨type, server, port, path, []⟩

/-- `Fsnt::ParseDnsAddress`. -/
def ParseDnsAddress (address : Text) : Except Text DnsAddress :=
  let text := trimmed address
  if text.isEmpty then .error "адрес пуст".toList
  else if startsWithNoCase "local".toList text then .ok ⟨"local".toList, [], -1, [], []⟩
  else if startsWithNoCase "dhcp://".toList text then
    let interfaceName := text.drop 7
    .ok ⟨"dhcp".toList, [], -1, [], if interfaceName = "auto".toList then [] else interfaceName⟩
  else
    match cutAt "://".toList text with
    | some (c :: scheme, rest) =>
      let scheme := lowered (c :: scheme)
      if kSchemes.contains scheme then parseServer scheme rest
      else .error ("неизвестная схема «".toList ++ scheme ++ "»".toList)
    | _ =>
      if (cutAt "//".toList text).isSome then
        .error "адрес похож на ссылку, но схема не распознана".toList
      else parseServer "udp".toList text

end Throne.Fsnt

/-! ## The generator's parser -/

namespace Throne.Configs.Dns

open Lib.Texts Lib.Json Database.Routes List

/-- `Configs::DnsAddress`; the port is 0 where none is given. -/
structure DnsAddress where
  type : Text
  server : Text
  port : Int
  path : Text
  iface : Text
  deriving DecidableEq

/-- A text without the line end a `$` matches before. -/
def untilLineEnd (text : Text) : Text :=
  if text.getLast? == some '\n' then text.dropLast else text

/-- The white space of a pattern. -/
def isPatternSpace (c : Char) : Bool := (9 ≤ c.toNat && c.toNat ≤ 13) || c.toNat == 32

/-- `ifaceRe`. -/
def ifaceRe (text : Text) : Bool :=
  let text := untilLineEnd text
  !text.isEmpty && text.all fun c => !isPatternSpace c && c != '/'

/-- `portRe`. -/
def portRe (text : Text) : Bool :=
  let text := untilLineEnd text
  isDigits text && decide (text.length ≤ 5)

/-- `ipv4LikeRe`. -/
def ipv4LikeRe (text : Text) : Bool :=
  let text := untilLineEnd text
  !text.isEmpty && text.all fun c => c.isDigit || c == '.'

/-- One label of `hostnameRe`. -/
def hostLabel (label : Text) : Bool :=
  !label.isEmpty && decide (label.length ≤ 63) && label.head? != some '-' && label.getLast? != some '-' &&
      label.all fun c => c.isAlphanum || c == '_' || c == '-'

/-- `hostnameRe`. -/
def hostnameRe (text : Text) : Bool :=
  let text := untilLineEnd text
  let name := if text.getLast? == some '.' then text.dropLast else text
  !name.isEmpty && decide (name.length ≤ 253) && (name.splitOn '.').all hostLabel

def plainSchemes : List Text := ["udp".toList, "tcp".toList, "tls".toList, "quic".toList]
def pathSchemes : List Text := ["https".toList, "h3".toList]

/-- What is asked of Qt and of `toAceHost`. -/
structure Hosts where
  net : Addresses
  toAceHost : Text → Text

/-- The port, none where there is no colon for one. -/
def readPort (portText : Option Text) : Except Text Int :=
  match portText with
  | none => .ok 0
  | some portText =>
    if portText.isEmpty then .error "The port is missing after the colon.".toList
    else
      let port := if portRe portText then toInt portText else 0
      if port < 1 ∨ 65535 < port then
        .error ("\"".toList ++ portText ++ "\" is not a valid port. Use a number from 1 to 65535.".toList)
      else .ok port

/-- Whether the host of an address without brackets will do. -/
def checkHost (hosts : Hosts) (host : Text) : Except Text Unit :=
  if host.isEmpty then .error "The DNS server address is missing.".toList
  else if ipv4LikeRe host then
    if isCanonicalIPv4 host then .ok ()
    else .error ("\"".toList ++ host ++ "\" is not a valid IPv4 address.".toList)
  else if hostnameRe (hosts.toAceHost host) then .ok ()
  else .error ("\"".toList ++ host ++ "\" is not a valid IP address or host name.".toList)

/-- The host and the port's text. -/
def splitHost (hosts : Hosts) (rest : Text) : Except Text (Text × Option Text) :=
  match rest with
  | '[' :: inner =>
    match splitFirst ']' inner with
    | none => .error "The IPv6 address is missing its closing bracket.".toList
    | some (host, tail) =>
      match tail with
      | [] =>
        if isIPv6Literal hosts.net host true then .ok (host, none)
        else .error ("\"".toList ++ host ++ "\" is not a valid IPv6 address.".toList)
      | ':' :: portText =>
        if isIPv6Literal hosts.net host true then .ok (host, some portText)
        else .error ("\"".toList ++ host ++ "\" is not a valid IPv6 address.".toList)
      | _ => .error "Only a port may follow a bracketed IPv6 address.".toList
  | _ =>
    if 1 < rest.count ':' then
      if isIPv6Literal hosts.net rest true then .ok (rest, none)
      else
        .error ("\"".toList ++ rest ++ "\" is not a valid IPv6 address. Put it in brackets to add a port.".toList)
    else
      match splitFirst ':' rest with
      | none => (checkHost hosts rest).map fun _ => (rest, none)
      | some (host, portText) => (checkHost hosts host).map fun _ => (host, some portText)

/-- The part of `ParseDnsAddress` behind the scheme. -/
def parseServer (hosts : Hosts) (scheme rest : Text) : Except Text DnsAddress :=
  if rest.contains '/' && !pathSchemes.contains scheme then
    .error "Only https:// and h3:// DNS addresses take a path.".toList
  else
    let (rest, path) := splitPath rest
    match splitHost hosts rest with
    | .error error => .error error
    | .ok (host, portText) =>
      (readPort portText).map fun port => ⟨scheme, hosts.toAceHost host, port, path, []⟩

/-- `Configs::ParseDnsAddress`. -/
def ParseDnsAddress (hosts : Hosts) (text : Text) : Except Text DnsAddress :=
  let address := trimmed text
  if address.isEmpty then .error "The DNS address is empty.".toList
  else if startsWithNoCase "local".toList address then .ok ⟨"local".toList, [], 0, [], []⟩
  else
    let (scheme, rest) :=
      match cutAt "://".toList address with
      | some (scheme, rest) => (lowered scheme, rest)
      | none => ("udp".toList, address)
    if scheme = "dhcp".toList then
      if rest.isEmpty then
        .error "Name an interface after dhcp://, or use dhcp://auto.".toList
      else if ifaceRe rest then
        .ok ⟨"dhcp".toList, [], 0, [], if lowered rest = "auto".toList then [] else rest⟩
      else .error ("\"".toList ++ rest ++ "\" is not a valid interface name.".toList)
    else if plainSchemes.contains scheme || pathSchemes.contains scheme then
      parseServer hosts scheme rest
    else
      .error ("\"".toList ++ scheme ++ "\" is not a supported DNS scheme. Use udp, tcp, tls, quic, https, h3, dhcp or local.".toList)

/-! ## The server in the core's config -/

/-- One of the schemes the old split knows, with the path where it takes one. -/
def legacyScheme (address : Text) : Text × Text × Text :=
  let plain (scheme : Text) := (scheme, removeAll (scheme ++ "://".toList) address 0, ([] : Text))
  let withPath (scheme : Text) :=
    let (addr, path) := splitPath (removeAll (scheme ++ "://".toList) address 0)
    (scheme, addr, path)
  if "udp://".toList.isPrefixOf address then ("udp".toList, address.drop 6, [])
  else if "tcp://".toList.isPrefixOf address then plain "tcp".toList
  else if "tls://".toList.isPrefixOf address then plain "tls".toList
  else if "quic://".toList.isPrefixOf address then plain "quic".toList
  else if "https://".toList.isPrefixOf address then withPath "https".toList
  else if "h3://".toList.isPrefixOf address then withPath "h3".toList
  else ("udp".toList, address, [])

/-- The object of a DNS server that is dialed. -/
def serverObj (type server : Text) (port : Option Int) (path : Text) : Fields :=
  [("type".toList, .text type), ("server".toList, .text server)] ++ (port.toList.map fun port => ("server_port".toList, .int port)) ++
    if path.isEmpty then [] else [("path".toList, .text path)]

/-- `legacyDnsObj`. -/
def legacyDnsObj (address : Text) : Fields :=
  if "dhcp://".toList.isPrefixOf address then
    let ifcName := removeAll "dhcp://".toList address 0
    [("type".toList, .text "dhcp".toList), ("interface".toList, .text (if ifcName = "auto".toList then [] else ifcName))]
  else
    let (type, addr, path) := legacyScheme address
    match addr.splitOn ':' with
    | host :: portText :: _ =>
      let port := toInt portText
      serverObj type host (if port = -1 then none else some port) path
    | _ => serverObj type addr none path

/-- What `buildDnsObj` reads of a build. -/
structure DnsContext where
  os : OSType
  isResolvedUsed : Bool
  tunEnabled : Bool
  forTest : Bool
  kill_switch : Bool

/-- The type of the system's own resolver. -/
def localType (ctx : DnsContext) : Text :=
  if ctx.isResolvedUsed && (ctx.tunEnabled || ctx.forTest || ctx.kill_switch) then
    "underlying".toList
  else if ctx.os == .Darwin && (ctx.tunEnabled || ctx.forTest) then "underlying".toList
  else "local".toList

/-- `buildDnsObj`. -/
def buildDnsObj (hosts : Hosts) (ctx : DnsContext) (address : Text) : Fields :=
  match ParseDnsAddress hosts address with
  | .error _ => legacyDnsObj address
  | .ok parsed =>
    if parsed.type = "local".toList then [("type".toList, .text (localType ctx))]
    else if parsed.type = "dhcp".toList then
      [("type".toList, .text "dhcp".toList), ("interface".toList, .text parsed.iface)]
    else
      serverObj parsed.type parsed.server (if 0 < parsed.port then some parsed.port else none)
        parsed.path

end Throne.Configs.Dns

/-! ## The same server -/

namespace Throne.Configs.Dns

open Lib.Texts Lib.Json Database.Routes List

/-- The object is the server the probe was told of, as a server of the type `type`: the same host in its
ACE form, the same port where one is given, the same path, and for `dhcp` the same interface. -/
structure SameServer (hosts : Hosts) (type : Text) (probe : Fsnt.DnsAddress) (obj : Fields) :
    Prop where
  type : obj.get "type".toList = some (.text type)
  server : probe.server ≠ [] → obj.get "server".toList = some (.text (hosts.toAceHost probe.server))
  port : obj.get "server_port".toList = if probe.port = -1 then none else some (.int probe.port)
  path : obj.get "path".toList = if probe.path.isEmpty then none else some (.text probe.path)
  interface : probe.type = "dhcp".toList → obj.get "interface".toList = some (.text probe.interfaceName)

/-! ### Ports and hosts -/

variable {probe : Fsnt.DnsAddress} {port : Int} {rest server text type : Text}

section Hosts

variable {hosts : Hosts}

theorem toInt_of_toIntOk {n : Int} (h : toIntOk text = some n) : toInt text = n := by
  rw [toIntOk, Option.filter_eq_some_iff] at h
  obtain ⟨hread, hrange⟩ := h
  rw [Bool.and_eq_true, decide_eq_true_iff, decide_eq_true_iff] at hrange
  rw [toInt, hread]
  exact if_pos hrange

/-- A port both parsers take is the same number. -/
theorem readPort_agree {a b : Int} (hprobe : Fsnt.readPort text = .ok a) (hcore : readPort (some text) = .ok b) : b = a ∧ 0 < b := by
  rw [Fsnt.readPort] at hprobe
  rw [readPort] at hcore
  split at hprobe
  · cases hprobe
  · next hset =>
    rw [if_neg hset] at hcore
    split at hprobe
    · next parsed hparsed =>
      split at hprobe
      · next hrange =>
        cases hprobe
        simp only [toInt_of_toIntOk hparsed] at hcore
        cases hre : portRe text with
        | false =>
          rw [hre, if_neg Bool.false_ne_true, if_pos (.inl (by decide))] at hcore
          cases hcore
        | true =>
          rw [hre, if_pos rfl, if_neg (by omega)] at hcore
          cases hcore
          exact ⟨rfl, by omega⟩
      · cases hprobe
    · cases hprobe

/-- The ports of the two parsers: -1 and 0 stand for none. -/
def SamePort (probe core : Int) : Prop := probe = -1 ∧ core = 0 ∨ core = probe ∧ 0 < core

/-- A host and a port both parsers take are the same. -/
theorem splitHost_agree {host : Text} {p : Int} {portText : Option Text} (hprobe : Fsnt.splitHostPort rest = .ok (server, port))
    (hcore : splitHost hosts rest = .ok (host, portText)) (hport : readPort portText = .ok p) : host = server ∧ SamePort port p := by
  have hnone : readPort none = .ok p → p = 0 := fun h => (Except.ok.inj h).symm
  -- The two go through the same cases: brackets, several colons, one colon, none.
  have hplain : ∀ rest : Text, (if 1 < rest.count ':' then .ok (rest, -1)
        else
          match splitFirst ':' rest with
          | none => Except.ok (rest, -1)
          | some (host, rest) => (Fsnt.readPort rest).map fun port => (host, port)) =
        Except.ok (ε := Text) (server, port) →
      (if 1 < rest.count ':' then
          if isIPv6Literal hosts.net rest true then .ok (rest, none)
          else
            .error ("\"".toList ++ rest ++ "\" is not a valid IPv6 address. Put it in brackets to add a port.".toList)
        else
          match splitFirst ':' rest with
          | none => (checkHost hosts rest).map fun _ => (rest, none)
          | some (host, portText) => (checkHost hosts host).map fun _ => (host, some portText)) =
        Except.ok (host, portText) →
      host = server ∧ SamePort port p := by
    intro rest hprobe hcore
    split at hprobe
    · next hcolons =>
      rw [if_pos hcolons] at hcore
      split at hcore
      · obtain ⟨rfl, rfl⟩ := Prod.mk.inj (Except.ok.inj hprobe)
        obtain ⟨rfl, rfl⟩ := Prod.mk.inj (Except.ok.inj hcore)
        exact ⟨rfl, .inl ⟨rfl, hnone hport⟩⟩
      · cases hcore
    · next hcolons =>
      rw [if_neg hcolons] at hcore
      cases hsplit : splitFirst ':' rest with
      | none =>
        rw [hsplit] at hprobe hcore
        simp only at hprobe hcore
        obtain ⟨rfl, rfl⟩ := Prod.mk.inj (Except.ok.inj hprobe)
        cases hcheck : checkHost hosts rest with
        | error error =>
          rw [hcheck] at hcore
          cases hcore
        | ok _ =>
          rw [hcheck] at hcore
          obtain ⟨rfl, rfl⟩ := Prod.mk.inj (Except.ok.inj hcore)
          exact ⟨rfl, .inl ⟨rfl, hnone hport⟩⟩
      | some parts =>
        rw [hsplit] at hprobe hcore
        simp only at hprobe hcore
        cases hread : Fsnt.readPort parts.2 with
        | error error =>
          rw [hread] at hprobe
          cases hprobe
        | ok n =>
          rw [hread] at hprobe
          obtain ⟨rfl, rfl⟩ := Prod.mk.inj (Except.ok.inj hprobe)
          cases hcheck : checkHost hosts parts.1 with
          | error error =>
            rw [hcheck] at hcore
            cases hcore
          | ok _ =>
            rw [hcheck] at hcore
            obtain ⟨rfl, rfl⟩ := Prod.mk.inj (Except.ok.inj hcore)
            exact ⟨rfl, .inr (readPort_agree hread hport)⟩
  rw [Fsnt.splitHostPort.eq_def] at hprobe
  rw [splitHost.eq_def] at hcore
  split at hprobe
  · next inner =>
    simp only at hcore
    cases hsplit : splitFirst ']' inner with
    | none =>
      rw [hsplit] at hprobe
      cases hprobe
    | some parts =>
      rw [hsplit] at hprobe hcore
      obtain ⟨inside, tail⟩ := parts
      -- Behind the brackets there is nothing or a port.
      cases tail with
      | nil =>
        simp only at hprobe hcore
        split at hcore
        · obtain ⟨rfl, rfl⟩ := Prod.mk.inj (Except.ok.inj hprobe)
          obtain ⟨rfl, rfl⟩ := Prod.mk.inj (Except.ok.inj hcore)
          exact ⟨rfl, .inl ⟨rfl, hnone hport⟩⟩
        · cases hcore
      | cons c tail =>
        by_cases hcolon : c = ':'
        · subst hcolon
          simp only at hprobe hcore
          cases hread : Fsnt.readPort tail with
          | error error =>
            rw [hread] at hprobe
            cases hprobe
          | ok n =>
            rw [hread] at hprobe
            obtain ⟨rfl, rfl⟩ := Prod.mk.inj (Except.ok.inj hprobe)
            split at hcore
            · obtain ⟨rfl, rfl⟩ := Prod.mk.inj (Except.ok.inj hcore)
              exact ⟨rfl, .inr (readPort_agree hread hport)⟩
            · cases hcore
        · simp [hcolon] at hprobe
  · next hbracket =>
    split at hcore
    · next inner =>
      exact absurd rfl (hbracket inner)
    · exact hplain rest hprobe hcore

/-- Behind a scheme both know, the two parsers take the same server. -/
theorem parseServer_agree {parsed : DnsAddress} (hprobe : Fsnt.parseServer type rest = .ok probe)
    (hcore : parseServer hosts type rest = .ok parsed) : probe.type = type ∧ parsed.type = type ∧ probe.server ≠ [] ∧
    parsed.server = hosts.toAceHost probe.server ∧ SamePort probe.port parsed.port ∧ parsed.path = probe.path := by
  rw [Fsnt.parseServer] at hprobe
  rw [parseServer] at hcore
  split at hprobe
  · cases hprobe
  · split at hcore
    · cases hcore
    · simp only at hprobe hcore
      split at hprobe
      · cases hprobe
      · split at hprobe
        · cases hprobe
        · next server port hsplit =>
          split at hprobe
          · cases hprobe
          · next hset =>
            split at hprobe
            · cases hprobe
            · cases hprobe
              split at hcore
              · cases hcore
              · next host portText hhost =>
                cases hport : readPort portText with
                | error error =>
                  rw [hport] at hcore
                  cases hcore
                | ok p =>
                  rw [hport] at hcore
                  cases hcore
                  obtain ⟨rfl, hsame⟩ := splitHost_agree hsplit hhost hport
                  exact ⟨rfl, rfl, by simpa [List.isEmpty_iff] using hset, rfl, hsame, rfl⟩

end Hosts

/-! ### Schemes -/

/-- What `toLower` makes of a character is a small letter, or the character was left alone. -/
theorem toLower_cases (c : Char) : c.toLower = c ∨ 97 ≤ c.toLower.toNat ∧ c.toLower.toNat ≤ 122 := by
  delta Char.toLower
  split
  · next h =>
    right
    have h65 : (65 : UInt32) ≤ c.val := h.1
    have h90 : c.val ≤ 90 := h.2
    rw [UInt32.le_iff_toNat_le] at h65 h90
    have hval : (c.val + ('a'.val - 'A'.val)).toNat = c.val.toNat + 32 := by
      rw [UInt32.toNat_add]
      have hdiff : ('a'.val - 'A'.val).toNat = 32 := by decide
      rw [hdiff]
      have h90' : c.val.toNat ≤ 90 := h90
      omega
    change 97 ≤ (c.val + ('a'.val - 'A'.val)).toNat ∧ (c.val + ('a'.val - 'A'.val)).toNat ≤ 122
    rw [hval]
    have h65' : 65 ≤ c.val.toNat := h65
    have h90' : c.val.toNat ≤ 90 := h90
    omega
  · exact .inl rfl

variable {c : Char}

/-- A sign that is no small letter was there before. -/
theorem of_toLower {sign : Char} (hsign : sign.toNat < 97) (h : c.toLower = sign) : c = sign := by
  rcases toLower_cases c with hsame | hletter
  · exact hsame.symm.trans h
  · rw [h] at hletter
    omega

theorem colon_toLower : ':'.toLower = ':' := by decide

/-- A text that starts with `dhcp://` in any case is cut behind that. -/
theorem cutAt_dhcp (h : startsWithNoCase "dhcp://".toList text = true) :
    ∃ scheme, cutAt "://".toList text = some (scheme, text.drop 7) ∧ lowered scheme = "dhcp".toList := by
  rw [startsWithNoCase, isPrefixOf_iff_prefix] at h
  obtain ⟨tail, htail⟩ := h
  -- The four letters, the three signs, and what follows.
  obtain ⟨front, rest, rfl, hfront, hrest⟩ := map_eq_append_iff.1
    (show text.map Char.toLower = "dhcp".toList ++ ("://".toList ++ tail) from htail.symm)
  obtain ⟨signs, rest, rfl, hsigns, -⟩ := map_eq_append_iff.1 hrest
  have hlength : front.length = 4 := by
    have hsame := congrArg List.length hfront
    rw [length_map] at hsame
    exact hsame
  have hexact : signs = "://".toList := by
    -- Each of the three signs was there before.
    have hthree : signs.map Char.toLower = [':', '/', '/'] := hsigns
    obtain ⟨a, two, rfl, ha, htwo⟩ := map_eq_cons_iff.1 hthree
    obtain ⟨b, one, rfl, hb, hone⟩ := map_eq_cons_iff.1 htwo
    obtain ⟨c, none, rfl, hc, hnil⟩ := map_eq_cons_iff.1 hone
    obtain rfl := map_eq_nil_iff.1 hnil
    rw [of_toLower (by decide) ha, of_toLower (by decide) hb, of_toLower (by decide) hc]
    rfl
  have hnone : ∀ c ∈ front, c ≠ ':' := by
    rintro c hc rfl
    have hmem : ':'.toLower ∈ front.map Char.toLower := mem_map_of_mem hc
    rw [hfront, colon_toLower] at hmem
    exact absurd hmem (by decide)
  refine ⟨front, ?_, hfront⟩
  have hcut := cutAt_append "://".toList ':' _ rfl front hnone ("://".toList ++ rest)
  rw [cutAt_here (by decide), Option.map_some, append_nil] at hcut
  have hdrop : (front ++ ("://".toList ++ rest)).drop 7 = rest := by
    rw [← append_assoc]
    apply drop_left'
    rw [length_append, hlength]
    rfl
  rw [hexact, hcut, hdrop]

/-- A text that starts with `://` has two slashes in a row. -/
theorem slashes_of_cutAt (h : cutAt "://".toList text = some ([], rest)) : (cutAt "//".toList text).isSome = true := by
  cases text with
  | nil => cases h
  | cons c cs =>
    rw [cutAt] at h
    split at h
    · next hhere =>
      obtain ⟨tail, htail⟩ := isPrefixOf_iff_prefix.1 hhere
      rw [← htail]
      have hcut := cutAt_append "//".toList '/' _ rfl [':'] (forall_of_all (by decide)) ("//".toList ++ tail)
      rw [cutAt_here (by decide)] at hcut
      exact Option.isSome_iff_exists.2 ⟨_, hcut⟩
    · obtain ⟨parts, -, hparts⟩ := Option.map_eq_some_iff.1 h
      cases (Prod.mk.inj hparts).1

theorem trimmed_set (h : Fsnt.ParseDnsAddress text = .ok probe) : (trimmed text).isEmpty = false := by
  rw [Bool.eq_false_iff]
  intro hempty
  rw [Fsnt.ParseDnsAddress] at h
  simp only [hempty, if_true] at h
  cases h

/-- What the probe takes is the system's resolver, an interface, or a server behind a scheme both parsers
know. -/
theorem parse_cases (h : Fsnt.ParseDnsAddress text = .ok probe) :
    (startsWithNoCase "local".toList (trimmed text) = true ∧ probe = ⟨"local".toList, [], -1, [], []⟩) ∨
    (startsWithNoCase "local".toList (trimmed text) = false ∧ startsWithNoCase "dhcp://".toList (trimmed text) = true ∧
    probe = ⟨"dhcp".toList, [], -1, [], if (trimmed text).drop 7 = "auto".toList then [] else (trimmed text).drop 7⟩) ∨
    (startsWithNoCase "local".toList (trimmed text) = false ∧ startsWithNoCase "dhcp://".toList (trimmed text) = false ∧
    ∃ type rest, type ∈ Fsnt.kSchemes ∧ Fsnt.parseServer type rest = .ok probe ∧
    ((∃ scheme, cutAt "://".toList (trimmed text) = some (scheme, rest) ∧ lowered scheme = type) ∨
    cutAt "://".toList (trimmed text) = none ∧ rest = trimmed text ∧ type = "udp".toList)) := by
  rw [Fsnt.ParseDnsAddress] at h
  simp only at h
  split at h
  · cases h
  · split at h
    · next hlocal =>
      exact .inl ⟨hlocal, (Except.ok.inj h).symm⟩
    · next hlocal =>
      rw [Bool.not_eq_true] at hlocal
      split at h
      · next hdhcp =>
        exact .inr (.inl ⟨hlocal, hdhcp, (Except.ok.inj h).symm⟩)
      · next hdhcp =>
        rw [Bool.not_eq_true] at hdhcp
        refine .inr (.inr ⟨hlocal, hdhcp, ?_⟩)
        split at h
        · next c scheme rest hcut =>
          split at h
          · next hknown =>
            exact ⟨_, rest, contains_iff_mem.1 hknown, h, .inl ⟨_, hcut, rfl⟩⟩
          · cases h
        · next hno =>
          split at h
          · cases h
          · next hslashes =>
            -- Without a scheme there is no `://` at all: one at the front has two slashes.
            refine ⟨_, _, by decide, h, .inr ⟨?_, rfl, rfl⟩⟩
            rcases hcut : cutAt "://".toList (trimmed text) with _ | ⟨_ | ⟨c, scheme⟩, rest⟩
            · rfl
            · exact absurd (slashes_of_cutAt hcut) hslashes
            · exact absurd hcut (hno c scheme rest)

/-! ### The server the generator parses -/

section Parsed

variable {hosts : Hosts} {ctx : DnsContext} {text : Text} {probe : Fsnt.DnsAddress} {parsed : DnsAddress}

theorem kSchemes_eq : Fsnt.kSchemes = plainSchemes ++ pathSchemes := rfl

/-- The generator's parser behind the scheme of a text that is neither `local` nor `dhcp`. -/
theorem parse_server (hset : (trimmed text).isEmpty = false)
    (hlocal : startsWithNoCase "local".toList (trimmed text) = false) (htype : type ∈ Fsnt.kSchemes)
    (hrest : (∃ scheme, cutAt "://".toList (trimmed text) = some (scheme, rest) ∧ lowered scheme = type) ∨
    cutAt "://".toList (trimmed text) = none ∧ rest = trimmed text ∧ type = "udp".toList) :
    ParseDnsAddress hosts text = parseServer hosts type rest := by
  have hknown : (plainSchemes.contains type || pathSchemes.contains type) = true := by
    rw [kSchemes_eq, mem_append] at htype
    simpa using htype
  have hdhcp : type ≠ "dhcp".toList := by
    rintro rfl
    exact absurd htype (by decide)
  rw [ParseDnsAddress]
  simp only [hset, hlocal, Bool.false_eq_true, if_false]
  rcases hrest with ⟨scheme, hcut, rfl⟩ | ⟨hcut, rfl, rfl⟩
  all_goals
    simp only [hcut]
    rw [if_neg hdhcp, if_pos hknown]

end Parsed

/-! ### The servers' objects -/

section Objects

variable {hosts : Hosts} {probe : Fsnt.DnsAddress}

theorem serverObj_server (type server path : Text) (port : Option Int) :
    (serverObj type server port path).get "server".toList = some (.text server) := by
  rw [serverObj]
  cases port <;> split <;> rfl

theorem serverObj_port (type server path : Text) (port : Option Int) :
    (serverObj type server port path).get "server_port".toList = port.map .int := by
  rw [serverObj]
  cases port <;> split <;> rfl

theorem serverObj_path (type server path : Text) (port : Option Int) :
    (serverObj type server port path).get "path".toList = if path.isEmpty then none else some (.text path) := by
  rw [serverObj]
  cases port <;> split <;> rfl

/-- An object made of the probe's own host, port and path is its server. -/
theorem sameServer_serverObj {path : Text} {port : Option Int} (hdhcp : probe.type ≠ "dhcp".toList) (hserver : server = hosts.toAceHost probe.server)
    (hport : port = if probe.port = -1 then none else some probe.port) (hpath : path = probe.path) :
    SameServer hosts probe.type probe (serverObj probe.type server port path) where
  type := rfl
  server _ := by rw [serverObj_server, hserver]
  port := by
    rw [serverObj_port, hport]
    split <;> rfl
  path := by rw [serverObj_path, hpath]
  interface h := absurd h hdhcp

/-- An object that names the probe's interface is its server. -/
theorem sameServer_dhcp (interface : Text) : SameServer hosts "dhcp".toList ⟨"dhcp".toList, [], -1, [], interface⟩
    [("type".toList, .text "dhcp".toList), ("interface".toList, .text interface)] where
  type := rfl
  server h := absurd rfl h
  port := rfl
  path := rfl
  interface _ := rfl

theorem sameServer_local (type : Text) : SameServer hosts type ⟨"local".toList, [], -1, [], []⟩ [("type".toList, .text type)] where
  type := rfl
  server h := absurd rfl h
  port := rfl
  path := rfl
  interface h := absurd h (by decide)

end Objects

/-! ### The server of the old split -/

section Legacy

variable {hosts : Hosts} {probe : Fsnt.DnsAddress}

/-- A text the old split reads as the probe does, `rest` being what stands behind the scheme: no blanks
around it, the scheme in lower case and only there, a host in its ACE form, and neither brackets nor
colons in it. -/
structure Plain (hosts : Hosts) (text rest : Text) (probe : Fsnt.DnsAddress) : Prop where
  trimmed : trimmed text = text
  scheme : text = probe.type ++ "://".toList ++ rest ∨ probe.type = "udp".toList ∧ text = rest ∧ cutAt "://".toList text = none
  once : removeAll (probe.type ++ "://".toList) rest 0 = rest
  bracket : probe.server ≠ [] → rest.head? ≠ some '['
  colon : ':' ∉ probe.server
  ace : hosts.toAceHost probe.server = probe.server

theorem splitPath_of_not_mem (h : '/' ∉ text) : splitPath text = (text, []) := by
  have hall : ∀ c ∈ text, (c != '/') = true := by
    intro c hc
    rw [bne_iff_ne]
    rintro rfl
    exact h hc
  rw [splitPath, takeWhile_eq_self_iff.2 hall, dropWhile_eq_nil_iff.2 hall]

variable {rest : Text}

/-- What the probe's parser found behind the scheme. -/
theorem parseServer_parts (h : Fsnt.parseServer type rest = .ok probe) :
    (Fsnt.typeCarriesPath type = false → '/' ∉ rest) ∧ probe.type = type ∧ probe.server ≠ [] ∧
    Fsnt.splitHostPort (splitPath rest).1 = .ok (probe.server, probe.port) ∧ probe.path = (splitPath rest).2 := by
  rw [Fsnt.parseServer] at h
  split at h
  · cases h
  · next hpath =>
    simp only at h
    split at h
    · cases h
    · split at h
      · cases h
      · next server port hsplit =>
        split at h
        · cases h
        · next hset =>
          split at h
          · cases h
          · cases h
            exact ⟨fun htype hmem => hpath (by simp [htype, hmem]), rfl, by simpa [List.isEmpty_iff] using hset, hsplit, rfl⟩

theorem splitFirst_none (h : splitFirst c text = none) : c ∉ text := by
  rw [splitFirst] at h
  split at h
  · cases h
  · next hno => simpa using hno

theorem splitFirst_some {host : Text} (h : splitFirst c text = some (host, rest)) : text = host ++ c :: rest := by
  rw [splitFirst] at h
  split at h
  · next hmem =>
    obtain ⟨rfl, rfl⟩ := Prod.mk.inj (Option.some.inj h)
    have hset : text.dropWhile (· != c) ≠ [] := by
      rw [Ne, dropWhile_eq_nil_iff]
      intro hall
      exact absurd (hall c (contains_iff_mem.1 hmem)) (by simp)
    obtain ⟨d, tail, hdrop⟩ := exists_cons_of_ne_nil hset
    have hhead := head_dropWhile_not (· != c) hset
    simp only [hdrop, head_cons, bne_eq_false_iff_eq] at hhead
    rw [hhead] at hdrop
    rw [hdrop, drop_one, tail_cons, ← hdrop, takeWhile_append_dropWhile]
  · cases h

/-- A host without a colon, read outside brackets, is the whole text or is followed by a port. -/
theorem splitHostPort_plain (h : Fsnt.splitHostPort rest = .ok (server, port)) (hbracket : rest.head? ≠ some '[') (hcolon : ':' ∉ server) :
    rest = server ∧ port = -1 ∨ ∃ portText, rest = server ++ ':' :: portText ∧ ':' ∉ portText ∧ Fsnt.readPort portText = .ok port := by
  rw [Fsnt.splitHostPort.eq_def] at h
  split at h
  · exact absurd rfl hbracket
  · split at h
    · obtain ⟨rfl, rfl⟩ := Prod.mk.inj (Except.ok.inj h)
      exact .inl ⟨rfl, rfl⟩
    · next hcount =>
      cases hsplit : splitFirst ':' rest with
      | none =>
        rw [hsplit] at h
        obtain ⟨rfl, rfl⟩ := Prod.mk.inj (Except.ok.inj h)
        exact .inl ⟨rfl, rfl⟩
      | some parts =>
        rw [hsplit] at h
        obtain ⟨host, portText⟩ := parts
        simp only at h
        cases hread : Fsnt.readPort portText with
        | error error =>
          rw [hread] at h
          cases h
        | ok n =>
          rw [hread] at h
          obtain ⟨rfl, rfl⟩ := Prod.mk.inj (Except.ok.inj h)
          obtain rfl := splitFirst_some hsplit
          refine .inr ⟨portText, rfl, ?_, hread⟩
          -- There is one colon at most, and it stands behind the host.
          rw [count_append, count_cons_self] at hcount
          exact count_eq_zero.1 (by omega)

theorem readPort_ok {n : Int} (h : Fsnt.readPort text = .ok n) : toInt text = n ∧ n ≠ -1 := by
  rw [Fsnt.readPort] at h
  split at h
  · cases h
  · split at h
    · next parsed hparsed =>
      split at h
      · cases h
        exact ⟨toInt_of_toIntOk hparsed, by omega⟩
      · cases h
    · cases h

/-- The host and the port of the old split, which cuts at every colon. -/
theorem legacy_hostPort {hostPort : Text} (h : Fsnt.splitHostPort hostPort = .ok (server, port)) (hbracket : hostPort.head? ≠ some '[')
    (hcolon : ':' ∉ server) (type path : Text) :
    (match hostPort.splitOn ':' with
      | host :: portText :: _ =>
        serverObj type host (if toInt portText = -1 then none else some (toInt portText)) path
      | _ => serverObj type hostPort none path) =
      serverObj type server (if port = -1 then none else some port) path := by
  rcases splitHostPort_plain h hbracket hcolon with ⟨rfl, rfl⟩ | ⟨portText, rfl, hport, hread⟩
  · rw [splitOn_eq_singleton hcolon]
    rfl
  · obtain ⟨hto, -⟩ := readPort_ok hread
    rw [splitOn_append_cons_self, splitOn_eq_singleton hcolon, splitOn_eq_singleton hport, singleton_append]
    simp only [hto]

/-- The old split finds the scheme, and cuts a path off where the scheme takes one. -/
theorem legacyScheme_of (htype : type ∈ Fsnt.kSchemes) (honce : removeAll (type ++ "://".toList) rest 0 = rest)
    (hpath : Fsnt.typeCarriesPath type = false → '/' ∉ rest) : legacyScheme (type ++ "://".toList ++ rest) = (type, splitPath rest) := by
  -- One case per scheme: the text begins with it, so what is left without it is the rest.
  simp only [Fsnt.kSchemes, mem_cons, not_mem_nil, or_false] at htype
  rcases htype with rfl | rfl | rfl | rfl | rfl | rfl
  · rw [splitPath_of_not_mem (hpath rfl)]
    rfl
  · rw [splitPath_of_not_mem (hpath rfl)]
    exact congrArg (fun addr => ("tcp".toList, addr, ([] : Text))) honce
  · rw [splitPath_of_not_mem (hpath rfl)]
    exact congrArg (fun addr => ("tls".toList, addr, ([] : Text))) honce
  · rw [splitPath_of_not_mem (hpath rfl)]
    exact congrArg (fun addr => ("quic".toList, addr, ([] : Text))) honce
  · exact congrArg (fun addr => ("https".toList, splitPath addr)) honce
  · exact congrArg (fun addr => ("h3".toList, splitPath addr)) honce

/-- A text without `://` begins with no scheme. -/
theorem not_scheme_of_cutAt_none (scheme : Text) (hcut : cutAt "://".toList text = none)
    (hscheme : ∀ c ∈ scheme, c ≠ ':') : (scheme ++ "://".toList).isPrefixOf text = false := by
  rw [Bool.eq_false_iff]
  intro hstart
  obtain ⟨tail, rfl⟩ := isPrefixOf_iff_prefix.1 hstart
  rw [append_assoc, cutAt_append "://".toList ':' _ rfl scheme hscheme, cutAt_here (by decide)] at hcut
  cases hcut

/-- The old split of a text without a scheme. -/
theorem legacyScheme_none (hcut : cutAt "://".toList text = none) : legacyScheme text = ("udp".toList, text, []) := by
  have hudp : "udp://".toList.isPrefixOf text = false :=
    not_scheme_of_cutAt_none "udp".toList hcut (forall_of_all (by decide))
  have htcp : "tcp://".toList.isPrefixOf text = false :=
    not_scheme_of_cutAt_none "tcp".toList hcut (forall_of_all (by decide))
  have htls : "tls://".toList.isPrefixOf text = false :=
    not_scheme_of_cutAt_none "tls".toList hcut (forall_of_all (by decide))
  have hquic : "quic://".toList.isPrefixOf text = false :=
    not_scheme_of_cutAt_none "quic".toList hcut (forall_of_all (by decide))
  have hhttps : "https://".toList.isPrefixOf text = false :=
    not_scheme_of_cutAt_none "https".toList hcut (forall_of_all (by decide))
  have hh3 : "h3://".toList.isPrefixOf text = false :=
    not_scheme_of_cutAt_none "h3".toList hcut (forall_of_all (by decide))
  rw [legacyScheme]
  simp only [hudp, htcp, htls, hquic, hhttps, hh3, Bool.false_eq_true, if_false]

/-- A host and a port the probe read, cut again by the old split. -/
theorem sameServer_legacy (hplain : Plain hosts text rest probe) (hserver : Fsnt.parseServer type rest = .ok probe) (htype : type ∈ Fsnt.kSchemes) :
    SameServer hosts probe.type probe (legacyDnsObj text) := by
  obtain ⟨hnoPath, rfl, hset, hsplit, hpath⟩ := parseServer_parts hserver
  have hdhcp : probe.type ≠ "dhcp".toList := by
    intro h
    rw [h] at htype
    exact absurd htype (by decide)
  have hscheme : legacyScheme text = (probe.type, splitPath rest) := by
    rcases hplain.scheme with rfl | ⟨hudp, rfl, hcut⟩
    · exact legacyScheme_of htype hplain.once hnoPath
    · rw [legacyScheme_none hcut, splitPath_of_not_mem (hnoPath (by rw [hudp]; rfl)), hudp]
  have hstart : "dhcp://".toList.isPrefixOf text = false := by
    rcases hplain.scheme with rfl | ⟨-, rfl, hcut⟩
    · simp only [Fsnt.kSchemes, mem_cons, not_mem_nil, or_false] at htype
      rcases htype with h | h | h | h | h | h <;> rw [h] <;> rfl
    · exact not_scheme_of_cutAt_none "dhcp".toList hcut (forall_of_all (by decide))
  have hbracket : (splitPath rest).1.head? ≠ some '[' := by
    have hrest := hplain.bracket hset
    cases rest with
    | nil => exact hrest
    | cons c rest =>
      rw [splitPath]
      simp only [takeWhile_cons]
      split
      · exact hrest
      · exact nofun
  have hobj : legacyDnsObj text = serverObj probe.type probe.server (if probe.port = -1 then none else some probe.port)
        (splitPath rest).2 := by
    rw [legacyDnsObj, hstart, if_neg Bool.false_ne_true, hscheme]
    exact legacy_hostPort hsplit hbracket hplain.colon _ _
  rw [hobj]
  exact sameServer_serverObj hdhcp hplain.ace.symm rfl hpath.symm

/-- The interface of the old split. -/
theorem legacyDnsObj_dhcp (hscheme : text = "dhcp".toList ++ "://".toList ++ rest)
    (honce : removeAll ("dhcp".toList ++ "://".toList) rest 0 = rest) : legacyDnsObj text = [("type".toList, .text "dhcp".toList),
    ("interface".toList, .text (if rest = "auto".toList then [] else rest))] := by
  subst hscheme
  have hname : removeAll "dhcp://".toList ("dhcp".toList ++ "://".toList ++ rest) 0 = rest := honce
  have hstart : "dhcp://".toList.isPrefixOf ("dhcp".toList ++ "://".toList ++ rest) = true := rfl
  rw [legacyDnsObj, if_pos hstart]
  simp only [hname]

end Legacy

/-! ## The probe and the core -/

section Agreement

variable (hosts : Hosts) (ctx : DnsContext) {text : Text} {probe : Fsnt.DnsAddress}

/-- The type of the server in the core's config: for `local` it may be `underlying`. -/
def coreType (type : Text) : Text := if type = "local".toList then localType ctx else type

/-- The server of the core's config where the generator's parser takes the address too. -/
theorem sameServer_of_parsed {parsed : DnsAddress} (hprobe : Fsnt.ParseDnsAddress text = .ok probe)
    (hauto : lowered probe.interfaceName ≠ "auto".toList) (hcore : ParseDnsAddress hosts text = .ok parsed) :
    SameServer hosts (coreType ctx probe.type) probe (buildDnsObj hosts ctx text) := by
  have hset := trimmed_set hprobe
  rw [buildDnsObj, hcore]
  simp only
  rcases parse_cases hprobe with ⟨hlocal, rfl⟩ | ⟨hlocal, hdhcp, rfl⟩ |
    ⟨hlocal, hdhcp, type, rest, htype, hserver, hrest⟩
  · rw [ParseDnsAddress] at hcore
    simp only [hset, hlocal, Bool.false_eq_true, if_false, if_true] at hcore
    cases hcore
    exact sameServer_local _
  · -- The interface is what stands behind the scheme, in either parser.
    obtain ⟨scheme, hcut, hscheme⟩ := cutAt_dhcp hdhcp
    rw [ParseDnsAddress] at hcore
    simp only [hset, hlocal, Bool.false_eq_true, if_false, hcut, hscheme, if_true] at hcore
    split at hcore
    · exact nomatch hcore
    · split at hcore
      · cases hcore
        have hname : (if lowered ((trimmed text).drop 7) = "auto".toList then []
              else (trimmed text).drop 7) =
            if (trimmed text).drop 7 = "auto".toList then [] else (trimmed text).drop 7 := by
          by_cases hexact : (trimmed text).drop 7 = "auto".toList
          · rw [hexact, if_pos rfl, if_pos (by decide)]
          · rw [if_neg hexact] at hauto ⊢
            rw [if_neg hauto]
        simp only [hname]
        rw [if_neg (show "dhcp".toList ≠ "local".toList by decide), if_pos trivial]
        exact sameServer_dhcp _
      · exact nomatch hcore
  · rw [parse_server hset hlocal htype hrest] at hcore
    obtain ⟨htypeP, htypeC, hne, hhost, hport, hpath⟩ := parseServer_agree hserver hcore
    have hnames : probe.type ≠ "local".toList ∧ probe.type ≠ "dhcp".toList := by
      rw [htypeP]
      constructor <;> rintro rfl <;> exact absurd htype (by decide)
    rw [htypeC, ← htypeP, if_neg hnames.1, if_neg hnames.2, coreType, if_neg hnames.1]
    refine sameServer_serverObj hnames.2 hhost ?_ hpath
    rcases hport with ⟨hp, hc⟩ | ⟨hsame, hpos⟩
    · rw [hp, hc]
      rfl
    · rw [if_pos hpos, if_neg (by omega), hsame]

/-- The server of the core's config where the old split is left with the address. -/
theorem sameServer_of_refused {error : Text} (hprobe : Fsnt.ParseDnsAddress text = .ok probe)
    (hcore : ParseDnsAddress hosts text = .error error) (hplain : Plain hosts text rest probe) :
    SameServer hosts (coreType ctx probe.type) probe (buildDnsObj hosts ctx text) := by
  have hset := trimmed_set hprobe
  rw [buildDnsObj, hcore]
  simp only
  rcases parse_cases hprobe with ⟨hlocal, rfl⟩ | ⟨hlocal, hdhcp, rfl⟩ |
    ⟨hlocal, hdhcp, type, behind, htype, hserver, hrest⟩
  · -- The generator takes `local` as well.
    rw [ParseDnsAddress] at hcore
    simp only [hset, hlocal, Bool.false_eq_true, if_false, if_true] at hcore
    exact nomatch hcore
  · rcases hplain.scheme with htext | ⟨hudp, -, -⟩
    · have hname : (trimmed text).drop 7 = rest := by
        rw [hplain.trimmed, htext]
        rfl
      rw [legacyDnsObj_dhcp htext hplain.once, hname]
      exact sameServer_dhcp _
    · exact absurd hudp (show "dhcp".toList ≠ "udp".toList by decide)
  · obtain ⟨-, htypeP, -⟩ := parseServer_parts hserver
    have hlocalType : probe.type ≠ "local".toList := by
      rw [htypeP]
      rintro rfl
      exact absurd htype (by decide)
    have hbehind : behind = rest := by
      rw [hplain.trimmed] at hrest
      have hno : ∀ c ∈ probe.type, c ≠ ':' := by
        rw [htypeP]
        simp only [Fsnt.kSchemes, mem_cons, not_mem_nil, or_false] at htype
        rcases htype with rfl | rfl | rfl | rfl | rfl | rfl <;> exact forall_of_all (by decide)
      rcases hplain.scheme with htext | ⟨-, htext, hcut⟩
      · rw [htext, append_assoc, cutAt_append "://".toList ':' _ rfl _ hno, cutAt_here (by decide)] at hrest
        rcases hrest with ⟨scheme, hcut, -⟩ | ⟨hcut, -⟩
        · exact (Prod.mk.inj (Option.some.inj hcut)).2.symm
        · exact nomatch hcut
      · rw [hcut] at hrest
        rcases hrest with ⟨scheme, hcut', -⟩ | ⟨-, hsame, -⟩
        · exact nomatch hcut'
        · rw [hsame, htext]
    rw [coreType, if_neg hlocalType]
    rw [hbehind] at hserver
    exact sameServer_legacy hplain hserver htype

/-- For every address the probe takes the core is given the probe's server: where the generator's parser
takes it too, and where it is left with the old split and the address is plain. -/
theorem buildDnsObj_sameServer (hprobe : Fsnt.ParseDnsAddress text = .ok probe)
    (hauto : lowered probe.interfaceName ≠ "auto".toList) (hread : (∃ parsed, ParseDnsAddress hosts text = .ok parsed) ∨
    ∃ rest, Plain hosts text rest probe) : SameServer hosts (coreType ctx probe.type) probe (buildDnsObj hosts ctx text) := by
  cases hcore : ParseDnsAddress hosts text with
  | ok parsed => exact sameServer_of_parsed hosts ctx hprobe hauto hcore
  | error error =>
    rcases hread with ⟨parsed, hparsed⟩ | ⟨rest, hplain⟩
    · rw [hcore] at hparsed
      cases hparsed
    · exact sameServer_of_refused hosts ctx hprobe hcore hplain

end Agreement

/-- Host names already in their ACE form. -/
def asciiHosts : Hosts := ⟨⟨fun text => text.contains ':', fun _ => none, fun _ _ => []⟩, id⟩

/-- An IPv4 address in brackets is refused by the generator's parser, and the old split cuts it at its
colon; and the resolver of a system with a Tun is `underlying`. -/
theorem brackets_disagree : ∃ ctx probe tunProbe, Fsnt.ParseDnsAddress "[1.1.1.1]:53".toList = .ok probe ∧
    ¬SameServer asciiHosts probe.type probe (buildDnsObj asciiHosts ctx "[1.1.1.1]:53".toList) ∧
    Fsnt.ParseDnsAddress "local".toList = .ok tunProbe ∧ ¬SameServer asciiHosts tunProbe.type tunProbe
    (buildDnsObj asciiHosts ctx "local".toList) := by
  refine ⟨⟨.Linux, true, true, false, false⟩, ⟨"udp".toList, "1.1.1.1".toList, 53, [], []⟩,
    ⟨"local".toList, [], -1, [], []⟩, by decide, ?_, by decide, ?_⟩
  · intro hsame
    have hserver : some (Json.text "[1.1.1.1]".toList) = some (.text "1.1.1.1".toList) :=
      hsame.server (by decide)
    exact absurd (Json.text.inj (Option.some.inj hserver)) (by decide)
  · intro hsame
    have htype : some (Json.text "underlying".toList) = some (.text "local".toList) := hsame.type
    exact absurd (Json.text.inj (Option.some.inj htype)) (by decide)

theorem buildDnsObj_sameServer_tls : SameServer asciiHosts "tls".toList ⟨"tls".toList, "dns.example".toList, 853, [], []⟩
    (buildDnsObj asciiHosts ⟨.Linux, true, true, false, false⟩ " TLS://dns.example:853".toList) :=
  @buildDnsObj_sameServer asciiHosts ⟨.Linux, true, true, false, false⟩
    " TLS://dns.example:853".toList ⟨"tls".toList, "dns.example".toList, 853, [], []⟩
    (by decide) (by decide)
    (.inl ⟨⟨"tls".toList, "dns.example".toList, 853, [], []⟩, by decide⟩)

end Throne.Configs.Dns
