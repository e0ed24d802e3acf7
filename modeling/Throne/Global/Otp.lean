import Throne.Database.Entities.RouteRule

/-!
# One-time passwords

The entries of `src/src/global/OTP.cpp`: secrets in base32, the codes of RFC 4226 and RFC 6238, and the
migration format, a protobuf message in a link. The keyed hash, UTF-8 and the link around the message are
parameters. Messages are shorter than 2 GiB, so positions in them are numbers; the words that shift bits
in are of 32 and 64 bits as in the source.
-/

namespace Throne.Global.OTP

open Lib.Texts Database.Routes

abbrev Bytes := List UInt8

inductive Algorithm
  | SHA1
  | SHA256
  | SHA512
  deriving DecidableEq

inductive OtpType
  | TOTP
  | HOTP
  deriving DecidableEq

def DEFAULT_DIGITS : Int := 6
def DEFAULT_PERIOD : Int := 30
def MIN_DIGITS : Int := 4
def MAX_DIGITS : Int := 10
def MIN_PERIOD : Int := 1
def MAX_PERIOD : Int := 3600

structure Entry where
  name : Text := []
  issuer : Text := []
  secret : Text := []
  algorithm : Algorithm := .SHA1
  type : OtpType := .TOTP
  digits : Int := DEFAULT_DIGITS
  period : Int := DEFAULT_PERIOD
  counter : Int := 0

/-! ## Base32 -/

def BASE32_ALPHABET : Text := "ABCDEFGHIJKLMNOPQRSTUVWXYZ234567".toList

def base32Char (value : Nat) : Char := BASE32_ALPHABET.getD value 'A'

/-- The characters between the digits that are passed over. -/
def isFiller (c : Char) : Bool := c == ' ' || c == '-' || c == '_' || c == '\t' || c == '\r' || c == '\n' || c == '='

def base32Value (c : Char) : Option Nat :=
  if 'A' ≤ c ∧ c ≤ 'Z' then some (c.toNat - 'A'.toNat)
  else if 'a' ≤ c ∧ c ≤ 'z' then some (c.toNat - 'a'.toNat)
  else if '2' ≤ c ∧ c ≤ '7' then some (c.toNat - '2'.toNat + 26)
  else none

/-- The loop of `Base32Decode`. -/
def decodeFrom : Nat → Nat → Text → Option Bytes
  | _, _, [] => some []
  | buffer, bitsLeft, c :: rest =>
    if isFiller c then decodeFrom buffer bitsLeft rest
    else
      match base32Value c with
      | none => none
      | some value =>
        let buffer := (buffer <<< 5 ||| value) % 2 ^ 32
        if 8 ≤ bitsLeft + 5 then
          (decodeFrom buffer (bitsLeft + 5 - 8) rest).map fun out =>
            UInt8.ofNat (buffer >>> (bitsLeft + 5 - 8) &&& 0xff) :: out
        else decodeFrom buffer (bitsLeft + 5) rest

def Base32Decode (input : Text) : Option Bytes := decodeFrom 0 0 input

/-- The inner loop of `Base32Encode`: digits while there are bits for one. -/
def emitDigits (buffer : Nat) : Nat → Nat → Text × Nat
  | 0, bitsLeft => ([], bitsLeft)
  | fuel + 1, bitsLeft =>
    if 5 ≤ bitsLeft then
      let more := emitDigits buffer fuel (bitsLeft - 5)
      (base32Char (buffer >>> (bitsLeft - 5) &&& 0x1f) :: more.1, more.2)
    else ([], bitsLeft)

/-- The loop of `Base32Encode`. -/
def encodeFrom : Nat → Nat → Bytes → Text
  | buffer, bitsLeft, [] =>
    if 0 < bitsLeft then [base32Char (buffer <<< (5 - bitsLeft) &&& 0x1f)] else []
  | buffer, bitsLeft, c :: rest =>
    let buffer := (buffer <<< 8 ||| c.toNat) % 2 ^ 32
    let emitted := emitDigits buffer (bitsLeft + 8) (bitsLeft + 8)
    emitted.1 ++ encodeFrom buffer emitted.2 rest

def Base32Encode (input : Bytes) : Text := encodeFrom 0 0 input

def NormalizeSecret (secret : Text) : Text :=
  match Base32Decode secret with
  | none => []
  | some decoded => if decoded = [] then [] else Base32Encode decoded

/-! ## Codes -/

section

variable (entry : Entry)

/-- Empty means usable. -/
def Validate : Text :=
  if trimmed entry.secret = [] then "Secret is empty".toList
  else
    match Base32Decode entry.secret with
    | none => "Secret is not valid base32".toList
    | some key =>
      if key = [] then "Secret is too short".toList
      else if entry.digits < MIN_DIGITS ∨ entry.digits > MAX_DIGITS then
        "Digits must be between ".toList ++ intText MIN_DIGITS ++ " and ".toList ++ intText MAX_DIGITS
      else if entry.type = .TOTP ∧ (entry.period < MIN_PERIOD ∨ entry.period > MAX_PERIOD) then
        "Period must be between ".toList ++ intText MIN_PERIOD ++ " and ".toList ++ intText MAX_PERIOD ++ " seconds".toList
      else []

/-- The keyed hash of a message. -/
abbrev Hmac := Algorithm → Bytes → Bytes → Bytes

/-- The lowest bytes of a counter, the most significant first. -/
def counterBytes : Nat → Nat → Bytes
  | 0, _ => []
  | count + 1, counter => counterBytes count (counter >>> 8) ++ [UInt8.ofNat (counter &&& 0xff)]

/-- The dynamic truncation: the last nibble picks the window, the top bit is masked off. -/
def truncated (mac : Bytes) : Nat :=
  let byte (i : Nat) : Nat := (mac.getD i 0).toNat
  let offset := byte (mac.length - 1) &&& 0x0f
  (byte offset &&& 0x7f) <<< 24 ||| byte (offset + 1) <<< 16 ||| byte (offset + 2) <<< 8 ||| byte (offset + 3)

/-- `QString("%1").arg(n, width, 10, '0')`. -/
def padded (n width : Nat) : Text := List.replicate (width - (natText n).length) '0' ++ natText n

def GenerateHOTP (hmac : Hmac) (key : Bytes) (counter : Nat) (algorithm : Algorithm) (digits : Int) : Text :=
  if key = [] ∨ digits < MIN_DIGITS ∨ digits > MAX_DIGITS then []
  else
    let mac := hmac algorithm (counterBytes 8 counter) key
    if mac.length < 20 then [] else padded (truncated mac % 10 ^ digits.toNat) digits.toNat

/-- `static_cast<quint64>`. -/
def toUnsigned (n : Int) : Nat := (n % 2 ^ 64).toNat

/-- The code at a time, or at the time of the clock for a time below 0. -/
def GenerateCode (hmac : Hmac) (clock : Int) (entry : Entry) (unixTime : Int) : Text :=
  if Validate entry ≠ [] then []
  else
    let key := (Base32Decode entry.secret).getD []
    if entry.type = .HOTP then GenerateHOTP hmac key (toUnsigned entry.counter) entry.algorithm entry.digits
    else
      let now := if unixTime < 0 then clock else unixTime
      GenerateHOTP hmac key (toUnsigned (now.tdiv entry.period)) entry.algorithm entry.digits

/-! ## Protobuf -/

/-- A `quint64` takes ten bytes at most. -/
def varintBytes : Nat → Nat → Bytes
  | 0, _ => []
  | fuel + 1, value =>
    if value >>> 7 ≠ 0 then UInt8.ofNat (value &&& 0x7f ||| 0x80) :: varintBytes fuel (value >>> 7)
    else [UInt8.ofNat (value &&& 0x7f)]

def pbWriteVarint (value : Nat) : Bytes := varintBytes 10 value

def pbWriteTag (field wireType : Nat) : Bytes := pbWriteVarint (field <<< 3 ||| wireType)

def pbWriteBytes (field : Nat) (value : Bytes) : Bytes := pbWriteTag field 2 ++ pbWriteVarint value.length ++ value

def pbWriteUint (field value : Nat) : Bytes := pbWriteTag field 0 ++ pbWriteVarint value

/-- The loop of `pbReadVarint`: the value so far, the shift, and what is left to read. -/
def readVarintFrom : Nat → Nat → Bytes → Option (Nat × Bytes)
  | _, _, [] => none
  | value, shift, byte :: rest =>
    let value := value ||| ((byte.toNat &&& 0x7f) <<< shift) % 2 ^ 64
    if byte.toNat &&& 0x80 = 0 then some (value, rest)
    else if shift + 7 > 63 then none
    else readVarintFrom value (shift + 7) rest

def pbReadVarint (input : Bytes) : Option (Nat × Bytes) := readVarintFrom 0 0 input

structure PbField where
  field : Nat
  wireType : Nat
  varint : Nat
  bytes : Bytes

/-- A field and what is left to read. -/
def pbReadField (input : Bytes) : Option (PbField × Bytes) :=
  match pbReadVarint input with
  | none => none
  | some (tag, rest) =>
    let field := tag >>> 3 % 2 ^ 32
    match tag &&& 0x07 with
    | 0 => (pbReadVarint rest).map fun (varint, rest) => (⟨field, 0, varint, []⟩, rest)
    | 1 => if rest.length < 8 then none else some (⟨field, 1, 0, []⟩, rest.drop 8)
    | 2 =>
      match pbReadVarint rest with
      | none => none
      | some (len, rest) =>
        if len > rest.length then none else some (⟨field, 2, 0, rest.take len⟩, rest.drop len)
    | 5 => if rest.length < 4 then none else some (⟨field, 5, 0, []⟩, rest.drop 4)
    | _ => none

/-! ## The migration link -/

/-- UTF-8, and the link around a message: scheme, host, and the message in base64 as its parameter `data`. No
message comes of a link of another scheme, of an invalid one, or of one without data. -/
structure Coding where
  toUtf8 : Text → Bytes
  fromUtf8 : Bytes → Text
  toLink : Bytes → Text
  fromLink : Text → Option Bytes

/-- 0 unspecified, 1 SHA1, 2 SHA256, 3 SHA512, 4 MD5. -/
def migrationAlgorithm : Nat → Option Algorithm
  | 0 => some .SHA1
  | 1 => some .SHA1
  | 2 => some .SHA256
  | 3 => some .SHA512
  | _ => none

def migrationAlgorithmValue : Algorithm → Nat
  | .SHA256 => 2
  | .SHA512 => 3
  | .SHA1 => 1

def otpEntryLabel : Text :=
  if entry.name ≠ [] then entry.name
  else if entry.issuer ≠ [] then entry.issuer
  else "Unnamed entry".toList

def otpBadAlgorithm (value : Text) : Text :=
  otpEntryLabel entry ++ ": algorithm \"".toList ++ value ++ "\" is not supported (only SHA1, SHA256 and SHA512), so its codes would be wrong.".toList

def otpBadType (value : Text) : Text :=
  otpEntryLabel entry ++ ": type \"".toList ++ value ++ "\" is not supported (only totp and hotp).".toList

def otpNoSecret : Text := otpEntryLabel entry ++ ": there is no secret.".toList

def otpBadDigitCount (value : Text) : Text := otpEntryLabel entry ++ ": the digit count code ".toList ++ value ++ " is not supported.".toList

end

section Link

variable (coding : Coding)

/-- The parameters of an entry as a message. -/
def migrationParameters (entry : Entry) (key : Bytes) : Bytes :=
  pbWriteBytes 1 key ++ pbWriteBytes 2 (coding.toUtf8 entry.name) ++
    (if entry.issuer ≠ [] then pbWriteBytes 3 (coding.toUtf8 entry.issuer) else []) ++
    pbWriteUint 4 (migrationAlgorithmValue entry.algorithm) ++
    pbWriteUint 5 (if entry.digits = 8 then 2 else 1) ++
    pbWriteUint 6 (if entry.type = .HOTP then 1 else 2) ++
    (if entry.type = .HOTP then pbWriteUint 7 (toUnsigned entry.counter) else [])

/-- An entry in the payload; without a key it is left out. -/
def migrationEntry (entry : Entry) : Bytes :=
  match Base32Decode entry.secret with
  | none => []
  | some key => if key = [] then [] else pbWriteBytes 1 (migrationParameters coding entry key)

/-- The version, the batch size and the batch index. -/
def migrationTail : Bytes := pbWriteUint 2 1 ++ pbWriteUint 3 1 ++ pbWriteUint 4 0

def migrationPayload (entries : List Entry) : Bytes :=
  let payload := entries.flatMap (migrationEntry coding)
  if payload = [] then [] else payload ++ migrationTail

def ExportToMigrationLink (entries : List Entry) : Text :=
  let payload := migrationPayload coding entries
  if payload = [] then [] else coding.toLink payload

/-- What is read of an entry. -/
structure EntryReading where
  entry : Entry := {}
  haveSecret : Bool := false
  badAlgorithm : Option Nat := none
  badDigits : Option Nat := none
  badType : Option Nat := none

/-- `static_cast<qint64>`. -/
def toSigned (n : Nat) : Int := if n < 2 ^ 63 then n else (n : Int) - 2 ^ 64

def readParameter (r : EntryReading) (f : PbField) : EntryReading :=
  match f.field with
  | 1 => { r with entry := { r.entry with secret := Base32Encode f.bytes }, haveSecret := !f.bytes.isEmpty }
  | 2 => { r with entry := { r.entry with name := coding.fromUtf8 f.bytes } }
  | 3 => { r with entry := { r.entry with issuer := coding.fromUtf8 f.bytes } }
  | 4 =>
    match migrationAlgorithm f.varint with
    | some algorithm => { r with entry := { r.entry with algorithm := algorithm } }
    | none => { r with badAlgorithm := some f.varint }
  | 5 =>
    -- 0 unspecified, 1 six, 2 eight
    if f.varint ≤ 2 then
      { r with entry := { r.entry with digits := if f.varint = 2 then 8 else DEFAULT_DIGITS } }
    else { r with badDigits := some f.varint }
  | 6 =>
    -- 0 unspecified, 1 HOTP, 2 TOTP
    if f.varint ≤ 2 then { r with entry := { r.entry with type := if f.varint = 1 then .HOTP else .TOTP } }
    else { r with badType := some f.varint }
  | 7 => { r with entry := { r.entry with counter := toSigned f.varint } }
  | _ => r

/-- The fields of an entry; every one takes a byte at least. -/
def readParameters : Nat → Bytes → EntryReading → Option EntryReading
  | _, [], r => some r
  | 0, _ :: _, _ => none
  | fuel + 1, input@(_ :: _), r =>
    match pbReadField input with
    | none => none
    | some (f, rest) => readParameters fuel rest (readParameter coding r f)

/-- An entry that was read, or why it is skipped. -/
def finishEntry (r : EntryReading) : Except Text Entry :=
  let entry := if r.entry.name = [] then { r.entry with name := r.entry.issuer } else r.entry
  if !r.haveSecret then .error (otpNoSecret entry)
  else
    match r.badAlgorithm, r.badDigits, r.badType with
    | some value, _, _ => .error (otpBadAlgorithm entry (if value = 4 then "MD5".toList else natText value))
    | none, some value, _ => .error (otpBadDigitCount entry (natText value))
    | none, none, some value => .error (otpBadType entry (natText value))
    | none, none, none => .ok entry

/-- The entries of a payload and the lines about those that are skipped. -/
def readPayload : Nat → Bytes → List Entry → List Text → Option (List Entry × List Text)
  | _, [], entries, skipped => some (entries, skipped)
  | 0, _ :: _, _, _ => none
  | fuel + 1, input@(_ :: _), entries, skipped =>
    match pbReadField input with
    | none => none
    | some (f, rest) =>
      if f.field ≠ 1 ∨ f.wireType ≠ 2 then readPayload fuel rest entries skipped
      else
        match readParameters coding f.bytes.length f.bytes {} with
        | none => none
        | some r =>
          match finishEntry r with
          | .error line => readPayload fuel rest entries (skipped ++ [line])
          | .ok entry => readPayload fuel rest (entries ++ [entry]) skipped

/-- The entries of a link, if there are any, and the problems. -/
def ParseFromMigrationLink (link : Text) : Option (List Entry) × List Text :=
  match coding.fromLink link with
  | none => (none, [])
  | some payload =>
    match readPayload coding payload.length payload [] [] with
    | none => (none, [])
    | some (entries, skipped) => (if entries = [] then none else some entries, skipped)

end Link

end Throne.Global.OTP
