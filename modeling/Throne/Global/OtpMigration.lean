import Throne.Global.OtpBase32

/-!
# The migration link

`ExportToMigrationLink` writes a message by hand, `ParseFromMigrationLink` reads one. What is written is read:
varints (`read_varint`), fields (`read_field`), messages of fields (`read_parameters`) and the whole payload
(`parse_export`). The format has two lengths of codes only, six and eight. An export keeps the codes of its
entries just when no entry has another one (`export_keeps_iff`).
-/

namespace Throne.Global.OTP

open Lib.Texts Database.Routes List

/-! ## Varints -/

theorem low_seven (value : Nat) : value &&& 0x7f = value % 128 := Nat.and_two_pow_sub_one_eq_mod value 7

/-- A byte of seven bits, the last one of a varint or not. -/
theorem varint_byte {low : Nat} (h : low < 128) : ((UInt8.ofNat low).toNat &&& 0x7f = low ∧ (UInt8.ofNat low).toNat &&& 0x80 = 0) ∧
    (UInt8.ofNat (low ||| 0x80)).toNat &&& 0x7f = low ∧ (UInt8.ofNat (low ||| 0x80)).toNat &&& 0x80 ≠ 0 := by
  have hall : ∀ low < 128, ((UInt8.ofNat low).toNat &&& 0x7f = low ∧ (UInt8.ofNat low).toNat &&& 0x80 = 0) ∧
        (UInt8.ofNat (low ||| 0x80)).toNat &&& 0x7f = low ∧ (UInt8.ofNat (low ||| 0x80)).toNat &&& 0x80 ≠ 0 := by
    decide
  exact hall low h

/-- Seven bits more at the place of a shift. -/
theorem varint_step {read shift low : Nat} (hread : read < 2 ^ shift) (hfit : low * 2 ^ shift < 2 ^ 64) :
    read ||| low <<< shift % 2 ^ 64 = read + low * 2 ^ shift := by
  rw [Nat.shiftLeft_eq, Nat.mod_eq_of_lt hfit, ← Nat.shiftLeft_eq, Nat.or_comm, ← Nat.shiftLeft_add_eq_or_of_lt hread, Nat.add_comm, Nat.shiftLeft_eq]

/-- The reader in the middle of a varint: what is written of the rest is added at its place. -/
theorem readVarintFrom_written (fuel value read shift : Nat) (rest : Bytes) (hread : read < 2 ^ shift)
    (hfit : value * 2 ^ shift < 2 ^ 64) (hfuel : 64 ≤ shift + 7 * fuel) (hshift : shift < 64) :
    readVarintFrom read shift (varintBytes fuel value ++ rest) = some (read + value * 2 ^ shift, rest) := by
  induction fuel generalizing value read shift with
  | zero => omega
  | succ fuel ih =>
    have hlow : value % 128 < 128 := Nat.mod_lt value (by decide)
    obtain ⟨⟨hlast, hend⟩, hmore, hgoes⟩ := varint_byte hlow
    have hsplit : value % 128 + value >>> 7 * 128 = value := by
      rw [Nat.shiftRight_eq_div_pow]
      exact Nat.mod_add_div' value 128
    have hstep : read ||| (value % 128) <<< shift % 2 ^ 64 = read + value % 128 * 2 ^ shift :=
      varint_step hread (Nat.lt_of_le_of_lt (Nat.mul_le_mul_right _ (Nat.mod_le value 128)) hfit)
    rw [varintBytes, low_seven]
    split
    · next hhigh =>
      -- another byte follows, so the value has eight bits at least
      have hone : 1 ≤ value >>> 7 := Nat.one_le_iff_ne_zero.2 hhigh
      have hlarge : 2 ^ (shift + 7) ≤ value * 2 ^ shift := by
        rw [Nat.pow_add, Nat.mul_comm]
        exact Nat.mul_le_mul_right _ (by omega)
      have hnext : shift + 7 < 64 := (Nat.pow_lt_pow_iff_right (by decide)).1 (Nat.lt_of_le_of_lt hlarge hfit)
      have hplace : value >>> 7 * 2 ^ (shift + 7) = value >>> 7 * 128 * 2 ^ shift := by
        rw [Nat.pow_add, Nat.mul_comm (2 ^ shift), Nat.mul_assoc]
      have hwhole : value % 128 * 2 ^ shift + value >>> 7 * 2 ^ (shift + 7) = value * 2 ^ shift := by
        rw [hplace, ← Nat.add_mul, hsplit]
      have hsum : read + value % 128 * 2 ^ shift < 2 ^ (shift + 7) := by
        have hparts : value % 128 * 2 ^ shift ≤ 127 * 2 ^ shift := Nat.mul_le_mul_right _ (by omega)
        rw [Nat.pow_add]
        omega
      rw [cons_append, readVarintFrom, hmore, hstep, if_neg hgoes, if_neg (by omega), ih _ _ _ hsum (by omega) (by omega) hnext, Nat.add_assoc, hwhole]
    · next hnone =>
      have hsmall : value >>> 7 = 0 := not_not.1 hnone
      rw [hsmall, Nat.zero_mul, Nat.add_zero] at hsplit
      rw [cons_append, nil_append, readVarintFrom, hlast, hstep, if_pos hend, hsplit]

theorem read_varint {value : Nat} (h : value < 2 ^ 64) (rest : Bytes) : pbReadVarint (pbWriteVarint value ++ rest) = some (value, rest) := by
  have hwritten := readVarintFrom_written 10 value 0 0 rest (by decide) (by omega) (by decide) (by decide)
  rw [Nat.zero_add, Nat.pow_zero, Nat.mul_one] at hwritten
  exact hwritten

theorem pbWriteVarint_ne_nil (value : Nat) : pbWriteVarint value ≠ [] := by
  rw [pbWriteVarint, varintBytes]
  split <;> exact cons_ne_nil _ _

/-! ## Fields -/

/-- A field as it is written: a number, or else bytes. -/
def writeField (f : PbField) : Bytes :=
  if f.wireType = 0 then pbWriteUint f.field f.varint else pbWriteBytes f.field f.bytes

/-- A field the writer makes: a number of 64 bits, or bytes of a length of 64 bits. -/
def Written (f : PbField) : Prop :=
  f.field < 2 ^ 32 ∧ (f.wireType = 0 ∧ f.varint < 2 ^ 64 ∧ f.bytes = [] ∨ f.wireType = 2 ∧ f.varint = 0 ∧ f.bytes.length < 2 ^ 64)

theorem written_number {field varint : Nat} (hfield : field < 2 ^ 32) (h : varint < 2 ^ 64) :
    Written ⟨field, 0, varint, []⟩ := ⟨hfield, .inl ⟨rfl, h, rfl⟩⟩

theorem written_bytes {field : Nat} {bytes : Bytes} (hfield : field < 2 ^ 32) (h : bytes.length < 2 ^ 64) :
    Written ⟨field, 2, 0, bytes⟩ := ⟨hfield, .inr ⟨rfl, rfl, h⟩⟩

theorem read_tag {field wireType : Nat} (hfield : field < 2 ^ 32) (hwire : wireType < 2 ^ 3) (rest : Bytes) :
    pbReadVarint (pbWriteTag field wireType ++ rest) = some (field <<< 3 ||| wireType, rest) ∧
    (field <<< 3 ||| wireType) >>> 3 % 2 ^ 32 = field ∧ (field <<< 3 ||| wireType) &&& 0x07 = wireType := by
  have htag : field <<< 3 ||| wireType = 8 * field + wireType := by
    rw [← Nat.shiftLeft_add_eq_or_of_lt hwire, Nat.shiftLeft_eq, Nat.mul_comm]
  refine ⟨read_varint (by omega) rest, ?_, ?_⟩
  · rw [htag, Nat.shiftRight_eq_div_pow]
    omega
  · rw [htag, show (0x07 : Nat) = 2 ^ 3 - 1 from rfl, Nat.and_two_pow_sub_one_eq_mod]
    omega

theorem read_field {f : PbField} (h : Written f) (rest : Bytes) : pbReadField (writeField f ++ rest) = some (f, rest) := by
  obtain ⟨field, wireType, varint, bytes⟩ := f
  obtain ⟨hfield, ⟨hwire, hvarint, hnone⟩ | ⟨hwire, hvarint, hlength⟩⟩ := h
  · obtain rfl : wireType = 0 := hwire
    obtain rfl : bytes = [] := hnone
    obtain ⟨htag, hnumber, hkind⟩ := read_tag hfield (by decide : 0 < 2 ^ 3) (pbWriteVarint varint ++ rest)
    rw [writeField, if_pos rfl, pbWriteUint, append_assoc, pbReadField, htag]
    simp only
    rw [hnumber, hkind]
    simp only
    rw [read_varint hvarint]
    rfl
  · obtain rfl : wireType = 2 := hwire
    obtain rfl : varint = 0 := hvarint
    obtain ⟨htag, hnumber, hkind⟩ :=
      read_tag hfield (by decide : 2 < 2 ^ 3) (pbWriteVarint bytes.length ++ (bytes ++ rest))
    rw [writeField, if_neg (Nat.succ_ne_zero 1), pbWriteBytes, append_assoc, append_assoc, pbReadField, htag]
    simp only
    rw [hnumber, hkind]
    simp only
    rw [read_varint hlength]
    simp only
    rw [if_neg (by rw [length_append]; omega), take_left, drop_left]

theorem writeField_ne_nil (f : PbField) : writeField f ≠ [] := by
  rw [writeField]
  split
  · exact append_ne_nil_of_right_ne_nil _ (pbWriteVarint_ne_nil _)
  · rw [pbWriteBytes, append_assoc]
    exact append_ne_nil_of_left_ne_nil (pbWriteVarint_ne_nil _) _

/-! ## The parameters of an entry -/

/-- What the link is trusted with: UTF-8, base64 and the query item come back, and an empty text is no link. -/
structure Coding.RoundTrips (coding : Coding) : Prop where
  text : ∀ t, coding.fromUtf8 (coding.toUtf8 t) = t
  link : ∀ p, p ≠ [] → coding.fromLink (coding.toLink p) = some p
  none : coding.fromLink [] = none

/-- The entries of an export: valid ones with a name, with the period that the format pins, or with a counter. -/
structure Exportable (entry : Entry) : Prop where
  valid : Validate entry = []
  named : entry.name ≠ []
  period : entry.type = .TOTP → entry.period = DEFAULT_PERIOD
  counter : entry.type = .HOTP → 0 ≤ entry.counter ∧ entry.counter < 2 ^ 63

def keyOf (entry : Entry) : Bytes := (Base32Decode entry.secret).getD []

section Link

variable (coding : Coding)

def parameterFields (entry : Entry) (key : Bytes) : List PbField :=
  [⟨1, 2, 0, key⟩, ⟨2, 2, 0, coding.toUtf8 entry.name⟩] ++ (if entry.issuer ≠ [] then [⟨3, 2, 0, coding.toUtf8 entry.issuer⟩] else []) ++
    [⟨4, 0, migrationAlgorithmValue entry.algorithm, []⟩, ⟨5, 0, if entry.digits = 8 then 2 else 1, []⟩,
      ⟨6, 0, if entry.type = .HOTP then 1 else 2, []⟩] ++
    if entry.type = .HOTP then [⟨7, 0, toUnsigned entry.counter, []⟩] else []

/-- The entry that comes back. -/
def imported (entry : Entry) : Entry where
  name := entry.name
  issuer := entry.issuer
  secret := Base32Encode (keyOf entry)
  algorithm := entry.algorithm
  type := entry.type
  digits := if entry.digits = 8 then 8 else DEFAULT_DIGITS
  counter := if entry.type = .HOTP then toSigned (toUnsigned entry.counter) else 0

variable {coding}

theorem migrationParameters_eq (entry : Entry) (key : Bytes) :
    migrationParameters coding entry key = (parameterFields coding entry key).flatMap writeField := by
  rw [migrationParameters, parameterFields]
  by_cases hissuer : entry.issuer ≠ [] <;> by_cases htype : entry.type = .HOTP <;> simp [hissuer, htype, writeField]

/-- A field of a message takes its own bytes at least. -/
theorem length_of_mem {fields : List PbField} {f : PbField} (hf : f ∈ fields) (hbytes : f.wireType ≠ 0) :
    f.bytes.length ≤ (fields.flatMap writeField).length := by
  induction fields with
  | nil => cases hf
  | cons g fields ih =>
    rw [flatMap_cons, length_append]
    rcases mem_cons.1 hf with rfl | hf
    · have hown : f.bytes.length ≤ (writeField f).length := by
        rw [writeField, if_neg hbytes, pbWriteBytes, length_append]
        omega
      omega
    · have hrest := ih hf
      omega

theorem toUnsigned_lt (n : Int) : toUnsigned n < 2 ^ 64 := by
  have hnonneg := Int.emod_nonneg n (by decide : (2 : Int) ^ 64 ≠ 0)
  have hlt := Int.emod_lt_of_pos n (by decide : (0 : Int) < 2 ^ 64)
  rw [toUnsigned]
  omega

variable {entry : Entry}

theorem parameterFields_written {key : Bytes} (hsize : (migrationParameters coding entry key).length < 2 ^ 31) :
    ∀ f ∈ parameterFields coding entry key, Written f := by
  intro f hf
  have hcounter := toUnsigned_lt entry.counter
  have hlength (hbytes : f.wireType ≠ 0) : f.bytes.length < 2 ^ 64 := by
    have hle := length_of_mem hf hbytes
    rw [← migrationParameters_eq] at hle
    omega
  have halgorithm : migrationAlgorithmValue entry.algorithm < 2 ^ 64 := by
    cases entry.algorithm <;> decide
  have hdigits : (if entry.digits = 8 then 2 else 1) < 2 ^ 64 := by split <;> decide
  have htype : (if entry.type = .HOTP then 1 else 2) < 2 ^ 64 := by split <;> decide
  have hif {c : Prop} [Decidable c] {g : PbField} (h : f ∈ if c then [g] else []) : f = g := by
    split at h
    · exact mem_singleton.1 h
    · cases h
  simp only [parameterFields, mem_append, mem_cons, not_mem_nil, or_false] at hf
  rcases hf with (((rfl | rfl) | hf) | rfl | rfl | rfl) | hf
  · exact written_bytes (by decide) (hlength (Nat.succ_ne_zero 1))
  · exact written_bytes (by decide) (hlength (Nat.succ_ne_zero 1))
  · obtain rfl := hif hf
    exact written_bytes (by decide) (hlength (Nat.succ_ne_zero 1))
  · exact written_number (by decide) halgorithm
  · exact written_number (by decide) hdigits
  · exact written_number (by decide) htype
  · obtain rfl := hif hf
    exact written_number (by decide) hcounter

theorem readParameters_field {f : PbField} (h : Written f) (rest : Bytes) (fuel : Nat) (r : EntryReading) :
    readParameters coding (fuel + 1) (writeField f ++ rest) r = readParameters coding fuel rest (readParameter coding r f) := by
  have hread := read_field h rest
  have hne := append_ne_nil_of_left_ne_nil (writeField_ne_nil f) rest
  cases hinput : writeField f ++ rest with
  | nil => exact absurd hinput hne
  | cons byte more =>
    rw [hinput] at hread
    rw [readParameters, hread]

/-- A message of fields is read field by field. -/
theorem read_parameters {fields : List PbField} (h : ∀ f ∈ fields, Written f) (fuel : Nat)
    (hfuel : (fields.flatMap writeField).length ≤ fuel) (r : EntryReading) :
    readParameters coding fuel (fields.flatMap writeField) r = some (fields.foldl (readParameter coding) r) := by
  induction fields generalizing fuel r with
  | nil => rw [flatMap_nil, readParameters, foldl_nil]
  | cons f fields ih =>
    have hpos := length_pos_iff.2 (writeField_ne_nil f)
    rw [flatMap_cons, length_append] at hfuel
    obtain ⟨fuel, rfl⟩ : ∃ k, fuel = k + 1 := ⟨fuel - 1, by omega⟩
    rw [flatMap_cons, readParameters_field (h f mem_cons_self), ih (fun g hg => h g (mem_cons_of_mem f hg)) fuel (by omega), foldl_cons]

theorem parameterFields_read (hcoding : coding.RoundTrips) (entry : Entry) :
    (parameterFields coding entry (keyOf entry)).foldl (readParameter coding) {} =
    { entry := imported entry, haveSecret := !(keyOf entry).isEmpty } := by
  obtain ⟨name, issuer, secret, algorithm, type, digits, period, counter⟩ := entry
  have halgorithm : migrationAlgorithm (migrationAlgorithmValue algorithm) = some algorithm := by
    cases algorithm <;> rfl
  rw [parameterFields, imported]
  by_cases hissuer : issuer = [] <;> by_cases hdigits : digits = 8 <;> cases type <;>
    simp [readParameter, hissuer, hdigits, hcoding.text, halgorithm, DEFAULT_PERIOD]

/-! ## The payload -/

theorem Exportable.key {entry : Entry} (h : Exportable entry) : Base32Decode entry.secret = some (keyOf entry) ∧ keyOf entry ≠ [] ∧
    MIN_DIGITS ≤ entry.digits ∧ entry.digits ≤ MAX_DIGITS := by
  have hvalid := h.valid
  rw [Validate] at hvalid
  split at hvalid
  · cases hvalid
  cases hkey : Base32Decode entry.secret with
  | none =>
    rw [hkey] at hvalid
    simp only at hvalid
    cases hvalid
  | some key =>
    rw [hkey] at hvalid
    simp only at hvalid
    split at hvalid
    · cases hvalid
    next hne =>
    split at hvalid
    · cases hvalid
    next hdigits =>
    rw [keyOf, hkey]
    exact ⟨rfl, hne, by omega, by omega⟩

theorem Exportable.written (h : Exportable entry) :
    migrationEntry coding entry = writeField ⟨1, 2, 0, migrationParameters coding entry (keyOf entry)⟩ := by
  obtain ⟨hkey, hne, -⟩ := h.key
  rw [migrationEntry, hkey]
  simp only
  rw [if_neg hne]
  rfl

theorem readPayload_field {f : PbField} (h : Written f) (rest : Bytes) (fuel : Nat) (entries : List Entry) (skipped : List Text) :
    readPayload coding (fuel + 1) (writeField f ++ rest) entries skipped =
      if f.field ≠ 1 ∨ f.wireType ≠ 2 then readPayload coding fuel rest entries skipped
      else
        match readParameters coding f.bytes.length f.bytes {} with
        | none => none
        | some r =>
          match finishEntry r with
          | .error line => readPayload coding fuel rest entries (skipped ++ [line])
          | .ok entry => readPayload coding fuel rest (entries ++ [entry]) skipped := by
  have hread := read_field h rest
  have hne := append_ne_nil_of_left_ne_nil (writeField_ne_nil f) rest
  cases hinput : writeField f ++ rest with
  | nil => exact absurd hinput hne
  | cons byte more =>
    rw [hinput] at hread
    have hdef := readPayload.eq_def coding (fuel + 1) (byte :: more) entries skipped
    simp only [hread] at hdef
    exact hdef

theorem finish_imported (h : Exportable entry) :
    finishEntry { entry := imported entry, haveSecret := !(keyOf entry).isEmpty } = .ok (imported entry) := by
  obtain ⟨-, hne, -⟩ := h.key
  have hsecret : (keyOf entry).isEmpty = false := isEmpty_eq_false_iff.2 hne
  have hnamed : (imported entry).name ≠ [] := h.named
  rw [finishEntry]
  simp only [hsecret, if_neg hnamed]
  rfl

variable {entries : List Entry}

/-- The entries of a payload come back one by one. -/
theorem readPayload_entries (hcoding : coding.RoundTrips) (hexport : ∀ e ∈ entries, Exportable e)
    (hsize : (entries.flatMap (migrationEntry coding)).length < 2 ^ 31) (rest : Bytes) (fuel : Nat) (read : List Entry) :
    readPayload coding (fuel + entries.length) (entries.flatMap (migrationEntry coding) ++ rest) read [] =
    readPayload coding fuel rest (read ++ entries.map imported) [] := by
  induction entries generalizing read with
  | nil => rw [flatMap_nil, map_nil, append_nil, length_nil, Nat.add_zero, nil_append]
  | cons e entries ih =>
    have he := hexport e mem_cons_self
    rw [flatMap_cons, length_append] at hsize
    have hown : (migrationParameters coding e (keyOf e)).length < 2 ^ 31 := by
      have hlength : (migrationParameters coding e (keyOf e)).length ≤
          ([⟨1, 2, 0, migrationParameters coding e (keyOf e)⟩].flatMap writeField).length :=
        length_of_mem (f := ⟨1, 2, 0, migrationParameters coding e (keyOf e)⟩) mem_cons_self (Nat.succ_ne_zero 1)
      rw [flatMap_singleton, ← he.written] at hlength
      exact Nat.lt_of_le_of_lt hlength (by omega)
    have hparameters : readParameters coding (migrationParameters coding e (keyOf e)).length (migrationParameters coding e (keyOf e)) {} =
          some { entry := imported e, haveSecret := !(keyOf e).isEmpty } := by
      rw [migrationParameters_eq, read_parameters (parameterFields_written hown) _ (Nat.le_refl _), parameterFields_read hcoding]
    rw [flatMap_cons, he.written, append_assoc, length_cons, ← Nat.add_assoc,
      readPayload_field (written_bytes (by decide) (by omega)), if_neg (by simp)]
    simp only
    rw [hparameters]
    simp only
    rw [finish_imported he]
    simp only
    rw [ih (fun f hf => hexport f (mem_cons_of_mem e hf)) (by omega), append_assoc, map_cons, singleton_append]

theorem length_entries (hexport : ∀ e ∈ entries, Exportable e) : entries.length ≤ (entries.flatMap (migrationEntry coding)).length := by
  induction entries with
  | nil => exact Nat.le_refl _
  | cons e entries ih =>
    have hrest := ih fun f hf => hexport f (mem_cons_of_mem e hf)
    have hpos := length_pos_iff.2 (writeField_ne_nil ⟨1, 2, 0, migrationParameters coding e (keyOf e)⟩)
    rw [← (hexport e mem_cons_self).written] at hpos
    rw [flatMap_cons, length_append, length_cons]
    omega

/-- What follows the entries holds no entry. -/
theorem readPayload_tail (fuel : Nat) (read : List Entry) : readPayload coding (fuel + 3) migrationTail read [] = some (read, []) := by
  have htail : migrationTail = writeField ⟨2, 0, 1, []⟩ ++ (writeField ⟨3, 0, 1, []⟩ ++ (writeField ⟨4, 0, 0, []⟩ ++ [])) := by
    decide
  rw [htail, readPayload_field (written_number (by decide) (by decide)), if_pos (.inl (by decide)),
    readPayload_field (written_number (by decide) (by decide)), if_pos (.inl (by decide)),
    readPayload_field (written_number (by decide) (by decide)), if_pos (.inl (by decide)), readPayload]

/-- **What is exported is imported.** -/
theorem parse_export (hcoding : coding.RoundTrips) (hexport : ∀ e ∈ entries, Exportable e)
    (hsize : (migrationPayload coding entries).length < 2 ^ 31) : ParseFromMigrationLink coding (ExportToMigrationLink coding entries) =
    (if entries = [] then none else some (entries.map imported), []) := by
  cases hentries : entries with
  | nil =>
    rw [ExportToMigrationLink]
    simp only [migrationPayload, flatMap_nil, if_pos]
    rw [ParseFromMigrationLink, hcoding.none]
  | cons e more =>
    rw [← hentries]
    have hne : entries ≠ [] := by
      rw [hentries]
      exact cons_ne_nil _ _
    have hlength : entries.length ≤ (entries.flatMap (migrationEntry coding)).length := length_entries hexport
    have hbody : entries.flatMap (migrationEntry coding) ≠ [] := by
      have hpos := length_pos_iff.2 hne
      exact length_pos_iff.1 (by omega)
    have hpayload : migrationPayload coding entries = entries.flatMap (migrationEntry coding) ++ migrationTail := by
      rw [migrationPayload, if_neg hbody]
    have hsome : migrationPayload coding entries ≠ [] := by
      rw [hpayload]
      exact append_ne_nil_of_left_ne_nil hbody _
    have htail : migrationTail.length = 6 := by decide
    rw [hpayload, length_append] at hsize
    -- as many turns as bytes are enough
    obtain ⟨extra, hextra⟩ : ∃ k, (migrationPayload coding entries).length = k + 3 + entries.length := by
      refine ⟨(migrationPayload coding entries).length - 3 - entries.length, ?_⟩
      rw [hpayload, length_append]
      omega
    rw [ExportToMigrationLink, if_neg hsome, ParseFromMigrationLink, hcoding.link _ hsome]
    simp only
    rw [hextra, hpayload, readPayload_entries hcoding hexport (by omega), readPayload_tail, nil_append]
    simp only
    rw [if_neg hne, if_neg]
    exact fun hnil => hne (map_eq_nil_iff.1 hnil)

/-! ## The codes -/

theorem imported_key (h : Exportable entry) : Validate (imported entry) = [] ∧ Base32Decode (imported entry).secret = some (keyOf entry) := by
  obtain ⟨-, hne, -⟩ := h.key
  have hdecode : Base32Decode (imported entry).secret = some (keyOf entry) := decode_encode (keyOf entry)
  have hsolid : trimmed (imported entry).secret = (imported entry).secret := strip_eq_self (encode_solid _)
  have hsecret : trimmed (imported entry).secret ≠ [] := by
    rw [hsolid]
    exact encode_ne_nil hne
  have hdigits : ¬((imported entry).digits < MIN_DIGITS ∨ (imported entry).digits > MAX_DIGITS) := by
    simp only [imported]
    split <;> decide
  have hperiod : ¬((imported entry).type = .TOTP ∧ ((imported entry).period < MIN_PERIOD ∨ (imported entry).period > MAX_PERIOD)) :=
    fun hout => absurd hout.2 (show ¬((30 : Int) < MIN_PERIOD ∨ (30 : Int) > MAX_PERIOD) by decide)
  refine ⟨?_, hdecode⟩
  rw [Validate, if_neg hsecret, hdecode]
  simp only
  rw [if_neg hne, if_neg hdigits, if_neg hperiod]

/-- What the code is of: the counter, or the period of the time. -/
def movingFactor (clock : Int) (entry : Entry) (unixTime : Int) : Nat :=
  if entry.type = .HOTP then toUnsigned entry.counter
  else toUnsigned ((if unixTime < 0 then clock else unixTime).tdiv entry.period)

theorem generateCode_eq (hmac : Hmac) {key : Bytes} (hvalid : Validate entry = [])
    (hkey : Base32Decode entry.secret = some key) (clock unixTime : Int) : GenerateCode hmac clock entry unixTime =
    GenerateHOTP hmac key (movingFactor clock entry unixTime) entry.algorithm entry.digits := by
  rw [GenerateCode, if_neg (not_not.2 hvalid), hkey, movingFactor]
  simp only [Option.getD_some]
  split <;> rfl

/-- The counter of a link is a `quint64`, that of an entry a `qint64`. -/
theorem toUnsigned_toSigned {n : Int} (hlow : 0 ≤ n) (hhigh : n < 2 ^ 63) : toSigned (toUnsigned n) = n := by
  have hsame : n % 2 ^ 64 = n := Int.emod_eq_of_lt hlow (by omega)
  rw [toUnsigned, hsame, toSigned, if_pos (by omega)]
  omega

theorem movingFactor_imported (h : Exportable entry) (clock unixTime : Int) :
    movingFactor clock (imported entry) unixTime = movingFactor clock entry unixTime := by
  have htype : (imported entry).type = entry.type := rfl
  rw [movingFactor, movingFactor, htype]
  split
  · next hcounter =>
    obtain ⟨hlow, hhigh⟩ := h.counter hcounter
    have hsame : (imported entry).counter = entry.counter := by
      rw [imported]
      simp only
      rw [if_pos hcounter, toUnsigned_toSigned hlow hhigh]
    rw [hsame]
  · next htime =>
    have hperiod : (imported entry).period = entry.period := by
      have htotp : entry.type = .TOTP := by
        cases hother : entry.type with
        | TOTP => rfl
        | HOTP => exact absurd hother htime
      exact (h.period htotp).symm
    rw [hperiod]

/-- A code has as many characters as it has digits. -/
theorem length_GenerateHOTP {hmac : Hmac} (hmac20 : ∀ a message key, 20 ≤ (hmac a message key).length) {key : Bytes}
    (hkey : key ≠ []) (counter : Nat) (algorithm : Algorithm) {digits : Int} (hlow : MIN_DIGITS ≤ digits)
    (hhigh : digits ≤ MAX_DIGITS) : (GenerateHOTP hmac key counter algorithm digits).length = digits.toNat := by
  have husable : ¬(key = [] ∨ digits < MIN_DIGITS ∨ digits > MAX_DIGITS) := by
    rintro (hnil | hless | hmore)
    · exact hkey hnil
    · omega
    · omega
  have hlong := hmac20 algorithm (counterBytes 8 counter) key
  have hpos : 0 < digits.toNat := by
    rw [MIN_DIGITS] at hlow
    omega
  rw [GenerateHOTP, if_neg husable]
  simp only
  rw [if_neg (Nat.not_lt.2 hlong), padded, natText_eq]
  generalize hcode : truncated (hmac algorithm (counterBytes 8 counter) key) % 10 ^ digits.toNat = code
  have hlt : code < 10 ^ digits.toNat := by
    rw [← hcode]
    exact Nat.mod_lt _ (Nat.pow_pos (by decide))
  have hdigits : (Nat.toDigits 10 code).length ≤ digits.toNat := (Nat.length_toDigits_le_iff (by decide) hpos).2 hlt
  rw [length_append, length_replicate]
  omega

/-- What an import has to keep of an entry. -/
structure SameEntry (hmac : Hmac) (entry out : Entry) : Prop where
  name : out.name = entry.name
  issuer : out.issuer = entry.issuer
  type : out.type = entry.type
  algorithm : out.algorithm = entry.algorithm
  codes : ∀ clock unixTime, GenerateCode hmac clock out unixTime = GenerateCode hmac clock entry unixTime

theorem same_imported_iff {hmac : Hmac} (hmac20 : ∀ a message key, 20 ≤ (hmac a message key).length)
    (h : Exportable entry) : SameEntry hmac entry (imported entry) ↔ entry.digits = 6 ∨ entry.digits = 8 := by
  obtain ⟨hkey, hne, hlow, hhigh⟩ := h.key
  obtain ⟨hvalid, himported⟩ := imported_key h
  have hcode := generateCode_eq hmac h.valid hkey
  have hout := generateCode_eq hmac hvalid himported
  have halgorithm : (imported entry).algorithm = entry.algorithm := rfl
  have hdigits : (imported entry).digits = if entry.digits = 8 then 8 else 6 := rfl
  constructor
  · intro hsame
    have hlength := congrArg List.length (hsame.codes 0 0)
    rw [hcode, hout, length_GenerateHOTP hmac20 hne _ _ hlow hhigh, hdigits] at hlength
    rw [MIN_DIGITS] at hlow
    split at hlength
    · next height => exact .inr height
    · rw [length_GenerateHOTP hmac20 hne _ _ (by decide) (by decide)] at hlength
      exact .inl (by omega)
  · intro hcount
    have hsame : (imported entry).digits = entry.digits := by
      rw [hdigits]
      rcases hcount with hsix | height
      · rw [hsix]
        decide
      · rw [if_pos height, height]
    refine ⟨rfl, rfl, rfl, rfl, fun clock unixTime => ?_⟩
    rw [hcode, hout, movingFactor_imported h, halgorithm, hsame]

/-! ## The round trip -/

/-- The import gives one entry for each exported one, in the same order; other entries are left out. -/
def ExportKept (coding : Coding) (hmac : Hmac) (entries : List Entry) : Prop :=
  ∃ exported out problems, List.Sublist exported entries ∧
    ParseFromMigrationLink coding (ExportToMigrationLink coding entries) = (some out, problems) ∧ List.Forall₂ (SameEntry hmac) exported out

/-- **An export keeps its entries just when all their codes have six or eight digits.** -/
theorem export_keeps_iff (hcoding : coding.RoundTrips) {hmac : Hmac}
    (hmac20 : ∀ a message key, 20 ≤ (hmac a message key).length) {entries : List Entry}
    (hexport : ∀ e ∈ entries, Exportable e) (hsize : (migrationPayload coding entries).length < 2 ^ 31) :
    ExportKept coding hmac entries ↔ entries ≠ [] ∧ ∀ e ∈ entries, e.digits = 6 ∨ e.digits = 8 := by
  have hparse := parse_export hcoding hexport hsize
  constructor
  · rintro ⟨exported, out, problems, hsub, hout, hsame⟩
    rw [hparse] at hout
    have hne : entries ≠ [] := by
      intro hnil
      rw [if_pos hnil] at hout
      exact absurd (congrArg Prod.fst hout) (Option.some_ne_none out).symm
    rw [if_neg hne] at hout
    obtain rfl : entries.map imported = out := Option.some.inj (congrArg Prod.fst hout)
    -- as many entries come out as went in, so none was left out
    have hall : exported = entries := by
      apply hsub.eq_of_length
      rw [hsame.length_eq, length_map]
    rw [hall, List.forall₂_map_right_iff, List.forall₂_same] at hsame
    exact ⟨hne, fun e he => (same_imported_iff hmac20 (hexport e he)).1 (hsame e he)⟩
  · rintro ⟨hne, hdigits⟩
    rw [if_neg hne] at hparse
    refine ⟨entries, entries.map imported, [], List.Sublist.refl entries, hparse, ?_⟩
    rw [List.forall₂_map_right_iff, List.forall₂_same]
    exact fun e he => (same_imported_iff hmac20 (hexport e he)).2 (hdigits e he)

end Link

/-! ### Entries of each kind -/

/-- A time-based entry and a counter. -/
def mailAndKey : List Entry :=
  [{ name := "mail".toList, issuer := "Example".toList, secret := "JBSWY3DPEHPK3PXP".toList, algorithm := .SHA256 },
    { name := "key".toList, secret := "GEZD GNBV".toList, type := .HOTP, digits := 8, counter := 7 }]

def utf8 (text : Text) : Bytes := text.flatMap String.utf8EncodeChar

def ofUtf8 (bytes : Bytes) : Text :=
  match bytes.toByteArray.utf8Decode? with
  | some chars => chars.toList
  | none => []

theorem ofUtf8_utf8 (text : Text) : ofUtf8 (utf8 text) = text := by
  have hdecode := utf8Decode?_utf8Encode (l := text)
  rw [List.utf8Encode] at hdecode
  rw [ofUtf8, utf8, hdecode]

/-- The message of `mailAndKey`. -/
def mailAndKeyMessage : Bytes :=
  [10, 33, 10, 10, 72, 101, 108, 108, 111, 33, 222, 173, 190, 239, 18, 4, 109, 97, 105, 108, 26, 7, 69, 120, 97, 109,
    112, 108, 101, 32, 2, 40, 1, 48, 2, 10, 20, 10, 5, 49, 50, 51, 52, 53, 18, 3, 107, 101, 121, 32, 1, 40, 2, 48, 1,
    56, 7, 16, 1, 24, 1, 32, 0]

def mailAndKeyLink : Text :=
  "otpauth-migration://offline?data=CiEKCkhlbGxvId6tvu8SBG1haWwaB0V4YW1wbGUgAigBMAIKFAoFMTIzNDUSA2tleSABKAIwATgHEAEYASAA".toList

/-- A coding with the real link of one message; those of other messages are told apart from it. -/
def oneLink : Coding where
  toUtf8 := utf8
  fromUtf8 := ofUtf8
  toLink p := if p = mailAndKeyMessage then mailAndKeyLink else '!' :: p.map fun b => Char.ofNat b.toNat
  fromLink
    | '!' :: chars => some (chars.map fun c => UInt8.ofNat c.toNat)
    | link => if link = mailAndKeyLink then some mailAndKeyMessage else none

theorem oneLink_roundTrips : oneLink.RoundTrips := by
  refine ⟨ofUtf8_utf8, fun p _ => ?_, by decide +kernel⟩
  by_cases h : p = mailAndKeyMessage
  · rw [h]
    decide +kernel
  · have hchars : (p.map fun b => Char.ofNat b.toNat).map (fun c => UInt8.ofNat c.toNat) = p := by
      have hall : ∀ b : UInt8, UInt8.ofNat (Char.ofNat b.toNat).toNat = b := by
        intro b
        have hchar : ∀ n < 256, (Char.ofNat n).toNat = n := by decide +kernel
        rw [hchar b.toNat b.toNat_lt, UInt8.ofNat_toNat]
      rw [map_map]
      exact map_id'' hall p
    have hlink : oneLink.toLink p = '!' :: p.map fun b => Char.ofNat b.toNat := if_neg h
    rw [hlink]
    exact congrArg some hchars

def paddedMac : Hmac := fun _ message key => message ++ key ++ List.replicate 20 0

theorem paddedMac_long (a : Algorithm) (message key : Bytes) : 20 ≤ (paddedMac a message key).length := by
  rw [paddedMac, length_append, length_replicate]
  omega

theorem mailAndKey_exportable : ∀ e ∈ mailAndKey, Exportable e := by
  intro e he
  simp only [mailAndKey, mem_cons, not_mem_nil, or_false] at he
  rcases he with rfl | rfl
  · exact ⟨by decide, by decide, fun _ => rfl, fun h => absurd h (by decide)⟩
  · exact ⟨by decide, by decide, fun h => absurd h (by decide), fun _ => by decide⟩

theorem mailAndKey_kept : ExportKept oneLink paddedMac mailAndKey :=
  (export_keeps_iff oneLink_roundTrips paddedMac_long mailAndKey_exportable (by decide)).2 ⟨cons_ne_nil _ _, by decide⟩

/-- An entry of seven digits: the export says six. -/
def sevenDigits : Entry := { name := "mail".toList, secret := "JBSWY3DPEHPK3PXP".toList, digits := 7 }

theorem sevenDigits_exportable : Exportable sevenDigits :=
  ⟨by decide, by decide, fun _ => rfl, fun h => absurd h (by decide)⟩

theorem export_shortens_codes : ¬∀ (coding : Coding) (hmac : Hmac) (entries : List Entry), coding.RoundTrips →
    (∀ a message key, 20 ≤ (hmac a message key).length) → (∀ e ∈ entries, Exportable e) →
    (migrationPayload coding entries).length < 2 ^ 31 → ExportKept coding hmac entries := by
  intro hall
  have hexport : ∀ e ∈ [sevenDigits], Exportable e := by
    intro e he
    rw [mem_singleton.1 he]
    exact sevenDigits_exportable
  have hsize : (migrationPayload oneLink [sevenDigits]).length < 2 ^ 31 := by decide
  obtain ⟨exported, out, problems, hsub, hout, hsame⟩ :=
    hall oneLink paddedMac [sevenDigits] oneLink_roundTrips paddedMac_long hexport hsize
  rw [parse_export oneLink_roundTrips hexport hsize, if_neg (cons_ne_nil _ _)] at hout
  obtain rfl : [imported sevenDigits] = out := Option.some.inj (congrArg Prod.fst hout)
  have hentry : exported = [sevenDigits] := by
    apply hsub.eq_of_length
    rw [hsame.length_eq]
    rfl
  rw [hentry] at hsame
  cases hsame with
  | cons hkept _ =>
    rcases (same_imported_iff paddedMac_long sevenDigits_exportable).1 hkept with hsix | height
    · cases hsix
    · cases height

end Throne.Global.OTP
