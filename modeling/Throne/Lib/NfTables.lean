import Throne.Lib.BitBytes
import Throne.Lib.Texts

/-!
# Packet filters as lists of expressions

The language of nf_tables, as far as a filter of single packets uses it: a rule is a list of expressions over
registers, which load bytes of a packet, compare them and look them up, and end in a verdict. A load of what a packet
does not have, and a test that does not hold, end the rule without one. The first verdict of a chain's rules is the
chain's, or else its policy.

`Matches` and `Decides` are what holds of the expressions in front of a verdict and of a whole rule, `Segment` what a
part of a chain does to the packets that come to it. They compose (`Matches.append`, `Segment.append`), whatever the
registers held before.
-/

namespace Throne.Lib.NfTables

open Lib.Texts Lib.BitBytes

abbrev Bytes := List UInt8

/-! ## Packets -/

/-- The room for the name of an interface, its closing zero included. -/
def IFNAMSIZ : Nat := 16

/-- The name of an interface. -/
structure IfName where
  bytes : Bytes
  set : bytes ≠ []
  short : bytes.length < IFNAMSIZ
  plain : 0 ∉ bytes

/-- The flow a packet belongs to. -/
structure Conntrack where
  direction : UInt8
  labels : Bytes
  length_labels : labels.length = 16

/-- `network` and `transport` are the bytes from the header on. -/
structure Packet where
  nfproto : UInt8
  l4proto : Option UInt8
  iif : Option IfName
  oif : Option IfName
  skgid : Option UInt32
  ct : Option Conntrack
  network : Bytes
  transport : Option Bytes

/-- The order of a number's bytes in memory. -/
inductive ByteOrder where
  | little
  | big

def ByteOrder.putUint32 (order : ByteOrder) (n : UInt32) : Bytes :=
  match order with
  | .little => (bytesOf 4 n.toNat).reverse
  | .big => bytesOf 4 n.toNat

/-! ## Expressions -/

/-- The properties of a packet outside of its headers. -/
inductive MetaKey where
  | NFPROTO
  | L4PROTO
  | IIFNAME
  | OIFNAME
  | SKGID

/-- The properties of a packet's flow. -/
inductive CtKey where
  | DIRECTION
  | LABELS

/-- The header an offset counts from. -/
inductive PayloadBase where
  | NetworkHeader
  | TransportHeader

inductive CmpOp where
  | Eq
  | Neq

inductive VerdictKind where
  | Accept
  | Drop
  deriving DecidableEq

/-- The expressions of a rule; a register is a row of bytes. -/
inductive Expr where
  | Meta (key : MetaKey) (register : Nat)
  | Ct (key : CtKey) (register : Nat) (sourceRegister : Bool)
  | Payload (base : PayloadBase) (offset len destRegister : Nat)
  | Cmp (op : CmpOp) (register : Nat) (data : Bytes)
  | Range (op : CmpOp) (register : Nat) (fromData toData : Bytes)
  | Bitwise (sourceRegister destRegister len : Nat) (mask xor : Bytes)
  | Lookup (sourceRegister : Nat) (setName : Text) (setID : Nat)
  | Immediate (register : Nat) (data : Bytes)
  | Verdict (kind : VerdictKind)

/-- An element of a set, or the end of the interval in front of it. -/
structure SetElement where
  key : Bytes
  intervalEnd : Bool := false

/-- A set without its elements. -/
structure NftSet where
  id : Nat
  name : Text
  keyLen : Nat
  interval : Bool

/-- An element of an interval set opens at its key, up to the next one that ends. -/
def intervalContains (elems : List SetElement) (key : Bytes) : Bool :=
  elems.any fun start => !start.intervalEnd && decide (start.key.length = key.length) && decide (valueOf start.key ≤ valueOf key) &&
      elems.all fun e => !e.intervalEnd || decide (e.key.length ≠ key.length) ||
        decide (valueOf key < valueOf e.key) || decide (valueOf e.key ≤ valueOf start.key)

/-- A set of intervals holds what lies in one, any other set its keys. -/
def NftSet.contains (set : NftSet) (elems : List SetElement) (key : Bytes) : Bool :=
  if set.interval then intervalContains elems key else elems.any fun e => e.key == key

/-- Where rules run: the order of bytes, and the sets with their elements. -/
structure Machine where
  order : ByteOrder
  sets : List (NftSet × List SetElement)

/-! ## Evaluation -/

/-- The registers, and the packet with what rules have written to it. -/
structure State where
  regs : Nat → Bytes
  packet : Packet

/-- An expression goes on, ends its rule, or ends the chain with a verdict. -/
inductive Outcome where
  | next (s : State)
  | fails (s : State)
  | verdict (kind : VerdictKind) (s : State)

/-- The name of an interface as a register holds it. -/
def paddedName (name : Option IfName) : Bytes :=
  match name with
  | none => List.replicate IFNAMSIZ 0
  | some name => name.bytes ++ List.replicate (IFNAMSIZ - name.bytes.length) 0

/-- What a packet has of a property, if anything. -/
def loadMeta (order : ByteOrder) (p : Packet) : MetaKey → Option Bytes
  | .NFPROTO => some [p.nfproto]
  | .L4PROTO => p.l4proto.map fun proto => [proto]
  | .IIFNAME => some (paddedName p.iif)
  | .OIFNAME => some (paddedName p.oif)
  | .SKGID => p.skgid.map order.putUint32

def loadCt (p : Packet) : CtKey → Option Bytes
  | .DIRECTION => p.ct.map fun ct => [ct.direction]
  | .LABELS => p.ct.map fun ct => ct.labels

/-- The bytes from an offset on, when they are all there. -/
def sliceAt (bytes : Bytes) (offset len : Nat) : Option Bytes :=
  if offset + len ≤ bytes.length then some ((bytes.drop offset).take len) else none

/-- The bytes of a header from an offset on. -/
def loadPayload (p : Packet) (base : PayloadBase) (offset len : Nat) : Option Bytes :=
  match base with
  | .NetworkHeader => sliceAt p.network offset len
  | .TransportHeader => p.transport.bind fun bytes => sliceAt bytes offset len

/-- The labels of a flow are set, none is cleared. -/
def Conntrack.setLabels (ct : Conntrack) (data : Bytes) : Conntrack where
  direction := ct.direction
  labels := (List.range 16).map fun i => ct.labels.getD i 0 ||| data.getD i 0
  length_labels := by rw [List.length_map, List.length_range]

/-- A short value leaves the bytes behind it as they are. -/
def writeReg (regs : Nat → Bytes) (register : Nat) (data : Bytes) : Nat → Bytes :=
  fun i => if i = register then data ++ (regs i).drop data.length else regs i

/-- What is not there ends the rule. -/
def State.load (s : State) (register : Nat) (data : Option Bytes) : Outcome :=
  match data with
  | none => .fails s
  | some data => .next { s with regs := writeReg s.regs register data }

/-- A test that does not hold ends the rule. -/
def State.test (s : State) (holds : Bool) : Outcome := if holds then .next s else .fails s

def CmpOp.apply (op : CmpOp) (equal : Bool) : Bool :=
  match op with
  | .Eq => equal
  | .Neq => !equal

/-- One expression. -/
def evalExpr (m : Machine) (s : State) : Expr → Outcome
  | .Meta key register => s.load register (loadMeta m.order s.packet key)
  | .Ct key register false => s.load register (loadCt s.packet key)
  | .Ct .LABELS register true =>
    .next { s with packet := { s.packet with ct := s.packet.ct.map fun ct => ct.setLabels (s.regs register) } }
  | .Ct .DIRECTION _ true => .fails s
  | .Payload base offset len destRegister => s.load destRegister (loadPayload s.packet base offset len)
  | .Cmp op register data => s.test (op.apply ((s.regs register).take data.length == data))
  | .Range op register fromData toData =>
    let value := valueOf ((s.regs register).take fromData.length)
    s.test (op.apply (decide (valueOf fromData ≤ value) && decide (value ≤ valueOf toData)))
  | .Bitwise sourceRegister destRegister len mask xor =>
    let masked := List.zipWith (· &&& ·) ((s.regs sourceRegister).take len) mask
    .next { s with regs := writeReg s.regs destRegister (List.zipWith (· ^^^ ·) masked xor) }
  | .Lookup sourceRegister setName setID =>
    match m.sets.find? fun set => set.1.id == setID && set.1.name == setName with
    | none => .fails s
    | some (set, elems) => s.test (set.contains elems ((s.regs sourceRegister).take set.keyLen))
  | .Immediate register data => .next { s with regs := writeReg s.regs register data }
  | .Verdict kind => .verdict kind s

/-- A rule, up to the first expression that does not go on. -/
def evalRule (m : Machine) : List Expr → State → Outcome
  | [], s => .next s
  | e :: es, s =>
    match evalExpr m s e with
    | .next s => evalRule m es s
    | outcome => outcome

/-- The first verdict, or the policy. -/
def evalChain (m : Machine) (policy : VerdictKind) : List (List Expr) → State → VerdictKind
  | [], _ => policy
  | rule :: rules, s =>
    match evalRule m rule s with
    | .verdict kind _ => kind
    | .next s | .fails s => evalChain m policy rules s

/-! ## Rules for rules -/

section Rules

variable {m : Machine} {es fs : List Expr} {P Q : Packet → Prop}

/-- The expressions go on for exactly the packets with `P`, and leave the packet as it is. -/
def Matches (m : Machine) (es : List Expr) (P : Packet → Prop) : Prop :=
  ∀ s : State, (P s.packet → ∃ regs, evalRule m es s = .next ⟨regs, s.packet⟩) ∧ (¬P s.packet → ∃ regs, evalRule m es s = .fails ⟨regs, s.packet⟩)

/-- The rule has its verdict for exactly the packets with `P`. -/
def Decides (m : Machine) (rule : List Expr) (P : Packet → Prop) (kind : VerdictKind) : Prop :=
  ∀ s : State, (P s.packet → ∃ s', evalRule m rule s = .verdict kind s') ∧ (¬P s.packet → ∃ regs, evalRule m rule s = .fails ⟨regs, s.packet⟩)

/-- Expressions one behind the other run one behind the other. -/
theorem evalRule_append (es fs : List Expr) (s : State) : evalRule m (es ++ fs) s = match evalRule m es s with
      | .next s => evalRule m fs s
      | outcome => outcome := by
  induction es generalizing s with
  | nil => rfl
  | cons e es ih =>
    rw [List.cons_append, evalRule, evalRule]
    cases evalExpr m s e with
    | next s => exact ih s
    | fails s | verdict kind s => rfl

theorem matches_nil : Matches m [] fun _ => True :=
  fun s => ⟨fun _ => ⟨s.regs, rfl⟩, fun h => absurd trivial h⟩

/-- Two matches ask for both. -/
theorem Matches.append (h : Matches m es P) (h' : Matches m fs Q) : Matches m (es ++ fs) fun p => P p ∧ Q p := by
  intro s
  rw [evalRule_append]
  by_cases hP : P s.packet
  · obtain ⟨regs, heq⟩ := (h s).1 hP
    rw [heq]
    exact ⟨fun hboth => (h' ⟨regs, s.packet⟩).1 hboth.2, fun hno => (h' ⟨regs, s.packet⟩).2 fun hQ => hno ⟨hP, hQ⟩⟩
  · obtain ⟨regs, heq⟩ := (h s).2 hP
    rw [heq]
    exact ⟨fun hboth => absurd hboth.1 hP, fun _ => ⟨regs, rfl⟩⟩

theorem Matches.congr (h : Matches m es P) (hPQ : ∀ p, P p ↔ Q p) : Matches m es Q :=
  fun s => ⟨fun hQ => (h s).1 ((hPQ s.packet).2 hQ), fun hno => (h s).2 fun hP => hno ((hPQ s.packet).1 hP)⟩

/-- Matches one behind the other. -/
theorem matches_flatten {found : List (List Expr)} {Ps : List (Packet → Prop)}
    (h : List.Forall₂ (Matches m) found Ps) : Matches m found.flatten fun p => ∀ P ∈ Ps, P p := by
  induction h with
  | nil => exact matches_nil.congr fun p => ⟨fun _ _ hP => (nomatch hP), fun _ => trivial⟩
  | cons hP hPs ih =>
    rw [List.flatten_cons]
    exact (hP.append ih).congr fun q => (List.forall_mem_cons (p := fun P : Packet → Prop => P q)).symm

/-- Expressions that always go on, in front of the verdict. -/
def Runs (m : Machine) (es : List Expr) : Prop := ∀ s, ∃ s', evalRule m es s = .next s'

/-- Matches, expressions that always go on, and a verdict make a rule. -/
theorem Matches.decides (h : Matches m es P) (hruns : Runs m fs) (kind : VerdictKind) : Decides m (es ++ fs ++ [.Verdict kind]) P kind := by
  intro s
  rw [List.append_assoc, evalRule_append]
  constructor
  · intro hP
    obtain ⟨regs, heq⟩ := (h s).1 hP
    obtain ⟨s', hnext⟩ := hruns ⟨regs, s.packet⟩
    refine ⟨s', ?_⟩
    rw [heq]
    show evalRule m (fs ++ [.Verdict kind]) ⟨regs, s.packet⟩ = _
    rw [evalRule_append, hnext]
    rfl
  · intro hno
    obtain ⟨regs, heq⟩ := (h s).2 hno
    exact ⟨regs, by rw [heq]⟩

/-- A rule of matches alone, and of what they come to. -/
theorem decides_flatten {found : List (List Expr)} {Ps : List (Packet → Prop)}
    (h : List.Forall₂ (Matches m) found Ps) (hP : ∀ p, (∀ Q ∈ Ps, Q p) ↔ P p) (kind : VerdictKind) :
    Decides m (found.flatten ++ [.Verdict kind]) P kind := by
  have hdecides : Decides m (found.flatten ++ [] ++ [.Verdict kind]) P kind :=
    ((matches_flatten h).congr hP).decides (fun s => ⟨s, rfl⟩) kind
  rwa [List.append_nil] at hdecides

/-! ### A load and a test of what it loaded -/

/-- The expression loads what `L` gives into a register. -/
def Loads (m : Machine) (e : Expr) (register : Nat) (L : Packet → Option Bytes) : Prop :=
  ∀ s : State, evalExpr m s e = s.load register (L s.packet)

/-- The expressions test the first bytes of a register. -/
def Tests (m : Machine) (es : List Expr) (register len : Nat) (T : Bytes → Prop) : Prop :=
  ∀ (s : State) (bytes rest : Bytes), s.regs register = bytes ++ rest → bytes.length = len →
    (T bytes → ∃ regs, evalRule m es s = .next ⟨regs, s.packet⟩) ∧
    (¬T bytes → ∃ regs, evalRule m es s = .fails ⟨regs, s.packet⟩)

/-- A load of a property loads it, or ends the rule. -/
theorem loads_meta (key : MetaKey) (register : Nat) : Loads m (.Meta key register) register fun p => loadMeta m.order p key := fun _ => rfl

theorem loads_ct (key : CtKey) (register : Nat) : Loads m (.Ct key register false) register fun p => loadCt p key := by
  intro s
  cases key <;> rfl

theorem loads_payload (base : PayloadBase) (offset len register : Nat) :
    Loads m (.Payload base offset len register) register fun p => loadPayload p base offset len := fun _ => rfl

theorem writeReg_self (regs : Nat → Bytes) (register : Nat) (data : Bytes) :
    ∃ rest, writeReg regs register data register = data ++ rest := ⟨_, if_pos rfl⟩

/-- A load and a test of what it loaded match the packets whose bytes pass. -/
theorem Loads.tests {e : Expr} {register len : Nat} {L : Packet → Option Bytes} {T : Bytes → Prop}
    (h : Loads m e register L) (hlen : ∀ p bytes, L p = some bytes → bytes.length = len)
    (htests : Tests m es register len T) : Matches m (e :: es) fun p => ∃ bytes, L p = some bytes ∧ T bytes := by
  intro s
  rw [evalRule, h s]
  cases hload : L s.packet with
  | none =>
    refine ⟨?_, fun _ => ⟨s.regs, rfl⟩⟩
    rintro ⟨bytes, hbytes, -⟩
    exact nomatch hload.symm.trans hbytes
  | some bytes =>
    obtain ⟨rest, hrest⟩ := writeReg_self s.regs register bytes
    have htest := htests ⟨writeReg s.regs register bytes, s.packet⟩ bytes rest hrest (hlen s.packet bytes hload)
    constructor
    · rintro ⟨data, hdata, hT⟩
      obtain rfl := Option.some.inj (hload.symm.trans hdata)
      exact htest.1 hT
    · exact fun hno => htest.2 fun hT => hno ⟨bytes, hload, hT⟩

theorem test_cases (s : State) {holds : Bool} {T : Prop} (h : holds = true ↔ T) :
    (T → ∃ regs, s.test holds = .next ⟨regs, s.packet⟩) ∧ (¬T → ∃ regs, s.test holds = .fails ⟨regs, s.packet⟩) := by
  constructor
  · exact fun hT => ⟨s.regs, if_pos (h.2 hT)⟩
  · exact fun hno => ⟨s.regs, if_neg (mt h.1 hno)⟩

theorem evalRule_single (e : Expr) (s : State) : evalRule m [e] s = evalExpr m s e := by
  rw [evalRule]
  cases evalExpr m s e <;> rfl

theorem take_front {bytes rest : Bytes} {n : Nat} (h : n ≤ bytes.length) : (bytes ++ rest).take n = bytes.take n := by
  rw [List.take_append_of_le_length h]

theorem tests_cmp (register len : Nat) (data : Bytes) (h : data.length ≤ len) :
    Tests m [.Cmp .Eq register data] register len fun bytes => bytes.take data.length = data := by
  intro s bytes rest hreg hlen
  rw [evalRule_single]
  refine test_cases s ?_
  rw [hreg, take_front (hlen ▸ h)]
  exact beq_iff_eq

theorem tests_neq (register len : Nat) (data : Bytes) (h : data.length ≤ len) :
    Tests m [.Cmp .Neq register data] register len fun bytes => bytes.take data.length ≠ data := by
  intro s bytes rest hreg hlen
  rw [evalRule_single]
  refine test_cases s ?_
  rw [hreg, take_front (hlen ▸ h)]
  exact bne_iff_ne

theorem tests_range (register len : Nat) (fromData toData : Bytes) (h : fromData.length ≤ len) :
    Tests m [.Range .Eq register fromData toData] register len fun bytes =>
      valueOf fromData ≤ valueOf (bytes.take fromData.length) ∧ valueOf (bytes.take fromData.length) ≤ valueOf toData := by
  intro s bytes rest hreg hlen
  rw [evalRule_single]
  refine test_cases s ?_
  rw [hreg, take_front (hlen ▸ h), CmpOp.apply, Bool.and_eq_true, decide_eq_true_eq, decide_eq_true_eq]

theorem tests_lookup {set : NftSet} {elems : List SetElement} (register len : Nat)
    (hfind : (m.sets.find? fun other => other.1.id == set.id && other.1.name == set.name) = some (set, elems))
    (h : set.keyLen ≤ len) :
    Tests m [.Lookup register set.name set.id] register len fun bytes =>
      set.contains elems (bytes.take set.keyLen) = true := by
  intro s bytes rest hreg hlen
  rw [evalRule_single, evalExpr, hfind]
  refine test_cases s ?_
  rw [hreg, take_front (hlen ▸ h)]

/-- Some bits of a register, and the test of what is left. -/
theorem Tests.masked {register len : Nat} {mask : Bytes} {T : Bytes → Prop} (h : Tests m es register len T) (hmask : mask.length = len) :
    Tests m (.Bitwise register register len mask (List.replicate len 0) :: es) register len fun bytes =>
      T (List.zipWith (· &&& ·) bytes mask) := by
  intro s bytes rest hreg hlen
  have hmasked : List.zipWith (· ^^^ ·) (List.zipWith (· &&& ·) bytes mask) (List.replicate len (0 : UInt8)) = List.zipWith (· &&& ·) bytes mask := by
    refine List.ext_getElem (by simp [hlen, hmask]) fun i hi hi' => ?_
    simp
  rw [evalRule, evalExpr]
  simp only [hreg]
  rw [take_front (Nat.le_of_eq hlen.symm), ← hlen, List.take_length, hlen, hmasked]
  obtain ⟨rest', hrest⟩ := writeReg_self s.regs register (List.zipWith (· &&& ·) bytes mask)
  exact h _ _ rest' hrest (by simp [hlen, hmask])

end Rules

/-! ## Rules for chains -/

section Chains

variable {m : Machine} {rule : List Expr} {rules more : List (List Expr)} {P Q : Packet → Prop}

/-- The chain accepts exactly the packets with `P`, and drops the others. -/
def Admits (m : Machine) (rules : List (List Expr)) (P : Packet → Prop) : Prop := ∀ s : State, evalChain m .Drop rules s = .Accept ↔ P s.packet

/-- In front of rules that admit the packets with `Q`, these make it `f p (Q p)`. -/
def Segment (m : Machine) (rules : List (List Expr)) (f : Packet → Prop → Prop) : Prop :=
  ∀ (rest : List (List Expr)) (Q : Packet → Prop), Admits m rest Q → Admits m (rules ++ rest) fun p => f p (Q p)

theorem segment_nil : Segment m [] fun _ q => q := fun _ _ h => h

/-- Parts of a chain compose from the last one on. -/
theorem Segment.append {f g : Packet → Prop → Prop} (h : Segment m rules f) (h' : Segment m more g) :
    Segment m (rules ++ more) fun p q => f p (g p q) := by
  intro rest Q hrest
  rw [List.append_assoc]
  exact h (more ++ rest) _ (h' rest Q hrest)

theorem Segment.congr {f g : Packet → Prop → Prop} (h : Segment m rules f) (hfg : ∀ p q, f p q ↔ g p q) : Segment m rules g :=
  fun rest Q hrest s => (h rest Q hrest s).trans (hfg _ _)

/-- A rule that accepts lets its packets through, the others come to what follows. -/
theorem segment_accept (h : Decides m rule P .Accept) : Segment m [rule] fun p q => P p ∨ q := by
  intro rest Q hrest s
  show evalChain m .Drop (rule :: rest) s = .Accept ↔ _
  rw [evalChain]
  by_cases hP : P s.packet
  · obtain ⟨s', heq⟩ := (h s).1 hP
    rw [heq]
    exact ⟨fun _ => .inl hP, fun _ => rfl⟩
  · obtain ⟨regs, heq⟩ := (h s).2 hP
    rw [heq]
    exact (hrest ⟨regs, s.packet⟩).trans (or_iff_right hP).symm

theorem segment_drop (h : Decides m rule P .Drop) : Segment m [rule] fun p q => ¬P p ∧ q := by
  intro rest Q hrest s
  show evalChain m .Drop (rule :: rest) s = .Accept ↔ _
  rw [evalChain]
  by_cases hP : P s.packet
  · obtain ⟨s', heq⟩ := (h s).1 hP
    rw [heq]
    exact ⟨(nomatch ·), fun hboth => absurd hP hboth.1⟩
  · obtain ⟨regs, heq⟩ := (h s).2 hP
    rw [heq]
    exact (hrest ⟨regs, s.packet⟩).trans (and_iff_right hP).symm

/-- A whole chain drops what none of its rules accepts. -/
theorem Segment.admits {f : Packet → Prop → Prop} (h : Segment m rules f) : Admits m rules fun p => f p False := by
  have hnil : Admits m [] fun _ => False := fun s => ⟨(nomatch ·), False.elim⟩
  have hwhole := h [] _ hnil
  rwa [List.append_nil] at hwhole

end Chains

end Throne.Lib.NfTables
