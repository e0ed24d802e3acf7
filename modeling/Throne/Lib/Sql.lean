import Mathlib.Tactic

/-!
# Values, rows and inserts of an SQL table

What a program sees of its SQL tables: dynamically typed values with the order of their storage
classes, the aggregates and the numbering of rows it asks for, and inserts with their constraints.
A row is a function from column names. An insert fills the columns it was not given with their
defaults, gives a missing integer key the next number, and is refused when a `NOT NULL` column is
empty or a key is taken.
-/

namespace Throne.Lib.Sql

open List

/-! ## Values -/

/-- A value. Real numbers and blobs, which order with the integers and after the texts, are left
out. -/
inductive Value where
  | null
  | int (i : Int)
  | text (s : String)
  deriving DecidableEq

/-- The order of values: `NULL`, then integers, then texts. -/
def Value.le : Value → Value → Bool
  | .null, _ => true
  | .int _, .null => false
  | .int i, .int j => decide (i ≤ j)
  | .int _, .text _ => true
  | .text _, .null => false
  | .text _, .int _ => false
  | .text s, .text t => decide (s ≤ t)

theorem Value.le_refl (v : Value) : v.le v = true := by
  cases v <;> simp [Value.le]

theorem Value.le_trans {u v w : Value} (h : u.le v = true) (h' : v.le w = true) : u.le w = true := by
  cases u <;> cases v <;> cases w <;> simp_all [Value.le]
  · omega
  · exact String.le_trans h h'

theorem Value.le_total (v w : Value) : v.le w = true ∨ w.le v = true := by
  cases v <;> cases w <;> simp [Value.le]
  · omega
  · exact String.le_total _ _

/-- The larger of two values. -/
def Value.max (v w : Value) : Value := if v.le w then w else v

theorem Value.le_max_left (v w : Value) : v.le (v.max w) = true := by
  rw [Value.max]
  split
  · assumption
  · exact v.le_refl

theorem Value.le_max_right (v w : Value) : w.le (v.max w) = true := by
  rw [Value.max]
  split
  · exact w.le_refl
  next h => exact (w.le_total v).resolve_right h

/-- `NULL` or an integer. -/
def Value.Numeric (v : Value) : Prop := v = .null ∨ ∃ i, v = .int i

theorem Value.Numeric.max {v w : Value} (h : v.Numeric) (h' : w.Numeric) : (v.max w).Numeric := by
  rw [Value.max]
  split <;> assumption

theorem Value.max_int (i j : Int) : (Value.int i).max (.int j) = .int (Max.max i j) := by
  rw [Value.max, Value.le, max_def]
  by_cases h : i ≤ j <;> simp [h]

/-- The aggregate `MAX`: `NULL` over no values, since `NULL` is the least. -/
def maxOf (vs : List Value) : Value := vs.foldl Value.max .null

theorem le_foldl_max (vs : List Value) (acc : Value) : acc.le (vs.foldl Value.max acc) = true ∧ ∀ v ∈ vs, v.le (vs.foldl Value.max acc) = true := by
  induction vs generalizing acc with
  | nil => exact ⟨acc.le_refl, nofun⟩
  | cons w vs ih =>
    obtain ⟨hacc, hrest⟩ := ih (acc.max w)
    refine ⟨Value.le_trans (acc.le_max_left w) hacc, fun v hv => ?_⟩
    rcases mem_cons.1 hv with rfl | hv
    · exact Value.le_trans (acc.le_max_right v) hacc
    · exact hrest v hv

theorem le_maxOf {vs : List Value} {v : Value} (h : v ∈ vs) : v.le (maxOf vs) = true := (le_foldl_max vs .null).2 v h

/-- `COALESCE(v, 0)`. -/
def orZero : Value → Value
  | .null => .int 0
  | v => v

/-- Over integers `COALESCE(MAX(..), 0)` is an integer that none of them is above. -/
theorem orZero_maxOf (vs : List Value) (h : ∀ v ∈ vs, v.Numeric) : ∃ m, orZero (maxOf vs) = .int m ∧ ∀ i, .int i ∈ vs → i ≤ m := by
  have hnumeric : (maxOf vs).Numeric :=
    foldlRecOn vs Value.max (motive := Value.Numeric) (.inl rfl) fun _ hacc v hv => hacc.max (h v hv)
  rcases hnumeric with hnull | ⟨m, hm⟩
  · refine ⟨0, congrArg orZero hnull, fun i hi => ?_⟩
    have hle := le_maxOf hi
    rw [hnull] at hle
    cases hle
  · refine ⟨m, congrArg orZero hm, fun i hi => ?_⟩
    have hle := le_maxOf hi
    rw [hm] at hle
    exact of_decide_eq_true hle

/-! ## Rows -/

/-- A row, by the names of its columns. -/
abbrev Row := String → Value

/-- `ROW_NUMBER() OVER (PARTITION BY part ORDER BY order) - 1` written to a column: the rows of each
part, in order, under the numbers from 0 on. -/
def rowNumbered (part order : Row → Value) (column : String) (rows : List Row) : List Row :=
  (rows.map part).dedup.flatMap fun p =>
    ((rows.filter fun row => part row = p).insertionSort fun a b => (order a).le (order b)).zipIdx.map
      fun x => Function.update x.1 column (.int x.2)

theorem flatMap_only {α β : Type} [DecidableEq α] (f : α → List β) (a : α) (l : List α)
    (hl : l.Nodup) (hf : ∀ b ∈ l, b ≠ a → f b = []) : l.flatMap f = if a ∈ l then f a else [] := by
  induction l with
  | nil => rfl
  | cons b l ih =>
    rw [nodup_cons] at hl
    have hrest := ih hl.2 fun c hc => hf c (mem_cons_of_mem b hc)
    rw [flatMap_cons, hrest]
    by_cases hb : b = a
    · subst hb
      rw [if_neg hl.1, if_pos mem_cons_self, append_nil]
    · rw [hf b mem_cons_self hb, nil_append]
      have hiff : a ∈ b :: l ↔ a ∈ l := by
        rw [mem_cons]
        exact or_iff_right fun h => hb h.symm
      simp only [hiff]

/-- The rows of one part carry exactly the numbers below their count, in order. -/
theorem rowNumbered_part (part order : Row → Value) (column : String) (rows : List Row) (p : Value)
    (hpart : ∀ (row : Row) (v : Value), part (Function.update row column v) = part row) :
    ((rowNumbered part order column rows).filter fun row => part row = p).map (· column) =
    (List.range ((rowNumbered part order column rows).filter fun row => part row = p).length).map fun n => Value.int (n : Nat) := by
  -- The rows of the other parts drop out, and those of this part are all there.
  have hself : ∀ k, (((rows.filter fun row => part row = k).insertionSort fun a b =>
    (order a).le (order b)).zipIdx.map fun x => Function.update x.1 column (.int x.2)).filter (fun row => part row = p) =
    if k = p then ((rows.filter fun row => part row = k).insertionSort fun a b =>
      (order a).le (order b)).zipIdx.map fun x => Function.update x.1 column (.int x.2)
    else [] := by
    intro k
    have hk : ∀ row ∈ ((rows.filter fun row => part row = k).insertionSort fun a b =>
      (order a).le (order b)).zipIdx.map fun x => Function.update x.1 column (.int x.2),
      part row = k := by
      intro row hrow
      obtain ⟨x, hx, rfl⟩ := mem_map.1 hrow
      rw [hpart]
      have hmem := (mem_insertionSort _).1 (fst_mem_of_mem_zipIdx hx)
      simpa using (mem_filter.1 hmem).2
    split
    next heq =>
      refine filter_eq_self.2 fun row hrow => ?_
      simp [hk row hrow, heq]
    next hne =>
      refine filter_eq_nil_iff.2 fun row hrow => ?_
      simp [hk row hrow, hne]
  have hrows : ((rowNumbered part order column rows).filter fun row => part row = p) =
      if p ∈ (rows.map part).dedup then
        ((rows.filter fun row => part row = p).insertionSort fun a b => (order a).le (order b)).zipIdx.map
          fun x => Function.update x.1 column (.int x.2)
      else [] := by
    rw [rowNumbered, filter_flatMap, flatMap_only _ p _ (nodup_dedup _)]
    · split
      · rw [hself, if_pos rfl]
      · rfl
    · intro k _ hk
      rw [hself, if_neg hk]
  rw [hrows]
  split
  · generalize ((rows.filter fun row => part row = p).insertionSort fun a b =>
    (order a).le (order b)) = sorted
    rw [map_map, length_map, length_zipIdx, range_eq_range', ← zipIdx_map_snd, map_map]
    refine map_congr_left fun x _ => ?_
    simp
  · rfl

/-! ## Numbers as text -/

/-- A text of decimal digits. -/
def parseNat (cs : List Char) : Option Nat :=
  if cs ≠ [] ∧ cs.all Char.isDigit = true then some (Nat.ofDigitChars 10 cs 0) else none

/-- A number with an optional sign. -/
def parseSigned : List Char → Option Int
  | '-' :: cs => (parseNat cs).map fun n => -(n : Int)
  | '+' :: cs => (parseNat cs).map fun n => (n : Int)
  | cs => (parseNat cs).map fun n => (n : Int)

/-- A number with blanks around it. -/
def parseInt (s : String) : Option Int := parseSigned (((s.toList.dropWhile Char.isWhitespace).reverse.dropWhile Char.isWhitespace).reverse)

theorem digit_not_space {c : Char} (h : c.isDigit = true) : c.isWhitespace = false := by
  rw [Char.isDigit, Bool.and_eq_true, decide_eq_true_eq, decide_eq_true_eq] at h
  rw [Char.isWhitespace]
  have h1 : (48 : UInt32) ≤ c.val := h.1
  simp only [Bool.or_eq_false_iff, decide_eq_false_iff_not]
  refine ⟨⟨⟨?_, ?_⟩, ?_⟩, ?_⟩ <;>
    · rintro rfl
      exact absurd h1 (by decide)

theorem dropWhile_isWhitespace {cs : List Char} (h : ∀ c ∈ cs, c.isWhitespace = false) : cs.dropWhile Char.isWhitespace = cs := by
  cases cs with
  | nil => rfl
  | cons c cs => rw [dropWhile_cons_of_neg (by rw [h c mem_cons_self]; decide)]

theorem parseInt_of_chars {s : String} (h : ∀ c ∈ s.toList, c.isWhitespace = false) : parseInt s = parseSigned s.toList := by
  rw [parseInt, dropWhile_isWhitespace h, dropWhile_isWhitespace, reverse_reverse]
  intro c hc
  exact h c (mem_reverse.1 hc)

theorem parseNat_toDigits (n : Nat) : parseNat (Nat.toDigits 10 n) = some n := by
  have hdigits : (Nat.toDigits 10 n).all Char.isDigit = true :=
    all_eq_true.2 fun c hc => Nat.isDigit_of_mem_toDigits (by decide) (by decide) hc
  rw [parseNat, if_pos ⟨Nat.toDigits_ne_nil, hdigits⟩, Nat.ofDigitChars_ten_toDigits]

/-- What is written as a decimal reads back. -/
theorem parseInt_repr (i : Int) : parseInt i.repr = some i := by
  have hdigit : ∀ (n : Nat) (c : Char), c ∈ Nat.toDigits 10 n → c.isDigit = true :=
    fun n c hc => Nat.isDigit_of_mem_toDigits (by decide) (by decide) hc
  cases i with
  | ofNat n =>
    have hchars : (Int.repr (Int.ofNat n)).toList = Nat.toDigits 10 n := Nat.toList_repr
    rw [parseInt_of_chars, hchars]
    · have hparse := parseNat_toDigits n
      rw [parseSigned.eq_def]
      split
      next hcs => exact absurd (hdigit n '-' (hcs ▸ mem_cons_self)) (by decide)
      next hcs => exact absurd (hdigit n '+' (hcs ▸ mem_cons_self)) (by decide)
      next => rw [hparse]; rfl
    · intro c hc
      rw [hchars] at hc
      exact digit_not_space (hdigit n c hc)
  | negSucc n =>
    have hchars : (Int.repr (Int.negSucc n)).toList = '-' :: Nat.toDigits 10 (n + 1) := by
      show (String.append "-" (Nat.repr (n + 1))).toList = _
      rw [show String.append "-" (Nat.repr (n + 1)) = "-" ++ Nat.repr (n + 1) from rfl, String.toList_append, Nat.toList_repr]
      rfl
    rw [parseInt_of_chars, hchars, parseSigned, parseNat_toDigits]
    · rfl
    · intro c hc
      rw [hchars] at hc
      rcases mem_cons.1 hc with rfl | hc
      · decide
      · exact digit_not_space (hdigit (n + 1) c hc)

/-! ## Tables -/

/-- A column: what an insert leaves in it that does not name it, and whether it may be empty. -/
structure Column where
  name : String
  fallback : Value
  notNull : Bool

/-- A table. `key` is its `INTEGER PRIMARY KEY`, `uniques` the other sets of columns that may not
repeat. -/
structure Table where
  columns : List Column
  key : Option String
  uniques : List (List String)
  rows : List Row

namespace Table

/-- The names of the columns. -/
def names (t : Table) : List String := t.columns.map (·.name)

/-- The default of a column. -/
def fallback (t : Table) (c : String) : Value :=
  match t.columns.find? fun column => column.name == c with
  | some column => column.fallback
  | none => .null

/-- The row an insert of the named columns makes. -/
def fill (t : Table) (named : List String) (row : Row) : Row :=
  fun c => if c ∈ named then row c else t.fallback c

/-- The number an integer key gets when it is left out. -/
def nextKey (t : Table) (k : String) : Int :=
  match maxOf (t.rows.map (· k)) with
  | .int i => i + 1
  | _ => 1

/-- An integer key holds integers only. -/
def withKey (t : Table) (row : Row) : Option Row :=
  match t.key with
  | none => some row
  | some k =>
    match row k with
    | .int _ => some row
    | .null => some (Function.update row k (.int (t.nextKey k)))
    | .text s => (parseInt s).map fun i => Function.update row k (.int i)

/-- The constraints: no empty `NOT NULL` column, no key twice. `NULL`s do not clash. -/
def accepts (t : Table) (row : Row) : Prop :=
  (∀ c ∈ t.columns, c.notNull = true → row c.name ≠ .null) ∧
    ∀ u ∈ t.key.toList.map (fun k => [k]) ++ t.uniques, ∀ other ∈ t.rows, ∃ c ∈ u, row c = .null ∨ other c ≠ row c

instance (t : Table) (row : Row) : Decidable (t.accepts row) := inferInstanceAs (Decidable (_ ∧ _))

/-- `INSERT` of one row. -/
def insert (t : Table) (row : Row) : Option Table :=
  match t.withKey row with
  | none => none
  | some row => if t.accepts row then some { t with rows := t.rows ++ [row] } else none

/-- `INSERT` of several rows. -/
def insertAll (t : Table) : List Row → Option Table
  | [] => some t
  | row :: rows =>
    match t.insert row with
    | none => none
    | some t => t.insertAll rows

/-- What an inserted row is of the row that was given. -/
structure Inserted (t : Table) (row stored : Row) : Prop where
  keyed : ∀ k, t.key = some k → ∃ i, stored k = .int i
  same : ∀ c, t.key ≠ some c → stored c = row c
  notNull : ∀ c ∈ t.columns, c.notNull = true → stored c.name ≠ .null

theorem insert_spec {t t' : Table} {row : Row} (h : t.insert row = some t') :
    t'.columns = t.columns ∧ t'.key = t.key ∧ t'.uniques = t.uniques ∧ ∃ stored, t'.rows = t.rows ++ [stored] ∧ t.Inserted row stored := by
  rw [insert] at h
  split at h
  · cases h
  next stored hkey =>
    split at h
    next haccepts =>
      cases h
      refine ⟨rfl, rfl, rfl, stored, rfl, ?_⟩
      rw [withKey] at hkey
      split at hkey
      next hnone =>
        cases hkey
        refine ⟨fun k hk => ?_, fun _ _ => rfl, haccepts.1⟩
        rw [hnone] at hk
        cases hk
      next k hk =>
        have hother : ∀ (v : Value) (c : String), t.key ≠ some c → Function.update row k v c = row c := by
          intro v c hc
          refine Function.update_of_ne (fun heq => ?_) v row
          rw [heq] at hc
          exact hc hk
        split at hkey
        next i hi =>
          cases hkey
          refine ⟨fun k' hk' => ?_, fun _ _ => rfl, haccepts.1⟩
          rw [hk, Option.some.injEq] at hk'
          exact ⟨i, hk' ▸ hi⟩
        next =>
          cases hkey
          refine ⟨fun k' hk' => ?_, hother _, haccepts.1⟩
          rw [hk, Option.some.injEq] at hk'
          subst hk'
          exact ⟨_, Function.update_self ..⟩
        next s _ =>
          obtain ⟨i, -, rfl⟩ := Option.map_eq_some_iff.1 hkey
          refine ⟨fun k' hk' => ?_, hother _, haccepts.1⟩
          rw [hk, Option.some.injEq] at hk'
          subst hk'
          exact ⟨i, Function.update_self ..⟩
    · cases h

/-- A successful insert of several rows appends a stored row for each. -/
theorem insertAll_spec {t t' : Table} {rows : List Row} (h : t.insertAll rows = some t') :
    t'.columns = t.columns ∧ t'.key = t.key ∧ t'.uniques = t.uniques ∧
    ∃ stored, t'.rows = t.rows ++ stored ∧ List.Forall₂ t.Inserted rows stored := by
  induction rows generalizing t with
  | nil =>
    cases h
    exact ⟨rfl, rfl, rfl, [], (append_nil _).symm, List.Forall₂.nil⟩
  | cons row rows ih =>
    rw [insertAll] at h
    split at h
    · cases h
    next t1 h1 =>
      obtain ⟨hcols1, hkey1, huniq1, stored, hrows1, hins⟩ := insert_spec h1
      obtain ⟨hcols, hkey, huniq, rest, hrows, hrest⟩ := ih h
      refine ⟨hcols.trans hcols1, hkey.trans hkey1, huniq.trans huniq1, stored :: rest, ?_, ?_⟩
      · rw [hrows, hrows1, append_assoc]
        rfl
      · refine List.Forall₂.cons hins (hrest.imp fun a b hab => ?_)
        exact ⟨fun k hk => hab.keyed k (hkey1 ▸ hk), fun c hc => hab.same c (hkey1 ▸ hc), fun c hc => hab.notNull c (hcols1 ▸ hc)⟩

end Table

end Throne.Lib.Sql
