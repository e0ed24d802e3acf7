import Throne.Lib.Lists
import Throne.Database.RestoreSelective

/-!
# A selective restore leaves a consistent database

The restore is followed statement by statement: what `copyTable` makes of one table
(`copyTable_spec`), what the copies leave of the whole database (`copyTables_spec`), and what the
repairs change after them. The repairs reach into tables that were not chosen, and only there: the
references between groups and routes, and three ids in `settings`. `restore_consistent` puts it
together.
-/

namespace Throne.Database.Restore

open Lib Lib.Sql List

@[simp] theorem put_self (db : Db) (n : TableName) (t : Table) : (db.put n t).tables n = t := by
  simp [Db.put]

variable {n : TableName}

theorem put_ne (db : Db) {m : TableName} (h : m ≠ n) (t : Table) : (db.put n t).tables m = db.tables m := by
  simp [Db.put, h]

/-! ## Copying one table -/

theorem skippedRows_of_ne (hn : n ≠ .routeRules) (t : Table) (b : BakTable) : skippedRows n t b = 0 := by
  rw [skippedRows, length_eq_zero_iff, filter_eq_nil_iff]
  intro row _
  rw [keepRow, foreignColumns, if_neg hn]
  simp

/-- What a copy does: nothing, when there is nothing to copy from, or it replaces the rows by stored
versions of the selected ones. -/
inductive Copied (n : TableName) (t : Table) (bak : Option BakTable) (keepKeys : List String)
    (t' : Table) (skipped : Nat) : Prop where
  | nothing (hsource : ∀ b, bak = some b → copiedColumns t b = []) (ht : t' = t) (hk : skipped = 0)
  | rows (b : BakTable) (stored : List Row) (hbak : bak = some b) (hcols : copiedColumns t b ≠ [])
      (hrows : t'.rows = (wiped t keepKeys).rows ++ stored)
      (hstored : List.Forall₂ t.Inserted ((selectedRows n t b keepKeys).map (t.fill (copiedColumns t b))) stored)
      (hk : skipped = skippedRows n t b)

variable {t t' : Table} {keepKeys : List String} {skipped : Nat} {bak : Option BakTable}

theorem copyTable_spec (h : copyTable n t bak keepKeys = some (t', skipped)) :
    (t'.columns = t.columns ∧ t'.key = t.key) ∧ Copied n t bak keepKeys t' skipped := by
  rw [copyTable.eq_def] at h
  split at h
  · cases h
    exact ⟨⟨rfl, rfl⟩, .nothing nofun rfl rfl⟩
  next b =>
    split at h
    next hcols =>
      cases h
      refine ⟨⟨rfl, rfl⟩, .nothing (fun b' hb => ?_) rfl rfl⟩
      cases hb
      exact hcols
    next hcols =>
      split at h
      · cases h
      next t1 hinsert =>
        cases h
        obtain ⟨hcolumns, hkey, -, stored, hrows, hstored⟩ := Table.insertAll_spec hinsert
        refine ⟨⟨hcolumns, hkey⟩, .rows b stored rfl hcols hrows (hstored.imp fun row row' h => ?_) rfl⟩
        exact ⟨h.keyed, h.same, h.notNull⟩

/-- A table with an integer key still has integers in it. -/
theorem Copied.integerKeys (h : Copied n t bak keepKeys t' skipped) {k : String} (hkey : t.key = some k)
    (ht : ∀ row ∈ t.rows, ∃ i, row k = .int i) : ∀ row ∈ t'.rows, ∃ i, row k = .int i := by
  cases h with
  | nothing hsource heq hk =>
    subst heq
    exact ht
  | rows b stored hbak hcols hrows hstored hk =>
    intro row hrow
    rw [hrows] at hrow
    rcases mem_append.1 hrow with hold | hnew
    · exact ht row (mem_of_mem_filter hold)
    · obtain ⟨given, -, hins⟩ := Lists.mem_of_forall₂ hstored hnew
      exact hins.keyed k hkey

variable {key : String}

/-- The rows of a setting that is kept are left alone. -/
theorem Copied.keeps (h : Copied n t bak keepKeys t' skipped) (hn : n ≠ .routeRules) (hkey : t.key = none)
    (hfallback : t.fallback "key" = .null) (hkeep : key ∈ keepKeys) :
    (t'.rows.filter fun row => row "key" = .text key) = t.rows.filter fun row => row "key" = .text key := by
  cases h with
  | nothing hsource heq hk => rw [heq]
  | rows b stored hbak hcols hrows hstored hk =>
    have hreplaces : ∀ v : Value, v = .text key → replacesKey keepKeys v = false := by
      rintro v rfl
      have hne : keepKeys.isEmpty = false := by
        rw [isEmpty_eq_false_iff]
        exact ne_nil_of_mem hkeep
      have hmem : (keepKeys.map Value.text).contains (.text key) = true := by
        rw [contains_iff_mem]
        exact mem_map_of_mem hkeep
      rw [replacesKey, hne, hmem]
      simp
    -- No stored row has the key: the copy leaves the kept keys out, and a row without a key gets none.
    have hnew : ∀ row ∈ stored, row "key" ≠ .text key := by
      intro row hrow heq
      obtain ⟨given, hgiven, hins⟩ := Lists.mem_of_forall₂ hstored hrow
      obtain ⟨selected, hselected, rfl⟩ := mem_map.1 hgiven
      rw [hins.same "key" (by rw [hkey]; simp), Table.fill] at heq
      split at heq
      next hcopied =>
        have hb : "key" ∈ b.columns := by simpa using (mem_filter.1 hcopied).2
        rw [selectedRows, skippedRows_of_ne hn, if_neg (by simp)] at hselected
        have hcond := (mem_filter.1 hselected).2
        rw [BakTable.get, if_pos hb, hreplaces _ heq, Bool.and_false] at hcond
        cases hcond
      · rw [hfallback] at heq
        cases heq
    rw [hrows, filter_append]
    have hnil : (stored.filter fun row => decide (row "key" = .text key)) = [] :=
      filter_eq_nil_iff.2 fun row hrow => by simpa using hnew row hrow
    rw [hnil, append_nil, wiped, filter_filter]
    refine filter_congr fun row _ => ?_
    by_cases heq : row "key" = .text key
    · simp [heq, hreplaces _ rfl]
    · simp [heq]

/-! ## Copying the chosen tables -/

/-- Each chosen table is copied from the host's, the others are not touched, and only rules are ever
skipped. -/
theorem copyTables_spec {bak : Backup} {keep : TableName → List String} {names : List TableName}
    {db db' : Db} (hnodup : names.Nodup) (h : copyTables bak keep names db = some (db', skipped)) :
    db'.counters = db.counters ∧ (∀ n, n ∉ names → db'.tables n = db.tables n) ∧
    (∀ n ∈ names, ∃ k, ((db'.tables n).columns = (db.tables n).columns ∧ (db'.tables n).key = (db.tables n).key) ∧
    Copied n (db.tables n) (bak.tables n) (keep n) (db'.tables n) k ∧ (n = .routeRules → k = skipped)) ∧
    (.routeRules ∉ names → skipped = 0) := by
  induction names generalizing db db' skipped with
  | nil =>
    cases h
    exact ⟨rfl, fun n _ => rfl, nofun, fun _ => rfl⟩
  | cons n names ih =>
    rw [copyTables] at h
    split at h
    · cases h
    next t k hcopy =>
      split at h
      · cases h
      next db1 more hrest =>
        cases h
        rw [nodup_cons] at hnodup
        obtain ⟨hcounters, hother, hchosen, hnone⟩ := ih hnodup.2 hrest
        obtain ⟨hsame, hcopied⟩ := copyTable_spec hcopy
        have hput : ∀ m, m ≠ n → (db.put n t).tables m = db.tables m := fun m hm => put_ne db hm t
        have hself : db'.tables n = t := by
          rw [hother n hnodup.1, put_self]
        have hzero : n ≠ .routeRules → k = 0 := by
          intro hn
          cases hcopied with
          | nothing _ _ hk => exact hk
          | rows b _ _ _ _ _ hk => rw [hk, skippedRows_of_ne hn]
        refine ⟨hcounters, ?_, ?_, ?_⟩
        · intro m hm
          rw [mem_cons, not_or] at hm
          rw [hother m hm.2, hput m hm.1]
        · intro m hm
          by_cases hmn : m = n
          · subst hmn
            refine ⟨k, ?_, ?_, fun hrules => ?_⟩
            · rw [hself]
              exact hsame
            · rw [hself]
              exact hcopied
            · rw [hnone (hrules ▸ hnodup.1), Nat.add_zero]
          · obtain ⟨k', hcols, hcopied', hk'⟩ := hchosen m ((mem_cons.1 hm).resolve_left hmn)
            rw [hput m hmn] at hcols hcopied'
            refine ⟨k', hcols, hcopied', fun hrules => ?_⟩
            rw [hk' hrules, hzero (fun hn => hmn (hrules.trans hn.symm)), Nat.zero_add]
        · intro hrules
          rw [mem_cons, not_or] at hrules
          rw [hnone hrules.2, hzero fun hn => hrules.1 hn.symm]

theorem tables_nodup (p : BackupParts) : p.tables.Nodup := by
  obtain ⟨a, b, c, d, e⟩ := p
  cases a <;> cases b <;> cases c <;> cases d <;> cases e <;> decide

/-! ## Rules -/

/-- The rules of one route profile. -/
def rulesOf (rows : List Row) (profile : Value) : List Row :=
  rows.filter fun row => row "route_profile_id" = profile

/-- The rules are numbered 0..n-1. -/
def Numbered (rules : List Row) : Prop :=
  (rules.map (· "rule_order")).Perm ((List.range rules.length).map fun n => Value.int (n : Nat))

theorem eq_of_inserted (hkey : t.key = none) {given stored : List Row} (h : List.Forall₂ t.Inserted given stored) : stored = given := by
  induction h with
  | nil => rfl
  | cons hrow _ ih =>
    rw [ih]
    congr 1
    funext c
    exact hrow.same c (by rw [hkey]; simp)

/-- The copied rules of a profile are numbered when some rules were skipped, since the rest are then
numbered again, and otherwise when they were so in the backup. -/
theorem Copied.numbered {b : BakTable} (h : Copied .routeRules t (some b) [] t' skipped) (hcols : copiedColumns t b ≠ []) (hkey : t.key = none)
    (hrules : ∀ c ∈ ["route_profile_id", "rule_order"], t.fallback c = .null ∧ ∃ column ∈ t.columns, column.name = c ∧ column.notNull = true)
    (profile : Value) (hsource : 0 < skipped ∨ Numbered (rulesOf b.rows profile)) : Numbered (rulesOf t'.rows profile) := by
  cases h with
  | nothing hnone ht hk => exact absurd (hnone b rfl) hcols
  | rows b' stored hbak _ hrows hstored hk =>
    cases hbak
    have hwiped : (wiped t []).rows = [] := by
      rw [wiped]
      refine filter_eq_nil_iff.2 fun row _ => ?_
      simp [replacesKey]
    have hgiven := eq_of_inserted hkey hstored
    rw [hwiped, nil_append, hgiven] at hrows
    rw [hrows]
    -- A row without one of the two columns could not be stored.
    by_cases hboth : ∀ c ∈ ["route_profile_id", "rule_order"], c ∈ copiedColumns t b
    · have hprofile : "route_profile_id" ∈ copiedColumns t b := hboth _ (by decide)
      have horder : "rule_order" ∈ copiedColumns t b := hboth _ (by decide)
      have hfill : ∀ row : Row, t.fill (copiedColumns t b) row "route_profile_id" =
          row "route_profile_id" := fun row => by rw [Table.fill, if_pos hprofile]
      have hfill' : ∀ row : Row, t.fill (copiedColumns t b) row "rule_order" = row "rule_order" :=
        fun row => by rw [Table.fill, if_pos horder]
      have hget : ∀ c ∈ copiedColumns t b, ∀ row, b.get row c = row c := by
        intro c hc row
        rw [BakTable.get, if_pos (by simpa using (mem_filter.1 hc).2)]
      have hmap : rulesOf ((selectedRows .routeRules t b []).map (t.fill (copiedColumns t b))) profile =
          (rulesOf (selectedRows .routeRules t b []) profile).map (t.fill (copiedColumns t b)) := by
        rw [rulesOf, rulesOf, filter_map]
        congr 1
        refine filter_congr fun row _ => ?_
        simp [hfill]
      rw [hmap, Numbered, map_map, length_map]
      have hcongr : ((rulesOf (selectedRows .routeRules t b []) profile).map ((fun row : Row => row "rule_order") ∘ t.fill (copiedColumns t b))) =
          (rulesOf (selectedRows .routeRules t b []) profile).map (· "rule_order") :=
        map_congr_left fun row _ => hfill' row
      rw [hcongr]
      by_cases hskip : 0 < skippedRows .routeRules t b
      · have hpart : (fun row : Row => b.get row "route_profile_id") = fun row => row "route_profile_id" := funext fun row => hget _ hprofile row
        rw [selectedRows, if_pos ⟨hskip, horder⟩, hpart, rulesOf, rowNumbered_part _ _ _ _ _ (fun row v => by simp)]
      · have hall : selectedRows .routeRules t b [] = b.rows := by
          rw [selectedRows, if_neg (fun h => hskip h.1)]
          refine filter_eq_self.2 fun row hrow => ?_
          have hnone : (b.rows.filter fun row => !keepRow .routeRules t b row) = [] :=
            length_eq_zero_iff.1 (Nat.eq_zero_of_not_pos hskip)
          have := filter_eq_nil_iff.1 hnone row hrow
          simpa [replacesKey] using this
        rw [hall]
        exact hsource.resolve_left (by omega)
    · rw [not_forall] at hboth
      obtain ⟨c, hboth⟩ := hboth
      rw [Classical.not_imp] at hboth
      have hnil : (selectedRows .routeRules t b []).map (t.fill (copiedColumns t b)) = [] := by
        rw [← hgiven, eq_nil_iff_forall_not_mem]
        intro row hrow
        obtain ⟨given, hmem, hins⟩ := Lists.mem_of_forall₂ hstored hrow
        obtain ⟨selected, -, rfl⟩ := mem_map.1 hmem
        obtain ⟨hnull, column, hcolumn, hname, hnotNull⟩ := hrules c hboth.1
        refine hins.notNull column hcolumn hnotNull ?_
        rw [hname, hins.same c (by rw [hkey]; simp), Table.fill, if_neg hboth.2, hnull]
      rw [hnil]
      exact List.Perm.refl _

/-! ## The ids in the settings -/

/-- The rows of one setting. -/
def settingRows (t : Table) (key : String) : List Row := t.rows.filter fun row => row "key" = .text key

theorem settingId_eq (t : Table) (key : String) :
    databaseSettingId t key = (settingRows t key).head?.map fun row => toInt (getText (row "value")) := by
  rw [databaseSettingId, settingRows, head?_filter]

variable {key' : String}

theorem settingRows_set_ne (t : Table) (h : key' ≠ key) (id : Int) : settingRows (databaseSetSettingId t key id) key' = settingRows t key' := by
  rw [settingRows, settingRows, databaseSetSettingId, filter_append, filter_filter]
  have hnew : ([t.fill ["key", "value"] fun c => if c = "key" then Value.text key
      else .text id.repr].filter fun row => decide (row "key" = .text key')) = [] := by
    refine filter_eq_nil_iff.2 fun row hrow => ?_
    rw [mem_singleton.1 hrow, Table.fill, if_pos (by decide), if_pos rfl]
    simpa using fun heq => h heq.symm
  rw [hnew, append_nil]
  refine filter_congr fun row _ => ?_
  by_cases heq : row "key" = .text key'
  · simp [heq, h]
  · simp [heq]

variable {id : Int}

theorem toInt_repr (h : -2 ^ 31 ≤ id ∧ id < 2 ^ 31) : toInt id.repr = id := by
  rw [toInt, parseInt_repr]
  exact if_pos h

theorem settingId_set_self (t : Table) (key : String) (h : -2 ^ 31 ≤ id ∧ id < 2 ^ 31) :
    databaseSettingId (databaseSetSettingId t key id) key = some id := by
  have hrows : settingRows (databaseSetSettingId t key id) key =
      [t.fill ["key", "value"] fun c => if c = "key" then Value.text key else .text id.repr] := by
    rw [settingRows, databaseSetSettingId, filter_append]
    have hold : ((t.rows.filter fun row => row "key" ≠ .text key).filter fun row => decide (row "key" = .text key)) = [] := by
      refine filter_eq_nil_iff.2 fun row hrow => ?_
      simpa using (mem_filter.1 hrow).2
    rw [hold, nil_append]
    refine filter_eq_self.2 fun row hrow => ?_
    rw [mem_singleton.1 hrow, Table.fill, if_pos (by decide), if_pos rfl]
    simp
  rw [settingId_eq, hrows, head?_cons, Option.map_some, Table.fill, if_pos (by decide), if_neg (by decide), getText, toInt_repr h]

/-- An id that fits an `int`. -/
def Fits (t : Table) : Prop := ∀ row ∈ t.rows, ∀ i, row "id" = .int i → -2 ^ 31 ≤ i ∧ i < 2 ^ 31

theorem getInt_int {i : Int} (h : -2 ^ 31 ≤ i ∧ i < 2 ^ 31) : getInt (.int i) = i := by
  rw [getInt]
  exact Int.bmod_eq_of_le_mul_two (by omega) (by omega)

theorem getInt_range (v : Value) : -2 ^ 31 ≤ getInt v ∧ getInt v < 2 ^ 31 := by
  cases v with
  | null => decide
  | text s =>
    show -2 ^ 31 ≤ (0 : Int) ∧ (0 : Int) < 2 ^ 31
    decide
  | int i =>
    rw [getInt]
    have hle := Int.le_bmod (x := i) (m := 2 ^ 32) (by decide)
    have hlt := Int.bmod_lt (x := i) (m := 2 ^ 32) (by decide)
    omega

theorem exists_of_row {row : Row} {i : Int} (hrow : row ∈ t.rows) (hid : row "id" = .int i) : databaseIdExists t i = true := by
  rw [databaseIdExists, any_eq_true]
  exact ⟨row, hrow, by simp [hid]⟩

theorem lowestId_spec (hids : ∀ row ∈ t.rows, ∃ i, row "id" = .int i) (hfits : Fits t)
    (hne : t.rows ≠ []) : ∃ id, lowestId t = some id ∧ databaseIdExists t id = true := by
  rw [lowestId]
  cases hsorted : (t.rows.map (· "id")).insertionSort fun a b => a.le b = true with
  | nil =>
    have hperm := perm_insertionSort (fun a b => Value.le a b = true) (t.rows.map (· "id"))
    rw [hsorted] at hperm
    rw [nil_perm, map_eq_nil_iff] at hperm
    exact absurd hperm hne
  | cons v rest =>
    have hmem : v ∈ t.rows.map (· "id") := by
      rw [← mem_insertionSort (fun a b => Value.le a b = true), hsorted]
      exact mem_cons_self
    obtain ⟨row, hrow, rfl⟩ := mem_map.1 hmem
    obtain ⟨i, hi⟩ := hids row hrow
    refine ⟨i, ?_, exists_of_row hrow hi⟩
    rw [head?_cons, Option.map_some, hi, getInt_int (hfits row hrow i hi)]

variable {groups order : Table}

theorem firstGroup_spec (hids : ∀ row ∈ groups.rows, ∃ i, row "id" = .int i)
    (hfits : Fits groups) (h : firstGroup order groups = some id) : databaseIdExists groups id = true := by
  rw [firstGroup, Option.map_eq_some_iff] at h
  obtain ⟨o, ho, rfl⟩ := h
  have hmem := (mem_insertionSort _).1 (mem_of_mem_head? ho)
  have hjoin := (mem_filter.1 hmem).2
  rw [any_eq_true] at hjoin
  obtain ⟨g, hg, heq⟩ := hjoin
  have heq : g "id" = o "group_id" := by simpa using heq
  obtain ⟨i, hi⟩ := hids g hg
  rw [← heq, hi, getInt_int (hfits g hg i hi)]
  exact exists_of_row hg hi

/-- The group to fall back to exists as soon as there is a group. -/
theorem fallbackGroup_spec (hids : ∀ row ∈ groups.rows, ∃ i, row "id" = .int i) (hfits : Fits groups)
    (hne : groups.rows ≠ []) : ∃ id, (firstGroup order groups).or (lowestId groups) = some id ∧ databaseIdExists groups id = true := by
  cases hfirst : firstGroup order groups with
  | some id => exact ⟨id, rfl, firstGroup_spec hids hfits hfirst⟩
  | none => exact lowestId_spec hids hfits hne

theorem fallbackGroup_range (h : (firstGroup order groups).or (lowestId groups) = some id) : -2 ^ 31 ≤ id ∧ id < 2 ^ 31 := by
  rcases Option.or_eq_some_iff.1 h with h | ⟨-, h⟩
  · rw [firstGroup, Option.map_eq_some_iff] at h
    obtain ⟨o, -, rfl⟩ := h
    exact getInt_range _
  · rw [lowestId, Option.map_eq_some_iff] at h
    obtain ⟨v, -, rfl⟩ := h
    exact getInt_range _

section

variable (r : Replaced)

section

variable (keepKeys : List String)

theorem repairRemember_rows (profiles settings : Table) (h : key ≠ "remember_id") :
    settingRows (repairRemember r keepKeys profiles settings) key = settingRows settings key := by
  rw [repairRemember.eq_def]
  split
  · rfl
  · split
    · exact settingRows_set_ne settings h _
    · rfl

theorem repairCurrent_rows (h : key' ≠ key) (stale : Bool) (t : Table) (first : Option Int) (settings : Table) :
    settingRows (repairCurrent key stale t first settings) key' = settingRows settings key' := by
  rw [repairCurrent.eq_def]
  split
  · rfl
  · split
    · rfl
    · split
      · rfl
      · exact settingRows_set_ne settings h _

/-- After its repair `remember_id` names a profile or none. -/
theorem repairRemember_resolves (profiles settings : Table)
    (h : databaseSettingId (repairRemember r keepKeys profiles settings) "remember_id" = some id) :
    id < 0 ∨ databaseIdExists profiles id = true := by
  rw [repairRemember.eq_def] at h
  split at h
  next hnone =>
    rw [hnone] at h
    cases h
  next old hold =>
    split at h
    · rw [settingId_set_self settings _ (by decide), Option.some.injEq] at h
      subst h
      exact .inl (by decide)
    next hok =>
      rw [hold, Option.some.injEq] at h
      subst h
      by_cases hneg : old < 0
      · exact .inl hneg
      · rw [not_and_or, not_or] at hok
        rcases hok with hok | ⟨-, hok⟩
        · omega
        · exact .inr (by simpa using hok)

/-- The repair leaves a `remember_id` that resolves in a table that was not replaced. -/
theorem repairRemember_keeps {r : Replaced} (hr : r.profiles = false) (keepKeys : List String)
    (profiles settings : Table) (h : ∀ id, databaseSettingId settings "remember_id" = some id →
    id < 0 ∨ databaseIdExists profiles id = true) : repairRemember r keepKeys profiles settings = settings := by
  rw [repairRemember.eq_def]
  split
  · rfl
  next id hid =>
    refine if_neg ?_
    rintro ⟨hnonneg, hstale | hgone⟩
    · rw [hr, Bool.false_and] at hstale
      cases hstale
    · rcases h id hid with hneg | hexists
      · omega
      · rw [hgone] at hexists
        cases hexists

/-- After its repair the current id names a row, once there is one to fall back to. -/
theorem repairCurrent_resolves (key : String) (stale : Bool) (t settings : Table) {first : Option Int}
    (hrange : ∀ id, first = some id → -2 ^ 31 ≤ id ∧ id < 2 ^ 31) (hfirst : ∃ id, first = some id ∧ databaseIdExists t id = true) :
    ∃ id, databaseSettingId (repairCurrent key stale t first settings) key = some id ∧ databaseIdExists t id = true := by
  obtain ⟨id0, rfl, hexists⟩ := hfirst
  rw [repairCurrent]
  split
  next hok =>
    cases hcurrent : databaseSettingId settings key with
    | none =>
      rw [hcurrent] at hok
      cases hok
    | some id =>
      rw [hcurrent, resolves, Bool.and_eq_true] at hok
      exact ⟨id, rfl, hok.2⟩
  · split
    next heq => exact ⟨id0, heq.symm, hexists⟩
    · exact ⟨id0, settingId_set_self settings key (hrange id0 rfl), hexists⟩

theorem repairCurrent_keeps (t settings : Table) (first : Option Int)
    (hid : databaseSettingId settings key = some id) (hexists : databaseIdExists t id = true) :
    repairCurrent key false t first settings = settings := by
  rw [repairCurrent.eq_def]
  refine if_pos ?_
  rw [hid, resolves, hexists]
  rfl

/-! ## The whole database -/

/-- The three ids the restore repairs. -/
def repairedKeys : List String := ["remember_id", "current_group", "current_route_id"]

theorem repairIds_settingRows (db : Db) (h : key ∉ repairedKeys) : settingRows ((repairIds r keepKeys db).tables .settings) key =
    settingRows (db.tables .settings) key := by
  simp only [repairedKeys, mem_cons, not_mem_nil, or_false, not_or] at h
  rw [repairIds, put_self, repairCurrent_rows h.2.2, repairCurrent_rows h.2.1, repairRemember_rows _ _ _ _ h.1]

theorem repairIds_tables (db : Db) (h : n ≠ .settings) : (repairIds r keepKeys db).tables n = db.tables n := by
  rw [repairIds]
  exact put_ne db h _

end

theorem clearMarkers_tables (parts : BackupParts) (bak : Backup) (db : Db) (h : n ≠ .markers ∨ parts.settings = false) :
    (clearMarkers parts bak db).tables n = db.tables n := by
  rw [clearMarkers]
  split
  next hcond =>
    rw [Bool.and_eq_true] at hcond
    rcases h with h | h
    · exact put_ne db h _
    · rw [h] at hcond
      exact absurd hcond.1 (by decide)
  · rfl

theorem clearMarkers_counters (parts : BackupParts) (bak : Backup) (db : Db) : (clearMarkers parts bak db).counters = db.counters := by
  rw [clearMarkers]
  split <;> rfl

theorem clearReferences_tables (db : Db) (h : n ≠ .groups) (h' : n ≠ .routeProfiles) : (clearReferences r db).tables n = db.tables n := by
  rw [clearReferences]
  split
  · rw [put_ne _ h', put_ne _ h]
  · rfl

theorem clearReferences_groups (db : Db) : (clearReferences r db).tables .groups =
    if r.groups != r.routes then clearColumn (db.tables .groups) "route_id" else db.tables .groups := by
  rw [clearReferences]
  split
  · rw [put_ne _ (by decide), put_self]
  · rfl

theorem clearReferences_routes (db : Db) : (clearReferences r db).tables .routeProfiles =
    if r.groups != r.routes then clearColumn (db.tables .routeProfiles) "source_gid" else db.tables .routeProfiles := by
  rw [clearReferences]
  split
  · rw [put_self]
  · rfl

theorem clearReferences_counters (db : Db) : (clearReferences r db).counters = db.counters := by
  rw [clearReferences]
  split <;> rfl

/-- Clearing a reference leaves the ids. -/
theorem clearColumn_ids (t : Table) {column : String} (h : "id" ≠ column) : (clearColumn t column).rows.map (· "id") = t.rows.map (· "id") := by
  rw [clearColumn]
  split
  · rw [map_map]
    refine map_congr_left fun row _ => ?_
    exact Function.update_of_ne h _ row
  · rfl

theorem clearReferences_ids (db : Db) (n : TableName) : ((clearReferences r db).tables n).rows.map (· "id") = (db.tables n).rows.map (· "id") := by
  by_cases hg : n = .groups
  · subst hg
    rw [clearReferences_groups]
    split
    · exact clearColumn_ids _ (by decide)
    · rfl
  · by_cases hr : n = .routeProfiles
    · subst hr
      rw [clearReferences_routes]
      split
      · exact clearColumn_ids _ (by decide)
      · rfl
    · rw [clearReferences_tables r db hg hr]

theorem idExists_congr (h : t'.rows.map (· "id") = t.rows.map (· "id")) (id : Int) : databaseIdExists t' id = databaseIdExists t id := by
  have hany : ∀ t : Table, databaseIdExists t id = (t.rows.map (· "id")).any fun v => v = .int id := by
    intro t
    rw [databaseIdExists, any_map]
    rfl
  rw [hany, hany, h]

/-! ## The counters -/

/-- The next id counted is new: the counter is an integer that no id of its table is above. -/
def CounterAhead (db : Db) (c : Counter) : Prop :=
  ∃ last, db.counters c = .int last ∧ ∀ row ∈ (db.tables c.table).rows, ∃ id, row "id" = .int id ∧ id ≤ last

/-- The backup's counter, where it has the column, is an integer in every row that has one. A text there would be
above every integer. -/
def CounterNumeric (bak : Backup) (c : Counter) : Prop :=
  ∀ b, bak.entityIds = some b → c.column ∈ b.columns → ∀ row ∈ b.rows, (row c.column).Numeric

theorem scalarMax_int (i j : Int) : scalarMax (.int i) (.int j) = .int (max i j) :=
  (if_neg (by simp)).trans (Value.max_int i j)

theorem bakValue_int {bak : Backup} {c : Counter} {v : Value} (h : CounterNumeric bak c) (hv : bakValue bak c = some v) : ∃ i, v = .int i := by
  rw [bakValue.eq_def] at hv
  split at hv
  · cases hv
  next b hb =>
    split at hv
    next hcolumn =>
      cases hv
      obtain ⟨m, hm, -⟩ := orZero_maxOf (b.rows.map (· c.column)) fun v hv => by
        obtain ⟨row, hrow, rfl⟩ := mem_map.1 hv
        exact h b hb hcolumn row hrow
      exact ⟨m, hm⟩
    · cases hv

/-- A raised counter is not below the ids of its table. -/
theorem raised_spec (db : Db) {bak : Backup} {c : Counter} (hcounter : ∃ i, db.counters c = .int i)
    (hids : ∀ row ∈ (db.tables c.table).rows, ∃ i, row "id" = .int i) (hbak : CounterNumeric bak c) :
    ∃ last, raised db (bakValue bak c) c = .int last ∧ ∀ row ∈ (db.tables c.table).rows, ∃ id, row "id" = .int id ∧ id ≤ last := by
  obtain ⟨i, hi⟩ := hcounter
  obtain ⟨m, hm, hbelow⟩ := orZero_maxOf ((db.tables c.table).rows.map (· "id")) fun v hv => by
    obtain ⟨row, hrow, rfl⟩ := mem_map.1 hv
    exact .inr (hids row hrow)
  have hrows : ∀ last, m ≤ last → ∀ row ∈ (db.tables c.table).rows, ∃ id, row "id" = .int id ∧ id ≤ last := by
    intro last hlast row hrow
    obtain ⟨id, hid⟩ := hids row hrow
    exact ⟨id, hid, (hbelow id (mem_map.2 ⟨row, hrow, hid⟩)).trans hlast⟩
  rw [raised.eq_def, hi, hm, scalarMax_int]
  cases hv : bakValue bak c with
  | none => exact ⟨max i m, rfl, hrows _ (le_max_right i m)⟩
  | some v =>
    obtain ⟨j, rfl⟩ := bakValue_int hbak hv
    exact ⟨max (max i m) j, scalarMax_int _ _, hrows _ ((le_max_right i m).trans (le_max_left _ j))⟩

/-- The counters the chosen parts raise. -/
def chosenCounters (parts : BackupParts) : List Counter :=
  (if parts.profiles || parts.routes then [.profile, .group, .routeProfile] else []) ++
    (if parts.otp then [.otpProfile] else []) ++ if parts.ipLists then [.ipList, .ipScan] else []

theorem chosenCounters_nodup (parts : BackupParts) : (chosenCounters parts).Nodup := by
  obtain ⟨a, b, c, d, e⟩ := parts
  cases a <;> cases b <;> cases c <;> cases d <;> cases e <;> decide

/-- Raising several counters: each is raised over the tables and the counter there was. -/
theorem raiseAll_spec (bak : Backup) {cs : List Counter} (hnodup : cs.Nodup) (db : Db) :
    (cs.foldl (fun db c => raiseOne bak c db) db).tables = db.tables ∧ ∀ c, (cs.foldl (fun db c => raiseOne bak c db) db).counters c =
    if c ∈ cs then raised db (bakValue bak c) c else db.counters c := by
  induction cs generalizing db with
  | nil => exact ⟨rfl, fun c => rfl⟩
  | cons first cs ih =>
    obtain ⟨hfirst, hrest⟩ := nodup_cons.1 hnodup
    obtain ⟨htables, hcounters⟩ := ih hrest (raiseOne bak first db)
    refine ⟨htables, fun c => (hcounters c).trans ?_⟩
    have hother : c ≠ first → (raiseOne bak first db).counters c = db.counters c :=
      fun hc => Function.update_of_ne hc _ _
    by_cases hc : c = first
    · subst hc
      rw [if_neg hfirst, if_pos mem_cons_self]
      exact Function.update_self ..
    · rw [hother hc, raised.eq_def, hother hc]
      simp only [mem_cons, hc, false_or]
      rfl

/-- The counters after the restore: the chosen ones are raised, the others are as before. -/
theorem raiseCounters_spec {parts : BackupParts} {bak : Backup} {db db' : Db} (h : raiseCounters parts bak db = some db') : db'.tables = db.tables ∧
    ∀ c, db'.counters c = if c ∈ chosenCounters parts then raised db (bakValue bak c) c else db.counters c := by
  suffices heq : db' = (chosenCounters parts).foldl (fun db c => raiseOne bak c db) db by
    rw [heq]
    exact raiseAll_spec bak (chosenCounters_nodup parts) db
  rw [raiseCounters] at h
  obtain ⟨db1, h1, rfl⟩ := Option.map_eq_some_iff.1 h
  have hthree : db1 = (if parts.profiles || parts.routes then [Counter.profile, .group, .routeProfile] else []).foldl
      (fun db c => raiseOne bak c db) db := by
    split at h1
    next hchosen =>
      rw [raiseThree] at h1
      split at h1
      · cases h1
      · cases h1
        rw [if_pos hchosen]
        rfl
    next hnone =>
      cases h1
      rw [if_neg hnone]
      rfl
  rw [chosenCounters, foldl_append, foldl_append, ← hthree]
  cases parts.otp <;> cases parts.ipLists <;> rfl

/-! ## What a restore leaves -/

/-- What holds after a restore that returned. -/
structure Restored (host : HostDb) (bak : Backup) (parts : BackupParts) (preserved : List String)
    (db : Db) (skipped : Nat) : Prop where
  /-- The counters of the chosen parts are ahead of their tables, and the others stay so. -/
  counters : ∀ c ∈ chosenCounters parts, (∃ i, host.counters c = .int i) → CounterNumeric bak c → CounterAhead db c
  unchosen : ∀ c, c ∉ chosenCounters parts → db.counters c = host.counters c ∧ (CounterAhead host.toDb c → CounterAhead db c)
  /-- The three ids resolve. -/
  remember : ∀ id, databaseSettingId (db.tables .settings) "remember_id" = some id → id < 0 ∨ databaseIdExists (db.tables .profiles) id = true
  group : (db.tables .groups).rows ≠ [] → Fits (db.tables .groups) → ∃ id, databaseSettingId (db.tables .settings) "current_group" = some id ∧
      databaseIdExists (db.tables .groups) id = true
  route : (db.tables .routeProfiles).rows ≠ [] → Fits (db.tables .routeProfiles) →
    ∃ id, databaseSettingId (db.tables .settings) "current_route_id" = some id ∧ databaseIdExists (db.tables .routeProfiles) id = true
  /-- Restored rules are numbered from 0 when rules were skipped, or when they came so. -/
  rules : parts.routes = true → ∀ b, bak.tables .routeRules = some b →
    copiedColumns (host.tables .routeRules) b ≠ [] → ∀ profile, 0 < skipped ∨ Numbered (rulesOf b.rows profile) →
      Numbered (rulesOf (db.tables .routeRules).rows profile)
  /-- Tables that were not chosen: only references into replaced tables change. -/
  tables : ∀ n, n ∉ parts.tables → n ∉ [.groups, .routeProfiles, .settings] → db.tables n = host.tables n
  groupsTable : parts.profiles = false → db.tables .groups = if (replaced parts bak).routes then clearColumn (host.tables .groups) "route_id"
    else host.tables .groups
  routesTable : parts.routes = false → db.tables .routeProfiles =
    if (replaced parts bak).groups then clearColumn (host.tables .routeProfiles) "source_gid"
    else host.tables .routeProfiles
  settingsTable : parts.settings = false → ∀ key, key ∉ repairedKeys → settingRows (db.tables .settings) key = settingRows (host.tables .settings) key
  /-- Preserved settings. -/
  preserved : ∀ key ∈ preserved, key ∉ repairedKeys → settingRows (db.tables .settings) key = settingRows (host.tables .settings) key
  rememberKept : (replaced parts bak).profiles = false → (∀ id, databaseSettingId (host.tables .settings) "remember_id" = some id →
      id < 0 ∨ databaseIdExists (host.tables .profiles) id = true) →
    settingRows (db.tables .settings) "remember_id" = settingRows (host.tables .settings) "remember_id"
  groupKept : (replaced parts bak).groups = false → ∀ id, databaseSettingId (host.tables .settings) "current_group" = some id →
    databaseIdExists (host.tables .groups) id = true →
    settingRows (db.tables .settings) "current_group" = settingRows (host.tables .settings) "current_group"
  routeKept : (replaced parts bak).routes = false → ∀ id, databaseSettingId (host.tables .settings) "current_route_id" = some id →
    databaseIdExists (host.tables .routeProfiles) id = true →
    settingRows (db.tables .settings) "current_route_id" = settingRows (host.tables .settings) "current_route_id"

theorem mem_keepHostId {b : Bool} {keys : List String} (h : key' ∈ keys) : key' ∈ keepHostId b key keys := by
  rw [keepHostId]
  split
  · exact mem_append_left _ h
  · exact h

theorem keepHostId_self (key : String) (keys : List String) : key ∈ keepHostId false key keys := by
  rw [keepHostId]
  split
  · exact mem_append_right _ (mem_singleton_self key)
  next h => simpa using h

/-- The keys that are kept: the preserved ones, and an id whose table stays the host's. -/
theorem settingKeepKeys_spec (preserved : List String) : (∀ key ∈ preserved, key ∈ settingKeepKeys r preserved) ∧
    (r.profiles = false → "remember_id" ∈ settingKeepKeys r preserved) ∧ (r.groups = false → "current_group" ∈ settingKeepKeys r preserved) ∧
    (r.routes = false → "current_route_id" ∈ settingKeepKeys r preserved) := by
  refine ⟨fun key h => mem_keepHostId (mem_keepHostId (mem_keepHostId h)), fun h => ?_, fun h => ?_, fun h => ?_⟩
  · rw [settingKeepKeys, h]
    exact mem_keepHostId (mem_keepHostId (keepHostId_self _ _))
  · rw [settingKeepKeys, h]
    exact mem_keepHostId (keepHostId_self _ _)
  · rw [settingKeepKeys, h]
    exact keepHostId_self _ _

end

theorem mem_tables (p : BackupParts) : (.profiles ∈ p.tables ↔ p.profiles = true) ∧ (.groups ∈ p.tables ↔ p.profiles = true) ∧
    (.routeRules ∈ p.tables ↔ p.routes = true) ∧ (.routeProfiles ∈ p.tables ↔ p.routes = true) ∧
    (.settings ∈ p.tables ↔ p.settings = true) ∧ (.markers ∈ p.tables ↔ p.settings = true) ∧
    (.otpProfiles ∈ p.tables ↔ p.otp = true) ∧ (.ipLists ∈ p.tables ↔ p.ipLists = true) ∧ (.ipScans ∈ p.tables ↔ p.ipLists = true) := by
  obtain ⟨a, b, c, d, e⟩ := p
  cases a <;> cases b <;> cases c <;> cases d <;> cases e <;> decide

section Assembly

variable {host : HostDb} {bak : Backup} {parts : BackupParts} {preserved : List String} {db1 db : Db} {skipped : Nat}

/-- The database after the copies, as the later steps read it. -/
structure CopyResult (host : HostDb) (bak : Backup) (parts : BackupParts) (preserved : List String)
    (db1 : Db) (skipped : Nat) : Prop where
  counters : db1.counters = host.counters
  other : ∀ n, n ∉ parts.tables → db1.tables n = host.tables n
  chosen : ∀ n ∈ parts.tables, ∃ k, Copied n (host.tables n) (bak.tables n)
    (if n = .settings then settingKeepKeys (replaced parts bak) preserved else []) (db1.tables n) k ∧
      (n = .routeRules → k = skipped)

section

variable (h : CopyResult host bak parts preserved db1 skipped)

include h

/-- A table that the backup lacks is not touched. -/
theorem CopyResult.missing (hn : n ∉ parts.tables ∨ bak.tables n = none) : db1.tables n = host.tables n := by
  by_cases hmem : n ∈ parts.tables
  · obtain ⟨k, hcopied, -⟩ := h.chosen n hmem
    cases hcopied with
    | nothing _ ht _ => exact ht
    | rows b _ hbak =>
      rw [hn.resolve_left fun hnot => hnot hmem] at hbak
      cases hbak
  · exact h.other n hmem

theorem CopyResult.integerKeys {k : String} (hk : n.key = some k) : ∀ row ∈ (db1.tables n).rows, ∃ i, row k = .int i := by
  by_cases hmem : n ∈ parts.tables
  · obtain ⟨_, hcopied, -⟩ := h.chosen n hmem
    exact hcopied.integerKeys ((host.keys n).trans hk) (host.integerKeys n k hk)
  · rw [h.other n hmem]
    exact host.integerKeys n k hk

/-- A setting stays as the host has it when the settings are not chosen, or the key is kept. -/
theorem CopyResult.setting (hkey : parts.settings = false ∨ key ∈ settingKeepKeys (replaced parts bak) preserved) :
    settingRows (db1.tables .settings) key = settingRows (host.tables .settings) key := by
  by_cases hmem : TableName.settings ∈ parts.tables
  · have hkeep : key ∈ settingKeepKeys (replaced parts bak) preserved := by
      refine hkey.resolve_left fun hnot => ?_
      rw [(mem_tables parts).2.2.2.2.1.1 hmem] at hnot
      cases hnot
    obtain ⟨k, hcopied, -⟩ := h.chosen .settings hmem
    rw [if_pos rfl] at hcopied
    exact hcopied.keeps (by decide) ((host.keys .settings).trans rfl) host.settingsKey.2 hkeep
  · rw [h.other _ hmem]

end

end Assembly

/-- The settings after the repairs, over the copied tables. -/
theorem repairIds_settings (r : Replaced) (keepKeys : List String) (db : Db) : (repairIds r keepKeys db).tables .settings =
    repairCurrent "current_route_id" (r.routes && keptHere r keepKeys "current_route_id")
    (db.tables .routeProfiles) (lowestId (db.tables .routeProfiles))
    (repairCurrent "current_group" (r.groups && keptHere r keepKeys "current_group") (db.tables .groups)
    ((firstGroup (db.tables .groupsOrder) (db.tables .groups)).or (lowestId (db.tables .groups)))
    (repairRemember r keepKeys (db.tables .profiles) (db.tables .settings))) := by
  rw [repairIds, put_self]

theorem fits_congr (h : t'.rows.map (· "id") = t.rows.map (· "id")) (hfits : Fits t') : Fits t := by
  intro row hrow i hi
  have hmem : row "id" ∈ t'.rows.map (· "id") := h ▸ mem_map.2 ⟨row, hrow, rfl⟩
  obtain ⟨row', hrow', heq⟩ := mem_map.1 hmem
  exact hfits row' hrow' i (heq.trans hi)

theorem rows_ne_nil_congr (h : t'.rows.map (· "id") = t.rows.map (· "id")) (hne : t'.rows ≠ []) : t.rows ≠ [] := by
  intro hnil
  rw [hnil, map_nil, map_eq_nil_iff] at h
  exact hne h

/-- The three repaired ids, read after all the repairs. -/
theorem repairIds_resolve (r : Replaced) (keepKeys : List String) (db : Db)
    (hids : ∀ n : TableName, n.key = some "id" → ∀ row ∈ (db.tables n).rows, ∃ i, row "id" = .int i) :
    (∀ id, databaseSettingId ((repairIds r keepKeys db).tables .settings) "remember_id" = some id →
    id < 0 ∨ databaseIdExists (db.tables .profiles) id = true) ∧ ((db.tables .groups).rows ≠ [] → Fits (db.tables .groups) →
    ∃ id, databaseSettingId ((repairIds r keepKeys db).tables .settings) "current_group" = some id ∧
    databaseIdExists (db.tables .groups) id = true) ∧ ((db.tables .routeProfiles).rows ≠ [] → Fits (db.tables .routeProfiles) →
    ∃ id, databaseSettingId ((repairIds r keepKeys db).tables .settings) "current_route_id" = some id ∧
    databaseIdExists (db.tables .routeProfiles) id = true) := by
  rw [repairIds_settings]
  refine ⟨fun id hid => ?_, fun hne hfits => ?_, fun hne hfits => ?_⟩
  · rw [settingId_eq, repairCurrent_rows (by decide), repairCurrent_rows (by decide), ← settingId_eq] at hid
    exact repairRemember_resolves r keepKeys _ _ hid
  · rw [settingId_eq, repairCurrent_rows (by decide), ← settingId_eq]
    exact repairCurrent_resolves _ _ _ _ (fun _ => fallbackGroup_range) (fallbackGroup_spec (hids .groups rfl) hfits hne)
  · refine repairCurrent_resolves _ _ _ _ (fun id hid => ?_) (lowestId_spec (hids .routeProfiles rfl) hfits hne)
    rw [lowestId, Option.map_eq_some_iff] at hid
    obtain ⟨v, -, rfl⟩ := hid
    exact getInt_range v

/-- An id that the host keeps and that resolves is left by the repairs. -/
theorem repairIds_keep (r : Replaced) (keepKeys : List String) (db : Db) : (r.profiles = false →
    (∀ id, databaseSettingId (db.tables .settings) "remember_id" = some id → id < 0 ∨ databaseIdExists (db.tables .profiles) id = true) →
    settingRows ((repairIds r keepKeys db).tables .settings) "remember_id" = settingRows (db.tables .settings) "remember_id") ∧
    (r.groups = false → ∀ id, databaseSettingId (db.tables .settings) "current_group" = some id →
    databaseIdExists (db.tables .groups) id = true → settingRows ((repairIds r keepKeys db).tables .settings) "current_group" =
    settingRows (db.tables .settings) "current_group") ∧
    (r.routes = false → ∀ id, databaseSettingId (db.tables .settings) "current_route_id" = some id →
    databaseIdExists (db.tables .routeProfiles) id = true → settingRows ((repairIds r keepKeys db).tables .settings) "current_route_id" =
    settingRows (db.tables .settings) "current_route_id") := by
  rw [repairIds_settings]
  refine ⟨fun hr hid => ?_, fun hr id hid hexists => ?_, fun hr id hid hexists => ?_⟩
  · rw [repairCurrent_rows (by decide), repairCurrent_rows (by decide), repairRemember_keeps hr keepKeys _ _ hid]
  · rw [repairCurrent_rows (by decide), hr, Bool.false_and]
    rw [settingId_eq, ← repairRemember_rows r keepKeys (db.tables .profiles) _ (by decide), ← settingId_eq] at hid
    rw [repairCurrent_keeps _ _ _ hid hexists, repairRemember_rows _ _ _ _ (by decide)]
  · rw [hr, Bool.false_and]
    rw [settingId_eq, ← repairRemember_rows r keepKeys (db.tables .profiles) _ (by decide),
      ← repairCurrent_rows (show "current_route_id" ≠ "current_group" by decide) (r.groups && keptHere r keepKeys "current_group") (db.tables .groups)
        ((firstGroup (db.tables .groupsOrder) (db.tables .groups)).or (lowestId (db.tables .groups))),
      ← settingId_eq] at hid
    rw [repairCurrent_keeps _ _ _ hid hexists, repairCurrent_rows (by decide), repairRemember_rows _ _ _ _ (by decide)]

section Final

variable {host : HostDb} {bak : Backup} {parts : BackupParts} {preserved : List String} {db1 db : Db} {skipped : Nat}

theorem restored_of_copy (h : CopyResult host bak parts preserved db1 skipped) (hraise : raiseCounters parts bak (clearReferences (replaced parts bak)
    (repairIds (replaced parts bak) (settingKeepKeys (replaced parts bak) preserved)
    (clearMarkers parts bak db1))) = some db) : Restored host bak parts preserved db skipped := by
  generalize hr : replaced parts bak = r at hraise
  generalize hkeys : settingKeepKeys r preserved = keepKeys at hraise
  generalize hdb2 : clearMarkers parts bak db1 = db2 at hraise
  have h2 : ∀ n, n ≠ .markers ∨ parts.settings = false → db2.tables n = db1.tables n := by
    intro n hn
    rw [← hdb2]
    exact clearMarkers_tables parts bak db1 hn
  have hcounters : (clearReferences r (repairIds r keepKeys db2)).counters = host.counters := by
    rw [clearReferences_counters, ← h.counters, ← clearMarkers_counters parts bak db1, hdb2]
    rfl
  obtain ⟨htables, hraised⟩ := raiseCounters_spec hraise
  have hids : ∀ n, n ≠ .settings → (db.tables n).rows.map (· "id") = (db2.tables n).rows.map (· "id") := by
    intro n hn
    rw [htables, clearReferences_ids, repairIds_tables _ _ _ hn]
  have hsettings : db.tables .settings = (repairIds r keepKeys db2).tables .settings := by
    rw [htables, clearReferences_tables _ _ (by decide) (by decide)]
  have hsettings2 : db2.tables .settings = db1.tables .settings := h2 _ (.inl (by decide))
  have hplain : ∀ n, n ∉ [TableName.groups, .routeProfiles, .settings] → db.tables n = db2.tables n := by
    intro n hn
    simp only [mem_cons, not_mem_nil, or_false, not_or] at hn
    rw [htables, clearReferences_tables _ _ hn.1 hn.2.1, repairIds_tables _ _ _ hn.2.2]
  have hintegers : ∀ n : TableName, n.key = some "id" → ∀ row ∈ (db2.tables n).rows, ∃ i, row "id" = .int i := by
    intro n hn
    have hmarkers : n ≠ .markers := by
      rintro rfl
      cases hn
    rw [h2 n (.inl hmarkers)]
    exact h.integerKeys hn
  obtain ⟨hremember, hgroup, hroute⟩ := repairIds_resolve r keepKeys db2 hintegers
  obtain ⟨hkeptRemember, hkeptGroup, hkeptRoute⟩ := repairIds_keep r keepKeys db2
  obtain ⟨hkeep, hkeepRemember, hkeepGroup, hkeepRoute⟩ := settingKeepKeys_spec r preserved
  rw [hkeys] at hkeep hkeepRemember hkeepGroup hkeepRoute
  have hsame : ∀ key, parts.settings = false ∨ key ∈ keepKeys → settingRows (db2.tables .settings) key = settingRows (host.tables .settings) key := by
    intro key hkey
    rw [hsettings2]
    rw [← hkeys, ← hr] at hkey
    exact h.setting hkey
  obtain ⟨mprofiles, mgroups, mrules, mroutes, msettings, mmarkers, motp, mlists, mscans⟩ :=
    mem_tables parts
  -- A table that is not replaced is as it was.
  have hmissing : ∀ {n : TableName} {part : Bool}, n ≠ .markers → (n ∈ parts.tables ↔ part = true) →
      (part && (bak.tables n).isSome) = false → db2.tables n = host.tables n := by
    intro n part hmarkers hmem hfalse
    rw [h2 n (.inl hmarkers)]
    refine h.missing ?_
    rcases Bool.and_eq_false_iff.1 hfalse with hpart | hbak
    · exact .inl fun hin => absurd ((hmem.1 hin).symm.trans hpart) (by decide)
    · exact .inr (by simpa using hbak)
  have hnumbered : ∀ c : Counter, c.table.key = some "id" ∧ c.table ≠ .settings ∧ c.table ≠ .markers := by
    intro c
    cases c <;> decide
  have hinteger : ∀ c : Counter, ∀ row ∈ (db.tables c.table).rows, ∃ i, row "id" = .int i := by
    intro c row hrow
    have hmem : row "id" ∈ (db2.tables c.table).rows.map (· "id") := hids _ (hnumbered c).2.1 ▸ mem_map.2 ⟨row, hrow, rfl⟩
    obtain ⟨row', hrow', heq⟩ := mem_map.1 hmem
    exact heq ▸ hintegers _ (hnumbered c).1 row' hrow'
  exact {
    counters := by
      intro c hc hint hbak
      rw [CounterAhead, hraised, if_pos hc, htables]
      exact raised_spec _ (hcounters ▸ hint) (htables ▸ hinteger c) hbak
    unchosen := by
      intro c hc
      have hsame : db.counters c = host.counters c := by rw [hraised, if_neg hc, hcounters]
      refine ⟨hsame, ?_⟩
      rintro ⟨last, hlast, hbelow⟩
      -- A table whose counter is not raised has the ids it had.
      have hnot : c.table ∉ parts.tables := by
        cases c <;> simp_all [chosenCounters, Counter.table]
      have hquiet : (db.tables c.table).rows.map (· "id") = (host.tables c.table).rows.map (· "id") := by
        rw [hids _ (hnumbered c).2.1, h2 _ (.inl (hnumbered c).2.2), h.other _ hnot]
      refine ⟨last, hsame.trans hlast, fun row hrow => ?_⟩
      have hmem : row "id" ∈ (host.tables c.table).rows.map (· "id") := hquiet ▸ mem_map.2 ⟨row, hrow, rfl⟩
      obtain ⟨row', hrow', heq⟩ := mem_map.1 hmem
      exact heq ▸ hbelow row' hrow'
    remember := by
      intro id hid
      rw [hsettings] at hid
      rw [idExists_congr (hids .profiles (by decide))]
      exact hremember id hid
    group := by
      intro hne hfits
      have heq := hids .groups (by decide)
      obtain ⟨id, hid, hexists⟩ := hgroup (rows_ne_nil_congr heq hne) (fits_congr heq hfits)
      rw [hsettings, ← idExists_congr heq] at *
      exact ⟨id, hid, hexists⟩
    route := by
      intro hne hfits
      have heq := hids .routeProfiles (by decide)
      obtain ⟨id, hid, hexists⟩ := hroute (rows_ne_nil_congr heq hne) (fits_congr heq hfits)
      rw [hsettings, ← idExists_congr heq] at *
      exact ⟨id, hid, hexists⟩
    rules := by
      intro hroutes b hb hcols profile hsource
      obtain ⟨k, hcopied, hk⟩ := h.chosen .routeRules (mrules.2 hroutes)
      rw [if_neg (by decide), hb] at hcopied
      rw [hplain _ (by decide), h2 _ (.inl (by decide))]
      rw [← hk rfl] at hsource
      exact hcopied.numbered hcols ((host.keys .routeRules).trans rfl) host.ruleColumns profile hsource
    tables := by
      intro n hn hother
      rw [hplain n hother]
      by_cases hmarkers : n = .markers
      · subst hmarkers
        have hfalse : parts.settings = false := by
          rw [← Bool.not_eq_true]
          exact fun htrue => hn (mmarkers.2 htrue)
        rw [h2 _ (.inr hfalse), h.other _ hn]
      · rw [h2 n (.inl hmarkers), h.other n hn]
    groupsTable := by
      intro hprofiles
      have hgroups : r.groups = false := by
        rw [← hr]
        show (parts.profiles && _) = false
        rw [hprofiles, Bool.false_and]
      rw [htables, clearReferences_groups, repairIds_tables _ _ _ (by decide),
        hmissing (by decide) mgroups ((congrArg Replaced.groups hr).trans hgroups), hgroups, hr]
      cases r.routes <;> rfl
    routesTable := by
      intro hnone
      have hroutes : r.routes = false := by
        rw [← hr]
        show (parts.routes && _) = false
        rw [hnone, Bool.false_and]
      rw [htables, clearReferences_routes, repairIds_tables _ _ _ (by decide),
        hmissing (by decide) mroutes ((congrArg Replaced.routes hr).trans hroutes), hroutes, hr]
      cases r.groups <;> rfl
    settingsTable := by
      intro hnone key hkey
      rw [hsettings, repairIds_settingRows r keepKeys db2 hkey]
      exact hsame key (.inl hnone)
    preserved := by
      intro key hpreserved hkey
      rw [hsettings, repairIds_settingRows r keepKeys db2 hkey]
      exact hsame key (.inr (hkeep key hpreserved))
    rememberKept := by
      intro hfalse hid
      have hprofiles : db2.tables .profiles = host.tables .profiles := hmissing (by decide) mprofiles hfalse
      rw [hr] at hfalse
      have hrows := hsame _ (.inr (hkeepRemember hfalse))
      rw [hsettings, hkeptRemember hfalse ?_, hrows]
      intro id hold
      rw [settingId_eq, hrows, ← settingId_eq] at hold
      rw [hprofiles]
      exact hid id hold
    groupKept := by
      intro hfalse id hid hexists
      have hgroups : db2.tables .groups = host.tables .groups := hmissing (by decide) mgroups hfalse
      rw [hr] at hfalse
      have hrows := hsame _ (.inr (hkeepGroup hfalse))
      rw [settingId_eq, ← hrows, ← settingId_eq] at hid
      rw [← hgroups] at hexists
      rw [hsettings, hkeptGroup hfalse id hid hexists, hrows]
    routeKept := by
      intro hfalse id hid hexists
      have hroutes : db2.tables .routeProfiles = host.tables .routeProfiles := hmissing (by decide) mroutes hfalse
      rw [hr] at hfalse
      have hrows := hsame _ (.inr (hkeepRoute hfalse))
      rw [settingId_eq, ← hrows, ← settingId_eq] at hid
      rw [← hroutes] at hexists
      rw [hsettings, hkeptRoute hfalse id hid hexists, hrows] }

end Final

theorem copyResult {host : HostDb} {bak : Backup} {parts : BackupParts} {preserved : List String} {db1 : Db}
    (h : copyTables bak (fun n => if n = .settings then settingKeepKeys (replaced parts bak) preserved
    else []) parts.tables host.toDb = some (db1, skipped)) : CopyResult host bak parts preserved db1 skipped := by
  obtain ⟨hcounters, hother, hchosen, -⟩ := copyTables_spec (tables_nodup parts) h
  refine ⟨hcounters, hother, fun n hn => ?_⟩
  obtain ⟨k, -, hcopied, hk⟩ := hchosen n hn
  exact ⟨k, hcopied, hk⟩

theorem restored_of_body {host : HostDb} {bak : Backup} {parts : BackupParts} {preserved : List String} {db : Db}
    (h : restoreBody bak parts preserved host.toDb = some (db, skipped)) : Restored host bak parts preserved db skipped := by
  rw [restoreBody] at h
  dsimp only at h
  split at h
  · cases h
  next db1 skipped' hcopy =>
    obtain ⟨db', hraise, heq⟩ := Option.map_eq_some_iff.1 h
    cases heq
    exact restored_of_copy (copyResult hcopy) hraise

/-- A restore leaves a consistent database. When it returns, either nothing was chosen and nothing
changed, or the counters are ahead, the three ids resolve, restored rules are numbered, and what was
not chosen or is preserved differs only in references that would dangle. When it throws up to
`COMMIT`, the database is as before; when a statement after `COMMIT` throws, it is as after a restore
that returned. -/
theorem restore_consistent (f : Faults) (host : HostDb) (bak : Backup) (parts : BackupParts) (preserved : List String) :
    (∀ skipped, (restoreSelective f bak parts preserved host.toDb).2 = .returned skipped →
    (parts.anyDb = false ∧ (restoreSelective f bak parts preserved host.toDb).1 = host.toDb) ∨
    Restored host bak parts preserved (restoreSelective f bak parts preserved host.toDb).1 skipped) ∧
    ((restoreSelective f bak parts preserved host.toDb).2 = .threw →
    ((f.attaches = false ∨ restoreBody bak parts preserved host.toDb = none ∨ f.commits = false) ∧
    (restoreSelective f bak parts preserved host.toDb).1 = host.toDb) ∨
    (f.attaches = true ∧ f.commits = true ∧ f.detaches = false ∧ ∃ skipped, restoreBody bak parts preserved host.toDb =
    some ((restoreSelective f bak parts preserved host.toDb).1, skipped) ∧
    Restored host bak parts preserved (restoreSelective f bak parts preserved host.toDb).1 skipped)) := by
  obtain ⟨attaches, commits, detaches⟩ := f
  rw [restoreSelective]
  split
  next hnone => exact ⟨fun _ _ => .inl ⟨by simpa using hnone, rfl⟩, nofun⟩
  · cases attaches with
    | false => exact ⟨nofun, fun _ => .inl ⟨.inl rfl, rfl⟩⟩
    | true =>
      cases hbody : restoreBody bak parts preserved host.toDb with
      | none => exact ⟨nofun, fun _ => .inl ⟨.inr (.inl rfl), rfl⟩⟩
      | some result =>
        obtain ⟨db, skipped⟩ := result
        cases commits with
        | false => exact ⟨nofun, fun _ => .inl ⟨.inr (.inr rfl), rfl⟩⟩
        | true =>
          cases detaches with
          | false => exact ⟨nofun, fun _ => .inr ⟨rfl, rfl, rfl, skipped, rfl, restored_of_body hbody⟩⟩
          | true =>
            refine ⟨fun k hk => ?_, nofun⟩
            cases hk
            exact .inr (restored_of_body hbody)

/-! ## An example -/

/-- A row with the given columns. -/
def rowOf (cells : List (String × Value)) : Row := fun c =>
  match cells.find? fun x => x.1 == c with
  | some x => x.2
  | none => .null

/-- The columns of the example's tables. -/
def exampleColumns : TableName → List Column
  | .profiles | .otpProfiles | .ipScans | .ipLists => [⟨"id", .null, false⟩]
  | .groups => [⟨"id", .null, false⟩, ⟨"route_id", .int (-1), true⟩]
  | .groupsOrder => [⟨"group_id", .null, false⟩, ⟨"display_order", .null, true⟩]
  | .routeProfiles => [⟨"id", .null, false⟩, ⟨"source_gid", .int (-1), true⟩]
  | .routeRules => [⟨"route_profile_id", .null, true⟩, ⟨"rule_order", .null, true⟩]
  | .settings => [⟨"key", .null, false⟩, ⟨"value", .null, true⟩]
  | .markers => [⟨"key", .null, false⟩]
  | .ipListEntries => [⟨"ip_list_id", .null, true⟩]

/-- One group with a route override, one route profile made from it, and the settings naming both. -/
def exampleRows : TableName → List Row
  | .groups => [rowOf [("id", .int 1), ("route_id", .int 2)]]
  | .routeProfiles => [rowOf [("id", .int 2), ("source_gid", .int 1)]]
  | .settings => [rowOf [("key", .text "current_group"), ("value", .text "1")],
      rowOf [("key", .text "current_route_id"), ("value", .text "2")]]
  | _ => []

/-- The program's database. -/
def exampleHost : HostDb where
  tables n := ⟨exampleColumns n, n.key, [], exampleRows n⟩
  counters
    | .group => .int 1
    | .routeProfile => .int 2
    | _ => .int 0
  keys _ := rfl
  integerKeys n k hk := by
    cases n <;> cases hk <;> intro row hrow
    case groups =>
      rw [mem_singleton.1 hrow]
      exact ⟨1, rfl⟩
    case routeProfiles =>
      rw [mem_singleton.1 hrow]
      exact ⟨2, rfl⟩
    all_goals cases hrow
  countersSet c := by cases c <;> decide
  ruleColumns := by decide
  settingsKey := by decide

/-- A backup of one route profile and two rules. -/
def exampleBackup (ruleColumns : List String) (rules : List Row) : Backup where
  tables
    | .routeProfiles => some ⟨["id"], [rowOf [("id", .int 1)]]⟩
    | .routeRules => some ⟨ruleColumns, rules⟩
    | _ => none
  entityIds := none

/-- Only routes are restored. -/
def routesOnly : BackupParts := ⟨false, true, false, false, false⟩

/-- The first of two rules has a condition this schema lacks. It is skipped and the other becomes
rule 0. -/
theorem restore_consistent_skipped_rule : Restored exampleHost (exampleBackup ["route_profile_id", "rule_order", "geoip"]
    [rowOf [("route_profile_id", .int 1), ("rule_order", .int 0), ("geoip", .text "[1]")],
    rowOf [("route_profile_id", .int 1), ("rule_order", .int 1)]]) routesOnly [] (restoreSelective ⟨true, true, true⟩
    (exampleBackup ["route_profile_id", "rule_order", "geoip"]
    [rowOf [("route_profile_id", .int 1), ("rule_order", .int 0), ("geoip", .text "[1]")],
    rowOf [("route_profile_id", .int 1), ("rule_order", .int 1)]]) routesOnly [] exampleHost.toDb).1 1 := by
  refine ((restore_consistent ⟨true, true, true⟩ exampleHost _ routesOnly []).1 1 ?_).resolve_left ?_
  · decide
  · exact fun h => absurd h.1 (by decide)

/-- The rules of a backup that has a gap of its own keep it, since no rule was skipped. The same
restore changes a table and a preserved setting that were not to be restored: the group's route
override is cleared and the current route moves to the profile that came. -/
theorem restore_keeps_gap : (restoreSelective ⟨true, true, true⟩ (exampleBackup ["route_profile_id", "rule_order"]
    [rowOf [("route_profile_id", .int 1), ("rule_order", .int 0)], rowOf [("route_profile_id", .int 1), ("rule_order", .int 2)]])
    routesOnly ["current_route_id"] exampleHost.toDb).2 = .returned 0 ∧
    ¬ Numbered (rulesOf ((restoreSelective ⟨true, true, true⟩ (exampleBackup ["route_profile_id", "rule_order"]
    [rowOf [("route_profile_id", .int 1), ("rule_order", .int 0)], rowOf [("route_profile_id", .int 1), ("rule_order", .int 2)]])
    routesOnly ["current_route_id"] exampleHost.toDb).1.tables .routeRules).rows (.int 1)) ∧
    (((restoreSelective ⟨true, true, true⟩ (exampleBackup ["route_profile_id", "rule_order"]
    [rowOf [("route_profile_id", .int 1), ("rule_order", .int 0)], rowOf [("route_profile_id", .int 1), ("rule_order", .int 2)]])
    routesOnly ["current_route_id"] exampleHost.toDb).1.tables .groups).rows.map (· "route_id") =
    [.int (-1)] ∧ (exampleHost.tables .groups).rows.map (· "route_id") = [.int 2]) ∧
    (settingRows ((restoreSelective ⟨true, true, true⟩ (exampleBackup ["route_profile_id", "rule_order"]
    [rowOf [("route_profile_id", .int 1), ("rule_order", .int 0)], rowOf [("route_profile_id", .int 1), ("rule_order", .int 2)]])
    routesOnly ["current_route_id"] exampleHost.toDb).1.tables .settings) "current_route_id").map (· "value") = [.text "1"] := by
  refine ⟨by decide, ?_, by decide, by decide⟩
  rw [Numbered]
  decide

end Throne.Database.Restore
