import Mathlib.Data.List.Sort
import Throne.Lib.Texts

/-!
# JSON values

Documents as they are after parsing. An object is a list of fields of which the first one under a key
counts, and `put` writes a field where it stands. A number is either an integer or kept by the text it
is shown with. The reading functions are total: what is absent or of another kind reads as empty.
-/

namespace Throne.Lib.Json

open Lib.Texts List

/-- A JSON value. -/
inductive Json where
  | null
  | bool (b : Bool)
  | int (n : Int)
  | real (shown : Text)
  | text (t : Text)
  | array (items : List Json)
  | object (fields : List (Text × Json))

/-- The fields of an object. -/
abbrev Fields := List (Text × Json)

namespace Fields

/-- The field under a key. -/
def get (fields : Fields) (key : Text) : Option Json := fields.lookup key

/-- The object with a field written. -/
def put (key : Text) (value : Json) : Fields → Fields
  | [] => [(key, value)]
  | (k, v) :: fields => if k = key then (key, value) :: fields else (k, v) :: put key value fields

variable {key : Text}

theorem get_cons_self {field : Text × Json} (h : field.1 = key) (fields : Fields) : Fields.get (field :: fields) key = some field.2 := by
  rw [get, lookup_cons, h, beq_self_eq_true]

theorem get_cons_other {field : Text × Json} (h : field.1 ≠ key) (fields : Fields) : Fields.get (field :: fields) key = fields.get key := by
  have hne : (key == field.1) = false := by simpa using fun heq : key = field.1 => h heq.symm
  rw [get, lookup_cons, hne, get]

/-- Fields behind others do not count where those have the key. -/
theorem get_append {fields : Fields} {value : Json} (h : fields.get key = some value)
    (more : Fields) : Fields.get (fields ++ more) key = some value := by
  induction fields with
  | nil => exact absurd h (by simp [get])
  | cons field fields ih =>
    rw [cons_append]
    by_cases hkey : field.1 = key
    · rw [get_cons_self hkey] at h ⊢
      exact h
    · rw [get_cons_other hkey] at h ⊢
      exact ih h

/-- Where no field has the key, those behind count. -/
theorem get_append_absent {fields : Fields} (h : fields.get key = none) (more : Fields) : Fields.get (fields ++ more) key = more.get key := by
  induction fields with
  | nil => rfl
  | cons field fields ih =>
    by_cases hkey : field.1 = key
    · rw [get_cons_self hkey] at h
      exact absurd h (Option.some_ne_none _)
    · rw [get_cons_other hkey] at h
      rw [cons_append, get_cons_other hkey]
      exact ih h

theorem get_or (fields more : Fields) (key : Text) : Fields.get (fields ++ more) key = (fields.get key).or (more.get key) := by
  cases h : fields.get key with
  | none => exact get_append_absent h more
  | some value => exact get_append h more

theorem get_cons (k key : Text) (value : Json) (fields : Fields) :
    Fields.get ((k, value) :: fields) key = if k = key then some value else fields.get key := by
  split
  · exact get_cons_self ‹_› fields
  · exact get_cons_other ‹_› fields

@[simp] theorem get_nil (key : Text) : Fields.get [] key = none := rfl

/-- A key that no field has. -/
theorem get_absent {fields : Fields} (h : key ∉ fields.map Prod.fst) : fields.get key = none := by
  rw [get, lookup_eq_none_iff]
  intro field hfield
  simpa using fun heq : key = field.1 => h (heq ▸ mem_map_of_mem hfield)

@[simp] theorem get_put_self (key : Text) (value : Json) (fields : Fields) : (put key value fields).get key = some value := by
  induction fields with
  | nil => simp [put, get]
  | cons field fields ih =>
    obtain ⟨k, v⟩ := field
    by_cases h : k = key
    · simp [put, get, h]
    · simp only [put, h, if_false]
      have hne : (key == k) = false := by simpa using fun heq => h heq.symm
      simp only [get, lookup_cons, hne]
      exact ih

theorem get_put_other {other : Text} (h : other ≠ key) (value : Json) (fields : Fields) : (put key value fields).get other = fields.get other := by
  have hne : (other == key) = false := by simpa using h
  induction fields with
  | nil => simp [put, get, lookup_cons, hne]
  | cons field fields ih =>
    obtain ⟨k, v⟩ := field
    by_cases hk : k = key
    · subst hk
      simp [put, get, lookup_cons, hne]
    · simp only [put, hk, if_false]
      simp only [get, lookup_cons]
      cases other == k
      · exact ih
      · rfl

end Fields

/-- The items of an array. -/
def Json.toArray : Json → List Json
  | .array items => items
  | _ => []

/-- The fields of an object. -/
def Json.toObject : Json → Fields
  | .object fields => fields
  | _ => []

/-- The text of a string. -/
def Json.toText : Json → Text
  | .text t => t
  | _ => []

namespace Fields

/-- The array under a key. -/
def arrayAt (fields : Fields) (key : Text) : List Json := ((fields.get key).map Json.toArray).getD []

/-- The object under a key. -/
def objectAt (fields : Fields) (key : Text) : Fields := ((fields.get key).map Json.toObject).getD []

/-- The text under a key. -/
def textAt (fields : Fields) (key : Text) : Text := ((fields.get key).map Json.toText).getD []

theorem textAt_absent {fields : Fields} {key : Text} (h : key ∉ fields.map Prod.fst) : fields.textAt key = [] := by
  rw [textAt, get_absent h]
  rfl

@[simp] theorem arrayAt_put_self (key : Text) (items : List Json) (fields : Fields) : (put key (.array items) fields).arrayAt key = items := by
  rw [arrayAt, get_put_self]
  rfl

@[simp] theorem objectAt_put_self (key : Text) (inner fields : Fields) : (put key (.object inner) fields).objectAt key = inner := by
  rw [objectAt, get_put_self]
  rfl

theorem arrayAt_put_other {key other : Text} (h : other ≠ key) (value : Json) (fields : Fields) :
    (put key value fields).arrayAt other = fields.arrayAt other := by
  rw [arrayAt, get_put_other h, arrayAt]

theorem objectAt_put_other {key other : Text} (h : other ≠ key) (value : Json) (fields : Fields) :
    (put key value fields).objectAt other = fields.objectAt other := by
  rw [objectAt, get_put_other h, objectAt]

end Fields

end Throne.Lib.Json
