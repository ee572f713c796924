import Elpis.Js.Value

/-!
# Records as JSON objects

A record is written as an object, and a field that is `undefined` is not written. A reader
takes an object apart again field by field, with a check on each. `Reads` says what a
reader makes of what was written: the value where the check holds, and nothing elsewhere.
-/

namespace Elpis.Js

/-- `Number.isSafeInteger`. -/
def isSafeInteger (q : ℚ) : Bool :=
  decide (q.den = 1) && decide (-9007199254740991 ≤ q) && decide (q ≤ 9007199254740991)

namespace JsonOf

variable {members : List (String × Option Value)}

theorem find?_written_eq_none {key : String}
    (hfresh : key ∉ members.map Prod.fst) :
    (members.filterMap (fun (key, value) => value.map (fun v => (key, v)))).reverse.find?
      (fun f => decide (f.1 = key)) = none := by
  rw [List.find?_eq_none]
  rintro ⟨k, v⟩ hmem hk
  obtain ⟨⟨k', v'⟩, hm, hv⟩ := List.mem_filterMap.mp (List.mem_reverse.mp hmem)
  obtain ⟨w, rfl, hw⟩ := Option.map_eq_some_iff.mp hv
  cases hw
  exact hfresh (List.mem_map.mpr ⟨_, hm, of_decide_eq_true hk⟩)

/-- A field of a written record is found under its name. -/
theorem field?_object
    (hkeys : (members.map Prod.fst).Nodup) (key : String) :
    (object members).field? key = (members.lookup key).join := by
  simp only [field?, object]
  induction members with
  | nil => rfl
  | cons m ms ih =>
      obtain ⟨name, value⟩ := m
      obtain ⟨hfresh, hrest⟩ := List.nodup_cons.mp hkeys
      by_cases hkey : key = name
      · -- the later members do not have this name
        subst hkey
        have hnone := find?_written_eq_none hfresh
        cases value with
        | none => simpa using hnone
        | some v => simp [List.find?_append, hnone]
      · have hne : (key == name) = false := beq_false_of_ne hkey
        rw [List.lookup_cons, hne]
        cases value with
        | none => simpa using ih hrest
        | some v =>
            simp only [List.filterMap_cons, Option.map_some, List.reverse_cons,
              List.find?_append, List.find?_singleton, decide_eq_true_eq, Ne.symm hkey, if_false,
              Option.or_none]
            exact ih hrest

/-- `read(value[key])` of a field that may be missing. -/
def read? {α : Type} (v : Value) (key : String) (read : Value → Option α) : Option α :=
  (v.field? key).bind read

theorem read?_object {α : Type}
    (hkeys : (members.map Prod.fst).Nodup) (key : String) (read : Value → Option α) :
    (object members).read? key read = (members.lookup key).join.bind read := by
  rw [read?, field?_object hkeys]

end JsonOf

/-! ## Readers -/

/-- The reader takes back what was written where the check holds, and nothing elsewhere. -/
def Reads {α : Type} (write : α → Value) (read : Value → Option α) (ok : α → Bool) : Prop :=
  ∀ a, read (write a) = if ok a then some a else none

section Reads
variable {α : Type} {write : α → Value} {read : Value → Option α} {ok : α → Bool}

/-- A field that may be missing, or dropped by its check. -/
theorem Reads.optional (h : Reads write read ok) (o : Option α) :
    (o.map write).bind read = o.filter ok := by
  cases o with
  | none => rfl
  | some a =>
      rw [Option.map_some, Option.bind_some, h a, Option.filter_some]

/-- What is dropped is not equal to what was written. -/
theorem filter_eq_self {o : Option α} : o.filter ok = o ↔ ∀ a ∈ o, ok a = true := by
  cases o with
  | none => simp
  | some a => simp [Option.filter_some]

/-- A field that may be missing comes back when its value does. -/
theorem optional_eq_iff {o : Option α} :
    (o.map write).bind read = o ↔ ∀ a ∈ o, read (write a) = some a := by
  cases o <;> simp

end Reads

section Numbered
variable {α β : Type} {write : α → β} {read : β → ℕ → Option α}

/-- A list comes back from a reader that is told each member's place. -/
theorem mapM_zipIdx_eq_iff (as : List α) (n : ℕ) :
    ((as.map write).zipIdx n).mapM (fun e => read e.1 e.2) = some as ↔
      ∀ e ∈ as.zipIdx n, read (write e.1) e.2 = some e.1 := by
  induction as generalizing n with
  | nil => simp
  | cons a as ih =>
      rw [List.map_cons, List.zipIdx_cons, List.zipIdx_cons, List.mapM_cons,
        List.forall_mem_cons, ← ih (n + 1)]
      simp [Option.bind_eq_some_iff]

theorem mapM_length {f : α → Option β} {as : List α} {bs : List β} (h : as.mapM f = some bs) :
    bs.length = as.length := by
  induction as generalizing bs with
  | nil => simp_all
  | cons a as ih =>
      simp only [List.mapM_cons, Option.bind_eq_bind, Option.bind_eq_some_iff] at h
      obtain ⟨b, -, bs', hbs, hcons⟩ := h
      cases hcons
      simp [ih hbs]

end Numbered

/-- A string that is kept where it passes a check. -/
def textWhere (p : String → Bool) (v : Value) : Option String := v.str?.filter p

/-- A number that is kept where it passes a check. -/
def numberWhere (p : ℚ → Bool) (v : Value) : Option ℚ := v.num?.filter p

theorem reads_text (p : String → Bool) : Reads Value.str (textWhere p) p := by
  intro s
  simp [textWhere, JsonOf.str?, Option.filter_some]

theorem reads_number (p : ℚ → Bool) : Reads Value.num (numberWhere p) p := by
  intro q
  simp [numberWhere, JsonOf.num?, Option.filter_some]

theorem reads_str : Reads Value.str JsonOf.str? (fun _ => true) := fun _ => rfl

theorem reads_bool : Reads Value.bool JsonOf.bool? (fun _ => true) := fun _ => rfl

/-- A value that may be `null`. -/
def writeNullable {α : Type} (write : α → Value) : Option α → Value
  | none => .null
  | some a => write a

/-- `value === null ? null : read(value)`. -/
def readNullable {α : Type} (read : Value → Option α) : Value → Option (Option α)
  | .null => some none
  | v => (read v).map some

theorem Reads.nullable {α : Type} {write : α → Value} {read : Value → Option α} {ok : α → Bool}
    (h : Reads write read ok) (hnull : ∀ a, write a ≠ .null) :
    Reads (writeNullable write) (readNullable read) (fun o => o.all ok) := by
  intro o
  cases o with
  | none => rfl
  | some a =>
      have hread : readNullable read (write a) = (read (write a)).map some := by
        cases hw : write a with
        | null => exact absurd hw (hnull a)
        | bool | num | str | arr | obj => rfl
      rw [writeNullable, hread, h a]
      by_cases hok : ok a = true <;> simp [hok]

/-! ## Names -/

/-- The values of an enumeration by the names they are written as. -/
structure Names (α : Type) where
  all : List α
  text : α → String
  found : ∀ a, all.find? (fun b => decide (text b = text a)) = some a

namespace Names
variable {α : Type} (names : Names α)

def write (a : α) : Value := .str (names.text a)

def read (v : Value) : Option α :=
  v.str?.bind (fun s => names.all.find? (fun b => decide (names.text b = s)))

@[simp] theorem read_write (a : α) : names.read (names.write a) = some a := names.found a

theorem reads : Reads names.write names.read (fun _ => true) := names.read_write

end Names

end Elpis.Js
