import Mathlib.Data.List.Nodup
import Mathlib.Tactic

/-!
# Tables with a primary key

A table is a list of rows in insertion order in which no two rows have the
same key. Distinctness is a field of the structure, so a table with a
duplicate key cannot be built, and reading by key (`get?`) determines
membership. The three writes are the ones SQL has: insert a row with a new
key, update the rows a condition selects, delete the rows a condition selects.
-/

namespace Elpis.Lib

variable {κ ρ : Type*} {key : ρ → κ}

/-- Rows in insertion order, distinct under `key`. -/
structure Table (key : ρ → κ) where
  rows : List ρ
  nodup : (rows.map key).Nodup

variable {p : ρ → Bool}

namespace Table

@[ext] theorem ext {t u : Table key} (h : t.rows = u.rows) : t = u := by
  cases t
  cases u
  simp only at h
  subst h
  rfl

instance [DecidableEq ρ] : DecidableEq (Table key) := fun t u =>
  decidable_of_iff (t.rows = u.rows) ⟨ext, congrArg rows⟩

def empty : Table key := ⟨[], List.nodup_nil⟩

instance : Inhabited (Table key) := ⟨empty⟩

instance : Membership ρ (Table key) := ⟨fun t r => r ∈ t.rows⟩

variable {t : Table key} {r : ρ}

@[simp] theorem mem_rows : r ∈ t.rows ↔ r ∈ t := Iff.rfl

@[simp] theorem not_mem_empty : r ∉ (empty : Table key) :=
  List.not_mem_nil

/-- Two rows with one key are one row. -/
theorem eq_of_key {r r' : ρ} (h : r ∈ t) (h' : r' ∈ t)
    (hk : key r = key r') : r = r' :=
  List.inj_on_of_nodup_map t.nodup h h' hk

/-! ## Reading -/

/-- `SELECT * FROM t WHERE key = k`. -/
def get? [DecidableEq κ] (t : Table key) (k : κ) : Option ρ :=
  t.rows.find? (fun r => decide (key r = k))

/-- `SELECT * FROM t WHERE p`, in insertion order. -/
def select (t : Table key) (p : ρ → Bool) : List ρ := t.rows.filter p

theorem mem_select :
    r ∈ t.select p ↔ r ∈ t ∧ p r = true := by
  simp [select]

/-- A condition that all selected rows share with one row selects at most one. -/
theorem length_select_le_one
    (h : ∀ r ∈ t, ∀ r' ∈ t, p r = true → p r' = true → r = r') : (t.select p).length ≤ 1 := by
  have hnodup : (t.select p).Nodup := (List.Nodup.of_map key t.nodup).filter p
  rcases hs : t.select p with _ | ⟨r, _ | ⟨r', rest⟩⟩
  · exact Nat.zero_le 1
  · exact le_rfl
  · -- two selected rows would be one row, twice
    have hr := mem_select.mp (hs ▸ List.mem_cons_self : r ∈ t.select p)
    have hr' := mem_select.mp
      (hs ▸ List.mem_cons_of_mem _ List.mem_cons_self : r' ∈ t.select p)
    rw [hs, h r hr.1 r' hr'.1 hr.2 hr'.2] at hnodup
    exact absurd List.mem_cons_self (List.nodup_cons.mp hnodup).1

section Get
variable [DecidableEq κ]

theorem get?_eq_some {k : κ} :
    t.get? k = some r ↔ r ∈ t ∧ key r = k := by
  constructor
  · intro h
    exact ⟨List.mem_of_find?_eq_some h, by simpa using List.find?_some h⟩
  · rintro ⟨hr, rfl⟩
    cases hf : t.get? (key r) with
    | none =>
        have := List.find?_eq_none.mp hf r hr
        simp at this
    | some r' =>
        have hk : key r' = key r := by simpa using List.find?_some hf
        rw [eq_of_key (List.mem_of_find?_eq_some hf) hr hk]

theorem get?_eq_none {k : κ} :
    t.get? k = none ↔ ∀ r ∈ t, key r ≠ k := by
  simp [get?]

theorem get?_key (h : r ∈ t) : t.get? (key r) = some r :=
  get?_eq_some.mpr ⟨h, rfl⟩

theorem mem_of_get? {k : κ} (h : t.get? k = some r) :
    r ∈ t := (get?_eq_some.mp h).1

theorem key_of_get? {k : κ} (h : t.get? k = some r) :
    key r = k := (get?_eq_some.mp h).2

@[simp] theorem get?_empty (k : κ) : (empty : Table key).get? k = none := rfl

end Get

/-! ## Writing -/

/-- `INSERT INTO t VALUES r`, for a key no row has. -/
def insert (t : Table key) (r : ρ) (fresh : ∀ x ∈ t, key x ≠ key r) :
    Table key where
  rows := t.rows ++ [r]
  nodup := by
    rw [List.map_append, List.nodup_append]
    refine ⟨t.nodup, List.nodup_singleton _, ?_⟩
    intro a ha b hb
    obtain ⟨x, hx, rfl⟩ := List.mem_map.mp ha
    simp only [List.map_cons, List.map_nil, List.mem_singleton] at hb
    exact hb ▸ fresh x hx

/-- `UPDATE t SET f WHERE p`, for an `f` that leaves the key alone. -/
def update (t : Table key) (p : ρ → Bool) (f : ρ → ρ)
    (hf : ∀ r, key (f r) = key r) : Table key where
  rows := t.rows.map (fun r => if p r then f r else r)
  nodup := by
    have hk : ∀ r, key (if p r then f r else r) = key r := by
      intro r
      split
      · exact hf r
      · rfl
    simpa [List.map_map, Function.comp_def, hk] using t.nodup

/-- `DELETE FROM t WHERE p`. -/
def delete (t : Table key) (p : ρ → Bool) : Table key where
  rows := t.rows.filter (fun r => !p r)
  nodup := t.nodup.sublist (List.filter_sublist.map key)

/-- `INSERT INTO t VALUES r`, refused when a row has the key already. -/
def insert? [DecidableEq κ] (t : Table key) (r : ρ) : Option (Table key) :=
  if h : t.get? (key r) = none then some (t.insert r (get?_eq_none.mp h)) else none

/-- `INSERT INTO t VALUES r ON CONFLICT DO UPDATE`, where the update writes `r`: the
row with the key is written in its place. -/
def put [DecidableEq κ] (t : Table key) (r : ρ) : Table key :=
  if h : t.get? (key r) = none then t.insert r (get?_eq_none.mp h)
  else t.update (fun _ => true) (fun x => if key x = key r then r else x) (by
    intro x
    split
    · exact Eq.symm ‹_›
    · rfl)

theorem mem_insert {r x : ρ} {fresh : ∀ x ∈ t, key x ≠ key r} :
    x ∈ t.insert r fresh ↔ x ∈ t ∨ x = r := by
  show x ∈ t.rows ++ [r] ↔ _
  rw [List.mem_append, List.mem_singleton]
  rfl

theorem mem_update {f : ρ → ρ}
    {hf : ∀ r, key (f r) = key r} {x : ρ} :
    x ∈ t.update p f hf ↔ ∃ r ∈ t, (if p r then f r else r) = x :=
  List.mem_map

theorem mem_delete {x : ρ} :
    x ∈ t.delete p ↔ x ∈ t ∧ p x = false := by
  show x ∈ t.rows.filter _ ↔ _
  simp

section GetWrite
variable [DecidableEq κ]

theorem get?_insert {fresh : ∀ x ∈ t, key x ≠ key r}
    (k : κ) :
    (t.insert r fresh).get? k = if k = key r then some r else t.get? k := by
  by_cases h : k = key r
  · rw [if_pos h]
    exact get?_eq_some.mpr ⟨mem_insert.mpr (Or.inr rfl), h.symm⟩
  · rw [if_neg h]
    cases ht : t.get? k with
    | some x =>
        obtain ⟨hx, hk⟩ := get?_eq_some.mp ht
        exact get?_eq_some.mpr ⟨mem_insert.mpr (Or.inl hx), hk⟩
    | none =>
        rw [get?_eq_none]
        intro x hx hk
        rcases mem_insert.mp hx with hx | rfl
        · exact get?_eq_none.mp ht x hx hk
        · exact h hk.symm

theorem insert?_eq_some {t t' : Table key} :
    t.insert? r = some t' ↔ ∃ fresh, t' = t.insert r fresh := by
  unfold insert?
  constructor
  · intro h
    split at h
    · exact ⟨_, (Option.some.inj h).symm⟩
    · cases h
  · rintro ⟨fresh, rfl⟩
    rw [dif_pos (get?_eq_none.mpr fresh)]

theorem get?_update {f : ρ → ρ}
    {hf : ∀ r, key (f r) = key r} (k : κ) :
    (t.update p f hf).get? k = (t.get? k).map (fun r => if p r then f r else r) := by
  have hk : ∀ r, key (if p r then f r else r) = key r := by
    intro r
    split
    · exact hf r
    · rfl
  cases ht : t.get? k with
  | some r =>
      obtain ⟨hr, rfl⟩ := get?_eq_some.mp ht
      exact get?_eq_some.mpr ⟨mem_update.mpr ⟨r, hr, rfl⟩, hk r⟩
  | none =>
      rw [Option.map_none, get?_eq_none]
      intro x hx
      obtain ⟨r, hr, rfl⟩ := mem_update.mp hx
      rw [hk]
      exact get?_eq_none.mp ht r hr

theorem get?_put (k : κ) :
    (t.put r).get? k = if k = key r then some r else t.get? k := by
  unfold put
  split
  · exact get?_insert k
  · rename_i hsome
    rw [get?_update]
    obtain ⟨x, hx⟩ := Option.ne_none_iff_exists'.mp hsome
    by_cases h : k = key r
    · rw [if_pos h, h, hx]
      simp [key_of_get? hx]
    · rw [if_neg h]
      cases ht : t.get? k with
      | none => rfl
      | some y =>
          have hy : key y ≠ key r := key_of_get? ht ▸ h
          simp [hy]

theorem mem_put {r x : ρ} :
    x ∈ t.put r ↔ x = r ∨ x ∈ t ∧ key x ≠ key r := by
  constructor
  · intro hx
    have hget := get?_key hx
    rw [get?_put] at hget
    split at hget
    · exact Or.inl (Option.some.inj hget).symm
    · exact Or.inr ⟨mem_of_get? hget, by assumption⟩
  · rintro (rfl | ⟨hx, hne⟩)
    · exact mem_of_get? ((get?_put (key x)).trans (if_pos rfl))
    · refine mem_of_get? (k := key x) ?_
      rw [get?_put, if_neg hne]
      exact get?_key hx

theorem get?_delete (k : κ) :
    (t.delete p).get? k = (t.get? k).filter (fun r => !p r) := by
  cases ht : t.get? k with
  | some r =>
      obtain ⟨hr, rfl⟩ := get?_eq_some.mp ht
      cases hp : p r with
      | false =>
          simp only [Option.filter_some, hp, Bool.not_false, if_true]
          exact get?_key (mem_delete.mpr ⟨hr, hp⟩)
      | true =>
          simp only [Option.filter_some, hp, Bool.not_true]
          refine get?_eq_none.mpr ?_
          intro x hx hk
          obtain ⟨hx, hpx⟩ := mem_delete.mp hx
          rw [eq_of_key hx hr hk, hp] at hpx
          exact Bool.noConfusion hpx
  | none =>
      rw [Option.filter_none, get?_eq_none]
      intro x hx
      exact get?_eq_none.mp ht x (mem_delete.mp hx).1

/-- Writing a row that is there changes nothing. -/
theorem put_of_mem (h : r ∈ t) : t.put r = t := by
  have hsome : t.get? (key r) ≠ none := by
    rw [get?_key h]
    exact Option.some_ne_none r
  unfold put
  rw [dif_neg hsome]
  refine Table.ext ((List.map_congr_left ?_).trans (List.map_id t.rows))
  intro x hx
  show (if key x = key r then r else x) = x
  split
  · exact eq_of_key h hx (Eq.symm ‹_›)
  · rfl

/-- A row with a new key goes to the end. -/
theorem rows_put_of_none (h : t.get? (key r) = none) :
    (t.put r).rows = t.rows ++ [r] := by
  unfold put
  rw [dif_pos h]
  rfl

/-- The row with a key goes, whatever the order of the others. -/
theorem perm_delete {l : List ρ} (h : t.rows.Perm (r :: l)) :
    (t.delete (fun x => decide (key x = key r))).rows.Perm l := by
  have hnodup : ((r :: l).map key).Nodup := (h.map key).nodup_iff.mp t.nodup
  rw [List.map_cons, List.nodup_cons] at hnodup
  have hl : l.filter (fun x => !decide (key x = key r)) = l := by
    refine List.filter_eq_self.mpr ?_
    intro x hx
    simp only [Bool.not_eq_true', decide_eq_false_iff_not]
    intro hk
    exact hnodup.1 (hk ▸ List.mem_map_of_mem hx)
  have hperm := h.filter (fun x => !decide (key x = key r))
  rw [List.filter_cons_of_neg (by simp), hl] at hperm
  exact hperm

end GetWrite

end Table

/-! ## Numbered tables

`INTEGER PRIMARY KEY AUTOINCREMENT`: the table remembers the largest number it
ever gave out, and a new row takes the next one, also after deletions. -/

structure AutoTable (id : ρ → ℕ) extends Table id where
  seq : ℕ
  le_seq : ∀ r ∈ toTable, id r ≤ seq

namespace AutoTable

variable {id : ρ → ℕ}

@[ext] theorem ext {t u : AutoTable id} (h : t.toTable = u.toTable)
    (hs : t.seq = u.seq) : t = u := by
  cases t
  cases u
  simp only at h hs
  subst h
  subst hs
  rfl

instance [DecidableEq ρ] : DecidableEq (AutoTable id) := fun t u =>
  decidable_of_iff (t.toTable = u.toTable ∧ t.seq = u.seq)
    ⟨fun h => ext h.1 h.2, by rintro rfl; exact ⟨rfl, rfl⟩⟩

def empty : AutoTable id :=
  ⟨Table.empty, 0, fun _ hr => absurd hr Table.not_mem_empty⟩

/-- The number the next row gets. -/
def next (t : AutoTable id) : ℕ := t.seq + 1

theorem next_fresh (t : AutoTable id) {mk : ℕ → ρ} (hmk : ∀ n, id (mk n) = n) :
    ∀ x ∈ t.toTable, id x ≠ id (mk t.next) := by
  intro x hx hk
  have := t.le_seq x hx
  rw [hk, hmk] at this
  exact Nat.not_succ_le_self _ this

/-- Insert the row that `mk` makes of its number. -/
def push (t : AutoTable id) (mk : ℕ → ρ) (hmk : ∀ n, id (mk n) = n) :
    AutoTable id where
  toTable := t.toTable.insert (mk t.next) (t.next_fresh hmk)
  seq := t.next
  le_seq := by
    intro r hr
    rcases Table.mem_insert.mp hr with hr | rfl
    · exact (t.le_seq r hr).trans (Nat.le_succ _)
    · exact (hmk _).le

def update (t : AutoTable id) (p : ρ → Bool) (f : ρ → ρ)
    (hf : ∀ r, id (f r) = id r) : AutoTable id where
  toTable := t.toTable.update p f hf
  seq := t.seq
  le_seq := by
    intro r hr
    obtain ⟨x, hx, rfl⟩ := Table.mem_update.mp hr
    have hid : id (if p x then f x else x) = id x := by
      split
      · exact hf x
      · rfl
    exact hid ▸ t.le_seq x hx

def delete (t : AutoTable id) (p : ρ → Bool) : AutoTable id where
  toTable := t.toTable.delete p
  seq := t.seq
  le_seq := fun r hr => t.le_seq r (Table.mem_delete.mp hr).1

instance : Membership ρ (AutoTable id) := ⟨fun t r => r ∈ t.toTable⟩

theorem mem_push {t : AutoTable id} {mk : ℕ → ρ} {hmk : ∀ n, id (mk n) = n}
    {x : ρ} : x ∈ t.push mk hmk ↔ x ∈ t ∨ x = mk t.next := by
  show x ∈ t.toTable.insert (mk t.next) (t.next_fresh hmk) ↔ _
  exact Table.mem_insert

theorem get?_push {t : AutoTable id} {mk : ℕ → ρ} {hmk : ∀ n, id (mk n) = n} (k : ℕ) :
    (t.push mk hmk).get? k = if k = t.next then some (mk t.next) else t.get? k := by
  show (t.toTable.insert (mk t.next) (t.next_fresh hmk)).get? k = _
  rw [Table.get?_insert, hmk]

theorem get?_next (t : AutoTable id) : t.get? t.next = none := by
  apply Table.get?_eq_none.mpr
  intro r hr hk
  have hle := t.le_seq r hr
  rw [hk] at hle
  exact Nat.not_succ_le_self _ hle

theorem mem_update {t : AutoTable id} {f : ρ → ρ}
    {hf : ∀ r, id (f r) = id r} {x : ρ} :
    x ∈ t.update p f hf ↔ ∃ r ∈ t, (if p r then f r else r) = x := by
  show x ∈ t.toTable.update p f hf ↔ _
  exact Table.mem_update

theorem mem_delete {t : AutoTable id} {x : ρ} :
    x ∈ t.delete p ↔ x ∈ t ∧ p x = false := by
  show x ∈ t.toTable.delete p ↔ _
  exact Table.mem_delete

end AutoTable

end Elpis.Lib
