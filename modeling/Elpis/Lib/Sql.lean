import Elpis.Lib.Table

/-!
# Databases of named relations

What migrations need of SQL: relations with columns, keys, checks and references, that are
created, filled, renamed and dropped by name. An operation that the database refuses is an error.
Each operation has one lemma: when it succeeds, and what each name stands for behind it.
-/

namespace Elpis.Lib.Sql

inductive Value where
  | null
  | integer (n : ℤ)
  | text (s : String)
deriving DecidableEq, Repr

def Value.isInteger : Value → Bool
  | .integer _ => true
  | _ => false

abbrev Row := String → Value

inductive Affinity where
  | integer | text
deriving DecidableEq, Repr

structure Reference where
  table : String
  column : String
deriving DecidableEq, Repr

structure Column where
  name : String
  type : Affinity
  notNull : Bool
  primaryKey : Bool
  references : Option Reference
deriving DecidableEq, Repr

structure Relation where
  name : String
  columns : List Column
  /-- `PRIMARY KEY` and `UNIQUE` over columns. -/
  keys : List (List String)
  checks : List (Row → Bool)
  rows : List Row

abbrev Database := Table Relation.name

/-! ## Constraints -/

/-- `NOT NULL`, and that an integer primary key is an integer. -/
def Column.Admits (c : Column) (v : Value) : Prop :=
  (c.notNull = true → v ≠ .null) ∧ (c.primaryKey = true → c.type = .integer → v.isInteger = true)

instance (c : Column) (v : Value) : Decidable (c.Admits v) :=
  inferInstanceAs (Decidable ((_ → _) ∧ (_ → _ → _)))

namespace Relation
variable (rel : Relation)

/-- The columns that have to differ, each list together. -/
def uniques : List (List String) :=
  (rel.columns.filter Column.primaryKey).map (fun c => [c.name]) ++ rel.keys

def Admits (row : Row) : Prop :=
  (∀ c ∈ rel.columns, c.Admits (row c.name)) ∧ ∀ check ∈ rel.checks, check row = true

/-- No unique key has the same values in both rows; nulls are never the same. -/
def Apart (r s : Row) : Prop := ∀ key ∈ rel.uniques, ∃ c ∈ key, r c ≠ s c ∨ r c = .null

/-- A column refers to the relation of this name. -/
def RefersTo (name : String) : Prop := ∃ c ∈ rel.columns, c.references.map Reference.table = some name

instance (row : Row) : Decidable (rel.Admits row) := inferInstanceAs (Decidable ((∀ c ∈ _, _) ∧ ∀ c ∈ _, _))

instance (r s : Row) : Decidable (rel.Apart r s) := inferInstanceAs (Decidable (∀ key ∈ _, ∃ c ∈ key, _))

instance (name : String) : Decidable (rel.RefersTo name) := inferInstanceAs (Decidable (∃ c ∈ _, _ = _))

/-- The rows meet the relation's own constraints. -/
def Valid : Prop := (∀ row ∈ rel.rows, rel.Admits row) ∧ rel.rows.Pairwise rel.Apart

instance : Decidable rel.Valid := inferInstanceAs (Decidable ((∀ row ∈ _, _) ∧ List.Pairwise _ _))

end Relation

/-- `SELECT * FROM name`; there are none without the relation. -/
def rowsOf (db : Database) (name : String) : List Row := ((db.get? name).map Relation.rows).getD []

/-- The value refers to a row there is, or to none. -/
def Found (db : Database) (ref : Reference) (v : Value) : Prop :=
  v = .null ∨ ∃ row ∈ rowsOf db ref.table, row ref.column = v

instance (db : Database) (ref : Reference) (v : Value) : Decidable (Found db ref v) :=
  inferInstanceAs (Decidable (_ ∨ ∃ row ∈ _, _ = _))

def ForeignKeys (db : Database) : Prop :=
  ∀ rel ∈ db.rows, ∀ c ∈ rel.columns, ∀ ref ∈ c.references, ∀ row ∈ rel.rows, Found db ref (row c.name)

instance (db : Database) : Decidable (ForeignKeys db) :=
  inferInstanceAs (Decidable (∀ rel ∈ db.rows, ∀ c ∈ Relation.columns rel, ∀ ref ∈ Column.references c,
    ∀ row ∈ Relation.rows rel, Found db ref (row c.name)))

/-! ## Statements -/

section Statements
variable (db : Database)

/-- `CREATE TABLE`. -/
def create (rel : Relation) : Except String Database :=
  if (db.get? rel.name).isSome then .error s!"table {rel.name} already exists" else .ok (db.put rel)

/-- `INSERT INTO name`. -/
def insert (name : String) (row : Row) : Except String Database :=
  match db.get? name with
  | none => .error s!"no such table: {name}"
  | some rel =>
      if rel.Admits row ∧ ∀ r ∈ rel.rows, rel.Apart r row then .ok (db.put { rel with rows := rel.rows ++ [row] })
      else .error "constraint failed"

/-- `INSERT INTO name` of several rows. -/
def insertAll (name : String) (rows : List Row) : Except String Database :=
  rows.foldlM (fun db row => insert db name row) db

/-- A renamed relation takes the references to it along. -/
def Column.retarget (old new : String) (c : Column) : Column :=
  { c with references := c.references.map (fun ref => if ref.table = old then { ref with table := new } else ref) }

def Relation.retarget (old new : String) (rel : Relation) : Relation :=
  { rel with columns := rel.columns.map (Column.retarget old new) }

theorem Relation.retarget_name (old new : String) (rel : Relation) : (rel.retarget old new).name = rel.name := rfl

/-- `ALTER TABLE old RENAME TO new`. -/
def rename (old new : String) : Except String Database :=
  match db.get? old with
  | none => .error s!"no such table: {old}"
  | some rel =>
      if (db.get? new).isSome then .error s!"there is already another table with this name: {new}"
      else .ok (((db.delete (fun r => decide (r.name = old))).put { rel with name := new }).update
        (fun _ => true) (Relation.retarget old new) (Relation.retarget_name old new))

/-- `DROP TABLE`. Its rows go first, and what refers to them may go with them; that is not
followed here, so that a relation that others refer to is not dropped. -/
def drop (name : String) : Except String Database :=
  match db.get? name with
  | none => .error s!"no such table: {name}"
  | some _ =>
      if ∃ rel ∈ db.rows, rel.name ≠ name ∧ rel.RefersTo name then .error s!"{name} is referred to"
      else .ok (db.delete (fun r => decide (r.name = name)))

/-- `DROP TABLE IF EXISTS`. -/
def dropIfExists (name : String) : Except String Database :=
  if (db.get? name).isSome then drop db name else .ok db

/-- A transaction with deferred references. -/
def transaction (body : Database → Except String Database) : Except String Database := do
  let after ← body db
  if ForeignKeys after then pure after else throw "FOREIGN KEY constraint failed"

end Statements

/-! ## What the statements do -/

variable {db : Database}

theorem name_of_get? {name : String} {rel : Relation} (h : db.get? name = some rel) : rel.name = name :=
  Table.key_of_get? h

theorem create_ok {rel : Relation} (h : db.get? rel.name = none) :
    ∃ after, create db rel = .ok after ∧
      ∀ name, after.get? name = if name = rel.name then some rel else db.get? name := by
  refine ⟨db.put rel, ?_, fun name => Table.get?_put name⟩
  unfold create
  rw [h]
  rfl

theorem insert_ok {name : String} {rel : Relation} {row : Row} (h : db.get? name = some rel)
    (hrow : rel.Admits row) (hapart : ∀ r ∈ rel.rows, rel.Apart r row) :
    ∃ after, insert db name row = .ok after ∧
      ∀ k, after.get? k = if k = name then some { rel with rows := rel.rows ++ [row] } else db.get? k := by
  refine ⟨db.put { rel with rows := rel.rows ++ [row] }, ?_, fun k => ?_⟩
  · unfold insert
    rw [h]
    exact if_pos ⟨hrow, hapart⟩
  · rw [Table.get?_put]
    dsimp only
    rw [name_of_get? h]

/-- Rows that the relation admits, and that are apart from each other and from those there. -/
theorem insertAll_ok {name : String} {rel : Relation} {rows : List Row} (h : db.get? name = some rel)
    (hrows : ∀ row ∈ rows, rel.Admits row) (hapart : (rel.rows ++ rows).Pairwise rel.Apart) :
    ∃ after, insertAll db name rows = .ok after ∧
      ∀ k, after.get? k = if k = name then some { rel with rows := rel.rows ++ rows } else db.get? k := by
  induction rows generalizing db rel with
  | nil =>
      refine ⟨db, rfl, fun k => ?_⟩
      by_cases hk : k = name
      · rw [if_pos hk, hk, h, List.append_nil]
      · rw [if_neg hk]
  | cons row rows ih =>
      have hfirst : ∀ r ∈ rel.rows, rel.Apart r row := by
        intro r hr
        exact (List.pairwise_append.mp hapart).2.2 r hr row List.mem_cons_self
      obtain ⟨next, hinsert, hnext⟩ := insert_ok h (hrows row List.mem_cons_self) hfirst
      have hget : next.get? name = some { rel with rows := rel.rows ++ [row] } := by
        rw [hnext, if_pos rfl]
      obtain ⟨after, hafter, hview⟩ := ih hget (fun r hr => hrows r (List.mem_cons_of_mem _ hr))
        (by rw [List.append_assoc]; exact hapart)
      refine ⟨after, ?_, fun k => ?_⟩
      · rw [insertAll, List.foldlM_cons, hinsert]
        exact hafter
      · rw [hview, hnext]
        by_cases hk : k = name
        · rw [if_pos hk, if_pos hk, List.append_assoc]
          rfl
        · rw [if_neg hk, if_neg hk, if_neg hk]

theorem rename_ok {old new : String} {rel : Relation} (h : db.get? old = some rel)
    (hnew : db.get? new = none) :
    ∃ after, rename db old new = .ok after ∧ ∀ k, after.get? k =
      (if k = new then some { rel with name := new } else if k = old then none else db.get? k).map
        (Relation.retarget old new) := by
  refine ⟨((db.delete (fun r => decide (r.name = old))).put { rel with name := new }).update
    (fun _ => true) (Relation.retarget old new) (Relation.retarget_name old new), ?_, fun k => ?_⟩
  · unfold rename
    rw [h]
    dsimp only
    rw [hnew]
    rfl
  · rw [Table.get?_update, Table.get?_put]
    congr 1
    dsimp only
    by_cases hk : k = new
    · rw [if_pos hk, if_pos hk]
    · rw [if_neg hk, if_neg hk, Table.get?_delete]
      by_cases hold : k = old
      · rw [if_pos hold, hold, h]
        simp [name_of_get? h]
      · rw [if_neg hold]
        cases hfound : db.get? k with
        | none => rfl
        | some other =>
            have hname := name_of_get? hfound
            simp [hname, hold]

theorem drop_ok {name : String} {rel : Relation} (h : db.get? name = some rel)
    (hfree : ∀ k other, k ≠ name → db.get? k = some other → ¬other.RefersTo name) :
    ∃ after, drop db name = .ok after ∧ ∀ k, after.get? k = if k = name then none else db.get? k := by
  refine ⟨db.delete (fun r => decide (r.name = name)), ?_, fun k => ?_⟩
  · unfold drop
    rw [h]
    dsimp only
    rw [if_neg]
    rintro ⟨other, hother, hne, hrefers⟩
    exact hfree other.name other hne (Table.get?_key hother) hrefers
  · rw [Table.get?_delete]
    by_cases hk : k = name
    · rw [if_pos hk, hk, h]
      simp [name_of_get? h]
    · rw [if_neg hk]
      cases hfound : db.get? k with
      | none => rfl
      | some other =>
          have hname := name_of_get? hfound
          simp [hname, hk]

theorem dropIfExists_ok {name : String}
    (hfree : ∀ k other, k ≠ name → db.get? k = some other → ¬other.RefersTo name) :
    ∃ after, dropIfExists db name = .ok after ∧ ∀ k, after.get? k = if k = name then none else db.get? k := by
  unfold dropIfExists
  cases hget : db.get? name with
  | none =>
      refine ⟨db, rfl, fun k => ?_⟩
      by_cases hk : k = name
      · rw [if_pos hk, hk, hget]
      · rw [if_neg hk]
  | some rel => exact drop_ok hget hfree

theorem Column.retarget_of_ne {old new : String} {c : Column}
    (h : c.references.map Reference.table ≠ some old) : c.retarget old new = c := by
  rcases c with ⟨name, type, notNull, primaryKey, references⟩
  cases references with
  | none => rfl
  | some ref =>
      have hne : ref.table ≠ old := fun heq => h (congrArg some heq)
      simp only [Column.retarget, Option.map_some, if_neg hne]

/-- Without a reference to the old name there is nothing to take along. -/
theorem Relation.retarget_of_free {old new : String} {rel : Relation} (h : ¬rel.RefersTo old) :
    rel.retarget old new = rel := by
  have hcolumns : rel.columns.map (Column.retarget old new) = rel.columns := by
    refine (List.map_congr_left (fun c hc => ?_)).trans (List.map_id _)
    exact Column.retarget_of_ne (fun hrefers => h ⟨c, hc, hrefers⟩)
  unfold Relation.retarget
  rw [hcolumns]

theorem Column.references_retarget {old new : String} {c : Column} {table : String}
    (h : (c.retarget old new).references.map Reference.table = some table) :
    table = new ∨ c.references.map Reference.table = some table := by
  unfold Column.retarget at h
  cases href : c.references with
  | none =>
      rw [href] at h
      cases h
  | some ref =>
      rw [href] at h
      by_cases hold : ref.table = old
      · simp only [Option.map_some, if_pos hold, Option.some.injEq] at h
        exact Or.inl h.symm
      · simp only [Option.map_some, if_neg hold] at h
        exact Or.inr h

/-- A renamed relation refers to what it did, or to the new name. -/
theorem Relation.refersTo_of_retarget {old new table : String} {rel : Relation}
    (h : (rel.retarget old new).RefersTo table) : table = new ∨ rel.RefersTo table := by
  obtain ⟨c, hc, href⟩ := h
  obtain ⟨c', hc', rfl⟩ := List.mem_map.mp hc
  rcases Column.references_retarget href with hnew | hold
  · exact Or.inl hnew
  · exact Or.inr ⟨c', hc', hold⟩

section Several
variable {α : Type} (name : α → String)

/-- Only relations of their own refer to those that go. -/
def OnlySelf (db : Database) (items : List α) : Prop :=
  ∀ x ∈ items, ∀ k rel, db.get? k = some rel → rel.RefersTo (name x) → k = name x

/-- Relations that at most refer to themselves are renamed one after the other. -/
theorem renameAll_ok (new : α → String) (items : List α) (hnodup : (items.map name).Nodup)
    (hnew : (items.map new).Nodup) (hpresent : ∀ x ∈ items, db.get? (name x) ≠ none)
    (hfresh : ∀ x ∈ items, db.get? (new x) = none) (hself : OnlySelf name db items) :
    ∃ after, items.foldlM (fun db x => rename db (name x) (new x)) db = .ok after ∧
      (∀ x ∈ items, after.get? (new x) =
        (db.get? (name x)).map (fun rel => ({ rel with name := new x } : Relation).retarget (name x) (new x))) ∧
      (∀ x ∈ items, after.get? (name x) = none) ∧
      ∀ k, (∀ x ∈ items, k ≠ name x ∧ k ≠ new x) → after.get? k = db.get? k := by
  induction items generalizing db with
  | nil => exact ⟨db, rfl, fun _ h => absurd h List.not_mem_nil, fun _ h => absurd h List.not_mem_nil, fun _ _ => rfl⟩
  | cons x xs ih =>
      rw [List.map_cons, List.nodup_cons] at hnodup hnew
      obtain ⟨rel, hrel⟩ := Option.ne_none_iff_exists'.mp (hpresent x List.mem_cons_self)
      obtain ⟨mid, hmid, hview⟩ := rename_ok hrel (hfresh x List.mem_cons_self)
      have hne : name x ≠ new x := by
        intro heq
        rw [heq, hfresh x List.mem_cons_self] at hrel
        cases hrel
      have hat : mid.get? (new x) = some (({ rel with name := new x } : Relation).retarget (name x) (new x)) := by
        rw [hview, if_pos rfl]
        rfl
      have hgone : mid.get? (name x) = none := by
        rw [hview, if_neg hne, if_pos rfl]
        rfl
      have hother : ∀ k, k ≠ name x → k ≠ new x → mid.get? k = db.get? k := by
        intro k hk hk'
        rw [hview, if_neg hk', if_neg hk]
        cases hfound : db.get? k with
        | none => rfl
        | some other =>
            have hfree : ¬other.RefersTo (name x) := fun hrefers =>
              hk (hself x List.mem_cons_self k other hfound hrefers)
            rw [Option.map_some, Relation.retarget_of_free hfree]
      have hnames : ∀ y ∈ xs, name y ≠ name x ∧ name y ≠ new x := by
        intro y hy
        refine ⟨fun heq => hnodup.1 (heq ▸ List.mem_map_of_mem hy), fun heq => ?_⟩
        exact hpresent y (List.mem_cons_of_mem _ hy) (heq ▸ hfresh x List.mem_cons_self)
      have hnews : ∀ y ∈ xs, new y ≠ name x ∧ new y ≠ new x := by
        intro y hy
        refine ⟨fun heq => ?_, fun heq => hnew.1 (heq ▸ List.mem_map_of_mem hy)⟩
        exact hpresent x List.mem_cons_self (heq ▸ hfresh y (List.mem_cons_of_mem _ hy))
      obtain ⟨after, hafter, hrenamed, habsent, hrest⟩ := @ih mid hnodup.2 hnew.2
        (fun y hy => by
          rw [hother _ (hnames y hy).1 (hnames y hy).2]
          exact hpresent y (List.mem_cons_of_mem _ hy))
        (fun y hy => by
          rw [hother _ (hnews y hy).1 (hnews y hy).2]
          exact hfresh y (List.mem_cons_of_mem _ hy))
        (fun y hy k other hfound hrefers => by
          by_cases hk : k = new x
          · rw [hk, hat] at hfound
            cases hfound
            rcases Relation.refersTo_of_retarget hrefers with heq | hold
            · exact absurd heq (hnames y hy).2
            · exact absurd (hself y (List.mem_cons_of_mem _ hy) _ rel hrel hold) (hnames y hy).1.symm
          · by_cases hk' : k = name x
            · rw [hk', hgone] at hfound
              cases hfound
            · rw [hother k hk' hk] at hfound
              exact hself y (List.mem_cons_of_mem _ hy) k other hfound hrefers)
      refine ⟨after, ?_, fun y hy => ?_, fun y hy => ?_, fun k hk => ?_⟩
      · rw [List.foldlM_cons, hmid]
        exact hafter
      · rcases List.mem_cons.mp hy with rfl | hy
        · rw [hrest (new y) (fun z hz => ⟨((hnames z hz).2).symm, ((hnews z hz).2).symm⟩), hat, hrel]
          rfl
        · rw [hrenamed y hy, hother _ (hnames y hy).1 (hnames y hy).2]
      · rcases List.mem_cons.mp hy with rfl | hy
        · rw [hrest (name y) (fun z hz => ⟨((hnames z hz).1).symm, ((hnews z hz).1).symm⟩), hgone]
        · exact habsent y hy
      · obtain ⟨hk1, hk2⟩ := hk x List.mem_cons_self
        rw [hrest k (fun z hz => hk z (List.mem_cons_of_mem _ hz)), hother k hk1 hk2]

/-- Relations that at most refer to themselves are dropped one after the other. -/
theorem dropAll_ok (items : List α) (hnodup : (items.map name).Nodup)
    (hpresent : ∀ x ∈ items, db.get? (name x) ≠ none) (hself : OnlySelf name db items) :
    ∃ after, items.foldlM (fun db x => drop db (name x)) db = .ok after ∧
      (∀ x ∈ items, after.get? (name x) = none) ∧
      ∀ k, (∀ x ∈ items, k ≠ name x) → after.get? k = db.get? k := by
  induction items generalizing db with
  | nil => exact ⟨db, rfl, fun _ h => absurd h List.not_mem_nil, fun _ _ => rfl⟩
  | cons x xs ih =>
      rw [List.map_cons, List.nodup_cons] at hnodup
      obtain ⟨rel, hrel⟩ := Option.ne_none_iff_exists'.mp (hpresent x List.mem_cons_self)
      obtain ⟨mid, hmid, hview⟩ := drop_ok hrel (fun k other hk hother hrefers =>
        hk (hself x List.mem_cons_self k other hother hrefers))
      have hnames : ∀ y ∈ xs, name y ≠ name x := fun y hy heq => hnodup.1 (heq ▸ List.mem_map_of_mem hy)
      obtain ⟨after, hafter, habsent, hrest⟩ := @ih mid hnodup.2
        (fun y hy => by
          rw [hview, if_neg (hnames y hy)]
          exact hpresent y (List.mem_cons_of_mem _ hy))
        (fun y hy k other hfound hrefers => by
          rw [hview] at hfound
          by_cases hk : k = name x
          · rw [if_pos hk] at hfound
            cases hfound
          · rw [if_neg hk] at hfound
            exact hself y (List.mem_cons_of_mem _ hy) k other hfound hrefers)
      refine ⟨after, ?_, fun y hy => ?_, fun k hk => ?_⟩
      · rw [List.foldlM_cons, hmid]
        exact hafter
      · rcases List.mem_cons.mp hy with rfl | hy
        · rw [hrest (name y) (fun z hz => (hnames z hz).symm), hview, if_pos rfl]
        · exact habsent y hy
      · rw [hrest k (fun z hz => hk z (List.mem_cons_of_mem _ hz)), hview, if_neg (hk x List.mem_cons_self)]

/-- A step that sets one name, over names that differ. -/
theorem setAll_ok (step : Database → α → Except String Database) (value : α → Option Relation) (items : List α)
    (hnodup : (items.map name).Nodup)
    (hstep : ∀ x ∈ items, ∀ now : Database, (∀ k, (∀ y ∈ items, k ≠ name y) → now.get? k = db.get? k) →
      now.get? (name x) = db.get? (name x) →
      ∃ after, step now x = .ok after ∧ ∀ k, after.get? k = if k = name x then value x else now.get? k) :
    ∃ after, items.foldlM step db = .ok after ∧ (∀ x ∈ items, after.get? (name x) = value x) ∧
      ∀ k, (∀ x ∈ items, k ≠ name x) → after.get? k = db.get? k := by
  induction items generalizing db with
  | nil => exact ⟨db, rfl, fun _ h => absurd h List.not_mem_nil, fun _ _ => rfl⟩
  | cons x xs ih =>
      rw [List.map_cons, List.nodup_cons] at hnodup
      obtain ⟨mid, hmid, hview⟩ := hstep x List.mem_cons_self db (fun _ _ => rfl) rfl
      have hnames : ∀ y ∈ xs, name y ≠ name x := fun y hy heq => hnodup.1 (heq ▸ List.mem_map_of_mem hy)
      obtain ⟨after, hafter, hset, hrest⟩ := @ih mid hnodup.2 (fun y hy now hnow hy' => by
        refine hstep y (List.mem_cons_of_mem _ hy) now (fun k hk => ?_) ?_
        · rw [hnow k (fun z hz => hk z (List.mem_cons_of_mem _ hz)), hview, if_neg (hk x List.mem_cons_self)]
        · rw [hy', hview, if_neg (hnames y hy)])
      refine ⟨after, ?_, fun y hy => ?_, fun k hk => ?_⟩
      · rw [List.foldlM_cons, hmid]
        exact hafter
      · rcases List.mem_cons.mp hy with rfl | hy
        · rw [hrest (name y) (fun z hz => (hnames z hz).symm), hview, if_pos rfl]
        · exact hset y hy
      · rw [hrest k (fun z hz => hk z (List.mem_cons_of_mem _ hz)), hview, if_neg (hk x List.mem_cons_self)]

end Several

end Elpis.Lib.Sql
