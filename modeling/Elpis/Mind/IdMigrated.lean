import Elpis.Mind.IdImages

/-!
# No row is lost

Over every database with the schema before: the migration succeeds, and what it leaves is the image
of what there was. Each phase is one lemma: what each name stands for behind it.
-/

namespace Elpis.Mind.IdMigration

open Elpis.Lib Elpis.Lib.Sql

/-! ## The databases before -/

def legacySchemas : List Relation :=
  [mindItems, mindDependencies, mindTags, mindComments, mindEvents, mindReminders, mindClaims, persistentSandboxes]

/-- The names that the migration gives. -/
def newNames : List String :=
  ["mind_id_migration_map", "mind_items_v16", "persistent_sandboxes_legacy_v15"] ++
    childTables.map (fun child => legacyName child.1)

def ownNames : List String := legacySchemas.map Relation.name ++ newNames ++ ["sandbox_aliases"]

/-- A relation of this schema; columns and checks that were added later stand behind. -/
structure Like (schema rel : Relation) : Prop where
  columns : rel.columns.Perm schema.columns
  keys : rel.keys = schema.keys
  checks : rel.checks.Perm schema.checks
  valid : rel.Valid
  confined : ∀ row ∈ rel.rows, ∀ column, column ∉ schema.columns.map Column.name → row column = .null

/-- What the migration starts from. A table of the mind may be missing, except the one of the items. -/
structure Legacy (db : Database) : Prop where
  items : (db.get? "mind_items").isSome = true
  like : ∀ schema ∈ legacySchemas, ∀ rel, db.get? schema.name = some rel → Like schema rel
  holds : ∀ row ∈ rowsOf db "mind_items", ∀ c ∈ mindItems.columns, holds c (row c.name) = true
  fresh : ∀ name ∈ newNames, db.get? name = none
  /-- Of the tables around, only the aliases refer to one of these. -/
  around : ∀ k rel, db.get? k = some rel → k ∉ legacySchemas.map Relation.name → ∀ t ∈ ownNames, rel.RefersTo t →
    k = "sandbox_aliases" ∧ t = "persistent_sandboxes"

/-! ## What is to hold behind it -/

def itemIds (db : Database) : Set ℤ := {n | ∃ row ∈ rowsOf db "mind_items", row "id" = .integer n}

def itemNames (db : Database) : Set String := {s | ∃ row ∈ rowsOf db "mind_items", row "id" = .text s}

/-- Each row is there once, as its image, and no other; other tables are as they were. -/
structure Migrated (f : ℤ → String) (old new : Database) : Prop where
  bijection : Set.BijOn f (itemIds old) (itemNames new)
  items : (rowsOf new "mind_items").Perm ((rowsOf old "mind_items").map (image f ["id", "parent_id"]))
  children : ∀ child ∈ childTables, (rowsOf new child.1).Perm ((rowsOf old child.1).map (image f child.2))
  sandboxes : (rowsOf new "persistent_sandboxes").Perm ((rowsOf old "persistent_sandboxes").map (sandboxImage f))
  others : ∀ k, k ∉ ownNames → new.get? k = old.get? k

/-! ## The items -/

theorem rowsOf_of_get? {db : Database} {name : String} {rel : Relation} (h : db.get? name = some rel) :
    rowsOf db name = rel.rows := by
  unfold rowsOf
  rw [h]
  rfl

theorem rowsOf_of_none {db : Database} {name : String} (h : db.get? name = none) : rowsOf db name = [] := by
  unfold rowsOf
  rw [h]
  rfl

/-- The ids of the items, in their order. -/
def numbers (db : Database) : List ℤ := (orderedItems db).map (fun row => (number? (row "id")).getD 0)

theorem orderedItems_perm (db : Database) : (orderedItems db).Perm (rowsOf db "mind_items") :=
  List.perm_insertionSort _ _

theorem mem_orderedItems {db : Database} {row : Row} : row ∈ orderedItems db ↔ row ∈ rowsOf db "mind_items" :=
  (orderedItems_perm db).mem_iff

section Legacy
variable {db : Database} (h : Legacy db)

include h

theorem Legacy.itemRelation : ∃ rel, db.get? "mind_items" = some rel ∧ Like mindItems rel ∧
    rowsOf db "mind_items" = rel.rows := by
  obtain ⟨rel, hrel⟩ := Option.isSome_iff_exists.mp h.items
  exact ⟨rel, hrel, h.like mindItems (by simp [legacySchemas]) rel hrel, rowsOf_of_get? hrel⟩

theorem Legacy.item_admits {row : Row} (hrow : row ∈ rowsOf db "mind_items") :
    (∀ c ∈ mindItems.columns, c.Admits (row c.name)) ∧ ∀ check ∈ mindItems.checks, check row = true := by
  obtain ⟨rel, -, hlike, hrows⟩ := h.itemRelation
  have hadmits := hlike.valid.1 row (hrows ▸ hrow)
  exact ⟨fun c hc => hadmits.1 c (hlike.columns.mem_iff.mpr hc),
    fun check hcheck => hadmits.2 check (hlike.checks.mem_iff.mpr hcheck)⟩

theorem Legacy.item_confined {row : Row} (hrow : row ∈ rowsOf db "mind_items") :
    ∀ column, column ∉ mindItems.columns.map Column.name → row column = .null := by
  obtain ⟨rel, -, hlike, hrows⟩ := h.itemRelation
  exact hlike.confined row (hrows ▸ hrow)

theorem Legacy.item_id {row : Row} (hrow : row ∈ rowsOf db "mind_items") : ∃ n, row "id" = .integer n := by
  have hid : idColumn ∈ mindItems.columns := by decide
  have hinteger := ((h.item_admits hrow).1 idColumn hid).2 rfl rfl
  cases hcell : row "id" with
  | integer n => exact ⟨n, rfl⟩
  | null =>
      rw [show idColumn.name = "id" from rfl, hcell] at hinteger
      cases hinteger
  | text s =>
      rw [show idColumn.name = "id" from rfl, hcell] at hinteger
      cases hinteger

theorem Legacy.names_iff {v : Value} : Names (numbers db) v ↔ ∃ row ∈ rowsOf db "mind_items", row "id" = v := by
  constructor
  · rintro ⟨n, hn, rfl⟩
    obtain ⟨row, hrow, rfl⟩ := List.mem_map.mp hn
    obtain ⟨m, hm⟩ := h.item_id (mem_orderedItems.mp hrow)
    refine ⟨row, mem_orderedItems.mp hrow, ?_⟩
    rw [hm]
    rfl
  · rintro ⟨row, hrow, rfl⟩
    obtain ⟨m, hm⟩ := h.item_id hrow
    refine ⟨m, List.mem_map.mpr ⟨row, mem_orderedItems.mpr hrow, ?_⟩, hm⟩
    rw [hm]
    rfl

theorem Legacy.items_pairwise : (orderedItems db).Pairwise (fun r s => r "id" ≠ s "id") := by
  obtain ⟨rel, -, hlike, hrows⟩ := h.itemRelation
  have hkey : ["id"] ∈ rel.uniques := by
    refine List.mem_append_left _ (List.mem_map.mpr ⟨idColumn, List.mem_filter.mpr ⟨?_, rfl⟩, rfl⟩)
    exact hlike.columns.mem_iff.mpr (by decide)
  have hpairwise : (rowsOf db "mind_items").Pairwise (fun r s => r "id" ≠ s "id") := by
    rw [hrows]
    refine hlike.valid.2.imp_of_mem (fun hr _ hapart => ?_)
    obtain ⟨c, hc, hdiffer⟩ := hapart _ hkey
    rw [List.mem_singleton.mp hc] at hdiffer
    rcases hdiffer with hne | hnull
    · exact hne
    · obtain ⟨n, hn⟩ := h.item_id (hrows ▸ hr)
      rw [hnull] at hn
      cases hn
  exact (orderedItems_perm db).symm.pairwise hpairwise (fun hne => hne.symm)

theorem Legacy.numbers_nodup : (numbers db).Nodup := by
  refine List.pairwise_map.mpr (h.items_pairwise.imp_of_mem (fun hr hs hne heq => hne ?_))
  obtain ⟨n, hn⟩ := h.item_id (mem_orderedItems.mp hr)
  obtain ⟨m, hm⟩ := h.item_id (mem_orderedItems.mp hs)
  rw [hn, hm] at heq ⊢
  exact congrArg Value.integer heq

/-- What refers to an item names one. -/
theorem Legacy.names_of_reference (hforeign : ForeignKeys db) {k : String} {rel : Relation} (hrel : db.get? k = some rel)
    {c : Column} (hc : c ∈ rel.columns) (href : c.references = some ⟨"mind_items", "id"⟩) {row : Row}
    (hrow : row ∈ rel.rows) : NamesOrNull (numbers db) (row c.name) := by
  have hfound : Found db ⟨"mind_items", "id"⟩ (row c.name) :=
    hforeign rel (Table.mem_of_get? hrel) c hc _ href row hrow
  rcases hfound with hnull | hfound
  · exact Or.inl hnull
  · exact Or.inr (h.names_iff.mpr hfound)

theorem Legacy.item_parent (hforeign : ForeignKeys db) {row : Row} (hrow : row ∈ rowsOf db "mind_items") :
    row "parent_id" = .null ∨ Names (numbers db) (row "parent_id") := by
  obtain ⟨rel, hrel, hlike, hrows⟩ := h.itemRelation
  have hparent : Column.mk "parent_id" .integer false false (some ⟨"mind_items", "id"⟩) ∈ mindItems.columns := by
    decide
  exact h.names_of_reference hforeign hrel
    (hlike.columns.mem_iff.mpr hparent) rfl (hrows ▸ hrow)

theorem Legacy.readItems_ok : readItems db = .ok (orderedItems db) := by
  refine if_pos (fun row hrow c hc => ?_)
  have hholds := h.holds row (mem_orderedItems.mp hrow) c hc
  revert hholds
  unfold Elpis.Mind.IdMigration.holds
  cases row c.name with
  | null => exact fun _ => rfl
  | text s => exact fun _ => rfl
  | integer n => cases c.type <;> simp

end Legacy

theorem mapM_ok {α β : Type} {g : α → Except String β} {g' : α → β} {l : List α}
    (h : ∀ x ∈ l, g x = .ok (g' x)) : l.mapM g = .ok (l.map g') := by
  induction l with
  | nil => rfl
  | cons x l ih =>
      rw [List.mapM_cons, h x List.mem_cons_self, ih (fun y hy => h y (List.mem_cons_of_mem _ hy))]
      rfl

/-- The relation of the items behind the migration of their rows. -/
def itemsAfter (f : ℤ → String) (db : Database) : Relation :=
  { itemsV16 with rows := (orderedItems db).map (image f ["id", "parent_id"]) }

def mapAfter (ids : Ids) : Relation := { mapRelation with rows := ids.map mapRow }

theorem Assigned.map_admits {ids : Ids} {f : ℤ → String} {ns : List ℤ} (h : Assigned ids f ns)
    (helm : ∀ n ∈ ns, ∀ row column, row column = .text (f n) → isElm column row = true) :
    (∀ row ∈ ids.map mapRow, mapRelation.Admits row) ∧ (ids.map mapRow).Pairwise mapRelation.Apart := by
  have hrows : ids.map mapRow = ns.map (fun n => mapRow (n, f n)) := by
    rw [h.entries, List.map_map]
    rfl
  rw [hrows]
  constructor
  · intro row hrow
    obtain ⟨n, hn, rfl⟩ := List.mem_map.mp hrow
    refine ⟨?_, ?_⟩
    · simp [mapRelation, textColumn, Column.Admits, mapRow, rowOf, List.lookup, Value.isInteger]
    · simpa [mapRelation] using helm n hn (mapRow (n, f n)) "mind_id" rfl
  · refine List.pairwise_map.mpr (h.nodup.imp_of_mem (fun {n m} hn hm hne => ?_))
    intro key hkey
    rw [show mapRelation.uniques = [["legacy_id"], ["mind_id"]] from rfl, List.mem_cons, List.mem_singleton] at hkey
    rcases hkey with rfl | rfl
    · refine ⟨"legacy_id", List.mem_singleton_self _, Or.inl (fun heq => hne ?_)⟩
      exact Value.integer.inj heq
    · refine ⟨"mind_id", List.mem_singleton_self _, Or.inl (fun heq => hne ?_)⟩
      exact h.injective hn hm (Value.text.inj heq)

theorem Legacy.items_admitted {db : Database} (h : Legacy db) (hforeign : ForeignKeys db) {ids : Ids} {f : ℤ → String}
    (ha : Assigned ids f (numbers db)) :
    (∀ row ∈ (itemsAfter f db).rows, itemsV16.Admits row) ∧ (itemsAfter f db).rows.Pairwise itemsV16.Apart := by
  have hnames : ∀ row ∈ rowsOf db "mind_items", ∀ c ∈ ["id", "parent_id"], NamesOrNull (numbers db) (row c) := by
    intro row hrow c hc
    rw [List.mem_cons, List.mem_singleton] at hc
    rcases hc with rfl | rfl
    · exact Or.inr (h.names_iff.mpr ⟨row, hrow, rfl⟩)
    · exact h.item_parent hforeign hrow
  constructor
  · intro row' hrow'
    obtain ⟨row, hrow, rfl⟩ := List.mem_map.mp hrow'
    have hrow := mem_orderedItems.mp hrow
    have hadmits : mindItems.Admits row := h.item_admits hrow
    refine image_admits hadmits (by decide) (fun check hcheck => ?_)
    have hold := (h.item_admits hrow).2 check hcheck
    have hcheck' : check ∈ itemChecks := hcheck
    simp only [itemChecks, List.mem_cons, List.not_mem_nil, or_false] at hcheck'
    rcases hcheck' with rfl | rfl | rfl <;> simpa [oneOf, between, image] using hold
  · refine List.pairwise_map.mpr (h.items_pairwise.imp_of_mem (fun {r s} hr hs hne => ?_))
    have hapart : mindItems.Apart r s := by
      intro key hkey
      rw [show mindItems.uniques = [["id"]] from rfl, List.mem_singleton] at hkey
      exact ⟨"id", hkey ▸ List.mem_singleton_self _, Or.inl hne⟩
    exact ha.image_apart (hnames r (mem_orderedItems.mp hr)) (hnames s (mem_orderedItems.mp hs))
      (fun key hkey => hkey) hapart

theorem ok_bind {α β : Type} {a : α} {g : α → Except String β} : (Except.ok a >>= g) = g a := rfl

/-- The items and the map are there, and nothing else has changed. -/
theorem migrateItems_ok {db : Database} (h : Legacy db) (hforeign : ForeignKeys db) {draws : List String}
    (helm : ∀ id ∈ draws, ∀ row column, row column = .text id → isElm column row = true)
    (henough : (rowsOf db "mind_items").length ≤ draws.toFinset.card) :
    ∃ after ids f, migrateItems draws db = .ok after ∧ Assigned ids f (numbers db) ∧
      ∀ k, after.get? k = if k = "mind_items_v16" then some (itemsAfter f db)
        else if k = "mind_id_migration_map" then some (mapAfter ids) else db.get? k := by
  have hlength : (numbers db).length ≤ draws.toFinset.card := by
    rw [numbers, List.length_map, (orderedItems_perm db).length_eq]
    exact henough
  obtain ⟨ids, f, hassign, ha, hdrawn⟩ := assigned h.numbers_nodup hlength
  obtain ⟨db₁, hcreate₁, hview₁⟩ := @create_ok db mapRelation (h.fresh "mind_id_migration_map" (by decide))
  have hfresh₂ : db₁.get? "mind_items_v16" = none := by
    rw [hview₁, if_neg (by decide), h.fresh _ (by decide)]
  obtain ⟨db₂, hcreate₂, hview₂⟩ := @create_ok db₁ itemsV16 hfresh₂
  have hmap := ha.map_admits (fun n hn => helm (f n) (hdrawn n hn))
  have hget₂ : db₂.get? "mind_id_migration_map" = some mapRelation := by
    rw [hview₂, if_neg (by decide), hview₁]
    rfl
  obtain ⟨db₃, hinsert₃, hview₃⟩ := insertAll_ok hget₂ hmap.1 hmap.2
  have hitems := h.items_admitted hforeign ha
  have hget₃ : db₃.get? "mind_items_v16" = some itemsV16 := by
    rw [hview₃, if_neg (by decide), hview₂]
    rfl
  obtain ⟨db₄, hinsert₄, hview₄⟩ := insertAll_ok hget₃ hitems.1 hitems.2
  have hrows : (orderedItems db).mapM (itemRow ids) = .ok (itemsAfter f db).rows := by
    refine mapM_ok (fun row hrow => ?_)
    have hrow := mem_orderedItems.mp hrow
    exact ha.itemRow_ok (h.names_iff.mpr ⟨row, hrow, rfl⟩) (h.item_parent hforeign hrow) (h.item_admits hrow).1
      (h.holds row hrow) (h.item_confined hrow)
  refine ⟨db₄, ids, f, ?_, ha, fun k => ?_⟩
  · unfold migrateItems
    rw [h.readItems_ok, ok_bind]
    change (assign draws [] (numbers db) >>= _) = _
    rw [hassign, ok_bind, hcreate₁, ok_bind, hcreate₂, ok_bind, hinsert₃, ok_bind, hrows, ok_bind, hinsert₄]
  · rw [hview₄, hview₃, hview₂, hview₁]
    by_cases hitem : k = "mind_items_v16"
    · rw [if_pos hitem, if_pos hitem]
      rfl
    · rw [if_neg hitem, if_neg hitem]
      by_cases hk : k = "mind_id_migration_map"
      · rw [if_pos hk, if_pos hk]
        rfl
      · rw [if_neg hk, if_neg hk, if_neg (show k ≠ itemsV16.name from hitem), if_neg (show k ≠ mapRelation.name from hk)]

/-! ## The tables around the items -/

theorem replaceReference_kept (old new : String) (applies : Column → Bool) (type : Affinity → Affinity) (c : Column) :
    (replaceReference old new applies type c).name = c.name ∧
      (replaceReference old new applies type c).notNull = c.notNull ∧
      (replaceReference old new applies type c).primaryKey = c.primaryKey := by
  unfold replaceReference
  cases c.references with
  | none => exact ⟨rfl, rfl, rfl⟩
  | some ref =>
      by_cases happ : ref.table = old ∧ applies c = true
      · simp only [if_pos happ, and_self]
      · simp only [if_neg happ, and_self]

/-- A column of a child table, as it is when the table is there again. -/
def childColumn (table : String) (c : Column) : Column := rewriteColumn (c.retarget table (legacyName table))

@[simp] theorem childColumn_name (table : String) (c : Column) : (childColumn table c).name = c.name := by
  simp [childColumn, rewriteColumn, replaceReference_kept, Column.retarget]

@[simp] theorem childColumn_notNull (table : String) (c : Column) : (childColumn table c).notNull = c.notNull := by
  simp [childColumn, rewriteColumn, replaceReference_kept, Column.retarget]

@[simp] theorem childColumn_primaryKey (table : String) (c : Column) :
    (childColumn table c).primaryKey = c.primaryKey := by
  simp [childColumn, rewriteColumn, replaceReference_kept, Column.retarget]

/-- What the schema of a child table has to be for the rewriting to find its columns. -/
structure Fits (child : String × List String) (schema : Relation) : Prop where
  name : schema.name = child.1
  columns : ∀ c ∈ schema.columns, if c.name ∈ child.2
    then c.references = some ⟨"mind_items", "id"⟩ ∧ (c.notNull = true ∨ c.primaryKey = true ∧ c.type = .integer) ∧
      (childColumn child.1 c).type = .text ∧ (childColumn child.1 c).references = some ⟨"mind_items_v16", "id"⟩
    else (childColumn child.1 c).type = c.type ∧ (childColumn child.1 c).references = c.references ∧
      ∀ ref ∈ c.references, child.1 = "mind_comments" ∧ ref = ⟨"mind_comments", "id"⟩
  covered : ∀ name ∈ child.2, ∃ c ∈ schema.columns, c.name = name
  checks : ∀ check ∈ schema.checks, ∃ x ∈ child.2, ∃ y ∈ child.2, check = differ x y

theorem fits_child : ∀ child ∈ childTables, ∃ schema ∈ legacySchemas, Fits child schema := by
  have hnone : ∀ (schema : Relation) (columns : List String), schema.checks = [] →
      ∀ check ∈ schema.checks, ∃ x ∈ columns, ∃ y ∈ columns, check = differ x y := by
    intro schema columns hempty check hcheck
    rw [hempty] at hcheck
    cases hcheck
  intro child hchild
  simp only [childTables, List.mem_cons, List.not_mem_nil, or_false] at hchild
  rcases hchild with rfl | rfl | rfl | rfl | rfl | rfl
  · refine ⟨mindDependencies, by simp [legacySchemas], rfl, by decide, by decide, fun check hcheck => ?_⟩
    exact ⟨"item_id", by decide, "depends_on_id", by decide, List.mem_singleton.mp hcheck⟩
  · exact ⟨mindTags, by simp [legacySchemas], rfl, by decide, by decide, hnone _ _ rfl⟩
  · exact ⟨mindComments, by simp [legacySchemas], rfl, by decide, by decide, hnone _ _ rfl⟩
  · exact ⟨mindEvents, by simp [legacySchemas], rfl, by decide, by decide, hnone _ _ rfl⟩
  · exact ⟨mindReminders, by simp [legacySchemas], rfl, by decide, by decide, hnone _ _ rfl⟩
  · exact ⟨mindClaims, by simp [legacySchemas], rfl, by decide, by decide, hnone _ _ rfl⟩

/-- A table under its other name. -/
def renamed (child : String × List String) (rel : Relation) : Relation :=
  ({ rel with name := legacyName child.1 } : Relation).retarget child.1 (legacyName child.1)

/-- A child table behind the migration. -/
def childAfter (f : ℤ → String) (child : String × List String) (rel : Relation) : Relation :=
  { rel with
    name := child.1
    columns := rel.columns.map (childColumn child.1)
    rows := rel.rows.map (image f child.2) }

theorem rewrite_renamed (child : String × List String) (rel : Relation) :
    rewrite child.1 (renamed child rel) =
      { rel with name := child.1, columns := rel.columns.map (childColumn child.1), rows := [] } := by
  simp [rewrite, renamed, Relation.retarget, childColumn]

theorem names_renamed (child : String × List String) (rel : Relation) :
    (renamed child rel).columns.map Column.name = rel.columns.map Column.name := by
  simp [renamed, Relation.retarget, Column.retarget]

/-- A child table whose rows name items. -/
structure Child (ns : List ℤ) (child : String × List String) (schema rel : Relation) : Prop extends Like schema rel where
  fits : Fits child schema
  names : ∀ row ∈ rel.rows, ∀ c ∈ child.2, Names ns (row c)

section Child
variable {ids : Ids} {f : ℤ → String} {ns : List ℤ} {child : String × List String} {schema rel : Relation}

theorem Child.selectJoined_eq (h : Child ns child schema rel) (ha : Assigned ids f ns) :
    selectJoined (ids.map mapRow) child.2 (renamed child rel) = (childAfter f child rel).rows := by
  refine ha.selectJoined_eq h.names (fun l hl column hcolumn => h.confined l hl column (fun hin => hcolumn ?_))
  rw [names_renamed]
  exact (h.columns.map Column.name).mem_iff.mpr hin

theorem uniques_childAfter : (childAfter f child rel).uniques = rel.uniques := by
  unfold Relation.uniques childAfter
  dsimp only
  rw [List.filter_map, List.map_map]
  congr 1
  have hfilter : rel.columns.filter (Column.primaryKey ∘ childColumn child.1) = rel.columns.filter Column.primaryKey := by
    refine List.filter_congr (fun c _ => ?_)
    exact childColumn_primaryKey child.1 c
  rw [hfilter]
  refine List.map_congr_left (fun c _ => ?_)
  rw [Function.comp_apply, childColumn_name]

theorem Child.rows_admitted (h : Child ns child schema rel) (ha : Assigned ids f ns) :
    (∀ row ∈ (childAfter f child rel).rows, (childAfter f child rel).Admits row) ∧
      (childAfter f child rel).rows.Pairwise (childAfter f child rel).Apart := by
  have hnames : ∀ row ∈ rel.rows, ∀ c ∈ child.2, NamesOrNull ns (row c) := fun row hrow c hc =>
    Or.inr (h.names row hrow c hc)
  constructor
  · intro row' hrow'
    obtain ⟨row, hrow, rfl⟩ := List.mem_map.mp hrow'
    have hadmits := h.valid.1 row hrow
    refine image_admits hadmits (fun c' hc' => ?_) (fun check hcheck => ?_)
    · obtain ⟨c, hc, rfl⟩ := List.mem_map.mp hc'
      have hfits := h.fits.columns c (h.columns.mem_iff.mp hc)
      refine ⟨c, hc, childColumn_name _ c, fun hnn => by rwa [childColumn_notNull] at hnn, fun hpk htype => ?_⟩
      rw [childColumn_primaryKey] at hpk
      by_cases hin : c.name ∈ child.2
      · rw [if_pos hin] at hfits
        rw [hfits.2.2.1] at htype
        cases htype
      · rw [if_neg hin] at hfits
        exact ⟨hpk, hfits.1 ▸ htype, hin⟩
    · have hold : check ∈ rel.checks := hcheck
      obtain ⟨x, hx, y, hy, rfl⟩ := h.fits.checks check (h.checks.mem_iff.mp hold)
      exact ha.differ_image hx hy (h.names row hrow) (hadmits.2 _ hold)
  · refine List.pairwise_map.mpr (h.valid.2.imp_of_mem (fun {r s} hr hs hapart => ?_))
    refine ha.image_apart (hnames r hr) (hnames s hs) (fun key hkey => ?_) hapart
    rwa [uniques_childAfter] at hkey

/-- What a child table refers to behind the migration. -/
theorem Child.refers (h : Child ns child schema rel) {t : String} (ht : (childAfter f child rel).RefersTo t) :
    t = "mind_items_v16" ∨ (child.1 = "mind_comments" ∧ t = "mind_comments") := by
  obtain ⟨c', hc', href⟩ := ht
  obtain ⟨c, hc, rfl⟩ := List.mem_map.mp hc'
  have hfits := h.fits.columns c (h.columns.mem_iff.mp hc)
  by_cases hin : c.name ∈ child.2
  · rw [if_pos hin] at hfits
    rw [hfits.2.2.2] at href
    exact Or.inl (Option.some.inj href).symm
  · rw [if_neg hin] at hfits
    rw [hfits.2.1] at href
    obtain ⟨ref, hsome, rfl⟩ := Option.map_eq_some_iff.mp href
    obtain ⟨hchild, rfl⟩ := hfits.2.2 ref hsome
    exact Or.inr ⟨hchild, rfl⟩

theorem Child.recreate_ok (h : Child ns child schema rel) (ha : Assigned ids f ns) {db : Database}
    (hlegacy : db.get? (legacyName child.1) = some (renamed child rel)) (hfree : db.get? child.1 = none)
    (hmap : db.get? "mind_id_migration_map" = some (mapAfter ids)) (hne : child.1 ≠ "mind_id_migration_map") :
    ∃ after, recreate db child = .ok after ∧
      ∀ k, after.get? k = if k = child.1 then some (childAfter f child rel) else db.get? k := by
  obtain ⟨mid, hcreate, hmid⟩ := @create_ok db (rewrite child.1 (renamed child rel)) hfree
  have hat : mid.get? child.1 = some (rewrite child.1 (renamed child rel)) := by
    rw [hmid]
    exact if_pos rfl
  have hadmitted := h.rows_admitted ha
  have hrows : rowsOf mid "mind_id_migration_map" = ids.map mapRow := by
    have hget : mid.get? "mind_id_migration_map" = some (mapAfter ids) := by
      rw [hmid, hmap]
      exact if_neg hne.symm
    rw [rowsOf_of_get? hget]
    rfl
  obtain ⟨after, hinsert, hafter⟩ := @insertAll_ok mid child.1 _ (childAfter f child rel).rows hat
    (by rw [rewrite_renamed]; exact hadmitted.1) (by rw [rewrite_renamed]; exact hadmitted.2)
  refine ⟨after, ?_, fun k => ?_⟩
  · unfold recreate
    rw [hlegacy]
    dsimp only
    rw [hcreate, ok_bind, hrows, h.selectJoined_eq ha, hinsert]
  · rw [hafter, hmid]
    by_cases hk : k = child.1
    · rw [if_pos hk, if_pos hk, rewrite_renamed]
      rfl
    · rw [if_neg hk, if_neg hk]
      exact if_neg hk

end Child

/-- What the children's migration finds: child tables whose rows name items, the map, and nothing
around that refers to the tables, or to the names that they take. -/
structure Before (ids : Ids) (ns : List ℤ) (db : Database) : Prop where
  map : db.get? "mind_id_migration_map" = some (mapAfter ids)
  child : ∀ child ∈ childTables, ∀ rel, db.get? child.1 = some rel → ∃ schema, Child ns child schema rel
  fresh : ∀ child ∈ childTables, db.get? (legacyName child.1) = none
  refers : ∀ k rel, db.get? k = some rel → ∀ child ∈ childTables,
    ¬rel.RefersTo (legacyName child.1) ∧ (rel.RefersTo child.1 → k = child.1)

theorem children_names : ∀ child ∈ childTables, ∀ other ∈ childTables,
    legacyName child.1 ≠ other.1 ∧ child.1 ≠ "mind_id_migration_map" ∧ child.1 ≠ "mind_items_v16" ∧
      legacyName child.1 ≠ "mind_id_migration_map" ∧ legacyName child.1 ≠ "mind_items_v16" ∧
      legacyName child.1 ≠ "mind_comments" := by
  decide

/-- The child tables are there again, with the images of their rows; nothing else has changed. -/
theorem migrateChildren_ok {ids : Ids} {f : ℤ → String} {ns : List ℤ} (ha : Assigned ids f ns) {db : Database}
    (h : Before ids ns db) :
    ∃ after, migrateChildren db = .ok after ∧
      (∀ child ∈ childTables, after.get? child.1 = (db.get? child.1).map (childAfter f child)) ∧
      ∀ k, (∀ child ∈ childTables, k ≠ child.1) → after.get? k = db.get? k := by
  have hexisting : ∀ child, child ∈ childTables.filter (fun child => (db.get? child.1).isSome) ↔
      child ∈ childTables ∧ db.get? child.1 ≠ none := by
    intro child
    rw [List.mem_filter, Option.isSome_iff_ne_none]
  have hsub : (childTables.filter (fun child => (db.get? child.1).isSome)).Sublist childTables :=
    List.filter_sublist
  have hnodup : ((childTables.filter (fun child => (db.get? child.1).isSome)).map Prod.fst).Nodup :=
    (hsub.map _).nodup (by decide)
  have hnodup' : ((childTables.filter (fun child => (db.get? child.1).isSome)).map (fun c => legacyName c.1)).Nodup :=
    (hsub.map _).nodup (by decide)
  unfold migrateChildren
  generalize childTables.filter (fun child => (db.get? child.1).isSome) = existing at *
  have hmem : ∀ child ∈ existing, child ∈ childTables := fun child hc => ((hexisting child).mp hc).1
  -- the tables get their other names
  obtain ⟨db₁, hdb₁, hrenamed, hgone, hrest₁⟩ := renameAll_ok Prod.fst (fun child => legacyName child.1) existing
    hnodup hnodup' (fun child hc => ((hexisting child).mp hc).2) (fun child hc => h.fresh child (hmem child hc))
    (fun child hc k rel hrel hrefers => (h.refers k rel hrel child (hmem child hc)).2 hrefers)
  have hlegacy₁ : ∀ child ∈ existing, db₁.get? (legacyName child.1) = (db.get? child.1).map (renamed child) := hrenamed
  have hmap₁ : db₁.get? "mind_id_migration_map" = some (mapAfter ids) := by
    rw [hrest₁ _ (fun child hc => ?_), h.map]
    have hnames := children_names child (hmem child hc) child (hmem child hc)
    exact ⟨hnames.2.1.symm, hnames.2.2.2.1.symm⟩
  -- they are made again and filled
  obtain ⟨db₂, hdb₂, hset₂, hrest₂⟩ := setAll_ok Prod.fst recreate (fun child => (db.get? child.1).map (childAfter f child))
    existing hnodup (fun child hc now hnow hchild => by
      obtain ⟨rel, hrel⟩ := Option.ne_none_iff_exists'.mp ((hexisting child).mp hc).2
      obtain ⟨schema, hsound⟩ := h.child child (hmem child hc) rel hrel
      rw [hrel]
      refine hsound.recreate_ok ha ?_ ?_ ?_ (children_names child (hmem child hc) child (hmem child hc)).2.1
      · rw [hnow _ (fun other ho => (children_names child (hmem child hc) other (hmem other ho)).1),
          hlegacy₁ child hc, hrel]
        rfl
      · rw [hchild, hgone child hc]
      · rw [hnow _ (fun other ho => (children_names other (hmem other ho) other (hmem other ho)).2.1.symm), hmap₁])
  have hlegacy₂ : ∀ child ∈ existing, db₂.get? (legacyName child.1) = (db.get? child.1).map (renamed child) := by
    intro child hc
    rw [hrest₂ _ (fun other ho => (children_names child (hmem child hc) other (hmem other ho)).1), hlegacy₁ child hc]
  have hother₂ : ∀ k, (∀ child ∈ existing, k ≠ child.1 ∧ k ≠ legacyName child.1) → db₂.get? k = db.get? k := by
    intro k hk
    rw [hrest₂ k (fun child hc => (hk child hc).1), hrest₁ k hk]
  -- and the tables of before go: only they themselves refer to them
  have hself : OnlySelf (fun child => legacyName child.1) db₂ existing.reverse := by
    intro x hx k rel' hrel' hrefers
    have hx := List.mem_reverse.mp hx
    by_cases hk : ∃ child ∈ existing, k = child.1 ∨ k = legacyName child.1
    · obtain ⟨child, hc, rfl | rfl⟩ := hk
      · rw [hset₂ child hc] at hrel'
        obtain ⟨rel, hrel, rfl⟩ := Option.map_eq_some_iff.mp hrel'
        obtain ⟨schema, hsound⟩ := h.child child (hmem child hc) rel hrel
        have hnames := children_names x (hmem x hx) x (hmem x hx)
        rcases hsound.refers hrefers with ht | ⟨-, ht⟩
        · exact absurd ht hnames.2.2.2.2.1
        · exact absurd ht hnames.2.2.2.2.2
      · rw [hlegacy₂ child hc] at hrel'
        obtain ⟨rel, hrel, rfl⟩ := Option.map_eq_some_iff.mp hrel'
        rcases Relation.refersTo_of_retarget hrefers with ht | hold
        · exact ht.symm
        · exact absurd hold (h.refers _ rel hrel x (hmem x hx)).1
    · rw [hother₂ k (fun child hc => ⟨fun heq => hk ⟨child, hc, Or.inl heq⟩, fun heq => hk ⟨child, hc, Or.inr heq⟩⟩)]
        at hrel'
      exact absurd hrefers (h.refers k rel' hrel' x (hmem x hx)).1
  obtain ⟨db₃, hdb₃, hgone₃, hrest₃⟩ := dropAll_ok (fun child => legacyName child.1) existing.reverse
    (by rw [List.map_reverse]; exact List.nodup_reverse.mpr hnodup')
    (fun child hc => by
      have hc := List.mem_reverse.mp hc
      rw [hlegacy₂ child hc]
      obtain ⟨rel, hrel⟩ := Option.ne_none_iff_exists'.mp ((hexisting child).mp hc).2
      rw [hrel]
      exact Option.some_ne_none _)
    hself
  have hkeep : ∀ k, (∀ child ∈ existing, k ≠ legacyName child.1) → db₃.get? k = db₂.get? k := fun k hk =>
    hrest₃ k (fun child hc => hk child (List.mem_reverse.mp hc))
  refine ⟨db₃, ?_, fun child hc => ?_, fun k hk => ?_⟩
  · dsimp only
    rw [hdb₁, ok_bind, hdb₂, ok_bind, hdb₃]
  · rw [hkeep _ (fun other ho => (children_names other (hmem other ho) child hc).1.symm)]
    by_cases hin : child ∈ existing
    · rw [hset₂ child hin]
    · have hnone : db.get? child.1 = none := by
        by_contra hsome
        exact hin ((hexisting child).mpr ⟨hc, hsome⟩)
      rw [hother₂ _ (fun other ho => ⟨fun heq => ?_, (children_names other (hmem other ho) child hc).1.symm⟩), hnone]
      · rfl
      · exact ((hexisting other).mp ho).2 (heq ▸ hnone)
  · by_cases hlegacy : ∃ child ∈ existing, k = legacyName child.1
    · obtain ⟨child, hc, rfl⟩ := hlegacy
      rw [hgone₃ child (List.mem_reverse.mpr hc), h.fresh child (hmem child hc)]
    · have hne : ∀ child ∈ existing, k ≠ legacyName child.1 := fun child hc heq => hlegacy ⟨child, hc, heq⟩
      rw [hkeep k hne, hother₂ k (fun child hc => ⟨hk child (hmem child hc), hne child hc⟩)]

/-! ## The sandboxes -/

/-- The sandboxes behind the migration. -/
def sandboxesAfter (f : ℤ → String) (rel : Relation) : Relation :=
  { sandboxesV16 with rows := rel.rows.map (sandboxImage f) }

/-- What the migration of the sandboxes finds. -/
structure Sandboxes (ids : Ids) (ns : List ℤ) (db : Database) (rel : Relation) : Prop where
  like : Like persistentSandboxes rel
  present : db.get? "persistent_sandboxes" = some rel
  map : db.get? "mind_id_migration_map" = some (mapAfter ids)
  names : ∀ row ∈ rel.rows, Names ns (row "mind_id")
  fresh : db.get? "persistent_sandboxes_legacy_v15" = none
  refers : ∀ k other, db.get? k = some other → ¬other.RefersTo "sandbox_aliases" ∧
    ¬other.RefersTo "persistent_sandboxes_legacy_v15" ∧ (other.RefersTo "persistent_sandboxes" → k = "sandbox_aliases")

theorem sandboxes_admitted {ids : Ids} {f : ℤ → String} {ns : List ℤ} (ha : Assigned ids f ns) {rel : Relation}
    (hlike : Like persistentSandboxes rel) (hnames : ∀ row ∈ rel.rows, Names ns (row "mind_id")) :
    (∀ row ∈ (sandboxesAfter f rel).rows, sandboxesV16.Admits row) ∧
      (sandboxesAfter f rel).rows.Pairwise sandboxesV16.Apart := by
  constructor
  · intro row' hrow'
    obtain ⟨row, hrow, rfl⟩ := List.mem_map.mp hrow'
    refine sandboxImage_admits (hlike.valid.1 row hrow) (fun c hc => ?_) (fun check hcheck => ?_)
    · exact hlike.columns.mem_iff.mpr (List.mem_append_right _ hc)
    · exact hlike.checks.mem_iff.mpr (List.mem_append_left _ hcheck)
  · refine List.pairwise_map.mpr (hlike.valid.2.imp_of_mem (fun {p q} hp hq hapart => ?_))
    refine ha.sandboxImage_apart (hnames p hp) (hnames q hq) (List.mem_append_right _ ?_) hapart
    rw [hlike.keys]
    exact List.mem_singleton_self _

theorem recreateSandboxes_ok {ids : Ids} {f : ℤ → String} {ns : List ℤ} (ha : Assigned ids f ns) {db : Database}
    {rel : Relation} (h : Sandboxes ids ns db rel) :
    ∃ after, recreateSandboxes db = .ok after ∧
      ∀ k, after.get? k = if k = "persistent_sandboxes" then some (sandboxesAfter f rel)
        else if k = "sandbox_aliases" then none else db.get? k := by
  obtain ⟨db₁, hdb₁, hview₁⟩ := @dropIfExists_ok db "sandbox_aliases"
    (fun k other _ hother => (h.refers k other hother).1)
  have hrel₁ : db₁.get? "persistent_sandboxes" = some rel := by
    rw [hview₁, if_neg (by decide), h.present]
  have hfresh₁ : db₁.get? "persistent_sandboxes_legacy_v15" = none := by
    rw [hview₁, if_neg (by decide), h.fresh]
  obtain ⟨db₂, hdb₂, hview₂⟩ := rename_ok hrel₁ hfresh₁
  -- the aliases are gone, so that nothing refers to the sandboxes
  have hother₂ : ∀ k, k ≠ "persistent_sandboxes" → k ≠ "persistent_sandboxes_legacy_v15" → db₂.get? k = db₁.get? k := by
    intro k hk hk'
    rw [hview₂, if_neg hk', if_neg hk]
    cases hget : db₁.get? k with
    | none => rfl
    | some other =>
        rw [hview₁] at hget
        by_cases halias : k = "sandbox_aliases"
        · rw [if_pos halias] at hget
          cases hget
        · rw [if_neg halias] at hget
          rw [Option.map_some, Relation.retarget_of_free (fun hrefers => halias ((h.refers k other hget).2.2 hrefers))]
  have hlegacy₂ : ∃ legacy, db₂.get? "persistent_sandboxes_legacy_v15" = some legacy ∧ legacy.rows = rel.rows := by
    refine ⟨({ rel with name := "persistent_sandboxes_legacy_v15" } : Relation).retarget
      "persistent_sandboxes" "persistent_sandboxes_legacy_v15", ?_, rfl⟩
    rw [hview₂, if_pos rfl]
    rfl
  obtain ⟨legacy, hlegacy₂, hrows⟩ := hlegacy₂
  have hfree₂ : db₂.get? sandboxesV16.name = none := by
    rw [hview₂, if_neg (by decide)]
    rfl
  obtain ⟨db₃, hdb₃, hview₃⟩ := create_ok hfree₂
  have hat₃ : db₃.get? "persistent_sandboxes" = some sandboxesV16 := by
    rw [hview₃]
    rfl
  have hmap₃ : rowsOf db₃ "mind_id_migration_map" = ids.map mapRow := by
    have hget : db₃.get? "mind_id_migration_map" = some (mapAfter ids) := by
      rw [hview₃, if_neg (by decide), hother₂ _ (by decide) (by decide), hview₁, if_neg (by decide), h.map]
    rw [rowsOf_of_get? hget]
    rfl
  have hlegacy₃ : rowsOf db₃ "persistent_sandboxes_legacy_v15" = rel.rows := by
    have hget : db₃.get? "persistent_sandboxes_legacy_v15" = some legacy := by
      rw [hview₃, if_neg (by decide), hlegacy₂]
    rw [rowsOf_of_get? hget, hrows]
  have hadmitted := sandboxes_admitted ha h.like h.names
  obtain ⟨db₄, hdb₄, hview₄⟩ := insertAll_ok hat₃ hadmitted.1 hadmitted.2
  have hat₄ : db₄.get? "persistent_sandboxes_legacy_v15" = some legacy := by
    rw [hview₄, if_neg (by decide), hview₃, if_neg (by decide), hlegacy₂]
  obtain ⟨db₅, hdb₅, hview₅⟩ := drop_ok hat₄ (fun k other hk hother hrefers => by
    rw [hview₄] at hother
    by_cases hsandbox : k = "persistent_sandboxes"
    · rw [if_pos hsandbox] at hother
      cases hother
      exact (show ¬sandboxesV16.RefersTo "persistent_sandboxes_legacy_v15" by decide) hrefers
    · rw [if_neg hsandbox, hview₃, if_neg (show k ≠ sandboxesV16.name from hsandbox), hother₂ k hsandbox hk, hview₁]
        at hother
      by_cases halias : k = "sandbox_aliases"
      · rw [if_pos halias] at hother
        cases hother
      · rw [if_neg halias] at hother
        exact (h.refers k other hother).2.1 hrefers)
  refine ⟨db₅, ?_, fun k => ?_⟩
  · unfold recreateSandboxes
    rw [hdb₁, ok_bind, hdb₂, ok_bind, hdb₃, ok_bind, hmap₃, hlegacy₃, ha.selectSandboxes_eq h.names]
    change (insertAll db₃ "persistent_sandboxes" (sandboxesAfter f rel).rows >>= _) = _
    rw [hdb₄, ok_bind, hdb₅]
  · rw [hview₅, hview₄, hview₃]
    by_cases hsandbox : k = "persistent_sandboxes"
    · rw [if_pos hsandbox, if_pos hsandbox, if_neg (by rw [hsandbox]; decide)]
      rfl
    · rw [if_neg hsandbox, if_neg hsandbox, if_neg (show k ≠ sandboxesV16.name from hsandbox)]
      by_cases hk : k = "persistent_sandboxes_legacy_v15"
      · rw [if_pos hk, hk, if_neg (by decide), h.fresh]
      · rw [if_neg hk, hother₂ k hsandbox hk, hview₁]

end Elpis.Mind.IdMigration
