import Elpis.Mind.IdMigrated

/-!
# What the whole migration leaves

The phases put together: what stands where at the end, that every reference is met, and that what
there was is there as its image.
-/

namespace Elpis.Mind.IdMigration

open Elpis.Lib Elpis.Lib.Sql

/-! ## References before -/

theorem schema_references : ∀ schema ∈ legacySchemas, ∀ c ∈ schema.columns, ∀ ref ∈ c.references,
    ref = ⟨"mind_items", "id"⟩ ∨ schema.name = "mind_comments" ∧ ref = ⟨"mind_comments", "id"⟩ := by
  decide

variable {rel : Relation} {k : String}

section Legacy
variable {db : Database} (h : Legacy db)

include h

theorem Legacy.refers {k t : String} (hrel : db.get? k = some rel) (ht : t ∈ ownNames)
    (hrefers : rel.RefersTo t) : (t = "mind_items" ∧ k ∈ legacySchemas.map Relation.name) ∨
      (k = "mind_comments" ∧ t = "mind_comments") ∨ (k = "sandbox_aliases" ∧ t = "persistent_sandboxes") := by
  by_cases hk : k ∈ legacySchemas.map Relation.name
  · obtain ⟨schema, hschema, rfl⟩ := List.mem_map.mp hk
    obtain ⟨c, hc, href⟩ := hrefers
    obtain ⟨ref, hsome, rfl⟩ := Option.map_eq_some_iff.mp href
    have hc := (h.like schema hschema rel hrel).columns.mem_iff.mp hc
    rcases schema_references schema hschema c hc ref hsome with rfl | ⟨hname, rfl⟩
    · exact Or.inl ⟨rfl, hk⟩
    · exact Or.inr (Or.inl ⟨hname, rfl⟩)
  · exact Or.inr (Or.inr (h.around k rel hrel hk t ht hrefers))

/-- A column that has to name an item does so. -/
theorem Legacy.names_of_column (hforeign : ForeignKeys db) (hrel : db.get? k = some rel)
    (hvalid : rel.Valid) {c : Column} (hc : c ∈ rel.columns) (href : c.references = some ⟨"mind_items", "id"⟩)
    (hneeded : c.notNull = true ∨ c.primaryKey = true ∧ c.type = .integer) {row : Row} (hrow : row ∈ rel.rows) :
    Names (numbers db) (row c.name) := by
  have hadmits := (hvalid.1 row hrow).1 c hc
  refine (h.names_of_reference hforeign hrel hc href hrow).resolve_left (fun hnull => ?_)
  rcases hneeded with hnn | ⟨hpk, htype⟩
  · exact hadmits.1 hnn hnull
  · have hinteger := hadmits.2 hpk htype
    rw [hnull] at hinteger
    cases hinteger

theorem Legacy.child (hforeign : ForeignKeys db) {child : String × List String} (hchild : child ∈ childTables) (hrel : db.get? child.1 = some rel) : ∃ schema, Child (numbers db) child schema rel := by
  obtain ⟨schema, hschema, hfits⟩ := fits_child child hchild
  have hlike := h.like schema hschema rel (hfits.name ▸ hrel)
  refine ⟨schema, { hlike with fits := hfits, names := fun row hrow name hname => ?_ }⟩
  obtain ⟨c, hc, rfl⟩ := hfits.covered name hname
  have hcolumn := hfits.columns c hc
  rw [if_pos hname] at hcolumn
  exact h.names_of_column hforeign hrel hlike.valid (hlike.columns.mem_iff.mpr hc) hcolumn.1 hcolumn.2.1 hrow

theorem Legacy.sandbox_names (hforeign : ForeignKeys db)
    (hrel : db.get? "persistent_sandboxes" = some rel) : Like persistentSandboxes rel ∧
      ∀ row ∈ rel.rows, Names (numbers db) (row "mind_id") := by
  have hlike := h.like persistentSandboxes (by simp [legacySchemas]) rel hrel
  have hcolumn : itemColumn "mind_id" ∈ persistentSandboxes.columns := by decide
  refine ⟨hlike, fun row hrow => ?_⟩
  exact h.names_of_column hforeign hrel hlike.valid (hlike.columns.mem_iff.mpr hcolumn) rfl (Or.inl rfl) hrow

end Legacy

/-! ## What stands where when the items are still under their new name -/

structure Rebuilt (ids : Ids) (f : ℤ → String) (db after : Database) : Prop where
  items : after.get? "mind_items_v16" = some (itemsAfter f db)
  map : after.get? "mind_id_migration_map" = some (mapAfter ids)
  child : ∀ child ∈ childTables, after.get? child.1 = (db.get? child.1).map (childAfter f child)
  sandboxes : after.get? "persistent_sandboxes" = (db.get? "persistent_sandboxes").map (sandboxesAfter f)
  aliases : after.get? "sandbox_aliases" =
    if (db.get? "persistent_sandboxes").isSome then none else db.get? "sandbox_aliases"
  rest : ∀ k, k ∉ ["mind_items_v16", "mind_id_migration_map", "persistent_sandboxes", "sandbox_aliases"] →
    (∀ child ∈ childTables, k ≠ child.1) → after.get? k = db.get? k

theorem own_children : ∀ child ∈ childTables, child.1 ∈ ownNames ∧ legacyName child.1 ∈ ownNames ∧
    legacyName child.1 ∈ newNames ∧ child.1 ≠ "persistent_sandboxes" ∧ child.1 ≠ "sandbox_aliases" ∧
    child.1 ≠ "mind_items" ∧ legacyName child.1 ≠ "mind_items" ∧ legacyName child.1 ≠ "persistent_sandboxes" := by
  decide

theorem refers_itemsAfter {f : ℤ → String} {db : Database} {t : String} (h : (itemsAfter f db).RefersTo t) :
    t = "mind_items_v16" := by
  obtain ⟨c, hc, href⟩ := h
  obtain ⟨ref, hsome, rfl⟩ := Option.map_eq_some_iff.mp href
  have hcolumns : ∀ c ∈ itemsV16.columns, ∀ ref ∈ c.references, ref.table = "mind_items_v16" := by decide
  exact hcolumns c hc ref hsome

theorem refers_sandboxesAfter {f : ℤ → String} {t : String} (h : (sandboxesAfter f rel).RefersTo t) :
    t = "mind_items_v16" := by
  obtain ⟨c, hc, href⟩ := h
  obtain ⟨ref, hsome, rfl⟩ := Option.map_eq_some_iff.mp href
  have hcolumns : ∀ c ∈ sandboxesV16.columns, ∀ ref ∈ c.references, ref.table = "mind_items_v16" := by decide
  exact hcolumns c hc ref hsome

theorem not_refers_mapAfter {ids : Ids} {t : String} : ¬(mapAfter ids).RefersTo t := by
  rintro ⟨c, hc, href⟩
  have hcolumns : ∀ c ∈ mapRelation.columns, c.references = none := by decide
  rw [hcolumns c hc] at href
  cases href

theorem Legacy.before {db : Database} (h : Legacy db) (hforeign : ForeignKeys db) {ids : Ids} {f : ℤ → String}
    {after : Database} (hview : ∀ k, after.get? k = if k = "mind_items_v16" then some (itemsAfter f db)
      else if k = "mind_id_migration_map" then some (mapAfter ids) else db.get? k) :
    Before ids (numbers db) after := by
  have hkeep : ∀ k, k ≠ "mind_items_v16" → k ≠ "mind_id_migration_map" → after.get? k = db.get? k := by
    intro k hk hk'
    rw [hview, if_neg hk, if_neg hk']
  refine ⟨by rw [hview]; rfl, fun child hc rel hrel => ?_, fun child hc => ?_, fun k rel hrel child hc => ?_⟩
  · have hnames := children_names child hc child hc
    rw [hkeep _ hnames.2.2.1 hnames.2.1] at hrel
    exact h.child hforeign hc hrel
  · have hnames := children_names child hc child hc
    rw [hkeep _ hnames.2.2.2.2.1 hnames.2.2.2.1]
    exact h.fresh _ (own_children child hc).2.2.1
  · have hnames := children_names child hc child hc
    have hown := own_children child hc
    by_cases hitems : k = "mind_items_v16"
    · rw [hview, if_pos hitems] at hrel
      cases hrel
      exact ⟨fun hr => hnames.2.2.2.2.1 (refers_itemsAfter hr), fun hr => absurd (refers_itemsAfter hr) hnames.2.2.1⟩
    · by_cases hmap : k = "mind_id_migration_map"
      · rw [hview, if_neg hitems, if_pos hmap] at hrel
        cases hrel
        exact ⟨not_refers_mapAfter, fun hr => absurd hr not_refers_mapAfter⟩
      · rw [hkeep k hitems hmap] at hrel
        refine ⟨fun hr => ?_, fun hr => ?_⟩
        · rcases h.refers hrel hown.2.1 hr with ⟨ht, -⟩ | ⟨-, ht⟩ | ⟨-, ht⟩
          · exact hown.2.2.2.2.2.2.1 ht
          · exact hnames.2.2.2.2.2 ht
          · exact hown.2.2.2.2.2.2.2 ht
        · rcases h.refers hrel hown.1 hr with ⟨ht, -⟩ | ⟨hk, ht⟩ | ⟨-, ht⟩
          · exact absurd ht hown.2.2.2.2.2.1
          · rw [hk, ht]
          · exact absurd ht hown.2.2.2.1

/-- The phases up to the sandboxes. -/
def rebuild (draws : List String) (db : Database) : Except String Database := do
  let db ← migrateItems draws db
  let db ← migrateChildren db
  migrateSandboxes db

theorem rebuilt_ok {db : Database} (h : Legacy db) (hforeign : ForeignKeys db) {draws : List String}
    (helm : ∀ id ∈ draws, ∀ row column, row column = .text id → isElm column row = true)
    (henough : (rowsOf db "mind_items").length ≤ draws.toFinset.card) :
    ∃ after ids f, rebuild draws db = .ok after ∧ Assigned ids f (numbers db) ∧ Rebuilt ids f db after := by
  obtain ⟨db₁, ids, f, hdb₁, ha, hview₁⟩ := migrateItems_ok h hforeign helm henough
  obtain ⟨db₂, hdb₂, hchild₂, hrest₂⟩ := migrateChildren_ok ha (h.before hforeign hview₁)
  have hitems₂ : db₂.get? "mind_items_v16" = some (itemsAfter f db) := by
    rw [hrest₂ _ (by decide), hview₁, if_pos rfl]
  have hmap₂ : db₂.get? "mind_id_migration_map" = some (mapAfter ids) := by
    rw [hrest₂ _ (by decide), hview₁, if_neg (by decide), if_pos rfl]
  have hold₂ : ∀ k, k ≠ "mind_items_v16" → k ≠ "mind_id_migration_map" → (∀ child ∈ childTables, k ≠ child.1) →
      db₂.get? k = db.get? k := by
    intro k hk hk' hchild
    rw [hrest₂ k hchild, hview₁, if_neg hk, if_neg hk']
  have hchildren : ∀ child ∈ childTables, db₂.get? child.1 = (db.get? child.1).map (childAfter f child) := by
    intro child hc
    have hnames := children_names child hc child hc
    rw [hchild₂ child hc, hview₁, if_neg hnames.2.2.1, if_neg hnames.2.1]
  have hsandboxes₂ : db₂.get? "persistent_sandboxes" = db.get? "persistent_sandboxes" :=
    hold₂ _ (by decide) (by decide) (by decide)
  cases hsandboxes : db.get? "persistent_sandboxes" with
  | none =>
      refine ⟨db₂, ids, f, ?_, ha, hitems₂, hmap₂, hchildren, ?_, ?_, fun k hk hchild => ?_⟩
      · unfold rebuild
        rw [hdb₁, ok_bind, hdb₂, ok_bind, migrateSandboxes, hsandboxes₂, hsandboxes]
        rfl
      · rw [hsandboxes₂, hsandboxes]
        rfl
      · rw [hold₂ _ (by decide) (by decide) (by decide), hsandboxes]
        rfl
      · simp only [List.mem_cons, List.not_mem_nil, or_false, not_or] at hk
        exact hold₂ k hk.1 hk.2.1 hchild
  | some rel =>
      obtain ⟨hlike, hnames⟩ := h.sandbox_names hforeign hsandboxes
      have hrefers : ∀ k other, db₂.get? k = some other → ∀ t ∈ ownNames, other.RefersTo t → t = "mind_items" ∨
          t = "mind_items_v16" ∨ t = "mind_comments" ∨ (k = "sandbox_aliases" ∧ t = "persistent_sandboxes") := by
        intro k other hother t ht hr
        by_cases hitems : k = "mind_items_v16"
        · rw [hitems, hitems₂] at hother
          cases hother
          exact Or.inr (Or.inl (refers_itemsAfter hr))
        by_cases hmap : k = "mind_id_migration_map"
        · rw [hmap, hmap₂] at hother
          cases hother
          exact absurd hr not_refers_mapAfter
        by_cases hchild : ∃ child ∈ childTables, k = child.1
        · obtain ⟨child, hc, rfl⟩ := hchild
          rw [hchildren child hc] at hother
          obtain ⟨old, hold, rfl⟩ := Option.map_eq_some_iff.mp hother
          obtain ⟨schema, hsound⟩ := h.child hforeign hc hold
          rcases hsound.refers hr with ht | ⟨-, ht⟩
          · exact Or.inr (Or.inl ht)
          · exact Or.inr (Or.inr (Or.inl ht))
        · rw [hold₂ k hitems hmap (fun child hc heq => hchild ⟨child, hc, heq⟩)] at hother
          rcases h.refers hother ht hr with ⟨ht, -⟩ | ⟨-, ht⟩ | hboth
          · exact Or.inl ht
          · exact Or.inr (Or.inr (Or.inl ht))
          · exact Or.inr (Or.inr (Or.inr hboth))
      have hsound : Sandboxes ids (numbers db) db₂ rel := by
        refine ⟨hlike, by rw [hsandboxes₂, hsandboxes], hmap₂, hnames, ?_, fun k other hother => ⟨fun hr => ?_, fun hr => ?_, fun hr => ?_⟩⟩
        · rw [hold₂ _ (by decide) (by decide) (by decide)]
          exact h.fresh _ (by decide)
        · have := hrefers k other hother _ (by decide) hr
          simp at this
        · have := hrefers k other hother _ (by decide) hr
          simp at this
        · have := hrefers k other hother _ (by decide) hr
          simpa using this
      obtain ⟨db₃, hdb₃, hview₃⟩ := recreateSandboxes_ok ha hsound
      have hkeep : ∀ k, k ≠ "persistent_sandboxes" → k ≠ "sandbox_aliases" → db₃.get? k = db₂.get? k := by
        intro k hk hk'
        rw [hview₃, if_neg hk, if_neg hk']
      refine ⟨db₃, ids, f, ?_, ha, ?_, ?_, fun child hc => ?_, ?_, ?_, fun k hk hchild => ?_⟩
      · unfold rebuild
        rw [hdb₁, ok_bind, hdb₂, ok_bind, migrateSandboxes, hsandboxes₂, hsandboxes]
        exact hdb₃
      · rw [hkeep _ (by decide) (by decide), hitems₂]
      · rw [hkeep _ (by decide) (by decide), hmap₂]
      · have hown := own_children child hc
        rw [hkeep _ hown.2.2.2.1 hown.2.2.2.2.1, hchildren child hc]
      · rw [hview₃, hsandboxes]
        rfl
      · rw [hview₃, hsandboxes]
        rfl
      · simp only [List.mem_cons, List.not_mem_nil, or_false, not_or] at hk
        rw [hkeep k hk.2.2.1 hk.2.2.2, hold₂ k hk.1 hk.2.1 hchild]

/-- A relation of the rebuilt database, by where it comes from. -/
inductive Stands (ids : Ids) (f : ℤ → String) (db : Database) : String → Relation → Prop where
  | items : Stands ids f db "mind_items_v16" (itemsAfter f db)
  | map : Stands ids f db "mind_id_migration_map" (mapAfter ids)
  | child {child : String × List String} {old : Relation} (hc : child ∈ childTables) (hold : db.get? child.1 = some old) :
      Stands ids f db child.1 (childAfter f child old)
  | sandboxes {old : Relation} (hold : db.get? "persistent_sandboxes" = some old) :
      Stands ids f db "persistent_sandboxes" (sandboxesAfter f old)
  | old {rel : Relation} (hrel : db.get? "mind_items" = some rel) : Stands ids f db "mind_items" rel
  | aliases {rel : Relation} (hrel : db.get? "sandbox_aliases" = some rel)
      (hnone : db.get? "persistent_sandboxes" = none) : Stands ids f db "sandbox_aliases" rel
  | around {k : String} {rel : Relation} (hk : k ∉ ownNames) (hrel : db.get? k = some rel) : Stands ids f db k rel

theorem mem_ownNames (h : k ∈ ownNames) : k = "mind_items" ∨ k ∈ newNames ∨
    k = "persistent_sandboxes" ∨ k = "sandbox_aliases" ∨ ∃ child ∈ childTables, k = child.1 := by
  revert k
  decide

theorem Rebuilt.stands {ids : Ids} {f : ℤ → String} {db after : Database} (hr : Rebuilt ids f db after) (h : Legacy db) (hrel : after.get? k = some rel) : Stands ids f db k rel := by
  by_cases hchild : ∃ child ∈ childTables, k = child.1
  · obtain ⟨child, hc, rfl⟩ := hchild
    rw [hr.child child hc] at hrel
    obtain ⟨old, hold, rfl⟩ := Option.map_eq_some_iff.mp hrel
    exact .child hc hold
  by_cases hk : k ∈ ["mind_items_v16", "mind_id_migration_map", "persistent_sandboxes", "sandbox_aliases"]
  · simp only [List.mem_cons, List.not_mem_nil, or_false] at hk
    rcases hk with rfl | rfl | rfl | rfl
    · rw [hr.items] at hrel
      cases hrel
      exact .items
    · rw [hr.map] at hrel
      cases hrel
      exact .map
    · rw [hr.sandboxes] at hrel
      obtain ⟨old, hold, rfl⟩ := Option.map_eq_some_iff.mp hrel
      exact .sandboxes hold
    · rw [hr.aliases] at hrel
      cases hsandboxes : db.get? "persistent_sandboxes" with
      | none =>
          rw [hsandboxes] at hrel
          exact .aliases hrel hsandboxes
      | some old =>
          rw [hsandboxes] at hrel
          cases hrel
  · rw [hr.rest k hk (fun child hc heq => hchild ⟨child, hc, heq⟩)] at hrel
    simp only [List.mem_cons, List.not_mem_nil, or_false, not_or] at hk
    by_cases hown : k ∈ ownNames
    · rcases mem_ownNames hown with rfl | hnew | hsandbox | halias | hc
      · exact .old hrel
      · rw [h.fresh k hnew] at hrel
        cases hrel
      · exact absurd hsandbox hk.2.2.1
      · exact absurd halias hk.2.2.2
      · exact absurd hc hchild
    · exact .around hown hrel

theorem Stands.not_items {ids : Ids} {f : ℤ → String} {db : Database} (h : Legacy db) (hforeign : ForeignKeys db) (hs : Stands ids f db k rel) (hr : rel.RefersTo "mind_items") : k = "mind_items" := by
  have hown : "mind_items" ∈ ownNames := by decide
  cases hs with
  | items => exact absurd (refers_itemsAfter hr) (by decide)
  | map => exact absurd hr not_refers_mapAfter
  | @child child old hc hold =>
      obtain ⟨schema, hsound⟩ := h.child hforeign hc hold
      rcases hsound.refers hr with ht | ⟨-, ht⟩
      · exact absurd ht (by decide)
      · exact absurd ht (by decide)
  | sandboxes hold => exact absurd (refers_sandboxesAfter hr) (by decide)
  | old hrel => rfl
  | aliases hrel hnone => exact absurd (h.around _ _ hrel (by decide) _ hown hr).2 (by decide)
  | around hk hrel =>
      have hschema : k ∉ legacySchemas.map Relation.name := fun hin =>
        hk (List.mem_append_left _ (List.mem_append_left _ hin))
      exact absurd (h.around k rel hrel hschema _ hown hr).2 (by decide)

theorem child_ids : ∀ child ∈ childTables, "id" ∉ child.2 := by
  decide

/-! ## The items get their name -/

def itemsNew (f : ℤ → String) (db : Database) : Relation :=
  ({ itemsAfter f db with name := "mind_items" } : Relation).retarget "mind_items_v16" "mind_items"

theorem finish_ok {ids : Ids} {f : ℤ → String} {db after : Database} (hr : Rebuilt ids f db after) (h : Legacy db)
    (hforeign : ForeignKeys db) :
    ∃ new, (drop after "mind_items" >>= fun db => rename db "mind_items_v16" "mind_items") = .ok new ∧
      ∀ k, new.get? k = if k = "mind_items" then some (itemsNew f db)
        else if k = "mind_items_v16" then none else (after.get? k).map (Relation.retarget "mind_items_v16" "mind_items") := by
  obtain ⟨rel, hrel, -⟩ := h.itemRelation
  have hitems : after.get? "mind_items" = some rel := by
    rw [hr.rest _ (by decide) (by decide), hrel]
  obtain ⟨mid, hmid, hview⟩ := drop_ok hitems (fun k other hk hother hrefers =>
    hk ((hr.stands h hother).not_items h hforeign hrefers))
  have hat : mid.get? "mind_items_v16" = some (itemsAfter f db) := by
    rw [hview, if_neg (by decide), hr.items]
  have hfree : mid.get? "mind_items" = none := by
    rw [hview, if_pos rfl]
  obtain ⟨new, hnew, hview'⟩ := rename_ok hat hfree
  refine ⟨new, by rw [hmid, ok_bind, hnew], fun k => ?_⟩
  rw [hview']
  by_cases hk : k = "mind_items"
  · rw [if_pos hk, if_pos hk]
    rfl
  · rw [if_neg hk, if_neg hk]
    by_cases hk' : k = "mind_items_v16"
    · rw [if_pos hk', if_pos hk']
      rfl
    · rw [if_neg hk', if_neg hk', hview, if_neg hk]

/-- What the finished database has under each name. -/
def Finished (f : ℤ → String) (db after new : Database) : Prop :=
  ∀ k, new.get? k = if k = "mind_items" then some (itemsNew f db)
    else if k = "mind_items_v16" then none else (after.get? k).map (Relation.retarget "mind_items_v16" "mind_items")

theorem Rebuilt.get?_around {ids : Ids} {f : ℤ → String} {db after : Database} (hr : Rebuilt ids f db after) (hk : k ∉ ownNames) : after.get? k = db.get? k := by
  refine hr.rest k (fun hin => hk ?_) (fun child hc heq => hk (heq ▸ (own_children child hc).1))
  simp only [List.mem_cons, List.not_mem_nil, or_false] at hin
  rcases hin with rfl | rfl | rfl | rfl <;> decide

section Finished
variable {ids : Ids} {f : ℤ → String} {db after new : Database} (hnew : Finished f db after new)

include hnew

theorem Finished.rows_items : rowsOf new "mind_items" = (orderedItems db).map (image f ["id", "parent_id"]) := by
  have hget : new.get? "mind_items" = some (itemsNew f db) := by
    rw [hnew, if_pos rfl]
  rw [rowsOf_of_get? hget]
  rfl

theorem Finished.rows_other (hk : k ≠ "mind_items") (hk' : k ≠ "mind_items_v16") :
    rowsOf new k = rowsOf after k := by
  unfold rowsOf
  rw [hnew, if_neg hk, if_neg hk']
  cases after.get? k with
  | none => rfl
  | some rel => rfl

variable (hr : Rebuilt ids f db after)

include hr

theorem Finished.rows_child {child : String × List String} (hc : child ∈ childTables) :
    rowsOf new child.1 = (rowsOf db child.1).map (image f child.2) := by
  have hown := own_children child hc
  rw [hnew.rows_other hown.2.2.2.2.2.1 (children_names child hc child hc).2.2.1]
  unfold rowsOf
  rw [hr.child child hc]
  cases db.get? child.1 with
  | none => rfl
  | some rel => rfl

theorem Finished.rows_sandboxes :
    rowsOf new "persistent_sandboxes" = (rowsOf db "persistent_sandboxes").map (sandboxImage f) := by
  rw [hnew.rows_other (by decide) (by decide)]
  unfold rowsOf
  rw [hr.sandboxes]
  cases db.get? "persistent_sandboxes" with
  | none => rfl
  | some rel => rfl

variable (h : Legacy db)

include h

theorem Finished.get?_around (hk : k ∉ ownNames) : new.get? k = db.get? k := by
  have hne : ∀ t ∈ ownNames, k ≠ t := fun t ht heq => hk (heq ▸ ht)
  rw [hnew, if_neg (hne _ (by decide)), if_neg (hne _ (by decide)), hr.get?_around hk]
  cases hrel : db.get? k with
  | none => rfl
  | some rel =>
      rw [Option.map_some, Relation.retarget_of_free (fun hrefers => ?_)]
      have hschema : k ∉ legacySchemas.map Relation.name := fun hin =>
        hk (List.mem_append_left _ (List.mem_append_left _ hin))
      exact absurd (h.around k rel hrel hschema _ (by decide) hrefers).2 (by decide)

omit hr in
theorem Finished.found_item {v : Value} (hv : Names (numbers db) v) :
    Found new ⟨"mind_items", "id"⟩ (mapped f v) := by
  obtain ⟨row, hrow, rfl⟩ := h.names_iff.mp hv
  refine Or.inr ⟨image f ["id", "parent_id"] row, ?_, rfl⟩
  rw [hnew.rows_items]
  exact List.mem_map_of_mem (mem_orderedItems.mpr hrow)

/-- What a table around refers to is there as it was. -/
theorem Finished.found_around (hforeign : ForeignKeys db) (hrel : db.get? k = some rel)
    (hk : k ∉ legacySchemas.map Relation.name)
    (halias : k = "sandbox_aliases" → db.get? "persistent_sandboxes" = none) {c : Column} (hc : c ∈ rel.columns)
    {ref : Reference} (href : (c.retarget "mind_items_v16" "mind_items").references = some ref) {row : Row}
    (hrow : row ∈ rel.rows) : Found new ref (row c.name) := by
  have hfree : c.references.map Reference.table ≠ some "mind_items_v16" := by
    intro htable
    exact absurd (h.around k rel hrel hk _ (by decide) ⟨c, hc, htable⟩).2 (by decide)
  rw [Column.retarget_of_ne hfree] at href
  have hold := hforeign rel (Table.mem_of_get? hrel) c hc ref href row hrow
  by_cases hown : ref.table ∈ ownNames
  · obtain ⟨hk, ht⟩ := h.around k rel hrel hk _ hown ⟨c, hc, by rw [href]; rfl⟩
    rcases hold with hnull | ⟨other, hother, -⟩
    · exact Or.inl hnull
    · rw [ht, rowsOf_of_none (halias hk)] at hother
      cases hother
  · unfold Found rowsOf
    rw [hnew.get?_around hr h hown]
    exact hold

end Finished

section Finished
variable {ids : Ids} {f : ℤ → String} {db after new : Database} (hnew : Finished f db after new)
  (hr : Rebuilt ids f db after) (h : Legacy db) (hforeign : ForeignKeys db)

include hnew hr h hforeign

/-- Every reference of a rebuilt relation is met. -/
theorem Finished.found (hs : Stands ids f db k rel) (hk : k ≠ "mind_items") {c : Column}
    (hc : c ∈ rel.columns) {ref : Reference}
    (href : (c.retarget "mind_items_v16" "mind_items").references = some ref) {row : Row} (hrow : row ∈ rel.rows) :
    Found new ref (row c.name) := by
  cases hs with
  | items =>
      have hparent : ∀ c ∈ itemsV16.columns, ∀ ref ∈ (c.retarget "mind_items_v16" "mind_items").references,
          c.name = "parent_id" ∧ ref = ⟨"mind_items", "id"⟩ := by decide
      obtain ⟨hname, rfl⟩ := hparent c hc ref href
      obtain ⟨old, hold, rfl⟩ := List.mem_map.mp hrow
      rw [hname]
      rcases h.item_parent hforeign (mem_orderedItems.mp hold) with hnull | hnames
      · refine Or.inl ?_
        change mapped f (old "parent_id") = .null
        rw [hnull]
        rfl
      · exact hnew.found_item h hnames
  | map =>
      have hnone : ∀ c ∈ mapRelation.columns, (c.retarget "mind_items_v16" "mind_items").references = none := by decide
      rw [hnone c hc] at href
      cases href
  | @child child old hchild hold =>
      obtain ⟨schema, hsound⟩ := h.child hforeign hchild hold
      obtain ⟨c₀, hc₀, rfl⟩ := List.mem_map.mp hc
      obtain ⟨row₀, hrow₀, rfl⟩ := List.mem_map.mp hrow
      have hcolumn := hsound.fits.columns c₀ (hsound.columns.mem_iff.mp hc₀)
      rw [childColumn_name]
      by_cases hin : c₀.name ∈ child.2
      · rw [if_pos hin] at hcolumn
        rw [Column.retarget, hcolumn.2.2.2] at href
        cases href
        unfold image
        rw [if_pos hin]
        exact hnew.found_item h (hsound.names row₀ hrow₀ _ hin)
      · -- a comment and the one it answers keep their ids
        rw [if_neg hin] at hcolumn
        rw [Column.retarget, hcolumn.2.1] at href
        cases hsome : c₀.references with
        | none =>
            rw [hsome] at href
            cases href
        | some ref₀ =>
            obtain ⟨hcomments, rfl⟩ := hcolumn.2.2 ref₀ hsome
            have hsame : ref = ⟨"mind_comments", "id"⟩ := by
              rw [hsome] at href
              exact (Option.some.inj href).symm
            subst hsame
            have hfound := hforeign old (Table.mem_of_get? hold) c₀ hc₀ _ hsome row₀ hrow₀
            unfold image
            rw [if_neg hin]
            rcases hfound with hnull | ⟨other, hother, hid⟩
            · exact Or.inl hnull
            · have hids : "id" ∉ child.2 := child_ids child hchild
              refine Or.inr ⟨image f child.2 other, ?_, ?_⟩
              · change other ∈ rowsOf db "mind_comments" at hother
                change image f child.2 other ∈ rowsOf new "mind_comments"
                rw [← hcomments] at hother ⊢
                rw [hnew.rows_child hr hchild]
                exact List.mem_map_of_mem hother
              · unfold image
                rw [if_neg hids]
                exact hid
  | @sandboxes old hold =>
      have hid : ∀ c ∈ sandboxesV16.columns, ∀ ref ∈ (c.retarget "mind_items_v16" "mind_items").references,
          c.name = "id" ∧ ref = ⟨"mind_items", "id"⟩ := by decide
      obtain ⟨hname, rfl⟩ := hid c hc ref href
      obtain ⟨p, hp, rfl⟩ := List.mem_map.mp hrow
      rw [hname]
      exact hnew.found_item h ((h.sandbox_names hforeign hold).2 p hp)
  | old hrel => exact absurd rfl hk
  | aliases hrel hnone => exact hnew.found_around hr h hforeign hrel (by decide) (fun _ => hnone) hc href hrow
  | around hk hrel =>
      refine hnew.found_around hr h hforeign hrel (fun hin => ?_) (fun heq => ?_) hc href hrow
      · exact hk (List.mem_append_left _ (List.mem_append_left _ hin))
      · exact absurd (heq ▸ (by decide : "sandbox_aliases" ∈ ownNames)) hk

theorem Finished.foreignKeys : ForeignKeys new := by
  intro rel hrel c' hc' ref href row hrow
  have hget := Table.get?_key hrel
  by_cases hk : rel.name = "mind_items"
  · rw [hk, hnew, if_pos rfl] at hget
    cases hget
    obtain ⟨c, hc, rfl⟩ := List.mem_map.mp hc'
    exact hnew.found hr h hforeign .items (by decide) hc href hrow
  · by_cases hk' : rel.name = "mind_items_v16"
    · rw [hk', hnew, if_neg (by decide), if_pos rfl] at hget
      cases hget
    · rw [hnew, if_neg hk, if_neg hk'] at hget
      obtain ⟨old, hold, heq⟩ := Option.map_eq_some_iff.mp hget
      have hs := hr.stands h hold
      subst heq
      obtain ⟨c, hc, rfl⟩ := List.mem_map.mp hc'
      exact hnew.found hr h hforeign hs hk hc href hrow

omit hforeign in
theorem Finished.migrated (ha : Assigned ids f (numbers db)) : Migrated f db new := by
  refine ⟨⟨?_, ?_, ?_⟩, ?_, fun child hc => ?_, ?_, fun k hk => hnew.get?_around hr h hk⟩
  · rintro n ⟨row, hrow, hn⟩
    refine ⟨image f ["id", "parent_id"] row, ?_, ?_⟩
    · rw [hnew.rows_items]
      exact List.mem_map_of_mem (mem_orderedItems.mpr hrow)
    · change mapped f (row "id") = .text (f n)
      rw [hn]
      rfl
  · rintro n ⟨row, hrow, hn⟩ m ⟨row', hrow', hm⟩ heq
    have hnum : ∀ n, (∃ row ∈ rowsOf db "mind_items", row "id" = .integer n) → n ∈ numbers db := by
      intro n hn
      obtain ⟨k, hk, hkn⟩ := h.names_iff.mpr hn
      exact Value.integer.inj hkn ▸ hk
    exact ha.injective (hnum n ⟨row, hrow, hn⟩) (hnum m ⟨row', hrow', hm⟩) heq
  · rintro s ⟨row', hrow', hs⟩
    rw [hnew.rows_items] at hrow'
    obtain ⟨row, hrow, rfl⟩ := List.mem_map.mp hrow'
    obtain ⟨n, hn⟩ := h.item_id (mem_orderedItems.mp hrow)
    refine ⟨n, ⟨row, mem_orderedItems.mp hrow, hn⟩, ?_⟩
    change mapped f (row "id") = .text s at hs
    rw [hn] at hs
    exact Value.text.inj hs
  · rw [hnew.rows_items]
    exact (orderedItems_perm db).map _
  · rw [hnew.rows_child hr hc]
  · rw [hnew.rows_sandboxes hr]

end Finished

/-! ## The migration -/

theorem Legacy.idType_eq {db : Database} (h : Legacy db) : idType db = some .integer := by
  obtain ⟨rel, hrel, hlike, -⟩ := h.itemRelation
  have hid : idColumn ∈ rel.columns := hlike.columns.mem_iff.mpr (by decide)
  have htype : ∀ c ∈ mindItems.columns, c.name = "id" → c.type = .integer := by decide
  unfold idType
  rw [hrel, Option.bind_some]
  cases hfind : rel.columns.find? (fun c => decide (c.name = "id")) with
  | none => exact absurd (List.find?_eq_none.mp hfind idColumn hid) (by decide)
  | some c =>
      have hname : c.name = "id" := by simpa using List.find?_some hfind
      rw [Option.map_some, htype c (hlike.columns.mem_iff.mp (List.mem_of_find?_eq_some hfind)) hname]

/-- Over every database of before whose references are met: the migration is committed, with every
row of before as its image under one renaming of the items, and every reference met again. All that
the random bytes have to bring is as many different ids as there are items. -/
theorem migration_keeps_everything (values : List ℕ) (db : Database) (h : Legacy db) (hforeign : ForeignKeys db)
    (henough : (rowsOf db "mind_items").length ≤ (newMindIds values).toFinset.card) :
    ∃ f new, runMigration (newMindIds values) db = .ok new ∧ Migrated f db new ∧ ForeignKeys new := by
  have helm : ∀ id ∈ newMindIds values, ∀ row column, row column = .text id → isElm column row = true := by
    intro id hid row column hcell
    obtain ⟨value, -, rfl⟩ := List.mem_map.mp hid
    exact isElm_mindIdOf value row column hcell
  obtain ⟨after, ids, f, hafter, ha, hr⟩ := rebuilt_ok h hforeign helm henough
  obtain ⟨new, hfinish, hnew⟩ := finish_ok hr h hforeign
  have hrun : migrateMindIds (newMindIds values) db = .ok new := by
    unfold migrateMindIds
    rw [if_neg (by rw [h.idType_eq]; decide), ← hfinish]
    have hphases : ∀ last : Database → Except String Database, (do
        let db ← migrateItems (newMindIds values) db
        let db ← migrateChildren db
        let db ← migrateSandboxes db
        last db) = rebuild (newMindIds values) db >>= last := by
      intro last
      simp only [rebuild, bind_assoc]
    exact (hphases _).trans (by rw [hafter, ok_bind])
  refine ⟨f, new, ?_, Finished.migrated hnew hr h ha, Finished.foreignKeys hnew hr h hforeign⟩
  unfold runMigration transaction
  rw [hrun, ok_bind, if_pos (Finished.foreignKeys hnew hr h hforeign)]
  rfl

section Example

/-- Two items, the second below the first and waiting for it, a comment and its answer, a sandbox. -/
def smallItems : Relation := { mindItems with rows := [
  rowOf [("id", .integer 1), ("title", .text "first"), ("body", .text ""), ("kind", .text "task"),
    ("status", .text "open"), ("priority", .integer 2), ("created_by", .text "elpis"), ("created_at", .integer 10),
    ("updated_at", .integer 10)],
  rowOf [("id", .integer 2), ("title", .text "second"), ("body", .text ""), ("kind", .text "task"),
    ("status", .text "open"), ("priority", .integer 2), ("parent_id", .integer 1), ("created_by", .text "elpis"),
    ("created_at", .integer 11), ("updated_at", .integer 11)]] }

def smallDependencies : Relation := { mindDependencies with rows := [
  rowOf [("item_id", .integer 2), ("depends_on_id", .integer 1), ("created_by", .text "elpis"),
    ("created_at", .integer 12)]] }

def smallComments : Relation := { mindComments with rows := [
  rowOf [("id", .integer 1), ("item_id", .integer 2), ("author", .text "elpis"), ("body", .text "why"),
    ("created_at", .integer 13)],
  rowOf [("id", .integer 2), ("item_id", .integer 2), ("author", .text "elpis"), ("body", .text "so"),
    ("reply_to_id", .integer 1), ("created_at", .integer 14)]] }

def smallSandboxes : Relation := { persistentSandboxes with rows := [
  rowOf [("id", .text "s"), ("mind_id", .integer 2), ("executor_id", .text "e"), ("generation", .integer 1),
    ("lifecycle", .text "ready"), ("reminder_latched", .integer 0), ("retire_requested", .integer 0),
    ("cold_notice_pending", .integer 0), ("next_run_seq", .integer 1), ("created_at", .integer 15),
    ("updated_at", .integer 15)]] }

def smallMind : Database :=
  (((Table.empty.put smallItems).put smallDependencies).put smallComments).put smallSandboxes

theorem rowOf_null {cells : List (String × Value)} {column : String} (h : column ∉ cells.map Prod.fst) :
    rowOf cells column = .null := by
  unfold rowOf
  rw [List.lookup_eq_none_iff.mpr]
  · rfl
  · intro cell hcell
    simp only [bne_iff_ne]
    exact fun heq => h (heq ▸ List.mem_map_of_mem hcell)

theorem like_of_cells {schema : Relation} {rows : List (List (String × Value))}
    (hvalid : ({ schema with rows := rows.map rowOf } : Relation).Valid)
    (hcells : ∀ cells ∈ rows, ∀ name ∈ cells.map Prod.fst, name ∈ schema.columns.map Column.name) :
    Like schema { schema with rows := rows.map rowOf } := by
  refine ⟨List.Perm.refl _, rfl, List.Perm.refl _, hvalid, fun row hrow column hcolumn => ?_⟩
  obtain ⟨cells, hc, rfl⟩ := List.mem_map.mp hrow
  exact rowOf_null (fun hin => hcolumn (hcells cells hc column hin))

theorem legacy_smallMind : Legacy smallMind := by
  have hrows : smallMind.rows = [smallItems, smallDependencies, smallComments, smallSandboxes] := rfl
  have hnodup : (legacySchemas.map Relation.name).Nodup := by decide
  refine ⟨by decide +kernel, fun schema hschema rel hrel => ?_, by decide +kernel, by decide +kernel,
    fun k rel hrel hk => ?_⟩
  · have hmem : rel ∈ smallMind.rows := Table.mem_of_get? hrel
    have hname : rel.name = schema.name := name_of_get? hrel
    have hsame : ∀ schema' ∈ legacySchemas, rel.name = schema'.name → schema = schema' := fun schema' h' heq =>
      List.inj_on_of_nodup_map hnodup hschema h' (hname.symm.trans heq)
    rw [hrows] at hmem
    simp only [List.mem_cons, List.not_mem_nil, or_false] at hmem
    rcases hmem with rfl | rfl | rfl | rfl
    · rw [hsame mindItems (by simp [legacySchemas]) rfl]
      exact @like_of_cells mindItems [_, _] (by decide +kernel) (by decide)
    · rw [hsame mindDependencies (by simp [legacySchemas]) rfl]
      exact @like_of_cells mindDependencies [_] (by decide +kernel) (by decide)
    · rw [hsame mindComments (by simp [legacySchemas]) rfl]
      exact @like_of_cells mindComments [_, _] (by decide +kernel) (by decide)
    · rw [hsame persistentSandboxes (by simp [legacySchemas]) rfl]
      exact @like_of_cells persistentSandboxes [_] (by decide +kernel) (by decide)
  · have hmem : rel ∈ smallMind.rows := Table.mem_of_get? hrel
    have hnames : ∀ rel ∈ smallMind.rows, rel.name ∈ legacySchemas.map Relation.name := by decide +kernel
    exact absurd (name_of_get? hrel ▸ hnames rel hmem) hk

theorem migration_keeps_smallMind : ∃ f new, runMigration (newMindIds [5, 5, 6]) smallMind = .ok new ∧
    Migrated f smallMind new ∧ ForeignKeys new :=
  migration_keeps_everything [5, 5, 6] smallMind legacy_smallMind (by decide +kernel) (by decide +kernel)

end Example

end Elpis.Mind.IdMigration
