import Elpis.Mind.Schema
import Elpis.Lib.Digraph
import Mathlib.Data.List.Sort

/-!
# The Mind store: queries

The reading side of `MindStore`: links, hydrated items and details, and the two
recursive queries that look for a cycle before an edge or a parent is written.
`ORDER BY` is a stable sort of the selected rows.
-/

namespace Elpis.Mind

open Elpis.Lib

/-- `ORDER BY`, for a comparison that says which row comes first. -/
def orderBy {ρ : Type} (le : ρ → ρ → Bool) (rows : List ρ) : List ρ :=
  rows.insertionSort (fun a b => le a b = true)

theorem mem_orderBy {ρ : Type} {le : ρ → ρ → Bool} {rows : List ρ} {r : ρ} :
    r ∈ orderBy le rows ↔ r ∈ rows :=
  List.mem_insertionSort _

/-! ## Links -/

inductive MindEffectiveStatus where
  | of (status : MindStatus)
  | blocked
deriving DecidableEq

structure MindLink where
  id : MindId
  title : String
  status : MindStatus
  effectiveStatus : MindEffectiveStatus
deriving DecidableEq

namespace MindDb

/-- The items that `id` depends on, over `mind_dependencies d JOIN mind_items i`. -/
def dependencyItems (db : MindDb) (id : MindId) : List MindRow :=
  (db.dependencies.select (fun d => decide (d.itemId = id))).filterMap
    (fun d => db.items.get? d.dependsOnId)

/-- The items that depend on `id`. -/
def dependentItems (db : MindDb) (id : MindId) : List MindRow :=
  (db.dependencies.select (fun d => decide (d.dependsOnId = id))).filterMap
    (fun d => db.items.get? d.itemId)

def unresolvedDependencyCount (db : MindDb) (id : MindId) : ℕ :=
  ((db.dependencyItems id).filter (fun i => decide (i.status ≠ .done))).length

/-- Active items with an unresolved dependency are blocked. -/
def effectiveStatus (db : MindDb) (row : MindRow) : MindEffectiveStatus :=
  if row.status.active = true ∧ 0 < db.unresolvedDependencyCount row.id then .blocked
  else .of row.status

def toLink (db : MindDb) (row : MindRow) : MindLink :=
  ⟨row.id, row.title, row.status, db.effectiveStatus row⟩

/-- `priority DESC, id`. -/
def byPriority (a b : MindRow) : Bool :=
  decide (b.priority < a.priority) ||
    (decide (a.priority = b.priority) && decide (a.id ≤ b.id))

/-- `id`. -/
def byId (a b : MindRow) : Bool := decide (a.id ≤ b.id)

def unresolvedDependencies (db : MindDb) (id : MindId) : List MindLink :=
  (orderBy byPriority
    ((db.dependencyItems id).filter (fun i => decide (i.status ≠ .done)))).map db.toLink

def allDependencies (db : MindDb) (id : MindId) : List MindLink :=
  (orderBy byId (db.dependencyItems id)).map db.toLink

def dependents (db : MindDb) (id : MindId) : List MindLink :=
  (orderBy byId (db.dependentItems id)).map db.toLink

def tagsFor (db : MindDb) (id : MindId) : List String :=
  ((db.tags.select (fun t => decide (t.itemId = id))).map TagRow.tag).insertionSort (· ≤ ·)

end MindDb

/-! ## Items and details -/

structure MindClaim where
  itemId : MindId
  owner : String
  claimedAt : Time
  renewedAt : Time
  expiresAt : Time
  expired : Bool
deriving DecidableEq

/-- `claimFromRow`. -/
def ClaimRow.toClaim (now : Time) (r : ClaimRow) : MindClaim :=
  ⟨r.itemId, r.owner, r.claimedAt, r.renewedAt, r.expiresAt, decide (r.expiresAt ≤ now)⟩

structure MindItem where
  row : MindRow
  lastCommentAt : Option Time
  effectiveStatus : MindEffectiveStatus
  tags : List String
  blockedBy : List MindLink
  blocks : List MindLink
  childCount : ℕ
  totalChildCount : ℕ
  commentCount : ℕ
  reminderCount : ℕ
  claim : Option MindClaim
deriving DecidableEq

structure MindDetail extends MindItem where
  parent : Option MindLink
  children : List MindLink
  dependencies : List MindLink
  comments : List CommentRow
  events : List EventRow
  reminders : List ReminderRow
deriving DecidableEq

namespace MindDb

/-- The comments of an item that are not deleted. -/
def liveComments (db : MindDb) (id : MindId) : List CommentRow :=
  db.comments.select (fun c => decide (c.itemId = id) && c.deletedAt.isNone)

/-- `max(COALESCE(updated_at, created_at))` over the live comments. -/
def lastCommentAt (db : MindDb) (id : MindId) : Option Time :=
  ((db.liveComments id).map (fun c => c.updatedAt.getD c.createdAt)).max?

def hydrate (db : MindDb) (now : Time) (row : MindRow) : MindItem where
  row := row
  lastCommentAt := db.lastCommentAt row.id
  effectiveStatus :=
    if row.status.active = true ∧ 0 < (db.unresolvedDependencies row.id).length then
      .blocked
    else .of row.status
  tags := db.tagsFor row.id
  blockedBy := db.unresolvedDependencies row.id
  blocks := db.dependents row.id
  childCount := (db.items.select (fun i =>
    decide (i.parentId = some row.id) && i.archivedAt.isNone)).length
  totalChildCount := (db.items.select (fun i => decide (i.parentId = some row.id))).length
  commentCount := (db.liveComments row.id).length
  reminderCount := (db.reminders.select (fun r =>
    decide (r.itemId = row.id) && r.pending)).length
  claim := (db.claims.get? row.id).map (ClaimRow.toClaim now)

def get (db : MindDb) (now : Time) (id : MindId) : Option MindDetail :=
  (db.items.get? id).map (fun row =>
    { db.hydrate now row with
      parent := (row.parentId.bind db.items.get?).map db.toLink
      children := (orderBy byPriority (db.items.select (fun i =>
        decide (i.parentId = some id) && i.archivedAt.isNone))).map db.toLink
      dependencies := db.allDependencies id
      comments := orderBy (fun a b => decide (a.createdAt < b.createdAt) ||
        (decide (a.createdAt = b.createdAt) && decide (a.id ≤ b.id))) (db.liveComments id)
      events := (orderBy (fun a b => decide (b.createdAt < a.createdAt) ||
        (decide (a.createdAt = b.createdAt) && decide (b.id ≤ a.id)))
        (db.events.select (fun e => decide (e.itemId = id)))).take 200
      reminders := orderBy (fun a b => decide (a.fireAt < b.fireAt) ||
        (decide (a.fireAt = b.fireAt) && decide (a.id ≤ b.id)))
        (db.reminders.select (fun r => decide (r.itemId = id))) })

/-! ## Looking for a cycle -/

/-- `SELECT depends_on_id FROM mind_dependencies WHERE item_id = ?`. -/
def dependsOnIds (db : MindDb) (id : MindId) : List MindId :=
  (db.dependencies.select (fun d => decide (d.itemId = id))).map DependencyRow.dependsOnId

/-- `SELECT parent_id FROM mind_items WHERE id = ? AND parent_id IS NOT NULL`. -/
def parentIds (db : MindDb) (id : MindId) : List MindId :=
  ((db.items.get? id).bind MindRow.parentId).toList

/-- Rows the query of `addDependencyInternal` finds: does `id` stand in the
recursive union of what `dependsOnId` depends on? -/
def dependencyCycle (db : MindDb) (id dependsOnId : MindId) : Bool :=
  decide (id ∈ recursiveUnion db.dependsOnIds db.dependencies.rows.length dependsOnId)

/-- Rows the query of `assertNoParentCycle` finds. -/
def parentCycle (db : MindDb) (id parentId : MindId) : Bool :=
  decide (id ∈ recursiveUnion db.parentIds db.items.rows.length parentId)

/-- `id` depends on `dep`. -/
def DependsOn (db : MindDb) (id dep : MindId) : Prop :=
  ∃ d ∈ db.dependencies, d.itemId = id ∧ d.dependsOnId = dep

/-- `parent` is the parent of `id`. -/
def ParentOf (db : MindDb) (id parent : MindId) : Prop :=
  ∃ row ∈ db.items, row.id = id ∧ row.parentId = some parent

theorem mem_dependsOnIds {db : MindDb} {id dep : MindId} :
    dep ∈ db.dependsOnIds id ↔ db.DependsOn id dep := by
  unfold dependsOnIds DependsOn
  constructor
  · intro h
    obtain ⟨d, hd, rfl⟩ := List.mem_map.mp h
    obtain ⟨hmem, hid⟩ := Table.mem_select.mp hd
    exact ⟨d, hmem, of_decide_eq_true hid, rfl⟩
  · rintro ⟨d, hmem, rfl, rfl⟩
    exact List.mem_map.mpr ⟨d, Table.mem_select.mpr ⟨hmem, decide_eq_true rfl⟩, rfl⟩

theorem mem_parentIds {db : MindDb} {id parent : MindId} :
    parent ∈ db.parentIds id ↔ db.ParentOf id parent := by
  unfold parentIds ParentOf
  rw [Option.mem_toList, Option.bind_eq_some_iff]
  constructor
  · rintro ⟨row, hrow, hp⟩
    exact ⟨row, Table.mem_of_get? hrow, Table.key_of_get? hrow, hp⟩
  · rintro ⟨row, hmem, rfl, hp⟩
    exact ⟨row, Table.get?_key hmem, hp⟩

/-- The dependency query answers whether `dependsOnId` already leads to `id`. -/
theorem dependencyCycle_iff {db : MindDb} {id dependsOnId : MindId} :
    db.dependencyCycle id dependsOnId = true ↔
      Relation.TransGen db.DependsOn dependsOnId id := by
  have hnodes : ∀ u, ∀ v ∈ db.dependsOnIds u,
      v ∈ db.dependencies.rows.map DependencyRow.dependsOnId := by
    intro u v hv
    obtain ⟨d, hd, _, rfl⟩ := mem_dependsOnIds.mp hv
    exact List.mem_map.mpr ⟨d, hd, rfl⟩
  have hrel : (fun u v => v ∈ db.dependsOnIds u) = db.DependsOn := by
    funext u v
    exact propext mem_dependsOnIds
  unfold dependencyCycle
  rw [decide_eq_true_iff, mem_recursiveUnion hnodes (List.length_map _).le, hrel]

/-- The parent query answers whether `id` is an ancestor of `parentId`. -/
theorem parentCycle_iff {db : MindDb} {id parentId : MindId} :
    db.parentCycle id parentId = true ↔
      Relation.TransGen db.ParentOf parentId id := by
  have hnodes : ∀ u, ∀ v ∈ db.parentIds u,
      v ∈ db.items.rows.filterMap MindRow.parentId := by
    intro u v hv
    obtain ⟨row, hrow, _, hp⟩ := mem_parentIds.mp hv
    exact List.mem_filterMap.mpr ⟨row, hrow, hp⟩
  have hrel : (fun u v => v ∈ db.parentIds u) = db.ParentOf := by
    funext u v
    exact propext mem_parentIds
  unfold parentCycle
  rw [decide_eq_true_iff, mem_recursiveUnion hnodes (List.length_filterMap_le _ _), hrel]

/-- No unresolved dependency is left when every dependency is done. -/
theorem unresolvedDependencyCount_eq_zero {db : MindDb} {id : MindId} :
    db.unresolvedDependencyCount id = 0 ↔
      ∀ dep row, db.DependsOn id dep → db.items.get? dep = some row →
        row.status = .done := by
  have hmem : ∀ row, row ∈ db.dependencyItems id ↔
      ∃ dep, db.DependsOn id dep ∧ db.items.get? dep = some row := by
    intro row
    unfold dependencyItems DependsOn
    rw [List.mem_filterMap]
    constructor
    · rintro ⟨d, hd, hrow⟩
      obtain ⟨hd, hid⟩ := Table.mem_select.mp hd
      exact ⟨d.dependsOnId, ⟨d, hd, of_decide_eq_true hid, rfl⟩, hrow⟩
    · rintro ⟨dep, ⟨d, hd, hid, rfl⟩, hrow⟩
      exact ⟨d, Table.mem_select.mpr ⟨hd, decide_eq_true hid⟩, hrow⟩
  unfold unresolvedDependencyCount
  rw [List.length_eq_zero_iff, List.filter_eq_nil_iff]
  constructor
  · intro h dep row hdep hrow
    by_contra hne
    exact h row ((hmem row).mpr ⟨dep, hdep, hrow⟩) (decide_eq_true hne)
  · intro h row hrow
    obtain ⟨dep, hdep, hget⟩ := (hmem row).mp hrow
    simp [h dep row hdep hget]

end MindDb

end Elpis.Mind
