import Elpis.Mind.Specs
import Elpis.Lib.Reach

/-!
# The Mind store: the graph around an item

`graph` of `src/store/mind.ts` walks from an item along the relations that are asked for, breadth
first and at most twelve levels deep. Its nodes are the items within that depth. A child that is
archived is not listed under its parent, so the walk goes from it and not to it.
-/

namespace Elpis.Mind

open Elpis.Lib

/-! ## The walk -/

def MIND_GRAPH_RELATIONS : List String := ["dependencies", "dependents", "parent", "children"]

inductive GraphEdgeType where
  | dependsOn | parent
deriving DecidableEq, Repr

def GraphEdgeType.text : GraphEdgeType → String
  | .dependsOn => "depends_on"
  | .parent => "parent"

structure GraphEdge where
  «from» : MindId
  «to» : MindId
  type : GraphEdgeType
deriving DecidableEq

/-- The key an edge is kept under. -/
def GraphEdge.key (e : GraphEdge) : String := e.type.text ++ ":" ++ e.from ++ ":" ++ e.to

structure MindGraph where
  rootId : MindId
  nodes : List MindDetail
  edges : List GraphEdge

inductive GraphError where
  | mind (error : MindError)
  | invalidRelation (relation : String)

def GraphError.message : GraphError → String
  | .mind error => error.message
  | .invalidRelation relation => "mind: invalid graph relation " ++ Js.stringify relation

/-- `map.set(key, edge)`: an edge of a known key takes its place. -/
def putEdge (edges : List GraphEdge) (e : GraphEdge) : List GraphEdge :=
  if e.key ∈ edges.map GraphEdge.key then edges.map (fun f => if f.key = e.key then e else f) else edges ++ [e]

/-- `new Map(edges.map((edge) => [key, edge])).values()`. -/
def uniqueEdges (edges : List GraphEdge) : List GraphEdge := edges.foldl putEdge []

/-- The depth that is walked: `Math.max(0, Math.min(12, Math.floor(depth)))`. -/
def walkedDepth (depth : ℚ) : ℕ := (max 0 (min 12 ⌊depth⌋)).toNat

namespace MindDb

/-- The edges that one item is left by, each with the item it leads to. -/
def graphSteps (db : MindDb) (now : Time) (relations : List String) (id : MindId) : List (GraphEdge × MindId) :=
  let detail := db.get now id
  (if "dependencies" ∈ relations then
      (db.allDependencies id).map (fun dep => (⟨id, dep.id, .dependsOn⟩, dep.id)) else []) ++
    (if "dependents" ∈ relations then
      (db.dependents id).map (fun dependent => (⟨dependent.id, id, .dependsOn⟩, dependent.id)) else []) ++
    (if "parent" ∈ relations then
      (detail.bind MindDetail.parent).toList.map (fun parent => (⟨id, parent.id, .parent⟩, parent.id)) else []) ++
    (if "children" ∈ relations then
      (detail.elim [] MindDetail.children).map (fun child => (⟨child.id, id, .parent⟩, child.id)) else [])

/-- The loop over the queue; it takes a round for each item at most. -/
def graphWalk (db : MindDb) (now : Time) (relations : List String) (maxDepth : ℕ) (rootId : MindId) :
    Walk MindId GraphEdge := walkFrom (db.graphSteps now relations) maxDepth db.items.rows.length rootId

end MindDb

/-- `graph`. `reading` is what the clock says when an item is read. -/
def graph (reading : MindId → Time) (rootId : MindId) (depth : ℚ) (relations : List String) :
    Tx MindDb GraphError MindGraph := do
  Tx.mapError .mind (requireId rootId)
  match relations.find? (fun relation => decide (relation ∉ MIND_GRAPH_RELATIONS)) with
  | some relation => Tx.throw (.invalidRelation relation)
  | none =>
      Tx.read (fun db =>
        let walk := db.graphWalk (reading rootId) relations (walkedDepth depth) rootId
        { rootId := rootId
          nodes := walk.seen.filterMap (fun id => db.get (reading id) id)
          edges := uniqueEdges walk.edges })

/-! ## Relations -/

/-- One step along the chosen relations: to an item that this one depends on, that depends on it,
that is its parent, or that is its child and not archived. -/
inductive MindDb.Related (db : MindDb) (relations : List String) (id next : MindId) : Prop
  | dependency (chosen : "dependencies" ∈ relations) (edge : db.DependsOn id next) (known : db.exists next = true)
  | dependent (chosen : "dependents" ∈ relations) (edge : db.DependsOn next id) (known : db.exists next = true)
  | parent (chosen : "parent" ∈ relations) (edge : db.ParentOf id next) (known : db.exists next = true)
  | child (chosen : "children" ∈ relations) (row : MindRow) (stored : row ∈ db.items) (itself : row.id = next)
      (under : row.parentId = some id) (shown : row.archivedAt = none)

/-- An edge of a graph stands for a dependency or for a parent in the store. -/
def MindDb.Stored (db : MindDb) (e : GraphEdge) : Prop :=
  match e.type with
  | .dependsOn => db.DependsOn e.from e.to
  | .parent => db.ParentOf e.from e.to

section Links
variable {db : MindDb} {id : MindId} {link : MindLink}

theorem MindDb.exists_iff : db.exists id = true ↔ ∃ row ∈ db.items, row.id = id := by
  rw [MindDb.exists, Option.isSome_iff_exists]
  constructor
  · rintro ⟨row, hrow⟩
    exact ⟨row, Table.mem_of_get? hrow, Table.key_of_get? hrow⟩
  · rintro ⟨row, hmem, rfl⟩
    exact ⟨row, Table.get?_key hmem⟩

theorem mem_dependencyItems {row : MindRow} :
    row ∈ db.dependencyItems id ↔ db.DependsOn id row.id ∧ row ∈ db.items := by
  rw [MindDb.dependencyItems, List.mem_filterMap]
  constructor
  · rintro ⟨d, hd, hrow⟩
    obtain ⟨hmem, hid⟩ := Table.mem_select.mp hd
    exact ⟨⟨d, hmem, of_decide_eq_true hid, (Table.key_of_get? hrow).symm⟩, Table.mem_of_get? hrow⟩
  · rintro ⟨⟨d, hmem, hid, hdep⟩, hrow⟩
    refine ⟨d, Table.mem_select.mpr ⟨hmem, decide_eq_true hid⟩, ?_⟩
    rw [hdep]
    exact Table.get?_key hrow

theorem mem_dependentItems {row : MindRow} :
    row ∈ db.dependentItems id ↔ db.DependsOn row.id id ∧ row ∈ db.items := by
  rw [MindDb.dependentItems, List.mem_filterMap]
  constructor
  · rintro ⟨d, hd, hrow⟩
    obtain ⟨hmem, hid⟩ := Table.mem_select.mp hd
    exact ⟨⟨d, hmem, (Table.key_of_get? hrow).symm, of_decide_eq_true hid⟩, Table.mem_of_get? hrow⟩
  · rintro ⟨⟨d, hmem, hitem, hid⟩, hrow⟩
    refine ⟨d, Table.mem_select.mpr ⟨hmem, decide_eq_true hid⟩, ?_⟩
    rw [hitem]
    exact Table.get?_key hrow

theorem mem_allDependencies : link ∈ db.allDependencies id ↔
    ∃ row ∈ db.items, db.toLink row = link ∧ db.DependsOn id row.id := by
  rw [MindDb.allDependencies, List.mem_map]
  constructor
  · rintro ⟨row, hrow, hlink⟩
    obtain ⟨hdep, hmem⟩ := mem_dependencyItems.mp (mem_orderBy.mp hrow)
    exact ⟨row, hmem, hlink, hdep⟩
  · rintro ⟨row, hmem, hlink, hdep⟩
    exact ⟨row, mem_orderBy.mpr (mem_dependencyItems.mpr ⟨hdep, hmem⟩), hlink⟩

theorem mem_dependents : link ∈ db.dependents id ↔
    ∃ row ∈ db.items, db.toLink row = link ∧ db.DependsOn row.id id := by
  rw [MindDb.dependents, List.mem_map]
  constructor
  · rintro ⟨row, hrow, hlink⟩
    obtain ⟨hdep, hmem⟩ := mem_dependentItems.mp (mem_orderBy.mp hrow)
    exact ⟨row, hmem, hlink, hdep⟩
  · rintro ⟨row, hmem, hlink, hdep⟩
    exact ⟨row, mem_orderBy.mpr (mem_dependentItems.mpr ⟨hdep, hmem⟩), hlink⟩

theorem mem_parent {now : Time} : link ∈ ((db.get now id).bind MindDetail.parent).toList ↔
    ∃ row ∈ db.items, db.toLink row = link ∧ db.ParentOf id row.id := by
  rw [Option.mem_toList, Option.bind_eq_some_iff]
  constructor
  · rintro ⟨detail, hdetail, hparent⟩
    obtain ⟨row, hrow, rfl⟩ := Option.map_eq_some_iff.mp hdetail
    obtain ⟨parent, hparent, hlink⟩ := Option.map_eq_some_iff.mp hparent
    obtain ⟨parentId, hid, hget⟩ := Option.bind_eq_some_iff.mp hparent
    refine ⟨parent, Table.mem_of_get? hget, hlink, row, Table.mem_of_get? hrow, Table.key_of_get? hrow, ?_⟩
    rw [hid, Table.key_of_get? hget]
  · rintro ⟨parent, hmem, rfl, row, hrow, rfl, hid⟩
    refine ⟨_, Option.map_eq_some_iff.mpr ⟨row, Table.get?_key hrow, rfl⟩, ?_⟩
    show (row.parentId.bind db.items.get?).map db.toLink = _
    rw [hid, Option.bind_some, Table.get?_key hmem]
    rfl

theorem mem_children {now : Time} : link ∈ (db.get now id).elim [] MindDetail.children ↔
    ∃ row ∈ db.items, db.toLink row = link ∧ row.parentId = some id ∧ row.archivedAt = none ∧ db.exists id = true := by
  rw [MindDb.get, MindDb.exists]
  cases hid : db.items.get? id with
  | none => simp
  | some row =>
      rw [Option.map_some, Option.elim_some]
      show link ∈ (orderBy MindDb.byPriority _).map db.toLink ↔ _
      rw [List.mem_map]
      constructor
      · rintro ⟨child, hchild, hlink⟩
        obtain ⟨hmem, hwhere⟩ := Table.mem_select.mp (mem_orderBy.mp hchild)
        rw [Bool.and_eq_true, decide_eq_true_eq, Option.isNone_iff_eq_none] at hwhere
        exact ⟨child, hmem, hlink, hwhere.1, hwhere.2, rfl⟩
      · rintro ⟨child, hmem, hlink, hparent, harchived, -⟩
        refine ⟨child, mem_orderBy.mpr (Table.mem_select.mpr ⟨hmem, ?_⟩), hlink⟩
        rw [Bool.and_eq_true, decide_eq_true_eq, Option.isNone_iff_eq_none]
        exact ⟨hparent, harchived⟩

end Links

/-! ## What a step is -/

section Steps
variable {db : MindDb} {now : Time} {relations : List String} {id next : MindId} {e : GraphEdge}

/-- A step notes an edge of the store that ends at the two items. -/
theorem stored_of_step (h : (e, next) ∈ db.graphSteps now relations id) :
    db.Related relations id next ∧ db.Stored e ∧ (e.from = id ∧ e.to = next ∨ e.from = next ∧ e.to = id) := by
  rw [MindDb.graphSteps, List.mem_append, List.mem_append, List.mem_append] at h
  rcases h with ((h | h) | h) | h
  · split at h
    · rename_i hchosen
      obtain ⟨link, hlink, heq⟩ := List.mem_map.mp h
      cases heq
      obtain ⟨row, hmem, rfl, hdep⟩ := mem_allDependencies.mp hlink
      exact ⟨.dependency hchosen hdep (MindDb.exists_iff.mpr ⟨row, hmem, rfl⟩), hdep, Or.inl ⟨rfl, rfl⟩⟩
    · cases h
  · split at h
    · rename_i hchosen
      obtain ⟨link, hlink, heq⟩ := List.mem_map.mp h
      cases heq
      obtain ⟨row, hmem, rfl, hdep⟩ := mem_dependents.mp hlink
      exact ⟨.dependent hchosen hdep (MindDb.exists_iff.mpr ⟨row, hmem, rfl⟩), hdep, Or.inr ⟨rfl, rfl⟩⟩
    · cases h
  · split at h
    · rename_i hchosen
      obtain ⟨link, hlink, heq⟩ := List.mem_map.mp h
      cases heq
      obtain ⟨row, hmem, rfl, hparent⟩ := mem_parent.mp hlink
      exact ⟨.parent hchosen hparent (MindDb.exists_iff.mpr ⟨row, hmem, rfl⟩), hparent, Or.inl ⟨rfl, rfl⟩⟩
    · cases h
  · split at h
    · rename_i hchosen
      obtain ⟨link, hlink, heq⟩ := List.mem_map.mp h
      cases heq
      obtain ⟨row, hmem, rfl, hparent, hshown, -⟩ := mem_children.mp hlink
      exact ⟨.child hchosen row hmem rfl hparent hshown, ⟨row, hmem, rfl, hparent⟩, Or.inr ⟨rfl, rfl⟩⟩
    · cases h

/-- From an item of the store, the steps lead to what it is related to. -/
theorem leads_iff (hid : db.exists id = true) :
    Leads (db.graphSteps now relations) id next ↔ db.Related relations id next := by
  constructor
  · rintro ⟨e, he⟩
    exact (stored_of_step he).1
  · intro h
    simp only [Leads, MindDb.graphSteps, List.mem_append]
    cases h with
    | dependency chosen edge known =>
        obtain ⟨row, hmem, rfl⟩ := MindDb.exists_iff.mp known
        refine ⟨⟨id, row.id, .dependsOn⟩, Or.inl (Or.inl (Or.inl ?_))⟩
        rw [if_pos chosen]
        exact List.mem_map.mpr ⟨db.toLink row, mem_allDependencies.mpr ⟨row, hmem, rfl, edge⟩, rfl⟩
    | dependent chosen edge known =>
        obtain ⟨row, hmem, rfl⟩ := MindDb.exists_iff.mp known
        refine ⟨⟨row.id, id, .dependsOn⟩, Or.inl (Or.inl (Or.inr ?_))⟩
        rw [if_pos chosen]
        exact List.mem_map.mpr ⟨db.toLink row, mem_dependents.mpr ⟨row, hmem, rfl, edge⟩, rfl⟩
    | parent chosen edge known =>
        obtain ⟨row, hmem, rfl⟩ := MindDb.exists_iff.mp known
        refine ⟨⟨id, row.id, .parent⟩, Or.inl (Or.inr ?_)⟩
        rw [if_pos chosen]
        exact List.mem_map.mpr ⟨db.toLink row, mem_parent.mpr ⟨row, hmem, rfl, edge⟩, rfl⟩
    | child chosen row stored itself under shown =>
        subst itself
        refine ⟨⟨row.id, id, .parent⟩, Or.inr ?_⟩
        rw [if_pos chosen]
        exact List.mem_map.mpr ⟨db.toLink row, mem_children.mpr ⟨row, stored, rfl, under, shown, hid⟩, rfl⟩

/-- What an item is related to is in the store. -/
theorem MindDb.Related.known (h : db.Related relations id next) : db.exists next = true := by
  cases h with
  | dependency _ _ known => exact known
  | dependent _ _ known => exact known
  | parent _ _ known => exact known
  | child _ row stored itself => exact MindDb.exists_iff.mpr ⟨row, stored, itself⟩

/-- The walk reaches from an item of the store what its relations reach. -/
theorem within_leads_iff {n : ℕ} (hid : db.exists id = true) :
    Within (Leads (db.graphSteps now relations)) id n next ↔ Within (db.Related relations) id n next := by
  constructor
  · intro h
    induction h with
    | start n => exact .start n
    | step _ edge ih =>
        obtain ⟨e, he⟩ := edge
        exact ih.step (stored_of_step he).1
  · intro h
    induction h with
    | start n => exact .start n
    | step reach edge ih =>
        have hknown := reach.holds (P := fun x => db.exists x = true) hid (fun _ _ hxy => hxy.known)
        exact ih.step ((leads_iff hknown).mpr edge)

end Steps

/-! ## Edges kept once -/

/-- The keys are kept apart, and an edge that is kept is one of those that were noted. -/
theorem uniqueEdges_spec (edges : List GraphEdge) :
    ((uniqueEdges edges).map GraphEdge.key).Nodup ∧ ∀ e ∈ uniqueEdges edges, e ∈ edges := by
  have hfold : ∀ es sofar : List GraphEdge, (sofar.map GraphEdge.key).Nodup →
      ((es.foldl putEdge sofar).map GraphEdge.key).Nodup ∧ ∀ e ∈ es.foldl putEdge sofar, e ∈ sofar ∨ e ∈ es := by
    intro es
    induction es with
    | nil => exact fun sofar h => ⟨h, fun e he => Or.inl he⟩
    | cons x es ih =>
        intro sofar h
        have hput : ((putEdge sofar x).map GraphEdge.key).Nodup ∧ ∀ e ∈ putEdge sofar x, e ∈ sofar ∨ e = x := by
          rw [putEdge]
          split
          · have hkeys : (sofar.map (fun f => if f.key = x.key then x else f)).map GraphEdge.key =
                sofar.map GraphEdge.key := by
              rw [List.map_map]
              refine List.map_congr_left (fun f _ => ?_)
              rw [Function.comp_apply]
              split
              · rename_i heq
                exact heq.symm
              · rfl
            refine ⟨hkeys ▸ h, fun e he => ?_⟩
            obtain ⟨f, hf, rfl⟩ := List.mem_map.mp he
            split
            · exact Or.inr rfl
            · exact Or.inl hf
          · rename_i hnew
            refine ⟨?_, fun e he => by simpa using he⟩
            rw [List.map_append, List.nodup_append]
            refine ⟨h, List.nodup_singleton _, ?_⟩
            rintro k hk k' hk' rfl
            exact hnew (List.mem_singleton.mp hk' ▸ hk)
        obtain ⟨hnodup, hmem⟩ := ih _ hput.1
        refine ⟨hnodup, fun e he => ?_⟩
        rcases hmem e he with he | he
        · rcases hput.2 e he with he | rfl
          · exact Or.inl he
          · exact Or.inr List.mem_cons_self
        · exact Or.inr (List.mem_cons_of_mem x he)
  obtain ⟨hnodup, hmem⟩ := hfold edges [] List.nodup_nil
  exact ⟨hnodup, fun e he => (hmem e he).resolve_left List.not_mem_nil⟩

/-! ## The graph -/

def MindGraph.ids (g : MindGraph) : List MindId := g.nodes.map (fun node => node.row.id)

/-- The graph around an item: the items within `n` steps along the chosen relations, each once and
as it is read, and links of the store between them, each once. -/
structure MindDb.GraphOf (db : MindDb) (reading : MindId → Time) (relations : List String) (rootId : MindId) (n : ℕ)
    (g : MindGraph) : Prop where
  root : g.rootId = rootId
  ids_nodup : g.ids.Nodup
  mem_ids : ∀ id, id ∈ g.ids ↔ Within (db.Related relations) rootId n id
  details : ∀ node ∈ g.nodes, db.get (reading node.row.id) node.row.id = some node
  edges_nodup : g.edges.Nodup
  ends : ∀ e ∈ g.edges, e.from ∈ g.ids ∧ e.to ∈ g.ids
  stored : ∀ e ∈ g.edges, db.Stored e

section Graph
variable {db : MindDb} {reading : MindId → Time} {rootId : MindId} {relations : List String}

/-- The walk sees the items within the depth, and the edges it notes are between them. -/
theorem graphWalk_spec (hroot : db.exists rootId = true) (relations : List String) (now : Time) (n : ℕ) :
    (db.graphWalk now relations n rootId).seen.Nodup ∧
      (∀ id, id ∈ (db.graphWalk now relations n rootId).seen ↔ Within (db.Related relations) rootId n id) ∧
      ∀ e ∈ (db.graphWalk now relations n rootId).edges, db.Stored e ∧
        Within (db.Related relations) rootId n e.from ∧ Within (db.Related relations) rootId n e.to := by
  have hknown : ∀ id, db.exists id = true → id ∈ db.items.rows.map MindRow.id := by
    intro id hid
    obtain ⟨row, hmem, rfl⟩ := MindDb.exists_iff.mp hid
    exact List.mem_map.mpr ⟨row, hmem, rfl⟩
  obtain ⟨hnodup, hseen, hedges⟩ := walkFrom_spec (db.graphSteps now relations) n
    (fun _ _ hp => hknown _ (stored_of_step hp).1.known) (hknown _ hroot) (List.length_map _).le
  refine ⟨hnodup, fun id => (hseen id).trans (within_leads_iff hroot), ?_⟩
  intro e he
  obtain ⟨m, hm, x, y, hx, hstep⟩ := (hedges e).mp he
  obtain ⟨hrelated, hstored, hends⟩ := stored_of_step hstep
  have hx' := (within_leads_iff hroot).mp hx
  refine ⟨hstored, ?_⟩
  rcases hends with ⟨rfl, rfl⟩ | ⟨rfl, rfl⟩
  · exact ⟨hx'.mono hm.le, (hx'.step hrelated).mono hm⟩
  · exact ⟨(hx'.step hrelated).mono hm, hx'.mono hm.le⟩

/-- What is reached is in the store, and is read. -/
theorem ids_of_walk (reading : MindId → Time) (hroot : db.exists rootId = true) (relations : List String) (now : Time) (n : ℕ) :
    ((db.graphWalk now relations n rootId).seen.filterMap (fun id => db.get (reading id) id)).map
      (fun node => node.row.id) = (db.graphWalk now relations n rootId).seen := by
  have hread : ∀ id ∈ (db.graphWalk now relations n rootId).seen,
      (db.get (reading id) id).map (fun node => node.row.id) = some id := by
    intro id hid
    have hknown := (((graphWalk_spec hroot relations now n).2.1 id).mp hid).holds (P := fun id => db.exists id = true) hroot
      (fun _ _ h => h.known)
    obtain ⟨row, hmem, rfl⟩ := MindDb.exists_iff.mp hknown
    rw [MindDb.get, Table.get?_key hmem]
    rfl
  rw [List.map_filterMap, List.filterMap_congr hread]
  exact List.filterMap_some

theorem graph_ok {depth : ℚ} {g : MindGraph} {db' : MindDb} :
    graph reading rootId depth relations db = (.ok g, db') ↔
      (isMindId rootId = true ∧ db.exists rootId = true) ∧ (∀ r ∈ relations, r ∈ MIND_GRAPH_RELATIONS) ∧
        g = ⟨rootId, (db.graphWalk (reading rootId) relations (walkedDepth depth) rootId).seen.filterMap
            (fun id => db.get (reading id) id),
          uniqueEdges (db.graphWalk (reading rootId) relations (walkedDepth depth) rootId).edges⟩ ∧ db = db' := by
  have hfind : relations.find? (fun relation => decide (relation ∉ MIND_GRAPH_RELATIONS)) = none ↔
      ∀ r ∈ relations, r ∈ MIND_GRAPH_RELATIONS := by simp
  rw [graph, Tx.bind_ok]
  constructor
  · rintro ⟨_, db₁, hrequire, hrest⟩
    obtain ⟨hroot, rfl⟩ := requireId_ok.mp (Tx.mapError_ok.mp hrequire)
    cases hinvalid : relations.find? (fun relation => decide (relation ∉ MIND_GRAPH_RELATIONS)) with
    | some relation =>
        rw [hinvalid] at hrest
        exact (Tx.throw_ok.mp hrest).elim
    | none =>
        rw [hinvalid] at hrest
        obtain ⟨rfl, rfl⟩ := Tx.read_ok.mp hrest
        exact ⟨hroot, hfind.mp hinvalid, rfl, rfl⟩
  · rintro ⟨hroot, hrelations, rfl, rfl⟩
    refine ⟨(), db, Tx.mapError_ok.mpr (requireId_ok.mpr ⟨hroot, rfl⟩), ?_⟩
    rw [hfind.mpr hrelations]
    rfl

/-- **The graph is exact**, down to twelve levels. It is answered for a known item and known
relations, and changes nothing. -/
theorem graph_exact (db : MindDb) (reading : MindId → Time) (rootId : MindId) (depth : ℚ) (relations : List String) :
    ((∃ g, graph reading rootId depth relations db = (.ok g, db)) ↔
      isMindId rootId = true ∧ db.exists rootId = true ∧ ∀ r ∈ relations, r ∈ MIND_GRAPH_RELATIONS) ∧
    ∀ g db', graph reading rootId depth relations db = (.ok g, db') →
      db' = db ∧ db.GraphOf reading relations rootId (walkedDepth depth) g := by
  constructor
  · constructor
    · rintro ⟨g, hg⟩
      obtain ⟨⟨hid, hknown⟩, hrelations, -⟩ := graph_ok.mp hg
      exact ⟨hid, hknown, hrelations⟩
    · rintro ⟨hid, hknown, hrelations⟩
      exact ⟨_, graph_ok.mpr ⟨⟨hid, hknown⟩, hrelations, rfl, rfl⟩⟩
  · intro g db' hg
    obtain ⟨⟨-, hknown⟩, -, rfl, rfl⟩ := graph_ok.mp hg
    obtain ⟨hnodup, hseen, hedges⟩ :=
      graphWalk_spec hknown relations (reading rootId) (walkedDepth depth)
    have hids := ids_of_walk reading hknown relations (reading rootId) (walkedDepth depth)
    obtain ⟨hkeys, hkept⟩ :=
      uniqueEdges_spec (db.graphWalk (reading rootId) relations (walkedDepth depth) rootId).edges
    refine ⟨rfl, rfl, ?_, ?_, ?_, hkeys.of_map, ?_, ?_⟩
    · rw [MindGraph.ids, hids]
      exact hnodup
    · intro id
      rw [MindGraph.ids, hids]
      exact hseen id
    · intro node hnode
      obtain ⟨id, -, hget⟩ := List.mem_filterMap.mp hnode
      obtain ⟨row, hrow, rfl⟩ := Option.map_eq_some_iff.mp hget
      have hid : row.id = id := Table.key_of_get? hrow
      subst hid
      exact hget
    · intro e he
      rw [MindGraph.ids, hids, hseen, hseen]
      exact (hedges e (hkept e he)).2
    · exact fun e he => (hedges e (hkept e he)).1

end Graph

/-! ## A deeper walk -/

def rungId (n : ℕ) : MindId :=
  String.ofList ("elm-000000".toList ++ [n / 10, n % 10].map (fun d => Char.ofNat (48 + d)))

/-- The rung at place `n` of a ladder, whose parent is the one below. -/
def rung (n : ℕ) : MindRow :=
  ⟨rungId n, "a rung", "", .task, .open, 2, if n = 0 then none else some (rungId (n - 1)), none, "agent", 0, 0, none,
    none⟩

/-- Fourteen items, each the child of the one before. -/
def ladder : MindDb :=
  { MindDb.empty with items := ⟨(List.range 14).map rung, by decide +kernel⟩ }

/-- Asked for thirteen levels, the walk stops one level above the last item. -/
theorem graph_cut : ∃ g, graph (fun _ => 0) (rungId 0) 13 ["children"] ladder = (.ok g, ladder) ∧
    ¬ ladder.GraphOf (fun _ => 0) ["children"] (rungId 0) 13 g := by
  have hroot : ladder.exists (rungId 0) = true := by decide +kernel
  have hdepth : walkedDepth 13 = 12 := by decide +kernel
  refine ⟨_, graph_ok.mpr ⟨⟨by decide +kernel, hroot⟩, by decide, rfl, rfl⟩, ?_⟩
  intro h
  have hstep : ∀ n < 13, ladder.Related ["children"] (rungId n) (rungId (n + 1)) := by
    intro n hn
    refine .child List.mem_cons_self (rung (n + 1)) ?_ rfl rfl rfl
    exact List.mem_map.mpr ⟨n + 1, List.mem_range.mpr (by omega), rfl⟩
  have hreach : ∀ n ≤ 13, Within (ladder.Related ["children"]) (rungId 0) n (rungId n) := by
    intro n
    induction n with
    | zero => exact fun _ => .start 0
    | succ n ih => exact fun hn => (ih (by omega)).step (hstep n (by omega))
  have hlast := (h.mem_ids _).mpr (hreach 13 le_rfl)
  rw [MindGraph.ids, ids_of_walk _ hroot, hdepth] at hlast
  exact absurd hlast (by decide +kernel)

end Elpis.Mind
