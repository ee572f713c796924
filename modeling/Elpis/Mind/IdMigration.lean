import Mathlib.Data.Nat.Digits.Defs
import Elpis.Lib.Sql

/-!
# The migration to new identities

`src/store/mind-id-migration.ts`, and the transaction of `src/store/migrations.ts` around it: the
integer ids of the mind's items become texts. Schemas are kept as columns, so that the rewriting of
their text is a rewriting of columns. Indices and triggers are left out.
-/

namespace Elpis.Mind.IdMigration

open Elpis.Lib.Sql

/-! ## Checks -/

/-- `column IN (…)`. -/
def oneOf (column : String) (texts : List String) (row : Row) : Bool :=
  match row column with
  | .null => true
  | .text s => texts.contains s
  | .integer _ => false

/-- `column BETWEEN lo AND hi`. -/
def between (column : String) (lo hi : ℤ) (row : Row) : Bool :=
  match row column with
  | .null => true
  | .integer n => decide (lo ≤ n ∧ n ≤ hi)
  | .text _ => false

/-- `column >= lo`. -/
def atLeast (column : String) (lo : ℤ) (row : Row) : Bool :=
  match row column with
  | .null => true
  | .integer n => decide (lo ≤ n)
  | .text _ => false

/-- `x != y`. -/
def differ (x y : String) (row : Row) : Bool := decide (row x = .null ∨ row y = .null ∨ row x ≠ row y)

/-- `column GLOB 'elm-[0-9a-z]*' AND length(column) = 12`. -/
def isElm (column : String) (row : Row) : Bool :=
  match row column with
  | .null => true
  | .text s => decide (s.toList.take 4 = "elm-".toList ∧ s.toList.length = 12) &&
      (s.toList.drop 4).head?.any (fun c => c.isDigit || decide ('a' ≤ c ∧ c ≤ 'z'))
  | .integer _ => false

/-! ## The schema before -/

def idColumn : Column := ⟨"id", .integer, false, true, none⟩
def textColumn (name : String) : Column := ⟨name, .text, true, false, none⟩
def intColumn (name : String) : Column := ⟨name, .integer, true, false, none⟩
def textOrNull (name : String) : Column := ⟨name, .text, false, false, none⟩
def intOrNull (name : String) : Column := ⟨name, .integer, false, false, none⟩

/-- `name INTEGER NOT NULL REFERENCES mind_items(id)`. -/
def itemColumn (name : String) : Column := ⟨name, .integer, true, false, some ⟨"mind_items", "id"⟩⟩

def itemChecks : List (Row → Bool) :=
  [oneOf "kind" ["task", "project", "idea", "question", "reminder"],
    oneOf "status" ["inbox", "open", "in_progress", "waiting", "done", "cancelled"], between "priority" 0 4]

/-- The columns of an item between its id and its parent, and behind that. -/
def itemTexts : List Column :=
  [textColumn "title", textColumn "body", textColumn "kind", textColumn "status", intColumn "priority"]

def itemTimes : List Column :=
  [intOrNull "due_at", textColumn "created_by", intColumn "created_at", intColumn "updated_at",
    intOrNull "closed_at", intOrNull "archived_at"]

def mindItems : Relation where
  name := "mind_items"
  columns := [idColumn] ++ itemTexts ++ [⟨"parent_id", .integer, false, false, some ⟨"mind_items", "id"⟩⟩] ++ itemTimes
  keys := []
  checks := itemChecks
  rows := []

def mindDependencies : Relation where
  name := "mind_dependencies"
  columns := [itemColumn "item_id", itemColumn "depends_on_id", textColumn "created_by", intColumn "created_at"]
  keys := [["item_id", "depends_on_id"]]
  checks := [differ "item_id" "depends_on_id"]
  rows := []

def mindTags : Relation where
  name := "mind_tags"
  columns := [itemColumn "item_id", textColumn "tag"]
  keys := [["item_id", "tag"]]
  checks := []
  rows := []

def mindComments : Relation where
  name := "mind_comments"
  columns := [idColumn, itemColumn "item_id", textColumn "author", textColumn "body",
    ⟨"reply_to_id", .integer, false, false, some ⟨"mind_comments", "id"⟩⟩, intColumn "created_at",
    intOrNull "updated_at", intOrNull "deleted_at"]
  keys := []
  checks := []
  rows := []

def mindEvents : Relation where
  name := "mind_events"
  columns := [idColumn, itemColumn "item_id", textColumn "type", textColumn "actor", textColumn "data_json",
    intColumn "created_at"]
  keys := []
  checks := []
  rows := []

def mindReminders : Relation where
  name := "mind_reminders"
  columns := [idColumn, itemColumn "item_id", intColumn "scheduled_task_id", intColumn "fire_at",
    textOrNull "channel_id", textColumn "created_by", intColumn "created_at", intOrNull "fired_at",
    intOrNull "cancelled_at"]
  keys := [["scheduled_task_id"]]
  checks := []
  rows := []

def mindClaims : Relation where
  name := "mind_claims"
  columns := [⟨"item_id", .integer, false, true, some ⟨"mind_items", "id"⟩⟩, textColumn "owner",
    textColumn "principal", intColumn "claimed_at", intColumn "renewed_at", intColumn "expires_at"]
  keys := []
  checks := []
  rows := []

/-- The columns of a sandbox behind its ids. -/
def sandboxColumns : List Column :=
  [textColumn "executor_id", intColumn "generation", textColumn "lifecycle", intColumn "reminder_latched",
    intColumn "retire_requested", intOrNull "retire_requested_at", intColumn "cold_notice_pending",
    textOrNull "active_run_id", intColumn "next_run_seq", intColumn "created_at", intColumn "updated_at",
    intOrNull "retired_at"]

def sandboxChecks : List (Row → Bool) :=
  [atLeast "generation" 1, oneOf "lifecycle" ["ready", "busy", "detached", "retired"],
    between "reminder_latched" 0 1, between "retire_requested" 0 1, between "cold_notice_pending" 0 1,
    atLeast "next_run_seq" 1]

/-- `(lifecycle IN ('ready','retired') AND active_run_id IS NULL) OR …`. -/
def runOfLifecycle (row : Row) : Bool :=
  (oneOf "lifecycle" ["ready", "retired"] row && decide (row "active_run_id" = .null)) ||
    (oneOf "lifecycle" ["busy", "detached"] row && decide (row "active_run_id" ≠ .null))

def persistentSandboxes : Relation where
  name := "persistent_sandboxes"
  columns := [⟨"id", .text, false, true, none⟩, itemColumn "mind_id"] ++ sandboxColumns
  keys := [["mind_id"]]
  checks := sandboxChecks ++ [runOfLifecycle]
  rows := []

/-! ## The new schema -/

def mapRelation : Relation where
  name := "mind_id_migration_map"
  columns := [⟨"legacy_id", .integer, false, true, none⟩, textColumn "mind_id"]
  keys := [["mind_id"]]
  checks := [isElm "mind_id"]
  rows := []

def itemsV16 : Relation where
  name := "mind_items_v16"
  columns := [⟨"id", .text, false, true, none⟩] ++ itemTexts ++
    [⟨"parent_id", .text, false, false, some ⟨"mind_items_v16", "id"⟩⟩] ++ itemTimes
  keys := []
  checks := itemChecks
  rows := []

def sandboxesV16 : Relation where
  name := "persistent_sandboxes"
  columns := [⟨"id", .text, false, true, some ⟨"mind_items_v16", "id"⟩⟩] ++ sandboxColumns
  keys := []
  checks := sandboxChecks
  rows := []

/-! ## New ids -/

/-- `Number(value)`, as a key of the map. -/
def number? : Value → Option ℤ
  | .null => some 0
  | .integer n => some n
  | .text s => s.toInt?

/-- `Number(value)`; what is no number is bound as null. -/
def toNumber (v : Value) : Value := ((number? v).map Value.integer).getD .null

/-- `String(value)`. -/
def toText : Value → Value
  | .null => .text "null"
  | .integer n => .text (toString n)
  | .text s => .text s

/-- A digit as `toString(36)` writes it. -/
def digit36 (n : ℕ) : Char := if n < 10 then Char.ofNat (48 + n) else Char.ofNat (87 + n)

/-- What `newMindId` makes of the number it reads; 0 is written as no digits, then filled up. -/
def mindIdOf (value : ℕ) : String :=
  "elm-" ++ String.ofList (List.leftpad 8 '0' ((Nat.digits 36 (value % 36 ^ 8)).reverse.map digit36))

/-- `newMindId`, again and again, over what the random bytes bring. -/
def newMindIds (values : List ℕ) : List String :=
  (values.filter (fun value => decide (value < 2 ^ 48 / 36 ^ 8 * 36 ^ 8))).map mindIdOf

/-- The ids of the items, from what the generator draws: one that is used is drawn again. Without
more draws the loop goes on for ever. -/
def assign : List String → List String → List ℤ → Except String (List (ℤ × String))
  | _, _, [] => .ok []
  | draws, used, n :: ns =>
      match draws.dropWhile used.contains with
      | [] => .error "no more draws"
      | id :: rest => (assign rest (id :: used) ns).map (fun ids => (n, id) :: ids)

abbrev Ids := List (ℤ × String)

def ref (ids : Ids) (v : Value) : Except String Value :=
  match (number? v).bind (fun n => List.lookup n ids) with
  | none => .error "mind id migration: missing mapping"
  | some id => .ok (.text id)

/-- `value == null ? null : f(value)`. -/
def orNull (f : Value → Except String Value) (v : Value) : Except String Value :=
  if v = .null then .ok .null else f v

/-- The row of these cells. -/
def rowOf (cells : List (String × Value)) : Row := fun column => (cells.lookup column).getD .null

def itemRow (ids : Ids) (row : Row) : Except String Row := do
  let id ← ref ids (row "id")
  let parent ← orNull (ref ids) (row "parent_id")
  pure (rowOf
    [("id", id), ("title", toText (row "title")),
      ("body", if row "body" = .null then .text "" else toText (row "body")), ("kind", toText (row "kind")),
      ("status", toText (row "status")), ("priority", toNumber (row "priority")), ("parent_id", parent),
      ("due_at", if row "due_at" = .null then .null else toNumber (row "due_at")),
      ("created_by", toText (row "created_by")), ("created_at", toNumber (row "created_at")),
      ("updated_at", toNumber (row "updated_at")),
      ("closed_at", if row "closed_at" = .null then .null else toNumber (row "closed_at")),
      ("archived_at", if row "archived_at" = .null then .null else toNumber (row "archived_at"))])

def mapRow (entry : ℤ × String) : Row := rowOf [("legacy_id", .integer entry.1), ("mind_id", .text entry.2)]

/-! ## The tables around the items -/

def childTables : List (String × List String) :=
  [("mind_dependencies", ["item_id", "depends_on_id"]), ("mind_tags", ["item_id"]),
    ("mind_comments", ["item_id"]), ("mind_events", ["item_id"]), ("mind_reminders", ["item_id"]),
    ("mind_claims", ["item_id"])]

def legacyName (table : String) : String := table ++ "_legacy_v15"

/-- One replacement in a schema: the columns that refer to `old` in this way. -/
def replaceReference (old new : String) (applies : Column → Bool) (type : Affinity → Affinity) (c : Column) : Column :=
  match c.references with
  | none => c
  | some ref =>
      if ref.table = old ∧ applies c = true then
        { c with type := type c.type, references := some { ref with table := new } }
      else c

/-- The replacements in the text of a table's schema, in their order. -/
def rewriteColumn (c : Column) : Column :=
  replaceReference "mind_comments_legacy_v15" "mind_comments" (fun _ => true) id
    (replaceReference "mind_items" "mind_items_v16" (fun _ => true) id
      (replaceReference "mind_items" "mind_items_v16" (fun c => decide (c.type = .integer) && c.primaryKey)
        (fun _ => .text)
        (replaceReference "mind_items" "mind_items_v16"
          (fun c => decide (c.type = .integer) && c.notNull && !c.primaryKey) (fun _ => .text) c)))

def rewrite (table : String) (legacy : Relation) : Relation :=
  { legacy with name := table, columns := legacy.columns.map rewriteColumn, rows := [] }

/-- `JOIN mind_id_migration_map m ON m.legacy_id = l.column`, for each of the columns. -/
def joined (map : List Row) : List String → Row → List Row
  | [], l => [l]
  | column :: columns, l =>
      (map.filter (fun m => decide (m "legacy_id" = l column ∧ l column ≠ .null))).flatMap (fun m =>
        (joined map columns l).map (fun r => Function.update r column (m "mind_id")))

/-- The cells of the named columns. -/
def project (names : List String) (row : Row) : Row := fun column => if column ∈ names then row column else .null

def selectJoined (map : List Row) (columns : List String) (legacy : Relation) : List Row :=
  legacy.rows.flatMap (fun l => (joined map columns l).map (project (legacy.columns.map Column.name)))

def recreate (db : Database) (child : String × List String) : Except String Database := do
  match db.get? (legacyName child.1) with
  | none => throw "Cannot read properties of undefined (reading 'sql')"
  | some legacy =>
      let db ← create db (rewrite child.1 legacy)
      insertAll db child.1 (selectJoined (rowsOf db "mind_id_migration_map") child.2 legacy)

def sandboxRow (p m : Row) : Row :=
  rowOf (("id", m "mind_id") :: sandboxColumns.map (fun c => (c.name, p c.name)))

def selectSandboxes (map legacy : List Row) : List Row :=
  legacy.flatMap (fun p =>
    (map.filter (fun m => decide (m "legacy_id" = p "mind_id" ∧ p "mind_id" ≠ .null))).map (sandboxRow p))

def recreateSandboxes (db : Database) : Except String Database := do
  let db ← dropIfExists db "sandbox_aliases"
  let db ← rename db "persistent_sandboxes" "persistent_sandboxes_legacy_v15"
  let db ← create db sandboxesV16
  let db ← insertAll db "persistent_sandboxes"
    (selectSandboxes (rowsOf db "mind_id_migration_map") (rowsOf db "persistent_sandboxes_legacy_v15"))
  drop db "persistent_sandboxes_legacy_v15"

def migrateSandboxes (db : Database) : Except String Database :=
  if (db.get? "persistent_sandboxes").isSome then recreateSandboxes db else .ok db

/-! ## The migration -/

/-- `SELECT * FROM mind_items ORDER BY id`. -/
def orderedItems (db : Database) : List Row :=
  (rowsOf db "mind_items").insertionSort (fun r s => (number? (r "id")).getD 0 ≤ (number? (s "id")).getD 0)

/-- An integer that a number of the language holds; the driver hands out no other. -/
def isSafe : Value → Bool
  | .integer n => decide (n.natAbs < 2 ^ 53)
  | _ => true

def readItems (db : Database) : Except String (List Row) :=
  if ∀ row ∈ orderedItems db, ∀ c ∈ mindItems.columns, isSafe (row c.name) = true then .ok (orderedItems db)
  else .error "Value is too large to be represented as a JavaScript number"

/-- The type of `mind_items.id`. -/
def idType (db : Database) : Option Affinity :=
  (db.get? "mind_items").bind (fun rel => (rel.columns.find? (fun c => decide (c.name = "id"))).map Column.type)

/-- The tables of the items and of the map, filled. -/
def migrateItems (draws : List String) (db : Database) : Except String Database := do
  let rows ← readItems db
  let ids ← assign draws [] (rows.map (fun row => (number? (row "id")).getD 0))
  let db ← create db mapRelation
  let db ← create db itemsV16
  let db ← insertAll db "mind_id_migration_map" (ids.map mapRow)
  let items ← rows.mapM (itemRow ids)
  insertAll db "mind_items_v16" items

/-- The tables that refer to the items. -/
def migrateChildren (db : Database) : Except String Database := do
  let existing := childTables.filter (fun child => (db.get? child.1).isSome)
  let db ← existing.foldlM (fun db child => rename db child.1 (legacyName child.1)) db
  let db ← existing.foldlM recreate db
  existing.reverse.foldlM (fun db child => drop db (legacyName child.1)) db

def migrateMindIds (draws : List String) (db : Database) : Except String Database := do
  if idType db = none ∨ idType db = some .text then pure db
  else
    let db ← migrateItems draws db
    let db ← migrateChildren db
    let db ← migrateSandboxes db
    let db ← drop db "mind_items"
    rename db "mind_items_v16" "mind_items"

/-- The migration in the transaction that `runComponentMigrations` makes for it. -/
def runMigration (draws : List String) (db : Database) : Except String Database :=
  transaction db (migrateMindIds draws)

end Elpis.Mind.IdMigration
