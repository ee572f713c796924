import Elpis.Mind.Read

/-!
# The Mind store: input checks and SQL statements

The `assert*` functions of `src/store/mind.ts`, and each statement the store
runs as one program over the database. A statement refuses what SQLite refuses:
a primary key that is taken, a reference to a missing item, and a row one of the
guard triggers of `mind-proposal-migration.ts` aborts on. Event and comment
rows always name an item the same call has read, so their reference cannot fail.
-/

namespace Elpis.Mind

open Elpis.Lib

/-! ## Input checks -/

def assertText (value field : String) (max : ℕ) (allowEmpty : Bool) : MindM Unit := do
  Tx.ensure (allowEmpty = true ∨ Js.trim value ≠ "") (.emptyText field)
  Tx.ensure (Js.length value ≤ max) (.longText field max)

def assertStatus (value : String) : Except MindError MindStatus :=
  match MindStatus.all.find? (fun s => decide (s.text = value)) with
  | some s => .ok s
  | none => .error (.invalidStatus value)

def assertKind (value : String) : Except MindError MindKind :=
  match MindKind.all.find? (fun k => decide (k.text = value)) with
  | some k => .ok k
  | none => .error (.invalidKind value)

def assertLogKind (value : String) : Except MindError MindLogKind :=
  match MindLogKind.all.find? (fun k => decide (k.text = value)) with
  | some k => .ok k
  | none => .error (.invalidLogKind value)

def assertPriority (value : Js.Num) : Except MindError ℤ :=
  match value.toInt? with
  | some n => if 0 ≤ n ∧ n ≤ 4 then .ok n else .error .invalidPriority
  | none => .error .invalidPriority

/-- `dueAt != null && (!Number.isFinite(dueAt) || dueAt <= 0)` is refused. -/
def assertDueAt : Option Js.Num → Except MindError (Option ℚ)
  | none => .ok none
  | some (.finite q) => if 0 < q then .ok (some q) else .error .invalidDueAt
  | some .nonFinite => .error .invalidDueAt

def assertStatusTransition (current next : MindStatus) : Except MindError Unit :=
  if current = .proposal then
    if next ∈ [.proposal, .inbox, .open, .cancelled] then .ok ()
    else .error (.proposalTransition next)
  else if next = .proposal then .error .normalToProposal
  else .ok ()

def normalizeTag (u : Js.Unicode) (value : String) : Except MindError String :=
  let lower := (u.toLowerCase (Js.trim value)).toList
  let bare := if lower.head? = some '#' then lower.tail else lower
  let tag := Js.dashRuns false bare
  let word := fun c => u.isLetter c || u.isNumber c
  if tag.head?.any word && decide (Js.length (String.ofList tag) ≤ 48) &&
      tag.all (fun c => word c || c == '.' || c == '_' || c == '/' || c == '-') then
    .ok (String.ofList tag)
  else .error (.invalidTag value)

/-- `claimTtl`, with its default of half an hour. -/
def claimTtl (value : Option Js.Num) : Except MindError ℤ :=
  match value.getD (.finite 1800000) with
  | .finite q => if q < 60000 ∨ 14400000 < q then .error .invalidTtl else .ok ⌊q⌋
  | .nonFinite => .error .invalidTtl

/-- `uniq`: the first of each value, in order. -/
def uniq {α : Type} [DecidableEq α] (values : List α) : List α := values.reverse.dedup.reverse

/-! ## Identities -/

def base36Digits : List Char := "0123456789abcdefghijklmnopqrstuvwxyz".toList

/-- `elm-` and eight characters of `[0-9a-z]`. -/
def isMindId (value : String) : Bool :=
  let cs := value.toList
  decide (cs.take 4 = "elm-".toList) && decide (cs.length = 12) &&
    (cs.drop 4).all (fun c => decide (c ∈ base36Digits))

/-- The last `k` base-36 digits of a number. -/
def base36 : ℕ → ℕ → List Char
  | 0, _ => []
  | k + 1, n => base36 k (n / 36) ++ [base36Digits.getD (n % 36) '0']

/-- `create` draws identities until one is free. Each draw is six random bytes
as a number; a draw that would bias the remainder is thrown away. `none` means
the draws ran out before the loop ended. -/
def drawMindId (taken : MindId → Bool) : List ℕ → Option MindId
  | [] => none
  | value :: draws =>
      let limit := 36 ^ 8
      if 2 ^ 48 / limit * limit ≤ value then drawMindId taken draws
      else
        let id := String.ofList ("elm-".toList ++ base36 8 (value % limit))
        if taken id then drawMindId taken draws else some id

theorem drawMindId_free {taken : MindId → Bool} {id : MindId} :
    ∀ {draws : List ℕ}, drawMindId taken draws = some id → taken id = false
  | [], h => by simp [drawMindId] at h
  | value :: draws, h => by
      simp only [drawMindId] at h
      split at h
      · exact drawMindId_free h
      · split at h
        · exact drawMindId_free h
        · next hfree =>
            rw [Option.some.injEq] at h
            subst h
            simpa using hfree

/-! ## Triggers -/

/-- `mind_items_proposal_transition_guard` aborts. -/
def transitionGuard (old new : MindRow) : Bool :=
  (decide (old.status = .proposal) &&
      decide (new.status ∉ [.proposal, .inbox, .open, .cancelled])) ||
    (decide (old.status ≠ .proposal) && decide (new.status = .proposal))

/-- `mind_items_proposal_due_insert_guard` and `…_update_guard` abort. -/
def dueGuard (new : MindRow) : Bool :=
  decide (new.status = .proposal) && new.dueAt.isSome

/-- An item with this identity exists and is a proposal. -/
def MindDb.isProposal (db : MindDb) (id : MindId) : Bool :=
  (db.items.get? id).any (fun row => decide (row.status = .proposal))

def MindDb.exists (db : MindDb) (id : MindId) : Bool := (db.items.get? id).isSome

/-! ## Statements on one table

What a statement does to the database when SQLite accepts it. -/

namespace MindDb

/-- `UPDATE mind_items SET f WHERE id = ?`. -/
def setItem (db : MindDb) (id : MindId) (f : MindRow → MindRow)
    (hf : ∀ r, (f r).id = r.id) : MindDb :=
  { db with items := db.items.update (fun r => decide (r.id = id)) f hf }

/-- `UPDATE mind_items SET updated_at = ? WHERE id = ?`. -/
def touch (db : MindDb) (id : MindId) (at' : Time) : MindDb :=
  db.setItem id (fun r => { r with updatedAt := at' }) (fun _ => rfl)

/-- `UPDATE mind_claims SET f WHERE item_id = ?`. -/
def setClaim (db : MindDb) (id : MindId) (f : ClaimRow → ClaimRow)
    (hf : ∀ r, (f r).itemId = r.itemId) : MindDb :=
  { db with claims := db.claims.update (fun r => decide (r.itemId = id)) f hf }

/-- `DELETE FROM mind_claims WHERE item_id = ?`. -/
def dropClaim (db : MindDb) (id : MindId) : MindDb :=
  { db with claims := db.claims.delete (fun r => decide (r.itemId = id)) }

/-- `event`. -/
def addEvent (db : MindDb) (itemId : MindId) (actor : String) (data : MindEventData)
    (at' : Time) : MindDb :=
  { db with events := db.events.push (fun n => ⟨n, itemId, actor, data, at'⟩) (fun _ => rfl) }

/-- `INSERT INTO mind_comments`. -/
def addComment (db : MindDb) (itemId : MindId) (author body : String)
    (replyToId : Option ℕ) (at' : Time) : MindDb :=
  { db with
    comments := db.comments.push
      (fun n => ⟨n, itemId, author, body, replyToId, at', none, none⟩) (fun _ => rfl) }

/-- `UPDATE mind_comments SET f WHERE id = ?`. -/
def setComment (db : MindDb) (id : ℕ) (f : CommentRow → CommentRow)
    (hf : ∀ r, (f r).id = r.id) : MindDb :=
  { db with comments := db.comments.update (fun r => decide (r.id = id)) f hf }

/-- `UPDATE mind_reminders SET f WHERE id = ?`. -/
def setReminder (db : MindDb) (id : ℕ) (f : ReminderRow → ReminderRow)
    (hf : ∀ r, (f r).id = r.id) : MindDb :=
  { db with reminders := db.reminders.update (fun r => decide (r.id = id)) f hf }

/-- `INSERT INTO mind_reminders`. -/
def addReminder (db : MindDb) (itemId : MindId) (scheduledTaskId : ℕ) (fireAt : ℚ)
    (channelId : Option String) (createdBy : String) (at' : Time) : MindDb :=
  { db with
    reminders := db.reminders.push
      (fun n => ⟨n, itemId, scheduledTaskId, fireAt, channelId, createdBy, at', none, none⟩)
      (fun _ => rfl) }

/-- `DELETE FROM mind_tags WHERE p`. -/
def dropTags (db : MindDb) (p : TagRow → Bool) : MindDb :=
  { db with tags := db.tags.delete p }

/-- `DELETE FROM mind_dependencies WHERE item_id = ? AND depends_on_id = ?`. -/
def dropDependency (db : MindDb) (id dependsOnId : MindId) : MindDb :=
  { db with
    dependencies := db.dependencies.delete
      (fun d => decide (d.itemId = id ∧ d.dependsOnId = dependsOnId)) }

end MindDb

/-! ## Statements that can be refused -/

/-- The columns a `SET` list names, as far as a trigger or a reference looks. -/
structure SetColumns where
  status : Bool
  dueAt : Bool
  parentId : Bool

/-- `UPDATE mind_items SET … WHERE id = ?` with its triggers and references. -/
def updateItem (columns : SetColumns) (id : MindId) (f : MindRow → MindRow)
    (hf : ∀ r, (f r).id = r.id) : MindM Unit := do
  let found ← Tx.read (fun db => db.items.get? id)
  let known ← Tx.read (fun db => db.exists)
  Tx.ensure (found.all (fun row => !(columns.status && transitionGuard row (f row))) = true)
    (.constraint "mind: invalid proposal status transition")
  Tx.ensure (found.all (fun row => !((columns.status || columns.dueAt) && dueGuard (f row))) = true)
    (.constraint "mind: proposal items cannot have a due date")
  Tx.ensure (found.all (fun row => !columns.parentId || (f row).parentId.all known) = true)
    (.constraint "FOREIGN KEY constraint failed")
  Tx.write (fun db => db.setItem id f hf)

/-- `INSERT INTO mind_items`. -/
def insertItem (row : MindRow) : MindM Unit := do
  let known ← Tx.read (fun db => db.exists)
  Tx.ensure (dueGuard row = false) (.constraint "mind: proposal items cannot have a due date")
  Tx.ensure (row.parentId.all known = true) (.constraint "FOREIGN KEY constraint failed")
  let inserted ← Tx.read (fun db => db.items.insert? row)
  let items ← Tx.require inserted (.constraint "UNIQUE constraint failed: mind_items.id")
  Tx.write (fun db => { db with items := items })

/-- `INSERT INTO mind_tags`. -/
def insertTag (itemId : MindId) (tag : String) : MindM Unit := do
  let inserted ← Tx.read (fun db => db.tags.insert? ⟨itemId, tag⟩)
  let tags ← Tx.require inserted
    (.constraint "UNIQUE constraint failed: mind_tags.item_id, mind_tags.tag")
  Tx.write (fun db => { db with tags := tags })

/-- `INSERT INTO mind_claims`. -/
def insertClaim (row : ClaimRow) : MindM Unit := do
  let item ← Tx.read (fun db => db.items.get? row.itemId)
  Tx.ensure (item.all (fun i => decide (i.status ≠ .proposal)) = true)
    (.constraint "mind: proposal items cannot be claimed")
  Tx.ensure (item.isSome = true) (.constraint "FOREIGN KEY constraint failed")
  let inserted ← Tx.read (fun db => db.claims.insert? row)
  let claims ← Tx.require inserted (.constraint "UNIQUE constraint failed: mind_claims.item_id")
  Tx.write (fun db => { db with claims := claims })

/-- `INSERT OR IGNORE INTO mind_dependencies`; returns whether a row was added.
The guard trigger runs before the key is looked at. -/
def insertDependency (row : DependencyRow) : MindM Bool := do
  let known ← Tx.read (fun db => db.exists)
  let proposal ← Tx.read (fun db => db.isProposal)
  Tx.ensure (proposal row.itemId = false ∧ proposal row.dependsOnId = false)
    (.constraint "mind: proposal items cannot have readiness dependencies")
  Tx.ensure (known row.itemId = true ∧ known row.dependsOnId = true)
    (.constraint "FOREIGN KEY constraint failed")
  let inserted ← Tx.read (fun db => db.dependencies.insert? row)
  match inserted with
  | none => pure false
  | some dependencies => do
      Tx.write (fun db => { db with dependencies := dependencies })
      pure true

/-- `INSERT INTO mind_reminders` with its trigger, reference and unique task. -/
def insertReminder (itemId : MindId) (scheduledTaskId : ℕ) (fireAt : ℚ)
    (channelId : Option String) (createdBy : String) (at' : Time) : MindM ℕ := do
  let known ← Tx.read (fun db => db.exists itemId)
  let proposal ← Tx.read (fun db => db.isProposal itemId)
  let taken ← Tx.read (fun db =>
    db.reminders.rows.any (fun r => decide (r.scheduledTaskId = scheduledTaskId)))
  Tx.ensure (proposal = false) (.constraint "mind: proposal items cannot have reminders")
  Tx.ensure (known = true) (.constraint "FOREIGN KEY constraint failed")
  Tx.ensure (taken = false)
    (.constraint "UNIQUE constraint failed: mind_reminders.scheduled_task_id")
  let id ← Tx.read (fun db => db.reminders.next)
  Tx.write (fun db => db.addReminder itemId scheduledTaskId fireAt channelId createdBy at')
  pure id

def event (itemId : MindId) (actor : String) (data : MindEventData) (at' : Time) :
    MindM Unit :=
  Tx.write (fun db => db.addEvent itemId actor data at')

end Elpis.Mind
