import Elpis.Mind.Statements

/-!
# The Mind store: operations

The methods of `MindStore` that write. Each follows its source method statement
by statement: the checks before the transaction, the transaction's body, and the
detail it returns. A call reads the clock more than once, so the readings are
arguments: `now` for the writes, `closing` for the `closed_at` an update sets,
`reading` for the detail that is returned.
-/

namespace Elpis.Mind

open Elpis.Lib

structure Readings where
  now : Time
  closing : Time
  reading : Time

/-! ## Arguments -/

structure CreateMindItem where
  title : String
  body : Option String
  kind : Option String
  status : Option String
  priority : Option Js.Num
  parentId : Option MindId
  dueAt : Option Js.Num
  tags : List String
  dependsOn : List MindId
  actor : Option String
  proposalIntake : Option MindProposalIntake

/-- `undefined` is `none`; where the source also allows `null`, that is `some none`. -/
structure UpdateMindItem where
  title : Option String
  body : Option String
  kind : Option String
  status : Option String
  priority : Option Js.Num
  parentId : Option (Option MindId)
  dueAt : Option (Option Js.Num)
  tags : Option (List String)

structure MindClaimOptions where
  owner : String
  principal : String
  ttlMs : Option Js.Num
  note : Option String

/-! ## Shared steps -/

def requireId (id : MindId) : MindM Unit := do
  Tx.ensure (isMindId id = true) (.invalidId id)
  let known ← Tx.read (fun db => db.exists id)
  Tx.ensure (known = true) (.noItem id)

def assertNoParentCycle (id parentId : MindId) : MindM Unit := do
  Tx.ensure (id ≠ parentId) .selfParent
  let cycle ← Tx.read (fun db => db.parentCycle id parentId)
  Tx.ensure (cycle = false) (.parentCycle parentId)

def addDependencyInternal (actor : String) (at' : Time) (id dependsOnId : MindId) :
    MindM Unit := do
  let proposal ← Tx.read (fun db => db.isProposal)
  Tx.ensure (proposal id = false ∧ proposal dependsOnId = false) .proposalDependency
  Tx.ensure (id ≠ dependsOnId) .selfDependency
  let cycle ← Tx.read (fun db => db.dependencyCycle id dependsOnId)
  Tx.ensure (cycle = false) (.dependencyCycle id dependsOnId)
  let added ← insertDependency ⟨id, dependsOnId, actor, at'⟩
  Tx.when (added = true) (event id actor (.dependencyAdded dependsOnId) at')

/-- Returns the number of the new comment. -/
def addCommentInternal (id : MindId) (body author : String) (at' : Time)
    (replyToId : Option ℕ) : MindM ℕ := do
  let commentId ← Tx.read (fun db => db.comments.next)
  Tx.write (fun db => db.addComment id author (Js.trim body) replyToId at')
  Tx.write (fun db => db.touch id at')
  event id author (.commentAdded commentId replyToId) at'
  pure commentId

def requireItem (id : MindId) : MindM MindRow := do
  let found ← Tx.read (fun db => db.items.get? id)
  Tx.require found (.noSuchItem id)

def requireExecutableTask (id : MindId) : MindM MindRow := do
  let item ← requireItem id
  Tx.ensure (item.archivedAt = none) (.archived id)
  Tx.ensure (item.kind = .task) (.notTask id item.kind)
  pure item

/-! ## Creating -/

/-- `/^sec-[A-Za-z0-9_-]{22}$/`. -/
def isSecretarySession (value : String) : Bool :=
  let cs := value.toList
  decide (cs.take 4 = "sec-".toList) && decide (cs.length = 26) &&
    (cs.drop 4).all (fun c => c.isAlphanum || c == '_' || c == '-')

def intakeAccepted (status : MindStatus) (intake : Option MindProposalIntake) : Bool :=
  intake.all (fun p => decide (status = .proposal) &&
    decide (p.requester = "conversation-user") && decide (p.source = "secretary") &&
    isSecretarySession p.sessionId)

/-- The transaction of `create`: the item, its tags, its dependencies, the event. -/
def createBody (row : MindId → MindRow) (tags : List String) (dependsOn : List MindId)
    (actor : String) (draws : List ℕ) (data : MindEventData) (now : Time) :
    MindM MindId := do
  let taken ← Tx.read (fun db => db.exists)
  let newId ← Tx.require (drawMindId taken draws) .drawing
  insertItem (row newId)
  Tx.forEach (insertTag newId) tags
  Tx.forEach (addDependencyInternal actor now newId) dependsOn
  event newId actor data now
  pure newId

def create (u : Js.Unicode) (opts : CreateMindItem) (draws : List ℕ) (clock : Readings) :
    MindM (Option MindDetail) := do
  assertText opts.title "title" 240 false
  let kind ← Tx.ofExcept (assertKind (opts.kind.getD "task"))
  let status ← Tx.ofExcept (assertStatus (opts.status.getD "open"))
  let priority ← Tx.ofExcept (assertPriority (opts.priority.getD (.finite 2)))
  let body := opts.body.getD ""
  assertText body "body" 100000 true
  let actor :=
    match opts.actor.map Js.trim with
    | some "" | none => "agent"
    | some a => a
  let dueAt ← Tx.ofExcept (assertDueAt opts.dueAt)
  let _ ← Tx.onSome opts.parentId requireId
  let dependsOn := uniq opts.dependsOn
  Tx.forEach requireId dependsOn
  Tx.ensure (¬(status = .proposal ∧ dueAt.isSome)) .proposalDueDate
  Tx.ensure (¬(status = .proposal ∧ dependsOn ≠ [])) .proposalDependency
  Tx.ensure (intakeAccepted status opts.proposalIntake = true) .invalidIntake
  let tags ← Tx.ofExcept (opts.tags.mapM (normalizeTag u))
  let tags := uniq tags
  let title := Js.trim opts.title
  let now := clock.now
  let newId ← Tx.transaction (createBody
    (fun id =>
      { id := id, title := title, body := body, kind := kind, status := status,
        priority := priority, parentId := opts.parentId, dueAt := dueAt,
        createdBy := actor, createdAt := now, updatedAt := now,
        closedAt := if status.closed then some now else none, archivedAt := none })
    tags dependsOn actor draws
    (.itemCreated ⟨title, body, kind, status, priority, opts.parentId, dueAt, tags⟩
      (if status = .proposal then some body else none)
      (if status = .proposal then opts.proposalIntake else none) dependsOn) now)
  Tx.read (fun db => db.get clock.reading newId)

/-! ## Claims -/

/-- The statements that give an item to a claimant whose way is free. -/
def startClaim (id : MindId) (opts : MindClaimOptions) (ttl : ℤ) (now : Time) :
    MindM Unit := do
  insertClaim ⟨id, Js.trim opts.owner, Js.trim opts.principal, now, now, now + ttl⟩
  updateItem ⟨true, false, false⟩ id
    (fun r => { r with status := .inProgress, closedAt := none, updatedAt := now })
    (fun _ => rfl)

def claimBody (id : MindId) (opts : MindClaimOptions) (ttl : ℤ) (now : Time) :
    MindM Unit := do
  let item ← requireExecutableTask id
  Tx.ensure (item.status = .open ∨ item.status = .inProgress) (.notOpenWork id item.status)
  let unresolved ← Tx.read (fun db => db.unresolvedDependencyCount id)
  Tx.ensure (unresolved = 0) (.blocked id)
  let existing ← Tx.read (fun db => db.claims.get? id)
  let owner := Js.trim opts.owner
  let started := fun (previous : Option String) => (do
    startClaim id opts ttl now
    let note := Js.trim (opts.note.getD "")
    let _ ← addCommentInternal id
      ("Work claimed through MCP." ++ (if note = "" then "" else "\n\n" ++ note)) owner now none
    event id owner (.claimStarted (now + ttl) previous) now : MindM Unit)
  match existing with
  | some held =>
      if now < held.expiresAt then do
        -- the stored principal is trimmed, the one offered here is not
        Tx.ensure (held.principal = opts.principal)
          (.claimedUntil id held.owner held.expiresAt)
        Tx.write (fun db => db.setClaim id
          (fun c => { c with owner := owner, renewedAt := now, expiresAt := now + ttl })
          (fun _ => rfl))
        event id owner (.claimRenewed (now + ttl)) now
      else do
        Tx.write (fun db => db.dropClaim id)
        let _ ← addCommentInternal id
          ("MCP claim by " ++ held.owner ++ " expired; item became reclaimable.")
          "system" now none
        event id "system" (.claimExpired held.owner held.expiresAt) now
        started (some held.owner)
  | none => do
      Tx.ensure (item.status ≠ .inProgress) (.outsideClaim id)
      started none

def claim (id : MindId) (opts : MindClaimOptions) (clock : Readings) :
    MindM (Option MindDetail) := do
  assertText opts.owner "claim owner" 120 false
  assertText opts.principal "claim principal" 200 false
  assertText (opts.note.getD "") "claim note" 20000 true
  let ttl ← Tx.ofExcept (claimTtl opts.ttlMs)
  Tx.transaction (claimBody id opts ttl clock.now)
  Tx.read (fun db => db.get clock.reading id)

def resumeClaimBody (id : MindId) (opts : MindClaimOptions) (ttl : ℤ) (now : Time) :
    MindM Unit := do
  let item ← requireExecutableTask id
  Tx.ensure (item.status = .waiting) (.notWaiting id item.status)
  let unresolved ← Tx.read (fun db => db.unresolvedDependencyCount id)
  Tx.ensure (unresolved = 0) (.blocked id)
  let existing ← Tx.read (fun db => db.claims.get? id)
  Tx.ensure (existing.all (fun held => decide (held.expiresAt ≤ now)) = true)
    (.claimedBy id ((existing.map ClaimRow.owner).getD ""))
  Tx.write (fun db => db.dropClaim id)
  startClaim id opts ttl now
  let commentId ← addCommentInternal id
    ("Resumed and claimed through MCP.\n\n" ++ Js.trim (opts.note.getD ""))
    (Js.trim opts.owner) now none
  event id (Js.trim opts.owner) (.claimResumed (now + ttl) commentId) now

def resumeClaim (id : MindId) (opts : MindClaimOptions) (clock : Readings) :
    MindM (Option MindDetail) := do
  assertText opts.owner "claim owner" 120 false
  assertText opts.principal "claim principal" 200 false
  assertText (opts.note.getD "") "resume note" 20000 false
  let ttl ← Tx.ofExcept (claimTtl opts.ttlMs)
  Tx.transaction (resumeClaimBody id opts ttl clock.now)
  Tx.read (fun db => db.get clock.reading id)

/-- The claim on `id`, if it is unexpired and `principal` holds it. -/
def requireHeldClaim (id : MindId) (principal : String) (now : Time) : MindM ClaimRow := do
  let row ← Tx.read (fun db => db.claims.get? id)
  let held ← Tx.require (row.filter (fun c => decide (now < c.expiresAt))) (.noActiveClaim id)
  Tx.ensure (held.principal = Js.trim principal) (.claimedByOther id)
  pure held

def renewClaimBody (id : MindId) (principal : String) (ttl : ℤ) (now : Time) :
    MindM Unit := do
  let _ ← requireExecutableTask id
  let held ← requireHeldClaim id principal now
  Tx.write (fun db => db.setClaim id
    (fun c => { c with renewedAt := now, expiresAt := now + ttl }) (fun _ => rfl))
  Tx.write (fun db => db.touch id now)
  event id held.owner (.claimRenewed (now + ttl)) now

def renewClaim (id : MindId) (principal : String) (ttlMs : Option Js.Num)
    (clock : Readings) : MindM (Option MindDetail) := do
  assertText principal "claim principal" 200 false
  let ttl ← Tx.ofExcept (claimTtl ttlMs)
  Tx.transaction (renewClaimBody id principal ttl clock.now)
  Tx.read (fun db => db.get clock.reading id)

/-- Unlike its siblings, releasing does not ask whether the claim has expired. -/
def releaseClaimBody (id : MindId) (principal : String) (status : ReleaseStatus)
    (note : String) (now : Time) : MindM Unit := do
  let _ ← requireExecutableTask id
  let row ← Tx.read (fun db => db.claims.get? id)
  let held ← Tx.require row (.noActiveClaim id)
  Tx.ensure (held.principal = Js.trim principal) (.claimedByOther id)
  Tx.write (fun db => db.dropClaim id)
  updateItem ⟨true, false, false⟩ id
    (fun r => { r with status := status.toStatus, closedAt := none, updatedAt := now })
    (fun _ => rfl)
  let _ ← addCommentInternal id
    ((if status = .waiting then "Blocked" else "Released") ++ ": " ++ Js.trim note)
    held.owner now none
  event id held.owner
    (if status = .waiting then .claimBlocked status.toStatus
      else .claimReleased status.toStatus) now

def releaseClaim (id : MindId) (principal : String) (status : ReleaseStatus)
    (note : String) (clock : Readings) : MindM (Option MindDetail) := do
  assertText principal "claim principal" 200 false
  assertText note "release note" 20000 false
  Tx.transaction (releaseClaimBody id principal status note clock.now)
  Tx.read (fun db => db.get clock.reading id)

def logClaimBody (id : MindId) (principal owner : String) (kind : MindLogKind)
    (body : String) (ttl : ℤ) (now : Time) : MindM Unit := do
  let _ ← requireExecutableTask id
  let _ ← requireHeldClaim id principal now
  let _ ← addCommentInternal id (kind.label ++ ": " ++ Js.trim body) (Js.trim owner) now none
  Tx.write (fun db => db.setClaim id
    (fun c => { c with owner := Js.trim owner, renewedAt := now, expiresAt := now + ttl })
    (fun _ => rfl))
  event id (Js.trim owner) (.claimLogged kind (now + ttl)) now

def logClaim (id : MindId) (principal owner kind body : String) (ttlMs : Option Js.Num)
    (clock : Readings) : MindM (Option MindDetail) := do
  assertText principal "claim principal" 200 false
  assertText owner "claim owner" 120 false
  assertText body "claim log" 20000 false
  let kind ← Tx.ofExcept (assertLogKind kind)
  let ttl ← Tx.ofExcept (claimTtl ttlMs)
  Tx.transaction (logClaimBody id principal owner kind body ttl clock.now)
  Tx.read (fun db => db.get clock.reading id)

/-- The completion record `finishClaim` leaves as a comment. -/
def completionRecord (result verification omissions : String) : String :=
  "Result:\n" ++ Js.trim result ++ "\n\nVerification:\n" ++ Js.trim verification ++
    "\n\nOmissions:\n" ++ Js.trim omissions

def finishClaimBody (id : MindId) (principal owner body : String) (now : Time) :
    MindM Unit := do
  let _ ← requireExecutableTask id
  let _ ← requireHeldClaim id principal now
  let unresolved ← Tx.read (fun db => db.unresolvedDependencyCount id)
  Tx.ensure (unresolved = 0) (.becameBlocked id)
  let commentId ← addCommentInternal id body (Js.trim owner) now none
  Tx.write (fun db => db.dropClaim id)
  updateItem ⟨true, false, false⟩ id
    (fun r => { r with status := .done, closedAt := some now, updatedAt := now })
    (fun _ => rfl)
  event id (Js.trim owner) (.claimCompleted commentId) now

def finishClaim (id : MindId) (principal owner result verification omissions : String)
    (clock : Readings) : MindM (Option MindDetail) := do
  assertText principal "claim principal" 200 false
  assertText owner "claim owner" 120 false
  assertText result "result" 10000 false
  assertText verification "verification" 10000 false
  assertText omissions "omissions" 10000 false
  let body := completionRecord result verification omissions
  assertText body "completion record" 20000 false
  Tx.transaction (finishClaimBody id principal owner body clock.now)
  Tx.read (fun db => db.get clock.reading id)

/-- One expired row: the claim goes, the item returns to open work. -/
def expireOne (now : Time) (row : ClaimRow) : MindM Unit := do
  Tx.write (fun db => db.dropClaim row.itemId)
  updateItem ⟨true, false, false⟩ row.itemId
    (fun r => { r with
      status := if r.status = .inProgress then .open else r.status
      updatedAt := now })
    (fun _ => rfl)
  let _ ← addCommentInternal row.itemId
    ("MCP claim by " ++ row.owner ++ " expired; item returned to open work.")
    "system" now none
  event row.itemId "system" (.claimExpired row.owner row.expiresAt) now

/-- `SELECT * FROM mind_claims WHERE expires_at <= ? ORDER BY item_id`. -/
def MindDb.expiredClaims (db : MindDb) (now : Time) : List ClaimRow :=
  orderBy (fun a b => decide (a.itemId ≤ b.itemId))
    (db.claims.select (fun c => decide (c.expiresAt ≤ now)))

def expireClaims (now : Time) : MindM (List MindId) :=
  Tx.transaction (do
    let expired ← Tx.read (fun db => db.expiredClaims now)
    Tx.forEach (expireOne now) expired
    pure (expired.map ClaimRow.itemId))

/-! ## Updating -/

/-- The checks `update` makes before its transaction, in the order of the
source. What is left of the patch is what the event records. -/
def checkPatch (u : Js.Unicode) (id : MindId) (current : MindStatus)
    (patch : UpdateMindItem) : MindM ChangedFields := do
  let title ← Tx.onSome patch.title (fun title => do
    assertText title "title" 240 false
    pure (Js.trim title))
  let body ← Tx.onSome patch.body (fun body => do
    assertText body "body" 100000 true
    pure body)
  let kind ← Tx.onSome patch.kind (fun kind => Tx.ofExcept (assertKind kind))
  let status ← Tx.onSome patch.status (fun status => do
    let next ← Tx.ofExcept (assertStatus status)
    Tx.ofExcept (assertStatusTransition current next)
    pure next)
  let priority ← Tx.onSome patch.priority (fun n => Tx.ofExcept (assertPriority n))
  let dueAt ← Tx.onSome patch.dueAt (fun dueAt => do
    Tx.ensure (¬(status.getD current = .proposal ∧ dueAt.isSome)) .proposalDueDate
    Tx.ofExcept (assertDueAt dueAt))
  let parentId ← Tx.onSome patch.parentId (fun parentId =>
    Tx.onSome parentId (fun parent => do
      requireId parent
      assertNoParentCycle id parent
      pure parent))
  let tags ← Tx.onSome patch.tags (fun tags => do
    let tags ← Tx.ofExcept (tags.mapM (normalizeTag u))
    pure (uniq tags))
  pure { title, body, kind, status, priority, dueAt, parentId, tags }

/-- `sets.length`: does the patch name a column of `mind_items`? -/
def ChangedFields.setsColumn (c : ChangedFields) : Bool :=
  c.title.isSome || c.body.isSome || c.kind.isSome || c.status.isSome ||
    c.priority.isSome || c.dueAt.isSome || c.parentId.isSome

/-- The row after `UPDATE mind_items SET …` with the columns of the patch. A
status comes with `closed_at`. -/
def MindRow.patched (c : ChangedFields) (clock : Readings) (r : MindRow) : MindRow :=
  { r with
    title := c.title.getD r.title
    body := c.body.getD r.body
    kind := c.kind.getD r.kind
    status := c.status.getD r.status
    closedAt := (c.status.map (fun s => if s.closed then some clock.closing else none)).getD
      r.closedAt
    priority := c.priority.getD r.priority
    dueAt := c.dueAt.getD r.dueAt
    parentId := c.parentId.getD r.parentId
    updatedAt := clock.now }

/-- `pickItemSnapshot`. -/
def MindDb.snapshot (db : MindDb) (r : MindRow) : ItemSnapshot :=
  ⟨r.title, r.body, r.kind, r.status, r.priority, r.parentId, r.dueAt, db.tagsFor r.id⟩

/-- Does the patch take the item out of claimed work? -/
def ChangedFields.endsClaim (c : ChangedFields) : Bool :=
  c.status.any (fun s => decide (s ≠ .inProgress)) ||
    c.kind.any (fun k => decide (k ≠ .task))

def replaceTags (id : MindId) (now : Time) (tags : List String) : MindM Unit := do
  Tx.write (fun db => db.dropTags (fun t => decide (t.itemId = id)))
  Tx.forEach (insertTag id) tags
  Tx.write (fun db => db.touch id now)

/-- The claim on `id`, if there is one, goes, and the event says whose it was. -/
def revokeClaim (id : MindId) (actor : String) (data : String → MindEventData)
    (now : Time) : MindM Unit := do
  let claim ← Tx.read (fun db => db.claims.get? id)
  let _ ← Tx.onSome claim (fun held => do
    Tx.write (fun db => db.dropClaim id)
    event id actor (data held.owner) now)
  pure ()

def updateBody (id : MindId) (actor : String) (before : ItemSnapshot)
    (changed : ChangedFields) (clock : Readings) : MindM Unit := do
  Tx.when (changed.setsColumn = true)
    (updateItem ⟨changed.status.isSome, changed.dueAt.isSome, changed.parentId.isSome⟩ id
      (MindRow.patched changed clock) (fun _ => rfl))
  let _ ← Tx.onSome changed.tags (replaceTags id clock.now)
  Tx.when (changed.endsClaim = true)
    (revokeClaim id actor (fun owner => .claimRevoked owner
      (changed.status.getD before.status) (changed.kind.getD before.kind)) clock.now)
  Tx.when (0 < changed.count)
    (event id actor
      (if changed.status.isSome ∧ changed.count = 1 then .itemStatus before changed
        else .itemUpdated before changed) clock.now)

def update (u : Js.Unicode) (id : MindId) (patch : UpdateMindItem) (actor : String)
    (clock : Readings) : MindM (Option MindDetail) := do
  requireId id
  let current ← requireItem id
  let before ← Tx.read (fun db => db.snapshot current)
  let changed ← checkPatch u id current.status patch
  Tx.transaction (updateBody id actor before changed clock)
  Tx.read (fun db => db.get clock.reading id)

def setStatus (u : Js.Unicode) (id : MindId) (status actor : String) (clock : Readings) :
    MindM (Option MindDetail) :=
  update u id ⟨none, none, none, some status, none, none, none, none⟩ actor clock

def archive (id : MindId) (actor : String) (clock : Readings) :
    MindM (Option MindDetail) := do
  requireId id
  Tx.transaction (do
    updateItem ⟨false, false, false⟩ id
      (fun r => { r with archivedAt := some clock.now, updatedAt := clock.now })
      (fun _ => rfl)
    revokeClaim id actor .claimRevokedByArchive clock.now
    event id actor .itemArchived clock.now)
  Tx.read (fun db => db.get clock.reading id)

def restore (id : MindId) (actor : String) (clock : Readings) :
    MindM (Option MindDetail) := do
  requireId id
  updateItem ⟨false, false, false⟩ id
    (fun r => { r with archivedAt := none, updatedAt := clock.now }) (fun _ => rfl)
  event id actor .itemRestored clock.now
  Tx.read (fun db => db.get clock.reading id)

/-! ## Dependencies -/

def addDependency (id dependsOnId : MindId) (actor : String) (clock : Readings) :
    MindM (Option MindDetail) := do
  requireId id
  requireId dependsOnId
  Tx.transaction (do
    addDependencyInternal actor clock.now id dependsOnId
    Tx.write (fun db => db.touch id clock.now))
  Tx.read (fun db => db.get clock.reading id)

/-- The second identity is not looked up: an edge that is not there is no error. -/
def removeDependency (id dependsOnId : MindId) (actor : String) (clock : Readings) :
    MindM (Option MindDetail) := do
  requireId id
  let present ← Tx.read (fun db => (db.dependencies.get? (id, dependsOnId)).isSome)
  Tx.write (fun db => db.dropDependency id dependsOnId)
  Tx.when (present = true) (do
    Tx.write (fun db => db.touch id clock.now)
    event id actor (.dependencyRemoved dependsOnId) clock.now)
  Tx.read (fun db => db.get clock.reading id)

/-! ## Comments and tags -/

def addComment (id : MindId) (body author : String) (clock : Readings) : MindM ℕ := do
  requireId id
  assertText body "comment" 20000 false
  addCommentInternal id body author clock.now none

/-- A comment that is not deleted. -/
def requireComment (commentId : ℕ) : MindM CommentRow := do
  let row ← Tx.read (fun db => (db.comments.get? commentId).filter (fun c => c.deletedAt.isNone))
  Tx.require row (.noComment commentId)

def addReply (id : MindId) (replyToId : ℕ) (body author : String) (clock : Readings) :
    MindM ℕ := do
  requireId id
  assertText body "comment" 20000 false
  let target ← requireComment replyToId
  Tx.ensure (target.itemId = id) (.commentElsewhere replyToId id)
  addCommentInternal id body author clock.now (some replyToId)

def updateComment (commentId : ℕ) (body author : String) (clock : Readings) :
    MindM CommentRow := do
  assertText body "comment" 20000 false
  let row ← requireComment commentId
  Tx.write (fun db => db.setComment commentId
    (fun c => { c with body := Js.trim body, updatedAt := some clock.now }) (fun _ => rfl))
  Tx.write (fun db => db.touch row.itemId clock.now)
  event row.itemId author (.commentUpdated commentId) clock.now
  pure { row with body := Js.trim body, updatedAt := some clock.now }

def deleteComment (commentId : ℕ) (actor : String) (clock : Readings) : MindM Bool := do
  let row ← Tx.read (fun db => (db.comments.get? commentId).filter (fun c => c.deletedAt.isNone))
  match row with
  | none => pure false
  | some row => do
      Tx.write (fun db => db.setComment commentId
        (fun c => { c with deletedAt := some clock.now }) (fun _ => rfl))
      Tx.write (fun db => db.touch row.itemId clock.now)
      event row.itemId actor (.commentDeleted commentId) clock.now
      pure true

def addTag (u : Js.Unicode) (id : MindId) (tag actor : String) (clock : Readings) :
    MindM (Option MindDetail) := do
  requireId id
  let normalized ← Tx.ofExcept (normalizeTag u tag)
  let inserted ← Tx.read (fun db => db.tags.insert? ⟨id, normalized⟩)
  let _ ← Tx.onSome inserted (fun tags => do
    Tx.write (fun db => { db with tags := tags })
    event id actor (.tagAdded normalized) clock.now)
  Tx.read (fun db => db.get clock.reading id)

def removeTag (u : Js.Unicode) (id : MindId) (tag actor : String) (clock : Readings) :
    MindM (Option MindDetail) := do
  requireId id
  let normalized ← Tx.ofExcept (normalizeTag u tag)
  let present ← Tx.read (fun db => (db.tags.get? (id, normalized)).isSome)
  Tx.write (fun db => db.dropTags (fun t => decide (t.itemId = id ∧ t.tag = normalized)))
  Tx.when (present = true) (event id actor (.tagRemoved normalized) clock.now)
  Tx.read (fun db => db.get clock.reading id)

/-! ## Reminders -/

def createReminderRecord (itemId : MindId) (scheduledTaskId : ℕ) (fireAt : ℚ)
    (channelId : Option String) (createdBy : String) (clock : Readings) :
    MindM (Option ReminderRow) := do
  let item ← requireItem itemId
  Tx.ensure (item.status ≠ .proposal) .proposalReminder
  let id ← insertReminder itemId scheduledTaskId fireAt channelId createdBy clock.now
  event itemId createdBy (.reminderAdded id scheduledTaskId fireAt channelId) clock.now
  Tx.read (fun db => db.reminders.get? id)

def markReminderFiredByTask (scheduledTaskId : ℕ) (clock : Readings) : MindM Unit := do
  let row ← Tx.read (fun db => db.reminders.rows.find? (fun r =>
    decide (r.scheduledTaskId = scheduledTaskId) && r.pending))
  let _ ← Tx.onSome row (fun r => do
    Tx.write (fun db => db.setReminder r.id
      (fun r => { r with firedAt := some clock.now }) (fun _ => rfl))
    event r.itemId "scheduler" (.reminderFired r.id scheduledTaskId) clock.now)
  pure ()

def cancelReminderRecord (id : ℕ) (actor : String) (clock : Readings) :
    MindM (Option ReminderRow) := do
  let row ← Tx.read (fun db => db.reminders.get? id)
  let _ ← Tx.onSome (row.filter ReminderRow.pending) (fun r => do
    Tx.write (fun db => db.setReminder id
      (fun r => { r with cancelledAt := some clock.now }) (fun _ => rfl))
    event r.itemId actor (.reminderCancelled id r.scheduledTaskId) clock.now)
  Tx.read (fun db => db.reminders.get? id)

def updateReminderRecord (id : ℕ) (fireAt : ℚ) (actor : String) (clock : Readings) :
    MindM (Option ReminderRow) := do
  let found ← Tx.read (fun db => db.reminders.get? id)
  let row ← Tx.require found (.noReminder id)
  Tx.write (fun db => db.setReminder id (fun r => { r with fireAt := fireAt }) (fun _ => rfl))
  event row.itemId actor (.reminderSnoozed id fireAt) clock.now
  Tx.read (fun db => db.reminders.get? id)

/-! ## Calls -/

/-- A call of a method of `MindStore` that writes, with its arguments and the
readings of the clock it gets. -/
inductive MindCall where
  | create (opts : CreateMindItem) (draws : List ℕ) (clock : Readings)
  | claim (id : MindId) (opts : MindClaimOptions) (clock : Readings)
  | resumeClaim (id : MindId) (opts : MindClaimOptions) (clock : Readings)
  | renewClaim (id : MindId) (principal : String) (ttlMs : Option Js.Num) (clock : Readings)
  | releaseClaim (id : MindId) (principal : String) (status : ReleaseStatus) (note : String)
      (clock : Readings)
  | logClaim (id : MindId) (principal owner kind body : String) (ttlMs : Option Js.Num)
      (clock : Readings)
  | finishClaim (id : MindId) (principal owner result verification omissions : String)
      (clock : Readings)
  | expireClaims (now : Time)
  | update (id : MindId) (patch : UpdateMindItem) (actor : String) (clock : Readings)
  | setStatus (id : MindId) (status actor : String) (clock : Readings)
  | archive (id : MindId) (actor : String) (clock : Readings)
  | restore (id : MindId) (actor : String) (clock : Readings)
  | addDependency (id dependsOnId : MindId) (actor : String) (clock : Readings)
  | removeDependency (id dependsOnId : MindId) (actor : String) (clock : Readings)
  | addComment (id : MindId) (body author : String) (clock : Readings)
  | addReply (id : MindId) (replyToId : ℕ) (body author : String) (clock : Readings)
  | updateComment (commentId : ℕ) (body author : String) (clock : Readings)
  | deleteComment (commentId : ℕ) (actor : String) (clock : Readings)
  | addTag (id : MindId) (tag actor : String) (clock : Readings)
  | removeTag (id : MindId) (tag actor : String) (clock : Readings)
  | createReminderRecord (itemId : MindId) (scheduledTaskId : ℕ) (fireAt : ℚ)
      (channelId : Option String) (createdBy : String) (clock : Readings)
  | markReminderFiredByTask (scheduledTaskId : ℕ) (clock : Readings)
  | cancelReminderRecord (id : ℕ) (actor : String) (clock : Readings)
  | updateReminderRecord (id : ℕ) (fireAt : ℚ) (actor : String) (clock : Readings)

/-- Run a method for its effect. -/
def effect {α : Type} (m : MindM α) : MindM Unit := do
  let _ ← m
  pure ()

def MindCall.exec (u : Js.Unicode) : MindCall → MindM Unit
  | .create opts draws clock => effect (Mind.create u opts draws clock)
  | .claim id opts clock => effect (Mind.claim id opts clock)
  | .resumeClaim id opts clock => effect (Mind.resumeClaim id opts clock)
  | .renewClaim id principal ttlMs clock => effect (Mind.renewClaim id principal ttlMs clock)
  | .releaseClaim id principal status note clock =>
      effect (Mind.releaseClaim id principal status note clock)
  | .logClaim id principal owner kind body ttlMs clock =>
      effect (Mind.logClaim id principal owner kind body ttlMs clock)
  | .finishClaim id principal owner result verification omissions clock =>
      effect (Mind.finishClaim id principal owner result verification omissions clock)
  | .expireClaims now => effect (Mind.expireClaims now)
  | .update id patch actor clock => effect (Mind.update u id patch actor clock)
  | .setStatus id status actor clock => effect (Mind.setStatus u id status actor clock)
  | .archive id actor clock => effect (Mind.archive id actor clock)
  | .restore id actor clock => effect (Mind.restore id actor clock)
  | .addDependency id dependsOnId actor clock =>
      effect (Mind.addDependency id dependsOnId actor clock)
  | .removeDependency id dependsOnId actor clock =>
      effect (Mind.removeDependency id dependsOnId actor clock)
  | .addComment id body author clock => effect (Mind.addComment id body author clock)
  | .addReply id replyToId body author clock =>
      effect (Mind.addReply id replyToId body author clock)
  | .updateComment commentId body author clock =>
      effect (Mind.updateComment commentId body author clock)
  | .deleteComment commentId actor clock => effect (Mind.deleteComment commentId actor clock)
  | .addTag id tag actor clock => effect (Mind.addTag u id tag actor clock)
  | .removeTag id tag actor clock => effect (Mind.removeTag u id tag actor clock)
  | .createReminderRecord itemId scheduledTaskId fireAt channelId createdBy clock =>
      effect (Mind.createReminderRecord itemId scheduledTaskId fireAt channelId createdBy clock)
  | .markReminderFiredByTask scheduledTaskId clock =>
      effect (Mind.markReminderFiredByTask scheduledTaskId clock)
  | .cancelReminderRecord id actor clock => effect (Mind.cancelReminderRecord id actor clock)
  | .updateReminderRecord id fireAt actor clock =>
      effect (Mind.updateReminderRecord id fireAt actor clock)

/-- The database a call leaves behind, whether it returns or throws. -/
def MindDb.after (u : Js.Unicode) (db : MindDb) (call : MindCall) : MindDb :=
  (call.exec u db).2

end Elpis.Mind
