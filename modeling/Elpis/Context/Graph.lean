import Elpis.Js.Text
import Elpis.Lib.Table
import Elpis.Lib.Tx

/-!
# The context graph store: branches, continuation and effects

`src/store/context-graph.ts` over the tables of `src/store/db.ts`. One branch runs at a time.
It is begun from the continuation head, prepares and resolves effects, and either returns,
which advances the head, or is recovered as crashed. Each SQL statement is a program with the
constraints and the triggers of its table before the write; a method of the store is a program
of statements, in a transaction where the source opens one.

`hash` is `hashContextBytes`. A JSON payload is `none` where `serialize` refuses it.
-/

namespace Elpis.Context

open Elpis.Js Elpis.Lib

/-! ## Rows -/

/-- A branch with its world, as a pair of columns refers to it. -/
structure BranchRef where
  branchId : String
  worldId : String
deriving DecidableEq, Repr

inductive BranchStatus where
  | running | yielded | crashed
deriving DecidableEq, Repr

structure Branch where
  branchId : String
  worldId : String
  parentBranchId : Option String
  status : BranchStatus
  authorityEpoch : ℕ
  startedAt : ℕ
  endedAt : Option ℕ
deriving DecidableEq, Repr

def Branch.ref (b : Branch) : BranchRef := ⟨b.branchId, b.worldId⟩

structure BranchStart where
  branchId : String
  worldId : String
  baseRevision : ℕ
  predecessor : Option BranchRef
  startedAt : ℕ
deriving DecidableEq, Repr

/-- The singleton of `context_continuation_head`. -/
structure ContinuationHead where
  branch : Option BranchRef
  revision : ℕ
  updatedAt : ℕ
deriving DecidableEq, Repr

/-- A row of `context_continuation_advances`. -/
structure Advance where
  revision : ℕ
  predecessor : Option BranchRef
  branchId : String
  worldId : String
  advancedAt : ℕ
deriving DecidableEq, Repr

def Advance.ref (a : Advance) : BranchRef := ⟨a.branchId, a.worldId⟩

/-- The singleton of `context_root_coordinator`. -/
structure RootCoordinatorState where
  active : Option BranchRef
  baseRevision : ℕ
  predecessor : Option BranchRef
  updatedAt : ℕ
deriving DecidableEq, Repr

structure BranchRecovery where
  branchId : String
  worldId : String
  baseRevision : ℕ
  predecessor : Option BranchRef
  uncertainEffects : ℕ
  recoveredAt : ℕ
deriving DecidableEq, Repr

structure Manifest where
  manifestId : String
  branchId : String
  worldId : String
  manifestHash : String
  policyGeneration : ℕ
deriving DecidableEq, Repr

inductive EffectStatus where
  | prepared | observed | failed | uncertain
deriving DecidableEq, Repr

structure Effect where
  effectId : String
  branchId : String
  worldId : String
  destinationWorldId : String
  kind : String
  authorityEpoch : ℕ
  payloadJson : String
  payloadHash : String
  idempotencyKey : Option String
  status : EffectStatus
  preparedAt : ℕ
  resolvedAt : Option ℕ
  observationJson : Option String
deriving DecidableEq, Repr

/-- `RootReturnEffectReceipt`. -/
structure EffectReceipt where
  effectId : String
  destinationWorldId : String
  kind : String
  authorityEpoch : ℕ
  payloadHash : String
  status : EffectStatus
  preparedAt : ℕ
  resolvedAt : ℕ
deriving DecidableEq, Repr

/-- `RootReturnReceiptV1`. -/
structure RootReturnReceipt where
  branchId : String
  worldId : String
  viewManifestHash : String
  outcome : String
  authorityEpoch : ℕ
  privateCapsuleId : String
  effects : List EffectReceipt
  commitments : List String
  blockers : List String
  artifactRefs : List String
deriving DecidableEq, Repr

inductive CapsuleKind where
  | ofWorld | rootReceipt
deriving DecidableEq, Repr

/-- What `content_json` encodes. -/
inductive CapsuleContent where
  | json (text : String)
  | rootReturn (receipt : RootReturnReceipt)
deriving DecidableEq, Repr

structure Capsule where
  capsuleId : String
  branchId : String
  worldId : String
  kind : CapsuleKind
  viewManifestHash : String
  sourceRootHash : String
  policyGeneration : ℕ
  content : CapsuleContent
  createdAt : ℕ
deriving DecidableEq, Repr

structure CapsuleEdge where
  childCapsuleId : String
  parentCapsuleId : String
  worldId : String
  ordinal : ℕ
deriving DecidableEq, Repr

/-- The rows of a table stand in the order they were inserted in. -/
structure Store where
  branches : Table Branch.branchId
  starts : Table BranchStart.branchId
  head : ContinuationHead
  advances : Table Advance.revision
  coordinator : RootCoordinatorState
  recoveries : Table BranchRecovery.branchId
  manifests : Table Manifest.manifestId
  capsules : Table Capsule.capsuleId
  edges : List CapsuleEdge
  effects : Table Effect.effectId

/-- The store behind its migrations. -/
def Store.init : Store where
  branches := Table.empty
  starts := Table.empty
  head := ⟨none, 0, 0⟩
  advances := Table.empty
  coordinator := ⟨none, 0, none, 0⟩
  recoveries := Table.empty
  manifests := Table.empty
  capsules := Table.empty
  edges := []
  effects := Table.empty

/-- A program over the store that may throw, with the message. -/
abbrev Method := Tx Store String

/-! ## Checks of arguments -/

def maxSafeInteger : ℤ := 9007199254740991

/-- `timestamp`, and `generation`. -/
def timestamp (label : String) (value : ℤ) : Method ℕ := do
  Tx.ensure (0 ≤ value ∧ value ≤ maxSafeInteger) (label ++ " must be a non-negative safe integer")
  pure value.toNat

def serialize (value : Option String) : Method String :=
  Tx.require value "context graph payload must be JSON serializable"

def boundedStrings (label : String) (values : List String) : Method (List String) := do
  Tx.ensure (values.length ≤ 128) (label ++ " must contain at most 128 strings")
  Tx.ensure (∀ value ∈ values, length value ≤ 4096 ∧ '\x00' ∉ value.toList)
    (label ++ " contains an invalid string")
  pure values

/-- `CHECK (length(…) BETWEEN 1 AND max)`. -/
def sized (text : String) (max : ℕ) : Bool := decide (1 ≤ text.length ∧ text.length ≤ max)

/-- `CHECK (length(…) = 64 AND … NOT GLOB '*[^0-9a-f]*')`. -/
def isDigest (text : String) : Bool := decide (text.length = 64) && text.toList.all hexClass

/-- `REFERENCES context_branches(branch_id, world_id)`. -/
def Store.hasBranch (s : Store) (ref : BranchRef) : Prop :=
  ∃ b ∈ s.branches.rows, b.branchId = ref.branchId ∧ b.worldId = ref.worldId

instance (s : Store) (ref : BranchRef) : Decidable (s.hasBranch ref) :=
  inferInstanceAs (Decidable (∃ b ∈ s.branches.rows, _))

def checkFailed : String := "CHECK constraint failed"
def uniqueFailed : String := "UNIQUE constraint failed"
def foreignKeyFailed : String := "FOREIGN KEY constraint failed"

/-! ## Statements -/

/-- `INSERT INTO context_branches`. -/
def insertBranch (b : Branch) : Method Unit := do
  let s ← Tx.read id
  Tx.ensure (sized b.branchId 128 = true ∧ sized b.worldId 256 = true) checkFailed
  Tx.ensure (s.branches.get? b.branchId = none) uniqueFailed
  Tx.ensure (∀ parent ∈ b.parentBranchId, s.hasBranch ⟨parent, b.worldId⟩) foreignKeyFailed
  -- `context_branches_single_running_idx`
  Tx.ensure (∀ b' ∈ s.branches.rows, ¬(b.status = .running ∧ b'.status = .running)) uniqueFailed
  Tx.write (fun s => { s with branches := s.branches.put b })

/-- `UPDATE context_branches SET status, ended_at WHERE branch_id AND status = 'running'`, with
the number of rows. -/
def updateBranch (branchId : String) (status : BranchStatus) (endedAt : ℕ) : Method ℕ := do
  let s ← Tx.read id
  match s.branches.get? branchId with
  | none => pure 0
  | some b =>
      if b.status = .running then do
        Tx.ensure (b.startedAt ≤ endedAt) checkFailed
        Tx.ensure (∀ e ∈ s.effects.rows, ¬(e.branchId = branchId ∧ e.status = .prepared))
          "context branch has a prepared effect"
        Tx.ensure (¬(status = .yielded ∧ (s.starts.get? branchId).isSome) ∨
            ((∃ c ∈ s.capsules.rows, c.branchId = branchId ∧ c.kind = .ofWorld) ∧
              ∃ c ∈ s.capsules.rows, c.branchId = branchId ∧ c.kind = .rootReceipt))
          "coordinated branch return capsules are incomplete"
        Tx.write (fun s =>
          { s with branches := s.branches.put { b with status, endedAt := some endedAt } })
        pure 1
      else pure 0

/-- `INSERT INTO context_branch_starts`. -/
def insertStart (start : BranchStart) : Method Unit := do
  let s ← Tx.read id
  Tx.ensure (s.starts.get? start.branchId = none) uniqueFailed
  Tx.ensure (s.hasBranch ⟨start.branchId, start.worldId⟩ ∧ ∀ p ∈ start.predecessor, s.hasBranch p)
    foreignKeyFailed
  Tx.ensure (start.baseRevision = s.head.revision ∧ start.predecessor = s.head.branch)
    "context branch start does not match continuation head"
  Tx.write (fun s => { s with starts := s.starts.put start })

/-- A status of the branch, as a trigger selects it. -/
def Store.statusOf (s : Store) (branchId : String) : Option BranchStatus :=
  (s.branches.get? branchId).map Branch.status

/-- `context_root_coordinator_transition_guard`: a branch starts, a crashed one is released, or
the head has advanced by one. -/
def Store.coordinatorMoves (s : Store) (old new : RootCoordinatorState) : Prop :=
  old.updatedAt ≤ new.updatedAt ∧
    ((old.active = none ∧ new.baseRevision = old.baseRevision ∧ new.predecessor = old.predecessor ∧
        ∃ start ∈ s.starts.rows, new.active = some ⟨start.branchId, start.worldId⟩ ∧
          start.baseRevision = new.baseRevision ∧ start.predecessor = new.predecessor ∧
          s.hasBranch ⟨start.branchId, start.worldId⟩ ∧ s.statusOf start.branchId = some .running) ∨
      (new.active = none ∧ new.baseRevision = old.baseRevision ∧ new.predecessor = old.predecessor ∧
        ∃ ref ∈ old.active, s.statusOf ref.branchId = some .crashed) ∨
      (new.active = none ∧ new.baseRevision = old.baseRevision + 1 ∧
        new.baseRevision = s.head.revision ∧ new.predecessor = s.head.branch ∧
        (old.active = none ∨ old.active = new.predecessor)))

instance (s : Store) (old new : RootCoordinatorState) : Decidable (s.coordinatorMoves old new) :=
  inferInstanceAs (Decidable (_ ∧ (_ ∨ _ ∨ _)))

/-- `UPDATE context_root_coordinator`, for the row the conditions of the statement selected. -/
def updateCoordinator (new : RootCoordinatorState) : Method Unit := do
  let s ← Tx.read id
  Tx.ensure ((∀ r ∈ new.active, s.hasBranch r) ∧ ∀ r ∈ new.predecessor, s.hasBranch r)
    foreignKeyFailed
  Tx.ensure (s.coordinatorMoves s.coordinator new) "invalid context root coordinator transition"
  Tx.write (fun s => { s with coordinator := new })

/-- `INSERT INTO context_continuation_advances`. -/
def insertAdvance (a : Advance) : Method Unit := do
  let s ← Tx.read id
  Tx.ensure (1 ≤ a.revision ∧ ∀ p ∈ a.predecessor, p.branchId ≠ a.branchId) checkFailed
  Tx.ensure (s.advances.get? a.revision = none ∧ ∀ a' ∈ s.advances.rows, a'.branchId ≠ a.branchId)
    uniqueFailed
  Tx.ensure (s.hasBranch a.ref ∧ ∀ p ∈ a.predecessor, s.hasBranch p) foreignKeyFailed
  Tx.ensure (a.revision = s.head.revision + 1 ∧ a.predecessor = s.head.branch ∧
    s.statusOf a.branchId = some .yielded) "invalid context continuation advance"
  Tx.write (fun s => { s with advances := s.advances.put a })

/-- `UPDATE context_continuation_head`. -/
def updateHead (new : ContinuationHead) : Method Unit := do
  let s ← Tx.read id
  Tx.ensure (∀ r ∈ new.branch, s.hasBranch r) foreignKeyFailed
  Tx.ensure (new.revision = s.head.revision + 1 ∧ s.head.updatedAt ≤ new.updatedAt)
    "invalid context continuation head advance"
  Tx.ensure (∃ a ∈ s.advances.rows, a.revision = new.revision ∧ new.branch = some a.ref ∧
    a.advancedAt = new.updatedAt) "context continuation head lacks an advance receipt"
  Tx.write (fun s => { s with head := new })

/-- `INSERT INTO context_branch_recoveries`. -/
def insertRecovery (r : BranchRecovery) : Method Unit := do
  let s ← Tx.read id
  Tx.ensure (s.recoveries.get? r.branchId = none) uniqueFailed
  Tx.ensure (s.hasBranch ⟨r.branchId, r.worldId⟩ ∧ ∀ p ∈ r.predecessor, s.hasBranch p)
    foreignKeyFailed
  Tx.ensure (s.statusOf r.branchId = some .crashed) "context recovery requires a crashed branch"
  Tx.write (fun s => { s with recoveries := s.recoveries.put r })

/-- `INSERT INTO context_manifests`. -/
def insertManifest (m : Manifest) : Method Unit := do
  let s ← Tx.read id
  Tx.ensure (sized m.manifestId 128 = true ∧ sized m.worldId 256 = true ∧ isDigest m.manifestHash = true)
    checkFailed
  Tx.ensure (s.manifests.get? m.manifestId = none ∧ ∀ m' ∈ s.manifests.rows, m'.branchId ≠ m.branchId)
    uniqueFailed
  Tx.ensure (s.hasBranch ⟨m.branchId, m.worldId⟩) foreignKeyFailed
  Tx.ensure (s.statusOf m.branchId = some .running) "context manifest branch is not running"
  Tx.write (fun s => { s with manifests := s.manifests.put m })

/-- `INSERT INTO context_capsules`, for a capsule with a manifest. -/
def insertCapsule (c : Capsule) : Method Unit := do
  let s ← Tx.read id
  Tx.ensure (sized c.capsuleId 128 = true ∧ sized c.worldId 256 = true ∧
    isDigest c.viewManifestHash = true ∧ isDigest c.sourceRootHash = true) checkFailed
  Tx.ensure (s.capsules.get? c.capsuleId = none) uniqueFailed
  Tx.ensure (s.hasBranch ⟨c.branchId, c.worldId⟩ ∧ ∃ m ∈ s.manifests.rows, m.branchId = c.branchId ∧
    m.manifestHash = c.viewManifestHash) foreignKeyFailed
  Tx.ensure (s.statusOf c.branchId = some .running) "context capsule branch is not running"
  Tx.ensure (∀ m ∈ s.manifests.rows, m.branchId = c.branchId → m.manifestHash = c.viewManifestHash →
    m.policyGeneration = c.policyGeneration) "context capsule policy does not match its manifest"
  Tx.write (fun s => { s with capsules := s.capsules.put c })

/-- The place of a capsule in the order of insertion. -/
def Store.sequenceOf (s : Store) (capsuleId : String) : ℕ :=
  s.capsules.rows.findIdx (fun c => decide (c.capsuleId = capsuleId))

/-- `INSERT INTO context_capsule_edges`. -/
def insertEdge (edge : CapsuleEdge) : Method Unit := do
  let s ← Tx.read id
  Tx.ensure (edge.childCapsuleId ≠ edge.parentCapsuleId) checkFailed
  Tx.ensure (∀ e ∈ s.edges, e.childCapsuleId = edge.childCapsuleId →
    e.parentCapsuleId ≠ edge.parentCapsuleId ∧ e.ordinal ≠ edge.ordinal) uniqueFailed
  Tx.ensure (∀ capsuleId ∈ [edge.childCapsuleId, edge.parentCapsuleId],
    ∃ c ∈ s.capsules.rows, c.capsuleId = capsuleId ∧ c.worldId = edge.worldId) foreignKeyFailed
  Tx.ensure (s.sequenceOf edge.parentCapsuleId < s.sequenceOf edge.childCapsuleId)
    "context capsule parent must predate child"
  Tx.write (fun s => { s with edges := s.edges ++ [edge] })

/-- `INSERT INTO context_effects`. -/
def insertEffect (e : Effect) : Method Unit := do
  let s ← Tx.read id
  Tx.ensure (sized e.effectId 128 = true ∧ sized e.worldId 256 = true ∧
    sized e.destinationWorldId 256 = true ∧ sized e.kind 64 = true ∧ 1 ≤ e.payloadJson.length ∧
    e.worldId = e.destinationWorldId) checkFailed
  Tx.ensure (s.effects.get? e.effectId = none ∧ ∀ e' ∈ s.effects.rows, e'.branchId = e.branchId →
    e.idempotencyKey.isSome = true → e'.idempotencyKey ≠ e.idempotencyKey) uniqueFailed
  Tx.ensure (∃ b ∈ s.branches.rows, b.branchId = e.branchId ∧ b.worldId = e.worldId ∧
    b.authorityEpoch = e.authorityEpoch) foreignKeyFailed
  Tx.ensure (s.statusOf e.branchId = some .running) "context effect branch is not running"
  Tx.write (fun s => { s with effects := s.effects.put e })

/-- `UPDATE context_effects SET status, resolved_at, observation_json`, for a row that the
statement selected as prepared. -/
def updateEffect (e : Effect) (status : EffectStatus) (resolvedAt : ℕ)
    (observationJson : Option String) : Method Unit := do
  Tx.ensure (e.preparedAt ≤ resolvedAt) checkFailed
  Tx.write (fun s =>
    { s with
      effects := s.effects.put { e with status, resolvedAt := some resolvedAt, observationJson } })

/-! ## Methods -/

def requireBranch (branchId : String) : Method Branch := do
  let s ← Tx.read id
  Tx.require (s.branches.get? branchId) ("unknown branch: " ++ branchId)

structure BeginInput where
  branchId : String
  worldId : String
  expectedRevision : ℤ
  authorityEpoch : ℤ
  startedAt : ℤ

/-- The `SELECT … WHERE world_id = ? ORDER BY revision DESC LIMIT 1`. -/
def Store.localParent (s : Store) (worldId : String) : Option String :=
  ((s.advances.select (fun a => decide (a.worldId = worldId))).argmax Advance.revision).map
    Advance.branchId

def createBranch (branchId worldId : String) (parentBranchId : Option String)
    (authorityEpoch startedAt : ℤ) : Method Branch := do
  let authorityEpoch ← timestamp "authorityEpoch" authorityEpoch
  let startedAt ← timestamp "startedAt" startedAt
  insertBranch ⟨branchId, worldId, parentBranchId, .running, authorityEpoch, startedAt, none⟩
  requireBranch branchId

def beginCoordinatedBranchInTransaction (input : BeginInput) :
    Method (Branch × BranchStart × RootCoordinatorState) := do
  let expectedRevision ← timestamp "expectedRevision" input.expectedRevision
  let authorityEpoch ← timestamp "authorityEpoch" input.authorityEpoch
  Tx.ensure (1 ≤ authorityEpoch) "authorityEpoch must be positive"
  let startedAt ← timestamp "startedAt" input.startedAt
  let head ← Tx.read Store.head
  Tx.ensure (head.revision = expectedRevision) "stale continuation head"
  let state ← Tx.read Store.coordinator
  Tx.ensure (state.active = none) "context branch already active"
  Tx.ensure (state.baseRevision = head.revision ∧ state.predecessor = head.branch)
    "context root coordinator does not match continuation head"
  let localParent ← Tx.read (fun s => s.localParent input.worldId)
  let branch ← createBranch input.branchId input.worldId localParent authorityEpoch startedAt
  insertStart ⟨branch.branchId, branch.worldId, head.revision, head.branch, startedAt⟩
  -- the `WHERE` of the update, and its `changes`
  let current ← Tx.read Store.coordinator
  Tx.ensure (current.active = none ∧ current.baseRevision = head.revision ∧
    current.predecessor = head.branch) "context root coordinator changed during branch start"
  updateCoordinator { current with active := some branch.ref, updatedAt := startedAt }
  let s ← Tx.read id
  let start ← Tx.require (s.starts.get? branch.branchId) "context branch start was not persisted"
  let state ← Tx.read Store.coordinator
  pure (branch, start, state)

def beginCoordinatedBranch (input : BeginInput) :
    Method (Branch × BranchStart × RootCoordinatorState) :=
  Tx.transaction (beginCoordinatedBranchInTransaction input)

def recoverCoordinatedBranch (recoveredAt : ℤ) : Method (Option BranchRecovery) := do
  let at_ ← timestamp "recoveredAt" recoveredAt
  Tx.transaction do
    let state ← Tx.read Store.coordinator
    match state.active with
    | none => pure none
    | some active => do
        let head ← Tx.read Store.head
        Tx.ensure (state.baseRevision = head.revision ∧ state.predecessor = head.branch)
          "active context branch is detached from continuation head"
        let s ← Tx.read id
        let start ← Tx.require (s.starts.get? active.branchId)
          "active context branch start receipt is invalid"
        Tx.ensure (start.worldId = active.worldId ∧ start.baseRevision = state.baseRevision ∧
          start.predecessor = state.predecessor) "active context branch start receipt is invalid"
        let branch ← requireBranch active.branchId
        Tx.ensure (branch.status = .running) ("active context branch is not running: " ++ branch.branchId)
        let effects ← Tx.read (fun s => s.effects.select
          (fun e => decide (e.branchId = branch.branchId ∧ e.status = .prepared)))
        Tx.forEach (fun e => updateEffect e .uncertain at_ none) effects
        let crashed ← updateBranch branch.branchId .crashed at_
        Tx.ensure (crashed = 1) ("context branch could not be recovered: " ++ branch.branchId)
        let recovery : BranchRecovery := ⟨branch.branchId, branch.worldId, start.baseRevision,
          start.predecessor, effects.length, at_⟩
        insertRecovery recovery
        let current ← Tx.read Store.coordinator
        Tx.ensure (current.active = some branch.ref ∧ current.baseRevision = start.baseRevision)
          "context root coordinator could not release crashed branch"
        updateCoordinator { current with active := none, updatedAt := at_ }
        pure (some recovery)

def advanceContinuationHeadInTransaction (expectedRevision : ℕ) (targetBranchId : String)
    (updatedAt : ℕ) : Method ContinuationHead := do
  let current ← Tx.read Store.head
  Tx.ensure (current.revision = expectedRevision) "stale continuation head"
  let target ← requireBranch targetBranchId
  Tx.ensure (target.status = .yielded) ("continuation branch has not yielded: " ++ targetBranchId)
  insertAdvance ⟨expectedRevision + 1, current.branch, target.branchId, target.worldId, updatedAt⟩
  updateHead ⟨some target.ref, expectedRevision + 1, updatedAt⟩
  let state ← Tx.read Store.coordinator
  Tx.ensure (state.baseRevision = expectedRevision ∧ state.predecessor = current.branch ∧
    (state.active = none ∨ state.active = some target.ref))
    "context root coordinator rejected continuation advance"
  updateCoordinator ⟨none, expectedRevision + 1, some target.ref, updatedAt⟩
  Tx.read Store.head

structure ReturnInput where
  branchId : String
  viewManifestHash : String
  privateCapsuleId : String
  rootReceiptCapsuleId : String
  sourceRootHash : String
  privateContent : Option String
  privateParentCapsuleIds : List String
  outcome : String
  commitments : List String
  blockers : List String
  artifactRefs : List String
  endedAt : ℤ

/-- The order of the effects of a branch: `ORDER BY prepared_at, effect_id`. -/
def Effect.before (e e' : Effect) : Prop :=
  e.preparedAt < e'.preparedAt ∨ (e.preparedAt = e'.preparedAt ∧ e.effectId ≤ e'.effectId)

instance : DecidableRel Effect.before := fun e e' =>
  inferInstanceAs (Decidable (e.preparedAt < e'.preparedAt ∨ (_ ∧ e.effectId ≤ e'.effectId)))

def Store.effectsOf (s : Store) (branchId : String) : List Effect :=
  (s.effects.select (fun e => decide (e.branchId = branchId))).insertionSort Effect.before

/-- One receipt of a return: an effect that is still prepared has none. -/
def effectReceipt (e : Effect) : Except String EffectReceipt :=
  if e.status = .prepared then .error "context branch has a prepared effect"
  else
    match e.resolvedAt with
    | none => .error "resolved context effect has no resolution time"
    | some resolvedAt => .ok ⟨e.effectId, e.destinationWorldId, e.kind, e.authorityEpoch,
        e.payloadHash, e.status, e.preparedAt, resolvedAt⟩

def insertCapsuleInTransaction (c : Capsule) (parentCapsuleIds : List String) : Method Capsule := do
  insertCapsule c
  Tx.forEach (fun (parent, ordinal) => insertEdge ⟨c.capsuleId, parent, c.worldId, ordinal⟩)
    parentCapsuleIds.zipIdx
  pure c

structure CoordinatedBranchReturn where
  branch : Branch
  privateCapsule : Capsule
  rootReceipt : Capsule
  head : ContinuationHead

def completeCoordinatedBranch (input : ReturnInput) : Method CoordinatedBranchReturn := do
  Tx.ensure (input.outcome ∈ ["completed", "interrupted", "failed"])
    "invalid context branch return outcome"
  let commitments ← boundedStrings "commitments" input.commitments
  let blockers ← boundedStrings "blockers" input.blockers
  let artifactRefs ← boundedStrings "artifactRefs" input.artifactRefs
  let endedAt ← timestamp "endedAt" input.endedAt
  Tx.transaction do
    let state ← Tx.read Store.coordinator
    let branch ← requireBranch input.branchId
    Tx.ensure (state.active = some branch.ref)
      ("context branch is not coordinator-active: " ++ branch.branchId)
    Tx.ensure (branch.status = .running) ("context branch is not running: " ++ branch.branchId)
    let s ← Tx.read id
    let start ← Tx.require (s.starts.get? branch.branchId) "context branch has no start receipt"
    let head ← Tx.read Store.head
    Tx.ensure (head.revision = start.baseRevision ∧ head.branch = start.predecessor ∧
      state.baseRevision = start.baseRevision ∧ state.predecessor = start.predecessor)
      "context branch return does not match continuation head"
    let manifest ← Tx.require (s.manifests.rows.find?
      (fun m => decide (m.branchId = branch.branchId ∧ m.worldId = branch.worldId)))
      "context branch return does not match its view manifest"
    Tx.ensure (manifest.manifestHash = input.viewManifestHash)
      "context branch return does not match its view manifest"
    let effects ← Tx.ofExcept ((s.effectsOf branch.branchId).mapM effectReceipt)
    let privateJson ← serialize input.privateContent
    let privateCapsule ← insertCapsuleInTransaction
      ⟨input.privateCapsuleId, branch.branchId, branch.worldId, .ofWorld, manifest.manifestHash,
        input.sourceRootHash, manifest.policyGeneration, .json privateJson, endedAt⟩
      input.privateParentCapsuleIds
    let rootReceipt ← insertCapsuleInTransaction
      ⟨input.rootReceiptCapsuleId, branch.branchId, branch.worldId, .rootReceipt,
        manifest.manifestHash, input.sourceRootHash, manifest.policyGeneration,
        .rootReturn ⟨branch.branchId, branch.worldId, manifest.manifestHash, input.outcome,
          branch.authorityEpoch, privateCapsule.capsuleId, effects, commitments, blockers,
          artifactRefs⟩, endedAt⟩ []
    let finished ← updateBranch branch.branchId .yielded endedAt
    Tx.ensure (finished = 1) ("branch is not running: " ++ branch.branchId)
    let branch ← requireBranch branch.branchId
    let advanced ← advanceContinuationHeadInTransaction start.baseRevision branch.branchId endedAt
    pure ⟨branch, privateCapsule, rootReceipt, advanced⟩

structure EffectInput where
  effectId : String
  branchId : String
  worldId : String
  destinationWorldId : String
  kind : String
  authorityEpoch : ℤ
  payload : Option String
  idempotencyKey : Option String
  preparedAt : ℤ

def requireEffect (effectId : String) : Method Effect := do
  let s ← Tx.read id
  Tx.require (s.effects.get? effectId) ("unknown effect: " ++ effectId)

def prepareEffect (hash : String → String) (input : EffectInput) : Method Effect := do
  let payloadJson ← serialize input.payload
  let authorityEpoch ← timestamp "authorityEpoch" input.authorityEpoch
  let preparedAt ← timestamp "preparedAt" input.preparedAt
  insertEffect ⟨input.effectId, input.branchId, input.worldId, input.destinationWorldId, input.kind,
    authorityEpoch, payloadJson, hash payloadJson, input.idempotencyKey, .prepared, preparedAt, none,
    none⟩
  requireEffect input.effectId

/-- What `resolveEffect` may report. -/
inductive Resolution where
  | observed | failed
deriving DecidableEq, Repr

def Resolution.status : Resolution → EffectStatus
  | .observed => .observed
  | .failed => .failed

/-- `resolveEffect`; the observation is absent, or its JSON. -/
def resolveEffect (effectId : String) (resolution : Resolution) (resolvedAt : ℤ)
    (observation : Option (Option String)) : Method Effect := do
  let observationJson ← Tx.onSome observation serialize
  let resolvedAt ← timestamp "resolvedAt" resolvedAt
  let s ← Tx.read id
  let e ← Tx.require (s.effects.get? effectId) ("effect is not prepared: " ++ effectId)
  Tx.ensure (e.status = .prepared) ("effect is not prepared: " ++ effectId)
  updateEffect e resolution.status resolvedAt observationJson
  requireEffect effectId

def recoverPreparedEffects (recoveredAt : ℤ) : Method (List Effect) := do
  let at_ ← timestamp "recoveredAt" recoveredAt
  Tx.transaction do
    let rows ← Tx.read (fun s =>
      (s.effects.select (fun e => decide (e.status = .prepared))).insertionSort Effect.before)
    Tx.forEach (fun e => updateEffect e .uncertain at_ none) rows
    pure (rows.map (fun e =>
      { e with status := .uncertain, resolvedAt := some at_, observationJson := none }))

end Elpis.Context
