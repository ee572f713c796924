import Elpis.Js.Text
import Elpis.Lib.Table
import Elpis.Lib.Tx

/-!
# The Mind store: rows, tables and errors

The tables of `src/store/db.ts` that `src/store/mind.ts` reads and writes, as
they stand after every migration: seven tables keyed by their primary keys, the
`proposal` status among the statuses, and the guard triggers of
`mind-proposal-migration.ts`. Time is the integer `Date.now()` returns. A due
date is any finite number, because the store accepts one.
-/

namespace Elpis.Mind

open Elpis.Lib

abbrev MindId := String
abbrev Time := ℤ

/-! ## Enumerations -/

inductive MindStatus where
  | proposal | inbox | «open» | inProgress | waiting | done | cancelled
deriving DecidableEq, Repr

/-- `MIND_STATUSES`, in the order of the source. -/
def MindStatus.all : List MindStatus :=
  [.proposal, .inbox, .open, .inProgress, .waiting, .done, .cancelled]

def MindStatus.text : MindStatus → String
  | .proposal => "proposal"
  | .inbox => "inbox"
  | .open => "open"
  | .inProgress => "in_progress"
  | .waiting => "waiting"
  | .done => "done"
  | .cancelled => "cancelled"

inductive MindKind where
  | task | project | idea | question | reminder
deriving DecidableEq, Repr

/-- `MIND_KINDS`. -/
def MindKind.all : List MindKind := [.task, .project, .idea, .question, .reminder]

def MindKind.text : MindKind → String
  | .task => "task"
  | .project => "project"
  | .idea => "idea"
  | .question => "question"
  | .reminder => "reminder"

inductive MindLogKind where
  | progress | decision | result | verification | omission
deriving DecidableEq, Repr

/-- `MIND_LOG_KINDS`. -/
def MindLogKind.all : List MindLogKind :=
  [.progress, .decision, .result, .verification, .omission]

def MindLogKind.text : MindLogKind → String
  | .progress => "progress"
  | .decision => "decision"
  | .result => "result"
  | .verification => "verification"
  | .omission => "omission"

/-- The label `logClaim` puts before a log comment. -/
def MindLogKind.label : MindLogKind → String
  | .progress => "Progress"
  | .decision => "Decision"
  | .result => "Result"
  | .verification => "Verification"
  | .omission => "Omission"

/-- The statuses a claim may be released to. -/
inductive ReleaseStatus where
  | «open» | waiting
deriving DecidableEq, Repr

def ReleaseStatus.toStatus : ReleaseStatus → MindStatus
  | .open => .open
  | .waiting => .waiting

/-- `ACTIVE_STATUSES`. -/
def MindStatus.active : MindStatus → Bool
  | .inbox | .open | .inProgress | .waiting => true
  | _ => false

/-- The statuses that close an item. -/
def MindStatus.closed : MindStatus → Bool
  | .done | .cancelled => true
  | _ => false

/-! ## Rows -/

/-- `mind_items`. -/
structure MindRow where
  id : MindId
  title : String
  body : String
  kind : MindKind
  status : MindStatus
  priority : ℤ
  parentId : Option MindId
  dueAt : Option ℚ
  createdBy : String
  createdAt : Time
  updatedAt : Time
  closedAt : Option Time
  archivedAt : Option Time
deriving DecidableEq

/-- `mind_dependencies`. -/
structure DependencyRow where
  itemId : MindId
  dependsOnId : MindId
  createdBy : String
  createdAt : Time
deriving DecidableEq

/-- `PRIMARY KEY (item_id, depends_on_id)`. -/
def DependencyRow.key (r : DependencyRow) : MindId × MindId := (r.itemId, r.dependsOnId)

/-- `mind_tags`. -/
structure TagRow where
  itemId : MindId
  tag : String
deriving DecidableEq

/-- `PRIMARY KEY (item_id, tag)`. -/
def TagRow.key (r : TagRow) : MindId × String := (r.itemId, r.tag)

/-- `mind_comments`. -/
structure CommentRow where
  id : ℕ
  itemId : MindId
  author : String
  body : String
  replyToId : Option ℕ
  createdAt : Time
  updatedAt : Option Time
  deletedAt : Option Time
deriving DecidableEq

/-- `mind_reminders`. -/
structure ReminderRow where
  id : ℕ
  itemId : MindId
  scheduledTaskId : ℕ
  fireAt : ℚ
  channelId : Option String
  createdBy : String
  createdAt : Time
  firedAt : Option Time
  cancelledAt : Option Time
deriving DecidableEq

/-- `fired_at IS NULL AND cancelled_at IS NULL`. -/
def ReminderRow.pending (r : ReminderRow) : Bool :=
  r.firedAt.isNone && r.cancelledAt.isNone

/-- `mind_claims`. -/
structure ClaimRow where
  itemId : MindId
  owner : String
  principal : String
  claimedAt : Time
  renewedAt : Time
  expiresAt : Time
deriving DecidableEq

/-! ## Events

The type of an event and its `data_json`, one constructor for each pair of a
type and a shape of data the store writes. -/

structure MindProposalIntake where
  requester : String
  source : String
  sessionId : String
deriving DecidableEq

/-- `pickItemSnapshot`. -/
structure ItemSnapshot where
  title : String
  body : String
  kind : MindKind
  status : MindStatus
  priority : ℤ
  parentId : Option MindId
  dueAt : Option ℚ
  tags : List String
deriving DecidableEq

/-- The fields an update changed, as its event records them. -/
structure ChangedFields where
  title : Option String
  body : Option String
  kind : Option MindKind
  status : Option MindStatus
  priority : Option ℤ
  dueAt : Option (Option ℚ)
  parentId : Option (Option MindId)
  tags : Option (List String)
deriving DecidableEq

/-- `Object.keys(changed).length`. -/
def ChangedFields.count (c : ChangedFields) : ℕ :=
  c.title.isSome.toNat + c.body.isSome.toNat + c.kind.isSome.toNat +
    c.status.isSome.toNat + c.priority.isSome.toNat + c.dueAt.isSome.toNat +
    c.parentId.isSome.toNat + c.tags.isSome.toNat

inductive MindEventData where
  | itemCreated (created : ItemSnapshot) (body : Option String)
      (proposalIntake : Option MindProposalIntake) (dependsOn : List MindId)
  | itemStatus (before : ItemSnapshot) (patch : ChangedFields)
  | itemUpdated (before : ItemSnapshot) (patch : ChangedFields)
  | itemArchived
  | itemRestored
  | claimStarted (expiresAt : Time) (previousExpiredOwner : Option String)
  | claimResumed (expiresAt : Time) (commentId : ℕ)
  | claimRenewed (expiresAt : Time)
  | claimExpired (owner : String) (expiredAt : Time)
  | claimReleased (status : MindStatus)
  | claimBlocked (status : MindStatus)
  | claimLogged (kind : MindLogKind) (expiresAt : Time)
  | claimCompleted (commentId : ℕ)
  | claimRevoked (owner : String) (status : MindStatus) (kind : MindKind)
  | claimRevokedByArchive (owner : String)
  | dependencyAdded (dependsOnId : MindId)
  | dependencyRemoved (dependsOnId : MindId)
  | commentAdded (commentId : ℕ) (replyToId : Option ℕ)
  | commentUpdated (commentId : ℕ)
  | commentDeleted (commentId : ℕ)
  | tagAdded (tag : String)
  | tagRemoved (tag : String)
  | reminderAdded (reminderId scheduledTaskId : ℕ) (fireAt : ℚ) (channelId : Option String)
  | reminderFired (reminderId scheduledTaskId : ℕ)
  | reminderCancelled (reminderId scheduledTaskId : ℕ)
  | reminderSnoozed (reminderId : ℕ) (fireAt : ℚ)
deriving DecidableEq

/-- `mind_events`. -/
structure EventRow where
  id : ℕ
  itemId : MindId
  actor : String
  data : MindEventData
  createdAt : Time
deriving DecidableEq

/-! ## The database -/

structure MindDb where
  items : Table MindRow.id
  dependencies : Table DependencyRow.key
  tags : Table TagRow.key
  comments : AutoTable CommentRow.id
  events : AutoTable EventRow.id
  reminders : AutoTable ReminderRow.id
  claims : Table ClaimRow.itemId
deriving DecidableEq

def MindDb.empty : MindDb :=
  ⟨Table.empty, Table.empty, Table.empty, AutoTable.empty, AutoTable.empty,
    AutoTable.empty, Table.empty⟩

/-! ## Errors -/

inductive MindError where
  | emptyText (field : String)
  | longText (field : String) (max : ℕ)
  | invalidStatus (value : String)
  | invalidKind (value : String)
  | invalidLogKind (value : String)
  | invalidPriority
  | invalidTag (value : String)
  | invalidTtl
  | invalidDueAt
  | invalidIntake
  | invalidId (id : String)
  | noItem (id : MindId)
  | noSuchItem (id : MindId)
  | archived (id : MindId)
  | notTask (id : MindId) (kind : MindKind)
  | notOpenWork (id : MindId) (status : MindStatus)
  | notWaiting (id : MindId) (status : MindStatus)
  | blocked (id : MindId)
  | becameBlocked (id : MindId)
  | claimedUntil (id : MindId) (owner : String) (expiresAt : Time)
  | claimedBy (id : MindId) (owner : String)
  | outsideClaim (id : MindId)
  | noActiveClaim (id : MindId)
  | claimedByOther (id : MindId)
  | proposalTransition (next : MindStatus)
  | normalToProposal
  | proposalDueDate
  | proposalDependency
  | proposalReminder
  | selfDependency
  | dependencyCycle (id dependsOnId : MindId)
  | selfParent
  | parentCycle (parentId : MindId)
  | noComment (commentId : ℕ)
  | commentElsewhere (commentId : ℕ) (id : MindId)
  | noReminder (reminderId : ℕ)
  /-- A statement SQLite refuses: a key, a reference or a trigger. -/
  | constraint (message : String)
  /-- The loop that draws an identity has not met a free one yet. -/
  | drawing
deriving DecidableEq

/-- The text of the error the source throws. -/
def MindError.message : MindError → String
  | .emptyText field => "mind: " ++ field ++ " must not be empty"
  | .longText field max =>
      "mind: " ++ field ++ " must be at most " ++ toString max ++ " characters"
  | .invalidStatus value =>
      "mind: invalid status " ++ Js.stringify value ++ " (expected " ++
        "|".intercalate (MindStatus.all.map MindStatus.text) ++ ")"
  | .invalidKind value =>
      "mind: invalid kind " ++ Js.stringify value ++ " (expected " ++
        "|".intercalate (MindKind.all.map MindKind.text) ++ ")"
  | .invalidLogKind value => "mind: invalid log kind " ++ Js.stringify value
  | .invalidPriority => "mind: priority must be an integer from 0 to 4"
  | .invalidTag value => "mind: invalid tag " ++ Js.stringify value
  | .invalidTtl => "mind: claim ttlMs must be between 1 minute and 4 hours"
  | .invalidDueAt => "mind: dueAt must be finite epoch-ms or null"
  | .invalidIntake => "mind: proposal intake metadata is invalid"
  | .invalidId id => "mind: invalid item id " ++ Js.stringify id
  | .noItem id => "mind: no item " ++ id
  | .noSuchItem id => "mind: no item #" ++ id
  | .archived id => "mind: item #" ++ id ++ " is archived"
  | .notTask id kind =>
      "mind: item #" ++ id ++ " is a " ++ kind.text ++ ", not an executable task"
  | .notOpenWork id status =>
      "mind: item #" ++ id ++ " is " ++ status.text ++ ", not open work"
  | .notWaiting id status =>
      "mind: item #" ++ id ++ " is " ++ status.text ++ ", not waiting"
  | .blocked id => "mind: item #" ++ id ++ " is blocked by dependencies"
  | .becameBlocked id => "mind: item #" ++ id ++ " became blocked by dependencies"
  | .claimedUntil id owner expiresAt =>
      "mind: item #" ++ id ++ " is claimed by " ++ owner ++ " until " ++
        Js.isoDate expiresAt
  | .claimedBy id owner => "mind: item #" ++ id ++ " is claimed by " ++ owner
  | .outsideClaim id =>
      "mind: item #" ++ id ++ " is already in progress outside an MCP claim"
  | .noActiveClaim id => "mind: item #" ++ id ++ " has no active claim"
  | .claimedByOther id =>
      "mind: item #" ++ id ++ " is claimed by another collaborator"
  | .proposalTransition next =>
      "mind: proposal items can transition only to inbox, open, or cancelled (got " ++
        next.text ++ ")"
  | .normalToProposal => "mind: normal items cannot transition to proposal"
  | .proposalDueDate => "mind: proposal items cannot have a due date"
  | .proposalDependency => "mind: proposal items cannot have readiness dependencies"
  | .proposalReminder => "mind: proposal items cannot have reminders"
  | .selfDependency => "mind: an item cannot depend on itself"
  | .dependencyCycle id dependsOnId =>
      "mind: dependency #" ++ id ++ " → #" ++ dependsOnId ++ " would create a cycle"
  | .selfParent => "mind: an item cannot be its own parent"
  | .parentCycle parentId => "mind: parent #" ++ parentId ++ " would create a cycle"
  | .noComment commentId => "mind: no comment #" ++ toString commentId
  | .commentElsewhere commentId id =>
      "mind: comment #" ++ toString commentId ++ " does not belong to item " ++ id
  | .noReminder reminderId => "mind: no reminder #" ++ toString reminderId
  | .constraint message => message
  | .drawing => ""

abbrev MindM := Tx MindDb MindError

end Elpis.Mind
