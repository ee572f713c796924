import Elpis.Mind.Store

/-!
# The Mind store: a failed call changes nothing

Most methods put their writes in a transaction, so a throw inside undoes them.
The others run every check that can fail before their first write: after it only
statements are left that SQLite has no reason to refuse. Either way the
database a throwing call leaves is the one it found.
-/

namespace Elpis.Mind

open Elpis.Lib Tx

/-! ## Checks write nothing -/

theorem readOnly_assertText {value field : String} {max : ℕ} {allowEmpty : Bool} :
    ReadOnly (assertText value field max allowEmpty) :=
  (readOnly_ensure _ _).bind fun _ => readOnly_ensure _ _

theorem readOnly_requireId (id : MindId) : ReadOnly (requireId id) :=
  (readOnly_ensure _ _).bind fun _ => (readOnly_read _).bind fun _ => readOnly_ensure _ _

theorem readOnly_requireItem (id : MindId) : ReadOnly (requireItem id) :=
  (readOnly_read _).bind fun _ => readOnly_require _ _

theorem readOnly_requireComment (commentId : ℕ) : ReadOnly (requireComment commentId) :=
  (readOnly_read _).bind fun _ => readOnly_require _ _

theorem readOnly_assertNoParentCycle (id parentId : MindId) :
    ReadOnly (assertNoParentCycle id parentId) :=
  (readOnly_ensure _ _).bind fun _ => (readOnly_read _).bind fun _ => readOnly_ensure _ _

theorem readOnly_forEach {β : Type} {body : β → MindM Unit} (h : ∀ x, ReadOnly (body x)) :
    ∀ xs, ReadOnly (forEach body xs)
  | [] => readOnly_pure ()
  | x :: xs => (h x).bind fun _ => readOnly_forEach h xs

theorem readOnly_checkPatch {u : Js.Unicode} {id : MindId} {current : MindStatus}
    {patch : UpdateMindItem} : ReadOnly (checkPatch u id current patch) := by
  refine (readOnly_onSome fun _ =>
    readOnly_assertText.bind fun _ => readOnly_pure _).bind fun _ => ?_
  refine (readOnly_onSome fun _ =>
    readOnly_assertText.bind fun _ => readOnly_pure _).bind fun _ => ?_
  refine (readOnly_onSome fun _ => readOnly_ofExcept _).bind fun _ => ?_
  refine (readOnly_onSome fun _ => (readOnly_ofExcept _).bind fun _ =>
    (readOnly_ofExcept _).bind fun _ => readOnly_pure _).bind fun _ => ?_
  refine (readOnly_onSome fun _ => readOnly_ofExcept _).bind fun _ => ?_
  refine (readOnly_onSome fun _ =>
    (readOnly_ensure _ _).bind fun _ => readOnly_ofExcept _).bind fun _ => ?_
  refine (readOnly_onSome fun _ => readOnly_onSome fun _ => (readOnly_requireId _).bind fun _ =>
    (readOnly_assertNoParentCycle _ _).bind fun _ => readOnly_pure _).bind fun _ => ?_
  refine (readOnly_onSome fun _ =>
    (readOnly_ofExcept _).bind fun _ => readOnly_pure _).bind fun _ => ?_
  exact readOnly_pure _

/-! ## Statements that are never refused -/

theorem total_event {id : MindId} {actor : String} {data : MindEventData} {now : Time} :
    Total (event id actor data now) := total_write _

theorem total_addCommentInternal {id : MindId} {body author : String} {now : Time}
    {replyToId : Option ℕ} : Total (addCommentInternal id body author now replyToId) :=
  (total_read _).bind fun _ => (total_write _).bind fun _ => (total_write _).bind fun _ =>
    total_event.bind fun _ => total_pure _

theorem total_onSome {α β : Type} {x : Option α} {f : α → MindM β} (h : ∀ a, Total (f a)) :
    Total (onSome x f) := by
  cases x with
  | none => exact total_pure none
  | some a => exact (h a).bind fun _ => total_pure _

theorem total_when {c : Prop} [Decidable c] {m : MindM Unit} (h : Total m) :
    Total (when c m) := by
  unfold when
  split
  · exact h
  · exact total_pure ()

theorem atomic_updateItem {columns : SetColumns} {id : MindId} {f : MindRow → MindRow}
    {hf : ∀ r, (f r).id = r.id} : Atomic (updateItem columns id f hf) :=
  (readOnly_read _).bind_atomic fun _ => (readOnly_read _).bind_atomic fun _ =>
    (readOnly_ensure _ _).bind_atomic fun _ => (readOnly_ensure _ _).bind_atomic fun _ =>
      (readOnly_ensure _ _).bind_atomic fun _ => (total_write _).atomic

theorem atomic_insertReminder {itemId : MindId} {scheduledTaskId : ℕ} {fireAt : ℚ}
    {channelId : Option String} {createdBy : String} {now : Time} :
    Atomic (insertReminder itemId scheduledTaskId fireAt channelId createdBy now) := by
  refine (readOnly_read _).bind_atomic fun _ => (readOnly_read _).bind_atomic fun _ =>
    (readOnly_read _).bind_atomic fun _ => ?_
  refine (readOnly_ensure _ _).bind_atomic fun _ => (readOnly_ensure _ _).bind_atomic fun _ =>
    (readOnly_ensure _ _).bind_atomic fun _ => ?_
  exact ((total_read _).bind fun _ => (total_write _).bind fun _ => total_pure _).atomic

/-! ## Methods -/

/-- A transaction and the detail read after it. -/
theorem atomic_committed {α β : Type} (m : MindM α) (f : α → MindDb → β) :
    Atomic (transaction m >>= fun a => read (f a)) :=
  (atomic_transaction m).bind_total fun _ => total_read _

theorem atomic_create (u : Js.Unicode) (opts : CreateMindItem) (draws : List ℕ)
    (clock : Readings) : Atomic (create u opts draws clock) := by
  refine readOnly_assertText.bind_atomic fun _ => ?_
  refine (readOnly_ofExcept _).bind_atomic fun _ => (readOnly_ofExcept _).bind_atomic fun _ =>
    (readOnly_ofExcept _).bind_atomic fun _ => ?_
  refine readOnly_assertText.bind_atomic fun _ => (readOnly_ofExcept _).bind_atomic fun _ => ?_
  refine (readOnly_onSome fun _ => readOnly_requireId _).bind_atomic fun _ => ?_
  refine (readOnly_forEach readOnly_requireId _).bind_atomic fun _ => ?_
  refine (readOnly_ensure _ _).bind_atomic fun _ => (readOnly_ensure _ _).bind_atomic fun _ =>
    (readOnly_ensure _ _).bind_atomic fun _ => (readOnly_ofExcept _).bind_atomic fun _ => ?_
  exact atomic_committed _ _

theorem atomic_claim (id : MindId) (opts : MindClaimOptions) (clock : Readings) :
    Atomic (claim id opts clock) := by
  refine readOnly_assertText.bind_atomic fun _ => readOnly_assertText.bind_atomic
    fun _ => readOnly_assertText.bind_atomic fun _ => ?_
  exact (readOnly_ofExcept _).bind_atomic fun _ => atomic_committed _ _

theorem atomic_resumeClaim (id : MindId) (opts : MindClaimOptions) (clock : Readings) :
    Atomic (resumeClaim id opts clock) := by
  refine readOnly_assertText.bind_atomic fun _ => readOnly_assertText.bind_atomic
    fun _ => readOnly_assertText.bind_atomic fun _ => ?_
  exact (readOnly_ofExcept _).bind_atomic fun _ => atomic_committed _ _

theorem atomic_renewClaim (id : MindId) (principal : String) (ttlMs : Option Js.Num)
    (clock : Readings) : Atomic (renewClaim id principal ttlMs clock) :=
  readOnly_assertText.bind_atomic fun _ => (readOnly_ofExcept _).bind_atomic fun _ =>
    atomic_committed _ _

theorem atomic_releaseClaim (id : MindId) (principal : String) (status : ReleaseStatus)
    (note : String) (clock : Readings) :
    Atomic (releaseClaim id principal status note clock) :=
  readOnly_assertText.bind_atomic fun _ => readOnly_assertText.bind_atomic fun _ =>
    atomic_committed _ _

theorem atomic_logClaim (id : MindId) (principal owner kind body : String)
    (ttlMs : Option Js.Num) (clock : Readings) :
    Atomic (logClaim id principal owner kind body ttlMs clock) := by
  refine readOnly_assertText.bind_atomic fun _ => readOnly_assertText.bind_atomic
    fun _ => readOnly_assertText.bind_atomic fun _ => ?_
  exact (readOnly_ofExcept _).bind_atomic fun _ => (readOnly_ofExcept _).bind_atomic fun _ =>
    atomic_committed _ _

theorem atomic_finishClaim (id : MindId)
    (principal owner result verification omissions : String) (clock : Readings) :
    Atomic (finishClaim id principal owner result verification omissions clock) := by
  refine readOnly_assertText.bind_atomic fun _ => readOnly_assertText.bind_atomic
    fun _ => readOnly_assertText.bind_atomic fun _ => ?_
  refine readOnly_assertText.bind_atomic fun _ => readOnly_assertText.bind_atomic
    fun _ => readOnly_assertText.bind_atomic fun _ => ?_
  exact atomic_committed _ _

theorem atomic_update (u : Js.Unicode) (id : MindId) (patch : UpdateMindItem) (actor : String)
    (clock : Readings) : Atomic (update u id patch actor clock) := by
  refine (readOnly_requireId _).bind_atomic fun _ => (readOnly_requireItem _).bind_atomic
    fun _ => (readOnly_read _).bind_atomic fun _ => ?_
  exact readOnly_checkPatch.bind_atomic fun _ => atomic_committed _ _

theorem atomic_archive (id : MindId) (actor : String) (clock : Readings) :
    Atomic (archive id actor clock) :=
  (readOnly_requireId _).bind_atomic fun _ => atomic_committed _ _

theorem atomic_restore (id : MindId) (actor : String) (clock : Readings) :
    Atomic (restore id actor clock) :=
  (readOnly_requireId _).bind_atomic fun _ => atomic_updateItem.bind_total fun _ =>
    total_event.bind fun _ => total_read _

theorem atomic_addDependency (id dependsOnId : MindId) (actor : String) (clock : Readings) :
    Atomic (addDependency id dependsOnId actor clock) :=
  (readOnly_requireId _).bind_atomic fun _ => (readOnly_requireId _).bind_atomic fun _ =>
    atomic_committed _ _

theorem atomic_removeDependency (id dependsOnId : MindId) (actor : String)
    (clock : Readings) : Atomic (removeDependency id dependsOnId actor clock) := by
  refine (readOnly_requireId _).bind_atomic fun _ => (readOnly_read _).bind_atomic fun _ => ?_
  refine ((total_write _).bind fun _ => ?_).atomic
  exact (total_when ((total_write _).bind fun _ => total_event)).bind fun _ => total_read _

theorem atomic_addComment (id : MindId) (body author : String) (clock : Readings) :
    Atomic (addComment id body author clock) :=
  (readOnly_requireId _).bind_atomic fun _ => readOnly_assertText.bind_atomic fun _ =>
    total_addCommentInternal.atomic

theorem atomic_addReply (id : MindId) (replyToId : ℕ) (body author : String)
    (clock : Readings) : Atomic (addReply id replyToId body author clock) := by
  refine (readOnly_requireId _).bind_atomic fun _ => readOnly_assertText.bind_atomic
    fun _ => (readOnly_requireComment _).bind_atomic fun _ => ?_
  exact (readOnly_ensure _ _).bind_atomic fun _ => total_addCommentInternal.atomic

theorem atomic_updateComment (commentId : ℕ) (body author : String) (clock : Readings) :
    Atomic (updateComment commentId body author clock) := by
  refine readOnly_assertText.bind_atomic fun _ => (readOnly_requireComment _).bind_atomic
    fun _ => ?_
  exact ((total_write _).bind fun _ => (total_write _).bind fun _ =>
    total_event.bind fun _ => total_pure _).atomic

theorem atomic_deleteComment (commentId : ℕ) (actor : String) (clock : Readings) :
    Atomic (deleteComment commentId actor clock) := by
  refine (readOnly_read _).bind_atomic fun row => ?_
  cases row with
  | none => exact (total_pure false).atomic
  | some row =>
      exact ((total_write _).bind fun _ => (total_write _).bind fun _ =>
        total_event.bind fun _ => total_pure _).atomic

theorem atomic_addTag (u : Js.Unicode) (id : MindId) (tag actor : String) (clock : Readings) :
    Atomic (addTag u id tag actor clock) := by
  refine (readOnly_requireId _).bind_atomic fun _ => (readOnly_ofExcept _).bind_atomic
    fun _ => (readOnly_read _).bind_atomic fun _ => ?_
  exact ((total_onSome fun _ => (total_write _).bind fun _ => total_event).bind
    fun _ => total_read _).atomic

theorem atomic_removeTag (u : Js.Unicode) (id : MindId) (tag actor : String)
    (clock : Readings) : Atomic (removeTag u id tag actor clock) := by
  refine (readOnly_requireId _).bind_atomic fun _ => (readOnly_ofExcept _).bind_atomic
    fun _ => (readOnly_read _).bind_atomic fun _ => ?_
  exact ((total_write _).bind fun _ => (total_when total_event).bind
    fun _ => total_read _).atomic

theorem atomic_createReminderRecord (itemId : MindId) (scheduledTaskId : ℕ) (fireAt : ℚ)
    (channelId : Option String) (createdBy : String) (clock : Readings) :
    Atomic (createReminderRecord itemId scheduledTaskId fireAt channelId createdBy clock) :=
  (readOnly_requireItem _).bind_atomic fun _ => (readOnly_ensure _ _).bind_atomic fun _ =>
    atomic_insertReminder.bind_total fun _ => total_event.bind fun _ => total_read _

theorem atomic_markReminderFiredByTask (scheduledTaskId : ℕ) (clock : Readings) :
    Atomic (markReminderFiredByTask scheduledTaskId clock) :=
  ((total_read _).bind fun _ => (total_onSome fun _ => (total_write _).bind fun _ =>
    total_event).bind fun _ => total_pure ()).atomic

theorem atomic_cancelReminderRecord (id : ℕ) (actor : String) (clock : Readings) :
    Atomic (cancelReminderRecord id actor clock) :=
  ((total_read _).bind fun _ => (total_onSome fun _ => (total_write _).bind fun _ =>
    total_event).bind fun _ => total_read _).atomic

theorem atomic_updateReminderRecord (id : ℕ) (fireAt : ℚ) (actor : String)
    (clock : Readings) : Atomic (updateReminderRecord id fireAt actor clock) := by
  refine (readOnly_read _).bind_atomic fun _ => (readOnly_require _ _).bind_atomic fun _ => ?_
  exact ((total_write _).bind fun _ => total_event.bind fun _ => total_read _).atomic

theorem atomic_effect {α : Type} {m : MindM α} (h : Atomic m) : Atomic (effect m) :=
  h.bind_total fun _ => total_pure ()

/-- **A call that throws leaves the database as it was.** -/
theorem atomic_exec (u : Js.Unicode) (call : MindCall) : Atomic (call.exec u) := by
  cases call with
  | create opts draws clock => exact atomic_effect (atomic_create u opts draws clock)
  | claim id opts clock => exact atomic_effect (atomic_claim id opts clock)
  | resumeClaim id opts clock => exact atomic_effect (atomic_resumeClaim id opts clock)
  | renewClaim id principal ttlMs clock =>
      exact atomic_effect (atomic_renewClaim id principal ttlMs clock)
  | releaseClaim id principal status note clock =>
      exact atomic_effect (atomic_releaseClaim id principal status note clock)
  | logClaim id principal owner kind body ttlMs clock =>
      exact atomic_effect (atomic_logClaim id principal owner kind body ttlMs clock)
  | finishClaim id principal owner result verification omissions clock =>
      exact atomic_effect
        (atomic_finishClaim id principal owner result verification omissions clock)
  | expireClaims now => exact atomic_effect (atomic_transaction _)
  | update id patch actor clock => exact atomic_effect (atomic_update u id patch actor clock)
  | setStatus id status actor clock => exact atomic_effect (atomic_update u id _ actor clock)
  | archive id actor clock => exact atomic_effect (atomic_archive id actor clock)
  | restore id actor clock => exact atomic_effect (atomic_restore id actor clock)
  | addDependency id dependsOnId actor clock =>
      exact atomic_effect (atomic_addDependency id dependsOnId actor clock)
  | removeDependency id dependsOnId actor clock =>
      exact atomic_effect (atomic_removeDependency id dependsOnId actor clock)
  | addComment id body author clock =>
      exact atomic_effect (atomic_addComment id body author clock)
  | addReply id replyToId body author clock =>
      exact atomic_effect (atomic_addReply id replyToId body author clock)
  | updateComment commentId body author clock =>
      exact atomic_effect (atomic_updateComment commentId body author clock)
  | deleteComment commentId actor clock =>
      exact atomic_effect (atomic_deleteComment commentId actor clock)
  | addTag id tag actor clock => exact atomic_effect (atomic_addTag u id tag actor clock)
  | removeTag id tag actor clock => exact atomic_effect (atomic_removeTag u id tag actor clock)
  | createReminderRecord itemId scheduledTaskId fireAt channelId createdBy clock =>
      exact atomic_effect
        (atomic_createReminderRecord itemId scheduledTaskId fireAt channelId createdBy clock)
  | markReminderFiredByTask scheduledTaskId clock =>
      exact atomic_effect (atomic_markReminderFiredByTask scheduledTaskId clock)
  | cancelReminderRecord id actor clock =>
      exact atomic_effect (atomic_cancelReminderRecord id actor clock)
  | updateReminderRecord id fireAt actor clock =>
      exact atomic_effect (atomic_updateReminderRecord id fireAt actor clock)

/-- What a call leaves behind: the database it found, or the one of a run that
returned. -/
theorem after_cases (u : Js.Unicode) (db : MindDb) (call : MindCall) :
    db.after u call = db ∨ call.exec u db = (.ok (), db.after u call) := by
  unfold MindDb.after
  rcases h : call.exec u db with ⟨e | v, db'⟩
  · exact Or.inl (atomic_exec u call _ _ _ h)
  · exact Or.inr rfl

end Elpis.Mind
