import Elpis.Mind.Rollback

/-!
# What the store's methods do to reminders

No method but the four on reminder records touches a reminder. Items never go, and an item is
closed by finishing its claim or by an update of its own only.
-/

namespace Elpis.Mind

open Elpis.Lib

/-- The reminders stay, every item stays, and only `P` says which items may be closed. -/
structure Quiet (P : MindId → Prop) (db db' : MindDb) : Prop where
  reminders : db'.reminders = db.reminders
  kept : ∀ id row, db.items.get? id = some row →
    ∃ row', db'.items.get? id = some row' ∧ (row'.status.closed = true → row.status.closed = true ∨ P id)

namespace Quiet

variable {P : MindId → Prop} {db : MindDb}

instance : IsPreorder MindDb (Quiet P) where
  refl _ := ⟨rfl, fun _ row h => ⟨row, h, Or.inl⟩⟩
  trans := by
    intro db db' db'' h h'
    refine ⟨h'.reminders.trans h.reminders, ?_⟩
    intro id row hrow
    obtain ⟨row', hrow', hclosed⟩ := h.kept id row hrow
    obtain ⟨row'', hrow'', hclosed'⟩ := h'.kept id row' hrow'
    refine ⟨row'', hrow'', ?_⟩
    intro hc
    rcases hclosed' hc with hc | hP
    · exact hclosed hc
    · exact Or.inr hP

theorem same {db' : MindDb} (hitems : db'.items = db.items) (hreminders : db'.reminders = db.reminders) :
    Quiet P db db' := by
  refine ⟨hreminders, ?_⟩
  intro id row h
  exact ⟨row, hitems ▸ h, Or.inl⟩

theorem setItem {id : MindId} {f : MindRow → MindRow} {hf : ∀ r, (f r).id = r.id}
    (hclosed : ∀ r, (f r).status.closed = true → r.status.closed = true ∨ P id) : Quiet P db (db.setItem id f hf) := by
  refine ⟨rfl, ?_⟩
  intro j row h
  have hid : row.id = j := Table.key_of_get? h
  refine ⟨if row.id = id then f row else row, ?_, ?_⟩
  · show (db.items.update _ f hf).get? j = _
    rw [Table.get?_update, h]
    simp
  · by_cases heq : row.id = id
    · rw [if_pos heq, ← hid, heq]
      exact hclosed row
    · rw [if_neg heq]
      exact Or.inl

theorem insertItem {row : MindRow} {items : Table MindRow.id} (h : db.items.insert? row = some items) :
    Quiet P db { db with items } := by
  refine ⟨rfl, ?_⟩
  intro id old hold
  obtain ⟨fresh, rfl⟩ := Table.insert?_eq_some.mp h
  refine ⟨old, ?_, Or.inl⟩
  have hne : id ≠ row.id := by
    rintro rfl
    exact fresh old (Table.mem_of_get? hold) (Table.key_of_get? hold)
  show (db.items.insert row fresh).get? id = _
  rw [Table.get?_insert, if_neg hne, hold]

end Quiet

/-- The methods that `MindService` passes on to the store with no more to it. -/
def MindCall.passed : MindCall → Bool
  | .create .. | .finishClaim .. | .update .. | .setStatus .. | .createReminderRecord ..
  | .markReminderFiredByTask .. | .cancelReminderRecord .. | .updateReminderRecord .. => false
  | _ => true

/-! ## Statements -/

variable {body author : String}

section Statements
variable {P : MindId → Prop} {id : MindId} {actor : String} {now : Time} {at' : Time}

theorem quiet_event {itemId : MindId} {data : MindEventData} :
    Tx.Along (Quiet P) (event itemId actor data at') :=
  Tx.Along.write (fun _ => Quiet.same rfl rfl)

theorem quiet_touch : Tx.Along (Quiet P) (Tx.write (fun db => db.touch id at') : MindM Unit) :=
  Tx.Along.write (fun _ => Quiet.setItem (fun _ => Or.inl))

theorem quiet_dropClaim : Tx.Along (Quiet P) (Tx.write (fun db => db.dropClaim id) : MindM Unit) :=
  Tx.Along.write (fun _ => Quiet.same rfl rfl)

theorem quiet_setClaim {f : ClaimRow → ClaimRow} {hf : ∀ r, (f r).itemId = r.itemId} :
    Tx.Along (Quiet P) (Tx.write (fun db => db.setClaim id f hf) : MindM Unit) :=
  Tx.Along.write (fun _ => Quiet.same rfl rfl)

theorem quiet_write {f : MindDb → MindDb} (hitems : ∀ db, (f db).items = db.items)
    (hreminders : ∀ db, (f db).reminders = db.reminders) : Tx.Along (Quiet P) (Tx.write f : MindM Unit) :=
  Tx.Along.write (fun db => Quiet.same (hitems db) (hreminders db))

theorem quiet_addCommentRow {itemId : MindId} {author body : String} {replyToId : Option ℕ} :
    Tx.Along (Quiet P) (Tx.write (fun db => db.addComment itemId author body replyToId at') : MindM Unit) :=
  quiet_write (fun _ => rfl) (fun _ => rfl)

theorem quiet_dropTags {p : TagRow → Bool} : Tx.Along (Quiet P) (Tx.write (fun db => db.dropTags p) : MindM Unit) :=
  quiet_write (fun _ => rfl) (fun _ => rfl)

theorem quiet_addCommentInternal {replyToId : Option ℕ} :
    Tx.Along (Quiet P) (addCommentInternal id body author at' replyToId) :=
  (Tx.Along.read _).bind (fun _ => quiet_addCommentRow.bind (fun _ =>
    quiet_touch.bind (fun _ => quiet_event.bind (fun _ => Tx.Along.pure _))))

theorem quiet_updateItem {columns : SetColumns} {f : MindRow → MindRow} {hf : ∀ r, (f r).id = r.id}
    (hclosed : ∀ r, (f r).status.closed = true → r.status.closed = true ∨ P id) :
    Tx.Along (Quiet P) (updateItem columns id f hf) :=
  (Tx.Along.read _).bind (fun _ => (Tx.Along.read _).bind (fun _ => (Tx.Along.ensure _ _).bind (fun _ =>
    (Tx.Along.ensure _ _).bind (fun _ => (Tx.Along.ensure _ _).bind (fun _ =>
      Tx.Along.write (fun _ => Quiet.setItem hclosed))))))

theorem quiet_insertItem {row : MindRow} : Tx.Along (Quiet P) (insertItem row) := by
  refine (Tx.Along.read _).bind (fun _ => (Tx.Along.ensure _ _).bind (fun _ => (Tx.Along.ensure _ _).bind (fun _ => ?_)))
  intro db
  simp only [Tx.wp_bind, Tx.wp_read, Tx.wp_require, Tx.wp_write]
  exact ⟨fun items h => Quiet.insertItem h, fun _ => refl_of (Quiet P) db⟩

theorem quiet_insertTag {itemId : MindId} {tag : String} : Tx.Along (Quiet P) (insertTag itemId tag) := by
  refine (Tx.Along.read _).bind (fun _ => (Tx.Along.of_readOnly (Tx.readOnly_require _ _)).bind (fun _ => ?_))
  exact quiet_write (fun _ => rfl) (fun _ => rfl)

theorem quiet_insertClaim {row : ClaimRow} : Tx.Along (Quiet P) (insertClaim row) :=
  (Tx.Along.read _).bind (fun _ => (Tx.Along.ensure _ _).bind (fun _ => (Tx.Along.ensure _ _).bind (fun _ =>
    (Tx.Along.read _).bind (fun _ => (Tx.Along.of_readOnly (Tx.readOnly_require _ _)).bind (fun _ =>
      quiet_write (fun _ => rfl) (fun _ => rfl))))))

theorem quiet_insertDependency {row : DependencyRow} : Tx.Along (Quiet P) (insertDependency row) := by
  refine (Tx.Along.read _).bind (fun _ => (Tx.Along.read _).bind (fun _ => (Tx.Along.ensure _ _).bind (fun _ =>
    (Tx.Along.ensure _ _).bind (fun _ => (Tx.Along.read _).bind (fun inserted => ?_)))))
  cases inserted with
  | none => exact Tx.Along.pure _
  | some dependencies =>
      refine Tx.Along.bind ?_ (fun _ => Tx.Along.pure _)
      exact quiet_write (fun _ => rfl) (fun _ => rfl)

theorem quiet_addDependencyInternal {id dependsOnId : MindId} :
    Tx.Along (Quiet P) (addDependencyInternal actor at' id dependsOnId) :=
  (Tx.Along.read _).bind (fun _ => (Tx.Along.ensure _ _).bind (fun _ => (Tx.Along.ensure _ _).bind (fun _ =>
    (Tx.Along.read _).bind (fun _ => (Tx.Along.ensure _ _).bind (fun _ => quiet_insertDependency.bind (fun _ =>
      Tx.Along.when quiet_event))))))

theorem quiet_revokeClaim {data : String → MindEventData} :
    Tx.Along (Quiet P) (revokeClaim id actor data now) :=
  (Tx.Along.read _).bind (fun _ => (Tx.Along.onSome (fun _ => quiet_dropClaim.bind (fun _ => quiet_event))).bind
    (fun _ => Tx.Along.pure _))

theorem quiet_requireExecutableTask : Tx.Along (Quiet P) (requireExecutableTask id) :=
  (Tx.Along.of_readOnly (readOnly_requireItem id)).bind (fun _ => (Tx.Along.ensure _ _).bind (fun _ =>
    (Tx.Along.ensure _ _).bind (fun _ => Tx.Along.pure _)))

theorem quiet_requireHeldClaim {principal : String} :
    Tx.Along (Quiet P) (requireHeldClaim id principal now) :=
  (Tx.Along.read _).bind (fun _ => (Tx.Along.of_readOnly (Tx.readOnly_require _ _)).bind (fun _ =>
    (Tx.Along.ensure _ _).bind (fun _ => Tx.Along.pure _)))

theorem quiet_assertText {value field : String} {max : ℕ} {allowEmpty : Bool} :
    Tx.Along (Quiet P) (assertText value field max allowEmpty) := Tx.Along.of_readOnly readOnly_assertText

theorem quiet_requireId : Tx.Along (Quiet P) (requireId id) := Tx.Along.of_readOnly (readOnly_requireId id)

theorem quiet_ofExcept {α : Type} {x : Except MindError α} : Tx.Along (Quiet P) (Tx.ofExcept x : MindM α) :=
  Tx.Along.of_readOnly (Tx.readOnly_ofExcept x)

theorem quiet_detail :
    Tx.Along (Quiet P) (Tx.read (fun db => db.get now id) : MindM (Option MindDetail)) := Tx.Along.read _

/-- A transaction and the detail behind it. -/
theorem quiet_committed {m : MindM Unit} (h : Tx.Along (Quiet P) m) :
    Tx.Along (Quiet P) (do Tx.transaction m; Tx.read (fun db => db.get now id) : MindM (Option MindDetail)) :=
  h.transaction.bind (fun _ => quiet_detail)

end Statements

/-! ## Methods -/

section Methods
variable {P : MindId → Prop} {id : MindId} {clock : Readings} {actor : String} {now : Time} {u : Js.Unicode}

theorem quiet_create {opts : CreateMindItem} {draws : List ℕ} :
    Tx.Along (Quiet P) (create u opts draws clock) := by
  have hbody : ∀ row tags dependsOn actor data now,
      Tx.Along (Quiet P) (createBody row tags dependsOn actor draws data now) := by
    intro row tags dependsOn actor data now
    exact (Tx.Along.read _).bind (fun _ => (Tx.Along.of_readOnly (Tx.readOnly_require _ _)).bind (fun newId =>
      quiet_insertItem.bind (fun _ => (Tx.Along.forEach (fun _ => quiet_insertTag) tags).bind (fun _ =>
        (Tx.Along.forEach (fun _ => quiet_addDependencyInternal) dependsOn).bind (fun _ =>
          quiet_event.bind (fun _ => Tx.Along.pure newId))))))
  refine quiet_assertText.bind (fun _ => quiet_ofExcept.bind (fun _ => quiet_ofExcept.bind (fun _ =>
    quiet_ofExcept.bind (fun _ => quiet_assertText.bind (fun _ => quiet_ofExcept.bind (fun _ => ?_))))))
  refine (Tx.Along.onSome (fun _ => quiet_requireId)).bind (fun _ =>
    (Tx.Along.forEach (fun _ => quiet_requireId) _).bind (fun _ => (Tx.Along.ensure _ _).bind (fun _ =>
      (Tx.Along.ensure _ _).bind (fun _ => (Tx.Along.ensure _ _).bind (fun _ => quiet_ofExcept.bind (fun _ => ?_))))))
  exact (hbody _ _ _ _ _ _).transaction.bind (fun _ => quiet_detail)

theorem quiet_startClaim {opts : MindClaimOptions} {ttl : ℤ} :
    Tx.Along (Quiet P) (startClaim id opts ttl now) :=
  quiet_insertClaim.bind (fun _ => quiet_updateItem (by simp [MindStatus.closed]))

theorem quiet_claim {opts : MindClaimOptions} :
    Tx.Along (Quiet P) (claim id opts clock) := by
  have hbody : ∀ ttl now, Tx.Along (Quiet P) (claimBody id opts ttl now) := by
    intro ttl now
    refine quiet_requireExecutableTask.bind (fun item => (Tx.Along.ensure _ _).bind (fun _ =>
      (Tx.Along.read _).bind (fun _ => (Tx.Along.ensure _ _).bind (fun _ => (Tx.Along.read _).bind (fun existing => ?_)))))
    cases existing with
    | none =>
        exact (Tx.Along.ensure _ _).bind (fun _ => quiet_startClaim.bind (fun _ =>
          quiet_addCommentInternal.bind (fun _ => quiet_event)))
    | some held =>
        refine Tx.Along.ite ?_ ?_
        · exact (Tx.Along.ensure _ _).bind (fun _ => quiet_setClaim.bind (fun _ => quiet_event))
        · exact quiet_dropClaim.bind (fun _ => quiet_addCommentInternal.bind (fun _ => quiet_event.bind (fun _ =>
            quiet_startClaim.bind (fun _ => quiet_addCommentInternal.bind (fun _ => quiet_event)))))
  exact quiet_assertText.bind (fun _ => quiet_assertText.bind (fun _ => quiet_assertText.bind (fun _ =>
    quiet_ofExcept.bind (fun _ => quiet_committed (hbody _ _)))))

theorem quiet_resumeClaim {opts : MindClaimOptions} :
    Tx.Along (Quiet P) (resumeClaim id opts clock) := by
  have hbody : ∀ ttl now, Tx.Along (Quiet P) (resumeClaimBody id opts ttl now) := fun ttl now =>
    quiet_requireExecutableTask.bind (fun _ => (Tx.Along.ensure _ _).bind (fun _ => (Tx.Along.read _).bind (fun _ =>
      (Tx.Along.ensure _ _).bind (fun _ => (Tx.Along.read _).bind (fun _ => (Tx.Along.ensure _ _).bind (fun _ =>
        quiet_dropClaim.bind (fun _ => quiet_startClaim.bind (fun _ => quiet_addCommentInternal.bind (fun _ =>
          quiet_event)))))))))
  exact quiet_assertText.bind (fun _ => quiet_assertText.bind (fun _ => quiet_assertText.bind (fun _ =>
    quiet_ofExcept.bind (fun _ => quiet_committed (hbody _ _)))))

theorem quiet_renewClaim {principal : String} {ttlMs : Option Js.Num} :
    Tx.Along (Quiet P) (renewClaim id principal ttlMs clock) :=
  quiet_assertText.bind (fun _ => quiet_ofExcept.bind (fun _ => quiet_committed
    (quiet_requireExecutableTask.bind (fun _ => quiet_requireHeldClaim.bind (fun _ => quiet_setClaim.bind (fun _ =>
      quiet_touch.bind (fun _ => quiet_event)))))))

theorem quiet_releaseClaim {principal : String} {status : ReleaseStatus} {note : String} : Tx.Along (Quiet P) (releaseClaim id principal status note clock) := by
  have hopen : status.toStatus.closed = false := by cases status <;> rfl
  refine quiet_assertText.bind (fun _ => quiet_assertText.bind (fun _ => quiet_committed ?_))
  refine quiet_requireExecutableTask.bind (fun _ => (Tx.Along.read _).bind (fun _ =>
    (Tx.Along.of_readOnly (Tx.readOnly_require _ _)).bind (fun _ => (Tx.Along.ensure _ _).bind (fun _ =>
      quiet_dropClaim.bind (fun _ => ?_)))))
  refine (quiet_updateItem ?_).bind (fun _ => quiet_addCommentInternal.bind (fun _ => quiet_event))
  intro _ h
  exact absurd (hopen.symm.trans h) Bool.false_ne_true

theorem quiet_logClaim {principal owner kind body : String} {ttlMs : Option Js.Num} :
    Tx.Along (Quiet P) (logClaim id principal owner kind body ttlMs clock) :=
  quiet_assertText.bind (fun _ => quiet_assertText.bind (fun _ => quiet_assertText.bind (fun _ =>
    quiet_ofExcept.bind (fun _ => quiet_ofExcept.bind (fun _ => quiet_committed
      (quiet_requireExecutableTask.bind (fun _ => quiet_requireHeldClaim.bind (fun _ =>
        quiet_addCommentInternal.bind (fun _ => quiet_setClaim.bind (fun _ => quiet_event))))))))))

theorem quiet_finishClaim {principal owner result verification omissions : String} :
    Tx.Along (Quiet (· = id)) (finishClaim id principal owner result verification omissions clock) := by
  have hbody : ∀ body now, Tx.Along (Quiet (· = id)) (finishClaimBody id principal owner body now) := fun body now =>
    quiet_requireExecutableTask.bind (fun _ => quiet_requireHeldClaim.bind (fun _ => (Tx.Along.read _).bind (fun _ =>
      (Tx.Along.ensure _ _).bind (fun _ => quiet_addCommentInternal.bind (fun _ => quiet_dropClaim.bind (fun _ =>
        (quiet_updateItem (by intro _ _; exact Or.inr rfl)).bind (fun _ => quiet_event)))))))
  exact quiet_assertText.bind (fun _ => quiet_assertText.bind (fun _ => quiet_assertText.bind (fun _ =>
    quiet_assertText.bind (fun _ => quiet_assertText.bind (fun _ => quiet_assertText.bind (fun _ =>
      quiet_committed (hbody _ _)))))))

theorem quiet_expireClaims : Tx.Along (Quiet P) (expireClaims now) := by
  have hone : ∀ row, Tx.Along (Quiet P) (expireOne now row) := by
    intro row
    refine quiet_dropClaim.bind (fun _ => (quiet_updateItem ?_).bind (fun _ =>
      quiet_addCommentInternal.bind (fun _ => quiet_event)))
    intro r h
    by_cases hstatus : r.status = .inProgress
    · simp only [if_pos hstatus] at h
      exact absurd h (by decide)
    · simp only [if_neg hstatus] at h
      exact Or.inl h
  exact ((Tx.Along.read _).bind (fun expired => (Tx.Along.forEach hone expired).bind (fun _ =>
    Tx.Along.pure _))).transaction

theorem quiet_update {patch : UpdateMindItem} :
    Tx.Along (Quiet (· = id)) (update u id patch actor clock) := by
  have hbody : ∀ before changed, Tx.Along (Quiet (· = id)) (updateBody id actor before changed clock) := by
    intro before changed
    have htags : ∀ tags, Tx.Along (Quiet (· = id)) (replaceTags id clock.now tags) := fun tags =>
      quiet_dropTags.bind (fun _ => (Tx.Along.forEach (fun _ => quiet_insertTag) tags).bind (fun _ => quiet_touch))
    exact (Tx.Along.when (quiet_updateItem (by intro _ _; exact Or.inr rfl))).bind (fun _ => (Tx.Along.onSome htags).bind (fun _ =>
      (Tx.Along.when quiet_revokeClaim).bind (fun _ => Tx.Along.when quiet_event)))
  exact quiet_requireId.bind (fun _ => (Tx.Along.of_readOnly (readOnly_requireItem id)).bind (fun _ =>
    (Tx.Along.read _).bind (fun _ => (Tx.Along.of_readOnly readOnly_checkPatch).bind (fun _ =>
      quiet_committed (hbody _ _)))))

theorem quiet_archive :
    Tx.Along (Quiet P) (archive id actor clock) :=
  quiet_requireId.bind (fun _ => quiet_committed ((quiet_updateItem (by intro _ h; exact Or.inl h)).bind (fun _ =>
    quiet_revokeClaim.bind (fun _ => quiet_event))))

theorem quiet_restore :
    Tx.Along (Quiet P) (restore id actor clock) :=
  quiet_requireId.bind (fun _ => (quiet_updateItem (by intro _ h; exact Or.inl h)).bind (fun _ =>
    quiet_event.bind (fun _ => quiet_detail)))

theorem quiet_addDependency {id dependsOnId : MindId} :
    Tx.Along (Quiet P) (addDependency id dependsOnId actor clock) :=
  quiet_requireId.bind (fun _ => quiet_requireId.bind (fun _ =>
    quiet_committed (quiet_addDependencyInternal.bind (fun _ => quiet_touch))))

theorem quiet_removeDependency {id dependsOnId : MindId} :
    Tx.Along (Quiet P) (removeDependency id dependsOnId actor clock) :=
  quiet_requireId.bind (fun _ => (Tx.Along.read _).bind (fun _ =>
    (quiet_write (by intro _; rfl) (by intro _; rfl)).bind (fun _ =>
      (Tx.Along.when (quiet_touch.bind (fun _ => quiet_event))).bind (fun _ => quiet_detail))))

theorem quiet_requireComment {commentId : ℕ} : Tx.Along (Quiet P) (requireComment commentId) :=
  Tx.Along.of_readOnly (readOnly_requireComment commentId)

theorem quiet_addComment :
    Tx.Along (Quiet P) (addComment id body author clock) :=
  quiet_requireId.bind (fun _ => quiet_assertText.bind (fun _ => quiet_addCommentInternal))

theorem quiet_addReply {replyToId : ℕ} :
    Tx.Along (Quiet P) (addReply id replyToId body author clock) :=
  quiet_requireId.bind (fun _ => quiet_assertText.bind (fun _ => quiet_requireComment.bind (fun _ =>
    (Tx.Along.ensure _ _).bind (fun _ => quiet_addCommentInternal))))

theorem quiet_setComment {commentId : ℕ} {f : CommentRow → CommentRow} {hf : ∀ r, (f r).id = r.id} :
    Tx.Along (Quiet P) (Tx.write (fun db => db.setComment commentId f hf) : MindM Unit) :=
  Tx.Along.write (fun _ => Quiet.same rfl rfl)

theorem quiet_updateComment {commentId : ℕ} :
    Tx.Along (Quiet P) (updateComment commentId body author clock) :=
  quiet_assertText.bind (fun _ => quiet_requireComment.bind (fun _ => quiet_setComment.bind (fun _ =>
    quiet_touch.bind (fun _ => quiet_event.bind (fun _ => Tx.Along.pure _)))))

theorem quiet_deleteComment {commentId : ℕ} :
    Tx.Along (Quiet P) (deleteComment commentId actor clock) := by
  refine (Tx.Along.read _).bind (fun row => ?_)
  cases row with
  | none => exact Tx.Along.pure _
  | some row =>
      exact quiet_setComment.bind (fun _ => quiet_touch.bind (fun _ => quiet_event.bind (fun _ => Tx.Along.pure _)))

theorem quiet_addTag {tag actor : String} :
    Tx.Along (Quiet P) (addTag u id tag actor clock) := by
  refine quiet_requireId.bind (fun _ => quiet_ofExcept.bind (fun _ => (Tx.Along.read _).bind (fun _ =>
    (Tx.Along.onSome (fun _ => ?_)).bind (fun _ => quiet_detail))))
  refine Tx.Along.bind ?_ (fun _ => quiet_event)
  exact quiet_write (fun _ => rfl) (fun _ => rfl)

theorem quiet_removeTag {tag actor : String} :
    Tx.Along (Quiet P) (removeTag u id tag actor clock) :=
  quiet_requireId.bind (fun _ => quiet_ofExcept.bind (fun _ => (Tx.Along.read _).bind (fun _ =>
    quiet_dropTags.bind (fun _ => (Tx.Along.when quiet_event).bind (fun _ =>
      quiet_detail)))))

/-- The methods but for those that write reminders or may close an item. -/
theorem quiet_exec (call : MindCall) (h : call.passed = true) :
    Tx.Along (Quiet P) (call.exec u) := by
  have heffect : ∀ {α : Type} {m : MindM α}, Tx.Along (Quiet P) m → Tx.Along (Quiet P) (effect m) :=
    fun hm => hm.bind (fun _ => Tx.Along.pure ())
  cases call with
  | create | finishClaim | update | setStatus | createReminderRecord | markReminderFiredByTask
  | cancelReminderRecord | updateReminderRecord => cases h
  | claim => exact heffect quiet_claim
  | resumeClaim => exact heffect quiet_resumeClaim
  | renewClaim => exact heffect quiet_renewClaim
  | releaseClaim => exact heffect quiet_releaseClaim
  | logClaim => exact heffect quiet_logClaim
  | expireClaims => exact heffect quiet_expireClaims
  | archive => exact heffect quiet_archive
  | restore => exact heffect quiet_restore
  | addDependency => exact heffect quiet_addDependency
  | removeDependency => exact heffect quiet_removeDependency
  | addComment => exact heffect quiet_addComment
  | addReply => exact heffect quiet_addReply
  | updateComment => exact heffect quiet_updateComment
  | deleteComment => exact heffect quiet_deleteComment
  | addTag => exact heffect quiet_addTag
  | removeTag => exact heffect quiet_removeTag

end Methods

end Elpis.Mind
