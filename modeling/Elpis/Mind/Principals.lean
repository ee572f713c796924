import Elpis.Mind.Leases
import Elpis.Mind.Safety

/-!
# The Mind store: who a call takes for the holder

The store keeps principals trimmed. Five calls ask for the holder of a claim, and four of them
trim what they are asked with; `claim` compares it as it is. So a principal that is trimmed is
the holder to all of them as long as its claim stands, and any other is not to the next `claim`.
-/

namespace Elpis.Mind

open Elpis.Lib

/-! ## Claims that a call leaves as they are, or removes -/

/-- Every claim is one that was there. -/
def Fewer (db db' : MindDb) : Prop := ∀ id row, db'.claims.get? id = some row → db.claims.get? id = some row

namespace Fewer

instance : IsPreorder MindDb Fewer where
  refl _ _ _ h := h
  trans _ _ _ h h' id row hrow := h id row (h' id row hrow)

theorem dropClaim (db : MindDb) (id : MindId) : Fewer db (db.dropClaim id) := by
  intro j row h
  have hfilter : (db.claims.get? j).filter (fun r => !decide (r.itemId = id)) = some row :=
    (Table.get?_delete j).symm.trans h
  exact (Option.filter_eq_some_iff.mp hfilter).1

end Fewer

variable {actor : String}

variable {at' : Time}

section Statements

theorem fewer_write {f : MindDb → MindDb} (hclaims : ∀ db, (f db).claims = db.claims) :
    Tx.Along Fewer (Tx.write f : MindM Unit) := by
  refine Tx.Along.write (fun db id row h => ?_)
  rwa [hclaims] at h

theorem fewer_event {itemId : MindId} {data : MindEventData} :
    Tx.Along Fewer (event itemId actor data at') := fewer_write (fun _ => rfl)

theorem fewer_touch {id : MindId} : Tx.Along Fewer (Tx.write (fun db => db.touch id at') : MindM Unit) :=
  fewer_write (fun _ => rfl)

theorem fewer_readOnly {α : Type} {m : MindM α} (h : Tx.ReadOnly m) : Tx.Along Fewer m := Tx.Along.of_readOnly h

theorem fewer_addCommentInternal {id : MindId} {body author : String} {replyToId : Option ℕ} :
    Tx.Along Fewer (addCommentInternal id body author at' replyToId) :=
  (Tx.Along.read _).bind (fun _ => (fewer_write (by intro _; rfl)).bind (fun _ =>
    fewer_touch.bind (fun _ => fewer_event.bind (fun _ => Tx.Along.pure _))))

theorem fewer_updateItem {columns : SetColumns} {id : MindId} {f : MindRow → MindRow} {hf : ∀ r, (f r).id = r.id} :
    Tx.Along Fewer (updateItem columns id f hf) :=
  (Tx.Along.read _).bind (fun _ => (Tx.Along.read _).bind (fun _ => (Tx.Along.ensure _ _).bind (fun _ =>
    (Tx.Along.ensure _ _).bind (fun _ => (Tx.Along.ensure _ _).bind (fun _ => fewer_write (fun _ => rfl))))))

theorem fewer_insertItem {row : MindRow} : Tx.Along Fewer (insertItem row) :=
  (Tx.Along.read _).bind (fun _ => (Tx.Along.ensure _ _).bind (fun _ => (Tx.Along.ensure _ _).bind (fun _ =>
    (Tx.Along.read _).bind (fun _ => (Tx.Along.require _ _).bind (fun _ => fewer_write (fun _ => rfl))))))

theorem fewer_insertTag {itemId : MindId} {tag : String} : Tx.Along Fewer (insertTag itemId tag) :=
  (Tx.Along.read _).bind (fun _ => (Tx.Along.require _ _).bind (fun _ => fewer_write (fun _ => rfl)))

theorem fewer_addDependencyInternal {id dependsOnId : MindId} :
    Tx.Along Fewer (addDependencyInternal actor at' id dependsOnId) := by
  have hinsert : ∀ row, Tx.Along Fewer (insertDependency row) := by
    intro row
    refine (Tx.Along.read _).bind (fun _ => (Tx.Along.read _).bind (fun _ => (Tx.Along.ensure _ _).bind (fun _ =>
      (Tx.Along.ensure _ _).bind (fun _ => (Tx.Along.read _).bind (fun inserted => ?_)))))
    cases inserted with
    | none => exact Tx.Along.pure _
    | some dependencies => exact (fewer_write (by intro _; rfl)).bind (fun _ => Tx.Along.pure _)
  exact (Tx.Along.read _).bind (fun _ => (Tx.Along.ensure _ _).bind (fun _ => (Tx.Along.ensure _ _).bind (fun _ =>
    (Tx.Along.read _).bind (fun _ => (Tx.Along.ensure _ _).bind (fun _ => (hinsert _).bind (fun _ =>
      Tx.Along.when fewer_event))))))

theorem fewer_revokeClaim {id : MindId} {data : String → MindEventData} {now : Time} :
    Tx.Along Fewer (revokeClaim id actor data now) := by
  have hdrop : Tx.Along Fewer (Tx.write (fun db => db.dropClaim id) : MindM Unit) :=
    Tx.Along.write (fun db => Fewer.dropClaim db id)
  exact (Tx.Along.read _).bind (fun _ => (Tx.Along.onSome (fun _ => hdrop.bind (fun _ => fewer_event))).bind
    (fun _ => Tx.Along.pure _))

theorem fewer_detail {id : MindId} {now : Time} :
    Tx.Along Fewer (Tx.read (fun db => db.get now id) : MindM (Option MindDetail)) := Tx.Along.read _

end Statements

variable {call : MindCall}

section Methods
variable {u : Js.Unicode} {id : MindId} {clock : Readings}

theorem fewer_create {opts : CreateMindItem} {draws : List ℕ} : Tx.Along Fewer (create u opts draws clock) := by
  have hbody : ∀ row tags dependsOn actor data now,
      Tx.Along Fewer (createBody row tags dependsOn actor draws data now) := by
    intro row tags dependsOn actor data now
    exact (Tx.Along.read _).bind (fun _ => (Tx.Along.require _ _).bind (fun newId =>
      fewer_insertItem.bind (fun _ => (Tx.Along.forEach (fun _ => fewer_insertTag) tags).bind (fun _ =>
        (Tx.Along.forEach (fun _ => fewer_addDependencyInternal) dependsOn).bind (fun _ =>
          fewer_event.bind (fun _ => Tx.Along.pure newId))))))
  have htext : ∀ value field max allowEmpty, Tx.Along Fewer (assertText value field max allowEmpty) :=
    fun _ _ _ _ => fewer_readOnly readOnly_assertText
  have hid : ∀ id, Tx.Along Fewer (requireId id) := fun id => fewer_readOnly (readOnly_requireId id)
  refine (htext _ _ _ _).bind (fun _ => (Tx.Along.ofExcept _).bind (fun _ => (Tx.Along.ofExcept _).bind (fun _ =>
    (Tx.Along.ofExcept _).bind (fun _ => (htext _ _ _ _).bind (fun _ => (Tx.Along.ofExcept _).bind (fun _ => ?_))))))
  refine (Tx.Along.onSome hid).bind (fun _ => (Tx.Along.forEach hid _).bind (fun _ =>
    (Tx.Along.ensure _ _).bind (fun _ => (Tx.Along.ensure _ _).bind (fun _ => (Tx.Along.ensure _ _).bind (fun _ =>
      (Tx.Along.ofExcept _).bind (fun _ => ?_))))))
  exact (hbody _ _ _ _ _ _).transaction.bind (fun _ => fewer_detail)

theorem fewer_update {patch : UpdateMindItem} : Tx.Along Fewer (update u id patch actor clock) := by
  have hbody : ∀ before changed, Tx.Along Fewer (updateBody id actor before changed clock) := by
    intro before changed
    have htags : ∀ tags, Tx.Along Fewer (replaceTags id clock.now tags) := fun tags =>
      (fewer_write (by intro _; rfl)).bind (fun _ => (Tx.Along.forEach (fun _ => fewer_insertTag) tags).bind (fun _ =>
        fewer_touch))
    exact (Tx.Along.when fewer_updateItem).bind (fun _ => (Tx.Along.onSome htags).bind (fun _ =>
      (Tx.Along.when fewer_revokeClaim).bind (fun _ => Tx.Along.when fewer_event)))
  exact (fewer_readOnly (readOnly_requireId id)).bind (fun _ => (fewer_readOnly (readOnly_requireItem id)).bind (fun _ =>
    (Tx.Along.read _).bind (fun _ => (fewer_readOnly readOnly_checkPatch).bind (fun _ =>
      (hbody _ _).transaction.bind (fun _ => fewer_detail)))))

theorem fewer_archive : Tx.Along Fewer (archive id actor clock) :=
  (fewer_readOnly (readOnly_requireId id)).bind (fun _ =>
    (fewer_updateItem.bind (fun _ => fewer_revokeClaim.bind (fun _ => fewer_event))).transaction.bind (fun _ =>
      fewer_detail))

theorem fewer_restore : Tx.Along Fewer (restore id actor clock) :=
  (fewer_readOnly (readOnly_requireId id)).bind (fun _ => fewer_updateItem.bind (fun _ =>
    fewer_event.bind (fun _ => fewer_detail)))

theorem fewer_addDependency {dependsOnId : MindId} :
    Tx.Along Fewer (addDependency id dependsOnId actor clock) :=
  (fewer_readOnly (readOnly_requireId id)).bind (fun _ => (fewer_readOnly (readOnly_requireId dependsOnId)).bind (fun _ =>
    (fewer_addDependencyInternal.bind (fun _ => fewer_touch)).transaction.bind (fun _ => fewer_detail)))

theorem fewer_removeDependency {dependsOnId : MindId} :
    Tx.Along Fewer (removeDependency id dependsOnId actor clock) :=
  (fewer_readOnly (readOnly_requireId id)).bind (fun _ => (Tx.Along.read _).bind (fun _ =>
    (fewer_write (by intro _; rfl)).bind (fun _ =>
      (Tx.Along.when (fewer_touch.bind (fun _ => fewer_event))).bind (fun _ => fewer_detail))))

theorem fewer_addComment {body author : String} : Tx.Along Fewer (addComment id body author clock) :=
  (fewer_readOnly (readOnly_requireId id)).bind (fun _ => (fewer_readOnly readOnly_assertText).bind (fun _ =>
    fewer_addCommentInternal))

theorem fewer_addReply {replyToId : ℕ} {body author : String} :
    Tx.Along Fewer (addReply id replyToId body author clock) :=
  (fewer_readOnly (readOnly_requireId id)).bind (fun _ => (fewer_readOnly readOnly_assertText).bind (fun _ =>
    (fewer_readOnly (readOnly_requireComment replyToId)).bind (fun _ => (Tx.Along.ensure _ _).bind (fun _ =>
      fewer_addCommentInternal))))

theorem fewer_updateComment {commentId : ℕ} {body author : String} :
    Tx.Along Fewer (updateComment commentId body author clock) :=
  (fewer_readOnly readOnly_assertText).bind (fun _ => (fewer_readOnly (readOnly_requireComment commentId)).bind (fun _ =>
    (fewer_write (by intro _; rfl)).bind (fun _ => fewer_touch.bind (fun _ => fewer_event.bind (fun _ =>
      Tx.Along.pure _)))))

theorem fewer_deleteComment {commentId : ℕ} :
    Tx.Along Fewer (deleteComment commentId actor clock) := by
  refine (Tx.Along.read _).bind (fun row => ?_)
  cases row with
  | none => exact Tx.Along.pure _
  | some row =>
      exact (fewer_write (by intro _; rfl)).bind (fun _ => fewer_touch.bind (fun _ => fewer_event.bind (fun _ =>
        Tx.Along.pure _)))

theorem fewer_addTag {tag actor : String} : Tx.Along Fewer (addTag u id tag actor clock) :=
  (fewer_readOnly (readOnly_requireId id)).bind (fun _ => (Tx.Along.ofExcept _).bind (fun _ =>
    (Tx.Along.read _).bind (fun _ => (Tx.Along.onSome (fun _ => (fewer_write (by intro _; rfl)).bind (fun _ =>
      fewer_event))).bind (fun _ => fewer_detail))))

theorem fewer_removeTag {tag actor : String} : Tx.Along Fewer (removeTag u id tag actor clock) :=
  (fewer_readOnly (readOnly_requireId id)).bind (fun _ => (Tx.Along.ofExcept _).bind (fun _ =>
    (Tx.Along.read _).bind (fun _ => (fewer_write (by intro _; rfl)).bind (fun _ =>
      (Tx.Along.when fewer_event).bind (fun _ => fewer_detail)))))

theorem fewer_reminded {n : ℕ} {f : ReminderRow → ReminderRow} {hf : ∀ r, (f r).id = r.id}
    {data : MindEventData} :
    Tx.Along Fewer (do Tx.write (fun db => db.setReminder n f hf); event id actor data at' : MindM Unit) :=
  (fewer_write (by intro _; rfl)).bind (fun _ => fewer_event)

theorem fewer_createReminderRecord {scheduledTaskId : ℕ} {fireAt : ℚ} {channelId : Option String} {createdBy : String} :
    Tx.Along Fewer (createReminderRecord id scheduledTaskId fireAt channelId createdBy clock) := by
  have hinsert : Tx.Along Fewer (insertReminder id scheduledTaskId fireAt channelId createdBy clock.now) :=
    (Tx.Along.read _).bind (fun _ => (Tx.Along.read _).bind (fun _ => (Tx.Along.read _).bind (fun _ =>
      (Tx.Along.ensure _ _).bind (fun _ => (Tx.Along.ensure _ _).bind (fun _ => (Tx.Along.ensure _ _).bind (fun _ =>
        (Tx.Along.read _).bind (fun _ => (fewer_write (by intro _; rfl)).bind (fun _ => Tx.Along.pure _))))))))
  exact (fewer_readOnly (readOnly_requireItem id)).bind (fun _ => (Tx.Along.ensure _ _).bind (fun _ =>
    hinsert.bind (fun _ => fewer_event.bind (fun _ => Tx.Along.read _))))

theorem fewer_markReminderFiredByTask {scheduledTaskId : ℕ} :
    Tx.Along Fewer (markReminderFiredByTask scheduledTaskId clock) :=
  (Tx.Along.read _).bind (fun _ => (Tx.Along.onSome (fun _ => fewer_reminded)).bind (fun _ => Tx.Along.pure _))

theorem fewer_cancelReminderRecord {n : ℕ} : Tx.Along Fewer (cancelReminderRecord n actor clock) :=
  (Tx.Along.read _).bind (fun _ => (Tx.Along.onSome (fun _ => fewer_reminded)).bind (fun _ => Tx.Along.read _))

theorem fewer_updateReminderRecord {n : ℕ} {fireAt : ℚ} :
    Tx.Along Fewer (updateReminderRecord n fireAt actor clock) :=
  (Tx.Along.read _).bind (fun _ => (Tx.Along.require _ _).bind (fun _ => (fewer_write (by intro _; rfl)).bind (fun _ =>
    fewer_event.bind (fun _ => Tx.Along.read _))))

/-- No other call makes a claim or changes one. -/
theorem fewer_exec (u : Js.Unicode) (hcall : call.onClaims = false) :
    Tx.Along Fewer (call.exec u) := by
  have heffect : ∀ {α : Type} {m : MindM α}, Tx.Along Fewer m → Tx.Along Fewer (effect m) :=
    fun hm => hm.bind (fun _ => Tx.Along.pure ())
  cases call with
  | claim | resumeClaim | renewClaim | releaseClaim | logClaim | finishClaim | expireClaims => cases hcall
  | create => exact heffect fewer_create
  | update => exact heffect fewer_update
  | setStatus => exact heffect fewer_update
  | archive => exact heffect fewer_archive
  | restore => exact heffect fewer_restore
  | addDependency => exact heffect fewer_addDependency
  | removeDependency => exact heffect fewer_removeDependency
  | addComment => exact heffect fewer_addComment
  | addReply => exact heffect fewer_addReply
  | updateComment => exact heffect fewer_updateComment
  | deleteComment => exact heffect fewer_deleteComment
  | addTag => exact heffect fewer_addTag
  | removeTag => exact heffect fewer_removeTag
  | createReminderRecord => exact heffect fewer_createReminderRecord
  | markReminderFiredByTask => exact heffect fewer_markReminderFiredByTask
  | cancelReminderRecord => exact heffect fewer_cancelReminderRecord
  | updateReminderRecord => exact heffect fewer_updateReminderRecord

end Methods

/-! ## Stored principals are trimmed -/

/-- Every claim is kept under a trimmed principal. -/
def MindDb.Trimmed (db : MindDb) : Prop :=
  ∀ id row, db.claims.get? id = some row → Js.trim row.principal = row.principal

variable {u : Js.Unicode} {db db' : MindDb} {id : MindId}

theorem MindDb.Trimmed.fewer (h : db.Trimmed) (hfewer : Fewer db db') : db'.Trimmed :=
  fun id row hrow => h id row (hfewer id row hrow)

/-- The claim that a call leaves on its own item is kept under a trimmed principal. -/
theorem MindDb.Trimmed.rewrites {row row' : MindRow} {c : ClaimRow} (h : db.Trimmed)
    (hr : Rewrites id db db' row row' (some c)) (hc : Js.trim c.principal = c.principal) : db'.Trimmed := by
  intro k held hheld
  by_cases hk : k = id
  · rw [hk, hr.claim, Option.some.injEq] at hheld
    exact hheld ▸ hc
  · rw [hr.frame.claims k hk] at hheld
    exact h k held hheld

theorem Fewer.rewrites {row row' : MindRow} (hr : Rewrites id db db' row row' none) : Fewer db db' := by
  intro k held hheld
  by_cases hk : k = id
  · rw [hk, hr.claim] at hheld
    cases hheld
  · rwa [hr.frame.claims k hk] at hheld

theorem fewer_expireClaims {now : Time} : Tx.Along Fewer (expireClaims now) := by
  have hone : ∀ row, Tx.Along Fewer (expireOne now row) := by
    intro row
    have hdrop : Tx.Along Fewer (Tx.write (fun db => db.dropClaim row.itemId) : MindM Unit) :=
      Tx.Along.write (fun db => Fewer.dropClaim db row.itemId)
    exact hdrop.bind (fun _ => fewer_updateItem.bind (fun _ => fewer_addCommentInternal.bind (fun _ => fewer_event)))
  exact ((Tx.Along.read _).bind (fun expired => (Tx.Along.forEach hone expired).bind (fun _ =>
    Tx.Along.pure _))).transaction

theorem trimmed_of_ok {v : Unit} (hcall : call.onClaims = true) (h : db.Trimmed)
    (hok : call.exec u db = (.ok v, db')) : db'.Trimmed := by
  cases call with
  | claim k opts clock =>
      obtain ⟨_, hok⟩ := effect_ok.mp hok
      obtain ⟨ttl, _, hok⟩ := claim_ok hok
      obtain ⟨row, _, ⟨held, hheld, _, _, hr⟩ | ⟨_, hr⟩⟩ := claimBody_ok hok
      · exact h.rewrites hr (h k held hheld)
      · exact h.rewrites hr (Js.trim_trim _)
  | resumeClaim k opts clock =>
      obtain ⟨_, hok⟩ := effect_ok.mp hok
      obtain ⟨ttl, _, hok⟩ := resumeClaim_ok hok
      obtain ⟨row, _, _, _, _, hr⟩ := resumeClaimBody_ok hok
      exact h.rewrites hr (Js.trim_trim _)
  | renewClaim k principal ttlMs clock =>
      obtain ⟨_, hok⟩ := effect_ok.mp hok
      obtain ⟨ttl, _, hok⟩ := renewClaim_ok hok
      obtain ⟨row, held, _, ⟨hheld, _⟩, hr⟩ := renewClaimBody_ok hok
      exact h.rewrites hr (h k held hheld)
  | releaseClaim k principal status note clock =>
      obtain ⟨_, hok⟩ := effect_ok.mp hok
      obtain ⟨row, held, _, _, _, hr⟩ := releaseClaimBody_ok (releaseClaim_ok hok)
      exact h.fewer (Fewer.rewrites hr)
  | logClaim k principal owner kind body ttlMs clock =>
      obtain ⟨_, hok⟩ := effect_ok.mp hok
      obtain ⟨_, ttl, _, _, hok⟩ := logClaim_ok hok
      obtain ⟨row, held, _, ⟨hheld, _⟩, hr⟩ := logClaimBody_ok hok
      exact h.rewrites hr (h k held hheld)
  | finishClaim k principal owner result verification omissions clock =>
      obtain ⟨_, hok⟩ := effect_ok.mp hok
      obtain ⟨row, held, _, _, _, hr⟩ := finishClaimBody_ok (finishClaim_ok hok)
      exact h.fewer (Fewer.rewrites hr)
  | expireClaims now =>
      obtain ⟨_, hok⟩ := effect_ok.mp hok
      exact h.fewer ((Tx.wp_iff.mp (fewer_expireClaims db)).1 _ _ hok)
  | _ => cases hcall

theorem trimmed_after (u : Js.Unicode) (db : MindDb) (call : MindCall) (h : db.Trimmed) :
    (db.after u call).Trimmed := by
  by_cases hcall : call.onClaims = true
  · rcases after_claimStep u db hcall with ⟨e, _, heq⟩ | ⟨hok, _⟩
    · rwa [heq]
    · exact trimmed_of_ok hcall h hok
  · exact h.fewer (Tx.wp_final (fewer_exec u (Bool.eq_false_iff.mpr hcall) db))

theorem trimmed_reached (u : Js.Unicode) (calls : List MindCall) : (MindDb.reached u calls).Trimmed :=
  run_inv (trimmed_after u) calls (fun _ _ h => by cases h)

/-! ## A claim that stands -/

/-- The call leaves the claim on `id` standing: it comes before its expiry, if it looks at expiries at
all, and there is a claim behind it. -/
def KeepsClaim (u : Js.Unicode) (id : MindId) (db : MindDb) (call : MindCall) : Prop :=
  (∀ held, db.claims.get? id = some held → call.onClaims = true → call.time < held.expiresAt) ∧
    (db.after u call).claims.get? id ≠ none

/-- A claim that stands stays with its principal. -/
theorem KeepsClaim.principal {held : ClaimRow} (h : KeepsClaim u id db call)
    (hheld : db.claims.get? id = some held) :
    ∃ held', (db.after u call).claims.get? id = some held' ∧ held'.principal = held.principal := by
  obtain ⟨hearly, hstands⟩ := h
  obtain ⟨held', hheld'⟩ := Option.ne_none_iff_exists'.mp hstands
  by_cases hcall : call.onClaims = true
  · rcases after_claimStep u db hcall with ⟨e, _, heq⟩ | ⟨_, hstep⟩
    · rw [heq]
      exact ⟨held, hheld, rfl⟩
    · cases hstep id with
      | elsewhere _ hsame =>
          rw [hsame.claim]
          exact ⟨held, hheld, rfl⟩
      | kept h₀ held₁ _ _ hr hk _ _ hp =>
          rw [hheld, Option.some.injEq] at hk
          rw [← hk] at hp
          exact ⟨held₁, hr.claim, hp⟩
      | taken _ _ _ _ hexpired => exact absurd (hexpired held hheld) (not_le.mpr (hearly held hheld hcall))
      | released _ _ _ _ _ _ _ _ hr => exact absurd hr.claim hstands
      | finished _ _ _ _ _ _ _ _ _ _ hr => exact absurd hr.claim hstands
      | swept h₀ hk hexpired =>
          exact absurd hexpired (not_le.mpr (hearly h₀ hk hcall))
  · have hsame := Tx.wp_final (fewer_exec u (Bool.eq_false_iff.mpr hcall) db) id held' hheld'
    rw [hheld, Option.some.injEq] at hsame
    exact ⟨held', hheld', by rw [hsame]⟩

theorem principal_run {held : ClaimRow} (calls : List MindCall)
    (hkept : EachStep (MindDb.after u) (KeepsClaim u id) db calls) (hheld : db.claims.get? id = some held) :
    ∃ held', (run (MindDb.after u) db calls).claims.get? id = some held' ∧ held'.principal = held.principal := by
  induction calls generalizing db held with
  | nil => exact ⟨held, hheld, rfl⟩
  | cons call calls ih =>
      obtain ⟨held₁, hheld₁, hp⟩ := hkept.1.principal hheld
      obtain ⟨held', hheld', hp'⟩ := ih hkept.2 hheld₁
      exact ⟨held', hheld', hp'.trans hp⟩


/-! ## Calls that blame another principal -/

/-- One of the five calls, about `id` and with this string for the principal. -/
def MindCall.Asks (id : MindId) (principal : String) : MindCall → Prop
  | .claim k opts _ => k = id ∧ opts.principal = principal
  | .renewClaim k p _ _ | .releaseClaim k p _ _ _ | .logClaim k p _ _ _ _ _
  | .finishClaim k p _ _ _ _ _ => k = id ∧ p = principal
  | _ => False

/-- The errors that name somebody else as the holder. -/
def MindError.ofOther : MindError → Bool
  | .claimedUntil .. | .claimedBy .. | .claimedByOther .. => true
  | _ => false

/-- The call is rejected because of another principal's claim. -/
def TakenForOther (u : Js.Unicode) (db : MindDb) (call : MindCall) : Prop :=
  ∃ e, (call.exec u db).1 = .error e ∧ e.ofOther = true

/-- The program returns, or fails for another reason. -/
def Fair {α : Type} (m : MindM α) (db : MindDb) : Prop :=
  Tx.wp m (fun _ _ => True) (fun e _ => e.ofOther = false) db

section Fair

variable {α β : Type} {m : MindM α} {f : α → MindM β}

theorem fair_bind (hm : Fair m db) (hf : ∀ a s, Fair (f a) s) : Fair (m >>= f) db := by
  rw [Fair, Tx.wp_bind]
  exact Tx.wp_mono (fun a s _ => hf a s) (fun _ _ h => h) hm

/-- A check leaves the database to what is behind it. -/
theorem fair_check (hm : Fair m db) (hro : Tx.ReadOnly m) (hf : ∀ a, m db = (.ok a, db) → Fair (f a) db) :
    Fair (m >>= f) db := by
  rw [Fair, Tx.wp_bind, Tx.wp_iff]
  constructor
  · intro a s' h
    have hs := hro db
    rw [h] at hs
    obtain rfl : s' = db := hs
    exact hf a h
  · exact (Tx.wp_iff.mp hm).2

theorem fair_of_total (h : Tx.Total m) : Fair m db := by
  obtain ⟨a, s, ha⟩ := h db
  rw [Fair, Tx.wp_iff, ha]
  constructor
  · exact fun _ _ _ => trivial
  · exact fun _ _ h => by cases h

theorem fair_pure (x : α) : Fair (pure x) db := fair_of_total (Tx.total_pure x)

theorem fair_read (g : MindDb → α) : Fair (Tx.read g) db := fair_of_total (Tx.total_read g)

theorem fair_write (g : MindDb → MindDb) : Fair (Tx.write g) db := fair_of_total (Tx.total_write g)

theorem fair_ensure {c : Prop} [Decidable c] {e : MindError} (h : ¬c → e.ofOther = false) :
    Fair (Tx.ensure c e) db := by
  rw [Fair, Tx.wp_ensure]
  exact ⟨fun _ => trivial, h⟩

theorem fair_require {x : Option α} {e : MindError} (h : e.ofOther = false) : Fair (Tx.require x e) db := by
  rw [Fair, Tx.wp_require]
  exact ⟨fun _ _ => trivial, fun _ => h⟩

theorem fair_ofExcept {x : Except MindError α} (h : ∀ e, x = .error e → e.ofOther = false) :
    Fair (Tx.ofExcept x) db := by
  rw [Fair, Tx.wp_ofExcept]
  exact ⟨fun _ _ => trivial, h⟩

theorem Fair.transaction (h : Fair m db) : Fair (Tx.transaction m) db := by
  rw [Fair, Tx.wp_transaction]
  exact h

theorem Fair.effect (h : Fair m db) : Fair (effect m) db := fair_bind h (fun _ _ => fair_pure ())

/-- A call that is fair is not rejected because of another principal's claim. -/
theorem Fair.not_takenForOther (h : Fair (call.exec u) db) : ¬TakenForOther u db call := by
  rintro ⟨e, he, hother⟩
  have hfair := (Tx.wp_iff.mp h).2 e _ (Prod.ext he rfl)
  rw [hother] at hfair
  cases hfair

end Fair

variable {opts : MindClaimOptions}

section FairChecks

theorem fair_assertText {value field : String} {max : ℕ} {allowEmpty : Bool} :
    Fair (assertText value field max allowEmpty) db :=
  fair_bind (fair_ensure (fun _ => rfl)) (fun _ _ => fair_ensure (fun _ => rfl))

theorem fair_requireExecutableTask : Fair (requireExecutableTask id) db :=
  fair_bind (fair_bind (fair_read _) (fun _ _ => fair_require rfl)) (fun _ _ =>
    fair_bind (fair_ensure (fun _ => rfl)) (fun _ _ => fair_bind (fair_ensure (fun _ => rfl)) (fun _ _ =>
      fair_pure _)))

theorem readOnly_requireExecutableTask : Tx.ReadOnly (requireExecutableTask id) :=
  (readOnly_requireItem id).bind (fun _ => (Tx.readOnly_ensure _ _).bind (fun _ =>
    (Tx.readOnly_ensure _ _).bind (fun _ => Tx.readOnly_pure _)))

theorem fair_claimTtl {ttlMs : Option Js.Num} : Fair (Tx.ofExcept (claimTtl ttlMs)) db := by
  refine fair_ofExcept (fun e he => ?_)
  unfold claimTtl at he
  split at he
  · split at he
    · cases he
      rfl
    · cases he
  · cases he
    rfl

theorem fair_assertLogKind {kind : String} : Fair (Tx.ofExcept (assertLogKind kind)) db := by
  refine fair_ofExcept (fun e he => ?_)
  unfold assertLogKind at he
  split at he
  · cases he
  · cases he
    rfl

theorem fair_event {data : MindEventData} : Fair (event id actor data at') db :=
  fair_write _

theorem fair_addCommentInternal {body author : String} {replyToId : Option ℕ} :
    Fair (addCommentInternal id body author at' replyToId) db := fair_of_total total_addCommentInternal

theorem fair_updateItem {columns : SetColumns} {f : MindRow → MindRow} {hf : ∀ r, (f r).id = r.id} :
    Fair (updateItem columns id f hf) db :=
  fair_bind (fair_read _) (fun _ _ => fair_bind (fair_read _) (fun _ _ => fair_bind (fair_ensure (fun _ => rfl))
    (fun _ _ => fair_bind (fair_ensure (fun _ => rfl)) (fun _ _ => fair_bind (fair_ensure (fun _ => rfl))
      (fun _ _ => fair_write _)))))

theorem fair_startClaim {ttl : ℤ} {now : Time} : Fair (startClaim id opts ttl now) db :=
  fair_bind (fair_bind (fair_read _) (fun _ _ => fair_bind (fair_ensure (fun _ => rfl)) (fun _ _ =>
    fair_bind (fair_ensure (fun _ => rfl)) (fun _ _ => fair_bind (fair_read _) (fun _ _ =>
      fair_bind (fair_require rfl) (fun _ _ => fair_write _)))))) (fun _ _ => fair_updateItem)

end FairChecks

/-! ## The holder's own calls -/

/-- If there is a claim on `id`, `principal` is what it is kept under, and is trimmed. -/
def MindDb.OwnedBy (db : MindDb) (id : MindId) (principal : String) : Prop :=
  ∀ held, db.claims.get? id = some held → held.principal = principal ∧ Js.trim principal = principal

section Owned

variable {principal owner note body : String} {ttl : ℤ} {now : Time} {clock : Readings}

theorem fair_requireHeldClaim (h : db.OwnedBy id principal) : Fair (requireHeldClaim id principal now) db := by
  refine fair_check (fair_read _) (Tx.readOnly_read _) (fun row hrow => ?_)
  refine fair_check (fair_require rfl) (Tx.readOnly_require _ _) (fun held hheld => ?_)
  refine fair_bind (fair_ensure (fun hne => ?_)) (fun _ _ => fair_pure _)
  obtain ⟨rfl, _⟩ := Tx.read_ok.mp hrow
  obtain ⟨hp, htrim⟩ := h held (Option.filter_eq_some_iff.mp (Tx.require_ok.mp hheld).1).1
  exact absurd (hp.trans htrim.symm) hne

theorem readOnly_requireHeldClaim : Tx.ReadOnly (requireHeldClaim id principal now) :=
  (Tx.readOnly_read _).bind (fun _ => (Tx.readOnly_require _ _).bind (fun _ =>
    (Tx.readOnly_ensure _ _).bind (fun _ => Tx.readOnly_pure _)))

theorem fair_claimBody (h : db.OwnedBy id opts.principal) :
    Fair (claimBody id opts ttl now) db := by
  have hstarted : ∀ comment previous s, Fair (do
      startClaim id opts ttl now
      let _ ← addCommentInternal id comment (Js.trim opts.owner) now none
      event id (Js.trim opts.owner) (.claimStarted (now + ttl) previous) now) s := fun _ _ _ =>
    fair_bind fair_startClaim (fun _ _ => fair_bind fair_addCommentInternal (fun _ _ => fair_event))
  refine fair_check fair_requireExecutableTask readOnly_requireExecutableTask (fun item _ => ?_)
  refine fair_check (fair_ensure (fun _ => rfl)) (Tx.readOnly_ensure _ _) (fun _ _ => ?_)
  refine fair_check (fair_read _) (Tx.readOnly_read _) (fun _ _ => ?_)
  refine fair_check (fair_ensure (fun _ => rfl)) (Tx.readOnly_ensure _ _) (fun _ _ => ?_)
  refine fair_check (fair_read _) (Tx.readOnly_read _) (fun existing hexisting => ?_)
  obtain ⟨rfl, _⟩ := Tx.read_ok.mp hexisting
  cases hheld : db.claims.get? id with
  | none => exact fair_bind (fair_ensure (fun _ => rfl)) (fun _ _ => hstarted _ _ _)
  | some held =>
      by_cases hnow : now < held.expiresAt
      · simp only [if_pos hnow]
        refine fair_bind (fair_ensure (fun hne => absurd (h held hheld).1 hne)) (fun _ _ => ?_)
        exact fair_bind (fair_write _) (fun _ _ => fair_event)
      · simp only [if_neg hnow]
        exact fair_bind (fair_write _) (fun _ _ => fair_bind fair_addCommentInternal (fun _ _ =>
          fair_bind fair_event (fun _ _ => hstarted _ _ _)))

theorem fair_renewClaimBody (h : db.OwnedBy id principal) : Fair (renewClaimBody id principal ttl now) db := by
  refine fair_check fair_requireExecutableTask readOnly_requireExecutableTask (fun _ _ => ?_)
  refine fair_check (fair_requireHeldClaim h) readOnly_requireHeldClaim (fun held _ => ?_)
  exact fair_bind (fair_write _) (fun _ _ => fair_bind (fair_write _) (fun _ _ => fair_event))

theorem fair_releaseClaimBody {status : ReleaseStatus} (h : db.OwnedBy id principal) :
    Fair (releaseClaimBody id principal status note now) db := by
  refine fair_check fair_requireExecutableTask readOnly_requireExecutableTask (fun _ _ => ?_)
  refine fair_check (fair_read _) (Tx.readOnly_read _) (fun row hrow => ?_)
  refine fair_check (fair_require rfl) (Tx.readOnly_require _ _) (fun held hheld => ?_)
  obtain ⟨rfl, _⟩ := Tx.read_ok.mp hrow
  obtain ⟨hp, htrim⟩ := h held (Tx.require_ok.mp hheld).1
  refine fair_bind (fair_ensure (fun hne => absurd (hp.trans htrim.symm) hne)) (fun _ _ => ?_)
  exact fair_bind (fair_write _) (fun _ _ => fair_bind fair_updateItem (fun _ _ =>
    fair_bind fair_addCommentInternal (fun _ _ => fair_event)))

theorem fair_logClaimBody {kind : MindLogKind} (h : db.OwnedBy id principal) :
    Fair (logClaimBody id principal owner kind body ttl now) db := by
  refine fair_check fair_requireExecutableTask readOnly_requireExecutableTask (fun _ _ => ?_)
  refine fair_check (fair_requireHeldClaim h) readOnly_requireHeldClaim (fun _ _ => ?_)
  exact fair_bind fair_addCommentInternal (fun _ _ => fair_bind (fair_write _) (fun _ _ => fair_event))

theorem fair_finishClaimBody (h : db.OwnedBy id principal) :
    Fair (finishClaimBody id principal owner body now) db := by
  refine fair_check fair_requireExecutableTask readOnly_requireExecutableTask (fun _ _ => ?_)
  refine fair_check (fair_requireHeldClaim h) readOnly_requireHeldClaim (fun _ _ => ?_)
  exact fair_bind (fair_read _) (fun _ _ => fair_bind (fair_ensure (fun _ => rfl)) (fun _ _ =>
    fair_bind fair_addCommentInternal (fun _ _ => fair_bind (fair_write _) (fun _ _ =>
      fair_bind fair_updateItem (fun _ _ => fair_event)))))

theorem fair_afterText {α : Type} {value field : String} {max : ℕ} {allowEmpty : Bool} {m : MindM α}
    (h : Fair m db) : Fair (do assertText value field max allowEmpty; m) db :=
  fair_check fair_assertText readOnly_assertText (fun _ _ => h)

theorem fair_afterTtl {α : Type} {ttlMs : Option Js.Num} {m : ℤ → MindM α} (h : ∀ ttl, Fair (m ttl) db) :
    Fair (do let ttl ← Tx.ofExcept (claimTtl ttlMs); m ttl) db :=
  fair_check fair_claimTtl (Tx.readOnly_ofExcept _) (fun ttl _ => h ttl)

theorem fair_committed {β : Type} {m : MindM Unit} {g : MindDb → β} (h : Fair m db) :
    Fair (do Tx.transaction m; Tx.read g) db := fair_bind h.transaction (fun _ _ => fair_read _)

/-- None of the five calls takes the holder for somebody else. -/
theorem fair_asks (u : Js.Unicode) (hasks : call.Asks id principal)
    (h : db.OwnedBy id principal) : Fair (call.exec u) db := by
  cases call with
  | claim k opts clock =>
      obtain ⟨rfl, rfl⟩ := hasks
      exact (fair_afterText (fair_afterText (fair_afterText (fair_afterTtl (fun _ =>
        fair_committed (fair_claimBody h)))))).effect
  | renewClaim k p ttlMs clock =>
      obtain ⟨rfl, rfl⟩ := hasks
      exact (fair_afterText (fair_afterTtl (fun _ => fair_committed (fair_renewClaimBody h)))).effect
  | releaseClaim k p status note clock =>
      obtain ⟨rfl, rfl⟩ := hasks
      exact (fair_afterText (fair_afterText (fair_committed (fair_releaseClaimBody h)))).effect
  | logClaim k p owner kind body ttlMs clock =>
      obtain ⟨rfl, rfl⟩ := hasks
      exact (fair_afterText (fair_afterText (fair_afterText (fair_check fair_assertLogKind
        (Tx.readOnly_ofExcept _) (fun _ _ => fair_afterTtl (fun _ =>
          fair_committed (fair_logClaimBody h))))))).effect
  | finishClaim k p owner result verification omissions clock =>
      obtain ⟨rfl, rfl⟩ := hasks
      exact (fair_afterText (fair_afterText (fair_afterText (fair_afterText (fair_afterText
        (fair_afterText (fair_committed (fair_finishClaimBody h)))))))).effect
  | _ => exact hasks.elim

end Owned


/-! ## Who is recognized -/

theorem claimTtl_pos {ttlMs : Option Js.Num} {ttl : ℤ} (h : claimTtl ttlMs = .ok ttl) : 0 < ttl := by
  unfold claimTtl at h
  split at h
  · rename_i q _
    split at h
    · cases h
    · rename_i hrange
      simp only [not_or, not_lt] at hrange
      cases h
      have hq : (60000 : ℤ) ≤ ⌊q⌋ := Int.le_floor.mpr (by exact_mod_cast hrange.1)
      omega
  · cases h

/-- What an accepted claim leaves: a claim that stands, under the trimmed principal. -/
theorem claim_accepted {clock : Readings} {v : Unit} (htrim : db.Trimmed)
    (h : (MindCall.claim id opts clock).exec u db = (.ok v, db')) :
    ∃ held, db'.claims.get? id = some held ∧ held.principal = Js.trim opts.principal ∧
      clock.now < held.expiresAt := by
  obtain ⟨_, h⟩ := effect_ok.mp h
  obtain ⟨ttl, httl, h⟩ := claim_ok h
  have hpos := claimTtl_pos httl
  obtain ⟨row, _, ⟨held, hheld, _, hp, hr⟩ | ⟨_, hr⟩⟩ := claimBody_ok h
  · refine ⟨_, hr.claim, ?_, by simpa using hpos⟩
    have := htrim id held hheld
    rw [hp] at this
    exact hp.trans this.symm
  · exact ⟨_, hr.claim, rfl, by simpa [freshClaim] using hpos⟩

/-- What can be claimed can be claimed again, as far as the item goes. -/
theorem claimable_again {ttl : ℤ} {now : Time} {v : Unit}
    (h : claimBody id opts ttl now db = (.ok v, db')) : ∃ row, db'.claimable id row := by
  obtain ⟨row, hclaimable, hr⟩ := claimBody_ok h
  obtain ⟨row', c, hr, harch, hkind, hstatus⟩ : ∃ row' c, Rewrites id db db' row row' c ∧
      row'.archivedAt = row.archivedAt ∧ row'.kind = row.kind ∧
      (row'.status = .open ∨ row'.status = .inProgress) := by
    rcases hr with ⟨held, _, _, _, hr⟩ | ⟨_, hr⟩
    · exact ⟨_, _, hr, rfl, rfl, hclaimable.2.1⟩
    · exact ⟨_, _, hr, rfl, rfl, Or.inr rfl⟩
  obtain ⟨⟨hrow, harch₀, hkind₀⟩, hstatus₀, hfree⟩ := hclaimable
  refine ⟨row', ⟨hr.after, harch.trans harch₀, hkind.trans hkind₀⟩, hstatus, ?_⟩
  rw [MindDb.unresolvedDependencyCount_eq_zero] at hfree ⊢
  intro dep drow hdep hdrow
  have hdep₀ : db.DependsOn id dep := by
    unfold MindDb.DependsOn at hdep ⊢
    rwa [hr.frame.dependencies] at hdep
  -- the item is not done, so it is not one of its own dependencies
  have hne : dep ≠ id := by
    rintro rfl
    have hdone := hfree dep row hdep₀ hrow
    rw [hdone] at hstatus₀
    simp at hstatus₀
  rw [hr.frame.items dep hne] at hdrow
  exact hfree dep drow hdep₀ hdrow

theorem after_ensure {α : Type} {c : Prop} [Decidable c] {e : MindError} {m : Unit → MindM α} (hc : c) :
    (Tx.ensure c e >>= m) db = m () db := Tx.bind_of_ok (Tx.ensure_ok.mpr ⟨hc, rfl⟩)

theorem after_read {α β : Type} {f : MindDb → α} {m : α → MindM β} : (Tx.read f >>= m) db = m (f db) db := rfl

theorem after_text {α : Type} {value field : String} {max : ℕ} {allowEmpty : Bool} {m : Unit → MindM α}
    (h : (allowEmpty = true ∨ Js.trim value ≠ "") ∧ Js.length value ≤ max) :
    (assertText value field max allowEmpty >>= m) db = m () db := Tx.bind_of_ok (assertText_ok.mpr ⟨h, rfl⟩)

/-- A claim that stands is held against a principal other than its own. -/
theorem claimBody_rejected (ttl : ℤ) {now : Time} {row : MindRow} {held : ClaimRow}
    (hclaimable : db.claimable id row) (hheld : db.claims.get? id = some held) (hnow : now < held.expiresAt)
    (hother : held.principal ≠ opts.principal) :
    ∃ e, claimBody id opts ttl now db = (.error e, db) ∧ e.ofOther = true := by
  obtain ⟨hexecutable, hstatus, hfree⟩ := hclaimable
  refine ⟨.claimedUntil id held.owner held.expiresAt, ?_, rfl⟩
  unfold claimBody
  rw [Tx.bind_of_ok (requireExecutableTask_ok.mpr ⟨hexecutable, rfl⟩), after_ensure hstatus, after_read,
    after_ensure hfree, after_read, hheld]
  simp only [if_pos hnow]
  refine Tx.bind_of_error ?_
  unfold Tx.ensure
  rw [if_neg hother]
  rfl

/-- Claiming again under a principal that is not trimmed is rejected as somebody else's. -/
theorem reclaim_rejected {clock : Readings} {v : Unit} (htrim : db.Trimmed)
    (h : (MindCall.claim id opts clock).exec u db = (.ok v, db')) (hraw : Js.trim opts.principal ≠ opts.principal) :
    TakenForOther u db' (.claim id opts clock) := by
  obtain ⟨held, hheld, hp, hnow⟩ := claim_accepted htrim h
  obtain ⟨_, hclaim⟩ := effect_ok.mp h
  simp only [claim, Tx.bind_ok, assertText_ok, Tx.ofExcept_ok, Tx.transaction_ok, Tx.read_ok] at hclaim
  obtain ⟨_, _, ⟨howner, rfl⟩, _, _, ⟨hprincipal, rfl⟩, _, _, ⟨hnote, rfl⟩, ttl, _, ⟨httl, rfl⟩, _, s, hbody, _, rfl⟩ :=
    hclaim
  obtain ⟨row, hclaimable⟩ := claimable_again hbody
  obtain ⟨e, hrejected, hother⟩ := claimBody_rejected ttl hclaimable hheld hnow
    (fun hsame => hraw (hp.symm.trans hsame))
  refine ⟨e, ?_, hother⟩
  -- the checks before the transaction pass as they did the first time
  have hagain : claim id opts clock s = (.error e, s) := by
    unfold claim
    rw [after_text howner, after_text hprincipal, after_text ⟨Or.inl rfl, hnote.2⟩,
      Tx.bind_of_ok (Tx.ofExcept_ok.mpr ⟨httl, rfl⟩)]
    refine Tx.bind_of_error ?_
    unfold Tx.transaction
    rw [hrejected]
  have heffect : effect (claim id opts clock) s = (.error e, s) := Tx.bind_of_error hagain
  exact congrArg Prod.fst heffect

/-- From here on the claim on `id` is its holder's to every call with this string: however the claim is
kept, no call of the five that comes before its expiry is rejected as somebody else's. -/
def HolderRecognized (u : Js.Unicode) (id : MindId) (principal : String) (db : MindDb) : Prop :=
  ∀ between later, EachStep (MindDb.after u) (KeepsClaim u id) db between → later.Asks id principal →
    (∀ held, (run (MindDb.after u) db between).claims.get? id = some held → later.time < held.expiresAt) →
    ¬TakenForOther u (run (MindDb.after u) db between) later

/-- The string a claim was accepted under is good for the calls behind it exactly if there is no white
space at its ends. -/
theorem holder_recognized_iff (u : Js.Unicode) (calls : List MindCall) (id : MindId) (opts : MindClaimOptions)
    (clock : Readings) (haccept : ((MindCall.claim id opts clock).exec u (MindDb.reached u calls)).1 = .ok ()) :
    HolderRecognized u id opts.principal (MindDb.reached u (calls ++ [.claim id opts clock])) ↔
      Js.trim opts.principal = opts.principal := by
  have hok : (MindCall.claim id opts clock).exec u (MindDb.reached u calls) =
      (.ok (), MindDb.reached u (calls ++ [.claim id opts clock])) := by
    refine Prod.ext haccept ?_
    unfold MindDb.reached
    rw [run_append]
    rfl
  obtain ⟨held, hheld, hp, hnow⟩ := claim_accepted (trimmed_reached u calls) hok
  constructor
  · intro hnever
    by_contra hraw
    refine hnever [] (.claim id opts clock) trivial ⟨rfl, rfl⟩ (fun held' hheld' => ?_)
      (reclaim_rejected (trimmed_reached u calls) hok hraw)
    rw [run_nil, hheld, Option.some.injEq] at hheld'
    exact hheld' ▸ hnow
  · intro htrim between later hkept hasks _
    obtain ⟨held', hheld', hp'⟩ := principal_run between hkept hheld
    refine (fair_asks u hasks (fun row hrow => ?_)).not_takenForOther
    rw [hheld', Option.some.injEq] at hrow
    exact ⟨hrow ▸ hp'.trans (hp.trans htrim), htrim⟩

/-- One open task. -/
def openTask : MindCall :=
  .create ⟨"water the plants", none, none, some "open", none, none, none, [], [], none, none⟩ [1] ⟨5, 5, 5⟩

def claimAs (principal : String) (now : Time) : MindCall :=
  .claim "elm-00000001" ⟨"Alice", principal, none, none⟩ ⟨now, now, now⟩

/-- Claimed as ` alice `, the task is somebody else's when ` alice ` claims it again a second later. -/
theorem spaced_holder_rejected :
    ((claimAs " alice " 6).exec Js.Unicode.ascii (MindDb.reached Js.Unicode.ascii [openTask])).1 = .ok () ∧
      ¬HolderRecognized Js.Unicode.ascii "elm-00000001" " alice "
        (MindDb.reached Js.Unicode.ascii [openTask, claimAs " alice " 6]) := by
  refine ⟨by decide +kernel, fun hrecognized => ?_⟩
  refine hrecognized [] (claimAs " alice " 7) trivial ⟨rfl, rfl⟩ (fun held hheld => ?_)
    ⟨.claimedUntil "elm-00000001" "Alice" 1800006, by decide +kernel, rfl⟩
  have hexpiry : ((MindDb.reached Js.Unicode.ascii [openTask, claimAs " alice " 6]).claims.get? "elm-00000001").all
      (fun c => decide (7 < c.expiresAt)) = true := by
    decide +kernel
  rw [run_nil] at hheld
  rw [hheld] at hexpiry
  exact of_decide_eq_true hexpiry

theorem holder_recognized_alice :
    HolderRecognized Js.Unicode.ascii "elm-00000001" "alice"
      (MindDb.reached Js.Unicode.ascii [openTask, claimAs "alice" 6]) :=
  (holder_recognized_iff Js.Unicode.ascii [openTask] "elm-00000001" ⟨"Alice", "alice", none, none⟩ ⟨6, 6, 6⟩
    (by decide +kernel)).mpr (by decide +kernel)

end Elpis.Mind
