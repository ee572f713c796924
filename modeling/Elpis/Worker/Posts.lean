import Elpis.Worker.Safety

/-!
# Workers: posts and their repeats

A post is stored under a key of its session and direction. Here is what a later post with
that key gets, over every run of the system: the stored message, or an error, and in neither
case another row. What was stored stays, is acknowledged once, and is handed out oldest
first.
-/

namespace Elpis.Worker

open Elpis.Lib Elpis.Mind

/-! ## What stored messages keep true -/

/-- What `boundedText` lets through. -/
def Bounded (value : String) (max : ℕ) : Prop := Js.trim value ≠ "" ∧ Js.length value ≤ max

/-- What the input checks let through for a post in this direction. -/
structure Proper (direction : Direction) (key sender body : String) : Prop where
  key : Bounded key 80 ∧ isMessageKey key = true
  sender : direction = .dispatcherToWorker → Bounded sender 80
  body : Bounded body 100000

/-- The update of a finish that is posted again changes nothing of this session. -/
def SessionRow.Settled (r : SessionRow) (messages : AutoTable MessageRow.id) : Prop :=
  r.status = .finished → r.lastError = none ∧
    ∀ m ∈ messages, m.isFinishOf r.id = true → m.createdAt ≤ r.updatedAt

/-- What holds of the messages alone. -/
structure Stored (messages : AutoTable MessageRow.id) : Prop where
  proper : ∀ m ∈ messages, Proper m.direction m.messageKey m.sender m.body
  unique : ∀ m ∈ messages, ∀ m' ∈ messages, m.sessionId = m'.sessionId →
    m.direction = m'.direction → m.messageKey = m'.messageKey → m = m'
  once : ∀ id, ∀ m ∈ messages, ∀ m' ∈ messages,
    m.isFinishOf id = true → m'.isFinishOf id = true → m = m'
  ordered : messages.rows.Pairwise (fun m m' => m.id < m'.id)

/-- What makes a post repeatable. -/
structure WorkerDb.Repeatable (db : WorkerDb) : Prop where
  stored : Stored db.messages
  settled : ∀ r ∈ db.sessions, r.Settled db.messages

theorem repeatable_empty : WorkerDb.empty.Repeatable where
  stored :=
    { proper := fun _ hm => absurd hm Table.not_mem_empty
      unique := fun _ hm => absurd hm Table.not_mem_empty
      once := fun _ _ hm => absurd hm Table.not_mem_empty
      ordered := List.Pairwise.nil }
  settled := fun _ hr => absurd hr Table.not_mem_empty

/-- A message later: it is acknowledged, if it was not. -/
structure MessageRow.Later (m m' : MessageRow) : Prop where
  same : m' = { m with acknowledgedAt := m'.acknowledgedAt }
  acknowledged : ∀ t, m.acknowledgedAt = some t → m'.acknowledgedAt = some t

/-- The rows later: repeatable as before, and with all their messages. -/
structure Later (db db' : WorkerDb) : Prop where
  repeatable : db.Repeatable → db'.Repeatable
  messages : ∀ m ∈ db.messages, ∃ m' ∈ db'.messages, m.Later m'

variable {f : SessionRow → SessionRow} {hf : ∀ r, (f r).id = r.id}

section Later

variable {db db' db'' : WorkerDb} {id : String}

theorem MessageRow.Later.refl (m : MessageRow) : m.Later m := ⟨rfl, fun _ h => h⟩

theorem MessageRow.Later.trans {m m' m'' : MessageRow} (h : m.Later m') (h' : m'.Later m'') : m.Later m'' := by
  refine ⟨?_, fun t ht => h'.acknowledged t (h.acknowledged t ht)⟩
  rw [h'.same, h.same]

instance : IsPreorder WorkerDb Later where
  refl _ := ⟨fun h => h, fun m hm => ⟨m, hm, .refl m⟩⟩
  trans _ _ _ h h' := by
    refine ⟨fun hr => h'.repeatable (h.repeatable hr), fun m hm => ?_⟩
    obtain ⟨m', hm', hlater⟩ := h.messages m hm
    obtain ⟨m'', hm'', hlater'⟩ := h'.messages m' hm'
    exact ⟨m'', hm'', hlater.trans hlater'⟩

/-- A step that writes no message and leaves every session settled. -/
theorem Later.sessions (hmessages : db'.messages = db.messages)
    (hsettled : db.Repeatable → ∀ r ∈ db'.sessions, r.Settled db.messages) : Later db db' := by
  refine ⟨fun h => ?_, fun m hm => ⟨m, hmessages ▸ hm, .refl m⟩⟩
  have hsettled := hsettled h
  have hstored := h.stored
  rw [← hmessages] at hstored hsettled
  exact ⟨hstored, hsettled⟩

/-- An update that finishes no session and leaves the finished ones as they are. -/
def Quiet (r r' : SessionRow) : Prop :=
  r'.status = .finished → r.status = .finished ∧ r'.lastError = r.lastError ∧ r.updatedAt ≤ r'.updatedAt

theorem quiet_of_ne {r r' : SessionRow} (h : r'.status ≠ .finished) : Quiet r r' :=
  fun hfinished => absurd hfinished h

theorem SessionRow.Settled.quiet {r r' : SessionRow} {messages : AutoTable MessageRow.id}
    (h : r.Settled messages) (hid : r'.id = r.id) (hquiet : Quiet r r') : r'.Settled messages := by
  intro hfinished
  obtain ⟨hs, he, hu⟩ := hquiet hfinished
  refine ⟨he.trans (h hs).1, fun m hm hf => ?_⟩
  rw [hid] at hf
  exact ((h hs).2 m hm hf).trans hu

theorem Later.update {p : SessionRow → Bool}
    (hquiet : ∀ r ∈ db.sessions, p r = true → Quiet r (f r)) :
    Later db { db with sessions := db.sessions.update p f hf } := by
  refine Later.sessions rfl (fun h r' (hr' : r' ∈ db.sessions.update p f hf) => ?_)
  obtain ⟨r, hr, rfl⟩ := Table.mem_update.mp hr'
  by_cases hp : p r = true
  · rw [if_pos hp]
    exact (h.settled r hr).quiet (hf r) (hquiet r hr hp)
  · rw [if_neg hp]
    exact h.settled r hr

/-- A session that has its finish message is marked finished. -/
theorem Later.finish {p : SessionRow → Bool}
    (hp : ∀ r ∈ db.sessions, p r = true → (f r).lastError = none ∧
      ∀ m ∈ db.messages, m.isFinishOf r.id = true → db.Repeatable → m.createdAt ≤ (f r).updatedAt) :
    Later db { db with sessions := db.sessions.update p f hf } := by
  refine Later.sessions rfl (fun h r' (hr' : r' ∈ db.sessions.update p f hf) => ?_)
  obtain ⟨r, hr, rfl⟩ := Table.mem_update.mp hr'
  by_cases hpr : p r = true
  · rw [if_pos hpr]
    intro _
    refine ⟨(hp r hr hpr).1, fun m hm hfin => (hp r hr hpr).2 m hm ?_ h⟩
    rwa [hf r] at hfin
  · rw [if_neg hpr]
    exact h.settled r hr

/-- The time of the finish message of a session is that of every one it has. -/
theorem le_finishTime {r : SessionRow} {m : MessageRow} (h : db.Repeatable) (hm : m ∈ db.messages)
    (hfin : m.isFinishOf r.id = true) : m.createdAt ≤ World.finishTime db r := by
  have hsome : (db.finishOf r.id).isSome = true := WorkerDb.finishOf_isSome.mpr ⟨m, hm, hfin⟩
  obtain ⟨stored, hstored⟩ := Option.isSome_iff_exists.mp hsome
  have hmem : stored ∈ db.messages := List.mem_of_find?_eq_some hstored
  have hfound := List.find?_some hstored
  rw [World.finishTime, hstored, h.stored.once r.id m hm stored hmem hfin hfound]
  exact le_rfl

end Later

/-! ## The broker posts nothing -/

/-- The rows of a world later. -/
def World.Later (w w' : World) : Prop := Worker.Later w.db w'.db

instance : IsPreorder World World.Later where
  refl w := refl_of Worker.Later w.db
  trans _ _ _ h h' := trans_of Worker.Later h h'

section Slices

variable {w w' : World} {t : Thread} {id : String} {s : Slice}

abbrev Steps {α : Type} (m : SpawnM α) : Prop := Tx.Along World.Later m

theorem World.later_of_db (h : w'.db = w.db) : w.Later w' := by
  unfold World.Later
  rw [h]
  exact refl_of Worker.Later w.db

theorem steps_memory {f : World → World} (h : ∀ w, (f w).db = w.db) : Steps (Tx.write f : SpawnM Unit) :=
  Tx.Along.write (fun w => World.later_of_db (h w))

theorem steps_setSession {p : SessionRow → Bool}
    (hquiet : ∀ r, p r = true → Quiet r (f r)) :
    Steps (Tx.write (fun w => w.setSession id p f hf) : SpawnM Unit) := by
  refine Tx.Along.write (fun w => Worker.Later.update (fun r _ hp => hquiet r ?_))
  exact (Bool.and_eq_true _ _ ▸ hp).2

theorem steps_current : Steps (requireOperationCurrent s) := Tx.Along.ensure _ _

theorem steps_settleProvisioning (promise : ℕ) : Steps (settleProvisioning promise) :=
  steps_memory (fun _ => rfl)

theorem steps_newJob (state : PromiseState) : Steps (newJob state) :=
  (Tx.Along.read _).bind fun _ => Tx.Along.bind (steps_memory (fun _ => rfl)) fun _ => Tx.Along.pure _

theorem steps_endProvisioning (promise : ℕ) : Steps (endProvisioning id promise) := by
  refine steps_memory (fun w => ?_)
  split
  · rfl
  · rfl

theorem steps_cleanupRuntime (always : Bool) : Steps (cleanupRuntime id always) := by
  refine (Tx.Along.read _).bind fun completed => Tx.Along.ite (steps_newJob _) ?_
  refine (Tx.Along.read _).bind fun existing => ?_
  cases existing with
  | some job => exact Tx.Along.pure job
  | none =>
      exact (steps_newJob _).bind fun job => Tx.Along.bind (steps_memory (fun _ => rfl)) fun _ =>
        Tx.Along.bind (steps_memory (fun _ => rfl)) fun _ => Tx.Along.pure job

theorem steps_cleanupThen (always : Bool) (pause : ℕ → Thread) :
    Steps (do let job ← cleanupRuntime id always; pure (pause job)) :=
  (steps_cleanupRuntime always).bind fun job => Tx.Along.pure (pause job)

/-- A new session is active, so there is nothing to settle. -/
theorem steps_insertSession (mind : MindDb) {row : SessionRow} (hrow : row.status ≠ .finished) :
    Steps (insertSession mind row) := by
  intro w
  simp only [insertSession, Tx.wp_bind, Tx.wp_read, Tx.wp_ensure, Tx.wp_require, Tx.wp_write]
  refine ⟨fun _ => ⟨fun sessions hsessions => ?_, fun _ => refl_of World.Later w⟩, fun _ => refl_of World.Later w⟩
  obtain ⟨fresh, rfl⟩ := Table.insert?_eq_some.mp hsessions
  refine Worker.Later.sessions rfl (fun h r (hr : r ∈ w.db.sessions.insert row fresh) => ?_)
  rcases Table.mem_insert.mp hr with hr | rfl
  · exact h.settled r hr
  · exact fun hfinished => absurd hfinished hrow

theorem steps_admission (cfg : SpawnConfig) (mindId : CanonicalId) (modelRef : String) (draws : StartDraws)
    (now : Time) : Steps (admission cfg mindId modelRef draws now) := by
  refine Tx.Along.transaction ((Tx.Along.read _).bind fun _ => (Tx.Along.ensure _ _).bind fun _ =>
    (Tx.Along.ensure _ _).bind fun _ => (Tx.Along.read _).bind fun _ => (Tx.Along.require _ _).bind fun new => ?_)
  exact (steps_insertSession _ (fun h => by cases h)).bind fun _ => Tx.Along.pure new

theorem steps_start (cfg : SpawnConfig) (mindId : String) (value : StartValue) (draws : StartDraws) :
    Steps (start cfg s mindId value draws) :=
  steps_current.bind fun _ => (Tx.Along.ensure _ _).bind fun _ => (Tx.Along.ofExcept _).bind fun _ =>
    (Tx.Along.ofExcept _).bind fun _ => (Tx.Along.ensure _ _).bind fun _ =>
      (steps_admission cfg _ _ _ _).bind fun _ => (Tx.Along.read _).bind fun _ =>
        Tx.Along.bind (steps_memory (fun _ => rfl)) fun _ => Tx.Along.pure _

theorem steps_bindSource (r : Except SourceFailure (Option SourceReceipt)) : Steps (bindSource s id r) := by
  cases r with
  | error e => exact Tx.Along.throw _
  | ok source =>
      refine steps_current.bind fun _ => ?_
      cases source with
      | none => exact Tx.Along.pure ()
      | some receipt =>
          refine (Tx.Along.read _).bind fun bound => (Tx.Along.ensure _ _).bind fun _ => Tx.Along.bind ?_ fun _ =>
            Tx.Along.ite (Tx.Along.pure ()) ((Tx.Along.ensure _ _).bind fun _ => Tx.Along.throw _)
          refine steps_setSession (fun r hp => quiet_of_ne (fun hfinished => ?_))
          simp only [Bool.and_eq_true, decide_eq_true_eq] at hp
          exact absurd (hp.1.symm.trans hfinished) (by decide)

theorem steps_sourceFailed (dirty : Bool) (e : SpawnError) : Steps (sourceFailed s id dirty e) := by
  refine (Tx.Along.ensure _ _).bind fun _ => steps_current.bind fun _ => Tx.Along.bind ?_ fun _ => ?_
  · exact steps_setSession (fun r _ => quiet_of_ne (fun h => by cases h))
  · cases e with
    | spawn => exact Tx.Along.throw _
    | other => exact Tx.Along.throw _

theorem steps_afterSource (promise : ℕ) (r : Except SourceFailure (Option SourceReceipt)) :
    Steps (afterSource s id promise r) := by
  refine (Tx.Along.attempt (steps_bindSource r)).bind fun bound => ?_
  cases bound with
  | ok => exact Tx.Along.pure _
  | error e =>
      refine (Tx.Along.attempt (steps_sourceFailed _ e)).bind fun thrown =>
        (steps_settleProvisioning promise).bind fun _ => (steps_endProvisioning promise).bind fun _ => ?_
      cases thrown with
      | ok => exact Tx.Along.pure _
      | error e => exact Tx.Along.throw e

theorem steps_returnSession (promise : ℕ) : Steps (returnSession id promise) :=
  (steps_endProvisioning promise).bind fun _ => (Tx.Along.read _).bind fun _ => Tx.Along.pure _

theorem steps_provisionFailed (promise : ℕ) (error : String) : Steps (provisionFailed s id promise error) := by
  refine (Tx.Along.read _).bind fun changed => Tx.Along.bind ?_ fun _ => (Tx.Along.read _).bind fun row =>
    Tx.Along.ite (steps_returnSession promise) (steps_cleanupThen _ _)
  exact steps_setSession (fun r _ => quiet_of_ne (fun h => by cases h))

theorem steps_provisionReady (promise : ℕ) (receipt : ProvisionReceipt) :
    Steps (provisionReady s id promise receipt) := by
  refine (Tx.Along.read _).bind fun changed => Tx.Along.bind ?_ fun _ => (Tx.Along.read _).bind fun row =>
    Tx.Along.ite (steps_returnSession promise) (steps_cleanupThen _ _)
  exact steps_setSession (fun r _ => quiet_of_ne (fun h => by cases h))

theorem steps_afterProvision (promise : ℕ) (r : Except String ProvisionReceipt) :
    Steps (afterProvision s id promise r) := by
  refine (steps_settleProvisioning promise).bind fun _ => ?_
  cases r with
  | error e => exact Tx.Along.ite (steps_provisionFailed promise e) (Tx.Along.pure _)
  | ok receipt => exact Tx.Along.ite (steps_provisionReady promise receipt) (Tx.Along.pure _)

theorem steps_throwFromStart (promise : ℕ) (e : SpawnError) : Steps (throwFromStart id promise e) :=
  (steps_endProvisioning promise).bind fun _ => Tx.Along.throw e

theorem steps_resolve (ref : String) : Steps (resolve ref) := by
  refine (Tx.Along.ensure _ _).bind fun _ => (Tx.Along.read _).bind fun rows => ?_
  split
  · exact Tx.Along.throw _
  · exact Tx.Along.pure _
  · exact Tx.Along.throw _

theorem steps_dismissCleanup : Steps (dismissCleanup s id) :=
  steps_current.bind fun _ => steps_cleanupThen _ _

theorem steps_dismiss (ref : String) : Steps (dismiss s ref) := by
  refine steps_current.bind fun _ => (steps_resolve ref).bind fun session => (Tx.Along.read _).bind fun changed =>
    Tx.Along.bind ?_ fun _ => (Tx.Along.read _).bind fun revoked => Tx.Along.ite (Tx.Along.pure _) ?_
  · exact steps_setSession (fun r _ => quiet_of_ne (fun h => by cases h))
  · refine (Tx.Along.read _).bind fun provisioning => ?_
    cases provisioning with
    | none => exact steps_dismissCleanup
    | some promise => exact Tx.Along.pure _

theorem steps_afterDismissCleanup (state : PromiseState) : Steps (afterDismissCleanup s id state) :=
  steps_current.bind fun _ => (Tx.Along.ensure _ _).bind fun _ => (Tx.Along.read _).bind fun _ => Tx.Along.pure _

theorem steps_afterCleanup (job : ℕ) (always : Bool) (r : Except String Unit) :
    Steps (afterCleanup s id job always r) := by
  cases r with
  | error e =>
      refine Tx.Along.bind (Tx.Along.when ?_) fun _ => Tx.Along.pure _
      exact steps_setSession (fun r _ h => ⟨h, rfl, le_rfl⟩)
  | ok =>
      refine Tx.Along.bind (Tx.Along.when ?_) fun _ => Tx.Along.pure _
      exact steps_setSession (fun r _ h => ⟨h, rfl, le_rfl⟩)

theorem steps_afterCleaned (job : ℕ) (ok : Bool) : Steps (afterCleaned id job ok) := by
  refine Tx.Along.bind (steps_memory (fun w => ?_)) fun _ => Tx.Along.bind (steps_memory (fun _ => rfl)) fun _ =>
    Tx.Along.pure _
  split
  · rfl
  · rfl

theorem steps_pendingLoop (rows : List (String × Bool)) : Steps (pendingLoop s rows) := by
  induction rows with
  | nil => exact (Tx.Along.read _).bind fun _ => Tx.Along.pure _
  | cons row rest ih =>
      obtain ⟨id, finished⟩ := row
      refine (Tx.Along.read _).bind fun provisioning => Tx.Along.ite (Tx.Along.pure _) (Tx.Along.ite ih
        (Tx.Along.ite ?_ (steps_cleanupThen _ _)))
      exact (Tx.Along.read _).bind fun _ => Tx.Along.bind (steps_memory (fun _ => rfl)) fun _ => Tx.Along.pure _

theorem steps_cleanupPending : Steps (cleanupPending s) :=
  (Tx.Along.read _).bind fun _ => Tx.Along.ite (steps_pendingLoop _) (Tx.Along.pure _)

theorem steps_afterPendingInspect (graceExpired : Bool) (rest : List (String × Bool))
    (r : Except String ProvisionState) : Steps (afterPendingInspect s id graceExpired rest r) :=
  Tx.Along.ite (Tx.Along.pure _) (Tx.Along.ite (steps_cleanupThen _ _) (steps_pendingLoop rest))

theorem steps_afterPendingCleanup (rest : List (String × Bool)) : Steps (afterPendingCleanup s id rest) := by
  refine Tx.Along.ite (Tx.Along.pure _) (Tx.Along.bind (steps_memory (fun w => ?_)) fun _ => steps_pendingLoop rest)
  split
  · rfl
  · rfl

/-- The update names the time of the finish message. -/
theorem steps_markFinished : Steps (markFinished id) := by
  intro w
  simp only [markFinished, Tx.wp_bind, Tx.wp_read, Tx.wp_write]
  refine Worker.Later.finish (fun r _ _ => ⟨rfl, fun m hm hfin h => ?_⟩)
  exact (le_finishTime h hm hfin).trans (le_max_right _ _)

theorem steps_recoverLoop (thenCleanup : Bool) (ids : List String) : Steps (recoverLoop s thenCleanup ids) := by
  induction ids with
  | nil => exact (Tx.Along.read _).bind fun _ => Tx.Along.pure _
  | cons id rest ih =>
      exact (Tx.Along.read _).bind fun _ => Tx.Along.ite (Tx.Along.pure _)
        (Tx.Along.ite (steps_markFinished.bind fun _ => ih) (Tx.Along.pure _))

theorem steps_recoverState (thenCleanup : Bool) : Steps (recoverState s thenCleanup) := by
  refine Tx.Along.ite (Tx.Along.pure _) (Tx.Along.bind (Tx.Along.write fun w => ?_) fun _ =>
    (Tx.Along.read _).bind fun _ => steps_recoverLoop thenCleanup _)
  refine Worker.Later.finish (fun r _ _ => ⟨rfl, fun m hm hfin h => ?_⟩)
  exact (le_finishTime h hm hfin).trans (le_max_right _ _)

theorem steps_afterRecoverInspect (rest : List String) (thenCleanup : Bool) (r : Except String ProvisionState) :
    Steps (afterRecoverInspect s id rest thenCleanup r) := by
  refine (Tx.Along.read _).bind fun finished => Tx.Along.ite (Tx.Along.pure _)
    (Tx.Along.ite (steps_markFinished.bind fun _ => steps_recoverLoop thenCleanup rest) ?_)
  have hloop := @steps_recoverLoop s thenCleanup rest
  split
  · exact hloop
  · exact hloop
  · exact Tx.Along.bind (steps_setSession (fun r _ => quiet_of_ne (fun h => by cases h))) fun _ => hloop
  · exact Tx.Along.bind (steps_setSession (fun r _ => quiet_of_ne (fun h => by cases h))) fun _ => hloop

theorem steps_afterRecovered : Steps (afterRecovered s) :=
  Tx.Along.ite steps_cleanupPending (Tx.Along.pure _)

theorem steps_revokeProvisioning (now : Time) : Steps (revokeProvisioning now) := by
  refine (Tx.Along.read _).bind fun ids => Tx.Along.bind (Tx.Along.write fun w => ?_) fun _ => Tx.Along.read _
  exact Worker.Later.update (fun r _ _ => quiet_of_ne (fun h => by cases h))

/-- A paused call that goes on posts nothing. -/
theorem steps_next {o : Outcome} {m : SpawnM Thread} (h : t.next w s o = some m) : Steps m := by
  unfold Thread.next at h
  split at h
  · cases h
    exact steps_afterSource _ _
  · cases h
    exact steps_afterProvision _ _
  · cases h
    exact Tx.Along.ite (steps_provisionFailed _ _) (steps_throwFromStart _ _)
  · split at h
    · cases h
    · cases h
      exact steps_throwFromStart _ _
  · cases h
    exact Tx.Along.ite (steps_provisionReady _ _) (steps_throwFromStart _ _)
  · split at h
    · cases h
    · cases h
      exact steps_throwFromStart _ _
  · split at h
    · cases h
      exact steps_dismissCleanup
    · cases h
  · split at h
    · cases h
    · cases h
    · cases h
      exact steps_afterDismissCleanup _
  · cases h
    exact steps_afterCleanup _ _ _
  · cases h
    exact steps_afterCleaned _ _
  · cases h
    exact steps_afterRecoverInspect _ _ _
  · cases h
    exact steps_afterRecovered
  · cases h
    exact steps_afterPendingInspect _ _ _
  · split at h
    · cases h
    · cases h
      exact steps_afterPendingCleanup _
  · cases h

end Slices

/-! ## Posting and acknowledging -/

section Mailbox

variable {db : WorkerDb} {sessionId key sender body : String} {direction : Direction} {kind : MailboxKind}
  {now : Time} {α : Type}

theorem existing_eq_none : db.existing sessionId direction key = none ↔ ∀ m ∈ db.messages,
    m.sessionId = sessionId → m.direction = direction → m.messageKey ≠ key := by
  rw [WorkerDb.existing, List.find?_eq_none]
  simp only [Bool.and_eq_true, decide_eq_true_eq, not_and, and_imp]
  exact Iff.rfl

theorem Stored.push (h : Stored db.messages) (hproper : Proper direction key sender body)
    (hnew : db.existing sessionId direction key = none) (hkind : kind = .message ∨ db.finishOf sessionId = none) :
    Stored (db.addMessage sessionId direction kind key sender body now).messages := by
  have hnone := existing_eq_none.mp hnew
  constructor
  · intro m hm
    rcases AutoTable.mem_push.mp hm with hm | rfl
    · exact h.proper m hm
    · exact hproper
  · intro m hm m' hm' hs hd hk
    rcases AutoTable.mem_push.mp hm with hm | rfl <;> rcases AutoTable.mem_push.mp hm' with hm' | rfl
    · exact h.unique m hm m' hm' hs hd hk
    · exact absurd hk (hnone m hm hs hd)
    · exact absurd hk.symm (hnone m' hm' hs.symm hd.symm)
    · rfl
  · intro id m hm m' hm' hf hf'
    have hother : ∀ x ∈ db.messages, x.isFinishOf id = true →
        MessageRow.isFinishOf ⟨db.messages.next, sessionId, direction, kind, key, sender, body, now, none⟩ id = true →
          False := by
      intro x hx hxf hnf
      simp only [MessageRow.isFinishOf, Bool.and_eq_true, decide_eq_true_eq] at hnf
      obtain ⟨⟨rfl, -⟩, rfl⟩ := hnf
      rcases hkind with hkind | hkind
      · cases hkind
      · exact absurd (WorkerDb.finishOf_eq_none.mp hkind x hx) (by rw [hxf]; decide)
    rcases AutoTable.mem_push.mp hm with hm | rfl <;> rcases AutoTable.mem_push.mp hm' with hm' | rfl
    · exact h.once id m hm m' hm' hf hf'
    · exact (hother m hm hf hf').elim
    · exact (hother m' hm' hf' hf).elim
    · rfl
  · show (db.messages.rows ++ [_]).Pairwise _
    rw [List.pairwise_append]
    refine ⟨h.ordered, List.pairwise_singleton _ _, ?_⟩
    intro m hm m' hm'
    rw [List.mem_singleton.mp hm']
    exact Nat.lt_succ_of_le (db.messages.le_seq m hm)

theorem messages_push : ∀ m ∈ db.messages,
    ∃ m' ∈ (db.addMessage sessionId direction kind key sender body now).messages, m.Later m' :=
  fun m hm => ⟨m, AutoTable.mem_push.mpr (Or.inl hm), .refl m⟩

theorem Later.message (hproper : Proper direction key sender body)
    (hnew : db.existing sessionId direction key = none) :
    Later db (db.addMessage sessionId direction .message key sender body now) := by
  refine ⟨fun h => ⟨h.stored.push hproper hnew (Or.inl rfl), fun r hr hfinished => ?_⟩, messages_push⟩
  refine ⟨(h.settled r hr hfinished).1, fun m hm hf => ?_⟩
  rcases AutoTable.mem_push.mp hm with hm | rfl
  · exact (h.settled r hr hfinished).2 m hm hf
  · simp [MessageRow.isFinishOf] at hf

theorem along_insert (hproper : Proper direction key sender body) :
    Tx.Along Later (insert sessionId direction .message key sender body now) := by
  intro db
  have hstay := refl_of Later db
  simp only [insert, Tx.wp_bind, Tx.wp_read]
  cases hprior : db.existing sessionId direction key with
  | some prior =>
      simp only [Tx.wp_bind, Tx.wp_ensure, Tx.wp_pure]
      exact ⟨fun _ => hstay, fun _ => hstay⟩
  | none =>
      simp only [Tx.wp_bind, Tx.wp_read, Tx.wp_ensure, Tx.wp_attempt, wp_insertMessage]
      refine ⟨fun _ => ⟨fun _ => ⟨fun _ => ?_, fun _ => ?_⟩, fun _ => hstay⟩, fun _ => hstay⟩
      · exact Tx.wp_pure.mpr (Later.message hproper hprior)
      · simp only [reduceCtorEq, if_false, Tx.wp_throw]
        exact hstay

/-- The message and the status of a finish together. -/
theorem Later.finished {session row : SessionRow} (hproper : Proper .workerToDispatcher key sender body)
    (hnew : db.existing session.id .workerToDispatcher key = none) (hnone : db.finishOf session.id = none)
    (hrow : db.sessions.get? session.id = some row) (hactive : row.status.active = true) (herror : ∀ r, (f r).lastError = none)
    (htime : ∀ r, now ≤ (f r).updatedAt) :
    Later db ((db.addMessage session.id .workerToDispatcher .finish key sender body now).setSession session.id
      (·.status.active) f hf) := by
  refine ⟨fun h => ⟨h.stored.push hproper hnew (Or.inr hnone), ?_⟩, messages_push⟩
  intro r' (hr' : r' ∈ db.sessions.update (fun r => decide (r.id = session.id) && r.status.active) f hf)
  obtain ⟨r, hr, rfl⟩ := Table.mem_update.mp hr'
  by_cases hp : (decide (r.id = session.id) && r.status.active) = true
  · rw [if_pos hp]
    intro _
    refine ⟨herror r, fun m hm hfin => ?_⟩
    rw [Bool.and_eq_true, decide_eq_true_eq] at hp
    rcases AutoTable.mem_push.mp hm with hm | rfl
    · have hold := WorkerDb.finishOf_eq_none.mp hnone m hm
      rw [← hp.1, ← hf r, hfin] at hold
      cases hold
    · exact htime r
  · rw [if_neg hp]
    intro hfinished
    refine ⟨(h.settled r hr hfinished).1, fun m hm hf => ?_⟩
    rcases AutoTable.mem_push.mp hm with hm | rfl
    · exact (h.settled r hr hfinished).2 m hm hf
    · -- the session of the new message is active
      simp only [MessageRow.isFinishOf, Bool.and_eq_true, decide_eq_true_eq] at hf
      have hsame : r = row := Table.eq_of_key hr (Table.mem_of_get? hrow)
        (hf.1.1.symm.trans (Table.key_of_get? hrow).symm)
      rw [← hsame, hfinished] at hactive
      cases hactive

theorem along_insertFinish (session : SessionRow) (hproper : Proper .workerToDispatcher key session.worker body) :
    Tx.Along Later (insertFinish session key body now) := by
  intro db
  have hstay := refl_of Later db
  simp only [insertFinish, insertFinishBody, Tx.wp_transaction, Tx.wp_bind, Tx.wp_read]
  cases hprior : db.existing session.id .workerToDispatcher key with
  | some prior =>
      simp only [Tx.wp_bind, Tx.wp_ensure, Tx.wp_write, Tx.wp_pure]
      refine ⟨fun hsame => Later.finish (fun r hr hp => ⟨rfl, fun m hm hf h => ?_⟩), fun _ => hstay⟩
      obtain ⟨hmem, hid, hdir, _⟩ := WorkerDb.existing_spec hprior
      simp only [Bool.and_eq_true, decide_eq_true_eq] at hp
      simp only [MessageRow.same, Bool.and_eq_true, decide_eq_true_eq] at hsame
      have hfin : prior.isFinishOf r.id = true := by
        simp [MessageRow.isFinishOf, hid, hdir, hsame.1.1, hp.1]
      rw [h.stored.once r.id m hm prior hmem hf hfin]
      exact le_max_right _ _
  | none =>
      simp only [Tx.wp_bind, Tx.wp_read, Tx.wp_ensure, Tx.wp_require, wp_insertMessage, Tx.wp_write, Tx.wp_pure]
      refine ⟨fun hnone => ⟨fun row hrow => ⟨fun _ => ⟨fun _ => ⟨fun _ => ?_, fun _ => hstay⟩, fun _ => hstay⟩,
        fun _ => hstay⟩, fun _ => hstay⟩, fun _ => hstay⟩
      rw [Option.filter_eq_some_iff] at hrow
      exact Later.finished hproper hprior hnone hrow.1 hrow.2 (fun _ => rfl) (fun _ => le_max_right _ _)

/-- What follows a check of a text knows that the text passed. -/
theorem along_boundedText {value label : String} {max : ℕ} {f : Unit → MailboxM α}
    (h : Bounded value max → Tx.Along Later (f ())) : Tx.Along Later (boundedText value label max >>= f) := by
  intro db
  simp only [boundedText, Tx.wp_bind, Tx.wp_ensure]
  exact ⟨fun htext => ⟨fun hlength => h ⟨htext, hlength⟩ db, fun _ => refl_of Later db⟩, fun _ => refl_of Later db⟩

theorem along_messageKey {f : Unit → MailboxM α}
    (h : Bounded key 80 ∧ isMessageKey key = true → Tx.Along Later (f ())) :
    Tx.Along Later (messageKey key >>= f) := by
  intro db
  simp only [messageKey, boundedText, Tx.wp_bind, Tx.wp_ensure]
  exact ⟨fun htext => ⟨fun hlength => ⟨fun hkey => h ⟨⟨htext, hlength⟩, hkey⟩ db, fun _ => refl_of Later db⟩,
    fun _ => refl_of Later db⟩, fun _ => refl_of Later db⟩

theorem along_sendToWorker : Tx.Along Later (sendToWorker sessionId key body sender now) := by
  refine Tx.Along.bind (Tx.Along.of_readOnly (readOnly_dispatcherSession _ _)) fun session => ?_
  exact along_messageKey fun hkey => along_boundedText fun hsender => along_boundedText fun hbody =>
    along_insert ⟨hkey, fun _ => hsender, hbody⟩

theorem along_terminalFinishRetry (sha : Sha256) (token : String) (hkey : Bounded key 80 ∧ isMessageKey key = true)
    (hbody : Bounded body 100000) : Tx.Along Later (terminalFinishRetry sha token key body now) := by
  refine (Tx.Along.read _).bind fun found => ?_
  cases found with
  | none => exact Tx.Along.pure _
  | some session =>
      refine (Tx.Along.read _).bind fun stored => Tx.Along.ite ?_ (Tx.Along.pure _)
      exact (along_insertFinish session ⟨hkey, (fun h => by cases h), hbody⟩).bind fun _ => Tx.Along.pure _

theorem along_postFromWorker (sha : Sha256) (token : String) :
    Tx.Along Later (postFromWorker sha token key kind body now) := by
  refine (Tx.Along.read _).bind fun active => along_messageKey fun hkey => along_boundedText fun hbody => ?_
  have hproper : ∀ sender, Proper .workerToDispatcher key sender body :=
    fun sender => ⟨hkey, (fun h => by cases h), hbody⟩
  cases active with
  | some session =>
      cases kind with
      | message => exact along_insert (hproper _)
      | finish => exact along_insertFinish session (hproper _)
  | none =>
      cases kind with
      | message => exact Tx.Along.throw _
      | finish => exact (along_terminalFinishRetry sha token hkey hbody).bind fun _ => Tx.Along.require _ _

/-- `COALESCE` keeps the first acknowledgement. -/
theorem Later.acknowledge (p : MessageRow → Bool) : Later db (db.setAcknowledged p now) := by
  -- every message later is one from before, up to its acknowledgement
  have hold : ∀ x ∈ (db.setAcknowledged p now).messages, ∃ m ∈ db.messages,
      x = { m with acknowledgedAt := x.acknowledgedAt } := by
    intro x hx
    obtain ⟨m, hm, rfl⟩ := AutoTable.mem_update.mp hx
    refine ⟨m, hm, ?_⟩
    split
    · rfl
    · rfl
  have hsame : ∀ x ∈ (db.setAcknowledged p now).messages, ∀ x' ∈ (db.setAcknowledged p now).messages,
      (∀ m ∈ db.messages, ∀ m' ∈ db.messages, x = { m with acknowledgedAt := x.acknowledgedAt } →
        x' = { m' with acknowledgedAt := x'.acknowledgedAt } → m = m') → x = x' := by
    intro x hx x' hx' h
    obtain ⟨m, hm, heq⟩ := hold x hx
    obtain ⟨m', hm', heq'⟩ := hold x' hx'
    refine Table.eq_of_key hx hx' ?_
    rw [heq, heq', h m hm m' hm' heq heq']
  refine ⟨fun h => ⟨⟨?_, ?_, ?_, ?_⟩, fun r hr hfinished => ⟨(h.settled r hr hfinished).1, ?_⟩⟩, fun m hm => ?_⟩
  · intro x hx
    obtain ⟨m, hm, heq⟩ := hold x hx
    rw [heq]
    exact h.stored.proper m hm
  · intro x hx x' hx' hs hd hk
    refine hsame x hx x' hx' (fun m hm m' hm' heq heq' => ?_)
    rw [heq, heq'] at hs hd hk
    exact h.stored.unique m hm m' hm' hs hd hk
  · intro id x hx x' hx' hf hf'
    refine hsame x hx x' hx' (fun m hm m' hm' heq heq' => ?_)
    rw [heq] at hf
    rw [heq'] at hf'
    exact h.stored.once id m hm m' hm' hf hf'
  · show (db.messages.rows.map _).Pairwise _
    refine List.pairwise_map.mpr (h.stored.ordered.imp (fun {m m'} hlt => ?_))
    have hid : ∀ x : MessageRow, (if p x then { x with acknowledgedAt := some (x.acknowledgedAt.getD now) } else x).id =
        x.id := by
      intro x
      split
      · rfl
      · rfl
    rw [hid, hid]
    exact hlt
  · intro x hx hf
    obtain ⟨m, hm, heq⟩ := hold x hx
    rw [heq] at hf ⊢
    exact (h.settled r hr hfinished).2 m hm hf
  · refine ⟨_, AutoTable.mem_update.mpr ⟨m, hm, rfl⟩, ?_⟩
    split
    · refine ⟨rfl, fun t ht => ?_⟩
      show some (m.acknowledgedAt.getD now) = some t
      rw [ht]
      rfl
    · exact .refl m

theorem along_acknowledge (ids : List ℤ) : Tx.Along Later (acknowledge sessionId direction ids now) :=
  Tx.Along.bind (Tx.Along.of_readOnly (readOnly_boundedIds ids)) fun _ => Tx.Along.transaction
    ((Tx.Along.read _).bind fun _ => (Tx.Along.ensure _ _).bind fun _ =>
      (Tx.Along.write fun _ => Later.acknowledge _).bind fun _ => Tx.Along.pure _)

theorem later_storeArtifact (row : ArtifactRow) : Later db (db.storeArtifact row) := by
  unfold WorkerDb.storeArtifact
  split
  · exact Later.sessions rfl (fun h => h.settled)
  · exact refl_of Later db

theorem later_deliver (id : String) : Later db (db.deliver id now) :=
  Later.update (fun _ _ _ h => ⟨h, rfl, le_rfl⟩)

end Mailbox

/-! ## Every run -/

section Runs

variable {w w' : World} {sha : Sha256} {cfg : SpawnConfig}

theorem World.later_run {tid : ℕ} {m : SpawnM Thread} (hm : Steps m) : w.Later (w.run tid m) :=
  Tx.wp_final (P := fun w' => w.Later w') (hm w)

theorem World.later_call {m : SpawnM Thread} (hm : Steps m) : w.Later (w.call m) :=
  World.later_run (w := { w with threads := w.threads ++ [.returned (.ok [])] }) hm

theorem later_mail {α : Type} {m : MailboxM α} (hm : Tx.Along Later m) : w.Later (w.mail m) :=
  Tx.wp_final (P := fun db' => Later w.db db') (hm w.db)

theorem later_step (a : WorkerAct) : w.Later (w.step sha cfg a) := by
  cases a with
  | sendToWorker => exact later_mail along_sendToWorker
  | postFromWorker => exact later_mail (along_postFromWorker sha _)
  | acknowledgeForWorker =>
      exact later_mail (Tx.Along.bind (Tx.Along.of_readOnly (readOnly_workerSession sha _))
        fun _ => along_acknowledge _)
  | acknowledgeFromWorker =>
      exact later_mail (Tx.Along.bind (Tx.Along.of_readOnly (readOnly_dispatcherSession _ _))
        fun _ => along_acknowledge _)
  | storeArtifact row => exact later_storeArtifact row
  | delivered id now => exact later_deliver id
  | start => exact World.later_call (steps_start cfg _ _ _)
  | dismiss => exact World.later_call (steps_dismiss _)
  | recoverState => exact World.later_call (steps_recoverState _)
  | cleanupPending => exact World.later_call steps_cleanupPending
  | recover => exact World.later_call (steps_recoverState _)
  | revokeProvisioning now => exact Tx.wp_final (P := fun w' => w.Later w') (steps_revokeProvisioning now w)
  | resume tid s outcome =>
      simp only [World.step]
      split
      · next m hm =>
          obtain ⟨t, _, hnext⟩ := Option.bind_eq_some_iff.mp hm
          exact World.later_run (steps_next hnext)
      · exact refl_of World.Later w
  | restart => exact World.later_of_db rfl

theorem later_reached (sha : Sha256) (cfg : SpawnConfig) (acts later : List WorkerAct) :
    (World.reached sha cfg acts).Later (World.reached sha cfg (acts ++ later)) := by
  unfold World.reached
  rw [run_append]
  exact run_rel (I := fun _ => True) (fun _ _ _ => trivial) (refl_of World.Later)
    (fun h h' => trans_of World.Later h h') (fun _ a _ => later_step a) later trivial

theorem repeatable_reached (sha : Sha256) (cfg : SpawnConfig) (acts : List WorkerAct) :
    (World.reached sha cfg acts).db.Repeatable :=
  (later_reached sha cfg [] acts).repeatable repeatable_empty

end Runs

/-! ## Repeats -/

/-- A post of either side. -/
inductive Post where
  | toWorker (sessionId key body sender : String)
  | fromWorker (token key : String) (kind : MailboxKind) (body : String)

namespace Post

def run (sha : Sha256) (now : Time) : Post → MailboxM MessageRow
  | toWorker sessionId key body sender => sendToWorker sessionId key body sender now
  | fromWorker token key kind body => postFromWorker sha token key kind body now

/-- The session a post is for, whatever its status. -/
def session (sha : Sha256) (db : WorkerDb) : Post → Option SessionRow
  | toWorker sessionId _ _ _ => db.sessions.get? sessionId
  | fromWorker token _ _ _ => db.sessionOfToken sha token

def direction : Post → Direction
  | toWorker .. => .dispatcherToWorker
  | fromWorker .. => .workerToDispatcher

def key : Post → String
  | toWorker _ key _ _ => key
  | fromWorker _ key _ _ => key

def kind : Post → MailboxKind
  | toWorker .. => .message
  | fromWorker _ _ kind _ => kind

def sender (r : SessionRow) : Post → String
  | toWorker _ _ _ sender => sender
  | fromWorker .. => r.worker

def body : Post → String
  | toWorker _ _ body _ => body
  | fromWorker _ _ _ body => body

/-- The message is stored under the key of the post. -/
def Repeats (p : Post) (r : SessionRow) (m : MessageRow) : Prop :=
  m.sessionId = r.id ∧ m.direction = p.direction ∧ m.messageKey = p.key

end Post

section Repeats

variable {db : WorkerDb} {sha : Sha256} {now : Time} {p : Post} {r : SessionRow} {m : MessageRow} {cap : ℕ}
  {key sender body : String} {α : Type}

theorem posts_run (p : Post) : Posts (p.run sha now) := by
  cases p with
  | toWorker => exact posts_sendToWorker
  | fromWorker => exact posts_postFromWorker sha _

theorem Post.session_mem (h : p.session sha db = some r) : r ∈ db.sessions := by
  cases p with
  | toWorker => exact Table.mem_of_get? h
  | fromWorker token =>
      obtain ⟨digest, _, hfound⟩ := Option.bind_eq_some_iff.mp h
      exact List.mem_of_find?_eq_some (Option.filter_eq_some_iff.mp hfound).1

/-- A method of the mailbox that does not return leaves the rows alone. -/
theorem refused {m : MailboxM α} (hm : Posts m) (hv : db.Valid cap) (h : ∀ a db', m db ≠ (.ok a, db')) :
    ∃ e, m db = (.error e, db) := by
  rcases hrun : m db with ⟨e | a, db'⟩
  · exact ⟨e, by rw [hm.error hv hrun]⟩
  · exact absurd hrun (h a db')

theorem readOnly_ok {m : MailboxM α} {a : α} {db' : WorkerDb} (hm : Tx.ReadOnly m)
    (h : m db = (.ok a, db')) : db' = db := by
  have hdb := hm db
  rwa [h] at hdb

theorem existing_of_mem (h : Stored db.messages) (hm : m ∈ db.messages) :
    db.existing m.sessionId m.direction m.messageKey = some m := by
  cases hfound : db.existing m.sessionId m.direction m.messageKey with
  | none => exact absurd rfl (existing_eq_none.mp hfound m hm rfl rfl)
  | some found =>
      obtain ⟨hmem, hs, hd, hk⟩ := WorkerDb.existing_spec hfound
      rw [h.unique found hmem m hm hs hd hk]

theorem boundedText_of {value label : String} {max : ℕ} (h : Bounded value max) (db : WorkerDb) :
    boundedText value label max db = (.ok (), db) := by
  simp only [boundedText, Tx.bind_ok, Tx.ensure_ok]
  exact ⟨(), db, ⟨h.1, rfl⟩, h.2, rfl⟩

theorem messageKey_of (h : Bounded key 80 ∧ isMessageKey key = true) (db : WorkerDb) :
    messageKey key db = (.ok (), db) := by
  simp only [messageKey, Tx.bind_ok, Tx.ensure_ok]
  exact ⟨(), db, boundedText_of h.1 db, h.2, rfl⟩

theorem dispatcherSession_of {sessionId : String} {activeOnly : Bool} (h : db.sessions.get? sessionId = some r)
    (hactive : (!activeOnly || r.status.active) = true) :
    dispatcherSession sessionId activeOnly db = (.ok r, db) := by
  simp only [dispatcherSession, Tx.bind_ok, Tx.read_ok, Tx.require_ok]
  exact ⟨_, db, ⟨rfl, rfl⟩, by rw [h]; exact Option.filter_eq_some_iff.mpr ⟨rfl, hactive⟩, rfl⟩

/-- The insert of a message that is there returns it. -/
theorem insert_repeat {sessionId : String} {direction : Direction} {kind : MailboxKind}
    (hfound : db.existing sessionId direction key = some m) (hsame : m.same kind sender body = true) :
    insert sessionId direction kind key sender body now db = (.ok m, db) := by
  simp only [insert, Tx.bind_ok, Tx.read_ok]
  refine ⟨_, db, ⟨rfl, rfl⟩, ?_⟩
  rw [hfound]
  simp only [Tx.bind_ok, Tx.ensure_ok, Tx.pure_ok]
  exact ⟨(), db, ⟨hsame, rfl⟩, trivial, rfl⟩

/-- The update of a finish that is there changes nothing. -/
theorem insertFinish_repeat (hrep : db.Repeatable) (hr : r ∈ db.sessions) (hfinished : r.status = .finished)
    (hfound : db.existing r.id .workerToDispatcher key = some m) (hsame : m.same .finish r.worker body = true) :
    insertFinish r key body now db = (.ok m, db) := by
  obtain ⟨hmem, hid, hdir, _⟩ := WorkerDb.existing_spec hfound
  have hkind : m.kind = .finish := by
    simp only [MessageRow.same, Bool.and_eq_true, decide_eq_true_eq] at hsame
    exact hsame.1.1
  have hfin : m.isFinishOf r.id = true := by simp [MessageRow.isFinishOf, hid, hdir, hkind]
  obtain ⟨herror, htime⟩ := hrep.settled r hr hfinished
  simp only [insertFinish, insertFinishBody, Tx.transaction_ok, Tx.bind_ok, Tx.read_ok]
  refine ⟨_, db, ⟨rfl, rfl⟩, ?_⟩
  rw [hfound]
  simp only [Tx.bind_ok, Tx.ensure_ok, Tx.write_ok, Tx.pure_ok]
  refine ⟨(), db, ⟨hsame, rfl⟩, (), _, rfl, trivial, ?_⟩
  -- the row of the session is written as it is
  have hsessions : ∀ {f : SessionRow → SessionRow} {hf : ∀ r, (f r).id = r.id} {q : SessionRow → Bool}, f r = r →
      db.setSession r.id q f hf = db := by
    intro f hf q hrow
    have htable : db.sessions.update (fun x => decide (x.id = r.id) && q x) f hf = db.sessions := by
      refine Table.ext ((List.map_congr_left ?_).trans (List.map_id _))
      intro x hx
      split
      · next hp =>
          rw [Bool.and_eq_true, decide_eq_true_eq] at hp
          rw [Table.eq_of_key hx hr hp.1]
          exact hrow
      · rfl
    unfold WorkerDb.setSession
    rw [htable]
  refine hsessions ?_
  have hmax : max r.updatedAt m.createdAt = r.updatedAt := max_eq_left (htime m hmem hfin)
  rw [hmax, ← hfinished, ← herror]

theorem Post.Repeats.existing (h : p.Repeats r m) (hrep : db.Repeatable) (hm : m ∈ db.messages) :
    db.existing r.id p.direction p.key = some m := by
  have hfound := existing_of_mem hrep.stored hm
  rwa [h.1, h.2.1, h.2.2] at hfound

/-- A finish that is stored belongs to a session that is finished. -/
theorem finished_of_same (hv : db.Valid cap) (hr : r ∈ db.sessions) (hm : m ∈ db.messages)
    (hid : m.sessionId = r.id) (hdir : m.direction = .workerToDispatcher) (hkind : m.kind = .finish) :
    r.status = .finished := by
  have hfin : m.isFinishOf r.id = true := by simp [MessageRow.isFinishOf, hid, hdir, hkind]
  obtain ⟨row, hrow, hrid, hs⟩ := (hv.agrees.finished r.id).mp ⟨m, hm, hfin⟩
  rwa [Table.eq_of_key hrow hr hrid] at hs

/-- A post with the content that is stored returns what is stored: a finish always does, a
message for as long as the session is active. -/
theorem post_same (hv : db.Valid cap) (hrep : db.Repeatable) (hr : p.session sha db = some r)
    (hm : m ∈ db.messages) (hrepeats : p.Repeats r m) (hsame : m.same p.kind (p.sender r) p.body = true)
    (hactive : p.kind = .message → r.status.active = true) : p.run sha now db = (.ok m, db) := by
  have hfound := hrepeats.existing hrep hm
  have hproper := hrep.stored.proper m hm
  have hcontent := hsame
  simp only [MessageRow.same, Bool.and_eq_true, decide_eq_true_eq] at hcontent
  obtain ⟨⟨hkind, hsender⟩, hbody⟩ := hcontent
  rw [hrepeats.2.1, hrepeats.2.2, hsender, hbody] at hproper
  cases p with
  | toWorker sessionId key body sender =>
      have hid : r.id = sessionId := Table.key_of_get? hr
      simp only [Post.run, sendToWorker, Tx.bind_ok]
      exact ⟨r, db, dispatcherSession_of hr (hactive rfl), (), db, messageKey_of hproper.key db, (), db,
        boundedText_of (hproper.sender rfl) db, (), db, boundedText_of hproper.body db, insert_repeat hfound hsame⟩
  | fromWorker token key kind body =>
      simp only [Post.run, postFromWorker, Tx.bind_ok, Tx.read_ok]
      refine ⟨_, db, ⟨rfl, rfl⟩, (), db, messageKey_of hproper.key db, (), db, boundedText_of hproper.body db, ?_⟩
      cases kind with
      | message =>
          have hresolve : resolveWorkerSession sha db token = some r :=
            Option.filter_eq_some_iff.mpr ⟨hr, hactive rfl⟩
          rw [hresolve]
          exact insert_repeat hfound hsame
      | finish =>
          have hfinished := finished_of_same hv (Post.session_mem hr) hm hrepeats.1 hrepeats.2.1 hkind
          have hresolve : resolveWorkerSession sha db token = none := by
            unfold resolveWorkerSession
            rw [show db.sessionOfToken sha token = some r from hr, Option.filter_some, if_neg]
            rw [hfinished]
            decide
          rw [hresolve]
          simp only [Tx.bind_ok, Tx.require_ok, terminalFinishRetry, Tx.read_ok]
          refine ⟨some m, db, ⟨_, db, ⟨rfl, rfl⟩, ?_⟩, rfl, rfl⟩
          rw [show db.sessionOfToken sha token = some r from hr, Option.filter_some, if_pos (by simp [hfinished])]
          simp only [Tx.bind_ok, Tx.read_ok]
          refine ⟨_, db, ⟨rfl, rfl⟩, ?_⟩
          have hfound' : db.existing r.id .workerToDispatcher key = some m := hfound
          rw [hfound', if_pos (by exact hsame)]
          simp only [Tx.bind_ok, Tx.pure_ok]
          exact ⟨m, db, insertFinish_repeat hrep (Post.session_mem hr) hfinished hfound hsame, rfl, rfl⟩

/-- A plain message of a session that has ended does not return. -/
theorem post_ended {a : MessageRow} {db' : WorkerDb} (hr : p.session sha db = some r) (hkind : p.kind = .message)
    (hactive : r.status.active = false) : p.run sha now db ≠ (.ok a, db') := by
  intro h
  cases p with
  | toWorker sessionId key body sender =>
      simp only [Post.run, sendToWorker, dispatcherSession, Tx.bind_ok, Tx.read_ok, Tx.require_ok] at h
      obtain ⟨session, _, ⟨_, _, ⟨rfl, rfl⟩, hsession, _⟩, _⟩ := h
      obtain ⟨hsession, hs⟩ := Option.filter_eq_some_iff.mp hsession
      obtain rfl := Option.some.inj (hsession.symm.trans hr)
      rw [hactive] at hs
      cases hs
  | fromWorker token key kind body =>
      cases hkind
      simp only [Post.run, postFromWorker, Tx.bind_ok, Tx.read_ok] at h
      obtain ⟨_, _, ⟨rfl, rfl⟩, _, _, _, _, _, _, h⟩ := h
      cases hresolve : resolveWorkerSession sha db token with
      | none =>
          rw [hresolve] at h
          exact Tx.throw_ok.mp h
      | some session =>
          obtain ⟨hsession, hs⟩ := Option.filter_eq_some_iff.mp hresolve
          obtain rfl := Option.some.inj (hsession.symm.trans hr)
          rw [hactive] at hs
          cases hs

/-! ## What a post stores -/

/-- The message is stored, with this key and content. -/
def Holds (sessionId : String) (direction : Direction) (kind : MailboxKind) (key sender body : String)
    (m : MessageRow) (db : WorkerDb) : Prop :=
  m ∈ db.messages ∧ m.sessionId = sessionId ∧ m.direction = direction ∧ m.messageKey = key ∧
    m.same kind sender body = true

theorem holds_existing {sessionId : String} {direction : Direction} {kind : MailboxKind}
    (h : db.existing sessionId direction key = some m) (hsame : m.same kind sender body = true) :
    Holds sessionId direction kind key sender body m db :=
  ⟨(WorkerDb.existing_spec h).1, (WorkerDb.existing_spec h).2.1, (WorkerDb.existing_spec h).2.2.1,
    (WorkerDb.existing_spec h).2.2.2, hsame⟩

theorem holds_new (sessionId : String) (direction : Direction) (kind : MailboxKind) (key sender body : String) :
    Holds sessionId direction kind key sender body
      ⟨db.messages.next, sessionId, direction, kind, key, sender, body, now, none⟩
      (db.addMessage sessionId direction kind key sender body now) :=
  ⟨AutoTable.mem_push.mpr (Or.inr rfl), rfl, rfl, rfl, by simp [MessageRow.same]⟩

theorem insert_holds (sessionId : String) (direction : Direction) (kind : MailboxKind) :
    Tx.wp (insert sessionId direction kind key sender body now)
      (fun m db' => Holds sessionId direction kind key sender body m db') (fun _ _ => True) db := by
  simp only [insert, Tx.wp_bind, Tx.wp_read]
  cases hprior : db.existing sessionId direction key with
  | some prior =>
      simp only [Tx.wp_bind, Tx.wp_ensure, Tx.wp_pure]
      exact ⟨fun hsame => holds_existing hprior hsame, fun _ => trivial⟩
  | none =>
      simp only [Tx.wp_bind, Tx.wp_read, Tx.wp_ensure, Tx.wp_attempt, wp_insertMessage]
      refine ⟨fun _ => ⟨fun _ => ⟨fun _ => ?_, fun _ => ?_⟩, fun _ => trivial⟩, fun _ => trivial⟩
      · exact Tx.wp_pure.mpr (holds_new _ _ _ _ _ _)
      · simp

theorem insertFinish_holds (r : SessionRow) :
    Tx.wp (insertFinish r key body now)
      (fun m db' => Holds r.id .workerToDispatcher .finish key r.worker body m db') (fun _ _ => True) db := by
  simp only [insertFinish, insertFinishBody, Tx.wp_transaction, Tx.wp_bind, Tx.wp_read]
  cases hprior : db.existing r.id .workerToDispatcher key with
  | some prior =>
      simp only [Tx.wp_bind, Tx.wp_ensure, Tx.wp_write, Tx.wp_pure]
      exact ⟨fun hsame => holds_existing hprior hsame, fun _ => trivial⟩
  | none =>
      simp only [Tx.wp_bind, Tx.wp_read, Tx.wp_ensure, Tx.wp_require, wp_insertMessage, Tx.wp_write, Tx.wp_pure]
      exact ⟨fun _ => ⟨fun _ _ => ⟨fun _ => ⟨fun _ => ⟨fun _ => holds_new _ _ _ _ _ _, fun _ => trivial⟩,
        fun _ => trivial⟩, fun _ => trivial⟩, fun _ => trivial⟩, fun _ => trivial⟩

/-- A post that returns has its content stored under its key. -/
theorem post_holds {a : MessageRow} {db' : WorkerDb} (h : p.run sha now db = (.ok a, db')) :
    ∃ r, p.session sha db = some r ∧ Holds r.id p.direction p.kind p.key (p.sender r) p.body a db' := by
  cases p with
  | toWorker sessionId key body sender =>
      simp only [Post.run, sendToWorker, Tx.bind_ok] at h
      obtain ⟨session, db₁, hsession, _, db₂, hkey, _, db₃, hsender, _, db₄, hbody, h⟩ := h
      obtain rfl := readOnly_ok (readOnly_dispatcherSession _ _) hsession
      obtain rfl := readOnly_ok (readOnly_messageKey _) hkey
      obtain rfl := readOnly_ok (readOnly_boundedText _ _ _) hsender
      obtain rfl := readOnly_ok (readOnly_boundedText _ _ _) hbody
      simp only [dispatcherSession, Tx.bind_ok, Tx.read_ok, Tx.require_ok] at hsession
      obtain ⟨_, _, ⟨rfl, rfl⟩, hsession, _⟩ := hsession
      exact ⟨session, (Option.filter_eq_some_iff.mp hsession).1, (Tx.wp_iff.mp (insert_holds _ _ _)).1 _ _ h⟩
  | fromWorker token key kind body =>
      simp only [Post.run, postFromWorker, Tx.bind_ok, Tx.read_ok] at h
      obtain ⟨_, _, ⟨rfl, rfl⟩, _, db₁, hkey, _, db₂, hbody, h⟩ := h
      obtain rfl := readOnly_ok (readOnly_messageKey _) hkey
      obtain rfl := readOnly_ok (readOnly_boundedText _ _ _) hbody
      cases hactive : resolveWorkerSession sha db₂ token with
      | some session =>
          rw [hactive] at h
          refine ⟨session, (Option.filter_eq_some_iff.mp hactive).1, ?_⟩
          cases kind with
          | message => exact (Tx.wp_iff.mp (insert_holds _ _ _)).1 _ _ h
          | finish => exact (Tx.wp_iff.mp (insertFinish_holds session)).1 _ _ h
      | none =>
          rw [hactive] at h
          cases kind with
          | message => exact (Tx.throw_ok.mp h).elim
          | finish =>
              simp only [Tx.bind_ok, Tx.require_ok, terminalFinishRetry, Tx.read_ok] at h
              obtain ⟨_, _, ⟨_, _, ⟨rfl, rfl⟩, h⟩, rfl, rfl⟩ := h
              generalize hsession : Option.filter _ _ = found at h
              cases found with
              | none => cases (Tx.pure_ok.mp h).1
              | some session =>
                  refine ⟨session, (Option.filter_eq_some_iff.mp hsession).1, ?_⟩
                  simp only [Tx.bind_ok, Tx.read_ok] at h
                  obtain ⟨_, _, ⟨rfl, rfl⟩, h⟩ := h
                  split at h
                  · simp only [Tx.bind_ok, Tx.pure_ok] at h
                    obtain ⟨message, _, hfinish, heq, rfl⟩ := h
                    cases heq
                    exact (Tx.wp_iff.mp (insertFinish_holds session)).1 _ _ hfinish
                  · cases (Tx.pure_ok.mp h).1

theorem along_post (p : Post) : Tx.Along Later (p.run sha now) := by
  cases p with
  | toWorker => exact along_sendToWorker
  | fromWorker => exact along_postFromWorker sha _

/-- A post under a key that is taken, with other content, does not return: what is stored stays
stored, and a key has one message. -/
theorem post_other {a : MessageRow} {db' : WorkerDb} (hrep : db.Repeatable) (hr : p.session sha db = some r)
    (hm : m ∈ db.messages) (hrepeats : p.Repeats r m) (hother : m.same p.kind (p.sender r) p.body = false) :
    p.run sha now db ≠ (.ok a, db') := by
  intro h
  obtain ⟨r', hr', hmem, hid, hdir, hkey, hsame⟩ := post_holds h
  obtain rfl := Option.some.inj (hr.symm.trans hr')
  have hlater : Later db db' := (Tx.wp_iff.mp (along_post p db)).1 a db' h
  obtain ⟨m', hm', hstays⟩ := hlater.messages m hm
  have heq : m' = a := (hlater.repeatable hrep).stored.unique m' hm' a hmem
    (by rw [hstays.same, hid]; exact hrepeats.1) (by rw [hstays.same, hdir]; exact hrepeats.2.1)
    (by rw [hstays.same, hkey]; exact hrepeats.2.2)
  have hcontent : m'.same p.kind (p.sender r) p.body = m.same p.kind (p.sender r) p.body := by
    rw [hstays.same]
    rfl
  rw [← heq, hcontent, hother] at hsame
  cases hsame

/-! ## Pending messages -/

/-- The messages of a session in a direction that nobody has acknowledged, in the order they
were stored. -/
def WorkerDb.unacknowledged (db : WorkerDb) (sessionId : String) (direction : Direction) : List MessageRow :=
  db.messages.rows.filter (fun m => decide (m.sessionId = sessionId) && decide (m.direction = direction) &&
    m.acknowledgedAt.isNone)

/-- The numbers of the rows go up, so the query's order is that of the rows. -/
theorem pending_ok (hrep : db.Repeatable) {sessionId : String} {direction : Direction} {limit : ℤ}
    (hlimit : 1 ≤ limit ∧ limit ≤ 100) : pending sessionId direction limit db =
      (.ok ((db.unacknowledged sessionId direction).take limit.toNat), db) := by
  have hsorted : (db.unacknowledged sessionId direction).Pairwise (fun a b => decide (a.id ≤ b.id) = true) :=
    (hrep.stored.ordered.filter _).imp (fun h => decide_eq_true h.le)
  have horder : orderBy (fun a b => decide (a.id ≤ b.id)) (db.unacknowledged sessionId direction) =
      db.unacknowledged sessionId direction := hsorted.insertionSort_eq
  simp only [pending, boundedLimit, Tx.bind_ok, Tx.ensure_ok, Tx.read_ok]
  refine ⟨(), db, ⟨hlimit, rfl⟩, ?_, rfl⟩
  exact congrArg (List.take limit.toNat) horder

end Repeats

/-! ## Every sequence of posts -/

/-- In every reached world: a post that returns has stored its content under its key. A later
post under that key, with equal content, returns the stored message and changes nothing, if it
is a finish or its session is active; a plain message of a session that ended, and a post with
other content, are rejected and change nothing. The pending list is the first messages that nobody has acknowledged, up to the limit, in
the order they were stored. In every later world every message is still there, as it was,
and its acknowledgement is the first it got. -/
theorem reached_posts (sha : Sha256) (cfg : SpawnConfig) (acts : List WorkerAct) :
    (∀ p now m db', Post.run sha now p (World.reached sha cfg acts).db = (.ok m, db') →
      ∃ r, p.session sha (World.reached sha cfg acts).db = some r ∧
        Holds r.id p.direction p.kind p.key (p.sender r) p.body m db') ∧
    (∀ p now r m, Post.session sha (World.reached sha cfg acts).db p = some r →
      m ∈ (World.reached sha cfg acts).db.messages → p.Repeats r m →
        (m.same p.kind (p.sender r) p.body = true → (p.kind = .message → r.status.active = true) →
          p.run sha now (World.reached sha cfg acts).db = (.ok m, (World.reached sha cfg acts).db)) ∧
        (m.same p.kind (p.sender r) p.body = false ∨ (p.kind = .message ∧ r.status.active = false) →
          ∃ e, p.run sha now (World.reached sha cfg acts).db = (.error e, (World.reached sha cfg acts).db))) ∧
    (∀ sessionId direction limit, 1 ≤ limit ∧ limit ≤ 100 →
      pending sessionId direction limit (World.reached sha cfg acts).db =
        (.ok (((World.reached sha cfg acts).db.unacknowledged sessionId direction).take limit.toNat),
          (World.reached sha cfg acts).db)) ∧
    ∀ later, ∀ m ∈ (World.reached sha cfg acts).db.messages,
      ∃ m' ∈ (World.reached sha cfg (acts ++ later)).db.messages, m.Later m' := by
  have hv := (sound_reached sha cfg acts).valid
  have hrep := repeatable_reached sha cfg acts
  refine ⟨fun _ _ _ _ h => post_holds h, fun p now r m hr hm hrepeats => ⟨?_, ?_⟩,
    fun _ _ _ hlimit => pending_ok hrep hlimit, ?_⟩
  · intro hsame hactive
    exact post_same hv hrep hr hm hrepeats hsame hactive
  · rintro (hother | ⟨hkind, hactive⟩)
    · exact refused (posts_run p) hv (fun _ _ => post_other hrep hr hm hrepeats hother)
    · exact refused (posts_run p) hv (fun _ _ => post_ended hr hkind hactive)
  · exact fun later => (later_reached sha cfg acts later).messages

section Counterexample

def zeroDigest : String := String.ofList (List.replicate 64 '0')

def zeroToken : String := String.ofList (List.replicate 43 'A')

/-- A worker is started and posts two messages and a finish. -/
def zeroActs : List WorkerAct :=
  let mind := ((MindCall.create ⟨"Write it", none, none, none, none, none, none, [], [], none,
    none⟩ [7] ⟨0, 0, 0⟩).exec Js.Unicode.ascii MindDb.empty).2
  [.start ⟨true, 1, 1, 1, none⟩ "elm-00000007" .undefined ⟨["w1"], "quiet-fox", zeroDigest, mind⟩,
    .postFromWorker zeroToken "k1" .message "hello" 2, .postFromWorker zeroToken "k2" .message "world" 3,
    .postFromWorker zeroToken "k3" .finish "done" 4]

def zeroWorld : World :=
  World.reached (fun _ => zeroDigest) ⟨true, 1, "main", fun _ => none, false⟩ zeroActs

/-- The first message posted again, as it was, is refused, for its worker has finished; and three
messages wait where a pull with the limit one hands out one. -/
theorem post_not_repeated :
    zeroWorld.db.messages.rows.head? =
        some ⟨1, "w1", .workerToDispatcher, .message, "k1", "worker:quiet-fox", "hello", 2, none⟩ ∧
      (postFromWorker (fun _ => zeroDigest) zeroToken "k1" .message "hello" 5 zeroWorld.db).1.toOption = none ∧
      ((zeroWorld.db.unacknowledged "w1" .workerToDispatcher).length,
        (pending "w1" .workerToDispatcher 1 zeroWorld.db).1.toOption.map List.length) = (3, some 1) := by
  decide +kernel

end Counterexample

end Elpis.Worker
